import Scribe.Name

/-! Words in source text: names, numbers and quoted text. `scanWord` takes the longest word that a
text starts with. A word is read back before anything that does not continue it; here that is shown
of names, plain or delimited, as long as no backtick stands inside. -/

namespace Scribe

/-! ## Names -/

namespace Name

/-- The name that a written one stands for. -/
def ofWritten (written : String) : String :=
  if isPlain written then written
  else String.ofList ((written.toList.drop 2).dropLast.dropLast)

theorem toList_delimited (name : String) :
    (delimiter ++ name ++ delimiter).toList = '`' :: '`' :: (name.toList ++ ['`', '`']) := by
  simp [delimiter]

theorem not_isPlain_delimited (name : String) :
    isPlain (delimiter ++ name ++ delimiter) = false := by
  rw [isPlain, toList_delimited]
  rfl

theorem ofWritten_written (name : String) : ofWritten (written name) = name := by
  unfold written
  split
  · next h => simp [ofWritten, h]
  · rw [ofWritten, not_isPlain_delimited, toList_delimited]
    simp

theorem exists_cons_of_isPlain {name : String} (h : isPlain name = true) :
    ∃ c cs, name.toList = c :: cs ∧ isHead c = true ∧ ∀ x ∈ cs, isTail x = true := by
  unfold isPlain at h
  split at h
  · cases h
  · next c cs hcs =>
    rw [Bool.and_eq_true] at h
    exact ⟨c, cs, hcs, h.1, List.all_eq_true.mp h.2⟩

theorem isTail_of_isHead {c : Char} (h : isHead c = true) : isTail c = true := by
  simp only [isHead, isTail, Char.isAlphanum, Bool.or_eq_true] at h ⊢
  rcases h with h | h
  · exact Or.inl (Or.inl h)
  · exact Or.inr h

theorem isTail_of_mem {name : String} (h : isPlain name = true) {c : Char}
    (hc : c ∈ name.toList) : isTail c = true := by
  obtain ⟨d, ds, hds, hd, htail⟩ := exists_cons_of_isPlain h
  rw [hds, List.mem_cons] at hc
  rcases hc with rfl | hc
  · exact isTail_of_isHead hd
  · exact htail c hc

end Name

/-! ## Scanning -/

def startsWithDigit : List Char → Bool
  | c :: _ => c.isDigit
  | [] => false

/-- The longest run of name characters, and what is left. A point belongs to it when a digit
follows. -/
def wordRun : List Char → List Char × List Char
  | [] => ([], [])
  | c :: rest =>
    if Name.isTail c || (c == '.' && startsWithDigit rest) then
      (c :: (wordRun rest).1, (wordRun rest).2)
    else ([], c :: rest)

/-- Up to and with the next quote. -/
def throughQuote : List Char → Option (List Char × List Char)
  | [] => none
  | c :: rest =>
    if c = '"' then some (['"'], rest) else (throughQuote rest).map fun p => (c :: p.1, p.2)

/-- Up to and with the next two backticks. -/
def throughDelimiter : List Char → Option (List Char × List Char)
  | '`' :: '`' :: rest => some (['`', '`'], rest)
  | c :: rest => (throughDelimiter rest).map fun p => (c :: p.1, p.2)
  | [] => none

def scanWord : List Char → Option (List Char × List Char)
  | '"' :: rest => (throughQuote rest).map fun p => ('"' :: p.1, p.2)
  | '`' :: '`' :: rest => (throughDelimiter rest).map fun p => ('`' :: '`' :: p.1, p.2)
  | cs => if (wordRun cs).1 = [] then none else some (wordRun cs)

/-- No word goes on here. -/
def Stops (rest : List Char) : Prop := wordRun rest = ([], rest)

/-- A text that is read back as one word before anything that does not continue it. -/
def IsWord (w : List Char) : Prop := ∀ rest, Stops rest → scanWord (w ++ rest) = some (w, rest)

theorem stops_nil : Stops [] := rfl

theorem stops_cons {c : Char} {rest : List Char} (h : Name.isTail c = false) (hp : c ≠ '.') :
    Stops (c :: rest) := by
  simp [Stops, wordRun, h, hp]

theorem stops_point {c : Char} {rest : List Char} (h : c.isDigit = false) :
    Stops ('.' :: c :: rest) := by
  have hpoint : Name.isTail '.' = false := by decide
  simp [Stops, wordRun, startsWithDigit, h, hpoint]

theorem wordRun_append {w rest : List Char} (hw : ∀ c ∈ w, Name.isTail c = true)
    (hr : Stops rest) : wordRun (w ++ rest) = (w, rest) := by
  induction w with
  | nil => exact hr
  | cons c w ih =>
    have hc := hw c (by simp)
    have hw' := ih fun x hx => hw x (by simp [hx])
    simp [wordRun, hc, hw']

/-- A text starts with one run of name characters only. -/
theorem wordRun_unique {v w r t : List Char} (hv : ∀ c ∈ v, Name.isTail c = true)
    (hw : ∀ c ∈ w, Name.isTail c = true) (hr : Stops r) (ht : Stops t) (h : v ++ r = w ++ t) :
    v = w ∧ r = t := by
  have hrun := wordRun_append hv hr
  rw [h, wordRun_append hw ht] at hrun
  obtain ⟨hword, hrest⟩ := Prod.mk.inj hrun
  exact ⟨hword.symm, hrest.symm⟩

theorem throughDelimiter_append {w : List Char} (hw : '`' ∉ w) (rest : List Char) :
    throughDelimiter (w ++ '`' :: '`' :: rest) = some (w ++ ['`', '`'], rest) := by
  induction w with
  | nil => rfl
  | cons c w ih =>
    have hc : c ≠ '`' := fun h => hw (h ▸ List.mem_cons_self ..)
    have hw' : '`' ∉ w := fun h => hw (List.mem_cons_of_mem _ h)
    rw [List.cons_append, throughDelimiter, ih hw']
    · rfl
    · intro rest' h
      cases h
      exact absurd rfl hc

/-- A run of name characters, with points before digits, is a word if it starts with one. -/
theorem isWord_of_wordRun {c : Char} {cs : List Char} (hc : Name.isTail c = true)
    (hrun : ∀ rest, Stops rest → wordRun (c :: cs ++ rest) = (c :: cs, rest)) :
    IsWord (c :: cs) := by
  intro rest hr
  have hquote : c ≠ '"' := by rintro rfl; cases hc
  have htick : c ≠ '`' := by rintro rfl; cases hc
  have h := hrun rest hr
  rw [List.cons_append] at h ⊢
  rw [scanWord]
  · rw [h]
    simp
  · intro rest' h'
    exact hquote (List.cons.inj h').1
  · intro rest' h'
    exact htick (List.cons.inj h').1

theorem isWord_run {w : List Char} (hne : w ≠ []) (hw : ∀ c ∈ w, Name.isTail c = true) :
    IsWord w := by
  cases w with
  | nil => exact absurd rfl hne
  | cons c cs => exact isWord_of_wordRun (hw c (by simp)) fun _ hr => wordRun_append hw hr

theorem isWord_plain {name : String} (h : Name.isPlain name = true) : IsWord name.toList := by
  obtain ⟨c, cs, hcs, -, -⟩ := Name.exists_cons_of_isPlain h
  refine isWord_run ?_ fun c hc => Name.isTail_of_mem h hc
  rw [hcs]
  exact List.cons_ne_nil c cs

theorem isWord_delimited {name : String} (h : '`' ∉ name.toList) :
    IsWord (Name.delimiter ++ name ++ Name.delimiter).toList := by
  intro rest _
  rw [Name.toList_delimited]
  simp [scanWord, throughDelimiter_append h]

theorem isWord_written {name : String} (h : '`' ∉ name.toList) :
    IsWord (Name.written name).toList := by
  unfold Name.written
  split
  · next hp => exact isWord_plain hp
  · exact isWord_delimited h

theorem isDigit_of_isHead {c : Char} (h : Name.isHead c = true) : c.isDigit = false := by
  cases hd : c.isDigit with
  | false => rfl
  | true =>
    unfold Name.isHead Char.isAlpha Char.isUpper Char.isLower at h
    unfold Char.isDigit at hd
    simp only [Bool.or_eq_true, Bool.and_eq_true, decide_eq_true_eq, beq_iff_eq, ge_iff_le,
      UInt32.le_iff_toNat_le, Char.reduceVal, UInt32.reduceToNat] at h hd
    rcases h with (h | h) | rfl
    · omega
    · omega
    · simp at hd

/-- A written name never starts with a digit, so a point before it ends a number. -/
theorem stops_field (name : String) (rest : List Char) :
    Stops ('.' :: ((Name.written name).toList ++ rest)) := by
  unfold Name.written
  split
  · next hp =>
    obtain ⟨c, cs, hcs, hc, -⟩ := Name.exists_cons_of_isPlain hp
    rw [hcs]
    exact stops_point (isDigit_of_isHead hc)
  · rw [Name.toList_delimited]
    exact stops_point (by decide)

end Scribe
