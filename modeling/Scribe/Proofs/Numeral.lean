import Scribe.Literal
import Scribe.Proofs.Word

/-! Literals as words. Without its sign, a number is one word: a run of digits and letters, in which
a point may stand between two digits. Quoted text is one word as long as no quote stands inside. -/

namespace Scribe

/-! ## Digits -/

theorem isDigit_digitChar {d : Nat} (h : d < 10) : (digitChar d).isDigit = true := by
  have hall : ∀ d < 10, (digitChar d).isDigit = true := by decide
  exact hall d h

theorem isTail_digitChar {d : Nat} (h : d < 16) : Name.isTail (digitChar d) = true := by
  have hall : ∀ d < 16, Name.isTail (digitChar d) = true := by decide
  exact hall d h

theorem isTail_of_isDigit {c : Char} (h : c.isDigit = true) : Name.isTail c = true := by
  simp [Name.isTail, Char.isAlphanum, h]

theorem isDigit_of_mem_decimalDigits {n : Nat} {c : Char} (h : c ∈ decimalDigits n) :
    c.isDigit = true := by
  fun_induction decimalDigits n with
  | case1 n hn =>
    obtain rfl := List.mem_singleton.mp h
    exact isDigit_digitChar hn
  | case2 n hn ih =>
    rcases List.mem_append.mp h with h | h
    · exact ih h
    · obtain rfl := List.mem_singleton.mp h
      exact isDigit_digitChar (Nat.mod_lt _ (by decide))

theorem exists_digit_of_mem_fixedDigits {width n : Nat} {c : Char}
    (h : c ∈ fixedDigits 16 width n) : ∃ d < 16, c = digitChar d := by
  induction width generalizing n with
  | zero => cases h
  | succ width ih =>
    rcases List.mem_append.mp h with h | h
    · exact ih h
    · exact ⟨n % 16, Nat.mod_lt _ (by decide), List.mem_singleton.mp h⟩

theorem isTail_of_mem_fixedDigits {width n : Nat} {c : Char} (h : c ∈ fixedDigits 16 width n) :
    Name.isTail c = true := by
  obtain ⟨d, hd, rfl⟩ := exists_digit_of_mem_fixedDigits h
  exact isTail_digitChar hd

/-! ## Whole numbers -/

theorem isWord_decimal (n : Nat) : IsWord (decimal n).toList := by
  rw [decimal, String.toList_ofList]
  exact isWord_run (decimalDigits_ne_nil n) fun c hc =>
    isTail_of_isDigit (isDigit_of_mem_decimalDigits hc)

namespace Literal

theorem isWord_hexadecimal (v : UInt32) : IsWord (hexadecimal v).toList := by
  rw [hexadecimal, String.toList_append]
  refine isWord_run (by simp) fun c hc => ?_
  rcases List.mem_append.mp hc with hc | hc
  · have hall : ("0x".toList.all Name.isTail) = true := by decide
    exact List.all_eq_true.mp hall c hc
  · rw [String.toList_ofList] at hc
    exact isTail_of_mem_fixedDigits hc

theorem isWord_unsigned (v : UInt32) : IsWord (unsigned v).toList := by
  unfold unsigned
  split
  · exact isWord_hexadecimal v
  · exact isWord_decimal _

theorem isWord_bool (b : Bool) : IsWord (bool b).toList := by
  cases b <;> exact isWord_plain (by decide)

theorem isWord_signed {v : Int32} (h : 0 ≤ v) : IsWord (signed v).toList := by
  rw [signed, if_pos h]
  exact isWord_unsigned _

theorem exists_isWord_signed {v : Int32} (h : ¬ 0 ≤ v) :
    ∃ w, (signed v).toList = '-' :: w ∧ IsWord w := by
  refine ⟨(decimal v.toInt.natAbs).toList, ?_, isWord_decimal _⟩
  rw [signed, if_neg h, String.toList_append]
  rfl

/-! ## Single-precision numbers -/

theorem wordRun_pointed {a b rest : List Char} (ha : ∀ c ∈ a, Name.isTail c = true)
    (hb : ∀ c ∈ b, Name.isTail c = true) (hdigit : startsWithDigit b = true) (hr : Stops rest) :
    wordRun (a ++ '.' :: b ++ rest) = (a ++ '.' :: b, rest) := by
  induction a with
  | nil =>
    have hpoint : startsWithDigit (b ++ rest) = true := by
      cases b with
      | nil => cases hdigit
      | cons d b => exact hdigit
    have hrest := wordRun_append hb hr
    simp [wordRun, hpoint, hrest]
  | cons c a ih =>
    have hc := ha c (by simp)
    have hrest := ih fun x hx => ha x (by simp [hx])
    rw [List.cons_append, List.cons_append, wordRun, hc, hrest]
    rfl

theorem isWord_pointed {a b : List Char} (hne : a ≠ []) (ha : ∀ c ∈ a, Name.isTail c = true)
    (hb : ∀ c ∈ b, Name.isTail c = true) (hdigit : startsWithDigit b = true) :
    IsWord (a ++ '.' :: b) := by
  cases a with
  | nil => exact absurd rfl hne
  | cons c a =>
    exact isWord_of_wordRun (ha c (by simp)) fun _ hr => wordRun_pointed ha hb hdigit hr

theorem isDigit_of_mem_zeros {k : Nat} {c : Char} (h : c ∈ List.replicate k '0') :
    c.isDigit = true := by
  rw [List.eq_of_mem_replicate h]
  decide

theorem positional_whole {d : Decimal} (h : 45 ≤ d.grid) :
    d.positional = decimalDigits d.coefficient ++ List.replicate (d.grid - 45) '0' ∧
      ∀ c ∈ d.positional, c.isDigit = true := by
  have heq : d.positional = decimalDigits d.coefficient ++ List.replicate (d.grid - 45) '0' :=
    if_pos h
  refine ⟨heq, fun c hc => ?_⟩
  rw [heq] at hc
  rcases List.mem_append.mp hc with hc | hc
  · exact isDigit_of_mem_decimalDigits hc
  · exact isDigit_of_mem_zeros hc

/-- On a fine grid the point stands among the digits, with zeros in front where there are too
few. -/
theorem positional_pointed {d : Decimal} (h : d.grid < 45) :
    ∃ a b k, d.positional = a ++ '.' :: b ∧ a ≠ [] ∧ b.length = 45 - d.grid ∧
      a ++ b = List.replicate k '0' ++ decimalDigits d.coefficient ∧
      ∀ c ∈ a ++ b, c.isDigit = true := by
  unfold Decimal.positional
  rw [if_neg (by omega)]
  let places := 45 - d.grid
  let digits := decimalDigits d.coefficient
  let padded := List.replicate (places + 1 - digits.length) '0' ++ digits
  have hlength : places + 1 ≤ padded.length := by
    simp only [padded, List.length_append, List.length_replicate]
    omega
  refine ⟨padded.take (padded.length - places), padded.drop (padded.length - places), _, rfl, ?_,
    ?_, List.take_append_drop _ _, fun c hc => ?_⟩
  · apply List.ne_nil_of_length_pos
    rw [List.length_take]
    omega
  · rw [List.length_drop]
    omega
  · rw [List.take_append_drop] at hc
    rcases List.mem_append.mp hc with hc | hc
    · exact isDigit_of_mem_zeros hc
    · exact isDigit_of_mem_decimalDigits hc

/-- Digits, or digits on both sides of a point. -/
theorem positional_cases (d : Decimal) :
    (d.positional ≠ [] ∧ ∀ c ∈ d.positional, c.isDigit = true) ∨
    ∃ a b, d.positional = a ++ '.' :: b ∧ a ≠ [] ∧ b ≠ [] ∧ (∀ c ∈ a, c.isDigit = true) ∧
      ∀ c ∈ b, c.isDigit = true := by
  rcases Nat.lt_or_ge d.grid 45 with hgrid | hgrid
  · right
    obtain ⟨a, b, k, heq, hne, hlength, -, hdigits⟩ := positional_pointed hgrid
    refine ⟨a, b, heq, hne, List.ne_nil_of_length_pos (by omega), fun c hc => ?_, fun c hc => ?_⟩
    · exact hdigits c (List.mem_append_left b hc)
    · exact hdigits c (List.mem_append_right a hc)
  · left
    obtain ⟨heq, hdigits⟩ := positional_whole hgrid
    refine ⟨fun h => ?_, hdigits⟩
    rw [heq] at h
    exact decimalDigits_ne_nil _ (List.append_eq_nil_iff.mp h).1

theorem isWord_magnitudeText (x : Single) : IsWord (x.magnitudeText ++ ['f']) := by
  have hf : Name.isTail 'f' = true := by decide
  unfold Single.magnitudeText
  split
  · exact isWord_run (by simp) (List.all_eq_true.mp (by decide))
  · split
    · exact isWord_run (by simp) (List.all_eq_true.mp (by decide))
    · rcases positional_cases x.shortest with ⟨hne, hdigits⟩ | ⟨a, b, heq, hna, hnb, ha, hb⟩
      · refine isWord_run (by simp) fun c hc => ?_
        rcases List.mem_append.mp hc with hc | hc
        · exact isTail_of_isDigit (hdigits c hc)
        · rw [List.mem_singleton.mp hc]
          exact hf
      · rw [heq, List.append_assoc, List.cons_append]
        refine isWord_pointed hna (fun c hc => isTail_of_isDigit (ha c hc)) (fun c hc => ?_) ?_
        · rcases List.mem_append.mp hc with hc | hc
          · exact isTail_of_isDigit (hb c hc)
          · rw [List.mem_singleton.mp hc]
            exact hf
        · cases b with
          | nil => exact absurd rfl hnb
          | cons d b => exact hb d (by simp)

theorem isWord_single {x : Single} (h : x.isNaN = true ∨ x.negative = false) :
    IsWord (single x).toList := by
  rw [single, String.toList_ofList, Single.text]
  split
  · exact isWord_run (by simp) (List.all_eq_true.mp (by decide))
  · next hnan =>
    rcases h with h | h
    · exact absurd h hnan
    · rw [h]
      exact isWord_magnitudeText x

theorem exists_isWord_single {x : Single} (hnan : x.isNaN = false) (h : x.negative = true) :
    ∃ w, (single x).toList = '-' :: w ∧ IsWord w := by
  refine ⟨x.magnitudeText ++ ['f'], ?_, isWord_magnitudeText x⟩
  rw [single, String.toList_ofList, Single.text, hnan, h]
  rfl

/-! ## Quoted text -/

theorem throughQuote_append {w : List Char} (hw : '"' ∉ w) (rest : List Char) :
    throughQuote (w ++ '"' :: rest) = some (w ++ ['"'], rest) := by
  induction w with
  | nil => rfl
  | cons c w ih =>
    have hc : c ≠ '"' := fun h => hw (h ▸ List.mem_cons_self ..)
    have hrest := ih fun h => hw (List.mem_cons_of_mem _ h)
    simp [throughQuote, hc, hrest]

theorem isWord_quoted {content : String} (h : '"' ∉ content.toList) :
    IsWord (quoted content).toList := by
  intro rest _
  have hread := throughQuote_append h rest
  simp [quoted, scanWord, hread]

end Literal

end Scribe
