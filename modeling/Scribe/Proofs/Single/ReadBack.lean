import Mathlib
import Scribe.Proofs.Numeral
import Scribe.Proofs.Single.Shortest

/-! Reading single-precision literals back. The digits of a literal are read as an exact rational,
and this rounds to the number that was written and to no other, with no digit to spare. So no two
numbers have the same text. -/

namespace Scribe

/-! ## Reading decimals -/

namespace Numeral

/-- Digits, with one point at most and a digit on either side of it. -/
def read? (cs : List Char) : Option Numeral :=
  let whole := cs.takeWhile Char.isDigit
  match cs.dropWhile Char.isDigit with
  | [] => if whole = [] then none else some ⟨Nat.ofDigitChars 10 whole 0, 0⟩
  | mark :: places =>
    if mark = '.' ∧ whole ≠ [] ∧ places ≠ [] ∧ places.all Char.isDigit then
      some ⟨Nat.ofDigitChars 10 (whole ++ places) 0, -places.length⟩
    else none

/-- How many digits there are but for zeros at the end. -/
def significant (n : Numeral) : Nat := ((Nat.digits 10 n.coefficient).dropWhile (· == 0)).length

theorem read?_whole {cs : List Char} (hne : cs ≠ []) (h : ∀ c ∈ cs, c.isDigit = true) :
    read? cs = some ⟨Nat.ofDigitChars 10 cs 0, 0⟩ := by
  simp only [read?, List.dropWhile_eq_nil_iff.mpr h, List.takeWhile_eq_self_iff.mpr h, if_neg hne]

theorem read?_pointed {a b : List Char} (hna : a ≠ []) (hnb : b ≠ [])
    (ha : ∀ c ∈ a, c.isDigit = true) (hb : ∀ c ∈ b, c.isDigit = true) :
    read? (a ++ '.' :: b) = some ⟨Nat.ofDigitChars 10 (a ++ b) 0, -b.length⟩ := by
  have htake : (a ++ '.' :: b).takeWhile Char.isDigit = a := by
    rw [List.takeWhile_append_of_pos ha, List.takeWhile_cons_of_neg (by decide), List.append_nil]
  have hdrop : (a ++ '.' :: b).dropWhile Char.isDigit = '.' :: b := by
    rw [List.dropWhile_append_of_pos ha, List.dropWhile_cons_of_neg (by decide)]
  simp only [read?, htake, hdrop]
  exact if_pos ⟨trivial, hna, hnb, List.all_eq_true.mpr hb⟩

theorem read?_minus (cs : List Char) : read? ('-' :: cs) = none := by
  rw [read?, List.dropWhile_cons_of_neg (by decide)]
  rfl

end Numeral

theorem ofDigitChars_digitChar {d : Nat} (h : d < 10) (init : Nat) :
    Nat.ofDigitChars 10 [digitChar d] init = 10 * init + d := by
  have hall : ∀ d < 10, (digitChar d).toNat - '0'.toNat = d := by decide
  rw [Nat.ofDigitChars_cons, Nat.ofDigitChars_nil, hall d h]

theorem ofDigitChars_decimalDigits (n : Nat) : Nat.ofDigitChars 10 (decimalDigits n) 0 = n := by
  fun_induction decimalDigits n with
  | case1 n h => rw [ofDigitChars_digitChar h, Nat.mul_zero, Nat.zero_add]
  | case2 n h ih =>
    rw [Nat.ofDigitChars_append, ih, ofDigitChars_digitChar (Nat.mod_lt _ (by decide))]
    omega

/-! ## Significant digits -/

namespace Numeral

theorem significant_le (n : Numeral) : n.significant ≤ (Nat.digits 10 n.coefficient).length :=
  List.length_dropWhile_le _ _

theorem significant_scale (c k : Nat) (e e' : Int) :
    significant ⟨10 ^ k * c, e⟩ = significant ⟨c, e'⟩ := by
  rcases Nat.eq_zero_or_pos c with rfl | hc
  · rfl
  · have hzero : ∀ d ∈ List.replicate k 0, (d == 0) = true := by simp
    simp only [significant, Nat.digits_base_pow_mul (by decide : 1 < 10) hc,
      List.dropWhile_append_of_pos hzero]

theorem significant_of_not_dvd {c : Nat} (h : ¬ 10 ∣ c) (e : Int) :
    significant ⟨c, e⟩ = (Nat.digits 10 c).length := by
  have hpos : 0 < c := Nat.pos_of_ne_zero fun hc => h (hc ▸ dvd_zero 10)
  have hmod : ¬ (c % 10 == 0) = true := by
    rw [beq_iff_eq]
    exact fun hc => h (Nat.dvd_of_mod_eq_zero hc)
  simp only [significant, Nat.digits_def' (by decide : 1 < 10) hpos]
  rw [List.dropWhile_cons, if_neg hmod]

/-- Zeros at the end can be moved into the exponent. -/
theorem exists_stripped (n : Numeral) :
    ∃ m : Numeral, m.value = n.value ∧ (Nat.digits 10 m.coefficient).length = n.significant := by
  obtain ⟨c, e⟩ := n
  rcases Nat.eq_zero_or_pos c with rfl | hc
  · exact ⟨⟨0, e⟩, rfl, rfl⟩
  · obtain ⟨k, c', hdvd, rfl⟩ := Nat.exists_eq_pow_mul_and_not_dvd hc.ne' 10 (by decide)
    refine ⟨⟨c', e + k⟩, ?_, ?_⟩
    · simp only [value]
      rw [zpow_add₀ (by norm_num), zpow_natCast]
      push_cast
      ring
    · rw [significant_scale c' k e e, significant_of_not_dvd hdvd]

end Numeral

/-- The text of a decimal reads as that decimal. -/
theorem Decimal.read?_positional (d : Decimal) :
    ∃ n, Numeral.read? d.positional = some n ∧ n.value = d.numeral.value ∧
      n.significant = d.numeral.significant := by
  rcases Nat.lt_or_ge d.grid 45 with hgrid | hgrid
  · obtain ⟨a, b, k, heq, hne, hlength, hpadded, hdigits⟩ := Literal.positional_pointed hgrid
    have hread := Numeral.read?_pointed hne (List.ne_nil_of_length_pos (by omega))
      (fun c hc => hdigits c (List.mem_append_left b hc))
      (fun c hc => hdigits c (List.mem_append_right a hc))
    have hexp : -(b.length : Int) = d.grid - 45 := by omega
    refine ⟨d.numeral, ?_, rfl, rfl⟩
    rw [heq, hread, hpadded, hexp, Nat.ofDigitChars_append, Nat.ofDigitChars_replicate_zero,
      Nat.mul_zero, ofDigitChars_decimalDigits, numeral]
  · obtain ⟨heq, hdigits⟩ := Literal.positional_whole hgrid
    have hne : d.positional ≠ [] := by
      rw [heq]
      exact fun h => decimalDigits_ne_nil _ (List.append_eq_nil_iff.mp h).1
    have hexp : (d.grid : Int) - 45 = (d.grid - 45 : ℕ) := by omega
    refine ⟨⟨10 ^ (d.grid - 45) * d.coefficient, 0⟩, ?_, ?_, Numeral.significant_scale _ _ _ _⟩
    · rw [Numeral.read?_whole hne hdigits, heq, Nat.ofDigitChars_append,
        ofDigitChars_decimalDigits, Nat.ofDigitChars_replicate_zero]
    · rw [numeral, Numeral.value, Numeral.value, hexp, zpow_natCast, zpow_zero]
      push_cast
      ring

namespace Single

/-! ## Literals -/

variable {x : Single}

/-- What is written of a finite number but for its sign rounds back to it, and no decimal with fewer
digits does. -/
theorem exists_read (hnan : x.isNaN = false) (hinf : x.isInfinite = false) :
    ∃ n, Numeral.read? x.magnitudeText = some n ∧ RoundsTo x.negative n.value x ∧
      ∀ m : Numeral, RoundsTo x.negative m.value x → n.significant ≤ m.significant := by
  by_cases hzero : x.isZero = true
  · refine ⟨⟨0, 0⟩, ?_, ?_, fun m _ => Nat.zero_le _⟩
    · rw [magnitudeText, hinf, if_neg (by decide), if_pos hzero]
      decide
    · have habsolute : x.absolute = 0 := by
        rw [absolute_eq, isZero_iff.mp hzero, absoluteAt]
        simp [magnitudeAt]
      have hself := roundsTo_absolute hnan
      rw [habsolute] at hself
      simpa [Numeral.value] using hself
  · have hpos : 0 < x.rank := Nat.pos_of_ne_zero fun h => hzero (isZero_iff.mpr h)
    have hlast : x.rank < lastRank := by
      refine lt_of_le_of_ne (isNaN_eq_false_iff.mp hnan) fun h => ?_
      rw [isInfinite_iff.mpr h] at hinf
      cases hinf
    obtain ⟨n, hread, hvalue, hdigits⟩ := x.shortest.read?_positional
    refine ⟨n, ?_, ?_, fun m hm => ?_⟩
    · rw [magnitudeText, hinf, if_neg (by decide), if_neg hzero]
      exact hread
    · rw [hvalue, roundsTo_iff hpos hlast]
      exact ⟨rfl, mem_shortest hpos hlast⟩
    · obtain ⟨m', hsame, hlength⟩ := m.exists_stripped
      have hmem := ((roundsTo_iff hpos hlast).mp hm).2
      rw [← hsame] at hmem
      calc n.significant = x.shortest.numeral.significant := hdigits
        _ ≤ (Nat.digits 10 x.shortest.coefficient).length := Numeral.significant_le _
        _ ≤ (Nat.digits 10 m'.coefficient).length := length_digits_shortest_le hpos hlast hmem
        _ = m.significant := hlength

theorem isSome_read? (hnan : x.isNaN = false) :
    (Numeral.read? x.magnitudeText).isSome = !x.isInfinite := by
  cases hinf : x.isInfinite with
  | true =>
    rw [magnitudeText, if_pos hinf]
    decide
  | false =>
    obtain ⟨n, hread, -⟩ := exists_read hnan hinf
    rw [hread]
    rfl

theorem text_eq (h : x.isNaN = false) :
    x.text = (if x.negative then ['-'] else []) ++ x.magnitudeText := by
  rw [text, h]
  cases x.negative <;> rfl

theorem magnitudeText_ne_minus (hnan : x.isNaN = false) (cs : List Char) :
    x.magnitudeText ≠ '-' :: cs := by
  intro heq
  by_cases hinf : x.isInfinite = true
  · rw [magnitudeText, if_pos hinf] at heq
    cases heq
  · obtain ⟨n, hread, -⟩ := exists_read hnan (Bool.eq_false_iff.mpr hinf)
    rw [heq, Numeral.read?_minus] at hread
    cases hread

/-- The sign and the rest can be told apart. -/
theorem sign_of_text_eq {x y : Single} (hx : x.isNaN = false) (hy : y.isNaN = false)
    (h : x.text = y.text) : x.negative = y.negative ∧ x.magnitudeText = y.magnitudeText := by
  rw [text_eq hx, text_eq hy] at h
  cases hxsign : x.negative <;> cases hysign : y.negative <;> rw [hxsign, hysign] at h
  · exact ⟨rfl, h⟩
  · exact absurd h (magnitudeText_ne_minus hx _)
  · exact absurd h.symm (magnitudeText_ne_minus hy _)
  · exact ⟨rfl, List.cons_injective h⟩

theorem eq_of_text {x y : Single} (hx : x.isNaN = false) (hy : y.isNaN = false)
    (h : x.text = y.text) : x = y := by
  obtain ⟨hsign, hmagnitude⟩ := sign_of_text_eq hx hy h
  have hsame : y.isInfinite = x.isInfinite := by
    have hreads := isSome_read? hx
    rw [hmagnitude, isSome_read? hy] at hreads
    exact Bool.not_inj hreads
  cases hinf : x.isInfinite with
  | true =>
    rw [hinf] at hsame
    exact eq_of_rank ((isInfinite_iff.mp hinf).trans (isInfinite_iff.mp hsame).symm) hsign
  | false =>
    obtain ⟨n, hxread, hxrounds, -⟩ := exists_read hx hinf
    obtain ⟨m, hyread, hyrounds, -⟩ := exists_read hy (hsame.trans hinf)
    obtain rfl : n = m := by
      rw [hmagnitude, hyread] at hxread
      exact (Option.some.inj hxread).symm
    rw [← hsign] at hyrounds
    exact hxrounds.unique hyrounds

end Single

namespace Literal

open Single

/-- The literal of a finite number is its sign, a plain decimal that rounds to this number and to no
other, where no decimal with fewer digits does, and an `f`. Infinities have literals of their own,
so that different numbers have different literals, and all that is not a number has the same. -/
theorem single_reads_back :
    (∀ x : Single, x.isNaN = false → x.isInfinite = false → ∃ digits n,
      (single x).toList = (if x.negative then ['-'] else []) ++ digits ++ ['f'] ∧
        Numeral.read? digits = some n ∧ (∀ y, RoundsTo x.negative n.value y ↔ y = x) ∧
        ∀ m : Numeral, RoundsTo x.negative m.value x → n.significant ≤ m.significant) ∧
    (∀ x : Single, x.isInfinite = true → single x = if x.negative then "-inff" else "inff") ∧
    (∀ x y : Single, x.isNaN = false → y.isNaN = false → single x = single y → x = y) ∧
    ∀ x : Single, x.isNaN = true → single x = "NaNf" := by
  refine ⟨fun x hnan hinf => ?_, fun x hinf => ?_, fun x y hx hy heq => ?_, fun x hnan => ?_⟩
  · obtain ⟨n, hread, hrounds, hshortest⟩ := exists_read hnan hinf
    refine ⟨x.magnitudeText, n, ?_, hread, fun y => ⟨fun hy => hy.unique hrounds, ?_⟩, hshortest⟩
    · rw [single, String.toList_ofList, text_eq hnan]
    · rintro rfl
      exact hrounds
  · have hnan : x.isNaN = false := isNaN_eq_false_iff.mpr (isInfinite_iff.mp hinf).le
    rw [single, text_eq hnan, magnitudeText, if_pos hinf]
    cases x.negative <;> rfl
  · have hlists := congrArg String.toList heq
    exact eq_of_text hx hy (by simpa [single] using hlists)
  · rw [single, text, hnan]
    rfl

/-- The number `2 ^ 30`, of which the last two digits are not needed, and patterns that are not
finite numbers. -/
theorem single_reads_back_boundary :
    let x : Single := ⟨0x4E800000⟩
    x.isNaN = false ∧ x.isInfinite = false ∧ single x = "1073741800f" ∧
      (∀ y, RoundsTo false 1073741800 y ↔ y = x) ∧
      (∀ m : Numeral, RoundsTo false m.value x → 8 ≤ m.significant) ∧
      single ⟨0xFF800000⟩ = "-inff" ∧ single ⟨0x80000000⟩ ≠ single ⟨0⟩ ∧
      single ⟨0x7FC00001⟩ = "NaNf" := by
  intro x
  obtain ⟨hfinite, hinfinite, hinjective, hnan⟩ := single_reads_back
  obtain ⟨digits, n, htext, hread, hrounds, hshortest⟩ := hfinite x (by decide) (by decide)
  have hwritten : single x = "1073741800f" := by decide +kernel
  obtain rfl : digits = "1073741800".toList := by
    rw [hwritten] at htext
    exact (List.append_cancel_right (show "1073741800".toList ++ ['f'] = digits ++ ['f'] from
      htext)).symm
  have hnumeral : Numeral.read? "1073741800".toList = some ⟨1073741800, 0⟩ := by decide +kernel
  obtain rfl : n = ⟨1073741800, 0⟩ := Option.some.inj (hread.symm.trans hnumeral)
  have hvalue : Numeral.value ⟨1073741800, 0⟩ = 1073741800 := by simp [Numeral.value]
  have hdigits : Numeral.significant ⟨1073741800, 0⟩ = 8 := by simp [Numeral.significant]
  rw [hvalue] at hrounds
  rw [hdigits] at hshortest
  refine ⟨by decide, by decide, hwritten, hrounds, hshortest, hinfinite _ (by decide), fun h => ?_,
    hnan _ (by decide)⟩
  have hzeros := hinjective ⟨0x80000000⟩ ⟨0⟩ (by decide) (by decide) h
  exact absurd hzeros (by decide)

end Literal

end Scribe
