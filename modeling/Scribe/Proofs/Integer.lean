import Mathlib.Algebra.Group.Nat.Defs
import Scribe.Proofs.Numeral

/-! Whole numbers read back. The reader takes a minus if there is one, and then digits: those of
base sixteen behind `0x`, those of base ten otherwise. From every literal it gets the number that was
written, and the notation tells whether that is a flag. Hexadecimal digits are the usual ones in
upper case, filled up with zeros to the least width that the pattern calls for; a pattern that stands
for a small negative number calls for four digits and has eight anyway. -/

namespace Scribe

/-! ## Reading -/

/-- What the text of a whole number says: the notation and the number. -/
structure Integer where
  hexadecimal : Bool
  value : Int
  deriving DecidableEq

namespace Integer

/-- The value of a digit in a base up to sixteen. Letters are upper case. -/
def digitValue? (base : Nat) (c : Char) : Option Nat :=
  let digit :=
    if '0' ≤ c ∧ c ≤ '9' then some (c.toNat - '0'.toNat)
    else if 'A' ≤ c ∧ c ≤ 'F' then some (c.toNat - 'A'.toNat + 10)
    else none
  digit.filter (· < base)

/-- Reads on when `n` is what has been read. -/
def readDigits? (base : Nat) : (n : Nat) → List Char → Option Nat
  | n, [] => some n
  | n, c :: cs => (digitValue? base c).bind fun d => readDigits? base (base * n + d) cs

/-- At least one digit. -/
def readNumber? (base : Nat) (cs : List Char) : Option Nat :=
  if cs = [] then none else readDigits? base 0 cs

def readUnsigned? : List Char → Option Integer
  | '0' :: 'x' :: cs => (readNumber? 16 cs).map fun n => ⟨true, n⟩
  | cs => (readNumber? 10 cs).map fun n => ⟨false, n⟩

def read? : List Char → Option Integer
  | '-' :: cs => (readUnsigned? cs).map fun n => ⟨n.hexadecimal, -n.value⟩
  | cs => readUnsigned? cs

theorem digitValue?_digitChar {base d : Nat} (h : d < base) (hbase : base ≤ 16) :
    digitValue? base (digitChar d) = some d := by
  have hall : ∀ d < 16, digitValue? 16 (digitChar d) = some d := by decide
  have hd := hall d (by omega)
  unfold digitValue? at hd ⊢
  obtain ⟨hdigit, -⟩ := Option.filter_eq_some_iff.mp hd
  exact Option.filter_eq_some_iff.mpr ⟨hdigit, by simpa using h⟩

theorem readDigits?_append (base n : Nat) (a b : List Char) :
    readDigits? base n (a ++ b) = (readDigits? base n a).bind fun m => readDigits? base m b := by
  induction a generalizing n with
  | nil => rfl
  | cons c a ih =>
    rw [List.cons_append, readDigits?, readDigits?]
    cases digitValue? base c with
    | none => rfl
    | some d => exact ih (base * n + d)

theorem readDigits?_digitChar {base d : Nat} (h : d < base) (hbase : base ≤ 16) (n : Nat) :
    readDigits? base n [digitChar d] = some (base * n + d) := by
  rw [readDigits?, digitValue?_digitChar h hbase]
  rfl

theorem readDigits?_decimalDigits (n : Nat) : readDigits? 10 0 (decimalDigits n) = some n := by
  fun_induction decimalDigits n with
  | case1 n h => rw [readDigits?_digitChar h (by decide), Nat.mul_zero, Nat.zero_add]
  | case2 n h ih =>
    rw [readDigits?_append, ih, Option.bind_some,
      readDigits?_digitChar (Nat.mod_lt n (by decide)) (by decide), Nat.div_add_mod]

/-- A number that fits is read back, whatever has been read before it. -/
theorem readDigits?_fixedDigits {width n : Nat} (h : n < 16 ^ width) (m : Nat) :
    readDigits? 16 m (fixedDigits 16 width n) = some (m * 16 ^ width + n) := by
  induction width generalizing n with
  | zero =>
    have hn : n = 0 := by simpa using h
    simp [fixedDigits, readDigits?, hn]
  | succ width ih =>
    have hdiv : n / 16 < 16 ^ width := by
      rw [Nat.div_lt_iff_lt_mul (by decide)]
      exact h
    rw [fixedDigits, readDigits?_append, ih hdiv, Option.bind_some,
      readDigits?_digitChar (Nat.mod_lt n (by decide)) (by decide)]
    have hplace : m * 16 ^ (width + 1) = 16 * (m * 16 ^ width) := by
      rw [Nat.pow_succ, ← Nat.mul_assoc, Nat.mul_comm]
    rw [hplace, Nat.mul_add, Nat.add_assoc, Nat.div_add_mod]

theorem readUnsigned?_decimalDigits (n : Nat) :
    readUnsigned? (decimalDigits n) = some ⟨false, n⟩ := by
  have hx : ∀ cs, decimalDigits n ≠ '0' :: 'x' :: cs := by
    intro cs hcs
    have hdigit := isDigit_of_mem_decimalDigits (n := n) (c := 'x') (by simp [hcs])
    exact absurd hdigit (by decide)
  rw [readUnsigned?]
  · rw [readNumber?, if_neg (decimalDigits_ne_nil n), readDigits?_decimalDigits]
    rfl
  · exact fun cs hcs => hx cs hcs

theorem read?_decimalDigits (n : Nat) : read? (decimalDigits n) = some ⟨false, n⟩ := by
  rw [read?]
  · exact readUnsigned?_decimalDigits n
  · intro cs hcs
    have hdigit := isDigit_of_mem_decimalDigits (n := n) (c := '-') (by simp [hcs])
    exact absurd hdigit (by decide)

end Integer

/-! ## Hexadecimal digits -/

theorem fixedDigits_zero (base width : Nat) :
    fixedDigits base width 0 = List.replicate width '0' := by
  induction width with
  | zero => rfl
  | succ width ih => rw [fixedDigits, Nat.zero_div, Nat.zero_mod, ih, List.replicate_succ']; rfl

theorem digitChar_eq_toUpper {d : Nat} (h : d < 16) : digitChar d = (Nat.digitChar d).toUpper := by
  have hall : ∀ d < 16, digitChar d = (Nat.digitChar d).toUpper := by decide
  exact hall d h

/-- The usual digits in upper case, with as many zeros in front as there is room for. -/
theorem fixedDigits_eq_leftpad {width n : Nat} (h : (Nat.toDigits 16 n).length ≤ width) :
    fixedDigits 16 width n = ((Nat.toDigits 16 n).map Char.toUpper).leftpad width '0' := by
  induction width generalizing n with
  | zero =>
    have hpos : 0 < (Nat.toDigits 16 n).length := Nat.length_toDigits_pos
    omega
  | succ width ih =>
    have hlast := digitChar_eq_toUpper (Nat.mod_lt n (by decide : 0 < 16))
    rcases Nat.lt_or_ge n 16 with hn | hn
    · rw [fixedDigits, Nat.div_eq_of_lt hn, fixedDigits_zero, hlast, Nat.mod_eq_of_lt hn,
        Nat.toDigits_of_lt_base hn]
      rfl
    · have hdigits : Nat.toDigits 16 n = Nat.toDigits 16 (n / 16) ++ [Nat.digitChar (n % 16)] := by
        rw [← Nat.toDigits_of_lt_base (Nat.mod_lt n (by decide)),
          Nat.toDigits_append_toDigits (by decide) (by omega) (Nat.mod_lt n (by decide)),
          Nat.div_add_mod]
      rw [hdigits, List.length_append, List.length_singleton] at h
      rw [fixedDigits, ih (by omega), hdigits, hlast]
      simp [List.leftpad]

namespace Literal

/-- The least number of digits. Whether four hold a pattern is decided by the signed number that it
stands for. -/
def leastWidth (v : UInt32) : Nat :=
  if v ≤ 0xFF then 2
  else if -0x8000 ≤ v.toInt32.toInt ∧ v.toInt32.toInt ≤ 0x7FFF then 4
  else 8

theorem toInt_toInt32 (v : UInt32) :
    v.toInt32.toInt = if v.toNat < 0x80000000 then (v.toNat : Int) else v.toNat - 0x100000000 := by
  rw [← Int32.toInt_toBitVec, UInt32.toBitVec_toInt32, BitVec.toInt_eq_toNat_cond,
    UInt32.toNat_toBitVec]
  split <;> split <;> omega

theorem isShort_iff (v : UInt32) :
    -0x8000 ≤ v.toInt32.toInt ∧ v.toInt32.toInt ≤ 0x7FFF ↔ v ≤ 0x7FFF ∨ 0xFFFF8000 ≤ v := by
  have hv := v.toNat_lt
  simp only [toInt_toInt32, UInt32.le_iff_toNat_le, UInt32.reduceToNat]
  split <;> omega

/-- Of all patterns, only those of small negative numbers have more digits than they call for. -/
theorem leastWidth_of_le {v : UInt32} (h : 0xFFFF8000 ≤ v) : leastWidth v = 4 ∧ hexWidth v = 8 := by
  have hbyte : ¬ v ≤ 0xFF := fun hle => absurd (UInt32.le_trans h hle) (by decide)
  have hshort : ¬ v ≤ 0x7FFF := fun hle => absurd (UInt32.le_trans h hle) (by decide)
  constructor
  · rw [leastWidth, if_neg hbyte, if_pos ((isShort_iff v).mpr (Or.inr h))]
  · rw [hexWidth, if_neg hbyte, if_neg hshort]

theorem leastWidth_of_not_le {v : UInt32} (h : ¬ 0xFFFF8000 ≤ v) : leastWidth v = hexWidth v := by
  simp only [leastWidth, hexWidth, isShort_iff, h, or_false]

theorem hexWidth_iff (v : UInt32) :
    (hexWidth v = 2 ↔ v ≤ 0xFF) ∧ (hexWidth v = 4 ↔ 0x100 ≤ v ∧ v ≤ 0x7FFF) ∧
      (hexWidth v = 8 ↔ 0x7FFF < v) := by
  simp only [hexWidth, UInt32.le_iff_toNat_le, UInt32.lt_iff_toNat_lt, UInt32.reduceToNat]
  split
  · simp only [Nat.reduceEqDiff, true_iff, false_iff]
    omega
  · split <;> simp only [Nat.reduceEqDiff, true_iff, false_iff] <;> omega

theorem hexWidth_pos (v : UInt32) : 0 < hexWidth v := by
  unfold hexWidth
  split
  · decide
  · split <;> decide

theorem toNat_lt_pow_hexWidth (v : UInt32) : v.toNat < 16 ^ hexWidth v := by
  have hv := v.toNat_lt
  simp only [hexWidth, UInt32.le_iff_toNat_le, UInt32.reduceToNat]
  split
  · omega
  · split <;> omega

theorem length_toDigits_le (v : UInt32) : (Nat.toDigits 16 v.toNat).length ≤ hexWidth v :=
  (Nat.length_toDigits_le_iff (by decide) (hexWidth_pos v)).mpr (toNat_lt_pow_hexWidth v)

theorem fixedDigits_eq_leastWidth (v : UInt32) : fixedDigits 16 (hexWidth v) v.toNat =
    ((Nat.toDigits 16 v.toNat).map Char.toUpper).leftpad (leastWidth v) '0' := by
  rw [fixedDigits_eq_leftpad (length_toDigits_le v)]
  by_cases hlarge : 0xFFFF8000 ≤ v
  · -- there are eight digits already, so neither width leaves room for zeros
    have hlength : 7 < (Nat.toDigits 16 v.toNat).length := by
      refine Nat.lt_of_not_le fun h => ?_
      have hlt := (Nat.length_toDigits_le_iff (by decide) (by decide)).mp h
      rw [UInt32.le_iff_toNat_le] at hlarge
      simp only [UInt32.reduceToNat] at hlarge
      omega
    have hzeros : ∀ width ≤ 8, width - ((Nat.toDigits 16 v.toNat).map Char.toUpper).length = 0 := by
      intro width hle
      rw [List.length_map]
      omega
    obtain ⟨hleast, hwidth⟩ := leastWidth_of_le hlarge
    rw [hleast, hwidth, List.leftpad, List.leftpad, hzeros 4 (by decide), hzeros 8 (by decide)]
  · rw [leastWidth_of_not_le hlarge]

/-! ## Flags -/

theorem isFlag_iff (v : UInt32) :
    isFlag v = true ↔ 0 < v.toNat ∧ v.toNat.isPowerOfTwo ∧ 16 ∣ v.toNat := by
  rcases Nat.eq_zero_or_pos v.toNat with hzero | hpos
  · have hv : v = 0 := UInt32.toNat_inj.mp hzero
    simp [isFlag, hv]
  · have hne : v ≠ 0 := by
      rintro rfl
      exact absurd hpos (by decide)
    have hone : 1 ≤ v := UInt32.le_iff_toNat_le.mpr hpos
    have hpower : v &&& (v - 1) = 0 ↔ v.toNat.isPowerOfTwo := by
      rw [← UInt32.toNat_inj, UInt32.toNat_and, UInt32.toNat_sub_of_le v 1 hone]
      exact Nat.and_sub_one_eq_zero_iff_isPowerOfTwo (Nat.ne_of_gt hpos)
    have hsixteen : v &&& 0xF = 0 ↔ 16 ∣ v.toNat := by
      have hmod : v.toNat &&& 0xF = v.toNat % 16 := Nat.and_two_pow_sub_one_eq_mod v.toNat 4
      rw [← UInt32.toNat_inj, UInt32.toNat_and, Nat.dvd_iff_mod_eq_zero, ← hmod]
      rfl
    simp [isFlag, hne, hpower, hsixteen, hpos]

theorem toNat_toUInt32 {v : Int32} (h : 0 ≤ v) : (v.toUInt32.toNat : Int) = v.toInt := by
  have hcases := BitVec.toInt_eq_toNat_cond v.toBitVec
  rw [Int32.toInt_toBitVec, ← Int32.toBitVec_toUInt32, UInt32.toNat_toBitVec] at hcases
  have hnonneg : 0 ≤ v.toInt := Int32.le_iff_toInt_le.mp h
  have hv := v.toUInt32.toNat_lt
  split at hcases <;> omega

/-! ## Literals -/

theorem toList_hexadecimal (v : UInt32) :
    (hexadecimal v).toList = '0' :: 'x' :: fixedDigits 16 (hexWidth v) v.toNat := by
  simp [hexadecimal]

theorem toList_decimal (n : Nat) : (decimal n).toList = decimalDigits n := String.toList_ofList

theorem readDigits?_hexadecimal (v : UInt32) :
    Integer.readDigits? 16 0 (fixedDigits 16 (hexWidth v) v.toNat) = some v.toNat := by
  rw [Integer.readDigits?_fixedDigits (toNat_lt_pow_hexWidth v), Nat.zero_mul, Nat.zero_add]

theorem read?_hexadecimal (v : UInt32) :
    Integer.read? (hexadecimal v).toList = some ⟨true, v.toNat⟩ := by
  have hne : fixedDigits 16 (hexWidth v) v.toNat ≠ [] :=
    List.ne_nil_of_length_pos (by rw [length_fixedDigits]; exact hexWidth_pos v)
  simp [toList_hexadecimal, Integer.read?, Integer.readUnsigned?, Integer.readNumber?, hne,
    readDigits?_hexadecimal]

theorem read?_unsigned (v : UInt32) :
    Integer.read? (unsigned v).toList = some ⟨isFlag v, v.toNat⟩ := by
  unfold unsigned
  cases hflag : isFlag v with
  | true => exact read?_hexadecimal v
  | false =>
    rw [if_neg Bool.false_ne_true, toList_decimal]
    exact Integer.read?_decimalDigits v.toNat

theorem read?_negative {v : Int32} (h : ¬ 0 ≤ v) :
    Integer.read? (signed v).toList = some ⟨false, v.toInt⟩ := by
  have hnegative : ¬ 0 ≤ v.toInt := fun hle => h (Int32.le_iff_toInt_le.mpr hle)
  have htext : (signed v).toList = '-' :: decimalDigits v.toInt.natAbs := by
    rw [signed, if_neg h, String.toList_append, toList_decimal]
    rfl
  have hvalue : -(v.toInt.natAbs : Int) = v.toInt := by omega
  rw [htext, Integer.read?, Integer.readUnsigned?_decimalDigits, Option.map_some, hvalue]

/-- Hexadecimal literals are the upper case digits of their number, two of them for a byte, four up
to the largest short and eight for all else, and the least width is what decides this. Unsigned and
signed literals read back as the number that they stand for, and they are hexadecimal if and only if
it is a positive power of two and a multiple of sixteen. -/
theorem integers_read_back :
    (∀ v : UInt32, ∃ digits, (hexadecimal v).toList = '0' :: 'x' :: digits ∧
      (∀ c ∈ digits, ('0' ≤ c ∧ c ≤ '9') ∨ ('A' ≤ c ∧ c ≤ 'F')) ∧
      Integer.readDigits? 16 0 digits = some v.toNat ∧
      (digits.length = 2 ↔ v ≤ 0xFF) ∧ (digits.length = 4 ↔ 0x100 ≤ v ∧ v ≤ 0x7FFF) ∧
      (digits.length = 8 ↔ 0x7FFF < v) ∧
      digits = ((Nat.toDigits 16 v.toNat).map Char.toUpper).leftpad (leastWidth v) '0') ∧
    (∀ v : UInt32, 0xFFFF8000 ≤ v → leastWidth v = 4 ∧ (hexadecimal v).length = 10) ∧
    (∀ v : UInt32, ∃ hex, Integer.read? (unsigned v).toList = some ⟨hex, v.toNat⟩ ∧
      (hex = true ↔ 0 < v.toNat ∧ v.toNat.isPowerOfTwo ∧ 16 ∣ v.toNat)) ∧
    ∀ v : Int32, ∃ hex, Integer.read? (signed v).toList = some ⟨hex, v.toInt⟩ ∧
      (hex = true ↔ 0 < v.toInt ∧ v.toInt.toNat.isPowerOfTwo ∧ 16 ∣ v.toInt) := by
  refine ⟨fun v => ?_, fun v h => ?_, fun v => ⟨isFlag v, read?_unsigned v, isFlag_iff v⟩,
    fun v => ?_⟩
  · have hdigits : ∀ d < 16, ('0' ≤ digitChar d ∧ digitChar d ≤ '9') ∨
        ('A' ≤ digitChar d ∧ digitChar d ≤ 'F') := by decide
    refine ⟨fixedDigits 16 (hexWidth v) v.toNat, toList_hexadecimal v, fun c hc => ?_,
      readDigits?_hexadecimal v, ?_⟩
    · obtain ⟨d, hd, rfl⟩ := exists_digit_of_mem_fixedDigits hc
      exact hdigits d hd
    · obtain ⟨htwo, hfour, height⟩ := hexWidth_iff v
      rw [length_fixedDigits]
      exact ⟨htwo, hfour, height, fixedDigits_eq_leastWidth v⟩
  · obtain ⟨hleast, hwidth⟩ := leastWidth_of_le h
    refine ⟨hleast, ?_⟩
    rw [← String.length_toList, toList_hexadecimal, List.length_cons, List.length_cons,
      length_fixedDigits, hwidth]
  · by_cases h : 0 ≤ v
    · have htext : signed v = unsigned v.toUInt32 := if_pos h
      have hvalue := toNat_toUInt32 h
      refine ⟨isFlag v.toUInt32, ?_, ?_⟩
      · rw [htext, read?_unsigned, hvalue]
      · have hpos : 0 < (v.toUInt32.toNat : Int) ↔ 0 < v.toUInt32.toNat := by omega
        have hdvd : 16 ∣ (v.toUInt32.toNat : Int) ↔ 16 ∣ v.toUInt32.toNat := by omega
        rw [isFlag_iff, ← hvalue, Int.toNat_natCast, hpos, hdvd]
    · refine ⟨false, read?_negative h, ?_⟩
      have hnegative : ¬ 0 ≤ v.toInt := fun hle => h (Int32.le_iff_toInt_le.mpr hle)
      simp only [Bool.false_eq_true, false_iff]
      omega

/-- The pattern of `-32768`, which calls for four digits, and the least number, whose pattern is a
flag. -/
theorem integers_read_back_negative :
    (0xFFFF8000 : UInt32) ≤ 0xFFFF8000 ∧ leastWidth 0xFFFF8000 = 4 ∧
      (hexadecimal 0xFFFF8000).length = 10 ∧ hexadecimal 0xFFFF8000 = "0xFFFF8000" ∧
      ∃ hex, Integer.read? (signed (-0x80000000)).toList = some ⟨hex, -0x80000000⟩ ∧
        (hex = true ↔ 0 < (-0x80000000 : Int32).toInt ∧
          (-0x80000000 : Int32).toInt.toNat.isPowerOfTwo ∧ 16 ∣ (-0x80000000 : Int32).toInt) := by
  have hle : (0xFFFF8000 : UInt32) ≤ 0xFFFF8000 := by decide
  obtain ⟨hleast, hlength⟩ := integers_read_back.2.1 0xFFFF8000 hle
  exact ⟨hle, hleast, hlength, by decide +kernel, integers_read_back.2.2.2 (-0x80000000)⟩

end Literal

end Scribe
