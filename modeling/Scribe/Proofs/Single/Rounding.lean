import Mathlib
import Scribe.Single.Shortest

/-! Rounding to single precision. The numbers of one sign stand in the order of their patterns, so
each has a rank and two neighbours; a decimal rounds to the number it is nearest to, and half-way
between two of them to the one of even rank. Infinity has its place in the order, behind the largest
number, and takes all that is nearer to it. The main statement says that the interval of a number
holds just what rounds to it. -/

namespace Scribe

namespace Single

/-! ## Ranks -/

/-- The place of a number among those of its sign. -/
def rank (x : Single) : Nat := x.bits.toNat % 0x80000000

/-- From the number of this rank to the next, in units of `2 ^ -149`. -/
def spacingAt (r : Nat) : Nat := 2 ^ (r / 0x800000 - 1)

def magnitudeAt (r : Nat) : Nat :=
  (if r / 0x800000 = 0 then r % 0x800000 else 0x800000 + r % 0x800000) * spacingAt r

/-- The rank of infinity. All ranks behind it are not a number. -/
def lastRank : Nat := 0x7F800000

theorem exponent_eq (x : Single) : x.exponent = x.rank / 0x800000 := by
  unfold exponent rank
  omega

theorem fraction_eq (x : Single) : x.fraction = x.rank % 0x800000 := by
  unfold fraction rank
  omega

theorem magnitude_eq (x : Single) : x.magnitude = magnitudeAt x.rank := by
  rw [magnitude, significand, spacing, exponent_eq, fraction_eq]
  rfl

theorem isNaN_eq_false_iff {x : Single} : x.isNaN = false ↔ x.rank ≤ lastRank := by
  have hrank : x.rank < 0x80000000 := Nat.mod_lt _ (by decide)
  simp only [isNaN, exponent_eq, fraction_eq, lastRank, Bool.and_eq_false_iff, beq_eq_false_iff_ne,
    bne_eq_false_iff_eq]
  omega

theorem isZero_iff {x : Single} : x.isZero = true ↔ x.rank = 0 := by
  simp only [isZero, exponent_eq, fraction_eq, Bool.and_eq_true, beq_iff_eq]
  omega

theorem isInfinite_iff {x : Single} : x.isInfinite = true ↔ x.rank = lastRank := by
  have hrank : x.rank < 0x80000000 := Nat.mod_lt _ (by decide)
  simp only [isInfinite, exponent_eq, fraction_eq, lastRank, Bool.and_eq_true, beq_iff_eq]
  omega

theorem significand_mod_two (x : Single) : x.significand % 2 = x.rank % 2 := by
  rw [significand, fraction_eq]
  split <;> omega

theorem eq_of_rank {x y : Single} (hrank : x.rank = y.rank) (hsign : x.negative = y.negative) :
    x = y := by
  obtain ⟨a⟩ := x
  obtain ⟨b⟩ := y
  simp only [rank, negative, decide_eq_decide] at hrank hsign
  have ha := a.toNat_lt
  have hb := b.toNat_lt
  rw [show a = b from UInt32.toNat_inj.mp (by omega)]

theorem exists_rank {r : Nat} (h : r ≤ lastRank) : ∃ x : Single, x.isNaN = false ∧ x.rank = r := by
  have hrank : rank ⟨UInt32.ofNat r⟩ = r := by
    unfold lastRank at h
    simp only [rank, UInt32.toNat_ofNat']
    omega
  exact ⟨⟨UInt32.ofNat r⟩, isNaN_eq_false_iff.mpr (hrank.trans_le h), hrank⟩

/-! ## Neighbours -/

theorem spacingAt_pos (r : Nat) : 0 < spacingAt r := Nat.two_pow_pos _

/-- A step within one exponent, or to the next. -/
theorem rank_succ_cases (r : Nat) :
    ((r + 1) / 0x800000 = r / 0x800000 ∧ (r + 1) % 0x800000 = r % 0x800000 + 1) ∨
    ((r + 1) / 0x800000 = r / 0x800000 + 1 ∧ (r + 1) % 0x800000 = 0 ∧
      r % 0x800000 = 0x7FFFFF) := by
  omega

theorem magnitudeAt_succ (r : Nat) : magnitudeAt (r + 1) = magnitudeAt r + spacingAt r := by
  unfold magnitudeAt spacingAt
  rcases rank_succ_cases r with ⟨hexp, hfrac⟩ | ⟨hexp, hfrac, hlast⟩
  · rw [hexp, hfrac]
    split <;> ring
  · rw [hexp, hfrac, hlast]
    rcases Nat.eq_zero_or_pos (r / 0x800000) with hzero | hpos
    · simp [hzero]
    · obtain ⟨e, he⟩ := Nat.exists_eq_add_of_le' hpos
      rw [if_neg (by omega), if_neg (by omega), he, Nat.add_sub_cancel, Nat.add_sub_cancel,
        Nat.pow_succ]
      ring

theorem strictMono_magnitudeAt : StrictMono magnitudeAt := by
  refine strictMono_nat_of_lt_succ fun r => ?_
  rw [magnitudeAt_succ]
  exact Nat.lt_add_of_pos_right (spacingAt_pos r)

/-- At a power of two the distance changes, except at the bottom of the range. -/
theorem spacingAt_succ (r : Nat) :
    (if (r + 1) % 0x800000 = 0 ∧ 1 < (r + 1) / 0x800000 then 1 else 2) * spacingAt (r + 1) =
      2 * spacingAt r := by
  unfold spacingAt
  rcases rank_succ_cases r with ⟨hexp, hfrac⟩ | ⟨hexp, hfrac, -⟩
  · rw [hexp, hfrac, if_neg (by omega)]
  · rw [hexp, hfrac]
    rcases Nat.eq_zero_or_pos (r / 0x800000) with hzero | hpos
    · simp [hzero]
    · obtain ⟨e, he⟩ := Nat.exists_eq_add_of_le' hpos
      rw [if_pos (by omega), he, Nat.add_sub_cancel, Nat.add_sub_cancel, Nat.pow_succ]
      ring

theorem low_rounding {x : Single} {r : Nat} (h : x.rank = r + 1) :
    x.rounding.low = 2 * (magnitudeAt r + magnitudeAt (r + 1)) := by
  have hspacing : x.spacing = spacingAt (r + 1) := by
    rw [spacing, exponent_eq, h]
    rfl
  have hlow : x.rounding.low = 4 * magnitudeAt (r + 1) - 2 * spacingAt r := by
    simp only [rounding, magnitude_eq, hspacing, fraction_eq, exponent_eq, h, spacingAt_succ]
  have hstep := magnitudeAt_succ r
  omega

theorem high_rounding (x : Single) :
    x.rounding.high = 2 * (magnitudeAt x.rank + magnitudeAt (x.rank + 1)) := by
  have hspacing : x.spacing = spacingAt x.rank := by
    rw [spacing, exponent_eq]
    rfl
  simp only [rounding, magnitude_eq, hspacing, magnitudeAt_succ]
  ring

/-! ## Nearest numbers -/

def absoluteAt (r : Nat) : ℚ := magnitudeAt r / 2 ^ 149

/-- The absolute value. For infinity it is where the next number would be. -/
def absolute (x : Single) : ℚ := x.magnitude / 2 ^ 149

theorem absolute_eq (x : Single) : x.absolute = absoluteAt x.rank := by
  rw [absolute, magnitude_eq]
  rfl

theorem strictMono_absoluteAt : StrictMono absoluteAt := by
  intro r s h
  have hlt := strictMono_magnitudeAt h
  unfold absoluteAt
  gcongr

/-- The rational, with a sign of its own since zero has none, rounds to `x`: no number is nearer,
and if another one is as near, then `x` is the one with the even significand. -/
structure RoundsTo (negative : Bool) (q : ℚ) (x : Single) : Prop where
  number : x.isNaN = false
  sign : x.negative = negative
  nearest : ∀ y : Single, y.isNaN = false → |x.absolute - q| ≤ |y.absolute - q|
  even : ∀ y : Single, y.isNaN = false → y.absolute ≠ x.absolute →
    |y.absolute - q| = |x.absolute - q| → x.significand % 2 = 0

end Single

/-! ## Intervals -/

/-- In this order, where two that are equal count as well if the end is closed. -/
def Before (closed : Bool) (a b : ℚ) : Prop := if closed then a ≤ b else a < b

namespace Before

variable {closed : Bool} {a b c : ℚ}

theorem le (h : Before closed a b) : a ≤ b := by
  cases closed with
  | true => exact h
  | false => exact h.le

theorem of_lt (h : a < b) : Before closed a b := by
  cases closed with
  | true => exact h.le
  | false => exact h

theorem le_of_not (h : ¬ Before closed a b) : b ≤ a := by
  cases closed with
  | true => exact (not_le.mp h).le
  | false => exact not_lt.mp h

theorem trans_le (h : Before closed a b) (hbc : b ≤ c) : Before closed a c := by
  cases closed with
  | true => exact le_trans h hbc
  | false => exact lt_of_lt_of_le h hbc

theorem le_trans (hab : a ≤ b) (h : Before closed b c) : Before closed a c := by
  cases closed with
  | true => exact hab.trans h
  | false => exact lt_of_le_of_lt hab h

theorem congr_sub {a' b' : ℚ} (h : ∃ k > 0, b' - a' = k * (b - a)) :
    Before closed a' b' ↔ Before closed a b := by
  obtain ⟨k, hk, heq⟩ := h
  cases closed with
  | true =>
    show a' ≤ b' ↔ a ≤ b
    rw [← sub_nonneg, heq, mul_nonneg_iff_of_pos_left hk, sub_nonneg]
  | false =>
    show a' < b' ↔ a < b
    rw [← sub_pos, heq, mul_pos_iff_of_pos_left hk, sub_pos]

theorem abs_iff_sq : Before closed |a| |b| ↔ Before closed (a ^ 2) (b ^ 2) := by
  cases closed with
  | true => exact sq_le_sq.symm
  | false => exact sq_lt_sq.symm

end Before

/-- The rational lies in the interval. -/
def Interval.Mem (i : Interval) (q : ℚ) : Prop :=
  Before i.closed i.low (q * 2 ^ 151) ∧ Before i.closed (q * 2 ^ 151) i.high

theorem Interval.Mem.between {i : Interval} {a b q : ℚ} (ha : i.Mem a) (hb : i.Mem b) (haq : a ≤ q)
    (hqb : q ≤ b) : i.Mem q :=
  ⟨ha.1.trans_le (by gcongr), .le_trans (by gcongr) hb.2⟩

namespace Single

variable {closed : Bool} {q : ℚ}

/-- Of two rationals the upper one is the nearer from half-way on. -/
theorem upper_nearer_iff {a b : ℚ} (h : a < b) :
    Before closed |b - q| |a - q| ↔ Before closed (a + b) (2 * q) := by
  rw [Before.abs_iff_sq]
  exact Before.congr_sub ⟨b - a, sub_pos.mpr h, by ring⟩

theorem lower_nearer_iff {a b : ℚ} (h : a < b) :
    Before closed |a - q| |b - q| ↔ Before closed (2 * q) (a + b) := by
  rw [Before.abs_iff_sq]
  exact Before.congr_sub ⟨b - a, sub_pos.mpr h, by ring⟩

/-- What is nearer than both neighbours is nearer than all others. -/
theorem nearest_iff {r : Nat} (h : r + 2 ≤ lastRank) :
    (∀ s ≤ lastRank, s ≠ r + 1 → Before closed |absoluteAt (r + 1) - q| |absoluteAt s - q|) ↔
      Before closed (absoluteAt r + absoluteAt (r + 1)) (2 * q) ∧
        Before closed (2 * q) (absoluteAt (r + 1) + absoluteAt (r + 2)) := by
  have hlower : ∀ s ≤ r, absoluteAt s < absoluteAt (r + 1) := fun s hs =>
    strictMono_absoluteAt (by omega)
  have hupper : ∀ s ≥ r + 2, absoluteAt (r + 1) < absoluteAt s := fun s hs =>
    strictMono_absoluteAt (by omega)
  constructor
  · intro hall
    exact ⟨(upper_nearer_iff (hlower r le_rfl)).mp (hall r (by omega) (by omega)),
      (lower_nearer_iff (hupper (r + 2) le_rfl)).mp (hall (r + 2) h (by omega))⟩
  · rintro ⟨hlow, hhigh⟩ s - hne
    rcases Nat.lt_or_gt_of_ne hne with hs | hs
    · have hmono := strictMono_absoluteAt.monotone (show s ≤ r by omega)
      exact (upper_nearer_iff (hlower s (by omega))).mpr (.le_trans (by linarith) hlow)
    · have hmono := strictMono_absoluteAt.monotone (show r + 2 ≤ s by omega)
      exact (lower_nearer_iff (hupper s (by omega))).mpr (hhigh.trans_le (by linarith))

/-- Rounding in terms of ranks: of two that are equally near, the even rank is taken. -/
theorem roundsTo_iff_rank {negative : Bool} {x : Single} :
    RoundsTo negative q x ↔ x.rank ≤ lastRank ∧ x.negative = negative ∧
      ∀ s ≤ lastRank, s ≠ x.rank →
        Before (x.rank % 2 == 0) |absoluteAt x.rank - q| |absoluteAt s - q| := by
  constructor
  · rintro ⟨hnumber, hsign, hnearest, heven⟩
    refine ⟨isNaN_eq_false_iff.mp hnumber, hsign, fun s hs hne => ?_⟩
    obtain ⟨y, hy, rfl⟩ := exists_rank hs
    have hle := hnearest y hy
    have hother : y.absolute ≠ x.absolute := by
      rw [absolute_eq, absolute_eq]
      exact strictMono_absoluteAt.injective.ne hne
    rw [← absolute_eq, ← absolute_eq, ← significand_mod_two]
    rcases hle.lt_or_eq with hlt | htie
    · exact .of_lt hlt
    · rw [heven y hy hother htie.symm]
      exact hle
  · rintro ⟨hnumber, hsign, hall⟩
    refine ⟨isNaN_eq_false_iff.mpr hnumber, hsign, fun y hy => ?_, fun y hy hother htie => ?_⟩
    · by_cases hsame : y.rank = x.rank
      · rw [absolute_eq, absolute_eq, hsame]
      · rw [absolute_eq, absolute_eq]
        exact (hall _ (isNaN_eq_false_iff.mp hy) hsame).le
    · rw [absolute_eq, absolute_eq] at htie hother
      have hnear := hall _ (isNaN_eq_false_iff.mp hy) fun h => hother (by rw [h])
      rw [significand_mod_two]
      by_contra hodd
      rw [beq_eq_false_iff_ne.mpr hodd] at hnear
      exact hnear.ne' htie

/-- Every number rounds to itself. -/
theorem roundsTo_absolute {x : Single} (h : x.isNaN = false) :
    RoundsTo x.negative x.absolute x := by
  refine ⟨h, rfl, fun y _ => ?_, fun y _ hother htie => ?_⟩
  · rw [sub_self, abs_zero]
    exact abs_nonneg _
  · rw [sub_self, abs_zero, abs_eq_zero, sub_eq_zero] at htie
    exact absurd htie hother

/-- Nothing rounds to two numbers. -/
theorem RoundsTo.unique {negative : Bool} {x y : Single} (hx : RoundsTo negative q x)
    (hy : RoundsTo negative q y) : x = y := by
  obtain ⟨hxlast, hxsign, hxnear⟩ := roundsTo_iff_rank.mp hx
  obtain ⟨hylast, hysign, hynear⟩ := roundsTo_iff_rank.mp hy
  refine eq_of_rank ?_ (hxsign.trans hysign.symm)
  by_contra hne
  wlog hlt : x.rank < y.rank generalizing x y
  · exact this hy hx hylast hysign hynear hxlast hxsign hxnear (Ne.symm hne) (by omega)
  have hleft := hxnear _ hylast (Ne.symm hne)
  have hright := hynear _ hxlast hne
  -- Both ranks are even, so there is a number between the two, and it is nearer.
  have hxeven : x.rank % 2 = 0 := by
    by_contra hodd
    rw [beq_eq_false_iff_ne.mpr hodd] at hleft
    exact absurd hright.le (not_le.mpr hleft)
  have hyeven : y.rank % 2 = 0 := by
    by_contra hodd
    rw [beq_eq_false_iff_ne.mpr hodd] at hright
    exact absurd hleft.le (not_le.mpr hright)
  have hxmid := strictMono_absoluteAt (show x.rank < x.rank + 1 by omega)
  have hmidy := strictMono_absoluteAt (show x.rank + 1 < y.rank by omega)
  have hbelow := (lower_nearer_iff hxmid).mp (hxnear (x.rank + 1) (by omega) (by omega))
  have habove := (upper_nearer_iff hmidy).mp (hynear (x.rank + 1) (by omega) (by omega))
  linarith [hbelow.le, habove.le]

/-- The interval of a number holds what rounds to it. -/
theorem roundsTo_iff {negative : Bool} {x : Single} (hzero : 0 < x.rank)
    (hlast : x.rank < lastRank) :
    RoundsTo negative q x ↔ x.negative = negative ∧ x.rounding.Mem q := by
  obtain ⟨r, hr⟩ : ∃ r, x.rank = r + 1 := Nat.exists_eq_add_of_le' hzero
  have hlow : Before x.rounding.closed x.rounding.low (q * 2 ^ 151) ↔
      Before x.rounding.closed (absoluteAt r + absoluteAt (r + 1)) (2 * q) := by
    refine Before.congr_sub ⟨2 ^ 150, by positivity, ?_⟩
    rw [low_rounding hr, absoluteAt, absoluteAt]
    push_cast
    ring
  have hhigh : Before x.rounding.closed (q * 2 ^ 151) x.rounding.high ↔
      Before x.rounding.closed (2 * q) (absoluteAt (r + 1) + absoluteAt (r + 2)) := by
    refine Before.congr_sub ⟨2 ^ 150, by positivity, ?_⟩
    rw [high_rounding, hr, absoluteAt, absoluteAt]
    push_cast
    ring
  have hclosed : x.rounding.closed = (x.rank % 2 == 0) := by
    rw [← significand_mod_two]
    rfl
  rw [roundsTo_iff_rank, Interval.Mem, hlow, hhigh, ← nearest_iff (by omega), hclosed, hr]
  constructor
  · rintro ⟨-, hsign, hnear⟩
    exact ⟨hsign, hnear⟩
  · rintro ⟨hsign, hnear⟩
    exact ⟨by omega, hsign, hnear⟩

end Single

end Scribe
