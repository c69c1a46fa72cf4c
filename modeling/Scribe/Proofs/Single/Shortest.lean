import Mathlib
import Scribe.Proofs.Single.Rounding

/-! The search for the shortest decimal. On a grid, a number lies between two neighbours, and the
interval that rounds to it holds one of these if it holds any point of the grid. So the search takes
the coarsest grid with a point in the interval, and that point has as few digits as any decimal in
the interval: with one digit less there would be a power of ten between the two, on a coarser
grid. -/

namespace Scribe

/-- A decimal of any size: the coefficient times this power of ten. -/
structure Numeral where
  coefficient : Nat
  exponent : Int
  deriving DecidableEq

def Numeral.value (n : Numeral) : ℚ := n.coefficient * 10 ^ n.exponent

def Decimal.numeral (d : Decimal) : Numeral := ⟨d.coefficient, d.grid - 45⟩

theorem Decimal.value_numeral (d : Decimal) :
    d.numeral.value = d.coefficient * 10 ^ d.grid / 10 ^ 45 := by
  rw [numeral, Numeral.value, zpow_sub₀ (by norm_num), zpow_natCast, mul_div_assoc]
  rfl

theorem Interval.holds_iff (i : Interval) (d : Decimal) :
    i.holds d = true ↔ i.Mem d.numeral.value := by
  have hcast : ∀ a b : Nat, Before i.closed a b ↔ if i.closed then a ≤ b else a < b := by
    intro a b
    unfold Before
    split <;> norm_cast
  have hlow : Before i.closed i.low (d.numeral.value * 2 ^ 151) ↔
      Before i.closed (i.low * 10 ^ 45 : ℕ) (d.coefficient * 10 ^ d.grid * 2 ^ 151 : ℕ) := by
    refine (Before.congr_sub ⟨10 ^ 45, by positivity, ?_⟩).symm
    rw [Decimal.value_numeral]
    push_cast
    ring
  have hhigh : Before i.closed (d.numeral.value * 2 ^ 151) i.high ↔
      Before i.closed (d.coefficient * 10 ^ d.grid * 2 ^ 151 : ℕ) (i.high * 10 ^ 45 : ℕ) := by
    refine (Before.congr_sub ⟨10 ^ 45, by positivity, ?_⟩).symm
    rw [Decimal.value_numeral]
    push_cast
    ring
  rw [Mem, hlow, hhigh, hcast, hcast]
  cases hclosed : i.closed <;> simp [holds, hclosed]

namespace Single

variable {x : Single} {q : ℚ}

/-! ## One grid -/

/-- The point of a grid at or below the number. -/
def floorOn (x : Single) (grid : Nat) : Nat :=
  x.magnitude * 10 ^ 45 / (10 ^ grid * 2 ^ 149)

theorem value_floorOn_le (x : Single) (grid : Nat) :
    (Decimal.numeral ⟨x.floorOn grid, grid⟩).value ≤ x.absolute := by
  have hfloor : x.floorOn grid * (10 ^ grid * 2 ^ 149) ≤ x.magnitude * 10 ^ 45 :=
    Nat.div_mul_le_self _ _
  rw [Decimal.value_numeral, absolute, div_le_div_iff₀ (by positivity) (by positivity), mul_assoc]
  exact_mod_cast hfloor

theorem lt_value_floorOn_succ (x : Single) (grid : Nat) :
    x.absolute < (Decimal.numeral ⟨x.floorOn grid + 1, grid⟩).value := by
  have hfloor : x.magnitude * 10 ^ 45 < (x.floorOn grid + 1) * (10 ^ grid * 2 ^ 149) := by
    rw [Nat.mul_comm (x.floorOn grid + 1)]
    exact Nat.lt_mul_div_succ _ (by positivity)
  rw [Decimal.value_numeral, absolute, div_lt_div_iff₀ (by positivity) (by positivity), mul_assoc]
  exact_mod_cast hfloor

/-- What the search finds on a grid, or the two points that it has tried there. -/
theorem onGrid_cases (x : Single) (grid : Nat) :
    (∃ d, x.onGrid grid = some d ∧ d.grid = grid ∧ x.rounding.Mem d.numeral.value) ∨
    (x.onGrid grid = none ∧ ¬ x.rounding.Mem (Decimal.numeral ⟨x.floorOn grid, grid⟩).value ∧
      ¬ x.rounding.Mem (Decimal.numeral ⟨x.floorOn grid + 1, grid⟩).value) := by
  simp only [← Interval.holds_iff, Bool.not_eq_true]
  cases hfound : x.onGrid grid with
  | some d =>
    refine Or.inl ⟨d, rfl, ?_⟩
    simp only [onGrid] at hfound
    split at hfound
    · next hbelow habove =>
      cases hfound
      split
      · exact ⟨rfl, habove⟩
      · exact ⟨rfl, hbelow⟩
    · next hbelow _ =>
      cases hfound
      exact ⟨rfl, hbelow⟩
    · next _ habove =>
      cases hfound
      exact ⟨rfl, habove⟩
    · cases hfound
  | none =>
    refine Or.inr ⟨rfl, ?_⟩
    simp only [onGrid] at hfound
    split at hfound
    · cases hfound
    · cases hfound
    · cases hfound
    · next hbelow habove => exact ⟨hbelow, habove⟩

/-- If the interval holds any point of a grid, it holds a neighbour of the number. -/
theorem not_mem_of_onGrid {grid : Nat} (h : x.onGrid grid = none)
    (hmem : x.rounding.Mem x.absolute) (c : Nat) :
    ¬ x.rounding.Mem (Decimal.numeral ⟨c, grid⟩).value := by
  intro hc
  have hmono : ∀ {a b : Nat}, a ≤ b → (Decimal.numeral ⟨a, grid⟩).value ≤
      (Decimal.numeral ⟨b, grid⟩).value := by
    intro a b hab
    simp only [Decimal.numeral, Numeral.value]
    gcongr
  rcases x.onGrid_cases grid with ⟨d, hd, -⟩ | ⟨-, hbelow, habove⟩
  · rw [h] at hd
    cases hd
  · rcases Nat.lt_or_ge (x.floorOn grid) c with hlt | hge
    · exact habove (hmem.between hc (x.lt_value_floorOn_succ grid).le (hmono hlt))
    · exact hbelow (hc.between hmem (hmono hge) (x.value_floorOn_le grid))

/-! ## All grids -/

variable (hzero : 0 < x.rank) (hlast : x.rank < lastRank)

include hzero hlast

theorem mem_absolute : x.rounding.Mem x.absolute :=
  ((roundsTo_iff hzero hlast).mp (roundsTo_absolute (isNaN_eq_false_iff.mpr hlast.le))).2

/-- The interval keeps away from zero, and from all that is too large. -/
theorem bounds_of_mem (h : x.rounding.Mem q) : 0 < q ∧ q ≤ 2 ^ 128 := by
  obtain ⟨r, hr⟩ : ∃ r, x.rank = r + 1 := Nat.exists_eq_add_of_le' hzero
  have hlow : (0 : ℚ) < x.rounding.low := by
    have hpos := strictMono_magnitudeAt (show r < r + 1 by omega)
    rw [low_rounding hr]
    exact_mod_cast (show 0 < 2 * (magnitudeAt r + magnitudeAt (r + 1)) by omega)
  have hhigh : (x.rounding.high : ℚ) ≤ 2 ^ 128 * 2 ^ 151 := by
    have hthis := strictMono_magnitudeAt.monotone hlast.le
    have hnext := strictMono_magnitudeAt.monotone (show x.rank + 1 ≤ lastRank by omega)
    have hinf : 4 * magnitudeAt lastRank = 2 ^ 128 * 2 ^ 151 := by decide +kernel
    rw [high_rounding]
    exact_mod_cast (show 2 * (magnitudeAt x.rank + magnitudeAt (x.rank + 1)) ≤ 2 ^ 128 * 2 ^ 151 by
      omega)
  have hmin := h.1.le
  have hmax := h.2.le
  constructor
  · linarith
  · linarith

/-- The finest grid always has a point in the interval. -/
theorem onGrid_zero_ne_none : x.onGrid 0 ≠ none := by
  intro hnone
  have hmem := mem_absolute hzero hlast
  have hfloor := x.value_floorOn_le 0
  have hceil := x.lt_value_floorOn_succ 0
  rcases x.onGrid_cases 0 with ⟨d, hd, -⟩ | ⟨-, hbelow, habove⟩
  · rw [hnone] at hd
    cases hd
  -- The interval, at least four units wide, would fit between two points less than three apart.
  have hlow := Before.le_of_not fun h => hbelow ⟨h, .le_trans (by gcongr) hmem.2⟩
  have hhigh := Before.le_of_not fun h => habove ⟨hmem.1.trans_le (by gcongr), h⟩
  have hwidth : (x.rounding.low : ℚ) + 4 ≤ x.rounding.high := by
    obtain ⟨r, hr⟩ : ∃ r, x.rank = r + 1 := Nat.exists_eq_add_of_le' hzero
    have hfirst := strictMono_magnitudeAt (show r < r + 1 by omega)
    have hsecond := strictMono_magnitudeAt (show r + 1 < r + 2 by omega)
    rw [low_rounding hr, high_rounding, hr]
    exact_mod_cast (show 2 * (magnitudeAt r + magnitudeAt (r + 1)) + 4 ≤
      2 * (magnitudeAt (r + 1) + magnitudeAt (r + 2)) by omega)
  have hstep : (Decimal.numeral ⟨x.floorOn 0 + 1, 0⟩).value =
      (Decimal.numeral ⟨x.floorOn 0, 0⟩).value + 1 / 10 ^ 45 := by
    rw [Decimal.value_numeral, Decimal.value_numeral]
    push_cast
    ring
  rw [hstep] at hhigh
  linarith

/-- The search ends on the coarsest grid that has a point in the interval. -/
theorem shortestFrom_spec (grid : Nat) :
    x.rounding.Mem (x.shortestFrom grid).numeral.value ∧
      ∀ g ≤ grid, (x.shortestFrom grid).grid < g → ∀ c,
        ¬ x.rounding.Mem (Decimal.numeral ⟨c, g⟩).value := by
  induction grid with
  | zero =>
    rcases x.onGrid_cases 0 with ⟨d, hd, -, hmem⟩ | ⟨hnone, -⟩
    · rw [shortestFrom, hd]
      exact ⟨hmem, fun g hg hlt => by omega⟩
    · exact absurd hnone (onGrid_zero_ne_none hzero hlast)
  | succ grid ih =>
    rcases x.onGrid_cases (grid + 1) with ⟨d, hd, hgrid, hmem⟩ | ⟨hnone, -⟩
    · rw [shortestFrom, hd]
      refine ⟨hmem, fun g hg hlt => ?_⟩
      have hbeyond : d.grid < g := hlt
      omega
    · rw [shortestFrom, hnone]
      refine ⟨ih.1, fun g hg hlt => ?_⟩
      rcases Nat.lt_or_eq_of_le hg with hg | rfl
      · exact ih.2 g (by omega) hlt
      · exact not_mem_of_onGrid hnone (mem_absolute hzero hlast)

theorem mem_shortest : x.rounding.Mem x.shortest.numeral.value :=
  (shortestFrom_spec hzero hlast 84).1

/-- No coarser grid has a point in the interval, also where the search has not looked. -/
theorem not_mem_of_coarser {g : Nat} (hg : x.shortest.grid < g) (c : Nat) :
    ¬ x.rounding.Mem (Decimal.numeral ⟨c, g⟩).value := by
  rcases Nat.lt_or_ge 84 g with hfar | hnear
  · intro hmem
    obtain ⟨hpos, hle⟩ := bounds_of_mem hzero hlast hmem
    rw [Decimal.value_numeral] at hpos hle
    have hc : c ≠ 0 := by
      rintro rfl
      simp at hpos
    have hlarge : (10 : ℚ) ^ 85 ≤ c * 10 ^ g := by
      calc (10 : ℚ) ^ 85 ≤ 10 ^ g := pow_le_pow_right₀ (by norm_num) hfar
        _ ≤ c * 10 ^ g := le_mul_of_one_le_left (by positivity)
            (by exact_mod_cast Nat.one_le_iff_ne_zero.mpr hc)
    rw [div_le_iff₀ (by positivity)] at hle
    have htoo : (2 : ℚ) ^ 128 * 10 ^ 45 < 10 ^ 85 := by norm_num
    linarith
  · exact (shortestFrom_spec hzero hlast 84).2 g hnear hg c

/-- No decimal in the interval has fewer digits than the one that is found. -/
theorem length_digits_shortest_le {n : Numeral} (h : x.rounding.Mem n.value) :
    (Nat.digits 10 x.shortest.coefficient).length ≤ (Nat.digits 10 n.coefficient).length := by
  by_contra hfewer
  obtain ⟨m, e⟩ := n
  generalize hd : x.shortest = d
  obtain ⟨c, g⟩ := d
  have hfound : x.rounding.Mem (Decimal.numeral ⟨c, g⟩).value := hd ▸ mem_shortest hzero hlast
  have hcoarser : ∀ {g'}, g < g' → ∀ c', ¬ x.rounding.Mem (Decimal.numeral ⟨c', g'⟩).value :=
    fun hg => not_mem_of_coarser hzero hlast (by rwa [hd])
  let s := (Nat.digits 10 m).length
  have hm : m < 10 ^ s := Nat.lt_base_pow_length_digits (by norm_num)
  have hc : 10 ^ s ≤ c := by
    rw [hd] at hfewer
    exact (Nat.lt_digits_length_iff (by norm_num) c).mp (not_le.mp hfewer)
  rcases le_or_gt e (g - 45) with he | he
  · -- Between the two lies a power of ten.
    have hpower : (Decimal.numeral ⟨1, g + s⟩).value = 10 ^ s * 10 ^ (g - 45 : ℤ) := by
      have hexp : ((g + s : ℕ) : ℤ) - 45 = s + (g - 45) := by omega
      rw [Decimal.numeral, Numeral.value, hexp, zpow_add₀ (by norm_num), zpow_natCast, Nat.cast_one,
        one_mul]
    have hmem : x.rounding.Mem (10 ^ s * 10 ^ (g - 45 : ℤ)) := by
      refine h.between hfound ?_ ?_
      · simp only [Numeral.value]
        have hm' : (m : ℚ) ≤ 10 ^ s := by exact_mod_cast hm.le
        gcongr
        norm_num
      · simp only [Decimal.numeral, Numeral.value]
        gcongr
        exact_mod_cast hc
    rcases Nat.eq_zero_or_pos s with hs | hs
    · have hnone : m = 0 := by
        rw [hs] at hm
        omega
      have hpos := (bounds_of_mem hzero hlast h).1
      simp [Numeral.value, hnone] at hpos
    · exact hcoarser (by omega) 1 (hpower ▸ hmem)
  · obtain ⟨g', hg'⟩ := Int.eq_ofNat_of_zero_le (show 0 ≤ e + 45 by omega)
    have he' : e = g' - 45 := by omega
    exact hcoarser (by omega) m (he' ▸ h)

end Single

end Scribe
