import Crosswalk.Proofs.WholeNumbers
import Mathlib.Algebra.Order.Field.Power
import Mathlib.Algebra.Order.Ring.Rat
import Mathlib.Tactic.GCongr
import Mathlib.Tactic.Linarith
import Mathlib.Tactic.Ring

/-!
# What is rounded to a number

Rounding takes each ratio to the number of the format that is nearest to it, so a number is what all
ratios of an interval around it are rounded to. The interval reaches half a unit up and, except below the
powers of two where the numbers get denser, half a unit down; its ends belong to it if the significand is
even. Ratios are measured as rationals here, whatever pair of naturals they are given by.
-/

namespace Crosswalk

/-- A significand and a unit of the format. The significand fills the precision unless the unit is the
least one. -/
structure NumberFormat.Fits (fmt : NumberFormat) (m : Nat) (e : Int) : Prop where
  precise : m < 2 ^ fmt.precision
  filled : fmt.minExponent < e → 2 ^ (fmt.precision - 1) ≤ m
  least : fmt.minExponent ≤ e
  greatest : e ≤ fmt.maxExponent

namespace Number

/-- The numbers of a format. -/
def IsOf (fmt : NumberFormat) : Number → Prop
  | finite _ m e => fmt.Fits m e
  | _ => True

variable {fmt : NumberFormat} {s : Bool} {m num den : Nat} {e k : Int} {v : ℚ}

/-! ## Ratios -/

theorem two_zpow_pos (e : Int) : (0 : ℚ) < 2 ^ e := zpow_pos two_pos e

/-- A ratio over a power of a base, whose sign says which of the two is multiplied. -/
theorem overBase_spec {b : Nat} (hb : 0 < b) (num : Nat) (hden : 0 < den) (e : Int) :
    let r : Nat × Nat := match e with
      | .ofNat k => (num, den * Nat.pow b k)
      | .negSucc k => (num * Nat.pow b (k + 1), den)
    0 < r.2 ∧ (r.1 / r.2 : ℚ) = num / den / b ^ e := by
  cases e with
  | ofNat k =>
    refine ⟨Nat.mul_pos hden (Nat.pow_pos hb), ?_⟩
    simp only [Nat.pow_eq, Nat.cast_mul, Nat.cast_pow, Int.ofNat_eq_natCast, zpow_natCast]
    rw [div_div]
  | negSucc k =>
    refine ⟨hden, ?_⟩
    simp only [Nat.pow_eq, Nat.cast_mul, Nat.cast_pow, zpow_negSucc]
    rw [div_inv_eq_mul, div_mul_eq_mul_div]

theorem overUnit_spec (num : Nat) (hden : 0 < den) (e : Int) :
    0 < (overUnit num den e).2 ∧
      ((overUnit num den e).1 : ℚ) / (overUnit num den e).2 = num / den / 2 ^ e :=
  overBase_spec two_pos num hden e

theorem overUnit_lt_iff (hden : 0 < den) {n : Nat} :
    (overUnit num den e).1 < n * (overUnit num den e).2 ↔ (num / den : ℚ) < n * 2 ^ e := by
  obtain ⟨hd, hratio⟩ := overUnit_spec num hden e
  rw [← div_lt_iff₀ (two_zpow_pos e), ← hratio, div_lt_iff₀ (Nat.cast_pos.2 hd)]
  exact_mod_cast Iff.rfl

theorem le_overUnit_iff (hden : 0 < den) {n : Nat} :
    n * (overUnit num den e).2 ≤ (overUnit num den e).1 ↔ n * 2 ^ e ≤ (num / den : ℚ) := by
  rw [← not_lt, ← not_lt, overUnit_lt_iff hden]

theorem scale_spec (m : Nat) (e : Int) :
    0 < (scale m e).2 ∧ ((scale m e).1 : ℚ) / (scale m e).2 = m * 2 ^ e := by
  cases e with
  | ofNat k =>
    refine ⟨Nat.one_pos, ?_⟩
    simp only [scale, Nat.pow_eq, Nat.cast_mul, Nat.cast_pow, Nat.cast_ofNat, Int.ofNat_eq_natCast,
      zpow_natCast, Nat.cast_one, div_one]
  | negSucc k =>
    refine ⟨Nat.two_pow_pos _, ?_⟩
    simp only [scale, Nat.pow_eq, Nat.cast_pow, Nat.cast_ofNat, zpow_negSucc, div_eq_mul_inv]

/-- The ratio is nearer to `m` than to any other natural, or as near and `m` is even. -/
def Nearest (v : ℚ) (m : Nat) : Prop :=
  (m - 1 / 2 < v ∧ v < m + 1 / 2) ∨ (m % 2 = 0 ∧ m - 1 / 2 ≤ v ∧ v ≤ m + 1 / 2)

/-- What the ratio is nearest to, over its denominator. -/
theorem Nearest.bounds (h : Nearest (num / den) m) (hden : 0 < den) :
    (2 * m * den < 2 * num + den ∧ 2 * num < 2 * m * den + den) ∨
      (m % 2 = 0 ∧ 2 * m * den ≤ 2 * num + den ∧ 2 * num ≤ 2 * m * den + den) := by
  have hden' : (0 : ℚ) < den := Nat.cast_pos.2 hden
  rw [Nearest, lt_div_iff₀ hden', div_lt_iff₀ hden', le_div_iff₀ hden', div_le_iff₀ hden'] at h
  refine h.imp (fun ⟨hlow, hhigh⟩ => ?_) fun ⟨heven, hlow, hhigh⟩ => ⟨heven, ?_⟩
  · have hlow : (2 * m * den : ℚ) < 2 * num + den := by linarith
    have hhigh : (2 * num : ℚ) < 2 * m * den + den := by linarith
    exact ⟨by exact_mod_cast hlow, by exact_mod_cast hhigh⟩
  · have hlow : (2 * m * den : ℚ) ≤ 2 * num + den := by linarith
    have hhigh : (2 * num : ℚ) ≤ 2 * m * den + den := by linarith
    exact ⟨by exact_mod_cast hlow, by exact_mod_cast hhigh⟩

theorem roundHalfEven_eq (hden : 0 < den) (h : Nearest (num / den) m) :
    roundHalfEven num den = m := by
  have hbounds := h.bounds hden
  have hsplit := Nat.div_add_mod num den
  have hrest := Nat.mod_lt num hden
  rw [roundHalfEven]
  generalize num / den = q at hsplit ⊢
  generalize num % den = r at hsplit hrest ⊢
  have hcases : q = m ∨ q + 1 = m := by
    have hlow : ¬ m + 1 ≤ q := fun hle => by
      have := Nat.mul_le_mul_left den hle
      grind
    have hhigh : ¬ q + 2 ≤ m := fun hle => by
      have := Nat.mul_le_mul_left den hle
      grind
    omega
  rcases hcases with rfl | rfl
  · grind
  · grind

/-! ## Units -/

/-- `2 ^ e` is the unit of a ratio: over it the ratio fills the precision, or it is the least unit. -/
structure HasUnit (fmt : NumberFormat) (v : ℚ) (e : Int) : Prop where
  below : v < 2 ^ fmt.precision * 2 ^ e
  filled : fmt.minExponent < e → 2 ^ fmt.precision * 2 ^ e ≤ 2 * v
  least : fmt.minExponent ≤ e

theorem two_zpow_succ_le {i j : Int} (h : i < j) : (2 : ℚ) * 2 ^ i ≤ 2 ^ j := by
  have hle : (2 : ℚ) ^ (i + 1) ≤ 2 ^ j := zpow_le_zpow_right₀ one_le_two h
  rwa [zpow_add_one₀ two_ne_zero, mul_comm] at hle

theorem HasUnit.unique {e' : Int} (h : HasUnit fmt v e) (h' : HasUnit fmt v e') : e = e' := by
  have hlt {i j : Int} (hi : HasUnit fmt v i) (hj : HasUnit fmt v j) : ¬ i < j := by
    intro hij
    have hp : (0 : ℚ) < 2 ^ fmt.precision := pow_pos two_pos _
    have hfilled := hj.filled (Int.lt_of_le_of_lt hi.least hij)
    have hstep := mul_le_mul_of_nonneg_left (two_zpow_succ_le hij) hp.le
    linarith [hi.below]
  exact Int.le_antisymm (Int.not_lt.1 (hlt h' h)) (Int.not_lt.1 (hlt h h'))

/-- A ratio lies within a factor of two of the quotient of the leading bits. -/
theorem ratio_bounds (hnum : num ≠ 0) (hden : den ≠ 0) :
    (2 : ℚ) ^ ((num.log2 : Int) - den.log2) < 2 * (num / den) ∧
      (num / den : ℚ) < 2 * 2 ^ ((num.log2 : Int) - den.log2) := by
  have hden' : (0 : ℚ) < den := Nat.cast_pos.2 (Nat.pos_of_ne_zero hden)
  have hnumLow : (2 : ℚ) ^ num.log2 ≤ num := by exact_mod_cast Nat.log2_self_le hnum
  have hnumHigh : (num : ℚ) < 2 ^ num.log2 * 2 := by exact_mod_cast (Nat.lt_log2_self (n := num))
  have hdenLow : (2 : ℚ) ^ den.log2 ≤ den := by exact_mod_cast Nat.log2_self_le hden
  have hdenHigh : (den : ℚ) < 2 ^ den.log2 * 2 := by exact_mod_cast (Nat.lt_log2_self (n := den))
  have hpos (n : Nat) : (0 : ℚ) < 2 ^ n := pow_pos two_pos n
  rw [zpow_sub₀ two_ne_zero, zpow_natCast, zpow_natCast, ← mul_div_assoc, ← mul_div_assoc,
    div_lt_div_iff₀ (hpos _) hden', div_lt_div_iff₀ hden' (hpos _)]
  constructor
  · calc (2 : ℚ) ^ num.log2 * den < 2 ^ num.log2 * (2 ^ den.log2 * 2) :=
          mul_lt_mul_of_pos_left hdenHigh (hpos _)
      _ = 2 * 2 ^ num.log2 * 2 ^ den.log2 := by ring
      _ ≤ 2 * num * 2 ^ den.log2 := by gcongr
  · calc (num : ℚ) * 2 ^ den.log2 < 2 ^ num.log2 * 2 * 2 ^ den.log2 :=
          mul_lt_mul_of_pos_right hnumHigh (hpos _)
      _ = 2 * 2 ^ num.log2 * 2 ^ den.log2 := by ring
      _ ≤ 2 * 2 ^ num.log2 * den := by gcongr

theorem hasUnit_unitExponent (fmt : NumberFormat) (hnum : num ≠ 0) (hden : 0 < den) :
    HasUnit fmt (num / den) (unitExponent fmt num den) := by
  obtain ⟨hlow, hhigh⟩ := ratio_bounds hnum hden.ne'
  rw [unitExponent]
  set start : Int := (num.log2 : Int) - den.log2 - fmt.precision with hstart
  have hp : (0 : ℚ) < 2 ^ fmt.precision := pow_pos two_pos _
  have hleading : (2 : ℚ) ^ ((num.log2 : Int) - den.log2) = 2 ^ fmt.precision * 2 ^ start := by
    rw [← zpow_natCast, ← zpow_add₀ two_ne_zero, hstart]
    congr 1
    omega
  rw [hleading] at hlow hhigh
  have hfits : (overUnit num den start).1 < (overUnit num den start).2 * Nat.pow 2 fmt.precision ↔
      (num / den : ℚ) < 2 ^ fmt.precision * 2 ^ start := by
    rw [mul_comm, Nat.pow_eq, overUnit_lt_iff hden, Nat.cast_pow, Nat.cast_ofNat]
  have hunit : ∃ e, (if (overUnit num den start).1 <
        (overUnit num den start).2 * Nat.pow 2 fmt.precision then start else start + 1) = e ∧
      (num / den : ℚ) < 2 ^ fmt.precision * 2 ^ e ∧ 2 ^ fmt.precision * 2 ^ e ≤ 2 * (num / den : ℚ) := by
    refine ⟨_, rfl, ?_⟩
    split
    next h => exact ⟨hfits.1 h, hlow.le⟩
    next h =>
      rw [hfits, not_lt] at h
      rw [zpow_add_one₀ two_ne_zero]
      constructor <;> linarith
  obtain ⟨e, he, hbelow, hfilled⟩ := hunit
  dsimp only
  rw [he]
  refine ⟨?_, fun h => ?_, le_max_left _ _⟩
  · have hle : (2 : ℚ) ^ e ≤ 2 ^ max fmt.minExponent e :=
      zpow_le_zpow_right₀ one_le_two (le_max_right _ _)
    exact hbelow.trans_le (mul_le_mul_of_nonneg_left hle hp.le)
  · rw [max_eq_right (by omega)]
    exact hfilled

/-! ## Intervals -/

/-- How far down the interval of a number reaches, in its units. -/
def reach (fmt : NumberFormat) (m : Nat) (e : Int) : ℚ :=
  if m = 2 ^ (fmt.precision - 1) ∧ fmt.minExponent < e then 1 / 4 else 1 / 2

theorem reach_le (fmt : NumberFormat) (m : Nat) (e : Int) : reach fmt m e ≤ 1 / 2 := by
  rw [reach]
  split <;> norm_num

theorem reach_pos (fmt : NumberFormat) (m : Nat) (e : Int) : 0 < reach fmt m e := by
  rw [reach]
  split <;> norm_num

/-- The ratio lies in the interval of the number `m * 2 ^ e`. -/
def RoundsTo (fmt : NumberFormat) (v : ℚ) (m : Nat) (e : Int) : Prop :=
  ((m - reach fmt m e) * 2 ^ e < v ∧ v < (m + 1 / 2) * 2 ^ e) ∨
    (m % 2 = 0 ∧ (m - reach fmt m e) * 2 ^ e ≤ v ∧ v ≤ (m + 1 / 2) * 2 ^ e)

theorem RoundsTo.bounds (h : RoundsTo fmt v m e) :
    (m - reach fmt m e) * 2 ^ e ≤ v ∧ v ≤ (m + 1 / 2) * 2 ^ e :=
  h.elim (fun h => ⟨h.1.le, h.2.le⟩) And.right

theorem RoundsTo.pos (h : RoundsTo fmt v m e) (hm : m ≠ 0) : 0 < v := by
  have hunit := two_zpow_pos e
  have hreach := reach_le fmt m e
  have hone : (1 : ℚ) ≤ m := by exact_mod_cast Nat.one_le_iff_ne_zero.2 hm
  have hlow : 0 < (m - reach fmt m e) * 2 ^ e := mul_pos (by linarith) hunit
  exact hlow.trans_le h.bounds.1

theorem RoundsTo.nearest (h : RoundsTo fmt v m e) : Nearest (v / 2 ^ e) m := by
  have hunit := two_zpow_pos e
  have hreach := reach_le fmt m e
  rw [Nearest, lt_div_iff₀ hunit, div_lt_iff₀ hunit, le_div_iff₀ hunit, div_le_iff₀ hunit]
  have hlow : ((m : ℚ) - 1 / 2) * 2 ^ e ≤ (m - reach fmt m e) * 2 ^ e :=
    mul_le_mul_of_nonneg_right (by linarith) hunit.le
  exact h.imp (And.imp_left hlow.trans_lt) (And.imp_right (And.imp_left hlow.trans))

theorem roundsTo_self : RoundsTo fmt (m * 2 ^ e) m e := by
  have hunit := two_zpow_pos e
  have hreach := reach_pos fmt m e
  refine .inl ⟨?_, ?_⟩ <;> exact mul_lt_mul_of_pos_right (by linarith) hunit

/-- A ratio in the interval of a number that does not fill the precision over its unit lies just below a power
of two. -/
theorem RoundsTo.eq_two_pow_of_unfilled (h : RoundsTo fmt v m e) (hfit : fmt.Fits m e)
    (hp : fmt.precision ≠ 0) (hleast : fmt.minExponent < e)
    (hunfilled : 2 * v < 2 ^ fmt.precision * 2 ^ e) : m = 2 ^ (fmt.precision - 1) := by
  refine Nat.le_antisymm (Nat.lt_succ_iff.1 ?_) (hfit.filled hleast)
  have hunit := two_zpow_pos e
  have hlow : ((m : ℚ) - 1 / 2) * 2 ^ e < 2 ^ (fmt.precision - 1) * 2 ^ e := by
    have hreach := reach_le fmt m e
    have hstart : ((m : ℚ) - 1 / 2) * 2 ^ e ≤ (m - reach fmt m e) * 2 ^ e :=
      mul_le_mul_of_nonneg_right (by linarith) hunit.le
    rw [← mul_pow_sub_one hp, mul_assoc] at hunfilled
    linarith [h.bounds.1]
  have hlow := lt_of_mul_lt_mul_right hlow hunit.le
  have hlt : (m : ℚ) < 2 ^ (fmt.precision - 1) + 1 := by linarith
  exact_mod_cast hlt

/-- A ratio in the interval of a number fills the precision over its unit, or it lies below a power of two
and is rounded up to that. -/
theorem RoundsTo.hasUnit (h : RoundsTo fmt v m e) (hfit : fmt.Fits m e) (hp : fmt.precision ≠ 0) :
    HasUnit fmt v e ∨
      m = 2 ^ (fmt.precision - 1) ∧ HasUnit fmt v (e - 1) ∧
        Nearest (v / 2 ^ (e - 1)) (2 ^ fmt.precision) := by
  obtain ⟨hlow, hhigh⟩ := h.bounds
  have hbelow : v < 2 ^ fmt.precision * 2 ^ e := by
    have hm : (m : ℚ) + 1 ≤ 2 ^ fmt.precision := by exact_mod_cast hfit.precise
    exact hhigh.trans_lt (mul_lt_mul_of_pos_right (by linarith) (two_zpow_pos e))
  by_cases hfilled : fmt.minExponent < e → 2 ^ fmt.precision * 2 ^ e ≤ 2 * v
  · exact .inl ⟨hbelow, hfilled, hfit.least⟩
  push Not at hfilled
  obtain ⟨hleast, hunfilled⟩ := hfilled
  have hm := h.eq_two_pow_of_unfilled hfit hp hleast hunfilled
  have hmQ : (m : ℚ) = 2 ^ (fmt.precision - 1) := by exact_mod_cast hm
  -- Over half the unit, the ratio is within half of one of twice the power.
  have hhalf : (2 : ℚ) ^ e = 2 * 2 ^ (e - 1) := by
    rw [← zpow_one_add₀ two_ne_zero]
    congr 1
    omega
  have hsmall := two_zpow_pos (e - 1)
  have hprecision : (2 : ℚ) ^ fmt.precision = 2 * 2 ^ (fmt.precision - 1) := (mul_pow_sub_one hp 2).symm
  have hone : (1 : ℚ) ≤ 2 ^ (fmt.precision - 1) := one_le_pow₀ one_le_two
  rw [reach, if_pos ⟨hm, hleast⟩, hmQ, hhalf] at hlow
  rw [hhalf] at hunfilled
  refine .inr ⟨hm, ⟨by linarith, fun _ => ?_, by omega⟩, .inr ⟨?_, ?_, ?_⟩⟩
  · rw [hprecision]
    nlinarith
  · rw [← mul_pow_sub_one hp]
    exact Nat.mul_mod_right 2 _
  · rw [le_div_iff₀ hsmall]
    push_cast
    rw [hprecision]
    linarith
  · rw [div_le_iff₀ hsmall]
    push_cast
    nlinarith

/-- Every ratio in the interval of a number is rounded to it. -/
theorem ofRatio_of_roundsTo (hden : 0 < den) (hm : m ≠ 0) (hfit : fmt.Fits m e)
    (hp : fmt.precision ≠ 0) (h : RoundsTo fmt (num / den) m e) :
    ofRatio fmt s num den = .finite s m e := by
  have hnum : num ≠ 0 := by
    rintro rfl
    have hpos := h.pos hm
    simp at hpos
  have hwithin : ¬ fmt.maxExponent < e := not_lt.2 hfit.greatest
  rw [ofRatio, if_neg hnum]
  have hunit := hasUnit_unitExponent fmt hnum hden
  rcases h.hasUnit hfit hp with hhas | ⟨hpower, hhas, hnearest⟩
  · rw [hunit.unique hhas]
    obtain ⟨hd, hratio⟩ := overUnit_spec num hden e
    have hround := roundHalfEven_eq hd (hratio ▸ h.nearest)
    have hcarry : m ≠ Nat.pow 2 fmt.precision := hfit.precise.ne
    simp only [hround, if_neg hcarry, if_neg hwithin]
  · rw [hunit.unique hhas]
    obtain ⟨hd, hratio⟩ := overUnit_spec num hden (e - 1)
    have hround := roundHalfEven_eq hd (hratio ▸ hnearest)
    simp only [hround, Nat.pow_eq, if_true, Int.sub_add_cancel, if_neg hwithin, ← hpower]

theorem roundHalfEven_bounds (num den : Nat) :
    num / den ≤ roundHalfEven num den ∧ roundHalfEven num den ≤ num / den + 1 := by
  rw [roundHalfEven]
  grind

/-- Over its unit a ratio is rounded to what fills the precision, or just overflows it. -/
theorem HasUnit.roundHalfEven_bounds (h : HasUnit fmt (num / den) e) (hden : 0 < den)
    (hp : fmt.precision ≠ 0) :
    (fmt.minExponent < e →
      2 ^ (fmt.precision - 1) ≤ roundHalfEven (overUnit num den e).1 (overUnit num den e).2) ∧
    roundHalfEven (overUnit num den e).1 (overUnit num den e).2 ≤ 2 ^ fmt.precision := by
  have hd := (overUnit_spec num hden e).1
  have hbelow : (overUnit num den e).1 < 2 ^ fmt.precision * (overUnit num den e).2 := by
    rw [overUnit_lt_iff hden]
    exact_mod_cast h.below
  have hfilled (hleast : fmt.minExponent < e) :
      2 ^ (fmt.precision - 1) * (overUnit num den e).2 ≤ (overUnit num den e).1 := by
    have hhalf := h.filled hleast
    rw [← mul_pow_sub_one hp, mul_assoc, mul_le_mul_iff_right₀ two_pos] at hhalf
    rw [le_overUnit_iff hden]
    exact_mod_cast hhalf
  obtain ⟨hlow, hhigh⟩ := Number.roundHalfEven_bounds (overUnit num den e).1 (overUnit num den e).2
  exact ⟨fun hleast => ((Nat.le_div_iff_mul_le hd).2 (hfilled hleast)).trans hlow,
    hhigh.trans (Nat.succ_le_of_lt ((Nat.div_lt_iff_lt_mul hd).2 hbelow))⟩

/-- Rounding gives a number of the format. -/
theorem isOf_ofRatio (s : Bool) (num : Nat) (hden : 0 < den) (hp : fmt.precision ≠ 0)
    (hrange : fmt.minExponent ≤ fmt.maxExponent) : IsOf fmt (ofRatio fmt s num den) := by
  have hpos (n : Nat) : 0 < 2 ^ n := Nat.two_pow_pos n
  rw [ofRatio]
  split
  · exact ⟨hpos _, fun h => absurd h (Int.lt_irrefl _), Int.le_refl _, hrange⟩
  next hnum =>
    have hunit := hasUnit_unitExponent fmt hnum hden
    generalize unitExponent fmt num den = e at hunit
    obtain ⟨hfilled, hround⟩ := hunit.roundHalfEven_bounds hden hp
    simp only [Nat.pow_eq]
    generalize roundHalfEven (overUnit num den e).1 (overUnit num den e).2 = m at hfilled hround
    by_cases hcarry : m = 2 ^ fmt.precision
    · simp only [if_pos hcarry]
      split
      · trivial
      next hwithin =>
        refine ⟨?_, fun _ => Nat.le_refl _, ?_, Int.not_lt.1 hwithin⟩
        · exact Nat.pow_lt_pow_right (by decide) (Nat.sub_one_lt hp)
        · exact hunit.least.trans (Int.le_add_one (Int.le_refl e))
    · simp only [if_neg hcarry]
      split
      · trivial
      next hwithin => exact ⟨hround.lt_of_ne hcarry, hfilled, hunit.least, Int.not_lt.1 hwithin⟩

end Number

end Crosswalk
