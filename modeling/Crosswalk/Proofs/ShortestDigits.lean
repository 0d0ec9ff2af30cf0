import Crosswalk.Proofs.RoundedNumbers

/-!
# Seventeen digits are enough

The decimal that is searched for a number lies in the interval of the number, so it is rounded to it. A
search that goes up to seventeen digits finds one: the multiples of a power of ten that is `10 ^ 16` times
less than the number lie closer to one another than the interval is wide, since `2 ^ 53` is less than
`10 ^ 16`.
-/

namespace Crosswalk.Number

variable {fmt : NumberFormat} {m num den c fuel count : Nat} {e k top : Int} {d : Decimal} {i : Interval}

/-- What a decimal stands for. -/
def Decimal.value (d : Decimal) : ℚ :=
  d.digits * 10 ^ d.exponent

theorem ten_zpow_pos (k : Int) : (0 : ℚ) < 10 ^ k := zpow_pos (by norm_num) k

theorem overPower_spec (num : Nat) (hden : 0 < den) (k : Int) :
    0 < (overPower num den k).2 ∧
      ((overPower num den k).1 : ℚ) / (overPower num den k).2 = num / den / 10 ^ k :=
  overBase_spec (by decide) num hden k

theorem overPower_den (num num' den : Nat) (k : Int) :
    (overPower num den k).2 = (overPower num' den k).2 := by
  cases k <;> rfl

/-! ## Membership -/

/-- The four numbers that decide over a decimal are those of the interval and of the decimal in one unit. -/
theorem exists_overPower (num below above : Nat) (hden : 0 < den) (c : Nat) (k : Int) :
    ∃ t : ℚ, 0 < t ∧ ((overPower num den k).1 : ℚ) = num / den * t ∧
      ((overPower below den k).1 : ℚ) = below / den * t ∧
      ((overPower above den k).1 : ℚ) = above / den * t ∧
      (c * (overPower num den k).2 : ℚ) = c * 10 ^ k * t := by
  have hk := ten_zpow_pos k
  obtain ⟨hd, hnum⟩ := overPower_spec num hden k
  have hbelow := (overPower_spec below hden k).2
  have habove := (overPower_spec above hden k).2
  rw [overPower_den below num] at hbelow
  rw [overPower_den above num] at habove
  have hd' : ((overPower num den k).2 : ℚ) ≠ 0 := (Nat.cast_pos.2 hd).ne'
  rw [div_eq_iff hd'] at hnum hbelow habove
  refine ⟨(overPower num den k).2 / 10 ^ k, div_pos (Nat.cast_pos.2 hd) hk, ?_, ?_, ?_, ?_⟩
  · rw [hnum, div_mul_eq_mul_div, mul_div_assoc]
  · rw [hbelow, div_mul_eq_mul_div, mul_div_assoc]
  · rw [habove, div_mul_eq_mul_div, mul_div_assoc]
  · rw [mul_assoc, mul_div_cancel₀ _ hk.ne']

/-- A decimal is in an interval that reaches to both sides of its number if it is between the ends, or is an
end that belongs to the interval. -/
theorem Interval.holds_iff (hden : 0 < i.den) (hbelow : 0 < i.below) (habove : 0 < i.above) :
    i.holds c k = true ↔
      ((i.num / i.den - i.below / i.den : ℚ) < c * 10 ^ k ∧
        (c * 10 ^ k : ℚ) < i.num / i.den + i.above / i.den) ∨
      (i.closed = true ∧ (i.num / i.den - i.below / i.den : ℚ) ≤ c * 10 ^ k ∧
        (c * 10 ^ k : ℚ) ≤ i.num / i.den + i.above / i.den) := by
  have hden' : (0 : ℚ) < i.den := Nat.cast_pos.2 hden
  obtain ⟨t, ht, hn, hl, hh, hv⟩ := exists_overPower i.num i.below i.above hden c k
  have hlow : (0 : ℚ) < (overPower i.below i.den k).1 :=
    hl ▸ mul_pos (div_pos (Nat.cast_pos.2 hbelow) hden') ht
  have hhigh : (0 : ℚ) < (overPower i.above i.den k).1 :=
    hh ▸ mul_pos (div_pos (Nat.cast_pos.2 habove) hden') ht
  rw [Interval.holds]
  rw [Nat.cast_pos] at hlow hhigh
  generalize overPower i.num i.den k = n at *
  generalize overPower i.below i.den k = low at *
  generalize overPower i.above i.den k = high at *
  have hnat : (if c * n.2 ≤ n.1 then
        (if i.closed then decide (n.1 - c * n.2 ≤ low.1) else decide (n.1 - c * n.2 < low.1))
      else if i.closed then decide (c * n.2 - n.1 ≤ high.1) else decide (c * n.2 - n.1 < high.1)) = true ↔
      (n.1 < c * n.2 + low.1 ∧ c * n.2 < n.1 + high.1) ∨
        (i.closed = true ∧ n.1 ≤ c * n.2 + low.1 ∧ c * n.2 ≤ n.1 + high.1) := by
    generalize c * n.2 = v
    cases i.closed <;> split <;> simp <;> omega
  refine hnat.trans ?_
  simp only [← Nat.cast_lt (α := ℚ), ← Nat.cast_le (α := ℚ), Nat.cast_add, Nat.cast_mul, hv, hn, hl, hh,
    ← add_mul, mul_lt_mul_iff_left₀ ht, mul_le_mul_iff_left₀ ht, sub_lt_iff_lt_add, sub_le_iff_le_add]

theorem interval_spec (fmt : NumberFormat) (m : Nat) (e : Int) :
    let i := interval fmt m e
    (0 < i.den ∧ 0 < i.below ∧ 0 < i.above) ∧ (i.num / i.den : ℚ) = m * 2 ^ e ∧
      (i.below / i.den : ℚ) = reach fmt m e * 2 ^ e ∧ (i.above / i.den : ℚ) = 1 / 2 * 2 ^ e ∧
      (i.closed = true ↔ m % 2 = 0) := by
  obtain ⟨hd, hn⟩ := scale_spec (4 * m) e
  have hu := (scale_spec 1 e).2
  have hu' : 0 < (scale 1 e).1 := by
    cases e with
    | ofNat k => exact Nat.mul_pos Nat.one_pos (Nat.two_pow_pos k)
    | negSucc k => exact Nat.one_pos
  have hsame : (scale 1 e).2 = (scale (4 * m) e).2 := by cases e <;> rfl
  rw [hsame, Nat.cast_one, one_mul] at hu
  rw [Nat.cast_mul, mul_assoc] at hn
  simp only [interval, Nat.cast_mul, Nat.pow_eq, beq_iff_eq, Nat.cast_ofNat]
  generalize scale (4 * m) e = n at *
  have hd' : (n.2 : ℚ) ≠ 0 := (Nat.cast_pos.2 hd).ne'
  refine ⟨⟨by omega, ?_, by omega⟩, ?_, ?_, ?_, trivial⟩
  · split <;> omega
  · rw [mul_comm (4 : ℚ), ← div_div, hn]
    push_cast
    ring
  · rw [reach, mul_comm (4 : ℚ), ← div_div]
    split
    next h =>
      rw [Bool.and_eq_true, beq_iff_eq, decide_eq_true_iff] at h
      rw [if_pos h, hu]
      ring
    next h =>
      rw [Bool.and_eq_true, beq_iff_eq, decide_eq_true_iff] at h
      rw [if_neg h, Nat.cast_mul, mul_div_assoc, hu]
      push_cast
      ring
  · rw [mul_comm (4 : ℚ), ← div_div, mul_div_assoc, hu]
    ring

/-- The decimals that are accepted for a number are those that are rounded to it. -/
theorem interval_holds_iff :
    (interval fmt m e).holds c k = true ↔ RoundsTo fmt (c * 10 ^ k) m e := by
  obtain ⟨⟨hden, hbelow, habove⟩, hnum, hlow, hhigh, hclosed⟩ := interval_spec fmt m e
  rw [Interval.holds_iff hden hbelow habove, hnum, hlow, hhigh, hclosed, ← sub_mul, ← add_mul]
  exact Iff.rfl

/-! ## Candidates -/

theorem Interval.holds_of_pick? (h : i.pick? k = some d) :
    i.holds d.digits d.exponent = true := by
  rw [Interval.pick?] at h
  dsimp only at h
  split at h
  next hlow hhigh =>
    cases h
    dsimp only
    split
    · exact hlow
    · exact hhigh
  next hlow _ =>
    cases h
    exact hlow
  next _ hhigh =>
    cases h
    exact hhigh
  next => cases h

theorem Interval.pick?_isSome
    (h : i.holds ((overPower i.num i.den k).1 / (overPower i.num i.den k).2) k = true ∨
      i.holds ((overPower i.num i.den k).1 / (overPower i.num i.den k).2 + 1) k = true) :
    (i.pick? k).isSome = true := by
  rw [Interval.pick?]
  dsimp only
  split
  next => rfl
  next => rfl
  next => rfl
  next hlow hhigh =>
    rw [hlow, hhigh] at h
    rcases h with h | h <;> cases h

theorem search_holds (h : search i top fuel count = some d) :
    i.holds d.digits d.exponent = true ∧ d.digits ≠ 0 := by
  induction fuel generalizing count with
  | zero => cases h
  | succ fuel ih =>
    rw [search] at h
    split at h
    next d' hpick =>
      split at h
      · exact ih h
      next hne =>
        cases h
        exact ⟨Interval.holds_of_pick? hpick, hne⟩
    next => exact ih h

/-- The search finds a decimal if there is one with as many digits as it tries. -/
theorem search_isSome (hpos : ∀ c k, i.holds c k = true → c ≠ 0) {n : Nat}
    (hpick : (i.pick? (top - n)).isSome = true) (hlow : count ≤ n) (hhigh : n < count + fuel) :
    (search i top fuel count).isSome = true := by
  induction fuel generalizing count with
  | zero => omega
  | succ fuel ih =>
    rw [search]
    split
    next d hd =>
      rw [if_neg (hpos _ _ (Interval.holds_of_pick? hd))]
      rfl
    next hnone =>
      refine ih (Nat.succ_le_of_lt (hlow.lt_of_ne ?_)) (by omega)
      rintro rfl
      rw [hnone] at hpick
      cases hpick

/-- A number lies between a multiple of a power of ten and the next one. -/
theorem floor_bounds (num : Nat) (hden : 0 < den) (k : Int) :
    let q := (overPower num den k).1 / (overPower num den k).2
    (q * 10 ^ k : ℚ) ≤ num / den ∧ (num / den : ℚ) < (q + 1 : Nat) * 10 ^ k := by
  obtain ⟨hd, hratio⟩ := overPower_spec num hden k
  have hk := ten_zpow_pos k
  dsimp only
  generalize overPower num den k = n at *
  have hd' : (0 : ℚ) < n.2 := Nat.cast_pos.2 hd
  have hhigh : n.1 < (n.1 / n.2 + 1) * n.2 := (Nat.div_lt_iff_lt_mul hd).1 (Nat.lt_succ_self _)
  rw [← le_div_iff₀ hk, ← div_lt_iff₀ hk, ← hratio, le_div_iff₀ hd', div_lt_iff₀ hd']
  exact ⟨by exact_mod_cast Nat.div_mul_le_self n.1 n.2, by exact_mod_cast hhigh⟩

/-- The interval of a number is wider than a spacing that is `10 ^ 16` times less than the number. -/
theorem spacing_lt_width {spacing : ℚ} (hfit : NumberFormat.double.Fits m e)
    (h : spacing * 10 ^ 16 ≤ m * 2 ^ e) : spacing < (1 / 2 + reach .double m e) * 2 ^ e := by
  have hunit := two_zpow_pos e
  by_cases hnarrow : m = 2 ^ (NumberFormat.double.precision - 1) ∧ NumberFormat.double.minExponent < e
  · rw [reach, if_pos hnarrow]
    have hm : (m : ℚ) = 2 ^ 52 := by exact_mod_cast hnarrow.1
    rw [hm] at h
    linarith
  · rw [reach, if_neg hnarrow]
    have hm : (m : ℚ) < 2 ^ 53 := by exact_mod_cast hfit.precise
    have hlt := mul_lt_mul_of_pos_right hm hunit
    linarith

theorem pick?_seventeen (hfit : NumberFormat.double.Fits m e) (htop : (10 : ℚ) ^ (top - 1) ≤ m * 2 ^ e) :
    ((interval .double m e).pick? (top - (17 : Nat))).isSome = true := by
  obtain ⟨⟨hden, -⟩, hnum, -⟩ := interval_spec .double m e
  obtain ⟨hlow, hhigh⟩ := floor_bounds (interval .double m e).num hden (top - (17 : Nat))
  refine Interval.pick?_isSome ?_
  rw [interval_holds_iff, interval_holds_iff]
  rw [hnum] at hlow hhigh
  generalize (overPower (interval .double m e).num (interval .double m e).den _).1 /
    (overPower (interval .double m e).num (interval .double m e).den _).2 = q at *
  have hunit := two_zpow_pos e
  have hspacing : (10 : ℚ) ^ (top - (17 : Nat)) * 10 ^ 16 ≤ m * 2 ^ e := by
    refine le_trans (le_of_eq ?_) htop
    rw [← zpow_natCast, ← zpow_add₀ (by norm_num)]
    congr 1
    omega
  generalize (10 : ℚ) ^ (top - (17 : Nat)) = spacing at *
  have hreach := reach_pos .double m e
  by_cases habove : ((q + 1 : Nat) : ℚ) * spacing < (m + 1 / 2) * 2 ^ e
  · refine .inr (.inl ⟨lt_of_le_of_lt ?_ hhigh, habove⟩)
    exact mul_le_mul_of_nonneg_right (by linarith) hunit.le
  -- the upper neighbour is out, so the lower one is in
  have hwide := spacing_lt_width hfit hspacing
  push_cast at habove
  refine .inl (.inl ⟨by linarith, hlow.trans_lt ?_⟩)
  exact mul_lt_mul_of_pos_right (by linarith) hunit

/-! ## The power of ten above a number -/

theorem ten_zpow_powerAbove (fuel : Nat) (hden : 0 < den) (h : (10 : ℚ) ^ (k - 1) ≤ num / den) :
    (10 : ℚ) ^ (powerAbove num den fuel k - 1) ≤ num / den := by
  induction fuel generalizing k with
  | zero => exact h
  | succ fuel ih =>
    obtain ⟨hd, hratio⟩ := overPower_spec num hden k
    rw [powerAbove]
    dsimp only
    split
    · exact h
    next hle =>
      refine ih ?_
      rw [Int.add_sub_cancel, ← one_le_div₀ (ten_zpow_pos k), ← hratio, one_le_div₀ (Nat.cast_pos.2 hd)]
      exact_mod_cast Nat.not_lt.1 hle

/-- A factor that makes up for a power of a ratio makes up for the lower powers too, and its own powers for
those further up. -/
theorem pow_le_mul_pow {a b c n p q : Nat} (hpos : 0 < b) (hle : b ≤ a) (hn : n ≤ p * q)
    (h : a ^ p ≤ c * b ^ p) : a ^ n ≤ c ^ q * b ^ n := by
  have hall : a ^ (p * q) ≤ c ^ q * b ^ (p * q) := by
    rw [Nat.pow_mul, Nat.pow_mul, ← Nat.mul_pow]
    exact Nat.pow_le_pow_left h q
  refine Nat.le_of_mul_le_mul_right ?_ (Nat.pow_pos (n := p * q - n) hpos)
  calc a ^ n * b ^ (p * q - n) ≤ a ^ n * a ^ (p * q - n) :=
        Nat.mul_le_mul_left _ (Nat.pow_le_pow_left hle _)
    _ = a ^ (p * q) := by rw [← Nat.pow_add, Nat.add_sub_cancel' hn]
    _ ≤ c ^ q * b ^ (p * q) := hall
    _ = c ^ q * b ^ n * b ^ (p * q - n) := by
      rw [Nat.mul_assoc, ← Nat.pow_add, Nat.add_sub_cancel' hn]

theorem pow_1024_le {n : Nat} (h : n ≤ 200 * 6) : 1024 ^ n ≤ 10 ^ 30 * 1000 ^ n :=
  pow_le_mul_pow (c := 10 ^ 5) (by decide) (by decide) h (by decide +kernel)

/-- Three tenths of a power of two are a power of ten that is not far above it. -/
theorem ten_zpow_le_two_zpow {j : Int} (h : -1076 ≤ j) : (10 : ℚ) ^ (j * 3 / 10 - 3) ≤ 2 ^ j := by
  refine le_of_pow_le_pow_left₀ (n := 10) (by decide) (two_zpow_pos j).le ?_
  have hle : (10 : ℚ) ^ ((j * 3 / 10 - 3) * 10) ≤ 10 ^ (3 * j - 30) :=
    zpow_le_zpow_right₀ (by norm_num) (by omega)
  have hthousand : (10 : ℚ) ^ (3 * j - 30) = 1000 ^ j / 10 ^ 30 := by
    rw [zpow_sub₀ (by norm_num), zpow_mul]
    norm_num
  have htwo : (2 : ℚ) ^ (j * 10) = 1024 ^ j := by
    rw [mul_comm, zpow_mul]
    norm_num
  rw [← zpow_natCast, ← zpow_mul, ← zpow_natCast, ← zpow_mul]
  refine hle.trans ?_
  rw [hthousand]
  push_cast
  rw [htwo, div_le_iff₀ (by positivity)]
  cases j with
  | ofNat n =>
    rw [Int.ofNat_eq_natCast, zpow_natCast, zpow_natCast]
    have : (1000 : ℚ) ^ n ≤ 1024 ^ n := pow_le_pow_left₀ (by norm_num) (by norm_num) n
    have : (0 : ℚ) < 1024 ^ n := by positivity
    linarith
  | negSucc n =>
    have : (1024 ^ (n + 1) : ℚ) ≤ 10 ^ 30 * 1000 ^ (n + 1) := by
      exact_mod_cast pow_1024_le (n := n + 1) (by omega)
    rw [zpow_negSucc, zpow_negSucc, inv_mul_eq_div, inv_eq_one_div,
      div_le_div_iff₀ (by positivity) (by positivity), one_mul]
    exact this

/-- The search for the power of ten starts low enough. -/
theorem ten_zpow_start_le (hm : m ≠ 0) (he : -1074 ≤ e) :
    (10 : ℚ) ^ ((((scale m e).1.log2 : Int) - (scale m e).2.log2 - 1) * 3 / 10 - 2 - 1) ≤ m * 2 ^ e := by
  obtain ⟨hd, hratio⟩ := scale_spec m e
  have hone : (1 : ℚ) ≤ m := by exact_mod_cast Nat.one_le_iff_ne_zero.2 hm
  have hunit := two_zpow_pos e
  have hn : (scale m e).1 ≠ 0 := by
    intro hzero
    rw [hzero, Nat.cast_zero, zero_div] at hratio
    exact (mul_pos (by linarith) hunit).ne hratio
  obtain ⟨hlow, hhigh⟩ := ratio_bounds hn hd.ne'
  rw [hratio] at hlow hhigh
  generalize ((scale m e).1.log2 : Int) - (scale m e).2.log2 = bits at *
  have hhalf : (2 : ℚ) ^ bits = 2 * 2 ^ (bits - 1) := by
    rw [← zpow_one_add₀ two_ne_zero, add_sub_cancel]
  have hrange : -1076 ≤ bits - 1 := by
    have hleast : (2 : ℚ) ^ (-1074 : Int) ≤ m * 2 ^ e :=
      (zpow_le_zpow_right₀ one_le_two he).trans (le_mul_of_one_le_left hunit.le hone)
    have hlt : (2 : ℚ) ^ (-1074 : Int) < 2 ^ (1 + bits) := by
      rw [zpow_one_add₀ two_ne_zero]
      exact hleast.trans_lt hhigh
    have := (zpow_lt_zpow_iff_right₀ one_lt_two).1 hlt
    omega
  rw [Int.sub_sub]
  refine (ten_zpow_le_two_zpow hrange).trans ?_
  rw [hhalf] at hlow
  linarith

/-! ## The decimal that is written -/

theorem strip_spec (fuel : Nat) (d : Decimal) :
    (d.strip fuel).value = d.value ∧ (d.digits ≠ 0 → (d.strip fuel).digits ≠ 0) := by
  induction fuel generalizing d with
  | zero => exact ⟨rfl, id⟩
  | succ fuel ih =>
    rw [Decimal.strip]
    split
    next h =>
      obtain ⟨hvalue, hne⟩ := ih ⟨d.digits / 10, d.exponent + 1⟩
      refine ⟨hvalue.trans ?_, fun hd => hne (by dsimp only; omega)⟩
      have hten : d.digits = d.digits / 10 * 10 := by omega
      rw [Decimal.value, Decimal.value, zpow_add_one₀ (by norm_num), hten]
      push_cast
      rw [Nat.mul_div_cancel _ (by decide)]
      ring
    next => exact ⟨rfl, id⟩

/-- The decimal that is written for a positive number is rounded to it. -/
theorem shortest_spec (hm : m ≠ 0) (hfit : NumberFormat.double.Fits m e) :
    RoundsTo .double (shortest .double m e).value m e ∧ (shortest .double m e).digits ≠ 0 := by
  obtain ⟨hd, hratio⟩ := scale_spec m e
  have htop := ten_zpow_powerAbove 400 hd (hratio ▸ ten_zpow_start_le hm hfit.least)
  rw [hratio] at htop
  have hpos (c : Nat) (k : Int) (h : (interval .double m e).holds c k = true) : c ≠ 0 := by
    rintro rfl
    have hpos := (interval_holds_iff.1 h).pos hm
    simp at hpos
  obtain ⟨d, hsearch⟩ := Option.isSome_iff_exists.1 <|
    search_isSome hpos (pick?_seventeen hfit htop) (show 1 ≤ 17 by decide) (show 17 < 1 + 18 by decide)
  obtain ⟨hholds, hne⟩ := search_holds hsearch
  have hshortest : shortest .double m e = d.strip 20 := by
    rw [shortest]
    dsimp only
    rw [hsearch, Option.getD_some]
  obtain ⟨hvalue, hkeeps⟩ := strip_spec 20 d
  rw [hshortest, hvalue]
  exact ⟨interval_holds_iff.1 hholds, hkeeps hne⟩

end Crosswalk.Number
