import Crosswalk.Number.Text
import Mathlib.Algebra.Group.Nat.Defs
import Mathlib.Data.List.TakeWhile

/-!
# Whole numbers are exact

The format `double` has fifty-three bits for a significand, so a natural below `2 ^ 53` is a number of
the format as it is: rounding only fills its bits up with zeros. Two such numbers are equal exactly if
the naturals are the same, and the digits of one are read as the number that counting up to it gives.
-/

namespace Crosswalk.Number

variable {j k n : Nat}

theorem roundHalfEven_one (n : Nat) : roundHalfEven n 1 = n := by
  simp [roundHalfEven, Nat.mod_one]

theorem two_pow_split {a b : Nat} (h : a ≤ b) : 2 ^ a * 2 ^ (b - a) = 2 ^ b := by
  rw [← Nat.pow_add, Nat.add_sub_cancel' h]

/-- Moved to the front, the bits of a small natural fill the precision and do not exceed it. -/
theorem mul_two_pow_log2 (hn : n ≠ 0) (h : n < 2 ^ 53) :
    n.log2 ≤ 52 ∧ 2 ^ 52 ≤ n * 2 ^ (52 - n.log2) ∧ n * 2 ^ (52 - n.log2) < 2 ^ 53 := by
  have hlog : n.log2 ≤ 52 := Nat.lt_succ_iff.1 ((Nat.log2_lt hn).2 h)
  have hlow : 2 ^ n.log2 * 2 ^ (52 - n.log2) = 2 ^ 52 := two_pow_split hlog
  have hhigh : 2 ^ (n.log2 + 1) * 2 ^ (52 - n.log2) = 2 ^ 53 := by
    rw [Nat.pow_succ, Nat.mul_right_comm, hlow, ← Nat.pow_succ]
  refine ⟨hlog, hlow ▸ Nat.mul_le_mul_right _ (Nat.log2_self_le hn), hhigh ▸ ?_⟩
  exact Nat.mul_lt_mul_of_pos_right Nat.lt_log2_self (Nat.two_pow_pos _)

theorem overUnit_one (n p : Nat) : overUnit n 1 (-p) = (n * 2 ^ p, 1) := by
  cases p with
  | zero => simp [overUnit]
  | succ p => rfl

theorem unitExponent_double (hn : n ≠ 0) (h : n < 2 ^ 53) :
    unitExponent .double n 1 = -((52 - n.log2 : Nat) : Int) := by
  obtain ⟨hlog, hlow, -⟩ := mul_two_pow_log2 hn h
  have hstart : (n.log2 : Int) - Nat.log2 1 - (53 : Nat) = -((53 - n.log2 : Nat) : Int) := by
    have : Nat.log2 1 = 0 := by decide
    omega
  have hfull : ¬ n * 2 ^ (53 - n.log2) < 1 * 2 ^ 53 := by
    rw [Nat.succ_sub hlog, Nat.pow_succ, ← Nat.mul_assoc]
    omega
  simp only [unitExponent, NumberFormat.double, hstart, overUnit_one, Nat.pow_eq]
  rw [if_neg hfull]
  omega

theorem ofNat_eq (hn : n ≠ 0) (h : n < 2 ^ 53) :
    ofNat n = .finite false (n * 2 ^ (52 - n.log2)) (-((52 - n.log2 : Nat) : Int)) := by
  obtain ⟨-, -, hhigh⟩ := mul_two_pow_log2 hn h
  have hcarry : n * 2 ^ (52 - n.log2) ≠ Nat.pow 2 NumberFormat.double.precision := by
    rw [Nat.pow_eq]
    exact Nat.ne_of_lt hhigh
  have hwithin : ¬ NumberFormat.double.maxExponent < -((52 - n.log2 : Nat) : Int) := by
    simp only [NumberFormat.double]
    omega
  rw [ofNat, ofRatio, if_neg hn, unitExponent_double hn h]
  dsimp only
  rw [overUnit_one]
  dsimp only
  rw [roundHalfEven_one, if_neg hcarry]
  exact if_neg hwithin

/-- The zeros that a significand is filled up with do not count. -/
theorem equal_scaled_iff (j k p q : Nat) :
    (finite false (j * 2 ^ p) (-p)).equal (finite false (k * 2 ^ q) (-q)) = true ↔ j = k := by
  have hscale (n a b : Nat) (h : a ≤ b) : n * 2 ^ a * 2 ^ (b - a) = n * 2 ^ b := by
    rw [Nat.mul_assoc, two_pow_split h]
  have hp : (-(p : Int) - min (-(p : Int)) (-(q : Int))).toNat = max p q - p := by omega
  have hq : (-(q : Int) - min (-(p : Int)) (-(q : Int))).toNat = max p q - q := by omega
  simp only [equal, align, hp, hq, Nat.pow_eq, hscale j p _ (Nat.le_max_left p q),
    hscale k q _ (Nat.le_max_right p q), Bool.false_eq_true, if_false, beq_iff_eq, Int.natCast_inj]
  exact ⟨Nat.eq_of_mul_eq_mul_right (Nat.two_pow_pos _), fun h => h ▸ rfl⟩

/-- Small naturals are equal as numbers only if they are the same. -/
theorem ofNat_equal_iff (hj : j ≠ 0) (hj' : j < 2 ^ 53) (hk : k ≠ 0) (hk' : k < 2 ^ 53) :
    (ofNat j).equal (ofNat k) = true ↔ j = k := by
  rw [ofNat_eq hj hj', ofNat_eq hk hk']
  exact equal_scaled_iff ..

/-! ## Digits -/

theorem digitsValue_toDigits (n : Nat) : digitsValue (Nat.toDigits 10 n) = n :=
  Nat.ofDigitChars_ten_toDigits

theorem digitsValue_dropWhile_zero (cs : List Char) :
    digitsValue (cs.dropWhile (· == '0')) = digitsValue cs := by
  induction cs with
  | nil => rfl
  | cons c rest ih =>
    by_cases hc : c = '0'
    · subst hc
      rw [List.dropWhile_cons_of_pos (by decide), ih]
      rfl
    · rw [List.dropWhile_cons_of_neg (by simpa using hc)]

theorem ofDecimal_zero {fmt : NumberFormat} {negative : Bool} {digits count : Nat}
    (hcount : count ≤ 400) : ofDecimal fmt negative digits count 0 = ofRatio fmt negative digits 1 := by
  have hlow : ¬ (400 : Int) < 0 + count := by omega
  have hhigh : ¬ (0 : Int) + count < -400 := by omega
  by_cases hzero : digits = 0
  · simp only [ofDecimal, ofRatio, if_pos hzero]
  · simp only [ofDecimal, if_neg hzero, if_neg hlow, if_neg hhigh]
    exact congrArg (ofRatio fmt negative · 1) (Nat.mul_one digits)

/-- Digits alone are read as what they mean. -/
theorem read?_digits {fmt : NumberFormat} {cs : List Char} (hne : cs ≠ [])
    (hdigits : ∀ c ∈ cs, c.isDigit = true) (hlength : cs.length ≤ 400) :
    read? fmt cs = some (ofRatio fmt false (digitsValue cs) 1) := by
  have hplain : read? fmt cs = readUnsigned? fmt false cs := by
    unfold read?
    split
    · exact absurd (hdigits _ List.mem_cons_self) (by decide)
    · exact absurd (hdigits _ List.mem_cons_self) (by decide)
    · rfl
  have hwhole : cs.takeWhile Char.isDigit = cs := List.takeWhile_eq_self_iff.2 hdigits
  have hrest : cs.dropWhile Char.isDigit = [] := List.dropWhile_eq_nil_iff.2 hdigits
  have hcount : (cs.dropWhile (· == '0')).length ≤ 400 :=
    Nat.le_trans (List.dropWhile_suffix _).length_le hlength
  simp only [hplain, readUnsigned?, hwhole, hrest, List.isEmpty_eq_false_iff.2 hne, Bool.false_and,
    Bool.false_eq_true, if_false, readExponent?, Option.map_some, List.append_nil,
    digitsValue_dropWhile_zero, List.length_nil]
  exact congrArg some (ofDecimal_zero hcount)

/-- A small natural is read back from its digits. -/
theorem read?_toDigits (h : n < 2 ^ 53) :
    read? .double (Nat.toDigits 10 n) = some (ofNat n) := by
  have hlength : (Nat.toDigits 10 n).length ≤ 16 :=
    (Nat.length_toDigits_le_iff (by decide) (by decide)).2 (Nat.lt_of_lt_of_le h (by decide))
  rw [read?_digits Nat.toDigits_ne_nil
    (fun c hc => Nat.isDigit_of_mem_toDigits (by decide) (by decide) hc) (by omega),
    digitsValue_toDigits]
  rfl

end Crosswalk.Number
