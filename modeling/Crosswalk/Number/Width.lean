/-!
# Numbers of a width

Whole numbers that fit into so many bits, of which one is taken by the sign if there is one.
-/

namespace Crosswalk.Number

def fitsUnsigned (bits n : Nat) : Bool :=
  n < Nat.pow 2 bits

def fitsSigned (bits : Nat) (n : Int) : Bool :=
  let bound := Int.ofNat (Nat.pow 2 (bits - 1))
  n < bound && -bound ≤ n

theorem fitsSigned_ofNat {bits n : Nat} :
    fitsSigned bits (Int.ofNat n) = fitsUnsigned (bits - 1) n := by
  by_cases h : n < Nat.pow 2 (bits - 1)
  · have hi : Int.ofNat n < Int.ofNat (Nat.pow 2 (bits - 1)) := Int.ofNat_lt.2 h
    have lo : -Int.ofNat (Nat.pow 2 (bits - 1)) ≤ Int.ofNat n := by
      have := Int.natCast_nonneg n
      simp only [Int.ofNat_eq_natCast] at *
      omega
    simp only [fitsSigned, fitsUnsigned, decide_eq_true hi, decide_eq_true lo, decide_eq_true h,
      Bool.and_self]
  · have hi : ¬Int.ofNat n < Int.ofNat (Nat.pow 2 (bits - 1)) := fun c => h (Int.ofNat_lt.1 c)
    simp only [fitsSigned, fitsUnsigned, decide_eq_false hi, decide_eq_false h, Bool.false_and]

end Crosswalk.Number
