import Crosswalk.Number.Basic

/-!
# The fewest digits

Every finite number is the only one of its format in an interval of reals, those that round to it.
Among the decimals in that interval this module picks one with the fewest digits, and of these the
nearest to the number.
-/

namespace Crosswalk.Number

/-- A decimal `digits * 10 ^ exponent`. -/
structure Decimal where
  digits : Nat
  exponent : Int
  deriving DecidableEq, Repr

def overPower (num den : Nat) (k : Int) : Nat × Nat :=
  match k with
  | .ofNat j => (num, den * Nat.pow 10 j)
  | .negSucc j => (num * Nat.pow 10 (j + 1), den)

/-- The interval that rounds to `m * 2 ^ e`, over a common denominator: the number itself, the
distances to the lower and to the upper end, and whether the ends belong to it. -/
structure Interval where
  num : Nat
  den : Nat
  below : Nat
  above : Nat
  closed : Bool

/-- The interval of a positive number. Below a power of two the neighbour is twice as near. -/
def interval (fmt : NumberFormat) (m : Nat) (e : Int) : Interval :=
  let (n, d) := scale (4 * m) e
  let (u, _) := scale 1 e
  let narrow := m == Nat.pow 2 (fmt.precision - 1) && fmt.minExponent < e
  ⟨n, 4 * d, if narrow then u else 2 * u, 2 * u, m % 2 == 0⟩

def Interval.holds (i : Interval) (c : Nat) (k : Int) : Bool :=
  let (n, d) := overPower i.num i.den k
  let (low, _) := overPower i.below i.den k
  let (high, _) := overPower i.above i.den k
  let v := c * d
  if v ≤ n then (if i.closed then n - v ≤ low else n - v < low)
  else if i.closed then v - n ≤ high else v - n < high

/-- The multiple of `10 ^ k` in the interval that is nearest to the number, the upper one of two
equally near. -/
def Interval.pick? (i : Interval) (k : Int) : Option Decimal :=
  let (n, d) := overPower i.num i.den k
  let low := n / d
  let r := n % d
  match i.holds low k, i.holds (low + 1) k with
  | true, true => some ⟨if 2 * r < d then low else low + 1, k⟩
  | true, false => some ⟨low, k⟩
  | false, true => some ⟨low + 1, k⟩
  | false, false => none

/-- The power of ten just above a positive quotient: the least `p` with `num / den < 10 ^ p`,
searched upwards from a start below it. -/
def powerAbove (num den : Nat) : Nat → Int → Int
  | 0, p => p
  | fuel + 1, p =>
    let (n, d) := overPower num den p
    if n < d then p else powerAbove num den fuel (p + 1)

/-- Tries `1, 2, …` digits. -/
def search (i : Interval) (top : Int) : Nat → Nat → Option Decimal
  | 0, _ => none
  | fuel + 1, count =>
    match i.pick? (top - count) with
    | some d => if d.digits = 0 then search i top fuel (count + 1) else some d
    | none => search i top fuel (count + 1)

def Decimal.strip : Nat → Decimal → Decimal
  | 0, d => d
  | fuel + 1, d =>
    if d.digits ≠ 0 ∧ d.digits % 10 = 0 then strip fuel ⟨d.digits / 10, d.exponent + 1⟩ else d

/-- A decimal with the fewest digits that rounds to the positive number `m * 2 ^ e`. -/
def shortest (fmt : NumberFormat) (m : Nat) (e : Int) : Decimal :=
  let i := interval fmt m e
  let (n, d) := scale m e
  let start : Int := ((n.log2 : Int) - d.log2 - 1) * 3 / 10 - 2
  let top := powerAbove n d 400 start
  ((search i top 18 1).getD ⟨n / d, 0⟩).strip 20

end Crosswalk.Number
