/-!
# Binary floating numbers

Numbers of a binary floating format, held exactly: a finite number is a sign, a significand and
the exponent of its unit. Comparison is exact integer arithmetic, and so is rounding a quotient to
the format, halves going to the even neighbour. Path expressions count and compare with
numbers of the format `double`.
-/

namespace Crosswalk

/-- A binary floating format: how many bits a significand has, and the least and the greatest
exponent of a unit. -/
structure NumberFormat where
  precision : Nat
  minExponent : Int
  maxExponent : Int

def NumberFormat.double : NumberFormat := ⟨53, -1074, 971⟩

def NumberFormat.single : NumberFormat := ⟨24, -149, 104⟩

/-- A floating number. `finite s m e` is `m * 2 ^ e`, negated when `s` is set; zero has a sign. -/
inductive Number where
  | nan
  | infinite (negative : Bool)
  | finite (negative : Bool) (significand : Nat) (exponent : Int)
  deriving DecidableEq, Repr, Inhabited

namespace Number

/-- `n * 2 ^ e` as a quotient of two naturals. -/
def scale (n : Nat) (e : Int) : Nat × Nat :=
  match e with
  | .ofNat k => (n * Nat.pow 2 k, 1)
  | .negSucc k => (n, Nat.pow 2 (k + 1))

/-- The quotient rounded to the nearest natural, a half going to the even one. -/
def roundHalfEven (num den : Nat) : Nat :=
  let q := num / den
  let r := num % den
  if 2 * r < den then q
  else if den < 2 * r then q + 1
  else if q % 2 = 0 then q else q + 1

/-- `num / den` over `2 ^ e`, as a quotient of naturals. -/
def overUnit (num den : Nat) (e : Int) : Nat × Nat :=
  match e with
  | .ofNat k => (num, den * Nat.pow 2 k)
  | .negSucc k => (num * Nat.pow 2 (k + 1), den)

/-- The exponent of the unit that a positive quotient is rounded to: the significand then fills
the precision, or the unit is the least of the format. -/
def unitExponent (fmt : NumberFormat) (num den : Nat) : Int :=
  let e : Int := (num.log2 : Int) - den.log2 - fmt.precision
  let (n, d) := overUnit num den e
  max fmt.minExponent (if n < d * Nat.pow 2 fmt.precision then e else e + 1)

def ofRatio (fmt : NumberFormat) (negative : Bool) (num den : Nat) : Number :=
  if num = 0 then .finite negative 0 fmt.minExponent
  else
    let e := unitExponent fmt num den
    let (n, d) := overUnit num den e
    let m := roundHalfEven n d
    let (m, e) := if m = Nat.pow 2 fmt.precision then (Nat.pow 2 (fmt.precision - 1), e + 1) else (m, e)
    if fmt.maxExponent < e then .infinite negative else .finite negative m e

def ofNat (n : Nat) : Number :=
  ofRatio .double false n 1

def isNaN : Number → Bool
  | nan => true
  | _ => false

def isZero : Number → Bool
  | finite _ 0 _ => true
  | _ => false

def negate : Number → Number
  | nan => nan
  | infinite s => infinite !s
  | finite s m e => finite (!s) m e

/-- The significands of two finite numbers over their smaller unit, with their signs. -/
def align (s₁ : Bool) (m₁ : Nat) (e₁ : Int) (s₂ : Bool) (m₂ : Nat) (e₂ : Int) : Int × Int :=
  let e := min e₁ e₂
  let a : Int := (m₁ * Nat.pow 2 (e₁ - e).toNat : Nat)
  let b : Int := (m₂ * Nat.pow 2 (e₂ - e).toNat : Nat)
  (if s₁ then -a else a, if s₂ then -b else b)

/-- Equality of values: `nan` equals nothing, and the two zeros are equal. -/
def equal : Number → Number → Bool
  | finite s₁ m₁ e₁, finite s₂ m₂ e₂ =>
    let (a, b) := align s₁ m₁ e₁ s₂ m₂ e₂
    a == b
  | infinite s₁, infinite s₂ => s₁ == s₂
  | _, _ => false

/-- Strict order of values; nothing is below or above `nan`. -/
def less : Number → Number → Bool
  | nan, _ => false
  | _, nan => false
  | finite s₁ m₁ e₁, finite s₂ m₂ e₂ =>
    let (a, b) := align s₁ m₁ e₁ s₂ m₂ e₂
    a < b
  | infinite s₁, infinite s₂ => s₁ && !s₂
  | infinite s, finite _ _ _ => s
  | finite _ _ _, infinite s => !s

def lessEq (x y : Number) : Bool :=
  less x y || equal x y

def toInt? : Number → Option Int
  | finite s m e =>
    let (n, d) := scale m e
    if n % d = 0 then some (if s then -((n / d : Nat) : Int) else (n / d : Nat)) else none
  | _ => none

/-! ## Lemmas -/

theorem negate_negate (x : Number) : x.negate.negate = x := by
  cases x <;> simp [negate]

theorem less_nan_left (x : Number) : less nan x = false := by
  cases x <;> rfl

theorem less_nan_right (x : Number) : less x nan = false := by
  cases x <;> rfl

end Number

end Crosswalk
