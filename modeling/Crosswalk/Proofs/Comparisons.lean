import Crosswalk.Proofs.Results
import Crosswalk.XPath.Eval

/-!
# Comparisons with their sides exchanged

Equality reads its two sides as one kind, and which kind that is depends on both: a truth value goes before
a number, a number before a text, on whichever side they stand. Order reads both as numbers. So comparing
two values that are not nodes says the same as the converse comparison of the second with the first, and
nodes carry this on: whether some node on one side compares with some node on the other does not depend on
which side is gone through first.

An expression evaluates its left side before its right one. Exchanging them can change which of two faults
is met, but no result.
-/

namespace Crosswalk

/-- Two lists can be searched for a pair with either of them in the outer search. -/
theorem any_any_swap {α β : Type} (p : α → β → Bool) (as : List α) (bs : List β) :
    (as.any fun a => bs.any fun b => p a b) = bs.any fun b => as.any fun a => p a b := by
  rw [Bool.eq_iff_iff]
  simp only [List.any_eq_true]
  constructor
  · rintro ⟨a, ha, b, hb, h⟩
    exact ⟨b, hb, a, ha, h⟩
  · rintro ⟨b, hb, a, ha, h⟩
    exact ⟨a, ha, b, hb, h⟩

namespace Number

/-- Exchanging two numbers exchanges their significands over the smaller unit. -/
theorem align_swap (s₁ : Bool) (m₁ : Nat) (e₁ : Int) (s₂ : Bool) (m₂ : Nat) (e₂ : Int) :
    align s₂ m₂ e₂ s₁ m₁ e₁ = (align s₁ m₁ e₁ s₂ m₂ e₂).swap := by
  simp only [align, Int.min_comm e₂ e₁, Prod.swap_prod_mk]

theorem equal_comm (x y : Number) : x.equal y = y.equal x := by
  cases x with
  | nan => cases y <;> rfl
  | infinite s =>
    cases y with
    | infinite t => exact Bool.beq_comm
    | _ => rfl
  | finite s₁ m₁ e₁ =>
    cases y with
    | finite s₂ m₂ e₂ =>
      simp only [equal, align_swap s₁ m₁ e₁ s₂ m₂ e₂, Prod.fst_swap, Prod.snd_swap]
      exact BEq.comm
    | _ => rfl

end Number

namespace XPath

open Crosswalk.Xml (Document)

variable {d : Document} {op : Comparison}

namespace Value

theorem compareAtoms_notEqual (l r : Value) :
    compareAtoms d .notEqual l r = !compareAtoms d .equal l r :=
  rfl

/-- Equality of two values that are not nodes reads them as the same kind from either side. -/
theorem compareAtoms_equal_comm (l r : Value) :
    compareAtoms d .equal l r = compareAtoms d .equal r l := by
  have truths : (l.toBool == r.toBool) = (r.toBool == l.toBool) := Bool.beq_comm
  have numbers := Number.equal_comm (l.toNumber d) (r.toNumber d)
  have texts : (l.toText d == r.toText d) = (r.toText d == l.toText d) := BEq.comm
  -- the kind that goes first decides, so a text is read as a text only against a text
  cases l with
  | truth b => cases r <;> exact truths
  | number n =>
    cases r with
    | truth b => exact truths
    | _ => exact numbers
  | _ =>
    cases r with
    | truth b => exact truths
    | number n => exact numbers
    | _ => exact texts

theorem compareAtoms_converse (op : Comparison) (l r : Value) :
    compareAtoms d op l r = compareAtoms d op.converse r l := by
  cases op with
  | equal => exact compareAtoms_equal_comm l r
  | notEqual =>
    show compareAtoms d .notEqual l r = compareAtoms d .notEqual r l
    rw [compareAtoms_notEqual, compareAtoms_notEqual, compareAtoms_equal_comm]
  -- an order the other way is defined as the order with the sides exchanged
  | less | lessEqual | greater | greaterEqual => rfl

/-- What a value is compared as when another one is on the other side: nodes stand for their texts, but
against a truth value for whether there are any. -/
def readAgainst (d : Document) : Value → Value → List Value
  | nodes ls, truth _ => [truth !ls.isEmpty]
  | nodes ls, _ => ls.map fun l => text (d.stringValue l)
  | v, _ => [v]

/-- A comparison holds if it holds for one of the readings of either side. -/
theorem compare_eq_any (op : Comparison) (l r : Value) :
    l.compare d op r =
      (l.readAgainst d r).any fun x => (r.readAgainst d l).any fun y => compareAtoms d op x y := by
  cases l <;> cases r <;>
    simp only [compare, readAgainst, List.any_map, Function.comp_def, List.any_cons, List.any_nil,
      Bool.or_false]

theorem compare_converse (op : Comparison) (l r : Value) :
    l.compare d op r = r.compare d op.converse l := by
  rw [compare_eq_any, compare_eq_any, any_any_swap]
  simp only [compareAtoms_converse op]

end Value

variable {ns : Namespaces} {a b : Expr} {c : Context} {v : Value}

/-- A comparison has a result if both sides have one. -/
theorem eval_compare_eq_ok_iff : (Expr.compare op a b).eval d ns c = .ok v ↔
    ∃ l r, a.eval d ns c = .ok l ∧ b.eval d ns c = .ok r ∧ .truth (l.compare d op r) = v := by
  simp only [Expr.eval, bind_eq_ok, Except.ok.injEq, exists_and_left]

theorem eval_compare_converse : (Expr.compare op a b).eval d ns c = .ok v ↔
    (Expr.compare op.converse b a).eval d ns c = .ok v := by
  rw [eval_compare_eq_ok_iff, eval_compare_eq_ok_iff, exists_comm]
  refine exists_congr fun r => exists_congr fun l => ?_
  rw [Value.compare_converse op l r, and_left_comm]

/-- Any two values compare as their converse comparison says with the sides exchanged, and so do any two
expressions that have values. -/
theorem comparisons_mirror (d : Document) (op : Comparison) :
    (∀ l r : Value, l.compare d op r = r.compare d op.converse l) ∧
    ∀ (ns : Namespaces) (a b : Expr) (c : Context) (v : Value),
      (Expr.compare op a b).eval d ns c = .ok v ↔
        (Expr.compare op.converse b a).eval d ns c = .ok v := by
  refine ⟨fun l r => ?_, fun ns a b c v => ?_⟩
  · exact Value.compare_converse op l r
  · exact eval_compare_converse

end XPath

end Crosswalk
