import Crosswalk.Proofs.SelectedNodes

/-!
# Steps from several nodes

A location path can be taken apart: its steps lead from several nodes where they lead from one of them, and
they can be evaluated from all if they can from each. So a path whose steps come in two parts leads where the
second part leads from the nodes of the first one, whatever the predicates of either part are: these count
the nodes that a step reaches from one node, never the nodes that a walk has come to.
-/

namespace Crosswalk.XPath

open Crosswalk.Xml (Document Location)
open Crosswalk.Xml.Location (Ordered inOrder mem_inOrder inOrder_of_ordered ordered_singleton)

variable {d : Document} {ns : Namespaces} {ls reached found : List Location} {l m : Location}
  {steps more : List Step}

/-! ## Walking from several nodes -/

section

variable {f : Location → Except Fault (List Location)}

theorem gather_singleton (f : Location → Except Fault (List Location)) (l : Location) :
    gather f [l] = f l := by
  rw [gather]
  cases f l with
  | error => rfl
  | ok ms => simp [gather, bind, Except.bind]

theorem exists_gather_iff :
    (∃ reached, gather f ls = .ok reached) ↔ ∀ l ∈ ls, ∃ ms, f l = .ok ms := by
  induction ls with
  | nil => simp [gather]
  | cons l rest ih =>
    rw [List.forall_mem_cons, ← ih]
    constructor
    · rintro ⟨reached, h⟩
      obtain ⟨first, hfirst, h⟩ := bind_eq_ok.1 h
      obtain ⟨more, hmore, -⟩ := bind_eq_ok.1 h
      exact ⟨⟨first, hfirst⟩, more, hmore⟩
    · rintro ⟨⟨first, hfirst⟩, more, hmore⟩
      exact ⟨first ++ more, bind_eq_ok.2 ⟨first, hfirst, bind_eq_ok.2 ⟨more, hmore, rfl⟩⟩⟩

theorem mem_gather_iff (h : gather f ls = .ok reached) :
    m ∈ reached ↔ ∃ l ∈ ls, ∃ ms, f l = .ok ms ∧ m ∈ ms := by
  refine ⟨exists_of_mem_gather h, ?_⟩
  rintro ⟨l, hl, ms, hms, hm⟩
  induction ls generalizing reached with
  | nil => cases hl
  | cons k rest ih =>
    obtain ⟨first, hfirst, h⟩ := bind_eq_ok.1 h
    obtain ⟨others, hothers, h⟩ := bind_eq_ok.1 h
    cases h
    rcases List.mem_cons.1 hl with rfl | hl
    · rw [hfirst] at hms
      cases hms
      exact List.mem_append_left _ hm
    · exact List.mem_append_right _ (ih hothers hl)

end

theorem walk_append (steps more : List Step) (ls : List Location) :
    walk d ns (steps ++ more) ls = walk d ns steps ls >>= walk d ns more := by
  induction steps generalizing ls with
  | nil => rfl
  | cons s rest ih => simp only [List.cons_append, walk, ih, bind_assoc]

theorem walk_cons_singleton (s : Step) (rest : List Step) (l : Location) :
    walk d ns (s :: rest) [l] = s.from d ns l >>= fun ms => walk d ns rest (inOrder ms) := by
  rw [walk, gather_singleton]

theorem walk_cons_of {s : Step} {rest : List Step} (reached : List Location)
    (h : gather (s.from d ns) ls = .ok reached) (hreached : Ordered reached) : walk d ns (s :: rest) ls = walk d ns rest reached := by
  rw [walk, h]
  exact congrArg (walk d ns rest) (inOrder_of_ordered hreached)

/-- Steps can be taken from several nodes if they can be taken from each of them. -/
theorem exists_walk_iff : (∃ found, walk d ns steps ls = .ok found) ↔
    ∀ l ∈ ls, ∃ found, walk d ns steps [l] = .ok found := by
  induction steps generalizing ls with
  | nil => exact iff_of_true ⟨ls, rfl⟩ fun l _ => ⟨[l], rfl⟩
  | cons s rest ih =>
    constructor
    · rintro ⟨found, h⟩ l hl
      obtain ⟨reached, hreached, h⟩ := bind_eq_ok.1 h
      obtain ⟨ms, hms⟩ := exists_gather_iff.1 ⟨reached, hreached⟩ l hl
      rw [walk_cons_singleton, hms]
      refine ih.2 fun m hm => ih.1 ⟨found, h⟩ m (mem_inOrder.2 ?_)
      exact (mem_gather_iff hreached).2 ⟨l, hl, ms, hms, mem_inOrder.1 hm⟩
    · intro h
      have hfrom : ∀ l ∈ ls, ∃ ms, s.from d ns l = .ok ms := fun l hl => by
        obtain ⟨found, hfound⟩ := h l hl
        rw [walk_cons_singleton] at hfound
        obtain ⟨ms, hms, -⟩ := bind_eq_ok.1 hfound
        exact ⟨ms, hms⟩
      obtain ⟨reached, hreached⟩ := exists_gather_iff.2 hfrom
      obtain ⟨found, hfound⟩ : ∃ found, walk d ns rest (inOrder reached) = .ok found := by
        refine ih.2 fun m hm => ?_
        obtain ⟨l, hl, ms, hms, hm⟩ := (mem_gather_iff hreached).1 (mem_inOrder.1 hm)
        obtain ⟨found, hfound⟩ := h l hl
        rw [walk_cons_singleton, hms] at hfound
        exact ih.1 ⟨found, hfound⟩ m (mem_inOrder.2 hm)
      exact ⟨found, bind_eq_ok.2 ⟨reached, hreached, hfound⟩⟩

/-- The steps lead from the one node to the other. -/
def WalksTo (d : Document) (ns : Namespaces) (steps : List Step) (l m : Location) : Prop :=
  ∃ ms, walk d ns steps [l] = .ok ms ∧ m ∈ ms

/-- Steps from several nodes lead where they lead from one of them. -/
theorem mem_walk_iff (h : walk d ns steps ls = .ok found) :
    m ∈ found ↔ ∃ l ∈ ls, WalksTo d ns steps l m := by
  induction steps generalizing ls found with
  | nil =>
    cases h
    simp [WalksTo, walk]
  | cons s rest ih =>
    obtain ⟨reached, hreached, h⟩ := bind_eq_ok.1 h
    rw [ih h]
    constructor
    · rintro ⟨k, hk, ns', hns', hm⟩
      obtain ⟨l, hl, ms, hms, hk⟩ := (mem_gather_iff hreached).1 (mem_inOrder.1 hk)
      obtain ⟨found', hfound'⟩ : ∃ found', walk d ns rest (inOrder ms) = .ok found' := by
        refine exists_walk_iff.2 fun k hk => exists_walk_iff.1 ⟨found, h⟩ k (mem_inOrder.2 ?_)
        exact (mem_gather_iff hreached).2 ⟨l, hl, ms, hms, mem_inOrder.1 hk⟩
      refine ⟨l, hl, found', ?_, (ih hfound').2 ⟨k, mem_inOrder.2 hk, ns', hns', hm⟩⟩
      rw [walk_cons_singleton, hms]
      exact hfound'
    · rintro ⟨l, hl, found', hfound', hm⟩
      rw [walk_cons_singleton] at hfound'
      obtain ⟨ms, hms, hfound'⟩ := bind_eq_ok.1 hfound'
      obtain ⟨k, hk, ns', hns', hm⟩ := (ih hfound').1 hm
      refine ⟨k, mem_inOrder.2 ?_, ns', hns', hm⟩
      exact (mem_gather_iff hreached).2 ⟨l, hl, ms, hms, mem_inOrder.1 hk⟩

theorem walksTo_append_iff (h : walk d ns (steps ++ more) [l] = .ok found) :
    WalksTo d ns (steps ++ more) l m ↔ ∃ k, WalksTo d ns steps l k ∧ WalksTo d ns more k m := by
  have happend := h
  rw [walk_append, bind_eq_ok] at happend
  obtain ⟨reached, hreached, hmore⟩ := happend
  simp only [WalksTo, h, hreached, Except.ok.injEq, exists_eq_left']
  rw [mem_walk_iff hmore]
  simp only [WalksTo]

/-! ## Steps without predicates -/

theorem from_plain (axis : Axis) (test : NodeTest) (l : Location) :
    Step.from d ns ⟨axis, test, []⟩ l =
      .ok ((axis.locations d l).filter fun m => test.holds d ns (axis == .attributes) m) := by
  rw [Step.from, keepAll]

theorem gather_ok (f : Location → List Location) (ls : List Location) :
    gather (fun l => .ok (f l)) ls = .ok (ls.flatMap f) := by
  induction ls with
  | nil => rfl
  | cons l rest ih =>
    rw [gather, ih]
    rfl

/-- A step without predicates cannot fail. -/
theorem walk_cons_plain (axis : Axis) (test : NodeTest) (rest : List Step) (ls : List Location) :
    walk d ns (⟨axis, test, []⟩ :: rest) ls = walk d ns rest (inOrder (ls.flatMap fun l =>
      (axis.locations d l).filter fun m => test.holds d ns (axis == .attributes) m)) := by
  rw [walk, funext (from_plain axis test), gather_ok]
  rfl

theorem walk_here (h : Ordered ls) : walk d ns [.here] ls = .ok ls := by
  have hself : ls.flatMap (fun l => (Axis.self.locations d l).filter fun m =>
      NodeTest.node.holds d ns (Axis.self == .attributes) m) = ls := by
    simp [Axis.locations, NodeTest.holds]
  rw [Step.here, walk_cons_plain, hself, walk, inOrder_of_ordered h]

theorem walk_append_here (l : Location) :
    walk d ns (steps ++ [.here]) [l] = walk d ns steps [l] := by
  rw [walk_append]
  cases h : walk d ns steps [l] with
  | error => rfl
  | ok ls => exact walk_here (ordered_walk (ordered_singleton l) h)

theorem walksTo_everyBelow_iff :
    WalksTo d ns [.everyBelow] l m ↔ m ∈ Axis.descendantOrSelf.locations d l := by
  rw [WalksTo, Step.everyBelow, walk_cons_plain, walk]
  simp [mem_inOrder, NodeTest.holds]

/-! ## Alternatives -/

/-- The operand with which a union begins. -/
def Expr.first : Expr → Expr
  | .union left _ => left.first
  | e => e

/-- The other operands of a union. -/
def Expr.others : Expr → List Expr
  | .union left right => left.others ++ [right]
  | _ => []

/-- The expression selects the second node at the first one. -/
def Expr.Selects (d : Document) (ns : Namespaces) (e : Expr) (l m : Location) : Prop :=
  ∃ found, e.evaluate d ns l = .ok (.nodes found) ∧ m ∈ found

theorem evaluate_path_iff {all : List Step} :
    (Expr.path false all).evaluate d ns l = .ok (.nodes found) ↔ walk d ns all [l] = .ok found := by
  rw [Expr.evaluate, Expr.eval, bind_eq_ok]
  constructor
  · rintro ⟨ms, hms, ⟨⟩⟩
    exact hms
  · intro h
    exact ⟨found, h, rfl⟩

theorem selects_path_iff {all : List Step} :
    (Expr.path false all).Selects d ns l m ↔ WalksTo d ns all l m := by
  simp only [Expr.Selects, WalksTo, evaluate_path_iff]

theorem evaluate_union {left right : Expr}
    (h : (Expr.union left right).evaluate d ns l = .ok (.nodes found)) :
    ∃ ms ks, left.evaluate d ns l = .ok (.nodes ms) ∧ right.evaluate d ns l = .ok (.nodes ks) ∧
      found = inOrder (ms ++ ks) := by
  rw [Expr.evaluate, Expr.eval] at h
  obtain ⟨v, hv, h⟩ := bind_eq_ok.1 h
  obtain ⟨w, hw, h⟩ := bind_eq_ok.1 h
  cases v <;> cases w <;> cases h
  exact ⟨_, _, hv, hw, rfl⟩

theorem Expr.isUnion_or (e : Expr) :
    (∃ left right, e = .union left right) ∨ e.first = e ∧ e.others = [] := by
  cases e <;> simp [Expr.first, Expr.others]

/-- What a union selects, one of its operands does. -/
theorem mem_evaluate_iff {e : Expr} (h : e.evaluate d ns l = .ok (.nodes found)) :
    m ∈ found ↔ e.first.Selects d ns l m ∨ ∃ o ∈ e.others, o.Selects d ns l m := by
  induction hn : sizeOf e using Nat.strongRecOn generalizing e found with
  | ind n ih =>
    rcases e.isUnion_or with ⟨left, right, rfl⟩ | ⟨hfirst, hothers⟩
    · obtain ⟨ms, ks, hms, hks, rfl⟩ := evaluate_union h
      have hright : m ∈ ks ↔ right.Selects d ns l m := by simp [Expr.Selects, hks]
      have hleft := ih (sizeOf left) (by subst hn; simp; omega) hms rfl
      rw [mem_inOrder, List.mem_append, hleft, hright, Expr.first, Expr.others]
      simp only [List.mem_append, List.mem_singleton, or_and_right, exists_or, exists_eq_left, or_assoc]
    · simp [hfirst, hothers, Expr.Selects, h]

end Crosswalk.XPath
