import Crosswalk.Proofs.DocumentNodes
import Crosswalk.Proofs.NodeOrder
import Crosswalk.Proofs.Results
import Crosswalk.Source

/-!
# What expressions select

An expression that gives nodes gives nodes of the document, in document order and each of them once: steps
and unions bring what they reach into order, predicates only leave nodes out, and no function gives
nodes. `Expr.eval_induction` says this for everything that is kept by these three.
-/

namespace Crosswalk.XPath

open Crosswalk.Xml (Document Location)
open Crosswalk.Xml.Location (Ordered inOrder mem_inOrder ordered_inOrder ordered_singleton)

variable {d : Document} {ns : Namespaces} {ls kept reached : List Location} {l m : Location}

/-! ## Steps and predicates -/

theorem keepWhere_sublist {value : Context → Except Fault Value} {size position : Nat}
    (h : keepWhere value size position ls = .ok kept) : kept.Sublist ls := by
  induction ls generalizing position kept with
  | nil =>
    cases h
    exact .slnil
  | cons l rest ih =>
    obtain ⟨v, -, h⟩ := bind_eq_ok.1 h
    obtain ⟨more, hmore, h⟩ := bind_eq_ok.1 h
    cases h
    split
    · exact (ih hmore).cons_cons l
    · exact (ih hmore).cons l

theorem keepAll_sublist {predicates : List Expr} (h : keepAll d ns predicates ls = .ok kept) :
    kept.Sublist ls := by
  induction predicates generalizing ls with
  | nil =>
    cases h
    exact .refl _
  | cons p rest ih =>
    obtain ⟨first, hfirst, h⟩ := bind_eq_ok.1 h
    exact (ih h).trans (keepWhere_sublist hfirst)

theorem exists_of_mem_gather {f : Location → Except Fault (List Location)}
    (h : gather f ls = .ok reached) (hm : m ∈ reached) :
    ∃ l ∈ ls, ∃ ms, f l = .ok ms ∧ m ∈ ms := by
  induction ls generalizing reached with
  | nil =>
    cases h
    cases hm
  | cons l rest ih =>
    obtain ⟨first, hfirst, h⟩ := bind_eq_ok.1 h
    obtain ⟨more, hmore, h⟩ := bind_eq_ok.1 h
    cases h
    rcases List.mem_append.1 hm with hm | hm
    · exact ⟨l, List.mem_cons_self, first, hfirst, hm⟩
    · obtain ⟨k, hk, ms, hms, hm⟩ := ih hmore hm
      exact ⟨k, List.mem_cons_of_mem l hk, ms, hms, hm⟩

theorem hasNode_of_mem_locations (axis : Axis) (h : d.HasNode l) (hm : m ∈ axis.locations d l) :
    d.HasNode m := by
  cases axis with
  | self => exact List.mem_singleton.1 hm ▸ h
  | child =>
    rw [Axis.locations] at hm
    split at hm
    · cases hm
    · exact Document.hasNode_of_mem_children hm
  | descendant =>
    rw [Axis.locations] at hm
    split at hm
    · cases hm
    · exact Document.hasNode_of_mem_descendants hm
  | descendantOrSelf =>
    rw [Axis.locations] at hm
    split at hm
    · exact List.mem_singleton.1 hm ▸ h
    · rcases List.mem_cons.1 hm with rfl | hm
      · exact h
      · exact Document.hasNode_of_mem_descendants hm
  | parent => exact h.parent (Option.mem_toList.1 hm)
  | ancestor => exact h.ancestor hm
  | ancestorOrSelf =>
    rcases List.mem_cons.1 hm with rfl | hm
    · exact h
    · exact h.ancestor hm
  | attributes =>
    rw [Axis.locations] at hm
    split at hm
    · cases hm
    · exact Document.hasNode_of_mem_attributes hm
  | followingSibling =>
    rw [Axis.locations] at hm
    split at hm
    · cases hm
    · exact Document.hasNode_of_mem_followingSiblings hm
  | precedingSibling =>
    rw [Axis.locations] at hm
    split at hm
    · cases hm
    · exact h.precedingSibling hm

theorem ordered_walk {steps : List Step} (hls : Ordered ls)
    (h : walk d ns steps ls = .ok reached) : Ordered reached := by
  induction steps generalizing ls with
  | nil =>
    cases h
    exact hls
  | cons s rest ih =>
    obtain ⟨found, -, h⟩ := bind_eq_ok.1 h
    exact ih (ordered_inOrder found) h

theorem hasNode_walk {steps : List Step} (hls : ∀ l ∈ ls, d.HasNode l)
    (h : walk d ns steps ls = .ok reached) : ∀ m ∈ reached, d.HasNode m := by
  induction steps generalizing ls with
  | nil =>
    cases h
    exact hls
  | cons s rest ih =>
    obtain ⟨found, hfound, h⟩ := bind_eq_ok.1 h
    refine ih (fun m hm => ?_) h
    obtain ⟨l, hl, ms, hms, hm⟩ := exists_of_mem_gather hfound (mem_inOrder.1 hm)
    obtain ⟨axis, test, predicates⟩ := s
    have halong := (keepAll_sublist hms).subset hm
    exact hasNode_of_mem_locations axis (hls l hl) (List.mem_of_mem_filter halong)

/-! ## Expressions -/

theorem apply_ne_nodes (c : Context) (f : Function) (called : String) (arguments : List Value) :
    f.apply d c called arguments ≠ .ok (.nodes ls) := by
  intro h
  cases f with
  | count =>
    simp only [Function.apply] at h
    split at h <;> cases h
  | name =>
    obtain ⟨_, _, h⟩ := bind_eq_ok.1 h
    cases h
  | localName =>
    obtain ⟨_, _, h⟩ := bind_eq_ok.1 h
    cases h
  | _ => cases h

section

variable {l r : Expr} {v : Value} {c : Context}

theorem Expr.exists_truth_of_or (h : (Expr.or l r).eval d ns c = .ok v) : ∃ b, v = .truth b := by
  obtain ⟨left, -, h⟩ := bind_eq_ok.1 h
  split at h
  · exact ⟨true, (Except.ok.inj h).symm⟩
  · obtain ⟨right, -, h⟩ := bind_eq_ok.1 h
    exact ⟨right.toBool, (Except.ok.inj h).symm⟩

theorem Expr.exists_truth_of_and (h : (Expr.and l r).eval d ns c = .ok v) : ∃ b, v = .truth b := by
  obtain ⟨left, -, h⟩ := bind_eq_ok.1 h
  split at h
  · obtain ⟨right, -, h⟩ := bind_eq_ok.1 h
    exact ⟨right.toBool, (Except.ok.inj h).symm⟩
  · exact ⟨false, (Except.ok.inj h).symm⟩

theorem Expr.exists_truth_of_compare {op : Comparison} (h : (Expr.compare op l r).eval d ns c = .ok v) :
    ∃ b, v = .truth b := by
  obtain ⟨left, -, h⟩ := bind_eq_ok.1 h
  obtain ⟨right, -, h⟩ := bind_eq_ok.1 h
  exact ⟨left.compare d op right, (Except.ok.inj h).symm⟩

end

/-- What holds of the context node and of the document node, and is kept by steps, predicates and
unions, holds of all nodes that an expression gives. -/
theorem Expr.eval_induction {P : List Location → Prop} {c : Context}
    (root : P [.root]) (node : P [c.node])
    (union : ∀ ls rs, P ls → P rs → P (inOrder (ls ++ rs)))
    (sublist : ∀ kept ls, kept.Sublist ls → P ls → P kept)
    (step : ∀ steps ls reached, P ls → walk d ns steps ls = .ok reached → P reached) :
    ∀ (e : Expr) {ls : List Location}, e.eval d ns c = .ok (.nodes ls) → P ls
  | .or l r, ls, h => by obtain ⟨_, ⟨⟩⟩ := exists_truth_of_or h
  | .and l r, ls, h => by obtain ⟨_, ⟨⟩⟩ := exists_truth_of_and h
  | .compare op l r, ls, h => by obtain ⟨_, ⟨⟩⟩ := exists_truth_of_compare h
  | .union l r, ls, h => by
    obtain ⟨left, hl, h⟩ := bind_eq_ok.1 h
    obtain ⟨right, hr, h⟩ := bind_eq_ok.1 h
    cases left <;> cases right <;> cases h
    exact union _ _ (eval_induction root node union sublist step l hl)
      (eval_induction root node union sublist step r hr)
  | .negate e, ls, h => by
    obtain ⟨_, _, h⟩ := bind_eq_ok.1 h
    cases h
  | .literal _, _, h => by cases h
  | .number _, _, h => by cases h
  | .path absolute steps, ls, h => by
    obtain ⟨reached, hreached, h⟩ := bind_eq_ok.1 h
    cases h
    refine step steps _ _ ?_ hreached
    split
    · exact root
    · exact node
  | .filter primary predicates steps, ls, h => by
    obtain ⟨v, hv, h⟩ := bind_eq_ok.1 h
    cases v with
    | nodes found =>
      obtain ⟨kept, hkept, h⟩ := bind_eq_ok.1 h
      obtain ⟨reached, hreached, h⟩ := bind_eq_ok.1 h
      cases h
      have hfound := eval_induction root node union sublist step primary hv
      exact step steps kept _ (sublist _ _ (keepAll_sublist hkept) hfound) hreached
    | _ => cases h
  | .call called arguments, ls, h => by
    rw [Expr.eval] at h
    split at h
    · cases h
    next f _ =>
      obtain ⟨_, _, h⟩ := bind_eq_ok.1 h
      split at h
      · obtain ⟨values, _, h⟩ := bind_eq_ok.1 h
        exact absurd h (apply_ne_nodes c f called values)
      · exact absurd h (apply_ne_nodes c f called [])

/-- An expression that gives nodes gives them in document order, each of them once. -/
theorem Expr.ordered_eval {e : Expr} {c : Context} (h : e.eval d ns c = .ok (.nodes ls)) :
    Ordered ls :=
  e.eval_induction (P := Ordered) (ordered_singleton _) (ordered_singleton _)
    (fun _ _ _ _ => ordered_inOrder _) (fun _ _ hkept hls => hls.sublist hkept)
    (fun _ _ _ hls => ordered_walk hls) h

theorem Expr.hasNode_eval {e : Expr} {c : Context} (hc : d.HasNode c.node)
    (h : e.eval d ns c = .ok (.nodes ls)) : ∀ l ∈ ls, d.HasNode l := by
  refine e.eval_induction (P := fun ls => ∀ l ∈ ls, d.HasNode l) ?_ ?_ ?_ ?_ ?_ h
  · intro l hl
    exact List.mem_singleton.1 hl ▸ d.hasNode_ofPath_nil
  · intro l hl
    exact List.mem_singleton.1 hl ▸ hc
  · intro ls rs hls hrs l hl
    exact (List.mem_append.1 (mem_inOrder.1 hl)).elim (hls l) (hrs l)
  · intro kept ls hkept hls l hl
    exact hls l (hkept.subset hl)
  · intro steps ls reached hls hreached
    exact hasNode_walk hls hreached

end Crosswalk.XPath

namespace Crosswalk.Source

open Crosswalk.Xml.Location (Ordered)

variable {src : Source} {node : Xml.Location} {expression : String} {ls : List Xml.Location}

theorem evaluate_of_select (h : src.select node expression = .ok ls) :
    src.evaluate node expression = .ok (.nodes ls) := by
  obtain ⟨v, hv, h⟩ := bind_eq_ok.1 h
  cases v <;> cases h
  exact hv

/-- What an expression selects comes in document order, each node once. -/
theorem ordered_select (h : src.select node expression = .ok ls) : Ordered ls := by
  have h := mapError_eq_ok.1 (evaluate_of_select h)
  obtain ⟨e, -, h⟩ := bind_eq_ok.1 h
  exact XPath.Expr.ordered_eval h

theorem hasNode_select (hnode : src.document.HasNode node)
    (h : src.select node expression = .ok ls) : ∀ l ∈ ls, src.document.HasNode l := by
  have h := mapError_eq_ok.1 (evaluate_of_select h)
  obtain ⟨e, -, h⟩ := bind_eq_ok.1 h
  exact XPath.Expr.hasNode_eval hnode h

end Crosswalk.Source
