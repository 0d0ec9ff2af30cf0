import Crosswalk.Proofs.AnnotatedLayouts

/-!
# What the two relations of a path are read from

The children of a relation are gone through in their order, but each kind of them is put into a list of its own.
So what is read is told by the children of each kind alone, and how the kinds stand among each other is lost.
-/

namespace Crosswalk

/-! ## In turn -/

/-- The members of two lists in turn, beginning with the first one. What is left of the longer list stands
at the end. -/
def alternate {α : Type} : List α → List α → List α
  | [], bs => bs
  | a :: as, [] => a :: as
  | a :: as, b :: bs => a :: b :: alternate as bs

section

variable {α : Type} {p : α → Bool} {as bs : List α}

/-- What stands in turn is taken apart again by what tells the one kind from the other. -/
theorem filter_alternate_left (has : ∀ a ∈ as, p a = true) (hbs : ∀ b ∈ bs, p b = false) :
    (alternate as bs).filter p = as := by
  fun_induction alternate as bs with
  | case1 bs => simpa using hbs
  | case2 a as => exact List.filter_eq_self.2 has
  | case3 a as b bs ih =>
    rw [List.forall_mem_cons] at has hbs
    simp [has.1, hbs.1, ih has.2 hbs.2]

theorem filter_alternate_right (has : ∀ a ∈ as, p a = false) (hbs : ∀ b ∈ bs, p b = true) :
    (alternate as bs).filter p = bs := by
  fun_induction alternate as bs with
  | case1 bs => exact List.filter_eq_self.2 hbs
  | case2 a as => simpa using has
  | case3 a as b bs ih =>
    rw [List.forall_mem_cons] at has hbs
    simp [has.1, hbs.1, ih has.2 hbs.2]

theorem mem_alternate {x : α} : x ∈ alternate as bs ↔ x ∈ as ∨ x ∈ bs := by
  fun_induction alternate as bs with
  | case1 bs => simp
  | case2 a as => simp
  | case3 a as b bs ih => simp [ih, or_assoc, or_left_comm]

end

/-! ## Reading by kind -/

namespace Layout

open Crosswalk.Xml (Content)

variable {c : Content} {cs : List Content}

theorem elementsNamed_eq_filter (c : Content) (name : String) :
    c.elementsNamed name = c.elements.filter (·.localName == name) := by
  rw [Content.elementsNamed_eq]
  refine List.filter_congr fun e he => ?_
  rw [Bool.eq_iff_iff, Content.isNamed_iff (List.mem_filter.1 he).2, beq_iff_eq]

theorem localName_of_mem_elementsNamed {e : Content} {name : String} (he : e ∈ c.elementsNamed name) :
    e.localName = name := by
  rw [elementsNamed_eq_filter] at he
  exact beq_iff_eq.1 (List.mem_filter.1 he).2

theorem readSourceSteps_eq_ok_iff {r r' : SourceRelation} : readSourceSteps r cs = .ok r' ↔
    (∀ c ∈ cs, c.localName = "relation" ∨ c.localName = "node") ∧
      r' = ⟨r.relations ++ (cs.filter (·.localName == "relation")).map textOf,
        r.nodes ++ (cs.filter (·.localName == "node")).map textOf⟩ := by
  induction cs generalizing r with
  | nil => simp [readSourceSteps, eq_comm]
  | cons c rest ih =>
    rw [readSourceSteps]
    split
    next hname => simp [ih, hname]
    next hname => simp [ih, hname]
    next hrelation hnode =>
      refine iff_of_false (by simp) ?_
      rintro ⟨hall, -⟩
      exact (hall c List.mem_cons_self).elim hrelation hnode

theorem readSourceRelation_eq_ok_iff {r : SourceRelation} : readSourceRelation c = .ok r ↔
    (∀ e ∈ c.elements, e.localName = "relation" ∨ e.localName = "node") ∧
      r = ⟨(c.elementsNamed "relation").map textOf, (c.elementsNamed "node").map textOf⟩ ∧
      r.relations ≠ [] := by
  rw [readSourceRelation, bind_eq_ok, elementsNamed_eq_filter, elementsNamed_eq_filter]
  simp only [readSourceSteps_eq_ok_iff, List.nil_append]
  constructor
  · rintro ⟨r', ⟨hall, hr'⟩, h⟩
    split at h
    next => cases h
    next hne =>
      cases h
      exact ⟨hall, hr', fun hnil => hne (List.isEmpty_iff.2 hnil)⟩
  · rintro ⟨hall, hr, hne⟩
    exact ⟨r, ⟨hall, hr⟩, if_neg fun hempty => hne (List.isEmpty_iff.1 hempty)⟩

theorem readTargetSteps_eq_ok_iff {r r' : TargetRelation} : readTargetSteps r cs = .ok r' ↔
    (∀ c ∈ cs, c.localName = "relationship" ∨ c.localName = "entity" ∨ c.localName = "if") ∧
      ∃ entities, (cs.filter (·.localName == "entity")).mapM readEntity = .ok entities ∧
        r' = ⟨r.condition?, r.relationships ++ (cs.filter (·.localName == "relationship")).map textOf,
          r.entities ++ entities⟩ := by
  induction cs generalizing r with
  | nil => simp [readTargetSteps, pure, Except.pure, eq_comm]
  | cons c rest ih =>
    rw [readTargetSteps]
    split
    next hname => simp [ih, hname]
    next hname =>
      rw [List.filter_cons_of_pos (by simp [hname])]
      simp only [bind_eq_ok, mapM_cons_eq_ok_iff, ih, List.forall_mem_cons]
      constructor
      · rintro ⟨entity, hentity, hall, entities, hentities, rfl⟩
        exact ⟨⟨.inr (.inl hname), hall⟩, _, ⟨entity, entities, hentity, hentities, rfl⟩, by simp [hname]⟩
      · rintro ⟨⟨-, hall⟩, _, ⟨entity, entities, hentity, hentities, rfl⟩, rfl⟩
        exact ⟨entity, hentity, hall, entities, hentities, by simp [hname]⟩
    next hname => simp [ih, hname]
    next hrelationship hentity hif =>
      refine iff_of_false (by simp) ?_
      rintro ⟨hall, -⟩
      exact (hall c List.mem_cons_self).elim hrelationship (·.elim hentity hif)

theorem readTargetRelation_eq_ok_iff {r : TargetRelation} : readTargetRelation c = .ok r ↔
    (∀ e ∈ c.elements, e.localName = "relationship" ∨ e.localName = "entity" ∨ e.localName = "if") ∧
      readGuard c = .ok r.condition? ∧ r.relationships = (c.elementsNamed "relationship").map textOf ∧
      (c.elementsNamed "entity").mapM readEntity = .ok r.entities ∧ r.relationships ≠ [] := by
  rw [readTargetRelation, elementsNamed_eq_filter, elementsNamed_eq_filter]
  simp only [bind_eq_ok, readTargetSteps_eq_ok_iff, List.nil_append]
  constructor
  · rintro ⟨condition?, hguard, r', ⟨hall, entities, hentities, rfl⟩, h⟩
    split at h
    next => cases h
    next hne =>
      cases h
      exact ⟨hall, hguard, rfl, hentities, fun hnil => hne (List.isEmpty_iff.2 hnil)⟩
  · rintro ⟨hall, hguard, hrelationships, hentities, hne⟩
    refine ⟨r.condition?, hguard, r, ⟨hall, r.entities, hentities, ?_⟩, if_neg fun hempty => hne ?_⟩
    · rw [← hrelationships]
    · exact List.isEmpty_iff.1 hempty

end Layout

end Crosswalk
