import Crosswalk.Proofs.Resolutions

/-!
# What hangs off an entity

A resource is described by its types, its labels and what is attached to it; a literal is not described
at all. `Resolved.States` says by rules which statements these are, and `Entity.IsRealizedBy` what a
resolved entity takes over from the entity that it was made from. Every resolution that succeeds
realizes its entity.
-/

namespace Crosswalk

open Crosswalk.Rdf (Statement)

/-- What holds of a resolved entity if it holds of all that are attached to it holds of every one. -/
theorem Resolved.induction {P : Resolved → Prop}
    (step : ∀ r : Resolved, (∀ a ∈ r.additionals, P a.entity) → P r) (r : Resolved) : P r :=
  @Resolved.rec P (fun as => ∀ a ∈ as, P a.entity) (fun a => P a.entity)
    (fun _ _ _ _ h => step _ h) (by simp) (fun _ _ h h' => List.forall_mem_cons.2 ⟨h, h'⟩)
    (fun _ _ h => h) r

/-- The statements that describe a resolved entity in a graph. -/
inductive Resolved.States (graph? : Option String) : Resolved → Statement → Prop
  | type {r : Resolved} {subject type : String} (value : r.value = .uri subject)
      (h : type ∈ r.types) : States graph? r (typeStatement subject graph? type)
  | label {r : Resolved} {subject property : String} {label : Value} (value : r.value = .uri subject)
      (h : (property, label) ∈ r.labels) : States graph? r ⟨subject, property, label, graph?⟩
  | leads {r : Resolved} {subject : String} {a : Attached Resolved} (value : r.value = .uri subject)
      (h : a ∈ r.additionals) :
      States graph? r ⟨subject, a.relationship, a.entity.value, graph?⟩
  | further {r : Resolved} {subject : String} {a : Attached Resolved} {s : Statement}
      (value : r.value = .uri subject) (h : a ∈ r.additionals) (states : States graph? a.entity s) :
      States graph? r s

theorem mem_attachedStatements {graph? : Option String} {subject : String}
    {as : List (Attached Resolved)} {s : Statement} :
    s ∈ attachedStatements graph? subject as ↔
      ∃ a ∈ as, s = ⟨subject, a.relationship, a.entity.value, graph?⟩ ∨
        s ∈ a.entity.dependents graph? := by
  induction as with
  | nil => simp [attachedStatements]
  | cons a rest ih =>
    obtain ⟨relationship, ⟨value, types, labels, additionals⟩⟩ := a
    rw [attachedStatements, List.cons_append, List.mem_cons, List.mem_append, ih]
    simp [or_assoc]

/-- What is gathered for a resolved entity is what describes it. -/
theorem Resolved.mem_dependents_iff {graph? : Option String} {r : Resolved} {s : Statement} :
    s ∈ r.dependents graph? ↔ r.States graph? s := by
  induction r using Resolved.induction with
  | step r ih =>
    obtain ⟨value, types, labels, additionals⟩ := r
    cases value with
    | uri subject =>
      simp only [dependents, List.mem_append, List.mem_map, mem_attachedStatements]
      constructor
      · rintro ((⟨type, htype, rfl⟩ | ⟨⟨property, label⟩, hlabel, rfl⟩) | ⟨a, ha, rfl | hs⟩)
        · exact .type rfl htype
        · exact .label rfl hlabel
        · exact .leads rfl ha
        · exact .further rfl ha ((ih a ha).1 hs)
      · intro h
        cases h with
        | type hvalue htype =>
          cases hvalue
          exact .inl (.inl ⟨_, htype, rfl⟩)
        | label hvalue hlabel =>
          cases hvalue
          exact .inl (.inr ⟨_, hlabel, rfl⟩)
        | leads hvalue ha =>
          cases hvalue
          exact .inr ⟨_, ha, .inl rfl⟩
        | further _ ha hs => exact .inr ⟨_, ha, .inr ((ih _ ha).2 hs)⟩
    | _ =>
      constructor
      · rintro ⟨⟩
      · intro h
        cases h with
        | type hvalue | label hvalue | leads hvalue | further hvalue => cases hvalue

/-- A resolved entity has the types of its description. A resource has the labels that could be
generated, in their order, and all that is attached to it, by the relationships of its description; a
literal has neither. -/
inductive Entity.IsRealizedBy (ns : Namespaces) : Entity → Resolved → Prop
  | literal {e : Entity} {r : Resolved} (types : e.types.mapM ns.expand = .ok r.types)
      (isUri_eq : r.value.isUri = false) (labels : r.labels = []) (additionals : r.additionals = []) :
      IsRealizedBy ns e r
  | resource {e : Entity} {r : Resolved} (types : e.types.mapM ns.expand = .ok r.types)
      (isUri_eq : r.value.isUri = true)
      (labels : (r.labels.map (·.1)).Sublist (e.labels.map labelPropertyOf))
      (relationships : e.additionals.mapM (fun a => ns.expand a.relationship) =
        .ok (r.additionals.map (·.relationship)))
      (additionals : ∀ p ∈ e.additionals.zip r.additionals, IsRealizedBy ns p.1.entity p.2.entity) :
      IsRealizedBy ns e r

namespace Run

variable {scene : Scene} {s t : RunState}

theorem fst_of_label? {call : GeneratorCall} {c : Context} {label? : Option (String × Value)}
    (h : outcome (Run.label? scene call c) s = (.ok label?, t)) :
    ∀ label ∈ label?, label.1 = labelPropertyOf call := by
  rw [Run.label?, outcome_tryCatch] at h
  rintro label rfl
  split at h
  next a u hmade =>
    cases h
    obtain ⟨v, t₁, -, hmade⟩ := bind_ok.1 hmade
    cases hmade
    rfl
  next e u hmade =>
    cases e with
    | abort e => cases h
    | drop cause =>
      dsimp only at h
      split at h <;> cases h

/-- The labels that can be generated are in the order of their generators. -/
theorem map_fst_labels_sublist {c : Context} {calls : List GeneratorCall}
    {ls : List (String × Value)} (h : outcome (labels scene c calls) s = (.ok ls, t)) :
    (ls.map (·.1)).Sublist (calls.map labelPropertyOf) := by
  induction calls generalizing s ls with
  | nil =>
    cases h
    exact .slnil
  | cons call rest ih =>
    obtain ⟨label?, t₁, hlabel, h⟩ := bind_ok.1 h
    obtain ⟨others, t₂, hothers, h⟩ := bind_ok.1 h
    cases h
    have hrest := ih hothers
    cases label? with
    | none => exact hrest.cons _
    | some label =>
      simp only [Option.toList_some, List.singleton_append, List.map_cons,
        fst_of_label? hlabel label rfl]
      exact hrest.cons_cons _

namespace Resolution

variable {x : Resolution} {r : Resolved}

/-- What is attached to a resource realizes its entities if each resolution of one does. -/
theorem realizedBy_of_additionals {place : Place} {owner k : Nat} {c : Context} {value : Value}
    {as : List (Attached Entity)} {rs : List (Attached Resolved)}
    (ih : ∀ a ∈ as, ∀ (x : Resolution) (r : Resolved) (t : RunState), x.IsNew → x.entity = a.entity →
      x.scene = scene → outcome x.run x.state = (.ok r, t) →
        a.entity.IsRealizedBy scene.namespaces r)
    (h : outcome (resolveAdditionals scene place owner c value k as) s = (.ok rs, t)) :
    as.mapM (fun a => scene.namespaces.expand a.relationship) = .ok (rs.map (·.relationship)) ∧
      ∀ p ∈ as.zip rs, p.1.entity.IsRealizedBy scene.namespaces p.2.entity := by
  induction as generalizing k s rs with
  | nil =>
    cases h
    exact ⟨rfl, fun p hp => by cases hp⟩
  | cons a rest hrest =>
    obtain ⟨relationship, r, others, u, hexpanded, hr, hothers, rfl⟩ := resolveAdditionals_cons_ok.1 h
    have hfresh := isFresh_additionalContext c owner value k relationship
    have hrealized := ih _ List.mem_cons_self
      (.entering scene place (additionalContext c owner value k relationship) none a.entity s) r u
      (isNew_entering hfresh none a.entity s) rfl rfl hr
    obtain ⟨hrelationships, hothers⟩ := hrest (fun a ha => ih a (List.mem_cons_of_mem _ ha)) hothers
    constructor
    · rw [List.mapM_cons, hexpanded, hrelationships]
      rfl
    · intro p hp
      rcases List.mem_cons.1 hp with rfl | hp
      · exact hrealized
      · exact hothers p hp

/-- A resolution that succeeds realizes its entity. -/
theorem isRealizedBy_of_run (hx : x.IsNew) (h : outcome x.run x.state = (.ok r, t)) :
    x.entity.IsRealizedBy x.scene.namespaces r := by
  obtain ⟨entity, hentity⟩ : ∃ e, x.entity = e := ⟨_, rfl⟩
  induction entity using Entity.induction generalizing x r t with
  | step e ih =>
    subst hentity
    obtain ⟨-, u, v, w, hvalued, hlabelled, hbelonging, -⟩ := succeeds_of_run hx h
    obtain ⟨types, t₁, h₁, hvalued⟩ := bind_ok.1 hvalued
    obtain ⟨htypes, rfl⟩ := ofSetup_ok.1 h₁
    obtain ⟨value, t₂, -, hvalued⟩ := bind_ok.1 hvalued
    cases hvalued
    obtain ⟨_, t₃, -, hlabelled⟩ := bind_ok.1 hlabelled
    rw [belonging] at hbelonging
    cases huri : r.value.isUri <;> rw [huri] at hlabelled hbelonging
    · have hlabels := Except.ok.inj (congrArg Prod.fst hlabelled)
      have hadditionals := Except.ok.inj (congrArg Prod.fst hbelonging)
      exact .literal htypes huri hlabels.symm hadditionals.symm
    · obtain ⟨hrelationships, hadditionals⟩ := realizedBy_of_additionals
        (fun a ha y ry ty hy hentity hscene hrun => hscene ▸ hentity ▸ ih a ha hy hrun hentity)
        hbelonging
      exact .resource htypes huri (map_fst_labels_sublist hlabelled) hrelationships hadditionals

/-- What is attached to an entity under a number was taken up with that number. -/
theorem exists_attaches_of_run (hx : x.IsNew) (h : outcome x.run x.state = (.ok r, t)) {k : Nat}
    {a : Attached Resolved} (ha : r.additionals[k]? = some a) :
    ∃ e u w, let c := additionalContext x.context x.id r.value k a.relationship
      x.Attaches (entering x.scene x.place c none e u) ∧
        outcome (entering x.scene x.place c none e u).run (u.enter c) = (.ok a.entity, w) := by
  obtain ⟨-, u, v, w, hvalued, hlabelled, hbelonging, -⟩ := succeeds_of_run hx h
  rw [belonging] at hbelonging
  split at hbelonging
  next huri =>
    have hk : k < x.entity.additionals.length :=
      length_of_resolveAdditionals hbelonging ▸ (List.getElem?_eq_some_iff.1 ha).1
    obtain ⟨before, e, rest, hdivided, rfl⟩ : ∃ before e rest,
        x.entity.additionals = before ++ e :: rest ∧ before.length = k :=
      ⟨_, _, _, by rw [← List.drop_eq_getElem_cons hk, List.take_append_drop],
        List.length_take_of_le (Nat.le_of_lt hk)⟩
    rw [attached, hdivided, resolveAdditionals_append, Nat.zero_add] at hbelonging
    obtain ⟨resolved, v₁, hearlier, hbelonging⟩ := bind_ok.1 hbelonging
    obtain ⟨others, v₂, hothers, hbelonging⟩ := bind_ok.1 hbelonging
    obtain ⟨relationship, ry, more, v₃, hexpanded, hy, -, rfl⟩ := resolveAdditionals_cons_ok.1 hothers
    have hattached : resolved ++ ⟨relationship, ry⟩ :: more = r.additionals :=
      Except.ok.inj (congrArg Prod.fst hbelonging)
    have hsome : some ⟨relationship, ry⟩ = some a := by
      rw [← ha, ← hattached, ← length_of_resolveAdditionals hearlier,
        List.getElem?_append_right (Nat.le_refl _), Nat.sub_self]
      rfl
    cases hsome
    have hattaches := Attaches.intro hvalued huri hlabelled hdivided hearlier hexpanded
    exact ⟨e.entity, v₁, v₃, hattaches, hy⟩
  next =>
    have hnone : r.additionals = [] := (Except.ok.inj (congrArg Prod.fst hbelonging)).symm
    rw [hnone] at ha
    cases ha

/-- What was taken up as attached to an entity is attached to it under its number. -/
theorem Attaches.exists_mem_additionals {y : Resolution} (hy : x.Attaches y) (hx : x.IsNew)
    (h : outcome x.run x.state = (.ok r, t)) :
    r.value.isUri ∧ ∃ a ∈ r.additionals, ∃ u, outcome y.run y.state = (.ok a.entity, u) := by
  obtain ⟨-, s₁, s₂, s₃, hvalued', hlabelled', hbelonging, -⟩ := succeeds_of_run hx h
  obtain @⟨_, _, _, _, _, _, _, relationship, _, _, _, hvalued, huri, hlabelled, hdivided, hearlier,
    hexpanded⟩ := hy
  cases hvalued'.symm.trans hvalued
  cases hlabelled'.symm.trans hlabelled
  rw [belonging, if_pos huri, attached, hdivided, resolveAdditionals_append, Nat.zero_add] at hbelonging
  obtain ⟨resolved, u₁, hearlier', hbelonging⟩ := bind_ok.1 hbelonging
  cases hearlier'.symm.trans hearlier
  obtain ⟨others, u₂, hothers, hbelonging⟩ := bind_ok.1 hbelonging
  obtain ⟨_, ry, more, u₃, hexpanded', hr, -, rfl⟩ := resolveAdditionals_cons_ok.1 hothers
  cases hexpanded'.symm.trans hexpanded
  have hattached := Except.ok.inj (congrArg Prod.fst hbelonging)
  refine ⟨huri, ⟨relationship, ry⟩, ?_, u₃, hr⟩
  exact hattached ▸ List.mem_append_right _ List.mem_cons_self

end Resolution

end Run

end Crosswalk
