import Crosswalk.Proofs.Writing

/-!
# Statements that speak only of what has a type

A list of statements is closed if whatever it speaks about is known already or gets its type in the list
itself. What hangs off an entity is closed, because the entity states its own types first, and a
graph in which everything has a type stays one when something closed is added to it.
-/

namespace Crosswalk

open Crosswalk.Rdf (Graph Statement Quad Iri)

theorem Value.eq_uri_of_isUri {v : Value} (h : v.isUri) : v = .uri v.text := by
  cases v with
  | uri iri => rfl
  | _ => cases h

/-! ## Closed lists of statements -/

/-- A type is stated of the resource. -/
def Rdf.Statement.Types (s : Statement) (text : String) : Prop :=
  s.subject = text ∧ s.predicate = Graph.typeIri

/-- The resource is known, or a type of it is stated in the list. -/
def Covered (known : String → Prop) (statements : List Statement) (text : String) : Prop :=
  known text ∨ ∃ s ∈ statements, s.Types text

/-- All that a statement speaks about is known: its subject, and its object unless that is a type. -/
def Rdf.Statement.SpeaksOf (s : Statement) (known : String → Prop) : Prop :=
  known s.subject ∧ ∀ text, s.object = .uri text → s.predicate ≠ Graph.typeIri → known text

/-- The statements speak only of what is known and of what they state a type of. -/
def Closed (known : String → Prop) (statements : List Statement) : Prop :=
  ∀ s ∈ statements, s.SpeaksOf (Covered known statements)

section

variable {known known' : String → Prop} {before after : List Statement} {text : String}

theorem Rdf.Statement.SpeaksOf.mono {s : Statement} (h : s.SpeaksOf known)
    (hk : ∀ text, known text → known' text) : s.SpeaksOf known' :=
  ⟨hk _ h.1, fun text ho hp => hk text (h.2 text ho hp)⟩

theorem Covered.append_left (h : Covered known before text) :
    Covered known (before ++ after) text := by
  rcases h with h | ⟨s, hs, ht⟩
  · exact .inl h
  · exact .inr ⟨s, List.mem_append_left after hs, ht⟩

theorem Covered.cons {s : Statement} (h : Covered known after text) :
    Covered known (s :: after) text := by
  rcases h with h | ⟨s', hs, ht⟩
  · exact .inl h
  · exact .inr ⟨s', List.mem_cons_of_mem s hs, ht⟩

theorem Covered.append (h : Covered (Covered known before) after text) :
    Covered known (before ++ after) text := by
  rcases h with h | ⟨s, hs, ht⟩
  · exact h.append_left
  · exact .inr ⟨s, List.mem_append_right before hs, ht⟩

theorem closed_nil : Closed known [] := by
  intro s hs
  cases hs

/-- What is stated first may be spoken of afterwards. -/
theorem Closed.append (h : Closed known before) (h' : Closed (Covered known before) after) :
    Closed known (before ++ after) := by
  intro s hs
  rcases List.mem_append.1 hs with hs | hs
  · exact (h s hs).mono fun _ => Covered.append_left
  · exact (h' s hs).mono fun _ => Covered.append

theorem closed_of_speaksOf (h : ∀ s ∈ after, s.SpeaksOf known) : Closed known after :=
  fun s hs => (h s hs).mono fun _ => .inl

/-- What is known may also be stated later on in the list. -/
theorem Closed.of_covered (known' : String → Prop) (h : Closed known' before)
    (hk : ∀ text, known' text → Covered known before text) : Closed known before := by
  intro s hs
  refine (h s hs).mono fun text ht => ?_
  rcases ht with ht | ht
  · exact hk text ht
  · exact .inr ht

end

/-! ## What hangs off an entity -/

section

variable {known : String → Prop} {graph? : Option String}

theorem covered_dependents {r : Resolved} {text : String} (hr : r.IsDescribed)
    (hvalue : r.value = .uri text) : Covered known (r.dependents graph?) text := by
  obtain ⟨value, types, labels, additionals⟩ := r
  dsimp only at hvalue
  subst hvalue
  rw [Resolved.IsDescribed] at hr
  rw [Resolved.dependents]
  obtain ⟨type, rest, rfl⟩ := List.exists_cons_of_ne_nil hr.1
  exact .inr ⟨typeStatement text graph? type, by simp, rfl, rfl⟩

theorem closed_types (subject : String) (types : List String) (hs : known subject) :
    Closed known (types.map (typeStatement subject graph?)) := by
  refine closed_of_speaksOf fun s h => ?_
  obtain ⟨type, -, rfl⟩ := List.mem_map.1 h
  exact ⟨hs, fun _ _ hp => absurd rfl hp⟩

theorem closed_labels (subject : String) {labels : List (String × Value)} (hs : known subject)
    (hlabels : ∀ label ∈ labels, label.2.isUri = false) :
    Closed known (labels.map fun (property, label) => ⟨subject, property, label, graph?⟩) := by
  refine closed_of_speaksOf fun s h => ?_
  obtain ⟨label, hl, rfl⟩ := List.mem_map.1 h
  refine ⟨hs, fun text ho _ => ?_⟩
  have := hlabels label hl
  dsimp only at ho
  rw [ho] at this
  cases this

/-- The statement that leads to an entity comes before those that state its types. -/
theorem closed_attached {subject relationship : String} {r : Resolved}
    (h : ∀ known, Closed known (r.dependents graph?)) (hr : r.IsDescribed) (hs : known subject) :
    Closed known (⟨subject, relationship, r.value, graph?⟩ :: r.dependents graph?) := by
  refine Closed.of_covered (fun text => known text ∨ r.value = .uri text) ?_ ?_
  · rw [← List.singleton_append]
    refine Closed.append (closed_of_speaksOf fun s hmem => ?_) (h _)
    cases List.mem_singleton.1 hmem
    exact ⟨.inl hs, fun text ho _ => .inr ho⟩
  · rintro text (ht | ht)
    · exact .inl ht
    · exact (covered_dependents hr ht).cons

mutual

theorem closed_dependents (graph? : Option String) : ∀ (r : Resolved), r.IsDescribed →
    ∀ known, Closed known (r.dependents graph?)
  | ⟨.uri subject, types, labels, additionals⟩, h, known => by
    have hcovered : Covered known (Resolved.dependents graph? ⟨.uri subject, types, labels, additionals⟩)
        subject := covered_dependents h rfl
    rw [Resolved.IsDescribed] at h
    obtain ⟨-, hlabels, hattached⟩ := h
    rw [Resolved.dependents] at hcovered ⊢
    have hs : known subject ∨ subject = subject := .inr rfl
    refine Closed.of_covered (fun text => known text ∨ text = subject) ?_ ?_
    · refine .append (.append (closed_types subject types hs) ?_) ?_
      · exact closed_labels subject (.inl hs) hlabels
      · exact closed_attachedStatements graph? subject additionals hattached _ (.inl hs)
    · rintro text (ht | rfl)
      · exact .inl ht
      · exact hcovered
  | ⟨.literal _ _, _, _, _⟩, _, _ => by
    rw [Resolved.dependents]
    · exact closed_nil
    · simp
  | ⟨.typed _ _, _, _, _⟩, _, _ => by
    rw [Resolved.dependents]
    · exact closed_nil
    · simp

theorem closed_attachedStatements (graph? : Option String) (subject : String) :
    ∀ (as : List (Attached Resolved)), AttachedDescribed as →
    ∀ known : String → Prop, known subject → Closed known (attachedStatements graph? subject as)
  | [], _, _, _ => by
    rw [attachedStatements]
    exact closed_nil
  | ⟨relationship, ⟨value, types, labels, additionals⟩⟩ :: rest, h, known, hs => by
    obtain ⟨hr, hrest⟩ := attachedDescribed_cons.1 h
    rw [attachedStatements]
    have hrest := closed_attachedStatements graph? subject rest hrest
    refine .append (closed_attached ?_ hr hs) (hrest _ (.inl hs))
    exact closed_dependents graph? ⟨value, types, labels, additionals⟩ hr

end

end

/-! ## The graph -/

/-- The graph states a type of the resource, in whatever graph of its own. -/
def Rdf.Graph.IsTyped (g : Graph) (text : String) : Prop :=
  ∃ q ∈ g.quads, q.subject.text = text ∧ q.predicate.text = Graph.typeIri

/-- Every subject has a type, and so has every resource that is an object and not a type itself. -/
def Rdf.Graph.AllTyped (g : Graph) : Prop :=
  ∀ q ∈ g.quads, g.IsTyped q.subject.text ∧
    ∀ i, q.object = .iri i → q.predicate.text ≠ Graph.typeIri → g.IsTyped i.text

theorem Rdf.Iri.eq_of_text_eq {i j : Iri} (h : i.text = j.text) : i = j := by
  cases i
  cases j
  cases h
  rfl

theorem Rdf.text_of_iriTerm {text : String} {i : Iri} (h : Rdf.iriTerm text = .ok i) :
    i.text = text := by
  rw [Rdf.iriTerm] at h
  split at h
  next hi =>
    cases h
    exact Iri.text_of_ofText? hi
  next => cases h

theorem Rdf.eq_uri_of_objectTerm {value : Value} {i : Iri} (h : Rdf.objectTerm value = .ok (.iri i)) :
    value = .uri i.text := by
  cases value with
  | uri text =>
    rw [Rdf.objectTerm] at h
    rcases hi : Rdf.iriTerm text with e | j <;> rw [hi] at h <;> cases h
    rw [Rdf.text_of_iriTerm hi]
  | literal text language? =>
    cases language? with
    | none => cases h
    | some language =>
      rw [Rdf.objectTerm] at h
      split at h <;> cases h
  | typed text datatype =>
    rw [Rdf.objectTerm] at h
    rcases hd : Rdf.iriTerm datatype with e | d <;> rw [hd] at h <;> cases h

/-- What a statement says is what its checked form says. -/
theorem Rdf.Statement.quad_ok {s : Statement} {q : Quad} (h : s.quad = .ok q) :
    q.subject.text = s.subject ∧ q.predicate.text = s.predicate ∧
      Rdf.objectTerm s.object = .ok q.object := by
  obtain ⟨subject, predicate, object, graph?⟩ := s
  have hterms : ∀ g : Option Iri, (do
      let subject ← Rdf.iriTerm subject
      let predicate ← Rdf.iriTerm predicate
      let object ← Rdf.objectTerm object
      .ok ⟨subject, predicate, object, g⟩ : Except GraphError Quad) = .ok q →
      q.subject.text = subject ∧ q.predicate.text = predicate ∧
        Rdf.objectTerm object = .ok q.object := by
    intro g h
    rcases hsubject : Rdf.iriTerm subject with e | i <;> rw [hsubject] at h
    · cases h
    rcases hpredicate : Rdf.iriTerm predicate with e | j <;> rw [hpredicate] at h
    · cases h
    rcases hobject : Rdf.objectTerm object with e | o <;> rw [hobject] at h
    · cases h
    cases h
    exact ⟨Rdf.text_of_iriTerm hsubject, Rdf.text_of_iriTerm hpredicate, rfl⟩
  rw [Rdf.Statement.quad] at h
  cases graph? with
  | none => exact hterms none h
  | some name =>
    dsimp only at h
    rcases hg : Rdf.iriTerm name with e | g <;> rw [hg] at h
    · cases h
    · exact hterms (some g) h

namespace Rdf.Graph

variable {g g' : Graph} {statements : List Statement}

theorem add_ok (h : g.add statements = .ok g') :
    ∃ quads, statements.mapM Statement.quad = .ok quads ∧ g' = g.insertAll quads := by
  rw [add] at h
  rcases hquads : statements.mapM Statement.quad with e | quads <;> rw [hquads] at h <;> cases h
  exact ⟨quads, rfl, rfl⟩

theorem mem_add (h : g.add statements = .ok g') {q : Quad} :
    q ∈ g'.quads ↔ (∃ s ∈ statements, s.quad = .ok q) ∨ q ∈ g.quads := by
  obtain ⟨quads, hquads, rfl⟩ := add_ok h
  rw [mem_insertAll, mem_mapM_iff hquads]

theorem exists_quad_of_add (h : g.add statements = .ok g') {s : Statement} (hs : s ∈ statements) :
    ∃ q ∈ g'.quads, s.quad = .ok q := by
  obtain ⟨quads, hquads, rfl⟩ := add_ok h
  obtain ⟨q, hq, hs⟩ := exists_of_mem_mapM hquads hs
  exact ⟨q, mem_insertAll.2 (.inl hq), hs⟩

theorem isTyped_of_covered (h : g.add statements = .ok g') {text : String}
    (hc : Covered g.IsTyped statements text) : g'.IsTyped text := by
  rcases hc with ⟨q, hq, hsubject, hpredicate⟩ | ⟨s, hs, rfl, htype⟩
  · exact ⟨q, (mem_add h).2 (.inr hq), hsubject, hpredicate⟩
  · obtain ⟨q, hq, hquad⟩ := exists_quad_of_add h hs
    obtain ⟨hsubject, hpredicate, -⟩ := Statement.quad_ok hquad
    exact ⟨q, hq, hsubject, hpredicate.trans htype⟩

/-- Adding what is closed over a graph keeps everything typed. -/
theorem AllTyped.add (hg : g.AllTyped) (h : g.add statements = .ok g')
    (hc : Closed g.IsTyped statements) : g'.AllTyped := by
  intro q hq
  rcases (mem_add h).1 hq with ⟨s, hs, hquad⟩ | hq
  · obtain ⟨hsubject, hpredicate, hobject⟩ := Statement.quad_ok hquad
    obtain ⟨hcsubject, hcobject⟩ := hc s hs
    refine ⟨hsubject ▸ isTyped_of_covered h hcsubject, fun i hi hp => ?_⟩
    rw [hi] at hobject
    exact isTyped_of_covered h
      (hcobject i.text (Rdf.eq_uri_of_objectTerm hobject) (hpredicate ▸ hp))
  · obtain ⟨hsubject, hobject⟩ := hg q hq
    exact ⟨isTyped_of_covered h (.inl hsubject), fun i hi hp =>
      isTyped_of_covered h (.inl (hobject i hi hp))⟩

end Rdf.Graph

end Crosswalk
