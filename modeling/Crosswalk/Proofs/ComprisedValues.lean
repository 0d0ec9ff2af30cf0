import Crosswalk.Proofs.Associations
import Crosswalk.Proofs.Descriptions

/-!
# The values of an entity

A resolved entity has a value, and so has everything that hangs off it. These are the values that are
associated when the entity is resolved, and they are what its description speaks of: a resource is the subject
of its types, and what is attached to it is the object of the statement that leads there. A typed literal is
kept in canonical form, so its text may be another one in the graph.
-/

namespace Crosswalk

open Crosswalk.Rdf (Graph Statement)

/-! ## Texts of terms -/

/-- A typed literal that is not in canonical form, so that it is kept with another text. -/
def Value.IsRewritten : Value → Prop
  | typed text datatype => (Rdf.canonicalTyped text datatype).1 ≠ text
  | _ => False

instance : (v : Value) → Decidable v.IsRewritten
  | .uri _ => isFalse id
  | .literal _ _ => isFalse id
  | .typed _ _ => inferInstanceAs (Decidable (_ ≠ _))

/-- The canonical text of a value goes with the datatype itself, or with one of two general ones. -/
theorem Rdf.canonicalSchema?_snd {name text : String} {v : String × String}
    (h : canonicalSchema? name text = some v) : v.2 = name ∨ v.2 = "integer" ∨ v.2 = "dateTime" := by
  dsimp only [canonicalSchema?] at h
  split at h
  · obtain ⟨_, -, rfl⟩ := Option.map_eq_some_iff.1 h
    exact .inr (.inl rfl)
  · split at h
    case h_6 =>
      obtain ⟨_, -, rfl⟩ := Option.map_eq_some_iff.1 h
      exact .inr (.inr rfl)
    case h_17 => cases h
    all_goals
      obtain ⟨_, -, rfl⟩ := Option.map_eq_some_iff.1 h
      exact .inl rfl

theorem Rdf.exists_iri_of_canonicalTyped (text : String) (datatype : Iri) :
    ∃ iri, Iri.ofText? (canonicalTyped text datatype.text).2 = some iri := by
  have hgeneral : ∀ name ∈ ["integer", "dateTime"],
      (Iri.ofText? (Namespaces.xsd ++ name)).isSome = true := by
    decide +kernel
  rw [canonicalTyped]
  split
  next t name h =>
    obtain ⟨local?, hlocal, h⟩ := Option.bind_eq_some_iff.1 h
    obtain ⟨rest, hdrop, rfl⟩ := Option.map_eq_some_iff.1 hlocal
    have hdatatype : datatype.text = Namespaces.xsd ++ String.ofList rest := by
      rw [Text.after?_eq_some_iff] at hdrop
      rw [← String.toList_inj, String.toList_append, String.toList_ofList, hdrop]
    rcases canonicalSchema?_snd h with rfl | rfl | rfl
    · rw [← hdatatype]
      exact ⟨datatype, Iri.ofText?_text datatype⟩
    · exact Option.isSome_iff_exists.1 (hgeneral _ (by simp))
    · exact Option.isSome_iff_exists.1 (hgeneral _ (by simp))
  next => exact ⟨datatype, Iri.ofText?_text datatype⟩

/-- A literal is kept with its text just if that is canonical. -/
theorem Rdf.Literal.text_ofTyped_iff {text : String} {datatype : Rdf.Iri} :
    (ofTyped text datatype).text = text ↔ (canonicalTyped text datatype.text).1 = text := by
  rw [ofTyped]
  split
  next hstring =>
    rw [beq_iff_eq] at hstring
    have hdrop : Text.dropStart? Namespaces.xsd (Namespaces.xsd ++ "string") = some "string" := by
      decide +kernel
    refine iff_of_true rfl ?_
    rw [hstring, canonicalTyped, hdrop]
    rfl
  next =>
    obtain ⟨iri, hiri⟩ := exists_iri_of_canonicalTyped text datatype
    dsimp only
    rw [hiri]
    exact Iff.rfl

theorem Rdf.text?_of_objectTerm_iff {v : Value} {term : Rdf.Term} (h : Rdf.objectTerm v = .ok term) :
    term.text? = some v.text ↔ ¬v.IsRewritten := by
  cases v with
  | uri iri =>
    rw [objectTerm] at h
    rcases hi : iriTerm iri with e | i <;> rw [hi] at h <;> cases h
    exact iff_of_true (congrArg some (text_of_iriTerm hi)) id
  | literal text language? =>
    refine iff_of_true ?_ id
    cases language? with
    | none =>
      cases h
      rfl
    | some language =>
      rw [objectTerm] at h
      split at h <;> cases h
      rfl
  | typed text datatype =>
    rw [objectTerm] at h
    rcases hd : iriTerm datatype with e | d <;> rw [hd] at h <;> cases h
    rw [Value.IsRewritten, not_not, ← text_of_iriTerm hd, ← Literal.text_ofTyped_iff]
    exact Option.some_inj

/-- A text occurs in the graph, as a subject, as the IRI of an object or in a literal. -/
def Rdf.Graph.Mentions (g : Graph) (text : String) : Prop :=
  ∃ q ∈ g.quads, q.subject.text = text ∨ q.object.text? = some text

instance (g : Graph) (text : String) : Decidable (g.Mentions text) :=
  inferInstanceAs (Decidable (∃ q ∈ g.quads, _))

theorem Rdf.Graph.Mentions.mono {g h : Graph} {text : String} (hg : g.Mentions text)
    (hsub : g.quads ⊆ h.quads) : h.Mentions text := by
  obtain ⟨q, hq, htext⟩ := hg
  exact ⟨q, hsub hq, htext⟩

section

variable {g : Graph} {P : Statement → Prop} {st : Statement}

theorem Rdf.Graph.Holds.mentions_subject (h : g.Holds P) (hst : P st) : g.Mentions st.subject := by
  obtain ⟨q, hq, hquad⟩ := h st hst
  exact ⟨q, hq, .inl (Rdf.Statement.quad_ok hquad).1⟩

theorem Rdf.Graph.Holds.mentions_object (h : g.Holds P) (hst : P st) (hv : ¬st.object.IsRewritten) :
    g.Mentions st.object.text := by
  obtain ⟨q, hq, hquad⟩ := h st hst
  exact ⟨q, hq, .inr ((Rdf.text?_of_objectTerm_iff (Rdf.Statement.quad_ok hquad).2.2).2 hv)⟩

end

/-! ## The values of a resolved entity -/

/-- A value is that of a resolved entity or of what hangs off it. -/
inductive Resolved.Comprises : Resolved → Value → Prop
  | own (r : Resolved) : Comprises r r.value
  | attached {r : Resolved} {a : Attached Resolved} {v : Value} (isUri : r.value.isUri)
      (mem : a ∈ r.additionals) (h : a.entity.Comprises v) : Comprises r v

section

variable {g : Graph} {graph? : Option String} {r : Resolved} {v : Value}

/-- Where the description of an entity is in the graph, so are the values of what hangs off it: each is
the object of the statement that leads there. -/
theorem Resolved.Comprises.eq_or_mentions (hv : r.Comprises v) (h : g.Holds (r.States graph?))
    (kept : ¬v.IsRewritten) : v = r.value ∨ g.Mentions v.text := by
  induction hv with
  | own => exact .inl rfl
  | @attached r a v isUri mem _ ih =>
    have hvalue := Value.eq_uri_of_isUri isUri
    rcases ih (fun st hst => h st (.further hvalue mem hst)) kept with rfl | hmentions
    · exact .inr (h.mentions_object (.leads hvalue mem) kept)
    · exact .inr hmentions

/-- A resource is the subject of its types as well. -/
theorem Resolved.Comprises.mentions (hv : r.Comprises v) (h : g.Holds (r.States graph?))
    (hr : r.types ≠ []) (huri : r.value.isUri) (kept : ¬v.IsRewritten) : g.Mentions v.text := by
  rcases hv.eq_or_mentions h kept with rfl | hmentions
  · obtain ⟨type, htype⟩ := List.exists_mem_of_ne_nil _ hr
    exact h.mentions_subject (.type (Value.eq_uri_of_isUri huri) htype)
  · exact hmentions

end

namespace Run

variable {s t : RunState} {x y : Resolution} {r : Resolved} {v : Value}

theorem Resolution.types_ne_nil_of_run (hx : x.IsNew) (h : outcome x.run x.state = (.ok r, t)) :
    r.types ≠ [] := by
  have hmeets : Meets (Reads 0) _ x.run x.state :=
    resolveWith_new_meets x.entity x.identity? hx.live hx.new
  have hdescribed := (hmeets.2 r t h).2
  obtain ⟨value, types, labels, additionals⟩ := r
  rw [Resolved.IsDescribed] at hdescribed
  exact hdescribed.1

/-- What is got while an entity is resolved is a value of the resolved entity. -/
theorem Resolution.comprises_of_gets (hx : x.IsNew) (h : outcome x.run x.state = (.ok r, t))
    (hy : x.Reaches y) (hv : y.Gets v) : r.Comprises v := by
  induction hy using Relation.ReflTransGen.head_induction_on generalizing r t with
  | refl =>
    obtain ⟨-, types, u, hvalued⟩ := hv
    obtain ⟨-, _, _, _, hvalued', -⟩ := succeeds_of_run hx h
    cases hvalued'.symm.trans hvalued
    exact .own r
  | head hz _ ih =>
    obtain ⟨huri, a, ha, u, hrun⟩ := hz.exists_mem_additionals hx h
    exact .attached huri ha (ih hz.isNew hrun)

/-- The value that an entity is resolved to is associated with its node. -/
theorem Resolution.association_mem_of_run (hx : x.IsNew) (h : outcome x.run x.state = (.ok r, t)) :
    x.association r.value ∈ t.associations.pairs := by
  obtain ⟨-, u, v, w, hvalued, hlabelled, hbelonging, rfl⟩ := succeeds_of_run hx h
  obtain ⟨_, u', hassociated, hlabels⟩ := bind_ok.1 hlabelled
  have hnew : x.association r.value ∈ u'.associations.pairs := by
    cases hassociated
    exact AssociationTable.mem_record.2 (.inl rfl)
  have hrest : Accumulates u' v := by
    refine after_eq hlabels ▸ ?_
    split
    · exact labels_moves respects_accumulates.toCarries _ _ _ u'
    · exact Moves.pure _ u'
  have hbelongings : Reads v.contexts.size v w := after_eq hbelonging ▸ belonging_reads x r.value v
  exact hbelongings.accumulates.associations (hrest.associations hnew)

/-- All values of a resolved entity are associated with nodes where it has been resolved. -/
theorem Resolution.exists_association_of_comprises (hx : x.IsNew)
    (h : outcome x.run x.state = (.ok r, t)) (hv : r.Comprises v) :
    ∃ a ∈ t.associations.pairs, a.value = v.text := by
  induction hv generalizing x t with
  | own => exact ⟨_, association_mem_of_run hx h, rfl⟩
  | attached isUri mem _ ih =>
    obtain ⟨k, hk⟩ := List.getElem?_of_mem mem
    obtain ⟨e, u, w, hattaches, hrun⟩ := exists_attaches_of_run hx h hk
    obtain ⟨a, ha, hvalue⟩ := ih hattaches.isNew hrun
    have typed := (succeeds_of_run hx h).types_ne
    obtain rfl := after_eq h
    obtain rfl := after_eq hrun
    have hlater := hattaches.rel_run respects_accumulates Reads.accumulates hx typed
    exact ⟨a, hlater.associations ha, hvalue⟩

end Run

end Crosswalk
