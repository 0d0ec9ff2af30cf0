import Crosswalk.Vocabulary.Reader

/-!
# Every statement that is read is about a resource

A literal can be the object of a statement, never its subject. The types do not say so, and the readers do not
all look: what is written on a line is checked, but the subject of a Turtle statement may be a term that was
read like an object, and a reader of RDF/XML never meets a literal where a subject is made. The readers of
the two nested notations hand a state from part to part, and a part is given its subject by the part around
it; so what each of them keeps is said of the statements so far, and of subjects where one is handed down.
-/

namespace Crosswalk.Rdf

/-- An IRI or a blank node. -/
def Term.IsResource : Term → Prop
  | .literal _ => False
  | _ => True

/-- No statement among these is about a literal. -/
def AboutResources (triples : List Triple) : Prop :=
  ∀ t ∈ triples, t.subject.IsResource

theorem AboutResources.append {triples more : List Triple} (h : AboutResources triples)
    (hmore : AboutResources more) : AboutResources (triples ++ more) :=
  List.forall_mem_append.2 ⟨h, hmore⟩

theorem AboutResources.add {triples : List Triple} {t : Triple} (h : AboutResources triples)
    (ht : t.subject.IsResource) : AboutResources (triples ++ [t]) :=
  h.append (List.forall_mem_singleton.2 ht)

/-! ## Lines -/

namespace NTriples

theorem isResource_of_readLine? {cs : List Char} {t : Triple} (h : readLine? cs = some t) :
    t.subject.IsResource := by
  simp only [readLine?, Option.bind_eq_bind, Option.bind_eq_some_iff, Prod.exists] at h
  obtain ⟨subject, _, -, predicate, _, -, object, _, -, h⟩ := h
  cases subject with
  | iri | blank =>
    split at h
    · cases h
    · split at h
      · cases h
        trivial
      · cases h
    · cases h
  | literal =>
    split at h
    · cases h
    next hliteral => exact (hliteral _ rfl).elim
    · cases h

theorem aboutResources_of_mapM {lines : List (List Char)} {triples : List Triple}
    (h : lines.mapM readLine? = some triples) : AboutResources triples := by
  induction lines generalizing triples with
  | nil =>
    cases h
    exact List.forall_mem_nil _
  | cons line lines ih =>
    simp only [List.mapM_cons, Option.bind_eq_bind, Option.bind_eq_some_iff] at h
    obtain ⟨t, ht, more, hmore, h⟩ := h
    cases h
    exact List.forall_mem_cons.2 ⟨isResource_of_readLine? ht, ih hmore⟩

theorem aboutResources_of_read? {text : String} {triples : List Triple} (h : read? text = some triples) :
    AboutResources triples :=
  aboutResources_of_mapM h

end NTriples

/-! ## Turtle -/

namespace Turtle

/-- What is read by a part of the grammar leaves only statements about resources. -/
def Keeps {α : Type} (read : Reading α) : Prop :=
  ∀ {tokens : List Token} {st : ReadState} {a : α} {rest : List Token} {after : ReadState},
    read tokens st = some (a, rest, after) → AboutResources st.triples → AboutResources after.triples

/-- A look into a table on the way leaves everything as it was. -/
theorem eq_of_lookup {α β : Type} {x : Option β} {f : β → α} {tokens rest : List Token} {st after : ReadState}
    {a : α} (h : (x >>= fun b => some (f b, tokens, st)) = some (a, rest, after)) : after = st := by
  simp only [Option.bind_eq_bind, Option.bind_eq_some_iff] at h
  obtain ⟨_, -, h⟩ := h
  cases h
  rfl

theorem keeps_readIri : Keeps readIri := by
  intro tokens st a rest after h hst
  unfold readIri at h
  split at h
  · exact eq_of_lookup h ▸ hst
  · exact eq_of_lookup h ▸ hst
  · cases h

theorem keeps_readPredicate : Keeps readPredicate := by
  intro tokens st a rest after h hst
  unfold readPredicate at h
  split at h
  · exact eq_of_lookup h ▸ hst
  · exact keeps_readIri h hst

theorem keeps_readLiteralEnd (text : String) : Keeps (readLiteralEnd text) := by
  intro tokens st a rest after h hst
  unfold readLiteralEnd at h
  split at h
  · exact eq_of_lookup h ▸ hst
  · simp only [Option.bind_eq_bind, Option.bind_eq_some_iff, Prod.exists] at h
    obtain ⟨_, _, _, hiri, h⟩ := h
    cases h
    exact keeps_readIri hiri hst
  · cases h
    exact hst

/-- The induction is on the fuel, over all four parts that call one another. -/
theorem keeps_terms (fuel : Nat) : Keeps (readTerm fuel) ∧ Keeps (readCollection fuel) ∧
    (∀ subject : Term, subject.IsResource → Keeps (readPredicates fuel subject)) ∧
      ∀ (subject : Term) (predicate : Iri), subject.IsResource → Keeps (readObjects fuel subject predicate) := by
  induction fuel with
  | zero =>
    refine ⟨?_, ?_, fun _ _ => ?_, fun _ _ _ => ?_⟩ <;> intro tokens st a rest after h hst <;> cases h
  | succ fuel ih =>
    obtain ⟨hterm, hcollection, hpredicates, hobjects⟩ := ih
    refine ⟨?_, ?_, fun subject hsubject => ?_, fun subject predicate hsubject => ?_⟩ <;>
      intro tokens st a rest after h hst
    · simp only [readTerm] at h
      split at h
      · exact keeps_readLiteralEnd _ h hst
      · exact eq_of_lookup h ▸ hst
      · exact eq_of_lookup h ▸ hst
      · exact eq_of_lookup h ▸ hst
      · cases h
        exact hst
      · simp only [freshBlank] at h
        split at h
        · cases h
          exact hst
        · simp only [Option.bind_eq_bind, Option.bind_eq_some_iff, Prod.exists] at h
          obtain ⟨_, _, _, hinside, h⟩ := h
          split at h
          · cases h
            exact hpredicates (.blank _) trivial hinside hst
          · cases h
      · exact hcollection h hst
      · simp only [Option.bind_eq_bind, Option.bind_eq_some_iff, Prod.exists] at h
        obtain ⟨_, _, _, hiri, h⟩ := h
        cases h
        exact keeps_readIri hiri hst
    · simp only [readCollection] at h
      split at h
      · exact eq_of_lookup h ▸ hst
      · simp only [freshBlank, addTriple, Option.bind_eq_bind, Option.bind_eq_some_iff, Prod.exists] at h
        obtain ⟨_, _, _, hmember, _, -, _, _, _, hothers, _, -, h⟩ := h
        cases h
        exact (hcollection hothers ((hterm hmember hst).add trivial)).add trivial
    · simp only [readPredicates, Option.bind_eq_bind, Option.bind_eq_some_iff, Prod.exists] at h
      obtain ⟨predicate, _, _, hpredicate, _, _, _, hobject, h⟩ := h
      have hread := hobjects subject predicate hsubject hobject (keeps_readPredicate hpredicate hst)
      split at h
      · split at h
        · cases h
          exact hread
        · cases h
          exact hread
        · exact hpredicates subject hsubject h hread
      · cases h
        exact hread
    · simp only [readObjects, addTriple, Option.bind_eq_bind, Option.bind_eq_some_iff, Prod.exists] at h
      obtain ⟨object, _, _, hobject, h⟩ := h
      have hread := (hterm hobject hst).add (t := ⟨subject, predicate, object⟩) hsubject
      split at h
      · exact hobjects subject predicate hsubject h hread
      · cases h
        exact hread

theorem keeps_readStatements (fuel : Nat) : Keeps (readStatements fuel) := by
  obtain ⟨hterm, -, hpredicates, -⟩ := keeps_terms fuel
  intro tokens st a rest after h hst
  simp only [readStatements, Option.bind_eq_bind, Option.bind_eq_some_iff, Prod.exists] at h
  obtain ⟨subject, _, _, hsubject, h⟩ := h
  have hread := hterm hsubject hst
  split at h
  · cases h
  · split at h
    · cases h
    · cases h
      exact hread
    · cases h
  next hliteral _ =>
    simp only [Option.bind_eq_some_iff, Prod.exists] at h
    obtain ⟨_, _, _, hinside, h⟩ := h
    split at h
    · cases h
      refine hpredicates subject ?_ hinside hread
      cases subject with
      | literal l => exact (hliteral l rfl).elim
      | iri | blank => trivial
    · cases h

theorem triples_of_readAlias {a reference : String} {st after : ReadState}
    (h : readAlias a reference st = some after) : after.triples = st.triples := by
  simp only [readAlias, Option.bind_eq_bind, Option.bind_eq_some_iff] at h
  obtain ⟨_, -, h⟩ := h
  cases h
  rfl

theorem triples_of_readBase {reference : String} {st after : ReadState}
    (h : readBase reference st = some after) : after.triples = st.triples := by
  simp only [readBase, Option.bind_eq_bind, Option.bind_eq_some_iff] at h
  obtain ⟨_, -, h⟩ := h
  cases h
  rfl

theorem aboutResources_of_readAll {fuel left : Nat} {tokens : List Token} {st : ReadState}
    {triples : List Triple} (h : readAll fuel left tokens st = some triples)
    (hst : AboutResources st.triples) : AboutResources triples := by
  fun_induction readAll fuel left tokens st with
  | case1 => exact Option.some.inj h ▸ hst
  | case2 => cases h
  | case3 left a r rest st ih | case5 left w a r rest st _ ih =>
    simp only [Option.bind_eq_bind, Option.bind_eq_some_iff] at h
    obtain ⟨after, hafter, h⟩ := h
    exact ih after h (triples_of_readAlias hafter ▸ hst)
  | case4 left r rest st ih | case7 left w r rest st _ ih =>
    simp only [Option.bind_eq_bind, Option.bind_eq_some_iff] at h
    obtain ⟨after, hafter, h⟩ := h
    exact ih after h (triples_of_readBase hafter ▸ hst)
  | case6 | case8 => cases h
  | case9 left tokens st _ _ _ _ _ ih =>
    simp only [Option.bind_eq_bind, Option.bind_eq_some_iff, Prod.exists] at h
    obtain ⟨_, rest, after, hafter, h⟩ := h
    exact ih rest after h (keeps_readStatements fuel hafter hst)

theorem aboutResources_of_read? {text : String} {triples : List Triple} (h : read? text = some triples) :
    AboutResources triples := by
  simp only [read?, Option.bind_eq_bind, Option.bind_eq_some_iff] at h
  obtain ⟨tokens, -, h⟩ := h
  exact aboutResources_of_readAll h (List.forall_mem_nil _)

end Turtle

/-! ## RDF/XML -/

namespace XmlReader

open Crosswalk.Xml (Content)

variable {i : Inherited} {c : Content} {cs : List Content} {st after : ReadState} {subject node : Term}
  {predicate : Iri} {member : Nat}

theorem triples_of_takeId? {id : String} {iri : Iri} (h : takeId? i st id = some (iri, after)) :
    after.triples = st.triples := by
  simp only [takeId?, Option.bind_eq_bind, Option.bind_eq_some_iff] at h
  obtain ⟨_, -, h⟩ := h
  split at h
  · cases h
  · cases h
    rfl

theorem aboutResources_of_attributeTriples? (h : attributeTriples? i subject c st = some after)
    (hsubject : subject.IsResource) (hst : AboutResources st.triples) : AboutResources after.triples := by
  unfold attributeTriples? at h
  generalize c.attributes.filter isProperty = attributes at h
  induction attributes generalizing st with
  | nil =>
    cases h
    exact hst
  | cons a attributes ih =>
    rw [List.foldlM_cons] at h
    simp only [Option.bind_eq_bind, Option.bind_eq_some_iff] at h
    obtain ⟨next, hnext, h⟩ := h
    refine ih ?_ h
    split at hnext
    · cases hnext
    · obtain ⟨_, -, hnext⟩ := Option.bind_eq_some_iff.1 hnext
      split at hnext
      · obtain ⟨_, -, hnext⟩ := Option.bind_eq_some_iff.1 hnext
        cases hnext
        exact hst.add hsubject
      · cases hnext
        exact hst.add hsubject

theorem aboutResources_of_reify? {statement : Iri} {t : Triple} (h : reify? statement t st = some after)
    (hst : AboutResources st.triples) : AboutResources after.triples := by
  simp only [reify?, Option.bind_eq_bind, Option.bind_eq_some_iff] at h
  obtain ⟨_, -, _, ⟨_, -, htype⟩, _, ⟨_, -, hsubject⟩, _, ⟨_, -, hpredicate⟩, _, ⟨_, -, hobject⟩, h⟩ := h
  cases htype
  cases hsubject
  cases hpredicate
  cases hobject
  cases h
  refine hst.append ?_
  simp [AboutResources, Term.IsResource]

theorem aboutResources_of_addProperty? {t : Triple} (h : addProperty? i c t st = some after)
    (ht : t.subject.IsResource) (hst : AboutResources st.triples) : AboutResources after.triples := by
  unfold addProperty? at h
  split at h
  · cases h
    exact hst.add ht
  · simp only [Option.bind_eq_bind, Option.bind_eq_some_iff, Prod.exists] at h
    obtain ⟨statement, named, hid, h⟩ := h
    have hnamed : AboutResources (addTriple named t).triples :=
      (triples_of_takeId? hid ▸ hst : AboutResources named.triples).add ht
    exact aboutResources_of_reify? h hnamed

theorem isResource_of_nodeOf? (h : nodeOf? i c st = some (node, after)) : node.IsResource := by
  unfold nodeOf? at h
  split at h
  · obtain ⟨_, -, h⟩ := Option.map_eq_some_iff.1 h
    cases h
    trivial
  · obtain ⟨_, -, h⟩ := Option.map_eq_some_iff.1 h
    cases h
    trivial
  · cases h
    trivial
  · cases h
    trivial
  · cases h

theorem triples_of_nodeOf? (h : nodeOf? i c st = some (node, after)) : after.triples = st.triples := by
  unfold nodeOf? at h
  split at h
  · obtain ⟨_, -, h⟩ := Option.map_eq_some_iff.1 h
    cases h
    rfl
  · obtain ⟨⟨_, _⟩, hid, h⟩ := Option.map_eq_some_iff.1 h
    cases h
    exact triples_of_takeId? hid
  · cases h
    rfl
  · cases h
    rfl
  · cases h

theorem isResource_of_valueOf? (h : valueOf? i c = some (some node)) : node.IsResource := by
  unfold valueOf? at h
  split at h
  · obtain ⟨_, -, h⟩ := Option.map_eq_some_iff.1 h
    cases h
    trivial
  · cases h
    trivial
  · cases h
  · cases h

/-! Elements are read inside one another, so their readers are followed together, down the tree. -/

mutual

theorem aboutResources_of_readNode? {i : Inherited} {st after : ReadState} {c : Content} {node : Term}
    (h : readNode? i st c = some (node, after)) (hst : AboutResources st.triples) :
    AboutResources after.triples := by
  cases c with
  | element name bindings attributes children =>
    simp only [readNode?, Option.bind_eq_bind, Option.bind_eq_some_iff] at h
    obtain ⟨inner, -, h⟩ := h
    split at h
    · cases h
    · obtain ⟨⟨described, named⟩, hnode, h⟩ := Option.bind_eq_some_iff.1 h
      have hdescribed := isResource_of_nodeOf? hnode
      have hnamed : AboutResources named.triples := triples_of_nodeOf? hnode ▸ hst
      split at h
      · simp only [Option.bind_some, Option.bind_eq_some_iff] at h
        obtain ⟨_, hattributes, _, hproperties, h⟩ := h
        cases h
        exact aboutResources_of_readProperties? hproperties hdescribed
          (aboutResources_of_attributeTriples? hattributes hdescribed hnamed)
      · simp only [addTriple, Option.bind_some, Option.bind_eq_some_iff] at h
        obtain ⟨_, -, _, -, _, hattributes, _, hproperties, h⟩ := h
        cases h
        exact aboutResources_of_readProperties? hproperties hdescribed
          (aboutResources_of_attributeTriples? hattributes hdescribed (hnamed.add hdescribed))
  | text | comment | instruction => cases h
termination_by sizeOf c

theorem aboutResources_of_readProperties? {i : Inherited} {subject : Term} {member : Nat}
    {st after : ReadState} {cs : List Content} (h : readProperties? i subject member st cs = some after)
    (hsubject : subject.IsResource) (hst : AboutResources st.triples) : AboutResources after.triples := by
  cases cs with
  | nil =>
    cases h
    exact hst
  | cons c rest =>
    cases c with
    | element name bindings attributes children =>
      simp only [readProperties?, Option.bind_eq_bind, Option.bind_eq_some_iff, Prod.exists] at h
      obtain ⟨predicate, _, -, _, hproperty, h⟩ := h
      exact aboutResources_of_readProperties? h hsubject
        (aboutResources_of_readProperty? hproperty hsubject hst)
    | text | comment | instruction =>
      simp only [readProperties?] at h
      split at h
      · exact aboutResources_of_readProperties? h hsubject hst
      · cases h
termination_by sizeOf cs

theorem aboutResources_of_readProperty? {i : Inherited} {subject : Term} {predicate : Iri}
    {st after : ReadState} {c : Content} (h : readProperty? i subject predicate st c = some after)
    (hsubject : subject.IsResource) (hst : AboutResources st.triples) : AboutResources after.triples := by
  cases c with
  | element name bindings attributes children =>
    simp only [readProperty?, Option.bind_eq_bind, Option.bind_eq_some_iff] at h
    obtain ⟨inner, -, h⟩ := h
    split at h
    · obtain ⟨_, hproperty, h⟩ := Option.bind_eq_some_iff.1 h
      exact aboutResources_of_readProperties? h trivial
        (aboutResources_of_addProperty? hproperty hsubject hst)
    · obtain ⟨_, hmembers, h⟩ := Option.bind_eq_some_iff.1 h
      exact aboutResources_of_addProperty? h hsubject (aboutResources_of_readMembers? hmembers hst)
    · obtain ⟨_, -, h⟩ := Option.bind_eq_some_iff.1 h
      exact aboutResources_of_addProperty? h hsubject hst
    · obtain ⟨named?, hnamed, h⟩ := Option.bind_eq_some_iff.1 h
      split at h
      · split at h
        · cases h
        · obtain ⟨_, hproperty, h⟩ := Option.bind_eq_some_iff.1 h
          cases named? with
          | some node =>
            exact aboutResources_of_attributeTriples? h (isResource_of_valueOf? hnamed)
              (aboutResources_of_addProperty? hproperty hsubject hst)
          | none =>
            exact aboutResources_of_attributeTriples? h trivial
              (aboutResources_of_addProperty? hproperty hsubject hst)
      · split at h
        · obtain ⟨_, honly, h⟩ := Option.bind_eq_some_iff.1 h
          exact aboutResources_of_addProperty? h hsubject (aboutResources_of_readOnly? honly hst)
        · obtain ⟨_, -, h⟩ := Option.bind_eq_some_iff.1 h
          exact aboutResources_of_addProperty? h hsubject hst
  | text | comment | instruction => cases h
termination_by sizeOf c

theorem aboutResources_of_readOnly? {i : Inherited} {st after : ReadState} {cs : List Content} {node : Term}
    (h : readOnly? i st cs = some (node, after)) (hst : AboutResources st.triples) :
    AboutResources after.triples := by
  cases cs with
  | nil => cases h
  | cons c rest =>
    rw [readOnly?] at h
    split at h
    · split at h
      · exact aboutResources_of_readNode? h hst
      · cases h
    · split at h
      · exact aboutResources_of_readOnly? h hst
      · cases h
termination_by sizeOf cs

theorem aboutResources_of_readMembers? {i : Inherited} {st after : ReadState} {cs : List Content}
    {node : Term} (h : readMembers? i st cs = some (node, after)) (hst : AboutResources st.triples) :
    AboutResources after.triples := by
  cases cs with
  | nil =>
    obtain ⟨_, -, h⟩ := Option.map_eq_some_iff.1 h
    cases h
    exact hst
  | cons c rest =>
    rw [readMembers?] at h
    split at h
    · simp only [freshBlank, addTriple, Option.bind_eq_bind, Option.bind_eq_some_iff, Prod.exists] at h
      obtain ⟨_, _, hmember, _, -, _, _, hothers, _, -, h⟩ := h
      cases h
      have hread := aboutResources_of_readNode? hmember hst
      exact (aboutResources_of_readMembers? hothers (hread.add trivial)).add trivial
    · split at h
      · exact aboutResources_of_readMembers? h hst
      · cases h
termination_by sizeOf cs

end

theorem aboutResources_of_readNodes? (h : readNodes? i st cs = some after)
    (hst : AboutResources st.triples) : AboutResources after.triples := by
  induction cs generalizing st with
  | nil =>
    cases h
    exact hst
  | cons c rest ih =>
    rw [readNodes?] at h
    split at h
    · simp only [Option.bind_eq_bind, Option.bind_eq_some_iff, Prod.exists] at h
      obtain ⟨_, _, hnode, h⟩ := h
      exact ih h (aboutResources_of_readNode? hnode hst)
    · split at h
      · exact ih h hst
      · cases h

theorem aboutResources_of_read? {text : String} {triples : List Triple} (h : read? text = some triples) :
    AboutResources triples := by
  rw [read?] at h
  split at h
  · cases h
    exact List.forall_mem_nil _
  · simp only [Option.bind_eq_bind, Option.bind_eq_some_iff] at h
    obtain ⟨_, -, _, -, root, -, h⟩ := h
    split at h
    · simp only [Option.bind_eq_some_iff] at h
      obtain ⟨_, -, _, hnodes, h⟩ := h
      cases h
      exact aboutResources_of_readNodes? hnodes (List.forall_mem_nil _)
    · simp only [Option.bind_eq_some_iff, Prod.exists] at h
      obtain ⟨_, _, hnode, h⟩ := h
      cases h
      exact aboutResources_of_readNode? hnode (List.forall_mem_nil _)

end XmlReader

end Crosswalk.Rdf

/-! ## Vocabularies -/

namespace Crosswalk

open Crosswalk.Rdf (Triple AboutResources)

theorem VocabularyNotation.aboutResources_of_read? {kind : VocabularyNotation} {text : String}
    {triples : List Triple} (h : kind.read? text = some triples) : AboutResources triples := by
  cases kind with
  | nTriples => exact Rdf.NTriples.aboutResources_of_read? h
  | turtle => exact Rdf.Turtle.aboutResources_of_read? h
  | rdfXml => exact Rdf.XmlReader.aboutResources_of_read? h

theorem mem_distinctTriples {triples : List Triple} {t : Triple} :
    t ∈ distinctTriples triples ↔ t ∈ triples := by
  have hfold (found : List Triple) : t ∈ triples.foldl
      (fun found t => if found.contains t then found else found ++ [t]) found ↔ t ∈ found ∨ t ∈ triples := by
    induction triples generalizing found with
    | nil => simp
    | cons u rest ih =>
      rw [List.foldl_cons, ih]
      split
      next hu =>
        rw [List.contains_iff_mem] at hu
        grind
      next => simp [or_assoc]
  rw [distinctTriples, hfold]
  simp

/-- A vocabulary that was read: its statements, all of them about resources. -/
theorem Vocabulary.exists_of_read {kind : VocabularyNotation} {text : String} {v : Vocabulary}
    (h : Vocabulary.read kind text = .ok v) :
    ∃ statements, v = .concepts statements ∧ AboutResources statements := by
  rw [Vocabulary.read] at h
  split at h
  next triples hread =>
    cases h
    refine ⟨_, rfl, fun t ht => ?_⟩
    exact VocabularyNotation.aboutResources_of_read? hread t (mem_distinctTriples.1 ht)
  next => cases h

end Crosswalk
