import Crosswalk.Proofs.AbortedRuns
import Crosswalk.Proofs.LackingCalls

/-!
# What can end the run of a valid mapping

The check of a mapping leaves little that can end a run: what cannot be read in the document, a literal
with several types, and two faults of a call that the check does not look at. A generator that is always
there may lack its text, and the namespace of a generator of the policy may be unknown.
-/

namespace Crosswalk

/-- The error says that a part of the mapping is missing, or that nothing stands behind it. -/
def SetupError.IsStructural : SetupError → Prop
  | unknownGenerator _ | unknownClass _ | missingType | missingGenerator | malformedRelation _ _
  | malformedJoin _ => True
  | _ => False

/-- The error says that a call lacks an argument, or that a namespace is unknown. -/
def SetupError.IsLack : SetupError → Prop
  | missingArgument _ _ | unknownAlias _ _ => True
  | _ => False

/-! ## Valid mappings -/

namespace Engine

variable {engine : Engine} {seed : List UInt8} {document : Xml.Document} {e : SetupError}

/-- What a run of a valid mapping can come to. -/
theorem IsValid.cause (valid : engine.IsValid) (h : engine.Cause (.setup e)) :
    (∃ text fault, e = .expression text fault) ∨ (∃ count, e = .ambiguousTypes count) ∨
      ∃ call ∈ engine.mapping.calls, engine.policy.Lacks engine.namespaces call e := by
  cases h with
  | reading h => exact .inl (Source.Misreads.exists_eq h)
  | types count => exact .inr (.inl ⟨count, rfl⟩)
  | name hnamed hunknown =>
    obtain ⟨iri, hiri⟩ := valid.expand hnamed
    rw [hunknown] at hiri
    cases hiri
  | call hcall hfails => exact .inr (.inr ⟨_, hcall, hfails.lacks (valid.check hcall)⟩)
  | untyped he huntyped =>
    rcases List.mem_append.1 he with he | he
    · exact absurd huntyped (valid.entities _ he).typed
    · exact absurd huntyped (valid.merged _ he).typed
  | anonymous he hgenerator hvariable hglobal =>
    exact absurd hglobal ((valid.entities _ he).identified rfl hgenerator hvariable)
  | join hl hjoins hmalformed =>
    obtain ⟨join, hjoin⟩ := (valid.links _ hl).join hjoins
    rw [hmalformed] at hjoin
    cases hjoin

theorem cause_of_valid (valid : engine.validate = .ok ())
    (h : engine.execute seed document = .error (.setup e)) :
    (∃ text fault, e = .expression text fault) ∨ (∃ count, e = .ambiguousTypes count) ∨
      ∃ call ∈ engine.mapping.calls, engine.policy.Lacks engine.namespaces call e :=
  (validate_iff.1 valid).cause (cause_of_execute valid h)

/-- No run of a valid mapping ends because a part of the mapping is missing, or because nothing stands
behind it. -/
theorem execute_ne_of_isStructural (valid : engine.validate = .ok ()) (structural : e.IsStructural)
    (seed : List UInt8) (document : Xml.Document) :
    engine.execute seed document ≠ .error (.setup e) := by
  intro h
  rcases cause_of_valid valid h with ⟨text, fault, rfl⟩ | ⟨count, rfl⟩ | ⟨call, -, h⟩
  · exact structural
  · exact structural
  · cases h <;> exact structural

/-- A town of which is told that it is a place, and a place needs no value of its own. -/
def placeEngine : Engine :=
  let name : GeneratorCall := ⟨"prefLabel", [⟨"text", .xpath, "@name", none⟩]⟩
  let town : Entity := ⟨["<urn:Town>"], some ⟨"UUID", []⟩, [], [], none, none⟩
  let place : Entity := ⟨["<urn:Place>"], none, [name], [⟨"<urn:near>", town⟩], none, none⟩
  let merging : Link := ⟨⟨[""], []⟩, ⟨none, [mergeName], []⟩, ⟨"", ⟨place, none⟩⟩, none, false⟩
  ⟨⟨.builtin, [⟨⟨"/town", ⟨town, none⟩, none⟩, [merging], none, false⟩]⟩, .empty, none, .default⟩

/-- No value is asked for of what is merged. -/
theorem execute_ne_missingGenerator_place :
    placeEngine.validate = .ok () ∧ SetupError.missingGenerator.IsStructural ∧
      placeEngine.execute [] ⟨[.element ⟨none, "town"⟩ [] [] []]⟩ ≠ .error (.setup .missingGenerator) := by
  have valid : placeEngine.validate = .ok () := by decide +kernel
  have structural : SetupError.missingGenerator.IsStructural := trivial
  exact ⟨valid, structural, execute_ne_of_isStructural valid structural _ _⟩

/-- No run of a valid mapping ends for the lack of an argument or a namespace, as long as every call has
what the check does not ask for. -/
theorem execute_ne_of_isLack (valid : engine.validate = .ok ())
    (supplied : ∀ call ∈ engine.mapping.calls, engine.policy.Supplies engine.namespaces call)
    (lack : e.IsLack) (seed : List UInt8) (document : Xml.Document) :
    engine.execute seed document ≠ .error (.setup e) := by
  intro h
  rcases cause_of_valid valid h with ⟨text, fault, rfl⟩ | ⟨count, rfl⟩ | ⟨call, hcall, h⟩
  · exact lack
  · exact lack
  · exact GeneratorPolicy.supplies_iff.1 (supplied call hcall) e h

/-- A person in a namespace with a label, which is made with an argument of some name. -/
def labelledEngine (space argument : String) : Engine :=
  let label : GeneratorCall := ⟨"prefLabel", [⟨argument, .xpath, "@name", none⟩]⟩
  let person : Entity :=
    ⟨["<urn:Person>"], some ⟨"Person", [⟨"id", .xpath, "@id", none⟩]⟩, [label], [], none, none⟩
  ⟨⟨.insert .builtin "people" "urn:people:", [⟨⟨"/person", ⟨person, none⟩, none⟩, [], none, false⟩]⟩,
    .insert .empty ⟨"Person", some space, false, false, .pattern "{id}"⟩, none, .default⟩

def adaDocument : Xml.Document :=
  ⟨[.element ⟨none, "person"⟩ [] [⟨⟨none, "id"⟩, "7"⟩, ⟨⟨none, "name"⟩, "Ada"⟩] []]⟩

/-- A call with the text and the namespace that it takes. -/
theorem execute_ne_missingArgument_ada :
    (labelledEngine "people" "text").validate = .ok () ∧
      (∀ call ∈ (labelledEngine "people" "text").mapping.calls,
        (labelledEngine "people" "text").policy.Supplies (labelledEngine "people" "text").namespaces
          call) ∧
      (SetupError.missingArgument "prefLabel" "text").IsLack ∧
      (labelledEngine "people" "text").execute [] adaDocument ≠
        .error (.setup (.missingArgument "prefLabel" "text")) := by
  have valid : (labelledEngine "people" "text").validate = .ok () := by decide +kernel
  have supplied : ∀ call ∈ (labelledEngine "people" "text").mapping.calls,
      (labelledEngine "people" "text").policy.Supplies (labelledEngine "people" "text").namespaces
        call := by
    decide +kernel
  have lack : (SetupError.missingArgument "prefLabel" "text").IsLack := trivial
  exact ⟨valid, supplied, lack, execute_ne_of_isLack valid supplied lack _ _⟩

/-- Neither the text of a label nor the namespace of a template is asked for by the check, and without them
the run ends. -/
theorem execute_eq_of_lack :
    ((labelledEngine "people" "name").validate = .ok () ∧
      (labelledEngine "people" "name").execute [] adaDocument =
        .error (.setup (.missingArgument "prefLabel" "text"))) ∧
    (labelledEngine "persons" "text").validate = .ok () ∧
      (labelledEngine "persons" "text").execute [] adaDocument =
        .error (.setup (.unknownAlias "persons" "persons:")) := by
  simp only [← faultOf?_eq_some_iff]
  decide +kernel

end Engine

end Crosswalk
