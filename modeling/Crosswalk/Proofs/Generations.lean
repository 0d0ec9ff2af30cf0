import Crosswalk.Proofs.Reading

/-!
# What a generation depends on

A generation reads arguments and may draw identifiers. Most calls draw none: only the generator of
fresh UUIDs and the templates that end in one do. Such a call gives the same result in every state
and leaves the state as it is, so that one can speak of the value of a call at a node. What a call
reads are its own arguments, so the position of a node only matters to a call that asks for it.
-/

namespace Crosswalk

open Crosswalk.Generation

/-! ## Generations that draw nothing -/

/-- The generation has one result, whatever was drawn before, and draws nothing itself. -/
def Generation.IsSteady {α : Type} (g : Generation α) : Prop :=
  ∃ r : Except Fault α, ∀ s : GenerationState, ∃ asked, g.run s = (r, ⟨s.uuids, asked⟩)

namespace Generation.IsSteady

variable {α β : Type} {g : Generation α} {f : α → Generation β}

theorem pure (a : α) : IsSteady (Pure.pure a) :=
  ⟨.ok a, fun s => ⟨s.asked, rfl⟩⟩

theorem throw (e : Fault) : IsSteady (throw e : Generation α) :=
  ⟨.error e, fun s => ⟨s.asked, rfl⟩⟩

theorem ofSetup (r : Except SetupError α) : IsSteady (ofSetup r) := by
  cases r with
  | ok a => exact pure a
  | error e => exact throw _

theorem bind (hg : g.IsSteady) (hf : ∀ a, (f a).IsSteady) : (g >>= f).IsSteady := by
  obtain ⟨r, hr⟩ := hg
  have hbind (s : GenerationState) : (g >>= f).run s = ExceptT.bindCont f (g.run s).1 (g.run s).2 :=
    rfl
  cases r with
  | error e =>
    refine ⟨.error e, fun s => ?_⟩
    obtain ⟨asked, hs⟩ := hr s
    exact ⟨asked, by rw [hbind, hs]; rfl⟩
  | ok a =>
    obtain ⟨r', hr'⟩ := hf a
    refine ⟨r', fun s => ?_⟩
    obtain ⟨asked, hs⟩ := hr s
    obtain ⟨asked', hs'⟩ := hr' ⟨s.uuids, asked⟩
    exact ⟨asked', by rw [hbind, hs]; exact hs'⟩

theorem ask (reader : ArgumentReader) (argument : Argument) (merged : Bool) :
    IsSteady (ask reader argument merged) := by
  refine bind ⟨.ok (), fun s => ⟨_, rfl⟩⟩ fun _ => ?_
  split
  · exact pure _
  · exact throw _

end Generation.IsSteady

section

variable {setting : GeneratorSetting} {reader : ArgumentReader} {call : GeneratorCall}

theorem isSteady_required (name : String) : (required reader call name).IsSteady :=
  .bind (.ofSetup _) fun _ => .ask ..

theorem isSteady_literalLanguage (inherited? : Option String) :
    (literalLanguage setting reader call inherited?).IsSteady := by
  rw [literalLanguage]
  split
  · exact .bind (.ask ..) fun _ => .pure _
  · exact .pure _

theorem isSteady_generateLiteral : (generateLiteral setting reader call).IsSteady := by
  refine .bind (isSteady_required _) fun text => ?_
  split
  · exact .throw _
  · exact .bind (isSteady_literalLanguage _) fun _ => .pure _

theorem isSteady_generateBuiltIn {b : BuiltIn} (h : b ≠ .freshUuid) :
    (generateBuiltIn setting reader call b).IsSteady := by
  cases b with
  | freshUuid => exact absurd rfl h
  | literal => exact isSteady_generateLiteral
  | preferredLabel => exact isSteady_generateLiteral
  | constant => exact .bind (.ofSetup _) fun _ => .bind (isSteady_literalLanguage _) fun _ => .pure _
  | graphUri => exact .bind (isSteady_required _) fun _ => .pure _

theorem isSteady_fill (encode : String → String) (pieces : List Template.Piece) :
    (fill reader call encode pieces).IsSteady := by
  induction pieces with
  | nil => exact .pure _
  | cons piece rest ih =>
    cases piece with
    | char c => exact .bind ih fun _ => .pure _
    | hole name =>
      refine .bind (isSteady_required _) fun v => ?_
      split
      · exact .throw _
      · exact .bind ih fun _ => .pure _

theorem isSteady_substitute (encode : String → String) (template : String) :
    (substitute reader call encode template).IsSteady :=
  .bind (isSteady_fill encode _) fun _ => .pure _

theorem isSteady_generateUri {spec : GeneratorSpec} (h : spec.shorten = true ∨ spec.uuid = false)
    (space template : String) :
    (generateUri setting reader call spec space template).IsSteady := by
  refine .bind (isSteady_substitute _ _) fun filled => .bind ?_ fun base => ?_
  · rw [localPart]
    split
    · exact .pure _
    next hshorten =>
      rw [if_neg (by simpa using h.resolve_left hshorten)]
      exact .pure _
  · split
    · exact .pure _
    · exact .bind (.ofSetup _) fun _ => .pure _

theorem isSteady_generateText (template : String) :
    (generateText setting reader call template).IsSteady :=
  .bind (isSteady_substitute _ _) fun _ => .bind (isSteady_literalLanguage _) fun _ => .pure _

theorem isSteady_handOver (className : String) (cls : CustomClass) (arguments : List Argument)
    (input : CustomInput) : (handOver reader className cls arguments input).IsSteady := by
  induction arguments generalizing input with
  | nil => exact .pure _
  | cons argument rest ih =>
    refine .bind (.ask ..) fun v => ?_
    split
    · exact ih _
    · split
      · exact .throw _
      · exact ih _

theorem isSteady_generateCustom (spec : GeneratorSpec) (className : String) (cls : CustomClass) :
    (generateCustom setting reader call spec className cls).IsSteady := by
  refine .bind (isSteady_handOver _ _ _ _) fun input => ?_
  split
  · rw [customValue]
    split
    · exact .pure _
    · split
      · split
        · exact .bind (.ofSetup _) fun _ => .pure _
        · exact .pure _
      · exact .pure _
    · split
      · exact .throw _
      · exact .pure _
  · exact .throw _

end

/-! ## Calls that draw nothing -/

namespace GeneratorPolicy

/-- Whether a call may draw an identifier. -/
def draws (policy : GeneratorPolicy) (call : GeneratorCall) : Bool :=
  match BuiltIn.ofName? call.name with
  | some builtIn => builtIn == .freshUuid
  | none =>
    match policy.get? call.name with
    | some ⟨_, some _, false, true, .pattern _⟩ => true
    | _ => false

/-- Whether the values of a call are literals: those of the generators for literals, and of templates
without a namespace. -/
def yieldsText (policy : GeneratorPolicy) (call : GeneratorCall) : Bool :=
  match BuiltIn.ofName? call.name with
  | some builtIn => builtIn == .literal || builtIn == .preferredLabel || builtIn == .constant
  | none =>
    match policy.get? call.name with
    | some ⟨_, none, _, _, .pattern _⟩ => true
    | _ => false

variable {policy : GeneratorPolicy} {call : GeneratorCall}

theorem draws_of_yieldsText (h : policy.yieldsText call = true) : policy.draws call = false := by
  rw [yieldsText] at h
  rw [draws]
  split at h
  next b hb =>
    cases b <;> simp_all
  next hb =>
    split at h
    next hspec => rw [hspec]
    next => cases h

theorem isSteady_generate (h : policy.draws call = false) (setting : GeneratorSetting)
    (reader : ArgumentReader) : (policy.generate setting reader call).IsSteady := by
  rw [draws] at h
  rw [generate]
  cases hb : BuiltIn.ofName? call.name with
  | some b =>
    rw [hb] at h
    exact isSteady_generateBuiltIn (by simpa using h)
  | none =>
    rw [hb] at h
    dsimp only at h ⊢
    rw [specOf]
    cases hspec : policy.get? call.name with
    | none => exact .throw _
    | some spec =>
      rw [hspec] at h
      obtain ⟨name, space?, shorten, uuid, body⟩ := spec
      have hspec (f : GeneratorSpec → Generation Value) :
          ofSetup (.ok ⟨name, space?, shorten, uuid, body⟩) >>= f = f ⟨name, space?, shorten, uuid, body⟩ :=
        rfl
      rw [hspec]
      cases body with
      | custom className =>
        dsimp only
        split
        · exact isSteady_generateCustom _ _ _
        · exact .throw _
      | pattern template =>
        cases space? with
        | none => exact isSteady_generateText template
        | some space =>
          refine isSteady_generateUri ?_ space template
          cases shorten <;> cases uuid <;> simp_all

end GeneratorPolicy

/-! ## What a call reads -/

section

variable {setting : GeneratorSetting} {reader reader' : ArgumentReader} {call : GeneratorCall}

/-- The readers agree on the arguments of a call. -/
def GeneratorCall.Agrees (call : GeneratorCall) (reader reader' : ArgumentReader) : Prop :=
  ∀ a ∈ call.arguments, ∀ merged, reader a merged = reader' a merged

variable (h : call.Agrees reader reader')

include h

theorem ask_congr {a : Argument} {name : String} (ha : call.argument? name = some a) (merged : Bool) :
    ask reader a merged = ask reader' a merged := by
  rw [ask, ask, h a (List.mem_of_find?_eq_some ha) merged]

theorem required_congr (name : String) : required reader call name = required reader' call name := by
  rw [required, required, GeneratorCall.require]
  cases ha : call.argument? name with
  | none => rfl
  | some a => exact ask_congr h ha false

theorem literalLanguage_congr (inherited? : Option String) :
    literalLanguage setting reader call inherited? =
      literalLanguage setting reader' call inherited? := by
  rw [literalLanguage, literalLanguage]
  cases ha : call.argument? "language" with
  | none => rfl
  | some a =>
    dsimp only
    rw [ask_congr h ha]

theorem generateBuiltIn_congr (b : BuiltIn) :
    generateBuiltIn setting reader call b = generateBuiltIn setting reader' call b := by
  cases b <;> simp only [generateBuiltIn, generateLiteral, generateConstant, required_congr h,
    literalLanguage_congr h]

theorem fill_congr (encode : String → String) (pieces : List Template.Piece) :
    fill reader call encode pieces = fill reader' call encode pieces := by
  induction pieces with
  | nil => rfl
  | cons piece rest ih =>
    cases piece with
    | char c => rw [fill, fill, ih]
    | hole name => rw [fill, fill, ih, required_congr h]

theorem handOver_congr (className : String) (cls : CustomClass) {arguments : List Argument}
    (harguments : arguments ⊆ call.arguments) (input : CustomInput) :
    handOver reader className cls arguments input =
      handOver reader' className cls arguments input := by
  induction arguments generalizing input with
  | nil => rfl
  | cons a rest ih =>
    obtain ⟨ha, hrest⟩ := List.cons_subset.1 harguments
    simp only [handOver, ask, h a ha, ih hrest]

/-- A generation only depends on what the arguments of its call are read as. -/
theorem GeneratorPolicy.generate_congr (policy : GeneratorPolicy) :
    policy.generate setting reader call = policy.generate setting reader' call := by
  have hcustom (className : String) (cls : CustomClass) :=
    handOver_congr h className cls (List.Subset.refl call.arguments)
  simp only [generate, generateBuiltIn_congr h, generateCustom, hcustom, generateUri, generateText,
    substitute, fill_congr h, literalLanguage_congr h]

end

/-- Whether a call asks for the place of its node among those selected with it. -/
def GeneratorCall.asksPosition (call : GeneratorCall) : Bool :=
  call.arguments.any fun a => a.source == .position

namespace Run

open Crosswalk.Xml (Location)

variable {scene : Scene} {call : GeneratorCall} {node : Location} {position : Nat} {s t : RunState}

/-- The value of a call at a node, when it is generated in a state. -/
def generated (scene : Scene) (call : GeneratorCall) (node : Location) (position : Nat)
    (s : RunState) : Except Fault Value :=
  (outcome (generate scene call node position) s).1

theorem outcome_generation {α : Type} (g : Generation α) (s : RunState) :
    outcome (generation g) s =
      ((g.run ⟨s.uuids, []⟩).1, { s with uuids := (g.run ⟨s.uuids, []⟩).2.uuids }) := rfl

/-- A call that draws nothing has one value at a node, and leaves every state as it is. -/
theorem exists_outcome_generate (h : scene.engine.policy.draws call = false) (node : Location)
    (position : Nat) :
    ∃ r, ∀ s, outcome (generate scene call node position) s = (r, s) := by
  obtain ⟨r, hr⟩ := GeneratorPolicy.isSteady_generate h scene.engine.generatorSetting
    (readArgument scene.source node position)
  refine ⟨r, fun s => ?_⟩
  obtain ⟨asked, hs⟩ := hr ⟨s.uuids, []⟩
  rw [generate, outcome_generation, hs]

theorem outcome_generate (h : scene.engine.policy.draws call = false) (s : RunState) :
    outcome (generate scene call node position) s = (generated scene call node position s, s) := by
  obtain ⟨r, hr⟩ := exists_outcome_generate h node position
  rw [generated, hr]

theorem generated_congr (h : scene.engine.policy.draws call = false) (s t : RunState) :
    generated scene call node position s = generated scene call node position t := by
  obtain ⟨r, hr⟩ := exists_outcome_generate h node position
  rw [generated, generated, hr, hr]

/-- The position of a node does not matter to a call that does not ask for it. -/
theorem generate_position (h : call.asksPosition = false) (node : Location) (position other : Nat) :
    generate scene call node position = generate scene call node other := by
  rw [generate, generate]
  refine congrArg _ (GeneratorPolicy.generate_congr (fun a ha merged => ?_) _)
  have hsource : a.source ≠ .position := by
    rw [GeneratorCall.asksPosition, List.any_eq_false] at h
    simpa using h a ha
  rw [readArgument, readArgument]
  cases hs : a.source with
  | position => exact absurd hs hsource
  | _ => rfl

/-- The graph of a domain node only depends on what has been drawn. -/
theorem domainGraph_congr {scene : Scene} {m : Mapping} {mappingGraph? : Option String}
    {node : Location} {position : Nat} (h : t.uuids = s.uuids) :
    (outcome (domainGraph scene m mappingGraph? node position) t).1 =
        (outcome (domainGraph scene m mappingGraph? node position) s).1 ∧
      (after (domainGraph scene m mappingGraph? node position) t).uuids =
        (after (domainGraph scene m mappingGraph? node position) s).uuids := by
  rw [after, after, domainGraph]
  split
  next call _ =>
    simp only [generatedGraph, generate, outcome_bind, outcome_generation, h]
    generalize ExceptT.run (scene.engine.policy.generate _ _ call) (⟨s.uuids, []⟩ : GenerationState) = made
    obtain ⟨e | v, drawn⟩ := made
    · exact ⟨rfl, rfl⟩
    · cases v <;> exact ⟨rfl, rfl⟩
  next => exact ⟨rfl, h⟩

end Run

end Crosswalk
