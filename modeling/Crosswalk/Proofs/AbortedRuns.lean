import Crosswalk.Proofs.Aborting
import Crosswalk.Proofs.Generations
import Crosswalk.Proofs.ValidMappings

/-!
# What can end a run

Most of what goes wrong in a run only drops a part of the source. What ends the run is collected here: an
expression or a condition that cannot be read at a node, a literal with several types, and what a
mapping lacks. The latter is what the mapping is checked for, so of a valid mapping hardly anything of it
remains.
-/

namespace Crosswalk

open Crosswalk.Xml (Location)

/-! ## Reading the source -/

/-- The error says that something cannot be read from the source: an expression has no value, or there is
no vocabulary for a condition. -/
def RunError.IsReading : RunError → Prop
  | setup (.expression _ _) => True
  | vocabulary _ => True
  | _ => False

namespace Source

variable (src : Source) (node : Location) (expression : String)

/-- The error is about an expression. -/
abbrev Misreads (e : SetupError) : Prop :=
  (RunError.setup e).IsReading

theorem Misreads.exists_eq {e : SetupError} (h : Misreads e) : ∃ text fault, e = .expression text fault := by
  cases e with
  | expression text fault => exact ⟨text, fault, rfl⟩
  | _ => cases h

theorem evaluate_errs : ErrsOnly Misreads (src.evaluate node expression) :=
  .mapError fun _ _ => trivial

theorem select_errs : ErrsOnly Misreads (src.select node expression) := by
  refine .bind (src.evaluate_errs node expression) fun v => ?_
  split
  · exact .ok _
  · exact .error trivial

theorem scalar_errs : ErrsOnly Misreads (src.scalar node expression) :=
  .bind (src.evaluate_errs node expression) fun _ => .ok _

theorem scalarWithNode_errs : ErrsOnly Misreads (src.scalarWithNode node expression) := by
  refine .bind (src.evaluate_errs node expression) fun v => ?_
  split <;> exact .ok _

theorem merged_errs : ErrsOnly Misreads (src.merged node expression) := by
  refine .bind (src.evaluate_errs node expression) fun v => ?_
  split <;> exact .ok _

theorem hasValue_errs : ErrsOnly Misreads (src.hasValue node expression) := by
  refine .bind (src.evaluate_errs node expression) fun v => ?_
  split <;> exact .ok _

theorem joinKey_errs : ErrsOnly Misreads (src.joinKey expression node) := by
  refine .bind (src.scalar_errs node expression) fun key => ?_
  split
  · exact .ok _
  · split
    · exact src.scalar_errs _ _
    · exact .ok _

theorem indexNodes_errs (index : JoinIndex) (nodes : List Location) :
    ErrsOnly Misreads (src.indexNodes expression index nodes) := by
  induction nodes generalizing index with
  | nil => exact .ok _
  | cons n rest ih =>
    refine .bind (src.joinKey_errs n expression) fun key => ?_
    split
    · exact ih _
    · exact ih _

theorem joined_errs (cache : JoinCache) (name range value : String) :
    ErrsOnly Misreads (src.joined cache name node range expression value) := by
  rw [joined]
  split
  · exact .ok _
  · refine .bind (.bind (src.select_errs node range) fun nodes => ?_) fun _ => .ok _
    exact src.indexNodes_errs expression _ nodes

theorem readArgument_errs (position : Nat) (argument : Argument) (merged : Bool) :
    ErrsOnly RunError.IsReading (Run.readArgument src node position argument merged) := by
  rw [Run.readArgument]
  split
  · exact .ok _
  · exact .ok _
  · exact .map (.mapError (src.select_errs _ _))
  · split
    · exact .map (.mapError (src.merged_errs _ _))
    · exact .map (.mapError (src.scalarWithNode_errs _ _))

end Source

namespace Condition

variable (s : ConditionSetting) (node : Location)

theorem termFails_errs (c : Condition) (expression value : String)
    (terms : Vocabulary → String → List String) :
    ErrsOnly RunError.IsReading (termFails s node c expression value terms) := by
  have hrequire : ErrsOnly RunError.IsReading (s.require c) := by
    rw [ConditionSetting.require]
    split
    · exact .ok _
    · exact .error trivial
  exact .bind hrequire fun _ => .bind (.mapError (s.source.scalar_errs _ _)) fun _ => .ok _

mutual

theorem fails_errs : ∀ c : Condition, ErrsOnly RunError.IsReading (fails s node c)
  | .exists e => .map (.mapError (s.source.hasValue_errs node e))
  | .equals e _ => .map (.mapError (s.source.scalar_errs node e))
  | .broader e v => termFails_errs s node (.broader e v) e v _
  | .narrower e v => termFails_errs s node (.narrower e v) e v _
  | .exactMatch e v => termFails_errs s node (.exactMatch e v) e v _
  | .all cs => anyFails_errs cs
  | .any cs => allFail_errs cs
  | .not c => .map (fails_errs c)

theorem anyFails_errs : ∀ cs : List Condition, ErrsOnly RunError.IsReading (anyFails s node cs)
  | [] => .ok _
  | c :: rest => .bind (fails_errs c) fun b => by
    cases b
    · exact anyFails_errs rest
    · exact .ok _

theorem allFail_errs : ∀ cs : List Condition, ErrsOnly RunError.IsReading (allFail s node cs)
  | [] => .ok _
  | c :: rest => .bind (fails_errs c) fun b => by
    cases b
    · exact .ok _
    · exact allFail_errs rest

end

theorem guardFails_errs (condition? : Option Condition) :
    ErrsOnly RunError.IsReading (guardFails s node condition?) := by
  cases condition? with
  | some c => exact fails_errs s node c
  | none => exact .ok _

end Condition

/-! ## Writing -/

namespace Rdf

/-- The error is about a term. -/
def RefusesTerm (e : GraphError) : Prop :=
  ∃ value, e = .invalidTerm value

theorem iriTerm_errs (s : String) : ErrsOnly RefusesTerm (iriTerm s) := by
  rw [iriTerm]
  split
  · exact .ok _
  · exact .error ⟨s, rfl⟩

theorem objectTerm_errs (value : Value) : ErrsOnly RefusesTerm (objectTerm value) := by
  cases value with
  | uri s => exact .map (iriTerm_errs s)
  | literal t language? =>
    cases language? with
    | none => exact .ok _
    | some language =>
      rw [objectTerm]
      split
      · exact .ok _
      · exact .error ⟨language, rfl⟩
  | typed t datatype => exact .map (iriTerm_errs datatype)

theorem quad_errs (s : Statement) : ErrsOnly RefusesTerm s.quad := by
  obtain ⟨subject, predicate, object, graph?⟩ := s
  have hterms (graph? : Option Iri) : ErrsOnly RefusesTerm (do
      let subject ← iriTerm subject
      let predicate ← iriTerm predicate
      let object ← objectTerm object
      .ok (Quad.mk subject predicate object graph?)) :=
    .bind (iriTerm_errs _) fun _ => .bind (iriTerm_errs _) fun _ =>
      .bind (objectTerm_errs _) fun _ => .ok _
  cases graph? with
  | some g => exact .bind (.map (iriTerm_errs g)) hterms
  | none => exact hterms none

theorem add_errs (g : Graph) (batch : List Statement) : ErrsOnly RefusesTerm (g.add batch) :=
  .bind (.mapM fun s _ => quad_errs s) fun _ => .ok _

end Rdf

/-! ## What a mapping lacks -/

/-- What can end a run of an engine. -/
inductive Engine.Cause (engine : Engine) : RunError → Prop
  | reading {e : RunError} (h : e.IsReading) : Cause engine e
  | types (count : Nat) : Cause engine (.setup (.ambiguousTypes count))
  | name {name : String} {e : SetupError} (named : engine.mapping.Names name)
      (unknown : engine.namespaces.expand name = .error e) : Cause engine (.setup e)
  | call {call : GeneratorCall} {e : SetupError} (called : call ∈ engine.mapping.calls)
      (fails : engine.policy.Fails engine.namespaces call e) : Cause engine (.setup e)
  | untyped {e : Entity} (he : e ∈ engine.mapping.entities ++ engine.mapping.merged)
      (untyped : e.types = []) : Cause engine (.setup .missingType)
  | anonymous {e : Entity} (he : e ∈ engine.mapping.entities) (generator : e.generator? = none)
      (variableName : e.variableName? = none) (globalName : e.globalName? = none) :
    Cause engine (.setup .missingGenerator)
  | join {l : Link} {e : SetupError} (hl : l ∈ engine.mapping.links) (joins : l.source.isJoin = true)
      (malformed : l.source.join = .error e) : Cause engine (.setup e)

theorem Value.shape_errs (types : List String) (v : Value) :
    ErrsOnly (fun e => ∃ count, e = .ambiguousTypes count) (v.shape types) := by
  cases v with
  | uri iri => exact .ok _
  | literal t language? =>
    rcases types with _ | ⟨type, _ | ⟨other, rest⟩⟩
    · exact .error ⟨_, rfl⟩
    · exact .ok _
    · exact .error ⟨_, rfl⟩
  | typed t datatype =>
    rw [shape]
    split
    · exact .ok _
    · exact .error ⟨_, rfl⟩

theorem AbortsOnly.composes {P : RunError → Prop} : Run.Composes fun _ m => AbortsOnly P m :=
  ⟨.pure, .bind⟩

namespace Run

open Engine (Cause)

/-! ## Single steps -/

section

variable {α : Type} {P : RunError → Prop}

theorem ofSetup_aborts {r : Except SetupError α} (h : ErrsOnly (fun e => P (.setup e)) r) :
    AbortsOnly P (ofSetup r) := by
  cases r with
  | ok a => exact .pure a
  | error e => exact .abort (h e rfl)

theorem ofRunError_aborts {r : Except RunError α} (h : ErrsOnly P r) : AbortsOnly P (ofRunError r) := by
  cases r with
  | ok a => exact .pure a
  | error e => exact .abort (h e rfl)

theorem context_aborts (id : Nat) : AbortsOnly P (context id) :=
  .bind .get fun _ => .pure _

theorem generation_aborts {g : Generation α} (h : AbortsOnly P g) : AbortsOnly P (generation g) := by
  intro s e t hrun
  have houtcome := (outcome_generation g s).symm.trans hrun
  rcases hg : g.run ⟨s.uuids, []⟩ with ⟨r, u⟩
  rw [hg] at houtcome
  cases houtcome
  exact h _ _ _ hg

/-- Writing a batch only drops a step. -/
theorem commit_aborts (batch : Batch) : AbortsOnly P (commit batch) := by
  intro s e t h
  have hcommit := (outcome_commit batch s).symm.trans h
  rcases hadd : s.graph.add batch.statements with fault | graph <;> rw [hadd] at hcommit
  · obtain ⟨value, rfl⟩ := Rdf.add_errs s.graph batch.statements fault hadd
    cases hcommit
  · cases hcommit

theorem stage_aborts (batch : Batch) (id : Nat) (graph? : Option String) :
    AbortsOnly P (stage batch id graph?) := by
  intro s e t h
  cases (outcome_stage batch id graph? s).symm.trans h

theorem stageAll_aborts (batch : Batch) (graph? : Option String) (ids : List Nat) :
    AbortsOnly P (stageAll batch graph? ids) := by
  intro s e t h
  cases (outcome_stageAll batch graph? ids s).symm.trans h

theorem link_aborts (id : Nat) (graph? : Option String) : AbortsOnly P (link id graph?) :=
  .bind (stage_aborts _ _ _) fun batch => commit_aborts batch

theorem resolvedValues_aborts (ids : List Nat) : AbortsOnly P (ids.mapM resolvedValue?) := by
  intro s e t h
  cases (outcome_resolvedValues ids s).symm.trans h

/-- A step that is guarded ends the run only with the errors of the step. -/
theorem isolate_aborts {scene : Scene} {place : Place} {node : Location} {step : Run Unit}
    (h : AbortsOnly P step) : AbortsOnly P (isolate scene place node step) :=
  h.tryCatch (fun _ => .modify _) fun _ he => .abort he

end

variable {engine : Engine} {scene : Scene}

theorem discards_aborts (condition? : Option Condition) (node : Location) :
    AbortsOnly engine.Cause (discards scene condition? node) :=
  ofRunError_aborts ((Condition.guardFails_errs _ node condition?).mono fun _ => .reading)

variable (hscene : scene.engine = engine)

include hscene

theorem expand_aborts {name : String} (hname : engine.mapping.Names name) :
    AbortsOnly engine.Cause (ofSetup (scene.namespaces.expand name)) :=
  ofSetup_aborts fun e he => .name hname (by rw [← hscene]; exact he)

theorem expandAll_aborts {names : List String} (hnames : ∀ name ∈ names, engine.mapping.Names name) :
    AbortsOnly engine.Cause (expandAll scene names) :=
  ofSetup_aborts (.mapM fun name hname e he => .name (hnames name hname) (by rw [← hscene]; exact he))

theorem generate_aborts {call : GeneratorCall} (hcall : call ∈ engine.mapping.calls) (node : Location)
    (position : Nat) : AbortsOnly engine.Cause (generate scene call node position) := by
  refine generation_aborts (.generate (fun argument merged => ?_) fun e he => .call hcall ?_)
  · exact (scene.source.readArgument_errs node position argument merged).mono fun _ => .reading
  · rwa [← hscene]

/-! ## Entities -/

section

variable {e : Entity}

theorem firstValue_aborts (he : e ∈ engine.mapping.entities) (c : Context) (name : String) :
    AbortsOnly engine.Cause (firstValue scene e.generator? c name) := by
  cases hcall : e.generator? with
  | none => exact .drop _
  | some call => exact generate_aborts hscene (MappingDocument.generator_mem_calls he hcall) _ _

theorem globalValue_aborts (he : e ∈ engine.mapping.entities) (id : Nat) (name : String) :
    AbortsOnly engine.Cause (globalValue scene e.generator? id name) :=
  AbortsOnly.composes.globalValue .get (fun c => firstValue_aborts hscene he c name) (fun _ => .modify _) id

theorem variableValue_aborts (he : e ∈ engine.mapping.entities) (id : Nat) (name : String) :
    AbortsOnly engine.Cause (variableValue scene e.generator? id name) :=
  AbortsOnly.composes.variableValue .get (fun c => firstValue_aborts hscene he c name) fun _ => .modify _

theorem keyedValue_aborts (he : e ∈ engine.mapping.entities) (hvariable : e.variableName? = none)
    (hglobal : e.globalName? = none) (place : Place) (id : Nat) (types : List String) :
    AbortsOnly engine.Cause (keyedValue scene place e.generator? id types) := by
  refine AbortsOnly.composes.keyedValue .get (fun hcall => ?_) (fun call hcall => ?_) (fun _ _ => .modify _)
    place id types
  · exact .abort (.anonymous he hcall hvariable hglobal)
  · exact generate_aborts hscene (MappingDocument.generator_mem_calls he hcall)

theorem entityValue_aborts (place : Place) (he : e ∈ engine.mapping.entities) (id : Nat)
    (types : List String) : AbortsOnly engine.Cause (entityValue scene place e id types) := by
  rw [entityValue]
  split
  · exact globalValue_aborts hscene he id _
  · exact variableValue_aborts hscene he id _
  next hglobal hvariable => exact keyedValue_aborts hscene he hvariable hglobal place id types

theorem labels_aborts {calls : List GeneratorCall} (hcalls : ∀ call ∈ calls, call ∈ engine.mapping.calls)
    (c : Context) : AbortsOnly engine.Cause (labels scene c calls) := by
  refine AbortsOnly.composes.labels fun call hcall => ?_
  refine .tryCatch (.bind (generate_aborts hscene (hcalls call hcall) _ _) fun _ => .pure _)
    (fun cause => ?_) fun e he => .abort he
  dsimp only
  split
  · exact .pure _
  · exact .drop _

theorem resolveAdditionals_aborts {as : List (Attached Entity)}
    (hnames : ∀ a ∈ as, engine.mapping.Names a.relationship) {place : Place}
    (h : ∀ a ∈ as, ∀ id, AbortsOnly engine.Cause (resolveWith scene place id none a.entity))
    (owner : Nat) (c : Context) (value : Value) (k : Nat) :
    AbortsOnly engine.Cause (resolveAdditionals scene place owner c value k as) := by
  induction as generalizing k with
  | nil => exact .pure _
  | cons a rest ih =>
    obtain ⟨relationship, entity⟩ := a
    rw [List.forall_mem_cons] at hnames h
    rw [resolveAdditionals]
    exact .bind (expand_aborts hscene hnames.1) fun _ => .bind (.modifyGet _) fun id =>
      .bind (h.1 id) fun _ => .bind (ih hnames.2 h.2 (k + 1)) fun _ => .pure _

/-- An entity that has a value of its own, or is given one. -/
theorem resolveWith_aborts {identity? : Option Value}
    (he : e ∈ engine.mapping.entities ∨ identity?.isSome = true ∧ e ∈ engine.mapping.merged)
    (place : Place) (id : Nat) : AbortsOnly engine.Cause (resolveWith scene place id identity? e) := by
  induction e using Entity.induction generalizing identity? id with
  | step e ih =>
    have hmem : e ∈ engine.mapping.entities ++ engine.mapping.merged :=
      List.mem_append.2 (he.imp_right And.right)
    rw [resolveWith_eq]
    refine .bind (context_aborts id) fun c => ?_
    split
    · exact .pure _
    split
    next htypes => exact .abort (.untyped hmem (by simpa using htypes))
    have hvalue (types : List String) :
        AbortsOnly engine.Cause (shapedValue scene place e id types identity?) := by
      cases identity? with
      | some identity => exact .pure identity
      | none =>
        refine .bind (entityValue_aborts hscene place (he.resolve_right (by simp)) id types) fun v => ?_
        refine ofSetup_aborts ((v.shape_errs types).mono ?_)
        rintro _ ⟨count, rfl⟩
        exact .types count
    -- Also what is merged has additionals with values of their own.
    have hbelongings (value : Value) :
        AbortsOnly engine.Cause (belongings scene place e id c value) := by
      rw [belongings]
      split
      · have hattached (a : Attached Entity) (ha : a ∈ e.additionals) (id : Nat) :
            AbortsOnly engine.Cause (resolveWith scene place id none a.entity) :=
          ih a ha (.inl (MappingDocument.attached_mem_entities hmem ha)) id
        exact .bind (labels_aborts hscene (fun call => MappingDocument.label_mem_calls hmem) c)
          fun _ => .bind (resolveAdditionals_aborts hscene (fun a => .relationship hmem) hattached
            id c value 0) fun _ => .pure _
      · exact .pure _
    exact .bind (expandAll_aborts hscene fun name => .type hmem) fun types =>
      .bind (hvalue types) fun value => .bind (.modify _) fun _ =>
        .bind (hbelongings value) fun _ => .bind (.modify _) fun _ => .pure _

theorem resolve_aborts (he : e ∈ engine.mapping.entities) (place : Place) (id : Nat) :
    AbortsOnly engine.Cause (resolve scene place e id) :=
  resolveWith_aborts hscene (.inl he) place id

end

/-! ## Links -/

section

variable {l : LinkSetting}

omit hscene in
theorem misread_aborts {α : Type} {r : Except SetupError α} (h : ErrsOnly Source.Misreads r) :
    AbortsOnly engine.Cause (ofSetup r) :=
  ofSetup_aborts (h.mono fun _ => .reading)

omit hscene in
theorem joinedNodes_aborts (domainNode : Location) (expression key value : String) :
    AbortsOnly engine.Cause (joinedNodes l domainNode expression key value) :=
  .bind .get fun _ => .bind (misread_aborts (Source.joined_errs _ _ _ _ _ _ _)) fun _ =>
    .bind (.modify _) fun _ => .pure _

omit hscene in
theorem joinRanges_aborts (join : Join) (domainNode : Location) :
    AbortsOnly engine.Cause (joinRanges l join domainNode) :=
  AbortsOnly.composes.joinRanges (fun node expression => misread_aborts (Source.scalar_errs _ node expression))
    fun leg _ value => joinedNodes_aborts domainNode leg.1 leg.2 value

variable (hlscene : l.scene.engine = engine) (hl : l.link ∈ engine.mapping.links)

omit hscene
include hlscene hl

theorem linkMerge_aborts (hmerge : l.link.target.isMerge = true) (node : Location) (position : Nat) :
    AbortsOnly engine.Cause (linkMerge l node position) := by
  refine .bind (.modifyGet _) fun path => .bind (discards_aborts _ _) fun b => ?_
  split
  · exact .pure _
  refine .bind (.modifyGet _) fun range => .bind (discards_aborts _ _) fun b => ?_
  split
  · exact .pure _
  refine .bind (.bind (context_aborts _) fun _ => .pure _) fun identity? => ?_
  split
  · exact .pure _
  · have hrange := MappingDocument.range_mem_merged hl hmerge
    exact .bind (resolveWith_aborts hlscene (.inr ⟨rfl, hrange⟩) _ _) fun _ =>
      .bind (link_aborts _ _) fun _ => .modify _

variable (hmerge : l.link.target.isMerge = false)

include hmerge

theorem linkRange_aborts (path : Nat) (ids : List Nat) (node : Location) (position : Nat) :
    AbortsOnly engine.Cause (linkRange l path ids node position) := by
  refine .bind (.modifyGet _) fun range => .bind (discards_aborts _ _) fun b => ?_
  split
  · exact .pure _
  have hrange := MappingDocument.linked_mem_entities hl hmerge
    (List.mem_append_right _ (List.mem_singleton_self _))
  refine .bind (resolve_aborts hlscene hrange _ _) fun resolved => ?_
  refine .bind (.bind (context_aborts _) fun _ => .pure _) fun value? => ?_
  split
  · exact .pure _
  · exact .bind (expandAll_aborts hlscene fun name => .property hl hmerge) fun _ =>
      .bind (stage_aborts _ _ _) fun _ => .bind (stageAll_aborts _ _ _) fun _ =>
        .bind (resolvedValues_aborts _) fun _ => .bind (stage_aborts _ _ _) fun _ =>
          .bind (commit_aborts _) fun _ => .modify _

theorem linkRanges_aborts (path : Nat) (ids : List Nat) (position : Nat) (nodes : List Location) :
    AbortsOnly engine.Cause (linkRanges l path ids position nodes) := by
  induction nodes generalizing position with
  | nil => exact .pure _
  | cons node rest ih =>
    exact .bind (isolate_aborts (linkRange_aborts hlscene hl hmerge path ids node position)) fun _ =>
      ih (position + 1)

omit hl hmerge in
theorem intermediates_aborts (path : Nat) (node : Location) (position k : Nat) {entities : List Entity}
    (h : ∀ e ∈ entities, e ∈ engine.mapping.entities) :
    AbortsOnly engine.Cause (intermediates l path node position k entities) := by
  induction entities generalizing k with
  | nil => exact .pure _
  | cons entity rest ih =>
    rw [List.forall_mem_cons] at h
    refine .bind (.modifyGet _) fun id => .bind (.tryCatch (resolve_aborts hlscene h.1 _ _)
      (fun _ => .drop _) fun _ he => .abort he) fun resolved => ?_
    split
    · exact .bind (ih (k + 1) h.2) fun _ => .pure _
    · exact .drop _

theorem linkPath_aborts (joined : Bool) (node : Location) (position : Nat) :
    AbortsOnly engine.Cause (linkPath l joined node position) := by
  refine .bind (.modifyGet _) fun path => .bind (discards_aborts _ _) fun b => ?_
  split
  · exact .pure _
  have hbetween (e : Entity) (he : e ∈ l.link.target.entities) : e ∈ engine.mapping.entities :=
    MappingDocument.linked_mem_entities hl hmerge (List.mem_append_left _ he)
  refine .bind (intermediates_aborts hlscene path node position 0 hbetween) fun ids => ?_
  split
  · exact linkRanges_aborts hlscene hl hmerge path ids position [node]
  · exact .bind (misread_aborts (Source.select_errs _ _ _)) fun nodes =>
      linkRanges_aborts hlscene hl hmerge path ids 1 nodes

theorem linkPaths_aborts (joined : Bool) (position : Nat) (nodes : List Location) :
    AbortsOnly engine.Cause (linkPaths l joined position nodes) := by
  induction nodes generalizing position with
  | nil => exact .pure _
  | cons node rest ih =>
    exact .bind (isolate_aborts (linkPath_aborts hlscene hl hmerge joined node position)) fun _ =>
      ih (position + 1)

omit hmerge in
theorem followLink_aborts : AbortsOnly engine.Cause (followLink l) := by
  refine .bind (context_aborts _) fun domain => ?_
  split
  next hmerge => exact linkMerge_aborts hlscene hl hmerge _ _
  next hmerge =>
    rw [Bool.not_eq_true] at hmerge
    split
    next hjoin =>
      exact .bind (ofSetup_aborts fun e he => .join hl hjoin he) fun join =>
        .bind (joinRanges_aborts join _) fun nodes => linkPaths_aborts hlscene hl hmerge true 1 nodes
    next =>
      exact .bind (misread_aborts (Source.select_errs _ _ _)) fun nodes =>
        linkPaths_aborts hlscene hl hmerge false 1 nodes

end

theorem runLink_aborts {l : Link} (hl : l ∈ engine.mapping.links) (place : Place) (m : Mapping)
    (domain : Nat) (domainGraph? : Option String) :
    AbortsOnly engine.Cause (runLink scene place m domain domainGraph? l) := by
  have hfollow (linkGraph? : Option String) :=
    followLink_aborts (l := ⟨scene, place, m, l, domain, domainGraph?, linkGraph?⟩) hscene hl
  rw [runLink]
  refine .bind (.modify _) fun _ => ?_
  cases hname : l.graph? with
  | none => exact hfollow domainGraph?
  | some name =>
    simp only [pure_bind]
    exact .bind (expand_aborts hscene (.linkGraph hl hname)) fun graph => hfollow (some graph)

/-! ## Mappings -/

section

variable {m : Mapping} (hm : m ∈ engine.mapping.mappings) (hskip : m.skip = false)

include hm hskip

theorem runLinks_aborts (place : Place) (node : Location) (domain : Nat)
    (domainGraph? : Option String) (k : Nat) {ls : List Link} (hls : ls ⊆ m.links) :
    AbortsOnly engine.Cause (runLinks scene place m node domain domainGraph? k ls) := by
  induction ls generalizing place k with
  | nil => exact .pure _
  | cons l rest ih =>
    rw [List.cons_subset] at hls
    rw [runLinks]
    split
    · exact ih _ (k + 1) hls.2
    next hlskip =>
      have hl : l ∈ engine.mapping.links :=
        MappingDocument.mem_links.2 ⟨m, hm, hskip, hls.1, by simpa using hlskip⟩
      exact .bind (isolate_aborts (runLink_aborts hscene hl _ m domain domainGraph?)) fun _ =>
        ih _ (k + 1) hls.2

theorem domainGraph_aborts (mappingGraph? : Option String) (node : Location) (position : Nat) :
    AbortsOnly engine.Cause (domainGraph scene m mappingGraph? node position) :=
  AbortsOnly.composes.domainGraph mappingGraph? (fun _ hcall => generate_aborts hscene
    (MappingDocument.graphGenerator_mem_calls hm hskip hcall) node position) (.drop _)

theorem runDomain_aborts (place : Place) (mappingGraph? : Option String) (node : Location)
    (position : Nat) :
    AbortsOnly engine.Cause (runDomain scene place m mappingGraph? node position) := by
  refine .bind (.modify _) fun _ => .bind (.modifyGet _) fun domain =>
    .bind (discards_aborts _ _) fun b => ?_
  split
  · exact .modify _
  have hdomain := MappingDocument.domain_mem_entities hm hskip
  refine .bind (resolve_aborts hscene hdomain _ _) fun resolved => ?_
  split
  · exact .bind (domainGraph_aborts hscene hm hskip _ _ _) fun _ => .bind (link_aborts _ _) fun _ =>
      runLinks_aborts hscene hm hskip _ _ _ _ _ (List.Subset.refl _)
  · exact .drop _

theorem runDomains_aborts (place : Place) (mappingGraph? : Option String) (position : Nat)
    (nodes : List Location) :
    AbortsOnly engine.Cause (runDomains scene place m mappingGraph? position nodes) := by
  induction nodes generalizing position with
  | nil => exact .pure _
  | cons node rest ih =>
    refine .bind (.tryCatch (runDomain_aborts hscene hm hskip _ _ _ _) (fun cause => ?_)
      fun e he => .abort he) fun _ => ih (position + 1)
    exact .bind (.modify _) fun _ => .modify _

theorem runMapping_aborts (number : Nat) : AbortsOnly engine.Cause (runMapping scene number m) := by
  have hnodes (mappingGraph? : Option String) : AbortsOnly engine.Cause (do
      let nodes ← ofSetup (scene.source.select .root m.domain.sourceNode)
      count fun c => { c with domainsMatched := c.domainsMatched + nodes.length }
      runDomains scene ⟨number, none⟩ m mappingGraph? 1 nodes) :=
    .bind (misread_aborts (Source.select_errs _ _ _)) fun nodes => .bind (.modify _) fun _ =>
      runDomains_aborts hscene hm hskip _ _ _ _
  rw [runMapping]
  cases hname : m.graph? with simp only [pure_bind]
  | none => exact hnodes none
  | some name =>
    exact .bind (expand_aborts hscene (.mappingGraph hm hskip hname)) fun graph => hnodes (some graph)

end

theorem runMappings_aborts (k : Nat) {ms : List Mapping} (hms : ms ⊆ engine.mapping.mappings) :
    AbortsOnly engine.Cause (runMappings scene k ms) := by
  induction ms generalizing k with
  | nil => exact .pure _
  | cons m rest ih =>
    rw [List.cons_subset] at hms
    rw [runMappings]
    cases hskip : m.skip with
    | true => exact ih (k + 1) hms.2
    | false => exact .bind (runMapping_aborts hscene hms.1 hskip k) fun _ => ih (k + 1) hms.2

end Run

namespace Engine

variable {engine : Engine}

/-- A run of a valid mapping ends early only for one of the causes. -/
theorem cause_of_execute (valid : engine.validate = .ok ()) {seed : List UInt8}
    {document : Xml.Document} {e : RunError} (h : engine.execute seed document = .error e) :
    engine.Cause e := by
  rw [execute, valid] at h
  dsimp only at h
  split at h
  · cases h
  next hrun =>
    cases h
    have haborts : AbortsOnly engine.Cause
        (Run.runMappings ⟨engine, engine.source document⟩ 1 engine.mapping.mappings) :=
      Run.runMappings_aborts rfl 1 (List.Subset.refl _)
    exact haborts _ _ _ hrun
  · cases h

end Engine

end Crosswalk
