import Crosswalk.Proofs.PairedSteps
import Crosswalk.Proofs.ValidMappings
import Crosswalk.Proofs.WholeRuns

/-!
# Types in another order

An entity lists its types, and no reader of the list minds its order: a key sorts them, the shape of a literal
looks at how many there are, and a batch takes them all or none. So a mapping may list the types of its
entities in any order, of those of its domains, of what is in between, of its ranges and of what is attached to
any of these, and a run of it comes to the same.

The runs of two such mappings are followed side by side. Most of this is a congruence, function by function
from the entities up to the mappings. The types themselves matter in one function only, `resolveFresh`: there the
names expand to the same IRIs in another order, the value is the same one, and what is resolved is described by
the same statements.
-/

namespace Crosswalk

open Crosswalk.Xml (Location)

/-! ## Mappings that list types in another order -/

/-- The same description, with the types in another order, and those of what is attached to it. -/
inductive Entity.Retyped : Entity → Entity → Prop
  | intro {e e' : Entity} (types : e.types.Perm e'.types) (generator?_eq : e.generator? = e'.generator?)
      (labels_eq : e.labels = e'.labels)
      (relationships_eq : e.additionals.map (·.relationship) = e'.additionals.map (·.relationship))
      (additionals : ∀ p ∈ e.additionals.zip e'.additionals, Retyped p.1.entity p.2.entity)
      (variableName?_eq : e.variableName? = e'.variableName?)
      (globalName?_eq : e.globalName? = e'.globalName?) : Retyped e e'

structure Target.Retyped (t t' : Target) : Prop where
  entity : t.entity.Retyped t'.entity
  condition?_eq : t.condition? = t'.condition?

structure Domain.Retyped (d d' : Domain) : Prop where
  sourceNode_eq : d.sourceNode = d'.sourceNode
  target : d.target.Retyped d'.target
  graphGenerator?_eq : d.graphGenerator? = d'.graphGenerator?

structure TargetRelation.Retyped (t t' : TargetRelation) : Prop where
  condition?_eq : t.condition? = t'.condition?
  relationships_eq : t.relationships = t'.relationships
  entities : List.Forall₂ Entity.Retyped t.entities t'.entities

structure Range.Retyped (r r' : Range) : Prop where
  sourceNode_eq : r.sourceNode = r'.sourceNode
  target : r.target.Retyped r'.target

structure Link.Retyped (l l' : Link) : Prop where
  source_eq : l.source = l'.source
  target : l.target.Retyped l'.target
  range : l.range.Retyped l'.range
  graph?_eq : l.graph? = l'.graph?
  skip_eq : l.skip = l'.skip

structure Mapping.Retyped (m m' : Mapping) : Prop where
  domain : m.domain.Retyped m'.domain
  links : List.Forall₂ Link.Retyped m.links m'.links
  graph?_eq : m.graph? = m'.graph?
  skip_eq : m.skip = m'.skip

structure MappingDocument.Retyped (d d' : MappingDocument) : Prop where
  namespaces_eq : d.namespaces = d'.namespaces
  mappings : List.Forall₂ Mapping.Retyped d.mappings d'.mappings

/-- Whether a link merges its range does not depend on the types of what is in between. -/
theorem TargetRelation.Retyped.isMerge_eq {t t' : TargetRelation} (h : t.Retyped t') :
    t.isMerge = t'.isMerge := by
  rw [isMerge, isMerge, h.relationships_eq]
  have hentities := h.entities
  generalize t.entities = entities, t'.entities = entities' at hentities
  cases hentities with
  | nil => rfl
  | cons => rfl

/-! ## Types -/

variable {types types' : List String}

theorem isOwnLiteral_eq_of_perm (h : types.Perm types') : isOwnLiteral types = isOwnLiteral types' := by
  rw [isOwnLiteral, isOwnLiteral, h.contains_eq, h.contains_eq]

/-- A key is the same whatever the order of the types. -/
theorem cacheKey_eq_of_perm (source : Source) (place : Place) {c c' : Context} (hc : c.Matches c')
    (h : types.Perm types') : cacheKey source place c types = cacheKey source place c' types' := by
  rw [cacheKey, cacheKey, literalKeyText, literalKeyText, Text.sorted_eq_of_perm h, isOwnLiteral_eq_of_perm h,
    hc.node_eq, hc.role_eq, hc.position_eq, hc.discriminator?_eq]

theorem Value.shape_literal_of_length_ne {t : String} {language? : Option String} (h : types.length ≠ 1) :
    (Value.literal t language?).shape types = .error (.ambiguousTypes types.length) := by
  cases types with
  | nil => rfl
  | cons type rest =>
    cases rest with
    | nil => exact absurd rfl h
    | cons => rfl

/-- A list of one type has no other order, and otherwise only the number of types matters. -/
theorem Value.shape_eq_of_perm (v : Value) (h : types.Perm types') : v.shape types = v.shape types' := by
  cases v with
  | uri iri => rfl
  | typed t datatype => rw [shape, shape, h.length_eq]
  | literal t language? =>
    by_cases hone : types.length = 1
    · obtain ⟨type, rfl⟩ := List.length_eq_one_iff.1 hone
      rw [h.singleton_eq]
    · rw [shape_literal_of_length_ne hone, shape_literal_of_length_ne (h.length_eq ▸ hone), h.length_eq]

/-! ## Entities -/

/-- The engine with other mappings. -/
def Engine.applying (engine : Engine) (ms : List Mapping) : Engine :=
  { engine with mapping := { engine.mapping with mappings := ms } }

def Scene.applying (scene : Scene) (ms : List Mapping) : Scene :=
  { scene with engine := scene.engine.applying ms }

namespace Run

variable {scene : Scene} {ms : List Mapping} {c c' : Context}

theorem generate_matches (call : GeneratorCall) (node : Location) (position : Nat) :
    Matches Eq (generate scene call node position) (generate (scene.applying ms) call node position) :=
  generation_matches _

theorem expandAll_matches (names : List String) :
    Matches Eq (expandAll scene names) (expandAll (scene.applying ms) names) :=
  .ofSetup rfl

/-- The names of types expand to the same IRIs in whatever order they are. -/
theorem expandAll_matches_of_perm (h : types.Perm types') :
    Matches List.Perm (expandAll scene types) (expandAll (scene.applying ms) types') := by
  intro s s' hs
  rw [expandAll, expandAll, outcome_ofSetup, outcome_ofSetup]
  change EndAlike _ ((types.mapM scene.namespaces.expand).mapError Fault.setup, s)
    ((types'.mapM scene.namespaces.expand).mapError Fault.setup, s')
  rcases hiris : types.mapM scene.namespaces.expand with e | iris
  · rcases hiris' : types'.mapM scene.namespaces.expand with e' | iris'
    · exact .abort (.setup e) (.setup e') s s'
    · obtain ⟨_, habsurd, -⟩ := exists_mapM_of_perm h.symm hiris'
      cases hiris.symm.trans habsurd
  · obtain ⟨iris', hiris', hperm⟩ := exists_mapM_of_perm h hiris
    rw [hiris']
    exact .ok hperm hs

theorem associate_matches (node : Location) (value : Value) :
    Matches Eq (associate scene node value) (associate (scene.applying ms) node value) :=
  .modify fun _ _ hs => { hs with
    associations_eq := congrArg (·.record ⟨scene.source.path node, value.text⟩) hs.associations_eq }

theorem label?_matches (call : GeneratorCall) (hc : c.Matches c') :
    Matches Eq (label? scene call c) (label? (scene.applying ms) call c') := by
  rw [label?, label?, hc.node_eq, hc.position_eq]
  refine .tryCatch ((generate_matches _ _ _).bind_eq fun v => .pure rfl) (fun cause cause' h => ?_)
    (fun _ => rfl) (fun _ => rfl)
  exact .ite h.leavesOutLabel_eq (.pure rfl) fun s s' hs => .drop h hs

theorem labels_matches (hc : c.Matches c') (calls : List GeneratorCall) :
    Matches Eq (labels scene c calls) (labels (scene.applying ms) c' calls) := by
  induction calls with
  | nil => exact .pure rfl
  | cons call rest ih => exact (label?_matches call hc).bind_eq fun label => ih.bind_eq fun others => .pure rfl

/-! ### Values -/

theorem firstValue_matches (generator? : Option GeneratorCall) (hc : c.Matches c') (name : String) :
    Matches Eq (firstValue scene generator? c name) (firstValue (scene.applying ms) generator? c' name) := by
  cases generator? with
  | none => exact .drop _
  | some call =>
    rw [firstValue, firstValue, hc.node_eq, hc.position_eq]
    exact generate_matches call _ _

theorem globalValue_matches (generator? : Option GeneratorCall) (id : Nat) (name : String) :
    Matches Eq (globalValue scene generator? id name) (globalValue (scene.applying ms) generator? id name) := by
  rw [globalValue, globalValue]
  refine Matches.get.bind fun s s' hs => ?_
  rw [hs.globals_eq]
  cases s'.globals.get? name with
  | some value => exact .pure rfl
  | none =>
    refine (context_matches id).bind fun c c' hc => (firstValue_matches _ hc name).bind_eq fun value => ?_
    refine Matches.bind_eq (.modify fun t t' ht => ?_) fun _ => .pure rfl
    exact { ht with globals_eq := congrArg (·.insert name value) ht.globals_eq }

theorem variableValue_matches (generator? : Option GeneratorCall) (id : Nat) (name : String) :
    Matches Eq (variableValue scene generator? id name)
      (variableValue (scene.applying ms) generator? id name) := by
  rw [variableValue, variableValue]
  refine Matches.get.bind fun s s' hs => ?_
  rw [hs.contexts.lookup?_eq]
  cases s'.contexts.lookup? id name with
  | some value => exact .pure rfl
  | none =>
    refine (context_matches id).bind fun c c' hc => (firstValue_matches _ hc name).bind_eq fun value => ?_
    refine Matches.bind_eq (.modify fun t t' ht => ?_) fun _ => .pure rfl
    exact { ht with contexts := ht.contexts.bind id name value }

theorem keyedValue_matches (place : Place) (generator? : Option GeneratorCall) (id : Nat)
    (h : types.Perm types') :
    Matches Eq (keyedValue scene place generator? id types)
      (keyedValue (scene.applying ms) place generator? id types') := by
  cases generator? with
  | none => exact .abort _ _
  | some call =>
    rw [keyedValue, keyedValue]
    refine (context_matches id).bind fun c c' hc => Matches.get.bind fun s s' hs => ?_
    have hkey : cacheKey scene.source place c types = cacheKey (scene.applying ms).source place c' types' :=
      cacheKey_eq_of_perm scene.source place hc h
    rw [hs.cache_eq, hkey]
    generalize cacheKey (scene.applying ms).source place c' types' = key
    cases s'.cache.get? key with
    | some value => exact .pure rfl
    | none =>
      rw [hc.node_eq, hc.position_eq]
      refine (generate_matches call _ _).bind_eq fun value => ?_
      refine Matches.bind_eq (.modify fun t t' ht => ?_) fun _ => .pure rfl
      exact { ht with cache_eq := congrArg (·.insert key value) ht.cache_eq }

/-! ### Descriptions -/

/-- Two descriptions that come to the same wherever they are resolved. -/
def ResolvedAlike (scene : Scene) (ms : List Mapping) (e e' : Entity) : Prop :=
  ∀ place id identity?, Matches Resolved.Matches (resolveWith scene place id identity? e)
    (resolveWith (scene.applying ms) place id identity? e')

theorem additionalContext_matches (hc : c.Matches c') (owner : Nat) (value : Value) (k : Nat)
    (relationship : String) :
    (additionalContext c owner value k relationship).Matches
      (additionalContext c' owner value k relationship) := by
  rw [additionalContext, additionalContext, hc.node_eq, hc.position_eq]
  exact .refl_of_none rfl

theorem resolveAdditionals_matches {as as' : List (Attached Entity)}
    (h : AttachedAlike (ResolvedAlike scene ms) as as') (place : Place) (owner : Nat) (hc : c.Matches c')
    (value : Value) (k : Nat) :
    Matches (AttachedAlike Resolved.Matches) (resolveAdditionals scene place owner c value k as)
      (resolveAdditionals (scene.applying ms) place owner c' value k as') := by
  induction h generalizing k with
  | nil => exact .pure .nil
  | @cons a a' rest rest' ha _ ih =>
    obtain ⟨relationship, e⟩ := a
    obtain ⟨_, e'⟩ := a'
    obtain ⟨rfl, he⟩ := ha
    rw [resolveAdditionals, resolveAdditionals]
    refine (Matches.ofSetup rfl).bind_eq fun property => ?_
    refine (enter_matches (additionalContext_matches hc owner value k property)).bind_eq fun id => ?_
    refine (he place id none).bind fun r r' hr => (ih (k + 1)).bind fun others others' hothers => ?_
    exact .pure (.cons ⟨rfl, hr⟩ hothers)

section

variable {e e' : Entity} (hgenerator : e.generator? = e'.generator?)
  (hvariable : e.variableName? = e'.variableName?) (hglobal : e.globalName? = e'.globalName?)

include hgenerator hvariable hglobal

theorem entityValue_matches (place : Place) (id : Nat) (h : types.Perm types') :
    Matches Eq (entityValue scene place e id types) (entityValue (scene.applying ms) place e' id types') := by
  rw [entityValue, entityValue, hgenerator, hvariable, hglobal]
  split
  · exact globalValue_matches _ id _
  · exact variableValue_matches _ id _
  · exact keyedValue_matches place _ id h

theorem shapedValue_matches (place : Place) (id : Nat) (h : types.Perm types') (identity? : Option Value) :
    Matches Eq (shapedValue scene place e id types identity?)
      (shapedValue (scene.applying ms) place e' id types' identity?) := by
  cases identity? with
  | some identity => exact .pure rfl
  | none =>
    refine (entityValue_matches hgenerator hvariable hglobal place id h).bind_eq fun generated => ?_
    rw [generated.shape_eq_of_perm h]
    exact .ofSetup rfl

omit hgenerator hvariable hglobal in
theorem belongings_matches (hlabels : e.labels = e'.labels)
    (hattached : AttachedAlike (ResolvedAlike scene ms) e.additionals e'.additionals) (place : Place) (id : Nat)
    (hc : c.Matches c') (value : Value) :
    Matches (fun p p' => p.1 = p'.1 ∧ AttachedAlike Resolved.Matches p.2 p'.2)
      (belongings scene place e id c value) (belongings (scene.applying ms) place e' id c' value) := by
  rw [belongings, belongings, ← hlabels]
  refine .ite rfl ?_ (.pure ⟨rfl, .nil⟩)
  refine (labels_matches hc e.labels).bind_eq fun labels => ?_
  refine (resolveAdditionals_matches hattached place id hc value 0).bind fun attached attached' h => ?_
  exact .pure ⟨rfl, h⟩

/-- All that an entity is resolved to, once what is attached to it comes to the same. -/
theorem resolvedAlike_of (htypes : e.types.Perm e'.types) (hlabels : e.labels = e'.labels)
    (hattached : AttachedAlike (ResolvedAlike scene ms) e.additionals e'.additionals) :
    ResolvedAlike scene ms e e' := by
  intro place id identity?
  rw [resolveWith_eq, resolveWith_eq]
  refine (context_matches id).bind fun c c' hc => ?_
  have hresolved := hc.resolved?
  generalize c.resolved? = r?, c'.resolved? = r'? at hresolved
  cases hresolved with
  | some hr => exact .pure hr
  | none =>
    refine .ite htypes.isEmpty_eq (.abort _ _) ?_
    rw [resolveFresh, resolveFresh, hc.node_eq]
    refine (expandAll_matches_of_perm htypes).bind fun iris iris' hiris => ?_
    refine (shapedValue_matches hgenerator hvariable hglobal place id hiris identity?).bind_eq fun value => ?_
    refine (associate_matches _ value).bind_eq fun _ => ?_
    refine (belongings_matches hlabels hattached place id hc value).bind ?_
    rintro ⟨labels, attached⟩ ⟨_, attached'⟩ ⟨rfl, hattached⟩
    -- From here on the order of the types is in the state, and only the statements that they make are the same.
    have hr : Resolved.Matches ⟨value, iris, labels, attached⟩ ⟨value, iris', labels, attached'⟩ :=
      .of_parts hiris hattached
    refine Matches.bind_eq (updateContext_matches id fun c c' hc => ?_) fun _ => .pure hr
    exact { hc with resolved? := .some hr }

end

/-- The order of the types does not matter to what an entity is resolved to. -/
theorem resolvedAlike_of_retyped {e e' : Entity} (h : e.Retyped e') : ResolvedAlike scene ms e e' := by
  induction h with
  | intro types generator?_eq labels_eq relationships_eq _ variableName?_eq globalName?_eq ih =>
    exact resolvedAlike_of generator?_eq variableName?_eq globalName?_eq types labels_eq
      (forall₂_of_zip relationships_eq ih)

theorem resolve_matches {e e' : Entity} (h : e.Retyped e') (place : Place) (id : Nat) :
    Matches Resolved.Matches (resolve scene place e id) (resolve (scene.applying ms) place e' id) :=
  resolvedAlike_of_retyped h place id none

/-! ## Steps of a link -/

theorem discards_matches {condition? condition?' : Option Condition} (h : condition? = condition?')
    (node : Location) :
    Matches Eq (discards scene condition? node) (discards (scene.applying ms) condition?' node) :=
  h ▸ .discards scene condition? node

theorem diagnose_matches {cause cause' : DropCause} (h : cause.Matches cause') (place : Place)
    (node : Location) :
    Matches Eq (diagnose scene place node cause) (diagnose (scene.applying ms) place node cause') :=
  .modify fun _ _ hs => { hs with
    diagnostics := List.rel_append hs.diagnostics (.cons ⟨rfl, rfl, h⟩ .nil) }

theorem isolate_matches {step step' : Run Unit} (h : Matches Eq step step') (place : Place) (node : Location) :
    Matches Eq (isolate scene place node step) (isolate (scene.applying ms) place node step') :=
  h.tryCatch (fun _ _ hcause => diagnose_matches hcause place node) (fun _ => rfl) fun _ => rfl

/-- The setting of a link of a mapping that lists its types in another order. -/
def LinkSetting.applying (l : LinkSetting) (ms : List Mapping) (m' : Mapping) (k' : Link) : LinkSetting :=
  { l with scene := l.scene.applying ms, mapping := m', link := k' }

section

variable {l : LinkSetting} {m' : Mapping} {k' : Link} (hm : l.mapping.Retyped m') (hk : l.link.Retyped k')

include hk

theorem linkRange_matches (path : Nat) (ids : List Nat) (node : Location) (position : Nat) :
    Matches Eq (linkRange l path ids node position)
      (linkRange (l.applying ms m' k') path ids node position) := by
  rw [linkRange, linkRange]
  refine (enter_matches (.refl_of_none rfl)).bind_eq fun range => ?_
  refine (discards_matches hk.range.target.condition?_eq node).bind_eq fun filtered => .ite rfl (.pure rfl) ?_
  refine (resolve_matches hk.range.target.entity _ range).bind fun r r' hr => ?_
  refine (resolvedValue?_matches l.domain).bind_eq fun domainValue? => ?_
  cases domainValue? with
  | none => exact .pure rfl
  | some domainValue =>
    dsimp only [LinkSetting.applying]
    rw [← hk.target.relationships_eq, hr.value_eq]
    refine (expandAll_matches _).bind_eq fun properties => ?_
    refine (stage_matches ⟨fun _ => Iff.rfl, rfl⟩ l.domain l.domainGraph?).bind fun b b' hb => ?_
    refine (stageAll_matches hb l.linkGraph? ids).bind fun b b' hb => ?_
    refine (resolvedValues_matches ids).bind_eq fun values => ?_
    refine (stage_matches (hb.append _) range l.linkGraph?).bind fun b b' hb => ?_
    exact (commit_matches hb).bind_eq fun _ => count_matches _

theorem linkRanges_matches (path : Nat) (ids : List Nat) (position : Nat) (nodes : List Location) :
    Matches Eq (linkRanges l path ids position nodes)
      (linkRanges (l.applying ms m' k') path ids position nodes) := by
  induction nodes generalizing position with
  | nil => exact .pure rfl
  | cons node rest ih =>
    exact (isolate_matches (linkRange_matches hk path ids node position) l.place node).bind_eq fun _ =>
      ih (position + 1)

omit hk in
theorem intermediates_matches {entities entities' : List Entity}
    (h : List.Forall₂ Entity.Retyped entities entities') (path : Nat) (node : Location) (position k : Nat) :
    Matches Eq (intermediates l path node position k entities)
      (intermediates (l.applying ms m' k') path node position k entities') := by
  induction h generalizing k with
  | nil => exact .pure rfl
  | cons he _ ih =>
    rw [intermediates, intermediates]
    refine (enter_matches (.refl_of_none rfl)).bind_eq fun id => ?_
    refine Matches.bind (R := Resolved.Matches) ?_ fun r r' hr => ?_
    -- Whatever the cause was, only the place of the entity is reported.
    · exact (resolve_matches he l.place id).tryCatch (fun _ _ _ => .drop _) (fun _ => rfl) fun _ => rfl
    · exact .ite (congrArg Value.isUri hr.value_eq) ((ih (k + 1)).bind_eq fun others => .pure rfl) (.drop _)

theorem linkPath_matches (joined : Bool) (node : Location) (position : Nat) :
    Matches Eq (linkPath l joined node position) (linkPath (l.applying ms m' k') joined node position) := by
  rw [linkPath, linkPath]
  refine (enter_matches (.refl_of_none rfl)).bind_eq fun path => ?_
  refine (discards_matches hk.target.condition?_eq node).bind_eq fun filtered => .ite rfl (.pure rfl) ?_
  refine (intermediates_matches hk.target.entities path node position 0).bind_eq fun ids => ?_
  refine .ite rfl (linkRanges_matches hk path ids position [node]) ?_
  dsimp only [LinkSetting.applying]
  rw [← hk.range.sourceNode_eq, ← hk.source_eq]
  exact (Matches.ofSetup rfl).bind_eq fun nodes => linkRanges_matches hk path ids 1 nodes

theorem linkPaths_matches (joined : Bool) (position : Nat) (nodes : List Location) :
    Matches Eq (linkPaths l joined position nodes) (linkPaths (l.applying ms m' k') joined position nodes) := by
  induction nodes generalizing position with
  | nil => exact .pure rfl
  | cons node rest ih =>
    exact (isolate_matches (linkPath_matches hk joined node position) l.place node).bind_eq fun _ =>
      ih (position + 1)

theorem linkMerge_matches (node : Location) (position : Nat) :
    Matches Eq (linkMerge l node position) (linkMerge (l.applying ms m' k') node position) := by
  rw [linkMerge, linkMerge]
  refine (enter_matches (.refl_of_none rfl)).bind_eq fun path => ?_
  refine (discards_matches hk.target.condition?_eq node).bind_eq fun filtered => .ite rfl (.pure rfl) ?_
  refine (enter_matches (.refl_of_none rfl)).bind_eq fun range => ?_
  refine (discards_matches hk.range.target.condition?_eq node).bind_eq fun filtered => .ite rfl (.pure rfl) ?_
  refine (resolvedValue?_matches l.domain).bind_eq fun identity? => ?_
  cases identity? with
  | none => exact .pure rfl
  | some identity =>
    refine (resolvedAlike_of_retyped hk.range.target.entity l.place range (some identity)).bind fun _ _ _ => ?_
    exact (link_matches range l.linkGraph?).bind_eq fun _ => count_matches _

include hm

theorem joinedNodes_matches (domainNode : Location) (expression key value : String) :
    Matches Eq (joinedNodes l domainNode expression key value)
      (joinedNodes (l.applying ms m' k') domainNode expression key value) := by
  rw [joinedNodes, joinedNodes]
  dsimp only [LinkSetting.applying]
  rw [← hm.domain.sourceNode_eq, ← hk.source_eq]
  refine Matches.get.bind fun s s' hs => ?_
  rw [hs.joins_eq]
  refine (Matches.ofSetup rfl).bind_eq fun found => ?_
  exact Matches.bind_eq (.modify fun t t' ht => { ht with joins_eq := rfl }) fun _ => .pure rfl

theorem joinOnward_matches (domainNode : Location) (range : String) (keys : KeyPair)
    (found nodes : List Location) :
    Matches Eq (joinOnward l domainNode range keys found nodes)
      (joinOnward (l.applying ms m' k') domainNode range keys found nodes) := by
  induction nodes generalizing found with
  | nil => exact .pure rfl
  | cons node rest ih =>
    refine (Matches.ofSetup rfl).bind_eq fun value => .ite rfl (ih found) ?_
    exact (joinedNodes_matches hm hk domainNode range keys.target value).bind_eq fun nodes => ih _

theorem joinRanges_matches (join : Join) (domainNode : Location) :
    Matches Eq (joinRanges l join domainNode) (joinRanges (l.applying ms m' k') join domainNode) := by
  rw [joinRanges, joinRanges]
  refine (Matches.ofSetup rfl).bind_eq fun value => .ite rfl (.pure rfl) ?_
  dsimp only [LinkSetting.applying]
  rw [← hk.range.sourceNode_eq]
  cases join.hop? with
  | none => exact joinedNodes_matches hm hk domainNode _ _ value
  | some hop =>
    exact (joinedNodes_matches hm hk domainNode _ _ value).bind_eq fun nodes =>
      joinOnward_matches hm hk domainNode _ hop.keys [] nodes

theorem followLink_matches : Matches Eq (followLink l) (followLink (l.applying ms m' k')) := by
  rw [followLink, followLink]
  refine (context_matches l.domain).bind fun c c' hc => ?_
  rw [hc.node_eq, hc.position_eq]
  refine .ite hk.target.isMerge_eq (linkMerge_matches hk _ _) ?_
  refine .ite (congrArg SourceRelation.isJoin hk.source_eq) ?_ ?_
  · refine (Matches.ofSetup (congrArg SourceRelation.join hk.source_eq)).bind_eq fun join => ?_
    exact (joinRanges_matches hm hk join _).bind_eq fun nodes => linkPaths_matches hk true 1 nodes
  · have hnodes : l.scene.source.select c'.node l.link.source.expression =
        l.scene.source.select c'.node k'.source.expression := by
      rw [hk.source_eq]
    exact (Matches.ofSetup hnodes).bind_eq fun nodes => linkPaths_matches hk false 1 nodes

end

/-! ## Runs -/

section

variable {m m' : Mapping} {l l' : Link}

theorem runLink_matches (hm : m.Retyped m') (hl : l.Retyped l') (place : Place) (domain : Nat)
    (domainGraph? : Option String) :
    Matches Eq (runLink scene place m domain domainGraph? l)
      (runLink (scene.applying ms) place m' domain domainGraph? l') := by
  rw [runLink, runLink, ← hl.graph?_eq]
  refine (count_matches _).bind_eq fun _ => ?_
  have hfollow (graph? : Option String) :
      Matches Eq (followLink ⟨scene, place, m, l, domain, domainGraph?, graph?⟩)
        (followLink ⟨scene.applying ms, place, m', l', domain, domainGraph?, graph?⟩) :=
    followLink_matches (l := ⟨scene, place, m, l, domain, domainGraph?, graph?⟩) hm hl
  cases l.graph? with
  | none => exact Matches.bind_eq (.pure rfl) hfollow
  | some name => exact (Matches.ofSetup rfl).bind_eq fun graph => Matches.bind_eq (.pure rfl) hfollow

theorem runLinks_matches (hm : m.Retyped m') {ls ls' : List Link} (h : List.Forall₂ Link.Retyped ls ls')
    (place : Place) (node : Location) (domain : Nat) (domainGraph? : Option String) (k : Nat) :
    Matches Eq (runLinks scene place m node domain domainGraph? k ls)
      (runLinks (scene.applying ms) place m' node domain domainGraph? k ls') := by
  induction h generalizing place k with
  | nil => exact .pure rfl
  | cons hl _ ih =>
    rw [runLinks, runLinks]
    refine .ite hl.skip_eq (ih place (k + 1)) ?_
    exact (isolate_matches (runLink_matches hm hl _ domain domainGraph?) _ node).bind_eq fun _ => ih _ (k + 1)

theorem domainGraph_matches (hm : m.Retyped m') (mappingGraph? : Option String) (node : Location)
    (position : Nat) :
    Matches Eq (domainGraph scene m mappingGraph? node position)
      (domainGraph (scene.applying ms) m' mappingGraph? node position) := by
  rw [domainGraph, domainGraph, ← hm.domain.graphGenerator?_eq]
  cases m.domain.graphGenerator? with
  | none => exact .pure rfl
  | some call =>
    refine Matches.bind_eq ?_ fun graph => .pure rfl
    refine (generate_matches call node position).bind_eq fun value => ?_
    cases value with
    | uri iri => exact .pure rfl
    | literal | typed => exact .drop _

theorem runDomain_matches (hm : m.Retyped m') (place : Place) (mappingGraph? : Option String)
    (node : Location) (position : Nat) :
    Matches Eq (runDomain scene place m mappingGraph? node position)
      (runDomain (scene.applying ms) place m' mappingGraph? node position) := by
  rw [runDomain, runDomain]
  refine Matches.bind_eq (.modify fun s s' hs => ?_) fun _ => ?_
  · exact { hs with contexts := ⟨rfl, fun _ => .refl_of_none rfl⟩ }
  refine (enter_matches (.refl_of_none rfl)).bind_eq fun domain => ?_
  refine (discards_matches hm.domain.target.condition?_eq node).bind_eq fun filtered => ?_
  refine .ite rfl (count_matches _) ?_
  refine (resolve_matches hm.domain.target.entity place domain).bind fun r r' hr => ?_
  rw [hr.value_eq]
  refine .ite rfl ?_ (.drop _)
  refine (domainGraph_matches hm mappingGraph? node position).bind_eq fun graph? => ?_
  exact (link_matches domain graph?).bind_eq fun _ => runLinks_matches hm hm.links place node domain graph? 1

theorem runDomains_matches (hm : m.Retyped m') (place : Place) (mappingGraph? : Option String) (position : Nat)
    (nodes : List Location) :
    Matches Eq (runDomains scene place m mappingGraph? position nodes)
      (runDomains (scene.applying ms) place m' mappingGraph? position nodes) := by
  induction nodes generalizing position with
  | nil => exact .pure rfl
  | cons node rest ih =>
    refine Matches.bind_eq ?_ fun _ => ih (position + 1)
    refine (runDomain_matches hm place mappingGraph? node position).tryCatch (fun cause cause' h => ?_)
      (fun _ => rfl) fun _ => rfl
    exact (count_matches _).bind_eq fun _ => diagnose_matches h place node

theorem namedGraph_matches (other? name? : Option String) :
    Matches Eq (namedGraph scene other? name?) (namedGraph (scene.applying ms) other? name?) := by
  cases name? with
  | none => exact .pure rfl
  | some name => exact (Matches.ofSetup rfl).bind_eq fun graph => .pure rfl

theorem runMapping_matches (hm : m.Retyped m') (number : Nat) :
    Matches Eq (runMapping scene number m) (runMapping (scene.applying ms) number m') := by
  rw [runMapping_eq, runMapping_eq, openMapping, openMapping, ← hm.graph?_eq, ← hm.domain.sourceNode_eq]
  simp only [bind_assoc, pure_bind, ← runDomains_eq]
  refine (namedGraph_matches none m.graph?).bind_eq fun mappingGraph? => ?_
  refine (Matches.ofSetup rfl).bind_eq fun nodes => (count_matches _).bind_eq fun _ => ?_
  exact runDomains_matches hm _ mappingGraph? 1 nodes

/-- Mapping by mapping the two runs go the same way. -/
theorem runMappings_matches {run run' : List Mapping} (h : List.Forall₂ Mapping.Retyped run run') (k : Nat) :
    Matches Eq (runMappings scene k run) (runMappings (scene.applying ms) k run') := by
  induction h generalizing k with
  | nil => exact .pure rfl
  | cons hm _ ih =>
    rw [runMappings, runMappings]
    exact .ite (congrArg not hm.skip_eq) ((runMapping_matches hm k).bind_eq fun _ => ih (k + 1)) (ih (k + 1))

end

end Run

/-! ## Checking -/

namespace Engine

variable {engine : Engine} {ms : List Mapping}

attribute [mk_iff] Accepts

/-- Two descriptions that are accepted by the one engine and the other, or by neither. -/
def CheckedAlike (engine : Engine) (ms : List Mapping) (e e' : Entity) : Prop :=
  ∀ needsIdentity, engine.checkEntity needsIdentity e = .ok () ↔
    (engine.applying ms).checkEntity needsIdentity e' = .ok ()

theorem checkedAlike_of_retyped {e e' : Entity} (h : e.Retyped e') : CheckedAlike engine ms e e' := by
  induction h with
  | @intro e e' types generator?_eq labels_eq relationships_eq _ variableName?_eq globalName?_eq ih =>
    intro needsIdentity
    have hattached : AttachedAlike (CheckedAlike engine ms) e.additionals e'.additionals :=
      forall₂_of_zip relationships_eq ih
    have hcalls : e.calls = e'.calls := by rw [Entity.calls, Entity.calls, generator?_eq, labels_eq]
    have hrelationships :
        (∀ a ∈ e.additionals, ∃ iri, engine.namespaces.expand a.relationship = .ok iri) ↔
          ∀ a ∈ e'.additionals, ∃ iri, engine.namespaces.expand a.relationship = .ok iri :=
      forall_mem_iff_of_forall₂ hattached fun a a' ha => by rw [ha.1]
    rw [checkEntity_iff, checkEntity_iff, accepts_iff, accepts_iff]
    refine and_congr ?_ (forall_mem_iff_of_forall₂ hattached fun a a' ha => ha.2 true)
    have htyped : e.types ≠ [] ↔ e'.types ≠ [] := by
      simp only [ne_eq, ← List.isEmpty_iff, types.isEmpty_eq]
    refine and_congr htyped (and_congr ?_ (and_congr ?_ (and_congr ?_ hrelationships)))
    · simp only [types.mem_iff]
      exact Iff.rfl
    · rw [generator?_eq, variableName?_eq, globalName?_eq]
    · rw [hcalls]
      exact Iff.rfl

theorem checkLink_iff_of_retyped {l l' : Link} (h : l.Retyped l') :
    engine.checkLink l = .ok () ↔ (engine.applying ms).checkLink l' = .ok () := by
  have hmerge := h.target.isMerge_eq
  have hnamespaces : (engine.applying ms).namespaces = engine.namespaces := rfl
  have hrange : CheckedAlike engine ms l.range.target.entity l'.range.target.entity :=
    checkedAlike_of_retyped h.range.target.entity
  simp only [checkLink, bind_unit_eq_ok, checkNames_iff, ← h.source_eq, ← h.graph?_eq, ← hmerge,
    hnamespaces]
  refine and_congr_right fun _ => and_congr_right fun _ => ?_
  cases l.target.isMerge with
  | true => exact hrange false
  | false =>
    simp only [Bool.false_eq_true, if_false, bind_unit_eq_ok, checkRelation_iff, ← h.target.relationships_eq,
      h.target.entities.length_eq, hnamespaces, hrange true]
    refine and_congr_left fun _ => and_congr_right fun _ => and_congr_right fun _ => ?_
    exact forall_mem_iff_of_forall₂ h.target.entities fun e e' he => checkedAlike_of_retyped he true

theorem checkMapping_iff_of_retyped {m m' : Mapping} (h : m.Retyped m') :
    engine.checkMapping m = .ok () ↔ (engine.applying ms).checkMapping m' = .ok () := by
  rw [checkMapping_iff, checkMapping_iff, ← h.domain.graphGenerator?_eq, ← h.graph?_eq]
  refine and_congr (checkedAlike_of_retyped h.domain.target.entity true) ?_
  refine and_congr_right fun _ => and_congr_right fun _ => ?_
  refine forall_mem_iff_of_forall₂ h.links fun l l' hl => ?_
  rw [hl.skip_eq, checkLink_iff_of_retyped hl]

theorem validate_iff_of_retyped (h : List.Forall₂ Mapping.Retyped engine.mapping.mappings ms) :
    engine.validate = .ok () ↔ (engine.applying ms).validate = .ok () := by
  rw [validate, validate, checkMappings_iff, checkMappings_iff]
  refine forall_mem_iff_of_forall₂ h fun m m' hm => ?_
  rw [hm.skip_eq, checkMapping_iff_of_retyped hm]

/-! ## What comes of a run -/

/-- What is reported of a run that ends in a certain way. -/
def reported : Except Fault Unit × RunState → Except RunError Report
  | (.ok (), s) => .ok (.ofState s)
  | (.error (.abort e), _) => .error e
  | (.error (.drop _), s) => .ok (.ofState s)

theorem execute_eq_reported (hvalid : engine.validate = .ok ()) (seed : List UInt8) (document : Xml.Document) :
    engine.execute seed document = reported (Run.outcome
      (Run.runMappings (engine.scene document) 1 engine.mapping.mappings) (engine.start seed)) := by
  rw [execute, hvalid]
  rfl

/-- Two runs that end alike abort both, or both are reported as they are. -/
theorem reported_of_endAlike {R : Unit → Unit → Prop} {r r' : Except Fault Unit × RunState}
    (h : Run.EndAlike R r r') :
    (∃ e e', reported r = .error e ∧ reported r' = .error e') ∨
      ∃ s s', s.Matches s' ∧ reported r = .ok (.ofState s) ∧ reported r' = .ok (.ofState s') := by
  cases h with
  | ok _ hs => exact .inr ⟨_, _, hs, rfl, rfl⟩
  | drop _ hs => exact .inr ⟨_, _, hs, rfl, rfl⟩
  | abort e e' => exact .inl ⟨e, e', rfl, rfl⟩

/-- The order in which a mapping lists the types of its entities does not matter. It is accepted in the one
order if it is in the other, and two runs of it that draw the same identifiers abort both, or come to the same
statements, associations and counts, with as many parts dropped, in the same places and for matching causes. -/
theorem execute_retyped {engine : Engine} {d : MappingDocument} (h : engine.mapping.Retyped d)
    {seed seed' : List UInt8} (hseed : engine.settings.uuidWidth?.isSome ∨ seed = seed')
    (document : Xml.Document) :
    (engine.validate = .ok () ↔ ({ engine with mapping := d } : Engine).validate = .ok ()) ∧
    ((∃ e e', engine.execute seed document = .error e ∧
        ({ engine with mapping := d } : Engine).execute seed' document = .error e') ∨
      ∃ report report', engine.execute seed document = .ok report ∧
        ({ engine with mapping := d } : Engine).execute seed' document = .ok report' ∧
        report.graph.quads.Nodup ∧ report.graph.quads.Perm report'.graph.quads ∧
        report.associations = report'.associations ∧ report.counters = report'.counters ∧
        report.joinIndexes = report'.joinIndexes ∧
        report.diagnostics.length = report'.diagnostics.length ∧
        List.Forall₂ Diagnostic.Matches report.diagnostics report'.diagnostics) := by
  obtain ⟨ns, ms⟩ := d
  obtain ⟨rfl, hms⟩ := h
  have hvalid : engine.validate = .ok () ↔ (engine.applying ms).validate = .ok () :=
    validate_iff_of_retyped hms
  refine ⟨hvalid, ?_⟩
  change (∃ e e', _ ∧ (engine.applying ms).execute seed' document = .error e') ∨
    ∃ report report', _ ∧ (engine.applying ms).execute seed' document = .ok report' ∧ _
  rcases hchecked : engine.validate with e | _
  · rcases hchecked' : (engine.applying ms).validate with e' | _
    · exact .inl ⟨.setup e, .setup e', by rw [execute, hchecked], by rw [execute, hchecked']⟩
    · cases hchecked.symm.trans (hvalid.2 hchecked')
  have hstart : (engine.applying ms).start seed' = engine.start seed := by
    change RunState.initial (engine.uuidSource seed') = .initial (engine.uuidSource seed)
    rcases hseed with hwidth | rfl
    · obtain ⟨width, hwidth⟩ := Option.isSome_iff_exists.1 hwidth
      rw [uuidSource, uuidSource, hwidth]
    · rfl
  rw [execute_eq_reported hchecked, execute_eq_reported (hvalid.1 hchecked), hstart]
  have hruns : Run.Matches Eq (Run.runMappings (engine.scene document) 1 engine.mapping.mappings)
      (Run.runMappings ((engine.applying ms).scene document) 1 ms) := Run.runMappings_matches hms 1
  have hends := hruns _ _ (RunState.matches_initial (engine.uuidSource seed))
  refine (reported_of_endAlike hends).imp_right ?_
  rintro ⟨s, s', hs, hreported, hreported'⟩
  exact ⟨.ofState s, .ofState s', hreported, hreported', hs.graph.nodup, hs.graph.perm, hs.associations_eq,
    hs.counters_eq, congrArg (·.builds) hs.joins_eq, hs.diagnostics.length_eq, hs.diagnostics⟩

/-- Towns that show a sign and lie on rivers, each with a bank in between. Everything has two types, listed in
some order, and those that are merged into the towns are no IRIs. -/
def townsMapping (order : List String → List String) : MappingDocument :=
  let entity (types : List String) (additionals : List (Attached Entity)) : Entity :=
    ⟨order types, some ⟨"UUID", []⟩, [], additionals, none, none⟩
  let river : Link :=
    ⟨⟨["river"], []⟩, ⟨none, ["<urn:has>", "<urn:on>"], [entity ["<urn:Bank>", "<urn:Edge>"] []]⟩,
      ⟨"river/.", ⟨entity ["<urn:River>", "<urn:Water>"] [], none⟩⟩, none, false⟩
  let noted : Link :=
    ⟨⟨[""], []⟩, ⟨none, [mergeName], []⟩, ⟨"", ⟨entity ["<no iri>", "<nor this>"] [], none⟩⟩, none, false⟩
  let sign : Entity := entity ["<urn:Sign>", "<urn:Text>"] []
  ⟨.builtin, [⟨⟨"/town", ⟨entity ["<urn:Town>", "<urn:Place>"] [⟨"<urn:shows>", sign⟩], none⟩, none⟩,
    [river, noted], none, false⟩]⟩

def townsEngine (order : List String → List String) : Engine :=
  ⟨townsMapping order, .empty, none, { Settings.default with uuidWidth? := some 2 }⟩

def riverTown : Xml.Document :=
  ⟨[.element ⟨none, "town"⟩ [] [] [.element ⟨none, "river"⟩ [] [] []]]⟩

theorem townsMapping_retyped {order : List String → List String}
    (h : ∀ types : List String, types.Perm (order types)) :
    (townsMapping id).Retyped (townsMapping order) := by
  have hplain (types : List String) : Entity.Retyped ⟨id types, some ⟨"UUID", []⟩, [], [], none, none⟩
      ⟨order types, some ⟨"UUID", []⟩, [], [], none, none⟩ :=
    .intro (h types) rfl rfl rfl (by rintro _ ⟨⟩) rfl rfl
  refine ⟨rfl, .cons ⟨⟨rfl, ⟨?_, rfl⟩, rfl⟩, .cons ?_ (.cons ?_ .nil), rfl, rfl⟩ .nil⟩
  · exact .intro (h _) rfl rfl rfl (List.forall_mem_singleton.2 (hplain _)) rfl rfl
  · exact ⟨rfl, ⟨rfl, rfl, .cons (hplain _) .nil⟩, ⟨rfl, hplain _, rfl⟩, rfl, rfl⟩
  · exact ⟨rfl, ⟨rfl, rfl, .nil⟩, ⟨rfl, hplain _, rfl⟩, rfl, rfl⟩

/-- With all types in the reverse order the same is written in another order. What is merged is dropped in both
runs, and another of its types is reported. -/
theorem execute_retyped_towns : ∃ report report',
    (townsEngine id).execute [] riverTown = .ok report ∧
      (townsEngine List.reverse).execute [1] riverTown = .ok report' ∧
      report.graph.size = 11 ∧ report.diagnostics.length = 1 ∧ report.graph.quads.Perm report'.graph.quads ∧
      report.diagnostics.map (·.cause) = [.invalidIri "no iri"] ∧
      report'.diagnostics.map (·.cause) = [.invalidIri "nor this"] := by
  have hretyped : (townsMapping id).Retyped (townsMapping List.reverse) :=
    townsMapping_retyped fun types => types.reverse_perm.symm
  obtain ⟨report, hrun, htest⟩ := exists_report_of_any
    (show ((townsEngine id).execute [] riverTown).toOption.any (fun report => report.graph.size == 11 &&
      report.diagnostics.map (·.cause) == [.invalidIri "no iri"]) = true by decide +kernel)
  obtain ⟨report', hrun', htest'⟩ := exists_report_of_any
    (show ((townsEngine List.reverse).execute [1] riverTown).toOption.any (fun report =>
      report.diagnostics.map (·.cause) == [.invalidIri "nor this"]) = true by decide +kernel)
  rw [Bool.and_eq_true, beq_iff_eq, beq_iff_eq] at htest
  rw [beq_iff_eq] at htest'
  have hdrawn : (townsEngine id).settings.uuidWidth?.isSome ∨ ([] : List UInt8) = [1] := .inl rfl
  rcases (@execute_retyped (townsEngine id) _ hretyped [] [1] hdrawn riverTown).2 with
    ⟨e, e', herror, -⟩ | ⟨r, r', hr, hr', -, hperm, -, -, -, hlength, -⟩
  · cases hrun.symm.trans herror
  · obtain rfl : r = report := Except.ok.inj (hr.symm.trans hrun)
    obtain rfl : r' = report' := Except.ok.inj (hr'.symm.trans hrun')
    refine ⟨r, r', hr, hr', htest.1, ?_, hperm, htest.2, htest'⟩
    simpa using congrArg List.length htest.2

end Engine

end Crosswalk
