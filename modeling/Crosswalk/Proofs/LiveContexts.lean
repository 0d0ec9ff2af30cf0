import Crosswalk.Proofs.FollowedSteps
import Crosswalk.Proofs.LinkedBranches

/-!
# Live contexts

A watched run comes to what the run comes to, and all its moments are sound. So it never asks for a context that
is not there, although the contexts are given up after every domain node: the numbers that a step holds on to
have been given out since, and the steps inside of it only add to the contexts. And the way up from every
context ends, at that of the domain node.

The recursion into additional entities is covered once, by a statement about the additional entities of any
owner that has a context. Between two domain nodes a run has no contexts and holds on to none.
-/

namespace Crosswalk

open Crosswalk.Xml (Location)

/-! ## Steps that have no use for the contexts -/

namespace Run

variable {scene : Scene} {l : LinkSetting}

theorem isBlind_generate (call : GeneratorCall) (node : Location) (position : Nat) :
    (generate scene call node position).IsBlind :=
  fun _ _ => rfl

theorem isBlind_discards (condition? : Option Condition) (node : Location) :
    (discards scene condition? node).IsBlind := by
  intro s cs
  rw [discards]
  cases Condition.guardFails scene.conditionSetting node condition? <;> rfl

theorem isBlind_expandAll (names : List String) : (expandAll scene names).IsBlind :=
  .ofSetup _

theorem isBlind_firstValue (generator? : Option GeneratorCall) (c : Context) (name : String) :
    (firstValue scene generator? c name).IsBlind := by
  cases generator? with
  | none => exact .drop _
  | some call => exact isBlind_generate call c.node c.position

theorem isBlind_label? (call : GeneratorCall) (c : Context) : (label? scene call c).IsBlind := by
  refine .tryCatch (.bind (isBlind_generate call c.node c.position) fun _ => .pure _) fun e => ?_
  cases e with
  | abort e => exact .throw _
  | drop cause =>
    dsimp only
    split
    · exact .pure _
    · exact .throw _

theorem isBlind_labels (c : Context) (calls : List GeneratorCall) : (labels scene c calls).IsBlind :=
  IsBlind.composes.labels fun call _ => isBlind_label? call c

theorem isBlind_domainGraph (m : Mapping) (mappingGraph? : Option String) (node : Location) (position : Nat) :
    (domainGraph scene m mappingGraph? node position).IsBlind :=
  IsBlind.composes.domainGraph mappingGraph? (fun call _ => isBlind_generate call node position) (.drop _)

theorem isBlind_joinedNodes (domainNode : Location) (expression key value : String) :
    (joinedNodes l domainNode expression key value).IsBlind :=
  .get_bind (fun _ _ => rfl) fun _ => .bind (.ofSetup _) fun _ =>
    .bind (.of_modify fun _ _ => rfl) fun _ => .pure _

theorem isBlind_joinRanges (join : Join) (domainNode : Location) : (joinRanges l join domainNode).IsBlind :=
  IsBlind.composes.joinRanges (fun _ _ => .ofSetup _) fun leg _ value =>
    isBlind_joinedNodes domainNode leg.1 leg.2 value

end Run

namespace Watched

open Moment (IsSound)
open Run (outcome after LinkSetting)

variable {scene : Scene} {place : Place} {l : LinkSetting} {w : Watch} {s t : RunState} {id : Nat}

/-! ## Values -/

theorem follows_globalValue (generator? : Option GeneratorCall) (name : String) (hid : id < s.contexts.size)
    (hs : IsSound ⟨w, s.contexts⟩) :
    Follows w (globalValue scene generator? id name) (Run.globalValue scene generator? id name) s := by
  refine .read_bind (fun _ _ => rfl) ?_
  cases s.globals.get? name with
  | some value => exact .pure value hs
  | none =>
    refine .bind (.context hid hs) fun c t _ _ ht => ?_
    refine .bind (.aside (Run.isBlind_firstValue generator? c name) ht) fun value u _ _ hu => ?_
    exact .bind (.aside (.of_modify fun _ _ => rfl) hu) fun _ v _ _ hv => .pure value hv

theorem follows_variableValue (generator? : Option GeneratorCall) (name : String) (hid : id < s.contexts.size)
    (hs : IsSound ⟨w, s.contexts⟩) :
    Follows w (variableValue scene generator? id name) (Run.variableValue scene generator? id name) s := by
  refine .look_bind (lookup?_eq hid hs name) ?_
  cases s.contexts.lookup? id name with
  | some value => exact .pure value hs
  | none =>
    refine .bind (.context hid hs) fun c t _ hst ht => ?_
    refine .bind (.aside (Run.isBlind_firstValue generator? c name) ht) fun value u _ htu hu => ?_
    have hid := (hst.trans htu).lt_size hid
    exact .bind (.bindVariable name value hid hu) fun _ v _ _ hv => .pure value hv

theorem follows_keyedValue (generator? : Option GeneratorCall) (types : List String) (hid : id < s.contexts.size)
    (hs : IsSound ⟨w, s.contexts⟩) :
    Follows w (keyedValue scene place generator? id types) (Run.keyedValue scene place generator? id types) s := by
  cases generator? with
  | none => exact .throw _ hs
  | some call =>
    refine .bind (.context hid hs) fun c t _ _ ht => ?_
    refine .read_bind (fun _ _ => rfl) ?_
    cases t.cache.get? (cacheKey scene.source place c types) with
    | some value => exact .pure value ht
    | none =>
      refine .bind (.aside (Run.isBlind_generate call c.node c.position) ht) fun value u _ _ hu => ?_
      exact .bind (.aside (.of_modify fun _ _ => rfl) hu) fun _ v _ _ hv => .pure value hv

theorem follows_entityValue (entity : Entity) (types : List String) (hid : id < s.contexts.size)
    (hs : IsSound ⟨w, s.contexts⟩) :
    Follows w (entityValue scene place entity id types) (Run.entityValue scene place entity id types) s := by
  rw [entityValue, Run.entityValue]
  cases entity.globalName? with
  | some name => exact follows_globalValue _ name hid hs
  | none =>
    cases entity.variableName? with
    | some name => exact follows_variableValue _ name hid hs
    | none => exact follows_keyedValue _ types hid hs

theorem follows_shapedValue (entity : Entity) (types : List String) (identity? : Option Value)
    (hid : id < s.contexts.size) (hs : IsSound ⟨w, s.contexts⟩) :
    Follows w (shapedValue scene place entity id types identity?)
      (Run.shapedValue scene place entity id types identity?) s := by
  cases identity? with
  | some identity => exact .pure identity hs
  | none =>
    exact .bind (follows_entityValue entity types hid hs) fun generated t _ _ ht => .aside (.ofSetup _) ht

/-! ## Entities -/

/-- The watched resolution of additional entities follows the resolution, for any owner that has a context. -/
def AdditionalsFollow (scene : Scene) (place : Place) (additionals : List (Attached Entity)) : Prop :=
  ∀ w owner c value k s, owner < s.contexts.size → IsSound ⟨w, s.contexts⟩ →
    Follows w (resolveAdditionals scene place owner c value k additionals)
      (Run.resolveAdditionals scene place owner c value k additionals) s

theorem follows_belongings {entity : Entity} (h : AdditionalsFollow scene place entity.additionals)
    (c : Context) (value : Value) (hid : id < s.contexts.size) (hs : IsSound ⟨w, s.contexts⟩) :
    Follows w (belongings scene c entity.labels value
      (resolveAdditionals scene place id c value 0 entity.additionals))
      (Run.belongings scene place entity id c value) s := by
  rw [belongings, Run.belongings]
  split
  · refine .bind (.aside (Run.isBlind_labels c entity.labels) hs) fun labels t _ hst ht => ?_
    have hid := hst.lt_size hid
    exact .bind (h w id c value 0 t hid ht) fun attached u _ _ hu => .pure _ hu
  · exact .pure _ hs

theorem follows_resolveWith_of {entity : Entity} (h : AdditionalsFollow scene place entity.additionals)
    (identity? : Option Value) (hid : id < s.contexts.size) (hs : IsSound ⟨w, s.contexts⟩) :
    Follows w (resolveWith scene place id identity? entity) (Run.resolveWith scene place id identity? entity) s := by
  rw [Run.resolveWith_eq]
  obtain ⟨typeNames, generator?, labelCalls, additionals, variableName?, globalName?⟩ := entity
  rw [resolveWith]
  refine .holding (by simpa using hid) hs fun v hs => .bind (.context hid hs) fun c t _ hst ht => ?_
  have hid := hst.lt_size hid
  cases c.resolved? with
  | some resolved => exact .pure resolved ht
  | none =>
    dsimp only
    split
    · exact .throw _ ht
    refine .bind (.aside (Run.isBlind_expandAll typeNames) ht) fun types u _ htu hu => ?_
    have hid := htu.lt_size hid
    refine .bind (follows_shapedValue _ types identity? hid hu) fun value t _ hut ht => ?_
    have hid := hut.lt_size hid
    refine .bind (.aside (.of_modify fun _ _ => rfl) ht) fun _ u _ htu hu => ?_
    have hid := htu.lt_size hid
    refine .bind (follows_belongings h c value hid hu) fun p t _ hut ht => ?_
    have hid := hut.lt_size hid
    exact .bind (.updateContext (fun _ => rfl) hid ht) fun _ u _ _ hu => .pure _ hu

/-- What the context of an additional entity belongs to is that of its owner, which holds on to its number. -/
theorem additionalsFollow_cons {name : String} {entity : Entity} {rest : List (Attached Entity)}
    (h : AdditionalsFollow scene place entity.additionals) (hrest : AdditionalsFollow scene place rest) :
    AdditionalsFollow scene place (⟨name, entity⟩ :: rest) := by
  intro w owner c value k s howner hs
  rw [resolveAdditionals, Run.resolveAdditionals]
  refine .bind (.aside (.ofSetup _) hs) fun relationship t _ hst ht => ?_
  have howner := hst.lt_size howner
  refine .enter_bind (ht.push (by rintro ⟨⟩) rfl howner) fun id u hid htu hu => ?_
  refine .bind (follows_resolveWith_of h none hid hu) fun resolved v _ huv hv => ?_
  have howner := (htu.trans huv).lt_size howner
  exact .bind (hrest w owner c value (k + 1) v howner hv) fun others v _ _ hv => .pure _ hv

theorem additionalsFollow (scene : Scene) (place : Place) :
    ∀ additionals : List (Attached Entity), AdditionalsFollow scene place additionals
  | [] => fun _ _ _ _ _ _ _ hs => .pure _ hs
  | ⟨_, ⟨_, _, _, additionals, _, _⟩⟩ :: rest =>
    additionalsFollow_cons (additionalsFollow scene place additionals) (additionalsFollow scene place rest)

theorem follows_resolveWith (entity : Entity) (identity? : Option Value) (hid : id < s.contexts.size)
    (hs : IsSound ⟨w, s.contexts⟩) :
    Follows w (resolveWith scene place id identity? entity) (Run.resolveWith scene place id identity? entity) s :=
  follows_resolveWith_of (additionalsFollow scene place entity.additionals) identity? hid hs

theorem follows_resolve (entity : Entity) (hid : id < s.contexts.size) (hs : IsSound ⟨w, s.contexts⟩) :
    Follows w (resolve scene place entity id) (Run.resolve scene place entity id) s :=
  follows_resolveWith entity none hid hs

/-! ## Batches -/

/-- Only contexts in which something is resolved are put into a batch. -/
theorem live_stage {cs : Contexts} {b : Batch} (graph? : Option String) (h : ∀ i ∈ b.contexts, i < cs.size)
    (id : Nat) : ∀ i ∈ (b.stage cs graph? id).contexts, i < cs.size := by
  rw [Batch.stage]
  split
  · exact h
  · cases hr : (cs.get id).resolved? with
    | none => exact h
    | some r => exact List.forall_mem_append.2 ⟨h, List.forall_mem_singleton.2 (Contexts.lt_size_of_resolved? hr)⟩

theorem live_stageAll {cs : Contexts} {b : Batch} (graph? : Option String) (h : ∀ i ∈ b.contexts, i < cs.size)
    (ids : List Nat) : ∀ i ∈ (ids.foldl (Batch.stage cs graph?) b).contexts, i < cs.size := by
  induction ids generalizing b with
  | nil => exact h
  | cons id rest ih => exact ih (live_stage graph? h id)

theorem follows_stage {b : Batch} (graph? : Option String) (hb : ∀ i ∈ b.contexts, i < s.contexts.size)
    (hid : id < s.contexts.size) (hs : IsSound ⟨w, s.contexts⟩) :
    Follows w (stage b id graph?) (Run.stage b id graph?) s := by
  rw [stage, Run.stage]
  refine .holding hb hs fun v hs => .bind (.context hid hs) fun c t _ _ ht => ?_
  split
  · exact .pure b ht
  · cases c.resolved? with
    | none => exact .pure b ht
    | some r => exact .pure _ ht

theorem follows_stageAll {b : Batch} (graph? : Option String) (hb : ∀ i ∈ b.contexts, i < s.contexts.size)
    {ids : List Nat} (hids : ∀ id ∈ ids, id < s.contexts.size) (hs : IsSound ⟨w, s.contexts⟩) :
    Follows w (stageAll b graph? ids) (Run.stageAll b graph? ids) s := by
  induction ids generalizing b with
  | nil => exact .pure b hs
  | cons id rest ih =>
    obtain ⟨hid, hrest⟩ := List.forall_mem_cons.1 hids
    refine .bind_ok (follows_stage graph? hb hid hs) (Run.outcome_stage b id graph? s) ?_
    exact ih (live_stage graph? hb id) hrest

theorem follows_resolvedValues {ids : List Nat} (hids : ∀ id ∈ ids, id < s.contexts.size)
    (hs : IsSound ⟨w, s.contexts⟩) :
    Follows w (ids.mapM resolvedValue?) (ids.mapM Run.resolvedValue?) s := by
  induction ids with
  | nil => exact .pure [] hs
  | cons id rest ih =>
    obtain ⟨hid, hrest⟩ := List.forall_mem_cons.1 hids
    rw [List.mapM_cons, List.mapM_cons]
    refine .bind_ok (.resolvedValue? hid hs) (Run.outcome_resolvedValue? id s) ?_
    exact .bind (ih hrest) fun values t _ _ ht => .pure _ ht

theorem follows_markLinked {ids : List Nat} (hids : ∀ id ∈ ids, id < s.contexts.size)
    (hs : IsSound ⟨w, s.contexts⟩) : Follows w (markLinked ids) (Run.markLinked ids) s := by
  induction ids generalizing s with
  | nil => exact .pure () hs
  | cons id rest ih =>
    obtain ⟨hid, hrest⟩ := List.forall_mem_cons.1 hids
    rw [markLinked, Run.markLinked, List.forM, List.forM]
    refine .bind (.updateContext (fun _ => rfl) hid hs) fun _ t _ hst ht => ?_
    exact ih (hst.all_lt_size hrest) ht

theorem follows_commit {b : Batch} (hb : ∀ i ∈ b.contexts, i < s.contexts.size) (hs : IsSound ⟨w, s.contexts⟩) :
    Follows w (commit b) (Run.commit b) s := by
  rw [commit, Run.commit]
  refine .holding hb hs fun v hs => .read_bind (fun _ _ => rfl) ?_
  rcases s.graph.add b.statements with e | graph
  · cases e <;> exact .throw _ hs
  · refine .bind (.aside (.of_modify fun _ _ => rfl) hs) fun _ t _ hst ht => ?_
    exact follows_markLinked (hst.all_lt_size hb) ht

theorem follows_link (graph? : Option String) (hid : id < s.contexts.size) (hs : IsSound ⟨w, s.contexts⟩) :
    Follows w (link id graph?) (Run.link id graph?) s := by
  have hempty : ∀ i ∈ Batch.empty.contexts, i < s.contexts.size := by simp [Batch.empty]
  refine .bind_ok (follows_stage graph? hempty hid hs) (Run.outcome_stage .empty id graph? s) ?_
  exact follows_commit (live_stage graph? hempty id) hs

/-! ## Links -/

theorem follows_linkRange {path : Nat} {ids : List Nat} (node : Location) (position : Nat)
    (hdomain : l.domain < s.contexts.size) (hpath : path < s.contexts.size)
    (hids : ∀ id ∈ ids, id < s.contexts.size) (hs : IsSound ⟨w, s.contexts⟩) :
    Follows w (linkRange l path ids node position) (Run.linkRange l path ids node position) s := by
  rw [linkRange, Run.linkRange]
  refine .enter_bind (hs.push (by rintro ⟨⟩) rfl hpath) fun range t hrange hst ht => ?_
  refine .holding (by simpa using hrange) ht fun v ht => ?_
  refine .bind (.aside (Run.isBlind_discards _ node) ht) fun discarded u _ htu hu => ?_
  split
  · exact .pure () hu
  have hrange := htu.lt_size hrange
  refine .bind (follows_resolve _ hrange hu) fun resolved t _ hut ht => ?_
  have hkeeps := hst.trans (htu.trans hut)
  have hrange := hut.lt_size hrange
  have hdomain := hkeeps.lt_size hdomain
  have hids := hkeeps.all_lt_size hids
  -- from here on no context is entered
  refine .bind_ok (.resolvedValue? hdomain ht) (Run.outcome_resolvedValue? l.domain t) ?_
  cases (t.contexts.get l.domain).resolved?.map (·.value) with
  | none => exact .pure () ht
  | some domainValue =>
    refine .bind (.aside (Run.isBlind_expandAll _) ht) fun properties u hout _ _ => ?_
    obtain ⟨-, rfl⟩ := Run.ofSetup_ok.1 hout
    have hbatch : ∀ i ∈ Batch.empty.contexts, i < t.contexts.size := by simp [Batch.empty]
    refine .bind_ok (follows_stage _ hbatch hdomain ht) (Run.outcome_stage _ _ _ t) ?_
    have hbatch := live_stage l.domainGraph? hbatch l.domain
    refine .bind_ok (follows_stageAll _ hbatch hids ht) (Run.outcome_stageAll _ _ _ t) ?_
    have hbatch := live_stageAll l.linkGraph? hbatch ids
    refine .bind_ok (follows_resolvedValues hids ht) (Run.outcome_resolvedValues ids t) ?_
    refine .bind_ok (follows_stage _ hbatch hrange ht) (Run.outcome_stage _ _ _ t) ?_
    refine .bind (follows_commit (live_stage l.linkGraph? ?_ range) ht) fun _ u _ _ hu => ?_
    · exact hbatch
    · exact .aside (.of_modify fun _ _ => rfl) hu

theorem follows_linkRanges {path : Nat} {ids : List Nat} (position : Nat) (nodes : List Location)
    (hdomain : l.domain < s.contexts.size) (hpath : path < s.contexts.size)
    (hids : ∀ id ∈ ids, id < s.contexts.size) (hs : IsSound ⟨w, s.contexts⟩) :
    Follows w (linkRanges l path ids position nodes) (Run.linkRanges l path ids position nodes) s := by
  induction nodes generalizing position s with
  | nil => exact .pure () hs
  | cons node rest ih =>
    refine .bind (.isolate (follows_linkRange node position hdomain hpath hids hs)) fun _ t _ hst ht => ?_
    exact ih (position + 1) (hst.lt_size hdomain) (hst.lt_size hpath) (hst.all_lt_size hids) ht

theorem follows_intermediates {path : Nat} (node : Location) (position k : Nat) (entities : List Entity)
    (hpath : path < s.contexts.size) (hs : IsSound ⟨w, s.contexts⟩) :
    Follows w (intermediates l path node position k entities)
      (Run.intermediates l path node position k entities) s := by
  induction entities generalizing k w s with
  | nil => exact .pure [] hs
  | cons entity rest ih =>
    rw [intermediates, Run.intermediates]
    refine .enter_bind (hs.push (by rintro ⟨⟩) rfl hpath) fun id t hid hst ht => ?_
    refine .holding (by simpa using hid) ht fun v ht => ?_
    refine .bind (.tryCatch (follows_resolve entity hid ht) fun e u _ hu => ?_) fun resolved u _ htu hu => ?_
    · cases e <;> exact .throw _ hu
    split
    · have hpath := (hst.trans htu).lt_size hpath
      exact .bind (ih (k + 1) hpath hu) fun others t _ _ ht => .pure _ ht
    · exact .throw _ hu

theorem follows_linkPath (joined : Bool) (node : Location) (position : Nat) (hdomain : l.domain < s.contexts.size)
    (hs : IsSound ⟨w, s.contexts⟩) :
    Follows w (linkPath l joined node position) (Run.linkPath l joined node position) s := by
  rw [linkPath, Run.linkPath]
  refine .enter_bind (hs.push (by rintro ⟨⟩) rfl hdomain) fun path t hpath hst ht => ?_
  refine .holding (by simpa using hpath) ht fun v ht => ?_
  refine .bind (.aside (Run.isBlind_discards _ node) ht) fun discarded u _ htu hu => ?_
  split
  · exact .pure () hu
  have hpath := htu.lt_size hpath
  refine .context_bind hpath (.bind (follows_intermediates node position 0 _ hpath hu) fun ids t hout hut ht => ?_)
  have hids (id : Nat) (hid : id ∈ ids) : id < t.contexts.size :=
    ((Run.intermediates_meets l path node position 0 _ u).2 ids t hout id hid).lt_size
  have hdomain := (hst.trans (htu.trans hut)).lt_size hdomain
  have hpath := hut.lt_size hpath
  refine .holding hids ht fun v ht => ?_
  cases joined with
  | true => exact follows_linkRanges position [node] hdomain hpath hids ht
  | false =>
    refine .bind (.aside (.ofSetup _) ht) fun nodes u hout _ hu => ?_
    obtain ⟨-, rfl⟩ := Run.ofSetup_ok.1 hout
    exact follows_linkRanges 1 nodes hdomain hpath hids hu

theorem follows_linkPaths (joined : Bool) (position : Nat) (nodes : List Location)
    (hdomain : l.domain < s.contexts.size) (hs : IsSound ⟨w, s.contexts⟩) :
    Follows w (linkPaths l joined position nodes) (Run.linkPaths l joined position nodes) s := by
  induction nodes generalizing position s with
  | nil => exact .pure () hs
  | cons node rest ih =>
    refine .bind (.isolate (follows_linkPath joined node position hdomain hs)) fun _ t _ hst ht => ?_
    exact ih (position + 1) (hst.lt_size hdomain) ht

theorem follows_linkMerge (node : Location) (position : Nat) (hdomain : l.domain < s.contexts.size)
    (hs : IsSound ⟨w, s.contexts⟩) : Follows w (linkMerge l node position) (Run.linkMerge l node position) s := by
  rw [linkMerge, Run.linkMerge]
  refine .enter_bind (hs.push (by rintro ⟨⟩) rfl hdomain) fun path t hpath hst ht => ?_
  refine .holding (by simpa using hpath) ht fun v ht => ?_
  refine .bind (.aside (Run.isBlind_discards _ node) ht) fun discarded u _ htu hu => ?_
  split
  · exact .pure () hu
  refine .enter_bind (hu.push (by rintro ⟨⟩) rfl (htu.lt_size hpath)) fun range t hrange hut ht => ?_
  have hdomain := (hst.trans (htu.trans hut)).lt_size hdomain
  refine .holding (by simpa using hrange) ht fun v ht => ?_
  refine .bind (.aside (Run.isBlind_discards _ node) ht) fun discarded u _ htu hu => ?_
  split
  · exact .pure () hu
  have hrange := htu.lt_size hrange
  refine .bind_ok (.resolvedValue? (htu.lt_size hdomain) hu) (Run.outcome_resolvedValue? l.domain u) ?_
  cases (u.contexts.get l.domain).resolved?.map (·.value) with
  | none => exact .pure () hu
  | some identity =>
    refine .bind (follows_resolveWith _ (some identity) hrange hu) fun _ t _ hut ht => ?_
    refine .bind (follows_link _ (hut.lt_size hrange) ht) fun _ u _ _ hu => ?_
    exact .aside (.of_modify fun _ _ => rfl) hu

theorem follows_followLink (hdomain : l.domain < s.contexts.size) (hs : IsSound ⟨w, s.contexts⟩) :
    Follows w (followLink l) (Run.followLink l) s := by
  rw [followLink, Run.followLink]
  refine .bind (.context hdomain hs) fun domain t _ hst ht => ?_
  have hdomain := hst.lt_size hdomain
  split
  · exact follows_linkMerge domain.node domain.position hdomain ht
  split
  · refine .bind (.aside (.ofSetup _) ht) fun join u _ htu hu => ?_
    refine .bind (.aside (Run.isBlind_joinRanges join domain.node) hu) fun nodes t _ hut ht => ?_
    exact follows_linkPaths true 1 nodes ((htu.trans hut).lt_size hdomain) ht
  · refine .bind (.aside (.ofSetup _) ht) fun nodes u _ htu hu => ?_
    exact follows_linkPaths false 1 nodes (htu.lt_size hdomain) hu

theorem follows_runLink {domain : Nat} (mapping : Mapping) (domainGraph? : Option String) (link : Link)
    (hdomain : domain < s.contexts.size) (hs : IsSound ⟨w, s.contexts⟩) :
    Follows w (runLink scene place mapping domain domainGraph? link)
      (Run.runLink scene place mapping domain domainGraph? link) s := by
  rw [runLink, Run.runLink]
  refine .bind (.aside (.of_modify fun _ _ => rfl) hs) fun _ t _ hst ht => ?_
  have hdomain := hst.lt_size hdomain
  cases link.graph? with
  | none => exact follows_followLink hdomain ht
  | some name =>
    refine .bind (.aside (.ofSetup _) ht) fun graph u _ htu hu => ?_
    exact follows_followLink (htu.lt_size hdomain) hu

theorem follows_runLinks {domain : Nat} (mapping : Mapping) (node : Location) (domainGraph? : Option String)
    (k : Nat) (links : List Link) (hdomain : domain < s.contexts.size) (hs : IsSound ⟨w, s.contexts⟩) :
    Follows w (runLinks scene place mapping node domain domainGraph? k links)
      (Run.runLinks scene place mapping node domain domainGraph? k links) s := by
  induction links generalizing place k s with
  | nil => exact .pure () hs
  | cons link rest ih =>
    rw [runLinks, Run.runLinks]
    split
    · exact ih (k + 1) hdomain hs
    · refine .bind (.isolate (follows_runLink mapping domainGraph? link hdomain hs)) fun _ t _ hst ht => ?_
      exact ih (k + 1) (hst.lt_size hdomain) ht

/-! ## Domain nodes -/

/-- At a domain node there are no contexts at first, so that it does not matter that they are cleared. -/
theorem follows_runDomain (mapping : Mapping) (mappingGraph? : Option String) (node : Location) (position : Nat)
    (hs : s.contexts = .empty) :
    Follows ⟨some (node, position), []⟩ (runDomain scene place mapping mappingGraph? node position)
      (Run.runDomain scene place mapping mappingGraph? node position) s := by
  rw [runDomain, Run.runDomain]
  refine .cleared_bind hs (.enter_bind (hs ▸ Moment.isSound_domain node position) fun domain t hdomain _ ht => ?_)
  refine .holding (by simpa using hdomain) ht fun v ht => ?_
  refine .bind (.aside (Run.isBlind_discards _ node) ht) fun discarded u _ htu hu => ?_
  split
  · exact .aside (.of_modify fun _ _ => rfl) hu
  refine .bind (follows_resolve _ (htu.lt_size hdomain) hu) fun resolved t _ hut ht => ?_
  have hdomain := (htu.trans hut).lt_size hdomain
  split
  · refine .bind (.aside (Run.isBlind_domainGraph mapping mappingGraph? node position) ht) fun graph? u _ htu hu => ?_
    have hdomain := htu.lt_size hdomain
    refine .bind (follows_link graph? hdomain hu) fun _ t _ hut ht => ?_
    exact follows_runLinks mapping node graph? 1 mapping.links (hut.lt_size hdomain) ht
  · exact .throw _ ht

/-- Between domain nodes there are no contexts, whatever has become of those of the last one in the run itself. -/
def Tracks {α : Type} (x : Watched α) (m : Run α) : Prop :=
  ∀ s r t, outcome m s = (r, t) →
    ComesTo ⟨none, []⟩ x { s with contexts := .empty } r { t with contexts := .empty }

namespace Tracks

variable {α β : Type} {x : Watched α} {m : Run α} {f : α → Run β} {f' : α → Watched β}

theorem pure (a : α) : Tracks (Pure.pure a : Watched α) (Pure.pure a) := by
  rintro s r t ⟨⟩
  exact .of_eq fun _ => rfl

theorem throw (e : Fault) : Tracks (throw e : Watched α) (throw e) := by
  rintro s r t ⟨⟩
  exact .of_eq fun _ => rfl

theorem aside (hm : m.IsBlind) : Tracks (aside m) m := by
  intro s r t hout
  have hcomes := ComesTo.aside (w := ⟨none, []⟩) (s := { s with contexts := .empty }) hm
  rwa [after, hm s .empty, Run.after_eq hout, hout] at hcomes

theorem bind (hx : Tracks x m) (hf : ∀ a, Tracks (f' a) (f a)) : Tracks (x >>= f') (m >>= f) := by
  intro s r t hout
  rw [Run.outcome_bind] at hout
  rcases hm : outcome m s with ⟨e | a, u⟩
  · rw [hm] at hout
    cases hout
    exact (hx s _ _ hm).bind_error
  · rw [hm] at hout
    exact (hx s _ u hm).bind_ok (hf a u r t hout)

theorem tryCatch {handler' : Fault → Watched α} {handler : Fault → Run α} (hx : Tracks x m)
    (hh : ∀ e, Tracks (handler' e) (handler e)) :
    Tracks (MonadExcept.tryCatch x handler') (MonadExcept.tryCatch m handler) := by
  intro s r t hout
  rw [Run.outcome_tryCatch] at hout
  rcases hm : outcome m s with ⟨e | a, u⟩
  · rw [hm] at hout
    exact (hx s _ u hm).tryCatch_error (hh e u r t hout)
  · rw [hm] at hout
    cases hout
    exact (hx s _ _ hm).tryCatch_ok

end Tracks

theorem tracks_runDomain (mapping : Mapping) (mappingGraph? : Option String) (node : Location) (position : Nat) :
    Tracks (releasing (atDomain node position (runDomain scene place mapping mappingGraph? node position)))
      (Run.runDomain scene place mapping mappingGraph? node position) := by
  intro s r t hout
  -- the run clears the contexts itself, before it enters any
  have hout : outcome (Run.runDomain scene place mapping mappingGraph? node position)
      { s with contexts := .empty } = (r, t) := hout
  obtain ⟨hcomes, -, -⟩ := (follows_runDomain mapping mappingGraph? node position rfl).ends hout
  have hdomain : ComesTo ⟨none, []⟩
      (atDomain node position (runDomain scene place mapping mappingGraph? node position)) _ r t := hcomes
  exact hdomain.releasing rfl rfl

theorem tracks_runDomains (mapping : Mapping) (mappingGraph? : Option String) (position : Nat)
    (nodes : List Location) :
    Tracks (runDomains scene place mapping mappingGraph? position nodes)
      (Run.runDomains scene place mapping mappingGraph? position nodes) := by
  induction nodes generalizing position with
  | nil => exact .pure ()
  | cons node rest ih =>
    refine .bind (.tryCatch (tracks_runDomain mapping mappingGraph? node position) fun e => ?_) fun _ => ih _
    cases e with
    | abort e => exact .throw _
    | drop cause =>
      exact .bind (.aside (.of_modify fun _ _ => rfl)) fun _ => .aside (.of_modify fun _ _ => rfl)

/-! ## Mappings -/

theorem tracks_cleared {α : Type} {x : Watched α} {m : Run α} (h : Tracks x m) :
    Tracks (do change fun _ => .empty; x) m := by
  intro s r t hout moments
  have hcleared : IsSound ⟨⟨none, []⟩, .empty⟩ := Moment.isSound_empty rfl
  obtain ⟨more, hmore, hall⟩ := h s r t hout (moments ++ [⟨⟨none, []⟩, .empty⟩])
  refine ⟨⟨⟨none, []⟩, .empty⟩ :: more, ?_, List.forall_mem_cons.2 ⟨hcleared, hall⟩⟩
  rw [List.append_cons]
  exact hmore

theorem tracks_runMapping (number : Nat) (mapping : Mapping) :
    Tracks (runMapping scene number mapping) (Run.runMapping scene number mapping) := by
  rw [runMapping, Run.runMapping]
  refine tracks_cleared ?_
  dsimp only
  cases mapping.graph? with
  | none =>
    refine .bind (.pure none) fun _ => .bind (.aside (.ofSetup _)) fun nodes => ?_
    exact .bind (.aside (.of_modify fun _ _ => rfl)) fun _ => tracks_runDomains mapping _ 1 nodes
  | some name =>
    refine .bind (.aside (.ofSetup _)) fun graph => .bind (.pure (some graph)) fun _ => ?_
    refine .bind (.aside (.ofSetup _)) fun nodes => ?_
    exact .bind (.aside (.of_modify fun _ _ => rfl)) fun _ => tracks_runDomains mapping _ 1 nodes

theorem tracks_runMappings (k : Nat) (mappings : List Mapping) :
    Tracks (runMappings scene k mappings) (Run.runMappings scene k mappings) := by
  induction mappings generalizing k with
  | nil => exact .pure ()
  | cons mapping rest ih =>
    rw [runMappings, Run.runMappings]
    split
    · exact .bind (tracks_runMapping k mapping) fun _ => ih (k + 1)
    · exact .bind (.pure ()) fun _ => ih (k + 1)

end Watched

namespace Engine

/-- A watched run comes to what the run comes to, so no context is ever asked for that is not there. At each of
its moments the first context is that of the domain node that it is at, each other belongs to an earlier one, and
all numbers that are held have a context; so the way up from any context ends at the first one, which is its
owner. -/
theorem executeWatched_sound (engine : Engine) (seed : List UInt8) (document : Xml.Document) :
    ∃ moments, engine.executeWatched seed document = some (engine.execute seed document, moments) ∧
      ∀ m ∈ moments, m.IsSound ∧ ∀ id < m.contexts.size,
        m.contexts.climb? m.contexts.size id = some 0 ∧ m.contexts.owner id = 0 := by
  rw [executeWatched, execute]
  cases engine.validate with
  | error e => exact ⟨[], rfl, by simp⟩
  | ok =>
    dsimp only
    rcases hout : (Run.runMappings ⟨engine, engine.source document⟩ 1 engine.mapping.mappings).run
      (.initial (engine.uuidSource seed)) with ⟨r, t⟩
    obtain ⟨moments, hrun, hall⟩ := Watched.tracks_runMappings 1 engine.mapping.mappings _ r t hout []
    have hstart : ∀ uuids, { RunState.initial uuids with contexts := .empty } = RunState.initial uuids :=
      fun _ => rfl
    rw [hstart] at hrun
    rw [hrun]
    refine ⟨moments, ?_, fun m hm => ⟨hall m hm, fun id hid => ?_⟩⟩
    · cases r with
      | ok _ => rfl
      | error e => cases e <;> rfl
    · exact ⟨(hall m hm).climb?_eq hid hid, (hall m hm).owner_eq hid⟩

/-- While the birth is resolved that hangs off the merged description of the person. -/
theorem executeWatched_sound_phone :
    ∃ moments, contactEngine.executeWatched [] personWithPhone =
        some (contactEngine.execute [] personWithPhone, moments) ∧
      ∃ m ∈ moments, m.contexts.size = 7 ∧ m.watch.held = [6, 5, 5, 4, 0] ∧ m.IsSound ∧
        m.contexts.climb? 7 6 = some 0 := by
  have htest : (contactEngine.executeWatched [] personWithPhone).any (fun run => run.2.any fun m =>
      m.contexts.size == 7 && m.watch.held == [6, 5, 5, 4, 0]) = true := by
    decide +kernel
  obtain ⟨moments, hrun, hsound⟩ := executeWatched_sound contactEngine [] personWithPhone
  rw [hrun, Option.any_some, List.any_eq_true] at htest
  obtain ⟨m, hm, htest⟩ := htest
  rw [Bool.and_eq_true, beq_iff_eq, beq_iff_eq] at htest
  obtain ⟨hsize, hheld⟩ := htest
  obtain ⟨hm', hways⟩ := hsound m hm
  rw [hsize] at hways
  exact ⟨moments, hrun, m, hm, hsize, hheld, hm', (hways 6 (by decide)).1⟩

end Engine

end Crosswalk
