import Crosswalk.Proofs.PartOrder
import Crosswalk.Proofs.Resolutions

/-!
# What the parts of a run resolve

`Part.Resolves` leads from the opening of a part to the entities that it resolves itself, and
`Engine.Resolves` names all the resolutions of a run, those of attached entities with them. A relation
that the values of entities respect is respected by every opening.
-/

namespace Crosswalk

namespace Run

open Crosswalk.Xml (Location)

/-! ## Intermediate entities one after another -/

theorem intermediates_append (l : LinkSetting) (path : Nat) (node : Location) (position : Nat)
    (k : Nat) (before rest : List Entity) :
    intermediates l path node position k (before ++ rest) = (do
      let ids ← intermediates l path node position k before
      let others ← intermediates l path node position (k + before.length) rest
      return ids ++ others) := by
  induction before generalizing k with
  | nil => simp [intermediates]
  | cons entity before ih =>
    rw [List.cons_append, intermediates, intermediates]
    simp only [bind_assoc, pure_bind, ih, ite_bind, drop_bind, List.length_cons, List.cons_append,
      Nat.add_right_comm k 1, ← Nat.add_assoc]


/-- Resolves an intermediate entity, the `k`-th of its path. -/
def resolveIntermediate (l : LinkSetting) (k : Nat) (entity : Entity) (id : Nat) : Run Resolved :=
  tryCatch (resolve l.scene l.place entity id) fun
    | .drop _ => drop (.unresolvedIntermediate (k + 1))
    | .abort e => throw (.abort e)

theorem intermediates_cons (l : LinkSetting) (path : Nat) (node : Location) (position k : Nat)
    (entity : Entity) (rest : List Entity) :
    intermediates l path node position k (entity :: rest) = (do
      let id ← enter (.fresh (.intermediate k) node position (some path))
      let resolved ← resolveIntermediate l k entity id
      if resolved.value.isUri then do
        let others ← intermediates l path node position (k + 1) rest
        return id :: others
      else drop (.unresolvedIntermediate (k + 1))) := rfl

section

variable {l : LinkSetting} {k id : Nat} {entity : Entity} {r : Resolved} {s t u : RunState}

theorem resolveIntermediate_ok : outcome (resolveIntermediate l k entity id) s = (.ok r, t) ↔
    outcome (resolve l.scene l.place entity id) s = (.ok r, t) := by
  rw [resolveIntermediate, outcome_tryCatch]
  rcases outcome (resolve l.scene l.place entity id) s with ⟨e | a, t⟩
  · cases e <;> exact ⟨(by cases ·), (by cases ·)⟩
  · exact Iff.rfl

theorem after_resolveIntermediate (l : LinkSetting) (k : Nat) (entity : Entity) (id : Nat)
    (s : RunState) : after (resolveIntermediate l k entity id) s =
      after (resolve l.scene l.place entity id) s := by
  rw [resolveIntermediate, after, outcome_tryCatch, after]
  rcases outcome (resolve l.scene l.place entity id) s with ⟨e | a, t⟩
  · cases e <;> rfl
  · rfl

/-- The next intermediate entity is resolved after those before it. -/
theorem outcome_intermediates_concat {path position : Nat} {node : Location} {before : List Entity}
    {ids : List Nat}
    (hearlier : outcome (intermediates l path node position 0 before) s = (.ok ids, t))
    (hr : outcome (resolve l.scene l.place entity t.contexts.size)
      (t.enter (.fresh (.intermediate before.length) node position (some path))) = (.ok r, u))
    (huri : r.value.isUri) :
    outcome (intermediates l path node position 0 (before ++ [entity])) s =
      (.ok (ids ++ [t.contexts.size]), u) := by
  rw [intermediates_append, Nat.zero_add]
  refine bind_ok.2 ⟨ids, t, hearlier, ?_⟩
  have hlast : outcome (intermediates l path node position before.length [entity]) t =
      (.ok [t.contexts.size], u) := by
    rw [intermediates_cons]
    refine bind_ok.2 ⟨_, _, outcome_enter _ t, ?_⟩
    refine bind_ok.2 ⟨r, u, resolveIntermediate_ok.2 hr, ?_⟩
    rw [if_pos huri]
    exact bind_ok.2 ⟨_, u, outcome_pure [] u, outcome_pure _ u⟩
  exact bind_ok.2 ⟨_, u, hlast, outcome_pure _ u⟩

end

/-! ## What an opening resolves -/

theorem discards_ok {scene : Scene} {condition? : Option Condition} {node : Location} {b : Bool}
    {s t : RunState} : outcome (discards scene condition? node) s = (.ok b, t) ↔
      Condition.guardFails scene.conditionSetting node condition? = .ok b ∧ t = s := by
  rw [discards]
  cases Condition.guardFails scene.conditionSetting node condition? with
  | error e =>
    constructor
    · rintro ⟨⟩
    · rintro ⟨⟨⟩, -⟩
  | ok a =>
    constructor
    · rintro ⟨⟩
      exact ⟨rfl, rfl⟩
    · rintro ⟨⟨⟩, rfl⟩
      rfl

/-- The entity of a range that is merged into a domain. -/
def Resolution.merging (scene : Scene) (place : Place) (domain : Nat) (entity : Entity)
    (identity : Value) (node : Location) (position : Nat) (s : RunState) : Resolution :=
  .entering scene place (.fresh .range node position (some s.contexts.size)) (some identity) entity
    (s.enter (.fresh .path node position (some domain)))

/-- The entities that the opening of a part resolves itself. -/
inductive Part.Resolves : Part → RunState → Resolution → Prop
  | domain {scene : Scene} {place : Place} {m : Mapping} {mappingGraph? : Option String}
      {node : Location} {position : Nat} {s : RunState} :
    Resolves (.domain scene place m mappingGraph? node position) s
      (.entering scene place (.fresh .domain node position none) none m.domain.target.entity
        { s with contexts := .empty })
  | merge {scene : Scene} {place : Place} {m : Mapping} {node : Location} {id : Nat}
      {domainGraph? : Option String} {l : Link} {s : RunState} {r : Resolved}
      (isMerge : l.target.isMerge) (identity : (s.contexts.get id).resolved? = some r) :
    Resolves (.link scene place m node id domainGraph? l) s
      (.merging scene place id l.range.target.entity r.value (s.contexts.get id).node
        (s.contexts.get id).position s.countLink)
  | intermediate {l : LinkSetting} {joined : Bool} {node : Location} {position : Nat}
      {before after : List Entity} {entity : Entity} {ids : List Nat} {s t : RunState}
      (divided : l.link.target.entities = before ++ entity :: after)
      (earlier : outcome (intermediates l s.contexts.size node position 0 before)
        (s.enter (.fresh .path node position (some l.domain))) = (.ok ids, t)) :
    Resolves (.path l joined node position) s
      (.entering l.scene l.place (.fresh (.intermediate before.length) node position
        (some s.contexts.size)) none entity t)
  | range {l : LinkSetting} {path : Nat} {ids : List Nat} {node : Location} {position : Nat}
      {s : RunState} :
    Resolves (.range l path ids node position) s
      (.entering l.scene l.place (.fresh .range node position (some path)) none
        l.link.range.target.entity s)

theorem Part.Resolves.isNew {p : Part} {s : RunState} {x : Resolution} (h : p.Resolves s x) :
    x.IsNew := by
  cases h <;> exact Resolution.isNew_entering (Context.isFresh_fresh ..) _ _ _

/-! ## What follows on a resolution -/

/-- Writes the entity of a domain node, once it is resolved, and leaves the links. -/
def placeDomain (scene : Scene) (place : Place) (m : Mapping) (mappingGraph? : Option String)
    (node : Location) (position : Nat) (id : Nat) (resolved : Resolved) : Run (List Part) :=
  if resolved.value.isUri then do
    let graph? ← domainGraph scene m mappingGraph? node position
    Run.link id graph?
    return Part.links scene place m node id graph? 1 m.links
  else drop (.domainNotUri resolved.value.kind)

/-- Links a range, once it is resolved. -/
def placeRange (l : LinkSetting) (intermediates : List Nat) (id : Nat) (resolved : Resolved) :
    Run Unit := do
  match ← resolvedValue? l.domain with
  | none => return
  | some domainValue =>
    let properties ← expandAll l.scene l.link.target.relationships
    let batch ← stage .empty l.domain l.domainGraph?
    let batch ← stageAll batch l.linkGraph? intermediates
    let values ← intermediates.mapM resolvedValue?
    let statements :=
      chainStatements l.linkGraph? domainValue.text properties values resolved.value
    let batch ← stage { batch with statements := batch.statements ++ statements } id l.linkGraph?
    commit batch
    count fun c => { c with rangesLinked := c.rangesLinked + 1 }

section

variable {R : RunState → RunState → Prop} [IsPreorder RunState R] (hR : Carries R)

include hR

omit [IsPreorder RunState R] in
theorem count_moves (g : Counters → Counters) : Moves R (count g) :=
  .modify fun s => hR.counted s _

theorem openMapping_moves (scene : Scene) (number : Nat) (m : Mapping) :
    Moves R (openMapping scene number m) :=
  .bind (namedGraph_moves scene none m.graph?) fun _ => .bind (.ofSetup _) fun _ =>
    .bind (count_moves hR _) fun _ => .pure _

omit [IsPreorder RunState R] in
theorem link_moves (id : Nat) (graph? : Option String) : Moves R (Run.link id graph?) := by
  intro s
  rw [after, outcome_link]
  exact hR.committed _ s

theorem domainGraph_moves (scene : Scene) (m : Mapping) (mappingGraph? : Option String)
    (node : Location) (position : Nat) :
    Moves R (domainGraph scene m mappingGraph? node position) :=
  Moves.composes.domainGraph mappingGraph? (fun call _ => hR.generated scene call node position) (.drop _)

theorem placeDomain_moves (scene : Scene) (place : Place) (m : Mapping) (mappingGraph? : Option String)
    (node : Location) (position : Nat) (id : Nat) (resolved : Resolved) :
    Moves R (placeDomain scene place m mappingGraph? node position id resolved) := by
  rw [placeDomain]
  split
  · refine .bind (domainGraph_moves hR _ _ _ _ _) fun g => ?_
    exact .bind (link_moves hR _ _) fun _ => .pure _
  · exact .drop _

theorem placeRange_moves (l : LinkSetting) (ids : List Nat) (id : Nat) (resolved : Resolved) :
    Moves R (placeRange l ids id resolved) := by
  refine .bind (.of_after_eq fun _ => rfl) fun value? => ?_
  split
  · exact .pure _
  refine .bind (.ofSetup _) fun properties => ?_
  refine .bind (.of_after_eq fun s => after_eq (outcome_stage ..)) fun batch => ?_
  refine .bind (.of_after_eq fun s => after_eq (outcome_stageAll ..)) fun batch => ?_
  refine .bind (.of_after_eq fun s => after_eq (outcome_resolvedValues ids s)) fun values => ?_
  refine .bind (.of_after_eq fun s => after_eq (outcome_stage ..)) fun batch => ?_
  exact .bind (hR.committed batch) fun _ => count_moves hR _

variable {s : RunState}

theorem openDomain_moves (hcleared : R s { s with contexts := .empty }) {scene : Scene}
    {place : Place} {m : Mapping} {mappingGraph? : Option String} {node : Location} {position : Nat}
    (h : ∀ x, (Part.domain scene place m mappingGraph? node position).Resolves s x →
      R x.state (after x.run x.state)) :
    R s (after (openDomain scene place m mappingGraph? node position) s) := by
  refine rel_bind hcleared fun _ t₁ h₁ => ?_
  cases h₁
  refine rel_entered (hR.entered _ _ (Context.isFresh_fresh ..))
    (.bind (count_moves hR _) fun _ => .pure _) ?_
  exact rel_bind (h _ .domain) fun resolved t₂ _ => placeDomain_moves hR _ _ _ _ _ _ _ resolved t₂

theorem linkMerge_moves {l : LinkSetting} {node : Location} {position : Nat}
    (h : ∀ r, (s.contexts.get l.domain).resolved? = some r →
      let x := Resolution.merging l.scene l.place l.domain l.link.range.target.entity r.value node
        position s
      R x.state (after x.run x.state)) :
    R s (after (linkMerge l node position) s) := by
  have hpath := Context.isFresh_fresh .path node position (some l.domain)
  refine rel_entered (hR.entered s _ hpath) (.pure _) ?_
  have hrange := Context.isFresh_fresh .range node position (some s.contexts.size)
  refine rel_entered (hR.entered _ _ hrange) (.pure _) ?_
  refine rel_bind (Moves.of_after_eq (fun _ => rfl) _) fun identity? t hidentity => ?_
  have hsame := (Contexts.resolved?_get_push hrange _ l.domain).trans
    (Contexts.resolved?_get_push hpath s.contexts l.domain)
  rw [outcome_resolvedValue?] at hidentity
  cases hidentity
  simp only [hsame]
  rcases hr : (s.contexts.get l.domain).resolved? with _ | r
  · exact Moves.pure _ _
  · refine rel_bind (h r hr) fun _ t _ => ?_
    exact Moves.bind (link_moves hR _ _) (fun _ => count_moves hR _) t

theorem joins_moves : ∀ (l : LinkSetting) (node : Location), Moves R (openFollowed l node) :=
  fun _ node => openFollowed_moves (fun _ => hR.joined) node

theorem openLink_moves {scene : Scene} {place : Place} {m : Mapping} {node : Location} {id : Nat}
    {domainGraph? : Option String} {l : Link}
    (h : ∀ x, (Part.link scene place m node id domainGraph? l).Resolves s x →
      R x.state (after x.run x.state)) :
    R s (after (openLink scene place m id domainGraph? l) s) := by
  refine rel_bind (count_moves hR _ _) fun _ t h₁ => ?_
  cases h₁
  refine rel_bind (namedGraph_moves _ _ _ _) fun g t h₂ => ?_
  have hsame := after_eq h₂
  rw [after_namedGraph] at hsame
  subst hsame
  refine rel_bind (Moves.of_after_eq (fun _ => rfl) _) fun c t h₃ => ?_
  rw [outcome_context] at h₃
  cases h₃
  split
  next hmerge =>
    refine rel_bind (linkMerge_moves hR fun r hr => h _ (.merge hmerge hr)) fun _ t _ => ?_
    exact Moves.pure _ t
  next => exact joins_moves hR _ _ _

/-- The first ones of the intermediate entities of a path change what each of them may change. -/
theorem intermediates_moves {l : LinkSetting} {joined : Bool} {node : Location} {position : Nat}
    {before after' : List Entity} (divided : l.link.target.entities = before ++ after')
    (h : ∀ x, (Part.path l joined node position).Resolves s x → R x.state (after x.run x.state))
    {t : RunState} (ht : t = s.enter (.fresh .path node position (some l.domain))) :
    R t (after (intermediates l s.contexts.size node position 0 before) t) := by
  subst ht
  have onwards (rest earlier : List Entity) (ids : List Nat) (u : RunState)
      (hdivided : l.link.target.entities = earlier ++ (rest ++ after'))
      (hearlier : outcome (intermediates l s.contexts.size node position 0 earlier)
        (s.enter (.fresh .path node position (some l.domain))) = (.ok ids, u)) :
      R u (after (intermediates l s.contexts.size node position earlier.length rest) u) := by
    induction rest generalizing earlier ids u with
    | nil => exact refl u
    | cons entity rest ih =>
      rw [intermediates_cons]
      have hfresh := Context.isFresh_fresh (.intermediate earlier.length) node position
        (some s.contexts.size)
      refine rel_bind (enter_moves hR hfresh u) fun id u₁ h₁ => ?_
      rw [outcome_enter] at h₁
      cases h₁
      have hx := h _ (.intermediate hdivided hearlier)
      refine rel_bind ?_ fun r u₂ h₂ => ?_
      · rw [after_resolveIntermediate]
        exact hx
      split
      next huri =>
        rw [resolveIntermediate_ok] at h₂
        have hnext := ih (earlier ++ [entity]) (ids ++ [u.contexts.size]) u₂
          (by rw [hdivided, List.append_assoc]; rfl) (outcome_intermediates_concat hearlier h₂ huri)
        rw [List.length_append] at hnext
        exact rel_bind hnext fun _ u₃ _ => Moves.pure _ u₃
      next => exact Moves.drop _ u₂
  exact onwards before [] [] _ divided (outcome_pure [] _)

theorem openPath_moves {l : LinkSetting} {joined : Bool} {node : Location} {position : Nat}
    (h : ∀ x, (Part.path l joined node position).Resolves s x → R x.state (after x.run x.state)) :
    R s (after (openPath l joined node position) s) := by
  have hpath := Context.isFresh_fresh .path node position (some l.domain)
  refine rel_entered (hR.entered s _ hpath) (.pure _) ?_
  refine rel_bind (intermediates_moves hR (List.append_nil _).symm h rfl) fun ids t _ => ?_
  split
  · exact Moves.pure _ _
  · exact Moves.bind (.ofSetup _) (fun _ => .pure _) t

theorem linkRange_moves {l : LinkSetting} {path : Nat} {ids : List Nat} {node : Location}
    {position : Nat}
    (h : ∀ x, (Part.range l path ids node position).Resolves s x →
      R x.state (after x.run x.state)) :
    R s (after (linkRange l path ids node position) s) := by
  have hrange := Context.isFresh_fresh .range node position (some path)
  refine rel_entered (hR.entered s _ hrange) (.pure _) ?_
  exact rel_bind (h _ .range) fun resolved t _ => placeRange_moves hR l ids _ resolved t

/-- An opening changes what each entity that it resolves may change. -/
theorem opening_moves_of {p : Part} (hcleared : p.depth = 3 → R s { s with contexts := .empty })
    (h : ∀ x, p.Resolves s x → R x.state (after x.run x.state)) : R s (after p.opening s) := by
  cases p with
  | mapping scene number m => exact openMapping_moves hR scene number m s
  | domain => exact openDomain_moves hR (hcleared rfl) h
  | link => exact openLink_moves hR h
  | path => exact openPath_moves hR h
  | range => exact rel_bind (linkRange_moves hR h) fun _ t _ => Moves.pure _ t

theorem recover_moves (p : Part) (cause : DropCause) :
    Moves R (p.recover cause) := by
  have hdiagnosed (scene : Scene) (place : Place) (node : Location) :
      Moves R (diagnose scene place node cause) :=
    .modify fun s => hR.reported s _
  cases p with
  | mapping => exact .drop cause
  | domain => exact .bind (count_moves hR _) fun _ => hdiagnosed _ _ _
  | link => exact hdiagnosed _ _ _
  | path => exact hdiagnosed _ _ _
  | range => exact hdiagnosed _ _ _

end

section

variable {R : RunState → RunState → Prop} [IsPreorder RunState R] (hR : Respects R) {s : RunState}

include hR

/-- An opening changes what the values of all the entities that it resolves may change. -/
theorem opening_moves {p : Part} (hcleared : p.depth = 3 → R s { s with contexts := .empty })
    (h : ∀ x y, p.Resolves s x → x.Reaches y → R y.state (after y.valued y.state)) :
    R s (after p.opening s) :=
  opening_moves_of hR.toCarries hcleared fun x hx =>
    Resolution.run_moves hR hx.isNew fun y hy => h x y hx hy

/-- What happens in an opening before an entity is taken up. -/
theorem Part.Resolves.moves {p : Part} {x : Resolution}
    (hcleared : p.depth = 3 → R s { s with contexts := .empty })
    (h : ∀ x y, p.Resolves s x → x.Reaches y → R y.state (after y.valued y.state))
    (hx : p.Resolves s x) : R s x.state := by
  have hrun (x : Resolution) (hx : p.Resolves s x) : R x.state (after x.run x.state) :=
    Resolution.run_moves hR hx.isNew fun y hy => h x y hx hy
  have hentered (t : RunState) (role : Role) (node : Location) (position : Nat)
      (parent? : Option Nat) : R t (t.enter (.fresh role node position parent?)) :=
    hR.entered t _ (Context.isFresh_fresh role node position parent?)
  cases hx with
  | domain => exact IsTrans.trans _ _ _ (hcleared rfl) (hentered ..)
  | merge => exact IsTrans.trans _ _ _ (hR.counted s _) (IsTrans.trans _ _ _ (hentered ..) (hentered ..))
  | intermediate divided earlier =>
    have hearlier := after_eq earlier ▸ intermediates_moves hR.toCarries divided hrun rfl
    exact IsTrans.trans _ _ _ (hentered ..) (IsTrans.trans _ _ _ hearlier (hentered ..))
  | range => exact hentered ..

end

end Run

namespace Engine

open Crosswalk.Run

variable {engine : Engine} {seed : List UInt8} {document : Xml.Document}

/-- An entity is resolved in the course of a run. -/
def Resolves (engine : Engine) (seed : List UInt8) (document : Xml.Document) (y : Resolution) :
    Prop :=
  ∃ p s x, engine.Enters seed document p s ∧ p.Resolves s x ∧ x.Reaches y

theorem Resolves.isNew {y : Resolution} (h : engine.Resolves seed document y) : y.IsNew := by
  obtain ⟨p, s, x, -, hx, hy⟩ := h
  exact hy.isNew hx.isNew

section

variable {R : RunState → RunState → Prop} [IsPreorder RunState R] (hR : Respects R)
  (hcleared : ∀ s, R s { s with contexts := .empty })
  (hvalued : ∀ y, engine.Resolves seed document y → R y.state (after y.valued y.state))

include hR hcleared hvalued

/-- What the values of all entities respect is kept along the whole run. -/
theorem keptAlong : KeptAlong R (engine.parts document) (engine.start seed) where
  opening q u hq := opening_moves hR (fun _ => hcleared u) fun x y hx hy =>
    hvalued y ⟨q, u, x, hq, hx, hy⟩
  recover := recover_moves hR.toCarries

theorem rel_of_resolves {y : Resolution} (h : engine.Resolves seed document y) :
    R (engine.start seed) y.state := by
  obtain ⟨p, s, x, hp, hx, hy⟩ := h
  have h₁ := (keptAlong hR hcleared hvalued).rel_entered hp
  have h₂ := hx.moves hR (fun _ => hcleared s) fun x y hx hy => hvalued y ⟨p, s, x, hp, hx, hy⟩
  have h₃ := Resolution.Reaches.moves hR (fun z hz => hvalued z ⟨p, s, x, hp, hx, hz⟩) hy
  exact IsTrans.trans _ _ _ h₁ (IsTrans.trans _ _ _ h₂ h₃)

theorem rel_final : R (engine.start seed) (engine.final seed document) := by
  rw [final_eq]
  exact (keptAlong hR hcleared hvalued).rel_runAll

end

end Engine

end Crosswalk
