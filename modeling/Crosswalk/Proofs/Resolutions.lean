import Crosswalk.Proofs.WholeRuns
import Crosswalk.Proofs.Writing

/-!
# The resolutions of a run

A run resolves entities: those of its domain nodes, its intermediate entities and its ranges, and with each
of them, in turn, the entities that are attached to it. A `Resolution` is one of them at the moment at
which it is taken up. `Resolution.Attaches` leads from an entity to those that are attached to it, and
`Part.Resolves` from the opening of a part to the entities that it resolves itself. A relation that
allows for the value of each of these entities, and for the little that happens around them, allows
for the whole opening, so a fact about a single value reaches every run.
-/

namespace Crosswalk

open Crosswalk.Xml (Location)

/-- What holds of an entity if it holds of all that are attached to it holds of every entity. -/
theorem Entity.induction {P : Entity → Prop}
    (step : ∀ e : Entity, (∀ a ∈ e.additionals, P a.entity) → P e) (e : Entity) : P e :=
  @Entity.rec P (fun as => ∀ a ∈ as, P a.entity) (fun a => P a.entity)
    (fun _ _ _ _ _ _ h => step _ h) (by simp) (fun _ _ h h' => List.forall_mem_cons.2 ⟨h, h'⟩)
    (fun _ _ h => h) e

/-! ## States after single steps -/

def RunState.countLink (s : RunState) : RunState :=
  { s with counters := { s.counters with linksAttempted := s.counters.linksAttempted + 1 } }

def RunState.enter (s : RunState) (c : Context) : RunState :=
  { s with contexts := s.contexts.push c }

namespace Run

/-- An entity that is taken up in a context, to be resolved there. -/
structure Resolution where
  scene : Scene
  place : Place
  id : Nat
  identity? : Option Value
  entity : Entity
  state : RunState

namespace Resolution

def context (x : Resolution) : Context :=
  x.state.contexts.get x.id

def run (x : Resolution) : Run Resolved :=
  resolveWith x.scene x.place x.id x.identity? x.entity

/-- The types and the value of the entity. -/
def valued (x : Resolution) : Run (List String × Value) := do
  let types ← expandAll x.scene x.entity.types
  let value ← shapedValue x.scene x.place x.entity x.id types x.identity?
  return (types, value)

/-- The labels of the entity, if it is a resource; the association of its value comes first. -/
def labelled (x : Resolution) (value : Value) : Run (List (String × Value)) := do
  associate x.scene x.context.node value
  if value.isUri then labels x.scene x.context x.entity.labels else return []

/-- The first ones of the entities that are attached to a resource. -/
def attached (x : Resolution) (value : Value) (additionals : List (Attached Entity)) :
    Run (List (Attached Resolved)) :=
  resolveAdditionals x.scene x.place x.id x.context value 0 additionals

/-- Nothing is resolved in the context of the entity yet. -/
structure IsNew (x : Resolution) : Prop where
  live : x.id < x.state.contexts.size
  new : x.context.resolved? = none

/-- The resolution of an entity in a context that is entered for it. -/
def entering (scene : Scene) (place : Place) (c : Context) (identity? : Option Value)
    (entity : Entity) (s : RunState) : Resolution :=
  ⟨scene, place, s.contexts.size, identity?, entity, s.enter c⟩

@[simp] theorem context_entering (scene : Scene) (place : Place) (c : Context)
    (identity? : Option Value) (entity : Entity) (s : RunState) :
    (entering scene place c identity? entity s).context = c :=
  Contexts.get_push_size s.contexts c

theorem isNew_entering {scene : Scene} {place : Place} {c : Context} (h : c.IsFresh)
    (identity? : Option Value) (entity : Entity) (s : RunState) :
    (entering scene place c identity? entity s).IsNew :=
  ⟨by simp [entering, RunState.enter], by rw [context_entering, h.resolved?_eq]⟩

/-- An entity that is attached to a resource is taken up after those before it. -/
inductive Attaches (x : Resolution) : Resolution → Prop
  | intro {types : List String} {value : Value} {labels : List (String × Value)}
      {before after : List (Attached Entity)} {a : Attached Entity}
      {resolved : List (Attached Resolved)} {relationship : String} {s t u : RunState}
      (valued : outcome x.valued x.state = (.ok (types, value), s)) (isUri : value.isUri)
      (labelled : outcome (x.labelled value) s = (.ok labels, t))
      (divided : x.entity.additionals = before ++ a :: after)
      (earlier : outcome (x.attached value before) t = (.ok resolved, u))
      (expanded : x.scene.namespaces.expand a.relationship = .ok relationship) :
    Attaches x (entering x.scene x.place
      (additionalContext x.context x.id value before.length relationship) none a.entity u)

/-- An entity, or one that hangs off it. -/
abbrev Reaches : Resolution → Resolution → Prop :=
  Relation.ReflTransGen Attaches

variable {x y : Resolution} {s t : RunState} {r : Resolved}

theorem Attaches.isNew (h : x.Attaches y) : y.IsNew := by
  cases h
  exact isNew_entering (isFresh_additionalContext ..) none _ _

theorem Attaches.mem_additionals (h : x.Attaches y) : ∃ a ∈ x.entity.additionals, y.entity = a.entity := by
  obtain ⟨-, -, -, hdivided, -, -⟩ := h
  exact ⟨_, hdivided ▸ List.mem_append_right _ List.mem_cons_self, rfl⟩

theorem Reaches.isNew (h : x.Reaches y) (hx : x.IsNew) : y.IsNew := by
  induction h with
  | refl => exact hx
  | tail _ h _ => exact h.isNew

/-! ## One resolution -/

/-- What is attached to an entity, if it is a resource. -/
def belonging (x : Resolution) (value : Value) : Run (List (Attached Resolved)) :=
  if value.isUri then x.attached value x.entity.additionals else return []

theorem resolveFresh_eq (x : Resolution) :
    resolveFresh x.scene x.place x.id x.identity? x.entity x.context = (do
      let v ← x.valued
      let labels ← x.labelled v.2
      let attached ← x.belonging v.2
      updateContext x.id fun c => { c with resolved? := some ⟨v.2, v.1, labels, attached⟩ }
      return ⟨v.2, v.1, labels, attached⟩) := by
  rw [resolveFresh, valued]
  simp only [bind_assoc, pure_bind, labelled]
  congr 1
  funext types
  congr 1
  funext value
  congr 1
  funext _
  rw [Run.belongings, belonging]
  split <;> simp only [bind_assoc, pure_bind, attached]

theorem outcome_run (h : x.IsNew) :
    outcome x.run x.state = outcome (if x.entity.types.isEmpty then throw (Fault.setup .missingType)
      else resolveFresh x.scene x.place x.id x.identity? x.entity x.context) x.state := by
  rw [run, resolveWith_eq, outcome_bind, outcome_context]
  have hnew := h.new
  rw [context] at hnew
  dsimp only
  rw [hnew]
  rfl

/-- How an entity got its value, its labels and what is attached to it. -/
structure Succeeds (x : Resolution) (r : Resolved) (t : RunState) : Prop where
  types_ne : x.entity.types.isEmpty = false
  steps : ∃ u v w, outcome x.valued x.state = (.ok (r.types, r.value), u) ∧
    outcome (x.labelled r.value) u = (.ok r.labels, v) ∧
    outcome (x.belonging r.value) v = (.ok r.additionals, w) ∧
    t = { w with contexts := w.contexts.update x.id fun c => { c with resolved? := some r } }

theorem succeeds_of_run (hx : x.IsNew) (h : outcome x.run x.state = (.ok r, t)) :
    x.Succeeds r t := by
  rw [outcome_run hx] at h
  split at h
  · cases h
  next htypes =>
    rw [resolveFresh_eq] at h
    obtain ⟨v, t₁, h₁, h⟩ := bind_ok.1 h
    obtain ⟨labels, t₂, h₂, h⟩ := bind_ok.1 h
    obtain ⟨attached, t₃, h₃, h⟩ := bind_ok.1 h
    cases h
    exact ⟨by simpa using htypes, t₁, t₂, t₃, h₁, h₂, h₃, rfl⟩

section

variable {n : Nat}

theorem valued_reads (x : Resolution) : Moves (Reads n) x.valued :=
  .bind (.ofSetup _) fun types => .bind (shapedValue_reads x.entity x.id types x.identity?) fun _ =>
    .pure _

theorem labelled_reads (x : Resolution) (value : Value) : Moves (Reads n) (x.labelled value) := by
  refine .bind (associate_reads _ _) fun _ => ?_
  split
  · exact fun s => (labels_meets x.context x.entity.labels s).1
  · exact .pure _

theorem belonging_reads (x : Resolution) (value : Value) (s : RunState) :
    Reads s.contexts.size s (after (x.belonging value) s) := by
  rw [belonging]
  split
  · exact (additionalsMeet x.scene x.place x.entity.additionals x.id x.context value 0 s).1
  · exact .refl

/-- The types of an entity are what their names stand for, and with an identity it has that value. -/
theorem valued_types {types : List String} {value : Value}
    (h : outcome x.valued x.state = (.ok (types, value), t)) :
    x.entity.types.mapM x.scene.namespaces.expand = .ok types ∧
      ∀ identity, x.identity? = some identity → value = identity := by
  obtain ⟨types, t₁, h₁, h⟩ := bind_ok.1 h
  obtain ⟨htypes, rfl⟩ := ofSetup_ok.1 h₁
  obtain ⟨value, t₂, hvalue, h⟩ := bind_ok.1 h
  cases h
  refine ⟨htypes, fun identity hidentity => ?_⟩
  rw [hidentity] at hvalue
  cases hvalue
  rfl

theorem value_of_identity {identity : Value} (hx : x.IsNew) (hidentity : x.identity? = some identity)
    (h : outcome x.run x.state = (.ok r, t)) : r.value = identity := by
  obtain ⟨-, u, _, _, hvalued, -⟩ := succeeds_of_run hx h
  exact (valued_types hvalued).2 identity hidentity

/-- An entity that has been resolved stands in its context. -/
theorem reads_of_run (hx : x.IsNew) (h : outcome x.run x.state = (.ok r, t)) :
    Reads 0 x.state t ∧ (t.contexts.get x.id).resolved? = some r := by
  have hmeets : Meets (Reads 0) _ x.run x.state :=
    resolveWith_new_meets x.entity x.identity? hx.live hx.new
  exact ⟨after_eq h ▸ hmeets.1, (hmeets.2 r t h).1⟩

/-- Until it is noted what an entity is resolved to, nothing is there in its context. -/
theorem resolved?_belonging {v : List String × Value} {ls : List (String × Value)}
    {attached : List (Attached Resolved)} {u w : RunState} (hx : x.IsNew)
    (hvalued : outcome x.valued x.state = (.ok v, s))
    (hlabelled : outcome (x.labelled v.2) s = (.ok ls, u))
    (hbelonging : outcome (x.belonging v.2) u = (.ok attached, w)) :
    (w.contexts.get x.id).resolved? = none := by
  have h₁ : Reads x.state.contexts.size x.state u :=
    ((valued_reads x).outcome hvalued).trans ((labelled_reads x v.2).outcome hlabelled)
  have h₂ : Reads u.contexts.size u w := after_eq hbelonging ▸ belonging_reads x v.2 u
  have h : Reads x.state.contexts.size x.state w := h₁.trans (h₂.of_le h₁.extends.size_le)
  rw [h.resolved?_eq hx.live]
  exact hx.new

end

end Resolution

@[simp] theorem outcome_pure {α : Type} (a : α) (s : RunState) :
    outcome (pure a : Run α) s = (.ok a, s) := rfl

@[simp] theorem outcome_enter (c : Context) (s : RunState) :
    outcome (enter c) s = (.ok s.contexts.size, s.enter c) := rfl

/-! ## Attached entities one after another -/

theorem resolveAdditionals_append (scene : Scene) (place : Place) (owner : Nat) (c : Context)
    (value : Value) (k : Nat) (before rest : List (Attached Entity)) :
    resolveAdditionals scene place owner c value k (before ++ rest) = (do
      let resolved ← resolveAdditionals scene place owner c value k before
      let others ← resolveAdditionals scene place owner c value (k + before.length) rest
      return resolved ++ others) := by
  induction before generalizing k with
  | nil => simp [resolveAdditionals]
  | cons a before ih =>
    obtain ⟨name, entity⟩ := a
    rw [List.cons_append, resolveAdditionals, resolveAdditionals]
    simp only [bind_assoc, pure_bind, ih, List.length_cons, List.cons_append,
      Nat.add_right_comm k 1, ← Nat.add_assoc]

section

variable {scene : Scene} {place : Place} {owner k : Nat} {c : Context} {value : Value}
  {additionals : List (Attached Entity)} {a : Attached Entity} {rs : List (Attached Resolved)}
  {s t : RunState}

theorem resolveAdditionals_cons_ok :
    outcome (resolveAdditionals scene place owner c value k (a :: additionals)) s = (.ok rs, t) ↔
      ∃ relationship r others u, scene.namespaces.expand a.relationship = .ok relationship ∧
        outcome (resolve scene place a.entity s.contexts.size)
          (s.enter (additionalContext c owner value k relationship)) = (.ok r, u) ∧
        outcome (resolveAdditionals scene place owner c value (k + 1) additionals) u = (.ok others, t) ∧
        rs = ⟨relationship, r⟩ :: others := by
  rw [resolveAdditionals]
  constructor
  · intro h
    obtain ⟨relationship, u₁, h₁, h⟩ := bind_ok.1 h
    obtain ⟨hexpanded, rfl⟩ := ofSetup_ok.1 h₁
    obtain ⟨id, u₂, hentered, h⟩ := bind_ok.1 h
    rw [outcome_enter] at hentered
    cases hentered
    obtain ⟨r, u₃, hr, h⟩ := bind_ok.1 h
    obtain ⟨others, u₄, hothers, h⟩ := bind_ok.1 h
    cases h
    exact ⟨relationship, r, others, u₃, hexpanded, hr, hothers, rfl⟩
  · rintro ⟨relationship, r, others, u, hexpanded, hr, hothers, rfl⟩
    refine bind_ok.2 ⟨relationship, s, ofSetup_ok.2 ⟨hexpanded, rfl⟩, ?_⟩
    refine bind_ok.2 ⟨_, _, outcome_enter _ s, ?_⟩
    refine bind_ok.2 ⟨r, u, hr, ?_⟩
    exact bind_ok.2 ⟨others, t, hothers, outcome_pure _ t⟩

theorem length_of_resolveAdditionals
    (h : outcome (resolveAdditionals scene place owner c value k additionals) s = (.ok rs, t)) :
    rs.length = additionals.length := by
  induction additionals generalizing k s rs with
  | nil =>
    cases h
    rfl
  | cons a rest ih =>
    obtain ⟨relationship, r, others, u, -, -, hothers, rfl⟩ := resolveAdditionals_cons_ok.1 h
    rw [List.length_cons, List.length_cons, ih hothers]

end

/-! ## What a resolution may change -/

/-- A relation allows for what happens around the values of entities and their associations. -/
structure Carries (R : RunState → RunState → Prop) : Prop where
  generated : ∀ scene call node position, Moves R (generate scene call node position)
  entered : ∀ s c, c.IsFresh → R s { s with contexts := s.contexts.push c }
  noted : ∀ s id r, (s.contexts.get id).resolved? = none →
    R s { s with contexts := s.contexts.update id fun c => { c with resolved? := some r } }
  committed : ∀ batch, Moves R (commit batch)
  counted : ∀ s counters, R s { s with counters := counters }
  joined : ∀ s joins, R s { s with joins := joins }
  reported : ∀ s diagnostics, R s { s with diagnostics := diagnostics }

/-- A relation allows for what happens around the values of entities. -/
structure Respects (R : RunState → RunState → Prop) : Prop extends Carries R where
  associated : ∀ s a, R s { s with associations := s.associations.record a }

section

variable {R : RunState → RunState → Prop} [IsPreorder RunState R] (hR : Carries R)

include hR

theorem label?_moves (scene : Scene) (call : GeneratorCall) (c : Context) :
    Moves R (label? scene call c) := by
  refine .tryCatch (.bind (hR.generated scene call c.node c.position) fun _ => .pure _) fun e => ?_
  cases e with
  | abort e => exact .throw _
  | drop cause =>
    dsimp only
    split
    · exact .pure _
    · exact .throw _

theorem labels_moves (scene : Scene) (c : Context) (calls : List GeneratorCall) :
    Moves R (labels scene c calls) :=
  Moves.composes.labels fun call _ => label?_moves hR scene call c

omit [IsPreorder RunState R] in
theorem enter_moves {c : Context} (h : c.IsFresh) : Moves R (enter c) :=
  fun s => hR.entered s c h

namespace Resolution

omit hR in
/-- The next entity is attached after those before it. -/
theorem outcome_attached_concat {x : Resolution} {value : Value} {before : List (Attached Entity)}
    {a : Attached Entity} {resolved : List (Attached Resolved)} {relationship : String}
    {r : Resolved} {s t u : RunState}
    (hearlier : outcome (x.attached value before) s = (.ok resolved, t))
    (hexpanded : x.scene.namespaces.expand a.relationship = .ok relationship)
    (hr : outcome (entering x.scene x.place
        (additionalContext x.context x.id value before.length relationship) none a.entity t).run
      (t.enter (additionalContext x.context x.id value before.length relationship)) = (.ok r, u)) :
    outcome (x.attached value (before ++ [a])) s = (.ok (resolved ++ [⟨relationship, r⟩]), u) := by
  rw [attached, resolveAdditionals_append, Nat.zero_add]
  refine bind_ok.2 ⟨resolved, t, hearlier, ?_⟩
  have hlast : outcome (resolveAdditionals x.scene x.place x.id x.context value before.length [a]) t =
      (.ok [⟨relationship, r⟩], u) :=
    resolveAdditionals_cons_ok.2 ⟨relationship, r, [], u, hexpanded, hr, outcome_pure [] u, rfl⟩
  exact bind_ok.2 ⟨_, u, hlast, outcome_pure _ u⟩

/-- The first ones of the entities that are attached to a resource change what each of them may
change. -/
theorem attached_moves {x : Resolution} {types : List String} {value : Value}
    {ls : List (String × Value)} {before after' : List (Attached Entity)} {s t : RunState}
    (valued : outcome x.valued x.state = (.ok (types, value), s)) (isUri : value.isUri)
    (labelled : outcome (x.labelled value) s = (.ok ls, t))
    (divided : x.entity.additionals = before ++ after')
    (h : ∀ y, x.Attaches y → R y.state (after y.run y.state)) :
    R t (after (x.attached value before) t) := by
  have onwards (rest earlier : List (Attached Entity)) (resolved : List (Attached Resolved))
      (u : RunState) (hdivided : x.entity.additionals = earlier ++ (rest ++ after'))
      (hearlier : outcome (x.attached value earlier) t = (.ok resolved, u)) :
      R u (after (resolveAdditionals x.scene x.place x.id x.context value earlier.length rest) u) := by
    induction rest generalizing earlier resolved u with
    | nil => exact refl u
    | cons a rest ih =>
      rw [resolveAdditionals]
      refine rel_bind (Moves.ofSetup _ u) fun relationship u₁ h₁ => ?_
      obtain ⟨hexpanded, rfl⟩ := ofSetup_ok.1 h₁
      have hfresh := isFresh_additionalContext x.context x.id value earlier.length relationship
      refine rel_bind (enter_moves hR hfresh u) fun id u₂ hentered => ?_
      rw [outcome_enter] at hentered
      cases hentered
      have hy := h _ (.intro valued isUri labelled hdivided hearlier hexpanded)
      refine rel_bind hy fun r u₃ hr => ?_
      have hnext := ih (earlier ++ [a]) (resolved ++ [⟨relationship, r⟩]) u₃
        (by rw [hdivided, List.append_assoc]; rfl)
        (outcome_attached_concat hearlier hexpanded hr)
      rw [List.length_append] at hnext
      exact rel_bind hnext fun _ u₄ _ => Moves.pure _ u₄
  exact onwards before [] [] t divided (outcome_pure [] t)

/-- A resolution changes what its value, its labels and each entity that is attached to it may change. -/
theorem run_moves_where {x : Resolution} (hx : x.IsNew)
    (hvalue : R x.state (after x.valued x.state))
    (hlabelled : ∀ v s, outcome x.valued x.state = (.ok v, s) → R s (after (x.labelled v.2) s))
    (h : x.entity.types.isEmpty = false → ∀ y, x.Attaches y → R y.state (after y.run y.state)) :
    R x.state (after x.run x.state) := by
  rw [after, outcome_run hx]
  split
  · exact refl x.state
  next htypes =>
    rw [resolveFresh_eq]
    refine rel_bind hvalue fun v s hvalued => ?_
    refine rel_bind (hlabelled v s hvalued) fun ls t hlabelled => ?_
    refine rel_bind ?_ fun attached u hattached => ?_
    · rw [belonging]
      split
      next huri =>
        exact attached_moves hR hvalued huri hlabelled (List.append_nil _).symm (h (by simpa using htypes))
      next => exact refl t
    · exact hR.noted u x.id _ (resolved?_belonging hx hvalued hlabelled hattached)

/-- A resolution changes what the values and the labels of the entities may change that are taken up with
it. -/
theorem run_moves_along {Q : Resolution → Prop} {x : Resolution} (hx : x.IsNew) (h : Q x)
    (attaches : ∀ x y, Q x → x.entity.types.isEmpty = false → x.Attaches y → Q y)
    (values : ∀ x, Q x → x.entity.types.isEmpty = false → R x.state (after x.valued x.state))
    (labels : ∀ x v s, Q x → x.entity.types.isEmpty = false → outcome x.valued x.state = (.ok v, s) →
      R s (after (x.labelled v.2) s)) :
    R x.state (after x.run x.state) := by
  obtain ⟨entity, hentity⟩ : ∃ e, x.entity = e := ⟨_, rfl⟩
  induction entity using Entity.induction generalizing x with
  | step e ih =>
    subst hentity
    cases typed : x.entity.types.isEmpty with
    | true =>
      have hrun : after x.run x.state = x.state := by
        rw [after, outcome_run hx, if_pos typed]
        rfl
      exact hrun.symm ▸ refl x.state
    | false =>
      refine run_moves_where hR hx (values x h typed) (fun v s => labels x v s h typed) fun _ y hy => ?_
      obtain ⟨a, ha, hentity⟩ := hy.mem_additionals
      exact ih a ha hy.isNew (attaches x y h typed hy) hentity

end Resolution

end

section

variable {R : RunState → RunState → Prop} [IsPreorder RunState R] (hR : Respects R)

include hR

namespace Resolution

theorem labelled_moves (x : Resolution) (value : Value) : Moves R (x.labelled value) := by
  refine .bind (fun s => hR.associated s _) fun _ => ?_
  split
  · exact labels_moves hR.toCarries _ _ _
  · exact .pure _

/-- A resolution changes what the values of all the entities that it reaches may change. -/
theorem run_moves {x : Resolution} (hx : x.IsNew)
    (h : ∀ y, x.Reaches y → R y.state (after y.valued y.state)) :
    R x.state (after x.run x.state) :=
  run_moves_along hR.toCarries (Q := x.Reaches) hx .refl (fun _ _ hy _ hz => hy.tail hz)
    (fun y hy _ => h y hy) fun y v s _ _ _ => labelled_moves hR y v.2 s

/-- What happens before an attached entity is taken up. -/
theorem Attaches.moves {x y : Resolution}
    (h : ∀ y, x.Reaches y → R y.state (after y.valued y.state)) (hy : x.Attaches y) :
    R x.state y.state := by
  have hrun (y : Resolution) (hy : x.Attaches y) : R y.state (after y.run y.state) :=
    run_moves hR hy.isNew fun z hz => h z (hz.head hy)
  obtain ⟨hvalued, huri, hlabelled, hdivided, hearlier, -⟩ := hy
  have h₁ := after_eq hvalued ▸ h x .refl
  have h₂ := (labelled_moves hR x _).outcome hlabelled
  have h₃ := after_eq hearlier ▸ attached_moves hR.toCarries hvalued huri hlabelled hdivided hrun
  refine IsTrans.trans _ _ _ h₁ (IsTrans.trans _ _ _ h₂ (IsTrans.trans _ _ _ h₃ ?_))
  exact hR.entered _ _ (isFresh_additionalContext ..)

theorem Reaches.moves {x y : Resolution}
    (h : ∀ y, x.Reaches y → R y.state (after y.valued y.state)) (hy : x.Reaches y) :
    R x.state y.state := by
  induction hy with
  | refl => exact refl _
  | tail hy hz ih => exact IsTrans.trans _ _ _ ih (hz.moves hR fun w hw => h w (hy.trans hw))

end Resolution

end

end Run

end Crosswalk
