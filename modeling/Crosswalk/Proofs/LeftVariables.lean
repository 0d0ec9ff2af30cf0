import Crosswalk.Proofs.Atomicity
import Crosswalk.Proofs.Origins
import Crosswalk.Proofs.SetOnce

/-!
# Variables that are left behind

A variable is set as soon as an entity that names it gets its first value. Whatever goes wrong afterwards, in
the types that shape the value, in the labels, in an attached entity or in the batch, is a failure of the part
that took the entity up, and the report of a failure takes nothing back. So a part that is dropped leaves
behind the variables that its entities have set, and a later entity that names one of them is resolved as if
the part had not been dropped.
-/

namespace Crosswalk

open Crosswalk.Xml (Location)

/-- How long a variable lasts: for a whole run, or as long as a domain node is processed. -/
inductive Scope where
  | global
  | domain
  deriving DecidableEq, Repr

/-- The variables that are set. Those of a domain node are in its context, which is the first one. -/
def RunState.table (s : RunState) : Scope → Table Value
  | .global => s.globals
  | .domain => (s.contexts.get 0).bindings

/-- The state with a variable set, that of a domain node from a context that leads there. -/
def RunState.set (s : RunState) (scope : Scope) (id : Nat) (name : String) (v : Value) : RunState :=
  match scope with
  | .global => { s with globals := s.globals.insert name v }
  | .domain => { s with contexts := s.contexts.bind id name v }

theorem RunState.table_set {s : RunState} {id : Nat} (hid : id < s.contexts.size)
    (hdomain : s.contexts.owner id = 0) (scope : Scope) (name : String) (v : Value) (other : Scope) :
    (s.set scope id name v).table other =
      if other = scope then (s.table other).insert name v else s.table other := by
  cases scope <;> cases other
  case domain.domain =>
    have hlt : 0 < s.contexts.size := Nat.lt_of_le_of_lt (Nat.zero_le id) hid
    rw [if_pos rfl, set, table, Contexts.bind, hdomain, Contexts.get_update_of_lt hlt]
    rfl
  all_goals rfl

namespace Entity

variable {e : Entity} {name : String}

/-- The variable that an entity asks for its value: a global one comes first. -/
def asked? (e : Entity) : Option (Scope × String) :=
  match e.globalName?, e.variableName? with
  | some name, _ => some (.global, name)
  | none, some name => some (.domain, name)
  | none, none => none

theorem globalName?_of_asked? (h : e.asked? = some (.global, name)) : e.globalName? = some name := by
  unfold asked? at h
  split at h <;> cases h
  assumption

theorem names_of_asked? (h : e.asked? = some (.domain, name)) :
    e.globalName? = none ∧ e.variableName? = some name := by
  unfold asked? at h
  split at h <;> cases h
  exact ⟨‹_›, ‹_›⟩

theorem names_of_not_asked? (h : e.asked? = none) : e.globalName? = none ∧ e.variableName? = none := by
  unfold asked? at h
  split at h <;> cases h
  exact ⟨‹_›, ‹_›⟩

end Entity

namespace Run

variable {s t u : RunState} {p : Part} {x y : Resolution} {scope : Scope} {name : String} {v : Value}
  {types : List String} {e : Fault}

/-! ## Steps that set nothing -/

/-- The variables of a scope stay the same. -/
def SameVariables (scope : Scope) (s t : RunState) : Prop :=
  t.table scope = s.table scope

instance : IsPreorder RunState (SameVariables scope) where
  refl _ := rfl
  trans _ _ _ h h' := h'.trans h

theorem respects_sameVariables : Respects (SameVariables scope) where
  generated scene call node position s := by
    obtain ⟨uuids, hu⟩ := after_generate scene call node position s
    rw [hu]
    cases scope <;> rfl
  associated _ _ := by cases scope <;> rfl
  entered s c h := by
    cases scope with
    | global => rfl
    | domain => exact Contexts.bindings_get_push h s.contexts 0
  noted s id r _ := by
    cases scope with
    | global => rfl
    | domain => exact Contexts.get_update_congr (·.bindings) fun _ => rfl
  committed batch s := by
    rw [after, outcome_commit]
    split
    · cases scope with
      | global => rfl
      | domain => exact Contexts.get_markLinked_congr (·.bindings) (fun _ => rfl) s.contexts _ 0
    · exact refl (r := SameVariables scope) s
  counted _ _ := by cases scope <;> rfl
  joined _ _ := by cases scope <;> rfl
  reported _ _ := by cases scope <;> rfl

/-- A variable has a value. -/
def IsSet (scope : Scope) (name : String) (v : Value) (s : RunState) : Prop :=
  (s.table scope).get? name = some v

theorem SameVariables.isSet_iff (h : SameVariables scope s t) :
    IsSet scope name v t ↔ IsSet scope name v s := by
  rw [IsSet, h, IsSet]

/-- A variable is only set by the value of an entity. -/
theorem onlyByValues_isSet (scope : Scope) (name : String) (v : Value) : OnlyByValues (IsSet scope name v) where
  respects := respects_sameVariables.mono fun _ _ h => h.isSet_iff.1
  cleared s h := by
    cases scope with
    | global => exact h
    | domain => cases h

/-! ## The value of an entity with a variable -/

section

variable {scene : Scene} {place : Place} {entity : Entity} {id : Nat}

theorem lookup?_of_owner (hdomain : s.contexts.owner id = 0) :
    s.contexts.lookup? id name = (s.table .domain).get? name := by
  rw [Contexts.lookup?, hdomain]
  rfl

/-- What an entity with a variable gets is looked up, or it is a first value and is set. -/
theorem outcome_entityValue_of_asked (hdomain : s.contexts.owner id = 0)
    (hasked : entity.asked? = some (scope, name)) :
    outcome (entityValue scene place entity id types) s =
      match (s.table scope).get? name with
      | some v => (.ok v, s)
      | none => outcome (do
          let v ← firstValue scene entity.generator? (s.contexts.get id) name
          modify fun t => t.set scope id name v
          return v) s := by
  cases scope with
  | global =>
    rw [entityValue, Entity.globalName?_of_asked? hasked]
    dsimp only
    rw [globalValue, outcome_bind, outcome_get, RunState.table]
    dsimp only
    cases s.globals.get? name with
    | some v => exact outcome_pure v s
    | none =>
      dsimp only
      rw [outcome_bind, outcome_context]
      rfl
  | domain =>
    obtain ⟨hglobal, hname⟩ := Entity.names_of_asked? hasked
    rw [entityValue, hglobal, hname]
    dsimp only
    rw [variableValue, outcome_bind, outcome_get]
    dsimp only
    rw [lookup?_of_owner hdomain]
    cases (s.table .domain).get? name with
    | some v => exact outcome_pure v s
    | none =>
      dsimp only
      rw [outcome_bind, outcome_context]
      rfl

theorem outcome_entityValue_of_set (hdomain : s.contexts.owner id = 0)
    (hasked : entity.asked? = some (scope, name)) (h : IsSet scope name v s) :
    outcome (entityValue scene place entity id types) s = (.ok v, s) := by
  rw [IsSet] at h
  rw [outcome_entityValue_of_asked hdomain hasked, h]

/-- The first value of a variable is what the entity gets, and it is set. -/
theorem outcome_entityValue_of_unset (hdomain : s.contexts.owner id = 0)
    (hasked : entity.asked? = some (scope, name)) (h : (s.table scope).get? name = none) :
    outcome (entityValue scene place entity id types) s =
      match outcome (firstValue scene entity.generator? (s.contexts.get id) name) s with
      | (.ok v, t) => (.ok v, t.set scope id name v)
      | (.error e, t) => (.error e, t) := by
  rw [outcome_entityValue_of_asked hdomain hasked, h]
  dsimp only
  rw [outcome_bind]
  rcases outcome (firstValue scene entity.generator? (s.contexts.get id) name) s with ⟨e | v, t⟩
  · rfl
  · exact outcome_pure v _

end

theorem keyedValue_sameVariables (scene : Scene) (place : Place) (generator? : Option GeneratorCall)
    (id : Nat) (types : List String) :
    Moves (SameVariables scope) (keyedValue scene place generator? id types) :=
  Moves.composes.keyedValue .get (fun _ => .throw _)
    (fun call _ => respects_sameVariables.generated scene call)
    (fun _ _ => .modify fun _ => by cases scope <;> rfl) place id types

theorem firstValue_sameVariables (scene : Scene) (generator? : Option GeneratorCall) (c : Context)
    (name : String) : Moves (SameVariables scope) (firstValue scene generator? c name) :=
  firstValue_moves (fun _ _ => by cases scope <;> rfl) generator? c name

namespace Resolution

/-- An entity sets a variable: it asks for one that is not set, and gets a first value for it. -/
structure Sets (x : Resolution) (scope : Scope) (name : String) (v : Value) : Prop where
  own : x.identity? = none
  asked : x.entity.asked? = some (scope, name)
  unset : (x.state.table scope).get? name = none
  starts : ∃ types t, x.StartsFrom types v t

/-- The value of an entity sets the variable that it asks for, if it was not set, and no other one. -/
theorem table_valued (hx : x.IsNew) (hdomain : x.IsInDomain) (typed : x.entity.types.isEmpty = false)
    (scope : Scope) : SameVariables scope x.state (after x.valued x.state) ∨
      ∃ name v, x.Sets scope name v ∧
        (after x.valued x.state).table scope = (x.state.table scope).insert name v := by
  have same : SameVariables scope x.state x.state := rfl
  rcases hts : x.entity.types.mapM x.scene.namespaces.expand with e | types
  · left
    rw [valued, after_bind, expandAll, hts]
    exact same
  rcases own : x.identity? with _ | identity
  swap
  · left
    rw [after_valued_of_identity own]
    exact same
  rw [after_valued hts own]
  rcases hasked : x.entity.asked? with _ | ⟨asked, name⟩
  · left
    obtain ⟨hglobal, hname⟩ := Entity.names_of_not_asked? hasked
    rw [entityValue, hglobal, hname]
    exact keyedValue_sameVariables x.scene x.place x.entity.generator? x.id types x.state
  rcases hset : (x.state.table asked).get? name with _ | v
  swap
  · left
    rw [after, outcome_entityValue_of_set hdomain hasked hset]
    exact same
  have hvalue : outcome (entityValue x.scene x.place x.entity x.id types) x.state = _ :=
    outcome_entityValue_of_unset hdomain hasked hset
  rcases hfirst : outcome (firstValue x.scene x.entity.generator? (x.state.contexts.get x.id) name) x.state
    with ⟨e | v, t⟩ <;> rw [hfirst] at hvalue <;> rw [after_eq hvalue]
  · exact .inl (Moves.outcome (firstValue_sameVariables _ _ _ _) hfirst)
  -- drawing identifiers aside, the state is still that in which the entity was taken up
  obtain ⟨uuids, rfl⟩ : ∃ uuids, t = { x.state with uuids := uuids } :=
    after_eq hfirst ▸ after_firstValue x.entity.generator? (x.state.contexts.get x.id) name x.state
  have hstarts : x.StartsFrom types v (RunState.set { x.state with uuids := uuids } asked x.id name v) :=
    ⟨typed, hts, by rw [first, own]; exact hvalue⟩
  have hsame : SameVariables scope x.state { x.state with uuids := uuids } := by cases scope <;> rfl
  have htable := RunState.table_set (s := { x.state with uuids := uuids }) hx.live hdomain asked name v scope
  rw [hsame] at htable
  by_cases hscope : scope = asked
  · subst hscope
    rw [if_pos rfl] at htable
    exact .inr ⟨name, v, ⟨own, hasked, hset, types, _, hstarts⟩, htable⟩
  · rw [if_neg hscope] at htable
    exact .inl htable

variable (hx : x.IsNew) (hdomain : x.IsInDomain)

include hx hdomain

theorem sets_of_isSet (typed : x.entity.types.isEmpty = false) (hbefore : ¬IsSet scope name v x.state)
    (hafter : IsSet scope name v (after x.valued x.state)) : x.Sets scope name v := by
  rcases table_valued hx hdomain typed scope with hsame | ⟨name', v', hsets, htable⟩
  · exact absurd (hsame.isSet_iff.1 hafter) hbefore
  · rw [IsSet, htable, Table.get?_insert] at hafter
    split at hafter
    next hname =>
      cases hafter
      exact hname ▸ hsets
    next => exact absurd hafter hbefore

theorem Sets.isSet (h : x.Sets scope name v) : IsSet scope name v (after x.valued x.state) := by
  obtain ⟨types, t, hstarts⟩ := h.starts
  rw [hstarts.after_valued_eq h.own]
  cases scope with
  | global => exact hstarts.assigned h.own (Entity.globalName?_of_asked? h.asked)
  | domain =>
    obtain ⟨hglobal, hname⟩ := Entity.names_of_asked? h.asked
    have hbound := hstarts.bound_in_domain h.own hx hdomain hglobal hname
    rwa [lookup?_of_owner (Contexts.owner_zero _)] at hbound

omit hx hdomain in
theorem Sets.not_isSet (h : x.Sets scope name v) : ¬IsSet scope name v x.state := by
  intro hset
  cases h.unset.symm.trans hset

end Resolution

/-! ## As long as a scope lasts -/

/-- A variable that is set keeps its value. -/
def KeepsSet (scope : Scope) (s t : RunState) : Prop :=
  ∀ name v, IsSet scope name v s → IsSet scope name v t

instance : IsPreorder RunState (KeepsSet scope) where
  refl _ _ _ := id
  trans _ _ _ h h' name v := h' name v ∘ h name v

theorem respects_keepsSet : Respects (KeepsSet scope) :=
  respects_sameVariables.mono fun _ _ h _ _ => h.isSet_iff.2

theorem Reads.keepsSet {n : Nat} (h : Reads n s t) : KeepsSet scope s t := by
  cases scope with
  | global => exact h.assignedOn
  | domain => exact h.extends.bound 0

/-- The variables of a scope last for a stretch. -/
theorem allows_keepsSet {S : Stretch} (h : scope = .domain → ∀ p s, S.enters p s → p.depth ≠ 3) :
    S.Allows (KeepsSet scope) where
  respects := respects_keepsSet
  reads := Reads.keepsSet
  cleared hp hdepth := by
    cases scope with
    | global => exact fun _ _ => id
    | domain => exact absurd hdepth (h rfl _ _ hp)

theorem Part.keepsSet_opening (p : Part) (s : RunState) :
    KeepsSet scope (p.outset s) (after p.opening s) :=
  p.rel_opening respects_keepsSet fun x _ _ => (x.valued_reads (n := 0) x.state).keepsSet

/-- What is set when a part begins is still set when it takes up an entity. -/
theorem Part.TakesUp.keepsSet (h : p.TakesUp s x) : KeepsSet scope (p.outset s) x.state := by
  have hvalued (y : Resolution) : KeepsSet scope y.state (after y.valued y.state) :=
    (y.valued_reads (n := 0) y.state).keepsSet
  obtain ⟨z, hz, hreaches⟩ := h.exists_takes
  have hcleared (hdepth : p.depth = 3) : KeepsSet scope (p.outset s) { p.outset s with contexts := .empty } :=
    p.outset_of_depth s hdepth ▸ refl (p.outset s)
  have htakes := (Part.resolves_outset.2 hz.resolves).moves respects_keepsSet hcleared fun _ y _ _ => hvalued y
  exact IsTrans.trans _ _ _ htakes (hreaches.moves respects_keepsSet fun y _ => hvalued y)

/-! ## Entities that only refer to a variable -/

namespace Resolution

/-- An entity has no generator, and so only gets a value if its variable is set. -/
structure RefersTo (y : Resolution) (types : List String) (scope : Scope) (name : String) : Prop where
  typed : y.entity.types.isEmpty = false
  types_eq : y.entity.types.mapM y.scene.namespaces.expand = .ok types
  own : y.identity? = none
  asked : y.entity.asked? = some (scope, name)
  generator?_eq : y.entity.generator? = none

instance (y : Resolution) (types : List String) (scope : Scope) (name : String) :
    Decidable (y.RefersTo types scope name) :=
  decidable_of_iff (y.entity.types.isEmpty = false ∧
      y.entity.types.mapM y.scene.namespaces.expand = .ok types ∧ y.identity? = none ∧
      y.entity.asked? = some (scope, name) ∧ y.entity.generator? = none)
    ⟨fun ⟨typed, ht, own, asked, hg⟩ => ⟨typed, ht, own, asked, hg⟩,
      fun ⟨typed, ht, own, asked, hg⟩ => ⟨typed, ht, own, asked, hg⟩⟩

namespace RefersTo

variable (h : y.RefersTo types scope name) (hdomain : y.IsInDomain)

include h hdomain

theorem first_of_set (hset : IsSet scope name v y.state) :
    outcome (y.first types) y.state = (.ok v, y.state) := by
  rw [first, h.own]
  exact outcome_entityValue_of_set hdomain h.asked hset

theorem first_of_unset (hset : (y.state.table scope).get? name = none) :
    outcome (y.first types) y.state = (.error (.drop (.unboundVariable name)), y.state) := by
  rw [first, h.own]
  dsimp only
  rw [outcome_entityValue_of_unset hdomain h.asked hset, h.generator?_eq]
  rfl

theorem startsFrom_iff : y.StartsFrom types v y.state ↔ IsSet scope name v y.state := by
  constructor
  · intro hstarts
    rcases hset : (y.state.table scope).get? name with _ | w
    · cases (h.first_of_unset hdomain hset).symm.trans hstarts.first_eq
    · cases (h.first_of_set hdomain hset).symm.trans hstarts.first_eq
      exact hset
  · exact fun hset => ⟨h.typed, h.types_eq, h.first_of_set hdomain hset⟩

theorem run_of_unset (hy : y.IsNew) (hset : (y.state.table scope).get? name = none) :
    outcome y.run y.state = (.error (.drop (.unboundVariable name)), y.state) := by
  have hfirst := h.first_of_unset hdomain hset
  rw [first, h.own] at hfirst
  have hshaped : outcome (shapedValue y.scene y.place y.entity y.id types y.identity?) y.state =
      (.error (.drop (.unboundVariable name)), y.state) := by
    rw [h.own, shapedValue]
    exact bind_error.2 (.inl hfirst)
  have hvalued : outcome y.valued y.state = (.error (.drop (.unboundVariable name)), y.state) :=
    bind_error.2 (.inr ⟨types, y.state, ofSetup_ok.2 ⟨h.types_eq, rfl⟩, bind_error.2 (.inl hshaped)⟩)
  rw [outcome_run hy, if_neg (by simp [h.typed]), resolveFresh_eq]
  exact bind_error.2 (.inl hvalued)

end RefersTo

end Resolution

end Run

namespace Engine

open Crosswalk.Run

variable {engine : Engine} {seed : List UInt8} {document : Xml.Document} {p : Part} {cause : DropCause}
  {s t : RunState} {x y : Resolution} {scope : Scope} {name : String} {v : Value} {S : Stretch}

/-! ## The stretches of a run -/

/-- A scope lasts for a stretch of a run: for all of it, or for the inside of a domain node. -/
inductive Spans (engine : Engine) (seed : List UInt8) (document : Xml.Document) : Scope → Stretch → Prop
  | global : Spans engine seed document .global (engine.course seed document)
  | domain {scene : Scene} {place : Place} {m : Mapping} {mappingGraph? : Option String} {node : Location}
      {position : Nat} {s : RunState}
      (h : engine.Enters seed document (.domain scene place m mappingGraph? node position) s) :
    Spans engine seed document .domain
      ((Part.domain scene place m mappingGraph? node position).interior s)

namespace Spans

variable (hS : engine.Spans seed document scope S)

include hS

theorem takesUp (hx : S.TakesUp x) : (engine.course seed document).TakesUp x := by
  cases hS with
  | global => exact hx
  | domain h => exact takesUp_of_interior h hx

theorem keepsSet (h : S.Later s t) : KeepsSet scope s t := by
  refine h.rel (allows_keepsSet fun hscope p s hp hdepth => ?_)
  cases hS with
  | global => cases hscope
  | domain =>
    have := Part.Inside.depth_lt hp
    rw [hdepth] at this
    exact Nat.lt_irrefl _ this

/-- A variable is set where an entity is taken up just if an entity before it has set it. -/
theorem isSet_iff (hy : S.TakesUp y) : IsSet scope name v y.state ↔
    ∃ x, S.TakesUp x ∧ x.Sets scope name v ∧ S.Later (after x.valued x.state) y.state := by
  constructor
  · intro hset
    have harises : S.Arises (IsSet scope name v) y.state := by
      cases hS with
      | global =>
        exact (heldOrArose_course (onlyByValues_isSet ..) hy hset).resolve_left (by rintro ⟨⟩)
      | domain h =>
        exact (Stretch.heldOrArose_interior (onlyByValues_isSet ..) hy hset).resolve_left (by rintro ⟨⟩)
    obtain ⟨x, hx, typed, hbefore, hafter, hlater⟩ := harises
    exact ⟨x, hx, Resolution.sets_of_isSet hx.isNew (isInDomain_of_takesUp (hS.takesUp hx)) typed hbefore
      hafter, hlater⟩
  · rintro ⟨x, hx, hsets, hlater⟩
    exact hS.keepsSet hlater name v (hsets.isSet hx.isNew (isInDomain_of_takesUp (hS.takesUp hx)))

end Spans

/-- Whatever is taken up belongs to a stretch for which a scope lasts. -/
theorem exists_spans (hy : (engine.course seed document).TakesUp y) (scope : Scope) :
    ∃ S, engine.Spans seed document scope S ∧ S.TakesUp y := by
  cases scope with
  | global => exact ⟨_, .global, hy⟩
  | domain =>
    obtain ⟨p, s, hp, hy⟩ := hy.exists_part
    have hdepth : p.depth ≤ 3 := by
      obtain ⟨x, ⟨hx, -⟩, -⟩ := hy.exists_takes
      cases hx <;> simp [Part.depth]
    obtain ⟨place, m, mappingGraph?, node, position, s₀, hentered, hwithin⟩ :=
      exists_domain_of_enters hp hdepth
    exact ⟨_, .domain hentered, hy.takesUp hwithin⟩

/-! ## Parts that are dropped -/

/-- An opening sets what its own entities set. -/
theorem isSet_opening_iff (hp : engine.Enters seed document p s) (hdepth : p.depth ≤ 3) :
    IsSet scope name v (after p.opening s) ↔
      IsSet scope name v (p.outset s) ∨ ∃ x, p.TakesUp s x ∧ x.Sets scope name v := by
  have hdomain (x : Resolution) (hx : p.TakesUp s x) : x.IsInDomain :=
    isInDomain_of_takesUp (hx.takesUp (S := engine.course seed document) hp)
  have hwithin : (p.interior s).within p s := .inl ⟨rfl, rfl⟩
  constructor
  · intro hset
    have hR := (onlyByValues_isSet scope name v).respects_heldOr (∃ x, p.TakesUp s x ∧ x.Sets scope name v)
    refine Part.rel_opening hR (fun x hx typed hafter => ?_) hset
    by_cases hbefore : IsSet scope name v x.state
    · exact .inl hbefore
    · have hnew := (hx.takesUp hwithin).isNew
      exact .inr ⟨x, hx, Resolution.sets_of_isSet hnew (hdomain x hx) typed hbefore hafter⟩
  · rintro (hset | ⟨x, hx, hsets⟩)
    · exact p.keepsSet_opening s name v hset
    · have hnew := (hx.takesUp hwithin).isNew
      obtain ⟨types, t, hstarts⟩ := hsets.starts
      have hlater : (p.interior s).Later _ _ :=
        (hx.later hwithin).head (.completes (hx.takesUp hwithin) hstarts.typed)
      refine hlater.rel (allows_keepsSet fun _ q u hq hq3 => ?_) name v (hsets.isSet hnew (hdomain x hx))
      have := Part.Inside.depth_lt hq
      omega

theorem Drops.isSet_iff (h : engine.Drops seed document p cause s t) : IsSet scope name v t ↔
    IsSet scope name v (p.outset s) ∨ ∃ x, p.TakesUp s x ∧ x.Sets scope name v := by
  have hdepth : p.depth ≤ 3 := by
    have hunit := h.isUnit
    cases p with
    | mapping => exact hunit.elim
    | _ => simp [Part.depth]
  rw [← isSet_opening_iff h.entered hdepth, after_eq (opening_drop_of_run h.dropped)]

/-- A part that is dropped leaves the variables alone just if its entities set none. -/
theorem Drops.get?_eq_iff (h : engine.Drops seed document p cause s t) :
    (∀ name, (t.table scope).get? name = ((p.outset s).table scope).get? name) ↔
      ∀ x name v, p.TakesUp s x → ¬x.Sets scope name v := by
  constructor
  · intro hsame x name v hx hsets
    have hset : IsSet scope name v t := h.isSet_iff.2 (.inr ⟨x, hx, hsets⟩)
    rw [IsSet, hsame name] at hset
    exact hsets.not_isSet (hx.keepsSet name v hset)
  · intro hnone name
    have hset (v : Value) : IsSet scope name v t ↔ IsSet scope name v (p.outset s) :=
      h.isSet_iff.trans (or_iff_left fun ⟨x, hx, hsets⟩ => hnone x name v hx hsets)
    exact Option.ext hset

/-- A part that is dropped leaves behind what it found, and the variables that its entities have set before
it failed, since its report takes nothing back; so it leaves the variables as they were just if its entities
set none. This is so for the variables of the run and for those of the domain node, of which none are set when
the node begins. What is set where an entity is taken up has been set by one before it in the scope, whether
that one was dropped or not. An entity that only refers to a variable starts from the value that is set, and
fails for want of one just if none is. -/
theorem variables_of_drops (engine : Engine) (seed : List UInt8) (document : Xml.Document) :
    (∀ p cause s t, engine.Drops seed document p cause s t → ∀ scope,
      SameVariables scope t (after (p.recover cause) t) ∧
      (∀ name v, IsSet scope name v t ↔
        IsSet scope name v (p.outset s) ∨ ∃ x, p.TakesUp s x ∧ x.Sets scope name v) ∧
      ((∀ name, (t.table scope).get? name = ((p.outset s).table scope).get? name) ↔
        ∀ x name v, p.TakesUp s x → ¬x.Sets scope name v)) ∧
    (∀ y, (engine.course seed document).TakesUp y → ∀ scope,
      ∃ S, engine.Spans seed document scope S ∧ S.TakesUp y) ∧
    ∀ scope S y, engine.Spans seed document scope S → S.TakesUp y →
      (∀ name v, IsSet scope name v y.state ↔
        ∃ x, S.TakesUp x ∧ x.Sets scope name v ∧ S.Later (after x.valued x.state) y.state) ∧
      ∀ types name, y.RefersTo types scope name →
        (∀ v, y.StartsFrom types v y.state ↔ IsSet scope name v y.state) ∧
        ((∀ v, ¬IsSet scope name v y.state) →
          outcome y.run y.state = (.error (.drop (.unboundVariable name)), y.state)) := by
  refine ⟨fun p cause s t h scope => ⟨?_, fun name v => h.isSet_iff, h.get?_eq_iff⟩,
    fun y hy scope => exists_spans hy scope, fun scope S y hS hy => ⟨fun name v => hS.isSet_iff hy, ?_⟩⟩
  · exact recover_moves respects_sameVariables.toCarries p cause t
  · intro types name hrefers
    have hdomain := isInDomain_of_takesUp (hS.takesUp hy)
    refine ⟨fun v => hrefers.startsFrom_iff hdomain, fun hunset => hrefers.run_of_unset hdomain hy.isNew ?_⟩
    exact Option.eq_none_iff_forall_ne_some.2 fun v => hunset v

/-! ## A note without a text -/

/-- A mapping that describes the birth of a person, with a note, and under a variable; the other links only
refer to it, and to another variable that nothing sets. -/
def noteEngine : Engine :=
  let entity (type : String) (generator? : Option GeneratorCall) (additionals : List (Attached Entity))
      (variableName? : Option String) : Entity :=
    ⟨["<urn:" ++ type ++ ">"], generator?, [], additionals, variableName?, none⟩
  let note : Entity := entity "Note" (some ⟨"Literal", [⟨"text", .xpath, "@note", none⟩]⟩) [] none
  let link (relation : String) (range : Entity) : Link :=
    ⟨⟨[relation], []⟩, ⟨none, ["<urn:" ++ relation ++ ">"], []⟩, ⟨relation, ⟨range, none⟩⟩, none, false⟩
  ⟨⟨.builtin, [⟨⟨"/person", ⟨entity "Person" (some ⟨"UUID", []⟩) [] none, none⟩, none⟩,
    [link "birth" (entity "Event" (some ⟨"UUID", []⟩) [⟨"<urn:note>", note⟩] (some "event")),
      link "death" (entity "Event" none [] (some "event")),
      link "death" (entity "Event" none [] (some "other"))], none, false⟩]⟩,
    .empty, none, { Settings.default with uuidWidth? := some 2 }⟩

/-- Whether a part is dropped in a way that satisfies a test. -/
def dropsWith (test : Part → DropCause → RunState → RunState → Bool) : Part × RunState → Bool
  | (p, s) =>
    match outcome p.run s with
    | (.error (.drop cause), t) => test p cause s t
    | _ => false

theorem exists_drops_of_visits {n : Nat} {test : Part → DropCause → RunState → RunState → Bool}
    (h : (visits n (engine.parts document) (engine.start seed)).any (dropsWith test) = true) :
    ∃ p cause s t, engine.Drops seed document p cause s t ∧ test p cause s t = true := by
  obtain ⟨⟨p, s⟩, hmem, htest⟩ := List.any_eq_true.1 h
  rw [dropsWith] at htest
  split at htest
  next cause t hdropped => exact ⟨p, cause, s, t, ⟨entered_of_mem_visits hmem, hdropped⟩, htest⟩
  next => cases htest

/-- Whether the birth is dropped, and the event is set only afterwards. -/
def dropsBirth (p : Part) (cause : DropCause) (s t : RunState) : Bool :=
  decide (p.diagnostic cause = ⟨⟨1, some 1⟩, "/person[1]/birth[1]", .emptyLiteral "Literal"⟩) &&
    decide (((p.outset s).table .domain).get? "event" = none) &&
    decide ((t.table .domain).get? "event" = some (.uri "uuid:AB"))

/-- Whether an entity only refers to a variable of the domain node, and that has a value or none. -/
def refersTo (name : String) (value? : Option Value) (y : Resolution) : Bool :=
  decide (y.RefersTo ["urn:Event"] .domain name) && decide ((y.state.table .domain).get? name = value?)

/-- The birth is dropped for its note and leaves the event behind, from which the death starts; only the
entity that refers to the other variable fails. -/
theorem variables_of_drops_event :
    ∃ p cause s t x v, noteEngine.Drops [] eventDocument p cause s t ∧ p.TakesUp s x ∧
      x.Sets .domain "event" v ∧ IsSet .domain "event" v t ∧
      ∃ S y z, noteEngine.Spans [] eventDocument .domain S ∧ S.TakesUp y ∧ S.TakesUp z ∧
        y.RefersTo ["urn:Event"] .domain "event" ∧ y.StartsFrom ["urn:Event"] (.uri "uuid:AB") y.state ∧
        z.RefersTo ["urn:Event"] .domain "other" ∧
        outcome z.run z.state = (.error (.drop (.unboundVariable "other")), z.state) := by
  have hdropped : (visits 8 (noteEngine.parts eventDocument) (noteEngine.start [])).any
      (dropsWith dropsBirth) = true := by
    decide +kernel
  have hreferring : (visits 4 (noteEngine.parts eventDocument) (noteEngine.start [])).any (takesUpAll
      [refersTo "event" (some (.uri "uuid:AB")), refersTo "other" none]) = true := by
    decide +kernel
  obtain ⟨p, cause, s, t, hdrops, htest⟩ := exists_drops_of_visits hdropped
  simp only [dropsBirth, Bool.and_eq_true, decide_eq_true_eq] at htest
  obtain ⟨⟨-, hbefore⟩, hafter⟩ := htest
  obtain ⟨hleft, -, hreads⟩ := variables_of_drops noteEngine [] eventDocument
  obtain ⟨-, hset, -⟩ := hleft p cause s t hdrops .domain
  obtain ⟨x, hx, hsets⟩ := ((hset "event" _).1 hafter).resolve_left (by rw [IsSet, hbefore]; rintro ⟨⟩)
  obtain ⟨scene, place, m, mappingGraph?, node, position, s₀, hentered, htests⟩ :=
    exists_of_takesUpAll hreferring
  obtain ⟨y, hy, hytest⟩ := htests _ List.mem_cons_self
  obtain ⟨z, hz, hztest⟩ := htests _ (List.mem_cons_of_mem _ List.mem_cons_self)
  simp only [refersTo, Bool.and_eq_true, decide_eq_true_eq] at hytest hztest
  have hspans := Spans.domain hentered
  obtain ⟨-, hyrefers⟩ := hreads _ _ y hspans hy
  obtain ⟨-, hzrefers⟩ := hreads _ _ z hspans hz
  refine ⟨p, cause, s, t, x, _, hdrops, hx, hsets, hafter,
    _, y, z, hspans, hy, hz, hytest.1, ?_, hztest.1, ?_⟩
  · exact ((hyrefers _ _ hytest.1).1 _).2 hytest.2
  · refine (hzrefers _ _ hztest.1).2 fun v hv => ?_
    cases hztest.2.symm.trans hv

/-- The birth is reported, and yet it has set the event; the death, which only refers to it, is resolved to it
and not reported. -/
theorem variable_left_by_drop :
    (noteEngine.final [] eventDocument).diagnostics =
      [⟨⟨1, some 1⟩, "/person[1]/birth[1]", .emptyLiteral "Literal"⟩,
        ⟨⟨1, some 3⟩, "/person[1]/death[1]", .unboundVariable "other"⟩] ∧
    (∃ p cause s t, noteEngine.Drops [] eventDocument p cause s t ∧
      p.diagnostic cause = ⟨⟨1, some 1⟩, "/person[1]/birth[1]", .emptyLiteral "Literal"⟩ ∧
      ((p.outset s).table .domain).get? "event" = none ∧
      (t.table .domain).get? "event" = some (.uri "uuid:AB")) ∧
    ∃ y r u, (noteEngine.course [] eventDocument).TakesUp y ∧ y.RefersTo ["urn:Event"] .domain "event" ∧
      outcome y.run y.state = (.ok r, u) ∧ r.value = .uri "uuid:AB" := by
  have hdropped : (visits 8 (noteEngine.parts eventDocument) (noteEngine.start [])).any
      (dropsWith dropsBirth) = true := by
    decide +kernel
  have hdeath : (visits 4 (noteEngine.parts eventDocument) (noteEngine.start [])).any (takesUpAll
      [fun y => decide (y.RefersTo ["urn:Event"] .domain "event") &&
        (outcome y.run y.state).1.toOption.any (·.value == .uri "uuid:AB")]) = true := by
    decide +kernel
  obtain ⟨p, cause, s, t, hdrops, htest⟩ := exists_drops_of_visits hdropped
  simp only [dropsBirth, Bool.and_eq_true, decide_eq_true_eq] at htest
  obtain ⟨_, _, _, _, _, _, _, hentered, htests⟩ := exists_of_takesUpAll hdeath
  obtain ⟨y, hy, hytest⟩ := htests _ List.mem_cons_self
  simp only [Bool.and_eq_true, decide_eq_true_eq, Option.any_eq_true, beq_iff_eq] at hytest
  obtain ⟨hrefers, r, hr, hvalue⟩ := hytest
  exact ⟨by decide +kernel, ⟨p, cause, s, t, hdrops, htest.1.1, htest.1.2, htest.2⟩,
    y, r, _, takesUp_of_interior hentered hy, hrefers, Prod.ext (eq_ok_of_toOption hr) rfl, hvalue⟩

end Engine

end Crosswalk
