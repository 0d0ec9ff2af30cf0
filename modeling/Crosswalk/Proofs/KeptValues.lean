import Crosswalk.Proofs.Generations
import Crosswalk.Proofs.KeyTexts
import Crosswalk.Proofs.RunNodes

/-!
# Values that are kept

A value that is generated for an entity is kept under a key for the whole run, and every entity with that
key gets the kept value, whatever its own call would have made. So an entity has a value of its own just
if its call makes the value that the first call for the key made. The key speaks of the node and the
types and not of the call, so that two literals of one datatype at one node can share it.
-/

namespace Crosswalk

open Crosswalk.Xml (Location)

namespace Run

/-! ## Keeping a value -/

section

variable {call : GeneratorCall} {types : List String} {s t : RunState} {v : Value}

theorem outcome_keyedValue_of_kept {scene : Scene} {place : Place} {id : Nat}
    (h : s.cache.get? (cacheKey scene.source place (s.contexts.get id) types) = some v) :
    outcome (keyedValue scene place (some call) id types) s = (.ok v, s) := by
  rw [keyedValue, outcome_bind, outcome_context]
  dsimp only
  rw [outcome_bind, outcome_get]
  simp only [h]
  exact outcome_pure v s

theorem outcome_keyedValue_of_new {scene : Scene} {place : Place} {id : Nat}
    (h : s.cache.get? (cacheKey scene.source place (s.contexts.get id) types) = none) :
    outcome (keyedValue scene place (some call) id types) s =
      match outcome (generate scene call (s.contexts.get id).node (s.contexts.get id).position) s with
      | (.ok v, t) => (.ok v, { t with
          cache := t.cache.insert (cacheKey scene.source place (s.contexts.get id) types) v })
      | (.error e, t) => (.error e, t) := by
  rw [keyedValue, outcome_bind, outcome_context]
  dsimp only
  rw [outcome_bind, outcome_get]
  simp only [h]
  rw [outcome_bind]
  rcases outcome (generate scene call (s.contexts.get id).node (s.contexts.get id).position) s with
    ⟨e | v, t⟩
  · rfl
  · dsimp only
    rw [outcome_bind, outcome_modify]
    exact outcome_pure v _

/-- A call changes nothing that is kept. -/
theorem cache_generate {scene : Scene} {node : Location} {position : Nat} {r : Except Fault Value}
    (h : outcome (generate scene call node position) s = (r, t)) : t.cache = s.cache := by
  obtain ⟨uuids, hu⟩ := after_generate scene call node position s
  rw [after_eq h] at hu
  rw [hu]

end

/-- Nothing new is kept. -/
def SameKept (s t : RunState) : Prop :=
  t.cache = s.cache

instance : IsPreorder RunState SameKept where
  refl _ := rfl
  trans _ _ _ h h' := h'.trans h

theorem firstValue_sameKept (scene : Scene) (generator? : Option GeneratorCall) (name : String) (c : Context) :
    Moves SameKept (firstValue scene generator? c name) :=
  firstValue_moves (fun _ _ => rfl) generator? c name

theorem globalValue_sameKept (scene : Scene) (generator? : Option GeneratorCall) (id : Nat)
    (name : String) : Moves SameKept (globalValue scene generator? id name) :=
  Moves.composes.globalValue .get (firstValue_sameKept scene generator? name)
    (fun _ => .modify fun _ => rfl) id

theorem variableValue_sameKept (scene : Scene) (generator? : Option GeneratorCall) (id : Nat)
    (name : String) : Moves SameKept (variableValue scene generator? id name) :=
  Moves.composes.variableValue .get (firstValue_sameKept scene generator? name)
    fun _ => .modify fun _ => rfl

/-! ## Entities with calls -/

namespace Resolution

/-- The entity takes its value from a call: it is given no identity and names no variable. -/
structure IsKeyed (x : Resolution) (call : GeneratorCall) (types : List String) : Prop where
  identity?_eq : x.identity? = none
  generator?_eq : x.entity.generator? = some call
  variableName?_eq : x.entity.variableName? = none
  globalName?_eq : x.entity.globalName? = none
  types_eq : x.entity.types.mapM x.scene.namespaces.expand = .ok types

instance (x : Resolution) (call : GeneratorCall) (types : List String) :
    Decidable (x.IsKeyed call types) :=
  decidable_of_iff (x.identity? = none ∧ x.entity.generator? = some call ∧
      x.entity.variableName? = none ∧ x.entity.globalName? = none ∧
      x.entity.types.mapM x.scene.namespaces.expand = .ok types)
    ⟨fun ⟨hi, hg, hv, hn, ht⟩ => ⟨hi, hg, hv, hn, ht⟩, fun ⟨hi, hg, hv, hn, ht⟩ => ⟨hi, hg, hv, hn, ht⟩⟩

/-- The key that the value of the entity is kept under. -/
def key (x : Resolution) (types : List String) : String :=
  cacheKey x.scene.source x.place x.context types

/-- What a call makes at the node and the position of the entity. -/
def own (x : Resolution) (call : GeneratorCall) : Except Fault Value :=
  generated x.scene call x.context.node x.context.position x.state

/-- What the call of an entity makes is what the entity is resolved to, in the shape that its types
give it. -/
def HasOwnValue (x : Resolution) (call : GeneratorCall) (r : Resolved) : Prop :=
  ∃ v, x.own call = .ok v ∧ v.shape r.types = .ok r.value

instance (x : Resolution) (call : GeneratorCall) (r : Resolved) : Decidable (x.HasOwnValue call r) :=
  match h : x.own call with
  | .ok v =>
    decidable_of_iff (v.shape r.types = .ok r.value)
      ⟨fun hv => ⟨v, h, hv⟩, fun ⟨w, hw, hv⟩ => by
        obtain rfl : v = w := Except.ok.inj (h.symm.trans hw)
        exact hv⟩
  | .error _ => isFalse fun ⟨w, hw, _⟩ => by cases h.symm.trans hw

variable {x : Resolution} {call : GeneratorCall} {types : List String} {t : RunState}

/-- The value of an entity with a call is the kept one, or else what the call makes now, which is kept
from then on. -/
theorem IsKeyed.valued_ok (hx : x.IsKeyed call types) {ts : List String} {value : Value}
    (h : outcome x.valued x.state = (.ok (ts, value), t)) :
    ts = types ∧ ∃ v, v.shape types = .ok value ∧
      (x.state.cache.get? (x.key types) = some v ∧ t.cache = x.state.cache ∨
        x.state.cache.get? (x.key types) = none ∧ x.own call = .ok v ∧
          t.cache = x.state.cache.insert (x.key types) v) := by
  obtain ⟨ts', t₁, h₁, h⟩ := bind_ok.1 h
  obtain ⟨hts, rfl⟩ := ofSetup_ok.1 h₁
  obtain ⟨value', t₂, h₂, h⟩ := bind_ok.1 h
  cases h
  obtain rfl : ts = types := Except.ok.inj (hts.symm.trans hx.types_eq)
  refine ⟨rfl, ?_⟩
  rw [hx.identity?_eq, shapedValue] at h₂
  obtain ⟨v, t₃, h₃, h₂⟩ := bind_ok.1 h₂
  obtain ⟨hshape, rfl⟩ := ofSetup_ok.1 h₂
  refine ⟨v, hshape, ?_⟩
  rw [entityValue, hx.globalName?_eq, hx.variableName?_eq, hx.generator?_eq] at h₃
  rcases hkept : x.state.cache.get? (x.key ts) with _ | kept
  · refine .inr ⟨rfl, ?_⟩
    rw [outcome_keyedValue_of_new hkept] at h₃
    rcases hmade : outcome (generate x.scene call x.context.node x.context.position) x.state with
      ⟨e | made, u⟩
    · rw [context] at hmade
      rw [hmade] at h₃
      cases h₃
    · have hcache := cache_generate hmade
      have hown : x.own call = .ok made := by rw [own, generated, hmade]
      rw [context] at hmade
      rw [hmade] at h₃
      cases h₃
      exact ⟨hown, by rw [← hcache]; rfl⟩
  · rw [outcome_keyedValue_of_kept hkept] at h₃
    cases h₃
    exact .inl ⟨rfl, rfl⟩

theorem after_valued (hts : x.entity.types.mapM x.scene.namespaces.expand = .ok types)
    (hidentity : x.identity? = none) :
    after x.valued x.state =
      after (entityValue x.scene x.place x.entity x.id types) x.state := by
  rw [valued, after_bind, expandAll, hts, hidentity]
  rw [outcome_ofSetup]
  dsimp only [Except.mapError]
  rw [after_bind_of_after fun _ _ => rfl, shapedValue]
  exact after_bind_of_after (fun v => after_ofSetup _) x.state

theorem after_valued_of_identity {identity : Value} (h : x.identity? = some identity) :
    after x.valued x.state = x.state := by
  rcases hts : x.entity.types.mapM x.scene.namespaces.expand with e | types
  · rw [valued, after_bind, expandAll, hts]
    rfl
  · rw [valued, after_bind, expandAll, hts, h]
    rfl

/-- Nothing is kept but for the value of an entity with a call, when its key is new. -/
theorem cache_valued (x : Resolution) :
    SameKept x.state (after x.valued x.state) ∨
      ∃ call types v, x.IsKeyed call types ∧ x.state.cache.get? (x.key types) = none ∧
        x.own call = .ok v ∧
          (after x.valued x.state).cache = x.state.cache.insert (x.key types) v := by
  rcases hts : x.entity.types.mapM x.scene.namespaces.expand with e | types
  · left
    rw [valued, after_bind, expandAll, hts]
    exact refl (r := SameKept) x.state
  rcases hidentity : x.identity? with _ | identity
  · rw [after_valued hts hidentity, entityValue]
    split
    · exact .inl (globalValue_sameKept ..)
    · exact .inl (variableValue_sameKept ..)
    next hglobal hvariable =>
      rcases hgenerator : x.entity.generator? with _ | call
      · exact .inl (Moves.throw _ x.state)
      rcases hkept : x.state.cache.get? (x.key types) with _ | kept
      · rw [after, outcome_keyedValue_of_new hkept]
        rcases hmade : outcome (generate x.scene call (x.state.contexts.get x.id).node
          (x.state.contexts.get x.id).position) x.state with ⟨e | made, u⟩
        · exact .inl (cache_generate hmade)
        · refine .inr ⟨call, types, made, ⟨hidentity, hgenerator, hvariable, hglobal, hts⟩, hkept, ?_, ?_⟩
          · rw [own, generated, context, hmade]
          · dsimp only
            rw [cache_generate hmade]
            rfl
      · left
        rw [after, outcome_keyedValue_of_kept hkept]
        exact refl (r := SameKept) x.state
  · left
    rw [valued, after_bind, expandAll, hts, hidentity]
    exact refl (r := SameKept) x.state

/-- An entity that names no variable and has been resolved has a call. -/
theorem isKeyed_of_run (hx : x.IsNew) (hidentity : x.identity? = none)
    (hvariable : x.entity.variableName? = none) (hglobal : x.entity.globalName? = none)
    (h : outcome x.run x.state = (.ok r, t)) : ∃ call, x.IsKeyed call r.types := by
  obtain ⟨-, u, _, _, hvalued, -⟩ := succeeds_of_run hx h
  obtain ⟨types, t₁, h₁, hvalued⟩ := bind_ok.1 hvalued
  obtain ⟨htypes, rfl⟩ := ofSetup_ok.1 h₁
  obtain ⟨value, t₂, hvalue, hvalued⟩ := bind_ok.1 hvalued
  cases hvalued
  rw [hidentity, shapedValue, entityValue, hglobal, hvariable] at hvalue
  cases hgenerator : x.entity.generator? with
  | some call => exact ⟨call, hidentity, hgenerator, hvariable, hglobal, htypes⟩
  | none =>
    rw [hgenerator] at hvalue
    cases hvalue

end Resolution

/-- What is kept after a step was kept before, or its key and value are of some kind. -/
def KeepsOnly (Q : String → Value → Prop) (s t : RunState) : Prop :=
  ∀ key v, t.cache.get? key = some v → s.cache.get? key = some v ∨ Q key v

instance (Q : String → Value → Prop) : IsPreorder RunState (KeepsOnly Q) where
  refl _ _ _ := .inl
  trans _ _ _ h h' key v hv := (h' key v hv).elim (h key v) .inr

/-- A relation that only looks at what is kept respects everything but the values of entities. -/
theorem respects_of_sameKept {R : RunState → RunState → Prop} (h : ∀ s t, SameKept s t → R s t) :
    Respects R where
  generated scene call node position s := by
    obtain ⟨uuids, hu⟩ := after_generate scene call node position s
    rw [hu]
    exact h _ _ rfl
  associated _ _ := h _ _ rfl
  entered _ _ _ := h _ _ rfl
  noted _ _ _ _ := h _ _ rfl
  committed batch s := by
    rw [after, outcome_commit]
    split <;> exact h _ _ rfl
  counted _ _ := h _ _ rfl
  joined _ _ := h _ _ rfl
  reported _ _ := h _ _ rfl

end Run

namespace Engine

open Crosswalk.Run

variable {engine : Engine} {seed : List UInt8} {document : Xml.Document} {x y : Resolution}
  {call : GeneratorCall} {types : List String} {key : String} {v : Value} {r : Resolved}
  {t : RunState}

/-- The entity is the first of the run with its key, and its call makes a value, which is kept. -/
structure Keeps (engine : Engine) (seed : List UInt8) (document : Xml.Document) (x : Resolution)
    (call : GeneratorCall) (types : List String) (v : Value) : Prop where
  resolves : engine.Resolves seed document x
  isKeyed : x.IsKeyed call types
  new : x.state.cache.get? (x.key types) = none
  own_eq : x.own call = .ok v

theorem exists_keeps_of_kept (h : engine.Resolves seed document y)
    (hv : y.state.cache.get? key = some v) :
    ∃ x call types, engine.Keeps seed document x call types v ∧ x.key types = key := by
  let Q (key : String) (v : Value) : Prop :=
    ∃ x call types, engine.Keeps seed document x call types v ∧ x.key types = key
  have hkeeps : KeepsOnly Q (engine.start seed) y.state := by
    refine rel_of_resolves (respects_of_sameKept fun s t hst key v hv => ?_)
      (fun s key v hv => .inl hv) (fun z hz key v hv => ?_) h
    · exact .inl (hst ▸ hv)
    · rcases z.cache_valued with hsame | ⟨call, types, made, hkeyed, hnew, hown, hcache⟩
      · exact .inl (hsame ▸ hv)
      · rw [hcache, Table.get?_insert] at hv
        split at hv
        next hkey =>
          cases hv
          exact .inr ⟨z, call, types, ⟨hz, hkeyed, hnew, hown⟩, hkey.symm⟩
        next => exact .inl hv
  rcases hkeeps key v hv with hstart | hQ
  · simp [start, RunState.initial] at hstart
  · exact hQ

/-- An entity with a call is resolved to what the first one with its key has made. -/
theorem exists_keeps_of_resolves (h : engine.Resolves seed document x)
    (hx : x.IsKeyed call types) (ok : outcome x.run x.state = (.ok r, t)) :
    r.types = types ∧ ∃ first call' types' v, engine.Keeps seed document first call' types' v ∧
      first.key types' = x.key types ∧ v.shape types = .ok r.value := by
  obtain ⟨-, u, _, _, hvalued, -⟩ := Resolution.succeeds_of_run h.isNew ok
  obtain ⟨htypes, v, hshape, ⟨hkept, -⟩ | ⟨hnew, hown, -⟩⟩ := hx.valued_ok hvalued
  · obtain ⟨first, call', types', hkeeps, hkey⟩ := exists_keeps_of_kept h hkept
    exact ⟨htypes, first, call', types', v, hkeeps, hkey, hshape⟩
  · exact ⟨htypes, x, call, types, v, ⟨h, hx, hnew, hown⟩, rfl, hshape⟩

theorem exists_resolves_of_visits {n : Nat} (test : Resolution → Bool)
    (h : (visits n (engine.parts document) (engine.start seed)).any
      (isRange fun l path _ node position s => test (.ofRange l path node position s)) = true) :
    ∃ x, engine.Resolves seed document x ∧ test x = true := by
  obtain ⟨l, path, ids, node, position, s, hentered, htest⟩ := exists_range_of_visits h
  exact ⟨.ofRange l path node position s, ⟨_, s, _, hentered, .range, .refl⟩, htest⟩

/-! ## Entities that share no key -/

/-- The types and the calls of the entities that a mapping describes, as far as their types have a
meaning. -/
def kinds (engine : Engine) : List (List String × Option GeneratorCall) :=
  engine.mapping.entities.filterMap fun e =>
    (e.types.mapM engine.namespaces.expand).toOption.map fun types => (types, e.generator?)

theorem mem_kinds {e : Entity} (he : e ∈ engine.mapping.entities)
    (ht : e.types.mapM engine.namespaces.expand = .ok types) : (types, e.generator?) ∈ engine.kinds :=
  List.mem_filterMap.2 ⟨e, he, by rw [ht]; rfl⟩

/-- No types of the mapping run on like these ones, nor these ones like others. -/
def TypesApart (engine : Engine) (types : List String) : Prop :=
  ∀ kind ∈ engine.kinds, ¬RunsOn (typesText types) (typesText kind.1) ∧
    ¬RunsOn (typesText kind.1) (typesText types)

/-- Whatever has these types in the mapping has the same call. -/
def HasOneCall (engine : Engine) (call : GeneratorCall) (types : List String) : Prop :=
  ∀ kind ∈ engine.kinds, typesText kind.1 = typesText types → kind.2 = none ∨ kind.2 = some call

/-- Whatever looks like these types in the mapping is the type of a literal. -/
def HasLiteralsOnly (engine : Engine) (types : List String) : Prop :=
  ∀ kind ∈ engine.kinds, typesText kind.1 = typesText types → isOwnLiteral kind.1 = true

instance (types : List String) : Decidable (engine.TypesApart types) :=
  inferInstanceAs (Decidable (∀ kind ∈ engine.kinds, _))

instance (types : List String) : Decidable (engine.HasOneCall call types) :=
  inferInstanceAs (Decidable (∀ kind ∈ engine.kinds, _))

instance (types : List String) : Decidable (engine.HasLiteralsOnly types) :=
  inferInstanceAs (Decidable (∀ kind ∈ engine.kinds, _))

section

variable {call' : GeneratorCall} {types' : List String}

theorem kind_of_isKeyed (h : engine.Resolves seed document x) (hx : x.IsKeyed call types) :
    (types, some call) ∈ engine.kinds := by
  have hdescribes := describes_of_resolves h
  have htypes := hx.types_eq
  rw [hdescribes.scene_eq] at htypes
  exact hx.generator?_eq ▸ mem_kinds (hdescribes.mem_entities hx.identity?_eq) htypes

/-- Where names can be told apart, entities with one key are at one node. -/
theorem eq_of_key_eq (valid : document.namesValid = true) (names : document.NamesApart)
    (apart : engine.TypesApart types) (h : engine.Resolves seed document x)
    (hy : engine.Resolves seed document y) (hykeyed : y.IsKeyed call' types') (hkey : y.key types' = x.key types) :
    y.context.node = x.context.node ∧ typesText types' = typesText types ∧
      keyRest y.place y.context types' = keyRest x.place x.context types := by
  have hdx := describes_of_resolves h
  have hdy := describes_of_resolves hy
  have hsource (z : Resolution) (hz : z.scene = engine.scene document) :
      z.scene.source = engine.source document := congrArg Scene.source hz
  obtain ⟨hruns, hruns'⟩ := apart _ (kind_of_isKeyed hy hykeyed)
  rw [Resolution.key, Resolution.key, hsource x hdx.scene_eq, hsource y hdy.scene_eq] at hkey
  have valid' : (engine.source document).document.namesValid = true := valid
  exact eq_of_cacheKey_eq valid' names hdy.hasNode hdx.hasNode hruns' hruns hkey

theorem hasOwnValue_of_same (h : engine.Resolves seed document x) (hx : x.IsKeyed call types)
    (ok : outcome x.run x.state = (.ok r, t))
    (same : ∀ y call' types', engine.Resolves seed document y → y.IsKeyed call' types' →
      y.key types' = x.key types → y.own call' = x.own call) : x.HasOwnValue call r := by
  obtain ⟨rfl, first, call', types', v, hkeeps, hkey, hshape⟩ := exists_keeps_of_resolves h hx ok
  refine ⟨v, ?_, hshape⟩
  rw [← same first call' types' hkeeps.resolves hkeeps.isKeyed hkey, hkeeps.own_eq]

theorem own_congr (hdraws : engine.policy.draws call = false)
    (hx : x.scene = engine.scene document) (hy : y.scene = engine.scene document)
    (hnode : y.context.node = x.context.node)
    (hposition : call.asksPosition = false ∨ y.context.position = x.context.position) :
    y.own call = x.own call := by
  have hgenerate : generate (engine.scene document) call x.context.node y.context.position =
      generate (engine.scene document) call x.context.node x.context.position := by
    rcases hposition with hasks | hposition
    · exact generate_position hasks _ _ _
    · rw [hposition]
  rw [Resolution.own, Resolution.own, hx, hy, hnode, generated, hgenerate]
  exact generated_congr hdraws _ _

theorem hasOwnValue_of_oneCall (hdraws : engine.policy.draws call = false)
    (valid : document.namesValid = true) (names : document.NamesApart)
    (apart : engine.TypesApart types) (hasks : call.asksPosition = false)
    (one : engine.HasOneCall call types) (h : engine.Resolves seed document x)
    (hx : x.IsKeyed call types) (ok : outcome x.run x.state = (.ok r, t)) :
    x.HasOwnValue call r := by
  refine hasOwnValue_of_same h hx ok fun y call' types' hy hykeyed hkey => ?_
  obtain ⟨hnode, htypes, -⟩ := eq_of_key_eq valid names apart h hy hykeyed hkey
  rcases one _ (kind_of_isKeyed hy hykeyed) htypes with hnone | hcall
  · cases hnone
  · cases hcall
    exact own_congr hdraws (describes_of_resolves h).scene_eq (describes_of_resolves hy).scene_eq
      hnode (.inl hasks)

theorem hasOwnValue_of_literal (hdraws : engine.policy.draws call = false)
    (valid : document.namesValid = true) (names : document.NamesApart)
    (apart : engine.TypesApart types) (hliteral : isOwnLiteral types = true)
    (literals : engine.HasLiteralsOnly types) (hrole : ∀ k, x.context.role ≠ .additional k)
    (h : engine.Resolves seed document x) (hx : x.IsKeyed call types)
    (ok : outcome x.run x.state = (.ok r, t)) : x.HasOwnValue call r := by
  refine hasOwnValue_of_same h hx ok fun y call' types' hy hykeyed hkey => ?_
  obtain ⟨hnode, htypes, hrest⟩ := eq_of_key_eq valid names apart h hy hykeyed hkey
  rw [keyRest, keyRest, if_pos (literals _ (kind_of_isKeyed hy hykeyed) htypes),
    if_pos hliteral] at hrest
  obtain ⟨hmapping, hlink, hsame, hposition⟩ := eq_of_literalKeyText hrest
  have hentity := (hsame ▸ entityAt_of_resolves hy (hsame ▸ hrole)).unique
    (entityAt_of_resolves h hrole) hmapping hlink
  obtain rfl : call' = call := by
    have := hykeyed.generator?_eq
    rw [hentity, hx.generator?_eq] at this
    exact (Option.some.inj this).symm
  exact own_congr hdraws (describes_of_resolves h).scene_eq (describes_of_resolves hy).scene_eq
    hnode (.inr hposition)

/-- An entity without a variable, the call of which makes a text, is resolved to what the first entity
with its key has made, so it has the value of its own call just if the two look the same. This is so
wherever all entities with the key make the same value: where nothing else has its types and another call
and the call does not look at the position, and for the literals that the key tells apart. -/
theorem hasOwnValue_iff (h : engine.Resolves seed document x) (hx : x.IsKeyed call types)
    (text : engine.policy.yieldsText call = true) (ok : outcome x.run x.state = (.ok r, t)) :
    (∀ s, outcome (generate x.scene call x.context.node x.context.position) s = (x.own call, s)) ∧
      (∃ first call' types' v, engine.Keeps seed document first call' types' v ∧
        first.key types' = x.key types ∧ v.shape types = .ok r.value ∧
        (x.HasOwnValue call r ↔ ∃ w, x.own call = .ok w ∧ w.shape types = v.shape types)) ∧
      ((∀ y call' types', engine.Resolves seed document y → y.IsKeyed call' types' →
        y.key types' = x.key types → y.own call' = x.own call) → x.HasOwnValue call r) ∧
      (document.namesValid = true → document.NamesApart → engine.TypesApart types →
        (call.asksPosition = false ∧ engine.HasOneCall call types ∨
          isOwnLiteral types = true ∧ engine.HasLiteralsOnly types ∧
            ∀ k, x.context.role ≠ .additional k) → x.HasOwnValue call r) := by
  have hdraws := GeneratorPolicy.draws_of_yieldsText text
  refine ⟨fun s => ?_, ?_, hasOwnValue_of_same h hx ok, fun valid names apart htold => ?_⟩
  · have hscene := (describes_of_resolves h).scene_eq
    have hsteady : x.scene.engine.policy.draws call = false := by rwa [hscene]
    rw [outcome_generate hsteady s, Resolution.own, generated_congr hsteady s x.state]
  · obtain ⟨htypes, first, call', types', v, hkeeps, hkey, hshape⟩ := exists_keeps_of_resolves h hx ok
    refine ⟨first, call', types', v, hkeeps, hkey, hshape, ?_⟩
    rw [Resolution.HasOwnValue, htypes, hshape]
  · rcases htold with ⟨hasks, one⟩ | ⟨hliteral, literals, hrole⟩
    · exact hasOwnValue_of_oneCall hdraws valid names apart hasks one h hx ok
    · exact hasOwnValue_of_literal hdraws valid names apart hliteral literals hrole h hx ok

end

/-- A mapping that gives a person two literals of some types, each from an attribute. -/
def lifeEngine (birthType deathType : String) : Engine :=
  let entity (type : String) (call : GeneratorCall) : Entity :=
    ⟨[type], some call, [], [], none, none⟩
  let link (name type : String) : Link :=
    ⟨⟨[""], []⟩, ⟨none, ["<urn:" ++ name ++ ">"], []⟩,
      ⟨"", ⟨entity type ⟨"Literal", [⟨"text", .xpath, "@" ++ name, none⟩]⟩, none⟩⟩, none, false⟩
  ⟨⟨.builtin, [⟨⟨"/person", ⟨entity "<urn:Person>" ⟨"UUID", []⟩, none⟩, none⟩,
    [link "birth" birthType, link "death" deathType], none, false⟩]⟩,
    .empty, none, { Settings.default with uuidWidth? := some 2 }⟩

def lifeDocument : Xml.Document :=
  ⟨[.element ⟨none, "person"⟩ [] [⟨⟨none, "birth"⟩, "1815-12-10"⟩, ⟨⟨none, "death"⟩, "1852-11-27"⟩] []]⟩

def deathCall : GeneratorCall :=
  ⟨"Literal", [⟨"text", .xpath, "@death", none⟩]⟩

/-- Whether the date of death is resolved in a way that satisfies a test. -/
def resolvesDeath (test : Resolution → Resolved → Bool) (x : Resolution) : Bool :=
  decide (x.IsKeyed deathCall [Namespaces.xsd ++ "date"]) &&
    (outcome x.run x.state).1.toOption.any (test x)

/-- Whether a part is a range that resolves the date of death in such a way. -/
def isDeath (test : Resolution → Resolved → Bool) : Part × RunState → Bool :=
  isRange fun l path _ node position s => resolvesDeath test (.ofRange l path node position s)

theorem exists_death_of_visits {engine : Engine} {test : Resolution → Resolved → Bool}
    (h : (visits 8 (engine.parts lifeDocument) (engine.start [])).any (isDeath test) = true) :
    ∃ x r t, engine.Resolves [] lifeDocument x ∧ x.IsKeyed deathCall [Namespaces.xsd ++ "date"] ∧
      outcome x.run x.state = (.ok r, t) ∧ test x r = true := by
  obtain ⟨x, hx, hdeath⟩ := exists_resolves_of_visits (resolvesDeath test) h
  rw [resolvesDeath, Bool.and_eq_true, decide_eq_true_eq, Option.any_eq_true] at hdeath
  obtain ⟨hkeyed, r, hr, htest⟩ := hdeath
  exact ⟨x, r, _, hx, hkeyed, Prod.ext (eq_ok_of_toOption hr) rfl, htest⟩

/-- With another datatype for the birth, the death has its own date. -/
theorem hasOwnValue_iff_death :
    ∃ x r t, (lifeEngine "xsd:gYear" "xsd:date").Resolves [] lifeDocument x ∧
      x.IsKeyed deathCall [Namespaces.xsd ++ "date"] ∧
      (lifeEngine "xsd:gYear" "xsd:date").policy.yieldsText deathCall = true ∧
      outcome x.run x.state = (.ok r, t) ∧ x.HasOwnValue deathCall r ∧
      r.value = .typed "1852-11-27" (Namespaces.xsd ++ "date") := by
  have hvisit : (visits 8 ((lifeEngine "xsd:gYear" "xsd:date").parts lifeDocument)
      ((lifeEngine "xsd:gYear" "xsd:date").start [])).any (isDeath
        fun _ r => r.value == .typed "1852-11-27" (Namespaces.xsd ++ "date")) = true := by
    decide +kernel
  obtain ⟨x, r, t, hx, hkeyed, ok, hvalue⟩ := exists_death_of_visits hvisit
  have text : (lifeEngine "xsd:gYear" "xsd:date").policy.yieldsText deathCall = true := by
    decide +kernel
  have valid : lifeDocument.namesValid = true := by decide +kernel
  have names : lifeDocument.NamesApart := Xml.Document.namesApart_of_plain (by decide +kernel)
  have apart : (lifeEngine "xsd:gYear" "xsd:date").TypesApart [Namespaces.xsd ++ "date"] := by
    decide +kernel
  have one : (lifeEngine "xsd:gYear" "xsd:date").HasOneCall deathCall [Namespaces.xsd ++ "date"] := by
    decide +kernel
  obtain ⟨-, -, -, hown⟩ := hasOwnValue_iff hx hkeyed text ok
  exact ⟨x, r, t, hx, hkeyed, text, ok, hown valid names apart (.inl ⟨rfl, one⟩), beq_iff_eq.1 hvalue⟩

/-- With one datatype for both dates, the death is given the date of birth. -/
theorem not_hasOwnValue_of_shared_key :
    ∃ x r t, (lifeEngine "xsd:date" "xsd:date").Resolves [] lifeDocument x ∧
      x.IsKeyed deathCall [Namespaces.xsd ++ "date"] ∧
      (lifeEngine "xsd:date" "xsd:date").policy.yieldsText deathCall = true ∧
      outcome x.run x.state = (.ok r, t) ∧
      r.value = .typed "1815-12-10" (Namespaces.xsd ++ "date") ∧
      x.own deathCall = .ok (.literal "1852-11-27" none) ∧ ¬x.HasOwnValue deathCall r := by
  have hvisit : (visits 8 ((lifeEngine "xsd:date" "xsd:date").parts lifeDocument)
      ((lifeEngine "xsd:date" "xsd:date").start [])).any (isDeath fun x r =>
        r.value == .typed "1815-12-10" (Namespaces.xsd ++ "date") &&
          x.own deathCall == .ok (.literal "1852-11-27" none) &&
          !decide (x.HasOwnValue deathCall r)) = true := by
    decide +kernel
  obtain ⟨x, r, t, hx, hkeyed, ok, htest⟩ := exists_death_of_visits hvisit
  simp only [Bool.and_eq_true, beq_iff_eq, Bool.not_eq_true', decide_eq_false_iff_not] at htest
  obtain ⟨⟨hvalue, hmade⟩, hown⟩ := htest
  exact ⟨x, r, t, hx, hkeyed, by decide +kernel, ok, hvalue, hmade, hown⟩

end Engine

end Crosswalk
