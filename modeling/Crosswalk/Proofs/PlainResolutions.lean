import Crosswalk.Proofs.Descriptions
import Crosswalk.Proofs.KeptValues

/-!
# Resolutions without a history

What an entity is resolved to depends on what a run has kept, bound and drawn before. Where it names no
variable, draws nothing and shares its keys with no entity that would make another value, all of that does
not matter: the entity can be evaluated on its own, from what the calls of generators make at its
node. `Entity.evaluate` does that, and `evaluate_of_run` says that a run then comes to the same result.
-/

namespace Crosswalk

open Crosswalk.Xml (Location)

/-! ## Evaluating an entity -/

/-- The label of a generator, unless it has no text. -/
def labelMade? (make : GeneratorCall → Except Fault Value) (call : GeneratorCall) :
    Except Fault (Option (String × Value)) :=
  match make call with
  | .ok v => .ok (some (labelPropertyOf call, v.asLabel))
  | .error (.drop cause) => if cause.leavesOutLabel then .ok none else .error (.drop cause)
  | .error (.abort e) => .error (.abort e)

def labelsMade (make : GeneratorCall → Except Fault Value) :
    List GeneratorCall → Except Fault (List (String × Value))
  | [] => .ok []
  | call :: rest => do
    let label ← labelMade? make call
    let others ← labelsMade make rest
    .ok (label.toList ++ others)

/-- The value of an entity: its identity if it is given one, else what its generator makes. -/
def valueMade (make : GeneratorCall → Except Fault Value) (generator? : Option GeneratorCall)
    (types : List String) : Option Value → Except Fault Value
  | some identity => .ok identity
  | none =>
    match generator? with
    | some call => do
      let v ← make call
      (v.shape types).mapError Fault.setup
    | none => .error (.setup .missingGenerator)

mutual

/-- What an entity is, given what each call of a generator makes. -/
def Entity.evaluate (ns : Namespaces) (make : GeneratorCall → Except Fault Value)
    (identity? : Option Value) : Entity → Except Fault Resolved
  | ⟨typeNames, generator?, labelCalls, additionals, _, _⟩ => do
    let types ← (typeNames.mapM ns.expand).mapError Fault.setup
    let value ← valueMade make generator? types identity?
    if value.isUri then
      let labels ← labelsMade make labelCalls
      let attached ← evaluateAll ns make additionals
      .ok ⟨value, types, labels, attached⟩
    else .ok ⟨value, types, [], []⟩

def evaluateAll (ns : Namespaces) (make : GeneratorCall → Except Fault Value) :
    List (Attached Entity) → Except Fault (List (Attached Resolved))
  | [] => .ok []
  | ⟨name, entity⟩ :: rest => do
    let relationship ← (ns.expand name).mapError Fault.setup
    let resolved ← entity.evaluate ns make none
    let others ← evaluateAll ns make rest
    .ok (⟨relationship, resolved⟩ :: others)

end

section

variable {ns : Namespaces} {make : GeneratorCall → Except Fault Value} {identity? : Option Value}
  {e : Entity} {r : Resolved}

theorem Entity.evaluate_ok : e.evaluate ns make identity? = .ok r ↔
    e.types.mapM ns.expand = .ok r.types ∧
      valueMade make e.generator? r.types identity? = .ok r.value ∧
      (r.value.isUri = true ∧ labelsMade make e.labels = .ok r.labels ∧
          evaluateAll ns make e.additionals = .ok r.additionals ∨
        r.value.isUri = false ∧ r.labels = [] ∧ r.additionals = []) := by
  obtain ⟨typeNames, generator?, labelCalls, additionals, variableName?, globalName?⟩ := e
  rw [evaluate]
  constructor
  · intro h
    obtain ⟨types, htypes, h⟩ := bind_eq_ok.1 h
    obtain ⟨value, hvalue, h⟩ := bind_eq_ok.1 h
    split at h
    next huri =>
      obtain ⟨labels, hlabels, h⟩ := bind_eq_ok.1 h
      obtain ⟨attached, hattached, h⟩ := bind_eq_ok.1 h
      cases h
      exact ⟨mapError_eq_ok.1 htypes, hvalue, .inl ⟨huri, hlabels, hattached⟩⟩
    next huri =>
      cases h
      exact ⟨mapError_eq_ok.1 htypes, hvalue, .inr ⟨by simpa using huri, rfl, rfl⟩⟩
  · rintro ⟨htypes, hvalue, h⟩
    refine bind_eq_ok.2 ⟨_, mapError_eq_ok.2 htypes, bind_eq_ok.2 ⟨_, hvalue, ?_⟩⟩
    obtain ⟨value, types, labels, attached⟩ := r
    rcases h with ⟨huri, hlabels, hattached⟩ | ⟨huri, hlabels, hattached⟩
    · rw [if_pos huri]
      exact bind_eq_ok.2 ⟨_, hlabels, bind_eq_ok.2 ⟨_, hattached, rfl⟩⟩
    · cases hlabels
      cases hattached
      rw [if_neg (by simpa using huri)]

theorem evaluateAll_cons {a : Attached Entity} {rest : List (Attached Entity)} :
    evaluateAll ns make (a :: rest) = (do
      let relationship ← (ns.expand a.relationship).mapError Fault.setup
      let resolved ← a.entity.evaluate ns make none
      let others ← evaluateAll ns make rest
      .ok (⟨relationship, resolved⟩ :: others)) := by
  obtain ⟨name, entity⟩ := a
  rw [evaluateAll]

/-! ## More of everything -/

theorem labelsMade_append {calls more : List GeneratorCall} {ls ms : List (String × Value)}
    (h : labelsMade make calls = .ok ls) (h' : labelsMade make more = .ok ms) :
    labelsMade make (calls ++ more) = .ok (ls ++ ms) := by
  induction calls generalizing ls with
  | nil =>
    cases h
    exact h'
  | cons call rest ih =>
    obtain ⟨label, hlabel, h⟩ := bind_eq_ok.1 h
    obtain ⟨others, hothers, h⟩ := bind_eq_ok.1 h
    cases h
    rw [List.append_assoc]
    exact bind_eq_ok.2 ⟨label, hlabel, bind_eq_ok.2 ⟨_, ih hothers, rfl⟩⟩

theorem evaluateAll_append {as more : List (Attached Entity)} {rs ms : List (Attached Resolved)}
    (h : evaluateAll ns make as = .ok rs) (h' : evaluateAll ns make more = .ok ms) :
    evaluateAll ns make (as ++ more) = .ok (rs ++ ms) := by
  induction as generalizing rs with
  | nil =>
    cases h
    exact h'
  | cons a rest ih =>
    rw [evaluateAll_cons] at h
    obtain ⟨relationship, hrelationship, h⟩ := bind_eq_ok.1 h
    obtain ⟨resolved, hresolved, h⟩ := bind_eq_ok.1 h
    obtain ⟨others, hothers, h⟩ := bind_eq_ok.1 h
    cases h
    rw [List.cons_append, evaluateAll_cons]
    exact bind_eq_ok.2 ⟨_, hrelationship, bind_eq_ok.2 ⟨_, hresolved,
      bind_eq_ok.2 ⟨_, ih hothers, rfl⟩⟩⟩

/-- An entity with the types, the labels and the additional entities of another one besides its own. -/
def Entity.extendedBy (e other : Entity) : Entity :=
  { e with
    types := e.types ++ other.types
    labels := e.labels ++ other.labels
    additionals := e.additionals ++ other.additionals }

/-- A resolved entity with what hangs off another one. -/
def Resolved.extendedBy (r other : Resolved) : Resolved :=
  ⟨r.value, r.types ++ other.types, r.labels ++ other.labels, r.additionals ++ other.additionals⟩

/-- The shape of types does not matter to a resource. -/
theorem shape_of_isUri {v w : Value} {types more : List String} (h : v.shape types = .ok w)
    (huri : w.isUri = true) : v.shape more = .ok w := by
  cases v with
  | uri iri =>
    cases h
    rfl
  | literal t language? =>
    unfold Value.shape at h
    dsimp only at h
    split at h
    · cases h
      split at huri <;> cases huri
    · cases h
  | typed t datatype =>
    unfold Value.shape at h
    dsimp only at h
    split at h
    · cases h
      cases huri
    · cases h

/-- A resource that is described by two entities is what the one is extended by the other. -/
theorem evaluate_extendedBy {other : Entity} {r' : Resolved}
    (h : e.evaluate ns make none = .ok r) (huri : r.value.isUri = true)
    (h' : other.evaluate ns make (some r.value) = .ok r') :
    (e.extendedBy other).evaluate ns make none = .ok (r.extendedBy r') := by
  obtain ⟨htypes, hvalue, hbelongings⟩ := Entity.evaluate_ok.1 h
  obtain ⟨htypes', hvalue', hbelongings'⟩ := Entity.evaluate_ok.1 h'
  have hsame : r.value = r'.value := Except.ok.inj hvalue'
  have huri' : r'.value.isUri = true := hsame ▸ huri
  obtain ⟨-, hlabels, hattached⟩ := hbelongings.resolve_right fun hnot => by cases hnot.1.symm.trans huri
  obtain ⟨-, hlabels', hattached'⟩ :=
    hbelongings'.resolve_right fun hnot => by cases hnot.1.symm.trans huri'
  refine Entity.evaluate_ok.2 ⟨?_, ?_, .inl ⟨huri, labelsMade_append hlabels hlabels',
    evaluateAll_append hattached hattached'⟩⟩
  · rw [Entity.extendedBy, List.mapM_append, htypes, htypes']
    rfl
  · cases hgenerator : e.generator? with
    | none =>
      rw [hgenerator] at hvalue
      cases hvalue
    | some call =>
      rw [hgenerator] at hvalue
      obtain ⟨v, hv, hshape⟩ := bind_eq_ok.1 hvalue
      have hshape : v.shape (r.extendedBy r').types = .ok r.value :=
        shape_of_isUri (mapError_eq_ok.1 hshape) huri
      rw [Entity.extendedBy, hgenerator]
      exact bind_eq_ok.2 ⟨v, hv, mapError_eq_ok.2 hshape⟩

/-- Describing a resource by two entities states what each of them states of it. -/
theorem states_extendedBy {graph? : Option String} {r r' : Resolved} (hvalue : r'.value = r.value)
    {st : Rdf.Statement} :
    (r.extendedBy r').States graph? st ↔ r.States graph? st ∨ r'.States graph? st := by
  constructor
  · intro h
    cases h with
    | type hsubject h =>
      rcases List.mem_append.1 h with h | h
      · exact .inl (.type hsubject h)
      · exact .inr (.type (hvalue.trans hsubject) h)
    | label hsubject h =>
      rcases List.mem_append.1 h with h | h
      · exact .inl (.label hsubject h)
      · exact .inr (.label (hvalue.trans hsubject) h)
    | leads hsubject h =>
      rcases List.mem_append.1 h with h | h
      · exact .inl (.leads hsubject h)
      · exact .inr (.leads (hvalue.trans hsubject) h)
    | further hsubject h hst =>
      rcases List.mem_append.1 h with h | h
      · exact .inl (.further hsubject h hst)
      · exact .inr (.further (hvalue.trans hsubject) h hst)
  · rintro (h | h)
    · cases h with
      | type hsubject h => exact .type hsubject (List.mem_append_left _ h)
      | label hsubject h => exact .label hsubject (List.mem_append_left _ h)
      | leads hsubject h => exact .leads hsubject (List.mem_append_left _ h)
      | further hsubject h hst => exact .further hsubject (List.mem_append_left _ h) hst
    · cases h with
      | type hsubject h => exact .type (hvalue.symm.trans hsubject) (List.mem_append_right _ h)
      | label hsubject h => exact .label (hvalue.symm.trans hsubject) (List.mem_append_right _ h)
      | leads hsubject h => exact .leads (hvalue.symm.trans hsubject) (List.mem_append_right _ h)
      | further hsubject h hst =>
        exact .further (hvalue.symm.trans hsubject) (List.mem_append_right _ h) hst

end

/-- The entity names no variable, and none of its calls draws identifiers. -/
structure Entity.IsPlain (policy : GeneratorPolicy) (e : Entity) : Prop where
  variableName?_eq : e.variableName? = none
  globalName?_eq : e.globalName? = none
  generator : ∀ call ∈ e.generator?, policy.draws call = false
  labels : ∀ call ∈ e.labels, policy.draws call = false

instance (policy : GeneratorPolicy) (e : Entity) : Decidable (e.IsPlain policy) :=
  decidable_of_iff (e.variableName? = none ∧ e.globalName? = none ∧
      (∀ call ∈ e.generator?, policy.draws call = false) ∧ ∀ call ∈ e.labels, policy.draws call = false)
    ⟨fun ⟨hv, hn, hg, hl⟩ => ⟨hv, hn, hg, hl⟩, fun ⟨hv, hn, hg, hl⟩ => ⟨hv, hn, hg, hl⟩⟩

namespace Run

variable {scene : Scene} {s t w : RunState}

/-! ## What a plain resolution does -/

/-- What a call makes at a node and a position, unless it draws identifiers. -/
def makes (scene : Scene) (node : Location) (position : Nat) (call : GeneratorCall) :
    Except Fault Value :=
  generated scene call node position (.initial (.alphabetic 0 0))

theorem outcome_generate_makes {call : GeneratorCall} (h : scene.engine.policy.draws call = false)
    (node : Location) (position : Nat) (s : RunState) :
    outcome (generate scene call node position) s = (makes scene node position call, s) := by
  rw [outcome_generate h, makes, generated_congr h]

theorem outcome_label? {call : GeneratorCall} (h : scene.engine.policy.draws call = false)
    (c : Context) (s : RunState) :
    outcome (label? scene call c) s = (labelMade? (makes scene c.node c.position) call, s) := by
  rw [label?, outcome_tryCatch, outcome_bind, outcome_generate_makes h, labelMade?]
  rcases makes scene c.node c.position call with e | v
  · cases e with
    | drop cause =>
      dsimp only
      split <;> rfl
    | abort e => rfl
  · rfl

theorem outcome_labels {calls : List GeneratorCall}
    (h : ∀ call ∈ calls, scene.engine.policy.draws call = false) (c : Context) (s : RunState) :
    outcome (labels scene c calls) s = (labelsMade (makes scene c.node c.position) calls, s) := by
  induction calls with
  | nil => rfl
  | cons call rest ih =>
    rw [List.forall_mem_cons] at h
    rw [labels, outcome_bind, outcome_label? h.1]
    rcases hlabel : labelMade? (makes scene c.node c.position) call with e | label
    · rw [labelsMade, hlabel]
      rfl
    · dsimp only
      rw [outcome_bind, ih h.2, labelsMade, hlabel]
      rcases labelsMade (makes scene c.node c.position) rest with e | others <;> rfl

namespace Resolution

variable {x : Resolution} {types : List String} {value : Value} {ls : List (String × Value)}

/-- The value of a plain entity draws nothing. -/
theorem uuids_valued (hplain : x.entity.IsPlain x.scene.engine.policy) :
    (after x.valued x.state).uuids = x.state.uuids := by
  rcases hidentity : x.identity? with _ | identity
  · rcases hts : x.entity.types.mapM x.scene.namespaces.expand with e | types
    · rw [valued, after_bind, expandAll, hts]
      rfl
    rw [after_valued hts hidentity, entityValue, hplain.globalName?_eq, hplain.variableName?_eq]
    rcases hgenerator : x.entity.generator? with _ | call
    · rfl
    rcases hkept : x.state.cache.get? (x.key types) with _ | kept
    · have hdraws := hplain.generator call (Option.mem_def.2 hgenerator)
      rw [after, outcome_keyedValue_of_new hkept, outcome_generate_makes hdraws]
      rcases makes x.scene _ _ call with e | v <;> rfl
    · rw [after, outcome_keyedValue_of_kept hkept]
  · rw [after_valued_of_identity hidentity]

theorem labelled_ok (hplain : x.entity.IsPlain x.scene.engine.policy)
    (h : outcome (x.labelled value) s = (.ok ls, t)) :
    t.uuids = s.uuids ∧
      (value.isUri = true ∧
          labelsMade (makes x.scene x.context.node x.context.position) x.entity.labels = .ok ls ∨
        value.isUri = false ∧ ls = []) := by
  obtain ⟨_, t₁, h₁, h⟩ := bind_ok.1 h
  cases h₁
  split at h
  next huri =>
    rw [outcome_labels hplain.labels, Prod.mk.injEq] at h
    obtain ⟨hlabels, rfl⟩ := h
    exact ⟨rfl, .inl ⟨huri, hlabels⟩⟩
  next huri =>
    cases h
    exact ⟨rfl, .inr ⟨by simpa using huri, rfl⟩⟩

/-- What is attached to a resource comes to what its entities come to one by one. -/
theorem evaluateAll_of_attached {ns : Namespaces} {make : GeneratorCall → Except Fault Value}
    {rs : List (Attached Resolved)} (hns : x.scene.namespaces = ns)
    (hvalued : outcome x.valued x.state = (.ok (types, value), s)) (huri : value.isUri)
    (hlabelled : outcome (x.labelled value) s = (.ok ls, t))
    (h : outcome (x.attached value x.entity.additionals) t = (.ok rs, w))
    (ih : ∀ y r u, x.Attaches y → outcome y.run y.state = (.ok r, u) →
      y.entity.evaluate ns make none = .ok r ∧ u.uuids = y.state.uuids) :
    evaluateAll ns make x.entity.additionals = .ok rs ∧ w.uuids = t.uuids := by
  have onwards (rest earlier : List (Attached Entity)) (resolved rs : List (Attached Resolved))
      (u : RunState) (hdivided : x.entity.additionals = earlier ++ rest)
      (hearlier : outcome (x.attached value earlier) t = (.ok resolved, u))
      (h : outcome (resolveAdditionals x.scene x.place x.id x.context value earlier.length rest) u =
        (.ok rs, w)) :
      evaluateAll ns make rest = .ok rs ∧ w.uuids = u.uuids := by
    induction rest generalizing earlier resolved u rs with
    | nil =>
      cases h
      exact ⟨rfl, rfl⟩
    | cons a rest hrest =>
      obtain ⟨relationship, r, others, u₃, hexpanded, hr, hothers, rfl⟩ := resolveAdditionals_cons_ok.1 h
      obtain ⟨hevaluated, huuids⟩ :=
        ih _ r u₃ (.intro hvalued huri hlabelled hdivided hearlier hexpanded) hr
      obtain ⟨hrestEvaluated, hrestUuids⟩ := hrest (earlier ++ [a]) (resolved ++ [⟨relationship, r⟩])
        others u₃ (by rw [hdivided, List.append_assoc]; rfl)
        (outcome_attached_concat hearlier hexpanded hr) (by rw [List.length_append]; exact hothers)
      refine ⟨?_, hrestUuids.trans huuids⟩
      rw [evaluateAll_cons]
      exact bind_eq_ok.2 ⟨_, mapError_eq_ok.2 (hns ▸ hexpanded), bind_eq_ok.2 ⟨r, hevaluated,
        bind_eq_ok.2 ⟨others, hrestEvaluated, rfl⟩⟩⟩
  exact onwards x.entity.additionals [] [] rs t rfl (outcome_pure [] t) h

end Resolution

end Run

namespace Engine

open Crosswalk.Run

variable {engine : Engine} {seed : List UInt8} {document : Xml.Document} {x : Resolution}
  {r : Resolved} {t : RunState}

/-- Whatever has one key in a run would be given one value by its own call. -/
def KeysAgree (engine : Engine) (seed : List UInt8) (document : Xml.Document) : Prop :=
  ∀ x y call call' types types', engine.Resolves seed document x → engine.Resolves seed document y →
    x.IsKeyed call types → y.IsKeyed call' types' → y.key types' = x.key types →
    y.own call' = x.own call

/-- All that a run resolves is plain. -/
def ResolvesPlain (engine : Engine) (seed : List UInt8) (document : Xml.Document) : Prop :=
  ∀ x, engine.Resolves seed document x → x.entity.IsPlain engine.policy

theorem Resolves.attaches {y : Resolution} (h : engine.Resolves seed document x) (hy : x.Attaches y) :
    engine.Resolves seed document y := by
  obtain ⟨p, s, z, hp, hz, hx⟩ := h
  exact ⟨p, s, z, hp, hz, hx.tail hy⟩

/-- Where keys agree, the value of an entity is its identity or what its own call makes. -/
theorem valueMade_of_run (plain : engine.ResolvesPlain seed document)
    (agree : engine.KeysAgree seed document) (hx : engine.Resolves seed document x)
    (h : outcome x.run x.state = (.ok r, t)) :
    valueMade (makes (engine.scene document) x.context.node x.context.position) x.entity.generator?
      r.types x.identity? = .ok r.value := by
  have hscene := (describes_of_resolves hx).scene_eq
  have hplain := plain x hx
  rcases hidentity : x.identity? with _ | identity
  · obtain ⟨call, hkeyed⟩ := Resolution.isKeyed_of_run hx.isNew hidentity hplain.variableName?_eq
      hplain.globalName?_eq h
    obtain ⟨v, hown, hshape⟩ := hasOwnValue_of_same hx hkeyed h fun y call' types' hy hykeyed hkey =>
      agree x y call call' r.types types' hx hy hkeyed hykeyed hkey
    have hdraws := hplain.generator call (Option.mem_def.2 hkeyed.generator?_eq)
    rw [Resolution.own, hscene] at hown
    rw [hkeyed.generator?_eq]
    refine bind_eq_ok.2 ⟨v, ?_, mapError_eq_ok.2 hshape⟩
    rw [makes, ← hown]
    exact generated_congr hdraws _ _
  · exact congrArg Except.ok (Resolution.value_of_identity hx.isNew hidentity h).symm

/-- Where keys agree, a run resolves a plain entity to what it evaluates to at its node. -/
theorem evaluate_of_run (plain : engine.ResolvesPlain seed document)
    (agree : engine.KeysAgree seed document) (hx : engine.Resolves seed document x)
    (h : outcome x.run x.state = (.ok r, t)) :
    x.entity.evaluate engine.namespaces
        (makes (engine.scene document) x.context.node x.context.position) x.identity? = .ok r ∧
      t.uuids = x.state.uuids := by
  obtain ⟨entity, hentity⟩ : ∃ e, x.entity = e := ⟨_, rfl⟩
  induction entity using Entity.induction generalizing x r t with
  | step e ih =>
    subst hentity
    have hscene := (describes_of_resolves hx).scene_eq
    have hplain := plain x hx
    have hplain' : x.entity.IsPlain x.scene.engine.policy := by rwa [hscene]
    obtain ⟨-, u, v, w, hvalued, hlabelled, hbelonging, rfl⟩ := Resolution.succeeds_of_run hx.isNew h
    have hvalue := valueMade_of_run plain agree hx h
    have huuids : u.uuids = x.state.uuids := after_eq hvalued ▸ Resolution.uuids_valued hplain'
    obtain ⟨htypes, -⟩ := Resolution.valued_types hvalued
    obtain ⟨hlabelUuids, hlabels⟩ := Resolution.labelled_ok hplain' hlabelled
    rw [hscene] at htypes hlabels
    rw [Resolution.belonging] at hbelonging
    rcases hlabels with ⟨huri, hlabels⟩ | ⟨huri, hlabels⟩
    · rw [if_pos huri] at hbelonging
      have heach (y : Resolution) (ry : Resolved) (uy : RunState) (hy : x.Attaches y)
          (hr : outcome y.run y.state = (.ok ry, uy)) :
          y.entity.evaluate engine.namespaces
              (makes (engine.scene document) x.context.node x.context.position) none = .ok ry ∧
            uy.uuids = y.state.uuids := by
        obtain ⟨a, ha, hentity⟩ := hy.mem_additionals
        have hevaluated := ih a ha (hx.attaches hy) hr hentity
        cases hy
        rwa [Resolution.context_entering] at hevaluated
      obtain ⟨hattached, hattachedUuids⟩ := Resolution.evaluateAll_of_attached
        (congrArg Scene.namespaces hscene) hvalued huri hlabelled hbelonging heach
      exact ⟨Entity.evaluate_ok.2 ⟨htypes, hvalue, .inl ⟨huri, hlabels, hattached⟩⟩,
        hattachedUuids.trans (hlabelUuids.trans huuids)⟩
    · rw [if_neg (by rw [huri]; exact Bool.false_ne_true)] at hbelonging
      have hadditionals : r.additionals = [] := (Except.ok.inj (congrArg Prod.fst hbelonging)).symm
      have hstate : w = v := (congrArg Prod.snd hbelonging).symm
      refine ⟨Entity.evaluate_ok.2 ⟨htypes, hvalue, .inr ⟨huri, hlabels, hadditionals⟩⟩, ?_⟩
      rw [hstate]
      exact hlabelUuids.trans huuids

end Engine

end Crosswalk
