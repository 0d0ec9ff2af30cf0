import Crosswalk.Proofs.FreshIdentifiers
import Crosswalk.Proofs.Variables

/-!
# Values that are set once

The value of an entity comes from one of three tables: that of the global variables and that of the kept
values, which last for a whole run, and that of the variables of a domain node, which lasts as long as the
node is processed. Nothing that stands in a table is ever replaced while the table lasts, and what an
entity starts from stands in the table that it asks from then on. So two entities that ask the same table
for the same thing start from the same value, whichever of them comes first.
-/

namespace Crosswalk

open Crosswalk.Xml (Location)

namespace Run

variable {s t : RunState}

/-! ## Global variables -/

/-- A global variable that is set keeps its value. -/
def AssignedOn (s t : RunState) : Prop :=
  ∀ name v, s.globals.get? name = some v → t.globals.get? name = some v

instance : IsPreorder RunState AssignedOn where
  refl _ _ _ h := h
  trans _ _ _ h h' name v hv := h' name v (h name v hv)

theorem Reads.assignedOn {n : Nat} (h : Reads n s t) : AssignedOn s t := by
  induction h with
  | refl => exact refl s
  | tail _ change ih =>
    refine IsTrans.trans _ _ _ ih fun name v hv => ?_
    cases change with
    | assigned name' value new =>
      rw [Table.get?_insert, if_neg]
      · exact hv
      · rintro rfl
        cases new.symm.trans hv
    | _ => exact hv

theorem respects_assignedOn : Respects AssignedOn where
  generated scene call node position s := (generate_reads (n := 0) call node position s).assignedOn
  associated _ _ _ _ h := h
  entered _ _ _ _ _ h := h
  noted _ _ _ _ _ _ h := h
  committed batch s := by
    rw [after, outcome_commit]
    split <;> exact fun _ _ h => h
  counted _ _ _ _ h := h
  joined _ _ _ _ h := h
  reported _ _ _ _ h := h

/-! ## What a value comes from -/

section

variable {scene : Scene} {generator? : Option GeneratorCall} {id : Nat} {name : String} {v : Value}

theorem globalValue_ok (h : outcome (globalValue scene generator? id name) s = (.ok v, t)) :
    t.globals.get? name = some v := by
  obtain ⟨_, _, hs, h⟩ := bind_ok.1 h
  cases hs
  split at h
  next value hvalue =>
    cases h
    exact hvalue
  next =>
    obtain ⟨c, _, -, h⟩ := bind_ok.1 h
    obtain ⟨value, u, -, h⟩ := bind_ok.1 h
    cases h
    exact (Table.get?_insert ..).trans (if_pos rfl)

theorem variableValue_ok (hid : id < s.contexts.size)
    (h : outcome (variableValue scene generator? id name) s = (.ok v, t)) :
    t.contexts.lookup? id name = some v := by
  obtain ⟨_, _, hs, h⟩ := bind_ok.1 h
  cases hs
  split at h
  next value hvalue =>
    cases h
    exact hvalue
  next =>
    obtain ⟨c, _, hc, h⟩ := bind_ok.1 h
    cases hc
    obtain ⟨value, u, hvalue, h⟩ := bind_ok.1 h
    cases h
    obtain ⟨uuids, hu⟩ : ∃ uuids, u = { s with uuids := uuids } :=
      after_eq hvalue ▸ after_firstValue generator? (s.contexts.get id) name s
    rw [hu]
    exact Contexts.lookup?_bind hid

theorem keyedValue_ok {place : Place} {types : List String}
    (h : outcome (keyedValue scene place generator? id types) s = (.ok v, t)) :
    t.cache.get? (cacheKey scene.source place (s.contexts.get id) types) = some v := by
  cases generator? with
  | none => cases h
  | some call =>
    obtain ⟨c, _, hc, h⟩ := bind_ok.1 h
    cases hc
    obtain ⟨_, _, hs, h⟩ := bind_ok.1 h
    cases hs
    split at h
    next value hvalue =>
      cases h
      exact hvalue
    next =>
      obtain ⟨value, u, -, h⟩ := bind_ok.1 h
      cases h
      exact (Table.get?_insert ..).trans (if_pos rfl)

end

namespace Resolution

variable {x : Resolution} {types : List String} {v : Value} {name : String}

/-- The value that an entity has before it is shaped: the identity that it is given, or else its own. -/
def first (x : Resolution) (types : List String) : Run Value :=
  match x.identity? with
  | some identity => return identity
  | none => entityValue x.scene x.place x.entity x.id types

/-- An entity with some types starts from a value. -/
structure StartsFrom (x : Resolution) (types : List String) (v : Value) (t : RunState) : Prop where
  typed : x.entity.types.isEmpty = false
  types_eq : x.entity.types.mapM x.scene.namespaces.expand = .ok types
  first_eq : outcome (x.first types) x.state = (.ok v, t)

namespace StartsFrom

variable (h : x.StartsFrom types v t) (own : x.identity? = none)

include h own

theorem entityValue_eq : outcome (entityValue x.scene x.place x.entity x.id types) x.state = (.ok v, t) := by
  have hfirst := h.first_eq
  rwa [first, own] at hfirst

theorem after_valued_eq : after x.valued x.state = t := by
  rw [after_valued h.types_eq own, after_eq (h.entityValue_eq own)]

theorem assigned (hglobal : x.entity.globalName? = some name) : t.globals.get? name = some v := by
  have hvalue := h.entityValue_eq own
  rw [entityValue, hglobal] at hvalue
  exact globalValue_ok hvalue

theorem bound (hx : x.IsNew) (hglobal : x.entity.globalName? = none)
    (hvariable : x.entity.variableName? = some name) : t.contexts.lookup? x.id name = some v := by
  have hvalue := h.entityValue_eq own
  rw [entityValue, hglobal, hvariable] at hvalue
  exact variableValue_ok hx.live hvalue

/-- What leads to the context of the domain node binds its variable there. -/
theorem bound_in_domain (hx : x.IsNew) (hdomain : x.IsInDomain) (hglobal : x.entity.globalName? = none)
    (hvariable : x.entity.variableName? = some name) : t.contexts.lookup? 0 name = some v := by
  have hreads : Reads 0 x.state t := h.after_valued_eq own ▸ valued_reads x x.state
  have howner : t.contexts.owner x.id = t.contexts.owner 0 := by
    rw [hreads.extends.owner_eq hx.live, Contexts.owner_zero]
    exact hdomain
  exact (Contexts.lookup?_congr howner name).symm.trans (h.bound own hx hglobal hvariable)

theorem kept (hglobal : x.entity.globalName? = none) (hvariable : x.entity.variableName? = none) :
    t.cache.get? (x.key types) = some v := by
  have hvalue := h.entityValue_eq own
  rw [entityValue, hglobal, hvariable] at hvalue
  exact keyedValue_ok hvalue

end StartsFrom

end Resolution

/-! ## As long as a table lasts -/

section

variable {p q : Part} {u : RunState} {x : Resolution} {types : List String} {v : Value} {name : String}

theorem Part.Inside.depth_lt (h : p.Inside s q u) : q.depth < p.depth := by
  obtain ⟨parts, t, hopened, hq⟩ := h
  refine hq.property (K := fun q => q.depth < p.depth) (fun q r hq hr => ?_) fun q hq => ?_
  · have := hr.depth_eq
    omega
  · have := (Part.opens_of_opening hopened hq).depth_eq
    omega

/-- Inside of a domain node nothing is taken back. -/
theorem allows_grows (hp : p.depth ≤ 3) : (p.interior s).Allows Grows where
  respects := respects_grows
  reads h := h.grows
  cleared h hdepth := by
    have := Part.Inside.depth_lt h
    omega

theorem lookup?_later (hp : p.depth ≤ 3) (h : (p.interior u).Later s t)
    (hv : s.contexts.lookup? 0 name = some v) : t.contexts.lookup? 0 name = some v := by
  have hgrows : Grows s t := h.rel (allows_grows hp)
  rw [Contexts.lookup?, Contexts.owner_zero] at hv ⊢
  exact hgrows.contexts.bound _ _ _ hv

end

end Run

namespace Engine

open Crosswalk.Run

variable {engine : Engine} {seed : List UInt8} {document : Xml.Document} {p : Part} {s t u : RunState}
  {x y : Resolution} {types types' : List String} {v w : Value} {name : String}

theorem allows_keptOn : (engine.course seed document).Allows KeptOn :=
  ⟨respects_keptOn, Reads.keptOn, fun _ _ => fun _ _ h => h⟩

theorem allows_assignedOn : (engine.course seed document).Allows AssignedOn :=
  ⟨respects_assignedOn, Reads.assignedOn, fun _ _ => fun _ _ h => h⟩

/-- What is taken up inside of a part is taken up in the run. -/
theorem takesUp_of_interior (hp : engine.Enters seed document p s) (h : (p.interior s).TakesUp x) :
    (engine.course seed document).TakesUp x := by
  induction h with
  | own hq hx =>
    rcases hq with ⟨rfl, rfl⟩ | ⟨parts, t, hopened, hq⟩
    · exact .own hp hx
    · exact .own (Entered.within hp hopened hq) hx
  | attached _ typed attaches ih => exact .attached ih typed attaches

/-! ## Two entities that ask for the same -/

/-- What an entity starts from is there until the stretch ends in which it is taken up. -/
theorem later_of_startsFrom {S : Stretch} (hx : S.TakesUp x) (hv : x.StartsFrom types v t)
    (own : x.identity? = none) (h : S.Later (after x.run x.state) s) : S.Later t s := by
  have hcompletes := Stretch.Step.completes hx hv.typed
  rw [hv.after_valued_eq own] at hcompletes
  exact h.head hcompletes

section

variable (hv : x.StartsFrom types v t) (hw : y.StartsFrom types' w u) (ownx : x.identity? = none)
  (owny : y.identity? = none)

include hv hw ownx owny

theorem eq_of_globalName? (hx : (engine.course seed document).TakesUp x)
    (hy : (engine.course seed document).TakesUp y) (hxname : x.entity.globalName? = some name)
    (hyname : y.entity.globalName? = some name) : v = w := by
  have htv : AssignedOn t (engine.final seed document) :=
    (later_of_startsFrom hx hv ownx (later_final_of_takesUp hx)).rel allows_assignedOn
  have huw : AssignedOn u (engine.final seed document) :=
    (later_of_startsFrom hy hw owny (later_final_of_takesUp hy)).rel allows_assignedOn
  have hfinal := htv name v (hv.assigned ownx hxname)
  exact Option.some.inj (hfinal.symm.trans (huw name w (hw.assigned owny hyname)))

theorem eq_of_variableName? (hp : engine.Enters seed document p s) (hdepth : p.depth ≤ 3)
    (hx : (p.interior s).TakesUp x) (hy : (p.interior s).TakesUp y)
    (hxglobal : x.entity.globalName? = none) (hyglobal : y.entity.globalName? = none)
    (hxname : x.entity.variableName? = some name) (hyname : y.entity.variableName? = some name) :
    v = w := by
  have hxdomain := isInDomain_of_takesUp (takesUp_of_interior hp hx)
  have hydomain := isInDomain_of_takesUp (takesUp_of_interior hp hy)
  have htv := later_of_startsFrom hx hv ownx (Part.later_guarded_of_takesUp hx)
  have huw := later_of_startsFrom hy hw owny (Part.later_guarded_of_takesUp hy)
  have hfinal := lookup?_later hdepth htv (hv.bound_in_domain ownx hx.isNew hxdomain hxglobal hxname)
  have hfinal' := lookup?_later hdepth huw (hw.bound_in_domain owny hy.isNew hydomain hyglobal hyname)
  exact Option.some.inj (hfinal.symm.trans hfinal')

theorem eq_of_same_key (hx : (engine.course seed document).TakesUp x)
    (hy : (engine.course seed document).TakesUp y)
    (hxnames : x.entity.globalName? = none ∧ x.entity.variableName? = none)
    (hynames : y.entity.globalName? = none ∧ y.entity.variableName? = none)
    (hkey : x.key types = y.key types') : v = w := by
  have htv : KeptOn t (engine.final seed document) :=
    (later_of_startsFrom hx hv ownx (later_final_of_takesUp hx)).rel allows_keptOn
  have huw : KeptOn u (engine.final seed document) :=
    (later_of_startsFrom hy hw owny (later_final_of_takesUp hy)).rel allows_keptOn
  have hfinal := htv _ v (hv.kept ownx hxnames.1 hxnames.2)
  rw [hkey] at hfinal
  exact Option.some.inj (hfinal.symm.trans (huw _ w (hw.kept owny hynames.1 hynames.2)))

end

/-- Nothing is bound when a domain node begins. -/
theorem lookup?_ofDomain (scene : Scene) (place : Place) (m : Mapping) (node : Location) (position : Nat)
    (s : RunState) (id : Nat) (name : String) :
    (Resolution.ofDomain scene place m node position s).state.contexts.lookup? id name = none := by
  have hfresh := Context.isFresh_fresh .domain node position none
  have hbindings (other : Nat) : ((Contexts.empty.push (.fresh .domain node position none)).get other).bindings =
      .empty := by
    rw [Contexts.bindings_get_push hfresh, Contexts.get_of_size_le (Nat.zero_le other)]
    rfl
  exact (congrArg (·.get? name) (hbindings _)).trans (Table.get?_empty name)

/-- Values are set once. In a run, a kept value and a global variable stay what they are from each state to
all later ones. As long as a domain node is processed, so do its variables, of which none is bound when it
begins: all that is taken up there sees those of the domain context, and binds its variable there. So two
entities that are given no identity start from the same value if they name the same global variable, or
no global one and the same variable at the same domain node, or none and have the same key. -/
theorem values_set_once (engine : Engine) (seed : List UInt8) (document : Xml.Document) :
    (∀ s t, engine.Later seed document s t → KeptOn s t ∧ AssignedOn s t) ∧
    (∀ scene place m mappingGraph? node position s₀,
      let domain := Part.domain scene place m mappingGraph? node position
      engine.Enters seed document domain s₀ →
        (∀ id name, (Resolution.ofDomain scene place m node position s₀).state.contexts.lookup? id name =
          none) ∧
        (∀ s t, (domain.interior s₀).Later s t → ∀ name v,
          s.contexts.lookup? 0 name = some v → t.contexts.lookup? 0 name = some v) ∧
        ∀ x, (domain.interior s₀).TakesUp x →
          (domain.interior s₀).Later (Resolution.ofDomain scene place m node position s₀).state x.state ∧
          (∀ name, x.state.contexts.lookup? x.id name = x.state.contexts.lookup? 0 name) ∧
          ∀ types v t name, x.StartsFrom types v t → x.identity? = none → x.entity.globalName? = none →
            x.entity.variableName? = some name → t.contexts.lookup? 0 name = some v) ∧
    ∀ x y types types' v w t u, (engine.course seed document).TakesUp x →
      (engine.course seed document).TakesUp y → x.StartsFrom types v t → y.StartsFrom types' w u →
      x.identity? = none → y.identity? = none →
        (∀ name, x.entity.globalName? = some name → y.entity.globalName? = some name → v = w) ∧
        (x.entity.globalName? = none → y.entity.globalName? = none →
          (∀ name, x.entity.variableName? = some name → y.entity.variableName? = some name →
            (∃ scene place m mappingGraph? node position s₀,
              let domain := Part.domain scene place m mappingGraph? node position
              engine.Enters seed document domain s₀ ∧ (domain.interior s₀).TakesUp x ∧
                (domain.interior s₀).TakesUp y) → v = w) ∧
          (x.entity.variableName? = none → y.entity.variableName? = none →
            x.key types = y.key types' → v = w)) := by
  refine ⟨fun s t h => ⟨h.rel allows_keptOn, h.rel allows_assignedOn⟩, ?_, ?_⟩
  · intro scene place m mappingGraph? node position s₀ domain hentered
    have hdepth : domain.depth ≤ 3 := Nat.le_refl 3
    refine ⟨lookup?_ofDomain scene place m node position s₀, fun s t h name v => lookup?_later hdepth h,
      fun x hx => ⟨Part.later_of_takesUp hx, fun name => ?_, ?_⟩⟩
    · have hdomain := isInDomain_of_takesUp (takesUp_of_interior hentered hx)
      exact Contexts.lookup?_congr (hdomain.trans (Contexts.owner_zero _).symm) name
    · intro types v t name hv own hglobal hvariable
      have hdomain := isInDomain_of_takesUp (takesUp_of_interior hentered hx)
      exact hv.bound_in_domain own hx.isNew hdomain hglobal hvariable
  · intro x y types types' v w t u hx hy hv hw ownx owny
    refine ⟨fun name => eq_of_globalName? hv hw ownx owny hx hy, fun hxglobal hyglobal => ⟨?_, ?_⟩⟩
    · rintro name hxname hyname ⟨scene, place, m, mappingGraph?, node, position, s₀, hentered, hx, hy⟩
      exact eq_of_variableName? hv hw ownx owny hentered (Nat.le_refl 3) hx hy hxglobal hyglobal hxname
        hyname
    · intro hxname hyname hkey
      exact eq_of_same_key hv hw ownx owny hx hy ⟨hxglobal, hxname⟩ ⟨hyglobal, hyname⟩ hkey

/-! ## A node with several events -/

/-- Whether an entity with some types starts from a value that passes a test. -/
def startsFrom (types : List String) (test : Value → Bool) (x : Resolution) : Bool :=
  decide (x.entity.types.isEmpty = false) && decide (x.entity.types.mapM x.scene.namespaces.expand = .ok types) &&
    (outcome (x.first types) x.state).1.toOption.any test

theorem exists_startsFrom {test : Value → Bool} (h : startsFrom types test x = true) :
    ∃ v t, x.StartsFrom types v t ∧ test v = true := by
  simp only [startsFrom, Bool.and_eq_true, decide_eq_true_eq, Option.any_eq_true] at h
  obtain ⟨⟨htyped, htypes⟩, v, hv, htest⟩ := h
  exact ⟨v, _, ⟨htyped, htypes, Prod.ext (eq_ok_of_toOption hv) rfl⟩, htest⟩

/-- A mapping that describes the events of a person, all under one variable. The second event of a death has
a global variable as well, and the last description is merged into the person. -/
def eventEngine : Engine :=
  let event (globalName? : Option String) : Entity :=
    ⟨["<urn:Event>"], some ⟨"UUID", []⟩, [], [], some "event", globalName?⟩
  let link (relation relationship : String) (globalName? : Option String) : Link :=
    ⟨⟨[relation], []⟩, ⟨none, [relationship], []⟩, ⟨relation, ⟨event globalName?, none⟩⟩, none, false⟩
  ⟨⟨.builtin, [⟨⟨"/person", ⟨⟨["<urn:Person>"], some ⟨"UUID", []⟩, [], [], none, none⟩, none⟩, none⟩,
    [link "birth" "<urn:birth>" none, link "death" "<urn:death>" none, link "death" "<urn:end>" (some "death"),
      link "" "MERGE" none], none, false⟩]⟩,
    .empty, none, { Settings.default with uuidWidth? := some 2 }⟩

def eventDocument : Xml.Document :=
  ⟨[.element ⟨none, "person"⟩ [] []
    [.element ⟨none, "birth"⟩ [] [] [], .element ⟨none, "death"⟩ [] [] []]]⟩

/-- Whether an entity is the event of a link, under the variable and maybe a global one, is given an
identity or not, and starts from a value that passes a test. -/
def isEvent (link : Nat) (globalName? : Option String) (merged : Bool) (test : Value → Bool)
    (x : Resolution) : Bool :=
  decide (x.place.link? = some link) && decide (x.entity.variableName? = some "event") &&
    decide (x.entity.globalName? = globalName?) && x.identity?.isSome == merged &&
    startsFrom ["urn:Event"] test x

/-- The event of a link that is under the variable. -/
structure IsEvent (x : Resolution) (link : Nat) (globalName? : Option String) (merged : Bool) : Prop where
  link?_eq : x.place.link? = some link
  variableName?_eq : x.entity.variableName? = some "event"
  globalName?_eq : x.entity.globalName? = globalName?
  merged_eq : x.identity?.isSome = merged

theorem exists_of_isEvent {link : Nat} {globalName? : Option String} {merged : Bool} {test : Value → Bool}
    (h : isEvent link globalName? merged test x = true) : IsEvent x link globalName? merged ∧
      ∃ v t, x.StartsFrom ["urn:Event"] v t ∧ test v = true := by
  simp only [isEvent, Bool.and_eq_true, decide_eq_true_eq, beq_iff_eq] at h
  exact ⟨⟨h.1.1.1.1, h.1.1.1.2, h.1.1.2, h.1.2⟩, exists_startsFrom h.2⟩

/-- The birth and the death, at two nodes, start from the one value that the variable keeps. -/
theorem values_set_once_event :
    ∃ scene place m mappingGraph? node position s₀ x y v t u,
      let domain := Part.domain scene place m mappingGraph? node position
      eventEngine.Enters [] eventDocument domain s₀ ∧ (domain.interior s₀).TakesUp x ∧
        (domain.interior s₀).TakesUp y ∧ IsEvent x 1 none false ∧ IsEvent y 2 none false ∧
        x.StartsFrom ["urn:Event"] v t ∧ y.StartsFrom ["urn:Event"] v u ∧ v = .uri "uuid:AB" ∧
        (∀ u, (domain.interior s₀).Later t u → u.contexts.lookup? 0 "event" = some v) ∧
        KeptOn s₀ (eventEngine.final [] eventDocument) ∧ AssignedOn s₀ (eventEngine.final [] eventDocument) := by
  have hvisit : (visits 4 (eventEngine.parts eventDocument) (eventEngine.start [])).any (takesUpAll
      [isEvent 1 none false (· == .uri "uuid:AB"), isEvent 2 none false fun _ => true]) = true := by
    decide +kernel
  obtain ⟨scene, place, m, mappingGraph?, node, position, s₀, hentered, htests⟩ :=
    exists_of_takesUpAll hvisit
  obtain ⟨x, hx, hbirth⟩ := htests _ List.mem_cons_self
  obtain ⟨y, hy, hdeath⟩ := htests _ (List.mem_cons_of_mem _ List.mem_cons_self)
  obtain ⟨hbirth, v, t, hv, hvalue⟩ := exists_of_isEvent hbirth
  obtain ⟨hdeath, w, u, hw, -⟩ := exists_of_isEvent hdeath
  have hvalue : v = .uri "uuid:AB" := beq_iff_eq.1 hvalue
  have ownx : x.identity? = none := by simpa using hbirth.merged_eq
  have owny : y.identity? = none := by simpa using hdeath.merged_eq
  obtain ⟨hlater, hnode, hsame⟩ := values_set_once eventEngine [] eventDocument
  obtain ⟨-, hkept, hbinds⟩ := hnode scene place m mappingGraph? node position s₀ hentered
  obtain ⟨-, hnamed⟩ := hsame x y _ _ v w t u (takesUp_of_interior hentered hx)
    (takesUp_of_interior hentered hy) hv hw ownx owny
  obtain ⟨hvariable, -⟩ := hnamed hbirth.globalName?_eq hdeath.globalName?_eq
  obtain rfl := hvariable "event" hbirth.variableName?_eq hdeath.variableName?_eq
    ⟨scene, place, m, mappingGraph?, node, position, s₀, hentered, hx, hy⟩
  obtain ⟨-, -, hbound⟩ := hbinds x hx
  have hevent := hbound _ v t "event" hv ownx hbirth.globalName?_eq hbirth.variableName?_eq
  obtain ⟨hcache, hglobals⟩ := hlater _ _ (later_final (later_of_enters hentered))
  exact ⟨scene, place, m, mappingGraph?, node, position, s₀, x, y, v, t, u, hentered, hx, hy, hbirth, hdeath,
    hv, hw, hvalue, fun z hz => hkept t z hz "event" v hevent, hcache, hglobals⟩

/-- Two entities of the node do not start from that value, although they have the variable: one for which a
global variable comes first, and one that is merged into the person. -/
theorem values_set_apart :
    ∃ scene place m mappingGraph? node position s₀ x y z t u w,
      let domain := Part.domain scene place m mappingGraph? node position
      eventEngine.Enters [] eventDocument domain s₀ ∧ (domain.interior s₀).TakesUp x ∧
        (domain.interior s₀).TakesUp y ∧ (domain.interior s₀).TakesUp z ∧ IsEvent x 2 none false ∧
        IsEvent y 3 (some "death") false ∧ IsEvent z 4 none true ∧
        x.StartsFrom ["urn:Event"] (.uri "uuid:AB") t ∧ y.StartsFrom ["urn:Event"] (.uri "uuid:AC") u ∧
        z.StartsFrom ["urn:Event"] (.uri "uuid:AA") w := by
  have hvisit : (visits 4 (eventEngine.parts eventDocument) (eventEngine.start [])).any (takesUpAll
      [isEvent 2 none false (· == .uri "uuid:AB"), isEvent 3 (some "death") false (· == .uri "uuid:AC"),
        isEvent 4 none true (· == .uri "uuid:AA")]) = true := by
    decide +kernel
  obtain ⟨scene, place, m, mappingGraph?, node, position, s₀, hentered, htests⟩ :=
    exists_of_takesUpAll hvisit
  obtain ⟨x, hx, hdeath⟩ := htests _ List.mem_cons_self
  obtain ⟨y, hy, hend⟩ := htests _ (List.mem_cons_of_mem _ List.mem_cons_self)
  obtain ⟨z, hz, hmerged⟩ := htests _ (List.mem_cons_of_mem _ (List.mem_cons_of_mem _ List.mem_cons_self))
  obtain ⟨hdeath, v, t, hv, hvalue⟩ := exists_of_isEvent hdeath
  obtain ⟨hend, v', u, hv', hvalue'⟩ := exists_of_isEvent hend
  obtain ⟨hmerged, v'', w, hv'', hvalue''⟩ := exists_of_isEvent hmerged
  obtain rfl : v = .uri "uuid:AB" := beq_iff_eq.1 hvalue
  obtain rfl : v' = .uri "uuid:AC" := beq_iff_eq.1 hvalue'
  obtain rfl : v'' = .uri "uuid:AA" := beq_iff_eq.1 hvalue''
  exact ⟨scene, place, m, mappingGraph?, node, position, s₀, x, y, z, t, u, w, hentered, hx, hy, hz, hdeath,
    hend, hmerged, hv, hv', hv''⟩

end Engine

end Crosswalk
