import Crosswalk.Proofs.Steps

/-!
# What resolving an entity changes

Resolving reads the source and remembers what it read. `Reading` lists the single things that this
can do to the state of a run: an identifier is drawn, a value is kept where there was none, a context
is entered, and the entity of a context is noted once. None of them touches the graph, the
diagnostics or the join indexes. Whatever is kept by each of these is therefore kept by a resolution
of any depth, and no proof has to follow the descent into additional entities again.
-/

namespace Crosswalk

/-! ## Contexts as an array -/

namespace Contexts

variable {cs : Contexts} {c : Context} {f : Context → Context} {id other : Nat}

@[simp] theorem size_push (cs : Contexts) (c : Context) : (cs.push c).size = cs.size + 1 := by
  simp [push, size]

@[simp] theorem size_update (cs : Contexts) (id : Nat) (f : Context → Context) :
    (cs.update id f).size = cs.size := by
  simp [update, size]

theorem get_of_size_le (h : cs.size ≤ id) : cs.get id = default := by
  rw [get, Array.getD_eq_getD_getElem?, Array.getElem?_eq_none h, Option.getD_none]

@[simp] theorem get_push_size (cs : Contexts) (c : Context) : (cs.push c).get cs.size = c := by
  simp [push, size, get]

theorem get_push_of_ne (h : id ≠ cs.size) : (cs.push c).get id = cs.get id := by
  rw [size] at h
  simp [push, get, Array.getElem?_push, h]

theorem get_update_of_ne (h : other ≠ id) : (cs.update id f).get other = cs.get other := by
  simp [update, get, Array.getElem?_modify, h.symm]

theorem get_update_of_lt (h : id < cs.size) : (cs.update id f).get id = f (cs.get id) := by
  rw [size] at h
  simp [update, get, h, Array.getElem_modify]

/-- An update that keeps a part of every context keeps it everywhere. -/
theorem get_update_congr {γ : Type} (g : Context → γ) (h : ∀ c, g (f c) = g c) :
    g ((cs.update id f).get other) = g (cs.get other) := by
  by_cases hne : other = id
  · subst hne
    by_cases hlt : other < cs.size
    · rw [get_update_of_lt hlt, h]
    · have hle : cs.size ≤ other := Nat.le_of_not_lt hlt
      rw [get_of_size_le hle, get_of_size_le (by rwa [size_update])]
  · rw [get_update_of_ne hne]

@[simp] theorem resolved?_get_bind (cs : Contexts) (id other : Nat) (name : String)
    (value : Value) : ((cs.bind id name value).get other).resolved? = (cs.get other).resolved? :=
  get_update_congr (·.resolved?) fun _ => rfl

@[simp] theorem linked_get_bind (cs : Contexts) (id other : Nat) (name : String) (value : Value) :
    ((cs.bind id name value).get other).linked = (cs.get other).linked :=
  get_update_congr (·.linked) fun _ => rfl

/-- Where something was resolved there is a context. -/
theorem lt_size_of_resolved? {r : Resolved} (h : (cs.get id).resolved? = some r) : id < cs.size := by
  by_contra hid
  rw [get_of_size_le (Nat.le_of_not_lt hid)] at h
  cases h

/-- A context that is new keeps what holds of a number that stands for none. -/
theorem get_push_congr {γ : Type} (g : Context → γ) (h : g c = g default) :
    g ((cs.push c).get id) = g (cs.get id) := by
  by_cases hid : id = cs.size
  · subst hid
    rw [get_push_size, get_of_size_le (Nat.le_refl _), h]
  · rw [get_push_of_ne hid]

end Contexts

/-- Where a context is: its role and what it belongs to, its node and the position of the node. -/
def Context.seat (c : Context) : Role × Option Nat × Xml.Location × Nat :=
  (c.role, c.parent?, c.node, c.position)

/-- The contexts that there were are still there, each in its seat, with what was resolved in it and with
the variables that were bound in it. -/
structure Contexts.Extends (cs ds : Contexts) : Prop where
  size_le : cs.size ≤ ds.size
  seat : ∀ id < cs.size, (ds.get id).seat = (cs.get id).seat
  resolved : ∀ id r, (cs.get id).resolved? = some r → (ds.get id).resolved? = some r
  bound : ∀ id name v, (cs.get id).bindings.get? name = some v →
    (ds.get id).bindings.get? name = some v

namespace Contexts.Extends

variable {cs ds es : Contexts} {id : Nat}

theorem refl (cs : Contexts) : cs.Extends cs :=
  ⟨Nat.le_refl _, fun _ _ => rfl, fun _ _ h => h, fun _ _ _ h => h⟩

theorem trans (h : cs.Extends ds) (h' : ds.Extends es) : cs.Extends es :=
  ⟨Nat.le_trans h.size_le h'.size_le,
    fun id hid => (h'.seat id (Nat.lt_of_lt_of_le hid h.size_le)).trans (h.seat id hid),
    fun id r hr => h'.resolved id r (h.resolved id r hr),
    fun id name v hv => h'.bound id name v (h.bound id name v hv)⟩

theorem node (h : cs.Extends ds) (id : Nat) (hid : id < cs.size) : (ds.get id).node = (cs.get id).node :=
  congrArg (·.2.2.1) (h.seat id hid)

theorem position (h : cs.Extends ds) (id : Nat) (hid : id < cs.size) :
    (ds.get id).position = (cs.get id).position :=
  congrArg (·.2.2.2) (h.seat id hid)

/-- A context that has been entered keeps its seat. -/
theorem seat_of_push {c : Context} (h : (cs.push c).Extends ds) :
    cs.size < ds.size ∧ (ds.get cs.size).seat = c.seat := by
  have hid : cs.size < (cs.push c).size := by simp
  exact ⟨Nat.lt_of_lt_of_le hid h.size_le, by rw [h.seat _ hid, get_push_size]⟩

theorem of_push {c : Context} (h : (cs.push c).Extends ds) :
    cs.size < ds.size ∧ (ds.get cs.size).node = c.node ∧ (ds.get cs.size).position = c.position := by
  obtain ⟨hlt, hseat⟩ := h.seat_of_push
  exact ⟨hlt, congrArg (·.2.2.1) hseat, congrArg (·.2.2.2) hseat⟩

end Contexts.Extends

/-- Nothing has happened yet in the context. -/
structure Context.IsFresh (c : Context) : Prop where
  resolved?_eq : c.resolved? = none
  linked_eq : c.linked = false
  bindings_eq : c.bindings = .empty

theorem Contexts.resolved?_get_push {c : Context} (h : c.IsFresh) (cs : Contexts) (id : Nat) :
    ((cs.push c).get id).resolved? = (cs.get id).resolved? :=
  get_push_congr (·.resolved?) h.resolved?_eq

theorem Contexts.linked_get_push {c : Context} (h : c.IsFresh) (cs : Contexts) (id : Nat) :
    ((cs.push c).get id).linked = (cs.get id).linked :=
  get_push_congr (·.linked) h.linked_eq

theorem Contexts.bindings_get_push {c : Context} (h : c.IsFresh) (cs : Contexts) (id : Nat) :
    ((cs.push c).get id).bindings = (cs.get id).bindings :=
  get_push_congr (·.bindings) h.bindings_eq

theorem Contexts.extends_push {cs : Contexts} {c : Context} (fresh : c.IsFresh) :
    cs.Extends (cs.push c) :=
  ⟨by simp, fun id hid => by rw [get_push_of_ne (Nat.ne_of_lt hid)],
    fun id r hr => by rw [resolved?_get_push fresh, hr],
    fun id name v hv => by rw [bindings_get_push fresh, hv]⟩

/-- Binding a variable that is not bound leaves the others as they are. -/
theorem Contexts.bindings_get_bind {cs : Contexts} {id other : Nat} {name name' : String} {value v : Value}
    (new : cs.lookup? id name = none) (h : (cs.get other).bindings.get? name' = some v) :
    ((cs.bind id name value).get other).bindings.get? name' = some v := by
  rw [bind]
  by_cases hother : other = cs.owner id
  · subst hother
    by_cases hlt : cs.owner id < cs.size
    · rw [get_update_of_lt hlt, Table.get?_insert, if_neg, h]
      rintro rfl
      cases new.symm.trans h
    · rw [get_of_size_le (Nat.le_of_not_lt hlt)] at h
      cases h
  · rw [get_update_of_ne hother, h]

/-- Noting what an entity is resolved to, where nothing was, takes nothing back. -/
theorem Contexts.extends_resolved {cs : Contexts} {id : Nat} (r : Resolved)
    (new : (cs.get id).resolved? = none) :
    cs.Extends (cs.update id fun c => { c with resolved? := some r }) := by
  refine ⟨by simp, fun _ _ => get_update_congr (·.seat) fun _ => rfl, fun other r' hr => ?_,
    fun other name v hv => ?_⟩
  · have hne : other ≠ id := by
      rintro rfl
      cases new.symm.trans hr
    rwa [get_update_of_ne hne]
  · rwa [get_update_congr (f := fun c => { c with resolved? := some r }) (·.bindings) fun _ => rfl]

theorem Context.isFresh_fresh (role : Role) (node : Xml.Location) (position : Nat)
    (parent? : Option Nat) : (Context.fresh role node position parent?).IsFresh :=
  ⟨rfl, rfl, rfl⟩

/-! ## Described entities -/

mutual

/-- The entity has a type and its labels are texts, and so it is with all that is attached to it. -/
def Resolved.IsDescribed : Resolved → Prop
  | ⟨_, types, labels, additionals⟩ =>
    types ≠ [] ∧ (∀ label ∈ labels, label.2.isUri = false) ∧ AttachedDescribed additionals

def AttachedDescribed : List (Attached Resolved) → Prop
  | [] => True
  | ⟨_, ⟨value, types, labels, additionals⟩⟩ :: rest =>
    Resolved.IsDescribed ⟨value, types, labels, additionals⟩ ∧ AttachedDescribed rest

end

theorem attachedDescribed_cons {relationship : String} {r : Resolved}
    {rest : List (Attached Resolved)} :
    AttachedDescribed (⟨relationship, r⟩ :: rest) ↔ r.IsDescribed ∧ AttachedDescribed rest := by
  obtain ⟨value, types, labels, additionals⟩ := r
  rw [AttachedDescribed]

/-- The entity of a context is a resource. -/
def Contexts.HasResource (cs : Contexts) (id : Nat) : Prop :=
  ∃ r, (cs.get id).resolved? = some r ∧ r.IsDescribed ∧ r.value.isUri

theorem Contexts.HasResource.lt_size {cs : Contexts} {id : Nat} (h : cs.HasResource id) :
    id < cs.size := by
  obtain ⟨r, hr, -, -⟩ := h
  exact lt_size_of_resolved? hr

theorem Contexts.HasResource.extends {cs ds : Contexts} {id : Nat} (h : cs.HasResource id)
    (hcs : cs.Extends ds) : ds.HasResource id := by
  obtain ⟨r, hr, hdescribed, huri⟩ := h
  exact ⟨r, hcs.resolved id r hr, hdescribed, huri⟩

namespace Run

/-! ## The changes -/

/-- The single changes of a state that reading the source and resolving entities consist of. The
contexts in which an entity is noted are those from the `n`-th on. -/
inductive Reading (n : Nat) : RunState → RunState → Prop
  | drawn (s : RunState) (uuids : UuidSource) : Reading n s { s with uuids := uuids }
  | kept (s : RunState) (key : String) (value : Value) (new : s.cache.get? key = none) :
    Reading n s { s with cache := s.cache.insert key value }
  | assigned (s : RunState) (name : String) (value : Value) (new : s.globals.get? name = none) :
    Reading n s { s with globals := s.globals.insert name value }
  | bound (s : RunState) (id : Nat) (name : String) (value : Value)
      (new : s.contexts.lookup? id name = none) :
    Reading n s { s with contexts := s.contexts.bind id name value }
  | associated (s : RunState) (a : Association) :
    Reading n s { s with associations := s.associations.record a }
  | entered (s : RunState) (c : Context) (fresh : c.IsFresh) :
    Reading n s { s with contexts := s.contexts.push c }
  | resolved (s : RunState) (id : Nat) (r : Resolved) (late : n ≤ id) (described : r.IsDescribed)
      (new : (s.contexts.get id).resolved? = none) :
    Reading n s { s with contexts := s.contexts.update id fun c => { c with resolved? := some r } }

/-- What happens while entities are resolved. -/
abbrev Reads (n : Nat) : RunState → RunState → Prop :=
  Relation.ReflTransGen (Reading n)

variable {s t : RunState} {n k : Nat}

theorem Reading.of_le (h : Reading n s t) (hk : k ≤ n) : Reading k s t := by
  cases h with
  | drawn uuids => exact .drawn s uuids
  | kept key value new => exact .kept s key value new
  | assigned name value new => exact .assigned s name value new
  | bound id name value new => exact .bound s id name value new
  | associated a => exact .associated s a
  | entered c fresh => exact .entered s c fresh
  | resolved id r late described new => exact .resolved s id r (Nat.le_trans hk late) described new

theorem Reads.of_le (h : Reads n s t) (hk : k ≤ n) : Reads k s t := by
  induction h with
  | refl => exact .refl
  | tail _ change ih => exact ih.tail (change.of_le hk)

theorem Meets.of_le {α : Type} {m : Run α} {Q : α → RunState → Prop} (h : Meets (Reads n) Q m s)
    (hk : k ≤ n) : Meets (Reads k) Q m s :=
  ⟨h.1.of_le hk, h.2⟩

/-- What every single change keeps is kept. -/
theorem Reads.congr {γ : Type} (g : RunState → γ) (hg : ∀ s t, Reading n s t → g t = g s)
    (h : Reads n s t) : g t = g s := by
  induction h with
  | refl => rfl
  | tail _ change ih => rw [hg _ _ change, ih]

theorem Reads.graph_eq (h : Reads n s t) : t.graph = s.graph :=
  h.congr (·.graph) fun _ _ change => by cases change <;> rfl

theorem Reads.diagnostics_eq (h : Reads n s t) : t.diagnostics = s.diagnostics :=
  h.congr (·.diagnostics) fun _ _ change => by cases change <;> rfl

theorem Reads.joins_eq (h : Reads n s t) : t.joins = s.joins :=
  h.congr (·.joins) fun _ _ change => by cases change <;> rfl

theorem Reads.counters_eq (h : Reads n s t) : t.counters = s.counters :=
  h.congr (·.counters) fun _ _ change => by cases change <;> rfl

theorem Reading.linked_eq (h : Reading n s t) (id : Nat) :
    (t.contexts.get id).linked = (s.contexts.get id).linked := by
  cases h with
  | bound => exact Contexts.linked_get_bind ..
  | resolved => exact Contexts.get_update_congr (·.linked) fun _ => rfl
  | entered c fresh => exact Contexts.linked_get_push fresh ..
  | _ => rfl

/-- Reading writes nothing, so nothing counts as written afterwards that did not before. -/
theorem Reads.linked_eq (h : Reads n s t) (id : Nat) :
    (t.contexts.get id).linked = (s.contexts.get id).linked :=
  h.congr (fun s => (s.contexts.get id).linked) fun _ _ change => change.linked_eq id

theorem Reading.resolved?_eq (h : Reading n s t) {id : Nat} (hid : id < n) :
    (t.contexts.get id).resolved? = (s.contexts.get id).resolved? := by
  cases h with
  | bound => exact Contexts.resolved?_get_bind ..
  | resolved other r late => rw [Contexts.get_update_of_ne (by omega)]
  | entered c fresh => exact Contexts.resolved?_get_push fresh ..
  | _ => rfl

/-- Entities are only noted in late contexts. -/
theorem Reads.resolved?_eq (h : Reads n s t) {id : Nat} (hid : id < n) :
    (t.contexts.get id).resolved? = (s.contexts.get id).resolved? :=
  h.congr (fun s => (s.contexts.get id).resolved?) fun _ _ change => change.resolved?_eq hid

theorem Reading.extends (h : Reading n s t) : s.contexts.Extends t.contexts := by
  cases h with
  | bound id name value new =>
    exact ⟨by simp [Contexts.bind], fun _ _ => Contexts.get_update_congr (·.seat) fun _ => rfl,
      fun id r hr => by simpa using hr, fun _ _ _ hv => Contexts.bindings_get_bind new hv⟩
  | entered c fresh => exact Contexts.extends_push fresh
  | resolved id r' late described new => exact Contexts.extends_resolved r' new
  | _ => exact .refl _

theorem Reads.extends (h : Reads n s t) : s.contexts.Extends t.contexts := by
  induction h with
  | refl => exact .refl _
  | tail _ change ih => exact ih.trans change.extends

/-- The value that is kept for a key stays kept. -/
def KeptOn (s t : RunState) : Prop :=
  ∀ key v, s.cache.get? key = some v → t.cache.get? key = some v

instance : IsPreorder RunState KeptOn where
  refl _ _ _ h := h
  trans _ _ _ h h' key v hv := h' key v (h key v hv)

theorem Reads.keptOn {n : Nat} (h : Reads n s t) : KeptOn s t := by
  induction h with
  | refl => exact refl s
  | tail _ change ih =>
    refine IsTrans.trans _ _ _ ih fun key v hv => ?_
    cases change with
    | kept key' value new =>
      rw [Table.get?_insert, if_neg]
      · exact hv
      · rintro rfl
        cases new.symm.trans hv
    | _ => exact hv

/-! ## Steps and their parts -/

namespace Composes

variable {P : ∀ α : Type, Run α → Prop} (hP : Composes P) {scene : Scene} {generator? : Option GeneratorCall}

include hP

theorem labels {c : Context} {calls : List GeneratorCall} (h : ∀ call ∈ calls, P _ (label? scene call c)) :
    P _ (Run.labels scene c calls) := by
  induction calls with
  | nil => exact hP.pure _
  | cons call rest ih =>
    rw [List.forall_mem_cons] at h
    exact hP.bind h.1 fun _ => hP.bind (ih h.2) fun _ => hP.pure _

theorem domainGraph {m : Mapping} {node : Xml.Location} {position : Nat} (mappingGraph? : Option String)
    (h : ∀ call ∈ m.domain.graphGenerator?, P _ (generate scene call node position))
    (hdrop : P String (drop .graphNotUri)) :
    P _ (Run.domainGraph scene m mappingGraph? node position) := by
  rw [Run.domainGraph]
  split
  next call hcall =>
    refine hP.bind (hP.bind (h call hcall) fun value => ?_) fun _ => hP.pure _
    split
    · exact hP.pure _
    · exact hdrop
  · exact hP.pure _

variable (hget : P _ get)

include hget

theorem context (id : Nat) : P _ (Run.context id) :=
  hP.bind hget fun _ => hP.pure _

/-- The value of a variable of the run is looked up, or is a first value that is noted. -/
theorem globalValue {name : String} (hfirst : ∀ c, P _ (firstValue scene generator? c name))
    (hnote : ∀ value, P _ (modify fun s => { s with globals := s.globals.insert name value })) (id : Nat) :
    P _ (Run.globalValue scene generator? id name) := by
  refine hP.bind hget fun s => ?_
  split
  · exact hP.pure _
  · exact hP.bind (hP.context hget id) fun c => hP.bind (hfirst c) fun value =>
      hP.bind (hnote value) fun _ => hP.pure _

/-- The value of a variable of the domain node is looked up, or is a first value that is noted. -/
theorem variableValue {name : String} (hfirst : ∀ c, P _ (firstValue scene generator? c name)) {id : Nat}
    (hnote : ∀ value, P _ (modify fun s => { s with contexts := s.contexts.bind id name value })) :
    P _ (Run.variableValue scene generator? id name) := by
  refine hP.bind hget fun s => ?_
  split
  · exact hP.pure _
  · exact hP.bind (hP.context hget id) fun c => hP.bind (hfirst c) fun value =>
      hP.bind (hnote value) fun _ => hP.pure _

/-- The value of an entity without a variable is looked up, or is generated and noted. -/
theorem keyedValue (hmissing : generator? = none → P Value (throw (Fault.setup .missingGenerator)))
    (hgenerate : ∀ call ∈ generator?, ∀ node position, P _ (generate scene call node position))
    (hnote : ∀ key value, P _ (modify fun s => { s with cache := s.cache.insert key value }))
    (place : Place) (id : Nat) (types : List String) :
    P _ (Run.keyedValue scene place generator? id types) := by
  cases generator? with
  | none => exact hmissing rfl
  | some call =>
    refine hP.bind (hP.context hget id) fun c => hP.bind hget fun s => ?_
    split
    · exact hP.pure _
    · exact hP.bind (hgenerate call rfl c.node c.position) fun value => hP.bind (hnote _ value) fun _ =>
        hP.pure _

end Composes

/-! ## Values -/

section

variable {scene : Scene} {place : Place}

/-- A generator draws identifiers and does nothing else. -/
theorem after_generate (scene : Scene) (call : GeneratorCall) (node : Xml.Location)
    (position : Nat) (s : RunState) :
    ∃ uuids, after (generate scene call node position) s = { s with uuids := uuids } :=
  ⟨_, rfl⟩

theorem after_firstValue (generator? : Option GeneratorCall) (c : Context) (name : String)
    (s : RunState) :
    ∃ uuids, after (firstValue scene generator? c name) s = { s with uuids := uuids } := by
  cases generator? with
  | none => exact ⟨s.uuids, rfl⟩
  | some call => exact after_generate scene call c.node c.position s

theorem generate_moves {R : RunState → RunState → Prop} (h : ∀ s uuids, R s { s with uuids := uuids })
    (call : GeneratorCall) (node : Xml.Location) (position : Nat) :
    Moves R (generate scene call node position) := by
  intro s
  obtain ⟨uuids, hu⟩ := after_generate scene call node position s
  rw [hu]
  exact h s uuids

theorem firstValue_moves {R : RunState → RunState → Prop} (h : ∀ s uuids, R s { s with uuids := uuids })
    (generator? : Option GeneratorCall) (c : Context) (name : String) :
    Moves R (firstValue scene generator? c name) := by
  intro s
  obtain ⟨uuids, hu⟩ := after_firstValue generator? c name s
  rw [hu]
  exact h s uuids

theorem generate_reads (call : GeneratorCall) (node : Xml.Location) (position : Nat) :
    Moves (Reads n) (generate scene call node position) :=
  generate_moves (fun s uuids => .single (.drawn s uuids)) call node position

/-- A value that is generated and then noted, where nothing was noted before. -/
theorem noted_reads {m : Run Value} {note : Value → RunState → RunState}
    (hm : ∃ uuids, after m s = { s with uuids := uuids })
    (h : ∀ uuids value, Reading n { s with uuids := uuids } (note value { s with uuids := uuids })) :
    Reads n s (after (do
      let value ← m
      modify (note value)
      return value) s) := by
  obtain ⟨uuids, hu⟩ := hm
  refine rel_bind (hu ▸ .single (.drawn s uuids)) fun value t ht => ?_
  rw [after_eq ht] at hu
  subst hu
  exact .single (h uuids value)

theorem globalValue_reads (generator? : Option GeneratorCall) (id : Nat) (name : String) :
    Moves (Reads n) (globalValue scene generator? id name) := by
  rw [globalValue]
  refine .get_bind fun s => ?_
  cases hs : s.globals.get? name with
  | some value => exact .refl
  | none =>
    rw [after_bind, outcome_context]
    exact noted_reads (after_firstValue _ _ _ s) fun _ value => .assigned _ name value hs

theorem variableValue_reads (generator? : Option GeneratorCall) (id : Nat) (name : String) :
    Moves (Reads n) (variableValue scene generator? id name) := by
  rw [variableValue]
  refine .get_bind fun s => ?_
  cases hs : s.contexts.lookup? id name with
  | some value => exact .refl
  | none =>
    rw [after_bind, outcome_context]
    exact noted_reads (after_firstValue _ _ _ s) fun _ value => .bound _ id name value hs

theorem keyedValue_reads (generator? : Option GeneratorCall) (id : Nat) (types : List String) :
    Moves (Reads n) (keyedValue scene place generator? id types) := by
  cases generator? with
  | none => exact .throw _
  | some call =>
    rw [keyedValue]
    refine .context_bind fun s => ?_
    cases hs : s.cache.get? (cacheKey scene.source place (s.contexts.get id) types) with
    | some value =>
      rw [after_bind, outcome_get]
      simp only [hs]
      exact .refl
    | none =>
      rw [after_bind, outcome_get]
      simp only [hs]
      exact noted_reads (after_generate _ _ _ _ s) fun _ value => .kept _ _ value hs

theorem entityValue_reads (entity : Entity) (id : Nat) (types : List String) :
    Moves (Reads n) (entityValue scene place entity id types) := by
  rw [entityValue]
  split
  · exact globalValue_reads _ id _
  · exact variableValue_reads _ id _
  · exact keyedValue_reads _ id types

theorem isUri_asLabel (v : Value) : v.asLabel.isUri = false := by
  cases v <;> rfl

theorem label?_meets (call : GeneratorCall) (c : Context) (s : RunState) :
    Meets (Reads n) (fun label? _ => ∀ label ∈ label?, label.2.isUri = false)
      (label? scene call c) s := by
  refine .tryCatch (.bind ((generate_reads _ _ _).meets s) fun v t _ _ => ?_) fun e t _ => ?_
  · exact .pure (by rintro _ ⟨⟩; exact isUri_asLabel v)
  · cases e with
    | abort e => exact .fault rfl
    | drop cause =>
      dsimp only
      split
      · exact .pure (by rintro _ ⟨⟩)
      · exact .fault rfl

theorem labels_meets (c : Context) (calls : List GeneratorCall) (s : RunState) :
    Meets (Reads n) (fun labels _ => ∀ label ∈ labels, label.2.isUri = false)
      (labels scene c calls) s := by
  induction calls generalizing s with
  | nil => exact .pure (by simp)
  | cons call rest ih =>
    refine .bind (label?_meets call c s) fun label t _ hlabel => ?_
    refine .bind (ih t) fun others u _ hothers => .pure fun l hl => ?_
    rcases List.mem_append.1 hl with hl | hl
    · exact hlabel l (Option.mem_toList.1 hl)
    · exact hothers l hl

/-! ## Entities -/

/-- The value of an entity: the identity that it is given, or else its own in the shape of its
types. -/
def shapedValue (scene : Scene) (place : Place) (entity : Entity) (id : Nat)
    (types : List String) : Option Value → Run Value
  | some identity => return identity
  | none => do
    let generated ← entityValue scene place entity id types
    ofSetup (generated.shape types)

/-- What hangs off the value of an entity: nothing if it is a literal. -/
def belongings (scene : Scene) (place : Place) (entity : Entity) (id : Nat) (c : Context)
    (value : Value) : Run (List (String × Value) × List (Attached Resolved)) := do
  if value.isUri then
    let labels ← labels scene c entity.labels
    let attached ← resolveAdditionals scene place id c value 0 entity.additionals
    return (labels, attached)
  else return ([], [])

/-- Resolves an entity in a context in which nothing is resolved yet. -/
def resolveFresh (scene : Scene) (place : Place) (id : Nat) (identity? : Option Value)
    (entity : Entity) (c : Context) : Run Resolved := do
  let types ← expandAll scene entity.types
  let value ← shapedValue scene place entity id types identity?
  associate scene c.node value
  let (labels, attached) ← belongings scene place entity id c value
  updateContext id fun c => { c with resolved? := some ⟨value, types, labels, attached⟩ }
  return ⟨value, types, labels, attached⟩

theorem resolveWith_eq (scene : Scene) (place : Place) (id : Nat) (identity? : Option Value)
    (entity : Entity) :
    resolveWith scene place id identity? entity = (do
      let c ← context id
      match c.resolved? with
      | some resolved => return resolved
      | none =>
        if entity.types.isEmpty then throw (Fault.setup .missingType)
        else resolveFresh scene place id identity? entity c) := by
  obtain ⟨typeNames, generator?, labelCalls, additionals, variableName?, globalName?⟩ := entity
  rw [resolveWith]
  congr 1
  funext c
  cases c.resolved? with
  | some resolved => rfl
  | none =>
    dsimp only
    split
    · rfl
    rw [resolveFresh]
    congr 1
    funext types
    unfold shapedValue belongings
    -- both ways to a value go on in the same way
    cases identity? with
    | some value =>
      simp only [pure_bind]
      congr 1
      funext _
      split <;> simp only [bind_assoc, pure_bind]
    | none =>
      simp only [bind_assoc]
      congr 1
      funext generated
      congr 1
      funext value
      congr 1
      funext _
      split <;> simp only [bind_assoc, pure_bind]

/-- Expanding the names of types loses none of them. -/
theorem expandAll_ne_nil {names expanded : List String} (hn : names.isEmpty = false)
    (h : outcome (expandAll scene names) s = (.ok expanded, t)) : expanded ≠ [] := by
  obtain ⟨hall, -⟩ := ofSetup_ok.1 h
  rintro rfl
  cases mapM_eq_ok_iff.1 hall
  simp at hn

theorem shapedValue_reads (entity : Entity) (id : Nat) (types : List String)
    (identity? : Option Value) :
    Moves (Reads n) (shapedValue scene place entity id types identity?) := by
  cases identity? with
  | some identity => exact .pure identity
  | none => exact .bind (entityValue_reads entity id types) fun generated => .ofSetup _

theorem associate_reads (node : Xml.Location) (value : Value) :
    Moves (Reads n) (associate scene node value) :=
  fun s => .single (.associated s _)

/-- How the additional entities of an owner are resolved: only contexts that are new get entities,
and all of these are described. -/
def AdditionalsMeet (scene : Scene) (place : Place) (additionals : List (Attached Entity)) : Prop :=
  ∀ owner c value k s, Meets (Reads s.contexts.size) (fun rs _ => AttachedDescribed rs)
    (resolveAdditionals scene place owner c value k additionals) s

theorem belongings_meets {entity : Entity} (h : AdditionalsMeet scene place entity.additionals)
    (id : Nat) (c : Context) (value : Value) (s : RunState) :
    Meets (Reads s.contexts.size)
      (fun p _ => (∀ label ∈ p.1, label.2.isUri = false) ∧ AttachedDescribed p.2)
      (belongings scene place entity id c value) s := by
  rw [belongings]
  split
  · refine .bind (labels_meets c entity.labels s) fun labels t ht hlabels => ?_
    refine .bind ((h id c value 0 t).of_le ht.extends.size_le) fun attached u _ hattached => ?_
    exact .pure ⟨hlabels, hattached⟩
  · exact .pure ⟨by simp, trivial⟩

theorem resolveFresh_meets {entity : Entity} (h : AdditionalsMeet scene place entity.additionals)
    (hn : entity.types.isEmpty = false) {id : Nat} (identity? : Option Value)
    (hid : id < s.contexts.size) (hnew : (s.contexts.get id).resolved? = none) (c : Context) :
    Meets (Reads id) (fun r t => r.IsDescribed ∧ (t.contexts.get id).resolved? = some r)
      (resolveFresh scene place id identity? entity c) s := by
  rw [resolveFresh]
  refine .bind ((Moves.ofSetup _).meets s) fun types t₁ _ h₁ => ?_
  have htypes : types ≠ [] := expandAll_ne_nil hn h₁
  obtain ⟨-, rfl⟩ := ofSetup_ok.1 h₁
  refine .bind ((shapedValue_reads entity id types identity?).meets s) fun value t₂ _ h₂ => ?_
  have hs₂ : Reads s.contexts.size s t₂ :=
    (shapedValue_reads entity id types identity?).outcome h₂
  refine .bind ((associate_reads c.node value).meets t₂) fun _ t₃ _ h₃ => ?_
  have hs₃ : Reads s.contexts.size s t₃ := hs₂.trans ((associate_reads c.node value).outcome h₃)
  have hsize : s.contexts.size ≤ t₃.contexts.size := hs₃.extends.size_le
  have hbelongings := (belongings_meets h id c value t₃).mono fun _ _ hr hp => And.intro hr hp
  refine .bind (hbelongings.of_le (by omega)) fun p t₄ _ ⟨h₄, hlabels, hattached⟩ => ?_
  have hs₄ : Reads s.contexts.size s t₄ := hs₃.trans (h₄.of_le hsize)
  have hnew₄ : (t₄.contexts.get id).resolved? = none := by rw [hs₄.resolved?_eq hid, hnew]
  have hid₄ : id < t₄.contexts.size := Nat.lt_of_lt_of_le hid hs₄.extends.size_le
  have hdescribed : Resolved.IsDescribed ⟨value, types, p.1, p.2⟩ := ⟨htypes, hlabels, hattached⟩
  refine ⟨.single (.resolved t₄ id _ (Nat.le_refl id) hdescribed hnew₄), ?_⟩
  rintro r t ⟨⟩
  exact ⟨hdescribed, by rw [Contexts.get_update_of_lt hid₄]⟩

/-- An entity is resolved into a context once: what is there stays, and what is new is described. -/
theorem resolveWith_meets_of {entity : Entity}
    (h : AdditionalsMeet scene place entity.additionals) {id : Nat} (identity? : Option Value)
    (hid : id < s.contexts.size) :
    Meets (Reads id) (fun r t => (t.contexts.get id).resolved? = some r ∧
        ((s.contexts.get id).resolved? = none → r.IsDescribed))
      (resolveWith scene place id identity? entity) s := by
  rw [resolveWith_eq]
  refine .bind (Moves.meets (.of_after_eq fun _ => rfl) s) fun c t _ ht => ?_
  rw [outcome_context] at ht
  cases ht
  rcases hr : (s.contexts.get id).resolved? with _ | resolved
  · dsimp only
    split
    · exact .fault rfl
    next hn =>
      have hn : entity.types.isEmpty = false := by simpa using hn
      exact (resolveFresh_meets h hn identity? hid hr _).mono fun r t _ ⟨hdescribed, hnoted⟩ =>
        ⟨hnoted, fun _ => hdescribed⟩
  · exact .pure ⟨hr, by simp⟩

theorem isFresh_additionalContext (c : Context) (owner : Nat) (value : Value) (k : Nat)
    (relationship : String) : (additionalContext c owner value k relationship).IsFresh :=
  ⟨rfl, rfl, rfl⟩

theorem enter_meets {c : Context} (h : c.IsFresh) (s : RunState) :
    Meets (Reads n) (fun id t => id = s.contexts.size ∧ id < t.contexts.size ∧
        (t.contexts.get id).resolved? = none ∧ (t.contexts.get id).node = c.node)
      (enter c) s := by
  refine ⟨.single (.entered s c h), ?_⟩
  rintro id t ⟨⟩
  refine ⟨rfl, ?_, ?_, ?_⟩
  · simp
  · rw [Contexts.get_push_size, h.resolved?_eq]
  · rw [Contexts.get_push_size]

theorem additionalsMeet_cons {name : String} {entity : Entity} {rest : List (Attached Entity)}
    (h : AdditionalsMeet scene place entity.additionals) (hrest : AdditionalsMeet scene place rest) :
    AdditionalsMeet scene place (⟨name, entity⟩ :: rest) := by
  intro owner c value k s
  rw [resolveAdditionals]
  refine .bind ((Moves.ofSetup _).meets s) fun relationship t₁ _ h₁ => ?_
  obtain ⟨-, rfl⟩ := ofSetup_ok.1 h₁
  have hfresh := isFresh_additionalContext c owner value k relationship
  refine .bind (enter_meets hfresh s) fun id t₂ _ ⟨hid, hlive, hnew, _⟩ => ?_
  subst hid
  refine .bind (resolveWith_meets_of h none hlive) fun r t₃ h₃ ⟨_, hdescribed⟩ => ?_
  have hsize : s.contexts.size ≤ t₃.contexts.size := by
    have := h₃.extends.size_le
    omega
  refine .bind ((hrest owner c value (k + 1) t₃).of_le hsize) fun rs t₄ _ hrs => ?_
  exact .pure (attachedDescribed_cons.2 ⟨hdescribed hnew, hrs⟩)

theorem additionalsMeet (scene : Scene) (place : Place) :
    ∀ additionals : List (Attached Entity), AdditionalsMeet scene place additionals
  | [] => fun _ _ _ _ _ => .pure trivial
  | ⟨_, ⟨_, _, _, additionals, _, _⟩⟩ :: rest =>
    additionalsMeet_cons (additionalsMeet scene place additionals)
      (additionalsMeet scene place rest)

theorem resolveWith_meets (entity : Entity) {id : Nat} (identity? : Option Value)
    (hid : id < s.contexts.size) :
    Meets (Reads id) (fun r t => (t.contexts.get id).resolved? = some r ∧
        ((s.contexts.get id).resolved? = none → r.IsDescribed))
      (resolveWith scene place id identity? entity) s :=
  resolveWith_meets_of (additionalsMeet scene place entity.additionals) identity? hid

/-- What is resolved in a context that is new is described. -/
theorem resolveWith_new_meets (entity : Entity) {id : Nat} (identity? : Option Value)
    (hid : id < s.contexts.size) (hnew : (s.contexts.get id).resolved? = none) :
    Meets (Reads 0) (fun r t => (t.contexts.get id).resolved? = some r ∧ r.IsDescribed)
      (resolveWith scene place id identity? entity) s :=
  ((resolveWith_meets entity identity? hid).of_le (Nat.zero_le id)).mono
    fun _ _ _ ⟨hnoted, hdescribed⟩ => ⟨hnoted, hdescribed hnew⟩

theorem resolveEntered_meets {c : Context} (h : c.IsFresh) (entity : Entity) (identity? : Option Value)
    (s : RunState) :
    Meets (Reads 0) (fun r t => (t.contexts.get s.contexts.size).resolved? = some r ∧ r.IsDescribed)
      (resolveWith scene place s.contexts.size identity? entity)
      { s with contexts := s.contexts.push c } := by
  obtain ⟨-, hlive, hnew, -⟩ := (enter_meets h s (n := 0)).2 _ _ rfl
  exact resolveWith_new_meets entity identity? hlive hnew

/-- The intermediate entities of a path are resources. -/
theorem intermediates_meets (l : LinkSetting) (path : Nat) (node : Xml.Location) (position : Nat)
    (k : Nat) (entities : List Entity) (s : RunState) :
    Meets (Reads 0) (fun ids t => ∀ id ∈ ids, t.contexts.HasResource id)
      (intermediates l path node position k entities) s := by
  induction entities generalizing k s with
  | nil => exact .pure (by simp)
  | cons entity rest ih =>
    rw [intermediates]
    have hfresh := Context.isFresh_fresh (.intermediate k) node position (some path)
    refine .bind (enter_meets hfresh s) fun id t₁ _ ⟨_, hlive, hnew, _⟩ => ?_
    refine .bind (P := fun r t => (t.contexts.get id).resolved? = some r ∧ r.IsDescribed) ?_ ?_
    · refine .tryCatch (resolveWith_new_meets entity none hlive hnew) fun e t _ => ?_
      cases e <;> exact .fault rfl
    · rintro r t₂ _ ⟨hnoted, hdescribed⟩
      split
      next huri =>
        refine .bind (ih (k + 1) t₂) fun ids t₃ h₃ hids => .pure ?_
        have hres := h₃.extends.resolved id r hnoted
        exact List.forall_mem_cons.2 ⟨⟨r, hres, hdescribed, huri⟩, hids⟩
      next => exact .fault rfl

theorem domainGraph_reads (scene : Scene) (m : Mapping) (mappingGraph? : Option String)
    (node : Xml.Location) (position : Nat) :
    Moves (Reads 0) (domainGraph scene m mappingGraph? node position) :=
  Moves.composes.domainGraph mappingGraph? (fun call _ => generate_reads call node position) (.drop _)

end

end Run

/-! ## Joins

A join reads the source as well, but it keeps the indexes that it needs. -/

/-- What a join selects nodes with, and the key that it looks for at these nodes. -/
def Join.legs (join : Join) (range : String) : List (String × String) :=
  match join.hop? with
  | none => [(range, join.keys.target)]
  | some hop => [(hop.node, join.keys.target), (range, hop.keys.target)]

namespace Run

section

variable {R : RunState → RunState → Prop} [IsPreorder RunState R]

theorem joinedNodes_moves (h : ∀ s joins, R s { s with joins := joins }) (l : LinkSetting)
    (domainNode : Xml.Location) (expression key value : String) :
    Moves R (joinedNodes l domainNode expression key value) := by
  refine .get_bind fun s => Moves.bind (.ofSetup _) (fun p => ?_) s
  exact .bind (.modify fun s => h s _) fun _ => .pure _

end

namespace Composes

variable {P : ∀ α : Type, Run α → Prop} (hP : Composes P) {l : LinkSetting} {domainNode : Xml.Location}
  (hkey : ∀ node expression, P String (ofSetup (l.scene.source.scalar node expression)))

include hP hkey

theorem joinOnward {range : String} {keys : KeyPair}
    (h : ∀ value, P _ (joinedNodes l domainNode range keys.target value))
    (found nodes : List Xml.Location) : P _ (Run.joinOnward l domainNode range keys found nodes) := by
  induction nodes generalizing found with
  | nil => exact hP.pure _
  | cons node rest ih =>
    refine hP.bind (hkey node keys.source) fun value => ?_
    split
    · exact ih found
    · exact hP.bind (h value) fun nodes => ih _

/-- A join only looks up keys and selects the nodes that have them. -/
theorem joinRanges {join : Join}
    (h : ∀ leg ∈ join.legs (Text.trim l.link.range.sourceNode), ∀ value,
      P _ (joinedNodes l domainNode leg.1 leg.2 value)) : P _ (Run.joinRanges l join domainNode) := by
  refine hP.bind (hkey domainNode join.keys.source) fun value => ?_
  split
  · exact hP.pure _
  dsimp only
  split
  next hhop =>
    exact h (Text.trim l.link.range.sourceNode, join.keys.target) (by simp [Join.legs, hhop]) value
  next hop hhop =>
    have hfirst := h (hop.node, join.keys.target) (by simp [Join.legs, hhop])
    have hsecond := h (Text.trim l.link.range.sourceNode, hop.keys.target)
      (by simp [Join.legs, hhop])
    exact hP.bind (hfirst value) fun nodes => hP.joinOnward hkey hsecond [] nodes

end Composes

end Run

end Crosswalk
