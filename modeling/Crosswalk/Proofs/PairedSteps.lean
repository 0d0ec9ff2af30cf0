import Crosswalk.Proofs.AbortedRuns
import Crosswalk.Proofs.ClosedStatements
import Crosswalk.Proofs.Variables
import Crosswalk.Proofs.Writing

/-!
# Two runs side by side

Two runs of which each takes the steps of the other can be followed side by side. Their states match as long
as the same was drawn, kept, bound, counted and associated, the same nodes were entered, and the same
statements were placed, in whatever order. The order is all that may differ, and it shows in one place: of a
batch with several terms that are not valid the first one is reported, so it may be another one.

Two steps match if they lead from matching states to matching states, with results in a relation. A step that
aborts ends its run, so nothing is asked of the states that two aborts leave behind. Steps that are put
together match if their parts do; the one step that needs an argument is the writing of a batch.
-/

namespace Crosswalk

open Crosswalk.Rdf (Statement)

/-! ## What matches -/

/-- Two causes that are the same, but for the term that is named of an invalid batch. -/
def DropCause.Matches (c c' : DropCause) : Prop :=
  c = c' ∨ ∃ v v', c = .invalidIri v ∧ c' = .invalidIri v'

structure Diagnostic.Matches (d d' : Diagnostic) : Prop where
  place_eq : d.place = d'.place
  path_eq : d.path = d'.path
  cause : d.cause.Matches d'.cause

/-- Two graphs with the same quads. -/
structure Rdf.Graph.Matches (g g' : Rdf.Graph) : Prop where
  nodup : g.quads.Nodup
  perm : g.quads.Perm g'.quads

/-- Two entities of one value that are described by the same statements. -/
structure Resolved.Matches (r r' : Resolved) : Prop where
  value_eq : r.value = r'.value
  states_iff : ∀ graph? st, r.States graph? st ↔ r'.States graph? st

structure Context.Matches (c c' : Context) : Prop where
  seat_eq : c.seat = c'.seat
  discriminator?_eq : c.discriminator? = c'.discriminator?
  linked_eq : c.linked = c'.linked
  bindings_eq : c.bindings = c'.bindings
  resolved? : Option.Rel Resolved.Matches c.resolved? c'.resolved?

structure Contexts.Matches (cs cs' : Contexts) : Prop where
  size_eq : cs.size = cs'.size
  get : ∀ id, (cs.get id).Matches (cs'.get id)

structure Batch.Matches (b b' : Batch) : Prop where
  mem_iff : ∀ st, st ∈ b.statements ↔ st ∈ b'.statements
  contexts_eq : b.contexts = b'.contexts

structure RunState.Matches (s s' : RunState) : Prop where
  uuids_eq : s.uuids = s'.uuids
  cache_eq : s.cache = s'.cache
  globals_eq : s.globals = s'.globals
  associations_eq : s.associations = s'.associations
  diagnostics : List.Forall₂ Diagnostic.Matches s.diagnostics s'.diagnostics
  counters_eq : s.counters = s'.counters
  graph : s.graph.Matches s'.graph
  joins_eq : s.joins = s'.joins
  contexts : s.contexts.Matches s'.contexts

theorem DropCause.Matches.refl (c : DropCause) : c.Matches c :=
  .inl rfl

theorem DropCause.Matches.leavesOutLabel_eq {c c' : DropCause} (h : c.Matches c') :
    c.leavesOutLabel = c'.leavesOutLabel := by
  rcases h with rfl | ⟨v, v', rfl, rfl⟩
  · rfl
  · rfl

theorem RunState.matches_initial (uuids : UuidSource) :
    (RunState.initial uuids).Matches (RunState.initial uuids) where
  uuids_eq := rfl
  cache_eq := rfl
  globals_eq := rfl
  associations_eq := rfl
  diagnostics := .nil
  counters_eq := rfl
  graph := ⟨.nil, .refl _⟩
  joins_eq := rfl
  contexts := ⟨rfl, fun _ => ⟨rfl, rfl, rfl, rfl, .none⟩⟩

/-! ## Entities -/

/-- The same relationships one after the other, and what hangs off by them in a relation. -/
abbrev AttachedAlike {ε : Type} (R : ε → ε → Prop) (as as' : List (Attached ε)) : Prop :=
  List.Forall₂ (fun a a' => a.relationship = a'.relationship ∧ R a.entity a'.entity) as as'

/-- Two resources of which the parts match are described alike. -/
theorem Resolved.Matches.of_parts {value : Value} {types types' : List String} {labels : List (String × Value)}
    {attached attached' : List (Attached Resolved)} (htypes : types.Perm types')
    (hattached : AttachedAlike Resolved.Matches attached attached') :
    Resolved.Matches ⟨value, types, labels, attached⟩ ⟨value, types', labels, attached'⟩ := by
  refine ⟨rfl, fun graph? st => ⟨fun h => ?_, fun h => ?_⟩⟩
  · cases h with
    | type hvalue h => exact .type hvalue (htypes.mem_iff.1 h)
    | label hvalue h => exact .label hvalue h
    | leads hvalue h =>
      obtain ⟨a', ha', hrelationship, hentity⟩ := exists_mem_right_of_forall₂ hattached h
      rw [hrelationship, hentity.value_eq]
      exact .leads hvalue ha'
    | further hvalue h states =>
      obtain ⟨a', ha', -, hentity⟩ := exists_mem_right_of_forall₂ hattached h
      exact .further hvalue ha' ((hentity.states_iff graph? st).1 states)
  · cases h with
    | type hvalue h => exact .type hvalue (htypes.mem_iff.2 h)
    | label hvalue h => exact .label hvalue h
    | leads hvalue h =>
      obtain ⟨a, ha, hrelationship, hentity⟩ := exists_mem_left_of_forall₂ hattached h
      rw [← hrelationship, ← hentity.value_eq]
      exact .leads hvalue ha
    | further hvalue h states =>
      obtain ⟨a, ha, -, hentity⟩ := exists_mem_left_of_forall₂ hattached h
      exact .further hvalue ha ((hentity.states_iff graph? st).2 states)

/-! ## Contexts -/

namespace Context.Matches

variable {c c' : Context}

theorem refl_of_none (h : c.resolved? = none) : c.Matches c :=
  ⟨rfl, rfl, rfl, rfl, h ▸ .none⟩

theorem role_eq (h : c.Matches c') : c.role = c'.role :=
  congrArg (·.1) h.seat_eq

theorem node_eq (h : c.Matches c') : c.node = c'.node :=
  congrArg (·.2.2.1) h.seat_eq

theorem position_eq (h : c.Matches c') : c.position = c'.position :=
  congrArg (·.2.2.2) h.seat_eq

theorem value?_eq (h : c.Matches c') : c.resolved?.map (·.value) = c'.resolved?.map (·.value) := by
  have hresolved := h.resolved?
  generalize c.resolved? = r?, c'.resolved? = r'? at hresolved
  cases hresolved with
  | none => rfl
  | some h => exact congrArg some h.value_eq

end Context.Matches

namespace Contexts.Matches

variable {cs cs' : Contexts}

theorem update (h : cs.Matches cs') (id : Nat) {f f' : Context → Context}
    (hf : ∀ c c', c.Matches c' → (f c).Matches (f' c')) : (cs.update id f).Matches (cs'.update id f') := by
  refine ⟨by simp only [Contexts.size_update, h.size_eq], fun other => ?_⟩
  by_cases hother : other = id
  · subst hother
    by_cases hlt : other < cs.size
    · rw [Contexts.get_update_of_lt hlt, Contexts.get_update_of_lt (h.size_eq ▸ hlt)]
      exact hf _ _ (h.get other)
    · have hle : cs.size ≤ other := Nat.le_of_not_lt hlt
      rw [Contexts.get_of_size_le (by rwa [Contexts.size_update]),
        Contexts.get_of_size_le (by rwa [Contexts.size_update, ← h.size_eq])]
      exact .refl_of_none rfl
  · rw [Contexts.get_update_of_ne hother, Contexts.get_update_of_ne hother]
    exact h.get other

theorem push (h : cs.Matches cs') {c c' : Context} (hc : c.Matches c') :
    (cs.push c).Matches (cs'.push c') := by
  refine ⟨by simp only [Contexts.size_push, h.size_eq], fun id => ?_⟩
  by_cases hid : id = cs.size
  · subst hid
    rw [Contexts.get_push_size, h.size_eq, Contexts.get_push_size]
    exact hc
  · rw [Contexts.get_push_of_ne hid, Contexts.get_push_of_ne (h.size_eq ▸ hid)]
    exact h.get id

theorem owner_eq (h : cs.Matches cs') (id : Nat) : cs.owner id = cs'.owner id :=
  Contexts.owner_congr fun other _ => (h.get other).seat_eq

theorem lookup?_eq (h : cs.Matches cs') (id : Nat) (name : String) :
    cs.lookup? id name = cs'.lookup? id name := by
  rw [Contexts.lookup?, Contexts.lookup?, h.owner_eq, (h.get _).bindings_eq]

theorem bind (h : cs.Matches cs') (id : Nat) (name : String) (value : Value) :
    (cs.bind id name value).Matches (cs'.bind id name value) := by
  rw [Contexts.bind, Contexts.bind, h.owner_eq]
  exact h.update _ fun c c' hc => { hc with bindings_eq := congrArg (·.insert name value) hc.bindings_eq }

theorem markLinked (h : cs.Matches cs') (ids : List Nat) :
    (cs.markLinked ids).Matches (cs'.markLinked ids) := by
  induction ids generalizing cs cs' with
  | nil => exact h
  | cons id rest ih => exact ih (h.update id fun c c' hc => { hc with linked_eq := rfl })

end Contexts.Matches

/-! ## Batches and graphs -/

namespace Batch.Matches

variable {b b' : Batch} {cs cs' : Contexts}

theorem append (h : b.Matches b') (statements : List Statement) :
    Batch.Matches { b with statements := b.statements ++ statements }
      { b' with statements := b'.statements ++ statements } :=
  ⟨fun st => by simp only [List.mem_append, h.mem_iff], h.contexts_eq⟩

theorem stage (h : b.Matches b') (hcs : cs.Matches cs') (graph? : Option String) (id : Nat) :
    (b.stage cs graph? id).Matches (b'.stage cs' graph? id) := by
  rw [Batch.stage, Batch.stage, (hcs.get id).linked_eq, h.contexts_eq]
  split
  · exact h
  have hresolved := (hcs.get id).resolved?
  generalize (cs.get id).resolved? = r?, (cs'.get id).resolved? = r'? at hresolved
  cases hresolved with
  | none => exact h
  | some hr =>
    refine ⟨fun st => ?_, rfl⟩
    simp only [List.mem_append, h.mem_iff, Resolved.mem_dependents_iff, hr.states_iff]

theorem stageAll (h : b.Matches b') (hcs : cs.Matches cs') (graph? : Option String) (ids : List Nat) :
    (ids.foldl (Batch.stage cs graph?) b).Matches (ids.foldl (Batch.stage cs' graph?) b') := by
  induction ids generalizing b b' with
  | nil => exact h
  | cons id rest ih => exact ih (h.stage hcs graph? id)

end Batch.Matches

namespace Rdf.Graph

variable {g g' : Graph} {statements statements' : List Statement}

/-- A batch is placed if each of its statements is valid. -/
theorem exists_add_iff : (∃ t, g.add statements = .ok t) ↔ ∀ st ∈ statements, ∃ q, st.quad = .ok q := by
  rw [← exists_mapM_iff, add]
  simp only [bind_eq_ok]
  constructor
  · rintro ⟨t, quads, hquads, -⟩
    exact ⟨quads, hquads⟩
  · rintro ⟨quads, hquads⟩
    exact ⟨_, quads, hquads, rfl⟩

/-- The order of a batch does not matter to whether it is placed, nor to what is there afterwards. -/
theorem Matches.add (hg : g.Matches g') (h : ∀ st, st ∈ statements ↔ st ∈ statements') :
    (∃ t t', g.add statements = .ok t ∧ g'.add statements' = .ok t' ∧ t.Matches t') ∨
      ∃ v v', g.add statements = .error (.invalidTerm v) ∧ g'.add statements' = .error (.invalidTerm v') := by
  have hplaced : (∃ t, g.add statements = .ok t) ↔ ∃ t', g'.add statements' = .ok t' := by
    simp only [exists_add_iff, h]
  rcases ht : g.add statements with e | t <;> rcases ht' : g'.add statements' with e' | t'
  · obtain ⟨v, rfl⟩ := add_errs g statements e ht
    obtain ⟨v', rfl⟩ := add_errs g' statements' e' ht'
    exact .inr ⟨v, v', rfl, rfl⟩
  · obtain ⟨t, habsurd⟩ := hplaced.2 ⟨t', ht'⟩
    rw [ht] at habsurd
    cases habsurd
  · obtain ⟨t', habsurd⟩ := hplaced.1 ⟨t, ht⟩
    rw [ht'] at habsurd
    cases habsurd
  · obtain ⟨quads, -, rfl⟩ := add_ok ht
    obtain ⟨quads', -, rfl⟩ := add_ok ht'
    -- What is there is known by its members only, so the two graphs are the same up to their order.
    have hnodup : (g.insertAll quads).quads.Nodup := nodup_insertAll hg.nodup
    refine .inl ⟨_, _, rfl, rfl, hnodup, ?_⟩
    refine (List.perm_ext_iff_of_nodup hnodup (nodup_insertAll (hg.perm.nodup hg.nodup))).2 fun q => ?_
    simp only [mem_add ht, mem_add ht', h, hg.perm.mem_iff]

end Rdf.Graph

/-! ## Steps -/

namespace Run

/-- Two steps end alike: with results in a relation or dropped, and in matching states, or with the end of both
runs. -/
inductive EndAlike {α : Type} (R : α → α → Prop) :
    Except Fault α × RunState → Except Fault α × RunState → Prop
  | ok {a a' : α} {s s' : RunState} (h : R a a') (hs : s.Matches s') : EndAlike R (.ok a, s) (.ok a', s')
  | drop {c c' : DropCause} {s s' : RunState} (h : c.Matches c') (hs : s.Matches s') :
    EndAlike R (.error (.drop c), s) (.error (.drop c'), s')
  | abort (e e' : RunError) (s s' : RunState) : EndAlike R (.error (.abort e), s) (.error (.abort e'), s')

/-- Two steps that end alike wherever the states that they start in match. -/
def Matches {α : Type} (R : α → α → Prop) (m m' : Run α) : Prop :=
  ∀ s s', s.Matches s' → EndAlike R (outcome m s) (outcome m' s')

section

variable {α β : Type} {R : α → α → Prop} {S : β → β → Prop} {m m' : Run α} {s s' : RunState}

namespace Matches

theorem pure {a a' : α} (h : R a a') : Matches R (Pure.pure a) (Pure.pure a') :=
  fun _ _ hs => .ok h hs

theorem drop (cause : DropCause) : Matches R (Run.drop cause) (Run.drop cause) :=
  fun _ _ hs => .drop (.refl cause) hs

theorem abort (e e' : RunError) : Matches R (throw (.abort e)) (throw (.abort e')) :=
  fun s s' _ => .abort e e' s s'

theorem bind {f f' : α → Run β} (hm : Matches R m m') (hf : ∀ a a', R a a' → Matches S (f a) (f' a')) :
    Matches S (m >>= f) (m' >>= f') := by
  intro s s' hs
  have hends := hm s s' hs
  rw [outcome_bind, outcome_bind]
  generalize outcome m s = r, outcome m' s' = r' at hends
  cases hends with
  | ok h hs => exact hf _ _ h _ _ hs
  | drop h hs => exact .drop h hs
  | abort e e' s s' => exact .abort e e' s s'

theorem bind_eq {f f' : α → Run β} (hm : Matches Eq m m') (hf : ∀ a, Matches S (f a) (f' a)) :
    Matches S (m >>= f) (m' >>= f') :=
  hm.bind fun a _ h => h ▸ hf a

theorem tryCatch {handler handler' : Fault → Run α} (hm : Matches R m m')
    (hdrop : ∀ c c', c.Matches c' → Matches R (handler (.drop c)) (handler' (.drop c')))
    (habort : ∀ e, handler (.abort e) = throw (.abort e))
    (habort' : ∀ e, handler' (.abort e) = throw (.abort e)) :
    Matches R (MonadExcept.tryCatch m handler) (MonadExcept.tryCatch m' handler') := by
  intro s s' hs
  have hends := hm s s' hs
  rw [outcome_tryCatch, outcome_tryCatch]
  generalize outcome m s = r, outcome m' s' = r' at hends
  cases hends with
  | ok h hs => exact .ok h hs
  | drop h hs => exact hdrop _ _ h _ _ hs
  | abort e e' s s' =>
    dsimp only
    rw [habort, habort']
    exact .abort e e' s s'

theorem ite {c c' : Bool} {n n' : Run α} (hc : c = c') (hm : Matches R m m') (hn : Matches R n n') :
    Matches R (if c then m else n) (if c' then m' else n') := by
  subst hc
  split
  · exact hm
  · exact hn

theorem ofSetup {r r' : Except SetupError α} (h : r = r') : Matches Eq (Run.ofSetup r) (Run.ofSetup r') := by
  subst h
  cases r with
  | error e => exact abort (.setup e) (.setup e)
  | ok a => exact pure rfl

theorem discards (scene : Scene) (condition? : Option Condition) (node : Xml.Location) :
    Matches Eq (Run.discards scene condition? node) (Run.discards scene condition? node) := by
  rw [Run.discards]
  cases Condition.guardFails scene.conditionSetting node condition? with
  | error e => exact abort e e
  | ok filtered => exact pure rfl

theorem get : Matches RunState.Matches MonadState.get MonadState.get :=
  fun _ _ hs => .ok hs hs

end Matches

theorem Matches.modify {g g' : RunState → RunState} (h : ∀ s s', s.Matches s' → (g s).Matches (g' s')) :
    Matches Eq (modify g) (modify g') :=
  fun s s' hs => .ok rfl (h s s' hs)

end

/-! ## Contexts, counts and identifiers -/

theorem context_matches (id : Nat) : Matches Context.Matches (context id) (context id) :=
  fun _ _ hs => .ok (hs.contexts.get id) hs

theorem resolvedValue?_matches (id : Nat) : Matches Eq (resolvedValue? id) (resolvedValue? id) :=
  fun _ _ hs => .ok (hs.contexts.get id).value?_eq hs

theorem enter_matches {c c' : Context} (hc : c.Matches c') : Matches Eq (enter c) (enter c') :=
  fun _ _ hs => .ok hs.contexts.size_eq { hs with contexts := hs.contexts.push hc }

theorem updateContext_matches (id : Nat) {f f' : Context → Context}
    (hf : ∀ c c', c.Matches c' → (f c).Matches (f' c')) :
    Matches Eq (updateContext id f) (updateContext id f') :=
  .modify fun _ _ hs => { hs with contexts := hs.contexts.update id hf }

theorem count_matches (f : Counters → Counters) : Matches Eq (count f) (count f) :=
  .modify fun _ _ hs => { hs with counters_eq := congrArg f hs.counters_eq }

/-- What is generated depends on the identifiers that were drawn, and on nothing else of the state. -/
theorem generation_matches {α : Type} (g : Generation α) : Matches Eq (generation g) (generation g) := by
  intro s s' hs
  have hmade (s : RunState) : outcome (generation g) s =
      ((g.run ⟨s.uuids, []⟩).1, { s with uuids := (g.run ⟨s.uuids, []⟩).2.uuids }) := rfl
  rw [hmade, hmade, hs.uuids_eq]
  generalize g.run ⟨s'.uuids, []⟩ = made
  obtain ⟨r, drawn⟩ := made
  have hs : RunState.Matches { s with uuids := drawn.uuids } { s' with uuids := drawn.uuids } :=
    { hs with uuids_eq := rfl }
  rcases r with (e | c) | a
  · exact .abort e e _ _
  · exact .drop (.refl c) hs
  · exact .ok rfl hs

/-! ## Writing -/

section

variable {b b' : Batch} (h : b.Matches b')

include h

theorem stage_matches (id : Nat) (graph? : Option String) :
    Matches Batch.Matches (stage b id graph?) (stage b' id graph?) := by
  intro s s' hs
  rw [outcome_stage, outcome_stage]
  exact .ok (h.stage hs.contexts graph? id) hs

theorem stageAll_matches (graph? : Option String) (ids : List Nat) :
    Matches Batch.Matches (stageAll b graph? ids) (stageAll b' graph? ids) := by
  intro s s' hs
  rw [outcome_stageAll, outcome_stageAll]
  exact .ok (h.stageAll hs.contexts graph? ids) hs

/-- Two batches with the same statements are written to the same effect, or both refused. -/
theorem commit_matches : Matches Eq (commit b) (commit b') := by
  intro s s' hs
  rw [outcome_commit, outcome_commit]
  rcases hs.graph.add h.mem_iff with ⟨t, t', ht, ht', hgraph⟩ | ⟨v, v', hv, hv'⟩
  · rw [ht, ht', h.contexts_eq]
    exact .ok rfl { hs with graph := hgraph, contexts := hs.contexts.markLinked _ }
  · rw [hv, hv']
    exact .drop (.inr ⟨v, v', rfl, rfl⟩) hs

end

theorem link_matches (id : Nat) (graph? : Option String) : Matches Eq (link id graph?) (link id graph?) :=
  (stage_matches ⟨fun _ => Iff.rfl, rfl⟩ id graph?).bind fun _ _ h => commit_matches h

theorem resolvedValues_matches (ids : List Nat) :
    Matches Eq (ids.mapM resolvedValue?) (ids.mapM resolvedValue?) := by
  intro s s' hs
  rw [outcome_resolvedValues, outcome_resolvedValues]
  exact .ok (List.map_congr_left fun id _ => (hs.contexts.get id).value?_eq) hs

end Run

end Crosswalk
