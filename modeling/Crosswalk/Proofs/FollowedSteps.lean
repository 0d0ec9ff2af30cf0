import Crosswalk.Proofs.SoundMoments

/-!
# Followed steps

A watched step follows a step if it comes to the same and goes through sound moments only. This is shown of
single steps here, and of steps that are put together if it holds of their parts. What one part leaves behind is
sound again and keeps the contexts, so that the numbers that the next part asks for still have theirs.

A step that is not shown the contexts can only follow one that has no use for them.
-/

namespace Crosswalk

open Crosswalk.Xml (Location)

/-! ## Steps that have no use for the contexts -/

namespace Run

/-- The contexts make no difference to a step, and it makes none to them. -/
def IsBlind {α : Type} (m : Run α) : Prop :=
  ∀ s cs, outcome m { s with contexts := cs } = ((outcome m s).1, { after m s with contexts := cs })

namespace IsBlind

variable {α β : Type} {m : Run α} {f : α → Run β} {s : RunState}

theorem contexts_after (h : m.IsBlind) (s : RunState) : (after m s).contexts = s.contexts :=
  congrArg (fun r => r.2.contexts) (h s s.contexts)

theorem pure (a : α) : IsBlind (Pure.pure a : Run α) :=
  fun _ _ => rfl

theorem throw (e : Fault) : IsBlind (throw e : Run α) :=
  fun _ _ => rfl

theorem drop (cause : DropCause) : IsBlind (drop cause : Run α) :=
  fun _ _ => rfl

theorem ofSetup (r : Except SetupError α) : IsBlind (ofSetup r) := by
  cases r <;> exact fun _ _ => rfl

theorem of_modify {g : RunState → RunState}
    (hg : ∀ s cs, g { s with contexts := cs } = { g s with contexts := cs }) :
    IsBlind (modify g : Run Unit) :=
  fun s cs => congrArg (Prod.mk (Except.ok ())) (hg s cs)

theorem bind (hm : m.IsBlind) (hf : ∀ a, (f a).IsBlind) : (m >>= f).IsBlind := by
  intro s cs
  rw [after, outcome_bind, outcome_bind, hm s cs, after]
  rcases outcome m s with ⟨e | a, t⟩
  · rfl
  · exact hf a t cs

theorem composes : Composes fun _ m => m.IsBlind :=
  ⟨pure, bind⟩

theorem get_bind {f : RunState → Run β} (hf : ∀ s cs, f { s with contexts := cs } = f s)
    (hblind : ∀ s, (f s).IsBlind) : IsBlind (get >>= f) := by
  intro s cs
  rw [after, outcome_bind, outcome_bind, outcome_get, outcome_get]
  dsimp only
  rw [hf]
  exact hblind s s cs

theorem tryCatch {handler : Fault → Run α} (hm : m.IsBlind) (hh : ∀ e, (handler e).IsBlind) :
    IsBlind (MonadExcept.tryCatch m handler) := by
  intro s cs
  rw [after, outcome_tryCatch, outcome_tryCatch, hm s cs, after]
  rcases outcome m s with ⟨e | a, t⟩
  · exact hh e t cs
  · rfl

end IsBlind

end Run

/-! ## What watched steps come to -/

namespace Watched

open Moment (IsSound)
open Run (outcome after IsBlind outcome_bind outcome_tryCatch)

section

variable {α β : Type} {w : Watch} {x : Watched β} {s t u : RunState} {ids : List Nat}

theorem bind_eq (x : Watched β) (f : β → Watched α) (w : Watch) (s : RunState) (moments : List Moment) :
    (x >>= f) w (s, moments) = (x w (s, moments)).bind fun
      | (.ok b, t, moments) => f b w (t, moments)
      | (.error e, t, moments) => some (.error e, t, moments) := by
  change Option.bind (x w (s, moments)) _ = _
  congr 1
  funext ⟨r, t, moments⟩
  cases r <;> rfl

theorem tryCatch_eq (x : Watched β) (handler : Fault → Watched β) (w : Watch) (s : RunState)
    (moments : List Moment) :
    (MonadExcept.tryCatch x handler : Watched β) w (s, moments) = (x w (s, moments)).bind fun
      | (.ok b, t, moments) => some (.ok b, t, moments)
      | (.error e, t, moments) => handler e w (t, moments) := by
  change Option.bind (x w (s, moments)) _ = _
  congr 1
  funext ⟨r, t, moments⟩
  cases r <;> rfl

/-- A watched step comes to a result and a state, and goes through sound moments. -/
def ComesTo (w : Watch) (x : Watched β) (s : RunState) (r : Except Fault β) (t : RunState) : Prop :=
  ∀ moments, ∃ more, x w (s, moments) = some (r, t, moments ++ more) ∧ ∀ m ∈ more, m.IsSound

theorem ComesTo.of_eq {r : Except Fault β} (h : ∀ moments, x w (s, moments) = some (r, t, moments)) :
    ComesTo w x s r t :=
  fun moments => ⟨[], by rw [h, List.append_nil], by simp⟩

/-- A step that takes up where another one ends goes through the moments of both. -/
theorem ComesTo.followed_by {y z : Watched α} {q : Except Fault β} {r : Except Fault α} (hx : ComesTo w x s q t)
    (hy : ComesTo w y t r u)
    (hz : ∀ before after, x w (s, before) = some (q, t, after) → z w (s, before) = y w (t, after)) :
    ComesTo w z s r u := by
  intro moments
  obtain ⟨more, hmore, hall⟩ := hx moments
  obtain ⟨more', hmore', hall'⟩ := hy (moments ++ more)
  refine ⟨more ++ more', ?_, List.forall_mem_append.2 ⟨hall, hall'⟩⟩
  rw [hz _ _ hmore, hmore', List.append_assoc]

/-- A step that ends where another one does goes through the moments of that one. -/
theorem ComesTo.ended_by {z : Watched α} {q : Except Fault β} {r : Except Fault α} (hx : ComesTo w x s q t)
    (hz : ∀ before after, x w (s, before) = some (q, t, after) → z w (s, before) = some (r, t, after)) :
    ComesTo w z s r t := by
  intro moments
  obtain ⟨more, hmore, hall⟩ := hx moments
  exact ⟨more, hz _ _ hmore, hall⟩

theorem ComesTo.bind_ok {f : β → Watched α} {b : β} {r : Except Fault α} (hx : ComesTo w x s (.ok b) t)
    (hf : ComesTo w (f b) t r u) : ComesTo w (x >>= f) s r u :=
  hx.followed_by hf fun _ _ h => by rw [bind_eq, h]; rfl

theorem ComesTo.bind_error {f : β → Watched α} {e : Fault} (hx : ComesTo w x s (.error e) t) :
    ComesTo w (x >>= f) s (.error e) t :=
  hx.ended_by fun _ _ h => by rw [bind_eq, h]; rfl

theorem ComesTo.tryCatch_ok {handler : Fault → Watched β} {b : β} (hx : ComesTo w x s (.ok b) t) :
    ComesTo w (MonadExcept.tryCatch x handler) s (.ok b) t :=
  hx.ended_by fun _ _ h => by rw [tryCatch_eq, h]; rfl

theorem ComesTo.tryCatch_error {handler : Fault → Watched β} {e : Fault} {r : Except Fault β}
    (hx : ComesTo w x s (.error e) t) (hh : ComesTo w (handler e) t r u) :
    ComesTo w (MonadExcept.tryCatch x handler) s r u :=
  hx.followed_by hh fun _ _ h => by rw [tryCatch_eq, h]; rfl

theorem ComesTo.holding {r : Except Fault β} (hbegun : IsSound ⟨{ w with held := ids ++ w.held }, s.contexts⟩)
    (hx : ComesTo { w with held := ids ++ w.held } x s r t) : ComesTo w (holding ids x) s r t := by
  intro moments
  obtain ⟨more, hmore, hall⟩ := hx (moments ++ [⟨{ w with held := ids ++ w.held }, s.contexts⟩])
  refine ⟨⟨{ w with held := ids ++ w.held }, s.contexts⟩ :: more, ?_, List.forall_mem_cons.2 ⟨hbegun, hall⟩⟩
  rw [List.append_cons]
  exact hmore

/-- Where there were no contexts there are none again. -/
theorem ComesTo.releasing {r : Except Fault β} (hheld : w.held = []) (hs : s.contexts = .empty)
    (hx : ComesTo w x s r t) : ComesTo w (releasing x) s r { t with contexts := .empty } := by
  have hreleased : t.contexts.truncate s.contexts.size = .empty := by
    rw [hs]
    exact Contexts.truncate_zero t.contexts
  have hsound : IsSound ⟨w, .empty⟩ := Moment.isSound_empty hheld
  intro moments
  obtain ⟨more, hmore, hall⟩ := hx moments
  refine ⟨more ++ [⟨w, .empty⟩], ?_, List.forall_mem_append.2 ⟨hall, List.forall_mem_singleton.2 hsound⟩⟩
  rw [Watched.releasing, hmore, ← List.append_assoc, ← hreleased]
  rfl

theorem ComesTo.aside {m : Run β} (hm : m.IsBlind) : ComesTo w (aside m) s (outcome m s).1 (after m s) := by
  refine .of_eq fun moments => ?_
  have hhidden : m.run { s with contexts := .empty } =
    ((outcome m s).1, { after m s with contexts := .empty }) := hm s .empty
  rw [Watched.aside, hhidden, ← hm.contexts_after s]

end

/-! ## Steps that follow steps -/

/-- A watched step comes to what a step comes to, through sound moments and with the contexts kept. -/
structure Follows {α : Type} (w : Watch) (x : Watched α) (m : Run α) (s : RunState) : Prop where
  comesTo : ComesTo w x s (outcome m s).1 (after m s)
  sound : IsSound ⟨w, (after m s).contexts⟩
  keeps : s.contexts.Keeps (after m s).contexts

variable {α β : Type} {w : Watch} {x : Watched α} {m : Run α} {f : α → Run β} {f' : α → Watched β}
  {s t : RunState} {id : Nat} {ids : List Nat}

theorem Follows.of_comesTo {r : Except Fault α} (hm : outcome m s = (r, t)) (h : ComesTo w x s r t)
    (hsound : IsSound ⟨w, t.contexts⟩) (hkeeps : s.contexts.Keeps t.contexts) : Follows w x m s := by
  have hafter : after m s = t := Run.after_eq hm
  exact ⟨by rwa [hm, hafter], by rwa [hafter], by rwa [hafter]⟩

theorem Follows.ends {r : Except Fault α} (h : Follows w x m s) (hm : outcome m s = (r, t)) :
    ComesTo w x s r t ∧ IsSound ⟨w, t.contexts⟩ ∧ s.contexts.Keeps t.contexts := by
  obtain ⟨hcomes, hsound, hkeeps⟩ := h
  rw [Run.after_eq hm] at hcomes hsound hkeeps
  rw [hm] at hcomes
  exact ⟨hcomes, hsound, hkeeps⟩

/-- A step that notes nothing and changes no seat. -/
theorem Follows.of_eq {r : Except Fault α} (hx : ∀ moments, x w (s, moments) = some (r, t, moments))
    (hm : outcome m s = (r, t)) (hs : IsSound ⟨w, s.contexts⟩) (ht : t.contexts = s.contexts) : Follows w x m s :=
  .of_comesTo hm (.of_eq hx) (ht ▸ hs) (ht ▸ .refl _)

theorem Follows.pure (a : α) (hs : IsSound ⟨w, s.contexts⟩) :
    Follows w (Pure.pure a : Watched α) (Pure.pure a : Run α) s :=
  .of_eq (fun _ => rfl) rfl hs rfl

theorem Follows.throw (e : Fault) (hs : IsSound ⟨w, s.contexts⟩) :
    Follows w (throw e : Watched α) (throw e : Run α) s :=
  .of_eq (fun _ => rfl) rfl hs rfl

theorem Follows.aside (hm : m.IsBlind) (hs : IsSound ⟨w, s.contexts⟩) : Follows w (aside m) m s :=
  have hcontexts := hm.contexts_after s
  .of_comesTo rfl (.aside hm) (hcontexts ▸ hs) (hcontexts ▸ .refl _)

theorem Follows.bind (hx : Follows w x m s)
    (hf : ∀ a t, outcome m s = (.ok a, t) → s.contexts.Keeps t.contexts → IsSound ⟨w, t.contexts⟩ →
      Follows w (f' a) (f a) t) : Follows w (x >>= f') (m >>= f) s := by
  rcases hout : outcome m s with ⟨e | a, t⟩
  all_goals obtain ⟨hcomes, hsound, hkeeps⟩ := hx.ends hout
  · exact .of_comesTo (by rw [outcome_bind, hout]) hcomes.bind_error hsound hkeeps
  · obtain ⟨hcomes', hsound', hkeeps'⟩ := hf a t hout hkeeps hsound
    exact .of_comesTo (by rw [outcome_bind, hout]; rfl) (hcomes.bind_ok hcomes') hsound' (hkeeps.trans hkeeps')

/-- After a step that leaves the state as it is, the next one follows from the same state. -/
theorem Follows.bind_ok {a : α} (hx : Follows w x m s) (hm : outcome m s = (.ok a, s))
    (hf : Follows w (f' a) (f a) s) : Follows w (x >>= f') (m >>= f) s := by
  refine hx.bind fun b t hout _ _ => ?_
  cases hm.symm.trans hout
  exact hf

theorem Follows.tryCatch {handler' : Fault → Watched α} {handler : Fault → Run α} (hx : Follows w x m s)
    (hh : ∀ e t, s.contexts.Keeps t.contexts → IsSound ⟨w, t.contexts⟩ →
      Follows w (handler' e) (handler e) t) :
    Follows w (MonadExcept.tryCatch x handler') (MonadExcept.tryCatch m handler) s := by
  rcases hout : outcome m s with ⟨e | a, t⟩
  all_goals obtain ⟨hcomes, hsound, hkeeps⟩ := hx.ends hout
  · obtain ⟨hcomes', hsound', hkeeps'⟩ := hh e t hkeeps hsound
    exact .of_comesTo (by rw [outcome_tryCatch, hout]; rfl) (hcomes.tryCatch_error hcomes') hsound'
      (hkeeps.trans hkeeps')
  · exact .of_comesTo (by rw [outcome_tryCatch, hout]) hcomes.tryCatch_ok hsound hkeeps

/-- The state may be looked at. -/
theorem Follows.look_bind {look : Watched β} {b : β} {f' : β → Watched α} {f : RunState → Run α}
    (hlook : ∀ moments, look w (s, moments) = some (.ok b, s, moments)) (h : Follows w (f' b) (f s) s) :
    Follows w (look >>= f') (get >>= f) s := by
  obtain ⟨hcomes, hsound, hkeeps⟩ := h
  exact ⟨ComesTo.bind_ok (.of_eq hlook) hcomes, hsound, hkeeps⟩

/-- What is not shown the contexts sees the rest of the state as it is. -/
theorem Follows.read_bind {g : RunState → β} {f' : β → Watched α} {f : RunState → Run α}
    (hg : ∀ s cs, g { s with contexts := cs } = g s) (h : Follows w (f' (g s)) (f s) s) :
    Follows w (read g >>= f') (get >>= f) s :=
  .look_bind (fun _ => by rw [read, hg]) h

/-! ### Contexts -/

theorem context_eq (hid : id < s.contexts.size) (moments : List Moment) :
    context id w (s, moments) = some (.ok (s.contexts.get id), s, moments) := by
  rw [context, Contexts.get?_eq_some hid]
  rfl

theorem Follows.context (hid : id < s.contexts.size) (hs : IsSound ⟨w, s.contexts⟩) :
    Follows w (context id) (Run.context id) s :=
  .of_eq (context_eq hid) (Run.outcome_context id s) hs rfl

/-- A context that is there may be asked for and not be used. -/
theorem Follows.context_bind (hid : id < s.contexts.size) (h : Follows w x m s) :
    Follows w (do let _ ← Watched.context id; x) m s := by
  obtain ⟨hcomes, hsound, hkeeps⟩ := h
  exact ⟨ComesTo.bind_ok (.of_eq (context_eq hid)) hcomes, hsound, hkeeps⟩

/-- A change of the contexts that keeps them. -/
theorem Follows.of_change {g : Contexts → Contexts} {a : α}
    (hx : ∀ moments, x w (s, moments) =
      some (.ok a, { s with contexts := g s.contexts }, moments ++ [⟨w, g s.contexts⟩]))
    (hm : outcome m s = (.ok a, { s with contexts := g s.contexts }))
    (hsound : IsSound ⟨w, g s.contexts⟩) (hkeeps : s.contexts.Keeps (g s.contexts)) : Follows w x m s :=
  .of_comesTo hm (fun moments => ⟨_, hx moments, List.forall_mem_singleton.2 hsound⟩) hsound hkeeps

theorem Follows.enter_bind {c : Context} {f' : Nat → Watched α} {f : Nat → Run α}
    (hpush : IsSound ⟨w, s.contexts.push c⟩)
    (h : ∀ id t, id < t.contexts.size → s.contexts.Keeps t.contexts → IsSound ⟨w, t.contexts⟩ →
      Follows w (f' id) (f id) t) : Follows w (enter c >>= f') (Run.enter c >>= f) s := by
  have henter : Follows w (enter c) (Run.enter c) s :=
    .of_change (g := (·.push c)) (fun _ => rfl) rfl hpush (Contexts.keeps_push s.contexts c)
  refine henter.bind fun id t hout hkeeps ht => h id t ?_ hkeeps ht
  cases hout
  simp

/-- Where there are no contexts it makes no difference to clear them. -/
theorem Follows.cleared_bind {f : Unit → Run α} (hs : s.contexts = .empty) (h : Follows w x (f ()) s) :
    Follows w x ((modify fun s => { s with contexts := .empty }) >>= f) s := by
  have hcleared : { s with contexts := .empty } = s := by rw [← hs]
  have hm : outcome ((modify fun s => { s with contexts := .empty }) >>= f) s = outcome (f ()) s := by
    rw [outcome_bind, Run.outcome_modify]
    dsimp only
    rw [hcleared]
  exact .of_comesTo hm h.comesTo h.sound h.keeps

theorem updateContext_eq {g : Context → Context} (hid : id < s.contexts.size) (moments : List Moment) :
    updateContext id g w (s, moments) =
      some (.ok (), { s with contexts := s.contexts.update id g }, moments ++ [⟨w, s.contexts.update id g⟩]) := by
  rw [updateContext, bind_eq, context_eq hid]
  rfl

theorem owner_eq (hid : id < s.contexts.size) (hs : IsSound ⟨w, s.contexts⟩) (moments : List Moment) :
    owner id w (s, moments) = some (.ok 0, s, moments) := by
  rw [owner, hs.climb?_eq hid hid]
  rfl

/-- Only what is not part of a seat is ever changed. -/
theorem Follows.updateContext {g : Context → Context} (hg : ∀ c, (g c).seat = c.seat)
    (hid : id < s.contexts.size) (hs : IsSound ⟨w, s.contexts⟩) :
    Follows w (updateContext id g) (Run.updateContext id g) s :=
  have hkeeps := Contexts.keeps_update hg s.contexts id
  .of_change (g := (·.update id g)) (updateContext_eq hid) rfl
    (hs.congr (Contexts.size_update s.contexts id g) hkeeps) hkeeps

theorem Follows.resolvedValue? (hid : id < s.contexts.size) (hs : IsSound ⟨w, s.contexts⟩) :
    Follows w (resolvedValue? id) (Run.resolvedValue? id) s :=
  .bind (.context hid hs) fun _ _ _ _ ht => .pure _ ht

/-- The variables that are seen in a context are those of the first one. -/
theorem lookup?_eq (hid : id < s.contexts.size) (hs : IsSound ⟨w, s.contexts⟩) (name : String)
    (moments : List Moment) :
    lookup? id name w (s, moments) = some (.ok (s.contexts.lookup? id name), s, moments) := by
  rw [lookup?, bind_eq, owner_eq hid hs, Contexts.lookup?, hs.owner_eq hid, Option.bind_some]
  dsimp only
  rw [bind_eq, context_eq (Nat.zero_lt_of_lt hid)]
  rfl

theorem Follows.bindVariable (name : String) (value : Value) (hid : id < s.contexts.size)
    (hs : IsSound ⟨w, s.contexts⟩) :
    Follows w (bindVariable id name value)
      (modify fun s => { s with contexts := s.contexts.bind id name value }) s := by
  have hkeeps : s.contexts.Keeps (s.contexts.bind id name value) :=
    Contexts.keeps_update (fun _ => by rfl) _ _
  refine .of_change (g := (·.bind id name value)) (a := ()) (fun moments => ?_) rfl
    (hs.congr (Contexts.size_update ..) hkeeps) hkeeps
  rw [Watched.bindVariable, bind_eq, owner_eq hid hs, Contexts.bind, hs.owner_eq hid]
  exact updateContext_eq (Nat.zero_lt_of_lt hid) moments

/-! ### Pending steps -/

/-- A step may hold on to contexts that are there. -/
theorem Follows.holding (hids : ∀ id ∈ ids, id < s.contexts.size) (hs : IsSound ⟨w, s.contexts⟩)
    (h : ∀ v, IsSound ⟨v, s.contexts⟩ → Follows v x m s) : Follows w (holding ids x) m s := by
  have hbegun := hs.hold hids
  obtain ⟨hcomes, hsound, hkeeps⟩ := h _ hbegun
  exact ⟨hcomes.holding hbegun, hsound.of_hold, hkeeps⟩

theorem Follows.isolate {scene : Scene} {place : Place} {node : Location} {x : Watched Unit} {m : Run Unit}
    (h : Follows w x m s) : Follows w (isolate scene place node x) (Run.isolate scene place node m) s := by
  refine .tryCatch h fun e t _ ht => ?_
  cases e with
  | drop cause => exact .aside (.of_modify fun _ _ => rfl) ht
  | abort e => exact .throw _ ht

end Watched

end Crosswalk
