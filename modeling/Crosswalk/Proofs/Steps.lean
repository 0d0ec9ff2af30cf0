import Crosswalk.Proofs.Results
import Crosswalk.Run.Execute
import Mathlib.Logic.Relation

/-!
# How steps end

A step of a run starts in a state and ends in one, with a result or with a fault. What the state is
afterwards does not depend on which of the two it was: a fault takes nothing back. The lemmas here say
how the steps that are put together end in terms of their parts, and once a step has been taken apart
with them no proof looks at how a run is represented.
-/

namespace Crosswalk

namespace Run

variable {α β : Type} {m : Run α} {f : α → Run β} {s t u : RunState} {e : Fault}

/-- How a step ends: with a result or a fault, and in which state. -/
def outcome (m : Run α) (s : RunState) : Except Fault α × RunState :=
  m.run s

/-- The state that a step leaves behind. -/
def after (m : Run α) (s : RunState) : RunState :=
  (outcome m s).2

theorem after_eq {r : Except Fault α} (h : outcome m s = (r, t)) : after m s = t := by
  rw [after, h]

/-- Steps that end alike from everywhere are the same. -/
theorem ext_outcome {m' : Run α} (h : ∀ s, outcome m s = outcome m' s) : m = m' :=
  funext h

/-! ## Plain steps -/

@[simp] theorem outcome_get (s : RunState) : outcome get s = (.ok s, s) := rfl

@[simp] theorem outcome_modify (g : RunState → RunState) (s : RunState) :
    outcome (modify g) s = (.ok (), g s) := rfl

@[simp] theorem outcome_context (id : Nat) (s : RunState) :
    outcome (context id) s = (.ok (s.contexts.get id), s) := rfl

@[simp] theorem outcome_resolvedValue? (id : Nat) (s : RunState) :
    outcome (resolvedValue? id) s = (.ok ((s.contexts.get id).resolved?.map (·.value)), s) := rfl

@[simp] theorem outcome_updateContext (id : Nat) (g : Context → Context) (s : RunState) :
    outcome (updateContext id g) s = (.ok (), { s with contexts := s.contexts.update id g }) := rfl

theorem outcome_ofSetup (r : Except SetupError α) (s : RunState) :
    outcome (ofSetup r) s = (r.mapError Fault.setup, s) := by
  cases r <;> rfl

theorem ofSetup_ok {r : Except SetupError α} {a : α} :
    outcome (ofSetup r) s = (.ok a, t) ↔ r = .ok a ∧ s = t := by
  rw [outcome_ofSetup, Prod.mk.injEq]
  cases r <;> simp [Except.mapError]

@[simp] theorem after_ofSetup (r : Except SetupError α) (s : RunState) :
    after (ofSetup r) s = s := by
  cases r <;> rfl

@[simp] theorem after_discards (scene : Scene) (condition? : Option Condition)
    (node : Xml.Location) (s : RunState) : after (discards scene condition? node) s = s := by
  rw [discards]
  cases Condition.guardFails scene.conditionSetting node condition? <;> rfl

/-! ## One step after another -/

theorem outcome_bind (m : Run α) (f : α → Run β) (s : RunState) :
    outcome (m >>= f) s =
      match outcome m s with
      | (.ok a, t) => outcome (f a) t
      | (.error e, t) => (.error e, t) := by
  have hbind : outcome (m >>= f) s = ExceptT.bindCont f (outcome m s).1 (outcome m s).2 := rfl
  rw [hbind]
  rcases outcome m s with ⟨_ | _, _⟩ <;> rfl

theorem bind_ok {b : β} :
    outcome (m >>= f) s = (.ok b, t) ↔
      ∃ a u, outcome m s = (.ok a, u) ∧ outcome (f a) u = (.ok b, t) := by
  rw [outcome_bind]
  rcases outcome m s with ⟨_ | a, v⟩
  · simp
  · constructor
    · intro h
      exact ⟨a, v, rfl, h⟩
    · rintro ⟨_, _, ⟨⟩, h⟩
      exact h

theorem bind_error :
    outcome (m >>= f) s = (.error e, t) ↔
      outcome m s = (.error e, t) ∨
        ∃ a u, outcome m s = (.ok a, u) ∧ outcome (f a) u = (.error e, t) := by
  rw [outcome_bind]
  rcases outcome m s with ⟨_ | a, v⟩
  · simp
  · constructor
    · intro h
      exact .inr ⟨a, v, rfl, h⟩
    · rintro (h | ⟨_, _, ⟨⟩, h⟩)
      · cases h
      · exact h

theorem after_bind (m : Run α) (f : α → Run β) (s : RunState) :
    after (m >>= f) s =
      match outcome m s with
      | (.ok a, t) => after (f a) t
      | (.error _, t) => t := by
  rw [after, outcome_bind]
  rcases outcome m s with ⟨_ | _, _⟩ <;> rfl

theorem after_bind_of_ok {a : α} (h : outcome m s = (.ok a, t)) :
    after (m >>= f) s = after (f a) t := by
  rw [after_bind, h]

/-- What only looks at the state may follow. -/
theorem after_bind_of_after (h : ∀ a t, after (f a) t = t) (s : RunState) :
    after (m >>= f) s = after m s := by
  rw [after_bind, after]
  rcases outcome m s with ⟨e | a, t⟩
  · rfl
  · exact h a t

theorem outcome_tryCatch (m : Run α) (handler : Fault → Run α) (s : RunState) :
    outcome (tryCatch m handler) s =
      match outcome m s with
      | (.ok a, t) => (.ok a, t)
      | (.error e, t) => outcome (handler e) t := by
  rcases h : outcome m s with ⟨r, t⟩
  have hrun : StateT.run (ExceptT.run m) s = (r, t) := h
  rw [outcome, ExceptT.run_tryCatch]
  change StateT.run (ExceptT.run m >>= _) s = _
  rw [StateT.run_bind, hrun]
  cases r <;> rfl

/-! ## What a step may change -/

/-- A step changes the state in a certain way only, wherever it starts and however it ends. -/
def Moves (R : RunState → RunState → Prop) (m : Run α) : Prop :=
  ∀ s, R s (after m s)

/-- A step from a state moves by `R`, and a result of it is as `Q` says. -/
def Meets (R : RunState → RunState → Prop) (Q : α → RunState → Prop) (m : Run α)
    (s : RunState) : Prop :=
  R s (after m s) ∧ ∀ a t, outcome m s = (.ok a, t) → Q a t

section

variable {R : RunState → RunState → Prop} {P : α → RunState → Prop} {Q : β → RunState → Prop}

theorem Moves.outcome {r : Except Fault α} (h : Moves R m) (hm : outcome m s = (r, t)) : R s t :=
  after_eq hm ▸ h s

theorem Moves.get_bind {f : RunState → Run β} (h : ∀ s, R s (after (f s) s)) :
    Moves R (get >>= f) :=
  fun s => by rw [after_bind]; exact h s

theorem Moves.context_bind {id : Nat} {f : Context → Run β}
    (h : ∀ s, R s (after (f (s.contexts.get id)) s)) : Moves R (context id >>= f) :=
  fun s => by rw [after_bind]; exact h s

theorem Moves.modify {g : RunState → RunState} (h : ∀ s, R s (g s)) : Moves R (modify g) :=
  h

theorem Moves.meets (h : Moves R m) (s : RunState) :
    Meets R (fun a t => Run.outcome m s = (.ok a, t)) m s :=
  ⟨h s, fun _ _ h => h⟩

theorem Meets.mono {Q' : α → RunState → Prop} (h : Meets R P m s)
    (hQ : ∀ a t, R s t → P a t → Q' a t) : Meets R Q' m s :=
  ⟨h.1, fun a t ha => hQ a t (after_eq ha ▸ h.1) (h.2 a t ha)⟩

variable [IsPreorder RunState R]

theorem Moves.of_after_eq (h : ∀ s, after m s = s) : Moves R m :=
  fun s => (h s).symm ▸ refl s

theorem Moves.pure (a : α) : Moves R (Pure.pure a : Run α) :=
  .of_after_eq fun _ => rfl

theorem Moves.get : Moves R (get : Run RunState) :=
  .of_after_eq fun _ => rfl

theorem Moves.throw (e : Fault) : Moves R (throw e : Run α) :=
  .of_after_eq fun _ => rfl

theorem Moves.drop (cause : DropCause) : Moves R (drop cause : Run α) :=
  .of_after_eq fun _ => rfl

theorem Moves.ofSetup (r : Except SetupError α) : Moves R (ofSetup r) :=
  .of_after_eq (after_ofSetup r)

theorem Moves.discards (scene : Scene) (condition? : Option Condition) (node : Xml.Location) :
    Moves R (discards scene condition? node) :=
  .of_after_eq (after_discards scene condition? node)

/-- The second of two steps only has to be looked at where the first one leads. -/
theorem rel_bind (hm : R s (after m s))
    (hf : ∀ a t, outcome m s = (.ok a, t) → R t (after (f a) t)) : R s (after (m >>= f) s) := by
  rw [after_bind]
  rcases h : outcome m s with ⟨_ | a, t⟩
  · exact after_eq h ▸ hm
  · exact IsTrans.trans _ _ _ (after_eq h ▸ hm) (hf a t h)

/-- What is done after a step, if anything. -/
theorem rel_rest (hf : ∀ a, Moves R (f a)) (s : RunState) : R (after m s) (after (m >>= f) s) := by
  rw [after_bind]
  rcases h : outcome m s with ⟨_ | a, t⟩
  · exact after_eq h ▸ refl _
  · exact after_eq h ▸ hf a t

theorem Moves.bind (hm : Moves R m) (hf : ∀ a, Moves R (f a)) : Moves R (m >>= f) :=
  fun s => rel_bind (hm s) fun a t _ => hf a t

theorem Moves.tryCatch {handler : Fault → Run α} (hm : Moves R m) (hh : ∀ e, Moves R (handler e)) :
    Moves R (tryCatch m handler) := by
  intro s
  rw [after, outcome_tryCatch]
  rcases h : Run.outcome m s with ⟨e | a, t⟩
  · exact IsTrans.trans _ _ _ (hm.outcome h) (hh e t)
  · exact hm.outcome h

/-- A context is entered, and what follows depends on a condition. -/
theorem rel_entered {c : Context} {scene : Scene} {condition? : Option Condition} {node : Xml.Location}
    {skipped : Run α} {rest : Nat → Run α} (hentered : R s { s with contexts := s.contexts.push c })
    (hskipped : Moves R skipped)
    (hrest : R { s with contexts := s.contexts.push c }
      (after (rest s.contexts.size) { s with contexts := s.contexts.push c })) :
    R s (after (do
      let id ← enter c
      if ← discards scene condition? node then skipped else rest id) s) := by
  refine rel_bind hentered fun id t ht => ?_
  cases ht
  refine rel_bind (Moves.discards scene condition? node _) fun discarded t ht => ?_
  rw [← after_eq ht, after_discards]
  split
  · exact hskipped _
  · exact hrest

theorem Meets.pure {b : β} (h : Q b s) : Meets R Q (Pure.pure b : Run β) s :=
  ⟨refl s, by rintro _ _ ⟨⟩; exact h⟩

/-- A step that only looks at the state. -/
theorem Meets.of_ok {a : α} (h : Run.outcome m s = (.ok a, s)) :
    Meets R (fun b t => b = a ∧ t = s) m s := by
  refine ⟨?_, fun b t hb => ?_⟩
  · rw [after_eq h]
    exact refl s
  · cases h.symm.trans hb
    exact ⟨rfl, rfl⟩

theorem Meets.ofSetup (r : Except SetupError α) (s : RunState) :
    Meets R (fun a t => r = .ok a ∧ t = s) (ofSetup r) s :=
  ((Moves.ofSetup r).meets s).mono fun _ _ _ h => ⟨(ofSetup_ok.1 h).1, (ofSetup_ok.1 h).2.symm⟩

theorem Meets.discards (scene : Scene) (condition? : Option Condition) (node : Xml.Location)
    (s : RunState) : Meets R (fun _ t => t = s) (discards scene condition? node) s :=
  ((Moves.discards scene condition? node).meets s).mono fun _ _ _ h => by
    rw [← after_eq h, after_discards]

theorem Meets.fault {m : Run β} (h : Run.outcome m s = (.error e, s)) : Meets R Q m s := by
  refine ⟨?_, fun a t ha => ?_⟩
  · rw [after_eq h]
    exact refl s
  · rw [h] at ha
    cases ha

theorem Meets.bind (hm : Meets R P m s)
    (hf : ∀ a t, R s t → P a t → Meets R Q (f a) t) : Meets R Q (m >>= f) s := by
  refine ⟨rel_bind hm.1 fun a t ha => ?_, fun b u hb => ?_⟩
  · exact (hf a t (after_eq ha ▸ hm.1) (hm.2 a t ha)).1
  · obtain ⟨a, t, ha, hb⟩ := bind_ok.1 hb
    exact (hf a t (after_eq ha ▸ hm.1) (hm.2 a t ha)).2 b u hb

theorem Meets.tryCatch {handler : Fault → Run α} (hm : Meets R P m s)
    (hh : ∀ e t, R s t → Meets R P (handler e) t) : Meets R P (tryCatch m handler) s := by
  rw [Meets, after, outcome_tryCatch]
  rcases h : Run.outcome m s with ⟨e | a, t⟩
  · have hst : R s t := after_eq h ▸ hm.1
    exact ⟨IsTrans.trans _ _ _ hst (hh e t hst).1, (hh e t hst).2⟩
  · refine ⟨after_eq h ▸ hm.1, ?_⟩
    rintro a t ⟨⟩
    exact hm.2 a _ h

end

/-! ## What steps have when their parts do -/

/-- A property of steps that only has to be looked at where a step is not put together from others. -/
structure Composes (P : ∀ α : Type, Run α → Prop) : Prop where
  pure : ∀ {α : Type} (a : α), P α (Pure.pure a)
  bind : ∀ {α β : Type} {m : Run α} {f : α → Run β}, P α m → (∀ a, P β (f a)) → P β (m >>= f)

theorem Moves.composes {R : RunState → RunState → Prop} [IsPreorder RunState R] :
    Composes fun _ m => Moves R m :=
  ⟨.pure, .bind⟩

end Run

end Crosswalk
