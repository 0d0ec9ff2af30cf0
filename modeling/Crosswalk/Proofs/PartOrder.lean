import Crosswalk.Proofs.WholeRuns

/-!
# Parts before and after one another

A part of a run is entered after parts of two kinds: those around it, whose openings led to it, and
those beside it, which were run before it. `Entered.opener` separates the two. A preorder that every
opening respects relates the start of a run to each state in which a part is entered, and each of these to
the end of the run.
-/

namespace Crosswalk.Run

variable {p q : Part} {parts rest : List Part} {s t u : RunState}

/-- The parts before a part in a list have been run, and it is the next one. -/
inductive Leads : List Part → RunState → Part → RunState → Prop
  | first (p : Part) (rest : List Part) (s : RunState) : Leads (p :: rest) s p s
  | later {p q : Part} {rest : List Part} {s t u : RunState}
      (ended : outcome p.guarded s = (.ok (), t)) (h : Leads rest t q u) : Leads (p :: rest) s q u

theorem Leads.mem (h : Leads parts s q u) : q ∈ parts := by
  induction h with
  | first => exact List.mem_cons_self
  | later _ _ ih => exact List.mem_cons_of_mem _ ih

theorem Leads.entered (h : Leads parts s q u) : Entered parts s q u := by
  induction h with
  | first => exact .here ..
  | later ended _ ih => exact .later ended ih

/-- What the parts of a list keep holds when one of them is entered. -/
theorem Leads.keeps {P : RunState → Prop}
    (hkeeps : ∀ p ∈ parts, ∀ s t, P s → outcome p.guarded s = (.ok (), t) → P t) (hs : P s)
    (h : Leads parts s q u) : P u := by
  induction h with
  | first => exact hs
  | later ended _ ih =>
    exact ih (fun p hp => hkeeps p (List.mem_cons_of_mem _ hp))
      (hkeeps _ List.mem_cons_self _ _ hs ended)

/-- A part that is entered was there at the start or opened by another one, and those beside it and
before it have been run. -/
theorem Entered.opener (h : Entered parts s q u) :
    Leads parts s q u ∨ ∃ p v opened t, Entered parts s p v ∧
      outcome p.opening v = (.ok opened, t) ∧ Leads opened t q u := by
  induction h with
  | here => exact .inl (.first ..)
  | @inside p _ rest _ s t _ opened _ ih =>
    rcases ih with h | ⟨p', v, ps, t', hp', hopened, h⟩
    · exact .inr ⟨p, s, _, t, .here p rest s, opened, h⟩
    · exact .inr ⟨p', v, ps, t', .inside opened hp', hopened, h⟩
  | later ended _ ih =>
    rcases ih with h | ⟨p', v, ps, t', hp', hopened, h⟩
    · exact .inl (.later ended h)
    · exact .inr ⟨p', v, ps, t', .later ended hp', hopened, h⟩

/-- What is entered among the parts that a part has opened is entered with it. -/
theorem Entered.within (h : Entered parts s p u) {opened : List Part}
    (hopened : outcome p.opening u = (.ok opened, t)) {v : RunState} (hq : Entered opened t q v) :
    Entered parts s q v := by
  induction h with
  | here => exact .inside hopened hq
  | inside opened _ ih => exact .inside opened (ih hopened)
  | later ended _ ih => exact .later ended (ih hopened)

/-- A part is entered in a state while another one is run from a state, after the opening of that one. -/
def Part.Inside (p : Part) (s : RunState) (q : Part) (u : RunState) : Prop :=
  ∃ parts t, outcome p.opening s = (.ok parts, t) ∧ Entered parts t q u

/-- What is entered is a part of the list, or is inside of one. -/
theorem Entered.outermost (h : Entered parts s q u) :
    ∃ p v, Leads parts s p v ∧ (q = p ∧ u = v ∨ p.Inside v q u) := by
  induction h with
  | here p rest s => exact ⟨p, s, .first .., .inl ⟨rfl, rfl⟩⟩
  | @inside p _ rest parts s t _ opened h _ => exact ⟨p, s, .first .., .inr ⟨parts, t, opened, h⟩⟩
  | later ended _ ih =>
    obtain ⟨p, v, hleads, hq⟩ := ih
    exact ⟨p, v, .later ended hleads, hq⟩

/-! ## Preorders along a run -/

section

variable {R : RunState → RunState → Prop} [IsPreorder RunState R]

/-- A relation allows for what the parts that are entered do. -/
structure KeptAlong (R : RunState → RunState → Prop) (parts : List Part) (s : RunState) : Prop where
  opening : ∀ q u, Entered parts s q u → R u (after q.opening u)
  recover : ∀ (q : Part) cause, Moves R (q.recover cause)

theorem not_begins (h : KeptAlong R parts s) {v : RunState} : ¬ Begins (fun u => ¬ R v u) parts s := by
  rintro ⟨q, u, hq, hu, ho | ⟨cause, w, -, hw, hr⟩⟩
  · exact ho (IsTrans.trans _ _ _ (not_not.1 hu) (h.opening q u hq))
  · exact hr (IsTrans.trans _ _ _ (not_not.1 hw) (h.recover q cause w))

theorem KeptAlong.rel_entered (h : KeptAlong R parts s) (hq : Entered parts s q u) : R s u := by
  by_contra hu
  exact not_begins h (begins_of_entered (P := fun u => ¬ R s u) hq (not_not.2 (refl s)) hu)

theorem KeptAlong.rel_runAll (h : KeptAlong R parts s) : R s (after (runAll parts) s) := by
  by_contra hu
  exact not_begins h (begins_of_runAll (P := fun u => ¬ R s u) (not_not.2 (refl s)) hu)

omit [IsPreorder RunState R] in
theorem KeptAlong.inside (h : KeptAlong R (p :: rest) s) (opened : outcome p.opening s = (.ok parts, t)) :
    KeptAlong R parts t :=
  ⟨fun q u hq => h.opening q u (.inside opened hq), h.recover⟩

omit [IsPreorder RunState R] in
theorem KeptAlong.later (h : KeptAlong R (p :: rest) s) (ended : outcome p.guarded s = (.ok (), t)) :
    KeptAlong R rest t :=
  ⟨fun q u hq => h.opening q u (.later ended hq), h.recover⟩

/-- What a part leaves behind, once its failure has been reported, is related to what the list that it
is in does. -/
theorem KeptAlong.rel_guarded (h : KeptAlong R (p :: rest) s) :
    R (after p.guarded s) (after (runAll (p :: rest)) s) := by
  rw [runAll_cons, after_bind]
  rcases hg : outcome p.guarded s with ⟨e | ⟨⟩, t⟩
  · rw [after_eq hg]
    exact refl t
  · rw [after_eq hg]
    exact (h.later hg).rel_runAll

/-- The failure of a part is reported after it. -/
theorem rel_recovered (h : ∀ cause, Moves R (p.recover cause)) (s : RunState) :
    R (after p.run s) (after p.guarded s) := by
  rw [Part.guarded, after, after, outcome_tryCatch]
  rcases outcome p.run s with ⟨e | a, t⟩
  · cases e with
    | drop cause => exact h cause t
    | abort e => exact refl t
  · exact refl t

theorem KeptAlong.rel_run (h : KeptAlong R (p :: rest) s) :
    R (after p.run s) (after (runAll (p :: rest)) s) :=
  IsTrans.trans _ _ _ (rel_recovered (h.recover p) s) h.rel_guarded

/-- What is related to the end of a list from its first part is so from every part that is entered. -/
theorem KeptAlong.rel_end_of {f : Part → RunState → RunState}
    (hfirst : ∀ p rest s, KeptAlong R (p :: rest) s → R (f p s) (after (runAll (p :: rest)) s))
    (h : KeptAlong R parts s) (hq : Entered parts s q u) : R (f q u) (after (runAll parts) s) := by
  induction hq with
  | here p rest s => exact hfirst p rest s h
  | @inside p _ rest parts s t _ opened _ ih =>
    refine IsTrans.trans _ _ _ (ih (h.inside opened)) ?_
    have hrun : after p.run s = after (runAll parts) t := by
      rw [Part.run_eq, after_bind, opened]
    rw [← hrun]
    exact h.rel_run
  | @later p _ rest s t _ ended _ ih =>
    refine IsTrans.trans _ _ _ (ih (h.later ended)) ?_
    rw [runAll_cons, after_bind, ended]
    exact refl _

/-- From a part that is entered to the end. -/
theorem KeptAlong.rel_end (h : KeptAlong R parts s) (hq : Entered parts s q u) :
    R u (after (runAll parts) s) :=
  h.rel_end_of (fun _ _ _ h => h.rel_runAll) hq

theorem KeptAlong.rel_guarded_end (h : KeptAlong R parts s) (hq : Entered parts s q u) :
    R (after q.guarded u) (after (runAll parts) s) :=
  h.rel_end_of (fun _ _ _ h => h.rel_guarded) hq

end

end Crosswalk.Run
