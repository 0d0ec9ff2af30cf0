import Crosswalk.Proofs.Parts

/-!
# From parts to whole runs

A property of whole runs only needs a proof about the five openings. `Outline` collects what has to
be shown of them: what holds of a part when it is entered, and what it may change. `Outline.runAll_change`
and `Outline.entered` carry this to every part of every run. Two observations help where a
property is about what went wrong or about where something came from: a part that is dropped fails in its own
opening, and whatever comes to hold in a run begins to hold at one of its parts.
-/

namespace Crosswalk.Run

/-! ## From openings to runs -/

/-- A part is entered in a state while some parts are run from another one. -/
inductive Entered : List Part → RunState → Part → RunState → Prop
  | here (p : Part) (rest : List Part) (s : RunState) : Entered (p :: rest) s p s
  | inside {p q : Part} {rest parts : List Part} {s t u : RunState}
      (opened : outcome p.opening s = (.ok parts, t)) (h : Entered parts t q u) :
    Entered (p :: rest) s q u
  | later {p q : Part} {rest : List Part} {s t u : RunState}
      (ended : outcome p.guarded s = (.ok (), t)) (h : Entered rest t q u) :
    Entered (p :: rest) s q u

/-- The parts that are entered, each with its state, as far as `n` steps inside or onwards. -/
def visits : Nat → List Part → RunState → List (Part × RunState)
  | 0, _, _ => []
  | _ + 1, [], _ => []
  | n + 1, p :: rest, s =>
    let inside :=
      match outcome p.opening s with
      | (.ok parts, t) => visits n parts t
      | _ => []
    let later :=
      match outcome p.guarded s with
      | (.ok (), t) => visits n rest t
      | _ => []
    (p, s) :: (inside ++ later)

theorem entered_of_mem_visits {n : Nat} {parts : List Part} {q : Part} {s u : RunState}
    (h : (q, u) ∈ visits n parts s) : Entered parts s q u := by
  induction n generalizing parts s with
  | zero => cases h
  | succ n ih =>
    cases parts with
    | nil => cases h
    | cons p rest =>
      rcases List.mem_cons.1 h with h | h
      · cases h
        exact .here _ rest _
      rcases List.mem_append.1 h with h | h
      · rcases ho : outcome p.opening s with ⟨_ | parts, t⟩ <;> rw [ho] at h
        · cases h
        · exact .inside ho (ih h)
      · rcases hg : outcome p.guarded s with ⟨_ | _, t⟩ <;> rw [hg] at h
        · cases h
        · exact .later hg (ih h)

/-- What a part hands on to those inside of it holds of every part that is entered. -/
theorem Entered.property {K : Part → Prop} {parts : List Part} {q : Part} {s u : RunState}
    (hopens : ∀ p q, K p → p.Opens q → K q) (h : Entered parts s q u) (hparts : ∀ p ∈ parts, K p) :
    K q := by
  induction h with
  | here p rest s => exact hparts p List.mem_cons_self
  | inside opened h ih =>
    have hp := hparts _ List.mem_cons_self
    exact ih fun q hq => hopens _ q hp (Part.opens_of_opening opened hq)
  | later ended h ih => exact ih fun q hq => hparts q (List.mem_cons_of_mem _ hq)

/-- What holds of every part when it is entered, and what the parts of each depth may change, with
all that has to be shown for it. -/
structure Outline where
  entry : Part → RunState → Prop
  change : Nat → RunState → RunState → Prop
  preorder : ∀ n, IsPreorder RunState (change n)
  widen : ∀ {n s t}, change n s t → change (n + 1) s t
  opening : ∀ {p : Part} {s}, entry p s →
    Meets (change p.depth) (fun parts t => ∀ q ∈ parts, entry q t) p.opening s
  reported : ∀ n s counters diagnostics,
    change n s { s with counters := counters, diagnostics := diagnostics }
  kept : ∀ {p q : Part} {s t}, p.depth = q.depth → entry p s → change q.depth s t → entry p t

namespace Outline

variable (o : Outline) {p q : Part} {parts : List Part} {s t u : RunState} {n : Nat}

instance : IsPreorder RunState (o.change n) :=
  o.preorder n

/-- The parts of a list are of one depth, and each may be entered. -/
def Ready (n : Nat) (parts : List Part) (s : RunState) : Prop :=
  ∀ p ∈ parts, p.depth = n ∧ o.entry p s

theorem recover_moves (p : Part) (cause : DropCause) : Moves (o.change n) (p.recover cause) := by
  intro s
  cases p with
  | mapping => exact refl s
  | _ => exact o.reported n s _ _

/-- What is opened by a part may be entered where the opening ends. -/
theorem ready_opening (hp : o.entry p s) (h : outcome p.opening s = (.ok parts, t)) {m : Nat}
    (hm : m + 1 = p.depth) : o.Ready m parts t := by
  intro q hq
  have hdepth := (Part.opens_of_opening h hq).depth_eq
  exact ⟨by omega, (o.opening hp).2 parts t h q hq⟩

theorem ready_tail {rest : List Part} (h : o.Ready n (p :: rest) s) (hst : o.change n s t) :
    o.Ready n rest t := by
  intro q hq
  obtain ⟨hp, -⟩ := h p List.mem_cons_self
  obtain ⟨hdepth, hentry⟩ := h q (List.mem_cons_of_mem p hq)
  exact ⟨hdepth, o.kept (hdepth.trans hp.symm) hentry (hp.symm ▸ hst)⟩

/-- A part changes what it may if the parts inside of it do. -/
theorem run_change_of (hin : ∀ m parts t, m + 1 = p.depth → o.Ready m parts t →
      o.change m t (after (Run.runAll parts) t))
    (hp : o.entry p s) : o.change p.depth s (after p.run s) := by
  rw [Part.run_eq]
  refine rel_bind (o.opening hp).1 fun parts t h => ?_
  cases hd : p.depth with
  | zero =>
    cases Part.opening_eq_nil hd h
    exact refl t
  | succ m => exact o.widen (hin m parts t hd.symm (o.ready_opening hp h hd.symm))

theorem guarded_change_of (h : o.change n s (after p.run s)) :
    o.change n s (after p.guarded s) := by
  rw [Part.guarded, after, outcome_tryCatch]
  rcases hp : outcome p.run s with ⟨e | a, t⟩
  · have hst : o.change n s t := after_eq hp ▸ h
    cases e with
    | drop cause => exact IsTrans.trans _ _ _ hst (o.recover_moves p cause t)
    | abort e => exact hst
  · exact after_eq hp ▸ h

theorem list_change_of
    (hrun : ∀ p s, p.depth = n → o.entry p s → o.change n s (after p.run s))
    (h : o.Ready n parts s) : o.change n s (after (Run.runAll parts) s) := by
  induction parts generalizing s with
  | nil => exact refl s
  | cons p rest ih =>
    obtain ⟨hdepth, hentry⟩ := h p List.mem_cons_self
    have hp := o.guarded_change_of (hrun p s hdepth hentry)
    refine rel_bind hp fun _ t ht => ih (o.ready_tail h ?_)
    exact after_eq ht ▸ hp

/-- Parts that may be entered change what parts of their depth may. -/
theorem runAll_change (h : o.Ready n parts s) : o.change n s (after (Run.runAll parts) s) := by
  induction n generalizing parts s with
  | zero =>
    refine o.list_change_of (fun p s hp hentry => ?_) h
    rw [← hp]
    exact o.run_change_of (fun m _ _ hm => by omega) hentry
  | succ k ih =>
    refine o.list_change_of (fun p s hp hentry => ?_) h
    rw [← hp]
    refine o.run_change_of (fun m parts t hm hready => ?_) hentry
    obtain rfl : m = k := by omega
    exact ih hready

theorem run_change (hp : o.entry p s) : o.change p.depth s (after p.run s) :=
  o.run_change_of (fun _ _ _ _ hready => o.runAll_change hready) hp

/-- Whatever part is entered, what has to hold then holds. -/
theorem entered (h : Entered parts s q u) (hready : o.Ready n parts s) :
    o.entry q u ∧ o.change n s u := by
  induction h generalizing n with
  | here p rest s => exact ⟨(hready p List.mem_cons_self).2, refl s⟩
  | inside opened h ih =>
    obtain ⟨rfl, hentry⟩ := hready _ List.mem_cons_self
    have hopening := (o.opening hentry).1
    rw [after_eq opened] at hopening
    cases hd : Part.depth _ with
    | zero =>
      cases Part.opening_eq_nil hd opened
      cases h
    | succ m =>
      obtain ⟨hq, hchange⟩ := ih (o.ready_opening hentry opened hd.symm)
      rw [hd] at hopening
      exact ⟨hq, IsTrans.trans _ _ _ hopening (o.widen hchange)⟩
  | later ended h ih =>
    obtain ⟨rfl, hentry⟩ := hready _ List.mem_cons_self
    have hguarded := o.guarded_change_of (o.run_change hentry)
    rw [after_eq ended] at hguarded
    obtain ⟨hq, hchange⟩ := ih (o.ready_tail hready hguarded)
    exact ⟨hq, IsTrans.trans _ _ _ hguarded hchange⟩

end Outline

/-! ## Failures

A part that is guarded never fails so that what is around it would be dropped. A part is dropped
for what it did itself, before any part inside of it was run. -/

section

variable {p : Part} {parts : List Part} {s t : RunState} {cause : DropCause}

theorem guarded_ne_drop (hp : p.depth < 4) :
    outcome p.guarded s ≠ (.error (.drop cause), t) := by
  intro h
  rw [Part.guarded, outcome_tryCatch] at h
  rcases hr : outcome p.run s with ⟨e | _, u⟩ <;> rw [hr] at h
  · cases e with
    | abort e => cases h
    | drop cause =>
      cases p with
      | mapping => simp [Part.depth] at hp
      | _ => cases h
  · cases h

theorem runAll_ne_drop_of (hparts : ∀ p ∈ parts, ∀ s, outcome p.guarded s ≠ (.error (.drop cause), t)) :
    outcome (runAll parts) s ≠ (.error (.drop cause), t) := by
  induction parts generalizing s with
  | nil =>
    intro h
    cases h
  | cons p rest ih =>
    intro h
    rcases bind_error.1 h with h | ⟨_, u, _, h⟩
    · exact hparts p List.mem_cons_self s h
    · exact ih (fun q hq => hparts q (List.mem_cons_of_mem p hq)) h

theorem runAll_ne_drop (hparts : ∀ p ∈ parts, p.depth < 4) :
    outcome (runAll parts) s ≠ (.error (.drop cause), t) :=
  runAll_ne_drop_of fun p hp _ => guarded_ne_drop (hparts p hp)

theorem opening_drop_of_run (h : outcome p.run s = (.error (.drop cause), t)) :
    outcome p.opening s = (.error (.drop cause), t) := by
  rw [Part.run_eq] at h
  rcases bind_error.1 h with h | ⟨parts, u, hopening, h⟩
  · exact h
  · refine absurd h (runAll_ne_drop fun q hq => ?_)
    have hdepth := (Part.opens_of_opening hopening hq).depth_eq
    have hp : p.depth ≤ 4 := p.depth_le
    omega

end

/-! ## Where a change comes from -/

/-- Something begins to hold while some parts are run: with the opening of one of them, or with what
is done about one that was dropped. -/
def Begins (P : RunState → Prop) (parts : List Part) (s : RunState) : Prop :=
  ∃ q u, Entered parts s q u ∧ ¬ P u ∧
    (P (after q.opening u) ∨
      ∃ cause v, outcome q.run u = (.error (.drop cause), v) ∧ ¬ P v ∧ P (after (q.recover cause) v))

section

variable {P : RunState → Prop} {p : Part} {parts rest : List Part} {s t : RunState}

theorem Begins.inside (opened : outcome p.opening s = (.ok parts, t)) (h : Begins P parts t) :
    Begins P (p :: rest) s := by
  obtain ⟨q, u, hq, h⟩ := h
  exact ⟨q, u, .inside opened hq, h⟩

theorem Begins.later (ended : outcome p.guarded s = (.ok (), t)) (h : Begins P rest t) :
    Begins P (p :: rest) s := by
  obtain ⟨q, u, hq, h⟩ := h
  exact ⟨q, u, .later ended hq, h⟩

/-- What begins to hold in a part does so with its opening or inside of it. -/
theorem begins_of_run
    (hin : ∀ parts t, outcome p.opening s = (.ok parts, t) → ¬ P t → P (after (runAll parts) t) →
      Begins P parts t)
    (hs : ¬ P s) (h : P (after p.run s)) : Begins P (p :: rest) s := by
  by_cases ho : P (after p.opening s)
  · exact ⟨p, s, .here p rest s, hs, .inl ho⟩
  rw [Part.run_eq, after_bind] at h
  rcases hp : outcome p.opening s with ⟨e | parts, t⟩
  · rw [hp] at h
    rw [after_eq hp] at ho
    exact absurd h ho
  · rw [hp] at h
    rw [after_eq hp] at ho
    exact .inside hp (hin parts t hp ho h)

/-- What begins to hold in a guarded part does so in the part or with what is done about it. -/
theorem begins_of_guarded (hrun : P (after p.run s) → Begins P (p :: rest) s) (hs : ¬ P s)
    (h : P (after p.guarded s)) : Begins P (p :: rest) s := by
  by_cases hr : P (after p.run s)
  · exact hrun hr
  rw [Part.guarded, after, outcome_tryCatch] at h
  rcases hp : outcome p.run s with ⟨e | a, v⟩
  · rw [hp] at h
    rw [after_eq hp] at hr
    cases e with
    | drop cause => exact ⟨p, s, .here p rest s, hs, .inr ⟨cause, v, hp, hr, h⟩⟩
    | abort e => exact absurd h hr
  · rw [hp] at h
    rw [after_eq hp] at hr
    exact absurd h hr

theorem begins_of_runAll_of_depth {n : Nat} (hparts : ∀ p ∈ parts, p.depth < n) (hs : ¬ P s)
    (h : P (after (runAll parts) s)) : Begins P parts s := by
  induction n generalizing parts s with
  | zero =>
    cases parts with
    | nil => exact absurd h hs
    | cons p rest => exact absurd (hparts p List.mem_cons_self) (Nat.not_lt_zero _)
  | succ n ih =>
    induction parts generalizing s with
    | nil => exact absurd h hs
    | cons p rest ihrest =>
      have hp : p.depth < n + 1 := hparts p List.mem_cons_self
      by_cases hg : P (after p.guarded s)
      · refine begins_of_guarded (begins_of_run (fun parts t ho ht h => ?_) hs) hs hg
        refine ih (fun q hq => ?_) ht h
        have := (Part.opens_of_opening ho hq).depth_eq
        omega
      · rw [runAll_cons, after_bind] at h
        rcases hpg : outcome p.guarded s with ⟨e | _, t⟩
        · rw [hpg] at h
          rw [after_eq hpg] at hg
          exact absurd h hg
        · rw [hpg] at h
          rw [after_eq hpg] at hg
          exact .later hpg (ihrest (fun q hq => hparts q (List.mem_cons_of_mem p hq)) hg h)

/-- What holds after some parts were run and did not before began to hold at a part. -/
theorem begins_of_runAll (hs : ¬ P s) (h : P (after (runAll parts) s)) : Begins P parts s :=
  begins_of_runAll_of_depth (fun p _ => Nat.lt_succ_of_le p.depth_le) hs h

/-- What holds when a part is entered and did not at first began to hold at a part before. -/
theorem begins_of_entered {q : Part} {u : RunState} (hq : Entered parts s q u) (hs : ¬ P s)
    (h : P u) : Begins P parts s := by
  induction hq with
  | here => exact absurd h hs
  | @inside p _ rest _ s t _ opened _ ih =>
    by_cases ht : P t
    · exact ⟨p, s, .here p rest s, hs, .inl ((after_eq opened).symm ▸ ht)⟩
    · exact .inside opened (ih ht h)
  | @later p _ rest s t _ ended _ ih =>
    by_cases ht : P t
    · refine begins_of_guarded (begins_of_run (fun parts t _ ht h => ?_) hs) hs
        ((after_eq ended).symm ▸ ht)
      exact begins_of_runAll ht h
    · exact .later ended (ih ht h)

end

end Crosswalk.Run

namespace Crosswalk.Engine

open Crosswalk.Run

/-! ## Whole runs -/

def scene (engine : Engine) (document : Xml.Document) : Scene :=
  ⟨engine, engine.source document⟩

/-- The state in which a run starts. -/
def start (engine : Engine) (seed : List UInt8) : RunState :=
  .initial (engine.uuidSource seed)

/-- The state that a run ends in, also when it is aborted. -/
def final (engine : Engine) (seed : List UInt8) (document : Xml.Document) : RunState :=
  after (runMappings (engine.scene document) 1 engine.mapping.mappings) (engine.start seed)

/-- The parts that a run consists of. -/
def parts (engine : Engine) (document : Xml.Document) : List Part :=
  Part.mappings (engine.scene document) 1 engine.mapping.mappings

theorem final_eq (engine : Engine) (seed : List UInt8) (document : Xml.Document) :
    engine.final seed document = after (runAll (engine.parts document)) (engine.start seed) := by
  rw [final, runMappings_eq, parts]

/-- A part is entered in a state in the course of a run. -/
def Enters (engine : Engine) (seed : List UInt8) (document : Xml.Document) (p : Part)
    (s : RunState) : Prop :=
  Entered (engine.parts document) (engine.start seed) p s

theorem depth_of_mem_parts {engine : Engine} {document : Xml.Document} {p : Part}
    (h : p ∈ engine.parts document) : p.depth = 4 := by
  obtain ⟨_, _, -, -, rfl⟩ := Part.mem_mappings h
  rfl

/-- The report of a run is read off from the state that it ends in. -/
theorem eq_ofState_of_execute {engine : Engine} {seed : List UInt8} {document : Xml.Document}
    {report : Report} (h : engine.execute seed document = .ok report) :
    report = .ofState (engine.final seed document) := by
  rw [execute] at h
  split at h
  · cases h
  dsimp only at h
  split at h
  next hr =>
    cases h
    exact congrArg Report.ofState (after_eq hr).symm
  next => cases h
  next hr =>
    cases h
    exact congrArg Report.ofState (after_eq hr).symm

theorem exists_report_of_any {engine : Engine} {seed : List UInt8} {document : Xml.Document}
    {test : Report → Bool} (h : (engine.execute seed document).toOption.any test = true) :
    ∃ report, engine.execute seed document = .ok report ∧ test report = true := by
  obtain ⟨report, hreport, htest⟩ := (Option.any_eq_true ..).1 h
  exact ⟨report, eq_ok_of_toOption hreport, htest⟩

end Crosswalk.Engine
