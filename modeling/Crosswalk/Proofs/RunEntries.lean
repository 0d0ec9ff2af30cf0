import Crosswalk.Proofs.CompleteRuns

/-!
# The entries of a run

A run that comes to its end enters its parts one after the other, each in a state. `Completes` lists these
entries in order, the parts inside of a part right after it. Whatever is counted or reported in a run is the
sum of what single entries add to it, so that a counter is known once it is known what it does at one
entry. Of each kind of parts, the entries are the parts that the entries around them have opened.
-/

namespace Crosswalk.Run

/-- A part that is entered in a state. -/
abbrev Entry := Part × RunState

namespace Entry

/-- Why the part is dropped, if it is. -/
def cause? (e : Entry) : Option DropCause :=
  match (outcome e.1.run e.2).1 with
  | .error (.drop cause) => some cause
  | _ => none

/-- What is reported of the part. -/
def reported? (e : Entry) : Option Diagnostic :=
  e.cause?.map e.1.diagnostic

/-- The parts that the part leaves to be run. -/
def opened (e : Entry) : List Part :=
  match (outcome e.1.opening e.2).1 with
  | .ok parts => parts
  | .error _ => []

end Entry

variable {p q : Part} {parts rest : List Part} {s t u : RunState} {es : List Entry} {cause : DropCause}

/-- A part is dropped for what its opening fails for. -/
theorem drops_iff_opening :
    outcome p.run s = (.error (.drop cause), t) ↔ outcome p.opening s = (.error (.drop cause), t) := by
  refine ⟨opening_drop_of_run, fun h => ?_⟩
  rw [Part.run_eq, outcome_bind, h]

theorem Entry.cause?_of_opened (h : outcome p.opening s = (.ok parts, t)) :
    Entry.cause? (p, s) = none := by
  rw [Entry.cause?]
  split
  next cause hcause =>
    have hdropped : outcome p.run s = (.error (.drop cause), after p.run s) := Prod.ext hcause rfl
    cases h.symm.trans (drops_iff_opening.1 hdropped)
  next => rfl

theorem Entry.cause?_of_dropped (h : outcome p.opening s = (.error (.drop cause), t)) :
    Entry.cause? (p, s) = some cause := by
  rw [Entry.cause?, drops_iff_opening.2 h]

theorem Entry.opened_eq (h : outcome p.opening s = (.ok parts, t)) : Entry.opened (p, s) = parts := by
  rw [Entry.opened, h]

theorem Entry.opened_of_dropped (h : outcome p.opening s = (.error (.drop cause), t)) :
    Entry.opened (p, s) = [] := by
  rw [Entry.opened, h]

/-- A part whose failure stays its own comes to an end with the parts that it opens, or it is dropped. -/
theorem guarded_ok :
    outcome p.guarded s = (.ok (), t) ↔
      (∃ parts u, outcome p.opening s = (.ok parts, u) ∧ outcome (runAll parts) u = (.ok (), t)) ∨
        ∃ cause u, outcome p.opening s = (.error (.drop cause), u) ∧
          outcome (p.recover cause) u = (.ok (), t) := by
  rw [Part.guarded, outcome_tryCatch]
  rcases hrun : outcome p.run s with ⟨e | ⟨⟩, v⟩
  · have hnot (parts : List Part) (u : RunState) (ho : outcome p.opening s = (.ok parts, u))
        (ha : outcome (runAll parts) u = (.ok (), t)) : False := by
      rw [Part.run_eq, outcome_bind, ho] at hrun
      cases ha.symm.trans hrun
    cases e with
    | drop cause =>
      have hopening := drops_iff_opening.1 hrun
      constructor
      · exact fun h => .inr ⟨cause, v, hopening, h⟩
      · rintro (⟨parts, u, ho, ha⟩ | ⟨cause', u, ho, hr⟩)
        · exact (hnot parts u ho ha).elim
        · cases hopening.symm.trans ho
          exact hr
    | abort e =>
      constructor
      · rintro ⟨⟩
      · rintro (⟨parts, u, ho, ha⟩ | ⟨cause', u, ho, hr⟩)
        · exact (hnot parts u ho ha).elim
        · cases hrun.symm.trans (drops_iff_opening.2 ho)
  · have hall := hrun
    rw [Part.run_eq] at hall
    obtain ⟨parts, u, ho, ha⟩ := bind_ok.1 hall
    constructor
    · rintro ⟨⟩
      exact .inl ⟨parts, u, ho, ha⟩
    · rintro (⟨parts', u', ho', ha'⟩ | ⟨cause, u', ho', -⟩)
      · cases ho.symm.trans ho'
        exact Prod.ext rfl (congrArg Prod.snd (ha.symm.trans ha'))
      · cases ho.symm.trans ho'

/-! ## Entries in order -/

/-- Some parts are run from a state and come to their end in another one, with these entries. -/
inductive Completes : List Part → RunState → List Entry → RunState → Prop
  | nil (s : RunState) : Completes [] s [] s
  | opened {p : Part} {rest parts : List Part} {s t u v : RunState} {inside later : List Entry}
      (opening : outcome p.opening s = (.ok parts, t)) (within : Completes parts t inside u)
      (onwards : Completes rest u later v) : Completes (p :: rest) s ((p, s) :: (inside ++ later)) v
  | dropped {p : Part} {rest : List Part} {s t u v : RunState} {later : List Entry} {cause : DropCause}
      (opening : outcome p.opening s = (.error (.drop cause), t))
      (recovered : outcome (p.recover cause) t = (.ok (), u)) (onwards : Completes rest u later v) :
      Completes (p :: rest) s ((p, s) :: later) v

theorem Completes.outcome_runAll (h : Completes parts s es t) :
    outcome (runAll parts) s = (.ok (), t) := by
  induction h with
  | nil => rfl
  | opened opening _ _ ihwithin ihonwards =>
    rw [runAll_cons]
    exact bind_ok.2 ⟨(), _, guarded_ok.2 (.inl ⟨_, _, opening, ihwithin⟩), ihonwards⟩
  | dropped opening recovered _ ih =>
    rw [runAll_cons]
    exact bind_ok.2 ⟨(), _, guarded_ok.2 (.inr ⟨_, _, opening, recovered⟩), ih⟩

theorem exists_completes_of_depth {n : Nat} (hparts : ∀ p ∈ parts, p.depth < n)
    (h : outcome (runAll parts) s = (.ok (), t)) : ∃ es, Completes parts s es t := by
  induction n generalizing parts s t with
  | zero =>
    cases parts with
    | nil =>
      cases h
      exact ⟨[], .nil _⟩
    | cons p rest => exact absurd (hparts p List.mem_cons_self) (Nat.not_lt_zero _)
  | succ n ih =>
    induction parts generalizing s with
    | nil =>
      cases h
      exact ⟨[], .nil _⟩
    | cons p rest ihrest =>
      obtain ⟨hp, hrest⟩ := List.forall_mem_cons.1 hparts
      obtain ⟨⟨⟩, u, hguarded, hlater⟩ := bind_ok.1 h
      obtain ⟨later, hlater⟩ := ihrest hrest hlater
      rcases guarded_ok.1 hguarded with ⟨parts, v, hopening, hall⟩ | ⟨cause, v, hopening, hrecover⟩
      · have hdepth : ∀ q ∈ parts, q.depth < n := by
          intro q hq
          have := (Part.opens_of_opening hopening hq).depth_eq
          omega
        obtain ⟨inside, hinside⟩ := ih hdepth hall
        exact ⟨_, .opened hopening hinside hlater⟩
      · exact ⟨_, .dropped hopening hrecover hlater⟩

/-- What comes to its end has entries. -/
theorem exists_completes (h : outcome (runAll parts) s = (.ok (), t)) : ∃ es, Completes parts s es t :=
  exists_completes_of_depth (fun p _ => Nat.lt_succ_of_le p.depth_le) h

/-- The entries are those parts that are entered, each with the state that it is entered in. -/
theorem Completes.mem_iff (h : Completes parts s es t) : (q, u) ∈ es ↔ Entered parts s q u := by
  constructor
  · intro hq
    induction h with
    | nil => cases hq
    | opened opening within _ ihwithin ihonwards =>
      rcases List.mem_cons.1 hq with heq | hq
      · cases heq
        exact .here ..
      rcases List.mem_append.1 hq with hq | hq
      · exact .inside opening (ihwithin hq)
      · exact .later (guarded_ok.2 (.inl ⟨_, _, opening, within.outcome_runAll⟩)) (ihonwards hq)
    | dropped opening recovered _ ih =>
      rcases List.mem_cons.1 hq with heq | hq
      · cases heq
        exact .here ..
      · exact .later (guarded_ok.2 (.inr ⟨_, _, opening, recovered⟩)) (ih hq)
  · intro hq
    induction hq generalizing es t with
    | here => cases h <;> exact List.mem_cons_self
    | inside hopened _ ih =>
      cases h with
      | opened opening within onwards =>
        cases hopened.symm.trans opening
        exact List.mem_cons_of_mem _ (List.mem_append_left _ (ih within))
      | dropped opening => cases hopened.symm.trans opening
    | later hended _ ih =>
      cases h with
      | opened opening within onwards =>
        cases hended.symm.trans (guarded_ok.2 (.inl ⟨_, _, opening, within.outcome_runAll⟩))
        exact List.mem_cons_of_mem _ (List.mem_append_right _ (ih onwards))
      | dropped opening recovered onwards =>
        cases hended.symm.trans (guarded_ok.2 (.inr ⟨_, _, opening, recovered⟩))
        exact List.mem_cons_of_mem _ (ih onwards)

/-! ## What entries add up to -/

/-- What relates states by way of entries: nothing happens without one, what happens with some entries
and then with others happens with all of them, and each opening, and what is done about a part that was
dropped, is as the entry says. -/
structure Adds (R : List Entry → RunState → RunState → Prop) : Prop where
  nil : ∀ s, R [] s s
  append : ∀ {es es' s t u}, R es s t → R es' t u → R (es ++ es') s u
  opened : ∀ {p : Part} {s parts t}, outcome p.opening s = (.ok parts, t) → R [(p, s)] s t
  dropped : ∀ {p : Part} {s cause t u}, outcome p.opening s = (.error (.drop cause), t) →
    outcome (p.recover cause) t = (.ok (), u) → R [(p, s)] s u

theorem Completes.adds {R : List Entry → RunState → RunState → Prop} (hR : Adds R)
    (h : Completes parts s es t) : R es s t := by
  induction h with
  | nil s => exact hR.nil s
  | opened opening _ _ ihwithin ihonwards =>
    exact hR.append (hR.opened opening) (hR.append ihwithin ihonwards)
  | dropped opening recovered _ ih => exact hR.append (hR.dropped opening recovered) ih

/-- The diagnostics are those of the entries that were dropped, in their order. -/
theorem adds_reported :
    Adds fun es s t => t.diagnostics = s.diagnostics ++ es.filterMap Entry.reported? where
  nil s := (List.append_nil _).symm
  append h h' := by rw [h', h, List.filterMap_append, List.append_assoc]
  opened {p s parts t} h := by
    have hnone : Entry.reported? (p, s) = none := by rw [Entry.reported?, Entry.cause?_of_opened h]; rfl
    rw [← after_eq h, diagnostics_opening, List.filterMap_cons, hnone]
    exact (List.append_nil _).symm
  dropped {p s cause t u} h hrecovered := by
    have hsome : Entry.reported? (p, s) = some (p.diagnostic cause) := by
      rw [Entry.reported?, Entry.cause?_of_dropped h]
      rfl
    rw [← after_eq hrecovered, ← diagnostics_opening p s, after_eq h, List.filterMap_cons, hsome]
    cases p with
    | mapping => cases hrecovered
    | _ => rfl

/-! ## Entries of one kind -/

/-- The parts of a certain depth that are entered. -/
def entriesAt (n : Nat) (es : List Entry) : List Entry :=
  es.filter fun e => e.1.depth == n

@[simp] theorem entriesAt_append (n : Nat) (es es' : List Entry) :
    entriesAt n (es ++ es') = entriesAt n es ++ entriesAt n es' :=
  List.filter_append es es'

theorem entriesAt_cons_of_eq {n : Nat} (h : p.depth = n) (s : RunState) (es : List Entry) :
    entriesAt n ((p, s) :: es) = (p, s) :: entriesAt n es :=
  List.filter_cons_of_pos (by simpa using h)

theorem entriesAt_cons_of_ne {n : Nat} (h : p.depth ≠ n) (s : RunState) (es : List Entry) :
    entriesAt n ((p, s) :: es) = entriesAt n es :=
  List.filter_cons_of_neg (by simpa using h)

/-- Deeper parts open none that are not deeper still. -/
theorem Completes.entriesAt_eq_nil {n : Nat} (h : Completes parts s es t)
    (hparts : ∀ p ∈ parts, p.depth < n) : entriesAt n es = [] := by
  induction h with
  | nil => rfl
  | opened opening _ _ ihwithin ihonwards =>
    obtain ⟨hp, hrest⟩ := List.forall_mem_cons.1 hparts
    rw [entriesAt_cons_of_ne (by omega), entriesAt_append, ihonwards hrest, List.append_nil]
    refine ihwithin fun q hq => ?_
    have := (Part.opens_of_opening opening hq).depth_eq
    omega
  | dropped _ _ _ ih =>
    obtain ⟨hp, hrest⟩ := List.forall_mem_cons.1 hparts
    rw [entriesAt_cons_of_ne (by omega), ih hrest]

/-- Parts of one depth are entered one after the other. -/
theorem Completes.map_entriesAt {n : Nat} (h : Completes parts s es t)
    (hparts : ∀ p ∈ parts, p.depth = n) : (entriesAt n es).map Prod.fst = parts := by
  induction h with
  | nil => rfl
  | opened opening within _ _ ihonwards =>
    obtain ⟨hp, hrest⟩ := List.forall_mem_cons.1 hparts
    have hinside : entriesAt n _ = [] := within.entriesAt_eq_nil fun q hq => by
      have := (Part.opens_of_opening opening hq).depth_eq
      omega
    rw [entriesAt_cons_of_eq hp, entriesAt_append, hinside, List.nil_append, List.map_cons,
      ihonwards hrest]
  | dropped _ _ _ ih =>
    obtain ⟨hp, hrest⟩ := List.forall_mem_cons.1 hparts
    rw [entriesAt_cons_of_eq hp, List.map_cons, ih hrest]

/-- The parts that are entered inside of others are those that these have opened. -/
theorem Completes.map_entriesAt_inside {n d : Nat} (hn : n < d) (h : Completes parts s es t)
    (hparts : ∀ p ∈ parts, p.depth = d) :
    (entriesAt n es).map Prod.fst = (entriesAt (n + 1) es).flatMap Entry.opened := by
  induction h generalizing d with
  | nil => rfl
  | @opened p rest parts s t u v inside later opening within onwards ihwithin ihonwards =>
    obtain ⟨hp, hrest⟩ := List.forall_mem_cons.1 hparts
    have hdepth (q : Part) (hq : q ∈ parts) : q.depth + 1 = p.depth :=
      (Part.opens_of_opening opening hq).depth_eq
    rw [entriesAt_cons_of_ne (by omega), entriesAt_append, List.map_append, ihonwards hn hrest]
    by_cases hd : p.depth = n + 1
    · have hinside : ∀ q ∈ parts, q.depth = n := fun q hq => by
        have := hdepth q hq
        omega
      have hdeeper : entriesAt (n + 1) inside = [] :=
        within.entriesAt_eq_nil fun q hq => Nat.lt_succ_of_le (Nat.le_of_eq (hinside q hq))
      rw [entriesAt_cons_of_eq hd, entriesAt_append, hdeeper, List.nil_append, List.flatMap_cons,
        Entry.opened_eq opening, within.map_entriesAt hinside]
    · have hinside : ∀ q ∈ parts, q.depth = d - 1 := fun q hq => by
        have := hdepth q hq
        omega
      rw [entriesAt_cons_of_ne hd, entriesAt_append, List.flatMap_append, ihwithin (by omega) hinside]
  | @dropped p rest s t u v later cause opening _ _ ih =>
    obtain ⟨hp, hrest⟩ := List.forall_mem_cons.1 hparts
    rw [entriesAt_cons_of_ne (by omega), ih hn hrest]
    by_cases hd : p.depth = n + 1
    · rw [entriesAt_cons_of_eq hd, List.flatMap_cons, Entry.opened_of_dropped opening, List.nil_append]
    · rw [entriesAt_cons_of_ne hd]

/-! ## The order of the mappings -/

/-- The number of the mapping that a part belongs to. -/
def Part.number : Part → Nat
  | mapping _ number _ => number
  | domain _ place .. => place.mapping
  | link _ place .. => place.mapping
  | path l .. => l.place.mapping
  | range l .. => l.place.mapping

theorem Part.Opens.number_eq (h : p.Opens q) : q.number = p.number := by
  cases h <;> rfl

theorem Completes.exists_number (h : Completes parts s es t) {e : Entry} (he : e ∈ es) :
    ∃ p ∈ parts, e.1.number = p.number := by
  refine Entered.property (K := fun q => ∃ p ∈ parts, q.number = p.number) ?_ (h.mem_iff.1 he)
    fun p hp => ⟨p, hp, rfl⟩
  rintro q q' ⟨p, hp, hq⟩ hopens
  exact ⟨p, hp, hopens.number_eq.trans hq⟩

/-- Where parts follow one another in the order of their mappings, all entries do. -/
theorem Completes.pairwise_number (h : Completes parts s es t)
    (hparts : parts.Pairwise fun p q => p.number ≤ q.number) :
    es.Pairwise fun e e' => e.1.number ≤ e'.1.number := by
  induction h with
  | nil => exact .nil
  | @opened p rest parts s t u v inside later opening within onwards ihwithin ihonwards =>
    obtain ⟨hp, hrest⟩ := List.pairwise_cons.1 hparts
    have hinside (e : Entry) (he : e ∈ inside) : e.1.number = p.number := by
      obtain ⟨q, hq, he⟩ := within.exists_number he
      exact he.trans (Part.opens_of_opening opening hq).number_eq
    have hlater (e : Entry) (he : e ∈ later) : p.number ≤ e.1.number := by
      obtain ⟨q, hq, he⟩ := onwards.exists_number he
      exact he ▸ hp q hq
    have hsame : parts.Pairwise fun p q => p.number ≤ q.number := by
      refine List.pairwise_of_forall_mem_list fun q hq q' hq' => Nat.le_of_eq ?_
      rw [(Part.opens_of_opening opening hq).number_eq, (Part.opens_of_opening opening hq').number_eq]
    refine List.pairwise_cons.2 ⟨fun e he => ?_,
      List.pairwise_append.2 ⟨ihwithin hsame, ihonwards hrest, fun e he e' he' => ?_⟩⟩
    · rcases List.mem_append.1 he with he | he
      · exact Nat.le_of_eq (hinside e he).symm
      · exact hlater e he
    · rw [hinside e he]
      exact hlater e' he'
  | @dropped p rest s t u v later cause _ _ onwards ih =>
    obtain ⟨hp, hrest⟩ := List.pairwise_cons.1 hparts
    refine List.pairwise_cons.2 ⟨fun e he => ?_, ih hrest⟩
    obtain ⟨q, hq, he⟩ := onwards.exists_number he
    exact he ▸ hp q hq

end Crosswalk.Run
