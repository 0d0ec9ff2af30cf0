import Crosswalk.Proofs.Associations

/-!
# Where something begins to hold

Some facts about the state of a run only the value of an entity can bring about: that a variable is set, for
one. When such a fact holds at an entity and did not hold at the start, then another entity has brought it
about, and that one was taken up before. The order matters, so it is not enough to know that some entity of
the run did so: `Stretch.Arises` says of which state it came before, and the lemmas go back the way by which
that state was reached, over the entities and the parts that it led through.
-/

namespace Crosswalk

open Crosswalk.Xml (Location)

namespace Run

variable {P : RunState → Prop} {F s t u : RunState} {p q : Part} {parts : List Part} {x y : Resolution}
  {S : Stretch}

/-! ## Openings from their outset -/

/-- The state that a part begins with: a domain node begins with contexts of its own. -/
def Part.outset (p : Part) (s : RunState) : RunState :=
  match p with
  | .domain .. => { s with contexts := .empty }
  | _ => s

namespace Part

theorem opening_outset (p : Part) (s : RunState) : outcome p.opening (p.outset s) = outcome p.opening s := by
  cases p <;> rfl

theorem outset_of_depth (p : Part) (s : RunState) (h : p.depth = 3) :
    p.outset s = { p.outset s with contexts := .empty } := by
  cases p <;> first | rfl | cases h

theorem passes_outset : p.Passes (p.outset s) ↔ p.Passes s := by
  cases p <;> exact Iff.rfl

theorem resolves_outset : p.Resolves (p.outset s) x ↔ p.Resolves s x := by
  cases p with
  | domain => constructor <;> (intro h; cases h; exact .domain)
  | _ => exact Iff.rfl

end Part

theorem Respects.mono {R R' : RunState → RunState → Prop} (hR : Respects R) (h : ∀ s t, R s t → R' s t) :
    Respects R' where
  generated scene call node position s := h _ _ (hR.generated scene call node position s)
  associated s a := h _ _ (hR.associated s a)
  entered s c hc := h _ _ (hR.entered s c hc)
  noted s id r hr := h _ _ (hR.noted s id r hr)
  committed batch s := h _ _ (hR.committed batch s)
  counted s counters := h _ _ (hR.counted s counters)
  joined s joins := h _ _ (hR.joined s joins)
  reported s diagnostics := h _ _ (hR.reported s diagnostics)

section

variable {R : RunState → RunState → Prop} [IsPreorder RunState R]

theorem Part.rel_outset (hcleared : ∀ s, R s { s with contexts := .empty }) (p : Part) (s : RunState) :
    R s (p.outset s) := by
  cases p with
  | domain => exact hcleared s
  | _ => exact refl s

variable (hR : Respects R)

include hR

/-- A resolution changes what the values of the entities may change that are taken up with it. -/
theorem Resolution.rel_run {Q : Resolution → Prop} (hx : x.IsNew) (h : Q x)
    (attaches : ∀ x y, Q x → x.entity.types.isEmpty = false → x.Attaches y → Q y)
    (values : ∀ x, Q x → x.entity.types.isEmpty = false → R x.state (after x.valued x.state)) :
    R x.state (after x.run x.state) :=
  run_moves_along hR.toCarries hx h attaches values fun x v s _ _ _ => labelled_moves hR x v.2 s

/-- An opening changes what the values of the entities may change that it takes up. -/
theorem Part.rel_opening
    (values : ∀ x, p.TakesUp s x → x.entity.types.isEmpty = false → R x.state (after x.valued x.state)) :
    R (p.outset s) (after p.opening s) := by
  have hsame : after p.opening (p.outset s) = after p.opening s :=
    congrArg (·.2) (p.opening_outset s)
  have hcleared (h : p.depth = 3) : R (p.outset s) { p.outset s with contexts := .empty } :=
    p.outset_of_depth s h ▸ refl (p.outset s)
  rw [← hsame]
  by_cases hpass : p.Passes s
  · refine opening_moves_of hR.toCarries hcleared fun x hx => ?_
    exact Resolution.rel_run hR hx.isNew (.own ⟨resolves_outset.1 hx, hpass⟩) (fun _ _ => .attached) values
  · exact opening_rel_of_not_passes hR.entered hR.counted hR.joined hcleared
      (fun h => hpass (passes_outset.1 h))

end

/-! ## One entity after another -/

theorem exists_of_attached_concat {value : Value} {before : List (Attached Entity)} {a : Attached Entity}
    {rs : List (Attached Resolved)} (h : outcome (x.attached value (before ++ [a])) s = (.ok rs, t)) :
    ∃ earlier relationship r u, outcome (x.attached value before) s = (.ok earlier, u) ∧
      x.scene.namespaces.expand a.relationship = .ok relationship ∧
      let y := Resolution.entering x.scene x.place
        (additionalContext x.context x.id value before.length relationship) none a.entity u
      outcome y.run y.state = (.ok r, t) := by
  rw [Resolution.attached, resolveAdditionals_append, Nat.zero_add] at h
  obtain ⟨earlier, u, hearlier, h⟩ := bind_ok.1 h
  obtain ⟨_, _, hlast, h⟩ := bind_ok.1 h
  cases h
  obtain ⟨relationship, r, _, _, hexpanded, hr, hnone, -⟩ := resolveAdditionals_cons_ok.1 hlast
  cases hnone
  exact ⟨earlier, relationship, r, u, hearlier, hexpanded, hr⟩

theorem exists_of_intermediates_concat {l : LinkSetting} {path : Nat} {node : Location} {position : Nat}
    {before : List Entity} {entity : Entity} {ids : List Nat}
    (h : outcome (intermediates l path node position 0 (before ++ [entity])) s = (.ok ids, t)) :
    ∃ earlier r u, outcome (intermediates l path node position 0 before) s = (.ok earlier, u) ∧
      let x := Resolution.entering l.scene l.place
        (.fresh (.intermediate before.length) node position (some path)) none entity u
      outcome x.run x.state = (.ok r, t) := by
  rw [intermediates_append, Nat.zero_add] at h
  obtain ⟨earlier, u, hearlier, h⟩ := bind_ok.1 h
  obtain ⟨_, _, hlast, h⟩ := bind_ok.1 h
  cases h
  rw [intermediates_cons] at hlast
  obtain ⟨_, _, hentered, hlast⟩ := bind_ok.1 hlast
  cases hentered
  obtain ⟨r, w, hr, hlast⟩ := bind_ok.1 hlast
  split at hlast
  · cases hlast
    exact ⟨earlier, r, u, hearlier, resolveIntermediate_ok.1 hr⟩
  · cases hlast

/-! ## The entities of a stretch -/

theorem Part.TakesUp.takesUp (hp : S.within p s) (h : p.TakesUp s x) : S.TakesUp x := by
  induction h with
  | own h => exact .own hp h
  | attached _ typed attaches ih => exact .attached ih typed attaches

theorem Stretch.TakesUp.exists_part (h : S.TakesUp x) : ∃ p s, S.within p s ∧ p.TakesUp s x := by
  induction h with
  | own within takes => exact ⟨_, _, within, .own takes⟩
  | attached _ typed attaches ih =>
    obtain ⟨p, s, hp, hx⟩ := ih
    exact ⟨p, s, hp, .attached hx typed attaches⟩

/-- An entity is complete before the opening ends that takes it up. -/
theorem Part.TakesUp.later (hp : S.within p s) (h : p.TakesUp s x) :
    S.Later (after x.run x.state) (after p.opening s) := by
  induction h with
  | own h => exact .single (.resumes hp h)
  | attached hx typed attaches ih => exact ih.head (.belongs (hx.takesUp hp) typed attaches)

theorem Part.TakesUp.later_of_enters (hp : S.enters p s) (h : p.TakesUp s x) : S.Later s x.state := by
  induction h with
  | own h => exact .single (.takes hp h)
  | attached hx typed attaches ih =>
    have hx := hx.takesUp (S.within_of_enters hp)
    exact (ih.tail (.values hx typed)).tail (.attaches hx typed attaches)

theorem Stretch.later_of_entered (hS : ∀ q u, Entered parts s q u → S.enters q u)
    (h : Entered parts s q u) : S.Later s u := by
  induction h with
  | here => exact .refl
  | @inside p _ rest _ s t _ opened h _ =>
    have hp := hS p s (.here ..)
    exact (Later.opened hp).tail (.enters (S.within_of_enters hp) ⟨_, t, opened, h⟩)
  | @later p _ rest s t _ ended _ ih =>
    have hleft := Later.left (hS p s (.here ..))
    rw [after_eq ended] at hleft
    exact hleft.trans (ih fun q u hq => hS q u (.later ended hq))

/-! ## Facts that only values bring about -/

/-- What holds after a step held before it. -/
def HeldBefore (P : RunState → Prop) (s t : RunState) : Prop :=
  P t → P s

instance : IsPreorder RunState (HeldBefore P) where
  refl _ := id
  trans _ _ _ h h' := h ∘ h'

/-- What holds after a step held before it, or there is another reason. -/
def HeldOr (P : RunState → Prop) (Q : Prop) (s t : RunState) : Prop :=
  P t → P s ∨ Q

instance {Q : Prop} : IsPreorder RunState (HeldOr P Q) where
  refl _ := .inl
  trans _ _ _ h h' hP := (h' hP).elim h .inr

theorem HeldOr.of_held {Q : Prop} (h : HeldBefore P s t) : HeldOr P Q s t :=
  fun hP => .inl (h hP)

/-- Nothing but the value of an entity brings the fact about. -/
structure OnlyByValues (P : RunState → Prop) : Prop where
  respects : Respects (HeldBefore P)
  cleared : ∀ s, HeldBefore P s { s with contexts := .empty }

theorem OnlyByValues.enter (hP : OnlyByValues P) {role : Role} {node : Location} {position : Nat}
    {parent? : Option Nat} : HeldBefore P s (s.enter (.fresh role node position parent?)) :=
  hP.respects.entered s _ (Context.isFresh_fresh ..)

theorem OnlyByValues.respects_heldOr (hP : OnlyByValues P) (Q : Prop) : Respects (HeldOr P Q) :=
  hP.respects.mono fun _ _ => .of_held

namespace Stretch

/-- An entity, the value of which comes before some state, has brought the fact about. -/
def Arises (S : Stretch) (P : RunState → Prop) (F : RunState) : Prop :=
  ∃ x, S.TakesUp x ∧ x.entity.types.isEmpty = false ∧ ¬P x.state ∧ P (after x.valued x.state) ∧
    S.Later (after x.valued x.state) F

theorem Arises.later (h : S.Arises P s) (hst : S.Later s t) : S.Arises P t := by
  obtain ⟨x, hx, typed, hbefore, hafter, hlater⟩ := h
  exact ⟨x, hx, typed, hbefore, hafter, hlater.trans hst⟩

/-- What holds after a step held before it, or an entity has brought it about before some state. -/
abbrev HeldOrArose (S : Stretch) (P : RunState → Prop) (F : RunState) : RunState → RunState → Prop :=
  HeldOr P (S.Arises P F)

theorem HeldOrArose.later (h : S.HeldOrArose P t s t) (htu : S.Later t u) : S.HeldOrArose P u s t :=
  fun hP => (h hP).imp_right (·.later htu)

/-- A fact that was brought about before a state that comes earlier was so before a later one. -/
theorem HeldOrArose.trans_later (h : S.HeldOrArose P t s t) (htu : S.Later t u)
    (h' : S.HeldOrArose P u t u) : S.HeldOrArose P u s u :=
  fun hP => (h' hP).elim (h.later htu) .inr

theorem heldOrArose_valued (hx : S.TakesUp x) (typed : x.entity.types.isEmpty = false)
    (h : S.Later (after x.valued x.state) F) : S.HeldOrArose P F x.state (after x.valued x.state) := by
  intro hP
  by_cases hbefore : P x.state
  · exact .inl hbefore
  · exact .inr ⟨x, hx, typed, hbefore, hP, h⟩

section

variable (hP : OnlyByValues P)

include hP

/-! ## Back to the start -/

theorem heldOrArose_run (hx : S.TakesUp x) :
    S.HeldOrArose P (after x.run x.state) x.state (after x.run x.state) := by
  let Q (y : Resolution) : Prop := S.TakesUp y ∧ S.Later (after y.run y.state) (after x.run x.state)
  refine Resolution.rel_run (hP.respects_heldOr _) (Q := Q) hx.isNew ⟨hx, .refl⟩ ?_ ?_
  · rintro y z ⟨hy, hlater⟩ typed attaches
    exact ⟨.attached hy typed attaches, hlater.head (.belongs hy typed attaches)⟩
  · rintro y ⟨hy, hlater⟩ typed
    exact heldOrArose_valued hy typed (hlater.head (.completes hy typed))

theorem heldOrArose_opening (hp : S.within p s) :
    S.HeldOrArose P (after p.opening s) (p.outset s) (after p.opening s) := by
  refine Part.rel_opening (hP.respects_heldOr _) fun x hx typed => ?_
  exact heldOrArose_valued (hx.takesUp hp) typed ((hx.later hp).head (.completes (hx.takesUp hp) typed))

/-- A part brings about what it does by the entities that are taken up inside of it. -/
theorem heldOrArose_guarded (hp : S.within p s) :
    S.HeldOrArose P (after p.guarded s) s (after p.guarded s) := by
  have hR : Respects (S.HeldOrArose P (after p.guarded s)) := hP.respects_heldOr _
  have hopening (q : Part) (u : RunState) (hq : S.within q u)
      (hlater : S.Later (after q.opening u) (after p.guarded s)) :
      S.HeldOrArose P (after p.guarded s) u (after q.opening u) :=
    IsTrans.trans _ _ _ (Part.rel_outset (fun s => .of_held (hP.cleared s)) q u)
      ((heldOrArose_opening hP hq).later hlater)
  have hleaves : S.Later (after p.opening s) (after p.guarded s) := .single (.leaves hp)
  refine IsTrans.trans _ _ _ (hopening p s hp hleaves) (IsTrans.trans _ _ _ ?_
    (rel_recovered (recover_moves hR.toCarries p) s))
  rw [p.run_eq, after_bind]
  rcases hopened : outcome p.opening s with ⟨e | parts, t⟩
  · rw [after_eq hopened]
    exact refl t
  · rw [after_eq hopened]
    refine KeptAlong.rel_runAll ⟨fun q u hq => ?_, recover_moves hR.toCarries⟩
    have hin : p.Inside s q u := ⟨parts, t, hopened, hq⟩
    have hwithin := S.within_of_enters (S.enters_of_inside hp hin)
    exact hopening q u hwithin (.head (.leaves hwithin) (.single (.ends hp hin)))

theorem heldOrArose_entered (hS : ∀ q u, Entered parts s q u → S.enters q u)
    (h : Entered parts s q u) : S.HeldOrArose P u s u := by
  induction h with
  | here p rest s => exact refl s
  | @inside p _ rest parts s t u opened h ih =>
    have hp := S.within_of_enters (hS p s (.here ..))
    have hopening := heldOrArose_opening hP hp
    rw [after_eq opened] at hopening
    have hstart : S.HeldOrArose P t s t :=
      IsTrans.trans _ _ _ (Part.rel_outset (fun s => .of_held (hP.cleared s)) p s) hopening
    have hin : ∀ q u, Entered parts t q u → S.enters q u := fun q u hq => hS q u (.inside opened hq)
    exact hstart.trans_later (later_of_entered hin h) (ih hin)
  | @later p _ rest s t u ended h ih =>
    have hguarded := heldOrArose_guarded hP (S.within_of_enters (hS p s (.here ..)))
    rw [after_eq ended] at hguarded
    have hrest : ∀ q u, Entered rest t q u → S.enters q u := fun q u hq => hS q u (.later ended hq)
    exact hguarded.trans_later (later_of_entered hrest h) (ih hrest)

/-- What is known of an entity is known of the one that is taken up next. -/
theorem HeldOrArose.next {scene : Scene} {place : Place} {c : Context} {identity? : Option Value}
    {entity : Entity} (h : S.HeldOrArose P x.state s x.state) (hx : S.TakesUp x) (fresh : c.IsFresh)
    (hy : S.TakesUp (.entering scene place c identity? entity (after x.run x.state))) :
    let y := Resolution.entering scene place c identity? entity (after x.run x.state)
    S.HeldOrArose P y.state s y.state := by
  have hrun := h.trans_later hx.later (heldOrArose_run hP hx)
  exact hrun.trans_later (.single (.follows hx hy fresh rfl)) (.of_held (hP.respects.entered _ _ fresh))

/-- What holds at an attached entity held at its owner, or something before it has brought it about. -/
theorem heldOrArose_attached (hx : S.TakesUp x) (typed : x.entity.types.isEmpty = false)
    (hy : x.Attaches y) : S.HeldOrArose P y.state x.state y.state := by
  obtain @⟨types, value, ls, before, rest, a, resolved, relationship, s, t, u, hvalued, huri, hlabelled,
    hdivided, hearlier, hexpanded⟩ := id hy
  -- back over the entities that are attached before this one, of which the last comes first
  induction before using List.reverseRecOn generalizing a rest resolved relationship u with
  | nil =>
    cases hearlier
    have hvalue := heldOrArose_valued (P := P) hx typed (.single (.attaches hx typed hy))
    rw [after_eq hvalued] at hvalue
    have hlabels : HeldBefore P s t := (Resolution.labelled_moves hP.respects x value).outcome hlabelled
    exact IsTrans.trans _ _ _ hvalue
      (.of_held (IsTrans.trans _ _ _ hlabels (hP.respects.entered _ _ (isFresh_additionalContext ..))))
  | append_singleton before b ih =>
    obtain ⟨earlier, relationship', r, v, hbefore, hexpanded', hr⟩ := exists_of_attached_concat hearlier
    rw [List.append_assoc] at hdivided
    have hz := Resolution.Attaches.intro hvalued huri hlabelled hdivided hbefore hexpanded'
    obtain rfl := after_eq hr
    exact (ih hdivided hbefore hexpanded' hz).next hP (.attached hx typed hz)
      (isFresh_additionalContext ..) (.attached hx typed hy)

theorem heldOrArose_intermediate {l : LinkSetting} {joined : Bool} {node : Location} {position : Nat}
    {before rest : List Entity} {entity : Entity} {ids : List Nat}
    (hp : S.within (.path l joined node position) s) (hpass : (Part.path l joined node position).Passes s)
    (divided : l.link.target.entities = before ++ entity :: rest)
    (earlier : outcome (intermediates l s.contexts.size node position 0 before)
      (s.enter (.fresh .path node position (some l.domain))) = (.ok ids, t)) :
    let x := Resolution.entering l.scene l.place (.fresh (.intermediate before.length) node position
      (some s.contexts.size)) none entity t
    S.HeldOrArose P x.state s x.state := by
  induction before using List.reverseRecOn generalizing entity rest ids t with
  | nil =>
    cases earlier
    exact .of_held (IsTrans.trans _ _ _ hP.enter hP.enter)
  | append_singleton before b ih =>
    obtain ⟨ids', r, u, hbefore, hr⟩ := exists_of_intermediates_concat earlier
    obtain rfl := after_eq hr
    have hdivided : l.link.target.entities = before ++ b :: entity :: rest := by
      rw [divided, List.append_assoc]
      rfl
    exact (ih hdivided hbefore).next hP (.own hp ⟨.intermediate hdivided hbefore, hpass⟩)
      (Context.isFresh_fresh ..) (.own hp ⟨.intermediate divided earlier, hpass⟩)

theorem heldOrArose_takes (hp : S.within p s) (hx : p.Takes s x) :
    S.HeldOrArose P x.state (p.outset s) x.state := by
  obtain ⟨hresolves, hpass⟩ := hx
  cases hresolves with
  | domain => exact .of_held hP.enter
  | merge =>
    have hcounted : HeldBefore P s s.countLink := hP.respects.counted s _
    exact .of_held (IsTrans.trans _ _ _ hcounted (IsTrans.trans _ _ _ hP.enter hP.enter))
  | intermediate divided earlier => exact heldOrArose_intermediate hP hp hpass divided earlier
  | range => exact .of_held hP.enter

theorem heldOrArose_takesUp (hp : S.within p s) (hx : p.TakesUp s x) :
    S.HeldOrArose P x.state (p.outset s) x.state := by
  induction hx with
  | own h => exact heldOrArose_takes hP hp h
  | attached hx typed attaches ih =>
    have hx := hx.takesUp hp
    exact ih.trans_later (.head (.values hx typed) (.single (.attaches hx typed attaches)))
      (heldOrArose_attached hP hx typed attaches)

/-- What holds at an entity held where its part was entered, or something in between has brought it about. -/
theorem HeldOrArose.takesUp (h : S.HeldOrArose P s t s) (hp : S.enters p s) (hx : p.TakesUp s x) :
    S.HeldOrArose P x.state t x.state := by
  have houtset := Part.rel_outset (R := S.HeldOrArose P x.state) (fun s => .of_held (hP.cleared s)) p s
  exact h.trans_later (hx.later_of_enters hp)
    (IsTrans.trans _ _ _ houtset (heldOrArose_takesUp hP (S.within_of_enters hp) hx))

/-- What holds at an entity inside of a part held when the part began, or was brought about inside of it. -/
theorem heldOrArose_interior (h : (p.interior s).TakesUp x) :
    (p.interior s).HeldOrArose P x.state (p.outset s) x.state := by
  obtain ⟨q, u, hq, hx⟩ := h.exists_part
  have hp : (p.interior s).within p s := .inl ⟨rfl, rfl⟩
  rcases hq with ⟨rfl, rfl⟩ | hin
  · exact heldOrArose_takesUp hP hp hx
  · obtain ⟨parts, t, hopened, hq⟩ := id hin
    have hS : ∀ q u, Entered parts t q u → (p.interior s).enters q u :=
      fun _ _ hq => ⟨parts, t, hopened, hq⟩
    have hopening := heldOrArose_opening hP hp
    rw [after_eq hopened] at hopening
    exact (hopening.trans_later (later_of_entered hS hq) (heldOrArose_entered hP hS hq)).takesUp hP hin hx

end

end Stretch

end Run

namespace Engine

open Crosswalk.Run

variable {engine : Engine} {seed : List UInt8} {document : Xml.Document} {P : RunState → Prop}
  {x : Resolution}

/-- What holds at an entity of a run held at the start, or an entity before it has brought it about. -/
theorem heldOrArose_course (hP : OnlyByValues P) (hx : (engine.course seed document).TakesUp x) :
    (engine.course seed document).HeldOrArose P x.state (engine.start seed) x.state := by
  obtain ⟨p, s, hp, hx⟩ := hx.exists_part
  exact (Stretch.heldOrArose_entered hP (fun _ _ => id) hp).takesUp hP hp hx

end Engine

end Crosswalk
