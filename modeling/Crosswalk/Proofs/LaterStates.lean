import Crosswalk.Proofs.RunNodes

/-!
# States one after another

A run passes through many states: those in which its parts are entered and left, and inside of them those
around the values of the entities that are resolved. `Stretch.Step` leads from such a state to a next one,
for a whole run or for a stretch of it, such as the inside of a domain node, and `Stretch.Later` from a state
to all that come after it. What every reading of the source and every writing respects is kept from each
state to all later ones.
-/

namespace Crosswalk

open Crosswalk.Xml (Location)

namespace Run

variable {s t u : RunState} {p q : Part} {x y : Resolution}

/-! ## The entities that are taken up -/

/-- Whatever stands between the opening of a part and its entities lets them through: the conditions hold
at the node, and a link has a graph. -/
def Part.Passes : Part → RunState → Prop
  | mapping .., _ => True
  | domain scene _ m _ node _, _ =>
    Condition.guardFails scene.conditionSetting node m.domain.target.condition? = .ok false
  | link scene _ _ _ id domainGraph? l, s =>
    (∃ graph?, scene.NamesGraph domainGraph? l.graph? graph?) ∧
      ∀ target ∈ [l.target.condition?, l.range.target.condition?],
        Condition.guardFails scene.conditionSetting (s.contexts.get id).node target = .ok false
  | path l _ node _, _ =>
    Condition.guardFails l.scene.conditionSetting node l.link.target.condition? = .ok false
  | range l _ _ node _, _ =>
    Condition.guardFails l.scene.conditionSetting node l.link.range.target.condition? = .ok false

instance (p : Part) (s : RunState) : Decidable (p.Passes s) :=
  match p with
  | .mapping .. => isTrue trivial
  | .domain .. => inferInstanceAs (Decidable (_ = _))
  | .link .. => inferInstanceAs (Decidable (_ ∧ ∀ target ∈ _, _))
  | .path .. => inferInstanceAs (Decidable (_ = _))
  | .range .. => inferInstanceAs (Decidable (_ = _))

/-- The opening of a part takes up an entity. -/
structure Part.Takes (p : Part) (s : RunState) (x : Resolution) : Prop where
  resolves : p.Resolves s x
  passes : p.Passes s

/-- A stretch of a run: the parts that are entered in its course, and those that are not left before
it, with all that is inside of them. -/
structure Stretch where
  enters : Part → RunState → Prop
  within : Part → RunState → Prop
  within_of_enters : ∀ {p s}, enters p s → within p s
  enters_of_inside : ∀ {p q s u}, within p s → p.Inside s q u → enters q u

namespace Stretch

/-- An entity is taken up in the course of a stretch, by a part or as one that is attached to another. -/
inductive TakesUp (S : Stretch) : Resolution → Prop
  | own {p : Part} {s : RunState} {x : Resolution} (within : S.within p s) (takes : p.Takes s x) :
    TakesUp S x
  | attached {x y : Resolution} (h : TakesUp S x) (typed : x.entity.types.isEmpty = false)
      (attaches : x.Attaches y) : TakesUp S y

/-- The steps from a state of a stretch to one that comes after it. -/
inductive Step (S : Stretch) : RunState → RunState → Prop
  /-- A part that is entered is opened. -/
  | opens {p : Part} {s : RunState} (h : S.enters p s) : Step S s (after p.opening s)
  /-- A part that has been opened is left. -/
  | leaves {p : Part} {s : RunState} (h : S.within p s) :
    Step S (after p.opening s) (after p.guarded s)
  /-- The parts inside of a part are entered after it has been opened. -/
  | enters {p q : Part} {s u : RunState} (h : S.within p s) (hq : p.Inside s q u) :
    Step S (after p.opening s) u
  /-- They are left before it is. -/
  | ends {p q : Part} {s u : RunState} (h : S.within p s) (hq : p.Inside s q u) :
    Step S (after q.guarded u) (after p.guarded s)
  /-- The opening of a part leads to its entities. -/
  | takes {p : Part} {s : RunState} {x : Resolution} (h : S.enters p s) (hx : p.Takes s x) :
    Step S s x.state
  /-- It goes on from each of them. -/
  | resumes {p : Part} {s : RunState} {x : Resolution} (h : S.within p s) (hx : p.Takes s x) :
    Step S (after x.run x.state) (after p.opening s)
  /-- An entity gets its value. -/
  | values {x : Resolution} (h : S.TakesUp x) (typed : x.entity.types.isEmpty = false) :
    Step S x.state (after x.valued x.state)
  /-- An entity with its value is completed. -/
  | completes {x : Resolution} (h : S.TakesUp x) (typed : x.entity.types.isEmpty = false) :
    Step S (after x.valued x.state) (after x.run x.state)
  /-- What is attached to an entity is taken up after its value. -/
  | attaches {x y : Resolution} (h : S.TakesUp x) (typed : x.entity.types.isEmpty = false)
      (hy : x.Attaches y) : Step S (after x.valued x.state) y.state
  /-- It is there before the entity is complete. -/
  | belongs {x y : Resolution} (h : S.TakesUp x) (typed : x.entity.types.isEmpty = false)
      (hy : x.Attaches y) : Step S (after y.run y.state) (after x.run x.state)
  /-- An entity is taken up right after another one. -/
  | follows {x y : Resolution} {c : Context} (h : S.TakesUp x) (hy : S.TakesUp y) (fresh : c.IsFresh)
      (next : y.state = (after x.run x.state).enter c) : Step S (after x.run x.state) y.state

/-- A state comes after another one, or is the same. -/
abbrev Later (S : Stretch) : RunState → RunState → Prop :=
  Relation.ReflTransGen S.Step

end Stretch

/-! ## Openings that go on from an entity -/

section

variable {R : RunState → RunState → Prop} [IsPreorder RunState R]

theorem after_openDomain_of_passes {scene : Scene} {place : Place} {m : Mapping}
    {mappingGraph? : Option String} {node : Location} {position : Nat}
    (h : (Part.domain scene place m mappingGraph? node position).Passes s) :
    let x := Resolution.ofDomain scene place m node position s
    after (openDomain scene place m mappingGraph? node position) s =
      after (x.run >>= placeDomain scene place m mappingGraph? node position x.id) x.state := by
  rw [openDomain, after_bind_of_ok (outcome_modify _ s), after_bind_of_ok (outcome_enter _ _),
    after_bind_of_ok (discards_ok.2 ⟨h, rfl⟩)]
  rfl

theorem after_linkRange_of_passes {l : LinkSetting} {path : Nat} {ids : List Nat} {node : Location}
    {position : Nat} (h : (Part.range l path ids node position).Passes s) :
    let x := Resolution.ofRange l path node position s
    after (linkRange l path ids node position) s = after (x.run >>= placeRange l ids x.id) x.state := by
  rw [linkRange, after_bind_of_ok (outcome_enter _ _), after_bind_of_ok (discards_ok.2 ⟨h, rfl⟩)]
  rfl

theorem after_linkMerge_of_passes {l : LinkSetting} {node : Location} {position : Nat} {r : Resolved}
    (hpath : Condition.guardFails l.scene.conditionSetting node l.link.target.condition? = .ok false)
    (hrange : Condition.guardFails l.scene.conditionSetting node l.link.range.target.condition? = .ok false)
    (hr : (s.contexts.get l.domain).resolved? = some r) :
    let x := Resolution.merging l.scene l.place l.domain l.link.range.target.entity r.value node position s
    after (linkMerge l node position) s = after (x.run >>= fun _ => do
      Run.link x.id l.linkGraph?
      count fun c => { c with rangesLinked := c.rangesLinked + 1 }) x.state := by
  have hfresh := Context.isFresh_fresh .path node position (some l.domain)
  have hfresh' := Context.isFresh_fresh .range node position (some s.contexts.size)
  have hr' : (((s.enter (.fresh .path node position (some l.domain))).enter
      (.fresh .range node position (some s.contexts.size))).contexts.get l.domain).resolved? = some r := by
    rw [RunState.enter, RunState.enter, Contexts.resolved?_get_push hfresh',
      Contexts.resolved?_get_push hfresh, hr]
  rw [linkMerge, after_bind_of_ok (outcome_enter _ _), after_bind_of_ok (discards_ok.2 ⟨hpath, rfl⟩),
    if_neg Bool.false_ne_true, after_bind_of_ok (outcome_enter _ _),
    after_bind_of_ok (discards_ok.2 ⟨hrange, rfl⟩), if_neg Bool.false_ne_true,
    after_bind_of_ok (outcome_resolvedValue? _ _), hr']
  rfl

/-- A link that names a graph opens in it, in one way or the other. -/
theorem after_openLink_of_namesGraph {scene : Scene} {place : Place} {m : Mapping} {id : Nat}
    {domainGraph? graph? : Option String} {l : Link} (h : scene.NamesGraph domainGraph? l.graph? graph?)
    (hmerge : l.target.isMerge = true) :
    after (openLink scene place m id domainGraph? l) s =
      after (linkMerge ⟨scene, place, m, l, id, domainGraph?, graph?⟩ (s.contexts.get id).node
        (s.contexts.get id).position) s.countLink := by
  have hgraph : outcome (namedGraph scene domainGraph? l.graph?) s.countLink = (.ok graph?, s.countLink) := by
    rcases hname : l.graph? with _ | name <;> rw [hname] at h
    · cases h
      rfl
    · obtain ⟨graph, hexpanded, rfl⟩ := h
      exact bind_ok.2 ⟨graph, _, ofSetup_ok.2 ⟨hexpanded, rfl⟩, outcome_pure _ _⟩
  have hcounted : outcome (count fun c => { c with linksAttempted := c.linksAttempted + 1 }) s =
    (.ok (), s.countLink) := rfl
  rw [openLink, after_bind_of_ok hcounted, after_bind_of_ok hgraph,
    after_bind_of_ok (outcome_context _ _), if_pos hmerge]
  exact after_bind_of_after (fun _ _ => rfl) _

/-- The intermediate entities of a path go on from each of them. -/
theorem reads_intermediates {l : LinkSetting} {path : Nat} {node : Location} {position : Nat}
    {before : List Entity} {entity : Entity} {ids : List Nat}
    (earlier : outcome (intermediates l path node position 0 before) s = (.ok ids, t))
    (others : List Entity) :
    let x := Resolution.entering l.scene l.place (.fresh (.intermediate before.length) node position
      (some path)) none entity t
    Reads 0 (after x.run x.state)
      (after (intermediates l path node position 0 (before ++ entity :: others)) s) := by
  intro x
  rw [intermediates_append, after_bind_of_ok earlier, after_bind_of_after fun _ _ => rfl, Nat.zero_add,
    intermediates_cons, after_bind_of_ok (outcome_enter _ _)]
  have hrun : after x.run x.state = after (resolveIntermediate l before.length entity x.id) x.state :=
    (after_resolveIntermediate l before.length entity x.id x.state).symm
  rw [hrun]
  refine rel_rest (fun resolved => ?_) _
  split
  · exact .bind (fun u => (intermediates_meets l path node position _ others u).1) fun _ => .pure _
  · exact .drop _

/-! ## What is kept from a state to later ones -/

variable (hR : Respects R) (hreads : ∀ {s t}, Reads 0 s t → R s t)

include hR hreads

theorem Part.Takes.resumes (h : p.Takes s x) : R (after x.run x.state) (after p.opening s) := by
  obtain ⟨hx, hpass⟩ := h
  cases hx with
  | domain =>
    rw [Part.opening, after_openDomain_of_passes hpass]
    exact rel_rest (placeDomain_moves hR.toCarries _ _ _ _ _ _ _) _
  | merge hmerge hr =>
    obtain ⟨⟨graph?, hgraph⟩, hconditions⟩ := hpass
    rw [Part.opening, after_openLink_of_namesGraph hgraph hmerge,
      after_linkMerge_of_passes (hconditions _ (by simp)) (hconditions _ (by simp)) hr]
    exact rel_rest (fun _ => .bind (link_moves hR.toCarries _ _) fun _ => count_moves hR.toCarries _) _
  | @intermediate l joined node position before others entity ids s t divided earlier =>
    refine IsTrans.trans _ _ _ (hreads (reads_intermediates earlier others)) ?_
    rw [Part.opening, openPath, after_bind_of_ok (outcome_enter _ _),
      after_bind_of_ok (discards_ok.2 ⟨hpass, rfl⟩), if_neg Bool.false_ne_true, divided]
    refine rel_rest (fun ids => ?_) _
    split
    · exact .pure _
    · exact .bind (.ofSetup _) fun _ => .pure _
  | range =>
    rw [Part.opening, after_bind_of_after fun _ _ => rfl, after_linkRange_of_passes hpass]
    exact rel_rest (placeRange_moves hR.toCarries _ _ _) _

namespace Resolution

omit [IsPreorder RunState R] hR hreads in
theorem after_run (hx : x.IsNew) (typed : x.entity.types.isEmpty = false) :
    after x.run x.state =
      after (resolveFresh x.scene x.place x.id x.identity? x.entity x.context) x.state := by
  rw [after, outcome_run hx, if_neg (by simp [typed])]
  rfl

omit hreads in
/-- The last that happens to an entity is that it is noted. -/
theorem rel_belonging {types : List String} {value : Value} {ls : List (String × Value)}
    (hx : x.IsNew) (typed : x.entity.types.isEmpty = false)
    (hvalued : outcome x.valued x.state = (.ok (types, value), s))
    (hlabelled : outcome (x.labelled value) s = (.ok ls, t)) :
    R (after (x.belonging value) t) (after x.run x.state) := by
  rw [after_run hx typed, resolveFresh_eq, after_bind_of_ok hvalued, after_bind_of_ok hlabelled, after_bind]
  rcases hbelonging : outcome (x.belonging value) t with ⟨e | attached, u⟩
  · rw [after_eq hbelonging]
    exact refl u
  · rw [after_eq hbelonging]
    exact hR.noted u x.id _ (resolved?_belonging hx hvalued hlabelled hbelonging)

/-- An entity is completed once it has its value. -/
theorem rel_completed (hx : x.IsNew) (typed : x.entity.types.isEmpty = false) :
    R (after x.valued x.state) (after x.run x.state) := by
  rcases hvalued : outcome x.valued x.state with ⟨e | ⟨types, value⟩, s⟩
  · rw [after_run hx typed, resolveFresh_eq, after_bind, hvalued, after_eq hvalued]
    exact refl s
  rw [after_eq hvalued]
  refine IsTrans.trans _ _ _ (hreads (labelled_reads x value s)) ?_
  rcases hlabelled : outcome (x.labelled value) s with ⟨e | ls, t⟩
  · rw [after_run hx typed, resolveFresh_eq, after_bind_of_ok hvalued, after_bind, hlabelled,
      after_eq hlabelled]
    exact refl t
  rw [after_eq hlabelled]
  have hbelonging := (belonging_reads x value t).of_le (Nat.zero_le _)
  exact IsTrans.trans _ _ _ (hreads hbelonging) (rel_belonging hR hx typed hvalued hlabelled)

omit [IsPreorder RunState R] hR hreads in
/-- What is attached to an entity is entered after its value, when others may have been read. -/
theorem Attaches.exists_entering (h : x.Attaches y) :
    ∃ value k relationship entity u, Reads 0 (after x.valued x.state) u ∧
      y = entering x.scene x.place (additionalContext x.context x.id value k relationship) none entity u := by
  obtain ⟨hvalued, -, hlabelled, -, hearlier, -⟩ := h
  rw [after_eq hvalued]
  have hlabels := (labelled_reads (n := 0) x _).outcome hlabelled
  have hbefore := after_eq hearlier ▸
    (additionalsMeet x.scene x.place _ x.id x.context _ 0 _).1.of_le (Nat.zero_le _)
  exact ⟨_, _, _, _, _, hlabels.trans hbefore, rfl⟩

omit [IsPreorder RunState R] hR in
theorem Attaches.rel_valued (h : x.Attaches y) : R (after x.valued x.state) y.state := by
  obtain ⟨_, _, _, _, u, hu, rfl⟩ := h.exists_entering
  exact hreads (hu.tail (.entered _ _ (isFresh_additionalContext ..)))

theorem Attaches.rel_run (hx : x.IsNew) (typed : x.entity.types.isEmpty = false) (h : x.Attaches y) :
    R (after y.run y.state) (after x.run x.state) := by
  obtain @⟨types, value, ls, before, after', ⟨name, entity⟩, resolved, relationship, s, t, u, hvalued, huri,
    hlabelled, hdivided, hearlier, hexpanded⟩ := h
  refine IsTrans.trans _ _ _ ?_ (rel_belonging hR hx typed hvalued hlabelled)
  rw [attached] at hearlier
  rw [belonging, if_pos huri, attached, hdivided, resolveAdditionals_append, Nat.zero_add,
    after_bind_of_ok hearlier, after_bind_of_after fun _ _ => rfl, resolveAdditionals,
    after_bind_of_ok (ofSetup_ok.2 ⟨hexpanded, rfl⟩), after_bind_of_ok (outcome_enter _ _)]
  refine rel_rest (fun r => .bind (fun v => ?_) fun _ => .pure _) _
  exact hreads ((additionalsMeet x.scene x.place after' x.id x.context value _ v).1.of_le (Nat.zero_le _))

end Resolution

end

namespace Stretch

variable {S : Stretch} {R : RunState → RunState → Prop}

theorem TakesUp.isNew (h : S.TakesUp x) : x.IsNew := by
  cases h with
  | own _ takes => exact takes.resolves.isNew
  | attached _ _ attaches => exact attaches.isNew

/-- A relation allows for all that happens in a stretch: that entities are read and described, that
batches are written, and that a domain node begins with contexts of its own. -/
structure Allows (S : Stretch) (R : RunState → RunState → Prop) : Prop where
  respects : Respects R
  reads : ∀ {s t}, Reads 0 s t → R s t
  cleared : ∀ {p s}, S.enters p s → p.depth = 3 → R s { s with contexts := .empty }

variable [IsPreorder RunState R] (hR : S.Allows R)

include hR

theorem Allows.opening (h : S.enters p s) : R s (after p.opening s) :=
  opening_moves hR.respects (hR.cleared h) fun _ y _ _ => hR.reads (y.valued_reads y.state)

theorem Allows.keptAlong (h : S.within p s) {parts : List Part}
    (hopened : outcome p.opening s = (.ok parts, t)) : KeptAlong R parts t where
  opening _ _ hq := hR.opening (S.enters_of_inside h ⟨parts, t, hopened, hq⟩)
  recover := recover_moves hR.respects.toCarries

/-- What happens in a part after its opening. -/
theorem Allows.run (h : S.within p s) : R (after p.opening s) (after p.run s) := by
  rw [p.run_eq, after_bind]
  rcases hopened : outcome p.opening s with ⟨e | parts, t⟩
  · rw [after_eq hopened]
    exact refl t
  · rw [after_eq hopened]
    exact (hR.keptAlong h hopened).rel_runAll

theorem Step.rel (h : S.Step s t) : R s t := by
  cases h with
  | opens h => exact hR.opening h
  | leaves h =>
    exact IsTrans.trans _ _ _ (hR.run h) (rel_recovered (recover_moves hR.respects.toCarries _) _)
  | enters h hq =>
    obtain ⟨parts, t, hopened, hq⟩ := hq
    exact after_eq hopened ▸ (hR.keptAlong h hopened).rel_entered hq
  | @ends p q s u h hq =>
    obtain ⟨parts, t, hopened, hq⟩ := hq
    have hrun : after p.run s = after (runAll parts) t := by rw [p.run_eq, after_bind_of_ok hopened]
    refine IsTrans.trans _ _ _ ((hR.keptAlong h hopened).rel_guarded_end hq) ?_
    exact hrun ▸ rel_recovered (recover_moves hR.respects.toCarries p) s
  | takes h hx =>
    exact hx.resolves.moves hR.respects (hR.cleared h) fun _ y _ _ => hR.reads (y.valued_reads y.state)
  | resumes h hx => exact hx.resumes hR.respects hR.reads
  | @values x h typed => exact hR.reads (x.valued_reads x.state)
  | completes h typed => exact Resolution.rel_completed hR.respects hR.reads h.isNew typed
  | attaches h typed hy => exact hy.rel_valued hR.reads
  | belongs h typed hy => exact hy.rel_run hR.respects hR.reads h.isNew typed
  | follows h hy fresh next => exact next ▸ hR.reads (.single (.entered _ _ fresh))

/-- What a relation allows for is kept from each state to all later ones. -/
theorem Later.rel (h : S.Later s t) : R s t := by
  induction h with
  | refl => exact refl s
  | tail _ step ih => exact IsTrans.trans _ _ _ ih (step.rel hR)

end Stretch

/-! ## The order of a stretch -/

namespace Stretch

variable {S : Stretch} {parts : List Part}

theorem Later.opened (h : S.enters p s) : S.Later s (after p.opening s) :=
  .single (.opens h)

theorem Later.left (h : S.enters p s) : S.Later s (after p.guarded s) :=
  (Later.opened h).tail (.leaves (S.within_of_enters h))

/-- An entity that is taken up has its value before it is complete. One without types gets none. -/
theorem TakesUp.later (h : S.TakesUp x) : S.Later x.state (after x.run x.state) := by
  cases typed : x.entity.types.isEmpty with
  | false => exact .tail (.single (.values h typed)) (.completes h typed)
  | true =>
    have hrun : after x.run x.state = x.state := by
      rw [after, Resolution.outcome_run h.isNew, if_pos typed]
      rfl
    rw [hrun]

/-- An entity that is taken up hangs off one that a part takes up, and is complete before that one. -/
theorem TakesUp.exists_own (h : S.TakesUp y) : ∃ p s x, S.within p s ∧ p.Takes s x ∧
    S.Later x.state y.state ∧ S.Later (after y.run y.state) (after x.run x.state) := by
  induction h with
  | own within takes => exact ⟨_, _, _, within, takes, .refl, .refl⟩
  | attached h typed attaches ih =>
    obtain ⟨p, s, x, hp, hx, hbefore, hafter⟩ := ih
    exact ⟨p, s, x, hp, hx, (hbefore.tail (.values h typed)).tail (.attaches h typed attaches),
      hafter.head (.belongs h typed attaches)⟩

theorem later_of_leads (hS : ∀ q u, Leads parts s q u → S.enters q u) (h : Leads parts s p u) :
    S.Later s u := by
  induction h with
  | first => exact .refl
  | later ended _ ih =>
    have hleft := Later.left (hS _ _ (.first ..))
    rw [after_eq ended] at hleft
    exact hleft.trans (ih fun q u hq => hS q u (.later ended hq))

theorem later_runAll (hS : ∀ q u, Leads parts s q u → S.enters q u) :
    S.Later s (after (runAll parts) s) := by
  induction parts generalizing s with
  | nil => exact .refl
  | cons p rest ih =>
    refine (Later.left (hS p s (.first ..))).trans ?_
    rw [runAll_cons, after_bind]
    rcases ended : outcome p.guarded s with ⟨e | ⟨⟩, t⟩
    · rw [after_eq ended]
    · rw [after_eq ended]
      exact ih fun q u hq => hS q u (.later ended hq)

/-- The parts of a list are left before the list has been run. -/
theorem later_runAll_of_leads (hS : ∀ q u, Leads parts s q u → S.enters q u) (h : Leads parts s p u) :
    S.Later (after p.guarded u) (after (runAll parts) s) := by
  induction h with
  | first p rest s =>
    rw [runAll_cons, after_bind]
    rcases ended : outcome p.guarded s with ⟨e | ⟨⟩, t⟩
    · rw [after_eq ended]
    · rw [after_eq ended]
      exact later_runAll fun q u hq => hS q u (.later ended hq)
  | later ended _ ih =>
    rw [runAll_cons, after_bind_of_ok ended]
    exact ih fun q u hq => hS q u (.later ended hq)

end Stretch

/-- What happens inside of a part that is entered in a state, from its opening on. -/
def Part.interior (p : Part) (s : RunState) : Stretch where
  enters := p.Inside s
  within q u := q = p ∧ u = s ∨ p.Inside s q u
  within_of_enters := .inr
  enters_of_inside := by
    rintro q r u v (⟨rfl, rfl⟩ | ⟨parts, t, hopened, hq⟩) hr
    · exact hr
    · obtain ⟨parts', t', hopened', hr⟩ := hr
      exact ⟨parts, t, hopened, hq.within hopened' hr⟩

/-- Every entity that is taken up inside of a part is complete before the part is left. -/
theorem Part.later_guarded_of_takesUp (h : (p.interior s).TakesUp y) :
    (p.interior s).Later (after y.run y.state) (after p.guarded s) := by
  obtain ⟨q, u, x, hq, hx, -, hafter⟩ := h.exists_own
  have hleft := (hafter.tail (.resumes hq hx)).tail (.leaves hq)
  rcases hq with ⟨rfl, rfl⟩ | hin
  · exact hleft
  · exact hleft.tail (.ends (.inl ⟨rfl, rfl⟩) hin)

/-- A domain node begins with its own entity. -/
theorem Part.later_of_takesUp {scene : Scene} {place : Place} {m : Mapping} {mappingGraph? : Option String}
    {node : Location} {position : Nat}
    (h : ((Part.domain scene place m mappingGraph? node position).interior s).TakesUp y) :
    ((Part.domain scene place m mappingGraph? node position).interior s).Later
      (Resolution.ofDomain scene place m node position s).state y.state := by
  obtain ⟨q, u, x, hq, hx, hbefore, -⟩ := h.exists_own
  rcases hq with ⟨rfl, rfl⟩ | hin
  · obtain ⟨hresolves, -⟩ := hx
    cases hresolves
    exact hbefore
  obtain ⟨parts, t, hopened, hentered⟩ := id hin
  rcases openDomain_ok hopened with ⟨-, rfl, -⟩ | ⟨hguard, -⟩
  · cases hentered
  have hdomain : (Part.domain scene place m mappingGraph? node position).Takes s
    (.ofDomain scene place m node position s) := ⟨.domain, hguard⟩
  have hx₀ := Stretch.TakesUp.own (S := (Part.domain scene place m mappingGraph? node position).interior s)
    (.inl ⟨rfl, rfl⟩) hdomain
  refine .trans ?_ hbefore
  exact ((hx₀.later.tail (.resumes (.inl ⟨rfl, rfl⟩) hdomain)).tail
    (.enters (.inl ⟨rfl, rfl⟩) hin)).tail (.takes hin hx)

/-! ## Looking for entities in a run -/

/-- The entity of a domain node or of a range, also of one that is merged, if it is taken up. -/
def Part.taken? (p : Part) (s : RunState) : Option Resolution :=
  if p.Passes s then
    match p with
    | .domain scene place m _ node position => some (.ofDomain scene place m node position s)
    | .link scene place _ _ id _ l =>
      if l.target.isMerge then
        (s.contexts.get id).resolved?.map fun r =>
          .merging scene place id l.range.target.entity r.value (s.contexts.get id).node
            (s.contexts.get id).position s.countLink
      else none
    | .range l parent _ node position => some (.ofRange l parent node position s)
    | _ => none
  else none

theorem Part.takes_of_taken? (h : p.taken? s = some x) : p.Takes s x := by
  unfold taken? at h
  split at h
  next hpass =>
    refine ⟨?_, hpass⟩
    cases p with
    | domain =>
      cases h
      exact .domain
    | link =>
      dsimp only at h
      split at h
      next hmerge =>
        obtain ⟨r, hr, rfl⟩ := Option.map_eq_some_iff.1 h
        exact .merge hmerge hr
      next => cases h
    | range =>
      cases h
      exact .range
    | _ => cases h
  next => cases h

end Run

namespace Engine

open Crosswalk.Run

variable {engine : Engine} {seed : List UInt8} {document : Xml.Document} {p : Part} {s t : RunState}
  {y : Resolution}

/-- A whole run. -/
def course (engine : Engine) (seed : List UInt8) (document : Xml.Document) : Stretch where
  enters := engine.Enters seed document
  within := engine.Enters seed document
  within_of_enters := id
  enters_of_inside := by
    rintro p q s u h ⟨parts, t, hopened, hq⟩
    exact Entered.within h hopened hq

/-- A state of a run comes after another one, or is the same. -/
abbrev Later (engine : Engine) (seed : List UInt8) (document : Xml.Document) : RunState → RunState → Prop :=
  (engine.course seed document).Later

theorem later_of_enters (h : engine.Enters seed document p s) :
    engine.Later seed document (engine.start seed) s := by
  obtain ⟨q, v, hleads, ⟨rfl, rfl⟩ | hin⟩ := Entered.outermost h
  · exact Stretch.later_of_leads (fun _ _ => Leads.entered) hleads
  · have hq : engine.Enters seed document q v := hleads.entered
    have hbefore := Stretch.later_of_leads (S := engine.course seed document) (fun _ _ => Leads.entered) hleads
    exact (hbefore.tail (.opens hq)).tail (.enters hq hin)

theorem later_final_of_enters (h : engine.Enters seed document p s) :
    engine.Later seed document (after p.guarded s) (engine.final seed document) := by
  rw [final_eq]
  obtain ⟨q, v, hleads, ⟨rfl, rfl⟩ | hin⟩ := Entered.outermost h
  · exact Stretch.later_runAll_of_leads (fun _ _ => Leads.entered) hleads
  · have hq : engine.Enters seed document q v := hleads.entered
    have hafter := Stretch.later_runAll_of_leads (S := engine.course seed document)
      (fun _ _ => Leads.entered) hleads
    exact hafter.head (.ends hq hin)

theorem later_final_of_takesUp (h : (engine.course seed document).TakesUp y) :
    engine.Later seed document (after y.run y.state) (engine.final seed document) := by
  obtain ⟨p, s, x, hp, hx, -, hafter⟩ := h.exists_own
  exact ((hafter.tail (.resumes hp hx)).tail (.leaves hp)).trans (later_final_of_enters hp)

/-- The last state of a run comes after all others. -/
theorem later_final (h : engine.Later seed document (engine.start seed) s) :
    engine.Later seed document s (engine.final seed document) := by
  have hleft {p : Part} {s : RunState} (hp : engine.Enters seed document p s) :
      engine.Later seed document (after p.opening s) (engine.final seed document) :=
    (later_final_of_enters hp).head (.leaves hp)
  have hvalues {x : Resolution} (hx : (engine.course seed document).TakesUp x) :
      engine.Later seed document x.state (engine.final seed document) :=
    hx.later.trans (later_final_of_takesUp hx)
  cases h with
  | refl =>
    rw [final_eq]
    exact Stretch.later_runAll fun _ _ => Leads.entered
  | tail _ step =>
    cases step with
    | opens hp => exact hleft hp
    | leaves hp => exact later_final_of_enters hp
    | enters hp hq =>
      have hin := (engine.course seed document).enters_of_inside hp hq
      exact (hleft hin).head (.opens hin)
    | ends hp _ => exact later_final_of_enters hp
    | takes hp hx => exact hvalues (.own hp hx)
    | resumes hp _ => exact hleft hp
    | values hx typed => exact (later_final_of_takesUp hx).head (.completes hx typed)
    | completes hx _ => exact later_final_of_takesUp hx
    | attaches hx typed hy => exact hvalues (.attached hx typed hy)
    | belongs hx _ _ => exact later_final_of_takesUp hx
    | follows _ hy _ _ => exact hvalues hy

/-- Whether a part that is entered is a domain node, and entities that satisfy some tests are taken up
there. -/
def takesUpAll (tests : List (Resolution → Bool)) : Part × RunState → Bool
  | (.domain scene place m mappingGraph? node position, s) =>
    let domain := Part.domain scene place m mappingGraph? node position
    match outcome domain.opening s with
    | (.ok parts, t) => tests.all fun test =>
      ((domain, s) :: visits 12 parts t).any fun (q, u) => (q.taken? u).any test
    | _ => false
  | _ => false

theorem exists_of_takesUpAll {n : Nat} {tests : List (Resolution → Bool)}
    (h : (visits n (engine.parts document) (engine.start seed)).any (takesUpAll tests) = true) :
    ∃ scene place m mappingGraph? node position s₀,
      let domain := Part.domain scene place m mappingGraph? node position
      engine.Enters seed document domain s₀ ∧
        ∀ test ∈ tests, ∃ x, (domain.interior s₀).TakesUp x ∧ test x = true := by
  obtain ⟨⟨p, s₀⟩, hmem, htests⟩ := List.any_eq_true.1 h
  cases p with
  | domain scene place m mappingGraph? node position =>
    refine ⟨scene, place, m, mappingGraph?, node, position, s₀, entered_of_mem_visits hmem,
      fun test htest => ?_⟩
    rw [takesUpAll] at htests
    split at htests
    next parts t hopened =>
      obtain ⟨⟨q, u⟩, hq, hx⟩ := List.any_eq_true.1 (List.all_eq_true.1 htests test htest)
      obtain ⟨x, hx, hpassed⟩ := Option.any_eq_true _ _ |>.1 hx
      refine ⟨x, .own ?_ (Part.takes_of_taken? hx), hpassed⟩
      rcases List.mem_cons.1 hq with hq | hq
      · exact .inl (Prod.mk.inj hq)
      · exact .inr ⟨parts, t, hopened, entered_of_mem_visits hq⟩
    next => cases htests
  | _ => cases htests

end Engine

end Crosswalk
