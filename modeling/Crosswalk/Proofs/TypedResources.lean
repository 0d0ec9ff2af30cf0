import Crosswalk.Proofs.ClosedStatements
import Crosswalk.Proofs.WholeRuns

/-!
# Every resource has a type

Whatever the output speaks about has a type there. A batch states the types of the entities that it
describes and speaks of no others, except of those that were written before: a context only counts as
written when a batch with its types was. So a batch is closed over the graph that it is added to, and
a graph that was closed stays closed.
-/

namespace Crosswalk

open Crosswalk.Rdf (Statement)

namespace Run

/-! ## States -/

/-- The graph is closed, what was resolved is described, and the entities of the contexts that count as
written have types in the graph. -/
structure TypedState (s : RunState) : Prop where
  graph : s.graph.AllTyped
  described : ∀ id r, (s.contexts.get id).resolved? = some r → r.IsDescribed
  linked : ∀ id, (s.contexts.get id).linked = true →
    ∃ r, (s.contexts.get id).resolved? = some r ∧
      ∀ text, r.value = .uri text → s.graph.IsTyped text

variable {s t : RunState} {n : Nat}

theorem Reading.described (h : Reading n s t)
    (hs : ∀ id r, (s.contexts.get id).resolved? = some r → r.IsDescribed) :
    ∀ id r, (t.contexts.get id).resolved? = some r → r.IsDescribed := by
  intro id r hr
  cases h with
  | bound =>
    rw [Contexts.resolved?_get_bind] at hr
    exact hs id r hr
  | entered c fresh =>
    rw [Contexts.resolved?_get_push fresh] at hr
    exact hs id r hr
  | resolved other r' late described new =>
    by_cases hid : id = other
    · subst hid
      by_cases hlt : id < s.contexts.size
      · rw [Contexts.get_update_of_lt hlt] at hr
        cases hr
        exact described
      · rw [Contexts.get_of_size_le (by simpa using hlt)] at hr
        cases hr
    · rw [Contexts.get_update_of_ne hid] at hr
      exact hs id r hr
  | _ => exact hs id r hr

theorem TypedState.reads (hs : TypedState s) (h : Reads n s t) : TypedState t where
  graph := by
    rw [h.graph_eq]
    exact hs.graph
  described := by
    induction h with
    | refl => exact hs.described
    | tail _ change ih => exact change.described ih
  linked id hid := by
    rw [h.linked_eq] at hid
    obtain ⟨r, hr, htyped⟩ := hs.linked id hid
    rw [h.graph_eq]
    exact ⟨r, h.extends.resolved id r hr, htyped⟩

/-- What happens inside of a domain node: the state stays typed, and contexts are only added. -/
structure Proceeds (s t : RunState) : Prop where
  typed : TypedState s → TypedState t
  contexts : s.contexts.Extends t.contexts

instance : IsPreorder RunState Proceeds where
  refl s := ⟨id, .refl s.contexts⟩
  trans _ _ _ h h' := ⟨h'.typed ∘ h.typed, h.contexts.trans h'.contexts⟩

theorem Reads.proceeds (h : Reads n s t) : Proceeds s t :=
  ⟨fun hs => hs.reads h, h.extends⟩

theorem Meets.proceeds {α : Type} {m : Run α} {P : α → RunState → Prop}
    (h : Meets (Reads n) P m s) : Meets Proceeds P m s :=
  ⟨h.1.proceeds, h.2⟩

/-! ## Batches -/

/-- A batch is closed, given what is known besides the graph, and the entities of its contexts have
types in the graph or in the batch. -/
structure Fits (known : String → Prop) (s : RunState) (batch : Batch) : Prop where
  closed : Closed known batch.statements
  contexts : ∀ id ∈ batch.contexts, ∃ r, (s.contexts.get id).resolved? = some r ∧
    ∀ text, r.value = .uri text → Covered s.graph.IsTyped batch.statements text

section

variable {known : String → Prop} {batch : Batch}

theorem fits_empty : Fits known s .empty :=
  ⟨closed_nil, by intro id hid; cases hid⟩

/-- Statements about what is known may be added. -/
theorem Fits.append {statements : List Statement} (h : Fits known s batch)
    (hs : ∀ st ∈ statements, st.SpeaksOf (Covered known batch.statements)) :
    Fits known s { batch with statements := batch.statements ++ statements } where
  closed := h.closed.append (closed_of_speaksOf hs)
  contexts id hid := by
    obtain ⟨r, hr, hcovered⟩ := h.contexts id hid
    exact ⟨r, hr, fun text ht => (hcovered text ht).append_left⟩

/-- What was only assumed to be known has turned out to be covered. -/
theorem Fits.of_covered (h : Fits known s batch)
    (hk : ∀ text, known text → Covered s.graph.IsTyped batch.statements text) :
    Fits s.graph.IsTyped s batch :=
  ⟨h.closed.of_covered known hk, h.contexts⟩

/-- The statements of a batch are still there in another, and the entity of a context has a type
there. -/
structure Stages (s : RunState) (id : Nat) (batch batch' : Batch) : Prop where
  kept : ∀ known text, Covered known batch.statements text →
    Covered known batch'.statements text
  covered : ∀ r text, (s.contexts.get id).resolved? = some r → r.value = .uri text →
    Covered s.graph.IsTyped batch'.statements text

/-- What hangs off an entity may be added to any batch that fits. -/
theorem Fits.stage (hs : TypedState s) (h : Fits known s batch) (graph? : Option String)
    (id : Nat) :
    Fits known s (batch.stage s.contexts graph? id) ∧
      Stages s id batch (batch.stage s.contexts graph? id) := by
  rw [Batch.stage]
  split
  next hwritten =>
    refine ⟨h, fun _ _ ht => ht, fun r text hr ht => ?_⟩
    rcases Bool.or_eq_true_iff.1 hwritten with hlinked | hbatch
    · obtain ⟨r', hr', htyped⟩ := hs.linked id hlinked
      cases hr.symm.trans hr'
      exact .inl (htyped text ht)
    · obtain ⟨r', hr', hcovered⟩ := h.contexts id (by simpa using hbatch)
      cases hr.symm.trans hr'
      exact hcovered text ht
  next =>
    rcases hr : (s.contexts.get id).resolved? with _ | r
    · exact ⟨h, fun _ _ ht => ht, by intro r text hr'; cases hr.symm.trans hr'⟩
    have hdescribed : r.IsDescribed := hs.described id r hr
    have hcovered (text : String) (ht : r.value = .uri text) :
        Covered s.graph.IsTyped (batch.statements ++ r.dependents graph?) text :=
      (covered_dependents hdescribed ht).append
    refine ⟨⟨h.closed.append (closed_dependents graph? r hdescribed _), ?_⟩,
      fun _ _ => Covered.append_left, ?_⟩
    · intro other hother
      rcases List.mem_append.1 hother with hother | hother
      · obtain ⟨r', hr', hcovered'⟩ := h.contexts other hother
        exact ⟨r', hr', fun text ht => (hcovered' text ht).append_left⟩
      · cases List.mem_singleton.1 hother
        exact ⟨r, hr, hcovered⟩
    · intro r' text hr' ht
      cases hr.symm.trans hr'
      exact hcovered text ht

theorem Fits.stageAll (hs : TypedState s) (h : Fits known s batch) (graph? : Option String)
    (ids : List Nat) :
    Fits known s (ids.foldl (Batch.stage s.contexts graph?) batch) ∧
      (∀ known text, Covered known batch.statements text →
        Covered known (ids.foldl (Batch.stage s.contexts graph?) batch).statements text) ∧
      ∀ id ∈ ids, Stages s id batch (ids.foldl (Batch.stage s.contexts graph?) batch) := by
  induction ids generalizing batch with
  | nil => exact ⟨h, fun _ _ ht => ht, by simp⟩
  | cons id rest ih =>
    obtain ⟨hfits, hstages⟩ := h.stage hs graph? id
    obtain ⟨hfits', hkept, hrest⟩ := ih hfits
    have hkept' (known : String → Prop) (text : String) (ht : Covered known batch.statements text) :=
      hkept known text (hstages.kept known text ht)
    refine ⟨hfits', hkept', fun other hother => ⟨hkept', fun r text hr ht => ?_⟩⟩
    rcases List.mem_cons.1 hother with rfl | hother
    · exact hkept _ text (hstages.covered r text hr ht)
    · exact (hrest other hother).covered r text hr ht

end

/-- Writing a batch that fits leaves a typed state. -/
theorem commit_meets {batch : Batch} (h : TypedState s → Fits s.graph.IsTyped s batch) :
    Meets Proceeds (fun _ _ => True) (commit batch) s := by
  refine ⟨?_, fun _ _ _ => trivial⟩
  rw [after, outcome_commit]
  rcases hadd : s.graph.add batch.statements with e | graph
  · exact refl s
  · refine ⟨fun hs => ⟨hs.graph.add hadd (h hs).closed, fun id r hr => ?_, fun id hid => ?_⟩,
      s.contexts.extends_markLinked batch.contexts⟩
    · rw [Contexts.resolved?_get_markLinked] at hr
      exact hs.described id r hr
    · rw [Contexts.resolved?_get_markLinked]
      rcases Contexts.linked_of_markLinked hid with hid | hid
      · obtain ⟨r, hr, htyped⟩ := hs.linked id hid
        exact ⟨r, hr, fun text ht => Rdf.Graph.isTyped_of_covered hadd (.inl (htyped text ht))⟩
      · obtain ⟨r, hr, hcovered⟩ := (h hs).contexts id hid
        exact ⟨r, hr, fun text ht => Rdf.Graph.isTyped_of_covered hadd (hcovered text ht)⟩

theorem link_meets (id : Nat) (graph? : Option String) (s : RunState) :
    Meets Proceeds (fun _ _ => True) (link id graph?) s := by
  have h := commit_meets (s := s) fun hs =>
    (fits_empty.stage hs graph? id).1
  rw [Meets, after, outcome_link]
  exact h

/-! ## Chains -/

/-- A chain speaks of its subject and of the values that it goes through. -/
theorem speaksOf_chain {known : String → Prop} (graph? : Option String) {subject : String}
    {links : List (String × Option Value)} (hs : known subject)
    (hlinks : ∀ p ∈ links, ∀ value, p.2 = some value → known value.text) :
    (∀ st ∈ (chain graph? subject links).1, st.SpeaksOf known) ∧
      known (chain graph? subject links).2 := by
  induction links generalizing subject with
  | nil =>
    rw [chain]
    exact ⟨by simp, hs⟩
  | cons p rest ih =>
    have hrest : ∀ p ∈ rest, ∀ value, p.2 = some value → known value.text :=
      fun p hp => hlinks p (List.mem_cons_of_mem _ hp)
    obtain ⟨property, _ | value⟩ := p
    · rw [chain]
      exact ih hs hrest
    · have hvalue : known value.text := hlinks _ List.mem_cons_self value rfl
      obtain ⟨hstatements, hlast⟩ := ih hvalue hrest
      rw [chain]
      refine ⟨fun st hst => ?_, hlast⟩
      rcases List.mem_cons.1 hst with rfl | hst
      · exact ⟨hs, by rintro text rfl _; exact hvalue⟩
      · exact hstatements st hst

theorem speaksOf_chainStatements {known : String → Prop} {graph? : Option String}
    {subject : String} {properties : List String} {values : List (Option Value)} {range : Value}
    (hs : known subject) (hvalues : ∀ value, some value ∈ values → known value.text)
    (hrange : ∀ text, range = .uri text → known text) :
    ∀ st ∈ chainStatements graph? subject properties values range, st.SpeaksOf known := by
  intro st hst
  have hlinks : ∀ p ∈ properties.zip values, ∀ value, p.2 = some value → known value.text := by
    rintro ⟨property, _⟩ hp value rfl
    exact hvalues value (List.of_mem_zip hp).2
  obtain ⟨hstatements, hlast⟩ := speaksOf_chain graph? hs hlinks
  rw [chainStatements] at hst
  dsimp only at hst
  split at hst
  · rcases List.mem_append.1 hst with hst | hst
    · exact hstatements st hst
    · cases List.mem_singleton.1 hst
      exact ⟨hlast, fun text ht _ => hrange text ht⟩
  · exact hstatements st hst

/-- What a range writes fits: the domain, the intermediate entities and what leads from one to the
next, and then the range, which the last statement has already named. -/
theorem fits_range (hs : TypedState s) {domain range : Nat} {ids : List Nat} {r : Resolved}
    {domainValue : Value} (hdomain : s.contexts.HasResource domain)
    (hvalue : (s.contexts.get domain).resolved?.map (·.value) = some domainValue)
    (hids : ∀ id ∈ ids, s.contexts.HasResource id)
    (hr : (s.contexts.get range).resolved? = some r) (domainGraph? linkGraph? : Option String)
    (properties : List String) :
    let batch := ids.foldl (Batch.stage s.contexts linkGraph?)
      (Batch.empty.stage s.contexts domainGraph? domain)
    let statements := chainStatements linkGraph? domainValue.text properties
      (ids.map fun id => (s.contexts.get id).resolved?.map (·.value)) r.value
    Fits s.graph.IsTyped s (Batch.stage s.contexts linkGraph?
      { batch with statements := batch.statements ++ statements } range) := by
  intro batch statements
  obtain ⟨d, hd, -, huri⟩ := hdomain
  rw [hd] at hvalue
  cases hvalue
  let known := fun text => s.graph.IsTyped text ∨ r.value = .uri text
  have hknown {statements : List Statement} {text : String}
      (h : Covered s.graph.IsTyped statements text) : Covered known statements text :=
    h.imp_left .inl
  have hempty : Fits known s .empty := fits_empty
  obtain ⟨hfits₁, hstages₁⟩ := hempty.stage hs domainGraph? domain
  obtain ⟨hfits₂, hkept₂, hstages₂⟩ := hfits₁.stageAll hs linkGraph? ids
  have hsubject : Covered s.graph.IsTyped batch.statements d.value.text :=
    hkept₂ _ _ (hstages₁.covered d _ hd (Value.eq_uri_of_isUri huri))
  have hvalues : ∀ value, some value ∈ ids.map (fun id => (s.contexts.get id).resolved?.map (·.value)) →
      Covered s.graph.IsTyped batch.statements value.text := by
    intro value hvalue
    obtain ⟨id, hid, hmap⟩ := List.mem_map.1 hvalue
    obtain ⟨r', hr', -, huri'⟩ := hids id hid
    rw [hr'] at hmap
    cases hmap
    exact (hstages₂ id hid).covered r' _ hr' (Value.eq_uri_of_isUri huri')
  have hspeaks : ∀ st ∈ statements, st.SpeaksOf (Covered known batch.statements) :=
    speaksOf_chainStatements (hknown hsubject) (fun value hv => hknown (hvalues value hv))
      fun text ht => .inl (.inr ht)
  obtain ⟨hfits₃, hstages₃⟩ := (hfits₂.append hspeaks).stage hs linkGraph? range
  refine hfits₃.of_covered fun text ht => ?_
  rcases ht with ht | ht
  · exact .inl ht
  · exact hstages₃.covered r text hr ht

/-! ## The openings -/

/-- Counting and reporting changes nothing that matters here. -/
theorem proceeds_reported (s : RunState) (counters : Counters) (diagnostics : List Diagnostic) :
    Proceeds s { s with counters := counters, diagnostics := diagnostics } :=
  ⟨fun hs => ⟨hs.graph, hs.described, hs.linked⟩, .refl _⟩

theorem count_proceeds (g : Counters → Counters) : Moves Proceeds (count g) :=
  fun s => proceeds_reported s _ s.diagnostics

theorem enter_proceeds {c : Context} (h : c.IsFresh) (s : RunState) :
    Meets Proceeds (fun id t => id < t.contexts.size ∧ (t.contexts.get id).resolved? = none ∧
        (t.contexts.get id).node = c.node)
      (enter c) s :=
  (enter_meets h s (n := 0)).proceeds.mono fun _ _ _ h => h.2

theorem linkRange_proceeds {l : LinkSetting} {ids : List Nat} (hdomain : s.contexts.HasResource l.domain)
    (hids : ∀ id ∈ ids, s.contexts.HasResource id) (path : Nat) (node : Xml.Location)
    (position : Nat) :
    Meets Proceeds (fun _ _ => True) (linkRange l path ids node position) s := by
  have hrange := Context.isFresh_fresh .range node position (some path)
  refine .bind (enter_proceeds hrange s) fun range t₁ h₁ ⟨hlive, hnew, _⟩ => ?_
  refine .bind (.discards _ _ _ t₁) fun _ t _ ht => ?_
  subst ht
  split
  · exact .pure trivial
  refine .bind (resolveWith_new_meets _ none hlive hnew).proceeds fun r t₂ h₂ ⟨hr, _⟩ => ?_
  have hcontexts : s.contexts.Extends t₂.contexts := h₁.contexts.trans h₂.contexts
  refine .bind (.of_ok (outcome_resolvedValue? l.domain t₂)) fun value? t₃ _ ⟨hvalue, ht⟩ => ?_
  subst ht
  split
  · exact .pure trivial
  next domainValue =>
    refine .bind (.ofSetup _ t₃) fun properties t _ ⟨_, ht⟩ => ?_
    subst ht
    refine .bind (.of_ok (outcome_stage .empty l.domain _ t)) fun batch₁ t _ ⟨hbatch₁, ht⟩ => ?_
    subst ht hbatch₁
    refine .bind (.of_ok (outcome_stageAll _ _ ids t)) fun batch₂ t _ ⟨hbatch₂, ht⟩ => ?_
    subst ht hbatch₂
    refine .bind (.of_ok (outcome_resolvedValues ids t)) fun values t _ ⟨hvalues, ht⟩ => ?_
    subst ht hvalues
    refine .bind (.of_ok (outcome_stage _ range _ t)) fun batch₃ t _ ⟨hbatch₃, ht⟩ => ?_
    subst ht hbatch₃
    refine .bind (commit_meets fun hs => ?_) fun _ t _ _ => ?_
    · exact fits_range hs (hdomain.extends hcontexts) hvalue.symm
        (fun id hid => (hids id hid).extends hcontexts) hr _ _ properties
    · exact ⟨proceeds_reported t _ _, fun _ _ _ => trivial⟩

theorem linkMerge_proceeds (l : LinkSetting) (node : Xml.Location) (position : Nat)
    (s : RunState) : Meets Proceeds (fun _ _ => True) (linkMerge l node position) s := by
  have hpath := Context.isFresh_fresh .path node position (some l.domain)
  refine .bind (enter_proceeds hpath s) fun path t₁ _ _ => ?_
  refine .bind (.discards _ _ _ t₁) fun _ t _ ht => ?_
  subst ht
  split
  · exact .pure trivial
  have hrange := Context.isFresh_fresh .range node position (some path)
  refine .bind (enter_proceeds hrange t) fun range t₂ _ ⟨hlive, hnew, _⟩ => ?_
  refine .bind (.discards _ _ _ t₂) fun _ u _ hu => ?_
  subst hu
  split
  · exact .pure trivial
  refine .bind (.of_ok (outcome_resolvedValue? l.domain u)) fun identity? v _ ⟨_, hv⟩ => ?_
  subst hv
  split
  · exact .pure trivial
  refine .bind (resolveWith_new_meets _ _ hlive hnew).proceeds fun _ w _ _ => ?_
  refine .bind (link_meets range l.linkGraph? w) fun _ t _ _ => ?_
  exact ⟨proceeds_reported t _ _, fun _ _ _ => trivial⟩

/-- What has to hold of a part when it is entered: the entities that it builds on are resources, and
a link starts from the context of its domain node. -/
def TypedEntry : Part → RunState → Prop
  | .mapping .., s => TypedState s
  | .domain .., s => TypedState s
  | .link _ _ _ node id _ _, s =>
    TypedState s ∧ s.contexts.HasResource id ∧ (s.contexts.get id).node = node
  | .path l .., s => TypedState s ∧ s.contexts.HasResource l.domain
  | .range l _ ids .., s =>
    TypedState s ∧ s.contexts.HasResource l.domain ∧ ∀ id ∈ ids, s.contexts.HasResource id

/-- A state that is typed stays so; inside of a domain node contexts are only added, too. -/
structure TypedChange (depth : Nat) (s t : RunState) : Prop where
  typed : TypedState s → TypedState t
  contexts : depth ≤ 2 → s.contexts.Extends t.contexts

instance (depth : Nat) : IsPreorder RunState (TypedChange depth) where
  refl s := ⟨id, fun _ => .refl s.contexts⟩
  trans _ _ _ h h' := ⟨h'.typed ∘ h.typed, fun hd => (h.contexts hd).trans (h'.contexts hd)⟩

theorem Meets.typedChange {α : Type} {m : Run α} {P : α → RunState → Prop}
    (h : Meets Proceeds P m s) (depth : Nat) : Meets (TypedChange depth) P m s :=
  ⟨⟨h.1.typed, fun _ => h.1.contexts⟩, h.2⟩

theorem openMapping_typed (hs : TypedState s) (scene : Scene) (number : Nat) (m : Mapping) :
    Meets (TypedChange 4) (fun parts t => ∀ q ∈ parts, TypedEntry q t)
      (openMapping scene number m) s := by
  refine .bind ((namedGraph_moves scene none m.graph?).meets s) fun g t₁ h₁ _ => ?_
  refine .bind (.ofSetup _ t₁) fun nodes t _ ⟨_, ht⟩ => ?_
  subst ht
  have ht : TypedState t := h₁.typed hs
  refine .bind (((count_proceeds _).meets t).typedChange 4) fun _ t₂ h₂ _ => .pure fun q hq => ?_
  obtain ⟨_, _, _, rfl⟩ := Part.mem_domains hq
  exact h₂.typed ht

theorem TypedState.without_contexts (hs : TypedState s) :
    TypedState { s with contexts := .empty } where
  graph := hs.graph
  described id r hr := by
    rw [Contexts.get_of_size_le (Nat.zero_le id)] at hr
    cases hr
  linked id hid := by
    rw [Contexts.get_of_size_le (Nat.zero_le id)] at hid
    cases hid

theorem openDomain_typed (hs : TypedState s) (scene : Scene) (place : Place) (m : Mapping)
    (mappingGraph? : Option String) (node : Xml.Location) (position : Nat) :
    Meets (TypedChange 3) (fun parts t => ∀ q ∈ parts, TypedEntry q t)
      (openDomain scene place m mappingGraph? node position) s := by
  have hcleared : TypedChange 3 s { s with contexts := .empty } :=
    ⟨fun hs => hs.without_contexts, by omega⟩
  refine .bind ⟨hcleared, fun _ _ h => h⟩ fun _ t₁ h₁ _ => Meets.typedChange ?_ 3
  have ht₁ : TypedState t₁ := h₁.typed hs
  have hfresh := Context.isFresh_fresh .domain node position none
  refine .bind (enter_proceeds hfresh t₁) fun id t₂ h₂ ⟨hlive, hnew, hnode⟩ => ?_
  refine .bind (.discards _ _ _ t₂) fun _ t _ ht => ?_
  subst ht
  split
  · exact .bind ((count_proceeds _).meets t) fun _ _ _ _ => .pure (by simp)
  refine .bind (resolveWith_new_meets _ none hlive hnew).proceeds fun r t₃ h₃ ⟨hr, hdescribed⟩ => ?_
  split
  next huri =>
    refine .bind ((domainGraph_reads _ _ _ _ _).meets t₃).proceeds fun g t₄ h₄ _ => ?_
    refine .bind (link_meets id g t₄) fun _ t₅ h₅ _ => .pure fun q hq => ?_
    obtain ⟨_, _, _, -, rfl⟩ := Part.mem_links hq
    have hresource : t₃.contexts.HasResource id := ⟨r, hr, hdescribed, huri⟩
    have hlater := h₃.contexts.trans (h₄.contexts.trans h₅.contexts)
    exact ⟨h₅.typed (h₄.typed (h₃.typed (h₂.typed ht₁))),
      hresource.extends (h₄.contexts.trans h₅.contexts), (hlater.node id hlive).trans hnode⟩
  next => exact .fault rfl

theorem openLink_typed {id : Nat} (hs : TypedState s) (hdomain : s.contexts.HasResource id)
    (scene : Scene) (place : Place) (m : Mapping) (domainGraph? : Option String) (l : Link) :
    Meets Proceeds (fun parts t => ∀ q ∈ parts, TypedEntry q t)
      (openLink scene place m id domainGraph? l) s := by
  refine .bind ((count_proceeds _).meets s) fun _ t₁ h₁ _ => ?_
  refine .bind ((namedGraph_moves _ _ _).meets t₁) fun g t₂ h₂ _ => ?_
  refine .bind (.of_ok (outcome_context id t₂)) fun c t _ ⟨_, ht⟩ => ?_
  subst ht
  split
  · exact .bind (linkMerge_proceeds _ _ _ t) fun _ _ _ _ => .pure (by simp)
  · have hjoins (s : RunState) (joins : JoinCache) : Proceeds s { s with joins := joins } :=
      ⟨fun hs => ⟨hs.graph, hs.described, hs.linked⟩, .refl _⟩
    refine ((openFollowed_moves (fun _ => hjoins) _).meets t).mono fun parts t₃ h₃ hopened q hq => ?_
    obtain ⟨_, _, rfl⟩ := Part.eq_path_of_openFollowed hopened hq
    exact ⟨h₃.typed (h₂.typed (h₁.typed hs)),
      hdomain.extends (h₁.contexts.trans (h₂.contexts.trans h₃.contexts))⟩

theorem openPath_typed {l : LinkSetting} (hs : TypedState s)
    (hdomain : s.contexts.HasResource l.domain) (joined : Bool) (node : Xml.Location)
    (position : Nat) :
    Meets Proceeds (fun parts t => ∀ q ∈ parts, TypedEntry q t)
      (openPath l joined node position) s := by
  have hpath := Context.isFresh_fresh .path node position (some l.domain)
  refine .bind (enter_proceeds hpath s) fun path t₁ h₁ _ => ?_
  refine .bind (.discards _ _ _ t₁) fun _ t _ ht => ?_
  subst ht
  split
  · exact .pure (by simp)
  refine .bind (intermediates_meets l path node position 0 _ t).proceeds fun ids t₂ h₂ hids => ?_
  have hentry {k : Nat} {nodes : List Xml.Location} :
      ∀ q ∈ Part.ranges l path ids k nodes, TypedEntry q t₂ := by
    intro q hq
    obtain ⟨_, _, _, rfl⟩ := Part.mem_ranges hq
    exact ⟨h₂.typed (h₁.typed hs), hdomain.extends (h₁.contexts.trans h₂.contexts), hids⟩
  split
  · exact .pure hentry
  · refine .bind (.ofSetup _ t₂) fun nodes t _ ⟨_, ht⟩ => ?_
    subst ht
    exact .pure hentry

/-! ## Whole runs -/

theorem TypedEntry.typedState {p : Part} (h : TypedEntry p s) : TypedState s := by
  cases p with
  | mapping => exact h
  | domain => exact h
  | link => exact h.1
  | path => exact h.1
  | range => exact h.1

theorem opening_typed {p : Part} (h : TypedEntry p s) :
    Meets (TypedChange p.depth) (fun parts t => ∀ q ∈ parts, TypedEntry q t) p.opening s := by
  cases p with
  | mapping scene number m => exact openMapping_typed h scene number m
  | domain scene place m mappingGraph? node position =>
    exact openDomain_typed h scene place m mappingGraph? node position
  | link scene place m node id domainGraph? l =>
    exact (openLink_typed h.1 h.2.1 scene place m domainGraph? l).typedChange 2
  | path l joined node position => exact (openPath_typed h.1 h.2 joined node position).typedChange 1
  | range l path ids node position =>
    refine .bind ((linkRange_proceeds h.2.1 h.2.2 path node position).typedChange 0) ?_
    exact fun _ _ _ _ => .pure (by simp)

/-- What parts build on is still there after the parts before them. -/
theorem TypedEntry.kept {p q : Part} (hdepth : p.depth = q.depth) (h : TypedEntry p s)
    (hst : TypedChange q.depth s t) : TypedEntry p t := by
  have ht : TypedState t := hst.typed h.typedState
  rw [← hdepth] at hst
  cases p with
  | mapping => exact ht
  | domain => exact ht
  | link =>
    obtain ⟨-, hresource, hnode⟩ := h
    have hcontexts := hst.contexts (by simp [Part.depth])
    exact ⟨ht, hresource.extends hcontexts, (hcontexts.node _ hresource.lt_size).trans hnode⟩
  | path => exact ⟨ht, h.2.extends (hst.contexts (by simp [Part.depth]))⟩
  | range =>
    have hcontexts := hst.contexts (by simp [Part.depth])
    exact ⟨ht, h.2.1.extends hcontexts, fun id hid => (h.2.2 id hid).extends hcontexts⟩

/-- What keeps every resource typed. -/
def typedOutline : Outline where
  entry := TypedEntry
  change := TypedChange
  preorder := inferInstance
  widen h := ⟨h.typed, fun hd => h.contexts (by omega)⟩
  opening := opening_typed
  reported _ s counters diagnostics :=
    ⟨(proceeds_reported s counters diagnostics).typed,
      fun _ => (proceeds_reported s counters diagnostics).contexts⟩
  kept := TypedEntry.kept

theorem typedState_initial (uuids : UuidSource) : TypedState (.initial uuids) where
  graph q hq := by cases hq
  described id r hr := by
    have hnone : (Contexts.empty.get id) = default := Contexts.get_of_size_le (Nat.zero_le id)
    rw [RunState.initial, hnone] at hr
    cases hr
  linked id hid := by
    have hnone : (Contexts.empty.get id) = default := Contexts.get_of_size_le (Nat.zero_le id)
    rw [RunState.initial, hnone] at hid
    cases hid

end Run

namespace Engine

open Run

theorem ready_typed (engine : Engine) (seed : List UInt8) (document : Xml.Document) :
    typedOutline.Ready 4 (engine.parts document) (engine.start seed) := by
  intro p hp
  have hdepth : p.depth = 4 := depth_of_mem_parts hp
  refine ⟨hdepth, ?_⟩
  cases p with
  | mapping => exact typedState_initial _
  | _ => cases hdepth

theorem typedState_final (engine : Engine) (seed : List UInt8) (document : Xml.Document) :
    TypedState (engine.final seed document) := by
  rw [final_eq]
  exact (typedOutline.runAll_change (ready_typed engine seed document)).typed (typedState_initial _)

theorem typedEntry_of_enters {engine : Engine} {seed : List UInt8} {document : Xml.Document}
    {p : Part} {s : RunState} (h : engine.Enters seed document p s) : TypedEntry p s :=
  (typedOutline.entered h (ready_typed engine seed document)).1

/-- Every subject in the output of a run has a type in the output, and so has every resource that is the
object of a statement, unless the statement says that it is the type of something. -/
theorem typed_of_mem_graph {engine : Engine} {seed : List UInt8} {document : Xml.Document}
    {report : Report} (h : engine.execute seed document = .ok report) (q : Rdf.Quad)
    (hq : q ∈ report.graph.quads) :
    (∃ r ∈ report.graph.quads, r.subject = q.subject ∧ r.predicate.text = Rdf.Graph.typeIri) ∧
      ∀ i, q.object = .iri i → q.predicate.text ≠ Rdf.Graph.typeIri →
        ∃ r ∈ report.graph.quads, r.subject = i ∧ r.predicate.text = Rdf.Graph.typeIri := by
  have hgraph := (typedState_final engine seed document).graph
  rw [eq_ofState_of_execute h] at hq ⊢
  obtain ⟨hsubject, hobject⟩ := hgraph q hq
  constructor
  · obtain ⟨r, hr, hs, hp⟩ := hsubject
    exact ⟨r, hr, Rdf.Iri.eq_of_text_eq hs, hp⟩
  · intro i hi hpredicate
    obtain ⟨r, hr, hs, hp⟩ := hobject i hi hpredicate
    exact ⟨r, hr, Rdf.Iri.eq_of_text_eq hs, hp⟩

/-- A mapping that gives a person an address, and the address a town. -/
def addressEngine : Engine :=
  let person : Entity := ⟨["<urn:Person>"], some ⟨"UUID", []⟩, [], [], none, none⟩
  let town : Entity := ⟨["<urn:Town>"], some ⟨"UUID", []⟩, [], [], none, none⟩
  let address : Entity :=
    ⟨["<urn:Address>"], some ⟨"UUID", []⟩, [], [⟨"<urn:town>", town⟩], none, none⟩
  let link : Link :=
    ⟨⟨["address"], []⟩, ⟨none, ["<urn:address>"], []⟩, ⟨"address/.", ⟨address, none⟩⟩, none, false⟩
  ⟨⟨.builtin, [⟨⟨"/person", ⟨person, none⟩, none⟩, [link], none, false⟩]⟩, .empty, none,
    { Settings.default with uuidWidth? := some 2 }⟩

def personWithAddress : Xml.Document :=
  ⟨[.element ⟨none, "person"⟩ [] [] [.element ⟨none, "address"⟩ [] [] []]]⟩

/-- The town that hangs off the address has a type. -/
theorem typed_of_mem_graph_town :
    ∃ report, addressEngine.execute [] personWithAddress = .ok report ∧
      ∃ q ∈ report.graph.quads, q.predicate.text = "urn:town" ∧ ∃ i, q.object = .iri i ∧
        ∃ r ∈ report.graph.quads, r.subject = i ∧ r.predicate.text = Rdf.Graph.typeIri := by
  have htown : (match addressEngine.execute [] personWithAddress with
      | .ok report => report.graph.quads.any fun q =>
        q.predicate.text == "urn:town" && q.object == .iri ⟨"uuid:AC", by decide⟩
      | .error _ => false) = true := by
    decide +kernel
  rcases h : addressEngine.execute [] personWithAddress with e | report
  · rw [h] at htown
    cases htown
  · rw [h] at htown
    obtain ⟨q, hq, htown⟩ := List.any_eq_true.1 htown
    rw [Bool.and_eq_true, beq_iff_eq, beq_iff_eq] at htown
    obtain ⟨hpredicate, hobject⟩ := htown
    have hne : q.predicate.text ≠ Rdf.Graph.typeIri := by
      rw [hpredicate]
      decide
    exact ⟨report, rfl, q, hq, hpredicate, _, hobject,
      (typed_of_mem_graph h q hq).2 _ hobject hne⟩

end Engine

end Crosswalk
