import Crosswalk.Proofs.Openings
import Crosswalk.Proofs.WholeRuns

/-!
# A part that is dropped writes nothing

Everything that an opening writes it writes in one batch, after all that could have gone wrong: only
the batch itself can still be rejected, and then nothing of it is placed. So the graph at which a part is
reported is the graph at which the part was entered, and whatever is in the graph was written by parts
that were not reported.
-/

namespace Crosswalk.Run

open Crosswalk.Xml (Location)

variable {α β : Type} {m : Run α} {f : α → Run β} {s t : RunState}

/-- Nothing was reported. -/
def SameDiagnostics (s t : RunState) : Prop :=
  t.diagnostics = s.diagnostics

instance : IsPreorder RunState SameDiagnostics where
  refl _ := rfl
  trans _ _ _ h h' := h'.trans h

theorem allows_sameDiagnostics : Allows SameDiagnostics where
  reads h := h.diagnostics_eq
  counted _ _ := rfl
  written _ _ _ := rfl

/-- No opening reports anything. -/
theorem diagnostics_opening (p : Part) (s : RunState) :
    (after p.opening s).diagnostics = s.diagnostics :=
  (opening_allOrNothing allows_sameDiagnostics (fun _ _ _ => rfl) s).moves

theorem graph_opening_of_error {p : Part} {e : Fault}
    (h : outcome p.opening s = (.error e, t)) : t.graph = s.graph :=
  (opening_allOrNothing allows_sameDiagnostics (fun _ _ _ => rfl) s).graph_eq e t h

/-! ## What can be dropped

Of the links only those that merge resolve something themselves. The others select nodes, where all
that can go wrong is a fault of the mapping. -/

/-- A step never fails so that only a part is dropped. -/
def NeverDrops (m : Run α) : Prop :=
  ∀ s cause t, outcome m s ≠ (.error (.drop cause), t)

namespace NeverDrops

theorem pure (a : α) : NeverDrops (Pure.pure a : Run α) := by
  rintro s cause t ⟨⟩

theorem modify (g : RunState → RunState) : NeverDrops (modify g) := by
  rintro s cause t ⟨⟩

theorem ofSetup (r : Except SetupError α) : NeverDrops (ofSetup r) := by
  intro s cause t h
  rw [outcome_ofSetup] at h
  cases r <;> cases h

theorem bind (hm : NeverDrops m) (hf : ∀ a, NeverDrops (f a)) : NeverDrops (m >>= f) := by
  intro s cause t h
  rcases bind_error.1 h with h | ⟨a, u, -, h⟩
  · exact hm s cause t h
  · exact hf a u cause t h

theorem get_bind {f : RunState → Run β} (hf : ∀ s, NeverDrops (f s)) : NeverDrops (get >>= f) :=
  bind (by rintro s cause t ⟨⟩) hf

theorem composes : Composes fun _ m => NeverDrops m :=
  ⟨pure, bind⟩

end NeverDrops

theorem joinedNodes_neverDrops (l : LinkSetting) (domainNode : Location)
    (expression key value : String) :
    NeverDrops (joinedNodes l domainNode expression key value) :=
  .get_bind fun _ => .bind (.ofSetup _) fun _ => .bind (.modify _) fun _ => .pure _

theorem joinRanges_neverDrops (l : LinkSetting) (join : Join) (domainNode : Location) :
    NeverDrops (joinRanges l join domainNode) :=
  NeverDrops.composes.joinRanges (fun _ _ => .ofSetup _) fun leg _ value =>
    joinedNodes_neverDrops l domainNode leg.1 leg.2 value

theorem namedGraph_neverDrops (scene : Scene) (other? name? : Option String) :
    NeverDrops (namedGraph scene other? name?) := by
  cases name? with
  | some name => exact .bind (.ofSetup _) fun _ => .pure _
  | none => exact .pure _

theorem openMapping_neverDrops (scene : Scene) (number : Nat) (m : Mapping) :
    NeverDrops (openMapping scene number m) :=
  .bind (namedGraph_neverDrops scene none m.graph?) fun _ => .bind (.ofSetup _) fun _ =>
    .bind (.modify _) fun _ => .pure _

theorem openFollowed_neverDrops (l : LinkSetting) (domainNode : Location) :
    NeverDrops (openFollowed l domainNode) := by
  rw [openFollowed]
  split
  · exact .bind (.ofSetup _) fun join =>
      .bind (joinRanges_neverDrops l join domainNode) fun _ => .pure _
  · exact .bind (.ofSetup _) fun _ => .pure _

theorem isMerge_of_openLink_drop {scene : Scene} {place : Place} {m : Mapping} {id : Nat}
    {domainGraph? : Option String} {l : Link} {cause : DropCause}
    (h : outcome (openLink scene place m id domainGraph? l) s = (.error (.drop cause), t)) :
    l.target.isMerge := by
  by_contra hmerge
  refine NeverDrops.bind (.modify _) (fun _ => ?_) s cause t h
  refine .bind (namedGraph_neverDrops scene domainGraph? l.graph?) fun g => ?_
  refine .bind (by rintro s cause t ⟨⟩) fun c => ?_
  rw [if_neg hmerge]
  exact openFollowed_neverDrops _ _

/-- Where the parts of a run stand: a domain node at its mapping, everything inside of it at a link. -/
def Part.WellPlaced : Part → Prop
  | .mapping .. => True
  | .domain _ place .. => place.link? = none
  | .link _ place .. => place.link?.isSome
  | .path l .. => l.place.link?.isSome
  | .range l .. => l.place.link?.isSome

theorem Part.WellPlaced.opens {p q : Part} (h : p.WellPlaced) (hq : p.Opens q) : q.WellPlaced := by
  cases hq with
  | domain => rfl
  | link => rfl
  | path => exact h
  | range => exact h

/-- The parts that are dropped one by one: domain nodes, path nodes, range nodes, and the links that
merge. -/
def Part.IsUnit : Part → Prop
  | .mapping .. => False
  | .domain _ place .. => place.link? = none
  | .link _ place _ _ _ _ l => place.link?.isSome ∧ l.target.isMerge
  | .path l .. => l.place.link?.isSome
  | .range l .. => l.place.link?.isSome

theorem isUnit_of_drop {p : Part} (hp : p.WellPlaced) {cause : DropCause}
    (h : outcome p.run s = (.error (.drop cause), t)) : p.IsUnit := by
  have h := opening_drop_of_run h
  cases p with
  | mapping scene number m => exact openMapping_neverDrops scene number m s cause t h
  | domain => exact hp
  | link => exact ⟨hp, isMerge_of_openLink_drop h⟩
  | path => exact hp
  | range => exact hp

theorem wellPlaced_of_enters {engine : Engine} {seed : List UInt8} {document : Xml.Document}
    {p : Part} (h : engine.Enters seed document p s) : p.WellPlaced := by
  refine Entered.property (fun p q hp hq => hp.opens hq) h fun q hq => ?_
  cases q with
  | mapping => trivial
  | _ => exact absurd (Engine.depth_of_mem_parts hq) (by simp [Part.depth])

end Crosswalk.Run

namespace Crosswalk.Engine

open Crosswalk.Run

variable {engine : Engine} {seed : List UInt8} {document : Xml.Document} {p : Part}
  {cause : DropCause} {s t : RunState}

/-! ## Whole runs -/

/-- In the course of a run a part is entered in one state and dropped in another one, for a cause. -/
structure Drops (engine : Engine) (seed : List UInt8) (document : Xml.Document) (p : Part)
    (cause : DropCause) (s t : RunState) : Prop where
  entered : engine.Enters seed document p s
  dropped : outcome p.run s = (.error (.drop cause), t)

namespace Drops

theorem isUnit (h : engine.Drops seed document p cause s t) : p.IsUnit :=
  isUnit_of_drop (wellPlaced_of_enters h.entered) h.dropped

theorem graph_eq (h : engine.Drops seed document p cause s t) : t.graph = s.graph :=
  graph_opening_of_error (opening_drop_of_run h.dropped)

theorem diagnostics_eq (h : engine.Drops seed document p cause s t) :
    t.diagnostics = s.diagnostics :=
  after_eq (opening_drop_of_run h.dropped) ▸ diagnostics_opening p s

end Drops

theorem after_recover (hp : p.IsUnit) (cause : DropCause) (t : RunState) :
    (after (p.recover cause) t).graph = t.graph ∧
      (after (p.recover cause) t).diagnostics = t.diagnostics ++ [p.diagnostic cause] := by
  cases p with
  | mapping => exact hp.elim
  | _ => exact ⟨rfl, rfl⟩

/-- A diagnostic is only there because a part was dropped. -/
theorem exists_drops_of_mem_diagnostics {d : Diagnostic}
    (h : d ∈ (engine.final seed document).diagnostics) :
    ∃ p cause s t, engine.Drops seed document p cause s t ∧ d = p.diagnostic cause := by
  rw [final_eq] at h
  obtain ⟨p, s, hentered, hs, hopened | ⟨cause, t, hdropped, ht, hd⟩⟩ :=
    begins_of_runAll (P := fun s => d ∈ s.diagnostics) (by simp [start, RunState.initial]) h
  · rw [diagnostics_opening] at hopened
    exact absurd hopened hs
  · have hdrops : engine.Drops seed document p cause s t := ⟨hentered, hdropped⟩
    rw [(after_recover hdrops.isUnit cause t).2] at hd
    rcases List.mem_append.1 hd with hd | hd
    · exact absurd hd ht
    · exact ⟨p, cause, s, t, hdrops, List.mem_singleton.1 hd⟩

/-- A statement is only there because the opening of a part wrote it, and that part was not
dropped. -/
theorem exists_enters_of_mem_graph {q : Rdf.Quad} (h : q ∈ (engine.final seed document).graph.quads) :
    ∃ p s parts t, engine.Enters seed document p s ∧ outcome p.opening s = (.ok parts, t) ∧
      q ∉ s.graph.quads ∧ q ∈ t.graph.quads ∧
      ∀ cause u, ¬ engine.Drops seed document p cause s u := by
  rw [final_eq] at h
  obtain ⟨p, s, hentered, hs, hopened | ⟨cause, t, hdropped, ht, hq⟩⟩ :=
    begins_of_runAll (P := fun s => q ∈ s.graph.quads)
      (by simp [start, RunState.initial, Rdf.Graph.empty]) h
  · rcases ho : outcome p.opening s with ⟨e | parts, t⟩
    · rw [after_eq ho, graph_opening_of_error ho] at hopened
      exact absurd hopened hs
    · rw [after_eq ho] at hopened
      refine ⟨p, s, parts, t, hentered, ho, hs, hopened, fun cause u hdrops => ?_⟩
      cases ho.symm.trans (opening_drop_of_run hdrops.dropped)
  · have hdrops : engine.Drops seed document p cause s t := ⟨hentered, hdropped⟩
    rw [(after_recover hdrops.isUnit cause t).1] at hq
    exact absurd hq ht

/-- The graph at which a part of a run is reported is the graph at which the part was entered. Every
diagnostic of a run reports a domain node, a path node, a range node or a link that merges, in this
way; and every statement of a run was written by a part that is not reported. -/
theorem graph_eq_where_diagnosed (engine : Engine) (seed : List UInt8) (document : Xml.Document) :
    (∀ p cause s t, engine.Drops seed document p cause s t →
      p.IsUnit ∧ t.graph = s.graph ∧ (after (p.recover cause) t).graph = s.graph ∧
        (after (p.recover cause) t).diagnostics = s.diagnostics ++ [p.diagnostic cause]) ∧
    (∀ d ∈ (engine.final seed document).diagnostics, ∃ p cause s t,
      engine.Drops seed document p cause s t ∧ d = p.diagnostic cause) ∧
    ∀ q ∈ (engine.final seed document).graph.quads, ∃ p s parts t,
      engine.Enters seed document p s ∧ outcome p.opening s = (.ok parts, t) ∧
        q ∉ s.graph.quads ∧ q ∈ t.graph.quads ∧
        ∀ cause u, ¬ engine.Drops seed document p cause s u := by
  refine ⟨fun p cause s t h => ?_, fun d hd => exists_drops_of_mem_diagnostics hd,
    fun q hq => exists_enters_of_mem_graph hq⟩
  obtain ⟨hgraph, hdiagnostics⟩ := after_recover h.isUnit cause t
  exact ⟨h.isUnit, h.graph_eq, hgraph.trans h.graph_eq, by rw [hdiagnostics, h.diagnostics_eq]⟩

/-- A mapping that gives a person a name and an address, of which `emptyAddress` has no text. -/
def personEngine : Engine :=
  let person : Entity := ⟨["<urn:Person>"], some ⟨"UUID", []⟩, [], [], none, none⟩
  let text : Entity :=
    ⟨["<urn:Text>"], some ⟨"Literal", [⟨"text", .xpath, ".", none⟩]⟩, [], [], none, none⟩
  let link (child : String) : Link :=
    ⟨⟨[child], []⟩, ⟨none, ["<urn:" ++ child ++ ">"], []⟩, ⟨child ++ "/.", ⟨text, none⟩⟩, none, false⟩
  ⟨⟨.builtin, [⟨⟨"/person", ⟨person, none⟩, none⟩, [link "name", link "address"], none, false⟩]⟩,
    .empty, none, { Settings.default with uuidWidth? := some 2 }⟩

def emptyAddress : Xml.Document :=
  let element (name : String) (content : List Xml.Content) : Xml.Content :=
    .element ⟨none, name⟩ [] [] content
  ⟨[element "person" [element "name" [.text "Ada"], element "address" []]]⟩

/-- The name is written; the address is reported and leaves the graph as it was. -/
theorem graph_eq_where_address_diagnosed :
    (personEngine.final [] emptyAddress).graph.size = 2 ∧
      ∃ p cause s t, personEngine.Drops [] emptyAddress p cause s t ∧
        p.diagnostic cause = ⟨⟨1, some 2⟩, "/person[1]/address[1]", .emptyLiteral "Literal"⟩ ∧
        t.graph = s.graph := by
  have hreported : ⟨⟨1, some 2⟩, "/person[1]/address[1]", .emptyLiteral "Literal"⟩ ∈
      (personEngine.final [] emptyAddress).diagnostics := by
    decide +kernel
  obtain ⟨p, cause, s, t, hdrops, hd⟩ :=
    (graph_eq_where_diagnosed personEngine [] emptyAddress).2.1 _ hreported
  obtain ⟨-, hgraph, -⟩ :=
    (graph_eq_where_diagnosed personEngine [] emptyAddress).1 p cause s t hdrops
  exact ⟨by decide +kernel, p, cause, s, t, hdrops, hd.symm, hgraph⟩

end Crosswalk.Engine
