import Crosswalk.Mapping.Layout
import Crosswalk.Proofs.Annotations
import Crosswalk.Proofs.Results

/-!
# Reading annotated mappings

What is read of a document is told by a table: of every kind of element, which of the elements inside it are
read and as what, and whether its own text is. The readers of the layout follow the table, each in its own
order and with faults of its own. They go from element to element, and so does a reader of the same document
with notes written into it: both find the same elements, and the same fault if there is one. The only thing
they can read differently is a text, which ends for them at the first note inside it.

So every reader has one statement about it: an element and its counterpart are read with the same fault, or
with results that are the same just if the texts that the table names are.
-/

namespace Crosswalk

namespace Layout

open Crosswalk.Xml (Content Corresponds pairs pairsNamed)

/-! ## What is read -/

/-- What an element is read as. Of most of them only parts are read, of a `text` only its own text. -/
inductive Kind where
  | mappings | mappingGroup | mapping | domain | graphHolder | graph | link | path | range
  | sourceRelation | targetRelation | target | entity | additional | generator | block | condition
  | policy | spec | text

/-- Which of the elements inside another one are read as a part of it: all, those of one local name, the first
of these, or those of them that no later one replaces because it is written with the same name. -/
inductive Selection where
  | any
  | named (name : String)
  | first (name : String)
  | latest (name : String)

def latestPairs : List (Content × Content) → List (Content × Content)
  | [] => []
  | z :: zs =>
    if zs.any fun w => optional? w.1 "name" == optional? z.1 "name" then latestPairs zs
    else z :: latestPairs zs

@[simp] def Selection.pairs (c d : Content) : Selection → List (Content × Content)
  | any => Xml.pairs c d
  | named name => pairsNamed c d name
  | first name => (pairsNamed c d name).take 1
  | latest name => latestPairs (pairsNamed c d name)

/-- The parts of an element and what they are read as. The parts of a condition depend on its local name. -/
@[simp] def Kind.parts (localName : String) : Kind → List (Selection × Kind)
  | mappings => [(.named "mappings", mappingGroup)]
  | mappingGroup => [(.named "mapping", mapping)]
  | mapping => [(.first "domain", domain), (.named "link", link)]
  | domain => [(.first "source_node", text), (.first "target_node", target),
      (.first "target_node", graphHolder)]
  | graphHolder => [(.first "named_graph", graph)]
  | graph => [(.first "instance_generator", generator)]
  | link => [(.first "path", path), (.first "range", range)]
  | path => [(.first "source_relation", sourceRelation), (.first "target_relation", targetRelation)]
  | range => [(.first "source_node", text), (.first "target_node", target)]
  | sourceRelation => [(.named "relation", text), (.named "node", text)]
  | targetRelation => [(.named "relationship", text), (.named "entity", entity), (.named "if", block)]
  | target => [(.named "entity", entity), (.named "if", block)]
  | entity => [(.named "type", text), (.named "instance_generator", generator),
      (.named "label_generator", generator), (.named "additional", additional)]
  | additional => [(.first "relationship", text), (.first "entity", entity)]
  | generator => [(.named "arg", text)]
  | block => [(.any, condition)]
  | condition =>
    match localName with
    | "and" | "or" => [(.named "if", block)]
    | "not" => [(.first "if", block)]
    | _ => []
  | text => []
  | policy => [(.latest "generator", spec)]
  | spec => [(.first "pattern", text)]

/-- Whether the text of the element itself is read. -/
@[simp] def Kind.readsText (localName : String) : Kind → Bool
  | text => true
  | condition => ["exists", "equals", "broader", "narrower", "exact_match"].contains localName
  | _ => false

/-- The texts that are read of an element, its own or those of its parts, are the same in its counterpart. -/
inductive KeepsTexts : Kind → Content → Content → Prop
  | intro {kind : Kind} {c d : Content} (htext : kind.readsText c.localName = true → textOf c = textOf d)
      (hparts : ∀ part ∈ kind.parts c.localName, ∀ z ∈ part.1.pairs c d, KeepsTexts part.2 z.1 z.2) :
    KeepsTexts kind c d

/-- All elements start with the same texts as their counterparts. -/
inductive KeepsLeadingTexts : Content → Content → Prop
  | intro {c d : Content} (htext : c.leadingText = d.leadingText)
      (hin : ∀ z ∈ pairs c d, KeepsLeadingTexts z.1 z.2) : KeepsLeadingTexts c d

/-- An element and its counterpart are read with the same fault, or with results that differ just if the texts
that are read do. -/
def Tracks {α : Type} (kind : Kind) (read : Content → Except LayoutFault α) (c d : Content) : Prop :=
  SameIff (KeepsTexts kind c d) (read c) (read d)

variable {c d : Content}

theorem keepsTexts_iff (kind : Kind) : KeepsTexts kind c d ↔
    (kind.readsText c.localName = true → textOf c = textOf d) ∧
      ∀ part ∈ kind.parts c.localName, ∀ z ∈ part.1.pairs c d, KeepsTexts part.2 z.1 z.2 :=
  ⟨fun ⟨htext, hparts⟩ => ⟨htext, hparts⟩, fun h => .intro h.1 h.2⟩

@[simp] theorem keepsTexts_text : KeepsTexts .text c d ↔ textOf c = textOf d := by
  rw [keepsTexts_iff .text]
  simp

theorem latestPairs_subset (zs : List (Content × Content)) : latestPairs zs ⊆ zs := by
  induction zs with
  | nil => exact List.Subset.refl _
  | cons z zs ih =>
    rw [latestPairs]
    split
    · exact List.subset_cons_of_subset z ih
    · exact List.cons_subset_cons z ih

theorem Selection.pairs_subset (s : Selection) : s.pairs c d ⊆ Xml.pairs c d := by
  cases s with
  | any => exact List.Subset.refl _
  | named name => exact List.filter_subset_self _
  | first name => exact fun z hz => List.mem_of_mem_filter (List.mem_of_mem_take hz)
  | latest name => exact fun z hz => List.mem_of_mem_filter (latestPairs_subset _ hz)

/-- What elements start with is all that is read of their texts: where no note has touched it, nothing that is
read has changed. -/
theorem KeepsLeadingTexts.keepsTexts (h : KeepsLeadingTexts c d) (kind : Kind) : KeepsTexts kind c d := by
  induction h generalizing kind with
  | @intro c d htext _ ih =>
    refine .intro (fun _ => ?_) fun part _ z hz => ih z (part.1.pairs_subset hz) part.2
    rw [textOf, textOf, htext]

/-! ## Attributes and children -/

theorem optional?_eq (h : Corresponds c d) (key : String) : optional? d key = optional? c key := by
  rw [optional?, optional?, h.plainAttribute?_eq]

theorem flag_eq (h : Corresponds c d) (key : String) : flag d key = flag c key := by
  rw [flag, flag, h.plainAttribute?_eq]

theorem required_eq (h : Corresponds c d) (key : String) : required d key = required c key := by
  rw [required, required, optional?_eq h, h.localName_eq]

/-- A child that is asked for is the first one of its name, on both sides. -/
theorem child_agree (h : Corresponds c d) (name : String) :
    Agree (fun a b => Corresponds a b ∧ (pairsNamed c d name).take 1 = [(a, b)])
      (child c name) (child d name) := by
  rw [child, child, h.elementsNamed_left, h.elementsNamed_right, h.localName_eq]
  rcases hzs : pairsNamed c d name with _ | ⟨z, zs⟩
  · exact .error _
  · exact .ok ⟨h.of_mem_pairsNamed (hzs ▸ List.mem_cons_self), rfl⟩

theorem child_bind_sameIff {α : Type} {read : Content → Except LayoutFault α}
    {P : Content × Content → Prop} (h : Corresponds c d) (name : String)
    (hread : ∀ z ∈ pairs c d, SameIff (P z) (read z.1) (read z.2)) :
    SameIff (∀ z ∈ (pairsNamed c d name).take 1, P z) (child c name >>= read) (child d name >>= read) := by
  refine (child_agree h name).bind fun a b hab => ?_
  have hmem : (a, b) ∈ pairsNamed c d name := List.mem_of_mem_take (hab.2 ▸ List.mem_cons_self)
  refine SameIff.congr (hread _ (List.mem_of_mem_filter hmem)) ?_
  rw [hab.2, List.forall_mem_singleton]

/-! ## Generators -/

theorem readArgument_tracks (h : Corresponds c d) :
    Tracks .text readArgument c d := by
  rw [Tracks, readArgument, readArgument, required_eq h, h.plainAttribute?_eq, h.plainAttribute?_eq]
  refine (Agree.refl _).bind fun name _ hname => ?_
  subst hname
  dsimp only
  split
  · exact .ok (by simp)
  · exact .error _

theorem readGenerator_tracks (h : Corresponds c d) :
    Tracks .generator readGenerator c d := by
  rw [Tracks, readGenerator, readGenerator, required_eq h, h.elementsNamed_left, h.elementsNamed_right]
  refine (Agree.refl _).bind fun name _ hname => ?_
  subst hname
  refine (SameIff.mapM fun z hz => readArgument_tracks (h.of_mem_pairsNamed hz)).bind ?_
  refine fun arguments arguments' harguments => .ok ?_
  rw [keepsTexts_iff .generator]
  simp [harguments.2]

/-! ## Conditions -/

theorem readOnly_eq (cs : List Content) : readOnly cs =
    match cs.filter Content.isElement with
    | [] => .error .emptyCondition
    | [c] => readCondition c
    | _ => .error .severalConditions := by
  induction cs with
  | nil => rfl
  | cons c rest ih =>
    rw [readOnly]
    by_cases hc : c.isElement = true
    · rw [if_pos hc, List.filter_cons_of_pos hc]
      rcases hrest : rest.filter Content.isElement with _ | ⟨e, es⟩
      · rw [if_neg]
        simpa using hrest
      · rw [if_pos]
        have he : e ∈ rest.filter Content.isElement := hrest ▸ List.mem_cons_self
        exact List.any_eq_true.2 ⟨e, List.mem_filter.1 he⟩
    · rw [if_neg hc, List.filter_cons_of_neg hc, ih]

theorem readBlocks_eq (cs : List Content) :
    readBlocks cs = (cs.filter (·.isNamed "if")).mapM readBlock := by
  induction cs with
  | nil => rfl
  | cons c rest ih =>
    rw [readBlocks]
    by_cases hc : c.isNamed "if" = true
    · rw [if_pos hc, List.filter_cons_of_pos (p := (Content.isNamed · "if")) hc, List.mapM_cons, ih]
      rfl
    · rw [if_neg hc, List.filter_cons_of_neg (p := (Content.isNamed · "if")) hc, ih]

theorem readFirstBlock_eq (h : c.localName = "not") :
    readFirstBlock c.children = child c "if" >>= readBlock := by
  rw [child, Content.elementsNamed, h]
  induction c.children with
  | nil => rfl
  | cons c rest ih =>
    rw [readFirstBlock]
    by_cases hc : c.isNamed "if" = true
    · rw [if_pos hc, List.filter_cons_of_pos (p := (Content.isNamed · "if")) hc]
      rfl
    · rw [if_neg hc, List.filter_cons_of_neg (p := (Content.isNamed · "if")) hc, ih]

/-- Of the blocks of an element as many are read as of those of its counterpart, and the same ones just if their
texts are. -/
theorem readBlocks_agree (h : Corresponds c d)
    (hblocks : ∀ z ∈ pairsNamed c d "if", Tracks .block readBlock z.1 z.2) :
    Agree (fun as bs => as.length = bs.length ∧
        (as = bs ↔ ∀ z ∈ pairsNamed c d "if", KeepsTexts .block z.1 z.2))
      (readBlocks c.children) (readBlocks d.children) := by
  rw [readBlocks_eq, readBlocks_eq]
  change Agree _ ((c.elementsNamed "if").mapM readBlock) ((d.elementsNamed "if").mapM readBlock)
  rw [h.elementsNamed_left, h.elementsNamed_right]
  exact SameIff.mapM hblocks

theorem readBlock_tracks_of (h : Corresponds c d)
    (hin : ∀ z ∈ pairs c d, Tracks .condition readCondition z.1 z.2) :
    Tracks .block readBlock c d := by
  have hc : readBlock c = readOnly c.children := by
    cases h
    rfl
  have hd : readBlock d = readOnly d.children := by
    cases h
    rfl
  rw [Tracks, hc, hd, readOnly_eq, readOnly_eq]
  change Agree _ (match c.elements with | [] => _ | [c] => _ | _ => _)
    (match d.elements with | [] => _ | [c] => _ | _ => _)
  rw [h.elements_left, h.elements_right]
  rcases hzs : pairs c d with _ | ⟨⟨x, y⟩, _ | ⟨w, zs⟩⟩
  · exact .error _
  · refine (hin (x, y) (hzs ▸ List.mem_cons_self)).mono fun a b hab => ?_
    rw [hab, keepsTexts_iff .block]
    simp [hzs]
  · exact .error _

theorem readCondition_eq (hc : c.isElement = true) : readCondition c =
    match c.localName with
    | "exists" => .ok (.exists (textOf c))
    | "equals" => (required c "value").map (.equals (textOf c))
    | "broader" => (required c "value").map (.broader (textOf c))
    | "narrower" => (required c "value").map (.narrower (textOf c))
    | "exact_match" => (required c "value").map (.exactMatch (textOf c))
    | "and" => (readBlocks c.children).map .all
    | "or" => (readBlocks c.children).map .any
    | "not" => (readFirstBlock c.children).map .not
    | other => .error (.unknownCondition other) := by
  cases c with
  | element name bindings attributes inner =>
    rw [readCondition]
    rfl
  | _ => cases hc

theorem readCondition_tracks_of (h : Corresponds c d)
    (hin : ∀ z ∈ pairs c d, Tracks .block readBlock z.1 z.2) :
    Tracks .condition readCondition c d := by
  have hcompared {make : String → String → Condition}
      (hmake : ∀ s t value, make s value = make t value ↔ s = t) :
      SameIff (textOf c = textOf d) ((required c "value").map (make (textOf c)))
        ((required d "value").map (make (textOf d))) := by
    rw [required_eq h]
    refine (Agree.refl _).map fun value _ hvalue => ?_
    rw [← hvalue]
    exact hmake _ _ value
  have hblocks := readBlocks_agree h fun z hz => hin z (List.mem_of_mem_filter hz)
  have hfirst (hname : c.localName = "not") :
      SameIff (∀ z ∈ (pairsNamed c d "if").take 1, KeepsTexts .block z.1 z.2)
        (readFirstBlock c.children) (readFirstBlock d.children) := by
    rw [readFirstBlock_eq hname, readFirstBlock_eq (h.localName_eq.trans hname)]
    exact child_bind_sameIff h "if" hin
  rw [Tracks, readCondition_eq h.isElement_left, readCondition_eq h.isElement_right, h.localName_eq,
    keepsTexts_iff .condition]
  split
  case h_1 hname => exact .ok (by simp [hname])
  case h_2 hname | h_3 hname | h_4 hname | h_5 hname =>
    refine (hcompared ?_).congr ?_
    · simp
    · simp [hname]
  case h_6 hname | h_7 hname =>
    refine hblocks.map fun as bs hab => ?_
    simp [hname, hab.2]
  case h_8 hname =>
    refine (hfirst hname).map fun a b hab => ?_
    simp [hname, hab]
  case h_9 => exact .error _

/-- Conditions and blocks hold one another, so that the induction is about both. -/
theorem readConditions_tracks (h : Corresponds c d) :
    Tracks .condition readCondition c d ∧
      Tracks .block readBlock c d := by
  refine h.induction (P := fun c d => Tracks .condition readCondition c d ∧ Tracks .block readBlock c d)
    fun c d h hin => ?_
  exact ⟨readCondition_tracks_of h fun z hz => (hin z hz).2, readBlock_tracks_of h fun z hz => (hin z hz).1⟩

/-- Of one block its condition is taken and of several all together. As many blocks stand on both sides, so that
the one is not taken for the other. -/
theorem readGuard_sameIff (h : Corresponds c d) :
    SameIff (∀ z ∈ pairsNamed c d "if", KeepsTexts .block z.1 z.2) (readGuard c) (readGuard d) := by
  refine (readBlocks_agree h fun z hz => (readConditions_tracks (h.of_mem_pairsNamed hz)).2).bind ?_
  rintro as bs ⟨hlength, heq⟩
  rw [← heq]
  match as, bs, hlength with
  | [], [], _ => exact .ok (by simp)
  | [_], [_], _ => exact .ok (by simp)
  | _ :: _ :: _, _ :: _ :: _, _ => exact .ok (by simp)

/-! ## Entities -/

def readAttached (c : Content) : Except LayoutFault (Attached Entity) := do
  let relationship ← child c "relationship"
  let attached ← child c "entity" >>= readEntity
  .ok ⟨textOf relationship, attached⟩

/-- What one element adds to an entity. -/
def readPart (entity : Entity) (c : Content) : Except LayoutFault Entity :=
  match c.localName with
  | "type" => .ok { entity with types := entity.types ++ [textOf c] }
  | "instance_generator" =>
    if entity.generator?.isSome then .error .severalGenerators
    else do
      let call ← readGenerator c
      .ok { entity with generator? := some call }
  | "label_generator" => do
    let call ← readGenerator c
    .ok { entity with labels := entity.labels ++ [call] }
  | "additional" => do
    let attached ← readAttached c
    .ok { entity with additionals := entity.additionals ++ [attached] }
  | other => .error (.misplaced other "entity")

theorem readFirstEntity_eq (cs : List Content) (owner : String) :
    readFirstEntity owner cs = match (cs.filter (·.isNamed "entity")).head? with
      | some c => readEntity c
      | none => .error (.missingChild owner "entity") := by
  induction cs with
  | nil => rfl
  | cons c rest ih =>
    rw [readFirstEntity]
    by_cases hc : c.isNamed "entity" = true
    · rw [if_pos hc, List.filter_cons_of_pos (p := (Content.isNamed · "entity")) hc]
      rfl
    · rw [if_neg hc, List.filter_cons_of_neg (p := (Content.isNamed · "entity")) hc, ih]

theorem readOwned_eq (hc : c.isElement = true) : readOwned c = child c "entity" >>= readEntity := by
  cases c with
  | element name bindings attributes inner =>
    rw [readOwned, readFirstEntity_eq, child]
    change _ = (match (inner.filter (·.isNamed "entity")).head? with | some _ => _ | none => _) >>= _
    cases (inner.filter (·.isNamed "entity")).head? <;> rfl
  | _ => cases hc

theorem readParts_eq (cs : List Content) (entity : Entity) :
    readParts entity cs = (cs.filter Content.isElement).foldlM readPart entity := by
  induction cs generalizing entity with
  | nil => rfl
  | cons c rest ih =>
    rw [readParts]
    by_cases hc : c.isElement = true
    · rw [List.filter_cons_of_pos hc, List.foldlM_cons, readPart, if_neg (by simp [hc]), readOwned_eq hc]
      generalize c.localName = name
      split
      · exact ih _
      · split
        · rfl
        · cases readGenerator c with
          | error e => rfl
          | ok call => exact ih _
      · cases readGenerator c with
        | error e => rfl
        | ok call => exact ih _
      · rw [readAttached]
        cases child c "relationship" with
        | error e => rfl
        | ok relationship =>
          cases child c "entity" >>= readEntity with
          | error e => rfl
          | ok attached => exact ih _
      · simp [bind, Except.bind]
    · rw [if_pos (by simpa using hc), List.filter_cons_of_neg hc, ih]

theorem readEntity_eq (hc : c.isElement = true) : readEntity c =
    c.elements.foldlM readPart { Entity.blank with
      variableName? := optional? c "variable", globalName? := optional? c "global_variable" } := by
  cases c with
  | element name bindings attributes inner =>
    rw [readEntity, readParts_eq]
    rfl
  | _ => cases hc

/-- What is kept of one element inside an entity. -/
def KeepsPart (z : Content × Content) : Prop :=
  (z.1.localName = "type" → textOf z.1 = textOf z.2) ∧
    (z.1.localName = "instance_generator" → KeepsTexts .generator z.1 z.2) ∧
    (z.1.localName = "label_generator" → KeepsTexts .generator z.1 z.2) ∧
    (z.1.localName = "additional" → KeepsTexts .additional z.1 z.2)

theorem keepsTexts_entity (h : Corresponds c d) :
    KeepsTexts .entity c d ↔ ∀ z ∈ pairs c d, KeepsPart z := by
  rw [keepsTexts_iff .entity]
  simp [h.forall_pairsNamed, KeepsPart, forall_and, -Prod.forall]

theorem readPart_agree {e e' : Entity} (he : e.generator?.isSome = e'.generator?.isSome)
    (h : Corresponds c d)
    (hattached : Tracks .additional readAttached c d) :
    Agree (fun x y => x.generator?.isSome = y.generator?.isSome ∧ (x = y ↔ e = e' ∧ KeepsPart (c, d)))
      (readPart e c) (readPart e' d) := by
  obtain ⟨types, generator?, labels, additionals, variableName?, globalName?⟩ := e
  obtain ⟨types', generator?', labels', additionals', variableName?', globalName?'⟩ := e'
  rw [readPart, readPart, h.localName_eq, KeepsPart]
  dsimp only at he ⊢
  split
  case h_1 hname =>
    refine .ok ⟨he, ?_⟩
    simp only [hname, Entity.mk.injEq]
    simp [and_assoc, and_comm, and_left_comm]
  case h_2 hname =>
    rw [he]
    split
    · exact .error _
    next hnone =>
      refine (readGenerator_tracks h).bind fun call call' hcall => .ok ⟨rfl, ?_⟩
      rw [Bool.not_eq_true, Option.isSome_eq_false_iff, Option.isNone_iff_eq_none] at hnone
      rw [hnone, Option.isSome_none, Option.isSome_eq_false_iff, Option.isNone_iff_eq_none] at he
      simp [hname, hcall, hnone, he, and_assoc, and_comm]
  case h_3 hname =>
    refine (readGenerator_tracks h).bind fun call call' hcall => .ok ⟨he, ?_⟩
    simp [hname, hcall, and_assoc, and_comm, and_left_comm]
  case h_4 hname =>
    refine hattached.bind fun attached attached' hattached => .ok ⟨he, ?_⟩
    simp [hname, hattached, and_assoc, and_comm, and_left_comm]
  case h_5 => exact .error _

theorem readAttached_tracks_of (h : Corresponds c d)
    (hin : ∀ z ∈ pairs c d, Tracks .entity readEntity z.1 z.2) :
    Tracks .additional readAttached c d := by
  refine (child_agree h "relationship").bind fun node node' hnode => ?_
  refine (child_bind_sameIff h "entity" hin).bind fun entity entity' hentity => .ok ?_
  rw [keepsTexts_iff .additional]
  simp [hnode.2, hentity]

theorem readEntity_tracks_of (h : Corresponds c d)
    (hin : ∀ z ∈ pairs c d, Tracks .additional readAttached z.1 z.2) :
    Tracks .entity readEntity c d := by
  rw [Tracks, readEntity_eq h.isElement_left, readEntity_eq h.isElement_right, optional?_eq h, optional?_eq h,
    h.elements_left, h.elements_right, keepsTexts_entity h]
  refine (Agree.foldlM (fun e e' he z hz => readPart_agree he (h.of_mem_pairs hz) (hin z hz)) rfl).mono ?_
  rintro x y ⟨-, hxy⟩
  simpa using hxy

/-- Entities and what is attached to them hold one another as well. -/
theorem readEntities_tracks (h : Corresponds c d) :
    Tracks .entity readEntity c d ∧
      Tracks .additional readAttached c d := by
  refine h.induction (P := fun c d => Tracks .entity readEntity c d ∧ Tracks .additional readAttached c d)
    fun c d h hin => ?_
  exact ⟨readEntity_tracks_of h fun z hz => (hin z hz).2, readAttached_tracks_of h fun z hz => (hin z hz).1⟩

theorem readEntity_tracks (h : Corresponds c d) :
    Tracks .entity readEntity c d :=
  (readEntities_tracks h).1

theorem readTarget_tracks (h : Corresponds c d) :
    Tracks .target readTarget c d := by
  rw [Tracks, readTarget, readTarget, h.elementsNamed_left, h.elementsNamed_right, keepsTexts_iff .target]
  rcases hzs : pairsNamed c d "entity" with _ | ⟨⟨a, b⟩, _ | ⟨w, zs⟩⟩
  · exact .error _
  · refine (readEntity_tracks (h.of_mem_pairsNamed (hzs ▸ List.mem_cons_self))).bind fun e e' he => ?_
    refine (readGuard_sameIff h).bind fun condition? condition?' hcondition => .ok ?_
    simp [hzs, he, hcondition]
  · exact .error _

/-! ## Links and mappings -/

def readSourceStep (r : SourceRelation) (c : Content) : Except LayoutFault SourceRelation :=
  match c.localName with
  | "relation" => .ok { r with relations := r.relations ++ [textOf c] }
  | "node" => .ok { r with nodes := r.nodes ++ [textOf c] }
  | other => .error (.misplaced other "source_relation")

theorem readSourceSteps_eq (cs : List Content) (r : SourceRelation) :
    readSourceSteps r cs = cs.foldlM readSourceStep r := by
  induction cs generalizing r with
  | nil => rfl
  | cons c rest ih =>
    rw [readSourceSteps, List.foldlM_cons, readSourceStep]
    generalize c.localName = name
    split
    · exact ih _
    · exact ih _
    · simp [bind, Except.bind]

theorem readSourceStep_agree {r r' : SourceRelation} (hr : r.relations.length = r'.relations.length)
    (h : Corresponds c d) :
    Agree (fun x y => x.relations.length = y.relations.length ∧ (x = y ↔ r = r' ∧
        (c.localName = "relation" → textOf c = textOf d) ∧ (c.localName = "node" → textOf c = textOf d)))
      (readSourceStep r c) (readSourceStep r' d) := by
  obtain ⟨relations, nodes⟩ := r
  obtain ⟨relations', nodes'⟩ := r'
  rw [readSourceStep, readSourceStep, h.localName_eq]
  dsimp only at hr ⊢
  split
  case h_1 hname =>
    refine .ok ⟨by simp [hr], ?_⟩
    simp [hname, and_assoc, and_comm, and_left_comm]
  case h_2 hname =>
    refine .ok ⟨hr, ?_⟩
    simp [hname, and_assoc]
  case h_3 => exact .error _

theorem isEmpty_eq {α : Type} {as bs : List α} (h : as.length = bs.length) : as.isEmpty = bs.isEmpty := by
  rw [Bool.eq_iff_iff, List.isEmpty_iff_length_eq_zero, List.isEmpty_iff_length_eq_zero, h]

theorem readSourceRelation_tracks (h : Corresponds c d) :
    Tracks .sourceRelation readSourceRelation c d := by
  rw [Tracks, readSourceRelation, readSourceRelation, readSourceSteps_eq, readSourceSteps_eq,
    h.elements_left, h.elements_right, keepsTexts_iff .sourceRelation]
  refine (Agree.foldlM (fun r r' hr z hz => readSourceStep_agree hr (h.of_mem_pairs hz)) rfl).bind ?_
  rintro x y ⟨hlength, heq⟩
  rw [isEmpty_eq hlength]
  split
  · exact .error _
  · refine .ok (heq.trans ?_)
    simp [h.forall_pairsNamed, forall_and, -Prod.forall]

def readTargetStep (r : TargetRelation) (c : Content) : Except LayoutFault TargetRelation :=
  match c.localName with
  | "relationship" => .ok { r with relationships := r.relationships ++ [textOf c] }
  | "entity" => do
    let entity ← readEntity c
    .ok { r with entities := r.entities ++ [entity] }
  | "if" => .ok r
  | other => .error (.misplaced other "target_relation")

theorem readTargetSteps_eq (cs : List Content) (r : TargetRelation) :
    readTargetSteps r cs = cs.foldlM readTargetStep r := by
  induction cs generalizing r with
  | nil => rfl
  | cons c rest ih =>
    rw [readTargetSteps, List.foldlM_cons, readTargetStep]
    generalize c.localName = name
    split
    · exact ih _
    · cases readEntity c with
      | error e => rfl
      | ok entity => exact ih _
    · exact ih _
    · simp [bind, Except.bind]

theorem readTargetStep_agree {r r' : TargetRelation}
    (hr : r.relationships.length = r'.relationships.length) (h : Corresponds c d) :
    Agree (fun x y => x.relationships.length = y.relationships.length ∧ (x = y ↔ r = r' ∧
        (c.localName = "relationship" → textOf c = textOf d) ∧
        (c.localName = "entity" → KeepsTexts .entity c d)))
      (readTargetStep r c) (readTargetStep r' d) := by
  obtain ⟨condition?, relationships, entities⟩ := r
  obtain ⟨condition?', relationships', entities'⟩ := r'
  rw [readTargetStep, readTargetStep, h.localName_eq]
  dsimp only at hr ⊢
  split
  case h_1 hname =>
    refine .ok ⟨by simp [hr], ?_⟩
    simp [hname, and_assoc, and_comm, and_left_comm]
  case h_2 hname =>
    refine (readEntity_tracks h).bind fun entity entity' hentity => .ok ⟨hr, ?_⟩
    simp [hname, hentity, and_assoc]
  case h_3 hname => exact .ok ⟨hr, by simp [hname]⟩
  case h_4 => exact .error _

theorem readTargetRelation_tracks (h : Corresponds c d) :
    Tracks .targetRelation readTargetRelation c d := by
  rw [Tracks, readTargetRelation, readTargetRelation, h.elements_left, h.elements_right,
    keepsTexts_iff .targetRelation]
  refine (readGuard_sameIff h).bind fun condition? condition?' hcondition => ?_
  rw [readTargetSteps_eq, readTargetSteps_eq]
  refine (Agree.foldlM (a := ⟨condition?, [], []⟩) (b := ⟨condition?', [], []⟩)
    (fun r r' hr z hz => readTargetStep_agree hr (h.of_mem_pairs hz)) rfl).bind ?_
  rintro x y ⟨hlength, heq⟩
  rw [isEmpty_eq hlength]
  split
  · exact .error _
  · refine .ok (heq.trans ?_)
    simp [← hcondition, h.forall_pairsNamed, forall_and, and_comm,
      and_assoc, -Prod.forall]

theorem readLink_tracks (h : Corresponds c d) : Tracks .link readLink c d := by
  rw [Tracks, readLink, readLink, optional?_eq h, flag_eq h]
  refine (child_agree h "path").bind fun path path' hpath => ?_
  refine (child_agree h "range").bind fun range range' hrange => ?_
  refine (child_agree hpath.1 "source_relation").bind fun sources sources' hsources => ?_
  refine (readSourceRelation_tracks hsources.1).bind fun source source' hsource => ?_
  refine (child_agree hpath.1 "target_relation").bind fun targets targets' htargets => ?_
  refine (readTargetRelation_tracks htargets.1).bind fun target target' htarget => ?_
  refine (child_agree hrange.1 "source_node").bind fun node node' hnode => ?_
  refine (child_agree hrange.1 "target_node").bind fun ends ends' hends => ?_
  refine (readTarget_tracks hends.1).bind fun rangeTarget rangeTarget' hrangeTarget => .ok ?_
  rw [keepsTexts_iff .link]
  simp [hpath.2, hrange.2, keepsTexts_iff .path, keepsTexts_iff .range, hsources.2, htargets.2, hnode.2,
    hends.2, hsource, htarget, hrangeTarget, and_assoc]

theorem readGraphGenerator_tracks (h : Corresponds c d) :
    Tracks .graphHolder readGraphGenerator c d := by
  rw [Tracks, readGraphGenerator, readGraphGenerator, h.elementsNamed_left, h.elementsNamed_right,
    keepsTexts_iff .graphHolder]
  rcases hzs : pairsNamed c d "named_graph" with _ | ⟨⟨a, b⟩, zs⟩
  · exact .ok (by simp [hzs])
  · have hab : Corresponds a b := h.of_mem_pairsNamed (hzs ▸ List.mem_cons_self)
    refine (child_agree hab "instance_generator").bind fun node node' hnode => ?_
    refine (readGenerator_tracks hnode.1).bind fun call call' hcall => .ok ?_
    simp [hzs, keepsTexts_iff .graph, hnode.2, hcall]

theorem readDomain_tracks (h : Corresponds c d) :
    Tracks .domain readDomain c d := by
  refine (child_agree h "target_node").bind fun ends ends' hends => ?_
  refine (child_agree h "source_node").bind fun node node' hnode => ?_
  refine (readTarget_tracks hends.1).bind fun target target' htarget => ?_
  refine (readGraphGenerator_tracks hends.1).bind fun graph? graph?' hgraph => .ok ?_
  rw [keepsTexts_iff .domain]
  simp [hends.2, hnode.2, htarget, hgraph]

theorem readMapping_tracks (h : Corresponds c d) :
    Tracks .mapping readMapping c d := by
  rw [Tracks, readMapping, readMapping, optional?_eq h, flag_eq h, h.elementsNamed_left, h.elementsNamed_right]
  refine (child_agree h "domain").bind fun node node' hnode => ?_
  refine (readDomain_tracks hnode.1).bind fun domain domain' hdomain => ?_
  refine (SameIff.mapM fun z hz => readLink_tracks (h.of_mem_pairsNamed hz)).bind ?_
  refine fun links links' hlinks => .ok ?_
  rw [keepsTexts_iff .mapping]
  simp [hnode.2, hdomain, hlinks.2]

theorem readNamespace_sameIff (h : Corresponds c d) : SameIff True (readNamespace c) (readNamespace d) := by
  rw [readNamespace, readNamespace, required_eq h, h.plainAttribute?_eq]
  exact (Agree.refl _).mono fun _ _ heq => iff_true_intro heq

/-- The elements of a group, from all places where it stands. -/
def groupedPairs (c d : Content) (group name : String) : List (Content × Content) :=
  (pairsNamed c d group).flatMap fun z => pairsNamed z.1 z.2 name

theorem grouped_left (h : Corresponds c d) (group name : String) :
    grouped c group name = (groupedPairs c d group name).map Prod.fst := by
  rw [grouped, groupedPairs, h.elementsNamed_left, List.flatMap_map, List.map_flatMap]
  refine List.flatMap_congr fun z hz => (h.of_mem_pairsNamed hz).elementsNamed_left name

theorem grouped_right (h : Corresponds c d) (group name : String) :
    grouped d group name = (groupedPairs c d group name).map Prod.snd := by
  rw [grouped, groupedPairs, h.elementsNamed_right, List.flatMap_map, List.map_flatMap]
  refine List.flatMap_congr fun z hz => (h.of_mem_pairsNamed hz).elementsNamed_right name

theorem of_mem_groupedPairs (h : Corresponds c d) {group name : String} {z : Content × Content}
    (hz : z ∈ groupedPairs c d group name) : Corresponds z.1 z.2 := by
  obtain ⟨w, hw, hz⟩ := List.mem_flatMap.1 hz
  exact (h.of_mem_pairsNamed hw).of_mem_pairsNamed hz

theorem readMappings_tracks (h : Corresponds c d) :
    Tracks .mappings readMappings c d := by
  rw [Tracks, readMappings, readMappings, h.localName_eq]
  split
  · exact .error _
  · rw [grouped_left h, grouped_right h, grouped_left h, grouped_right h]
    refine (SameIff.mapM fun z hz => readNamespace_sameIff (of_mem_groupedPairs h hz)).bind ?_
    refine fun declared declared' hdeclared => ?_
    refine (SameIff.mapM fun z hz => readMapping_tracks (of_mem_groupedPairs h hz)).bind ?_
    refine fun mappings mappings' hmappings => .ok ?_
    rw [hdeclared.2.2 fun _ _ => trivial, MappingDocument.mk.injEq, and_iff_right rfl, hmappings.2,
      groupedPairs, List.forall_mem_flatMap, keepsTexts_iff .mappings]
    simp [keepsTexts_iff .mappingGroup, -Prod.forall]

end Layout

end Crosswalk
