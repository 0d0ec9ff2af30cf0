import Crosswalk.Proofs.WrittenMappings

/-!
# Reading back what was written

Every part of a mapping is read from the element that is written for it, and from nothing else that stands beside
it: the elements around it have other names, and a list is written in the order in which it is read. So a
reader undoes its writer, part by part, from the arguments of a generator up to the whole document.
-/

namespace Crosswalk

open Text (IsTrimmed IsPresent)

namespace Layout

open Crosswalk.Xml (Content)

/-! ## Elements -/

section

variable {name key value text : String} {attributes : List (String × String)} {children : List Content}

@[simp] theorem localName_plain : (plain name attributes children).localName = name := rfl

@[simp] theorem children_plain : (plain name attributes children).children = children := rfl

@[simp] theorem isNamed_plain (other : String) :
    (plain name attributes children).isNamed other = (name == other) := by
  simp [plain, Content.isNamed, Content.name?]

theorem plainAttribute?_plain : (plain name attributes children).plainAttribute? key = attributes.lookup key := by
  rw [Content.plainAttribute?, Content.attribute?, plain, Content.attributes]
  induction attributes with
  | nil => rfl
  | cons entry rest ih =>
    obtain ⟨other, value⟩ := entry
    rw [List.map_cons, List.lookup_cons]
    by_cases hkey : key = other
    · simp [hkey]
    · have hne : other ≠ key := fun h => hkey h.symm
      simp [hne, beq_eq_false_iff_ne.2 hkey, ih, -List.find?_map]

theorem lookup_writeOptional (other : String) (value? : Option String) :
    (writeOptional key value?).lookup other = if other = key then value? else none := by
  cases value? with
  | none => simp [writeOptional]
  | some value =>
    by_cases h : other = key
    · simp [writeOptional, h]
    · simp [writeOptional, List.lookup_cons, beq_eq_false_iff_ne.2 h, h]

theorem lookup_writeFlag (other : String) (raised : Bool) :
    (writeFlag key raised).lookup other = if other = key ∧ raised = true then some "true" else none := by
  cases raised with
  | false => simp [writeFlag]
  | true =>
    by_cases h : other = key
    · simp [writeFlag, h]
    · simp [writeFlag, List.lookup_cons, beq_eq_false_iff_ne.2 h, h]

theorem textOf_plain (h : IsTrimmed text) : textOf (plain name attributes (writeText text)) = text := by
  rw [textOf, Content.leadingText, children_plain, writeText]
  by_cases hempty : text.isEmpty = true
  · rw [if_pos hempty]
    rw [String.isEmpty_iff] at hempty
    exact hempty ▸ h
  · rw [if_neg hempty]
    exact h

theorem textOf_leaf (h : IsTrimmed text) : textOf (leaf name text) = text :=
  textOf_plain h

theorem filter_trim {value? : Option String} (h : ∀ value ∈ value?, IsPresent value) :
    ((value?.map Text.trim).filter fun value => !value.isEmpty) = value? := by
  cases value? with
  | none => rfl
  | some value =>
    obtain ⟨htrim, hne⟩ := h value rfl
    rw [Option.map_some, htrim]
    simp [Option.filter, hne]

theorem optional?_plain {value? : Option String} (hlookup : attributes.lookup key = value?)
    (h : ∀ value ∈ value?, IsPresent value) : optional? (plain name attributes children) key = value? := by
  rw [optional?, plainAttribute?_plain, hlookup, filter_trim h]

theorem required_plain (hlookup : attributes.lookup key = some value) (h : IsPresent value) :
    required (plain name attributes children) key = .ok value := by
  rw [required, optional?_plain hlookup fun _ hvalue => Option.mem_some.1 hvalue ▸ h]

theorem child_plain {c : Content} (h : (children.filter (·.isNamed key)).head? = some c) :
    child (plain name attributes children) key = .ok c := by
  rw [child, Content.elementsNamed, children_plain, h]

end

theorem elements_plain {name : String} {attributes : List (String × String)} {children : List Content}
    (h : ∀ c ∈ children, c.isElement = true) : (plain name attributes children).elements = children :=
  List.filter_eq_self.2 h

/-! ## Generators -/

theorem isTrimmed_name (source : ArgumentSource) : IsTrimmed source.name := by
  cases source <;> decide

theorem readArgument_write {a : Argument} (h : a.IsTidy) : readArgument (writeArgument a) = .ok a := by
  have hname : required (writeArgument a) "name" = .ok a.name := required_plain rfl h.name
  have hkind : ((writeArgument a).plainAttribute? "type").map Text.trim = some a.source.name := by
    rw [writeArgument, plainAttribute?_plain]
    exact congrArg some (isTrimmed_name a.source)
  have hlanguage : ((writeArgument a).plainAttribute? "language").map Text.trim = a.language? := by
    rw [writeArgument, plainAttribute?_plain, List.lookup_append, lookup_writeOptional, if_pos rfl]
    cases hlanguage : a.language? with
    | none => rfl
    | some language => exact congrArg some (h.language language hlanguage)
  have hvalue : textOf (writeArgument a) = a.value := textOf_plain h.value
  rw [readArgument, hname, hkind, hlanguage, hvalue, bind_eq_ok]
  refine ⟨a.name, rfl, ?_⟩
  rw [Option.getD_some]
  dsimp only
  rw [ArgumentSource.ofName?_name]

theorem isNamed_writeArgument (a : Argument) (name : String) : (writeArgument a).isNamed name = ("arg" == name) :=
  isNamed_plain name

theorem readGenerator_write {name : String} {call : GeneratorCall} (h : call.IsTidy) :
    readGenerator (writeGenerator name call) = .ok call := by
  have hname : required (writeGenerator name call) "name" = .ok call.name := required_plain rfl h.name
  have harguments : (writeGenerator name call).elementsNamed "arg" = call.arguments.map writeArgument := by
    simp [Content.elementsNamed, writeGenerator, List.filter_map, Function.comp_def, isNamed_writeArgument]
  rw [readGenerator, hname, harguments]
  change (do let arguments ← (call.arguments.map writeArgument).mapM readArgument; _) = _
  rw [mapM_map_eq_ok fun a ha => readArgument_write (h.arguments a ha)]
  rfl

/-! ## Conditions -/

/-- The `if` element of a condition. -/
def block (c : Condition) : Content :=
  plain "if" [] [writeCondition c]

theorem isNamed_block (c : Condition) (name : String) : (block c).isNamed name = ("if" == name) :=
  isNamed_plain name

theorem writeBlocks_eq (cs : List Condition) : writeBlocks cs = cs.map block := by
  induction cs with
  | nil => rfl
  | cons c rest ih =>
    rw [writeBlocks, ih]
    rfl

theorem isElement_writeCondition (c : Condition) : (writeCondition c).isElement = true := by
  cases c <;> rw [writeCondition] <;> rfl

theorem readBlock_write {c : Condition} (h : readCondition (writeCondition c) = .ok c) :
    readBlock (block c) = .ok c := by
  change readOnly [writeCondition c] = .ok c
  rw [readOnly, if_pos (isElement_writeCondition c)]
  exact h

/-- Blocks are read past whatever else stands beside them. -/
theorem readBlocks_write {cs : List Condition} {others : List Content}
    (h : ∀ c ∈ cs, readCondition (writeCondition c) = .ok c) (hothers : ∀ c ∈ others, c.isNamed "if" = false) :
    readBlocks (writeBlocks cs ++ others) = .ok cs := by
  have hblocks : (cs.map block).filter (·.isNamed "if") = cs.map block := by
    simp [List.filter_map, Function.comp_def, isNamed_block]
  have hnone : others.filter (·.isNamed "if") = [] := by simpa using hothers
  rw [readBlocks_eq, writeBlocks_eq, List.filter_append, hblocks, hnone, List.append_nil]
  exact mapM_map_eq_ok fun c hc => readBlock_write (h c hc)

theorem readCompared_write {name e value : String} {make : String → String → Condition} (he : IsTrimmed e)
    (hvalue : IsPresent value) :
    (required (plain name [("value", value)] (writeText e)) "value").map
      (make (textOf (plain name [("value", value)] (writeText e)))) = .ok (make e value) := by
  rw [required_plain rfl hvalue, textOf_plain he]
  rfl

theorem readCondition_write {c : Condition} (h : c.IsTidy) : readCondition (writeCondition c) = .ok c := by
  induction h with
  | «exists» he =>
    rw [writeCondition, readCondition_eq rfl]
    exact congrArg (fun e => Except.ok (Condition.exists e)) (textOf_leaf he)
  | equals he hvalue | broader he hvalue | narrower he hvalue | exactMatch he hvalue =>
    rw [writeCondition, readCondition_eq rfl]
    exact readCompared_write he hvalue
  | @all cs _ ih | @any cs _ ih =>
    have hblocks : readBlocks (writeBlocks cs ++ []) = .ok cs := readBlocks_write ih nofun
    rw [List.append_nil] at hblocks
    rw [writeCondition, readCondition_eq rfl]
    change (readBlocks (writeBlocks cs)).map _ = _
    rw [hblocks]
    rfl
  | @not c _ ih =>
    rw [writeCondition, readCondition_eq rfl]
    change (readFirstBlock [block c]).map _ = _
    rw [readFirstBlock, isNamed_block, beq_self_eq_true, if_pos rfl, readBlock_write ih]
    rfl

theorem readGuard_write {name : String} {attributes : List (String × String)} {condition? : Option Condition}
    {others : List Content} (h : ∀ c ∈ condition?, c.IsTidy) (hothers : ∀ c ∈ others, c.isNamed "if" = false) :
    readGuard (plain name attributes (writeBlocks condition?.toList ++ others)) = .ok condition? := by
  have hblocks : readBlocks (writeBlocks condition?.toList ++ others) = .ok condition?.toList :=
    readBlocks_write (fun c hc => readCondition_write (h c (Option.mem_toList.1 hc))) hothers
  rw [readGuard, children_plain, hblocks]
  cases condition? <;> rfl

/-! ## Entities -/

theorem isNamed_leaf (name text other : String) : (leaf name text).isNamed other = (name == other) :=
  isNamed_plain other

theorem isNamed_writeGenerator (name : String) (call : GeneratorCall) (other : String) :
    (writeGenerator name call).isNamed other = (name == other) :=
  isNamed_plain other

theorem isNamed_writeEntity (e : Entity) (name : String) : (writeEntity e).isNamed name = ("entity" == name) := by
  cases e
  rw [writeEntity, isNamed_plain]

def writeAttached (a : Attached Entity) : Content :=
  plain "additional" [] [leaf "relationship" a.relationship, writeEntity a.entity]

theorem writeAdditionals_eq (as : List (Attached Entity)) : writeAdditionals as = as.map writeAttached := by
  induction as with
  | nil => rfl
  | cons a rest ih =>
    rw [writeAdditionals, ih]
    rfl

theorem readAttached_write {a : Attached Entity} (hrelationship : IsTrimmed a.relationship)
    (hentity : readEntity (writeEntity a.entity) = .ok a.entity) : readAttached (writeAttached a) = .ok a := by
  have hchild : child (writeAttached a) "relationship" = .ok (leaf "relationship" a.relationship) :=
    child_plain (by simp [isNamed_leaf, isNamed_writeEntity])
  have howned : child (writeAttached a) "entity" = .ok (writeEntity a.entity) :=
    child_plain (by simp [isNamed_leaf, isNamed_writeEntity])
  rw [readAttached, hchild, howned]
  change (do let attached ← readEntity (writeEntity a.entity); _) = _
  rw [hentity]
  exact congrArg (fun relationship => Except.ok (Attached.mk relationship a.entity)) (textOf_leaf hrelationship)

/-- Elements that each add one member to a list are read one after the other. -/
theorem foldlM_map_eq_ok {ε α β γ : Type} {f : β → γ → Except ε β} {g : α → γ} (add : β → List α → β)
    (hnil : ∀ b, add b [] = b) (hadd : ∀ b as bs, add (add b as) bs = add b (as ++ bs)) {as : List α}
    (hstep : ∀ a ∈ as, ∀ b, f b (g a) = .ok (add b [a])) (b : β) :
    (as.map g).foldlM f b = .ok (add b as) := by
  induction as generalizing b with
  | nil =>
    rw [hnil]
    rfl
  | cons a rest ih =>
    rw [List.forall_mem_cons] at hstep
    rw [List.map_cons, List.foldlM_cons, hstep.1]
    change (rest.map g).foldlM f (add b [a]) = _
    rw [ih hstep.2, hadd, List.singleton_append]

theorem foldlM_append_of_eq_ok {ε β γ : Type} {f : β → γ → Except ε β} {b b' : β} {cs : List γ}
    (h : cs.foldlM f b = .ok b') (more : List γ) : (cs ++ more).foldlM f b = more.foldlM f b' := by
  rw [List.foldlM_append, h]
  rfl

theorem foldlM_types {types : List String} (h : ∀ type ∈ types, IsTrimmed type) (e : Entity) :
    (types.map (leaf "type")).foldlM readPart e = .ok { e with types := e.types ++ types } := by
  refine foldlM_map_eq_ok (fun e types => { e with types := e.types ++ types })
    (by rintro ⟨⟩; simp) (by simp) ?_ e
  intro type htype e
  exact congrArg (fun type => Except.ok { e with types := e.types ++ [type] }) (textOf_leaf (h type htype))

theorem foldlM_labels {labels : List GeneratorCall} (h : ∀ call ∈ labels, call.IsTidy) (e : Entity) :
    (labels.map (writeGenerator "label_generator")).foldlM readPart e =
      .ok { e with labels := e.labels ++ labels } := by
  refine foldlM_map_eq_ok (fun e labels => { e with labels := e.labels ++ labels })
    (by rintro ⟨⟩; simp) (by simp) ?_ e
  intro call hcall e
  change (do let call ← readGenerator (writeGenerator "label_generator" call); _) = _
  rw [readGenerator_write (h call hcall)]
  rfl

theorem foldlM_additionals {as : List (Attached Entity)}
    (h : ∀ a ∈ as, readAttached (writeAttached a) = .ok a) (e : Entity) :
    (as.map writeAttached).foldlM readPart e = .ok { e with additionals := e.additionals ++ as } := by
  refine foldlM_map_eq_ok (fun e as => { e with additionals := e.additionals ++ as })
    (by rintro ⟨⟩; simp) (by simp) ?_ e
  intro a ha e
  change (do let attached ← readAttached (writeAttached a); _) = _
  rw [h a ha]
  rfl

/-- There is one instance generator at most, and none was read before it. -/
theorem foldlM_generator {generator? : Option GeneratorCall} (h : ∀ call ∈ generator?, call.IsTidy) {e : Entity}
    (he : e.generator? = none) : (generator?.toList.map (writeGenerator "instance_generator")).foldlM readPart e =
      .ok { e with generator? := generator? } := by
  obtain ⟨types, _, labels, additionals, variableName?, globalName?⟩ := e
  dsimp only at he
  subst he
  cases generator? with
  | none => rfl
  | some call =>
    have hstep : readPart ⟨types, none, labels, additionals, variableName?, globalName?⟩
        (writeGenerator "instance_generator" call) =
          .ok ⟨types, some call, labels, additionals, variableName?, globalName?⟩ := by
      rw [readPart, writeGenerator, localName_plain, ← writeGenerator, readGenerator_write (h call rfl)]
      rfl
    rw [Option.toList_some, List.map_singleton, List.foldlM_cons, hstep]
    rfl

/-- Attributes are found past one another, and the four kinds of elements stand one after the other. -/
theorem readEntity_write {e : Entity} (h : e.IsTidy) : readEntity (writeEntity e) = .ok e := by
  induction h with
  | @intro e types generator labels relationships _ variableName globalName ih =>
    obtain ⟨typeNames, generator?, labelCalls, additionals, variableName?, globalName?⟩ := e
    have hvariable : (writeOptional "variable" variableName? ++
        writeOptional "global_variable" globalName?).lookup "variable" = variableName? := by
      simp [List.lookup_append, lookup_writeOptional]
    have hglobal : (writeOptional "variable" variableName? ++
        writeOptional "global_variable" globalName?).lookup "global_variable" = globalName? := by
      simp [List.lookup_append, lookup_writeOptional]
    have helements : ∀ c ∈ typeNames.map (leaf "type") ++
        generator?.toList.map (writeGenerator "instance_generator") ++
          labelCalls.map (writeGenerator "label_generator") ++ additionals.map writeAttached,
        c.isElement = true := by
      simp only [List.forall_mem_append, List.forall_mem_map]
      exact ⟨⟨⟨fun _ _ => rfl, fun _ _ => rfl⟩, fun _ _ => rfl⟩, fun _ _ => rfl⟩
    rw [writeEntity, writeAdditionals_eq, readEntity_eq rfl, optional?_plain hvariable variableName,
      optional?_plain hglobal globalName, elements_plain helements, List.append_assoc, List.append_assoc,
      foldlM_append_of_eq_ok (foldlM_types types _), foldlM_append_of_eq_ok (foldlM_generator generator rfl),
      foldlM_append_of_eq_ok (foldlM_labels labels _),
      foldlM_additionals fun a ha => readAttached_write (relationships a ha) (ih a ha)]
    rfl

/-! ## Targets and relations -/

theorem readTarget_write {t : Target} {others : List Content} (h : t.IsTidy)
    (hothers : ∀ c ∈ others, c.isNamed "if" = false ∧ c.isNamed "entity" = false) :
    readTarget (writeTarget t others) = .ok t := by
  have hentity : (writeTarget t others).elementsNamed "entity" = [writeEntity t.entity] := by
    have hnone : others.filter (·.isNamed "entity") = [] := by simpa using fun c hc => (hothers c hc).2
    rw [writeTarget, Content.elementsNamed, children_plain, writeBlocks_eq, List.filter_append, List.filter_cons, hnone]
    simp [isNamed_block, isNamed_writeEntity, List.filter_map, Function.comp_def]
  have hguard : readGuard (writeTarget t others) = .ok t.condition? := by
    refine readGuard_write h.condition (List.forall_mem_cons.2 ⟨?_, fun c hc => (hothers c hc).1⟩)
    rw [isNamed_writeEntity]
    rfl
  rw [readTarget, hentity]
  change (do let entity ← readEntity (writeEntity t.entity); _) = _
  rw [readEntity_write h.entity, hguard]
  rfl

theorem map_textOf_leaf {name : String} {texts : List String} (h : ∀ text ∈ texts, IsTrimmed text) :
    (texts.map (leaf name)).map textOf = texts := by
  rw [List.map_map]
  exact (List.map_congr_left fun text htext => textOf_leaf (h text htext)).trans (List.map_id texts)

theorem readSourceRelation_write {r : SourceRelation} (hrelations : ∀ relation ∈ r.relations, IsTrimmed relation)
    (hnodes : ∀ node ∈ r.nodes, IsTrimmed node) (hne : r.relations ≠ []) :
    readSourceRelation (writeSourceRelation r) = .ok r := by
  have hrelation : (writeSourceRelation r).elementsNamed "relation" = r.relations.map (leaf "relation") :=
    filter_alternate_left (by simp [isNamed_leaf]) (by simp [isNamed_leaf])
  have hnode : (writeSourceRelation r).elementsNamed "node" = r.nodes.map (leaf "node") :=
    filter_alternate_right (by simp [isNamed_leaf]) (by simp [isNamed_leaf])
  rw [readSourceRelation_eq_ok_iff, hrelation, hnode, map_textOf_leaf hrelations, map_textOf_leaf hnodes]
  refine ⟨fun c hc => ?_, rfl, hne⟩
  rcases mem_alternate.1 (List.mem_of_mem_filter hc) with hc | hc
  · obtain ⟨_, -, rfl⟩ := List.mem_map.1 hc
    exact .inl rfl
  · obtain ⟨_, -, rfl⟩ := List.mem_map.1 hc
    exact .inr rfl

theorem localName_writeEntity (e : Entity) : (writeEntity e).localName = "entity" := by
  cases e
  rw [writeEntity, localName_plain]

/-- The blocks stand in front, and pass over what is read next to them. -/
theorem readTargetRelation_write {r : TargetRelation} (hcondition : ∀ c ∈ r.condition?, c.IsTidy)
    (hrelationships : ∀ relationship ∈ r.relationships, IsTrimmed relationship)
    (hentities : ∀ e ∈ r.entities, e.IsTidy) (hne : r.relationships ≠ []) :
    readTargetRelation (writeTargetRelation r) = .ok r := by
  have hblocks (name : String) (hname : ("if" == name) = false) :
      (writeBlocks r.condition?.toList).filter (·.isNamed name) = [] := by
    simp [writeBlocks_eq, isNamed_block, hname]
  have hrelationship : (writeTargetRelation r).elementsNamed "relationship" =
      r.relationships.map (leaf "relationship") := by
    rw [writeTargetRelation, Content.elementsNamed, children_plain, List.filter_append, hblocks _ rfl, List.nil_append]
    exact filter_alternate_left (by simp [isNamed_leaf]) (by simp [isNamed_writeEntity])
  have hentity : (writeTargetRelation r).elementsNamed "entity" = r.entities.map writeEntity := by
    rw [writeTargetRelation, Content.elementsNamed, children_plain, List.filter_append, hblocks _ rfl, List.nil_append]
    exact filter_alternate_right (by simp [isNamed_leaf]) (by simp [isNamed_writeEntity])
  have hguard : readGuard (writeTargetRelation r) = .ok r.condition? := by
    refine readGuard_write hcondition fun c hc => ?_
    rcases mem_alternate.1 hc with hc | hc
    · obtain ⟨_, -, rfl⟩ := List.mem_map.1 hc
      rw [isNamed_leaf]
      rfl
    · obtain ⟨_, -, rfl⟩ := List.mem_map.1 hc
      rw [isNamed_writeEntity]
      rfl
  -- All that is left is that no other element stands among the three kinds.
  rw [readTargetRelation_eq_ok_iff, hrelationship, hentity, map_textOf_leaf hrelationships]
  refine ⟨fun c hc => ?_, hguard, rfl, mapM_map_eq_ok fun e he => readEntity_write (hentities e he), hne⟩
  have hc : c ∈ writeBlocks r.condition?.toList ++ _ := List.mem_of_mem_filter hc
  rw [writeBlocks_eq] at hc
  rcases List.mem_append.1 hc with hc | hc
  · obtain ⟨_, -, rfl⟩ := List.mem_map.1 hc
    exact .inr (.inr rfl)
  · rcases mem_alternate.1 hc with hc | hc
    · obtain ⟨_, -, rfl⟩ := List.mem_map.1 hc
      exact .inl rfl
    · obtain ⟨e, -, rfl⟩ := List.mem_map.1 hc
      exact .inr (.inl (localName_writeEntity e))

/-! ## Links and mappings -/

theorem flag_plain {name key : String} {attributes : List (String × String)} {children : List Content} {raised : Bool}
    (hlookup : attributes.lookup key = if raised then some "true" else none) :
    flag (plain name attributes children) key = raised := by
  rw [flag, plainAttribute?_plain, hlookup]
  cases raised with
  | false => rfl
  | true => decide

/-- The graph and the flag of a link and of a mapping. -/
theorem lookup_placing (graph? : Option String) (skip : Bool) :
    (writeOptional "namedgraph" graph? ++ writeFlag "skip" skip).lookup "namedgraph" = graph? ∧
      (writeOptional "namedgraph" graph? ++ writeFlag "skip" skip).lookup "skip" =
        if skip then some "true" else none := by
  simp [List.lookup_append, lookup_writeOptional, lookup_writeFlag]

theorem readLink_write {l : Link} (h : l.IsTidy) : readLink (writeLink l) = .ok l := by
  obtain ⟨hgraph, hskip⟩ := lookup_placing l.graph? l.skip
  have hpath : child (writeLink l) "path" =
      .ok (plain "path" [] [writeSourceRelation l.source, writeTargetRelation l.target]) :=
    child_plain (by simp)
  have hrange : child (writeLink l) "range" =
      .ok (plain "range" [] [leaf "source_node" l.range.sourceNode, writeTarget l.range.target []]) :=
    child_plain (by simp)
  have hsource : child (plain "path" [] [writeSourceRelation l.source, writeTargetRelation l.target])
      "source_relation" = .ok (writeSourceRelation l.source) :=
    child_plain (by simp [writeSourceRelation])
  have htarget : child (plain "path" [] [writeSourceRelation l.source, writeTargetRelation l.target])
      "target_relation" = .ok (writeTargetRelation l.target) :=
    child_plain (by simp [writeSourceRelation, writeTargetRelation])
  have hnode : child (plain "range" [] [leaf "source_node" l.range.sourceNode, writeTarget l.range.target []])
      "source_node" = .ok (leaf "source_node" l.range.sourceNode) :=
    child_plain (by simp [isNamed_leaf])
  have hend : child (plain "range" [] [leaf "source_node" l.range.sourceNode, writeTarget l.range.target []])
      "target_node" = .ok (writeTarget l.range.target []) :=
    child_plain (by simp [isNamed_leaf, writeTarget])
  simp only [readLink, hpath, hrange, hsource, htarget, hnode, hend, bind_eq_ok, Except.ok.injEq, exists_eq_left']
  refine ⟨l.source, readSourceRelation_write h.relations h.nodes h.related, l.target,
    readTargetRelation_write h.condition h.relationships h.entities h.linked, l.range.target,
    readTarget_write h.range (by simp), ?_⟩
  rw [textOf_leaf h.rangeNode, writeLink, optional?_plain hgraph h.graph, flag_plain hskip]

theorem readGraphGenerator_write {t : Target} {call? : Option GeneratorCall} (h : ∀ call ∈ call?, call.IsTidy) :
    readGraphGenerator (writeTarget t (call?.toList.map writeGraphGenerator)) = .ok call? := by
  have hgraphs : (writeTarget t (call?.toList.map writeGraphGenerator)).elementsNamed "named_graph" =
      call?.toList.map writeGraphGenerator := by
    simp [writeTarget, Content.elementsNamed, writeBlocks_eq, List.filter_map, Function.comp_def, isNamed_block,
      isNamed_writeEntity, writeGraphGenerator]
  rw [readGraphGenerator, hgraphs]
  cases call? with
  | none => rfl
  | some call =>
    have hchild : child (writeGraphGenerator call) "instance_generator" =
        .ok (writeGenerator "instance_generator" call) :=
      child_plain (by simp [isNamed_writeGenerator])
    rw [Option.toList_some, List.map_singleton, List.head?_cons]
    simp only [hchild, bind_eq_ok, Except.ok.injEq, exists_eq_left']
    exact ⟨call, readGenerator_write (h call rfl), rfl⟩

theorem readDomain_write {d : Domain} (hnode : IsTrimmed d.sourceNode) (htarget : d.target.IsTidy)
    (hgraph : ∀ call ∈ d.graphGenerator?, call.IsTidy) : readDomain (writeDomain d) = .ok d := by
  have hend : child (writeDomain d) "target_node" =
      .ok (writeTarget d.target (d.graphGenerator?.toList.map writeGraphGenerator)) :=
    child_plain (by simp [isNamed_leaf, writeTarget])
  have hstart : child (writeDomain d) "source_node" = .ok (leaf "source_node" d.sourceNode) :=
    child_plain (by simp [isNamed_leaf])
  simp only [readDomain, hend, hstart, bind_eq_ok, Except.ok.injEq, exists_eq_left']
  refine ⟨d.target, readTarget_write htarget ?_, d.graphGenerator?, readGraphGenerator_write hgraph, ?_⟩
  · simp [writeGraphGenerator]
  · rw [textOf_leaf hnode]

theorem readMapping_write {m : Mapping} (h : m.IsTidy) : readMapping (writeMapping m) = .ok m := by
  obtain ⟨hgraph, hskip⟩ := lookup_placing m.graph? m.skip
  have hdomain : child (writeMapping m) "domain" = .ok (writeDomain m.domain) :=
    child_plain (by simp [writeDomain])
  have hlinks : (writeMapping m).elementsNamed "link" = m.links.map writeLink := by
    simp [writeMapping, Content.elementsNamed, List.filter_map, Function.comp_def, writeDomain, writeLink]
  simp only [readMapping, hdomain, hlinks, bind_eq_ok, Except.ok.injEq, exists_eq_left']
  refine ⟨m.domain, readDomain_write h.domainNode h.domain h.graphGenerator, m.links,
    mapM_map_eq_ok fun l hl => readLink_write (h.links l hl), ?_⟩
  rw [writeMapping, optional?_plain hgraph h.graph, flag_plain hskip]

theorem readNamespace_write {entry : String × String} (halias : IsTrimmed entry.1) (huri : IsPresent entry.2) :
    readNamespace (writeNamespace entry) = .ok entry := by
  have hrequired : required (writeNamespace entry) "uri" = .ok entry.2 :=
    required_plain (by simp [List.lookup_cons]) huri
  have hprefix : ((writeNamespace entry).plainAttribute? "prefix").map Text.trim = some entry.1 := by
    rw [writeNamespace, plainAttribute?_plain]
    exact congrArg some halias
  rw [readNamespace, hrequired, hprefix]
  rfl

/-- Nothing of a mapping document is lost, doubled, moved or taken for something else when it is written and
read again. -/
theorem readMappings_write {d : MappingDocument} (h : d.IsTidy) : readMappings (writeMappings d) = .ok d := by
  have hnamespaces : grouped (writeMappings d) "namespaces" "namespace" =
      d.namespaces.toList.map writeNamespace := by
    simp [grouped, Content.elementsNamed, writeMappings, List.filter_map, Function.comp_def, writeNamespace]
  have hmappings : grouped (writeMappings d) "mappings" "mapping" = d.mappings.map writeMapping := by
    simp [grouped, Content.elementsNamed, writeMappings, List.filter_map, Function.comp_def, writeMapping]
  have htable : Namespaces.builtin.table.insertAll d.namespaces.toList = d.namespaces.table := by
    obtain ⟨declared, hdeclared⟩ := h.declared
    rw [Namespaces.toList, hdeclared]
    exact Table.insertAll_entries (Table.ascends_ofList _) declared
  rw [readMappings, if_neg (by simp [writeMappings]), hnamespaces, hmappings]
  simp only [bind_eq_ok]
  refine ⟨d.namespaces.toList,
    mapM_map_eq_ok fun entry hentry => readNamespace_write (h.aliases entry hentry) (h.uris entry hentry),
    d.mappings, mapM_map_eq_ok fun m hm => readMapping_write (h.mappings m hm), ?_⟩
  rw [htable]

/-- A generator with an argument that is empty, of an empty language. -/
def labelCall : GeneratorCall :=
  ⟨"Literal", [⟨"text", .xpath, "name/text()", some "de"⟩, ⟨"note", .constant, "", some ""⟩]⟩

theorem isTidy_labelCall : labelCall.IsTidy where
  name := by decide
  arguments := by
    refine List.forall_mem_cons.2 ⟨⟨by decide, by decide, ?_⟩,
      List.forall_mem_singleton.2 ⟨by decide, by decide, ?_⟩⟩
    · rintro _ ⟨⟩
      decide
    · rintro _ ⟨⟩
      decide

def typeEntity : Entity :=
  ⟨["crm:E55_Type"], none, [], [], some "type", some "shared"⟩

/-- An entity with another one attached to it. -/
def nameEntity : Entity :=
  ⟨["crm:E41_Appellation", ""], some labelCall, [labelCall, labelCall], [⟨"crm:P2_has_type", typeEntity⟩],
    none, none⟩

theorem isTidy_typeEntity : typeEntity.IsTidy := by
  refine .intro (by decide) nofun nofun nofun nofun ?_ ?_
  · rintro _ ⟨⟩
    decide
  · rintro _ ⟨⟩
    decide

theorem isTidy_nameEntity : nameEntity.IsTidy := by
  have hcalls : ∀ call ∈ [labelCall, labelCall], call.IsTidy := by simp [isTidy_labelCall]
  refine .intro (by decide) ?_ hcalls ?_ ?_ nofun nofun
  · rintro _ ⟨⟩
    exact isTidy_labelCall
  · exact List.forall_mem_singleton.2 (by decide)
  · exact List.forall_mem_singleton.2 isTidy_typeEntity

def nameCondition : Condition :=
  .any [.not (.equals "date" "unknown"), .all [.exists "name", .all []], .narrower "kind" "vase"]

theorem isTidy_nameCondition : nameCondition.IsTidy := by
  refine .any (List.forall_mem_cons.2 ⟨.not (.equals (by decide) (by decide)), List.forall_mem_cons.2 ⟨.all ?_,
    List.forall_mem_singleton.2 (.narrower (by decide) (by decide))⟩⟩)
  exact List.forall_mem_cons.2 ⟨.exists (by decide), List.forall_mem_singleton.2 (.all nofun)⟩

def nameTarget : Target :=
  ⟨nameEntity, some nameCondition⟩

theorem isTidy_nameTarget : nameTarget.IsTidy where
  entity := isTidy_nameEntity
  condition := by
    rintro _ ⟨⟩
    exact isTidy_nameCondition

/-- A link with an entity in between, left out of runs. -/
def nameLink : Link :=
  ⟨⟨["name", "part"], ["/people/name"]⟩, ⟨some nameCondition, ["crm:P1", "crm:P106"], [nameEntity]⟩,
    ⟨"name", nameTarget⟩, some "crm:names", true⟩

theorem isTidy_nameLink : nameLink.IsTidy where
  relations := by decide
  nodes := by decide
  related := by decide
  condition := isTidy_nameTarget.condition
  relationships := by decide
  entities := List.forall_mem_singleton.2 isTidy_nameEntity
  linked := by decide
  rangeNode := by decide
  range := isTidy_nameTarget
  graph := by
    rintro _ ⟨⟩
    decide

/-- One alias is declared, and one that is always there redefined. -/
def nameDocument : MappingDocument :=
  ⟨⟨Namespaces.builtin.table.insertAll [("crm", "http://crm/"), ("owl", "urn:owl:")]⟩,
    [⟨⟨"/people/person", nameTarget, some labelCall⟩, [nameLink], none, false⟩]⟩

theorem isTidy_nameDocument : nameDocument.IsTidy where
  declared := ⟨_, rfl⟩
  aliases := by decide +kernel
  uris := by decide +kernel
  mappings := by
    refine List.forall_mem_singleton.2 ⟨by decide, isTidy_nameTarget, ?_, ?_, nofun⟩
    · rintro _ ⟨⟩
      exact isTidy_labelCall
    · exact List.forall_mem_singleton.2 isTidy_nameLink

theorem readMappings_write_names : nameDocument.IsTidy ∧
    readMappings (writeMappings nameDocument) = .ok nameDocument :=
  ⟨isTidy_nameDocument, readMappings_write isTidy_nameDocument⟩

end Layout

end Crosswalk
