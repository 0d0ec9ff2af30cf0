import Crosswalk.Proofs.ClosedStatements
import Mathlib.Data.List.Induction

/-!
# What a graph holds after some batches

A batch is looked at as a whole before anything of it is placed. So the first text in it that is no term decides
what is answered, and where there is none every quad of the batch is placed, each one once. What is there
in the end is what the accepted batches say and nothing else; which of them says it first decides only which
of the calls counts it, so that in another order the same quads are there.
-/

namespace Crosswalk.Rdf

/-! ## Terms -/

/-- A value that may stand as an object: its IRI, or that of its datatype, or its language is valid. -/
def IsTerm : Value → Prop
  | .uri s => isIri s = true
  | .literal _ none => True
  | .literal _ (some language) => (languageTag? language).isSome = true
  | .typed _ datatype => isIri datatype = true

structure Statement.IsValid (s : Statement) : Prop where
  subject : isIri s.subject = true
  predicate : isIri s.predicate = true
  object : IsTerm s.object
  graph : ∀ g ∈ s.graph?, isIri g = true

def refusedIris (texts : List String) : List String :=
  texts.filter fun s => !isIri s

def refusedObject : Value → List String
  | .uri s => refusedIris [s]
  | .literal _ none => []
  | .literal _ (some language) => if (languageTag? language).isSome then [] else [language]
  | .typed _ datatype => refusedIris [datatype]

/-- The texts of a statement that are no terms, in the order in which they are looked at. -/
def Statement.refused (s : Statement) : List String :=
  refusedIris (s.graph?.toList ++ [s.subject, s.predicate]) ++ refusedObject s.object

variable {s : Statement} {v : Value}

theorem refusedIris_eq_nil_iff {texts : List String} :
    refusedIris texts = [] ↔ ∀ s ∈ texts, isIri s = true := by
  simp [refusedIris]

theorem refusedIris_append (texts more : List String) :
    refusedIris (texts ++ more) = refusedIris texts ++ refusedIris more :=
  List.filter_append ..

theorem refusedObject_eq_nil_iff : refusedObject v = [] ↔ IsTerm v := by
  cases v with
  | uri | typed => simp [refusedObject, refusedIris_eq_nil_iff, IsTerm]
  | literal text language? =>
    cases language? with
    | none => simp [refusedObject, IsTerm]
    | some language => simp [refusedObject, IsTerm, Option.isSome_iff_ne_none]

theorem Statement.refused_eq_nil_iff : s.refused = [] ↔ s.IsValid := by
  rw [refused, List.append_eq_nil_iff, refusedIris_eq_nil_iff, refusedObject_eq_nil_iff]
  simp only [List.mem_append, Option.mem_toList, List.mem_cons, List.not_mem_nil, or_false, or_imp, forall_and,
    forall_eq]
  constructor
  · rintro ⟨⟨hgraph, hsubject, hpredicate⟩, hobject⟩
    exact ⟨hsubject, hpredicate, hobject, hgraph⟩
  · intro h
    exact ⟨⟨h.graph, h.subject, h.predicate⟩, h.object⟩

/-! ## Faults -/

/-- The fault that refused texts make: the first one is named. -/
def firstFault? (refused : List String) : Option GraphError :=
  refused.head?.map .invalidTerm

theorem firstFault?_append (texts more : List String) :
    firstFault? (texts ++ more) = (firstFault? texts).or (firstFault? more) := by
  cases texts <;> rfl

theorem faultOf?_bind {ε α β : Type} {x : Except ε α} {f : α → Except ε β} {fault? : Option ε}
    (hf : ∀ a, x = .ok a → faultOf? (f a) = fault?) : faultOf? (x >>= f) = (faultOf? x).or fault? := by
  cases x with
  | error e => rfl
  | ok a => exact hf a rfl

theorem faultOf?_map {ε α β : Type} (x : Except ε α) (f : α → β) : faultOf? (x.map f) = faultOf? x := by
  cases x <;> rfl

theorem faultOf?_iriTerm (text : String) : faultOf? (iriTerm text) = firstFault? (refusedIris [text]) := by
  rw [iriTerm, Iri.ofText?]
  by_cases h : isIri text = true
  · simp [h, refusedIris, firstFault?, faultOf?]
  · simp [h, refusedIris, firstFault?, faultOf?]

theorem faultOf?_objectTerm (v : Value) : faultOf? (objectTerm v) = firstFault? (refusedObject v) := by
  cases v with
  | uri text =>
    rw [objectTerm, faultOf?_map, faultOf?_iriTerm]
    rfl
  | literal text language? =>
    cases language? with
    | none => rfl
    | some language =>
      rw [objectTerm, refusedObject]
      cases languageTag? language <;> rfl
  | typed text datatype =>
    rw [objectTerm, faultOf?_map, faultOf?_iriTerm]
    rfl

/-- The graph is looked at first, then the subject, the predicate and the object. -/
theorem Statement.faultOf?_quad (s : Statement) : faultOf? s.quad = firstFault? s.refused := by
  obtain ⟨subject, predicate, object, graph?⟩ := s
  have hrest : ∀ g : Option Iri, faultOf? (do
      let subject ← iriTerm subject
      let predicate ← iriTerm predicate
      let object ← objectTerm object
      .ok ⟨subject, predicate, object, g⟩ : Except GraphError Quad) =
        firstFault? (refusedIris [subject] ++ (refusedIris [predicate] ++ refusedObject object)) := by
    intro g
    rw [firstFault?_append, firstFault?_append, ← faultOf?_iriTerm, ← faultOf?_iriTerm, ← faultOf?_objectTerm]
    refine faultOf?_bind fun _ _ => faultOf?_bind fun _ _ => ?_
    cases objectTerm object <;> rfl
  have hsplit : refused ⟨subject, predicate, object, graph?⟩ = refusedIris graph?.toList ++
      (refusedIris [subject] ++ (refusedIris [predicate] ++ refusedObject object)) := by
    rw [refused, ← List.singleton_append, refusedIris_append, refusedIris_append, List.append_assoc,
      List.append_assoc]
  rw [hsplit, quad]
  cases graph? with
  | none => exact hrest none
  | some name =>
    rw [firstFault?_append, Option.toList_some, ← faultOf?_iriTerm, ← faultOf?_map (iriTerm name) some]
    exact faultOf?_bind fun g _ => hrest g

/-- What converts to a quad is what has nothing in it that is refused. -/
theorem Statement.isValid_iff : s.IsValid ↔ ∃ q, s.quad = .ok q := by
  rw [← refused_eq_nil_iff]
  have hfault := s.faultOf?_quad
  cases hquad : s.quad with
  | error e =>
    rw [hquad] at hfault
    refine iff_of_false (fun h => ?_) (by simp)
    rw [h] at hfault
    cases hfault
  | ok q =>
    rw [hquad, firstFault?] at hfault
    exact iff_of_true (List.head?_eq_none_iff.1 (Option.map_eq_none_iff.1 hfault.symm)) ⟨q, rfl⟩

theorem faultOf?_quads (batch : List Statement) :
    faultOf? (batch.mapM Statement.quad) = firstFault? (batch.flatMap Statement.refused) := by
  induction batch with
  | nil => rfl
  | cons s rest ih =>
    rw [List.mapM_cons, List.flatMap_cons, firstFault?_append, ← s.faultOf?_quad, ← ih]
    refine faultOf?_bind fun q _ => ?_
    cases rest.mapM Statement.quad <;> rfl

/-! ## Calls -/

namespace Graph

variable {g h : Graph} {quads : List Quad} {batch : List Statement} {q : Quad}

theorem placeEach_graph (g : Graph) (quads : List Quad) : (g.placeEach quads).2 = g.insertAll quads := by
  induction quads generalizing g with
  | nil => rfl
  | cons q rest ih =>
    rw [placeEach]
    exact ih (g.insert q)

theorem size_insert (g : Graph) (q : Quad) :
    (g.insert q).size = if g.quads.contains q then g.size else g.size + 1 := by
  rw [insert]
  split
  · rfl
  · rw [size, List.length_append]
    rfl

/-- What is counted is by how much the graph has grown. -/
theorem size_placeEach (g : Graph) (quads : List Quad) :
    (g.placeEach quads).2.size = g.size + (g.placeEach quads).1 := by
  induction quads generalizing g with
  | nil => rfl
  | cons q rest ih =>
    rw [placeEach]
    dsimp only
    rw [ih, size_insert]
    split <;> omega

/-- A batch of valid statements is added, and the answer is by how much the graph has grown. -/
theorem call_of_valid (hvalid : ∀ s ∈ batch, s.IsValid) : ∃ count after,
    g.add batch = .ok after ∧ g.call batch = (.ok count, after) ∧ after.size = g.size + count := by
  have hfault : faultOf? (batch.mapM Statement.quad) = none := by
    rw [faultOf?_quads, List.flatMap_eq_nil_iff.2 fun s hs => Statement.refused_eq_nil_iff.2 (hvalid s hs)]
    rfl
  cases hquads : batch.mapM Statement.quad with
  | error e =>
    rw [hquads] at hfault
    cases hfault
  | ok quads =>
    refine ⟨(g.placeEach quads).1, (g.placeEach quads).2, ?_, ?_, size_placeEach g quads⟩
    · rw [add, hquads, placeEach_graph]
      rfl
    · rw [call, hquads]

/-- The first refused text is the fault, and nothing is placed. -/
theorem call_of_refused {text : String} (hfirst : (batch.flatMap Statement.refused).head? = some text) :
    g.call batch = (.error (.invalidTerm text), g) := by
  have hfault : faultOf? (batch.mapM Statement.quad) = some (.invalidTerm text) := by
    rw [faultOf?_quads, firstFault?, hfirst]
    rfl
  rw [call, faultOf?_eq_some_iff.1 hfault]

theorem exists_refused (hvalid : ¬∀ s ∈ batch, s.IsValid) :
    ∃ text, (batch.flatMap Statement.refused).head? = some text := by
  have hne : batch.flatMap Statement.refused ≠ [] := fun h =>
    hvalid fun s hs => Statement.refused_eq_nil_iff.1 (List.flatMap_eq_nil_iff.1 h s hs)
  exact ⟨_, List.head?_eq_some_head hne⟩

/-- The quads that an accepted batch says. -/
def Says (batch : List Statement) (q : Quad) : Prop :=
  (∀ s ∈ batch, s.IsValid) ∧ ∃ s ∈ batch, s.quad = .ok q

theorem mem_call : q ∈ (g.call batch).2.quads ↔ q ∈ g.quads ∨ Says batch q := by
  rw [Says]
  by_cases hvalid : ∀ s ∈ batch, s.IsValid
  · obtain ⟨count, after, hadd, hcall, -⟩ := call_of_valid (g := g) hvalid
    rw [hcall, mem_add hadd, or_comm, and_iff_right hvalid]
  · obtain ⟨text, hfirst⟩ := exists_refused hvalid
    rw [call_of_refused hfirst, or_iff_left fun h => hvalid h.1]

theorem nodup_call (hg : g.quads.Nodup) : (g.call batch).2.quads.Nodup := by
  rw [call]
  cases batch.mapM Statement.quad with
  | error e => exact hg
  | ok quads =>
    dsimp only
    rw [placeEach_graph]
    exact nodup_insertAll hg

/-! ## Batches -/

/-- The graph that is left by some batches, one after the other. -/
def afterCalls (batches : List (List Statement)) : Graph :=
  batches.foldl (fun g batch => (g.call batch).2) .empty

variable {batches batches' : List (List Statement)}

theorem afterCalls_append (batches : List (List Statement)) (batch : List Statement) :
    afterCalls (batches ++ [batch]) = ((afterCalls batches).call batch).2 := by
  rw [afterCalls, List.foldl_append]
  rfl

theorem mem_afterCalls : q ∈ (afterCalls batches).quads ↔ ∃ batch ∈ batches, Says batch q := by
  induction batches using List.reverseRecOn with
  | nil => simp [afterCalls, empty]
  | append_singleton batches batch ih => simp [afterCalls_append, mem_call, ih, or_and_right, exists_or]

theorem nodup_afterCalls (batches : List (List Statement)) : (afterCalls batches).quads.Nodup := by
  induction batches using List.reverseRecOn with
  | nil => exact List.nodup_nil
  | append_singleton batches batch ih =>
    rw [afterCalls_append]
    exact nodup_call ih

/-- Which batches were accepted does not depend on what was there before, so neither does what they leave. -/
theorem afterCalls_perm (h : batches.Perm batches') :
    (afterCalls batches).quads.Perm (afterCalls batches').quads := by
  rw [List.perm_ext_iff_of_nodup (nodup_afterCalls batches) (nodup_afterCalls batches')]
  intro q
  simp only [mem_afterCalls, h.mem_iff]

theorem lines_afterCalls (h : batches.Perm batches') : (afterCalls batches).lines = (afterCalls batches').lines :=
  Text.sorted_eq_of_perm ((afterCalls_perm h).map Quad.line)

/-! ## Queries -/

theorem iriTerm_eq_ok_iff {text : String} {i : Iri} : iriTerm text = .ok i ↔ text = i.text := by
  constructor
  · intro h
    rw [iriTerm] at h
    cases hi : Iri.ofText? text with
    | none =>
      rw [hi] at h
      cases h
    | some j =>
      rw [hi] at h
      cases h
      exact (Iri.text_of_ofText? hi).symm
  · rintro rfl
    rw [iriTerm, Iri.ofText?_text]

theorem map_iriTerm_eq_ok_iff {name : String} {k? : Option Iri} :
    (iriTerm name).map some = .ok k? ↔ some name = k?.map Iri.text := by
  cases k? with
  | none => cases iriTerm name <;> simp [Except.map]
  | some k =>
    rw [Option.map_some, Option.some.injEq, ← iriTerm_eq_ok_iff]
    cases iriTerm name <;> simp [Except.map]

theorem quad_eq_ok_iff {s : Statement} : s.quad = .ok q ↔ s.graph? = q.graph?.map Iri.text ∧
    iriTerm s.subject = .ok q.subject ∧ iriTerm s.predicate = .ok q.predicate ∧
      objectTerm s.object = .ok q.object := by
  obtain ⟨subject, predicate, object, graph?⟩ := s
  obtain ⟨i, j, o, k?⟩ := q
  have hrest : ∀ k : Option Iri, (do
      let subject ← iriTerm subject
      let predicate ← iriTerm predicate
      let object ← objectTerm object
      .ok ⟨subject, predicate, object, k⟩ : Except GraphError Quad) = .ok ⟨i, j, o, k?⟩ ↔
        k = k? ∧ iriTerm subject = .ok i ∧ iriTerm predicate = .ok j ∧ objectTerm object = .ok o := by
    intro k
    simp only [bind_eq_ok, Except.ok.injEq, Quad.mk.injEq]
    constructor
    · rintro ⟨i, hi, j, hj, o, ho, rfl, rfl, rfl, rfl⟩
      exact ⟨rfl, hi, hj, ho⟩
    · rintro ⟨rfl, hi, hj, ho⟩
      exact ⟨i, hi, j, hj, o, ho, rfl, rfl, rfl, rfl⟩
  rw [Statement.quad]
  cases graph? with
  | none =>
    refine (hrest none).trans (and_congr_left' ?_)
    cases k? <;> simp
  | some name =>
    rw [← map_iriTerm_eq_ok_iff, bind_eq_ok]
    simp only [hrest]
    constructor
    · rintro ⟨_, hname, rfl, hterms⟩
      exact ⟨hname, hterms⟩
    · rintro ⟨hname, hterms⟩
      exact ⟨k?, hname, rfl, hterms⟩

theorem containsIn_iff {s : Statement} : g.containsIn s = true ↔ ∃ q ∈ g.quads, s.quad = .ok q := by
  rw [containsIn]
  cases s.quad with
  | error e => simp
  | ok q => simp [eq_comm]

/-- A statement that is in some graph: what the graph is does not matter. -/
theorem contains_iff {subject predicate : String} {object : Value} : g.contains subject predicate object = true ↔
    ∃ graph?, g.containsIn ⟨subject, predicate, object, graph?⟩ = true := by
  simp only [containsIn_iff, quad_eq_ok_iff]
  rw [contains]
  cases hquad : (Statement.mk subject predicate object none).quad with
  | error e =>
    refine iff_of_false Bool.false_ne_true ?_
    rintro ⟨graph?, q, -, -, hterms⟩
    cases hquad.symm.trans ((quad_eq_ok_iff (q := { q with graph? := none })).2 ⟨rfl, hterms⟩)
  | ok q =>
    obtain ⟨-, hsubject, hpredicate, hobject⟩ := quad_eq_ok_iff.1 hquad
    dsimp only at hsubject hpredicate hobject ⊢
    simp only [List.any_eq_true, Bool.and_eq_true, beq_iff_eq, hsubject, hpredicate, hobject, Except.ok.injEq]
    constructor
    · rintro ⟨r, hr, ⟨hs, hp⟩, ho⟩
      exact ⟨_, r, hr, rfl, hs.symm, hp.symm, ho.symm⟩
    · rintro ⟨_, r, hr, -, hs, hp, ho⟩
      exact ⟨r, hr, ⟨hs.symm, hp.symm⟩, ho.symm⟩

/-! ## The store -/

/-- Whatever was called: what is there is what the accepted batches say, each quad once. The next batch is accepted
if all its terms are valid, and is answered by the growth; otherwise its first invalid term is named and the
graph stays as it is. -/
theorem calls_store (batches : List (List Statement)) :
    (∀ s : Statement, s.IsValid ↔ ∃ q, s.quad = .ok q) ∧
    (afterCalls batches).quads.Nodup ∧
    (∀ q, q ∈ (afterCalls batches).quads ↔ ∃ batch ∈ batches, Says batch q) ∧
    (∀ next : List Statement, (∀ s ∈ next, s.IsValid) → ∃ count,
      (afterCalls batches).call next = (.ok count, afterCalls (batches ++ [next])) ∧
        (afterCalls (batches ++ [next])).size = (afterCalls batches).size + count) ∧
    (∀ next : List Statement, (¬∀ s ∈ next, s.IsValid) → ∃ text,
      (next.flatMap Statement.refused).head? = some text ∧
        (afterCalls batches).call next = (.error (.invalidTerm text), afterCalls batches) ∧
          afterCalls (batches ++ [next]) = afterCalls batches) ∧
    (∀ s, (afterCalls batches).containsIn s = true ↔ ∃ q ∈ (afterCalls batches).quads, s.quad = .ok q) ∧
    (∀ subject predicate object, (afterCalls batches).contains subject predicate object = true ↔
      ∃ graph?, (afterCalls batches).containsIn ⟨subject, predicate, object, graph?⟩ = true) ∧
    ∀ batches' : List (List Statement), batches'.Perm batches →
      (afterCalls batches').quads.Perm (afterCalls batches).quads ∧
        (afterCalls batches').lines = (afterCalls batches).lines := by
  refine ⟨fun _ => Statement.isValid_iff, nodup_afterCalls batches, fun _ => mem_afterCalls, fun next hvalid => ?_,
    fun next hvalid => ?_, fun _ => containsIn_iff, fun _ _ _ => contains_iff,
    fun _ h => ⟨afterCalls_perm h, lines_afterCalls h⟩⟩
  · obtain ⟨count, after, -, hcall, hsize⟩ := call_of_valid (g := afterCalls batches) hvalid
    rw [afterCalls_append, hcall]
    exact ⟨count, rfl, hsize⟩
  · obtain ⟨text, hfirst⟩ := exists_refused hvalid
    have hcall := call_of_refused (g := afterCalls batches) hfirst
    refine ⟨text, hfirst, hcall, ?_⟩
    rw [afterCalls_append, hcall]

/-- One label, twice: the language differs in its spelling only. -/
def spelledTwice : List Statement :=
  [⟨"http://a/1", "http://a/label", .literal "Ada" (some "en"), none⟩,
    ⟨"http://a/1", "http://a/label", .literal "Ada" (some "EN"), none⟩]

def partlyInvalid : List Statement :=
  [⟨"http://a/2", "http://a/label", .literal "Ben" none, none⟩,
    ⟨"http://a/2", "http://a/label", .uri "no iri", none⟩]

theorem calls_store_labels :
    (afterCalls [partlyInvalid]).call spelledTwice = (.ok 1, afterCalls [partlyInvalid, spelledTwice]) ∧
      (afterCalls [spelledTwice]).call partlyInvalid =
        (.error (.invalidTerm "no iri"), afterCalls [spelledTwice]) ∧
      (afterCalls [spelledTwice, partlyInvalid]).lines = (afterCalls [partlyInvalid, spelledTwice]).lines := by
  obtain ⟨-, -, -, haccepted, -⟩ := calls_store [partlyInvalid]
  obtain ⟨-, -, -, -, hrefused, -⟩ := calls_store [spelledTwice]
  refine ⟨?_, ?_, ?_⟩
  · have hvalid : ∀ s ∈ spelledTwice, s.IsValid := by
      simp only [← Statement.refused_eq_nil_iff]
      decide +kernel
    obtain ⟨count, hcall, hsize⟩ := haccepted spelledTwice hvalid
    have hbefore : (afterCalls [partlyInvalid]).size = 0 := by decide +kernel
    have hafter : (afterCalls ([partlyInvalid] ++ [spelledTwice])).size = 1 := by decide +kernel
    rw [hbefore, hafter, Nat.zero_add] at hsize
    rw [hcall, ← hsize]
    rfl
  · have hvalid : ¬∀ s ∈ partlyInvalid, s.IsValid := by
      simp only [← Statement.refused_eq_nil_iff]
      decide +kernel
    obtain ⟨text, hfirst, hcall, -⟩ := hrefused partlyInvalid hvalid
    have htext : (partlyInvalid.flatMap Statement.refused).head? = some "no iri" := by decide +kernel
    rw [hcall, Option.some.inj (hfirst.symm.trans htext)]
  · obtain ⟨-, -, -, -, -, -, -, hperm⟩ := calls_store [partlyInvalid, spelledTwice]
    exact (hperm [spelledTwice, partlyInvalid] (.swap ..)).2

end Graph

end Crosswalk.Rdf
