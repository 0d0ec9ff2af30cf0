import Crosswalk.Proofs.ConverseTerms
import Mathlib.Data.Finset.Card
import Mathlib.Data.List.Sort
import Mathlib.Data.String.Basic
import Mathlib.Logic.Function.Iterate

/-!
# What a declared table answers

A table of pairs is a graph that may have cycles. What is asked for are the terms to which a path of at least
one pair leads, and each answer lists them in order and once.

The answer is also what a walk finds that visits one term after the other and queues whatever it meets for the
first time. A visit takes one term from the queue, and puts back as many as it finds for the first time, so what
is queued and what can still be found become one less together: `Walk.left`. That is why a cycle does not
keep the walk going.
-/

namespace Crosswalk

/-- The texts with a property, in the order of their characters and each once. -/
def Text.Lists (texts : List String) (P : String → Prop) : Prop :=
  texts.Pairwise (· < ·) ∧ ∀ t, t ∈ texts ↔ P t

namespace Text

variable {texts texts' : List String} {P P' : String → Prop} {s : String}

theorem pairwise_insertDistinct (h : texts.Pairwise (· < ·)) :
    (insertDistinct s texts).Pairwise (· < ·) := by
  induction texts with
  | nil => exact List.pairwise_singleton _ s
  | cons t rest ih =>
    obtain ⟨ht, hrest⟩ := List.pairwise_cons.1 h
    rw [insertDistinct]
    split
    next hlt =>
      refine List.pairwise_cons.2 ⟨fun u hu => ?_, h⟩
      rcases List.mem_cons.1 hu with rfl | hu
      · exact hlt
      · exact hlt.trans (ht u hu)
    next hge =>
      split
      next => exact h
      next hne =>
        have hgt : t < s := lt_of_le_of_ne (not_lt.1 hge) (Ne.symm hne)
        refine List.pairwise_cons.2 ⟨fun u hu => ?_, ih hrest⟩
        rcases mem_insertDistinct.1 hu with rfl | hu
        · exact hgt
        · exact ht u hu

theorem pairwise_distinct (texts : List String) : (distinct texts).Pairwise (· < ·) := by
  induction texts with
  | nil => exact .nil
  | cons s rest ih => exact pairwise_insertDistinct ih

theorem lists_distinct (h : ∀ t, t ∈ texts ↔ P t) : Lists (distinct texts) P :=
  ⟨pairwise_distinct texts, fun t => mem_distinct.trans (h t)⟩

theorem Lists.congr (h : Lists texts P) (hP : ∀ t, P t ↔ P' t) : Lists texts P' :=
  ⟨h.1, fun t => (h.2 t).trans (hP t)⟩

theorem Lists.filter (h : Lists texts P) (p : String → Bool) :
    Lists (texts.filter p) fun t => P t ∧ p t = true :=
  ⟨h.1.filter p, fun t => by rw [List.mem_filter, h.2]⟩

/-- There is one list of the texts with a property. -/
theorem Lists.unique (h : Lists texts P) (h' : Lists texts' P) : texts = texts' :=
  h.1.eq_of_mem_iff h'.1 fun t => (h.2 t).trans (h'.2 t).symm

end Text

namespace Vocabulary

open Relation (EqvGen TransGen)

/-! ## Visiting one term after the other -/

/-- A walk over a table: the terms that are still to be visited, and those that have been found. -/
structure Walk where
  queue : List String
  found : List String

namespace Walk

/-- A walk begins at a term, which is not thereby found. -/
def start (term : String) : Walk :=
  ⟨[term], []⟩

/-- A term that is met for the first time is found and has to be visited. -/
def meet (w : Walk) (term : String) : Walk :=
  if w.found.contains term then w else ⟨w.queue ++ [term], w.found ++ [term]⟩

/-- Visits the first term in the queue, and meets whatever the table has beside it. -/
def visit (edges : List (String × String)) : Walk → Walk
  | ⟨[], found⟩ => ⟨[], found⟩
  | ⟨term :: queue, found⟩ => ((leaving [term] edges).map (·.2)).foldl meet ⟨queue, found⟩

/-- The walk from a term comes to rest, after at most one visit for each pair and one for the term itself, and
has then found these terms. -/
def Finds (edges : List (String × String)) (term : String) (terms : List String) : Prop :=
  ∃ n ≤ edges.length + 1, ∃ found, (visit edges)^[n] (start term) = ⟨[], found⟩ ∧
    Text.distinct found = terms

variable {edges : List (String × String)} {w : Walk} {term t : String} {terms : List String}

theorem mem_found_meet : t ∈ (w.meet term).found ↔ t ∈ w.found ∨ t = term := by
  rw [meet]
  split
  next h =>
    rw [List.contains_iff_mem] at h
    exact ⟨.inl, fun ht => ht.elim id fun ht => ht ▸ h⟩
  next => rw [List.mem_append, List.mem_singleton]

theorem mem_queue_meet : t ∈ (w.meet term).queue ↔ t ∈ w.queue ∨ t = term ∧ t ∉ w.found := by
  rw [meet]
  split
  next h =>
    rw [List.contains_iff_mem] at h
    refine ⟨.inl, ?_⟩
    rintro (ht | ⟨rfl, hnew⟩)
    · exact ht
    · exact absurd h hnew
  next h =>
    rw [List.contains_iff_mem] at h
    rw [List.mem_append, List.mem_singleton]
    exact or_congr_right ⟨fun ht => ⟨ht, ht ▸ h⟩, And.left⟩

theorem mem_found_meetAll : t ∈ (terms.foldl meet w).found ↔ t ∈ w.found ∨ t ∈ terms := by
  induction terms generalizing w with
  | nil => simp
  | cons term rest ih => rw [List.foldl_cons, ih, mem_found_meet, List.mem_cons, or_assoc]

theorem mem_queue_meetAll :
    t ∈ (terms.foldl meet w).queue ↔ t ∈ w.queue ∨ t ∈ terms ∧ t ∉ w.found := by
  induction terms generalizing w with
  | nil => simp
  | cons term rest ih =>
    rw [List.foldl_cons, ih, mem_queue_meet, mem_found_meet, List.mem_cons]
    grind

/-! ## The walk comes to rest -/

/-- How much there is left to visit: what is queued, and what can still be found. -/
def left (edges : List (String × String)) (w : Walk) : Nat :=
  w.queue.length + ((edges.map (·.2)).toFinset \ w.found.toFinset).card

theorem left_meet (h : term ∈ edges.map (·.2)) : (w.meet term).left edges = w.left edges := by
  rw [meet]
  split
  next => rfl
  next hnew =>
    rw [List.contains_iff_mem] at hnew
    have hmem : term ∈ (edges.map (·.2)).toFinset \ w.found.toFinset :=
      Finset.mem_sdiff.2 ⟨List.mem_toFinset.2 h, by rwa [List.mem_toFinset]⟩
    have hless : (edges.map (·.2)).toFinset \ (w.found ++ [term]).toFinset =
        ((edges.map (·.2)).toFinset \ w.found.toFinset).erase term := by
      ext u
      simp only [Finset.mem_sdiff, List.mem_toFinset, List.mem_append, List.mem_singleton, Finset.mem_erase]
      grind
    have hcard := Finset.card_erase_add_one hmem
    rw [left, left, hless, List.length_append, List.length_singleton]
    omega

theorem left_meetAll (h : ∀ t ∈ terms, t ∈ edges.map (·.2)) :
    (terms.foldl meet w).left edges = w.left edges := by
  induction terms generalizing w with
  | nil => rfl
  | cons term rest ih =>
    rw [List.foldl_cons, ih fun t ht => h t (List.mem_cons_of_mem term ht), left_meet (h term List.mem_cons_self)]

/-- With each visit there is one less left. -/
theorem left_visit (h : w.queue ≠ []) : (visit edges w).left edges + 1 = w.left edges := by
  obtain ⟨_ | ⟨term, queue⟩, found⟩ := w
  · exact absurd rfl h
  · rw [visit, left_meetAll]
    · dsimp only [left, List.length_cons]
      omega
    · intro t ht
      obtain ⟨e, he, rfl⟩ := List.mem_map.1 ht
      exact List.mem_map.2 ⟨e, (List.mem_filter.1 he).1, rfl⟩

theorem visit_of_queue_eq_nil (h : w.queue = []) : visit edges w = w := by
  obtain ⟨queue, found⟩ := w
  cases h
  rfl

theorem queue_iterate_visit {n : Nat} (h : w.left edges ≤ n) : ((visit edges)^[n] w).queue = [] := by
  induction n generalizing w with
  | zero =>
    rw [left] at h
    exact List.eq_nil_of_length_eq_zero (by rw [Function.iterate_zero, id]; omega)
  | succ n ih =>
    by_cases hqueue : w.queue = []
    · rw [Function.iterate_fixed (visit_of_queue_eq_nil hqueue), hqueue]
    · have hless : left edges (visit edges w) + 1 = left edges w := left_visit hqueue
      exact ih (by omega)

theorem left_start (edges : List (String × String)) (term : String) :
    (start term).left edges ≤ edges.length + 1 := by
  have hcard := (edges.map (·.2)).toFinset_card_le
  rw [List.length_map] at hcard
  rw [left, start, List.toFinset_nil, Finset.sdiff_empty, List.length_singleton]
  omega

/-! ## What it has found then -/

/-- What holds of a walk from a term after each visit: what was found can be reached, only that and the term
itself are queued, and where neither waits any more, all that a pair leads to has been found. -/
structure GoesFrom (edges : List (String × String)) (term : String) (w : Walk) : Prop where
  reached : ∀ t ∈ w.found, Reaches edges term t
  queued : ∀ t ∈ w.queue, t = term ∨ t ∈ w.found
  followed : ∀ a b, (a, b) ∈ edges → a = term ∨ a ∈ w.found → a ∈ w.queue ∨ b ∈ w.found

theorem goesFrom_start : (start term).GoesFrom edges term where
  reached _ ht := absurd ht List.not_mem_nil
  queued _ ht := .inl (List.mem_singleton.1 ht)
  followed _ _ _ ha := .inl (List.mem_singleton.2 (ha.resolve_right List.not_mem_nil))

theorem GoesFrom.visit (h : w.GoesFrom edges term) : (w.visit edges).GoesFrom edges term := by
  obtain ⟨_ | ⟨next, queue⟩, found⟩ := w
  · exact h
  have hends (t : String) : t ∈ (leaving [next] edges).map (·.2) ↔ (next, t) ∈ edges := by
    rw [mem_ends]
    simp
  have hnext : next = term ∨ Reaches edges term next :=
    (h.queued next List.mem_cons_self).imp_right (h.reached next)
  refine ⟨fun t ht => ?_, fun t ht => ?_, fun a b hab ha => ?_⟩
  · rw [Walk.visit, mem_found_meetAll, hends] at ht
    rcases ht with ht | ht
    · exact h.reached t ht
    · exact hnext.elim (fun heq => .single (heq ▸ ht)) fun hreach => hreach.tail ht
  · rw [Walk.visit, mem_queue_meetAll] at ht
    rw [Walk.visit, mem_found_meetAll]
    rcases ht with ht | ⟨ht, -⟩
    · exact (h.queued t (List.mem_cons_of_mem next ht)).imp_right .inl
    · exact .inr (.inr ht)
  · rw [Walk.visit, mem_found_meetAll, hends] at ha
    rw [Walk.visit, mem_queue_meetAll, mem_found_meetAll, hends, hends]
    -- a term that is met again without being new has been followed before, or is the one that is visited
    by_cases hnew : a = term ∨ a ∈ found
    · rcases h.followed a b hab hnew with hqueue | hfound
      · rcases List.mem_cons.1 hqueue with rfl | hqueue
        · exact .inr (.inr hab)
        · exact .inl (.inl hqueue)
      · exact .inr (.inl hfound)
    · rw [not_or] at hnew
      have hmet := (ha.resolve_left hnew.1).resolve_left hnew.2
      exact .inl (.inr ⟨hmet, hnew.2⟩)

theorem goesFrom_iterate_visit (n : Nat) : ((visit edges)^[n] (start term)).GoesFrom edges term := by
  induction n with
  | zero => exact goesFrom_start
  | succ n ih =>
    rw [Function.iterate_succ_apply']
    exact ih.visit

/-- A walk that has come to rest has found what can be reached. -/
theorem GoesFrom.mem_found_iff (h : w.GoesFrom edges term) (hrest : w.queue = []) :
    t ∈ w.found ↔ Reaches edges term t := by
  have honward (a b : String) (hab : (a, b) ∈ edges) (ha : a = term ∨ a ∈ w.found) : b ∈ w.found :=
    (h.followed a b hab ha).resolve_left (hrest ▸ List.not_mem_nil)
  refine ⟨h.reached t, fun hreach => ?_⟩
  induction hreach with
  | single hedge => exact honward term _ hedge (.inl rfl)
  | tail _ hedge ih => exact honward _ _ hedge (.inr ih)

theorem finds_of_lists (h : Text.Lists terms (Reaches edges term)) : Finds edges term terms := by
  have hrest : ((visit edges)^[edges.length + 1] (start term)).queue = [] :=
    queue_iterate_visit (left_start edges term)
  have hfound := fun t => (goesFrom_iterate_visit (edges.length + 1)).mem_found_iff (t := t) hrest
  refine ⟨edges.length + 1, Nat.le_refl _, ((visit edges)^[edges.length + 1] (start term)).found, ?_, ?_⟩
  · rw [← hrest]
  · exact (Text.lists_distinct hfound).unique h

end Walk

/-! ## The answers -/

variable {broader exact edges : List (String × String)} {term other : String}

theorem lists_reachedFrom (edges : List (String × String)) (term : String) :
    Text.Lists (Text.distinct (reachedFrom [term] edges)) (Reaches edges term) :=
  Text.lists_distinct fun _ => by rw [mem_reachedFrom]; simp

/-- Two different terms are connected if there is a path of pairs that may be followed in both directions. -/
theorem reaches_bothWays_iff (hne : other ≠ term) :
    Reaches (edges ++ reversed edges) term other ↔ EqvGen (fun s t => (s, t) ∈ edges) term other := by
  have hstep : (fun s t => (s, t) ∈ edges ++ reversed edges) =
      Relation.SymmGen fun s t => (s, t) ∈ edges := by
    funext s t
    rw [List.mem_append, mem_reversed]
    rfl
  rw [Reaches, hstep, ← Relation.EqvGen.reflTransGen_symmGen, Relation.reflTransGen_iff_eq_or_transGen,
    or_iff_right hne]

/-- Whatever pairs are declared, with cycles or without: the broader terms are those that a path of at least one
pair leads to, the narrower terms those that one leads from, and the terms that mean the same are the other terms
that the pairs connect, followed in any direction. Each answer is in order and without repetitions, and is
what a walk of bounded length finds that visits one term at a time. -/
theorem terms_declared (broader exact : List (String × String)) (term : String) :
    (Text.Lists ((declared broader exact).broaderTerms term)
        (TransGen (fun s t => (s, t) ∈ broader) term) ∧
      Walk.Finds broader term ((declared broader exact).broaderTerms term)) ∧
    (Text.Lists ((declared broader exact).narrowerTerms term)
        (TransGen (fun s t => (t, s) ∈ broader) term) ∧
      Walk.Finds (reversed broader) term ((declared broader exact).narrowerTerms term)) ∧
    (Text.Lists ((declared broader exact).exactTerms term)
        (fun other => other ≠ term ∧ EqvGen (fun s t => (s, t) ∈ exact) term other) ∧
      ∃ found, Walk.Finds (exact ++ reversed exact) term found ∧
        (declared broader exact).exactTerms term = found.filter (· != term)) := by
  have hbroader := lists_reachedFrom broader term
  have hnarrower := lists_reachedFrom (reversed broader) term
  have hexact := lists_reachedFrom (exact ++ reversed exact) term
  refine ⟨⟨hbroader, Walk.finds_of_lists hbroader⟩, ⟨hnarrower.congr fun other => ?_,
    Walk.finds_of_lists hnarrower⟩, (hexact.filter fun t => t != term).congr fun other => ?_, _,
    Walk.finds_of_lists hexact, rfl⟩
  · simp only [Reaches, mem_reversed]
  · rw [bne_iff_ne, and_comm]
    exact and_congr_right reaches_bothWays_iff

/-- In a cycle a term is broader than itself. -/
example : (declared [("a", "b"), ("b", "a")] []).broaderTerms "a" = ["a", "b"] := by cbv

end Vocabulary

end Crosswalk
