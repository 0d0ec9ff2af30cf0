import Crosswalk.Vocabulary.Closure
import Mathlib.Logic.Relation

/-!
# Reaching is following edges

An edge that has been followed is taken out of the edges that remain, so what is followed later is followed
in a smaller graph. Nothing is lost by it: the end of an edge that is taken out has been reached already, and
any further edge of a path leaves from there. So what is reached is what stands at the end of a path of
at least one edge, and in the reversed graph at its beginning.
-/

namespace Crosswalk.Vocabulary

open Relation (TransGen)

variable {α : Type}

/-- A path of at least one edge from one node to another. -/
def Reaches (edges : List (α × α)) : α → α → Prop :=
  TransGen fun a b => (a, b) ∈ edges

variable {edges edges' : List (α × α)} {a b : α}

theorem mem_reversed : (a, b) ∈ reversed edges ↔ (b, a) ∈ edges := by
  rw [reversed, List.mem_map]
  constructor
  · rintro ⟨e, he, hab⟩
    cases hab
    exact he
  · intro h
    exact ⟨(b, a), h, rfl⟩

theorem Reaches.mono (h : Reaches edges a b) (hsub : edges ⊆ edges') : Reaches edges' a b :=
  TransGen.mono (fun _ _ hab => hsub hab) _ _ h

theorem reaches_reversed : Reaches (reversed edges) a b ↔ Reaches edges b a := by
  unfold Reaches
  rw [← Relation.transGen_swap]
  simp only [mem_reversed]

theorem Reaches.exists_first (h : Reaches edges a b) : ∃ c, (a, c) ∈ edges := by
  obtain ⟨c, hac, -⟩ := TransGen.head'_iff.1 h
  exact ⟨c, hac⟩

variable [DecidableEq α] {nodes : List α}

theorem mem_leaving : (a, b) ∈ leaving nodes edges ↔ (a, b) ∈ edges ∧ a ∈ nodes := by
  rw [leaving, List.mem_filter, List.contains_iff_mem]

theorem mem_remaining : (a, b) ∈ remaining nodes edges ↔ (a, b) ∈ edges ∧ a ∉ nodes := by
  rw [remaining, List.mem_filter, Bool.not_eq_true', ← Bool.not_eq_true, List.contains_iff_mem]

theorem mem_ends : b ∈ (leaving nodes edges).map (·.2) ↔ ∃ a ∈ nodes, (a, b) ∈ edges := by
  rw [List.mem_map]
  constructor
  · rintro ⟨⟨a, b⟩, he, rfl⟩
    exact ⟨a, (mem_leaving.1 he).2, (mem_leaving.1 he).1⟩
  · rintro ⟨a, ha, he⟩
    exact ⟨(a, b), mem_leaving.2 ⟨he, ha⟩, rfl⟩

/-- A path goes no further than one edge, or on from where edges have led along edges that remain. -/
theorem Reaches.resume (h : Reaches edges a b) (ha : a ∈ nodes) :
    b ∈ (leaving nodes edges).map (·.2) ∨
      ∃ c ∈ nodes ++ (leaving nodes edges).map (·.2), Reaches (remaining nodes edges) c b := by
  induction h with
  | single hab => exact .inl (mem_ends.2 ⟨a, ha, hab⟩)
  | @tail c b _ hcb ih =>
    by_cases hc : c ∈ nodes
    · exact .inl (mem_ends.2 ⟨c, hc, hcb⟩)
    · have hremains : (c, b) ∈ remaining nodes edges := mem_remaining.2 ⟨hcb, hc⟩
      rcases ih with hend | ⟨start, hstart, hpath⟩
      · exact .inr ⟨c, List.mem_append_right _ hend, .single hremains⟩
      · exact .inr ⟨start, hstart, hpath.tail hremains⟩

theorem mem_reachedFrom : b ∈ reachedFrom nodes edges ↔ ∃ a ∈ nodes, Reaches edges a b := by
  fun_induction reachedFrom nodes edges with
  | case1 nodes edges hnone =>
    refine iff_of_false List.not_mem_nil ?_
    rintro ⟨a, ha, hab⟩
    obtain ⟨c, hac⟩ := hab.exists_first
    exact List.ne_nil_of_mem (mem_leaving.2 ⟨hac, ha⟩) hnone
  | case2 nodes edges _ ends ih =>
    rw [List.mem_append, ih]
    constructor
    · rintro (hb | ⟨c, hc, hcb⟩)
      · obtain ⟨a, ha, hab⟩ := mem_ends.1 hb
        exact ⟨a, ha, .single hab⟩
      · have hcb : Reaches edges c b := hcb.mono fun _ he => (List.mem_filter.1 he).1
        rcases List.mem_append.1 hc with hc | hc
        · exact ⟨c, hc, hcb⟩
        · obtain ⟨a, ha, hac⟩ := mem_ends.1 hc
          exact ⟨a, ha, .head hac hcb⟩
    · rintro ⟨a, ha, hab⟩
      exact hab.resume ha

end Crosswalk.Vocabulary
