import Crosswalk.Xml.Location
import Mathlib.Data.List.Basic

/-!
# Document order

Document order is a strict order of all locations, whether a document has a node there or not, and
bringing locations into order leaves each of them once.
-/

namespace Crosswalk.Xml.Location

variable {l m n : Location} {ls : List Location}

/-! ## The order of locations -/

theorem pathBefore_irrefl (p : List Nat) : pathBefore p p = false := by
  induction p with
  | nil => rfl
  | cons i p ih => simp [pathBefore, ih]

theorem pathBefore_trans {p q r : List Nat} (hpq : pathBefore p q = true)
    (hqr : pathBefore q r = true) : pathBefore p r = true := by
  induction p generalizing q r with
  | nil =>
    cases r with
    | nil => cases q <;> cases hqr
    | cons => rfl
  | cons i p ih =>
    cases q with
    | nil => cases hpq
    | cons j q =>
      cases r with
      | nil => cases hqr
      | cons k r =>
        simp only [pathBefore, Bool.or_eq_true, Bool.and_eq_true, decide_eq_true_eq,
          beq_iff_eq] at hpq hqr ⊢
        rcases hpq with hij | ⟨rfl, hpq⟩
        · left
          rcases hqr with hjk | ⟨rfl, -⟩ <;> omega
        · rcases hqr with hjk | ⟨rfl, hqr⟩
          · exact .inl hjk
          · exact .inr ⟨rfl, ih hpq hqr⟩

theorem pathBefore_of_ne {p q : List Nat} (h : p ≠ q) :
    pathBefore p q = true ∨ pathBefore q p = true := by
  induction p generalizing q with
  | nil =>
    cases q with
    | nil => exact absurd rfl h
    | cons => exact .inl rfl
  | cons i p ih =>
    cases q with
    | nil => exact .inr rfl
    | cons j q =>
      simp only [pathBefore, Bool.or_eq_true, Bool.and_eq_true, decide_eq_true_eq, beq_iff_eq]
      rcases Nat.lt_trichotomy i j with hij | rfl | hij
      · exact .inl (.inl hij)
      · have hpq : p ≠ q := by
          rintro rfl
          exact h rfl
        exact (ih hpq).imp (fun h => .inr ⟨rfl, h⟩) fun h => .inr ⟨rfl, h⟩
      · exact .inr (.inl hij)

theorem before_iff : l.before m = true ↔
    pathBefore l.path m.path = true ∨ l.path = m.path ∧ l.slot < m.slot := by
  simp [before]

theorem before_irrefl (l : Location) : l.before l = false := by
  simp [before, pathBefore_irrefl]

theorem before_trans (hlm : l.before m = true) (hmn : m.before n = true) : l.before n = true := by
  rw [before_iff] at hlm hmn ⊢
  rcases hlm with hlm | ⟨hlm, hslot⟩
  · left
    rcases hmn with hmn | ⟨hmn, -⟩
    · exact pathBefore_trans hlm hmn
    · rwa [← hmn]
  · rcases hmn with hmn | ⟨hmn, hslot'⟩
    · left
      rwa [hlm]
    · exact .inr ⟨hlm.trans hmn, Nat.lt_trans hslot hslot'⟩

theorem before_asymm (h : l.before m = true) : m.before l = false := by
  rw [Bool.eq_false_iff]
  intro h'
  have := before_trans h h'
  rw [before_irrefl] at this
  cases this

theorem slot_injective (hpath : l.path = m.path) (h : l.slot = m.slot) : l = m := by
  obtain ⟨p, _ | i⟩ := l <;> obtain ⟨q, _ | j⟩ := m <;> simp_all [slot]

theorem before_of_ne (h : l ≠ m) : l.before m = true ∨ m.before l = true := by
  simp only [before_iff]
  by_cases hpath : l.path = m.path
  · have hslot : l.slot ≠ m.slot := fun hslot => h (slot_injective hpath hslot)
    rcases Nat.lt_or_gt_of_ne hslot with hlt | hlt
    · exact .inl (.inr ⟨hpath, hlt⟩)
    · exact .inr (.inr ⟨hpath.symm, hlt⟩)
  · exact (pathBefore_of_ne hpath).imp .inl .inl

/-- What is not after something is before it or the same. -/
theorem not_before_trans (hlm : m.before l = false) (hmn : n.before m = false) :
    n.before l = false := by
  by_cases h : m = n
  · rwa [← h]
  · rcases before_of_ne h with h | h
    · rw [Bool.eq_false_iff]
      intro hnl
      rw [before_trans h hnl] at hlm
      cases hlm
    · rw [h] at hmn
      cases hmn

/-- Locations in document order, none of them twice. -/
def Ordered (ls : List Location) : Prop :=
  ls.Pairwise fun l m => l.before m = true

theorem Ordered.nodup (h : Ordered ls) : ls.Nodup := by
  refine List.Pairwise.imp ?_ h
  rintro l _ hlm rfl
  rw [before_irrefl] at hlm
  cases hlm

theorem Ordered.sublist {kept : List Location} (h : Ordered ls) (hkept : kept.Sublist ls) :
    Ordered kept :=
  List.Pairwise.sublist hkept h

/-- Locations in document order are the same as soon as the same are among them. -/
theorem Ordered.eq_of_mem_iff {ms : List Location} (h : Ordered ls) (h' : Ordered ms)
    (hmem : ∀ l, l ∈ ls ↔ l ∈ ms) : ls = ms := by
  refine List.Perm.eq_of_pairwise (fun l m _ _ hlm hml => ?_) h h'
    ((List.perm_ext_iff_of_nodup h.nodup h'.nodup).2 hmem)
  rw [before_asymm hlm] at hml
  cases hml

theorem ordered_singleton (l : Location) : Ordered [l] :=
  List.pairwise_singleton _ l

/-! ## Bringing locations into order -/

theorem mem_dropRepeats : l ∈ dropRepeats ls ↔ l ∈ ls := by
  fun_induction dropRepeats ls with
  | case1 => rfl
  | case2 => rfl
  | case3 m n rest heq ih =>
    rw [beq_iff_eq] at heq
    subst heq
    rw [ih]
    simp
  | case4 m n rest hne ih => rw [List.mem_cons, ih, List.mem_cons (a := l) (b := m)]

theorem ordered_dropRepeats (h : ls.Pairwise fun l m => m.before l = false) :
    Ordered (dropRepeats ls) := by
  fun_induction dropRepeats ls with
  | case1 => exact List.Pairwise.nil
  | case2 l => exact ordered_singleton l
  | case3 m n rest heq ih => exact ih h.of_cons
  | case4 m n rest hne ih =>
    rw [List.pairwise_cons] at h
    refine List.pairwise_cons.2 ⟨fun k hk => ?_, ih h.2⟩
    rw [beq_iff_eq] at hne
    have hmn : m.before n = true := by
      rcases before_of_ne hne with hmn | hnm
      · exact hmn
      · rw [h.1 n List.mem_cons_self] at hnm
        cases hnm
    -- what follows is not before `n`, and so it is after `m`
    rcases List.mem_cons.1 (mem_dropRepeats.1 hk) with rfl | hk
    · exact hmn
    · have hkn : k.before n = false := (List.pairwise_cons.1 h.2).1 k hk
      by_cases heq : k = n
      · rwa [heq]
      · rcases before_of_ne heq with h' | hnk
        · rw [hkn] at h'
          cases h'
        · exact before_trans hmn hnk

theorem mem_inOrder : l ∈ inOrder ls ↔ l ∈ ls := by
  rw [inOrder, mem_dropRepeats, List.mem_mergeSort]

theorem ordered_inOrder (ls : List Location) : Ordered (inOrder ls) := by
  refine ordered_dropRepeats (List.Pairwise.imp ?_ (List.pairwise_mergeSort ?_ ?_ ls))
  · intro l m h
    simpa using h
  · intro l m n hlm hmn
    simp only [Bool.not_eq_true'] at hlm hmn ⊢
    exact not_before_trans hlm hmn
  · intro l m
    simp only [Bool.or_eq_true, Bool.not_eq_true']
    cases h : m.before l with
    | false => exact .inl rfl
    | true => exact .inr (before_asymm h)

theorem dropRepeats_of_ordered (h : Ordered ls) : dropRepeats ls = ls := by
  fun_induction dropRepeats ls with
  | case1 => rfl
  | case2 => rfl
  | case3 m n rest heq ih =>
    rw [beq_iff_eq] at heq
    exact absurd (heq ▸ List.mem_cons_self) (List.nodup_cons.1 h.nodup).1
  | case4 m n rest hne ih => rw [ih h.of_cons]

/-- Locations in order stay as they are. -/
theorem inOrder_of_ordered (h : Ordered ls) : inOrder ls = ls := by
  have hsorted : ls.Pairwise fun l m => !m.before l :=
    List.Pairwise.imp (fun hlm => by simp [before_asymm hlm]) h
  rw [inOrder, List.mergeSort_of_pairwise hsorted, dropRepeats_of_ordered h]

end Crosswalk.Xml.Location
