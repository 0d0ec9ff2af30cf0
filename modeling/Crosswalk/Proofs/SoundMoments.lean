import Crosswalk.Proofs.Variables
import Crosswalk.Proofs.WatchedRuns

/-!
# Sound moments

At a sound moment of a run the contexts are those of one domain node: the first one is its own, every other one
belongs to an earlier one, and all numbers that are held have a context. So the way up from each context ends at
the first one.

A moment stays sound while contexts keep their seats and others are entered, and a number that had a context
still has one then.
-/

namespace Crosswalk

/-! ## Contexts -/

namespace Contexts

variable {cs ds es : Contexts} {id : Nat}

theorem get?_eq_some (h : id < cs.size) : cs.get? id = some (cs.get id) := by
  rw [size] at h
  simp [get?, get, h]

theorem truncate_zero (cs : Contexts) : cs.truncate 0 = .empty := by
  simp [truncate, empty]

/-- The contexts that there were are still there, each in its seat. -/
structure Keeps (cs ds : Contexts) : Prop where
  size_le : cs.size ≤ ds.size
  seat : ∀ id < cs.size, (ds.get id).seat = (cs.get id).seat

theorem Keeps.refl (cs : Contexts) : cs.Keeps cs :=
  ⟨Nat.le_refl _, fun _ _ => rfl⟩

theorem Keeps.trans (h : cs.Keeps ds) (h' : ds.Keeps es) : cs.Keeps es :=
  ⟨Nat.le_trans h.size_le h'.size_le,
    fun id hid => (h'.seat id (Nat.lt_of_lt_of_le hid h.size_le)).trans (h.seat id hid)⟩

/-- What had a context still has one. -/
theorem Keeps.lt_size (h : cs.Keeps ds) (hid : id < cs.size) : id < ds.size :=
  Nat.lt_of_lt_of_le hid h.size_le

theorem Keeps.all_lt_size {ids : List Nat} (h : cs.Keeps ds) (hids : ∀ id ∈ ids, id < cs.size) :
    ∀ id ∈ ids, id < ds.size :=
  fun id hid => h.lt_size (hids id hid)

theorem keeps_push (cs : Contexts) (c : Context) : cs.Keeps (cs.push c) :=
  ⟨by simp, fun id hid => by rw [get_push_of_ne (Nat.ne_of_lt hid)]⟩

theorem keeps_update {f : Context → Context} (hf : ∀ c, (f c).seat = c.seat) (cs : Contexts) (id : Nat) :
    cs.Keeps (cs.update id f) :=
  ⟨by simp, fun _ _ => get_update_congr (·.seat) hf⟩

end Contexts

/-! ## Moments -/

namespace Moment

/-- A context is that of the domain node that the run is at. -/
structure IsDomain (m : Moment) (c : Context) : Prop where
  role_eq : c.role = .domain
  parent?_eq : c.parent? = none
  domain?_eq : m.watch.domain? = some (c.node, c.position)

/-- The contexts are those of the domain node that the run is at, and what is held is among them. -/
structure IsSound (m : Moment) : Prop where
  first : 0 < m.contexts.size → m.IsDomain (m.contexts.get 0)
  others : ∀ id < m.contexts.size, id ≠ 0 →
    (m.contexts.get id).role ≠ .domain ∧ ∃ parent < id, (m.contexts.get id).parent? = some parent
  held : ∀ id ∈ m.watch.held, id < m.contexts.size

variable {w : Watch} {cs ds : Contexts} {m : Moment} {id n : Nat} {ids : List Nat}

/-- Nothing cuts off the way up, and it ends at the first context. -/
theorem IsSound.climb?_eq (h : m.IsSound) (hid : id < m.contexts.size) (hn : id < n) :
    m.contexts.climb? n id = some 0 := by
  induction n generalizing id with
  | zero => cases hn
  | succ n ih =>
    rw [Contexts.climb?, Contexts.get?_eq_some hid]
    dsimp only
    by_cases hzero : id = 0
    · subst hzero
      rw [(h.first hid).role_eq]
    · obtain ⟨hrole, parent, hlt, hparent⟩ := h.others id hid hzero
      have hrest := ih (Nat.lt_trans hlt hid) (by omega : parent < n)
      rw [hparent]
      cases hcase : (m.contexts.get id).role with
      | domain => exact absurd hcase hrole
      | _ => exact hrest

theorem IsSound.owner_eq (h : m.IsSound) (hid : id < m.contexts.size) : m.contexts.owner id = 0 := by
  induction id using Nat.strongRecOn with
  | ind id ih =>
    by_cases hzero : id = 0
    · rw [hzero, Contexts.owner_zero]
    · obtain ⟨hrole, parent, hlt, hparent⟩ := h.others id hid hzero
      rw [Contexts.owner_of_parent hrole hparent hlt, ih parent hlt (Nat.lt_trans hlt hid)]

/-- Only seats matter. -/
theorem IsSound.congr (h : IsSound ⟨w, cs⟩) (hsize : ds.size = cs.size) (hkeeps : cs.Keeps ds) :
    IsSound ⟨w, ds⟩ := by
  have hseat (id : Nat) (hid : id < ds.size) := hkeeps.seat id (hsize ▸ hid)
  have hrole (id : Nat) (hid : id < ds.size) : (ds.get id).role = (cs.get id).role :=
    congrArg (·.1) (hseat id hid)
  have hparent (id : Nat) (hid : id < ds.size) : (ds.get id).parent? = (cs.get id).parent? :=
    congrArg (·.2.1) (hseat id hid)
  have hplace (id : Nat) (hid : id < ds.size) :
      ((ds.get id).node, (ds.get id).position) = ((cs.get id).node, (cs.get id).position) :=
    congrArg (·.2.2) (hseat id hid)
  refine ⟨fun hpos => ?_, fun id hid hne => ?_, fun id hid => hsize ▸ h.held id hid⟩
  · obtain ⟨hdomain, hnone, hat⟩ := h.first (hsize ▸ hpos)
    exact ⟨(hrole 0 hpos).trans hdomain, (hparent 0 hpos).trans hnone, hat.trans (congrArg some (hplace 0 hpos)).symm⟩
  · obtain ⟨hdomain, parent, hlt, hsome⟩ := h.others id (hsize ▸ hid) hne
    exact ⟨hrole id hid ▸ hdomain, parent, hlt, (hparent id hid).trans hsome⟩

/-- A context may be entered that belongs to one of those that are there. -/
theorem IsSound.push (h : IsSound ⟨w, cs⟩) {c : Context} {parent : Nat} (hrole : c.role ≠ .domain)
    (hparent : c.parent? = some parent) (hlive : parent < cs.size) : IsSound ⟨w, cs.push c⟩ := by
  have hold (id : Nat) (hid : id < cs.size) : (cs.push c).get id = cs.get id :=
    Contexts.get_push_of_ne (Nat.ne_of_lt hid)
  refine ⟨fun _ => ?_, fun id hid hne => ?_, fun id hid => ?_⟩
  · have hpos : 0 < cs.size := Nat.zero_lt_of_lt hlive
    obtain ⟨hdomain, hnone, hat⟩ := h.first hpos
    exact ⟨(hold 0 hpos).symm ▸ hdomain, (hold 0 hpos).symm ▸ hnone, (hold 0 hpos).symm ▸ hat⟩
  · by_cases hlast : id = cs.size
    · subst hlast
      rw [Contexts.get_push_size]
      exact ⟨hrole, parent, hlive, hparent⟩
    · have hlt : id < cs.size := by
        have : id < (cs.push c).size := hid
        rw [Contexts.size_push] at this
        omega
      exact (hold id hlt).symm ▸ h.others id hlt hne
  · exact Nat.lt_of_lt_of_le (h.held id hid) (by simp)

/-- Without contexts a moment is sound if nothing is held. -/
theorem isSound_empty (hheld : w.held = []) : IsSound ⟨w, .empty⟩ :=
  ⟨fun h => absurd h (Nat.lt_irrefl 0), fun _ h => absurd h (Nat.not_lt_zero _), by simp [hheld]⟩

/-- The first context to be entered is that of the domain node. -/
theorem isSound_domain (node : Xml.Location) (position : Nat) :
    IsSound ⟨⟨some (node, position), []⟩, Contexts.empty.push (.fresh .domain node position none)⟩ := by
  refine ⟨fun _ => ⟨rfl, rfl, rfl⟩, fun id hid hne => ?_, by simp⟩
  exact absurd (Nat.lt_one_iff.1 hid) hne

theorem IsSound.hold (h : IsSound ⟨w, cs⟩) (hids : ∀ id ∈ ids, id < cs.size) :
    IsSound ⟨{ w with held := ids ++ w.held }, cs⟩ :=
  ⟨fun hpos => let ⟨hrole, hparent, hat⟩ := h.first hpos; ⟨hrole, hparent, hat⟩, h.others, fun id hid =>
    (List.mem_append.1 hid).elim (hids id) (h.held id)⟩

theorem IsSound.of_hold (h : IsSound ⟨{ w with held := ids ++ w.held }, cs⟩) : IsSound ⟨w, cs⟩ :=
  ⟨fun hpos => let ⟨hrole, hparent, hat⟩ := h.first hpos; ⟨hrole, hparent, hat⟩, h.others, fun id hid =>
    h.held id (List.mem_append_right _ hid)⟩

end Moment

end Crosswalk
