import Mathlib.Data.List.Forall2
import Mathlib.Data.List.Perm.Basic

/-!
# Results that may be faults

What reads the source or the mapping gives a result or a fault. A result of several such readings, one
after the other or one for each member of a list, has a result of each of them behind it. Two readings can be
followed side by side, from their parts to the whole: where they fail, and where their results are the same.
-/

namespace Crosswalk

section

variable {ε ε' α β : Type}

theorem bind_eq_ok {x : Except ε α} {f : α → Except ε β} {b : β} :
    x >>= f = .ok b ↔ ∃ a, x = .ok a ∧ f a = .ok b := by
  cases x with
  | error e =>
    constructor
    · intro h
      cases h
    · rintro ⟨a, h, -⟩
      cases h
  | ok a =>
    constructor
    · intro h
      exact ⟨a, rfl, h⟩
    · rintro ⟨_, ⟨⟩, h⟩
      exact h

/-- A reading of which only matters that it has a result. -/
theorem bind_const_eq_ok {x : Except ε α} {y : Except ε β} {b : β} :
    (x >>= fun _ => y) = .ok b ↔ (∃ a, x = .ok a) ∧ y = .ok b := by
  rw [bind_eq_ok]
  exact exists_and_right

theorem bind_unit_eq_ok {x : Except ε Unit} {f : Unit → Except ε β} {b : β} :
    x >>= f = .ok b ↔ x = .ok () ∧ f () = .ok b := by
  rw [bind_eq_ok]
  exact ⟨fun ⟨_, h⟩ => h, fun h => ⟨(), h⟩⟩

theorem mapError_eq_ok {x : Except ε α} {g : ε → ε'} {a : α} :
    x.mapError g = .ok a ↔ x = .ok a := by
  cases x <;> simp [Except.mapError]

/-- What a reading is at fault for. -/
def faultOf? : Except ε α → Option ε
  | .ok _ => none
  | .error e => some e

theorem faultOf?_eq_some_iff {x : Except ε α} {e : ε} : faultOf? x = some e ↔ x = .error e := by
  cases x <;> simp [faultOf?]

theorem eq_ok_of_toOption {x : Except ε α} {a : α} (h : x.toOption = some a) : x = .ok a := by
  cases x <;> cases h
  rfl

end

/-! ## Lists of results -/

section

variable {ε α β : Type} {g : α → Except ε β} {as : List α} {bs : List β}

theorem mapM_eq_ok_iff : as.mapM g = .ok bs ↔ List.Forall₂ (fun a b => g a = .ok b) as bs := by
  induction as generalizing bs with
  | nil =>
    rw [List.mapM_nil, List.forall₂_nil_left_iff]
    constructor
    · rintro ⟨⟩
      rfl
    · rintro rfl
      rfl
  | cons a rest ih =>
    rw [List.mapM_cons, List.forall₂_cons_left_iff]
    constructor
    · intro h
      rcases ha : g a with _ | b
      · rw [ha] at h
        cases h
      rcases hrest : rest.mapM g with _ | bs'
      · rw [ha, hrest] at h
        cases h
      rw [ha, hrest] at h
      cases h
      exact ⟨b, bs', rfl, ih.1 hrest, rfl⟩
    · rintro ⟨b, bs', ha, hrest, rfl⟩
      rw [ha, ih.2 hrest]
      rfl

theorem mapM_cons_eq_ok_iff {a : α} :
    (a :: as).mapM g = .ok bs ↔ ∃ b rest, g a = .ok b ∧ as.mapM g = .ok rest ∧ bs = b :: rest := by
  simp only [mapM_eq_ok_iff, List.forall₂_cons_left_iff]

/-- What is made of the members of a list is read back if each of them is. -/
theorem mapM_map_eq_ok {f : β → α} (h : ∀ b ∈ bs, g (f b) = .ok b) : (bs.map f).mapM g = .ok bs := by
  rw [mapM_eq_ok_iff, List.forall₂_map_left_iff]
  exact List.forall₂_same.2 h

theorem mem_mapM_iff (h : as.mapM g = .ok bs) {b : β} : b ∈ bs ↔ ∃ a ∈ as, g a = .ok b := by
  have hall := mapM_eq_ok_iff.1 h
  clear h
  induction hall with
  | nil => simp
  | cons ha _ ih =>
    simp only [List.mem_cons, ih, exists_eq_or_imp, ha, Except.ok.injEq]
    exact or_congr_left eq_comm

theorem exists_of_mem_mapM (h : as.mapM g = .ok bs) {a : α} (ha : a ∈ as) :
    ∃ b ∈ bs, g a = .ok b := by
  have hall := mapM_eq_ok_iff.1 h
  clear h
  induction hall with
  | nil => cases ha
  | cons hab _ ih =>
    rcases List.mem_cons.1 ha with rfl | ha
    · exact ⟨_, List.mem_cons_self, hab⟩
    · obtain ⟨b, hb, hg⟩ := ih ha
      exact ⟨b, List.mem_cons_of_mem _ hb, hg⟩

/-- A list of readings has a result if each of them has one. -/
theorem exists_mapM_iff : (∃ bs, as.mapM g = .ok bs) ↔ ∀ a ∈ as, ∃ b, g a = .ok b := by
  simp only [mapM_eq_ok_iff]
  induction as with
  | nil => simp
  | cons a rest ih =>
    rw [List.forall_mem_cons, ← ih]
    constructor
    · rintro ⟨_, h⟩
      obtain ⟨b, bs, ha, hrest, rfl⟩ := List.forall₂_cons_left_iff.1 h
      exact ⟨⟨b, ha⟩, bs, hrest⟩
    · rintro ⟨⟨b, ha⟩, bs, hrest⟩
      exact ⟨b :: bs, .cons ha hrest⟩

/-- Each member of the one list has its counterpart in the other. -/
theorem exists_mem_right_of_forall₂ {R : α → β → Prop} (h : List.Forall₂ R as bs) {a : α}
    (ha : a ∈ as) : ∃ b ∈ bs, R a b := by
  induction h with
  | nil => cases ha
  | cons hab _ ih =>
    rcases List.mem_cons.1 ha with rfl | ha
    · exact ⟨_, List.mem_cons_self, hab⟩
    · obtain ⟨b, hb, hr⟩ := ih ha
      exact ⟨b, List.mem_cons_of_mem _ hb, hr⟩

theorem exists_mem_left_of_forall₂ {R : α → β → Prop} (h : List.Forall₂ R as bs) {b : β}
    (hb : b ∈ bs) : ∃ a ∈ as, R a b :=
  exists_mem_right_of_forall₂ (R := flip R) h.flip hb

end

section

variable {ε α β γ : Type}

/-- What is read of a list in another order is the same in another order. -/
theorem exists_mapM_of_perm {g : α → Except ε β} {as as' : List α} {bs : List β} (h : as.Perm as')
    (hbs : as.mapM g = .ok bs) : ∃ bs', as'.mapM g = .ok bs' ∧ bs.Perm bs' := by
  obtain ⟨bs', hbs', hperm⟩ := List.perm_comp_forall₂ h.symm (mapM_eq_ok_iff.1 hbs)
  exact ⟨bs', mapM_eq_ok_iff.2 hbs', hperm.symm⟩

/-- What holds of all members of a list holds of all members of the other. -/
theorem forall_mem_iff_of_forall₂ {R : α → β → Prop} {as : List α} {bs : List β} {P : α → Prop} {Q : β → Prop}
    (h : List.Forall₂ R as bs) (hR : ∀ a b, R a b → (P a ↔ Q b)) : (∀ a ∈ as, P a) ↔ ∀ b ∈ bs, Q b := by
  induction h with
  | nil => simp
  | cons hab _ ih => rw [List.forall_mem_cons, List.forall_mem_cons, hR _ _ hab, ih]

/-- Two lists that agree in a part of each member, and pair by pair in the rest. -/
theorem forall₂_of_zip {as as' : List α} {f : α → γ} {R : α → α → Prop} (hmap : as.map f = as'.map f)
    (h : ∀ p ∈ as.zip as', R p.1 p.2) : List.Forall₂ (fun a a' => f a = f a' ∧ R a a') as as' := by
  induction as generalizing as' with
  | nil =>
    obtain rfl : as' = [] := List.map_eq_nil_iff.1 hmap.symm
    exact .nil
  | cons a rest ih =>
    cases as' with
    | nil => cases hmap
    | cons a' rest' =>
      rw [List.map_cons, List.map_cons, List.cons.injEq] at hmap
      rw [List.zip_cons_cons, List.forall_mem_cons] at h
      exact .cons ⟨hmap.1, h.1⟩ (ih hmap.2 h.2)

end

/-! ## Two readings side by side -/

/-- Two readings with the same fault, or with results in a relation. -/
inductive Agree {ε α : Type} (S : α → α → Prop) : Except ε α → Except ε α → Prop
  | error (e : ε) : Agree S (.error e) (.error e)
  | ok {a b : α} (h : S a b) : Agree S (.ok a) (.ok b)

/-- Two readings that fail together and with the same fault, and whose results are the same just if `P` holds. -/
def SameIff {ε α : Type} (P : Prop) : Except ε α → Except ε α → Prop :=
  Agree fun a b => a = b ↔ P

section

variable {ε ε' α β γ : Type} {S : α → α → Prop} {T : β → β → Prop} {P P' : Prop} {x y : Except ε α}

namespace Agree

theorem refl (x : Except ε α) : Agree Eq x x := by
  cases x with
  | error e => exact .error e
  | ok a => exact .ok rfl

theorem mono {S' : α → α → Prop} (hS : ∀ a b, S a b → S' a b) (h : Agree S x y) : Agree S' x y := by
  cases h with
  | error e => exact .error e
  | ok h => exact .ok (hS _ _ h)

theorem bind {f g : α → Except ε β} (h : Agree S x y) (hf : ∀ a b, S a b → Agree T (f a) (g b)) :
    Agree T (x >>= f) (y >>= g) := by
  cases h with
  | error e => exact .error e
  | ok h => exact hf _ _ h

theorem map {f g : α → β} (h : Agree S x y) (hf : ∀ a b, S a b → T (f a) (g b)) :
    Agree T (x.map f) (y.map g) := by
  cases h with
  | error e => exact .error e
  | ok h => exact .ok (hf _ _ h)

theorem mapError (f : ε → ε') (h : Agree S x y) : Agree S (x.mapError f) (y.mapError f) := by
  cases h with
  | error e => exact .error (f e)
  | ok h => exact .ok h

variable {zs : List (γ × γ)}

/-- Readings of the members of two lists agree if they do pair by pair. -/
theorem mapM {S : γ × γ → α → α → Prop} {f : γ → Except ε α} (h : ∀ z ∈ zs, Agree (S z) (f z.1) (f z.2)) :
    Agree (fun as bs => ∃ rs : List (α × α), as = rs.map Prod.fst ∧ bs = rs.map Prod.snd ∧
      List.Forall₂ (fun z r => S z r.1 r.2) zs rs) ((zs.map Prod.fst).mapM f) ((zs.map Prod.snd).mapM f) := by
  induction zs with
  | nil => exact .ok ⟨[], rfl, rfl, .nil⟩
  | cons z zs ih =>
    rw [List.forall_mem_cons] at h
    rw [List.map_cons, List.map_cons, List.mapM_cons, List.mapM_cons]
    refine h.1.bind fun a b hab => (ih h.2).bind fun as bs hall => .ok ?_
    obtain ⟨rs, rfl, rfl, hrs⟩ := hall
    exact ⟨(a, b) :: rs, rfl, rfl, .cons hab hrs⟩

/-- What the members of two lists add one after the other. The relation is what a step needs of what was read
before it. -/
theorem foldlM {P : γ × γ → Prop} {f : α → γ → Except ε α} {a b : α}
    (hf : ∀ a b, S a b → ∀ z ∈ zs,
      Agree (fun a' b' => S a' b' ∧ (a' = b' ↔ a = b ∧ P z)) (f a z.1) (f b z.2)) (h : S a b) :
    Agree (fun a' b' => S a' b' ∧ (a' = b' ↔ a = b ∧ ∀ z ∈ zs, P z))
      ((zs.map Prod.fst).foldlM f a) ((zs.map Prod.snd).foldlM f b) := by
  induction zs generalizing a b with
  | nil => exact .ok ⟨h, by simp⟩
  | cons z zs ih =>
    rw [List.map_cons, List.map_cons, List.foldlM_cons, List.foldlM_cons]
    refine (hf a b h z List.mem_cons_self).bind fun a' b' hz => ?_
    refine (ih (fun a b hab w hw => hf a b hab w (List.mem_cons_of_mem _ hw)) hz.1).mono ?_
    rintro _ _ ⟨hshape, heq⟩
    exact ⟨hshape, by rw [heq, hz.2, List.forall_mem_cons, and_assoc]⟩

end Agree

namespace SameIff

theorem eq (h : SameIff P x y) (hP : P) : x = y := by
  cases h with
  | error e => rfl
  | ok h => rw [h.2 hP]

theorem congr (h : SameIff P x y) (hP : P ↔ P') : SameIff P' x y :=
  Agree.mono (fun _ _ hab => hab.trans hP) h

theorem mapM {zs : List (γ × γ)} {P : γ × γ → Prop} {f : γ → Except ε α}
    (h : ∀ z ∈ zs, SameIff (P z) (f z.1) (f z.2)) :
    Agree (fun as bs => as.length = bs.length ∧ (as = bs ↔ ∀ z ∈ zs, P z))
      ((zs.map Prod.fst).mapM f) ((zs.map Prod.snd).mapM f) := by
  refine (Agree.mapM h).mono ?_
  rintro _ _ ⟨rs, rfl, rfl, hrs⟩
  refine ⟨by rw [List.length_map, List.length_map], ?_⟩
  clear h
  induction hrs with
  | nil => simp
  | cons hr _ ih => rw [List.map_cons, List.map_cons, List.cons.injEq, hr, ih, List.forall_mem_cons]

end SameIff

end

end Crosswalk
