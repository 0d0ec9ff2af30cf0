/-!
# Tables with text keys

A finite map from texts, held as a list in the order of the keys. Inserting keeps the order and
replaces the value of a key that is there.
-/

namespace Crosswalk

structure Table (α : Type) where
  entries : List (String × α)
  deriving DecidableEq, Repr

namespace Table

variable {α : Type}

def empty : Table α := ⟨[]⟩

instance : Inhabited (Table α) := ⟨empty⟩

def get? (t : Table α) (key : String) : Option α :=
  t.entries.lookup key

def contains (t : Table α) (key : String) : Bool :=
  (t.get? key).isSome

/-- Places an entry before the first greater key, or over its own. -/
def insertEntry (key : String) (value : α) : List (String × α) → List (String × α)
  | [] => [(key, value)]
  | (k, v) :: rest =>
    if key < k then (key, value) :: (k, v) :: rest
    else if key = k then (key, value) :: rest
    else (k, v) :: insertEntry key value rest

def insert (t : Table α) (key : String) (value : α) : Table α :=
  ⟨insertEntry key value t.entries⟩

def insertAll (t : Table α) (entries : List (String × α)) : Table α :=
  entries.foldl (fun t (k, v) => t.insert k v) t

def ofList (entries : List (String × α)) : Table α :=
  empty.insertAll entries

def keys (t : Table α) : List String :=
  t.entries.map (·.1)

def size (t : Table α) : Nat :=
  t.entries.length

/-! ## Lemmas -/

@[simp] theorem get?_empty (key : String) : (empty : Table α).get? key = none := rfl

theorem lookup_insertEntry (key key' : String) (value : α) (entries : List (String × α)) :
    (insertEntry key value entries).lookup key' =
      if key' = key then some value else entries.lookup key' := by
  induction entries with
  | nil =>
    by_cases h : key' = key
    · simp [insertEntry, h]
    · have hb : (key' == key) = false := by simp [h]
      simp [insertEntry, List.lookup_cons, h, hb]
  | cons e rest ih =>
    obtain ⟨k, v⟩ := e
    simp only [insertEntry]
    by_cases h : key' = key
    · subst h
      split
      · simp
      · split
        · simp
        next hk =>
          have hb : (key' == k) = false := by simp [hk]
          simp [List.lookup_cons, hb, ih]
    · have hb : (key' == key) = false := by simp [h]
      split
      · simp [List.lookup_cons, hb]
      · split
        next hk => subst hk; simp [List.lookup_cons, hb]
        next => simp [List.lookup_cons, h, ih]

theorem get?_insert (t : Table α) (key key' : String) (value : α) :
    (t.insert key value).get? key' = if key' = key then some value else t.get? key' :=
  lookup_insertEntry key key' value t.entries

theorem length_insertEntry {key : String} {entries : List (String × α)} (h : entries.lookup key = none)
    (value : α) : (insertEntry key value entries).length = entries.length + 1 := by
  induction entries with
  | nil => rfl
  | cons e rest ih =>
    obtain ⟨k, v⟩ := e
    rw [List.lookup_cons] at h
    split at h
    next => cases h
    next hne =>
      rw [insertEntry]
      split
      · rfl
      · rw [if_neg (by simpa using hne), List.length_cons, ih h]
        rfl

/-- A key that is not there yet adds an entry. -/
theorem size_insert {t : Table α} {key : String} (h : t.get? key = none) (value : α) :
    (t.insert key value).size = t.size + 1 :=
  length_insertEntry h value

/-! ## Ascending entries -/

/-- The keys of entries ascend: so they stand in a table that was put together by inserting. -/
def Ascends (entries : List (String × α)) : Prop :=
  entries.Pairwise fun e f => e.1 < f.1

theorem mem_insertEntry {key : String} {value : α} {entries : List (String × α)} {e : String × α}
    (h : e ∈ insertEntry key value entries) : e = (key, value) ∨ e ∈ entries := by
  induction entries with
  | nil => exact .inl (List.mem_singleton.1 h)
  | cons f rest ih =>
    rw [insertEntry] at h
    split at h
    · exact List.mem_cons.1 h
    · split at h
      · exact (List.mem_cons.1 h).imp_right (List.mem_cons_of_mem _)
      · rcases List.mem_cons.1 h with rfl | h
        · exact .inr List.mem_cons_self
        · exact (ih h).imp_right (List.mem_cons_of_mem _)

theorem ascends_insertEntry {entries : List (String × α)} (h : Ascends entries) (key : String) (value : α) :
    Ascends (insertEntry key value entries) := by
  induction entries with
  | nil => exact List.pairwise_singleton _ _
  | cons f rest ih =>
    obtain ⟨hf, hrest⟩ := List.pairwise_cons.1 h
    rw [insertEntry]
    split
    next hlt =>
      refine List.pairwise_cons.2 ⟨fun e he => ?_, h⟩
      rcases List.mem_cons.1 he with rfl | he
      · exact hlt
      · exact String.lt_trans hlt (hf e he)
    next hnot =>
      split
      next heq =>
        subst heq
        exact List.pairwise_cons.2 ⟨hf, hrest⟩
      next hne =>
        refine List.pairwise_cons.2 ⟨fun e he => ?_, ih hrest⟩
        rcases mem_insertEntry he with rfl | he
        · exact ((Std.lt_trichotomy key f.1).resolve_left hnot).resolve_left hne
        · exact hf e he

section

variable {k key : String} {v : α} {rest : List (String × α)}

theorem lookup_tail_eq_none (h : Ascends ((k, v) :: rest)) (hkey : key ≤ k) : rest.lookup key = none := by
  rw [List.lookup_eq_none_iff]
  intro e he
  rw [bne_iff_ne]
  rintro rfl
  exact String.not_lt.2 hkey ((List.pairwise_cons.1 h).1 e he)

/-- The first key is the least one under which something is found. -/
theorem le_of_lookup_isSome (h : Ascends ((k, v) :: rest))
    (hkey : (((k, v) :: rest).lookup key).isSome = true) : k ≤ key := by
  rw [← String.not_lt]
  intro hlt
  have hne : (key == k) = false := beq_eq_false_iff_ne.2 fun heq => String.lt_irrefl _ (heq ▸ hlt)
  simp [List.lookup_cons, hne, lookup_tail_eq_none h (String.not_lt.1 (String.lt_asymm hlt))] at hkey

end

/-- Ascending entries are told by what is found under the keys. -/
theorem eq_of_lookup_eq {entries entries' : List (String × α)} (h : Ascends entries) (h' : Ascends entries')
    (hlookup : ∀ key, entries.lookup key = entries'.lookup key) : entries = entries' := by
  induction entries generalizing entries' with
  | nil =>
    rcases entries' with _ | ⟨⟨k', v'⟩, rest'⟩
    · rfl
    · have hfound := hlookup k'
      rw [List.lookup_nil, List.lookup_cons_self] at hfound
      cases hfound
  | cons e rest ih =>
    obtain ⟨k, v⟩ := e
    rcases entries' with _ | ⟨⟨k', v'⟩, rest'⟩
    · have hfound := hlookup k
      rw [List.lookup_nil, List.lookup_cons_self] at hfound
      cases hfound
    · have hk : k = k' := String.le_antisymm
        (le_of_lookup_isSome h (by rw [hlookup, List.lookup_cons_self]; rfl))
        (le_of_lookup_isSome h' (by rw [← hlookup, List.lookup_cons_self]; rfl))
      subst hk
      have hv := hlookup k
      rw [List.lookup_cons_self, List.lookup_cons_self, Option.some.injEq] at hv
      rw [hv, ih (List.pairwise_cons.1 h).2 (List.pairwise_cons.1 h').2 fun key => ?_]
      by_cases hkey : key = k
      · rw [hkey, lookup_tail_eq_none h (String.le_refl k), lookup_tail_eq_none h' (String.le_refl k)]
      · have hfound := hlookup key
        have hne : (key == k) = false := beq_eq_false_iff_ne.2 hkey
        rwa [List.lookup_cons, List.lookup_cons, hne] at hfound

/-! ## Inserting entries -/

theorem ascends_insertAll {t : Table α} (h : Ascends t.entries) (entries : List (String × α)) :
    Ascends (t.insertAll entries).entries := by
  induction entries generalizing t with
  | nil => exact h
  | cons e rest ih => exact ih (ascends_insertEntry h e.1 e.2)

theorem ascends_ofList (entries : List (String × α)) : Ascends (ofList entries).entries :=
  ascends_insertAll List.Pairwise.nil entries

theorem get?_insertAll {entries : List (String × α)} (h : Ascends entries) (t : Table α) (key : String) :
    (t.insertAll entries).get? key = (entries.lookup key).or (t.get? key) := by
  induction entries generalizing t with
  | nil => rfl
  | cons e rest ih =>
    obtain ⟨k, v⟩ := e
    have hstep : t.insertAll ((k, v) :: rest) = (t.insert k v).insertAll rest := rfl
    rw [hstep, ih (List.pairwise_cons.1 h).2, get?_insert]
    by_cases hkey : key = k
    · subst hkey
      rw [lookup_tail_eq_none h (String.le_refl key), if_pos rfl, List.lookup_cons_self]
      rfl
    · have hne : (key == k) = false := beq_eq_false_iff_ne.2 hkey
      rw [if_neg hkey, List.lookup_cons, hne]

theorem get?_insertAll_isSome {t : Table α} {key : String} (h : (t.get? key).isSome = true)
    (entries : List (String × α)) : ((t.insertAll entries).get? key).isSome = true := by
  induction entries generalizing t with
  | nil => exact h
  | cons e rest ih =>
    refine ih ?_
    rw [get?_insert]
    split
    · rfl
    · exact h

/-- To place all entries of a table again where it came from changes nothing. -/
theorem insertAll_entries {t : Table α} (h : Ascends t.entries) (entries : List (String × α)) :
    t.insertAll (t.insertAll entries).entries = t.insertAll entries := by
  have hall := ascends_insertAll h entries
  suffices hentries : (t.insertAll (t.insertAll entries).entries).entries = (t.insertAll entries).entries from
    congrArg Table.mk hentries
  refine eq_of_lookup_eq (ascends_insertAll h _) hall fun key => ?_
  change (t.insertAll _).get? key = (t.insertAll entries).get? key
  rw [get?_insertAll hall]
  change ((t.insertAll entries).get? key).or (t.get? key) = _
  cases hkey : t.get? key with
  | none => rw [Option.or_none]
  | some value =>
    obtain ⟨value', hvalue'⟩ := Option.isSome_iff_exists.1
      (get?_insertAll_isSome (hkey ▸ rfl : (t.get? key).isSome = true) entries)
    rw [hvalue', Option.some_or]

end Table

end Crosswalk
