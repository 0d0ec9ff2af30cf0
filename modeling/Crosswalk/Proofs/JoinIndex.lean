import Crosswalk.Proofs.SelectedNodes

/-!
# An index gives what a scan gives

The nodes of a join are found in an index of all nodes by their keys. `Source.scan` is what the index stands
for: it looks at every node that the expression selects and keeps those whose key is the wanted
one. The nodes that `Source.joined` gives are those of a scan for the question that the index under
the name was built from. That is the question that is asked only if no other question has used
its name before.
-/

namespace Crosswalk

open Crosswalk.Xml (Location)
open Crosswalk.Xml.Location (Ordered)

/-- What an index is built for: the nodes that an expression selects at a base, by the value of a key
expression. The name is the one that the index is kept under. -/
@[ext]
structure JoinQuestion where
  name : String
  base : Location
  expression : String
  key : String
  deriving DecidableEq, Repr

namespace Source

/-- The nodes of a list that have a key. -/
def withKey (src : Source) (keyExpression value : String) :
    List Location → Except SetupError (List Location)
  | [] => .ok []
  | l :: rest => do
    let key ← src.joinKey keyExpression l
    let more ← src.withKey keyExpression value rest
    .ok (if key = value then l :: more else more)

/-- The nodes with a key, found without an index. -/
def scan (src : Source) (q : JoinQuestion) (value : String) : Except SetupError (List Location) := do
  let nodes ← src.select q.base q.expression
  src.withKey q.key value nodes

def index (src : Source) (q : JoinQuestion) : Except SetupError JoinIndex :=
  src.buildIndex q.base q.expression q.key

variable {src : Source} {q first : JoinQuestion} {cache : JoinCache} {nodes found : List Location}
  {keyExpression value : String} {l : Location}

/-! ## What a scan finds -/

theorem sublist_of_withKey (h : src.withKey keyExpression value nodes = .ok found) :
    found.Sublist nodes := by
  induction nodes generalizing found with
  | nil =>
    cases h
    exact .slnil
  | cons l rest ih =>
    obtain ⟨key, -, h⟩ := bind_eq_ok.1 h
    obtain ⟨more, hmore, h⟩ := bind_eq_ok.1 h
    cases h
    split
    · exact (ih hmore).cons_cons l
    · exact (ih hmore).cons l

theorem mem_withKey_iff (h : src.withKey keyExpression value nodes = .ok found) :
    l ∈ found ↔ l ∈ nodes ∧ src.joinKey keyExpression l = .ok value := by
  induction nodes generalizing found with
  | nil =>
    cases h
    simp
  | cons m rest ih =>
    obtain ⟨key, hkey, h⟩ := bind_eq_ok.1 h
    obtain ⟨more, hmore, h⟩ := bind_eq_ok.1 h
    cases h
    have hm : src.joinKey keyExpression m = .ok value ↔ key = value := by
      rw [hkey, Except.ok.injEq]
    split
    next heq =>
      rw [List.mem_cons, List.mem_cons, ih hmore]
      constructor
      · rintro (rfl | ⟨hl, hv⟩)
        · exact ⟨.inl rfl, hm.2 heq⟩
        · exact ⟨.inr hl, hv⟩
      · rintro ⟨rfl | hl, hv⟩
        · exact .inl rfl
        · exact .inr ⟨hl, hv⟩
    next hne =>
      rw [List.mem_cons, ih hmore]
      constructor
      · rintro ⟨hl, hv⟩
        exact ⟨.inr hl, hv⟩
      · rintro ⟨rfl | hl, hv⟩
        · exact absurd (hm.1 hv) hne
        · exact ⟨hl, hv⟩

/-- A scan finds the nodes with the key in document order, each once. -/
theorem scan_spec (h : src.scan q value = .ok found) :
    Ordered found ∧ ∃ nodes, src.select q.base q.expression = .ok nodes ∧
      ∀ l, l ∈ found ↔ l ∈ nodes ∧ src.joinKey q.key l = .ok value := by
  obtain ⟨nodes, hnodes, h⟩ := bind_eq_ok.1 h
  exact ⟨(ordered_select hnodes).sublist (sublist_of_withKey h), nodes, hnodes,
    fun l => mem_withKey_iff h⟩

/-! ## What an index gives -/

/-- The nodes of an index under a key. -/
def keptUnder (value : String) (index : JoinIndex) : List Location :=
  (index.get? value).getD []

/-- An index gains just the nodes that have the key. Nodes without a key are in no index. -/
theorem map_keptUnder_indexNodes (hv : value.isEmpty = false) (index : JoinIndex) :
    (src.indexNodes keyExpression index nodes).map (keptUnder value) =
      (src.withKey keyExpression value nodes).map fun found => keptUnder value index ++ found := by
  induction nodes generalizing index with
  | nil =>
    simp [indexNodes, withKey, Except.map]
  | cons l rest ih =>
    rw [indexNodes, withKey]
    rcases src.joinKey keyExpression l with e | key
    · rfl
    · simp only [bind, Except.bind]
      split
      next hempty =>
        have hne : key ≠ value := by
          rintro rfl
          rw [hv] at hempty
          cases hempty
        rw [ih]
        rcases src.withKey keyExpression value rest with e | more
        · rfl
        · simp [Except.map, hne]
      next =>
        rw [ih]
        rcases src.withKey keyExpression value rest with e | more
        · rfl
        · by_cases heq : key = value
          · subst heq
            simp [Except.map, keptUnder, Table.get?_insert]
          · simp [Except.map, keptUnder, Table.get?_insert, heq, Ne.symm heq]

theorem map_keptUnder_index (hv : value.isEmpty = false) (q : JoinQuestion) :
    (src.index q).map (keptUnder value) = src.scan q value := by
  rw [index, buildIndex, scan]
  rcases src.select q.base q.expression with e | nodes
  · rfl
  · refine (map_keptUnder_indexNodes hv .empty).trans ?_
    simp only [bind, Except.bind]
    rcases src.withKey q.key value nodes with e | found <;> rfl

theorem scan_of_index (hv : value.isEmpty = false) {index : JoinIndex}
    (h : src.index q = .ok index) : src.scan q value = .ok (keptUnder value index) := by
  rw [← map_keptUnder_index hv, h]
  rfl

/-! ## What is kept under a name -/

/-- A question is answered in place of another one: the index under its name was built for it. If
there is none, a question is answered itself. -/
def AnsweredAs (src : Source) (cache : JoinCache) (q first : JoinQuestion) : Prop :=
  match cache.indexes.get? q.name with
  | some index => src.index first = .ok index
  | none => first = q

/-- What joining gives: the nodes of a scan, but for the question that the index was built for. -/
theorem joined_eq (hv : value.isEmpty = false) (h : src.AnsweredAs cache q first) :
    (∃ e, src.scan first value = .error e ∧
        src.joined cache q.name q.base q.expression q.key value = .error e) ∨
      ∃ found cache', src.scan first value = .ok found ∧
        src.joined cache q.name q.base q.expression q.key value = .ok (found, cache') ∧
        src.AnsweredAs cache' q first := by
  rw [AnsweredAs] at h
  rw [joined]
  rcases hget : cache.indexes.get? q.name with _ | index <;> rw [hget] at h
  · subst h
    rcases hindex : src.buildIndex first.base first.expression first.key with e | index
    · refine .inl ⟨e, ?_, rfl⟩
      rw [← map_keptUnder_index hv, Source.index, hindex]
      rfl
    · refine .inr ⟨_, _, scan_of_index hv hindex, rfl, ?_⟩
      rw [AnsweredAs, Table.get?_insert, if_pos rfl]
      exact hindex
  · refine .inr ⟨_, cache, scan_of_index hv h, rfl, ?_⟩
    rw [AnsweredAs, hget]
    exact h

/-- Indexes are kept, and new ones are built for certain questions only. -/
structure Grows (src : Source) (Q : JoinQuestion → Prop) (cache cache' : JoinCache) : Prop where
  kept : ∀ name index, cache.indexes.get? name = some index →
    cache'.indexes.get? name = some index
  built : ∀ name index, cache'.indexes.get? name = some index →
    cache.indexes.get? name = some index ∨ ∃ q, Q q ∧ q.name = name ∧ src.index q = .ok index

theorem Grows.refl (src : Source) (Q : JoinQuestion → Prop) (cache : JoinCache) :
    src.Grows Q cache cache :=
  ⟨fun _ _ h => h, fun _ _ h => .inl h⟩

theorem Grows.trans {Q : JoinQuestion → Prop} {cache' cache'' : JoinCache}
    (h : src.Grows Q cache cache') (h' : src.Grows Q cache' cache'') : src.Grows Q cache cache'' := by
  refine ⟨fun name index hindex => h'.kept name index (h.kept name index hindex), ?_⟩
  intro name index hindex
  rcases h'.built name index hindex with hindex | hbuilt
  · exact h.built name index hindex
  · exact .inr hbuilt

theorem Grows.mono {Q Q' : JoinQuestion → Prop} {cache' : JoinCache} (h : src.Grows Q cache cache')
    (hQ : ∀ q, Q q → Q' q) : src.Grows Q' cache cache' :=
  ⟨h.kept, fun name index hindex =>
    (h.built name index hindex).imp_right fun ⟨q, hq, hbuilt⟩ => ⟨q, hQ q hq, hbuilt⟩⟩

theorem grows_joined {Q : JoinQuestion → Prop} {p : List Location × JoinCache} (hq : Q q)
    (value : String) (h : src.joined cache q.name q.base q.expression q.key value = .ok p) :
    src.Grows Q cache p.2 := by
  rw [joined] at h
  rcases hget : cache.indexes.get? q.name with _ | held <;> rw [hget] at h
  · obtain ⟨built, hbuilt, h⟩ := bind_eq_ok.1 h
    cases h
    refine ⟨fun name index hindex => ?_, fun name index hindex => ?_⟩
    · have hne : name ≠ q.name := by
        rintro rfl
        rw [hget] at hindex
        cases hindex
      rw [Table.get?_insert, if_neg hne, hindex]
    · rw [Table.get?_insert] at hindex
      split at hindex
      next heq =>
        cases hindex
        exact .inr ⟨q, hq, heq.symm, hbuilt⟩
      next => exact .inl hindex
  · cases h
    exact .refl src Q cache

/-- A question is the first with its name, if a join that asks some questions starts with these indexes:
the index under the name was built for it, or there is none and the join asks it. -/
def IsFirst (src : Source) (cache : JoinCache) (asked : List JoinQuestion) (q : JoinQuestion) :
    Prop :=
  match cache.indexes.get? q.name with
  | some index => src.index q = .ok index
  | none => q ∈ asked

/-- Every index was built for a question of some kind, and is kept under its name. -/
def BuiltFor (src : Source) (K : JoinQuestion → Prop) (cache : JoinCache) : Prop :=
  ∀ name index, cache.indexes.get? name = some index →
    ∃ q, K q ∧ q.name = name ∧ src.index q = .ok index

/-- When a join has asked some of its questions, another one of them is answered as the first one with
its name. -/
theorem BuiltFor.exists_isFirst {K : JoinQuestion → Prop} {asked : List JoinQuestion}
    {cache' : JoinCache} (hbuilt : src.BuiltFor K cache) (hasked : ∀ q ∈ asked, K q)
    (h : src.Grows (· ∈ asked) cache cache') (hq : q ∈ asked) :
    ∃ first, first.name = q.name ∧ K first ∧ src.IsFirst cache asked first ∧
      src.AnsweredAs cache' q first := by
  simp only [AnsweredAs]
  rcases hget' : cache'.indexes.get? q.name with _ | index
  · refine ⟨q, rfl, hasked q hq, ?_, rfl⟩
    rw [IsFirst]
    rcases hget : cache.indexes.get? q.name with _ | index
    · exact hq
    · rw [h.kept _ _ hget] at hget'
      cases hget'
  · rcases hget : cache.indexes.get? q.name with _ | held
    · -- the index was built for a question of this join
      rcases h.built _ _ hget' with hindex | ⟨first, hfirst, hname, hindex⟩
      · rw [hget] at hindex
        cases hindex
      · refine ⟨first, hname, hasked first hfirst, ?_, hindex⟩
        rw [IsFirst, hname, hget]
        exact hfirst
    · cases hget'.symm.trans (h.kept _ _ hget)
      obtain ⟨first, hK, hname, hindex⟩ := hbuilt _ _ hget
      refine ⟨first, hname, hK, ?_, hindex⟩
      rw [IsFirst, hname, hget]
      exact hindex

end Source

end Crosswalk
