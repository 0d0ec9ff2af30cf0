import Crosswalk.Proofs.JoinIndex
import Mathlib.Data.Finset.Card
import Mathlib.Data.Finset.Option

/-!
# Calls that remember

A source that is asked again and again parses each expression once and builds each index once. It keeps
the parsed expressions under their texts, without blanks around them, and the indexes under the names of
joins, also when a call fails in the end. None of this shows in an answer, as long as no two joins share a
name: `Memory.Recalls` says what a memory holds after some calls, and each further call gives the answer
of a call without a memory and keeps to it.
-/

namespace Crosswalk

open Crosswalk.Xml (Location)

/-- What is left of earlier calls: parsed expressions, indexes, and how many of these have been built. -/
structure Memory where
  compiled : Table XPath.Expr
  joins : JoinCache
  builds : Nat

/-- A call on a source that remembers. It leaves a memory behind also if it fails. -/
abbrev Recall := ExceptT SetupError (StateM Memory)

namespace Memory

def fresh : Memory := ⟨.empty, .empty, 0⟩

def keepExpr (m : Memory) (text : String) (e : XPath.Expr) : Memory :=
  { m with compiled := m.compiled.insert text e }

def keepIndex (m : Memory) (name : String) (index : JoinIndex) : Memory :=
  { m with joins := ⟨m.joins.indexes.insert name index⟩, builds := m.builds + 1 }

end Memory

namespace Recall

def ofResult {α : Type} : Except SetupError α → Recall α
  | .ok a => return a
  | .error e => throw e

/-- The expression of a text. It is parsed if it is not kept, and kept if it is parsed. -/
def compile (expression : String) : Recall XPath.Expr := do
  let expression := Text.trim expression
  match (← get).compiled.get? expression with
  | some e => return e
  | none =>
    let e ← ofResult ((XPath.Expr.parse expression).mapError (.expression expression))
    modify (·.keepExpr expression e)
    return e

section

variable (src : Source)

def evaluate (node : Location) (expression : String) : Recall XPath.Value := do
  let e ← compile expression
  ofResult ((e.evaluate src.document src.namespaces node).mapError
    (.expression (Text.trim expression)))

def select (node : Location) (expression : String) : Recall (List Location) := do
  match ← evaluate src node expression with
  | .nodes ls => return ls
  | _ => throw (.expression (Text.trim expression) .selectsNoNodes)

def scalar (node : Location) (expression : String) : Recall String := do
  let v ← evaluate src node expression
  return Text.trim (v.toText src.document)

def scalarWithNode (node : Location) (expression : String) : Recall (String × Option Location) := do
  match ← evaluate src node expression with
  | .nodes ls => return ((ls.head?.map src.nodeText).getD "", ls.head?)
  | v => return (Text.trim (v.toText src.document), none)

def merged (node : Location) (expression : String) : Recall String := do
  match ← evaluate src node expression with
  | .nodes ls =>
    return src.mergeDelimiter.intercalate ((ls.map src.nodeText).filter fun s => !s.isEmpty)
  | v => return Text.trim (v.toText src.document)

def hasValue (node : Location) (expression : String) : Recall Bool := do
  match ← evaluate src node expression with
  | .nodes ls => return ls.any fun l => !(src.nodeText l).isEmpty
  | v => return v.toBool && !(Text.trim (v.toText src.document)).isEmpty

/-- The key of a node, or that of the node around it. -/
def joinKey (keyExpression : String) (l : Location) : Recall String := do
  let key ← scalar src l keyExpression
  if !key.isEmpty then return key
  else
    match l.parent? with
    | some p => scalar src p keyExpression
    | none => return key

def indexNodes (keyExpression : String) : JoinIndex → List Location → Recall JoinIndex
  | index, [] => return index
  | index, l :: rest => do
    let key ← joinKey src keyExpression l
    if key.isEmpty then indexNodes keyExpression index rest
    else
      let before := (index.get? key).getD []
      indexNodes keyExpression (index.insert key (before ++ [l])) rest

def buildIndex (q : JoinQuestion) : Recall JoinIndex := do
  let nodes ← select src q.base q.expression
  indexNodes src q.key .empty nodes

/-- The nodes of the index under the name of a question. It is built if it is not kept, and kept if it
is built. -/
def joined (q : JoinQuestion) (value : String) : Recall (List Location) := do
  match (← get).joins.indexes.get? q.name with
  | some index => return Source.keptUnder value index
  | none =>
    let index ← buildIndex src q
    modify (·.keepIndex q.name index)
    return Source.keptUnder value index

end

end Recall

/-! ## Requests -/

/-- What a source can be asked for. -/
inductive Request where
  | select (node : Location) (expression : String)
  | scalar (node : Location) (expression : String)
  | scalarWithNode (node : Location) (expression : String)
  | merged (node : Location) (expression : String)
  | hasValue (node : Location) (expression : String)
  | joined (q : JoinQuestion) (value : String)

inductive Answer where
  | nodes (ls : List Location)
  | text (text : String)
  | textAt (text : String) (node? : Option Location)
  | truth (b : Bool)
  deriving DecidableEq

namespace Request

/-- The answer of a source that remembers. -/
def recallOne (src : Source) : Request → Recall Answer
  | select node expression => .nodes <$> Recall.select src node expression
  | scalar node expression => .text <$> Recall.scalar src node expression
  | scalarWithNode node expression =>
    (fun p => .textAt p.1 p.2) <$> Recall.scalarWithNode src node expression
  | merged node expression => .text <$> Recall.merged src node expression
  | hasValue node expression => .truth <$> Recall.hasValue src node expression
  | joined q value => .nodes <$> Recall.joined src q value

/-- The answer without a memory. -/
def answer (src : Source) : Request → Except SetupError Answer
  | select node expression => .nodes <$> src.select node expression
  | scalar node expression => .text <$> src.scalar node expression
  | scalarWithNode node expression => (fun p => .textAt p.1 p.2) <$> src.scalarWithNode node expression
  | merged node expression => .text <$> src.merged node expression
  | hasValue node expression => .truth <$> src.hasValue node expression
  | joined q value =>
    (fun p => .nodes p.1) <$> src.joined .empty q.name q.base q.expression q.key value

/-- The index that a request asks for. -/
def question? : Request → Option JoinQuestion
  | joined q _ => some q
  | _ => none

/-- One call after another, with what each of them answers. -/
def recallAll (src : Source) : List Request → Memory → List (Except SetupError Answer) × Memory
  | [], m => ([], m)
  | r :: rest, m =>
    let (answer, m) := (r.recallOne src).run m
    let (answers, m) := recallAll src rest m
    (answer :: answers, m)

end Request

/-! ## How calls end -/

namespace Recall

variable {α β : Type} {m : Recall α} {f : α → Recall β} {r : Except SetupError α}
  {g : α → Except SetupError β} {s t : Memory} {src : Source}

/-- How a call ends: with a result or a fault, and with which memory. -/
def outcome (m : Recall α) (s : Memory) : Except SetupError α × Memory :=
  m.run s

theorem outcome_bind (m : Recall α) (f : α → Recall β) (s : Memory) :
    outcome (m >>= f) s =
      match outcome m s with
      | (.ok a, t) => outcome (f a) t
      | (.error e, t) => (.error e, t) := by
  have hbind : outcome (m >>= f) s = ExceptT.bindCont f (outcome m s).1 (outcome m s).2 := rfl
  rw [hbind]
  rcases outcome m s with ⟨_ | _, _⟩ <;> rfl

theorem outcome_map (f : α → β) (m : Recall α) (s : Memory) :
    outcome (f <$> m) s = ((outcome m s).1.map f, (outcome m s).2) := by
  have hmap : f <$> m = m >>= fun a => pure (f a) := (bind_pure_comp f m).symm
  rw [hmap, outcome_bind]
  rcases outcome m s with ⟨_ | _, _⟩ <;> rfl

theorem outcome_ofResult (r : Except SetupError α) (s : Memory) : outcome (ofResult r) s = (r, s) := by
  cases r <;> rfl

/-- Each text is kept with the expression that it stands for. -/
def Parses (compiled : Table XPath.Expr) : Prop :=
  ∀ text e, compiled.get? text = some e → XPath.Expr.parse text = .ok e

theorem Parses.insert {compiled : Table XPath.Expr} (h : Parses compiled) {text : String}
    {e : XPath.Expr} (he : XPath.Expr.parse text = .ok e) : Parses (compiled.insert text e) := by
  intro text' e' h'
  rw [Table.get?_insert] at h'
  split at h'
  next heq =>
    cases h'
    exact heq ▸ he
  next => exact h text' e' h'

/-- A call has a certain result whatever expressions are kept, and keeps no index. -/
def Gives (m : Recall α) (r : Except SetupError α) : Prop :=
  ∀ s, Parses s.compiled → ∃ compiled, Parses compiled ∧ outcome m s = (r, { s with compiled := compiled })

namespace Gives

theorem pure (a : α) : Gives (Pure.pure a) (.ok a) :=
  fun s hs => ⟨s.compiled, hs, rfl⟩

theorem throw (e : SetupError) : Gives (throw e : Recall α) (.error e) :=
  fun s hs => ⟨s.compiled, hs, rfl⟩

theorem ofResult (r : Except SetupError α) : Gives (ofResult r) r :=
  fun s hs => ⟨s.compiled, hs, outcome_ofResult r s⟩

theorem bind (hm : Gives m r) (hf : ∀ a, Gives (f a) (g a)) : Gives (m >>= f) (r >>= g) := by
  intro s hs
  obtain ⟨compiled, hparses, hm⟩ := hm s hs
  rw [outcome_bind, hm]
  cases r with
  | error e => exact ⟨compiled, hparses, rfl⟩
  | ok a => exact hf a _ hparses

theorem map (hm : Gives m r) (h : α → β) : Gives (h <$> m) (h <$> r) := by
  intro s hs
  obtain ⟨compiled, hparses, hm⟩ := hm s hs
  refine ⟨compiled, hparses, ?_⟩
  rw [outcome_map, hm]
  rfl

end Gives

/-! ## Reading with a memory -/

theorem compile_gives (expression : String) :
    Gives (compile expression) ((XPath.Expr.parse (Text.trim expression)).mapError
      (.expression (Text.trim expression))) := by
  intro s hs
  have hget : outcome (get : Recall Memory) s = (.ok s, s) := rfl
  rw [compile, outcome_bind, hget]
  dsimp only
  split
  next e hkept =>
    rw [hs _ e hkept]
    exact ⟨s.compiled, hs, rfl⟩
  next =>
    rw [outcome_bind, outcome_ofResult]
    rcases hparse : XPath.Expr.parse (Text.trim expression) with e | e
    · exact ⟨s.compiled, hs, rfl⟩
    · exact ⟨_, hs.insert hparse, rfl⟩

theorem evaluate_gives (node : Location) (expression : String) :
    Gives (evaluate src node expression) (src.evaluate node expression) := by
  have hevaluate : src.evaluate node expression =
      (XPath.Expr.parse (Text.trim expression)).mapError (.expression (Text.trim expression)) >>=
        fun e => (e.evaluate src.document src.namespaces node).mapError
          (.expression (Text.trim expression)) := by
    rw [Source.evaluate]
    rcases XPath.Expr.parse (Text.trim expression) with e | e <;> rfl
  rw [hevaluate]
  exact .bind (compile_gives expression) fun e => .ofResult _

theorem select_gives (node : Location) (expression : String) :
    Gives (select src node expression) (src.select node expression) := by
  refine .bind (evaluate_gives node expression) fun v => ?_
  cases v with
  | nodes ls => exact .pure ls
  | _ => exact .throw _

theorem scalar_gives (node : Location) (expression : String) :
    Gives (scalar src node expression) (src.scalar node expression) :=
  .bind (evaluate_gives node expression) fun _ => .pure _

theorem scalarWithNode_gives (node : Location) (expression : String) :
    Gives (scalarWithNode src node expression) (src.scalarWithNode node expression) := by
  refine .bind (evaluate_gives node expression) fun v => ?_
  cases v <;> exact .pure _

theorem merged_gives (node : Location) (expression : String) :
    Gives (merged src node expression) (src.merged node expression) := by
  refine .bind (evaluate_gives node expression) fun v => ?_
  cases v <;> exact .pure _

theorem hasValue_gives (node : Location) (expression : String) :
    Gives (hasValue src node expression) (src.hasValue node expression) := by
  refine .bind (evaluate_gives node expression) fun v => ?_
  cases v <;> exact .pure _

theorem joinKey_gives (keyExpression : String) (l : Location) :
    Gives (joinKey src keyExpression l) (src.joinKey keyExpression l) := by
  refine .bind (scalar_gives l keyExpression) fun key => ?_
  split
  · exact .pure key
  · rcases l.parent? with _ | p
    · exact .pure key
    · exact scalar_gives p keyExpression

theorem indexNodes_gives (keyExpression : String) (index : JoinIndex) (nodes : List Location) :
    Gives (indexNodes src keyExpression index nodes) (src.indexNodes keyExpression index nodes) := by
  induction nodes generalizing index with
  | nil => exact .pure index
  | cons l rest ih =>
    refine .bind (joinKey_gives keyExpression l) fun key => ?_
    split
    · exact ih index
    · exact ih _

theorem buildIndex_gives (src : Source) (q : JoinQuestion) : Gives (buildIndex src q) (src.index q) :=
  .bind (select_gives q.base q.expression) fun nodes => indexNodes_gives q.key .empty nodes

/-! ## Joins with a memory -/

theorem outcome_joined_of_kept {q : JoinQuestion} {index : JoinIndex}
    (h : s.joins.indexes.get? q.name = some index) (value : String) :
    outcome (joined src q value) s = (.ok (Source.keptUnder value index), s) := by
  have hget : outcome (get : Recall Memory) s = (.ok s, s) := rfl
  rw [joined, outcome_bind, hget]
  dsimp only
  rw [h]
  rfl

/-- An index that is not kept is built, and kept under its name if that ends well. -/
theorem outcome_joined_of_new (src : Source) {q : JoinQuestion} (hs : Parses s.compiled)
    (h : s.joins.indexes.get? q.name = none) (value : String) :
    ∃ compiled, Parses compiled ∧ outcome (joined src q value) s =
      match src.index q with
      | .ok index =>
        (.ok (Source.keptUnder value index), { s with compiled := compiled }.keepIndex q.name index)
      | .error e => (.error e, { s with compiled := compiled }) := by
  have hget : outcome (get : Recall Memory) s = (.ok s, s) := rfl
  obtain ⟨compiled, hparses, hbuilt⟩ := buildIndex_gives src q s hs
  refine ⟨compiled, hparses, ?_⟩
  rw [joined, outcome_bind, hget]
  dsimp only
  rw [h]
  dsimp only
  rw [outcome_bind, hbuilt]
  rcases src.index q with e | index <;> rfl

/-- From any memory, the answer to a join and the indexes that are kept behind it are those of
`Source.joined`, which is given the indexes alone. -/
theorem outcome_joined (src : Source) (q : JoinQuestion) (hs : Parses s.compiled) (value : String) :
    (outcome (joined src q value) s).1.map (·, (outcome (joined src q value) s).2.joins) =
      src.joined s.joins q.name q.base q.expression q.key value := by
  rw [Source.joined]
  rcases hget : s.joins.indexes.get? q.name with _ | index
  · obtain ⟨compiled, -, hjoined⟩ := outcome_joined_of_new src hs hget value
    rw [hjoined, Source.index]
    rcases src.buildIndex q.base q.expression q.key with e | index <;> rfl
  · rw [outcome_joined_of_kept hget]
    rfl

end Recall

namespace Source

variable {src : Source} {q : JoinQuestion} {value : String} {nodes found : List Location} {l : Location}

/-! ## What a join finds -/

/-- A node has a key: an expression has the key for its value at the node or, where that is empty, at the
node around it. -/
def HasKey (src : Source) (keyExpression value : String) (l : Location) : Prop :=
  src.scalar l keyExpression = .ok value ∨
    src.scalar l keyExpression = .ok "" ∧ ∃ p ∈ l.parent?, src.scalar p keyExpression = .ok value

instance (src : Source) (keyExpression value : String) (l : Location) :
    Decidable (src.HasKey keyExpression value l) :=
  inferInstanceAs (Decidable (_ ∨ _))

theorem joinKey_eq_iff (hv : value.isEmpty = false) {keyExpression : String} :
    src.joinKey keyExpression l = .ok value ↔ src.HasKey keyExpression value l := by
  have hne : value ≠ "" := by
    rintro rfl
    cases hv
  rw [joinKey, HasKey]
  rcases src.scalar l keyExpression with e | key
  · simp [bind, Except.bind]
  · by_cases hkey : key = ""
    · subst hkey
      rcases l.parent? with _ | p <;> simp [bind, Except.bind, hne.symm]
    · simp [bind, Except.bind, hkey]

/-- A scan keeps the nodes with a key, if each of the nodes has one or none. -/
theorem withKey_eq_ok_iff (hv : value.isEmpty = false) {keyExpression : String} :
    src.withKey keyExpression value nodes = .ok found ↔
      (∀ l ∈ nodes, ∃ key, src.joinKey keyExpression l = .ok key) ∧
        found = nodes.filter (src.HasKey keyExpression value) := by
  induction nodes generalizing found with
  | nil => simp [withKey, eq_comm]
  | cons l rest ih =>
    rw [withKey, List.forall_mem_cons, List.filter_cons]
    rcases hkey : src.joinKey keyExpression l with e | key
    · simp [bind, Except.bind]
    have hl : src.HasKey keyExpression value l ↔ key = value := by
      rw [← joinKey_eq_iff hv, hkey, Except.ok.injEq]
    simp only [hl, decide_eq_true_eq]
    constructor
    · intro h
      obtain ⟨_, ⟨⟩, h⟩ := bind_eq_ok.1 h
      obtain ⟨more, hmore, hfound⟩ := bind_eq_ok.1 h
      obtain ⟨hrest, rfl⟩ := ih.1 hmore
      exact ⟨⟨⟨key, rfl⟩, hrest⟩, (Except.ok.inj hfound).symm⟩
    · rintro ⟨⟨-, hrest⟩, rfl⟩
      exact bind_eq_ok.2 ⟨key, rfl, bind_eq_ok.2 ⟨_, ih.2 ⟨hrest, rfl⟩, rfl⟩⟩

end Source

namespace Request

variable {src : Source} {q : JoinQuestion} {value : String} {r : Request} {requests : List Request}
  {m : Memory}

theorem answer_joined (src : Source) (q : JoinQuestion) (value : String) :
    (joined q value).answer src =
      (src.index q).map fun index => .nodes (Source.keptUnder value index) := by
  rw [answer, Source.joined]
  have hempty : JoinCache.empty.indexes.get? q.name = none := rfl
  rw [hempty, Source.index]
  dsimp only
  rcases src.buildIndex q.base q.expression q.key with e | index <;> rfl

/-- A request that asks for no index gets the same answer from every memory. -/
theorem recallOne_gives (src : Source) (h : r.question? = none) :
    (r.recallOne src).Gives (r.answer src) := by
  cases r with
  | select node expression => exact (Recall.select_gives node expression).map _
  | scalar node expression => exact (Recall.scalar_gives node expression).map _
  | scalarWithNode node expression => exact (Recall.scalarWithNode_gives node expression).map _
  | merged node expression => exact (Recall.merged_gives node expression).map _
  | hasValue node expression => exact (Recall.hasValue_gives node expression).map _
  | joined q value => cases h

/-- What a call on a source that remembers can do: read without asking for an index, find an index, build
one, or fail to. -/
inductive Steps (src : Source) (m : Memory) : Request → Except SetupError Answer × Memory → Prop
  | reads {r : Request} {compiled : Table XPath.Expr} (question : r.question? = none)
      (parses : Recall.Parses compiled) : Steps src m r (r.answer src, { m with compiled := compiled })
  | finds {q : JoinQuestion} {value : String} {index : JoinIndex}
      (kept : m.joins.indexes.get? q.name = some index) :
    Steps src m (joined q value) (.ok (.nodes (Source.keptUnder value index)), m)
  | builds {q : JoinQuestion} {value : String} {index : JoinIndex} {compiled : Table XPath.Expr}
      (new : m.joins.indexes.get? q.name = none) (built : src.index q = .ok index)
      (parses : Recall.Parses compiled) :
    Steps src m (joined q value) (.ok (.nodes (Source.keptUnder value index)),
      { m with compiled := compiled }.keepIndex q.name index)
  | fails {q : JoinQuestion} {value : String} {e : SetupError} {compiled : Table XPath.Expr}
      (new : m.joins.indexes.get? q.name = none) (failed : src.index q = .error e)
      (parses : Recall.Parses compiled) :
    Steps src m (joined q value) (.error e, { m with compiled := compiled })

theorem recallOne_steps (src : Source) (hm : Recall.Parses m.compiled) (r : Request) :
    Steps src m r (Recall.outcome (r.recallOne src) m) := by
  have plain (h : r.question? = none) : Steps src m r (Recall.outcome (r.recallOne src) m) := by
    obtain ⟨compiled, hparses, hout⟩ := recallOne_gives src h m hm
    rw [hout]
    exact .reads h hparses
  cases r with
  | joined q value =>
    have hrecall : Recall.outcome ((joined q value).recallOne src) m =
        (((Recall.outcome (Recall.joined src q value) m).1).map .nodes,
          (Recall.outcome (Recall.joined src q value) m).2) := Recall.outcome_map _ _ m
    rw [hrecall]
    rcases hget : m.joins.indexes.get? q.name with _ | index
    · obtain ⟨compiled, hparses, hjoined⟩ := Recall.outcome_joined_of_new src hm hget value
      rw [hjoined]
      rcases hindex : src.index q with e | index
      · exact .fails hget hindex hparses
      · exact .builds hget hindex hparses
    · rw [Recall.outcome_joined_of_kept hget]
      exact .finds hget
  | _ => exact plain rfl

/-- The name of the index that a request uses, if it is answered. -/
def usedName? (src : Source) (r : Request) : Option String :=
  match r.answer src with
  | .ok _ => r.question?.map (·.name)
  | .error _ => none

theorem usedName?_joined {index : JoinIndex} (h : src.index q = .ok index) :
    (joined q value).usedName? src = some q.name := by
  rw [usedName?, answer_joined, h]
  rfl

/-- Requests that use one name ask for one index. -/
def NamesApart (requests : List Request) : Prop :=
  ∀ r ∈ requests, ∀ r' ∈ requests, ∀ q ∈ r.question?, ∀ q' ∈ r'.question?, q.name = q'.name → q = q'

instance (requests : List Request) : Decidable (NamesApart requests) :=
  inferInstanceAs (Decidable (∀ r ∈ requests, ∀ r' ∈ requests, ∀ q ∈ r.question?, ∀ q' ∈ r'.question?, _))

end Request

/-! ## What a memory holds -/

/-- What a memory holds after calls for some questions that have used some names: each text with its
expression, and under each of the names the index of a question with this name. -/
structure Memory.Recalls (src : Source) (K : JoinQuestion → Prop) (names : Finset String) (m : Memory) :
    Prop where
  parses : Recall.Parses m.compiled
  built : src.BuiltFor K m.joins
  kept : ∀ name, (m.joins.indexes.get? name).isSome ↔ name ∈ names
  builds : m.builds = names.card
  size : m.joins.builds = names.card

theorem Memory.recalls_fresh (src : Source) (K : JoinQuestion → Prop) : Memory.fresh.Recalls src K ∅ where
  parses := by rintro _ _ ⟨⟩
  built := by rintro _ _ ⟨⟩
  kept name := by simp [fresh, JoinCache.empty]
  builds := rfl
  size := rfl

namespace Memory.Recalls

variable {src : Source} {K : JoinQuestion → Prop} {names : Finset String} {m : Memory} {q : JoinQuestion}
  {r : Request}

theorem keepExprs (h : m.Recalls src K names) {compiled : Table XPath.Expr}
    (hparses : Recall.Parses compiled) : { m with compiled := compiled }.Recalls src K names :=
  ⟨hparses, h.built, h.kept, h.builds, h.size⟩

theorem keepIndex (h : m.Recalls src K names) (hq : K q) {index : JoinIndex}
    (hnew : m.joins.indexes.get? q.name = none) (hindex : src.index q = .ok index) :
    (m.keepIndex q.name index).Recalls src K (insert q.name names) := by
  have hname : q.name ∉ names := by
    rw [← h.kept, hnew]
    simp
  refine ⟨h.parses, fun name index' h' => ?_, fun name => ?_, ?_, ?_⟩
  · rw [Memory.keepIndex, Table.get?_insert] at h'
    split at h'
    next heq =>
      cases h'
      exact ⟨q, hq, heq.symm, hindex⟩
    next => exact h.built name index' h'
  · rw [Memory.keepIndex, Table.get?_insert, Finset.mem_insert, ← h.kept]
    split <;> simp [*]
  · rw [Finset.card_insert_of_notMem hname, ← h.builds]
    rfl
  · rw [Finset.card_insert_of_notMem hname, ← h.size]
    exact Table.size_insert hnew index

/-- Each call is answered as without a memory, and only a name that is used for the first time is added. -/
theorem recallOne (h : m.Recalls src K names)
    (apart : ∀ q q', K q → K q' → q.name = q'.name → q = q') (hr : ∀ q ∈ r.question?, K q) :
    (Recall.outcome (r.recallOne src) m).1 = r.answer src ∧
      (Recall.outcome (r.recallOne src) m).2.Recalls src K (names ∪ (r.usedName? src).toFinset) := by
  have hsteps := Request.recallOne_steps src h.parses r
  generalize Recall.outcome (r.recallOne src) m = result at hsteps ⊢
  cases hsteps with
  | reads question parses =>
    have hnone : r.usedName? src = none := by
      rw [Request.usedName?, question]
      rcases r.answer src with e | a <;> rfl
    rw [hnone]
    exact ⟨rfl, (Finset.union_empty names).symm ▸ h.keepExprs parses⟩
  | @finds q value index kept =>
    have hq := hr q rfl
    obtain ⟨first, hfirst, hsame, hindex⟩ := h.built q.name index kept
    obtain rfl := apart first q hfirst hq hsame
    have hkept : first.name ∈ names := by
      rw [← h.kept, kept]
      rfl
    rw [Request.answer_joined, Request.usedName?_joined hindex, hindex, Option.toFinset_some,
      Finset.union_comm, ← Finset.insert_eq, Finset.insert_eq_of_mem hkept]
    exact ⟨rfl, h⟩
  | @builds q value index compiled new built parses =>
    rw [Request.answer_joined, Request.usedName?_joined built, built, Option.toFinset_some,
      Finset.union_comm, ← Finset.insert_eq]
    exact ⟨rfl, (h.keepExprs parses).keepIndex (hr q rfl) new built⟩
  | @fails q value e compiled new failed parses =>
    have hnone : (Request.joined q value).usedName? src = none := by
      rw [Request.usedName?, Request.answer_joined, failed]
      rfl
    rw [hnone, Request.answer_joined, failed]
    exact ⟨rfl, (Finset.union_empty names).symm ▸ h.keepExprs parses⟩

end Memory.Recalls

/-! ## Sequences of calls -/

namespace Request

variable {src : Source} {K : JoinQuestion → Prop} {names : Finset String} {m m' : Memory} {r : Request}
  {requests : List Request} {e : SetupError}

theorem recallAll_recalls (h : m.Recalls src K names)
    (apart : ∀ q q', K q → K q' → q.name = q'.name → q = q')
    (hrequests : ∀ r ∈ requests, ∀ q ∈ r.question?, K q) :
    (recallAll src requests m).1 = requests.map (·.answer src) ∧
      (recallAll src requests m).2.Recalls src K
        (names ∪ (requests.filterMap (usedName? src)).toFinset) := by
  induction requests generalizing m names with
  | nil => exact ⟨rfl, (Finset.union_empty names).symm ▸ h⟩
  | cons r rest ih =>
    obtain ⟨hr, hrest⟩ := List.forall_mem_cons.1 hrequests
    obtain ⟨hanswer, hnext⟩ := h.recallOne apart hr
    obtain ⟨hanswers, hend⟩ := ih hnext hrest
    refine ⟨congrArg₂ List.cons hanswer hanswers, ?_⟩
    have hnames : (List.filterMap (usedName? src) (r :: rest)).toFinset =
        (r.usedName? src).toFinset ∪ (List.filterMap (usedName? src) rest).toFinset := by
      rw [List.filterMap_cons]
      cases r.usedName? src <;> simp
    rw [hnames, ← Finset.union_assoc]
    exact hend

/-- Whatever is asked, a call keeps to expressions that their texts stand for, and if it fails it keeps no
index. -/
theorem recallOne_parses (hm : Recall.Parses m.compiled) (r : Request) :
    Recall.Parses (Recall.outcome (r.recallOne src) m).2.compiled ∧
      ∀ e m', Recall.outcome (r.recallOne src) m = (.error e, m') →
        m'.joins = m.joins ∧ m'.builds = m.builds := by
  have hsteps := recallOne_steps src hm r
  generalize Recall.outcome (r.recallOne src) m = result at hsteps ⊢
  cases hsteps with
  | reads _ parses => exact ⟨parses, fun e m' h => by cases congrArg Prod.snd h; exact ⟨rfl, rfl⟩⟩
  | finds => exact ⟨hm, fun e m' h => by cases congrArg Prod.fst h⟩
  | builds _ _ parses => exact ⟨parses, fun e m' h => by cases congrArg Prod.fst h⟩
  | fails _ _ parses => exact ⟨parses, fun e m' h => by cases congrArg Prod.snd h; exact ⟨rfl, rfl⟩⟩

theorem recallAll_parses (hm : Recall.Parses m.compiled) (requests : List Request) :
    Recall.Parses (recallAll src requests m).2.compiled := by
  induction requests generalizing m with
  | nil => exact hm
  | cons r rest ih => exact ih (recallOne_parses hm r).1

/-- The nodes of a join are those of a selection, in their order, that have the key. -/
theorem answer_joined_iff {q : JoinQuestion} {value : String} (hv : value.isEmpty = false)
    {found : List Location} : (joined q value).answer src = .ok (.nodes found) ↔
      ∃ nodes, src.select q.base q.expression = .ok nodes ∧
        (∀ l ∈ nodes, ∃ key, src.joinKey q.key l = .ok key) ∧
        found = nodes.filter (src.HasKey q.key value) := by
  have hscan : (joined q value).answer src = (src.scan q value).map .nodes := by
    rw [answer_joined, ← Source.map_keptUnder_index hv]
    rcases src.index q with e | index <;> rfl
  have hnodes : (src.scan q value).map Answer.nodes = .ok (.nodes found) ↔
      src.scan q value = .ok found := by
    rcases src.scan q value with e | found' <;> simp [Except.map]
  rw [hscan, hnodes, Source.scan, bind_eq_ok]
  simp only [Source.withKey_eq_ok_iff hv]

/-- What a source remembers does not show. Where no two joins share a name, a sequence of calls gives
each of the answers that it gives to a source that remembers nothing, and these are the answers without a
memory. A join with a key finds the nodes that the range selects and that have the key, in their order. As
many indexes have been built as names of joins have been used with success. And a call that fails,
whatever was asked before, leaves no index. -/
theorem recallAll_fresh (src : Source) (requests : List Request) (apart : NamesApart requests) :
    (recallAll src requests .fresh).1 =
        requests.map (fun r : Request => (Recall.outcome (r.recallOne src) .fresh).1) ∧
      (recallAll src requests .fresh).1 = requests.map (·.answer src) ∧
      (∀ q value, value.isEmpty = false → ∀ found,
        (joined q value).answer src = .ok (.nodes found) ↔
          ∃ nodes, src.select q.base q.expression = .ok nodes ∧
            (∀ l ∈ nodes, ∃ key, src.joinKey q.key l = .ok key) ∧
            found = nodes.filter (src.HasKey q.key value)) ∧
      (recallAll src requests .fresh).2.builds = (requests.filterMap (usedName? src)).toFinset.card ∧
      (recallAll src requests .fresh).2.joins.builds = (requests.filterMap (usedName? src)).toFinset.card ∧
      ∀ (earlier : List Request) (r : Request) (e : SetupError) (m' : Memory),
        Recall.outcome (r.recallOne src) (recallAll src earlier .fresh).2 = (.error e, m') →
        m'.joins = (recallAll src earlier .fresh).2.joins ∧
        m'.builds = (recallAll src earlier .fresh).2.builds := by
  let K (q : JoinQuestion) : Prop := ∃ r ∈ requests, q ∈ r.question?
  have hapart (q q' : JoinQuestion) : K q → K q' → q.name = q'.name → q = q' := by
    rintro ⟨r, hr, hq⟩ ⟨r', hr', hq'⟩
    exact apart r hr r' hr' q hq q' hq'
  obtain ⟨hanswers, hend⟩ :=
    recallAll_recalls (Memory.recalls_fresh src K) hapart fun r hr q hq => ⟨r, hr, hq⟩
  have hfresh (r : Request) : (Recall.outcome (r.recallOne src) .fresh).1 = r.answer src := by
    have hfresh := Memory.recalls_fresh src (· ∈ r.question?)
    refine (hfresh.recallOne (fun q q' hq hq' _ => ?_) fun _ => id).1
    exact Option.some.inj ((Option.mem_def.1 hq).symm.trans hq')
  rw [Finset.empty_union] at hend
  refine ⟨?_, hanswers, fun q value hv found => answer_joined_iff hv, hend.builds, hend.size, ?_⟩
  · rw [hanswers]
    exact List.map_congr_left fun r _ => (hfresh r).symm
  · intro earlier r e m' h
    exact (recallOne_parses (recallAll_parses (Memory.recalls_fresh src K).parses earlier) r).2 e m' h

/-- An item without a number of its own, in a list that has one. -/
def itemSource : Source :=
  let item : Xml.Content := .element ⟨none, "item"⟩ [] [] []
  ⟨⟨[.element ⟨none, "list"⟩ [] [⟨⟨none, "no"⟩, "2"⟩] [item]]⟩, .builtin, ", "⟩

/-- Items are asked for by their numbers, and once by a key that is no expression. -/
def itemRequests : List Request :=
  let items : JoinQuestion := ⟨"items", .root, "/list/item", "@no"⟩
  [joined items "2", joined ⟨"broken", .root, "/list/item", "@"⟩ "2", joined items "1",
    scalar .root " /list/@no "]

/-- The second call fails and leaves no index; the others share one. -/
theorem recallAll_fresh_items :
    NamesApart itemRequests ∧
      (recallAll itemSource itemRequests .fresh).1 = itemRequests.map (·.answer itemSource) ∧
      (itemRequests.map (·.answer itemSource)).map Except.toOption =
        [some (.nodes [⟨[0, 0], none⟩]), none, some (.nodes []), some (.text "2")] ∧
      (recallAll itemSource itemRequests .fresh).2.builds = 1 := by
  have apart : NamesApart itemRequests := by decide +kernel
  obtain ⟨-, hanswers, -, hbuilds, -⟩ := recallAll_fresh itemSource itemRequests apart
  exact ⟨apart, hanswers, by decide +kernel, hbuilds.trans (by decide +kernel)⟩

end Request

end Crosswalk
