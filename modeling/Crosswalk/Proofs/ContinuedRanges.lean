import Crosswalk.Mapping.Join
import Crosswalk.Proofs.ContinuedPaths
import Crosswalk.Proofs.ContinuedTokens
import Crosswalk.Proofs.Walks

/-!
# Ranges that continue the relation

A range whose text goes on from that of the relation is not selected at the domain node. What is left of it
behind the relation is selected at each node of the relation, and the text is cut without a look at its
meaning. If the range is one location path, joined to the relation by one slash, the two readings agree in
every document. What is cut off is more than it should be in two cases: behind two slashes the descent to
lower nodes is lost, and in a union only the first alternative goes on from the nodes of the relation. Then
`ReadAlike` says what it takes for the same nodes to be reached all the same.
-/

namespace Crosswalk.XPath

open Crosswalk.Xml (Document Location)
open Crosswalk.Xml.Location (Ordered inOrder mem_inOrder)

variable {d : Document} {ns : Namespaces} {ls reached found : List Location} {l m : Location}
  {steps more : List Step}

/-- Of the operators only the union gives nodes. -/
theorem Operator.eq_union {level : Level} {t : Token} {build : Expr → Expr → Expr}
    {left right : Expr} (h : Operator level t build)
    (hnodes : (build left right).evaluate d ns l = .ok (.nodes found)) : build = .union := by
  rw [Expr.evaluate] at hnodes
  cases h with
  | union => rfl
  | or => obtain ⟨_, ⟨⟩⟩ := Expr.exists_truth_of_or hnodes
  | and => obtain ⟨_, ⟨⟩⟩ := Expr.exists_truth_of_and hnodes
  | _ => obtain ⟨_, ⟨⟩⟩ := Expr.exists_truth_of_compare hnodes

/-- Where an expression that has steps in front selects nodes, it does so by the location path that it
begins with and by the same other alternatives as without these steps. -/
theorem Prefixed.first_eq {e e' : Expr} (h : Prefixed steps e e')
    (hnodes : e'.evaluate d ns l = .ok (.nodes found)) :
    ∃ more, e.first = .path false more ∧ e'.first = .path false (steps ++ more) ∧
      e.others = e'.others ∧ ∃ ms, walk d ns (steps ++ more) [l] = .ok ms := by
  induction h generalizing found with
  | path more => exact ⟨more, rfl, rfl, rfl, found, evaluate_path_iff.1 hnodes⟩
  | operator operator begins right ih =>
    obtain rfl := operator.eq_union hnodes
    obtain ⟨ms, ks, hms, -, -⟩ := evaluate_union hnodes
    obtain ⟨more, hfirst, hfirst', hothers, hwalk⟩ := ih hms
    exact ⟨more, hfirst, hfirst', congrArg (· ++ [right]) hothers, hwalk⟩

theorem Prefixed.path_eq {e e' : Expr} {all : List Step} (h : Prefixed steps e e')
    (he' : e' = .path false all) : ∃ more, e = .path false more ∧ all = steps ++ more := by
  cases h with
  | path more =>
    cases he'
    exact ⟨more, rfl, rfl⟩
  | operator operator => cases operator <;> cases he'

/-! ## Reading a text that goes on -/

section

variable {rs : List Token} {e : Expr}

theorem parse_eq_ok_of_derives {s : String} {ts : List Token} (hs : tokens s = .ok ts)
    (h : Derives ts e) : Expr.parse s = .ok e := by
  have hne : ts.isEmpty = false := by
    cases ts with
    | nil => exact absurd h.length_lt (Nat.not_lt_zero _)
    | cons => rfl
  refine bind_eq_ok.2 ⟨ts, hs, ?_⟩
  rw [hne]
  exact ofTokens_of_derives h

theorem derives_of_parse {s : String} {ts : List Token} (hs : tokens s = .ok ts) (hne : ts ≠ [])
    (h : Expr.parse s = .ok e) : Derives ts e := by
  obtain ⟨us, hus, h⟩ := bind_eq_ok.1 h
  rw [hs] at hus
  cases hus
  rw [if_neg (by simpa using hne)] at h
  exact derives_of_ofTokens h

def Step.childNamed (name : String) : Step :=
  ⟨.child, .name none name, []⟩

/-- A name is a step to the children of that name. -/
theorem StepPhrase.child {name : String} {rest : List Token} (hname : ':' ∉ name.toList) :
    StepPhrase (.name name :: rest) (.childNamed name) rest :=
  .tested (.omitted _) (.name (.plain _ hname) _) (.none _)

/-- A path is an expression of every level. -/
theorem PathPhrase.level {rest : List Token} (h : PathPhrase rs e rest) :
    LevelPhrase .disjunction rs e rest :=
  .mk (.disjunction (.mk (.conjunction (.mk (.equality (.mk (.relation (.union (.mk (.union h)
    (.none ..)))) (.none ..))) (.none ..))) (.none ..))) (.none ..)

theorem StepsPhrase.derives (h : StepsPhrase rs steps []) : Derives rs (.path false steps) :=
  PathPhrase.level (.relative h)

theorem tokens_eq (s : String) : tokens s = tokensIn s.toList := rfl

theorem head?_of_tokensIn_slash {more : List Char} {ts : List Token}
    (h : tokensIn ('/' :: more) = .ok ts) : startsStep ts = false := by
  rcases more with _ | ⟨c, more⟩
  · cases h
    rfl
  · by_cases hc : c = '/'
    · subst hc
      obtain ⟨vs, -, rfl⟩ := tokensIn_doubleSlash.1 h
      rfl
    · obtain ⟨vs, -, rfl⟩ := (tokensIn_slash (by rintro _ ⟨⟩; exact hc rfl)).1 h
      rfl

/-- What a slash leaves of a text that is cut into tokens behind it. -/
theorem exists_junction {more : List Char} {vs : List Token} (h : tokensIn ('/' :: more) = .ok vs) :
    ∃ t joint ws after, Junction t joint ∧ vs = t :: ws ∧ tokensIn after = .ok ws ∧ after <:+ more ∧
      (joint = [] ↔ ∀ rest, more ≠ '/' :: rest) ∧
      (startsStep ws = true → more.dropWhile (· == '/') = after) := by
  by_cases hmore : ∀ rest, more ≠ '/' :: rest
  · obtain ⟨ws, hws, rfl⟩ := (tokensIn_slash hmore).1 h
    refine ⟨_, _, ws, more, .child, rfl, hws, List.suffix_rfl, iff_of_true rfl hmore, fun _ => ?_⟩
    cases more with
    | nil => rfl
    | cons c more =>
      have hc : c ≠ '/' := fun hc => hmore more (hc ▸ rfl)
      rw [List.dropWhile_cons_of_neg (by simpa using hc)]
  · obtain ⟨after, rfl⟩ : ∃ after, more = '/' :: after := by simpa using hmore
    obtain ⟨ws, hws, rfl⟩ := tokensIn_doubleSlash.1 h
    refine ⟨_, _, ws, after, .everywhere, rfl, hws, List.suffix_cons .., iff_of_false (by simp) hmore, ?_⟩
    intro hstarts
    rw [List.dropWhile_cons_of_pos (by rfl)]
    cases after with
    | nil => rfl
    | cons c after =>
      have hc : c ≠ '/' := by
        rintro rfl
        rw [head?_of_tokensIn_slash hws] at hstarts
        cases hstarts
      rw [List.dropWhile_cons_of_neg (by simpa using hc)]

end

end Crosswalk.XPath

namespace Crosswalk

open Crosswalk.XPath
open Crosswalk.Xml (Document Location)

theorem rangeRemainder_self {range relation : String} (h : Text.trim range = Text.trim relation)
    (hrelation : Text.trim relation ≠ "") : rangeRemainder range relation = "" := by
  have hdrop : Text.dropStart? (Text.trim relation) (Text.trim relation) = some "" := by
    rw [Text.dropStart?, Text.after?_eq_some_iff.2 (List.append_nil _).symm]
    rfl
  rw [rangeRemainder, h, hdrop, if_neg (by simpa using hrelation)]
  rfl

theorem rangeRemainder_append {range relation : String} {more : List Char}
    (h : (Text.trim range).toList = (Text.trim relation).toList ++ '/' :: more)
    (hrelation : Text.trim relation ≠ "") :
    rangeRemainder range relation = String.ofList (more.dropWhile (· == '/')) := by
  have hdrop : Text.dropStart? (Text.trim relation) (Text.trim range) =
      some (String.ofList ('/' :: more)) := by
    rw [Text.dropStart?, Text.after?_eq_some_iff.2 h]
    rfl
  have hslash : Text.startsWith "/" (String.ofList ('/' :: more)) = true :=
    Text.startsWith_iff.2 ⟨more, by rw [String.toList_ofList]; rfl⟩
  rw [rangeRemainder, hdrop]
  dsimp only
  rw [if_neg (by simpa using hrelation), if_neg (by simp), if_pos hslash, dropSlashes,
    String.toList_ofList]
  rfl

/-- What is left of an expression that continues a relation, read: nothing, or an expression to which
the steps of the relation are put in front. -/
inductive Remains (steps : List Step) (rest : String) (e : Expr) : Expr → Prop
  | nothing (hrest : rest = "") (he : e = .path false steps) : Remains steps rest e (.path false [.here])
  | behind {t : Token} {joint : List Step} {e₀ : Expr} (ht : Junction t joint)
      (hjoint : joint = [] ↔ Text.startsWith "//" rest = false)
      (h : Prefixed (steps ++ joint) e₀ e) : Remains steps rest e e₀

variable {range relation rest : String} {rs : List Token} {steps : List Step} {e e₀ : Expr}

/-- What is left of one location path is one, and leads on from where the steps of the relation lead. -/
theorem Remains.path_eq {all : List Step} (h : Remains steps rest (.path false all) e₀)
    (hdescent : Text.startsWith "//" rest = false) (d : Document) (ns : Namespaces) :
    ∃ onward, e₀ = .path false onward ∧
      ∀ l, walk d ns all [l] = walk d ns (steps ++ onward) [l] := by
  cases h with
  | nothing hrest he =>
    cases he
    exact ⟨[.here], rfl, fun l => (walk_append_here l).symm⟩
  | behind ht hjoint h =>
    obtain ⟨more, rfl, rfl⟩ := h.path_eq rfl
    rw [hjoint.2 hdescent, List.append_nil]
    exact ⟨more, rfl, fun l => rfl⟩

/-- If an expression that continues a relation can be read, then so can what is left of it. -/
theorem exists_remainder (hrs : tokens (Text.trim relation) = .ok rs) (hpath : StepsPhrase rs steps [])
    (hrange : Text.trim range = Text.trim relation ++ rest)
    (hrest : rest = "" ∨ Text.startsWith "/" rest = true)
    (he : Expr.parse (Text.trim range) = .ok e) :
    ∃ e₀, Expr.parse (Text.trim (rangeRemainder range relation)) = .ok e₀ ∧
      Remains steps rest e e₀ := by
  have hne : rs ≠ [] := List.ne_nil_of_length_pos hpath.length_lt
  have hrelation : Text.trim relation ≠ "" := by
    intro hempty
    rw [hempty] at hrs
    cases hrs
    exact hne rfl
  rcases hrest with rfl | hslash
  · rw [String.append_empty] at hrange
    have hparse := parse_eq_ok_of_derives hrs hpath.derives
    rw [← hrange, he] at hparse
    cases hparse
    exact ⟨_, rangeRemainder_self hrange hrelation ▸ rfl, .nothing rfl rfl⟩
  · obtain ⟨more, hmore⟩ := Text.startsWith_iff.1 hslash
    have hchars : (Text.trim range).toList = (Text.trim relation).toList ++ '/' :: more := by
      rw [hrange, String.toList_append, hmore]
      rfl
    obtain ⟨xs, hxs, -⟩ := bind_eq_ok.1 he
    have hcut := hxs
    rw [tokens_eq, hchars] at hcut
    obtain ⟨vs, hvs, rfl⟩ := (tokensIn_append_slash hrs hpath.endsApart).1 hcut
    obtain ⟨t, joint, ws, after, ht, rfl, hws, hafter, hjoint, hdrop⟩ := exists_junction hvs
    obtain ⟨e₀, hderives, hprefixed, hstarts⟩ :=
      (derives_of_parse hxs (by simp) he).unprefixed hpath ht
    have hsuffix : after <:+ (Text.trim range).toList :=
      hchars ▸ hafter.trans ((List.suffix_cons ..).trans (List.suffix_append ..))
    refine ⟨e₀, ?_, .behind ht ?_ hprefixed⟩
    · rw [rangeRemainder_append hchars hrelation, hdrop hstarts]
      exact parse_eq_ok_of_derives (tokens_trim_of_suffix hsuffix hws) hderives
    · rw [hjoint, Bool.eq_false_iff, ne_eq, Text.startsWith_iff, hmore]
      simp

namespace Source

variable {src : Source} {node : Location} {ls starts found reached : List Location}

theorem select_eq_ok_iff {expression : String} (he : Expr.parse (Text.trim expression) = .ok e) :
    src.select node expression = .ok ls ↔
      e.evaluate src.document src.namespaces node = .ok (.nodes ls) := by
  constructor
  · intro h
    have h := mapError_eq_ok.1 (evaluate_of_select h)
    rw [he] at h
    exact h
  · intro h
    refine bind_eq_ok.2 ⟨.nodes ls, mapError_eq_ok.2 ?_, rfl⟩
    rw [he]
    exact h

/-- The nodes to which a range leads when it is read as a continuation: what is left of it behind the
relation, selected at each node of the relation. -/
def continued (src : Source) (node : Location) (relation range : String) :
    Except SetupError (List Location) := do
  let starts ← src.select node relation
  let found ← starts.mapM fun start => src.select start (rangeRemainder range relation)
  .ok found.flatten

theorem continued_eq_ok_iff : src.continued node relation range = .ok reached ↔
    ∃ starts parts, src.select node relation = .ok starts ∧
      starts.mapM (fun start => src.select start (rangeRemainder range relation)) = .ok parts ∧
      reached = parts.flatten := by
  constructor
  · intro h
    obtain ⟨starts, hstarts, h⟩ := bind_eq_ok.1 h
    obtain ⟨parts, hparts, h⟩ := bind_eq_ok.1 h
    cases h
    exact ⟨starts, parts, hstarts, hparts, rfl⟩
  · rintro ⟨starts, parts, hstarts, hparts, rfl⟩
    exact bind_eq_ok.2 ⟨starts, hstarts, bind_eq_ok.2 ⟨parts, hparts, rfl⟩⟩

theorem mem_continued (h : src.continued node relation range = .ok reached)
    (hstarts : src.select node relation = .ok starts) {m : Location} :
    m ∈ reached ↔ ∃ p ∈ starts, ∃ ls,
      src.select p (rangeRemainder range relation) = .ok ls ∧ m ∈ ls := by
  obtain ⟨starts', parts, hstarts', hparts, rfl⟩ := continued_eq_ok_iff.1 h
  rw [hstarts] at hstarts'
  cases hstarts'
  rw [List.mem_flatten]
  constructor
  · rintro ⟨ls, hls, hm⟩
    obtain ⟨p, hp, hls⟩ := (mem_mapM_iff hparts).1 hls
    exact ⟨p, hp, ls, hls, hm⟩
  · rintro ⟨p, hp, ls, hls, hm⟩
    exact ⟨ls, (mem_mapM_iff hparts).2 ⟨p, hp, hls⟩, hm⟩

section

variable (hstarts : src.select node relation = .ok starts)
  (he₀ : Expr.parse (Text.trim (rangeRemainder range relation)) = .ok e₀)

include hstarts he₀

theorem exists_continued_iff : (∃ reached, src.continued node relation range = .ok reached) ↔
    ∀ p ∈ starts, ∃ ls, e₀.evaluate src.document src.namespaces p = .ok (.nodes ls) := by
  simp only [← select_eq_ok_iff he₀]
  rw [← exists_mapM_iff]
  constructor
  · rintro ⟨reached, h⟩
    obtain ⟨starts', parts, hstarts', hparts, -⟩ := continued_eq_ok_iff.1 h
    rw [hstarts] at hstarts'
    cases hstarts'
    exact ⟨parts, hparts⟩
  · rintro ⟨parts, hparts⟩
    exact ⟨parts.flatten, continued_eq_ok_iff.2 ⟨starts, parts, hstarts, hparts, rfl⟩⟩

theorem mem_continued_iff (h : src.continued node relation range = .ok reached) {m : Location} :
    m ∈ reached ↔ ∃ p ∈ starts, e₀.Selects src.document src.namespaces p m := by
  simp only [mem_continued h hstarts, select_eq_ok_iff he₀, Expr.Selects]

end

/-! ## The two readings of a range -/

section

variable (hrs : tokens (Text.trim relation) = .ok rs) (hpath : StepsPhrase rs steps [])

include hrs hpath

theorem select_relation_iff : src.select node relation = .ok starts ↔
    walk src.document src.namespaces steps [node] = .ok starts := by
  rw [select_eq_ok_iff (parse_eq_ok_of_derives hrs hpath.derives), evaluate_path_iff]

variable (hrange : Text.trim range = Text.trim relation ++ rest)
  (hrest : rest = "" ∨ Text.startsWith "/" rest = true)

include hrange hrest

/-- A range that is one location path and continues the relation leads to the same nodes, whether it is
selected at once or what is left of it is selected from the nodes of the relation, unless the two
slashes of a descent stand between them. -/
theorem select_iff_continued {all : List Step}
    (he : Expr.parse (Text.trim range) = .ok (.path false all))
    (hdescent : Text.startsWith "//" rest = false) :
    src.select node range = .ok found ↔
      ∃ reached, src.continued node relation range = .ok reached ∧ found = Location.inOrder reached := by
  obtain ⟨e₀, he₀, hremains⟩ := exists_remainder hrs hpath hrange hrest he
  obtain ⟨onward, rfl, hall⟩ := hremains.path_eq hdescent src.document src.namespaces
  have hmem {starts found reached : List Location} (hstarts : src.select node relation = .ok starts)
      (hwalk : walk src.document src.namespaces onward starts = .ok found)
      (hreached : src.continued node relation range = .ok reached) :
      found = Location.inOrder reached := by
    have hordered := ordered_walk (ordered_select hstarts) hwalk
    refine hordered.eq_of_mem_iff (Location.ordered_inOrder reached) fun m => ?_
    rw [mem_walk_iff hwalk, Location.mem_inOrder, mem_continued_iff hstarts he₀ hreached]
    simp only [selects_path_iff]
  have hselect : src.select node range = .ok found ↔ ∃ starts, src.select node relation = .ok starts ∧
      walk src.document src.namespaces onward starts = .ok found := by
    rw [select_eq_ok_iff he, evaluate_path_iff, hall, walk_append, bind_eq_ok]
    simp only [select_relation_iff hrs hpath]
  rw [hselect]
  constructor
  · rintro ⟨starts, hstarts, hwalk⟩
    have hsome := (exists_continued_iff hstarts he₀).2 fun p hp => by
      simpa only [evaluate_path_iff] using exists_walk_iff.1 ⟨found, hwalk⟩ p hp
    obtain ⟨reached, hreached⟩ := hsome
    exact ⟨reached, hreached, hmem hstarts hwalk hreached⟩
  · rintro ⟨reached, hreached, rfl⟩
    obtain ⟨starts, hstarts, -⟩ := bind_eq_ok.1 hreached
    obtain ⟨found, hwalk⟩ := exists_walk_iff.2 fun p hp => by
      simpa only [evaluate_path_iff] using (exists_continued_iff hstarts he₀).1 ⟨reached, hreached⟩ p hp
    exact ⟨starts, hstarts, hmem hstarts hwalk hreached ▸ hwalk⟩

end

/-- Where the rest of a range is selected for a node of the relation: at that node, or behind two slashes
at all nodes from it downwards. -/
def Spans (d : Document) (rest : String) (p q : Location) : Prop :=
  if Text.startsWith "//" rest = true then q ∈ Axis.descendantOrSelf.locations d p else q = p

theorem spans_self (d : Document) (rest : String) (p : Location) : Spans d rest p p := by
  rw [Spans]
  split
  · rw [Axis.locations]
    split <;> simp
  · rfl

theorem walksTo_joint_iff {t : Token} {joint : List Step} {d : Document} {ns : Namespaces}
    {p q : Location} (ht : Junction t joint)
    (hjoint : joint = [] ↔ Text.startsWith "//" rest = false) :
    WalksTo d ns joint p q ↔ Spans d rest p q := by
  cases ht with
  | child => simp [Spans, hjoint.1 rfl, WalksTo, walk]
  | everywhere =>
    have hrest : Text.startsWith "//" rest = true := by simpa using mt hjoint.2 (by simp)
    rw [Spans, if_pos hrest, walksTo_everyBelow_iff]

/-- What a range selects that continues a relation. -/
theorem mem_found_iff (hwalk : walk src.document src.namespaces steps [node] = .ok starts)
    (hremains : Remains steps rest e e₀)
    (hfound : e.evaluate src.document src.namespaces node = .ok (.nodes found)) {m : Location} :
    m ∈ found ↔
      (∃ p ∈ starts, ∃ q, Spans src.document rest p q ∧
        e₀.first.Selects src.document src.namespaces q m) ∨
      ∃ o ∈ e₀.others, o.Selects src.document src.namespaces node m := by
  have hstarts {p : Location} :
      p ∈ starts ↔ WalksTo src.document src.namespaces steps node p := by
    simp [WalksTo, hwalk]
  rw [mem_evaluate_iff hfound]
  cases hremains with
  | nothing hrest he =>
    subst hrest he
    have hself {p q : Location} : Spans src.document "" p q ↔ q = p := by
      rw [Spans, if_neg (by decide)]
    simp [Expr.first, Expr.others, selects_path_iff, hself, hstarts, WalksTo,
      walk_here (Location.ordered_singleton _)]
  | @behind _ joint _ ht hjoint hprefixed =>
    obtain ⟨onward, hfirst, hfirst', hothers, ms, hms⟩ := hprefixed.first_eq hfound
    have hfront := hms
    rw [walk_append, bind_eq_ok] at hfront
    obtain ⟨ks, hks, -⟩ := hfront
    have hmem {q : Location} : WalksTo src.document src.namespaces (steps ++ joint) node q ↔
        ∃ p ∈ starts, Spans src.document rest p q := by
      simp only [walksTo_append_iff hks, hstarts, walksTo_joint_iff ht hjoint]
    rw [hfirst', ← hothers, selects_path_iff, walksTo_append_iff hms, hfirst]
    simp only [hmem, selects_path_iff]
    grind

/-- What it takes for the two readings of a range to lead to the same nodes: nothing is selected below
the nodes of the relation that is not selected at them, the other alternatives select nothing at the
node itself that has not been reached, and nothing at the nodes of the relation that the range does not
select at the node. -/
structure ReadAlike (src : Source) (node : Location) (starts : List Location) (rest : String)
    (e₀ : Expr) (found reached : List Location) : Prop where
  descent : Text.startsWith "//" rest = true → ∀ p ∈ starts,
    ∀ q ∈ Axis.descendantOrSelf.locations src.document p,
      ∀ m, e₀.first.Selects src.document src.namespaces q m → m ∈ reached
  others : ∀ o ∈ e₀.others, ∀ m, o.Selects src.document src.namespaces node m → m ∈ reached
  below : ∀ o ∈ e₀.others, ∀ p ∈ starts, ∀ m, o.Selects src.document src.namespaces p m → m ∈ found

/-- What is reached when the range is read as a continuation. -/
theorem mem_reached_iff (hstarts : src.select node relation = .ok starts)
    (he₀ : Expr.parse (Text.trim (rangeRemainder range relation)) = .ok e₀)
    (hreached : src.continued node relation range = .ok reached) {m : Location} :
    m ∈ reached ↔ ∃ p ∈ starts, e₀.first.Selects src.document src.namespaces p m ∨
      ∃ o ∈ e₀.others, o.Selects src.document src.namespaces p m := by
  rw [mem_continued_iff hstarts he₀ hreached]
  refine exists_congr fun p => and_congr_right fun hp => ?_
  obtain ⟨ls, hls⟩ := (exists_continued_iff hstarts he₀).1 ⟨reached, hreached⟩ p hp
  rw [← mem_evaluate_iff hls]
  simp [Expr.Selects, hls]

theorem readAlike_iff (hstarts : src.select node relation = .ok starts)
    (hwalk : walk src.document src.namespaces steps [node] = .ok starts)
    (he₀ : Expr.parse (Text.trim (rangeRemainder range relation)) = .ok e₀)
    (hremains : Remains steps rest e e₀)
    (hfound : e.evaluate src.document src.namespaces node = .ok (.nodes found))
    (hreached : src.continued node relation range = .ok reached) :
    (∀ m, m ∈ found ↔ m ∈ reached) ↔ ReadAlike src node starts rest e₀ found reached := by
  have hmem {m : Location} := mem_found_iff hwalk hremains hfound (m := m)
  have hmem' {m : Location} := mem_reached_iff hstarts he₀ hreached (m := m)
  constructor
  · intro h
    refine ⟨fun hrest p hp q hq m hm => ?_, fun o ho m hm => ?_, fun o ho p hp m hm => ?_⟩
    · exact (h m).1 (hmem.2 (.inl ⟨p, hp, q, by rwa [Spans, if_pos hrest], hm⟩))
    · exact (h m).1 (hmem.2 (.inr ⟨o, ho, hm⟩))
    · exact (h m).2 (hmem'.2 ⟨p, hp, .inr ⟨o, ho, hm⟩⟩)
  · rintro h m
    constructor
    · intro hm
      rcases hmem.1 hm with ⟨p, hp, q, hq, hm⟩ | ⟨o, ho, hm⟩
      · rw [Spans] at hq
        split at hq
        next hrest => exact h.descent hrest p hp q hq m hm
        next =>
          subst hq
          exact hmem'.2 ⟨q, hp, .inl hm⟩
      · exact h.others o ho m hm
    · intro hm
      obtain ⟨p, hp, hm | ⟨o, ho, hm⟩⟩ := hmem'.1 hm
      · exact hmem.2 (.inl ⟨p, hp, p, spans_self _ _ p, hm⟩)
      · exact h.below o ho p hp m hm

/-- A range that continues the relation of its link can be read as what is left of it. The two readings of a
range that is one location path lead to the same nodes, unless two slashes join the parts; in general they
do if the other alternatives and the nodes further down make no difference. -/
theorem continued_agrees_iff (src : Source) (node : Location)
    (hrs : tokens (Text.trim relation) = .ok rs) (hpath : StepsPhrase rs steps [])
    (hrange : Text.trim range = Text.trim relation ++ rest)
    (hrest : rest = "" ∨ Text.startsWith "/" rest = true)
    (he : Expr.parse (Text.trim range) = .ok e) :
    ((∃ all, e = .path false all) → Text.startsWith "//" rest = false →
      ∀ found, src.select node range = .ok found ↔
        ∃ reached, src.continued node relation range = .ok reached ∧
          found = Location.inOrder reached) ∧
    ∃ e₀, Expr.parse (Text.trim (rangeRemainder range relation)) = .ok e₀ ∧
      ∀ starts found reached, src.select node relation = .ok starts → src.select node range = .ok found →
        src.continued node relation range = .ok reached →
          ((∀ m, m ∈ found ↔ m ∈ reached) ↔ ReadAlike src node starts rest e₀ found reached) := by
  constructor
  · rintro ⟨all, rfl⟩ hdescent found
    exact select_iff_continued hrs hpath hrange hrest he hdescent
  · obtain ⟨e₀, he₀, hremains⟩ := exists_remainder hrs hpath hrange hrest he
    refine ⟨e₀, he₀, fun starts found reached hstarts hfound hreached => ?_⟩
    exact readAlike_iff hstarts ((select_relation_iff hrs hpath).1 hstarts) he₀ hremains
      ((select_eq_ok_iff he).1 hfound) hreached

/-! ### A person with a former name -/

/-- A person whose names are a name and, further down, a former one. -/
def namesSource : Source :=
  let element (name : String) (content : List Xml.Content) : Xml.Content :=
    .element ⟨none, name⟩ [] [] content
  ⟨⟨[element "person" [element "names" [element "former" [element "name" []]]]]⟩, .builtin, ", "⟩

section

open Crosswalk.Xml.Location (ofPath ordered_singleton)

theorem tokens_names : tokens (Text.trim "names") = .ok [.name "names"] := by rfl

theorem names_phrase : StepsPhrase [.name "names"] [.childNamed "names"] [] :=
  .last (.child (by decide))

theorem walk_names (rest : List Step) :
    walk namesSource.document namesSource.namespaces (.childNamed "names" :: rest) [ofPath [0]] =
      walk namesSource.document namesSource.namespaces rest [ofPath [0, 0]] :=
  walk_cons_of _ (by rfl) (ordered_singleton _)

theorem select_names : namesSource.select (ofPath [0]) "names" = .ok [ofPath [0, 0]] := by
  rw [select_relation_iff tokens_names names_phrase, walk_names, walk]

theorem parse_former : Expr.parse (Text.trim "names/former/name") =
    .ok (.path false [.childNamed "names", .childNamed "former", .childNamed "name"]) := by
  have htokens : tokens (Text.trim "names/former/name") =
      .ok [.name "names", .slash, .name "former", .slash, .name "name"] := by
    rfl
  refine parse_eq_ok_of_derives htokens (StepsPhrase.derives ?_)
  exact .child (.child (by decide)) (.child (.child (by decide)) (.last (.child (by decide))))

theorem select_former :
    namesSource.select (ofPath [0]) "names/former/name" = .ok [ofPath [0, 0, 0, 0]] := by
  rw [select_eq_ok_iff parse_former, evaluate_path_iff, walk_names,
    walk_cons_of [ofPath [0, 0, 0]] (by rfl) (ordered_singleton _),
    walk_cons_of [ofPath [0, 0, 0, 0]] (by rfl) (ordered_singleton _), walk]

/-- The former name is reached from the names of the person, as the range says. -/
theorem continued_agrees_iff_former : ∃ reached,
    namesSource.continued (ofPath [0]) "names" "names/former/name" = .ok reached ∧
      [ofPath [0, 0, 0, 0]] = Location.inOrder reached := by
  have hrange : Text.trim "names/former/name" = Text.trim "names" ++ "/former/name" := by
    decide +kernel
  have hagrees := continued_agrees_iff namesSource (ofPath [0]) tokens_names names_phrase hrange
    (.inr (by decide +kernel)) parse_former
  exact (hagrees.1 ⟨_, rfl⟩ (by decide +kernel) _).1 select_former

theorem parse_below : Expr.parse (Text.trim "names//name") =
    .ok (.path false [.childNamed "names", .everyBelow, .childNamed "name"]) := by
  have htokens : tokens (Text.trim "names//name") =
      .ok [.name "names", .doubleSlash, .name "name"] := by
    rfl
  refine parse_eq_ok_of_derives htokens (StepsPhrase.derives ?_)
  exact .everywhere (.child (by decide)) (.last (.child (by decide)))

theorem parse_name : Expr.parse (Text.trim "name") = .ok (.path false [.childNamed "name"]) := by
  have htokens : tokens (Text.trim "name") = .ok [.name "name"] := by rfl
  exact parse_eq_ok_of_derives htokens (StepsPhrase.derives (.last (.child (by decide))))

theorem select_below :
    namesSource.select (ofPath [0]) "names//name" = .ok [ofPath [0, 0, 0, 0]] := by
  have hbelow : Location.Ordered [ofPath [0, 0], ofPath [0, 0, 0], ofPath [0, 0, 0, 0]] := by
    rw [Location.Ordered]
    decide
  rw [select_eq_ok_iff parse_below, evaluate_path_iff, walk_names,
    walk_cons_of _ (by rfl) hbelow,
    walk_cons_of [ofPath [0, 0, 0, 0]] (by rfl) (ordered_singleton _), walk]

/-- The former name is below the names of the person, but it is not reached when the range is read as a
continuation: both slashes are dropped, and what is left only asks for the children. -/
theorem missed_below_names :
    tokens (Text.trim "names") = .ok [.name "names"] ∧
    StepsPhrase [.name "names"] [.childNamed "names"] [] ∧
    (∃ e, Expr.parse (Text.trim "names//name") = .ok e) ∧
    Text.trim "names//name" = Text.trim "names" ++ "//name" ∧ Text.startsWith "/" "//name" = true ∧
    namesSource.select (ofPath [0]) "names//name" = .ok [ofPath [0, 0, 0, 0]] ∧
    namesSource.continued (ofPath [0]) "names" "names//name" = .ok [] := by
  refine ⟨tokens_names, names_phrase, ⟨_, parse_below⟩, by decide +kernel, by decide +kernel,
    select_below, ?_⟩
  have hrest : namesSource.select (ofPath [0, 0]) (rangeRemainder "names//name" "names") = .ok [] := by
    rw [show rangeRemainder "names//name" "names" = "name" by decide +kernel,
      select_eq_ok_iff parse_name, evaluate_path_iff, walk_cons_of [] (by decide +kernel)
        (by rw [Location.Ordered]; exact List.Pairwise.nil), walk]
  refine continued_eq_ok_iff.2 ⟨_, [[]], select_names, ?_, rfl⟩
  rw [mapM_eq_ok_iff]
  exact .cons hrest .nil

end

end Source

end Crosswalk
