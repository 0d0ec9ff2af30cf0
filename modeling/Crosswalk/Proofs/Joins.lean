import Crosswalk.Proofs.JoinIndex
import Crosswalk.Proofs.Reading
import Mathlib.Logic.Function.Basic
import Mathlib.Tactic.Choose

/-!
# What a join asks and finds

A join asks one question, or two with nodes in between. `LinkSetting.rangesBy` is the join as it is
meant: each question is answered by itself. What a join finds in a state is the same with other
questions in place of its own ones, which are the first ones that had their names.
-/

namespace Crosswalk.Run

open Crosswalk.Xml (Location)

/-! ## Questions -/

/-- What a link asks at a domain node. A relative expression is meant at the node around the domain
node. -/
def LinkSetting.question (l : LinkSetting) (domainNode : Location) (expression key : String) :
    JoinQuestion :=
  let absolute := Text.startsWith "/" (Text.trim expression)
  let base := if absolute then Location.root else (domainNode.parent?).getD Location.root
  ⟨Source.joinName l.mapping.domain.sourceNode l.link.source.expression (expression ++ "#" ++ key)
      (if absolute then none else some (l.scene.source.path base)),
    base, expression, key⟩

def LinkSetting.questions (l : LinkSetting) (join : Join) (domainNode : Location) :
    List JoinQuestion :=
  (join.legs (Text.trim l.link.range.sourceNode)).map fun leg =>
    l.question domainNode leg.1 leg.2

/-- The nodes that a node in between is joined to; none when its key is empty. -/
def LinkSetting.onward (answer : String → Except SetupError (List Location)) (l : LinkSetting)
    (keyExpression : String) (node : Location) : Except SetupError (List Location) := do
  let value ← l.scene.source.scalar node keyExpression
  if value.isEmpty then .ok [] else answer value

/-- The range nodes for a key when every question has an answer of its own. With nodes in between, the
answers for these follow each other, and a node is kept where it occurs first. -/
def LinkSetting.rangesFor (answer : JoinQuestion → String → Except SetupError (List Location))
    (l : LinkSetting) (join : Join) (domainNode : Location) (value : String) :
    Except SetupError (List Location) :=
  let range := Text.trim l.link.range.sourceNode
  match join.hop? with
  | none => answer (l.question domainNode range join.keys.target) value
  | some hop => do
    let nodes ← answer (l.question domainNode hop.node join.keys.target) value
    let onward := answer (l.question domainNode range hop.keys.target)
    let answers ← nodes.mapM (l.onward onward hop.keys.source)
    .ok answers.flatten.eraseDups

/-- The range nodes of a join; none when the key of the domain node is empty. -/
def LinkSetting.rangesBy (answer : JoinQuestion → String → Except SetupError (List Location))
    (l : LinkSetting) (join : Join) (domainNode : Location) : Except SetupError (List Location) := do
  let value ← l.scene.source.scalar domainNode join.keys.source
  if value.isEmpty then .ok [] else l.rangesFor answer join domainNode value

/-- What a join does for a key. -/
def joinFor (l : LinkSetting) (join : Join) (domainNode : Location) (value : String) :
    Run (List Location) :=
  let range := Text.trim l.link.range.sourceNode
  match join.hop? with
  | none => joinedNodes l domainNode range join.keys.target value
  | some hop => do
    let nodes ← joinedNodes l domainNode hop.node join.keys.target value
    joinOnward l domainNode range hop.keys [] nodes

theorem joinRanges_eq (l : LinkSetting) (join : Join) (domainNode : Location) :
    joinRanges l join domainNode = (do
      let value ← ofSetup (l.scene.source.scalar domainNode join.keys.source)
      if value.isEmpty then return [] else joinFor l join domainNode value) := rfl

section

variable {l : LinkSetting} {join : Join} {domainNode : Location} {first q : JoinQuestion}
  {expression key value range : String} {keys : KeyPair} {s t : RunState}

/-- The indexes of joins grow by those for certain questions. -/
def JoinsGrow (src : Source) (Q : JoinQuestion → Prop) (s t : RunState) : Prop :=
  src.Grows Q s.joins t.joins

instance (src : Source) (Q : JoinQuestion → Prop) : IsPreorder RunState (JoinsGrow src Q) where
  refl s := .refl src Q s.joins
  trans _ _ _ h h' := h.trans h'

theorem joinedNodes_grows {Q : JoinQuestion → Prop} (hq : Q (l.question domainNode expression key))
    (value : String) :
    Moves (JoinsGrow l.scene.source Q) (joinedNodes l domainNode expression key value) := by
  refine .get_bind fun s => rel_bind (Moves.ofSetup _ s) fun p t ht => ?_
  obtain ⟨hjoined, rfl⟩ := ofSetup_ok.1 ht
  -- the name must not be computed: it is compared as it is written
  refine Source.grows_joined (p := p) hq value ?_
  dsimp only [LinkSetting.question]
  exact hjoined

theorem outcome_joinedNodes (hq : l.question domainNode expression key = q)
    (hv : value.isEmpty = false) (h : l.scene.source.AnsweredAs s.joins q first) :
    ∃ joins, l.scene.source.AnsweredAs joins q first ∧
      outcome (joinedNodes l domainNode expression key value) s =
        ((l.scene.source.scan first value).mapError Fault.setup, { s with joins := joins }) := by
  subst hq
  rw [joinedNodes, outcome_bind, outcome_get]
  dsimp only
  rw [outcome_bind, outcome_ofSetup]
  rcases Source.joined_eq hv h with ⟨e, hscan, hjoined⟩ | ⟨found, joins, hscan, hjoined, hlater⟩
  · refine ⟨s.joins, h, ?_⟩
    rw [LinkSetting.question] at hjoined
    rw [hscan, hjoined]
    rfl
  · refine ⟨joins, hlater, ?_⟩
    rw [LinkSetting.question] at hjoined
    rw [hscan, hjoined]
    rfl

/-! ## Nodes in between -/

theorem eraseDups_eq_self {ls : List Location} (h : ls.Nodup) : ls.eraseDups = ls := by
  induction ls with
  | nil => rfl
  | cons n rest ih =>
    rw [List.nodup_cons] at h
    have hrest : rest.filter (fun m => !m == n) = rest := by
      rw [List.filter_eq_self]
      rintro m hm
      rw [Bool.not_eq_true', beq_eq_false_iff_ne]
      rintro rfl
      exact h.1 hm
    rw [List.eraseDups_cons, hrest, ih h.2]

/-- Adding nodes one by one, unless they are there, keeps each where it occurs first. -/
theorem foldl_eq_eraseDups {found : List Location} (h : found.Nodup) (nodes : List Location) :
    nodes.foldl (fun f n => if f.contains n then f else f ++ [n]) found =
        (found ++ nodes).eraseDups ∧
      (found ++ nodes).eraseDups.Nodup := by
  induction nodes generalizing found with
  | nil =>
    rw [List.append_nil, eraseDups_eq_self h]
    exact ⟨rfl, h⟩
  | cons n rest ih =>
    rw [List.foldl_cons]
    by_cases hn : n ∈ found
    · have hskip : (found ++ n :: rest).eraseDups = (found ++ rest).eraseDups := by
        simp [List.eraseDups_append, List.removeAll, hn]
      rw [if_pos (List.contains_iff_mem.2 hn), hskip]
      exact ih h
    · have hadded : (found ++ [n]).Nodup := by
        rw [List.nodup_append]
        refine ⟨h, by simp, ?_⟩
        rintro m hm _ hn' rfl
        exact hn (List.mem_singleton.1 hn' ▸ hm)
      have hsplit : found ++ n :: rest = found ++ [n] ++ rest := by simp
      rw [if_neg (by simpa using hn), hsplit]
      exact ih hadded

theorem nodup_eraseDups (ls : List Location) : ls.eraseDups.Nodup :=
  (foldl_eq_eraseDups List.nodup_nil ls).2

theorem eraseDups_eraseDups_append (xs ys : List Location) :
    (xs.eraseDups ++ ys).eraseDups = (xs ++ ys).eraseDups := by
  have hall := (foldl_eq_eraseDups List.nodup_nil (xs ++ ys)).1
  rw [List.foldl_append, (foldl_eq_eraseDups List.nodup_nil xs).1, List.nil_append,
    List.nil_append, (foldl_eq_eraseDups (nodup_eraseDups xs) ys).1] at hall
  exact hall

/-- What is found so far grows by what the next node is joined to. -/
theorem outcome_joinOnward_cons (hq : l.question domainNode range keys.target = q)
    (h : l.scene.source.AnsweredAs s.joins q first) {found : List Location} (hfound : found.Nodup)
    (node : Location) (rest : List Location) :
    ∃ joins, l.scene.source.AnsweredAs joins q first ∧
      outcome (joinOnward l domainNode range keys found (node :: rest)) s =
        match l.onward (l.scene.source.scan first) keys.source node with
        | .ok nodes =>
          outcome (joinOnward l domainNode range keys (found ++ nodes).eraseDups rest)
            { s with joins := joins }
        | .error e => (.error (.setup e), { s with joins := joins }) := by
  rw [joinOnward, outcome_bind, outcome_ofSetup, LinkSetting.onward]
  rcases l.scene.source.scalar node keys.source with e | value
  · exact ⟨s.joins, h, rfl⟩
  dsimp only [Except.mapError]
  cases hv : value.isEmpty with
  | true =>
    refine ⟨s.joins, h, ?_⟩
    have hnone : (found ++ []).eraseDups = found := by
      rw [List.append_nil, eraseDups_eq_self hfound]
    simp only [bind, Except.bind, hv, if_true]
    rw [hnone]
  | false =>
    obtain ⟨joins, hlater, hjoined⟩ := outcome_joinedNodes hq hv h
    refine ⟨joins, hlater, ?_⟩
    rw [if_neg Bool.false_ne_true, outcome_bind, hjoined]
    simp only [bind, Except.bind, hv, Bool.false_eq_true, if_false]
    rcases l.scene.source.scan first value with e | nodes
    · rfl
    · dsimp only [Except.mapError]
      rw [(foldl_eq_eraseDups hfound nodes).1]

theorem outcome_joinOnward (hq : l.question domainNode range keys.target = q)
    (h : l.scene.source.AnsweredAs s.joins q first) {found : List Location} (hfound : found.Nodup)
    (nodes : List Location) :
    ∃ joins, outcome (joinOnward l domainNode range keys found nodes) s =
      (((nodes.mapM (l.onward (l.scene.source.scan first) keys.source)).map fun answers =>
        (found ++ answers.flatten).eraseDups).mapError Fault.setup, { s with joins := joins }) := by
  induction nodes generalizing found s with
  | nil =>
    refine ⟨s.joins, ?_⟩
    have hnone : (found ++ ([] : List (List Location)).flatten).eraseDups = found := by
      rw [List.flatten_nil, List.append_nil, eraseDups_eq_self hfound]
    rw [joinOnward, List.mapM_nil]
    dsimp only [pure, Except.pure, Except.map, Except.mapError]
    rw [hnone]
    rfl
  | cons node rest ih =>
    obtain ⟨joins, hlater, hnode⟩ := outcome_joinOnward_cons hq h hfound node rest
    rw [hnode, List.mapM_cons]
    rcases l.onward (l.scene.source.scan first) keys.source node with e | nodes
    · exact ⟨joins, rfl⟩
    dsimp only
    obtain ⟨joins', hrest⟩ := ih (s := { s with joins := joins }) hlater (nodup_eraseDups _)
    refine ⟨joins', ?_⟩
    rw [hrest]
    rcases rest.mapM (l.onward (l.scene.source.scan first) keys.source) with e | answers
    · rfl
    · dsimp only [bind, Except.bind, pure, Except.pure, Except.map, Except.mapError]
      rw [eraseDups_eraseDups_append, List.append_assoc, List.flatten_cons]

/-! ## Whole joins -/

theorem rangesBy_congr {answer answer' : JoinQuestion → String → Except SetupError (List Location)}
    (h : ∀ q ∈ l.questions join domainNode, answer q = answer' q) :
    l.rangesBy answer join domainNode = l.rangesBy answer' join domainNode := by
  have hfor : l.rangesFor answer join domainNode = l.rangesFor answer' join domainNode := by
    funext value
    simp only [LinkSetting.rangesFor]
    rcases hhop : join.hop? with _ | hop
    · dsimp only
      rw [h _ (by simp [LinkSetting.questions, Join.legs, hhop])]
    · dsimp only
      rw [h (l.question domainNode hop.node join.keys.target)
          (by simp [LinkSetting.questions, Join.legs, hhop]),
        h (l.question domainNode (Text.trim l.link.range.sourceNode) hop.keys.target)
          (by simp [LinkSetting.questions, Join.legs, hhop])]
  rw [LinkSetting.rangesBy, LinkSetting.rangesBy, hfor]

theorem joinRanges_grows {Q : JoinQuestion → Prop} (h : ∀ q ∈ l.questions join domainNode, Q q) :
    Moves (JoinsGrow l.scene.source Q) (joinRanges l join domainNode) :=
  Moves.composes.joinRanges (fun _ _ => .ofSetup _) fun _ hleg value =>
    joinedNodes_grows (h _ (List.mem_map_of_mem hleg)) value

theorem outcome_joinFor_direct (hhop : join.hop? = none) (hv : value.isEmpty = false)
    {first : JoinQuestion → JoinQuestion}
    (h : ∀ q ∈ l.questions join domainNode, l.scene.source.AnsweredAs s.joins q (first q)) :
    (outcome (joinFor l join domainNode value) s).1 =
      (l.rangesFor (fun q => l.scene.source.scan (first q)) join domainNode value).mapError
        Fault.setup := by
  have hq : l.question domainNode (Text.trim l.link.range.sourceNode) join.keys.target ∈
      l.questions join domainNode := by
    simp [LinkSetting.questions, Join.legs, hhop]
  obtain ⟨joins, -, hjoined⟩ := outcome_joinedNodes rfl hv (h _ hq)
  rw [joinFor, LinkSetting.rangesFor, hhop]
  dsimp only
  rw [hjoined]

/-- With nodes in between the ranges are asked for when the index for these nodes is there. -/
theorem outcome_joinFor_onward {hop : JoinHop} (hhop : join.hop? = some hop)
    (hv : value.isEmpty = false) {between range : JoinQuestion}
    (hbetween : l.question domainNode hop.node join.keys.target = between)
    (hrange : l.question domainNode (Text.trim l.link.range.sourceNode) hop.keys.target = range)
    {answer : JoinQuestion} (h : l.scene.source.AnsweredAs s.joins between answer) :
    ∃ joins, l.scene.source.AnsweredAs joins between answer ∧
      l.scene.source.Grows (· = between) s.joins joins ∧
      ∀ first : JoinQuestion → JoinQuestion, first between = answer →
        l.scene.source.AnsweredAs joins range (first range) →
          (outcome (joinFor l join domainNode value) s).1 =
            (l.rangesFor (fun q => l.scene.source.scan (first q)) join domainNode value).mapError
              Fault.setup := by
  obtain ⟨joins, hlater, hjoined⟩ := outcome_joinedNodes hbetween hv h
  have hgrows := joinedNodes_grows (Q := (· = between)) hbetween value s
  rw [after_eq hjoined] at hgrows
  refine ⟨joins, hlater, hgrows, fun first hfirst hanswered => ?_⟩
  rw [joinFor, LinkSetting.rangesFor, hhop]
  dsimp only
  rw [outcome_bind, hjoined, hbetween, hrange, hfirst]
  rcases l.scene.source.scan answer value with e | nodes
  · rfl
  · dsimp only [Except.mapError, bind, Except.bind]
    obtain ⟨_, honward⟩ :=
      outcome_joinOnward (s := { s with joins := joins }) hrange hanswered List.nodup_nil nodes
    rw [honward]
    rcases nodes.mapM (l.onward (l.scene.source.scan (first range)) hop.keys.source) with _ | _ <;>
      rfl

/-- Every question of a join is taken for the first one with its name. -/
def FirstFor (K : JoinQuestion → Prop) (l : LinkSetting) (join : Join) (domainNode : Location)
    (joins : JoinCache) (first : JoinQuestion → JoinQuestion) : Prop :=
  ∀ q ∈ l.questions join domainNode, (first q).name = q.name ∧ K (first q) ∧
    l.scene.source.IsFirst joins (l.questions join domainNode) (first q)

section

variable {K : JoinQuestion → Prop} (hbuilt : l.scene.source.BuiltFor K s.joins)
  (hasked : ∀ q ∈ l.questions join domainNode, K q)

include hbuilt hasked

theorem exists_firstFor : ∃ first, FirstFor K l join domainNode s.joins first ∧
    ∀ q ∈ l.questions join domainNode, l.scene.source.AnsweredAs s.joins q (first q) := by
  have hstart (q : JoinQuestion) (hq : q ∈ l.questions join domainNode) :=
    hbuilt.exists_isFirst hasked (.refl ..) hq
  choose! first hname hK hfirst hanswered using hstart
  exact ⟨first, fun q hq => ⟨hname q hq, hK q hq, hfirst q hq⟩, hanswered⟩

theorem exists_outcome_joinFor_eq (hv : value.isEmpty = false) :
    ∃ first, FirstFor K l join domainNode s.joins first ∧
      (outcome (joinFor l join domainNode value) s).1 =
        (l.rangesFor (fun q => l.scene.source.scan (first q)) join domainNode value).mapError
          Fault.setup := by
  obtain ⟨first, hspec, hanswered⟩ := exists_firstFor hbuilt hasked
  rcases hhop : join.hop? with _ | hop
  · exact ⟨first, hspec, outcome_joinFor_direct hhop hv hanswered⟩
  · obtain ⟨between, hbetween⟩ :
        ∃ q, l.question domainNode hop.node join.keys.target = q := ⟨_, rfl⟩
    obtain ⟨range, hrange⟩ :
        ∃ q, l.question domainNode (Text.trim l.link.range.sourceNode) hop.keys.target = q :=
      ⟨_, rfl⟩
    have hquestions : l.questions join domainNode = [between, range] := by
      simp [LinkSetting.questions, Join.legs, hhop, hbetween, hrange]
    have hmem : between ∈ l.questions join domainNode := by simp [hquestions]
    obtain ⟨joins, hlater, hgrows, hranges⟩ :=
      outcome_joinFor_onward hhop hv hbetween hrange (hanswered between hmem)
    by_cases heq : range = between
    · exact ⟨first, hspec, hranges first rfl (by rw [heq]; exact hlater)⟩
    · -- the index for the nodes in between may be the one that answers for the ranges, too
      have hgrows : l.scene.source.Grows (· ∈ l.questions join domainNode) s.joins joins :=
        hgrows.mono fun q hq => hq ▸ hmem
      obtain ⟨onward, hname', hK', hfirst', hanswered'⟩ :=
        hbuilt.exists_isFirst hasked hgrows (q := range) (by simp [hquestions])
      refine ⟨Function.update first range onward, fun q hq => ?_, hranges _ ?_ ?_⟩
      · by_cases hqr : q = range
        · subst hqr
          rw [Function.update_self]
          exact ⟨hname', hK', hfirst'⟩
        · rw [Function.update_of_ne hqr]
          exact hspec q hq
      · rw [Function.update_of_ne (Ne.symm heq)]
      · rw [Function.update_self]
        exact hanswered'

/-- A join gives what scans give, each for the first question with the name of its own one. -/
theorem exists_outcome_joinRanges_eq :
    ∃ first, FirstFor K l join domainNode s.joins first ∧
      (outcome (joinRanges l join domainNode) s).1 =
        (l.rangesBy (fun q => l.scene.source.scan (first q)) join domainNode).mapError
          Fault.setup := by
  obtain ⟨first, hspec, -⟩ := exists_firstFor hbuilt hasked
  rw [joinRanges_eq, outcome_bind, outcome_ofSetup]
  simp only [LinkSetting.rangesBy]
  rcases l.scene.source.scalar domainNode join.keys.source with e | value
  · exact ⟨first, hspec, rfl⟩
  · simp only [Except.mapError, bind, Except.bind]
    cases hv : value.isEmpty with
    | true => exact ⟨first, hspec, rfl⟩
    | false => exact exists_outcome_joinFor_eq hbuilt hasked hv

end

end

end Crosswalk.Run
