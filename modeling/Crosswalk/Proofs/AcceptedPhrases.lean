import Crosswalk.Proofs.ExpressionGrammar
import Crosswalk.Proofs.Results
import Mathlib.Data.List.Basic

/-!
# What the parser accepts is an expression

Every function of the descent reads a phrase of its kind: the tokens that it takes, the tree that it
builds and the tokens that it leaves are those of a phrase of the grammar. Every function spends some of the
fuel before it calls another, so each is right with one more as long as all are with less.
-/

namespace Crosswalk.XPath

/-! ## Words -/

theorem operator?_eq_some_iff {level : Level} {t : Token} {build : Expr → Expr → Expr} :
    level.operator? t = some build ↔ Operator level t build := by
  constructor
  · intro h
    unfold Level.operator? at h
    split at h <;> cases h <;> constructor
  · rintro ⟨⟩ <;> rfl

theorem kindTest?_eq_some_iff {n : String} {test : NodeTest} :
    kindTest? n = some test ↔ KindName n test := by
  constructor
  · intro h
    unfold kindTest? at h
    split at h <;> cases h <;> constructor
  · rintro ⟨⟩ <;> rfl

theorem kindTest?_eq_none_iff {n : String} : kindTest? n = none ↔ ∀ test, ¬ KindName n test := by
  simp only [← kindTest?_eq_some_iff, Option.eq_none_iff_forall_ne_some, ne_eq]

theorem axisOfName?_eq_some_iff {n : String} {axis : Axis} :
    Axis.ofName? n = some axis ↔ AxisName n axis := by
  constructor
  · intro h
    unfold Axis.ofName? at h
    split at h <;> cases h <;> constructor
  · rintro ⟨⟩ <;> rfl

theorem startsStep_cons {t : Token} {ts : List Token} :
    startsStep (t :: ts) = true ↔ BeginsStep t := by
  constructor
  · intro h
    cases t <;> first | constructor | cases h
  · rintro ⟨⟩ <;> rfl

theorem startsStep_eq_true_iff {ts : List Token} :
    startsStep ts = true ↔ ∃ t ∈ ts.head?, BeginsStep t := by
  cases ts with
  | nil => simp [startsStep]
  | cons t ts => simp [startsStep_cons]

/-! ### Names -/

theorem dropEnd?_eq_some_iff {ending n s : String} :
    Text.dropEnd? ending n = some s ↔ n = s ++ ending := by
  rw [Text.dropEnd?, Option.map_eq_some_iff]
  simp only [Text.after?_eq_some_iff]
  constructor
  · rintro ⟨r, hr, rfl⟩
    have h := congrArg List.reverse hr
    rw [List.reverse_reverse, List.reverse_append, List.reverse_reverse] at h
    rw [← String.toList_inj, String.toList_append, h, String.toList_ofList]
  · rintro rfl
    refine ⟨s.toList.reverse, ?_, ?_⟩
    · rw [String.toList_append, List.reverse_append]
    · rw [List.reverse_reverse, String.ofList_toList]

/-- A text is cut at its first colon. -/
theorem cut?_colon_eq_some_iff {n a l : String} :
    Text.cut? ":" n = some (a, l) ↔ n = a ++ ":" ++ l ∧ ':' ∉ a.toList := by
  have hchars (cs before after : List Char) : Text.cutChars? [':'] cs = some (before, after) ↔
      cs = before ++ ':' :: after ∧ ':' ∉ before := by
    induction cs generalizing before with
    | nil => simp [Text.cutChars?]
    | cons c cs ih =>
      by_cases hc : c = ':'
      · subst hc
        cases before with
        | nil => simp [Text.cutChars?, Text.after?, eq_comm]
        | cons b before =>
          simp only [Text.cutChars?, Text.after?, BEq.rfl, if_true, Option.some.injEq, Prod.mk.injEq,
            List.cons_append, List.cons.injEq, List.mem_cons, not_or]
          exact ⟨fun h => absurd h.1 (by simp), fun h => absurd h.1.1 h.2.1⟩
      · have hc' : ':' ≠ c := Ne.symm hc
        cases before with
        | nil => simp [Text.cutChars?, Text.after?, hc, hc']
        | cons b before => simp [Text.cutChars?, Text.after?, hc', ih, and_assoc]; grind
  rw [Text.cut?, Option.map_eq_some_iff]
  constructor
  · rintro ⟨⟨before, after⟩, hcut, heq⟩
    cases heq
    obtain ⟨hn, hfirst⟩ := (hchars _ _ _).1 hcut
    refine ⟨?_, by rwa [String.toList_ofList]⟩
    rw [← String.toList_inj, hn]
    simp
  · rintro ⟨rfl, hfirst⟩
    refine ⟨(a.toList, l.toList), (hchars _ _ _).2 ⟨by simp, hfirst⟩, ?_⟩
    simp only [String.ofList_toList]

theorem cut?_colon_eq_none_iff {n : String} : Text.cut? ":" n = none ↔ ':' ∉ n.toList := by
  rw [Text.cut?, Option.map_eq_none_iff]
  generalize n.toList = cs
  show Text.cutChars? [':'] cs = none ↔ _
  induction cs with
  | nil => simp [Text.cutChars?]
  | cons c cs ih =>
    by_cases hc : c = ':'
    · simp [Text.cutChars?, Text.after?, hc]
    · have hc' : ':' ≠ c := Ne.symm hc
      simp [Text.cutChars?, Text.after?, hc', ih]

theorem nameForm_nameTest (n : String) : NameForm n (nameTest n) := by
  rw [nameTest]
  split
  next a ha =>
    rw [dropEnd?_eq_some_iff] at ha
    exact ha ▸ .wildcard a
  next hn =>
    have hnamed (b : String) : n ≠ b ++ ":*" := by
      intro hb
      rw [← dropEnd?_eq_some_iff, hn] at hb
      cases hb
    split
    next a l hcut =>
      obtain ⟨rfl, hfirst⟩ := cut?_colon_eq_some_iff.1 hcut
      exact .qualified a l hfirst hnamed
    next hcut => exact .plain n (cut?_colon_eq_none_iff.1 hcut)

theorem nameTest_eq {n : String} {test : NodeTest} (h : NameForm n test) : nameTest n = test := by
  rw [nameTest]
  cases h with
  | wildcard a => rw [dropEnd?_eq_some_iff.2 rfl]
  | qualified a l first named =>
    have hdrop : Text.dropEnd? ":*" (a ++ ":" ++ l) = none := by
      rw [Option.eq_none_iff_forall_ne_some]
      intro b hb
      exact named b (dropEnd?_eq_some_iff.1 hb)
    rw [hdrop, cut?_colon_eq_some_iff.2 ⟨rfl, first⟩]
  | plain n whole =>
    have hdrop : Text.dropEnd? ":*" n = none := by
      rw [Option.eq_none_iff_forall_ne_some]
      intro b hb
      rw [dropEnd?_eq_some_iff] at hb
      subst hb
      simp at whole
    rw [hdrop, cut?_colon_eq_none_iff.2 whole]

/-! ## What is accepted is a phrase -/

theorem eq_cons_of_expect {wanted : Token} {ts rest : List Token}
    (h : expect wanted ts = .ok rest) : ts = wanted :: rest := by
  cases ts with
  | nil => cases h
  | cons t us =>
    rw [expect] at h
    split at h
    next ht =>
      cases h
      rw [ht]
    next => cases h

theorem expect_cons (t : Token) (rest : List Token) : expect t (t :: rest) = .ok rest := by
  simp [expect]

theorem axisPhrase_of_parseAxis {ts rest : List Token} {axis : Axis}
    (h : parseAxis ts = .ok (axis, rest)) : AxisPhrase ts axis rest := by
  unfold parseAxis at h
  split at h
  · cases h
    exact .atSign _
  · split at h
    next a ha =>
      cases h
      exact .named (axisOfName?_eq_some_iff.1 ha) _
    next => cases h
  · cases h
    exact .omitted _

theorem testPhrase_of_parseTest {ts rest : List Token} {test : NodeTest}
    (h : parseTest ts = .ok (test, rest)) : TestPhrase ts test rest := by
  unfold parseTest at h
  split at h
  · cases h
    exact .star _
  · split at h
    next test ha =>
      obtain ⟨us, hus, h⟩ := bind_eq_ok.1 h
      cases h
      rw [eq_cons_of_expect hus]
      exact .kind (kindTest?_eq_some_iff.1 ha) rest
    next => cases h
  · cases h
    exact .name (nameForm_nameTest _) _
  · cases h

theorem filtered_eq (primary : Expr) (predicates : List Expr) (steps : List Step) :
    filtered primary predicates steps =
      if predicates.isEmpty && steps.isEmpty then primary else .filter primary predicates steps := by
  cases predicates <;> cases steps <;> rfl

/-- The steps behind a primary expression and its predicates. -/
def parseOnward (fuel : Nat) : List Token → Except Fault (List Step × List Token)
  | .slash :: rest => parseSteps fuel rest
  | .doubleSlash :: rest => do
    let (steps, rest) ← parseSteps fuel rest
    .ok (.everyBelow :: steps, rest)
  | rest => .ok ([], rest)

theorem parseFilter_eq (fuel : Nat) (ts : List Token) :
    parseFilter (fuel + 1) ts = (do
      let (primary, us) ← parsePrimary fuel ts
      let (predicates, vs) ← parsePredicates fuel us
      let (steps, rest) ← parseOnward fuel vs
      .ok (filtered primary predicates steps, rest)) := by
  have hfiltered (primary : Expr) (predicates : List Expr) (steps : List Step) (rest : List Token) :
      (.ok (filtered primary predicates steps, rest) : Except Fault (Expr × List Token)) =
        if predicates.isEmpty && steps.isEmpty then .ok (primary, rest)
        else .ok (.filter primary predicates steps, rest) := by
    rw [filtered_eq]
    split <;> rfl
  rw [parseFilter]
  congr 1
  funext ⟨primary, us⟩
  dsimp only
  congr 1
  funext ⟨predicates, vs⟩
  dsimp only
  simp only [hfiltered]
  cases vs with
  | nil => rfl
  | cons t vs =>
    cases t with
    | doubleSlash => simp only [parseOnward, bind_assoc]
    | _ => rfl

/-- Whatever is read with some fuel is a phrase. -/
structure ReadsPhrases (fuel : Nat) : Prop where
  level {level : Level} {ts rest : List Token} {e : Expr}
    (h : parseLevel fuel level ts = .ok (e, rest)) : LevelPhrase level ts e rest
  more {level : Level} {ts rest : List Token} {left e : Expr}
    (h : parseMore fuel level left ts = .ok (e, rest)) : MorePhrase level left ts e rest
  operand {level : Level} {ts rest : List Token} {e : Expr}
    (h : parseOperand fuel level ts = .ok (e, rest)) : OperandPhrase level ts e rest
  unary {ts rest : List Token} {e : Expr}
    (h : parseUnary fuel ts = .ok (e, rest)) : UnaryPhrase ts e rest
  path {ts rest : List Token} {e : Expr}
    (h : parsePath fuel ts = .ok (e, rest)) : PathPhrase ts e rest
  filter {ts rest : List Token} {e : Expr} (hstarts : startsPrimary ts = true)
    (h : parseFilter fuel ts = .ok (e, rest)) : PathPhrase ts e rest
  primary {ts rest : List Token} {e : Expr} (hstarts : startsPrimary ts = true)
    (h : parsePrimary fuel ts = .ok (e, rest)) : PrimaryPhrase ts e rest
  arguments {ts rest : List Token} {arguments : List Expr}
    (h : parseArguments fuel ts = .ok (arguments, rest)) : ArgumentsPhrase ts arguments rest
  steps {ts rest : List Token} {steps : List Step}
    (h : parseSteps fuel ts = .ok (steps, rest)) : StepsPhrase ts steps rest
  step {ts rest : List Token} {step : Step}
    (h : parseStep fuel ts = .ok (step, rest)) : StepPhrase ts step rest
  predicates {ts rest : List Token} {predicates : List Expr}
    (h : parsePredicates fuel ts = .ok (predicates, rest)) : PredicatesPhrase ts predicates rest

namespace ReadsPhrases

variable {fuel : Nat} {ts rest : List Token} (ih : ReadsPhrases fuel)

include ih

theorem level_succ {level : Level} {e : Expr} (h : parseLevel (fuel + 1) level ts = .ok (e, rest)) :
    LevelPhrase level ts e rest := by
  obtain ⟨⟨first, us⟩, hfirst, h⟩ := bind_eq_ok.1 h
  exact .mk (ih.operand hfirst) (ih.more h)

theorem more_succ {level : Level} {left e : Expr}
    (h : parseMore (fuel + 1) level left ts = .ok (e, rest)) : MorePhrase level left ts e rest := by
  cases ts with
  | nil =>
    cases h
    exact .none ..
  | cons t us =>
    rw [parseMore] at h
    split at h
    next build hbuild =>
      obtain ⟨⟨right, vs⟩, hright, h⟩ := bind_eq_ok.1 h
      exact .operator (operator?_eq_some_iff.1 hbuild) (ih.operand hright)
        (ih.more h)
    next =>
      cases h
      exact .none ..

theorem operand_succ {level : Level} {e : Expr} (h : parseOperand (fuel + 1) level ts = .ok (e, rest)) :
    OperandPhrase level ts e rest := by
  cases level with
  | disjunction => exact .disjunction (ih.level h)
  | conjunction => exact .conjunction (ih.level h)
  | equality => exact .equality (ih.level h)
  | relation => exact .relation (ih.unary h)
  | union => exact .union (ih.path h)

theorem unary_succ {e : Expr} (h : parseUnary (fuel + 1) ts = .ok (e, rest)) :
    UnaryPhrase ts e rest := by
  unfold parseUnary at h
  split at h
  next => cases h
  next hfuel =>
    cases hfuel
    obtain ⟨⟨operand, us⟩, hoperand, h⟩ := bind_eq_ok.1 h
    cases h
    exact .minus (ih.unary hoperand)
  next hfuel _ =>
    cases hfuel
    exact .union (ih.level h)

theorem path_succ {e : Expr} (h : parsePath (fuel + 1) ts = .ok (e, rest)) : PathPhrase ts e rest := by
  unfold parsePath at h
  split at h
  next => cases h
  next hfuel =>
    cases hfuel
    split at h
    · obtain ⟨⟨steps, us⟩, hsteps, h⟩ := bind_eq_ok.1 h
      cases h
      exact .absolute (ih.steps hsteps)
    next hnone =>
      cases h
      refine .root rest fun t ht hbegins => hnone ?_
      exact startsStep_eq_true_iff.2 ⟨t, ht, hbegins⟩
  next hfuel =>
    cases hfuel
    obtain ⟨⟨steps, us⟩, hsteps, h⟩ := bind_eq_ok.1 h
    cases h
    exact .everywhere (ih.steps hsteps)
  next hfuel _ _ =>
    cases hfuel
    split at h
    next hstarts => exact ih.filter hstarts h
    next =>
      obtain ⟨⟨steps, us⟩, hsteps, h⟩ := bind_eq_ok.1 h
      cases h
      exact .relative (ih.steps hsteps)

theorem onward {steps : List Step} (h : parseOnward fuel ts = .ok (steps, rest)) :
    OnwardPhrase ts steps rest := by
  unfold parseOnward at h
  split at h
  · exact .child (ih.steps h)
  · obtain ⟨⟨steps, us⟩, hsteps, h⟩ := bind_eq_ok.1 h
    cases h
    exact .everywhere (ih.steps hsteps)
  · cases h
    exact .none _

theorem filter_succ {e : Expr} (hstarts : startsPrimary ts = true)
    (h : parseFilter (fuel + 1) ts = .ok (e, rest)) : PathPhrase ts e rest := by
  rw [parseFilter_eq] at h
  obtain ⟨⟨primary, us⟩, hprimary, h⟩ := bind_eq_ok.1 h
  obtain ⟨⟨predicates, vs⟩, hpredicates, h⟩ := bind_eq_ok.1 h
  obtain ⟨⟨steps, ws⟩, hsteps, h⟩ := bind_eq_ok.1 h
  cases h
  exact .filter (ih.primary hstarts hprimary)
    (ih.predicates hpredicates) (ih.onward hsteps)

theorem primary_succ {e : Expr} (hstarts : startsPrimary ts = true)
    (h : parsePrimary (fuel + 1) ts = .ok (e, rest)) : PrimaryPhrase ts e rest := by
  unfold parsePrimary at h
  split at h
  · cases h
    exact .literal ..
  · cases h
    exact .number ..
  next hfuel =>
    cases hfuel
    obtain ⟨⟨inner, us⟩, hinner, h⟩ := bind_eq_ok.1 h
    obtain ⟨vs, hvs, h⟩ := bind_eq_ok.1 h
    cases h
    have hinner := ih.level hinner
    rw [eq_cons_of_expect hvs] at hinner
    exact .parentheses hinner
  next hfuel =>
    cases hfuel
    have hfunction := kindTest?_eq_none_iff.1 (Option.isNone_iff_eq_none.1 hstarts)
    split at h
    next hempty =>
      cases h
      obtain ⟨us, rfl⟩ := List.head?_eq_some_iff.1 hempty
      exact .constant _ hfunction us
    next =>
      obtain ⟨⟨arguments, us⟩, harguments, h⟩ := bind_eq_ok.1 h
      obtain ⟨vs, hvs, h⟩ := bind_eq_ok.1 h
      cases h
      have harguments := ih.arguments harguments
      rw [eq_cons_of_expect hvs] at harguments
      exact .call hfunction harguments
  · cases h

theorem arguments_succ {arguments : List Expr}
    (h : parseArguments (fuel + 1) ts = .ok (arguments, rest)) : ArgumentsPhrase ts arguments rest := by
  obtain ⟨⟨first, us⟩, hfirst, h⟩ := bind_eq_ok.1 h
  have hfirst := ih.level hfirst
  dsimp only at h
  split at h
  · obtain ⟨⟨more, vs⟩, hmore, h⟩ := bind_eq_ok.1 h
    cases h
    exact .cons hfirst (ih.arguments hmore)
  · cases h
    exact .last hfirst

theorem steps_succ {steps : List Step} (h : parseSteps (fuel + 1) ts = .ok (steps, rest)) :
    StepsPhrase ts steps rest := by
  obtain ⟨⟨step, us⟩, hstep, h⟩ := bind_eq_ok.1 h
  have hstep := ih.step hstep
  dsimp only at h
  split at h
  · obtain ⟨⟨more, vs⟩, hmore, h⟩ := bind_eq_ok.1 h
    cases h
    exact .child hstep (ih.steps hmore)
  · obtain ⟨⟨more, vs⟩, hmore, h⟩ := bind_eq_ok.1 h
    cases h
    exact .everywhere hstep (ih.steps hmore)
  · cases h
    exact .last hstep

theorem step_succ {step : Step} (h : parseStep (fuel + 1) ts = .ok (step, rest)) :
    StepPhrase ts step rest := by
  unfold parseStep at h
  split at h
  next => cases h
  next hfuel =>
    cases hfuel
    obtain ⟨⟨predicates, us⟩, hpredicates, h⟩ := bind_eq_ok.1 h
    cases h
    exact .here (ih.predicates hpredicates)
  next hfuel =>
    cases hfuel
    obtain ⟨⟨predicates, us⟩, hpredicates, h⟩ := bind_eq_ok.1 h
    cases h
    exact .parent (ih.predicates hpredicates)
  next hfuel _ _ =>
    cases hfuel
    obtain ⟨⟨axis, us⟩, haxis, h⟩ := bind_eq_ok.1 h
    obtain ⟨⟨test, vs⟩, htest, h⟩ := bind_eq_ok.1 h
    obtain ⟨⟨predicates, ws⟩, hpredicates, h⟩ := bind_eq_ok.1 h
    cases h
    exact .tested (axisPhrase_of_parseAxis haxis) (testPhrase_of_parseTest htest)
      (ih.predicates hpredicates)

theorem predicates_succ {predicates : List Expr}
    (h : parsePredicates (fuel + 1) ts = .ok (predicates, rest)) : PredicatesPhrase ts predicates rest := by
  unfold parsePredicates at h
  split at h
  next => cases h
  next hfuel =>
    cases hfuel
    obtain ⟨⟨first, us⟩, hfirst, h⟩ := bind_eq_ok.1 h
    obtain ⟨vs, hvs, h⟩ := bind_eq_ok.1 h
    obtain ⟨⟨more, ws⟩, hmore, h⟩ := bind_eq_ok.1 h
    cases h
    have hfirst := ih.level hfirst
    rw [eq_cons_of_expect hvs] at hfirst
    exact .cons hfirst (ih.predicates hmore)
  next =>
    cases h
    exact .none _

end ReadsPhrases

theorem readsPhrases (fuel : Nat) : ReadsPhrases fuel := by
  induction fuel with
  | zero => constructor <;> intros <;> contradiction
  | succ fuel ih =>
    exact ⟨ih.level_succ, ih.more_succ, ih.operand_succ, ih.unary_succ, ih.path_succ, ih.filter_succ,
      ih.primary_succ, ih.arguments_succ, ih.steps_succ, ih.step_succ, ih.predicates_succ⟩

end Crosswalk.XPath
