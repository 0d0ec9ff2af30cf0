import Crosswalk.Proofs.AcceptedPhrases

/-!
# The parser accepts the grammar

The other direction: a phrase is accepted where what follows it cannot be taken for more of it. Inside of
an expression this is always so, because what follows an operand is an operator of a weaker level, and what
follows an expression closes something. Since the parser has one answer, an expression has one tree.
-/

namespace Crosswalk.XPath

variable {level : Level} {ts us vs rest : List Token} {t : Token}

/-! ## What follows a phrase -/

/-- The first of the tokens, if there is one, is none of these. -/
def Avoids (avoided ts : List Token) : Prop :=
  ∀ t ∈ ts.head?, t ∉ avoided

/-- What would change the meaning of a name in front of it. -/
def namePartners : List Token := [.openParen, .axisMark]

/-- What would be taken for more of a step. -/
def stepPartners : List Token := .openBracket :: namePartners

/-- What would be taken for more of a path. -/
def pathPartners : List Token := .slash :: .doubleSlash :: stepPartners

theorem avoids_nil (avoided : List Token) : Avoids avoided [] := by
  rintro t ⟨⟩

theorem avoids_cons {avoided : List Token} : Avoids avoided (t :: ts) ↔ t ∉ avoided := by
  simp [Avoids]

theorem Avoids.mono {avoided fewer : List Token} (h : Avoids avoided ts) (hsub : fewer ⊆ avoided) :
    Avoids fewer ts :=
  fun t ht hmem => h t ht (hsub hmem)

/-- How strongly the operators of a level bind. -/
def Level.strength : Level → Nat
  | disjunction => 0
  | conjunction => 1
  | equality => 2
  | relation => 3
  | union => 4

/-- An expression without operators weaker than these ends where these tokens begin. -/
structure EndsAt (strength : Nat) (ts : List Token) : Prop where
  avoids : Avoids pathPartners ts
  stops : ∀ t ∈ ts.head?, ∀ level : Level, strength ≤ level.strength → level.operator? t = none

theorem endsAt_nil (strength : Nat) : EndsAt strength [] :=
  ⟨avoids_nil _, by rintro t ⟨⟩⟩

theorem endsAt_closing (strength : Nat) (h : t ∈ [Token.closeParen, .closeBracket, .comma])
    (ts : List Token) : EndsAt strength (t :: ts) := by
  constructor
  · rw [avoids_cons]
    revert t
    decide
  · rintro _ ⟨⟩ level -
    simp only [List.mem_cons, List.not_mem_nil, or_false] at h
    rcases h with rfl | rfl | rfl <;> cases level <;> rfl

theorem EndsAt.mono {weaker strength : Nat} (h : EndsAt weaker ts) (hle : weaker ≤ strength) :
    EndsAt strength ts :=
  ⟨h.avoids, fun t ht level hlevel => h.stops t ht level (Nat.le_trans hle hlevel)⟩

/-- An operand ends at an operator of its level. -/
theorem Operator.endsAt {build : Expr → Expr → Expr} (h : Operator level t build)
    (ts : List Token) : EndsAt (level.strength + 1) (t :: ts) := by
  constructor
  · rw [avoids_cons]
    cases h <;> decide
  · rintro _ ⟨⟩ l hl
    cases h <;> cases l <;> first | rfl | simp [Level.strength] at hl

theorem MorePhrase.endsAt {left e : Expr} (h : MorePhrase level left us e rest)
    (hrest : EndsAt level.strength rest) : EndsAt (level.strength + 1) us := by
  cases h with
  | none => exact hrest.mono (Nat.le_succ _)
  | operator operator => exact operator.endsAt _

theorem OnwardPhrase.avoids {steps : List Step} (h : OnwardPhrase vs steps rest)
    (hrest : Avoids pathPartners rest) : Avoids stepPartners vs := by
  cases h with
  | none => exact hrest.mono (by decide)
  | child => exact avoids_cons.2 (by decide)
  | everywhere => exact avoids_cons.2 (by decide)

/-! ## A phrase takes tokens -/

theorem AxisPhrase.length_le {axis : Axis} (h : AxisPhrase ts axis rest) :
    rest.length ≤ ts.length := by
  cases h <;> simp
  omega

theorem TestPhrase.length_lt {test : NodeTest} (h : TestPhrase ts test rest) :
    rest.length < ts.length := by
  cases h <;> simp
  omega

mutual

theorem LevelPhrase.length_lt : ∀ {level : Level} {ts rest : List Token} {e : Expr},
    LevelPhrase level ts e rest → rest.length < ts.length
  | _, _, _, _, .mk operand more => Nat.lt_of_le_of_lt more.length_le operand.length_lt

theorem MorePhrase.length_le : ∀ {level : Level} {ts rest : List Token} {left e : Expr},
    MorePhrase level left ts e rest → rest.length ≤ ts.length
  | _, _, _, _, _, .none .. => Nat.le_refl _
  | _, _, _, _, _, .operator _ operand more =>
    Nat.le_trans more.length_le (Nat.le_trans (Nat.le_of_lt operand.length_lt) (by simp))

theorem OperandPhrase.length_lt : ∀ {level : Level} {ts rest : List Token} {e : Expr},
    OperandPhrase level ts e rest → rest.length < ts.length
  | _, _, _, _, .disjunction phrase => phrase.length_lt
  | _, _, _, _, .conjunction phrase => phrase.length_lt
  | _, _, _, _, .equality phrase => phrase.length_lt
  | _, _, _, _, .relation phrase => phrase.length_lt
  | _, _, _, _, .union phrase => phrase.length_lt

theorem UnaryPhrase.length_lt : ∀ {ts rest : List Token} {e : Expr},
    UnaryPhrase ts e rest → rest.length < ts.length
  | _, _, _, .minus phrase => Nat.lt_succ_of_lt phrase.length_lt
  | _, _, _, .union phrase => phrase.length_lt

theorem PathPhrase.length_lt : ∀ {ts rest : List Token} {e : Expr},
    PathPhrase ts e rest → rest.length < ts.length
  | _, _, _, .root .. => Nat.lt_succ_self _
  | _, _, _, .absolute phrase => Nat.lt_succ_of_lt phrase.length_lt
  | _, _, _, .everywhere phrase => Nat.lt_succ_of_lt phrase.length_lt
  | _, _, _, .relative phrase => phrase.length_lt
  | _, _, _, .filter phrase predicated onward =>
    Nat.lt_of_le_of_lt (Nat.le_trans onward.length_le predicated.length_le) phrase.length_lt

theorem OnwardPhrase.length_le : ∀ {ts rest : List Token} {steps : List Step},
    OnwardPhrase ts steps rest → rest.length ≤ ts.length
  | _, _, _, .none .. => Nat.le_refl _
  | _, _, _, .child phrase => Nat.le_succ_of_le (Nat.le_of_lt phrase.length_lt)
  | _, _, _, .everywhere phrase => Nat.le_succ_of_le (Nat.le_of_lt phrase.length_lt)

theorem PrimaryPhrase.length_lt : ∀ {ts rest : List Token} {e : Expr},
    PrimaryPhrase ts e rest → rest.length < ts.length
  | _, _, _, .literal .. => Nat.lt_succ_self _
  | _, _, _, .number .. => Nat.lt_succ_self _
  | _, _, _, .parentheses phrase =>
    Nat.lt_succ_of_lt (Nat.lt_of_succ_lt phrase.length_lt)
  | _, _, _, .constant .. => by simp; omega
  | _, _, _, .call _ phrase =>
    Nat.lt_succ_of_lt (Nat.lt_succ_of_lt (Nat.lt_of_succ_lt phrase.length_lt))

theorem ArgumentsPhrase.length_lt : ∀ {ts rest : List Token} {arguments : List Expr},
    ArgumentsPhrase ts arguments rest → rest.length < ts.length
  | _, _, _, .last phrase => phrase.length_lt
  | _, _, _, .cons phrase more =>
    Nat.lt_trans more.length_lt (Nat.lt_of_succ_lt phrase.length_lt)

theorem StepsPhrase.length_lt : ∀ {ts rest : List Token} {steps : List Step},
    StepsPhrase ts steps rest → rest.length < ts.length
  | _, _, _, .last phrase => phrase.length_lt
  | _, _, _, .child phrase more =>
    Nat.lt_trans more.length_lt (Nat.lt_of_succ_lt phrase.length_lt)
  | _, _, _, .everywhere phrase more =>
    Nat.lt_trans more.length_lt (Nat.lt_of_succ_lt phrase.length_lt)

theorem StepPhrase.length_lt : ∀ {ts rest : List Token} {step : Step},
    StepPhrase ts step rest → rest.length < ts.length
  | _, _, _, .here predicated => Nat.lt_succ_of_le predicated.length_le
  | _, _, _, .parent predicated => Nat.lt_succ_of_le predicated.length_le
  | _, _, _, .tested along tested predicated =>
    Nat.lt_of_le_of_lt predicated.length_le (Nat.lt_of_lt_of_le tested.length_lt along.length_le)

theorem PredicatesPhrase.length_le : ∀ {ts rest : List Token} {predicates : List Expr},
    PredicatesPhrase ts predicates rest → rest.length ≤ ts.length
  | _, _, _, .none .. => Nat.le_refl _
  | _, _, _, .cons phrase more =>
    Nat.le_succ_of_le (Nat.le_trans more.length_le (Nat.le_of_lt (Nat.lt_of_succ_lt phrase.length_lt)))

end

/-! ## How a phrase begins -/

theorem PredicatesPhrase.avoids {predicates : List Expr} (h : PredicatesPhrase ts predicates rest)
    (hrest : Avoids stepPartners rest) : Avoids namePartners ts := by
  cases h with
  | none => exact hrest.mono (List.subset_cons_self ..)
  | cons => exact avoids_cons.2 (by decide)

section

variable {n : String} (h : Avoids namePartners ts)

include h

theorem parseAxis_name : parseAxis (.name n :: ts) = .ok (.child, .name n :: ts) := by
  unfold parseAxis
  split <;> simp_all [Avoids, namePartners]

theorem parseTest_name : parseTest (.name n :: ts) = .ok (nameTest n, ts) := by
  unfold parseTest
  split <;> simp_all [Avoids, namePartners]

theorem startsPrimary_name : startsPrimary (.name n :: ts) = false := by
  unfold startsPrimary
  split <;> simp_all [Avoids, namePartners]

end

theorem parseAxis_of_phrase {axis : Axis} {test : NodeTest} (along : AxisPhrase ts axis us)
    (tested : TestPhrase us test vs) (hvs : Avoids namePartners vs) :
    parseAxis ts = .ok (axis, us) := by
  cases along with
  | atSign => rfl
  | named name => rw [parseAxis, axisOfName?_eq_some_iff.2 name]
  | omitted =>
    cases tested with
    | star => rfl
    | kind => rfl
    | name => exact parseAxis_name hvs

theorem parseTest_of_phrase {test : NodeTest} (tested : TestPhrase us test vs)
    (hvs : Avoids namePartners vs) : parseTest us = .ok (test, vs) := by
  cases tested with
  | star => rfl
  | kind name =>
    rw [parseTest, kindTest?_eq_some_iff.2 name]
    rfl
  | name form => rw [parseTest_name hvs, nameTest_eq form]

/-- A step never begins like a primary expression. -/
theorem StepPhrase.begins {step : Step} (h : StepPhrase ts step rest)
    (hrest : Avoids stepPartners rest) :
    ∃ t more, ts = t :: more ∧ BeginsStep t ∧ startsPrimary ts = false := by
  cases h with
  | here => exact ⟨_, _, rfl, .dot, rfl⟩
  | parent => exact ⟨_, _, rfl, .dotDot, rfl⟩
  | tested along tested predicated =>
    cases along with
    | atSign => exact ⟨_, _, rfl, .atSign, rfl⟩
    | named => exact ⟨_, _, rfl, .name _, rfl⟩
    | omitted =>
      cases tested with
      | star => exact ⟨_, _, rfl, .star, rfl⟩
      | kind name =>
        refine ⟨_, _, rfl, .name _, ?_⟩
        rw [startsPrimary, kindTest?_eq_some_iff.2 name]
        rfl
      | name => exact ⟨_, _, rfl, .name _, startsPrimary_name (predicated.avoids hrest)⟩

theorem StepsPhrase.begins {steps : List Step} (h : StepsPhrase ts steps rest)
    (hrest : Avoids stepPartners rest) :
    ∃ t more, ts = t :: more ∧ BeginsStep t ∧ startsPrimary ts = false := by
  cases h with
  | last phrase => exact phrase.begins hrest
  | child phrase => exact phrase.begins (avoids_cons.2 (by decide))
  | everywhere phrase => exact phrase.begins (avoids_cons.2 (by decide))

theorem PrimaryPhrase.begins {e : Expr} (h : PrimaryPhrase ts e rest) :
    startsPrimary ts = true := by
  cases h with
  | constant f function =>
    rw [startsPrimary, kindTest?_eq_none_iff.2 function]
    rfl
  | call function =>
    rw [startsPrimary, kindTest?_eq_none_iff.2 function]
    rfl
  | _ => rfl

/-- What no path begins with. -/
theorem PathPhrase.avoids {e : Expr} (h : PathPhrase ts e rest) :
    Avoids [.closeParen, .minus] ts := by
  have hstep {ts rest : List Token} {step : Step} (h : StepPhrase ts step rest) :
      Avoids [.closeParen, .minus] ts := by
    cases h with
    | tested along tested => cases along <;> cases tested <;> simp [avoids_cons]
    | _ => simp [avoids_cons]
  cases h with
  | relative phrase =>
    cases phrase with
    | last phrase => exact hstep phrase
    | child phrase => exact hstep phrase
    | everywhere phrase => exact hstep phrase
  | filter phrase => cases phrase <;> simp [avoids_cons]
  | _ => simp [avoids_cons]

mutual

/-- No expression begins by closing one. -/
theorem LevelPhrase.avoids : ∀ {level : Level} {ts rest : List Token} {e : Expr},
    LevelPhrase level ts e rest → Avoids [.closeParen] ts
  | _, _, _, _, .mk operand _ => operand.avoids

theorem OperandPhrase.avoids : ∀ {level : Level} {ts rest : List Token} {e : Expr},
    OperandPhrase level ts e rest → Avoids [.closeParen] ts
  | _, _, _, _, .disjunction phrase => phrase.avoids
  | _, _, _, _, .conjunction phrase => phrase.avoids
  | _, _, _, _, .equality phrase => phrase.avoids
  | _, _, _, _, .relation phrase => phrase.avoids
  | _, _, _, _, .union phrase => phrase.avoids.mono (by decide)

theorem UnaryPhrase.avoids : ∀ {ts rest : List Token} {e : Expr},
    UnaryPhrase ts e rest → Avoids [.closeParen] ts
  | _, _, _, .minus _ => avoids_cons.2 (by decide)
  | _, _, _, .union phrase => phrase.avoids

end

theorem ArgumentsPhrase.avoids {arguments : List Expr} (h : ArgumentsPhrase ts arguments rest) :
    Avoids [.closeParen] ts := by
  cases h with
  | last phrase => exact phrase.avoids
  | cons phrase => exact phrase.avoids

/-! ## A phrase is accepted

The fuel has to last for the calls that follow each other until a token is taken, at each of the
tokens. -/

/-- The calls from an operand of a level down to one that takes a token. -/
def Level.depth : Level → Nat
  | disjunction => 13
  | conjunction => 11
  | equality => 9
  | relation => 7
  | union => 4

theorem parsePath_of_begins {fuel : Nat} (h : BeginsStep t) (hts : startsPrimary (t :: ts) = false) :
    parsePath (fuel + 1) (t :: ts) = (do
      let (steps, rest) ← parseSteps fuel (t :: ts)
      .ok (.path false steps, rest)) := by
  cases h <;> simp [parsePath, hts]

theorem parsePath_of_startsPrimary {fuel : Nat} (hts : startsPrimary ts = true) :
    parsePath (fuel + 1) ts = parseFilter fuel ts := by
  unfold parsePath
  split
  next => contradiction
  next => cases hts
  next => cases hts
  next hfuel _ _ =>
    cases hfuel
    rw [if_pos hts]

theorem parseStep_of_along {fuel : Nat} {axis : Axis} {test : NodeTest}
    (along : AxisPhrase ts axis us) (tested : TestPhrase us test vs) :
    parseStep (fuel + 1) ts = (do
      let (axis, rest) ← parseAxis ts
      let (test, rest) ← parseTest rest
      let (predicates, rest) ← parsePredicates fuel rest
      .ok (⟨axis, test, predicates⟩, rest)) := by
  cases along <;> cases tested <;> rfl

theorem parseUnary_of_level {fuel : Nat} {e : Expr} (h : LevelPhrase .union ts e rest) :
    parseUnary (fuel + 1) ts = parseLevel fuel .union ts := by
  have havoids : Avoids [.closeParen, .minus] ts := by
    obtain ⟨operand, -⟩ := h
    cases operand with
    | union phrase => exact phrase.avoids
  unfold parseUnary
  split
  next => contradiction
  next => simp [avoids_cons] at havoids
  next hfuel _ =>
    cases hfuel
    rfl

theorem parseMore_of_endsAt {fuel : Nat} (h : EndsAt level.strength ts) (left : Expr) :
    parseMore (fuel + 1) level left ts = .ok (left, ts) := by
  cases ts with
  | nil => rfl
  | cons t ts => rw [parseMore, h.stops t rfl level (Nat.le_refl _)]

theorem parsePredicates_of_avoids {fuel : Nat} (h : Avoids stepPartners ts) :
    parsePredicates (fuel + 1) ts = .ok ([], ts) := by
  unfold parsePredicates
  split <;> simp_all [Avoids, stepPartners]

theorem parseOnward_of_avoids {fuel : Nat} (h : Avoids pathPartners ts) :
    parseOnward fuel ts = .ok ([], ts) := by
  unfold parseOnward
  split <;> simp_all [Avoids, pathPartners]

theorem parseSteps_of_avoids {fuel : Nat} {step : Step} (h : Avoids pathPartners rest)
    (hstep : parseStep fuel ts = .ok (step, rest)) : parseSteps (fuel + 1) ts = .ok ([step], rest) := by
  refine bind_eq_ok.2 ⟨_, hstep, ?_⟩
  dsimp only
  split <;> simp_all [Avoids, pathPartners]

/-- Every phrase for which some fuel suffices is read with it. -/
structure ParsesPhrases (fuel : Nat) : Prop where
  level {level : Level} {ts rest : List Token} {e : Expr} (h : LevelPhrase level ts e rest)
    (hrest : EndsAt level.strength rest) (hfuel : 16 * ts.length + level.depth + 1 ≤ fuel) :
    parseLevel fuel level ts = .ok (e, rest)
  more {level : Level} {ts rest : List Token} {left e : Expr} (h : MorePhrase level left ts e rest)
    (hrest : EndsAt level.strength rest) (hfuel : 16 * ts.length + 1 ≤ fuel) :
    parseMore fuel level left ts = .ok (e, rest)
  operand {level : Level} {ts rest : List Token} {e : Expr} (h : OperandPhrase level ts e rest)
    (hrest : EndsAt (level.strength + 1) rest) (hfuel : 16 * ts.length + level.depth ≤ fuel) :
    parseOperand fuel level ts = .ok (e, rest)
  unary {ts rest : List Token} {e : Expr} (h : UnaryPhrase ts e rest)
    (hrest : EndsAt Level.union.strength rest) (hfuel : 16 * ts.length + 6 ≤ fuel) :
    parseUnary fuel ts = .ok (e, rest)
  path {ts rest : List Token} {e : Expr} (h : PathPhrase ts e rest) (hrest : Avoids pathPartners rest)
    (hfuel : 16 * ts.length + 3 ≤ fuel) : parsePath fuel ts = .ok (e, rest)
  filter {ts us vs rest : List Token} {primary : Expr} {predicates : List Expr} {steps : List Step}
    (phrase : PrimaryPhrase ts primary us) (predicated : PredicatesPhrase us predicates vs)
    (onward : OnwardPhrase vs steps rest) (hrest : Avoids pathPartners rest)
    (hfuel : 16 * ts.length + 2 ≤ fuel) :
    parseFilter fuel ts = .ok (filtered primary predicates steps, rest)
  primary {ts rest : List Token} {e : Expr} (h : PrimaryPhrase ts e rest)
    (hfuel : 16 * ts.length + 1 ≤ fuel) : parsePrimary fuel ts = .ok (e, rest)
  arguments {ts rest : List Token} {arguments : List Expr}
    (h : ArgumentsPhrase ts arguments (.closeParen :: rest)) (hfuel : 16 * ts.length + 15 ≤ fuel) :
    parseArguments fuel ts = .ok (arguments, .closeParen :: rest)
  steps {ts rest : List Token} {steps : List Step} (h : StepsPhrase ts steps rest)
    (hrest : Avoids pathPartners rest) (hfuel : 16 * ts.length + 2 ≤ fuel) :
    parseSteps fuel ts = .ok (steps, rest)
  step {ts rest : List Token} {step : Step} (h : StepPhrase ts step rest)
    (hrest : Avoids stepPartners rest) (hfuel : 16 * ts.length + 1 ≤ fuel) :
    parseStep fuel ts = .ok (step, rest)
  predicates {ts rest : List Token} {predicates : List Expr} (h : PredicatesPhrase ts predicates rest)
    (hrest : Avoids stepPartners rest) (hfuel : 16 * ts.length + 1 ≤ fuel) :
    parsePredicates fuel ts = .ok (predicates, rest)

namespace ParsesPhrases

variable {fuel : Nat} (ih : ParsesPhrases fuel)

include ih

theorem level_succ {level : Level} {ts rest : List Token} {e : Expr} (h : LevelPhrase level ts e rest)
    (hrest : EndsAt level.strength rest) (hfuel : 16 * ts.length + level.depth + 1 ≤ fuel + 1) :
    parseLevel (fuel + 1) level ts = .ok (e, rest) := by
  obtain ⟨operand, more⟩ := h
  have htaken := operand.length_lt
  refine bind_eq_ok.2 ⟨_, ih.operand operand (more.endsAt hrest) (by omega), ?_⟩
  exact ih.more more hrest (by omega)

theorem more_succ {level : Level} {ts rest : List Token} {left e : Expr}
    (h : MorePhrase level left ts e rest) (hrest : EndsAt level.strength rest)
    (hfuel : 16 * ts.length + 1 ≤ fuel + 1) : parseMore (fuel + 1) level left ts = .ok (e, rest) := by
  cases h with
  | none => exact parseMore_of_endsAt hrest left
  | operator operator operand more =>
    have htaken := operand.length_lt
    have hdepth : level.depth ≤ 13 := by cases level <;> decide
    rw [List.length_cons] at hfuel
    rw [parseMore, operator?_eq_some_iff.2 operator]
    refine bind_eq_ok.2 ⟨_, ih.operand operand (more.endsAt hrest) (by omega), ?_⟩
    exact ih.more more hrest (by omega)

theorem operand_succ {level : Level} {ts rest : List Token} {e : Expr}
    (h : OperandPhrase level ts e rest) (hrest : EndsAt (level.strength + 1) rest)
    (hfuel : 16 * ts.length + level.depth ≤ fuel + 1) :
    parseOperand (fuel + 1) level ts = .ok (e, rest) := by
  have hfuel : 16 * ts.length + level.depth - 1 ≤ fuel := Nat.pred_le_pred hfuel
  cases h with
  | disjunction phrase => exact ih.level phrase hrest hfuel
  | conjunction phrase => exact ih.level phrase hrest hfuel
  | equality phrase => exact ih.level phrase hrest hfuel
  | relation phrase => exact ih.unary phrase hrest hfuel
  | union phrase => exact ih.path phrase hrest.avoids hfuel

theorem unary_succ {ts rest : List Token} {e : Expr} (h : UnaryPhrase ts e rest)
    (hrest : EndsAt Level.union.strength rest) (hfuel : 16 * ts.length + 6 ≤ fuel + 1) :
    parseUnary (fuel + 1) ts = .ok (e, rest) := by
  cases h with
  | minus phrase =>
    rw [List.length_cons] at hfuel
    exact bind_eq_ok.2 ⟨_, ih.unary phrase hrest (by omega), rfl⟩
  | union phrase =>
    rw [parseUnary_of_level phrase]
    exact ih.level phrase hrest (Nat.le_of_succ_le_succ hfuel)

theorem path_succ {ts rest : List Token} {e : Expr} (h : PathPhrase ts e rest)
    (hrest : Avoids pathPartners rest) (hfuel : 16 * ts.length + 3 ≤ fuel + 1) :
    parsePath (fuel + 1) ts = .ok (e, rest) := by
  cases h with
  | root _ alone =>
    rw [parsePath, if_neg]
    rw [startsStep_eq_true_iff]
    rintro ⟨t, ht, hbegins⟩
    exact alone t ht hbegins
  | absolute phrase =>
    rw [List.length_cons] at hfuel
    obtain ⟨t, more, hts, hbegins, -⟩ := phrase.begins (hrest.mono (by decide))
    rw [parsePath, if_pos (startsStep_eq_true_iff.2 ⟨t, by rw [hts]; rfl, hbegins⟩)]
    exact bind_eq_ok.2 ⟨_, ih.steps phrase hrest (by omega), rfl⟩
  | everywhere phrase =>
    rw [List.length_cons] at hfuel
    exact bind_eq_ok.2 ⟨_, ih.steps phrase hrest (by omega), rfl⟩
  | relative phrase =>
    obtain ⟨t, more, rfl, hbegins, hstarts⟩ := phrase.begins (hrest.mono (by decide))
    rw [parsePath_of_begins hbegins hstarts]
    exact bind_eq_ok.2 ⟨_, ih.steps phrase hrest (by omega), rfl⟩
  | filter phrase predicated onward =>
    rw [parsePath_of_startsPrimary phrase.begins]
    exact ih.filter phrase predicated onward hrest (by omega)

theorem filter_succ {ts us vs rest : List Token} {primary : Expr} {predicates : List Expr}
    {steps : List Step} (phrase : PrimaryPhrase ts primary us)
    (predicated : PredicatesPhrase us predicates vs) (onward : OnwardPhrase vs steps rest)
    (hrest : Avoids pathPartners rest) (hfuel : 16 * ts.length + 2 ≤ fuel + 1) :
    parseFilter (fuel + 1) ts = .ok (filtered primary predicates steps, rest) := by
  have htaken := phrase.length_lt
  have hpredicated := predicated.length_le
  rw [parseFilter_eq]
  refine bind_eq_ok.2 ⟨_, ih.primary phrase (by omega), ?_⟩
  refine bind_eq_ok.2
    ⟨_, ih.predicates predicated (onward.avoids hrest) (by omega), ?_⟩
  suffices honward : parseOnward fuel vs = .ok (steps, rest) from bind_eq_ok.2 ⟨_, honward, rfl⟩
  cases onward with
  | none => exact parseOnward_of_avoids hrest
  | child phrase =>
    rw [List.length_cons] at hpredicated
    exact ih.steps phrase hrest (by omega)
  | everywhere phrase =>
    rw [List.length_cons] at hpredicated
    exact bind_eq_ok.2 ⟨_, ih.steps phrase hrest (by omega), rfl⟩

theorem primary_succ {ts rest : List Token} {e : Expr} (h : PrimaryPhrase ts e rest)
    (hfuel : 16 * ts.length + 1 ≤ fuel + 1) : parsePrimary (fuel + 1) ts = .ok (e, rest) := by
  cases h with
  | literal => rfl
  | number => rfl
  | parentheses phrase =>
    rw [List.length_cons] at hfuel
    refine bind_eq_ok.2 ⟨_, ih.level phrase (endsAt_closing _ (by decide) _) ?_, ?_⟩
    · simp only [Level.depth]
      omega
    · exact bind_eq_ok.2 ⟨_, expect_cons .., rfl⟩
  | constant => rfl
  | call _ phrase =>
    rw [List.length_cons, List.length_cons] at hfuel
    have hnonempty := phrase.avoids
    rw [parsePrimary, if_neg fun h : _ = some _ => hnonempty _ h (List.mem_singleton_self _)]
    refine bind_eq_ok.2 ⟨_, ih.arguments phrase (by omega), ?_⟩
    exact bind_eq_ok.2 ⟨_, expect_cons .., rfl⟩

theorem arguments_succ {ts rest : List Token} {arguments : List Expr}
    (h : ArgumentsPhrase ts arguments (.closeParen :: rest))
    (hfuel : 16 * ts.length + 15 ≤ fuel + 1) :
    parseArguments (fuel + 1) ts = .ok (arguments, .closeParen :: rest) := by
  have hfuel := Nat.le_of_succ_le_succ hfuel
  cases h with
  | last phrase =>
    have hfirst := ih.level phrase (endsAt_closing _ (by decide) _) hfuel
    exact bind_eq_ok.2 ⟨_, hfirst, rfl⟩
  | cons phrase more =>
    have htaken := phrase.length_lt
    rw [List.length_cons] at htaken
    have hfirst := ih.level phrase (endsAt_closing _ (by decide) _) hfuel
    refine bind_eq_ok.2 ⟨_, hfirst, ?_⟩
    exact bind_eq_ok.2 ⟨_, ih.arguments more (by omega), rfl⟩

theorem steps_succ {ts rest : List Token} {steps : List Step} (h : StepsPhrase ts steps rest)
    (hrest : Avoids pathPartners rest) (hfuel : 16 * ts.length + 2 ≤ fuel + 1) :
    parseSteps (fuel + 1) ts = .ok (steps, rest) := by
  have hfuel := Nat.le_of_succ_le_succ hfuel
  cases h with
  | last phrase =>
    exact parseSteps_of_avoids hrest
      (ih.step phrase (hrest.mono (by decide)) hfuel)
  | child phrase more =>
    have htaken := phrase.length_lt
    rw [List.length_cons] at htaken
    have hfirst := ih.step phrase (avoids_cons.2 (by decide)) hfuel
    refine bind_eq_ok.2 ⟨_, hfirst, ?_⟩
    exact bind_eq_ok.2 ⟨_, ih.steps more hrest (by omega), rfl⟩
  | everywhere phrase more =>
    have htaken := phrase.length_lt
    rw [List.length_cons] at htaken
    have hfirst := ih.step phrase (avoids_cons.2 (by decide)) hfuel
    refine bind_eq_ok.2 ⟨_, hfirst, ?_⟩
    exact bind_eq_ok.2 ⟨_, ih.steps more hrest (by omega), rfl⟩

theorem step_succ {ts rest : List Token} {step : Step} (h : StepPhrase ts step rest)
    (hrest : Avoids stepPartners rest) (hfuel : 16 * ts.length + 1 ≤ fuel + 1) :
    parseStep (fuel + 1) ts = .ok (step, rest) := by
  cases h with
  | here predicated =>
    rw [List.length_cons] at hfuel
    exact bind_eq_ok.2 ⟨_, ih.predicates predicated hrest (by omega), rfl⟩
  | parent predicated =>
    rw [List.length_cons] at hfuel
    exact bind_eq_ok.2 ⟨_, ih.predicates predicated hrest (by omega), rfl⟩
  | tested along tested predicated =>
    have halong := along.length_le
    have htested := tested.length_lt
    have hnames := predicated.avoids hrest
    rw [parseStep_of_along along tested]
    refine bind_eq_ok.2 ⟨_, parseAxis_of_phrase along tested hnames, ?_⟩
    refine bind_eq_ok.2 ⟨_, parseTest_of_phrase tested hnames, ?_⟩
    exact bind_eq_ok.2 ⟨_, ih.predicates predicated hrest (by omega), rfl⟩

theorem predicates_succ {ts rest : List Token} {predicates : List Expr}
    (h : PredicatesPhrase ts predicates rest) (hrest : Avoids stepPartners rest)
    (hfuel : 16 * ts.length + 1 ≤ fuel + 1) :
    parsePredicates (fuel + 1) ts = .ok (predicates, rest) := by
  cases h with
  | none => exact parsePredicates_of_avoids hrest
  | cons phrase more =>
    have htaken := phrase.length_lt
    rw [List.length_cons] at hfuel htaken
    refine bind_eq_ok.2 ⟨_, ih.level phrase (endsAt_closing _ (by decide) _) ?_, ?_⟩
    · simp only [Level.depth]
      omega
    · refine bind_eq_ok.2 ⟨_, expect_cons .., ?_⟩
      exact bind_eq_ok.2 ⟨_, ih.predicates more hrest (by omega), rfl⟩

end ParsesPhrases

theorem parsesPhrases (fuel : Nat) : ParsesPhrases fuel := by
  induction fuel with
  | zero =>
    constructor
    case operand =>
      intro level ts rest e h _ hfuel
      have htaken := h.length_lt
      omega
    all_goals
      intros
      omega
  | succ fuel ih =>
    exact ⟨ih.level_succ, ih.more_succ, ih.operand_succ, ih.unary_succ, ih.path_succ, ih.filter_succ,
      ih.primary_succ, ih.arguments_succ, ih.steps_succ, ih.step_succ, ih.predicates_succ⟩

theorem ofTokens_of_derives {e : Expr} (h : Derives ts e) : Expr.ofTokens ts = .ok e := by
  have hdepth : Level.disjunction.depth = 13 := rfl
  have hlevel : parseLevel (16 * (ts.length + 1)) .disjunction ts = .ok (e, []) :=
    (parsesPhrases _).level h (endsAt_nil _) (by omega)
  exact bind_eq_ok.2 ⟨_, hlevel, rfl⟩

theorem derives_of_ofTokens {e : Expr} (h : Expr.ofTokens ts = .ok e) : Derives ts e := by
  obtain ⟨⟨e', rest⟩, hlevel, h⟩ := bind_eq_ok.1 h
  dsimp only at h
  split at h
  · cases h
    exact (readsPhrases _).level hlevel
  · cases h

/-- The parser accepts just the expressions of the grammar, each with its one tree. -/
theorem ofTokens_eq_ok_iff_derives (ts : List Token) :
    (∀ e, Expr.ofTokens ts = .ok e ↔ Derives ts e) ∧
      ∀ e e', Derives ts e → Derives ts e' → e = e' := by
  refine ⟨fun e => ⟨derives_of_ofTokens, ofTokens_of_derives⟩, fun e e' h h' => ?_⟩
  exact Except.ok.inj ((ofTokens_of_derives h).symm.trans (ofTokens_of_derives h'))

/-- A name right behind a slash is a step, also the name of an operator. -/
example (e : Expr) : ¬ Derives [.slash, .name "or", .name "a"] e := by
  intro h
  cases ofTokens_of_derives h

end Crosswalk.XPath
