import Crosswalk.Proofs.Parsing

/-!
# Paths that go on

An expression that begins with a relative location path, a slash and more. What stands behind the slash
is an expression itself, and the tree of the whole is its tree with the steps of the path in front of
the steps that it begins with: the path goes on in the first location path, and the operators behind that
path keep their other operands.

That the steps in front are read alike with and without what follows is not clear from the grammar,
where a phrase can end early. It is the parser that decides: a step is read as far as it goes, and a step
that a slash follows is read as one that nothing follows.
-/

namespace Crosswalk.XPath

variable {level : Level} {ts us rs ys rest extra : List Token} {t : Token} {steps joint : List Step}

/-! ## Tokens behind a phrase -/

/-- No step begins with these tokens. -/
def NoStep (ts : List Token) : Prop :=
  ∀ t ∈ ts.head?, ¬ BeginsStep t

theorem AxisPhrase.append {axis : Axis} (h : AxisPhrase ts axis rest) (extra : List Token) :
    AxisPhrase (ts ++ extra) axis (rest ++ extra) := by
  cases h with
  | omitted => exact .omitted _
  | atSign => exact .atSign _
  | named name => exact .named name _

theorem TestPhrase.append {test : NodeTest} (h : TestPhrase ts test rest) (extra : List Token) :
    TestPhrase (ts ++ extra) test (rest ++ extra) := by
  cases h with
  | star => exact .star _
  | name form => exact .name form _
  | kind name => exact .kind name _

mutual

/-- A phrase stays one with more tokens behind it, as long as no step begins there. -/
theorem LevelPhrase.append (hextra : NoStep extra) : ∀ {level : Level} {ts rest : List Token} {e : Expr},
    LevelPhrase level ts e rest → LevelPhrase level (ts ++ extra) e (rest ++ extra)
  | _, _, _, _, .mk operand more => .mk (operand.append hextra) (more.append hextra)

theorem MorePhrase.append (hextra : NoStep extra) : ∀ {level : Level} {ts rest : List Token} {left e : Expr},
    MorePhrase level left ts e rest → MorePhrase level left (ts ++ extra) e (rest ++ extra)
  | _, _, _, _, _, .none .. => .none ..
  | _, _, _, _, _, .operator operator operand more =>
    .operator operator (operand.append hextra) (more.append hextra)

theorem OperandPhrase.append (hextra : NoStep extra) : ∀ {level : Level} {ts rest : List Token} {e : Expr},
    OperandPhrase level ts e rest → OperandPhrase level (ts ++ extra) e (rest ++ extra)
  | _, _, _, _, .disjunction phrase => .disjunction (phrase.append hextra)
  | _, _, _, _, .conjunction phrase => .conjunction (phrase.append hextra)
  | _, _, _, _, .equality phrase => .equality (phrase.append hextra)
  | _, _, _, _, .relation phrase => .relation (phrase.append hextra)
  | _, _, _, _, .union phrase => .union (phrase.append hextra)

theorem UnaryPhrase.append (hextra : NoStep extra) : ∀ {ts rest : List Token} {e : Expr},
    UnaryPhrase ts e rest → UnaryPhrase (ts ++ extra) e (rest ++ extra)
  | _, _, _, .minus phrase => .minus (phrase.append hextra)
  | _, _, _, .union phrase => .union (phrase.append hextra)

theorem PathPhrase.append (hextra : NoStep extra) : ∀ {ts rest : List Token} {e : Expr},
    PathPhrase ts e rest → PathPhrase (ts ++ extra) e (rest ++ extra)
  | _, _, _, .root rest alone => .root _ (by
    intro t ht
    rcases rest with _ | ⟨u, rest⟩
    · exact hextra t ht
    · exact alone t ht)
  | _, _, _, .absolute phrase => .absolute (phrase.append hextra)
  | _, _, _, .everywhere phrase => .everywhere (phrase.append hextra)
  | _, _, _, .relative phrase => .relative (phrase.append hextra)
  | _, _, _, .filter phrase predicated onward =>
    .filter (phrase.append hextra) (predicated.append hextra) (onward.append hextra)

theorem OnwardPhrase.append (hextra : NoStep extra) : ∀ {ts rest : List Token} {steps : List Step},
    OnwardPhrase ts steps rest → OnwardPhrase (ts ++ extra) steps (rest ++ extra)
  | _, _, _, .none _ => .none _
  | _, _, _, .child phrase => .child (phrase.append hextra)
  | _, _, _, .everywhere phrase => .everywhere (phrase.append hextra)

theorem PrimaryPhrase.append (hextra : NoStep extra) : ∀ {ts rest : List Token} {e : Expr},
    PrimaryPhrase ts e rest → PrimaryPhrase (ts ++ extra) e (rest ++ extra)
  | _, _, _, .literal .. => .literal ..
  | _, _, _, .number .. => .number ..
  | _, _, _, .parentheses phrase => .parentheses (phrase.append hextra)
  | _, _, _, .constant f function _ => .constant f function _
  | _, _, _, .call function phrase => .call function (phrase.append hextra)

theorem ArgumentsPhrase.append (hextra : NoStep extra) : ∀ {ts rest : List Token} {arguments : List Expr},
    ArgumentsPhrase ts arguments rest → ArgumentsPhrase (ts ++ extra) arguments (rest ++ extra)
  | _, _, _, .last phrase => .last (phrase.append hextra)
  | _, _, _, .cons phrase more => .cons (phrase.append hextra) (more.append hextra)

theorem StepsPhrase.append (hextra : NoStep extra) : ∀ {ts rest : List Token} {steps : List Step},
    StepsPhrase ts steps rest → StepsPhrase (ts ++ extra) steps (rest ++ extra)
  | _, _, _, .last phrase => .last (phrase.append hextra)
  | _, _, _, .child phrase more => .child (phrase.append hextra) (more.append hextra)
  | _, _, _, .everywhere phrase more => .everywhere (phrase.append hextra) (more.append hextra)

theorem StepPhrase.append (hextra : NoStep extra) : ∀ {ts rest : List Token} {step : Step},
    StepPhrase ts step rest → StepPhrase (ts ++ extra) step (rest ++ extra)
  | _, _, _, .here predicated => .here (predicated.append hextra)
  | _, _, _, .parent predicated => .parent (predicated.append hextra)
  | _, _, _, .tested along tested predicated =>
    .tested (along.append extra) (tested.append extra) (predicated.append hextra)

theorem PredicatesPhrase.append (hextra : NoStep extra) : ∀ {ts rest : List Token} {predicates : List Expr},
    PredicatesPhrase ts predicates rest → PredicatesPhrase (ts ++ extra) predicates (rest ++ extra)
  | _, _, _, .none _ => .none _
  | _, _, _, .cons phrase more => .cons (phrase.append hextra) (more.append hextra)

end

/-! ## Tokens at the end of a phrase -/

theorem AxisPhrase.suffix {axis : Axis} (h : AxisPhrase ts axis rest) : rest <:+ ts := by
  cases h with
  | omitted => exact List.suffix_rfl
  | atSign => exact ⟨[_], rfl⟩
  | named => exact ⟨[_, _], rfl⟩

theorem TestPhrase.suffix {test : NodeTest} (h : TestPhrase ts test rest) : rest <:+ ts := by
  cases h with
  | star => exact ⟨[_], rfl⟩
  | name => exact ⟨[_], rfl⟩
  | kind => exact ⟨[_, _, _], rfl⟩

mutual

theorem LevelPhrase.suffix : ∀ {level : Level} {ts rest : List Token} {e : Expr},
    LevelPhrase level ts e rest → rest <:+ ts
  | _, _, _, _, .mk operand more => more.suffix.trans operand.suffix

theorem MorePhrase.suffix : ∀ {level : Level} {ts rest : List Token} {left e : Expr},
    MorePhrase level left ts e rest → rest <:+ ts
  | _, _, _, _, _, .none .. => List.suffix_rfl
  | _, _, _, _, _, .operator _ operand more =>
    (more.suffix.trans operand.suffix).trans (List.suffix_cons ..)

theorem OperandPhrase.suffix : ∀ {level : Level} {ts rest : List Token} {e : Expr},
    OperandPhrase level ts e rest → rest <:+ ts
  | _, _, _, _, .disjunction phrase => phrase.suffix
  | _, _, _, _, .conjunction phrase => phrase.suffix
  | _, _, _, _, .equality phrase => phrase.suffix
  | _, _, _, _, .relation phrase => phrase.suffix
  | _, _, _, _, .union phrase => phrase.suffix

theorem UnaryPhrase.suffix : ∀ {ts rest : List Token} {e : Expr},
    UnaryPhrase ts e rest → rest <:+ ts
  | _, _, _, .minus phrase => phrase.suffix.trans (List.suffix_cons ..)
  | _, _, _, .union phrase => phrase.suffix

theorem PathPhrase.suffix : ∀ {ts rest : List Token} {e : Expr},
    PathPhrase ts e rest → rest <:+ ts
  | _, _, _, .root .. => List.suffix_cons ..
  | _, _, _, .absolute phrase => phrase.suffix.trans (List.suffix_cons ..)
  | _, _, _, .everywhere phrase => phrase.suffix.trans (List.suffix_cons ..)
  | _, _, _, .relative phrase => phrase.suffix
  | _, _, _, .filter phrase predicated onward =>
    (onward.suffix.trans predicated.suffix).trans phrase.suffix

theorem OnwardPhrase.suffix : ∀ {ts rest : List Token} {steps : List Step},
    OnwardPhrase ts steps rest → rest <:+ ts
  | _, _, _, .none _ => List.suffix_rfl
  | _, _, _, .child phrase => phrase.suffix.trans (List.suffix_cons ..)
  | _, _, _, .everywhere phrase => phrase.suffix.trans (List.suffix_cons ..)

theorem PrimaryPhrase.suffix : ∀ {ts rest : List Token} {e : Expr},
    PrimaryPhrase ts e rest → rest <:+ ts
  | _, _, _, .literal .. => List.suffix_cons ..
  | _, _, _, .number .. => List.suffix_cons ..
  | _, _, _, .parentheses phrase =>
    ((List.suffix_cons ..).trans phrase.suffix).trans (List.suffix_cons ..)
  | _, _, _, .constant .. => ⟨[_, _, _], rfl⟩
  | _, _, _, .call _ phrase =>
    (((List.suffix_cons ..).trans phrase.suffix).trans (List.suffix_cons ..)).trans
      (List.suffix_cons ..)

theorem ArgumentsPhrase.suffix : ∀ {ts rest : List Token} {arguments : List Expr},
    ArgumentsPhrase ts arguments rest → rest <:+ ts
  | _, _, _, .last phrase => phrase.suffix
  | _, _, _, .cons phrase more => (more.suffix.trans (List.suffix_cons ..)).trans phrase.suffix

theorem StepsPhrase.suffix : ∀ {ts rest : List Token} {steps : List Step},
    StepsPhrase ts steps rest → rest <:+ ts
  | _, _, _, .last phrase => phrase.suffix
  | _, _, _, .child phrase more => (more.suffix.trans (List.suffix_cons ..)).trans phrase.suffix
  | _, _, _, .everywhere phrase more => (more.suffix.trans (List.suffix_cons ..)).trans phrase.suffix

theorem StepPhrase.suffix : ∀ {ts rest : List Token} {step : Step},
    StepPhrase ts step rest → rest <:+ ts
  | _, _, _, .here predicated => predicated.suffix.trans (List.suffix_cons ..)
  | _, _, _, .parent predicated => predicated.suffix.trans (List.suffix_cons ..)
  | _, _, _, .tested along tested predicated =>
    (predicated.suffix.trans tested.suffix).trans along.suffix

theorem PredicatesPhrase.suffix : ∀ {ts rest : List Token} {predicates : List Expr},
    PredicatesPhrase ts predicates rest → rest <:+ ts
  | _, _, _, .none _ => List.suffix_rfl
  | _, _, _, .cons phrase more =>
    ((more.suffix.trans (List.suffix_cons ..)).trans phrase.suffix).trans (List.suffix_cons ..)

end

/-! ### No step ends in a slash -/

/-- The last of the tokens, if there is one, is no slash. -/
def EndsApart (ts : List Token) : Prop :=
  ts.getLast? ≠ some .slash

theorem EndsApart.cons (h : EndsApart us) (ht : t ≠ .slash) : EndsApart (t :: us) := by
  cases us with
  | nil => simpa [EndsApart] using ht
  | cons u us => simpa [EndsApart] using h

theorem EndsApart.of_suffix (h : EndsApart us) (hne : us ≠ []) (hus : us <:+ ts) : EndsApart ts := by
  obtain ⟨before, rfl⟩ := hus
  rwa [EndsApart, List.getLast?_append_of_ne_nil before hne]

theorem PredicatesPhrase.endsApart : ∀ {ts : List Token} {predicates : List Expr},
    PredicatesPhrase ts predicates [] → EndsApart ts
  | _, _, .none _ => nofun
  | _, _, .cons phrase more =>
    (((more.endsApart.cons (by decide)).of_suffix (by simp) phrase.suffix)).cons (by decide)

theorem TestPhrase.endsApart {test : NodeTest} (h : TestPhrase ts test []) : EndsApart ts := by
  cases h <;> simp [EndsApart]

theorem StepPhrase.endsApart {step : Step} (h : StepPhrase ts step []) : EndsApart ts := by
  cases h with
  | here predicated => exact predicated.endsApart.cons (by decide)
  | parent predicated => exact predicated.endsApart.cons (by decide)
  | @tested _ us vs _ _ _ _ along tested predicated =>
    have hus : us ≠ [] := List.ne_nil_of_length_pos (Nat.zero_lt_of_lt tested.length_lt)
    refine EndsApart.of_suffix ?_ hus along.suffix
    cases vs with
    | nil => exact tested.endsApart
    | cons v vs => exact predicated.endsApart.of_suffix (by simp) tested.suffix

theorem StepsPhrase.endsApart : ∀ {rs : List Token} {steps : List Step},
    StepsPhrase rs steps [] → EndsApart rs
  | _, _, .last phrase => phrase.endsApart
  | _, _, .child phrase more =>
    more.endsApart.of_suffix (List.ne_nil_of_length_pos more.length_lt)
      ((List.suffix_cons ..).trans phrase.suffix)
  | _, _, .everywhere phrase more =>
    more.endsApart.of_suffix (List.ne_nil_of_length_pos more.length_lt)
      ((List.suffix_cons ..).trans phrase.suffix)

/-! ## The steps of a path that goes on -/

/-- The sign between two paths, and the steps that it stands for itself. -/
inductive Junction : Token → List Step → Prop
  | child : Junction .slash []
  | everywhere : Junction .doubleSlash [.everyBelow]

theorem Junction.noStep (h : Junction t joint) (ys : List Token) : NoStep (t :: ys) := by
  rintro _ ⟨⟩ hbegins
  cases h <;> cases hbegins

theorem Junction.avoids (h : Junction t joint) (ys : List Token) : Avoids stepPartners (t :: ys) := by
  cases h <;> exact avoids_cons.2 (by decide)

theorem Junction.not_avoids (h : Junction t joint) (ys : List Token) :
    ¬ Avoids pathPartners (t :: ys) := by
  rw [avoids_cons]
  cases h <;> decide

/-- A step has one tree and one end, if what follows cannot be taken for more of it. -/
theorem StepPhrase.unique {step step' : Step} {rest' : List Token} (h : StepPhrase ts step rest)
    (hrest : Avoids stepPartners rest) (h' : StepPhrase ts step' rest')
    (hrest' : Avoids stepPartners rest') : step = step' ∧ rest = rest' := by
  have hread := (parsesPhrases _).step h hrest (Nat.le_refl _)
  have hread' := (parsesPhrases _).step h' hrest' (Nat.le_refl _)
  rw [hread] at hread'
  cases hread'
  exact ⟨rfl, rfl⟩

theorem Avoids.behindStep (h : Avoids pathPartners rest) : Avoids stepPartners rest :=
  h.mono (by decide)

theorem avoids_slash (us : List Token) : Avoids stepPartners (.slash :: us) :=
  Junction.child.avoids us

theorem avoids_doubleSlash (us : List Token) : Avoids stepPartners (.doubleSlash :: us) :=
  Junction.everywhere.avoids us

/-- The steps that a path goes on with are steps themselves. -/
theorem StepsPhrase.split (ht : Junction t joint) : ∀ {rs : List Token} {steps all : List Step},
    StepsPhrase rs steps [] → StepsPhrase (rs ++ t :: ys) all rest → Avoids pathPartners rest →
      ∃ more, StepsPhrase ys more rest ∧ all = steps ++ (joint ++ more)
  | _, _, _, .last phrase, h, hrest => by
    have hstep := phrase.append (ht.noStep ys)
    cases h with
    | last phrase' =>
      obtain ⟨-, rfl⟩ := hstep.unique (ht.avoids ys) phrase' hrest.behindStep
      exact absurd hrest (ht.not_avoids ys)
    | child phrase' more =>
      obtain ⟨rfl, heq⟩ := hstep.unique (ht.avoids ys) phrase' (avoids_slash _)
      cases heq
      cases ht
      exact ⟨_, more, rfl⟩
    | everywhere phrase' more =>
      obtain ⟨rfl, heq⟩ := hstep.unique (ht.avoids ys) phrase' (avoids_doubleSlash _)
      cases heq
      cases ht
      exact ⟨_, more, rfl⟩
  | _, _, _, .child phrase more, h, hrest => by
    have hstep := phrase.append (ht.noStep ys)
    cases h with
    | last phrase' =>
      obtain ⟨-, rfl⟩ := hstep.unique (avoids_slash _) phrase' hrest.behindStep
      exact absurd hrest (Junction.child.not_avoids _)
    | child phrase' more' =>
      obtain ⟨rfl, heq⟩ := hstep.unique (avoids_slash _) phrase' (avoids_slash _)
      cases heq
      obtain ⟨found, hfound, rfl⟩ := more.split ht more' hrest
      exact ⟨found, hfound, rfl⟩
    | everywhere phrase' more' =>
      obtain ⟨-, heq⟩ := hstep.unique (avoids_slash _) phrase' (avoids_doubleSlash _)
      cases heq
  | _, _, _, .everywhere phrase more, h, hrest => by
    have hstep := phrase.append (ht.noStep ys)
    cases h with
    | last phrase' =>
      obtain ⟨-, rfl⟩ := hstep.unique (avoids_doubleSlash _) phrase' hrest.behindStep
      exact absurd hrest (Junction.everywhere.not_avoids _)
    | child phrase' more' =>
      obtain ⟨-, heq⟩ := hstep.unique (avoids_doubleSlash _) phrase' (avoids_slash _)
      cases heq
    | everywhere phrase' more' =>
      obtain ⟨rfl, heq⟩ := hstep.unique (avoids_doubleSlash _) phrase' (avoids_doubleSlash _)
      cases heq
      obtain ⟨found, hfound, rfl⟩ := more.split ht more' hrest
      exact ⟨found, hfound, rfl⟩

/-! ## The expression that a path goes on with -/

/-- The second tree is the first one with steps in front of the relative location path that it begins
with. -/
inductive Prefixed (steps : List Step) : Expr → Expr → Prop
  | path (more : List Step) : Prefixed steps (.path false more) (.path false (steps ++ more))
  | operator {level : Level} {t : Token} {build : Expr → Expr → Expr} {left left' : Expr}
      (operator : Operator level t build) (begins : Prefixed steps left left') (right : Expr) :
    Prefixed steps (build left right) (build left' right)

theorem MorePhrase.unprefixed : ∀ {level : Level} {us rest : List Token} {left left' e' : Expr},
    MorePhrase level left' us e' rest → Prefixed steps left left' →
      ∃ e, MorePhrase level left us e rest ∧ Prefixed steps e e'
  | _, _, _, left, _, _, .none .., hleft => ⟨left, .none .., hleft⟩
  | _, _, _, _, _, _, .operator sign operand more, hleft => by
    obtain ⟨e, hmore, he⟩ := more.unprefixed (.operator sign hleft _)
    exact ⟨e, .operator sign operand hmore, he⟩

/-- What a path begins with that goes on: neither a sign nor a primary expression. -/
theorem StepsPhrase.begins_joined (hrs : StepsPhrase rs steps []) (ht : Junction t joint)
    (ys : List Token) : ∃ u us, rs ++ t :: ys = u :: us ∧ BeginsStep u ∧
      startsPrimary (rs ++ t :: ys) = false :=
  (hrs.append (ht.noStep ys)).begins (ht.avoids ys)

theorem PathPhrase.unprefixed {e' : Expr} (hrs : StepsPhrase rs steps []) (ht : Junction t joint)
    (h : PathPhrase ts e' rest) (hts : ts = rs ++ t :: ys) (hrest : Avoids pathPartners rest) :
    ∃ e, PathPhrase ys e rest ∧ Prefixed (steps ++ joint) e e' ∧ startsStep ys = true := by
  obtain ⟨u, us, hu, hbegins, hstarts⟩ := hrs.begins_joined ht ys
  rw [← hts] at hu hstarts
  cases h with
  | root =>
    cases hu
    cases hbegins
  | absolute =>
    cases hu
    cases hbegins
  | everywhere =>
    cases hu
    cases hbegins
  | filter phrase =>
    rw [phrase.begins] at hstarts
    cases hstarts
  | relative phrase =>
    obtain ⟨more, hmore, rfl⟩ := hrs.split ht (hts ▸ phrase) hrest
    obtain ⟨v, vs, rfl, hstep, -⟩ := hmore.begins hrest.behindStep
    rw [← List.append_assoc]
    exact ⟨_, .relative hmore, .path more, startsStep_cons.2 hstep⟩

mutual

/-- What stands behind the sign is an expression, and the tree of the whole is its tree with the steps
of the path in front. -/
theorem LevelPhrase.unprefixed (hrs : StepsPhrase rs steps []) (ht : Junction t joint) :
    ∀ {level : Level} {ts rest : List Token} {e' : Expr},
    LevelPhrase level ts e' rest → ts = rs ++ t :: ys → EndsAt level.strength rest →
      ∃ e, LevelPhrase level ys e rest ∧ Prefixed (steps ++ joint) e e' ∧ startsStep ys = true
  | _, _, _, _, .mk operand more, hts, hrest => by
    obtain ⟨first, hfirst, hprefixed, hstarts⟩ := operand.unprefixed hrs ht hts (more.endsAt hrest)
    obtain ⟨e, hmore, he⟩ := more.unprefixed hprefixed
    exact ⟨e, .mk hfirst hmore, he, hstarts⟩

theorem OperandPhrase.unprefixed (hrs : StepsPhrase rs steps []) (ht : Junction t joint) :
    ∀ {level : Level} {ts rest : List Token} {e' : Expr},
    OperandPhrase level ts e' rest → ts = rs ++ t :: ys → EndsAt (level.strength + 1) rest →
      ∃ e, OperandPhrase level ys e rest ∧ Prefixed (steps ++ joint) e e' ∧ startsStep ys = true
  | _, _, _, _, .disjunction phrase, hts, hrest =>
    (phrase.unprefixed hrs ht hts hrest).imp fun _ => .imp_left .disjunction
  | _, _, _, _, .conjunction phrase, hts, hrest =>
    (phrase.unprefixed hrs ht hts hrest).imp fun _ => .imp_left .conjunction
  | _, _, _, _, .equality phrase, hts, hrest =>
    (phrase.unprefixed hrs ht hts hrest).imp fun _ => .imp_left .equality
  | _, _, _, _, .relation phrase, hts, hrest =>
    (phrase.unprefixed hrs ht hts hrest).imp fun _ => .imp_left .relation
  | _, _, _, _, .union phrase, hts, hrest =>
    (phrase.unprefixed hrs ht hts hrest.avoids).imp fun _ => .imp_left .union

theorem UnaryPhrase.unprefixed (hrs : StepsPhrase rs steps []) (ht : Junction t joint) :
    ∀ {ts rest : List Token} {e' : Expr},
    UnaryPhrase ts e' rest → ts = rs ++ t :: ys → EndsAt Level.union.strength rest →
      ∃ e, UnaryPhrase ys e rest ∧ Prefixed (steps ++ joint) e e' ∧ startsStep ys = true
  | _, _, _, .minus _, hts, _ => by
    obtain ⟨u, us, hu, hbegins, -⟩ := hrs.begins_joined ht ys
    rw [← hts] at hu
    cases hu
    cases hbegins
  | _, _, _, .union phrase, hts, hrest =>
    (phrase.unprefixed hrs ht hts hrest).imp fun _ => .imp_left .union

end

theorem Derives.unprefixed {e' : Expr} (hrs : StepsPhrase rs steps []) (ht : Junction t joint)
    (h : Derives (rs ++ t :: ys) e') :
    ∃ e, Derives ys e ∧ Prefixed (steps ++ joint) e e' ∧ startsStep ys = true :=
  LevelPhrase.unprefixed hrs ht h rfl (endsAt_nil _)

end Crosswalk.XPath
