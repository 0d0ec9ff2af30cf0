import Crosswalk.Proofs.Parsing
import Crosswalk.Proofs.QuotedTokens
import Crosswalk.Proofs.Steps

/-!
# Relations with two equality signs

A relation is taken for a join wherever two equality signs stand in its text, in a quotation or outside of
one. Outside of quotations no expression has two of them in a row: a comparison is followed by an operand, and no
operand begins with an equality sign. So of the relations that are expressions just those are taken for joins that
have two equality signs in a literal, and none of them can be followed as one. The text in front of the signs is
the key, it ends within a quotation, and nothing of the kind can be read.
-/

namespace Crosswalk

namespace XPath

variable {t : Token} {ts us vs rest : List Token} {e : Expr}

/-! ## Expressions keep equality signs apart -/

namespace Apart

theorem tail (h : Apart (t :: ts)) : Apart ts :=
  List.IsChain.tail h

/-- What may follow an equality sign may follow every token. -/
theorem replace (h : Apart (.equal :: ts)) (t : Token) : Apart (t :: ts) := by
  obtain ⟨hnext, hts⟩ := List.isChain_cons.1 h
  exact List.isChain_cons.2 ⟨fun u hu ht => hnext u hu ⟨rfl, ht.2⟩, hts⟩

theorem cons (h : Apart ts) (ht : t.endsEqual = false) : Apart (t :: ts) := by
  refine List.isChain_cons.2 ⟨fun u _ hu => ?_, h⟩
  rw [ht] at hu
  cases hu.1

/-- A token that is not spelled with an equality sign may follow one. -/
theorem operand (h : Apart ts) (ht : t.endsEqual = false) : Apart (.equal :: t :: ts) := by
  refine List.isChain_cons_cons.2 ⟨?_, h.cons ht⟩
  rintro ⟨-, rfl⟩
  cases ht

end Apart

theorem AxisPhrase.apart {axis : Axis} (h : AxisPhrase ts axis rest)
    (hrest : Apart (.equal :: rest)) : Apart (.equal :: ts) := by
  cases h with
  | omitted => exact hrest
  | atSign => exact hrest.tail.operand rfl
  | named => exact (hrest.tail.cons rfl).operand rfl

theorem TestPhrase.apart {test : NodeTest} (h : TestPhrase ts test rest) (hrest : Apart rest) :
    Apart (.equal :: ts) := by
  cases h with
  | star => exact hrest.operand rfl
  | name => exact hrest.operand rfl
  | kind => exact ((hrest.cons rfl).cons rfl).operand rfl

mutual

theorem LevelPhrase.apart : ∀ {level : Level} {ts rest : List Token} {e : Expr},
    LevelPhrase level ts e rest → Apart rest → Apart (.equal :: ts)
  | _, _, _, _, .mk operand more, h => operand.apart (more.apart h)

/-- Behind an operand an equality sign may stand, and behind it the next operand. -/
theorem MorePhrase.apart : ∀ {level : Level} {ts rest : List Token} {left e : Expr},
    MorePhrase level left ts e rest → Apart rest → Apart ts
  | _, _, _, _, _, .none .., h => h
  | _, _, _, _, _, .operator _ operand more, h => (operand.apart (more.apart h)).replace _

theorem OperandPhrase.apart : ∀ {level : Level} {ts rest : List Token} {e : Expr},
    OperandPhrase level ts e rest → Apart rest → Apart (.equal :: ts)
  | _, _, _, _, .disjunction phrase, h => phrase.apart h
  | _, _, _, _, .conjunction phrase, h => phrase.apart h
  | _, _, _, _, .equality phrase, h => phrase.apart h
  | _, _, _, _, .relation phrase, h => phrase.apart h
  | _, _, _, _, .union phrase, h => phrase.apart h

theorem UnaryPhrase.apart : ∀ {ts rest : List Token} {e : Expr},
    UnaryPhrase ts e rest → Apart rest → Apart (.equal :: ts)
  | _, _, _, .minus phrase, h => (phrase.apart h).tail.operand rfl
  | _, _, _, .union phrase, h => phrase.apart h

theorem PathPhrase.apart : ∀ {ts rest : List Token} {e : Expr},
    PathPhrase ts e rest → Apart rest → Apart (.equal :: ts)
  | _, _, _, .root .., h => h.operand rfl
  | _, _, _, .absolute phrase, h => (phrase.apart h).tail.operand rfl
  | _, _, _, .everywhere phrase, h => (phrase.apart h).tail.operand rfl
  | _, _, _, .relative phrase, h => phrase.apart h
  | _, _, _, .filter phrase predicated onward, h =>
    phrase.apart (predicated.apart (onward.apart h))

theorem OnwardPhrase.apart : ∀ {ts rest : List Token} {steps : List Step},
    OnwardPhrase ts steps rest → Apart rest → Apart ts
  | _, _, _, .none .., h => h
  | _, _, _, .child phrase, h => (phrase.apart h).replace _
  | _, _, _, .everywhere phrase, h => (phrase.apart h).replace _

theorem PrimaryPhrase.apart : ∀ {ts rest : List Token} {e : Expr},
    PrimaryPhrase ts e rest → Apart rest → Apart (.equal :: ts)
  | _, _, _, .literal .., h => h.operand rfl
  | _, _, _, .number .., h => h.operand rfl
  | _, _, _, .parentheses phrase, h => (phrase.apart (h.cons rfl)).tail.operand rfl
  | _, _, _, .constant .., h => ((h.cons rfl).cons rfl).operand rfl
  | _, _, _, .call _ phrase, h => ((phrase.apart (h.cons rfl)).tail.cons rfl).operand rfl

theorem ArgumentsPhrase.apart : ∀ {ts rest : List Token} {arguments : List Expr},
    ArgumentsPhrase ts arguments rest → Apart rest → Apart (.equal :: ts)
  | _, _, _, .last phrase, h => phrase.apart h
  | _, _, _, .cons phrase more, h => phrase.apart ((more.apart h).tail.cons rfl)

theorem StepsPhrase.apart : ∀ {ts rest : List Token} {steps : List Step},
    StepsPhrase ts steps rest → Apart rest → Apart (.equal :: ts)
  | _, _, _, .last phrase, h => phrase.apart h
  | _, _, _, .child phrase more, h => phrase.apart ((more.apart h).tail.cons rfl)
  | _, _, _, .everywhere phrase more, h => phrase.apart ((more.apart h).tail.cons rfl)

theorem StepPhrase.apart : ∀ {ts rest : List Token} {step : Step},
    StepPhrase ts step rest → Apart rest → Apart (.equal :: ts)
  | _, _, _, .here predicated, h => (predicated.apart h).operand rfl
  | _, _, _, .parent predicated, h => (predicated.apart h).operand rfl
  | _, _, _, .tested along tested predicated, h =>
    along.apart (tested.apart (predicated.apart h))

theorem PredicatesPhrase.apart : ∀ {ts rest : List Token} {predicates : List Expr},
    PredicatesPhrase ts predicates rest → Apart rest → Apart ts
  | _, _, _, .none .., h => h
  | _, _, _, .cons phrase more, h =>
    (phrase.apart ((more.apart h).cons rfl)).replace _

end

/-! ## Literals -/

mutual

/-- The texts of the literals of an expression, from left to right. -/
def Expr.literals : Expr → List String
  | .or l r | .and l r | .compare _ l r | .union l r => l.literals ++ r.literals
  | .negate e => e.literals
  | .path _ steps => stepLiterals steps
  | .filter primary predicates steps =>
    primary.literals ++ exprLiterals predicates ++ stepLiterals steps
  | .literal text => [text]
  | .number _ => []
  | .call _ arguments => exprLiterals arguments

def exprLiterals : List Expr → List String
  | [] => []
  | e :: rest => e.literals ++ exprLiterals rest

def Step.literals : Step → List String
  | ⟨_, _, predicates⟩ => exprLiterals predicates

def stepLiterals : List Step → List String
  | [] => []
  | step :: rest => step.literals ++ stepLiterals rest

end

def Token.literal? : Token → Option String
  | .literal text => some text
  | _ => none

def tokenLiterals (ts : List Token) : List String :=
  ts.filterMap Token.literal?

theorem mem_tokenLiterals_iff {text : String} : text ∈ tokenLiterals ts ↔ .literal text ∈ ts := by
  rw [tokenLiterals, List.mem_filterMap]
  constructor
  · rintro ⟨t, ht, htext⟩
    cases t <;> cases htext
    exact ht
  · intro h
    exact ⟨_, h, rfl⟩

theorem tokenLiterals_cons (ht : t.literal? = none) : tokenLiterals (t :: ts) = tokenLiterals ts := by
  rw [tokenLiterals, List.filterMap_cons, ht]
  rfl

theorem Operator.literal?_eq {level : Level} {build : Expr → Expr → Expr}
    (h : Operator level t build) : t.literal? = none := by
  cases h <;> rfl

theorem Operator.literals {level : Level} {build : Expr → Expr → Expr}
    (h : Operator level t build) (left right : Expr) :
    (build left right).literals = left.literals ++ right.literals := by
  cases h <;> rfl

theorem literals_everyBelow : Step.everyBelow.literals = [] := rfl

theorem literals_filtered (primary : Expr) (predicates : List Expr) (steps : List Step) :
    (filtered primary predicates steps).literals =
      primary.literals ++ exprLiterals predicates ++ stepLiterals steps := by
  unfold filtered
  split
  · simp [exprLiterals, stepLiterals]
  · rfl

theorem AxisPhrase.literals {axis : Axis} (h : AxisPhrase ts axis rest) :
    tokenLiterals ts = tokenLiterals rest := by
  cases h <;> rfl

theorem TestPhrase.literals {test : NodeTest} (h : TestPhrase ts test rest) :
    tokenLiterals ts = tokenLiterals rest := by
  cases h <;> rfl

mutual

theorem LevelPhrase.literals : ∀ {level : Level} {ts rest : List Token} {e : Expr},
    LevelPhrase level ts e rest → tokenLiterals ts = e.literals ++ tokenLiterals rest
  | _, _, _, _, .mk operand more => by rw [operand.literals, more.literals]

theorem MorePhrase.literals : ∀ {level : Level} {ts rest : List Token} {left e : Expr},
    MorePhrase level left ts e rest →
      left.literals ++ tokenLiterals ts = e.literals ++ tokenLiterals rest
  | _, _, _, _, _, .none .. => rfl
  | _, _, _, _, _, .operator operator operand more => by
    rw [tokenLiterals_cons operator.literal?_eq, operand.literals, ← List.append_assoc,
      ← operator.literals, more.literals]

theorem OperandPhrase.literals : ∀ {level : Level} {ts rest : List Token} {e : Expr},
    OperandPhrase level ts e rest → tokenLiterals ts = e.literals ++ tokenLiterals rest
  | _, _, _, _, .disjunction phrase => phrase.literals
  | _, _, _, _, .conjunction phrase => phrase.literals
  | _, _, _, _, .equality phrase => phrase.literals
  | _, _, _, _, .relation phrase => phrase.literals
  | _, _, _, _, .union phrase => phrase.literals

theorem UnaryPhrase.literals : ∀ {ts rest : List Token} {e : Expr},
    UnaryPhrase ts e rest → tokenLiterals ts = e.literals ++ tokenLiterals rest
  | _, _, _, .minus phrase => phrase.literals
  | _, _, _, .union phrase => phrase.literals

theorem PathPhrase.literals : ∀ {ts rest : List Token} {e : Expr},
    PathPhrase ts e rest → tokenLiterals ts = e.literals ++ tokenLiterals rest
  | _, _, _, .root .. => rfl
  | _, _, _, .absolute phrase => phrase.literals
  | _, _, _, .everywhere phrase => phrase.literals
  | _, _, _, .relative phrase => phrase.literals
  | _, _, _, .filter phrase predicated onward => by
    rw [phrase.literals, predicated.literals, onward.literals, literals_filtered, List.append_assoc,
      List.append_assoc]

theorem OnwardPhrase.literals : ∀ {ts rest : List Token} {steps : List Step},
    OnwardPhrase ts steps rest → tokenLiterals ts = stepLiterals steps ++ tokenLiterals rest
  | _, _, _, .none .. => rfl
  | _, _, _, .child phrase => phrase.literals
  | _, _, _, .everywhere phrase => phrase.literals

theorem PrimaryPhrase.literals : ∀ {ts rest : List Token} {e : Expr},
    PrimaryPhrase ts e rest → tokenLiterals ts = e.literals ++ tokenLiterals rest
  | _, _, _, .literal .. => rfl
  | _, _, _, .number .. => rfl
  | _, _, _, .parentheses phrase => phrase.literals
  | _, _, _, .constant .. => rfl
  | _, _, _, .call _ phrase => phrase.literals

theorem ArgumentsPhrase.literals : ∀ {ts rest : List Token} {arguments : List Expr},
    ArgumentsPhrase ts arguments rest →
      tokenLiterals ts = exprLiterals arguments ++ tokenLiterals rest
  | _, _, _, .last phrase => by simpa [exprLiterals] using phrase.literals
  | _, _, _, .cons phrase more => by
    rw [phrase.literals, tokenLiterals_cons rfl, more.literals, exprLiterals, List.append_assoc]

theorem StepsPhrase.literals : ∀ {ts rest : List Token} {steps : List Step},
    StepsPhrase ts steps rest → tokenLiterals ts = stepLiterals steps ++ tokenLiterals rest
  | _, _, _, .last phrase => by simpa [stepLiterals] using phrase.literals
  | _, _, _, .child phrase more => by
    rw [phrase.literals, tokenLiterals_cons rfl, more.literals, stepLiterals, List.append_assoc]
  | _, _, _, .everywhere phrase more => by
    rw [phrase.literals, tokenLiterals_cons rfl, more.literals, stepLiterals, stepLiterals,
      literals_everyBelow, List.nil_append, List.append_assoc]

theorem StepPhrase.literals : ∀ {ts rest : List Token} {step : Step},
    StepPhrase ts step rest → tokenLiterals ts = step.literals ++ tokenLiterals rest
  | _, _, _, .here predicated => predicated.literals
  | _, _, _, .parent predicated => predicated.literals
  | _, _, _, .tested along tested predicated => by
    rw [along.literals, tested.literals, predicated.literals, Step.literals]

theorem PredicatesPhrase.literals : ∀ {ts rest : List Token} {predicates : List Expr},
    PredicatesPhrase ts predicates rest →
      tokenLiterals ts = exprLiterals predicates ++ tokenLiterals rest
  | _, _, _, .none .. => rfl
  | _, _, _, .cons phrase more => by
    rw [tokenLiterals_cons rfl, phrase.literals, tokenLiterals_cons rfl, more.literals, exprLiterals,
      List.append_assoc]

end

/-- What an expression is read from is the spelling of tokens with its literals, in which equality signs are
kept apart. -/
theorem exists_spelling {s : String} (h : Expr.parse (Text.trim s) = .ok e) :
    ∃ ts, SpellsText ts s.toList ∧ Apart ts ∧ tokenLiterals ts = e.literals := by
  obtain ⟨ts, hts, h⟩ := bind_eq_ok.1 h
  refine ⟨ts, (spellsText_of_tokensIn hts).of_trim, ?_⟩
  split at h
  next hempty =>
    cases h
    rw [List.isEmpty_iff] at hempty
    subst hempty
    exact ⟨.nil, rfl⟩
  next =>
    have hphrase : LevelPhrase .disjunction ts e [] := derives_of_ofTokens h
    exact ⟨(hphrase.apart .nil).tail, hphrase.literals.trans (List.append_nil _)⟩

end XPath

/-! ## Relations that are taken for joins -/

open Crosswalk.XPath

variable {relation key : String} {e : Expr}

/-- Two equality signs stand in the text where no quotation mark is open. -/
def EquatesOutside (s : String) : Prop :=
  ∃ before after, s.toList = before ++ '=' :: '=' :: after ∧ openQuote before = none

/-- Two equality signs stand in the text within a quotation. -/
def EquatesInside (s : String) : Prop :=
  ∃ before after, s.toList = before ++ '=' :: '=' :: after ∧ openQuote before ≠ none

theorem occurs_equals_iff {s : String} :
    Text.occurs "==" s = true ↔ EquatesOutside s ∨ EquatesInside s := by
  have hoccurs : Text.occurs "==" s = true ↔
      ∃ before after, s.toList = before ++ '=' :: '=' :: after := by
    simp [Text.occurs_iff]
  rw [hoccurs, EquatesOutside, EquatesInside]
  constructor
  · rintro ⟨before, after, h⟩
    by_cases hopen : openQuote before = none
    · exact .inl ⟨before, after, h, hopen⟩
    · exact .inr ⟨before, after, h, hopen⟩
  · rintro (⟨before, after, h, -⟩ | ⟨before, after, h, -⟩)
    · exact ⟨before, after, h⟩
    · exact ⟨before, after, h⟩

theorem not_equatesOutside_of_parse (h : Expr.parse (Text.trim relation) = .ok e) :
    ¬ EquatesOutside relation := by
  rintro ⟨before, after, hrelation, hopen⟩
  obtain ⟨ts, hspells, apart, -⟩ := exists_spelling h
  exact (hspells.exists_literal apart hrelation).1 hopen

/-- Two equality signs in an expression are in the text of a literal, and the other way round. -/
theorem occurs_iff_exists_literal (h : Expr.parse (Text.trim relation) = .ok e) :
    Text.occurs "==" relation = true ↔ ∃ text ∈ e.literals, Text.occurs "==" text = true := by
  obtain ⟨ts, hspells, apart, hliterals⟩ := exists_spelling h
  constructor
  · intro hoccurs
    obtain ⟨before, after, hrelation⟩ := Text.occurs_iff.1 hoccurs
    obtain ⟨-, text, hmem, htext⟩ := hspells.exists_literal apart (by simpa using hrelation)
    exact ⟨text, hliterals ▸ mem_tokenLiterals_iff.2 hmem, htext⟩
  · rintro ⟨text, hmem, htext⟩
    rw [← hliterals, mem_tokenLiterals_iff] at hmem
    obtain ⟨before, after, hrelation⟩ := hspells.infix_of_mem hmem
    obtain ⟨left, right, htext⟩ := Text.occurs_iff.1 htext
    refine Text.occurs_iff.2 ⟨before ++ left, right ++ after, ?_⟩
    rw [← hrelation, htext]
    simp

/-! ## Following such a relation -/

theorem expression_single (relation : String) :
    SourceRelation.expression ⟨[relation], []⟩ = Text.trim relation := by
  rw [SourceRelation.expression, SourceRelation.interleave, List.map_singleton]
  by_cases h : (Text.trim relation).isEmpty = true
  · rw [List.filter_cons_of_neg (by simp [h]), String.isEmpty_iff.1 h]
    rfl
  · rw [List.filter_cons_of_pos (by simp [h])]
    rfl

/-- The source key is what stands in front of the first two equality signs. -/
theorem exists_cut_of_keys {keys : KeyPair} (h : KeyPair.ofRelation? relation = some keys) :
    ∃ before after, relation.toList = before ++ '=' :: '=' :: after ∧
      keys.source = Text.trim (String.ofList before) := by
  unfold KeyPair.ofRelation? at h
  split at h
  next left right hcut =>
    obtain ⟨⟨before, after⟩, hchars, heq⟩ := Option.map_eq_some_iff.1 hcut
    cases heq
    dsimp only at h
    split at h
    · cases h
    · cases h
      exact ⟨before, after, by simpa using Text.cutChars?_eq_append hchars, rfl⟩
  next => cases h

/-- The key of an expression ends within a quotation, and so it cannot be read. -/
theorem exists_fault_of_keys {keys : KeyPair} (h : Expr.parse (Text.trim relation) = .ok e)
    (hkeys : KeyPair.ofRelation? relation = some keys) :
    ∃ fault, Expr.parse (Text.trim keys.source) = .error fault := by
  cases hparse : Expr.parse (Text.trim keys.source) with
  | error fault => exact ⟨fault, rfl⟩
  | ok e' =>
    obtain ⟨before, after, hrelation, hsource⟩ := exists_cut_of_keys hkeys
    obtain ⟨ts, hspells, apart, -⟩ := exists_spelling h
    obtain ⟨us, hkey, -⟩ := exists_spelling hparse
    rw [hsource] at hkey
    have hopen : openQuote before = none := by
      simpa using hkey.of_trim.openQuote_eq
    exact absurd hopen (hspells.exists_literal apart hrelation).1

namespace Run

variable {l : LinkSetting} {s : RunState}

theorem outcome_followLink_path (hmerge : l.link.target.isMerge = false)
    (hjoin : l.link.source.isJoin = false) :
    outcome (followLink l) s =
      outcome (do
        let nodes ← ofSetup
          (l.scene.source.select (s.contexts.get l.domain).node l.link.source.expression)
        linkPaths l false 1 nodes) s := by
  rw [followLink, outcome_bind, outcome_context, hmerge, hjoin]
  rfl

theorem outcome_followLink_join (hmerge : l.link.target.isMerge = false)
    (hjoin : l.link.source.isJoin = true) :
    outcome (followLink l) s =
      outcome (do
        let join ← ofSetup l.link.source.join
        let nodes ← joinRanges l join (s.contexts.get l.domain).node
        linkPaths l true 1 nodes) s := by
  rw [followLink, outcome_bind, outcome_context, hmerge, hjoin]
  rfl

/-- An expression that is taken for a join ends the run where it is followed. -/
theorem followLink_of_parse (h : Expr.parse (Text.trim relation) = .ok e)
    (hsource : l.link.source = ⟨[relation], []⟩) (hmerge : l.link.target.isMerge = false)
    (hjoin : l.link.source.isJoin = true) :
    ∃ e', outcome (followLink l) s = (.error (.setup e'), s) ∧
      (e' = .malformedJoin l.link.source.expression ∨
        ∃ key fault, e' = .expression key fault ∧ Expr.parse key = .error fault) := by
  rw [outcome_followLink_join hmerge hjoin, outcome_bind, outcome_ofSetup]
  cases hkeys : KeyPair.ofRelation? relation with
  | none =>
    have hjoined : l.link.source.join = .error (.malformedJoin l.link.source.expression) := by
      simp only [hsource, SourceRelation.join, SourceRelation.join?, hkeys, Option.map_none]
    rw [hjoined]
    exact ⟨_, rfl, .inl rfl⟩
  | some keys =>
    have hjoined : l.link.source.join = .ok ⟨keys, none⟩ := by
      simp only [hsource, SourceRelation.join, SourceRelation.join?, hkeys, Option.map_some]
    obtain ⟨fault, hfault⟩ := exists_fault_of_keys h hkeys
    have hscalar : l.scene.source.scalar (s.contexts.get l.domain).node keys.source =
        .error (.expression (Text.trim keys.source) fault) := by
      rw [Source.scalar, Source.evaluate, hfault]
      rfl
    refine ⟨_, ?_, .inr ⟨_, _, rfl, hfault⟩⟩
    simp only [hjoined, Except.mapError, outcome_bind, joinRanges, outcome_ofSetup, hscalar]

end Run

namespace SourceRelation

open Crosswalk.Run

/-- A relation is taken for a join if two equality signs stand in it, also if they stand within a quotation. An
expression never has them outside of one. So it is taken for a join just if one of its literals has them, and then
following it ends the run, with the fault that the join is malformed or that its key is no expression. All
other expressions are followed as paths. -/
theorem isJoin_single_iff (relation : String) :
    let r : SourceRelation := ⟨[relation], []⟩
    (r.isJoin = true ↔ EquatesOutside relation ∨ EquatesInside relation) ∧
    ∀ e, Expr.parse r.expression = .ok e →
      ¬ EquatesOutside relation ∧
      (r.isJoin = true ↔ ∃ text ∈ e.literals, Text.occurs "==" text = true) ∧
      ∀ (l : LinkSetting) (s : RunState), l.link.source = r → l.link.target.isMerge = false →
        (r.isJoin = false → outcome (followLink l) s =
          outcome (do
            let nodes ← ofSetup (l.scene.source.select (s.contexts.get l.domain).node r.expression)
            linkPaths l false 1 nodes) s) ∧
        (r.isJoin = true → ∃ e', outcome (followLink l) s = (.error (.setup e'), s) ∧
          (e' = .malformedJoin r.expression ∨
            ∃ key fault, e' = .expression key fault ∧ Expr.parse key = .error fault)) := by
  intro r
  have hjoin : r.isJoin = Text.occurs "==" relation := Bool.or_false _
  refine ⟨hjoin ▸ occurs_equals_iff, fun e he => ?_⟩
  rw [expression_single] at he
  refine ⟨not_equatesOutside_of_parse he, hjoin ▸ occurs_iff_exists_literal he, ?_⟩
  intro l s hsource hmerge
  rw [← hsource]
  exact ⟨outcome_followLink_path hmerge, followLink_of_parse he hsource hmerge⟩

end SourceRelation

namespace Engine

open Crosswalk.Run

/-- A mapping that links a list to some of its items. -/
def itemsEngine (relation : String) : Engine :=
  let thing : Entity := ⟨["<urn:Thing>"], some ⟨"UUID", []⟩, [], [], none, none⟩
  let link : Link :=
    ⟨⟨[relation], []⟩, ⟨none, ["<urn:has>"], []⟩, ⟨relation, ⟨thing, none⟩⟩, none, false⟩
  ⟨⟨.builtin, [⟨⟨"/list", ⟨thing, none⟩, none⟩, [link], none, false⟩]⟩, .empty, none,
    { Settings.default with uuidWidth? := some 2 }⟩

def itemsDocument : Xml.Document :=
  let item (type : String) : Xml.Content :=
    .element ⟨none, "item"⟩ [] [⟨⟨none, "type"⟩, type⟩] []
  ⟨[.element ⟨none, "list"⟩ [] [] [item "a", item "a==b"]]⟩

def itemsLink (relation : String) : LinkSetting :=
  let engine := itemsEngine relation
  ⟨⟨engine, engine.source itemsDocument⟩, ⟨1, some 1⟩, engine.mapping.mappings.head!,
    engine.mapping.mappings.head!.links.head!, 0, none, none⟩

/-- The items whose type is that text. -/
def itemsOfType (type : String) : Expr :=
  .path false [⟨.child, .name none "item",
    [.compare .equal (.path false [⟨.attributes, .name none "type", []⟩]) (.literal type)]⟩]

theorem parse_itemsOfType {relation type : String} (h : tokens relation =
      .ok [.name "item", .openBracket, .atSign, .name "type", .equal, .literal type, .closeBracket]) :
    Expr.parse relation = .ok (itemsOfType type) :=
  bind_eq_ok.2 ⟨_, h, rfl⟩

/-- The list has been entered. -/
def listState : RunState :=
  after (enter (.fresh .domain (.ofPath [0]) 1 none)) (.initial (.alphabetic 2 0))

/-- A single equality sign makes no join. -/
theorem isJoin_single_iff_item :
    let relation := "item[@type='a']"
    let r : SourceRelation := ⟨[relation], []⟩
    let l := itemsLink relation
    (Expr.parse r.expression = .ok (itemsOfType "a") ∧ l.link.source = r ∧
      l.link.target.isMerge = false ∧ r.isJoin = false) ∧
    ¬ EquatesOutside relation ∧
    outcome (followLink l) listState = outcome (linkPaths l false 1 [.ofPath [0, 0]]) listState := by
  intro relation r l
  have hparse : Expr.parse r.expression = .ok (itemsOfType "a") :=
    parse_itemsOfType (by decide +kernel)
  have hmerge : l.link.target.isMerge = false := by decide +kernel
  have hjoin : r.isJoin = false := by decide +kernel
  have hnodes : l.scene.source.select (listState.contexts.get l.domain).node r.expression =
      .ok [.ofPath [0, 0]] := by decide +kernel
  obtain ⟨houtside, -, hfollow⟩ := (SourceRelation.isJoin_single_iff relation).2 _ hparse
  refine ⟨⟨hparse, rfl, hmerge, hjoin⟩, houtside, ((hfollow l _ rfl hmerge).1 hjoin).trans ?_⟩
  rw [outcome_bind, hnodes]
  rfl

/-- The second item is selected by its type, but as a relation this ends the run. -/
theorem isJoin_of_quoted_equals :
    let relation := "item[@type='a==b']"
    let r : SourceRelation := ⟨[relation], []⟩
    Expr.parse r.expression = .ok (itemsOfType "a==b") ∧ r.isJoin = true ∧
      ¬ EquatesOutside relation ∧
      ((itemsEngine relation).source itemsDocument).select (.ofPath [0]) relation =
        .ok [.ofPath [0, 1]] ∧
      (itemsEngine relation).execute [] itemsDocument =
        .error (.setup (.expression "item[@type='a" .unterminatedLiteral)) := by
  intro relation r
  have hparse : Expr.parse r.expression = .ok (itemsOfType "a==b") :=
    parse_itemsOfType (by decide +kernel)
  have hparse' : Expr.parse (Text.trim relation) = .ok (itemsOfType "a==b") :=
    parse_itemsOfType (by decide +kernel)
  refine ⟨hparse, by decide +kernel, not_equatesOutside_of_parse hparse', by decide +kernel, ?_⟩
  rw [← faultOf?_eq_some_iff]
  decide +kernel

end Engine

end Crosswalk
