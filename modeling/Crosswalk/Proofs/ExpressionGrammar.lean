import Crosswalk.XPath.Parser

/-!
# The grammar of path expressions

What an expression is, said without a parser. A phrase relates the tokens that it begins, its tree, and
the tokens that come after it: `LevelPhrase level ts e rest` says that `ts` begins with an
expression of the level, that this expression has the tree `e`, and that `rest` follows. Every rule reads
as the production that it stands for. The binary operators of a level are a list of operands with
operators between them, folded to the left.

What comes after a phrase only matters in one place: a slash stands for the document node alone if no
step can begin behind it.
-/

namespace Crosswalk.XPath

/-! ## Words -/

/-- The operators of each level, with the trees that they build. -/
inductive Operator : Level → Token → (Expr → Expr → Expr) → Prop
  | or : Operator .disjunction (.name "or") .or
  | and : Operator .conjunction (.name "and") .and
  | equal : Operator .equality .equal (.compare .equal)
  | notEqual : Operator .equality .notEqual (.compare .notEqual)
  | less : Operator .relation .less (.compare .less)
  | lessEqual : Operator .relation .lessEqual (.compare .lessEqual)
  | greater : Operator .relation .greater (.compare .greater)
  | greaterEqual : Operator .relation .greaterEqual (.compare .greaterEqual)
  | union : Operator .union .bar .union

/-- The names that make a node test together with a pair of parentheses, and so call no function. -/
inductive KindName : String → NodeTest → Prop
  | text : KindName "text" .text
  | node : KindName "node" .node
  | comment : KindName "comment" .comment

inductive AxisName : String → Axis → Prop
  | child : AxisName "child" .child
  | descendant : AxisName "descendant" .descendant
  | descendantOrSelf : AxisName "descendant-or-self" .descendantOrSelf
  | self : AxisName "self" .self
  | parent : AxisName "parent" .parent
  | ancestor : AxisName "ancestor" .ancestor
  | ancestorOrSelf : AxisName "ancestor-or-self" .ancestorOrSelf
  | attribute : AxisName "attribute" .attributes
  | followingSibling : AxisName "following-sibling" .followingSibling
  | precedingSibling : AxisName "preceding-sibling" .precedingSibling

/-- The node test that a name stands for. The alias of a qualified name ends at its first colon; a name
that ends in a colon and a star asks for all names of a namespace. -/
inductive NameForm : String → NodeTest → Prop
  | wildcard (a : String) : NameForm (a ++ ":*") (.anyIn a)
  | qualified (a l : String) (first : ':' ∉ a.toList) (named : ∀ b, a ++ ":" ++ l ≠ b ++ ":*") :
    NameForm (a ++ ":" ++ l) (.name (some a) l)
  | plain (n : String) (whole : ':' ∉ n.toList) : NameForm n (.name none n)

/-- The tokens with which a step can begin. -/
inductive BeginsStep : Token → Prop
  | dot : BeginsStep .dot
  | dotDot : BeginsStep .dotDot
  | atSign : BeginsStep .atSign
  | star : BeginsStep .star
  | name (n : String) : BeginsStep (.name n)

/-! ## Phrases -/

inductive AxisPhrase : List Token → Axis → List Token → Prop
  | omitted (rest : List Token) : AxisPhrase rest .child rest
  | atSign (rest : List Token) : AxisPhrase (.atSign :: rest) .attributes rest
  | named {n : String} {axis : Axis} (name : AxisName n axis) (rest : List Token) :
    AxisPhrase (.name n :: .axisMark :: rest) axis rest

inductive TestPhrase : List Token → NodeTest → List Token → Prop
  | star (rest : List Token) : TestPhrase (.star :: rest) .any rest
  | name {n : String} {test : NodeTest} (form : NameForm n test) (rest : List Token) :
    TestPhrase (.name n :: rest) test rest
  | kind {n : String} {test : NodeTest} (name : KindName n test) (rest : List Token) :
    TestPhrase (.name n :: .openParen :: .closeParen :: rest) test rest

/-- A primary expression that nothing follows stands for itself. -/
def filtered (primary : Expr) : List Expr → List Step → Expr
  | [], [] => primary
  | predicates, steps => .filter primary predicates steps

mutual

/-- Operands, with the operators of the level between them. -/
inductive LevelPhrase : Level → List Token → Expr → List Token → Prop
  | mk {level : Level} {ts us rest : List Token} {first e : Expr}
      (operand : OperandPhrase level ts first us) (more : MorePhrase level first us e rest) :
    LevelPhrase level ts e rest

/-- Operators and operands behind an operand. -/
inductive MorePhrase : Level → Expr → List Token → Expr → List Token → Prop
  | none (level : Level) (left : Expr) (rest : List Token) : MorePhrase level left rest left rest
  | operator {level : Level} {t : Token} {build : Expr → Expr → Expr} {left right e : Expr}
      {ts us rest : List Token} (operator : Operator level t build)
      (operand : OperandPhrase level ts right us)
      (more : MorePhrase level (build left right) us e rest) :
    MorePhrase level left (t :: ts) e rest

/-- An operand is an expression of the level above. -/
inductive OperandPhrase : Level → List Token → Expr → List Token → Prop
  | disjunction {ts rest : List Token} {e : Expr} (phrase : LevelPhrase .conjunction ts e rest) :
    OperandPhrase .disjunction ts e rest
  | conjunction {ts rest : List Token} {e : Expr} (phrase : LevelPhrase .equality ts e rest) :
    OperandPhrase .conjunction ts e rest
  | equality {ts rest : List Token} {e : Expr} (phrase : LevelPhrase .relation ts e rest) :
    OperandPhrase .equality ts e rest
  | relation {ts rest : List Token} {e : Expr} (phrase : UnaryPhrase ts e rest) :
    OperandPhrase .relation ts e rest
  | union {ts rest : List Token} {e : Expr} (phrase : PathPhrase ts e rest) :
    OperandPhrase .union ts e rest

inductive UnaryPhrase : List Token → Expr → List Token → Prop
  | minus {ts rest : List Token} {e : Expr} (phrase : UnaryPhrase ts e rest) :
    UnaryPhrase (.minus :: ts) (.negate e) rest
  | union {ts rest : List Token} {e : Expr} (phrase : LevelPhrase .union ts e rest) :
    UnaryPhrase ts e rest

/-- A location path, or a primary expression with its predicates and the steps behind it. -/
inductive PathPhrase : List Token → Expr → List Token → Prop
  | root (rest : List Token) (alone : ∀ t ∈ rest.head?, ¬ BeginsStep t) :
    PathPhrase (.slash :: rest) (.path true []) rest
  | absolute {ts rest : List Token} {steps : List Step} (phrase : StepsPhrase ts steps rest) :
    PathPhrase (.slash :: ts) (.path true steps) rest
  | everywhere {ts rest : List Token} {steps : List Step} (phrase : StepsPhrase ts steps rest) :
    PathPhrase (.doubleSlash :: ts) (.path true (.everyBelow :: steps)) rest
  | relative {ts rest : List Token} {steps : List Step} (phrase : StepsPhrase ts steps rest) :
    PathPhrase ts (.path false steps) rest
  | filter {ts us vs rest : List Token} {primary : Expr} {predicates : List Expr}
      {steps : List Step} (phrase : PrimaryPhrase ts primary us)
      (predicated : PredicatesPhrase us predicates vs) (onward : OnwardPhrase vs steps rest) :
    PathPhrase ts (filtered primary predicates steps) rest

/-- The steps behind a primary expression, if there are any. -/
inductive OnwardPhrase : List Token → List Step → List Token → Prop
  | none (rest : List Token) : OnwardPhrase rest [] rest
  | child {ts rest : List Token} {steps : List Step} (phrase : StepsPhrase ts steps rest) :
    OnwardPhrase (.slash :: ts) steps rest
  | everywhere {ts rest : List Token} {steps : List Step} (phrase : StepsPhrase ts steps rest) :
    OnwardPhrase (.doubleSlash :: ts) (.everyBelow :: steps) rest

inductive PrimaryPhrase : List Token → Expr → List Token → Prop
  | literal (s : String) (rest : List Token) :
    PrimaryPhrase (.literal s :: rest) (.literal s) rest
  | number (n : Number) (rest : List Token) :
    PrimaryPhrase (.number n :: rest) (.number n) rest
  | parentheses {ts rest : List Token} {e : Expr}
      (phrase : LevelPhrase .disjunction ts e (.closeParen :: rest)) :
    PrimaryPhrase (.openParen :: ts) e rest
  | constant (f : String) (function : ∀ test, ¬ KindName f test) (rest : List Token) :
    PrimaryPhrase (.name f :: .openParen :: .closeParen :: rest) (.call f []) rest
  | call {f : String} {ts rest : List Token} {arguments : List Expr}
      (function : ∀ test, ¬ KindName f test)
      (phrase : ArgumentsPhrase ts arguments (.closeParen :: rest)) :
    PrimaryPhrase (.name f :: .openParen :: ts) (.call f arguments) rest

inductive ArgumentsPhrase : List Token → List Expr → List Token → Prop
  | last {ts rest : List Token} {e : Expr} (phrase : LevelPhrase .disjunction ts e rest) :
    ArgumentsPhrase ts [e] rest
  | cons {ts us rest : List Token} {e : Expr} {arguments : List Expr}
      (phrase : LevelPhrase .disjunction ts e (.comma :: us))
      (more : ArgumentsPhrase us arguments rest) :
    ArgumentsPhrase ts (e :: arguments) rest

inductive StepsPhrase : List Token → List Step → List Token → Prop
  | last {ts rest : List Token} {step : Step} (phrase : StepPhrase ts step rest) :
    StepsPhrase ts [step] rest
  | child {ts us rest : List Token} {step : Step} {steps : List Step}
      (phrase : StepPhrase ts step (.slash :: us)) (more : StepsPhrase us steps rest) :
    StepsPhrase ts (step :: steps) rest
  | everywhere {ts us rest : List Token} {step : Step} {steps : List Step}
      (phrase : StepPhrase ts step (.doubleSlash :: us)) (more : StepsPhrase us steps rest) :
    StepsPhrase ts (step :: .everyBelow :: steps) rest

inductive StepPhrase : List Token → Step → List Token → Prop
  | here {ts rest : List Token} {predicates : List Expr}
      (predicated : PredicatesPhrase ts predicates rest) :
    StepPhrase (.dot :: ts) ⟨.self, .node, predicates⟩ rest
  | parent {ts rest : List Token} {predicates : List Expr}
      (predicated : PredicatesPhrase ts predicates rest) :
    StepPhrase (.dotDot :: ts) ⟨.parent, .node, predicates⟩ rest
  | tested {ts us vs rest : List Token} {axis : Axis} {test : NodeTest} {predicates : List Expr}
      (along : AxisPhrase ts axis us) (tested : TestPhrase us test vs)
      (predicated : PredicatesPhrase vs predicates rest) :
    StepPhrase ts ⟨axis, test, predicates⟩ rest

inductive PredicatesPhrase : List Token → List Expr → List Token → Prop
  | none (rest : List Token) : PredicatesPhrase rest [] rest
  | cons {ts us rest : List Token} {e : Expr} {predicates : List Expr}
      (phrase : LevelPhrase .disjunction ts e (.closeBracket :: us))
      (more : PredicatesPhrase us predicates rest) :
    PredicatesPhrase (.openBracket :: ts) (e :: predicates) rest

end

/-- The tokens are an expression, and `e` is its tree. -/
def Derives (ts : List Token) (e : Expr) : Prop :=
  LevelPhrase .disjunction ts e []

end Crosswalk.XPath
