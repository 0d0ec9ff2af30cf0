import Crosswalk.Text.Search
import Crosswalk.XPath.Expr
import Crosswalk.XPath.Token

/-!
# Reading path expressions

A recursive descent over the tokens. Binary operators stand on levels, each weaker than the one
above it, and all associate to the left; unary minus stands between the comparisons and the
union. The fuel bounds the depth of the descent: at most fourteen calls follow each other without
taking a token, so the fuel that `Expr.parse` starts with is never used up.
-/

namespace Crosswalk.XPath

/-- The levels of the binary operators, from the weakest. -/
inductive Level where
  | disjunction
  | conjunction
  | equality
  | relation
  | union
  deriving DecidableEq, Repr

def Level.operator? : Level → Token → Option (Expr → Expr → Expr)
  | disjunction, .name "or" => some .or
  | conjunction, .name "and" => some .and
  | equality, .equal => some (.compare .equal)
  | equality, .notEqual => some (.compare .notEqual)
  | relation, .less => some (.compare .less)
  | relation, .lessEqual => some (.compare .lessEqual)
  | relation, .greater => some (.compare .greater)
  | relation, .greaterEqual => some (.compare .greaterEqual)
  | union, .bar => some .union
  | _, _ => none

def kindTest? : String → Option NodeTest
  | "text" => some .text
  | "node" => some .node
  | "comment" => some .comment
  | _ => none

def nameTest (name : String) : NodeTest :=
  match Text.dropEnd? ":*" name with
  | some a => .anyIn a
  | none =>
    match Text.cut? ":" name with
    | some (a, l) => .name (some a) l
    | none => .name none name

def startsStep : List Token → Bool
  | .dot :: _ | .dotDot :: _ | .atSign :: _ | .star :: _ | .name _ :: _ => true
  | _ => false

def startsPrimary : List Token → Bool
  | .literal _ :: _ | .number _ :: _ | .openParen :: _ => true
  | .name n :: .openParen :: _ => (kindTest? n).isNone
  | _ => false

def expect (wanted : Token) : List Token → Except Fault (List Token)
  | t :: rest => if t = wanted then .ok rest else .error (.expected wanted (some t))
  | [] => .error (.expected wanted none)

def parseAxis : List Token → Except Fault (Axis × List Token)
  | .atSign :: rest => .ok (.attributes, rest)
  | .name n :: .axisMark :: rest =>
    match Axis.ofName? n with
    | some a => .ok (a, rest)
    | none => .error (.unknownAxis n)
  | ts => .ok (.child, ts)

def parseTest : List Token → Except Fault (NodeTest × List Token)
  | .star :: rest => .ok (.any, rest)
  | .name n :: .openParen :: rest =>
    match kindTest? n with
    | some test => do .ok (test, ← expect .closeParen rest)
    | none => .error (.functionAsStep n)
  | .name n :: rest => .ok (nameTest n, rest)
  | ts => .error (.noNodeTest ts.head?)

mutual

/-- An expression of a level: operands of the level above, joined by operators of this one. -/
def parseLevel : Nat → Level → List Token → Except Fault (Expr × List Token)
  | 0, _, ts => .error (.noPrimary ts.head?)
  | fuel + 1, level, ts => do
    let (left, rest) ← parseOperand fuel level ts
    parseMore fuel level left rest

def parseMore : Nat → Level → Expr → List Token → Except Fault (Expr × List Token)
  | 0, _, _, ts => .error (.noPrimary ts.head?)
  | _ + 1, _, left, [] => .ok (left, [])
  | fuel + 1, level, left, t :: rest =>
    match level.operator? t with
    | some build => do
      let (right, rest) ← parseOperand fuel level rest
      parseMore fuel level (build left right) rest
    | none => .ok (left, t :: rest)

def parseOperand : Nat → Level → List Token → Except Fault (Expr × List Token)
  | 0, _, ts => .error (.noPrimary ts.head?)
  | fuel + 1, .disjunction, ts => parseLevel fuel .conjunction ts
  | fuel + 1, .conjunction, ts => parseLevel fuel .equality ts
  | fuel + 1, .equality, ts => parseLevel fuel .relation ts
  | fuel + 1, .relation, ts => parseUnary fuel ts
  | fuel + 1, .union, ts => parsePath fuel ts

def parseUnary : Nat → List Token → Except Fault (Expr × List Token)
  | 0, ts => .error (.noPrimary ts.head?)
  | fuel + 1, .minus :: rest => do
    let (operand, rest) ← parseUnary fuel rest
    .ok (.negate operand, rest)
  | fuel + 1, ts => parseLevel fuel .union ts

/-- A location path, or a primary expression with what follows it. -/
def parsePath : Nat → List Token → Except Fault (Expr × List Token)
  | 0, ts => .error (.noPrimary ts.head?)
  | fuel + 1, .slash :: rest =>
    if startsStep rest then do
      let (steps, rest) ← parseSteps fuel rest
      .ok (.path true steps, rest)
    else .ok (.path true [], rest)
  | fuel + 1, .doubleSlash :: rest => do
    let (steps, rest) ← parseSteps fuel rest
    .ok (.path true (.everyBelow :: steps), rest)
  | fuel + 1, ts =>
    if startsPrimary ts then parseFilter fuel ts
    else do
      let (steps, rest) ← parseSteps fuel ts
      .ok (.path false steps, rest)

def parseFilter : Nat → List Token → Except Fault (Expr × List Token)
  | 0, ts => .error (.noPrimary ts.head?)
  | fuel + 1, ts => do
    let (primary, rest) ← parsePrimary fuel ts
    let (predicates, rest) ← parsePredicates fuel rest
    let (steps, rest) ← match rest with
      | .slash :: rest => parseSteps fuel rest
      | .doubleSlash :: rest => do
        let (steps, rest) ← parseSteps fuel rest
        .ok (.everyBelow :: steps, rest)
      | rest => .ok ([], rest)
    if predicates.isEmpty && steps.isEmpty then .ok (primary, rest)
    else .ok (.filter primary predicates steps, rest)

def parsePrimary : Nat → List Token → Except Fault (Expr × List Token)
  | _ + 1, .literal s :: rest => .ok (.literal s, rest)
  | _ + 1, .number n :: rest => .ok (.number n, rest)
  | fuel + 1, .openParen :: rest => do
    let (inner, rest) ← parseLevel fuel .disjunction rest
    .ok (inner, ← expect .closeParen rest)
  | fuel + 1, .name f :: .openParen :: rest =>
    if rest.head? = some .closeParen then .ok (.call f [], rest.drop 1)
    else do
      let (arguments, rest) ← parseArguments fuel rest
      .ok (.call f arguments, ← expect .closeParen rest)
  | _, ts => .error (.noPrimary ts.head?)

def parseArguments : Nat → List Token → Except Fault (List Expr × List Token)
  | 0, ts => .error (.noPrimary ts.head?)
  | fuel + 1, ts => do
    let (first, rest) ← parseLevel fuel .disjunction ts
    match rest with
    | .comma :: rest => do
      let (more, rest) ← parseArguments fuel rest
      .ok (first :: more, rest)
    | rest => .ok ([first], rest)

def parseSteps : Nat → List Token → Except Fault (List Step × List Token)
  | 0, ts => .error (.noPrimary ts.head?)
  | fuel + 1, ts => do
    let (step, rest) ← parseStep fuel ts
    match rest with
    | .slash :: rest => do
      let (more, rest) ← parseSteps fuel rest
      .ok (step :: more, rest)
    | .doubleSlash :: rest => do
      let (more, rest) ← parseSteps fuel rest
      .ok (step :: .everyBelow :: more, rest)
    | rest => .ok ([step], rest)

def parseStep : Nat → List Token → Except Fault (Step × List Token)
  | 0, ts => .error (.noPrimary ts.head?)
  | fuel + 1, .dot :: rest => do
    let (predicates, rest) ← parsePredicates fuel rest
    .ok (⟨.self, .node, predicates⟩, rest)
  | fuel + 1, .dotDot :: rest => do
    let (predicates, rest) ← parsePredicates fuel rest
    .ok (⟨.parent, .node, predicates⟩, rest)
  | fuel + 1, ts => do
    let (axis, rest) ← parseAxis ts
    let (test, rest) ← parseTest rest
    let (predicates, rest) ← parsePredicates fuel rest
    .ok (⟨axis, test, predicates⟩, rest)

def parsePredicates : Nat → List Token → Except Fault (List Expr × List Token)
  | 0, ts => .error (.noPrimary ts.head?)
  | fuel + 1, .openBracket :: rest => do
    let (first, rest) ← parseLevel fuel .disjunction rest
    let rest ← expect .closeBracket rest
    let (more, rest) ← parsePredicates fuel rest
    .ok (first :: more, rest)
  | _ + 1, ts => .ok ([], ts)

end

def Expr.ofTokens (ts : List Token) : Except Fault Expr := do
  let (e, rest) ← parseLevel (16 * (ts.length + 1)) .disjunction ts
  match rest with
  | [] => .ok e
  | t :: _ => .error (.unexpectedRest t (ts.length - rest.length))

/-- Reads an expression; the empty one stands for the context node. -/
def Expr.parse (s : String) : Except Fault Expr := do
  let ts ← tokens s
  if ts.isEmpty then .ok (.path false [.here]) else Expr.ofTokens ts

end Crosswalk.XPath
