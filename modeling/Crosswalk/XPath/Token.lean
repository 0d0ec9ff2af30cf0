import Crosswalk.Number.Text
import Crosswalk.Text.Quoted

/-!
# Tokens of path expressions

The alphabet of the expression grammar, the text by which messages show a token, and the faults an
expression can have. A name is one token with its namespace alias, `a:b` or `a:*`.
-/

namespace Crosswalk.XPath

inductive Token where
  | slash
  | doubleSlash
  | dot
  | dotDot
  | atSign
  | comma
  | openParen
  | closeParen
  | openBracket
  | closeBracket
  | bar
  | star
  | minus
  | equal
  | notEqual
  | less
  | lessEqual
  | greater
  | greaterEqual
  | axisMark
  | literal (text : String)
  | number (value : Number)
  | name (text : String)
  deriving DecidableEq, Repr

def Token.display : Token → String
  | slash => "Slash"
  | doubleSlash => "DoubleSlash"
  | dot => "Dot"
  | dotDot => "DotDot"
  | atSign => "At"
  | comma => "Comma"
  | openParen => "LParen"
  | closeParen => "RParen"
  | openBracket => "LBracket"
  | closeBracket => "RBracket"
  | bar => "Pipe"
  | star => "Star"
  | minus => "Minus"
  | equal => "Eq"
  | notEqual => "Neq"
  | less => "Lt"
  | lessEqual => "Le"
  | greater => "Gt"
  | greaterEqual => "Ge"
  | axisMark => "ColonColon"
  | literal s => "Literal(" ++ Text.quoted s ++ ")"
  | number n => "Number(" ++ n.displayToken ++ ")"
  | name s => "Name(" ++ Text.quoted s ++ ")"

def Token.displayNext : Option Token → String
  | some t => "Some(" ++ t.display ++ ")"
  | none => "None"

/-- What can be wrong with an expression, when it is read or when it is evaluated. -/
inductive Fault where
  | unterminatedLiteral
  | invalidNumber
  | danglingColon (name : String)
  | unexpectedCharacter (c : Char)
  | unexpectedRest (found : Token) (position : Nat)
  | expected (wanted : Token) (found : Option Token)
  | noPrimary (found : Option Token)
  | unknownAxis (name : String)
  | functionAsStep (name : String)
  | noNodeTest (found : Option Token)
  | unionOfValues
  | filterOfValue
  | argumentCount (function : String) (least most given : Nat)
  | fewArguments (function : String) (least : Nat)
  | nodesWanted (function : String)
  | unknownFunction (name : String)
  | selectsNoNodes
  deriving DecidableEq, Repr

def Fault.message : Fault → String
  | unterminatedLiteral => "unterminated string literal"
  | invalidNumber => "invalid float literal"
  | danglingColon name => "dangling ':' after \"" ++ name ++ "\""
  | unexpectedCharacter c => "unexpected character '" ++ c.toString ++ "'"
  | unexpectedRest found position =>
    "unexpected token " ++ found.display ++ " at position " ++ toString position
  | expected wanted (some found) => "expected " ++ wanted.display ++ ", found " ++ found.display
  | expected wanted none => "expected " ++ wanted.display ++ ", found end of expression"
  | noPrimary found => "unexpected token " ++ Token.displayNext found
  | unknownAxis name => "unsupported axis \"" ++ name ++ "\""
  | functionAsStep name => "function \"" ++ name ++ "\" cannot be used as a step"
  | noNodeTest found => "expected a node test, found " ++ Token.displayNext found
  | unionOfValues => "union operands must be node-sets"
  | filterOfValue => "predicates and steps can only follow a node-set"
  | argumentCount function least most given =>
    function ++ "() takes " ++ toString least ++ "..=" ++ toString most ++ " argument(s), got " ++
      toString given
  | fewArguments function least =>
    function ++ "() takes at least " ++ toString least ++ " arguments"
  | nodesWanted function => function ++ "() expects a node-set"
  | unknownFunction name => "unsupported function " ++ name ++ "()"
  | selectsNoNodes => "expression does not select nodes"

/-! ## Cutting an expression into tokens -/

def isNameStart (c : Char) : Bool :=
  Text.isAlphabetic c || c == '_'

def isNameChar (c : Char) : Bool :=
  Text.isAlphanumeric c || c == '_' || c == '-' || c == '.'

def isSpace (c : Char) : Bool :=
  c == ' ' || c == '\t' || c == '\n' || c == '\r'

def numberToken (run : List Char) : Except Fault Token :=
  match Number.read? .double run with
  | some n => .ok (.number n)
  | none => .error .invalidNumber

/-- The rest of a name after its first part: a colon, unless it begins an axis mark, takes the local
name or the star behind it into the name. -/
def nameToken (first rest : List Char) : Except Fault (Token × List Char) :=
  match rest with
  | ':' :: ':' :: _ => .ok (.name (String.ofList first), rest)
  | ':' :: '*' :: after => .ok (.name (String.ofList (first ++ [':', '*'])), after)
  | ':' :: after =>
    if after.head?.any isNameStart then
      .ok (.name (String.ofList (first ++ ':' :: after.takeWhile isNameChar)),
        after.dropWhile isNameChar)
    else .error (.danglingColon (String.ofList first))
  | _ => .ok (.name (String.ofList first), rest)

def nextToken (c : Char) (rest : List Char) : Except Fault (Token × List Char) :=
  match c, rest with
  | '/', '/' :: rest => .ok (.doubleSlash, rest)
  | '/', _ => .ok (.slash, rest)
  | '.', '.' :: rest => .ok (.dotDot, rest)
  | '@', _ => .ok (.atSign, rest)
  | ',', _ => .ok (.comma, rest)
  | '(', _ => .ok (.openParen, rest)
  | ')', _ => .ok (.closeParen, rest)
  | '[', _ => .ok (.openBracket, rest)
  | ']', _ => .ok (.closeBracket, rest)
  | '|', _ => .ok (.bar, rest)
  | '*', _ => .ok (.star, rest)
  | '-', _ => .ok (.minus, rest)
  | '=', _ => .ok (.equal, rest)
  | '!', '=' :: rest => .ok (.notEqual, rest)
  | '<', '=' :: rest => .ok (.lessEqual, rest)
  | '<', _ => .ok (.less, rest)
  | '>', '=' :: rest => .ok (.greaterEqual, rest)
  | '>', _ => .ok (.greater, rest)
  | ':', ':' :: rest => .ok (.axisMark, rest)
  | _, _ =>
    if c == '.' then
      if rest.head?.any Char.isDigit then do
        .ok (← numberToken (c :: rest.takeWhile Char.isDigit), rest.dropWhile Char.isDigit)
      else .ok (.dot, rest)
    else if c == '"' || c == '\'' then
      match rest.dropWhile (· != c) with
      | _ :: after => .ok (.literal (String.ofList (rest.takeWhile (· != c))), after)
      | [] => .error .unterminatedLiteral
    else if c.isDigit then do
      let inNumber := fun d : Char => d.isDigit || d == '.'
      .ok (← numberToken (c :: rest.takeWhile inNumber), rest.dropWhile inNumber)
    else if isNameStart c then
      nameToken (c :: rest.takeWhile isNameChar) (rest.dropWhile isNameChar)
    else .error (.unexpectedCharacter c)

def tokensOf : Nat → List Char → Except Fault (List Token)
  | _, [] => .ok []
  | 0, _ :: _ => .ok []
  | fuel + 1, c :: rest =>
    if isSpace c then tokensOf fuel rest
    else do
      let (token, rest) ← nextToken c rest
      let more ← tokensOf fuel rest
      .ok (token :: more)

def tokens (s : String) : Except Fault (List Token) :=
  tokensOf s.toList.length s.toList

end Crosswalk.XPath
