/-!
# JSON texts

The values that reports are written as, and their text: members on lines of their own, two spaces of
indentation a level. Strings escape what JSON demands and nothing else.
-/

namespace Crosswalk

inductive Json where
  | null
  | number (n : Nat)
  | string (s : String)
  | array (items : List Json)
  | object (members : List (String × Json))
  deriving Repr, Inhabited

namespace Json

def escapeChar (c : Char) : List Char :=
  match c with
  | '"' => ['\\', '"']
  | '\\' => ['\\', '\\']
  | '\n' => ['\\', 'n']
  | '\r' => ['\\', 'r']
  | '\t' => ['\\', 't']
  | '\x08' => ['\\', 'b']
  | '\x0c' => ['\\', 'f']
  | c =>
    if c.toNat < 0x20 then
      let digits := Nat.toDigits 16 c.toNat
      '\\' :: 'u' :: (List.replicate (4 - digits.length) '0' ++ digits)
    else [c]

def quote (s : String) : String :=
  "\"" ++ String.ofList (s.toList.flatMap escapeChar) ++ "\""

def newline (level : Nat) : String :=
  "\n" ++ String.ofList (List.replicate (2 * level) ' ')

def block (level : Nat) (opening closing : String) (items : List String) : String :=
  if items.isEmpty then opening ++ closing
  else
    opening ++ newline (level + 1) ++ ("," ++ newline (level + 1)).intercalate items ++
      newline level ++ closing

mutual

def render (level : Nat) : Json → String
  | null => "null"
  | number n => toString n
  | string s => quote s
  | array items => block level "[" "]" (renderItems (level + 1) items)
  | object members => block level "\x7b" "\x7d" (renderMembers (level + 1) members)

def renderItems (level : Nat) : List Json → List String
  | [] => []
  | j :: rest => render level j :: renderItems level rest

def renderMembers (level : Nat) : List (String × Json) → List String
  | [] => []
  | (key, j) :: rest => (quote key ++ ": " ++ render level j) :: renderMembers level rest

end

def text (j : Json) : String :=
  render 0 j

end Json

end Crosswalk
