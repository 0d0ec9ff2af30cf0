import Crosswalk.Text.Search
import Crosswalk.Xml.Chars

/-!
# The pieces of a document

A document is first cut into pieces: tags, stretches of text, marked sections, comments and
instructions. Nesting and namespaces are not looked at here, and neither are references, so a text
and an attribute value are kept as they are written.
-/

namespace Crosswalk.Xml

/-- A name as written: what stands before the colon, and what after it. -/
structure WrittenName where
  qualifier : String
  base : String
  deriving DecidableEq, Repr, Inhabited

structure WrittenAttribute where
  name : WrittenName
  value : List Char
  deriving Repr, Inhabited

inductive Markup where
  | openTag (name : WrittenName) (attributes : List WrittenAttribute) (closed : Bool)
  | closeTag (name : WrittenName)
  | text (written : List Char)
  | marked (written : List Char)
  | comment (written : List Char)
  | instruction (target : String) (data : Option String)
  deriving Repr, Inhabited

namespace Markup

def skipSpaces (cs : List Char) : List Char :=
  cs.dropWhile isSpace

def takeName? (cs : List Char) : Option (List Char × List Char) :=
  match cs with
  | c :: _ => if isNameStart c then some (cs.takeWhile isNameChar, cs.dropWhile isNameChar) else none
  | [] => none

/-- A name with at most one colon at the start. Both sides of the colon begin like a name, and only
the first may be empty. -/
def takeQualified? (cs : List Char) : Option (WrittenName × List Char) :=
  let run := cs.takeWhile isNameChar
  let rest := cs.dropWhile isNameChar
  let (qualifier, base) := match Text.cutChars? [':'] run with
    | some (q, b) => (q, b)
    | none => ([], run)
  if base.contains ':' then none
  else match qualifier.head?.all isNameStart, base.head? with
    | true, some b =>
      if isNameStart b then some (⟨String.ofList qualifier, String.ofList base⟩, rest) else none
    | _, _ => none

def takeValue? (cs : List Char) : Option (List Char × List Char) :=
  match skipSpaces cs with
  | '=' :: rest =>
    match skipSpaces rest with
    | q :: rest =>
      if q == '"' || q == '\'' then
        let value := rest.takeWhile fun c => c != q && c != '<'
        match rest.dropWhile fun c => c != q && c != '<' with
        | e :: rest => if e == q then some (value, rest) else none
        | [] => none
      else none
    | [] => none
  | _ => none

/-- The attributes and the end of an opening tag: an attribute follows a space. -/
def takeAttributes? : Nat → List Char → Option (List WrittenAttribute × Bool × List Char)
  | 0, _ => none
  | fuel + 1, cs =>
    match skipSpaces cs with
    | '/' :: '>' :: rest => some ([], true, rest)
    | '>' :: rest => some ([], false, rest)
    | after =>
      if !(cs.head?.any isSpace) then none
      else do
        let (name, rest) ← takeQualified? after
        let (value, rest) ← takeValue? rest
        let (more, closed, rest) ← takeAttributes? fuel rest
        some (⟨name, value⟩ :: more, closed, rest)

/-- A comment after its opening; two hyphens end it, and nothing else may follow them. -/
def takeComment? (cs : List Char) : Option (Markup × List Char) := do
  let (body, rest) ← Text.cutChars? "-->".toList cs
  if (Text.cutChars? "--".toList body).isSome || body.getLast? == some '-' then none
  else some (.comment body, rest)

def takeInstruction? (cs : List Char) : Option (Markup × List Char) := do
  let (target, rest) ← takeName? cs
  let (data, rest) ← Text.cutChars? "?>".toList (skipSpaces rest)
  some (.instruction (String.ofList target) (if data.isEmpty then none else some (String.ofList data)),
    rest)

def take? (cs : List Char) : Option (Markup × List Char) :=
  match cs with
  | '<' :: '!' :: rest =>
    match Text.after? "--".toList rest with
    | some body => takeComment? body
    | none => do
      let body ← Text.after? "[CDATA[".toList rest
      let (written, rest) ← Text.cutChars? "]]>".toList body
      some (.marked written, rest)
  | '<' :: '?' :: rest =>
    if Text.after? "xml ".toList rest |>.isSome then none else takeInstruction? rest
  | '<' :: '/' :: rest => do
    let (name, rest) ← takeQualified? rest
    match skipSpaces rest with
    | '>' :: rest => some (.closeTag name, rest)
    | _ => none
  | '<' :: rest => do
    let (name, rest) ← takeQualified? rest
    let (attributes, closed, rest) ← takeAttributes? (rest.length + 1) rest
    some (.openTag name attributes closed, rest)
  | _ =>
    let written := cs.takeWhile (· != '<')
    if (Text.cutChars? "]]>".toList written).isSome then none
    else some (.text written, cs.dropWhile (· != '<'))

def takeAll? : Nat → List Char → Option (List Markup)
  | _, [] => some []
  | 0, _ => none
  | fuel + 1, cs => do
    let (piece, rest) ← take? cs
    let more ← takeAll? fuel rest
    some (piece :: more)

/-- One attribute of the declaration of a document, whose name begins with `word`. -/
def takeDeclared? (cs : List Char) : Option (List Char) := do
  let (_, rest) ← takeQualified? cs
  let (_, rest) ← takeValue? rest
  some rest

def takeGap? (cs : List Char) : Option (List Char) :=
  if cs.head?.all isSpace || (Text.after? "?>".toList cs).isSome then some (skipSpaces cs) else none

/-- The declaration of a document after its opening: a version, and then perhaps an encoding and
whether the document stands alone. Their values are not looked at. -/
def takeDeclaration? (cs : List Char) : Option (List Char) := do
  let cs ← takeGap? cs
  let _ ← Text.after? "version".toList cs
  let cs ← takeGap? (← takeDeclared? cs)
  let cs ← if (Text.after? "encoding".toList cs).isSome then takeGap? (← takeDeclared? cs) else some cs
  let cs ← if (Text.after? "standalone".toList cs).isSome then takeDeclared? cs else some cs
  Text.after? "?>".toList (skipSpaces cs)

def ofChars? (cs : List Char) : Option (List Markup) := do
  if !cs.all isXmlChar then none
  let cs := match cs with
    | '\uFEFF' :: rest => rest
    | _ => cs
  let cs ← match Text.after? "<?xml ".toList cs with
    | some rest => takeDeclaration? (' ' :: rest)
    | none => some cs
  takeAll? cs.length cs

end Markup

end Crosswalk.Xml
