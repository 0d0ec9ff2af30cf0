import Crosswalk.Text.Search

/-!
# Language tags

Tags of BCP 47, in lower case: a language, up to three extensions of it, a script, a region,
variants, extensions behind a single letter or digit, and a private part behind `x`; or a private tag;
or one of the tags that were registered before these rules. No subtag is longer than eight
characters.
-/

namespace Crosswalk.Rdf

/-- The tags that were registered before the present rules. -/
def grandfathered : List String :=
  ["art-lojban", "cel-gaulish", "en-gb-oed", "i-ami", "i-bnn", "i-default", "i-enochian", "i-hak",
    "i-klingon", "i-lux", "i-mingo", "i-navajo", "i-pwn", "i-tao", "i-tay", "i-tsu", "no-bok",
    "no-nyn", "sgn-be-fr", "sgn-be-nl", "sgn-ch-de", "zh-guoyu", "zh-hakka", "zh-min", "zh-min-nan",
    "zh-xiang"]

def isLetters (subtag : List Char) : Bool :=
  subtag.all Char.isAlpha

def isDigits (subtag : List Char) : Bool :=
  subtag.all Char.isDigit

def isAlphanumerics (subtag : List Char) : Bool :=
  subtag.all Char.isAlphanum

inductive TagPlace where
  | language
  /-- Up to three extensions of a short language may follow; the number counts those before. -/
  | extendedLanguage (count : Nat)
  | script
  | region
  | variant
  /-- Inside an extension, which needs a subtag. -/
  | extension (empty : Bool)
  /-- Inside the private part, which needs a subtag. -/
  | privatePart (empty : Bool)
  deriving DecidableEq, Repr

namespace TagPlace

def admitsScript : TagPlace → Bool
  | extendedLanguage _ => true
  | script => true
  | _ => false

def admitsRegion (p : TagPlace) : Bool :=
  p.admitsScript || p == region

def admitsVariant (p : TagPlace) : Bool :=
  p.admitsRegion || p == variant

def complete : TagPlace → Bool
  | language => false
  | extension empty => !empty
  | privatePart empty => !empty
  | _ => true

def isScript (subtag : List Char) : Bool :=
  subtag.length == 4 && isLetters subtag

def isRegion (subtag : List Char) : Bool :=
  (subtag.length == 2 && isLetters subtag) || (subtag.length == 3 && isDigits subtag)

/-- A variant has five characters at least, or four when it begins with a digit. -/
def isVariant (subtag : List Char) : Bool :=
  isAlphanumerics subtag &&
    match subtag with
    | c :: _ => if c.isDigit then 4 ≤ subtag.length else 5 ≤ subtag.length
    | [] => false

def next? (p : TagPlace) (subtag : List Char) : Option TagPlace :=
  if subtag.isEmpty || 8 < subtag.length || !isAlphanumerics subtag then none
  else
    match p with
    | language =>
      if subtag.length < 2 || !isLetters subtag then none
      else some (if subtag.length < 4 then extendedLanguage 0 else script)
    | privatePart _ => some (privatePart false)
    | _ =>
      if subtag.length == 1 then
        if p == extension true then none
        else some (if subtag == ['x'] then privatePart true else extension true)
      else
        match p with
        | extension _ => some (extension false)
        | extendedLanguage count =>
          if subtag.length == 3 && isLetters subtag then
            if count < 3 then some (extendedLanguage (count + 1)) else none
          else if isScript subtag then some region
          else if isRegion subtag then some variant
          else if isVariant subtag then some variant
          else none
        | _ =>
          if p.admitsScript && isScript subtag then some region
          else if p.admitsRegion && isRegion subtag then some variant
          else if p.admitsVariant && isVariant subtag then some variant
          else none

def after? (p : TagPlace) (subtags : List (List Char)) : Option TagPlace :=
  subtags.foldlM next? p

end TagPlace

def isLowerTag (s : String) : Bool :=
  grandfathered.contains s ||
    match Text.splitChars ['-'] s.toList with
    | ['x'] :: rest => ((TagPlace.privatePart true).after? rest).any TagPlace.complete
    | subtags => (TagPlace.language.after? subtags).any TagPlace.complete

def languageTag? (s : String) : Option String :=
  let lower := String.ofList (s.toList.map Char.toLower)
  if isLowerTag lower then some lower else none

end Crosswalk.Rdf
