import Crosswalk.Text.Search

/-!
# IRIs

The grammar of RFC 3987, for IRIs that begin with a scheme: a scheme, an authority or none, a path,
and a query and a fragment that may be missing. Nothing is normalised; a text either is an IRI as
it stands or it is none.

The cuts between the parts are made at the first character that ends a part, and each part is then
held against the characters that it admits.
-/

namespace Crosswalk.Rdf

def isHexDigit (c : Char) : Bool :=
  c.isDigit || ('a' ≤ c && c ≤ 'f') || ('A' ≤ c && c ≤ 'F')

/-! ## Characters -/

/-- The characters beyond ASCII that any part of an IRI may hold. -/
def isUcsChar (c : Char) : Bool :=
  let n := c.toNat
  (0xA0 ≤ n && n ≤ 0xD7FF) || (0xF900 ≤ n && n ≤ 0xFDCF) || (0xFDF0 ≤ n && n ≤ 0xFFEF) ||
    (0x10000 ≤ n && n ≤ 0xDFFFD && n % 0x10000 ≤ 0xFFFD) || (0xE1000 ≤ n && n ≤ 0xEFFFD)

/-- The private characters, which only a query may hold. -/
def isPrivateChar (c : Char) : Bool :=
  let n := c.toNat
  (0xE000 ≤ n && n ≤ 0xF8FF) || (0xF0000 ≤ n && n ≤ 0xFFFFD) || (0x100000 ≤ n && n ≤ 0x10FFFD)

def isUnreserved (c : Char) : Bool :=
  c.isAlphanum || "-._~".toList.contains c || isUcsChar c

def isSubDelimiter (c : Char) : Bool :=
  "!$&'()*+,;=".toList.contains c

def isNameChar (c : Char) : Bool :=
  isUnreserved c || isSubDelimiter c

def isUserChar (c : Char) : Bool :=
  isNameChar c || c == ':'

def isPathChar (c : Char) : Bool :=
  isUserChar c || c == '@' || c == '/'

def isFragmentChar (c : Char) : Bool :=
  isPathChar c || c == '?'

def isQueryChar (c : Char) : Bool :=
  isFragmentChar c || isPrivateChar c

/-- Whether each character is admitted, or part of a percent sign with two hexadecimal digits. -/
def allAdmitted (admits : Char → Bool) : List Char → Bool
  | [] => true
  | '%' :: a :: b :: rest => isHexDigit a && isHexDigit b && allAdmitted admits rest
  | c :: rest => c != '%' && admits c && allAdmitted admits rest

/-! ## Hosts -/

def splitAtChar (sep : Char) (cs : List Char) : List (List Char) :=
  Text.splitChars [sep] cs

/-- A number below 256 without needless zeros. -/
def isOctet (cs : List Char) : Bool :=
  let n := cs.foldl (fun n c => 10 * n + (c.toNat - '0'.toNat)) 0
  !cs.isEmpty && cs.length ≤ 3 && cs.all Char.isDigit && n < 256 &&
    (cs.length == 1 || cs.head? != some '0')

def isIpv4 (cs : List Char) : Bool :=
  let octets := splitAtChar '.' cs
  octets.length == 4 && octets.all isOctet

/-- How many groups of 16 bits some pieces of an address stand for, if they are well formed; the
last piece may be an address of version 4, which stands for two. -/
def countGroups? : List (List Char) → Option Nat
  | [] => some 0
  | [piece] =>
    if !piece.isEmpty && piece.length ≤ 4 && piece.all isHexDigit then some 1
    else if isIpv4 piece then some 2
    else none
  | piece :: rest =>
    if !piece.isEmpty && piece.length ≤ 4 && piece.all isHexDigit then
      (countGroups? rest).map (· + 1)
    else none

def groups (cs : List Char) : List (List Char) :=
  if cs.isEmpty then [] else splitAtChar ':' cs

/-- An address of version 6: eight groups, or fewer around a double colon. -/
def isIpv6 (cs : List Char) : Bool :=
  match Text.cutChars? [':', ':'] cs with
  | some (before, after) =>
    match countGroups? (groups before), countGroups? (groups after) with
    | some m, some n => m + n ≤ 7 && !before.contains '.'
    | _, _ => false
  | none => countGroups? (groups cs) == some 8

/-- An address of a version to come: `v`, hexadecimal digits, a point, and something after it. -/
def isFutureAddress : List Char → Bool
  | v :: rest =>
    let version := rest.takeWhile isHexDigit
    (v == 'v' || v == 'V') && !version.isEmpty &&
      match rest.drop version.length with
      | '.' :: address =>
        !address.isEmpty && address.all fun c => c.toNat < 128 && isUserChar c
      | _ => false
  | [] => false

/-- A place: an address in brackets or a name, then a colon and digits or nothing. -/
def isPlace (cs : List Char) : Bool :=
  match cs with
  | '[' :: rest =>
    let address := rest.takeWhile (· != ']')
    (isIpv6 address || isFutureAddress address) &&
      match rest.drop address.length with
      | [']'] => true
      | ']' :: ':' :: digits => digits.all Char.isDigit
      | _ => false
  | _ =>
    allAdmitted isNameChar (cs.takeWhile (· != ':')) &&
      ((cs.dropWhile (· != ':')).drop 1).all Char.isDigit

def isAuthority (cs : List Char) : Bool :=
  match Text.cutChars? ['@'] cs with
  | some (user, host) => allAdmitted isUserChar user && isPlace host
  | none => isPlace cs

/-! ## References and IRIs -/

/-- An IRI or a relative reference, cut into its parts. -/
structure Reference where
  scheme? : Option (List Char)
  authority? : Option (List Char)
  path : List Char
  query? : Option (List Char)
  fragment? : Option (List Char)
  deriving DecidableEq, Repr

def isSchemeChar (c : Char) : Bool :=
  c.isAlphanum || "+-.".toList.contains c

def isScheme : List Char → Bool
  | c :: rest => c.isAlpha && rest.all isSchemeChar
  | [] => false

def cutBefore (ends : List Char) (cs : List Char) : List Char × List Char :=
  (cs.takeWhile fun c => !ends.contains c, cs.dropWhile fun c => !ends.contains c)

/-- The scheme before the first colon, unless another part begins earlier. -/
def cutScheme (cs : List Char) : Option (List Char) × List Char :=
  match cutBefore [':', '/', '?', '#'] cs with
  | (scheme, ':' :: rest) => (some scheme, rest)
  | _ => (none, cs)

def cutAuthority : List Char → Option (List Char) × List Char
  | '/' :: '/' :: rest =>
    let (authority, path) := cutBefore ['/', '?', '#'] rest
    (some authority, path)
  | cs => (none, cs)

def cutQuery : List Char → Option (List Char) × List Char
  | '?' :: rest =>
    let (query, fragment) := cutBefore ['#'] rest
    (some query, fragment)
  | cs => (none, cs)

def Reference.ofChars (cs : List Char) : Reference :=
  let (scheme?, afterScheme) := cutScheme cs
  let (authority?, afterAuthority) := cutAuthority afterScheme
  let (path, afterPath) := cutBefore ['?', '#'] afterAuthority
  let (query?, afterQuery) := cutQuery afterPath
  let fragment? := match afterQuery with
    | '#' :: fragment => some fragment
    | _ => none
  ⟨scheme?, authority?, path, query?, fragment?⟩

def Reference.wellFormed (r : Reference) : Bool :=
  (r.scheme?.map isScheme).getD true &&
    (r.authority?.map isAuthority).getD true &&
    allAdmitted isPathChar r.path &&
    (r.query?.map (allAdmitted isQueryChar)).getD true &&
    (r.fragment?.map (allAdmitted isFragmentChar)).getD true

def isIri (s : String) : Bool :=
  let r := Reference.ofChars s.toList
  r.scheme?.isSome && r.wellFormed

structure Iri where
  text : String
  valid : isIri text = true
  deriving DecidableEq, Repr

def Iri.ofText? (s : String) : Option Iri :=
  if h : isIri s = true then some ⟨s, h⟩ else none

@[simp] theorem Iri.ofText?_text (i : Iri) : Iri.ofText? i.text = some i := by
  simp [Iri.ofText?, i.valid]

theorem Iri.text_of_ofText? {s : String} {i : Iri} (h : Iri.ofText? s = some i) : i.text = s := by
  unfold Iri.ofText? at h
  split at h
  · cases h; rfl
  · simp at h

/-! ## Resolving references -/

def Reference.toText (r : Reference) : String :=
  String.ofList <|
    ((r.scheme?.map (· ++ [':'])).getD []) ++ ((r.authority?.map ('/' :: '/' :: ·)).getD []) ++
      r.path ++ ((r.query?.map ('?' :: ·)).getD []) ++ ((r.fragment?.map ('#' :: ·)).getD [])

/-- Drops the last segment of a path that is being put together, last segment first. -/
def normalSegments (done : List (List Char)) : List (List Char) → List (List Char)
  | [] => done.reverse
  | ['.'] :: rest => normalSegments (if rest.isEmpty then [] :: done else done) rest
  | ['.', '.'] :: rest =>
    let done := done.drop 1
    normalSegments (if rest.isEmpty then [] :: done else done) rest
  | segment :: rest => normalSegments (segment :: done) rest

def removeDots (path : List Char) : List Char :=
  match splitAtChar '/' path with
  | [[]] => []
  | [] :: segments => '/' :: ['/'].intercalate (normalSegments [] segments)
  | segments => ['/'].intercalate (normalSegments [] segments)

/-- The path of a relative reference behind a base path, of which the last segment is dropped. -/
def mergePath (base : Reference) (path : List Char) : List Char :=
  if base.authority?.isSome && base.path.isEmpty then '/' :: path
  else (base.path.reverse.dropWhile (· != '/')).reverse ++ path

def Reference.resolve (base r : Reference) : Reference :=
  if r.scheme?.isSome then { r with path := removeDots r.path }
  else if r.authority?.isSome then
    { r with scheme? := base.scheme?, path := removeDots r.path }
  else if r.path.isEmpty then
    { base with query? := r.query?.or base.query?, fragment? := r.fragment? }
  else
    let path := if r.path.head? == some '/' then r.path else mergePath base r.path
    ⟨base.scheme?, base.authority?, removeDots path, r.query?, r.fragment?⟩

def Iri.resolve? (base? : Option Iri) (reference : String) : Option Iri :=
  match base? with
  | none => Iri.ofText? reference
  | some base =>
    let r := Reference.ofChars reference.toList
    if r.wellFormed then
      Iri.ofText? ((Reference.ofChars base.text.toList).resolve r).toText
    else none

end Crosswalk.Rdf
