/-!
# Templates

A template is a text with holes: a hole is a name of at least one character between braces, and
ends at the first closing brace. Braces that enclose nothing, and an opening brace that is never
closed, are text like any other.

A template is read once, into its pieces; the names that have to be supplied and the filled text
both come from them, so they cannot disagree.
-/

namespace Crosswalk.Template

inductive Piece where
  | char (c : Char)
  | hole (name : List Char)
  deriving DecidableEq, Repr

/-- The text that a piece was written as. -/
def Piece.source : Piece → List Char
  | char c => [c]
  | hole name => '{' :: name ++ ['}']

theorem length_dropWhile_le {α : Type} (p : α → Bool) (xs : List α) :
    (xs.dropWhile p).length ≤ xs.length :=
  (List.dropWhile_suffix p).length_le

def pieces : List Char → List Piece
  | [] => []
  | c :: rest =>
    if c = '{' then
      match _h : rest.dropWhile (· != '}') with
      | _ :: after =>
        let name := rest.takeWhile (· != '}')
        if name.isEmpty then .char c :: pieces rest else .hole name :: pieces after
      | [] => .char c :: pieces rest
    else .char c :: pieces rest
termination_by cs => cs.length
decreasing_by
  · simp
  · have bound := length_dropWhile_le (· != '}') rest
    rw [_h] at bound
    simp only [List.length_cons] at bound ⊢
    omega
  · simp
  · simp

def Piece.name? : Piece → Option String
  | char _ => none
  | hole name => some (String.ofList name)

/-- The names of the holes in a template, in order; a name is listed as often as it occurs. -/
def placeholders (template : String) : List String :=
  (pieces template.toList).filterMap Piece.name?

/-! ## Lemmas -/

theorem head?_dropWhile_not {α : Type} (p : α → Bool) {xs : List α} {x : α} {after : List α}
    (h : xs.dropWhile p = x :: after) : p x = false := by
  induction xs with
  | nil => simp at h
  | cons y ys ih =>
    by_cases hy : p y = true
    · simp only [List.dropWhile_cons, hy, if_true] at h
      exact ih h
    · simp only [List.dropWhile_cons, hy] at h
      have : y = x := by simp_all
      subst this
      simpa using hy

/-- Nothing of a template is lost: the pieces, as they were written, make it up. -/
theorem flatMap_source_pieces (cs : List Char) : (pieces cs).flatMap Piece.source = cs := by
  fun_induction pieces cs with
  | case1 => rfl
  | case2 rest x after h name hname ih => simp [Piece.source, ih]
  | case3 rest x after h name hname ih =>
    have hx : x = '}' := by simpa using head?_dropWhile_not _ h
    have hsplit := List.takeWhile_append_dropWhile (p := (· != '}')) (l := rest)
    rw [h] at hsplit
    subst hx
    simp only [List.flatMap_cons, Piece.source, ih]
    rw [← hsplit]
    simp [name]
  | case4 rest h ih => simp [Piece.source, ih]
  | case5 c rest hc ih => simp [Piece.source, ih]

end Crosswalk.Template
