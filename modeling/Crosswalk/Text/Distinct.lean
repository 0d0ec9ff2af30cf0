/-!
# Texts in order

A list of texts as a set: each text once, in the order of their characters' code points, which is
also the order of their UTF-8 bytes.
-/

namespace Crosswalk.Text

/-- Places a text before the first greater one, unless it is there. -/
def insertDistinct (s : String) : List String → List String
  | [] => [s]
  | t :: rest =>
    if s < t then s :: t :: rest
    else if s = t then t :: rest
    else t :: insertDistinct s rest

/-- The texts of a list in order, each once. -/
def distinct (texts : List String) : List String :=
  texts.foldr insertDistinct []

/-- Places a text before the first one that is not less. -/
def insertSorted (s : String) : List String → List String
  | [] => [s]
  | t :: rest => if t < s then t :: insertSorted s rest else s :: t :: rest

def sorted (texts : List String) : List String :=
  texts.foldr insertSorted []

theorem mem_insertDistinct {s t : String} {texts : List String} :
    t ∈ insertDistinct s texts ↔ t = s ∨ t ∈ texts := by
  induction texts with
  | nil => simp [insertDistinct]
  | cons u rest ih =>
    simp only [insertDistinct]
    split
    · simp
    · split
      next hu => subst hu; simp
      next => simp only [List.mem_cons, ih]; grind

theorem mem_distinct {t : String} {texts : List String} : t ∈ distinct texts ↔ t ∈ texts := by
  induction texts with
  | nil => simp [distinct]
  | cons s rest ih =>
    have : distinct (s :: rest) = insertDistinct s (distinct rest) := rfl
    rw [this, mem_insertDistinct, ih]
    simp

theorem insertSorted_comm (a b : String) (texts : List String) :
    insertSorted a (insertSorted b texts) = insertSorted b (insertSorted a texts) := by
  induction texts with
  | nil => grind [insertSorted]
  | cons t rest ih =>
    simp only [insertSorted]
    grind [insertSorted]

/-- Sorting forgets the order. -/
theorem sorted_eq_of_perm {texts texts' : List String} (h : texts.Perm texts') :
    sorted texts = sorted texts' :=
  h.foldr_eq' (fun a _ b _ rest => insertSorted_comm b a rest) []

end Crosswalk.Text
