/-!
# Blank characters

White space in the sense of the Unicode property `White_Space`. Wherever this library trims a
text or splits it into words, it is this set that decides: it holds the no-break space and the
ideographic space, and it does not hold the zero width space or the byte order mark.

The functions work on lists of characters; each has a form for strings.
-/

namespace Crosswalk.Text

/-- Membership in the Unicode property `White_Space`. -/
def isBlank (c : Char) : Bool :=
  let n := c.toNat
  (9 ≤ n && n ≤ 13) || n == 0x20 || n == 0x85 || n == 0xA0 || n == 0x1680 ||
    (0x2000 ≤ n && n ≤ 0x200A) || n == 0x2028 || n == 0x2029 || n == 0x202F ||
    n == 0x205F || n == 0x3000

def dropBlankEnd (cs : List Char) : List Char :=
  (cs.reverse.dropWhile isBlank).reverse

def trimChars (cs : List Char) : List Char :=
  dropBlankEnd (cs.dropWhile isBlank)

def trim (s : String) : String :=
  String.ofList (trimChars s.toList)

/-- The maximal runs of characters that are not blank. -/
def wordsChars (cs : List Char) : List (List Char) :=
  let step : Char → List (List Char) × List Char → List (List Char) × List Char :=
    fun c (done, run) =>
      if isBlank c then (if run.isEmpty then (done, []) else (run :: done, []))
      else (done, c :: run)
  let (done, run) := cs.foldr step ([], [])
  if run.isEmpty then done else run :: done

def words (s : String) : List String :=
  (wordsChars s.toList).map String.ofList

def isBlankText (s : String) : Bool :=
  s.toList.all isBlank

/-! ## Lemmas -/

theorem isBlank_of_isWhitespace {c : Char} (h : c.isWhitespace = true) : isBlank c = true := by
  simp only [Char.isWhitespace, Bool.or_eq_true, decide_eq_true_eq] at h
  rcases h with ((rfl | rfl) | rfl) | rfl <;> decide

theorem dropWhile_isBlank_eq_nil_iff {cs : List Char} :
    cs.dropWhile isBlank = [] ↔ ∀ c ∈ cs, isBlank c = true := by
  induction cs with
  | nil => simp
  | cons c rest ih => by_cases h : isBlank c = true <;> simp [h, ih]

theorem dropBlankEnd_eq_nil_iff {cs : List Char} :
    dropBlankEnd cs = [] ↔ ∀ c ∈ cs, isBlank c = true := by
  simp only [dropBlankEnd, List.reverse_eq_nil_iff, dropWhile_isBlank_eq_nil_iff, List.mem_reverse]

theorem trimChars_of_solid {cs : List Char} (h : ∀ c ∈ cs, isBlank c = false) :
    trimChars cs = cs := by
  have hdrop (cs : List Char) (hcs : ∀ c ∈ cs, isBlank c = false) : cs.dropWhile isBlank = cs := by
    cases cs with
    | nil => rfl
    | cons c cs => rw [List.dropWhile_cons_of_neg (by simp [hcs c])]
  rw [trimChars, dropBlankEnd, hdrop _ h, hdrop _ fun c hc => h c (List.mem_reverse.1 hc),
    List.reverse_reverse]

theorem isBlank_of_isDigit {c : Char} (h : c.isDigit = true) : isBlank c = false := by
  have hbounds : 48 ≤ c.toNat ∧ c.toNat ≤ 57 := by
    simp only [Char.isDigit, Bool.and_eq_true, decide_eq_true_eq, ge_iff_le, UInt32.le_iff_toNat_le] at h
    exact h
  simp only [isBlank, Bool.or_eq_false_iff, Bool.and_eq_false_iff, decide_eq_false_iff_not, beq_eq_false_iff_ne]
  omega

end Crosswalk.Text
