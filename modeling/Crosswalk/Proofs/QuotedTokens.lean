import Crosswalk.Proofs.ContinuedTokens
import Crosswalk.Text.Search
import Mathlib.Data.List.Chain
import Mathlib.Data.List.TakeWhile

/-!
# Quotation marks in expressions

How a text is spelled that can be cut into tokens: it is the spellings of its tokens, one behind the other, with
blanks between them. A literal is the one token that is spelled with quotation marks, and they enclose it. So
a text that can be cut leaves no quotation mark open, and what stands in it behind an open one is the text of a
literal.

For two equality signs in a row this decides everything. Where no quotation mark is open, each of them ends
a token, and they belong to two tokens that follow each other. Where one is open, both belong to a
literal.
-/

namespace Crosswalk.XPath

variable {c q : Char} {before after cs chunk left rest : List Char} {t : Token} {ts : List Token}
  {text : String}

/-! ## Open quotation marks -/

def isQuote (c : Char) : Bool :=
  c == '"' || c == '\''

/-- Which quotation mark is open behind a character, from the one that is open before it. -/
def quoteAfter : Option Char → Char → Option Char
  | none, c => if isQuote c then some c else none
  | some q, c => if c = q then none else some q

/-- The quotation mark that some characters leave open. -/
def openQuote (cs : List Char) : Option Char :=
  cs.foldl quoteAfter none

theorem openQuote_cons (hc : isQuote c = false) : openQuote (c :: cs) = openQuote cs := by
  rw [openQuote, List.foldl_cons, quoteAfter, hc]
  rfl

/-- Characters that leave no quotation mark open do not matter for what follows. -/
theorem openQuote_append (h : openQuote before = none) :
    openQuote (before ++ after) = openQuote after := by
  rw [openQuote, List.foldl_append]
  exact congrArg (after.foldl quoteAfter) h

theorem openQuote_plain (h : ∀ d ∈ cs, isQuote d = false) : openQuote cs = none := by
  induction cs with
  | nil => rfl
  | cons d cs ih =>
    rw [List.forall_mem_cons] at h
    rw [openQuote_cons h.1, ih h.2]

/-- A quotation mark stays open until it comes again. -/
theorem openQuote_inside (quote : isQuote q = true) (inside : q ∉ cs) :
    openQuote (q :: cs) = some q := by
  have hstart : quoteAfter none q = some q := if_pos quote
  rw [openQuote, List.foldl_cons, hstart]
  induction cs with
  | nil => rfl
  | cons d cs ih =>
    rw [List.mem_cons, not_or] at inside
    have hd : quoteAfter (some q) d = some q := if_neg fun h => inside.1 h.symm
    rw [List.foldl_cons, hd, ih inside.2]

theorem openQuote_quoted (quote : isQuote q = true) (inside : q ∉ cs) :
    openQuote (q :: cs ++ [q]) = none := by
  have hopen := openQuote_inside quote inside
  rw [openQuote] at hopen
  rw [openQuote, List.foldl_append, hopen, List.foldl_cons, quoteAfter, if_pos rfl]
  rfl

theorem isQuote_of_isBlank (h : Text.isBlank c = true) : isQuote c = false := by
  have hplain : ∀ n ∈ blankPoints, isQuote (Char.ofNat n) = false := by decide +kernel
  simpa [Char.ofNat_toNat] using hplain c.toNat (toNat_mem_blankPoints h)

/-! ## Spellings -/

/-- A character that neither quotes nor equates. -/
def IsPlain (c : Char) : Prop :=
  c ≠ '=' ∧ isQuote c = false

instance : DecidablePred IsPlain :=
  fun _ => instDecidableAnd

/-- The tokens whose spelling ends in an equality sign. -/
def Token.endsEqual : Token → Bool
  | .equal | .notEqual | .lessEqual | .greaterEqual => true
  | _ => false

/-- How a token can be spelled, as far as quotation marks and equality signs go. -/
inductive Spelled : Token → List Char → Prop
  | literal {q : Char} {cs : List Char} (quote : isQuote q = true) (inside : q ∉ cs) :
    Spelled (.literal (String.ofList cs)) (q :: cs ++ [q])
  | equal : Spelled .equal ['=']
  | compound {t : Token} {c : Char} (ends : t.endsEqual = true) (plain : IsPlain c) :
    Spelled t [c, '=']
  | plain {t : Token} {c : Char} {cs : List Char} (unquoted : ∀ s, t ≠ .literal s)
    (plain : ∀ d ∈ c :: cs, IsPlain d) : Spelled t (c :: cs)

/-- Spellings of tokens in a row, with blanks between them and around them. -/
inductive SpellsText : List Token → List Char → Prop
  | nil : SpellsText [] []
  | blank {c : Char} {ts : List Token} {cs : List Char} (blank : Text.isBlank c = true)
    (rest : SpellsText ts cs) : SpellsText ts (c :: cs)
  | token {t : Token} {ts : List Token} {chunk cs : List Char} (spelled : Spelled t chunk)
    (rest : SpellsText ts cs) : SpellsText (t :: ts) (chunk ++ cs)

theorem isPlain_of {p : Char → Bool} (hequal : p '=' = false) (hdouble : p '"' = false)
    (hsingle : p '\'' = false) (hc : p c = true) : IsPlain c := by
  have hne {d : Char} (hd : p d = false) : c ≠ d := by
    rintro rfl
    rw [hd] at hc
    cases hc
  exact ⟨hne hequal, by simp [isQuote, hne hdouble, hne hsingle]⟩

theorem isPlain_of_isDigit (hc : c.isDigit = true) : IsPlain c :=
  isPlain_of (by decide) (by decide) (by decide) hc

theorem isPlain_of_isNameStart (hc : isNameStart c = true) : IsPlain c :=
  isPlain_of (by decide +kernel) (by decide +kernel) (by decide +kernel) hc

theorem isPlain_of_isNameChar (hc : isNameChar c = true) : IsPlain c :=
  isPlain_of (by decide +kernel) (by decide +kernel) (by decide +kernel) hc

theorem spelled_one (unquoted : ∀ s, t ≠ .literal s) (hc : IsPlain c) : Spelled t [c] :=
  .plain unquoted (List.forall_mem_singleton.2 hc)

theorem spelled_two {d : Char} (unquoted : ∀ s, t ≠ .literal s) (hc : IsPlain c) (hd : IsPlain d) :
    Spelled t [c, d] :=
  .plain unquoted (List.forall_mem_cons.2 ⟨hc, List.forall_mem_singleton.2 hd⟩)

/-- A run of plain characters that is cut off. -/
theorem spelled_run {p : Char → Bool} (unquoted : ∀ s, t ≠ .literal s)
    (hp : ∀ d, p d = true → IsPlain d) (hc : IsPlain c) :
    ∃ chunk, c :: cs = chunk ++ cs.dropWhile p ∧ Spelled t chunk := by
  refine ⟨c :: cs.takeWhile p, ?_, .plain unquoted ?_⟩
  · rw [List.cons_append, List.takeWhile_append_dropWhile]
  · exact List.forall_mem_cons.2 ⟨hc, fun d hd => hp d (List.mem_takeWhile_imp hd)⟩

theorem ne_literal_of_numberToken (h : numberToken cs = .ok t) (s : String) : t ≠ .literal s := by
  rintro rfl
  rw [numberToken] at h
  split at h <;> cases h

theorem spelled_of_nameToken (h : nameToken (c :: cs) rest = .ok (t, left))
    (plain : ∀ d ∈ c :: cs, IsPlain d) :
    ∃ chunk, c :: cs ++ rest = chunk ++ left ∧ Spelled t chunk := by
  unfold nameToken at h
  split at h
  · cases h
    exact ⟨c :: cs, rfl, .plain (by simp) plain⟩
  · cases h
    refine ⟨c :: (cs ++ [':', '*']), by simp, .plain (by simp) ?_⟩
    rw [← List.cons_append, List.forall_mem_append]
    have hmark : IsPlain ':' ∧ IsPlain '*' := by decide
    exact ⟨plain, List.forall_mem_cons.2 ⟨hmark.1, List.forall_mem_singleton.2 hmark.2⟩⟩
  next after _ _ =>
    split at h
    · cases h
      refine ⟨c :: (cs ++ ':' :: after.takeWhile isNameChar), ?_, .plain (by simp) ?_⟩
      · simp [List.takeWhile_append_dropWhile]
      · have hcolon : IsPlain ':' := by decide
        rw [← List.cons_append, List.forall_mem_append]
        exact ⟨plain, List.forall_mem_cons.2
          ⟨hcolon, fun d hd => isPlain_of_isNameChar (List.mem_takeWhile_imp hd)⟩⟩
    · cases h
  · cases h
    exact ⟨c :: cs, rfl, .plain (by simp) plain⟩

theorem spelled_of_wordToken (h : wordToken c rest = .ok (t, left)) :
    ∃ chunk, c :: rest = chunk ++ left ∧ Spelled t chunk := by
  have hdot : IsPlain '.' := by decide
  unfold wordToken at h
  split at h
  next hc =>
    obtain rfl := eq_of_beq hc
    split at h
    · obtain ⟨number, hnumber, h⟩ := bind_eq_ok.1 h
      cases h
      exact spelled_run (ne_literal_of_numberToken hnumber) (fun d => isPlain_of_isDigit)
        hdot
    · cases h
      exact ⟨['.'], rfl, spelled_one (by simp) hdot⟩
  · split at h
    next hquote =>
      split at h
      next q after hafter =>
        cases h
        have hq : q = c := by
          have := List.head?_dropWhile_not (· != c) rest
          simpa [hafter] using this
        subst hq
        refine ⟨q :: rest.takeWhile (· != q) ++ [q], ?_, .literal hquote ?_⟩
        · rw [List.append_assoc, List.singleton_append, List.cons_append, ← hafter,
            List.takeWhile_append_dropWhile]
        · intro hmem
          simpa using List.mem_takeWhile_imp hmem
      next => cases h
    · split at h
      next hdigit =>
        obtain ⟨number, hnumber, h⟩ := bind_eq_ok.1 h
        cases h
        refine spelled_run (ne_literal_of_numberToken hnumber) (fun d hd => ?_)
          (isPlain_of_isDigit hdigit)
        rw [Bool.or_eq_true, beq_iff_eq] at hd
        rcases hd with hd | rfl
        · exact isPlain_of_isDigit hd
        · exact hdot
      · split at h
        next hstart =>
          obtain ⟨chunk, hchunk, hspelled⟩ := spelled_of_nameToken h <|
            List.forall_mem_cons.2 ⟨isPlain_of_isNameStart hstart,
              fun d hd => isPlain_of_isNameChar (List.mem_takeWhile_imp hd)⟩
          rw [List.cons_append, List.takeWhile_append_dropWhile] at hchunk
          exact ⟨chunk, hchunk, hspelled⟩
        next => cases h

theorem spelled_of_nextToken (h : nextToken c rest = .ok (t, left)) :
    ∃ chunk, c :: rest = chunk ++ left ∧ Spelled t chunk := by
  unfold nextToken at h
  split at h
  case h_20 => exact spelled_of_wordToken h
  all_goals cases h
  case h_13 => exact ⟨_, rfl, .equal⟩
  case h_14 | h_15 | h_17 => exact ⟨[_, '='], rfl, .compound rfl (by decide)⟩
  case h_1 | h_3 | h_19 => exact ⟨[_, _], rfl, spelled_two (by simp) (by decide) (by decide)⟩
  all_goals exact ⟨[_], rfl, spelled_one (by simp) (by decide)⟩

theorem isBlank_of_isSpace (h : isSpace c = true) : Text.isBlank c = true := by
  simp only [isSpace, Bool.or_eq_true, beq_iff_eq] at h
  rcases h with ((rfl | rfl) | rfl) | rfl <;> rfl

/-- A text that can be cut is the spelling of its tokens. -/
theorem spellsText_of_tokensIn (h : tokensIn cs = .ok ts) : SpellsText ts cs := by
  induction hn : cs.length using Nat.strongRecOn generalizing cs ts with
  | ind n ih =>
    subst hn
    cases cs with
    | nil =>
      cases h
      exact .nil
    | cons c rest =>
      cases hc : isSpace c with
      | true =>
        rw [tokensIn_space hc] at h
        exact .blank (isBlank_of_isSpace hc) (ih rest.length (Nat.lt_succ_self _) h rfl)
      | false =>
        obtain ⟨t, left, others, hnext, hothers, rfl⟩ := (tokensIn_cons_ok hc).1 h
        have hleft := (suffix_of_nextToken hnext).length_le
        obtain ⟨chunk, hchunk, hspelled⟩ := spelled_of_nextToken hnext
        rw [hchunk]
        exact .token hspelled (ih left.length (Nat.lt_succ_of_le hleft) hothers rfl)

theorem SpellsText.blanks_append (h : SpellsText ts cs) (blank : ∀ d ∈ before, Text.isBlank d = true) :
    SpellsText ts (before ++ cs) := by
  induction before with
  | nil => exact h
  | cons d before ih =>
    rw [List.forall_mem_cons] at blank
    exact .blank blank.1 (ih blank.2)

theorem SpellsText.append_blanks (h : SpellsText ts cs) (blank : ∀ d ∈ after, Text.isBlank d = true) :
    SpellsText ts (cs ++ after) := by
  induction h with
  | nil => simpa using SpellsText.nil.blanks_append blank
  | blank hc _ ih => exact .blank hc ih
  | token spelled _ ih =>
    rw [List.append_assoc]
    exact .token spelled ih

/-- A text is spelled as it is without the blanks around it. -/
theorem SpellsText.of_trim {s : String} (h : SpellsText ts (Text.trim s).toList) : SpellsText ts s.toList := by
  rw [Text.trim, String.toList_ofList, Text.trimChars, Text.dropBlankEnd] at h
  rw [← List.takeWhile_append_dropWhile (p := Text.isBlank) (l := s.toList)]
  refine SpellsText.blanks_append ?_ fun d hd => List.mem_takeWhile_imp hd
  rw [← List.reverse_reverse (s.toList.dropWhile Text.isBlank),
    ← List.takeWhile_append_dropWhile (p := Text.isBlank) (l := (s.toList.dropWhile _).reverse),
    List.reverse_append]
  exact h.append_blanks fun d hd => List.mem_takeWhile_imp (List.mem_reverse.1 hd)

/-! ## What stands in a spelling -/

theorem Spelled.openQuote_eq (h : Spelled t chunk) : openQuote chunk = none := by
  cases h with
  | literal quote inside => exact openQuote_quoted quote inside
  | equal => rfl
  | compound _ plain => exact openQuote_plain (by simpa using ⟨plain.2, by decide⟩)
  | plain _ plain => exact openQuote_plain fun d hd => (plain d hd).2

/-- A text that can be cut leaves no quotation mark open. -/
theorem SpellsText.openQuote_eq (h : SpellsText ts cs) : openQuote cs = none := by
  induction h with
  | nil => rfl
  | blank hc _ ih => rw [openQuote_cons (isQuote_of_isBlank hc), ih]
  | token spelled _ ih => rw [openQuote_append spelled.openQuote_eq, ih]

/-- An equality sign at the beginning of a text is a token. -/
theorem SpellsText.head_equal (h : SpellsText ts ('=' :: cs)) : ts.head? = some .equal := by
  generalize hall : '=' :: cs = all at h
  cases h with
  | nil => cases hall
  | blank hc =>
    cases hall
    cases hc
  | token spelled =>
    cases spelled with
    | literal quote =>
      cases hall
      cases quote
    | equal => rfl
    | compound _ plain =>
      cases hall
      exact absurd rfl plain.1
    | plain _ plain =>
      cases hall
      exact absurd rfl (plain _ List.mem_cons_self).1

/-- The text of a literal stands in what is cut. -/
theorem SpellsText.infix_of_mem (h : SpellsText ts cs) (hmem : .literal text ∈ ts) :
    text.toList <:+: cs := by
  induction h with
  | nil => cases hmem
  | blank _ _ ih => exact (ih hmem).trans (List.suffix_cons _ _).isInfix
  | @token t ts chunk cs spelled _ ih =>
    rcases List.mem_cons.1 hmem with rfl | hmem
    · cases spelled with
      | @literal q content => exact ⟨[q], q :: cs, by simp⟩
      | compound ends => cases ends
      | plain unquoted => exact absurd rfl (unquoted text)
    · exact (ih hmem).trans (List.suffix_append _ _).isInfix

/-- An equality sign in the spelling of a token ends it, or belongs to the text of a literal. -/
theorem Spelled.equal_cases (h : Spelled t (before ++ '=' :: after)) :
    (after = [] ∧ t.endsEqual = true) ∨
      ∃ q left right, t = .literal (String.ofList (left ++ '=' :: right)) ∧ before = q :: left ∧
        after = right ++ [q] ∧ isQuote q = true ∧ q ∉ left := by
  generalize hchunk : before ++ '=' :: after = chunk at h
  cases h with
  | @literal q content quote inside =>
    right
    have hq : '=' ≠ q := by
      rintro rfl
      cases quote
    rcases List.eq_nil_or_concat after with rfl | ⟨right, d, rfl⟩
    · exact absurd (List.append_inj_right' hchunk rfl) (by simpa using hq)
    · rw [List.concat_eq_append] at hchunk ⊢
      rw [← List.cons_append, ← List.append_assoc] at hchunk
      obtain ⟨hfront, hlast⟩ := List.append_inj' hchunk rfl
      cases hlast
      cases before with
      | nil =>
        cases hfront
        exact absurd rfl hq
      | cons d left =>
        cases hfront
        exact ⟨q, left, right, rfl, rfl, rfl, quote, fun h => inside (List.mem_append_left _ h)⟩
  | equal =>
    cases before with
    | nil =>
      cases hchunk
      exact .inl ⟨rfl, rfl⟩
    | cons d before => simp at hchunk
  | compound ends plain =>
    cases before with
    | nil =>
      cases hchunk
      exact absurd rfl plain.1
    | cons d before =>
      cases before with
      | nil =>
        cases hchunk
        exact .inl ⟨rfl, ends⟩
      | cons e before => simp at hchunk
  | plain _ plain =>
    have hmem : '=' ∈ before ++ '=' :: after := List.mem_append_right _ List.mem_cons_self
    exact absurd rfl (plain _ (hchunk ▸ hmem)).1

/-- No token whose spelling ends in an equality sign stands right in front of an equality sign. -/
def Apart (ts : List Token) : Prop :=
  ts.IsChain fun t u => ¬ (t.endsEqual = true ∧ u = .equal)

/-- Two equality signs in a row stand in the text of a literal, if tokens do not come together so. -/
theorem SpellsText.exists_literal (h : SpellsText ts cs) (apart : Apart ts)
    (hcs : cs = before ++ '=' :: '=' :: after) :
    openQuote before ≠ none ∧ ∃ text, .literal text ∈ ts ∧ Text.occurs "==" text = true := by
  induction h generalizing before with
  | nil => simp at hcs
  | blank hc _ ih =>
    cases before with
    | nil =>
      cases hcs
      cases hc
    | cons d before =>
      cases hcs
      rw [openQuote_cons (isQuote_of_isBlank hc)]
      exact ih apart rfl
  | @token t ts chunk cs spelled rest ih =>
    obtain ⟨hnext, apart⟩ := List.isChain_cons.1 apart
    have behind {x : List Char} (hx : cs = x ++ '=' :: '=' :: after) :
        openQuote (chunk ++ x) ≠ none ∧
          ∃ text, .literal text ∈ t :: ts ∧ Text.occurs "==" text = true := by
      obtain ⟨hopen, text, hmem, hoccurs⟩ := ih apart hx
      rw [openQuote_append spelled.openQuote_eq]
      exact ⟨hopen, text, List.mem_cons_of_mem t hmem, hoccurs⟩
    rcases List.append_eq_append_iff.1 hcs with ⟨x, rfl, hx⟩ | ⟨x, hchunk, hx⟩
    · exact behind hx
    cases x with
    | nil =>
      rw [List.append_nil] at hchunk
      rw [← hchunk, ← List.append_nil chunk]
      exact behind hx.symm
    | cons d x =>
      rw [List.cons_append, List.cons.injEq] at hx
      obtain ⟨rfl, hx⟩ := hx
      rw [hchunk] at spelled
      rcases spelled.equal_cases with ⟨rfl, ends⟩ | ⟨q, left, right, rfl, rfl, rfl, quote, inside⟩
      · -- the second sign begins the next token
        rw [List.nil_append] at hx
        subst hx
        exact absurd ⟨ends, rfl⟩ (hnext _ rest.head_equal)
      · refine ⟨by simp [openQuote_inside quote inside], _, List.mem_cons_self, ?_⟩
        cases right with
        | nil =>
          cases hx
          cases quote
        | cons e right =>
          cases hx
          exact Text.occurs_iff.2 ⟨left, right, by simp⟩

end Crosswalk.XPath
