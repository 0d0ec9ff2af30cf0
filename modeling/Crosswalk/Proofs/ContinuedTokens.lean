import Crosswalk.Proofs.Results
import Crosswalk.Text.Blank
import Crosswalk.XPath.Token

/-!
# Tokens of a text that goes on

No token but a slash is changed by a slash behind it: a slash is no part of a name or of a number, and it
completes no sign but `//`. So a text that has been cut into tokens keeps them when something is written
behind it that begins with a slash, and the tokens of the addition follow.

Blanks in front of a text or behind it do not matter either, as long as the text can be cut at all; the
blanks that separate tokens are four, those that are trimmed are many more, and no token begins with
one of the others.
-/

namespace Crosswalk.XPath

variable {c : Char} {cs rest left more : List Char} {t : Token} {ts us : List Token}

theorem takeWhile_append_slash {p : Char → Bool} (hp : p '/' = false) :
    (cs ++ '/' :: more).takeWhile p = cs.takeWhile p := by
  induction cs with
  | nil => simp [hp]
  | cons c cs ih => by_cases h : p c = true <;> simp [h, ih]

theorem dropWhile_append_slash {p : Char → Bool} (hp : p '/' = false) :
    (cs ++ '/' :: more).dropWhile p = cs.dropWhile p ++ '/' :: more := by
  induction cs with
  | nil => simp [hp]
  | cons c cs ih => by_cases h : p c = true <;> simp [h, ih]

theorem isNameChar_slash : isNameChar '/' = false := by decide +kernel

/-- A slash makes no difference to what a list begins with. -/
theorem append_slash_ne {d : Char} (hd : d ≠ '/') (h : ∀ after, rest ≠ d :: after)
    (after : List Char) : rest ++ '/' :: more ≠ d :: after := by
  cases rest with
  | nil =>
    rintro ⟨⟩
    exact hd rfl
  | cons e rest =>
    rintro ⟨⟩
    exact h rest rfl

theorem nameToken_append_slash {first : List Char} (h : nameToken first rest = .ok (t, left)) :
    nameToken first (rest ++ '/' :: more) = .ok (t, left ++ '/' :: more) := by
  unfold nameToken at h
  split at h
  · cases h
    rfl
  · cases h
    rfl
  next after hmark hstar =>
    split at h
    next hstart =>
      cases h
      cases after with
      | nil => cases hstart
      | cons d after =>
        rw [List.cons_append, nameToken]
        · rw [if_pos (by exact hstart), takeWhile_append_slash isNameChar_slash,
            dropWhile_append_slash isNameChar_slash]
        · rintro _ ⟨⟩
          exact hmark after rfl
        · rintro _ ⟨⟩
          exact hstar after rfl
    next => cases h
  next hcolon =>
    cases h
    have hslash : ∀ after, rest ++ '/' :: more ≠ ':' :: after := append_slash_ne (by decide) hcolon
    rw [nameToken]
    · exact fun after => hslash _
    · exact fun after => hslash _
    · exact hslash

/-- The token that begins with a character that stands for no sign. -/
def wordToken (c : Char) (rest : List Char) : Except Fault (Token × List Char) :=
  if c == '.' then
    if rest.head?.any Char.isDigit then do
      .ok (← numberToken (c :: rest.takeWhile Char.isDigit), rest.dropWhile Char.isDigit)
    else .ok (.dot, rest)
  else if c == '"' || c == '\'' then
    match rest.dropWhile (· != c) with
    | _ :: after => .ok (.literal (String.ofList (rest.takeWhile (· != c))), after)
    | [] => .error .unterminatedLiteral
  else if c.isDigit then do
    let inNumber := fun d : Char => d.isDigit || d == '.'
    .ok (← numberToken (c :: rest.takeWhile inNumber), rest.dropWhile inNumber)
  else if isNameStart c then
    nameToken (c :: rest.takeWhile isNameChar) (rest.dropWhile isNameChar)
  else .error (.unexpectedCharacter c)

/-- The signs of one character, and those of two. -/
def signs : List Char :=
  ['/', '@', ',', '(', ')', '[', ']', '|', '*', '-', '=', '<', '>']

def pairedSigns : List (Char × Char) :=
  [('.', '.'), ('!', '='), (':', ':')]

theorem nextToken_eq_wordToken (hsign : c ∉ signs)
    (hpair : ∀ d, (c, d) ∈ pairedSigns → ∀ after, rest ≠ d :: after) :
    nextToken c rest = wordToken c rest := by
  unfold nextToken
  split
  case h_20 => rfl
  all_goals simp [signs, pairedSigns] at hsign hpair

theorem head?_append_slash {p : Char → Bool} (hp : p '/' = false) :
    (rest ++ '/' :: more).head?.any p = rest.head?.any p := by
  cases rest <;> simp [hp]

theorem wordToken_append_slash (h : wordToken c rest = .ok (t, left)) :
    wordToken c (rest ++ '/' :: more) = .ok (t, left ++ '/' :: more) := by
  unfold wordToken at h ⊢
  split at h
  next hdot =>
    rw [if_pos hdot, head?_append_slash (by decide)]
    split at h
    next hdigit =>
      obtain ⟨number, hnumber, h⟩ := bind_eq_ok.1 h
      cases h
      rw [if_pos hdigit, takeWhile_append_slash (by decide), dropWhile_append_slash (by decide),
        hnumber]
      rfl
    next hdigit =>
      cases h
      rw [if_neg hdigit]
  next hdot =>
    rw [if_neg hdot]
    split at h
    next hquote =>
      rw [if_pos hquote]
      split at h
      next q after hafter =>
        cases h
        have hshort : (rest.takeWhile (· != c)).length ≠ rest.length := by
          intro hlength
          have hsum := congrArg List.length (List.takeWhile_append_dropWhile (p := (· != c)) (l := rest))
          rw [List.length_append, hlength, hafter, List.length_cons] at hsum
          omega
        rw [List.dropWhile_append, List.takeWhile_append, hafter, if_neg hshort]
        rfl
      next => cases h
    next hquote =>
      rw [if_neg hquote]
      split at h
      next hdigit =>
        obtain ⟨number, hnumber, h⟩ := bind_eq_ok.1 h
        cases h
        rw [if_pos hdigit]
        dsimp only
        rw [takeWhile_append_slash (by decide), dropWhile_append_slash (by decide), hnumber]
        rfl
      next hdigit =>
        rw [if_neg hdigit]
        split at h
        next hstart =>
          rw [if_pos hstart, takeWhile_append_slash isNameChar_slash,
            dropWhile_append_slash isNameChar_slash]
          exact nameToken_append_slash h
        next => cases h

/-- A token that has been cut off stays the same if a slash is written behind the text, unless it is
a slash itself that ends the text. -/
theorem nextToken_append_slash (h : nextToken c rest = .ok (t, left))
    (ht : t = .slash → left ≠ []) :
    nextToken c (rest ++ '/' :: more) = .ok (t, left ++ '/' :: more) := by
  unfold nextToken at h
  split at h
  case h_2 hslash =>
    cases h
    cases rest with
    | nil => exact absurd rfl (ht rfl)
    | cons d rest =>
      rw [List.cons_append, nextToken]
      rintro after ⟨⟩
      exact hslash rest rfl
  case h_16 hequal =>
    cases h
    rw [nextToken]
    exact append_slash_ne (by decide) hequal
  case h_18 hequal =>
    cases h
    rw [nextToken]
    exact append_slash_ne (by decide) hequal
  case h_20 =>
    rw [nextToken_eq_wordToken]
    · exact wordToken_append_slash h
    · simp only [signs, List.mem_cons, List.not_mem_nil, or_false, not_or]
      and_intros <;> assumption
    · intro d hd
      simp only [pairedSigns, List.mem_cons, Prod.mk.injEq, List.not_mem_nil, or_false] at hd
      rcases hd with ⟨rfl, rfl⟩ | ⟨rfl, rfl⟩ | ⟨rfl, rfl⟩
      all_goals exact append_slash_ne (by decide) fun after hrest => by simp_all
  all_goals
    cases h
    simp [nextToken]

/-! ## Cutting a text that goes on -/

theorem suffix_of_nameToken {first : List Char} (h : nameToken first rest = .ok (t, left)) :
    left <:+ rest := by
  unfold nameToken at h
  split at h
  · cases h
    exact List.suffix_rfl
  · cases h
    exact (List.suffix_cons _ _).trans (List.suffix_cons _ _)
  · split at h
    · cases h
      exact (List.dropWhile_suffix _).trans (List.suffix_cons _ _)
    · cases h
  · cases h
    exact List.suffix_rfl

theorem suffix_of_wordToken (h : wordToken c rest = .ok (t, left)) : left <:+ rest := by
  unfold wordToken at h
  split at h
  · split at h
    · obtain ⟨number, -, h⟩ := bind_eq_ok.1 h
      cases h
      exact List.dropWhile_suffix _
    · cases h
      exact List.suffix_rfl
  · split at h
    · split at h
      next q after hafter =>
        cases h
        exact (hafter ▸ List.suffix_cons q left).trans (List.dropWhile_suffix _)
      next => cases h
    · split at h
      · obtain ⟨number, -, h⟩ := bind_eq_ok.1 h
        cases h
        exact List.dropWhile_suffix _
      · split at h
        · exact (suffix_of_nameToken h).trans (List.dropWhile_suffix _)
        · cases h

theorem suffix_of_nextToken (h : nextToken c rest = .ok (t, left)) : left <:+ rest := by
  unfold nextToken at h
  split at h
  case h_20 => exact suffix_of_wordToken h
  all_goals
    cases h
    simp

/-- The tokens of a list of characters; the fuel is as long as it is. -/
def tokensIn (cs : List Char) : Except Fault (List Token) :=
  tokensOf cs.length cs

theorem tokens_ofList (cs : List Char) : tokens (String.ofList cs) = tokensIn cs := by
  rw [tokens, String.toList_ofList, tokensIn]

/-- Fuel that is enough does not matter. -/
theorem tokensOf_congr {fuel fuel' : Nat} (h : cs.length ≤ fuel) (h' : cs.length ≤ fuel') :
    tokensOf fuel cs = tokensOf fuel' cs := by
  induction fuel generalizing cs fuel' with
  | zero =>
    obtain rfl := List.length_eq_zero_iff.1 (Nat.le_zero.1 h)
    cases fuel' <;> rfl
  | succ fuel ih =>
    cases cs with
    | nil => cases fuel' <;> rfl
    | cons c rest =>
      cases fuel' with
      | zero => simp at h'
      | succ fuel' =>
        have hrest : rest.length ≤ fuel := Nat.le_of_succ_le_succ h
        have hrest' : rest.length ≤ fuel' := Nat.le_of_succ_le_succ h'
        rw [tokensOf, tokensOf, ih hrest hrest']
        cases hnext : nextToken c rest with
        | error fault => rfl
        | ok cut =>
          obtain ⟨t, left⟩ := cut
          have hleft := (suffix_of_nextToken hnext).length_le
          have heq : tokensOf fuel left = tokensOf fuel' left :=
            ih (Nat.le_trans hleft hrest) (Nat.le_trans hleft hrest')
          simp only [bind, Except.bind, heq]

theorem tokensIn_space (hc : isSpace c = true) : tokensIn (c :: rest) = tokensIn rest := by
  rw [tokensIn, List.length_cons, tokensOf, if_pos hc]
  rfl

theorem tokensIn_cons_ok (hc : isSpace c = false) : tokensIn (c :: rest) = .ok ts ↔
    ∃ t left more, nextToken c rest = .ok (t, left) ∧ tokensIn left = .ok more ∧ ts = t :: more := by
  rw [tokensIn, List.length_cons, tokensOf, if_neg (by simp [hc]), bind_eq_ok]
  constructor
  · rintro ⟨⟨t, left⟩, hnext, h⟩
    obtain ⟨more, hmore, h⟩ := bind_eq_ok.1 h
    cases h
    have hleft := (suffix_of_nextToken hnext).length_le
    exact ⟨t, left, more, hnext, (tokensOf_congr (Nat.le_refl _) hleft).trans hmore, rfl⟩
  · rintro ⟨t, left, more, hnext, hmore, rfl⟩
    have hleft := (suffix_of_nextToken hnext).length_le
    refine ⟨(t, left), hnext, bind_eq_ok.2 ⟨more, ?_, rfl⟩⟩
    exact (tokensOf_congr hleft (Nat.le_refl _)).trans hmore

/-- What is written behind a text after a slash leaves the tokens of the text as they are. -/
theorem tokensIn_append_slash (h : tokensIn cs = .ok ts) (hlast : ts.getLast? ≠ some .slash) :
    tokensIn (cs ++ '/' :: more) = .ok us ↔
      ∃ vs, tokensIn ('/' :: more) = .ok vs ∧ us = ts ++ vs := by
  induction hn : cs.length using Nat.strongRecOn generalizing cs ts us with
  | ind n ih =>
    subst hn
    cases cs with
    | nil =>
      cases h
      simp
    | cons c rest =>
      rw [List.cons_append]
      cases hc : isSpace c with
      | true =>
        rw [tokensIn_space hc] at h ⊢
        exact ih rest.length (Nat.lt_succ_self _) h hlast rfl
      | false =>
        obtain ⟨t, left, others, hnext, hothers, rfl⟩ := (tokensIn_cons_ok hc).1 h
        have hleft := (suffix_of_nextToken hnext).length_le
        have hnext' : nextToken c (rest ++ '/' :: more) = .ok (t, left ++ '/' :: more) := by
          refine nextToken_append_slash hnext ?_
          rintro rfl rfl
          cases hothers
          exact hlast rfl
        have hlast' : others.getLast? ≠ some .slash := by
          intro hslash
          rw [List.getLast?_cons, hslash] at hlast
          exact hlast rfl
        have ih {us : List Token} : tokensIn (left ++ '/' :: more) = .ok us ↔
            ∃ vs, tokensIn ('/' :: more) = .ok vs ∧ us = others ++ vs :=
          ih left.length (Nat.lt_succ_of_le hleft) hothers hlast' rfl
        rw [tokensIn_cons_ok hc]
        constructor
        · rintro ⟨t', left', more', hcut, hmore', rfl⟩
          rw [hnext'] at hcut
          cases hcut
          obtain ⟨vs, hvs, rfl⟩ := ih.1 hmore'
          exact ⟨vs, hvs, rfl⟩
        · rintro ⟨vs, hvs, rfl⟩
          exact ⟨t, _, others ++ vs, hnext', ih.2 ⟨vs, hvs, rfl⟩, rfl⟩

/-- The sign that a slash begins, with the tokens behind it. -/
theorem tokensIn_slash (hmore : ∀ after, more ≠ '/' :: after) :
    tokensIn ('/' :: more) = .ok us ↔ ∃ vs, tokensIn more = .ok vs ∧ us = .slash :: vs := by
  have hnext : nextToken '/' more = .ok (.slash, more) := by
    rw [nextToken]
    exact hmore
  rw [tokensIn_cons_ok (by decide)]
  constructor
  · rintro ⟨t, left, vs, hcut, hvs, rfl⟩
    rw [hnext] at hcut
    cases hcut
    exact ⟨vs, hvs, rfl⟩
  · rintro ⟨vs, hvs, rfl⟩
    exact ⟨_, _, vs, hnext, hvs, rfl⟩

theorem tokensIn_doubleSlash : tokensIn ('/' :: '/' :: more) = .ok us ↔
    ∃ vs, tokensIn more = .ok vs ∧ us = .doubleSlash :: vs := by
  rw [tokensIn_cons_ok (by decide)]
  constructor
  · rintro ⟨t, left, vs, ⟨⟩, hvs, rfl⟩
    exact ⟨vs, hvs, rfl⟩
  · rintro ⟨vs, hvs, rfl⟩
    exact ⟨_, _, vs, rfl, hvs, rfl⟩

/-! ## Blanks around a text -/

/-- The code points of the blank characters. -/
def blankPoints : List Nat :=
  [9, 10, 11, 12, 13, 0x20, 0x85, 0xA0, 0x1680, 0x2000, 0x2001, 0x2002, 0x2003, 0x2004, 0x2005,
    0x2006, 0x2007, 0x2008, 0x2009, 0x200A, 0x2028, 0x2029, 0x202F, 0x205F, 0x3000]

theorem toNat_mem_blankPoints (h : Text.isBlank c = true) : c.toNat ∈ blankPoints := by
  simp only [Text.isBlank, Bool.or_eq_true, Bool.and_eq_true, decide_eq_true_eq, beq_iff_eq] at h
  simp only [blankPoints, List.mem_cons, List.not_mem_nil, or_false]
  omega

/-- No token begins with a blank. -/
theorem nextToken_of_isBlank (h : Text.isBlank c = true) (rest : List Char) :
    nextToken c rest = .error (.unexpectedCharacter c) := by
  have hplain : ∀ n ∈ blankPoints, Char.ofNat n ∉ signs ∧
      (∀ p ∈ pairedSigns, p.1 ≠ Char.ofNat n) ∧ ((Char.ofNat n == '.') = false) ∧
      ((Char.ofNat n == '"' || Char.ofNat n == '\'') = false) ∧
      (Char.ofNat n).isDigit = false ∧ isNameStart (Char.ofNat n) = false := by
    decide +kernel
  obtain ⟨hsign, hpair, hdot, hquote, hdigit, hstart⟩ := hplain c.toNat (toNat_mem_blankPoints h)
  rw [Char.ofNat_toNat] at hsign hpair hdot hquote hdigit hstart
  rw [nextToken_eq_wordToken hsign fun d hd => absurd rfl (hpair _ hd), wordToken, hdot, hquote,
    hdigit, hstart]
  rfl

/-- A text that can be cut into tokens has only such blanks in front as separate tokens. -/
theorem tokensIn_dropWhile_isBlank (h : tokensIn cs = .ok ts) :
    tokensIn (cs.dropWhile Text.isBlank) = .ok ts := by
  induction cs with
  | nil => exact h
  | cons c rest ih =>
    cases hblank : Text.isBlank c with
    | false => rwa [List.dropWhile_cons_of_neg (by simp [hblank])]
    | true =>
      rw [List.dropWhile_cons_of_pos hblank]
      cases hc : isSpace c with
      | true => exact ih (tokensIn_space hc ▸ h)
      | false =>
        obtain ⟨t, left, more, hnext, -⟩ := (tokensIn_cons_ok hc).1 h
        rw [nextToken_of_isBlank hblank] at hnext
        cases hnext

/-- Nothing is trimmed from the end of what a trimmed text ends with. -/
theorem dropBlankEnd_of_suffix (h : cs <:+ Text.trimChars rest) : Text.dropBlankEnd cs = cs := by
  rw [Text.trimChars, Text.dropBlankEnd, ← List.reverse_prefix, List.reverse_reverse] at h
  rw [Text.dropBlankEnd]
  cases hcs : cs.reverse with
  | nil => rw [List.reverse_eq_nil_iff.1 hcs]; rfl
  | cons c before =>
    obtain ⟨after, hafter⟩ := hcs ▸ h
    have hc : Text.isBlank c = false := by
      have := List.head?_dropWhile_not Text.isBlank (rest.dropWhile Text.isBlank).reverse
      rw [← hafter] at this
      simpa using this
    rw [List.dropWhile_cons_of_neg (by simp [hc]), ← hcs, List.reverse_reverse]

theorem tokens_trim_of_suffix {s : String} (hcs : cs <:+ (Text.trim s).toList)
    (h : tokensIn cs = .ok ts) : tokens (Text.trim (String.ofList cs)) = .ok ts := by
  rw [Text.trim, String.toList_ofList] at hcs
  have hend : Text.trimChars cs = cs.dropWhile Text.isBlank :=
    dropBlankEnd_of_suffix ((List.dropWhile_suffix _).trans hcs)
  rw [Text.trim, tokens_ofList, String.toList_ofList, hend]
  exact tokensIn_dropWhile_isBlank h

end Crosswalk.XPath
