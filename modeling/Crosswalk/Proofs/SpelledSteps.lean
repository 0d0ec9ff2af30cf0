import Crosswalk.Proofs.ContinuedRanges
import Crosswalk.Proofs.StructuralPath
import Crosswalk.Proofs.WholeNumbers
import Mathlib.Data.Bool.AllAny

/-!
# Steps as they are spelled

Which texts are read as a given step, and which ones as a path of such steps. A name is one token,
whatever word it is, and what follows it decides what the word means: a bracket or the end of the text
makes it a name. So an element may be called like an operator, an axis or a kind of nodes.
-/

namespace Crosswalk.XPath

variable {c : Char} {cs rest left : List Char} {t : Token} {ts us : List Token} {s : String}

/-! ## Names -/

/-- Whether a text is one name without an alias. -/
def isName (s : String) : Bool :=
  match s.toList with
  | c :: rest => isNameStart c && rest.all isNameChar
  | [] => false

theorem isNameChar_of_isNameStart (h : isNameStart c = true) : isNameChar c = true := by
  simp only [isNameStart, Bool.or_eq_true] at h
  simp only [isNameChar, Text.isAlphanumeric, Bool.or_eq_true]
  rcases h with h | h <;> simp [h]

theorem isName_cons (h : isName s = true) :
    ∃ c cs, s.toList = c :: cs ∧ isNameStart c = true ∧ ∀ d ∈ c :: cs, isNameChar d = true := by
  unfold isName at h
  split at h
  next c cs hs =>
    rw [Bool.and_eq_true, List.all_eq_true] at h
    exact ⟨c, cs, hs, h.1, List.forall_mem_cons.2 ⟨isNameChar_of_isNameStart h.1, h.2⟩⟩
  next => cases h

theorem isNameChar_of_mem (h : isName s = true) (hc : c ∈ s.toList) : isNameChar c = true := by
  obtain ⟨d, cs, hs, -, hall⟩ := isName_cons h
  exact hall c (hs ▸ hc)

theorem not_mem_of_isName (h : isName s = true) (hc : isNameChar c = false) : c ∉ s.toList := by
  intro hmem
  rw [isNameChar_of_mem h hmem] at hc
  cases hc

/-! ## Cutting off a word or a number -/

/-- A run ends where a character comes that is not of it. -/
theorem takeWhile_append_of_ends {p : Char → Bool} (hcs : ∀ c ∈ cs, p c = true)
    (hrest : ∀ d ∈ rest.head?, p d = false) :
    (cs ++ rest).takeWhile p = cs ∧ (cs ++ rest).dropWhile p = rest := by
  rw [List.takeWhile_append_of_pos hcs, List.dropWhile_append_of_pos hcs]
  cases rest with
  | nil => simp
  | cons d rest => simp [hrest d rfl]

theorem mem_digits_of_isDigit (h : c.isDigit = true) : c ∈ (List.range' 48 10).map Char.ofNat := by
  simp only [Char.isDigit, Bool.and_eq_true, decide_eq_true_eq, ge_iff_le,
    UInt32.le_iff_toNat_le] at h
  refine List.mem_map.2 ⟨c.toNat, List.mem_range'_1.2 ?_, Char.ofNat_toNat c⟩
  exact ⟨h.1, Nat.lt_succ_of_le h.2⟩

theorem nextToken_of_isNameStart (hc : isNameStart c = true) (rest : List Char) :
    nextToken c rest = nameToken (c :: rest.takeWhile isNameChar) (rest.dropWhile isNameChar) := by
  have hother : ∀ d ∈ '.' :: '!' :: ':' :: '"' :: '\'' :: signs, isNameStart d = false :=
    List.all_iff_forall_prop.1 (by decide +kernel)
  have hne (d : Char) (hd : d ∈ '.' :: '!' :: ':' :: '"' :: '\'' :: signs) : c ≠ d := by
    rintro rfl
    rw [hother c hd] at hc
    cases hc
  have hdigit : c.isDigit = false := by
    have hdigits : ∀ d ∈ (List.range' 48 10).map Char.ofNat, isNameStart d = false :=
      List.all_iff_forall_prop.1 (by decide +kernel)
    rw [Bool.eq_false_iff]
    intro h
    rw [hdigits c (mem_digits_of_isDigit h)] at hc
    cases hc
  have hsign : c ∉ signs := fun h => hne c (by simp [h]) rfl
  have hpair : ∀ d, (c, d) ∈ pairedSigns → ∀ after, rest ≠ d :: after := by
    intro d hd
    simp only [pairedSigns, List.mem_cons, Prod.mk.injEq, List.not_mem_nil, or_false] at hd
    rcases hd with ⟨h, -⟩ | ⟨h, -⟩ | ⟨h, -⟩ <;> exact absurd h (hne _ (by simp))
  rw [nextToken_eq_wordToken hsign hpair, wordToken]
  simp [hne, hdigit, hc]

theorem tokensIn_cons (hc : isSpace c = false) (hnext : nextToken c rest = .ok (t, left))
    (h : tokensIn left = .ok ts) : tokensIn (c :: rest) = .ok (t :: ts) :=
  (tokensIn_cons_ok hc).2 ⟨t, left, ts, hnext, h, rfl⟩

theorem isSpace_of_isNameChar (h : isNameChar c = true) : isSpace c = false := by
  have hspaces : ∀ d ∈ [' ', '\t', '\n', '\r'], isNameChar d = false :=
    List.all_iff_forall_prop.1 (by decide +kernel)
  rw [Bool.eq_false_iff]
  intro hspace
  have hmem : c ∈ [' ', '\t', '\n', '\r'] := by simpa [isSpace, or_assoc] using hspace
  rw [hspaces c hmem] at h
  cases h

/-- A name is cut off where neither more of it nor a colon follows. -/
theorem tokensIn_name (hs : isName s = true)
    (hrest : ∀ d ∈ rest.head?, isNameChar d = false ∧ d ≠ ':') (h : tokensIn rest = .ok ts) :
    tokensIn (s.toList ++ rest) = .ok (.name s :: ts) := by
  obtain ⟨c, cs, hcs, hstart, hall⟩ := isName_cons hs
  obtain ⟨htake, hdrop⟩ := takeWhile_append_of_ends (List.forall_mem_cons.1 hall).2
    fun d hd => (hrest d hd).1
  rw [hcs, List.cons_append]
  refine tokensIn_cons (isSpace_of_isNameChar (hall c List.mem_cons_self)) ?_ h
  rw [nextToken_of_isNameStart hstart, htake, hdrop, ← hcs]
  unfold nameToken
  split
  · exact absurd rfl (hrest _ rfl).2
  · exact absurd rfl (hrest _ rfl).2
  · exact absurd rfl (hrest _ rfl).2
  · rw [String.ofList_toList]

/-- The digits of a number are cut off where neither a digit nor a point follows. -/
theorem tokensIn_digits {n : Nat} (hn : n < 2 ^ 53)
    (hrest : ∀ d ∈ rest.head?, (d.isDigit || d == '.') = false) (h : tokensIn rest = .ok ts) :
    tokensIn (Nat.toDigits 10 n ++ rest) = .ok (.number (.ofNat n) :: ts) := by
  have hread : numberToken (Nat.toDigits 10 n) = .ok (.number (.ofNat n)) := by
    rw [numberToken, Number.read?_toDigits hn]
  have hdigits : ∀ c ∈ Nat.toDigits 10 n, c.isDigit = true :=
    fun c hc => Nat.isDigit_of_mem_toDigits (by decide) (by decide) hc
  obtain ⟨c, cs, hcs⟩ := List.exists_cons_of_ne_nil (Nat.toDigits_ne_nil (n := n) (b := 10))
  rw [hcs] at hread hdigits ⊢
  have hc := mem_digits_of_isDigit (hdigits c List.mem_cons_self)
  have hplain : ∀ d ∈ (List.range' 48 10).map Char.ofNat, isSpace d = false ∧ d ∉ signs ∧
      (∀ p ∈ pairedSigns, p.1 ≠ d) ∧ (d == '.') = false ∧ (d == '"' || d == '\'') = false :=
    List.all_iff_forall_prop.1 (by decide +kernel)
  obtain ⟨hspace, hsign, hpair, hdot, hquote⟩ := hplain c hc
  have hrun : ∀ d ∈ cs, (d.isDigit || d == '.') = true := fun d hd => by
    simp [hdigits d (List.mem_cons_of_mem c hd)]
  obtain ⟨htake, hdrop⟩ := takeWhile_append_of_ends (p := fun d => d.isDigit || d == '.') hrun hrest
  rw [List.cons_append]
  refine tokensIn_cons hspace ?_ h
  rw [nextToken_eq_wordToken hsign fun d hd => absurd rfl (hpair _ hd), wordToken, hdot, hquote]
  simp only [Bool.false_eq_true, if_false, hdigits c List.mem_cons_self, if_true]
  rw [htake, hdrop, hread]
  rfl

/-! ## Steps as they are spelled

A step of a path is spelled by a text: the tokens of the text are those of the step, whatever follows.
Nothing in it is blank. -/

/-- The text is that of the step. -/
structure Spells (s : String) (step : Step) : Prop where
  phrase : ∃ ts, tokensIn s.toList = .ok ts ∧ StepPhrase ts step []
  solid : ∀ c ∈ s.toList, Text.isBlank c = false

/-- The text asks for the nodes that pass the test, if a bracket follows. -/
structure SpellsTest (s : String) (test : NodeTest) : Prop where
  phrase : ∀ more us, tokensIn ('[' :: more) = .ok us →
    ∃ ts, tokensIn (s.toList ++ '[' :: more) = .ok ts ∧ TestPhrase ts test us
  solid : ∀ c ∈ s.toList, Text.isBlank c = false

theorem isBlank_of_isNameChar (h : isNameChar c = true) : Text.isBlank c = false := by
  have hblank : ∀ n ∈ blankPoints, isNameChar (Char.ofNat n) = false := by decide +kernel
  rw [Bool.eq_false_iff]
  intro hc
  have := hblank c.toNat (toNat_mem_blankPoints hc)
  rw [Char.ofNat_toNat, h] at this
  cases this

theorem isBlank_of_isName (h : isName s = true) : ∀ c ∈ s.toList, Text.isBlank c = false :=
  fun _ hc => isBlank_of_isNameChar (isNameChar_of_mem h hc)

theorem nameForm_of_isName (h : isName s = true) : NameForm s (.name none s) :=
  .plain s (not_mem_of_isName h (by decide +kernel))

theorem SpellsTest.name (h : isName s = true) : SpellsTest s (.name none s) where
  phrase more us hus := by
    refine ⟨_, tokensIn_name h ?_ hus, .name (nameForm_of_isName h) us⟩
    rintro _ ⟨⟩
    exact ⟨by decide +kernel, by decide⟩
  solid := isBlank_of_isName h

theorem SpellsTest.kind {test : NodeTest} (h : KindName s test) : SpellsTest (s ++ "()") test := by
  have hs : isName s = true := by cases h <;> decide +kernel
  have hlist : (s ++ "()").toList = s.toList ++ ['(', ')'] := String.toList_append
  refine ⟨fun more us hus => ⟨_, ?_, .kind h us⟩, fun c hc => ?_⟩
  · rw [hlist, List.append_assoc]
    refine tokensIn_name hs ?_ ?_
    · rintro _ ⟨⟩
      exact ⟨by decide +kernel, by decide⟩
    · exact tokensIn_cons (by decide) rfl (tokensIn_cons (by decide) rfl hus)
  · rw [hlist, List.mem_append] at hc
    rcases hc with hc | hc
    · exact isBlank_of_isName hs c hc
    · obtain rfl | rfl : c = '(' ∨ c = ')' := by simpa using hc
      all_goals decide

/-- A number in brackets is a predicate. -/
theorem PredicatesPhrase.number (n : Number) :
    PredicatesPhrase [.openBracket, .number n, .closeBracket] [.number n] [] := by
  refine .cons ?_ (.none [])
  exact PathPhrase.level (.filter (.number n _) (.none _) (.none _))

theorem SpellsTest.step {test : NodeTest} {n : Nat} (h : SpellsTest s test) (hn : n < 2 ^ 53) :
    Spells (s ++ "[" ++ toString n ++ "]") ⟨.child, test, [.number (.ofNat n)]⟩ := by
  have hlist : (s ++ "[" ++ toString n ++ "]").toList =
      s.toList ++ '[' :: (Nat.toDigits 10 n ++ [']']) := by
    simp [Nat.toString_eq_repr]
  have hplace : tokensIn ('[' :: (Nat.toDigits 10 n ++ [']'])) =
      .ok [.openBracket, .number (.ofNat n), .closeBracket] := by
    refine tokensIn_cons (by decide) rfl (tokensIn_digits hn ?_ ?_)
    · rintro _ ⟨⟩
      decide
    · exact tokensIn_cons (by decide) rfl rfl
  obtain ⟨ts, hts, htest⟩ := h.phrase _ _ hplace
  refine ⟨⟨ts, hlist ▸ hts, .tested (.omitted _) htest (.number _)⟩, fun c hc => ?_⟩
  rw [hlist, List.mem_append, List.mem_cons, List.mem_append, List.mem_singleton] at hc
  rcases hc with hc | rfl | hc | rfl
  · exact h.solid c hc
  · decide
  · exact Text.isBlank_of_isDigit (Nat.isDigit_of_mem_toDigits (by decide) (by decide) hc)
  · decide

theorem spells_attribute (h : isName s = true) :
    Spells ("@" ++ s) ⟨.attributes, .name none s, []⟩ := by
  have hlist : ("@" ++ s).toList = '@' :: s.toList := String.toList_append
  have hname : tokensIn (s.toList ++ []) = .ok [.name s] :=
    tokensIn_name h (by rintro _ ⟨⟩) rfl
  rw [List.append_nil] at hname
  refine ⟨⟨_, hlist ▸ tokensIn_cons (by decide) rfl hname, ?_⟩, fun c hc => ?_⟩
  · exact .tested (.atSign _) (.name (nameForm_of_isName h) _) (.none _)
  · rw [hlist, List.mem_cons] at hc
    rcases hc with rfl | hc
    · decide
    · exact isBlank_of_isName h c hc

/-! ## Paths as they are spelled -/

variable {segments : List String} {steps : List Step}

/-- A text of steps does not begin with a slash. -/
theorem ne_slash_of_steps (hts : tokensIn cs = .ok ts) (h : StepsPhrase ts steps [])
    (after : List Char) : cs ≠ '/' :: after := by
  rintro rfl
  obtain ⟨t, more, rfl, hbegins, -⟩ := h.begins (avoids_nil _)
  have hstarts := head?_of_tokensIn_slash hts
  rw [startsStep_cons.2 hbegins] at hstarts
  cases hstarts

/-- What is spelled between slashes is read as one step after the other. -/
theorem exists_stepsPhrase (h : List.Forall₂ Spells segments steps) (hne : segments ≠ []) :
    ∃ ts, tokensIn ("/".intercalate segments).toList = .ok ts ∧ StepsPhrase ts steps [] := by
  induction h with
  | nil => exact absurd rfl hne
  | @cons s step segments steps hs hmore ih =>
    obtain ⟨ts, hts, hphrase⟩ := hs.phrase
    cases segments with
    | nil =>
      cases hmore
      exact ⟨ts, by rwa [String.intercalate_singleton], .last hphrase⟩
    | cons s' segments =>
      obtain ⟨us, hus, hbehind⟩ := ih (List.cons_ne_nil _ _)
      have hlist : ("/".intercalate (s :: s' :: segments)).toList =
          s.toList ++ '/' :: ("/".intercalate (s' :: segments)).toList := by
        simp [String.toList_intercalate]
      have hslash := (tokensIn_slash (ne_slash_of_steps hus hbehind)).2 ⟨us, hus, rfl⟩
      refine ⟨ts ++ .slash :: us, ?_, .child (hphrase.append ?_ ) hbehind⟩
      · rw [hlist]
        exact (tokensIn_append_slash hts hphrase.endsApart).2 ⟨_, hslash, rfl⟩
      · exact Junction.child.noStep us

theorem solid_intercalate (h : List.Forall₂ Spells segments steps) :
    ∀ c ∈ ("/" ++ "/".intercalate segments).toList, Text.isBlank c = false := by
  intro c hc
  rw [String.toList_append, List.mem_append] at hc
  rcases hc with hc | hc
  · obtain rfl : c = '/' := by simpa using hc
    decide
  · by_cases hslash : c = '/'
    · rw [hslash]
      decide
    · rw [String.toList_intercalate] at hc
      obtain ⟨_, hmem, hc⟩ := Xml.Document.mem_intercalate hc (by simpa using hslash)
      obtain ⟨s, hs, rfl⟩ := List.mem_map.1 hmem
      obtain ⟨step, -, hspells⟩ := exists_mem_right_of_forall₂ h hs
      exact hspells.solid c hc

theorem trim_of_solid (h : ∀ c ∈ s.toList, Text.isBlank c = false) : Text.trim s = s := by
  rw [Text.trim, Text.trimChars_of_solid h, String.ofList_toList]

/-- A text that spells steps behind slashes is read as the path of these steps from the document node. -/
theorem parse_of_spells (h : List.Forall₂ Spells segments steps) :
    Expr.parse (Text.trim ("/" ++ "/".intercalate segments)) = .ok (.path true steps) := by
  rw [trim_of_solid (solid_intercalate h)]
  by_cases hne : segments = []
  · subst hne
    cases h
    have htokens : tokens "/" = .ok [.slash] := by decide +kernel
    exact parse_eq_ok_of_derives htokens (PathPhrase.level (.root _ (by rintro _ ⟨⟩)))
  · obtain ⟨ts, hts, hphrase⟩ := exists_stepsPhrase h hne
    have hslash := (tokensIn_slash (ne_slash_of_steps hts hphrase)).2 ⟨ts, hts, rfl⟩
    have hlist : ("/" ++ "/".intercalate segments).toList = '/' :: ("/".intercalate segments).toList :=
      String.toList_append
    refine parse_eq_ok_of_derives ?_ (PathPhrase.level (.absolute hphrase))
    rw [tokens_eq, hlist, hslash]

end Crosswalk.XPath
