import Crosswalk.Proofs.JoinNames
import Crosswalk.Run.Identity

/-!
# What a key says

A key is put together from the path of a node, the texts of the types, and a rest for the role, the owner
and the place of an entity. No path holds a bar, so the path can be cut off again. The texts of the
types can be cut off as well, unless one list of types goes on like another one with a rest behind it:
a rest begins with a hyphen or an at sign.
-/

namespace Crosswalk

open Crosswalk.Xml (Location)

/-! ## Paths -/

/-- No path holds a bar. -/
theorem Xml.Document.bar_not_mem_structuralPath {d : Document} (valid : d.namesValid = true)
    {l : Location} (h : d.HasNode l) : '|' ∉ (d.structuralPath l).toList := by
  intro hmem
  rw [structuralPath_eq h, String.toList_append, List.mem_append] at hmem
  have hbelow := hmem.resolve_left (by decide)
  rw [String.toList_intercalate] at hbelow
  obtain ⟨cs, hcs, hx⟩ := mem_intercalate hbelow (by decide)
  obtain ⟨s, hs, rfl⟩ := List.mem_map.1 hcs
  rcases List.mem_append.1 hs with hs | hs
  · obtain ⟨scope, siblings, i, c, hlabel, rfl⟩ := exists_step_of_mem_labelsOf valid h.owner hs
    exact not_mem_label hlabel (by decide) (by decide) (by decide) hx
  · split at hs
    next ha =>
      rw [List.mem_singleton] at hs
      subst hs
      rw [String.toList_append, List.mem_append] at hx
      rcases hx with hx | hx
      · exact absurd hx (by decide)
      · exact not_mem_of_isNameText (isNameText_displayName valid h ha) (by decide) hx
    next => cases hs

/-! ## Types -/

/-- The types of an entity as its key shows them. -/
def typesText (types : List String) : String :=
  ",".intercalate (Text.sorted types)

/-- What follows the types in a key. -/
def keyRest (place : Place) (c : Context) (types : List String) : String :=
  c.role.keyText ++ ((c.discriminator?.map ("@" ++ ·)).getD "") ++
    (if isOwnLiteral types then literalKeyText place c else "")

theorem cacheKey_eq (source : Source) (place : Place) (c : Context) (types : List String) :
    cacheKey source place c types =
      source.path c.node ++ "|" ++ typesText types ++ keyRest place c types := by
  simp only [cacheKey, keyRest, typesText, String.append_assoc]

theorem keyText_toList (role : Role) :
    role.keyText.toList = [] ∨ ∃ rest, role.keyText.toList = '-' :: rest := by
  cases role with
  | additional k => exact .inr ⟨_, by simp [Role.keyText, String.toList_append]; rfl⟩
  | intermediate k => exact .inr ⟨_, by simp [Role.keyText, String.toList_append]; rfl⟩
  | _ => exact .inl rfl

/-- A rest begins with a hyphen or an at sign, if there is any. -/
theorem keyRest_toList (place : Place) (c : Context) (types : List String) :
    (keyRest place c types).toList = [] ∨
      ∃ x rest, (keyRest place c types).toList = x :: rest ∧ (x = '-' ∨ x = '@') := by
  simp only [keyRest, String.toList_append]
  rcases keyText_toList c.role with hrole | ⟨rest, hrole⟩
  · rw [hrole, List.nil_append]
    cases c.discriminator? with
    | some owner => exact .inr ⟨'@', _, by simp [String.toList_append]; rfl, .inr rfl⟩
    | none =>
      split
      · exact .inr ⟨'-', _, by simp [literalKeyText, String.toList_append]; rfl, .inl rfl⟩
      · exact .inl rfl
  · rw [hrole]
    exact .inr ⟨'-', _, rfl, .inl rfl⟩

/-- A text goes on behind another one as a key goes on behind its types. -/
def RunsOn (a b : String) : Prop :=
  (a ++ "-").toList <+: b.toList ∨ (a ++ "@").toList <+: b.toList

instance (a b : String) : Decidable (RunsOn a b) :=
  inferInstanceAs (Decidable (_ ∨ _))

theorem not_runsOn_of_append {a b : String} {m : List Char} {s : List Char}
    (hb : b.toList = a.toList ++ m) (hm : m ≠ [])
    (hs : ∃ t, s = m ++ t) (hrest : s = [] ∨ ∃ x rest, s = x :: rest ∧ (x = '-' ∨ x = '@')) :
    RunsOn a b := by
  obtain ⟨x, m, rfl⟩ := List.exists_cons_of_ne_nil hm
  obtain ⟨t, rfl⟩ := hs
  rcases hrest with hrest | ⟨y, rest, hrest, hy⟩
  · cases hrest
  · cases hrest
    rcases hy with rfl | rfl
    · exact .inl ⟨m, by simp [hb, String.toList_append]⟩
    · exact .inr ⟨m, by simp [hb, String.toList_append]⟩

/-- Where no types run on like others, the types can be told from the rest of a key. -/
theorem eq_of_append_keyRest {a b : String} (hab : ¬RunsOn a b) (hba : ¬RunsOn b a)
    {place place' : Place} {c c' : Context} {types types' : List String}
    (h : a ++ keyRest place c types = b ++ keyRest place' c' types') :
    a = b ∧ keyRest place c types = keyRest place' c' types' := by
  have hchars := congrArg String.toList h
  rw [String.toList_append, String.toList_append] at hchars
  rcases List.append_eq_append_iff.1 hchars with ⟨m, hb, hm⟩ | ⟨m, ha, hm⟩
  · by_cases hnil : m = []
    · subst hnil
      rw [List.append_nil] at hb
      exact ⟨String.toList_inj.1 hb.symm, String.toList_inj.1 hm⟩
    · exact absurd (not_runsOn_of_append hb hnil ⟨_, hm⟩ (keyRest_toList ..)) hab
  · by_cases hnil : m = []
    · subst hnil
      rw [List.append_nil] at ha
      exact ⟨String.toList_inj.1 ha, String.toList_inj.1 hm.symm⟩
    · exact absurd (not_runsOn_of_append ha hnil ⟨_, hm⟩ (keyRest_toList ..)) hba

/-- Keys with one text are of one node and of one text of types, where these can be told apart. -/
theorem eq_of_cacheKey_eq {source : Source} (valid : source.document.namesValid = true)
    (names : source.document.NamesApart) {place place' : Place} {c c' : Context}
    {types types' : List String} (hc : source.document.HasNode c.node)
    (hc' : source.document.HasNode c'.node)
    (hruns : ¬RunsOn (typesText types) (typesText types'))
    (hruns' : ¬RunsOn (typesText types') (typesText types))
    (h : cacheKey source place c types = cacheKey source place' c' types') :
    c.node = c'.node ∧ typesText types = typesText types' ∧
      keyRest place c types = keyRest place' c' types' := by
  rw [cacheKey_eq, cacheKey_eq] at h
  have hchars := congrArg String.toList h
  simp only [String.toList_append, List.append_assoc] at hchars
  obtain ⟨hpath, hrest⟩ := Text.append_first_inj
    (Xml.Document.bar_not_mem_structuralPath valid hc)
    (Xml.Document.bar_not_mem_structuralPath valid hc') hchars
  rw [← String.toList_append, ← String.toList_append] at hrest
  obtain ⟨htypes, hkeyRest⟩ := eq_of_append_keyRest hruns hruns' (String.toList_inj.1 hrest)
  exact ⟨Xml.Document.eq_of_structuralPath_eq valid names hc hc' (String.toList_inj.1 hpath),
    htypes, hkeyRest⟩

/-! ## Literals -/

theorem not_mem_toDigits {x : Char} (hx : x.isDigit = false) (n : Nat) : x ∉ Nat.toDigits 10 n := by
  intro hmem
  rw [Nat.isDigit_of_mem_toDigits (by decide) (by decide) hmem] at hx
  cases hx

theorem not_mem_name (role : Role) : ':' ∉ role.name.toList := by
  have hnumber (n : Nat) : ':' ∉ Nat.toDigits 10 n := not_mem_toDigits (by decide) n
  cases role with
  | additional k => simp [Role.name, String.toList_append, hnumber]
  | intermediate k => simp [Role.name, String.toList_append, hnumber]
  | _ => decide

theorem toDigits_injective {m n : Nat} (h : Nat.toDigits 10 m = Nat.toDigits 10 n) : m = n := by
  rw [← Nat.ofDigitChars_ten_toDigits (n := m), h, Nat.ofDigitChars_ten_toDigits]

theorem Role.name_injective {role role' : Role} (h : role.name = role'.name) : role = role' := by
  have hchars := congrArg String.toList h
  cases role <;> cases role' <;>
    simp [Role.name, String.toList_append] at hchars ⊢
  · exact toDigits_injective hchars
  · exact toDigits_injective hchars

/-- The text of a literal, divided where it can be divided again. -/
theorem literalKeyText_toList (place : Place) (c : Context) :
    (literalKeyText place c).toList =
      "-lit:".toList ++ 'm' :: (Nat.toDigits 10 place.mapping ++ [':']) ++
        'l' :: Nat.toDigits 10 (place.link?.getD 0) ++ ':' :: c.role.name.toList ++
        ':' :: Nat.toDigits 10 c.position := by
  simp [literalKeyText, String.toList_append]

/-- What a key says about an entity with the types of a literal: where it is described, in which role,
and at which position. -/
theorem eq_of_literalKeyText {a b : String} {place place' : Place} {c c' : Context}
    (h : a ++ literalKeyText place c = b ++ literalKeyText place' c') :
    place.mapping = place'.mapping ∧ place.link?.getD 0 = place'.link?.getD 0 ∧
      c.role = c'.role ∧ c.position = c'.position := by
  have hchars := congrArg String.toList h
  simp only [String.toList_append, literalKeyText_toList, ← List.append_assoc] at hchars
  have hcolon (n : Nat) : ':' ∉ Nat.toDigits 10 n := not_mem_toDigits (by decide) n
  have hletter (n : Nat) : 'l' ∉ Nat.toDigits 10 n := not_mem_toDigits (by decide) n
  have hmapping (n : Nat) : 'm' ∉ Nat.toDigits 10 n ++ [':'] := by
    rw [List.mem_append, not_or]
    exact ⟨not_mem_toDigits (by decide) n, by decide⟩
  obtain ⟨hchars, hposition⟩ := Text.append_last_inj (hcolon _) (hcolon _) hchars
  obtain ⟨hchars, hrole⟩ := Text.append_last_inj (not_mem_name _) (not_mem_name _) hchars
  obtain ⟨hchars, hlink⟩ := Text.append_last_inj (hletter _) (hletter _) hchars
  obtain ⟨-, hmapping⟩ := Text.append_last_inj (hmapping _) (hmapping _) hchars
  exact ⟨toDigits_injective (List.append_cancel_right hmapping), toDigits_injective hlink,
    Role.name_injective (String.toList_inj.1 hrole), toDigits_injective hposition⟩

/-- For one entity of a mapping a key only speaks of the path of the node, and of the position if the types
are those of a literal. -/
theorem cacheKey_fresh_eq_iff {source : Source} {place : Place} {role : Role} {n n' : Location}
    {k k' : Nat} {types : List String} :
    cacheKey source place (.fresh role n k none) types =
        cacheKey source place (.fresh role n' k' none) types ↔
      source.path n = source.path n' ∧ (isOwnLiteral types = true → k = k') := by
  have hcancel (a b c : String) : a ++ c = b ++ c ↔ a = b := by
    rw [← String.toList_inj, String.toList_append, String.toList_append, List.append_cancel_right_eq,
      String.toList_inj]
  rw [cacheKey_eq, cacheKey_eq]
  by_cases hliteral : isOwnLiteral types = true
  · constructor
    · intro h
      simp only [keyRest, if_pos hliteral, ← String.append_assoc] at h
      obtain ⟨-, -, -, rfl⟩ := eq_of_literalKeyText h
      simp only [Context.fresh, literalKeyText, hcancel, ← String.append_assoc] at h
      exact ⟨h, fun _ => rfl⟩
    · rintro ⟨hpath, hposition⟩
      obtain rfl := hposition hliteral
      exact congrArg (· ++ "|" ++ typesText types ++ _) hpath
  · simp only [keyRest, if_neg hliteral, Context.fresh, hcancel]
    exact ⟨fun h => ⟨h, fun hl => absurd hl hliteral⟩, And.left⟩

end Crosswalk
