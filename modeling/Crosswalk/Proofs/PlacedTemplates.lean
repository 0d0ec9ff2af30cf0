import Crosswalk.Proofs.PercentCodes
import Crosswalk.Proofs.Substitutions

/-!
# Templates and their namespace

A template places its URIs in a namespace, unless the local part is absolute on its own. The encoded values hold
no slashes, so it takes the template to make it so: it begins with a part of a scheme that a value can complete, or
two slashes follow a hole directly, to which a value can supply the colon. Any other template, and any template that
is shortened, keeps all its URIs in the namespace.
-/

namespace Crosswalk

open Text (percentEncode isSegmentChar)
open Template (Part Matches)

/-- The texts between the holes, the first and the last one included. -/
def literalTexts (parts : List Part) (last : List Char) : List (List Char) :=
  parts.map Part.before ++ [last]

/-- Values can make the filled template absolute. -/
def IsOpen (parts : List Part) (last : List Char) : Prop :=
  (∃ p ∈ parts.head?, ∃ scheme ∈ ["urn:", "uuid:"], p.before <+: scheme.toList) ∨
    ∃ text ∈ (literalTexts parts last).tail, ['/', '/'] <+: text

instance {parts : List Part} {last : List Char} : Decidable (IsOpen parts last) :=
  inferInstanceAs (Decidable (_ ∨ _))

/-- A value completes `ur` to a scheme. Slashes at the very beginning have no hole before them. -/
example : IsOpen [⟨"ur".toList, "id".toList⟩] [] ∧ ¬IsOpen [⟨"//".toList, "id".toList⟩] [] := by decide

variable {cs last text more : List Char} {parts : List Part} {values : List ArgumentValue} {template : String}

/-! ## Absolute texts -/

theorem isAbsolute_iff {s : String} : Namespaces.isAbsolute s = true ↔
    [':', '/', '/'] <:+: s.toList ∨ ∃ scheme ∈ ["urn:", "uuid:"], scheme.toList <+: s.toList := by
  simp only [Namespaces.isAbsolute, Bool.or_eq_true, Text.occurs_iff, Text.startsWith_iff, List.mem_cons,
    List.not_mem_nil, or_false, exists_eq_or_imp, exists_eq_left, or_assoc]
  exact or_congr (exists₂_congr fun _ _ => eq_comm)
    (or_congr (exists_congr fun _ => eq_comm) (exists_congr fun _ => eq_comm))

/-- What is written between the holes stands in the template. -/
theorem infix_of_mem_literalTexts (h : Matches cs parts last) :
    ∀ text ∈ literalTexts parts last, text <:+: cs := by
  induction h with
  | last => exact List.forall_mem_singleton.2 (List.infix_refl _)
  | @part _ before name after _ _ leftmost _ ih =>
    obtain ⟨⟨rfl, -, -⟩, -⟩ := leftmost
    have hafter : after <:+: before ++ '{' :: (name ++ '}' :: after) :=
      ⟨before ++ '{' :: (name ++ ['}']), [], by simp⟩
    exact List.forall_mem_cons.2
      ⟨(List.prefix_append _ _).isInfix, fun text htext => (ih text htext).trans hafter⟩

theorem before_isPrefix_of_mem_head? (h : Matches cs parts last) : ∀ p ∈ parts.head?, p.before <+: cs := by
  cases h with
  | last => simp
  | part leftmost _ =>
    rintro p ⟨⟩
    exact ⟨_, leftmost.1.1.symm⟩

/-! ## Values that make a text absolute -/

/-- Slashes that a text and one that does not begin with a slash make up stand in the first. -/
theorem slashes_prefix_of_append (hmore : more.head? ≠ some '/') (h : ['/', '/'] <+: text ++ more) :
    ['/', '/'] <+: text := by
  match text with
  | [] =>
    rw [List.nil_append] at h
    obtain ⟨_, rfl⟩ := h
    exact absurd rfl hmore
  | [c] =>
    rw [List.singleton_append, List.cons_prefix_cons] at h
    obtain ⟨-, _, rfl⟩ := h
    exact absurd rfl hmore
  | c :: d :: text => simpa using h

theorem needle_infix_of_append (hmore : more.head? ≠ some '/') (h : [':', '/', '/'] <:+: text ++ more) :
    [':', '/', '/'] <:+: text ∨ [':', '/', '/'] <:+: more := by
  induction text with
  | nil => exact .inr h
  | cons c text ih =>
    rw [List.cons_append, List.infix_cons_iff, List.cons_prefix_cons] at h
    rw [List.infix_cons_iff, List.cons_prefix_cons]
    obtain ⟨hc, h⟩ | h := h
    · exact .inl (.inl ⟨hc, slashes_prefix_of_append hmore h⟩)
    · exact (ih h).imp_left .inr

/-- What has no slash can only supply the colon. -/
theorem needle_infix_of_append_of_not_mem (htext : '/' ∉ text) (h : [':', '/', '/'] <:+: text ++ more) :
    [':', '/', '/'] <:+: more ∨ ['/', '/'] <+: more := by
  induction text with
  | nil => exact .inl h
  | cons c text ih =>
    rw [List.mem_cons, not_or] at htext
    rw [List.cons_append, List.infix_cons_iff, List.cons_prefix_cons] at h
    obtain ⟨-, h⟩ | h := h
    · cases text with
      | nil => exact .inr h
      | cons d text => simp_all
    · exact ih htext.2 h

theorem head?_percentEncode_append {value : String} (hvalue : value ≠ "") (more : List Char) :
    ((percentEncode value).toList ++ more).head? ≠ some '/' := by
  have hne : (percentEncode value).toList ≠ [] := by
    simpa [Text.percentEncode_eq_empty_iff] using hvalue
  rw [List.head?_append_of_ne_nil _ hne]
  exact fun h => Text.slash_not_mem_percentEncode value (List.mem_of_head? h)

/-- A needle in the filled template stands in a text between the holes, or behind a value that supplies its
colon. -/
theorem exists_literal_of_needle_infix (hvalues : List.Forall₂ (fun _ v => v.value ≠ "") parts values)
    (h : [':', '/', '/'] <:+: filledText percentEncode parts values last) :
    (∃ text ∈ literalTexts parts last, [':', '/', '/'] <:+: text) ∨
      ∃ text ∈ (literalTexts parts last).tail, ['/', '/'] <+: text := by
  induction hvalues with
  | nil => exact .inl ⟨last, List.mem_singleton_self _, h⟩
  | @cons p v parts values hv hrest ih =>
    rw [filledText_cons] at h
    obtain h | h := needle_infix_of_append (head?_percentEncode_append hv _) h
    · exact .inl ⟨p.before, List.mem_cons_self, h⟩
    obtain h | h := needle_infix_of_append_of_not_mem (Text.slash_not_mem_percentEncode _) h
    · obtain ⟨text, htext, h⟩ | ⟨text, htext, h⟩ := ih h
      · exact .inl ⟨text, List.mem_cons_of_mem _ htext, h⟩
      · exact .inr ⟨text, List.mem_of_mem_tail htext, h⟩
    -- the slashes behind the value begin the text behind the hole
    · cases hrest with
      | nil => exact .inr ⟨last, List.mem_singleton_self _, h⟩
      | @cons q _ _ _ hw _ =>
        rw [filledText_cons] at h
        exact .inr ⟨q.before, List.mem_cons_self,
          slashes_prefix_of_append (head?_percentEncode_append hw _) h⟩

/-- It takes an open template to make an absolute text of a relative one. -/
theorem isOpen_of_isAbsolute (hparts : Matches template.toList parts last)
    (hrelative : Namespaces.isAbsolute template = false)
    (hvalues : List.Forall₂ (fun _ v => v.value ≠ "") parts values)
    (h : Namespaces.isAbsolute (String.ofList (filledText percentEncode parts values last)) = true) :
    IsOpen parts last := by
  rw [← Bool.not_eq_true, isAbsolute_iff, not_or] at hrelative
  rw [isAbsolute_iff, String.toList_ofList] at h
  obtain h | ⟨scheme, hscheme, h⟩ := h
  · obtain ⟨text, htext, h⟩ | h := exists_literal_of_needle_infix hvalues h
    · exact absurd (h.trans (infix_of_mem_literalTexts hparts text htext)) hrelative.1
    · exact .inr h
  · cases hvalues with
    | nil =>
      cases hparts
      exact absurd ⟨scheme, hscheme, h⟩ hrelative.2
    | @cons p _ _ _ hv _ =>
      rw [filledText_cons] at h
      obtain hlong | hlong := List.prefix_or_prefix_of_prefix h (List.prefix_append _ _)
      · have hstart := hlong.trans (before_isPrefix_of_mem_head? hparts p rfl)
        exact absurd ⟨scheme, hscheme, hstart⟩ hrelative.2
      · exact .inl ⟨p, rfl, scheme, hscheme, hlong⟩

/-! ## Values for an open template -/

theorem percentEncode_eq_self {s : String} (h : ∀ c ∈ s.toList, isSegmentChar c = true) :
    percentEncode s = s := by
  have hchars : s.toList.flatMap Text.percentChar = s.toList.flatMap fun c => [c] :=
    List.flatMap_congr fun c hc => if_pos (h c hc)
  rw [percentEncode, hchars, List.flatMap_singleton', String.ofList_toList]

/-- The same value for every argument. -/
def constantReader (value : String) : ArgumentReader :=
  fun _ _ => .ok ⟨value, none⟩

/-- The template with the same value in every hole. -/
def filledAlike (parts : List Part) (last : List Char) (value : String) : String :=
  String.ofList (filledText percentEncode parts (List.replicate parts.length ⟨value, none⟩) last)

/-- A colon in the holes completes the slashes behind one. -/
theorem needle_infix_of_colon {text : List Char} (htext : text ∈ (literalTexts parts last).tail)
    (hslashes : ['/', '/'] <+: text) : [':', '/', '/'] <:+: (filledAlike parts last ":").toList := by
  have hcolon : (percentEncode ":").toList = [':'] := by decide
  rw [filledAlike, String.toList_ofList]
  induction parts with
  | nil => cases htext
  | cons p parts ih =>
    rw [List.length_cons, List.replicate_succ, filledText_cons, hcolon, List.singleton_append]
    refine .trans ?_ (List.suffix_append _ _).isInfix
    cases parts with
    | nil =>
      obtain rfl := List.mem_singleton.1 htext
      exact (List.cons_prefix_cons.2 ⟨rfl, hslashes⟩).isInfix
    | cons q parts =>
      obtain rfl | htext := List.mem_cons.1 htext
      · rw [List.length_cons, List.replicate_succ, filledText_cons]
        exact (List.cons_prefix_cons.2 ⟨rfl, hslashes.trans (List.prefix_append _ _)⟩).isInfix
      · exact List.infix_cons (ih htext)

/-- For an open template there is a value that makes it absolute when it stands in all holes. -/
theorem exists_isAbsolute_filledAlike (hparts : Matches template.toList parts last)
    (hrelative : Namespaces.isAbsolute template = false) (hopen : IsOpen parts last) :
    ∃ value, value ≠ "" ∧ Namespaces.isAbsolute (filledAlike parts last value) = true := by
  simp only [isAbsolute_iff]
  obtain ⟨p, hp, scheme, hscheme, rest, hrest⟩ | ⟨text, htext, hslashes⟩ := hopen
  · obtain ⟨parts, rfl⟩ := List.head?_eq_some_iff.1 hp
    have hchars : ∀ scheme ∈ ["urn:", "uuid:"], scheme.toList.all isSegmentChar = true := by decide
    have hencoded : (percentEncode (String.ofList rest)).toList = rest := by
      rw [percentEncode_eq_self, String.toList_ofList]
      rw [String.toList_ofList]
      exact fun c hc =>
        List.all_eq_true.1 (hchars scheme hscheme) c (hrest ▸ List.mem_append_right _ hc)
    refine ⟨String.ofList rest, fun hempty => ?_, .inr ⟨scheme, hscheme, ?_⟩⟩
    -- a whole scheme at the beginning would have made the template absolute
    · obtain rfl : rest = [] := by simpa using hempty
      rw [List.append_nil] at hrest
      have habsolute := isAbsolute_iff.2 (.inr ⟨scheme, hscheme, hrest ▸ before_isPrefix_of_mem_head? hparts p hp⟩)
      rw [hrelative] at habsolute
      cases habsolute
    · rw [filledAlike, String.toList_ofList, List.length_cons, List.replicate_succ, filledText_cons, hencoded,
        ← List.append_assoc, hrest]
      exact List.prefix_append _ _
  · exact ⟨":", by decide, .inl (needle_infix_of_colon htext hslashes)⟩

/-! ## Generated URIs -/

section

variable {policy : GeneratorPolicy} {setting : GeneratorSetting} {reader : ArgumentReader}
  {call : GeneratorCall} {spec : GeneratorSpec} {space iri : String}

theorem holeValues_constantReader {value : String} (hne : value ≠ "")
    (harguments : ∀ p ∈ parts, call.argument? (String.ofList p.name) ≠ none) :
    List.Forall₂ (fun p v => HoleValue (constantReader value) call p.name v) parts
      (List.replicate parts.length ⟨value, none⟩) := by
  induction parts with
  | nil => exact .nil
  | cons p parts ih =>
    rw [List.forall_mem_cons] at harguments
    obtain ⟨a, ha⟩ := Option.ne_none_iff_exists'.1 harguments.1
    exact .cons ⟨⟨a, ha, rfl⟩, hne⟩ (ih harguments.2)

theorem generate_eq_generateUri (hspec : policy.spec? call = some spec)
    (hbody : spec.body = .pattern template) (hspace : spec.space? = some space) :
    policy.generate setting reader call = generateUri setting reader call spec space template := by
  obtain ⟨hbuiltIn, hget⟩ := GeneratorPolicy.spec?_eq_some_iff.1 hspec
  rw [GeneratorPolicy.generate, hbuiltIn, GeneratorPolicy.specOf, hget]
  obtain ⟨name, space?, shorten, uuid, body⟩ := spec
  cases hbody
  cases hspace
  rfl

theorem run_generateUri {s t u : GenerationState} {filled base : String} {language? : Option String}
    (hresolve : setting.namespaces.resolve space = .ok iri)
    (hfilled : (substitute reader call percentEncode template).run s = (.ok (filled, language?), t))
    (hbase : (localPart spec filled).run t = (.ok base, u)) :
    (generateUri setting reader call spec space template).run s =
      (.ok (.uri (if Namespaces.isAbsolute base then base else iri ++ base)), u) := by
  rw [generateUri, run_bind_of_ok hfilled, run_bind_of_ok hbase, hresolve]
  split <;> rfl

end

end Crosswalk
