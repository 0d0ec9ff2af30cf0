import Crosswalk.Proofs.PercentCodes
import Crosswalk.Proofs.Substitutions

/-!
# Templates that tell values apart

Where a separator of segments stands between any two holes, the values can be read back from the filled
template: no encoded value holds the separator, so the first one behind a hole belongs to the template. Different
values then make different texts.
-/

namespace Crosswalk

open Text (percentEncode)
open Template (Part Matches)

/-- A separator stands between any two holes. -/
def Segmented (parts : List Part) : Prop :=
  ∀ p ∈ parts.tail, '/' ∈ p.before

instance {parts : List Part} : Decidable (Segmented parts) :=
  inferInstanceAs (Decidable (∀ p ∈ parts.tail, '/' ∈ p.before))

variable {reader reader' : ArgumentReader} {call call' : GeneratorCall} {parts : List Part} {last : List Char}
  {values values' : List ArgumentValue}

/-- An encoded value ends where the first separator behind it tells. -/
theorem percentEncode_append_inj {s t : String} {before more more' : List Char} (hbefore : '/' ∉ before)
    (h : (percentEncode s).toList ++ (before ++ '/' :: more) =
      (percentEncode t).toList ++ (before ++ '/' :: more')) : s = t ∧ more = more' := by
  have hencoded (s : String) : '/' ∉ (percentEncode s).toList ++ before := fun hmem =>
    (List.mem_append.1 hmem).elim (Text.slash_not_mem_percentEncode s) hbefore
  rw [← List.append_assoc, ← List.append_assoc] at h
  obtain ⟨htext, hmore⟩ := Text.append_first_inj (hencoded s) (hencoded t) h
  exact ⟨Text.percentEncode_injective (String.toList_inj.1 (List.append_cancel_right htext)), hmore⟩

theorem values_eq_of_filledText_eq (hsegmented : Segmented parts) (hlength : values.length = parts.length)
    (hlength' : values'.length = parts.length)
    (h : filledText percentEncode parts values last = filledText percentEncode parts values' last) :
    values.map (·.value) = values'.map (·.value) := by
  induction parts generalizing values values' with
  | nil => rw [List.eq_nil_of_length_eq_zero hlength, List.eq_nil_of_length_eq_zero hlength']
  | cons p parts ih =>
    obtain ⟨v, values, rfl⟩ := List.exists_cons_of_length_eq_add_one hlength
    obtain ⟨v', values', rfl⟩ := List.exists_cons_of_length_eq_add_one hlength'
    rw [List.length_cons, List.length_cons, Nat.add_right_cancel_iff] at hlength hlength'
    rw [filledText_cons, filledText_cons, List.append_cancel_left_eq] at h
    suffices hboth : v.value = v'.value ∧
        filledText percentEncode parts values last = filledText percentEncode parts values' last by
      have hrest := ih (fun q hq => hsegmented q (List.mem_of_mem_tail hq)) hlength hlength' hboth.2
      rw [List.map_cons, List.map_cons, hboth.1, hrest]
    cases parts with
    | nil =>
      rw [List.eq_nil_of_length_eq_zero hlength, List.eq_nil_of_length_eq_zero hlength'] at h ⊢
      exact ⟨Text.percentEncode_injective (String.toList_inj.1 (List.append_cancel_right h)), rfl⟩
    | cons q parts =>
      obtain ⟨before, after, hq, hbefore⟩ := List.eq_append_cons_of_mem (hsegmented q List.mem_cons_self)
      obtain ⟨w, values, rfl⟩ := List.exists_cons_of_length_eq_add_one hlength
      obtain ⟨w', values', rfl⟩ := List.exists_cons_of_length_eq_add_one hlength'
      simp only [filledText_cons, hq, List.append_assoc, List.cons_append] at h ⊢
      obtain ⟨hvalue, hrest⟩ := percentEncode_append_inj hbefore h
      exact ⟨hvalue, by rw [hrest]⟩

/-- Values that agree are the values of a hole in both lists. -/
theorem forall_agree_of_values_eq (h : List.Forall₂ (fun p v => HoleValue reader call p.name v) parts values)
    (h' : List.Forall₂ (fun p v => HoleValue reader' call' p.name v) parts values')
    (heq : values.map (·.value) = values'.map (·.value)) :
    ∀ p ∈ parts, ∃ v v', HoleValue reader call p.name v ∧ HoleValue reader' call' p.name v' ∧
      v.value = v'.value := by
  induction h generalizing values' with
  | nil => exact List.forall_mem_nil _
  | cons hp _ ih =>
    cases h' with
    | cons hp' hrest' =>
      rw [List.map_cons, List.map_cons, List.cons.injEq] at heq
      exact List.forall_mem_cons.2 ⟨⟨_, _, hp, hp', heq.1⟩, ih hrest' heq.2⟩

/-- Different values of a hole make different texts of a template with separators between its holes. -/
theorem substitute_ne_of_value_ne {template : String} (hparts : Matches template.toList parts last)
    (hsegmented : Segmented parts)
    (hvalues : ∀ p ∈ parts, ∃ v, HoleValue reader call p.name v)
    (hvalues' : ∀ p ∈ parts, ∃ v, HoleValue reader' call' p.name v)
    (hdiffer : ∃ p ∈ parts, ∃ v v', HoleValue reader call p.name v ∧ HoleValue reader' call' p.name v' ∧
      v.value ≠ v'.value) (s s' : GenerationState) :
    ∃ text text' language? language'? t t',
      (substitute reader call percentEncode template).run s = (.ok (text, language?), t) ∧
      (substitute reader' call' percentEncode template).run s' = (.ok (text', language'?), t') ∧
      text ≠ text' := by
  obtain ⟨values, h⟩ := exists_holeValues hvalues
  obtain ⟨values', h'⟩ := exists_holeValues hvalues'
  refine ⟨_, _, _, _, _, _, run_substitute_parts hparts h s, run_substitute_parts hparts h' s', fun htext => ?_⟩
  obtain ⟨p, hp, v, v', hv, hv', hne⟩ := hdiffer
  have hagree := values_eq_of_filledText_eq hsegmented h.length_eq.symm h'.length_eq.symm
    (String.ofList_injective htext)
  obtain ⟨w, w', hw, hw', heq⟩ := forall_agree_of_values_eq h h' hagree p hp
  rw [hv.unique hw, hv'.unique hw'] at hne
  exact hne heq

/-- Values that hold a separator themselves are told apart too. -/
theorem substitute_ne_of_value_ne_slash :
    let reader : ArgumentReader := fun a _ => .ok ⟨a.value, none⟩
    let call (a b : String) : GeneratorCall := ⟨"T", [⟨"a", .constant, a, none⟩, ⟨"b", .constant, b, none⟩]⟩
    let parts : List Part := [⟨[], "a".toList⟩, ⟨"/".toList, "b".toList⟩]
    (Matches "{a}/{b}".toList parts [] ∧ Segmented parts ∧
      (∀ p ∈ parts, ∃ v, HoleValue reader (call "x/y" "z") p.name v) ∧
      (∀ p ∈ parts, ∃ v, HoleValue reader (call "x" "y/z") p.name v) ∧
      ∃ p ∈ parts, ∃ v v', HoleValue reader (call "x/y" "z") p.name v ∧
        HoleValue reader (call "x" "y/z") p.name v' ∧ v.value ≠ v'.value) ∧
    ∃ text text' language? language'? t t',
      (substitute reader (call "x/y" "z") percentEncode "{a}/{b}").run default = (.ok (text, language?), t) ∧
      (substitute reader (call "x" "y/z") percentEncode "{a}/{b}").run default = (.ok (text', language'?), t') ∧
      text ≠ text' := by
  intro reader call parts
  have hparts : Matches "{a}/{b}".toList parts [] := by decide +kernel
  have hvalue {a b : String} (ha : a ≠ "") : HoleValue reader (call a b) "a".toList ⟨a, none⟩ :=
    ⟨⟨_, rfl, rfl⟩, ha⟩
  have hvalues {a b : String} (ha : a ≠ "") (hb : b ≠ "") :
      ∀ p ∈ parts, ∃ v, HoleValue reader (call a b) p.name v :=
    List.forall_mem_cons.2 ⟨⟨_, hvalue ha⟩, List.forall_mem_singleton.2 ⟨⟨b, none⟩, ⟨_, rfl, rfl⟩, hb⟩⟩
  have hfirst := hvalues (a := "x/y") (b := "z") (by decide) (by decide)
  have hsecond := hvalues (a := "x") (b := "y/z") (by decide) (by decide)
  have hdiffer : ∃ p ∈ parts, ∃ v v', HoleValue reader (call "x/y" "z") p.name v ∧
      HoleValue reader (call "x" "y/z") p.name v' ∧ v.value ≠ v'.value :=
    ⟨_, List.mem_cons_self, _, _, hvalue (by decide), hvalue (by decide), by decide⟩
  exact ⟨⟨hparts, by decide, hfirst, hsecond, hdiffer⟩,
    substitute_ne_of_value_ne hparts (by decide) hfirst hsecond hdiffer _ _⟩

end Crosswalk
