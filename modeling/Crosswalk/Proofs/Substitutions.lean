import Crosswalk.Proofs.LackingCalls
import Crosswalk.Proofs.TemplateMatches

/-!
# What a template is filled with

A template is gone through once: what stands between its holes is kept, and each hole gets the encoded value
of its argument, which is not looked at again. It takes every hole to have an argument with a value; otherwise
the first hole that has none says what is at fault.
-/

namespace Crosswalk

open Template (Part Matches Piece)

/-- The value with which a call fills a hole: that of the argument of the name, if it is not empty. -/
def HoleValue (reader : ArgumentReader) (call : GeneratorCall) (name : List Char) (v : ArgumentValue) : Prop :=
  (∃ a, call.argument? (String.ofList name) = some a ∧ reader a false = .ok v) ∧ v.value ≠ ""

/-- The fault of a hole without a value: there is no argument of the name, or it is empty. -/
def holeFault (call : GeneratorCall) (name : List Char) : Fault :=
  match call.argument? (String.ofList name) with
  | none => .setup (.missingArgument call.name (String.ofList name))
  | some _ => .drop (.missingValue call.name (String.ofList name))

/-- The parts with the encoded values in place of the holes, and the last text. -/
def filledText (encode : String → String) (parts : List Part) (values : List ArgumentValue)
    (last : List Char) : List Char :=
  (List.zipWith (fun p v => p.before ++ (encode v.value).toList) parts values).flatten ++ last

variable {reader : ArgumentReader} {call : GeneratorCall} {encode : String → String} {cs last name : List Char}
  {parts : List Part} {pieces : List Piece} {values : List ArgumentValue} {v : ArgumentValue}

theorem filledText_cons (p : Part) : filledText encode (p :: parts) (v :: values) last =
    p.before ++ ((encode v.value).toList ++ filledText encode parts values last) := by
  simp [filledText]

theorem fill_chars_append : fill reader call encode (cs.map .char ++ pieces) =
    fill reader call encode pieces >>= fun r => pure (cs ++ r.1, r.2) := by
  induction cs with
  | nil => exact (bind_pure _).symm
  | cons c cs ih =>
    rw [List.map_cons, List.cons_append, fill, ih, bind_assoc]
    rfl

theorem HoleValue.unique {w : ArgumentValue} (hv : HoleValue reader call name v)
    (hw : HoleValue reader call name w) : v = w := by
  obtain ⟨⟨a, ha, hv⟩, -⟩ := hv
  obtain ⟨⟨b, hb, hw⟩, -⟩ := hw
  cases ha.symm.trans hb
  exact Except.ok.inj (hv.symm.trans hw)

theorem fill_part_append (p : Part) : fill reader call encode (p.pieces ++ pieces) =
    fill reader call encode (.hole p.name :: pieces) >>= fun r => pure (p.before ++ r.1, r.2) := by
  rw [Part.pieces, List.append_assoc]
  exact fill_chars_append

/-- A part whose hole has a value is kept with the value in the hole. -/
theorem HoleValue.run_fill {p : Part} (h : HoleValue reader call p.name v) (s : GenerationState) :
    (fill reader call encode (p.pieces ++ pieces)).run s =
      (fill reader call encode pieces >>= fun r =>
        pure (p.before ++ ((encode v.value).toList ++ r.1), some v.language?)).run
        ⟨s.uuids, s.asked ++ [(String.ofList p.name, false)]⟩ := by
  obtain ⟨⟨a, ha, hv⟩, hne⟩ := h
  rw [fill_part_append, fill, bind_assoc, run_bind_of_ok (run_required ha hv s),
    if_neg (by simpa using hne), bind_assoc]
  rfl

/-- Filling goes through the parts in order, and asks for the argument of each hole. -/
theorem run_fill_parts (h : List.Forall₂ (fun p v => HoleValue reader call p.name v) parts values)
    (s : GenerationState) :
    (fill reader call encode (parts.flatMap Part.pieces ++ last.map .char)).run s =
      (.ok (filledText encode parts values last, values.head?.map (·.language?)),
        ⟨s.uuids, s.asked ++ parts.map fun p => (String.ofList p.name, false)⟩) := by
  induction h generalizing s with
  | nil =>
    have hnil : (fill reader call encode []).run s = (.ok ([], none), s) := rfl
    have hasked : s = ⟨s.uuids, s.asked ++ []⟩ := by rw [List.append_nil]
    rw [List.flatMap_nil, List.nil_append, ← List.append_nil (last.map Piece.char), fill_chars_append,
      run_bind_of_ok hnil, List.append_nil, List.map_nil, ← hasked]
    rfl
  | @cons p v parts values hp _ ih =>
    rw [List.flatMap_cons, List.append_assoc, hp.run_fill, run_bind_of_ok (ih _), filledText_cons,
      List.append_assoc]
    rfl

/-- The first hole without a value ends the filling, with its fault if its argument can be read. -/
theorem exists_run_fill_error {front : List Part}
    (hfront : ∀ q ∈ front, ∃ v, HoleValue reader call q.name v) {p : Part}
    (hp : ¬∃ v, HoleValue reader call p.name v) (s : GenerationState) : ∃ e t,
    (fill reader call encode (front.flatMap Part.pieces ++ (p.pieces ++ pieces))).run s = (.error e, t) ∧
      ((∀ a, ∃ v, reader a false = .ok v) → e = holeFault call p.name) := by
  induction front generalizing s with
  | nil =>
    rw [List.flatMap_nil, List.nil_append, fill_part_append, fill, bind_assoc, holeFault]
    rcases ha : call.argument? (String.ofList p.name) with _ | a
    · refine ⟨_, s, run_bind_of_error ?_, fun _ => rfl⟩
      rw [required, GeneratorCall.require, ha]
      rfl
    · rcases hv : reader a false with e | v
      · refine ⟨.abort e, _, run_bind_of_error (run_required ha hv s), fun hreader => ?_⟩
        obtain ⟨v, hread⟩ := hreader a
        rw [hv] at hread
        cases hread
      · have hempty : v.value = "" := by_contra fun hne => hp ⟨v, ⟨a, ha, hv⟩, hne⟩
        rw [run_bind_of_ok (run_required ha hv s), hempty]
        exact ⟨_, _, rfl, fun _ => rfl⟩
  | cons q front ih =>
    obtain ⟨⟨v, hq⟩, hfront⟩ := List.forall_mem_cons.1 hfront
    obtain ⟨e, t, ht, he⟩ := ih hfront ⟨s.uuids, s.asked ++ [(String.ofList q.name, false)]⟩
    rw [List.flatMap_cons, List.append_assoc, hq.run_fill]
    exact ⟨e, t, run_bind_of_error ht, he⟩

theorem exists_holeValues (h : ∀ p ∈ parts, ∃ v, HoleValue reader call p.name v) :
    ∃ values, List.Forall₂ (fun p v => HoleValue reader call p.name v) parts values := by
  induction parts with
  | nil => exact ⟨[], .nil⟩
  | cons p parts ih =>
    obtain ⟨⟨v, hv⟩, h⟩ := List.forall_mem_cons.1 h
    obtain ⟨values, hvalues⟩ := ih h
    exact ⟨v :: values, .cons hv hvalues⟩

/-- Unless every hole has a value, there is a first one that has none. -/
theorem exists_first_of_not_forall (h : ¬∀ p ∈ parts, ∃ v, HoleValue reader call p.name v) :
    ∃ front p back, parts = front ++ p :: back ∧ (∀ q ∈ front, ∃ v, HoleValue reader call q.name v) ∧
      ¬∃ v, HoleValue reader call p.name v := by
  induction parts with
  | nil => exact absurd (List.forall_mem_nil _) h
  | cons p parts ih =>
    by_cases hp : ∃ v, HoleValue reader call p.name v
    · obtain ⟨front, q, back, rfl, hfront, hq⟩ := ih fun hparts => h (List.forall_mem_cons.2 ⟨hp, hparts⟩)
      exact ⟨p :: front, q, back, rfl, List.forall_mem_cons.2 ⟨hp, hfront⟩, hq⟩
    · exact ⟨[], p, parts, rfl, List.forall_mem_nil _, hp⟩

section

variable {template : String} (hparts : Matches template.toList parts last)

include hparts

theorem run_substitute_parts (h : List.Forall₂ (fun p v => HoleValue reader call p.name v) parts values)
    (s : GenerationState) :
    (substitute reader call encode template).run s =
      (.ok (String.ofList (filledText encode parts values last), values.head?.bind (·.language?)),
        ⟨s.uuids, s.asked ++ parts.map fun p => (String.ofList p.name, false)⟩) := by
  rw [substitute, hparts.pieces_eq, run_bind_of_ok (run_fill_parts h s)]
  cases values <;> rfl

theorem exists_run_substitute_error {front back : List Part} {p : Part} (hsplit : parts = front ++ p :: back)
    (hfront : ∀ q ∈ front, ∃ v, HoleValue reader call q.name v)
    (hp : ¬∃ v, HoleValue reader call p.name v) (s : GenerationState) : ∃ e t,
    (substitute reader call encode template).run s = (.error e, t) ∧
      ((∀ a, ∃ v, reader a false = .ok v) → e = holeFault call p.name) := by
  obtain ⟨e, t, ht, he⟩ := exists_run_fill_error hfront hp s
  rw [substitute, hparts.pieces_eq, hsplit, List.flatMap_append, List.flatMap_cons, List.append_assoc,
    List.append_assoc]
  exact ⟨e, t, run_bind_of_error ht, he⟩

/-- A substitution succeeds just if every hole has a value. -/
theorem exists_run_substitute_iff (s : GenerationState) :
    (∃ r t, (substitute reader call encode template).run s = (.ok r, t)) ↔
      ∀ p ∈ parts, ∃ v, HoleValue reader call p.name v := by
  refine ⟨fun ⟨r, t, hrun⟩ => by_contra fun hvalues => ?_, fun hvalues => ?_⟩
  · obtain ⟨front, p, back, hsplit, hfront, hp⟩ := exists_first_of_not_forall hvalues
    obtain ⟨e, u, hu, -⟩ := exists_run_substitute_error hparts hsplit hfront hp s
    rw [hu] at hrun
    cases hrun
  · obtain ⟨values, h⟩ := exists_holeValues hvalues
    exact ⟨_, _, run_substitute_parts hparts h s⟩

/-- The check of a call for a template asks for an argument for every hole, and no more. -/
theorem check_iff_holes {policy : GeneratorPolicy} {spec : GeneratorSpec}
    (hspec : policy.spec? call = some spec) (hbody : spec.body = .pattern template) :
    policy.check call = .ok () ↔ ∀ p ∈ parts, call.argument? (String.ofList p.name) ≠ none := by
  obtain ⟨hbuiltIn, hget⟩ := GeneratorPolicy.spec?_eq_some_iff.1 hspec
  rw [GeneratorPolicy.check_iff]
  simp [hbuiltIn, hget, hbody, hparts.placeholders_eq]

end

/-- No call of the policy that passes the check fails because an argument is missing. -/
theorem generate_ne_missingArgument {policy : GeneratorPolicy} {spec : GeneratorSpec}
    (hspec : policy.spec? call = some spec) (checked : policy.check call = .ok ()) (setting : GeneratorSetting)
    (hreader : ∀ a merged g name, reader a merged ≠ .error (.setup (.missingArgument g name)))
    (s t : GenerationState) (g name : String) :
    (policy.generate setting reader call).run s ≠ (.error (.setup (.missingArgument g name)), t) := by
  intro hrun
  let IsOther (e : RunError) : Prop := ∀ g name, e ≠ .setup (.missingArgument g name)
  have hreads (a : Argument) (merged : Bool) : ErrsOnly IsOther (reader a merged) :=
    fun e he g name h => hreader a merged g name (h ▸ he)
  refine AbortsOnly.generate hreads (fun e hfails g name he => ?_) s _ t hrun g name rfl
  cases he
  cases hfails.lacks checked with
  | text hb => exact absurd hb (by simp [(GeneratorPolicy.spec?_eq_some_iff.1 hspec).1])

/-- A template is substituted just if every hole has a value. The text is then the template with the encoded
values in place of the holes, whatever they look like; otherwise the fault is that of the first hole without one.
The names that a check asks for are those of the holes, so that no call that passes it lacks an argument. -/
theorem substitute_parts (hreader : ∀ a merged, ∃ v, reader a merged = .ok v) (template : String) :
    (∃ parts last, Matches template.toList parts last) ∧
    ∀ parts last, Matches template.toList parts last →
      (∀ s,
        ((∃ r t, (substitute reader call encode template).run s = (.ok r, t)) ↔
          ∀ p ∈ parts, ∃ v, HoleValue reader call p.name v) ∧
        (∀ values, List.Forall₂ (fun p v => HoleValue reader call p.name v) parts values →
          (substitute reader call encode template).run s =
            (.ok (String.ofList (filledText encode parts values last), values.head?.bind (·.language?)),
              ⟨s.uuids, s.asked ++ parts.map fun p => (String.ofList p.name, false)⟩)) ∧
        ∀ front p back, parts = front ++ p :: back → (∀ q ∈ front, ∃ v, HoleValue reader call q.name v) →
          (¬∃ v, HoleValue reader call p.name v) →
          ∃ t, (substitute reader call encode template).run s = (.error (holeFault call p.name), t)) ∧
      Template.placeholders template = parts.map (fun p => String.ofList p.name) ∧
      ∀ policy spec, GeneratorPolicy.spec? policy call = some spec → spec.body = .pattern template →
        (policy.check call = .ok () ↔ ∀ p ∈ parts, call.argument? (String.ofList p.name) ≠ none) ∧
        (policy.check call = .ok () → ∀ setting s t g name,
          (policy.generate setting reader call).run s ≠ (.error (.setup (.missingArgument g name)), t)) := by
  have hplain : ∀ a merged g name, reader a merged ≠ .error (.setup (.missingArgument g name)) := by
    intro a merged g name herror
    obtain ⟨v, hv⟩ := hreader a merged
    rw [hv] at herror
    cases herror
  obtain ⟨parts, last, hparts, -⟩ := Template.exists_matches template.toList
  refine ⟨⟨parts, last, hparts⟩, fun parts last hparts => ⟨fun s => ⟨exists_run_substitute_iff hparts s, ?_, ?_⟩,
    hparts.placeholders_eq, ?_⟩⟩
  · exact fun values h => run_substitute_parts hparts h s
  · intro front p back hsplit hfront hp
    obtain ⟨e, t, ht, he⟩ := exists_run_substitute_error hparts hsplit hfront hp s
    exact ⟨t, he (fun a => hreader a false) ▸ ht⟩
  · exact fun policy spec hspec hbody => ⟨check_iff_holes hparts hspec hbody, fun checked setting s t =>
      generate_ne_missingArgument hspec checked setting hplain s t⟩

/-- A name may hold a brace, and a value that looks like a hole stays as it is. -/
theorem substitute_parts_braces :
    let reader : ArgumentReader := fun a _ => .ok ⟨a.value, none⟩
    let call : GeneratorCall :=
      ⟨"T", [⟨"n", .constant, "{n}", none⟩, ⟨"\x7bid", .constant, "é", some "fr"⟩]⟩
    let parts : List Part := [⟨"x{}".toList, "\x7bid".toList⟩, ⟨"\x7d/".toList, "n".toList⟩]
    (∀ a merged, ∃ v, reader a merged = .ok v) ∧ Matches "x{}{{id}}/{n}".toList parts [] ∧
      List.Forall₂ (fun p v => HoleValue reader call p.name v) parts [⟨"é", none⟩, ⟨"{n}", none⟩] ∧
      (substitute reader call id "x{}{{id}}/{n}").run default =
        (.ok ("x{}é\x7d/{n}", none), ⟨default, [("\x7bid", false), ("n", false)]⟩) := by
  intro reader call parts
  have hreader : ∀ a merged, ∃ v, reader a merged = .ok v := fun a _ => ⟨⟨a.value, none⟩, rfl⟩
  have hparts : Matches "x{}{{id}}/{n}".toList parts [] := by decide +kernel
  have hvalues : List.Forall₂ (fun p v => HoleValue reader call p.name v) parts
      [⟨"é", none⟩, ⟨"{n}", none⟩] :=
    .cons ⟨⟨_, rfl, rfl⟩, by decide⟩ (.cons ⟨⟨_, rfl, rfl⟩, by decide⟩ .nil)
  exact ⟨hreader, hparts, hvalues, (((substitute_parts hreader _).2 _ _ hparts).1 default).2.1 _ hvalues⟩

end Crosswalk
