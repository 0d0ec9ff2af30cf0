import Crosswalk.Proofs.MergedValues
import Crosswalk.Proofs.Substitutions
import Crosswalk.Proofs.WrittenMappings
import Crosswalk.Rdf.LanguageTag

/-!
# The languages of literals

A literal has its language from one of three places. An argument `language` says it, or else the text brings one
along, or else there is a default. Where several arguments say it, the custom generators go by the last of them
and all others by the first; what is inherited is the language of the text, of the first hole of a template, or,
with a custom generator, of the first argument that has one.

A language that is said or inherited loses the blanks around it, and none is left if it was all blank. The
default is taken as it is, and nothing keeps it from being blank: this is the one way in which a literal gets a
language that no graph accepts.
-/

namespace Crosswalk

open Text (IsPresent)

/-! ## Where a language comes from -/

/-- Whether an argument says which language a literal has. -/
def Argument.saysLanguage (a : Argument) : Bool :=
  a.name == "language"

def GeneratorCall.languageArguments (call : GeneratorCall) : List Argument :=
  call.arguments.filter Argument.saysLanguage

/-- The language that an argument is read as. -/
def said? (reader : ArgumentReader) (merged : Bool) (a : Argument) : Option String :=
  (reader a merged).toOption.map (·.value)

/-- The language that the value of an argument brings along. -/
def carried? (reader : ArgumentReader) (merged : Bool) (a : Argument) : Option String :=
  (reader a merged).toOption.bind (·.language?)

namespace GeneratorPolicy

/-- The class of the custom generator that a call names. -/
def classOf? (policy : GeneratorPolicy) (call : GeneratorCall) : Option CustomClass :=
  match (policy.spec? call).map GeneratorSpec.body with
  | some (.custom className) => policy.classes.get? className
  | _ => none

/-- Whether the arguments of a call are asked for all their values together. -/
def merges (policy : GeneratorPolicy) (call : GeneratorCall) : Bool :=
  (policy.classOf? call).any (·.merges)

/-- The argument by which the language of a call goes. -/
def languageArgument? (policy : GeneratorPolicy) (call : GeneratorCall) : Option Argument :=
  if (policy.classOf? call).isSome then call.languageArguments.getLast?
  else call.languageArguments.head?

/-- The language that comes with what a call makes its literal of. A constant has the language that is declared
for it; all others have what their values bring along. -/
def inherited? (policy : GeneratorPolicy) (reader : ArgumentReader) (call : GeneratorCall) :
    Option String :=
  match BuiltIn.ofName? call.name with
  | some .constant => (call.argument? "text").bind (·.language?)
  | some _ => (call.argument? "text").bind (carried? reader false)
  | none =>
    match (policy.get? call.name).map GeneratorSpec.body with
    | some (.pattern template) =>
      ((Template.placeholders template).head?.bind call.argument?).bind (carried? reader false)
    | some (.custom _) =>
      (call.arguments.filter fun a => !a.saysLanguage).findSome?
        (carried? reader (policy.merges call))
    | none => none

/-- The language that a call is given, unless the default has to do. -/
def given? (policy : GeneratorPolicy) (reader : ArgumentReader) (call : GeneratorCall) : Option String :=
  ((policy.languageArgument? call).bind (said? reader (policy.merges call))).or
    (policy.inherited? reader call)

end GeneratorPolicy

/-! ## Languages as they are taken -/

variable {policy : GeneratorPolicy} {setting : GeneratorSetting} {reader : ArgumentReader} {call : GeneratorCall}
  {s t : GenerationState} {text : String} {inherited? language? : Option String}

/-- A language that is given is taken without blanks, if at all. -/
theorem isPresent_effectiveLanguage {given l : String} {default? : Option String}
    (h : effectiveLanguage? (some given) default? = some l) : IsPresent l := by
  rw [effectiveLanguage?] at h
  split at h
  · cases h
  next hsolid =>
    cases h
    exact ⟨Text.trim_trim given, fun hempty => hsolid (Text.trim_eq_empty_iff.1 hempty)⟩

/-! ## Where a generation takes it from -/

section

variable {a : Argument} {merged : Bool} {v : ArgumentValue}

theorem said?_of_ok (h : reader a merged = .ok v) : said? reader merged a = some v.value := by
  rw [said?, h]
  rfl

theorem carried?_of_ok (h : reader a merged = .ok v) : carried? reader merged a = v.language? := by
  rw [carried?, h]
  rfl

theorem ask_ok (h : (Generation.ask reader a merged).run s = (.ok v, t)) : reader a merged = .ok v := by
  obtain ⟨_, u, -, h⟩ := AbortsOnly.exists_of_bind_ok h
  cases hread : reader a merged with
  | error e =>
    rw [hread] at h
    cases h
  | ok w =>
    rw [hread] at h
    cases h
    rfl

theorem argument?_of_require {name : String}
    (h : (Generation.ofSetup (call.require name)).run s = (.ok a, t)) : call.argument? name = some a := by
  rw [GeneratorCall.require] at h
  cases hfound : call.argument? name with
  | none =>
    rw [hfound] at h
    cases h
  | some b =>
    rw [hfound] at h
    cases h
    rfl

theorem required_ok {name : String} (h : (required reader call name).run s = (.ok v, t)) :
    ∃ a, call.argument? name = some a ∧ reader a false = .ok v := by
  obtain ⟨a, u, ha, h⟩ := AbortsOnly.exists_of_bind_ok h
  exact ⟨a, argument?_of_require ha, ask_ok h⟩

/-- Outside custom generators a literal goes by the first argument that says its language. -/
theorem literalLanguage_ok
    (h : (literalLanguage setting reader call inherited?).run s = (.ok language?, t)) :
    (∀ a ∈ call.languageArguments.head?, ∃ v, reader a false = .ok v) ∧
      language? = effectiveLanguage?
        ((call.languageArguments.head?.bind (said? reader false)).or inherited?) setting.defaultLanguage? := by
  have hfirst : call.argument? "language" = call.languageArguments.head? := (List.head?_filter ..).symm
  rw [literalLanguage, hfirst] at h
  cases hargument : call.languageArguments.head? with
  | none =>
    rw [hargument] at h
    cases h
    exact ⟨by rintro a ⟨⟩, rfl⟩
  | some a =>
    rw [hargument] at h
    obtain ⟨v, u, hv, h⟩ := AbortsOnly.exists_of_bind_ok h
    cases h
    have hread := ask_ok hv
    rw [Option.bind_some, said?_of_ok hread]
    exact ⟨fun b hb => Option.some.inj hb ▸ ⟨v, hread⟩, rfl⟩

/-- A custom generator is given the last language that is said, or else the first that comes with a value. -/
theorem handOver_ok {className : String} {cls : CustomClass} {arguments : List Argument}
    {input output : CustomInput}
    (h : (handOver reader className cls arguments input).run s = (.ok output, t)) :
    (∀ a ∈ arguments, ∃ v, reader a cls.merges = .ok v) ∧
      output.language? =
        ((arguments.filter Argument.saysLanguage).getLast?.bind (said? reader cls.merges)).or
          (input.language?.or ((arguments.filter fun a => !a.saysLanguage).findSome?
            (carried? reader cls.merges))) := by
  induction arguments generalizing input s with
  | nil =>
    cases h
    simp
  | cons a rest ih =>
    obtain ⟨v, u, hv, h⟩ := AbortsOnly.exists_of_bind_ok h
    have hread := ask_ok hv
    split at h
    next hlanguage =>
      obtain ⟨hreads, houtput⟩ := ih h
      refine ⟨List.forall_mem_cons.2 ⟨⟨v, hread⟩, hreads⟩, ?_⟩
      have hlanguage : a.saysLanguage = true := hlanguage
      rw [houtput, List.filter_cons_of_pos hlanguage, List.filter_cons_of_neg (by simp [hlanguage]),
        List.getLast?_cons]
      cases hlast : (rest.filter Argument.saysLanguage).getLast? with
      | none => simp [said?_of_ok hread]
      | some b =>
        -- a later argument was read, so that this one does not count
        have hb : b ∈ rest := List.mem_of_mem_filter (List.mem_of_getLast? hlast)
        obtain ⟨w, hw⟩ := hreads b hb
        simp [said?_of_ok hw]
    next hother =>
      split at h
      · cases h
      · obtain ⟨hreads, houtput⟩ := ih h
        refine ⟨List.forall_mem_cons.2 ⟨⟨v, hread⟩, hreads⟩, ?_⟩
        have hother : ¬a.saysLanguage = true := hother
        rw [houtput, List.filter_cons_of_neg hother, List.filter_cons_of_pos (by simp [hother]), List.findSome?_cons, carried?_of_ok hread, Option.or_assoc]
        cases v.language? <;> rfl

/-- Only the classes for literals make one. -/
theorem customValue_ok {spec : GeneratorSpec} {cls : CustomClass} {given? : Option String} {made : String}
    (h : (customValue setting call spec cls given? made).run s = (.ok (.literal text language?), t)) :
    language? = effectiveLanguage? given? setting.defaultLanguage? := by
  unfold customValue at h
  split at h
  · cases h
  · split at h
    · split at h
      · obtain ⟨_, _, _, h⟩ := AbortsOnly.exists_of_bind_ok h
        cases h
      · cases h
    · cases h
  · split at h
    · cases h
    · cases h
      rfl

end

namespace GeneratorPolicy

/-- A literal of a call has the language that the call is given, or the default; and the argument by which it
goes can be read. -/
structure GivesLanguage (policy : GeneratorPolicy) (setting : GeneratorSetting) (reader : ArgumentReader)
    (call : GeneratorCall) (language? : Option String) : Prop where
  reads : ∀ a ∈ policy.languageArgument? call, ∃ v, reader a (policy.merges call) = .ok v
  taken : language? = effectiveLanguage? (policy.given? reader call) setting.defaultLanguage?

theorem givesLanguage_of_plain (hclass : policy.classOf? call = none)
    (h : (literalLanguage setting reader call (policy.inherited? reader call)).run s = (.ok language?, t)) :
    policy.GivesLanguage setting reader call language? := by
  have hargument : policy.languageArgument? call = call.languageArguments.head? := by
    rw [languageArgument?, hclass]
    rfl
  have hmerges : policy.merges call = false := by
    rw [merges, hclass]
    rfl
  obtain ⟨hreads, htaken⟩ := literalLanguage_ok h
  exact ⟨by rw [hargument, hmerges]; exact hreads, by rw [given?, hargument, hmerges]; exact htaken⟩

theorem givesLanguage_of_builtIn {b : BuiltIn} (hbuiltIn : BuiltIn.ofName? call.name = some b)
    (h : (generateBuiltIn setting reader call b).run s = (.ok (.literal text language?), t)) :
    policy.GivesLanguage setting reader call language? := by
  have hclass : policy.classOf? call = none := by
    rw [classOf?, spec?, hbuiltIn]
    rfl
  have hliteral (hb : policy.inherited? reader call = (call.argument? "text").bind (carried? reader false))
      (h : (generateLiteral setting reader call).run s = (.ok (.literal text language?), t)) :
      policy.GivesLanguage setting reader call language? := by
    obtain ⟨v, u, hv, h⟩ := AbortsOnly.exists_of_bind_ok h
    obtain ⟨a, ha, hread⟩ := required_ok hv
    split at h
    · cases h
    · obtain ⟨l, w, hl, h⟩ := AbortsOnly.exists_of_bind_ok h
      cases h
      refine givesLanguage_of_plain hclass (s := u) (t := t) ?_
      rw [hb, ha, Option.bind_some, carried?_of_ok hread, hl]
  cases b with
  | freshUuid => 
    obtain ⟨_, _, _, h⟩ := AbortsOnly.exists_of_bind_ok h
    cases h
  | graphUri =>
    obtain ⟨_, _, _, h⟩ := AbortsOnly.exists_of_bind_ok h
    cases h
  | literal | preferredLabel => exact hliteral (by rw [inherited?, hbuiltIn]) h
  | constant =>
    obtain ⟨a, u, ha, h⟩ := AbortsOnly.exists_of_bind_ok h
    obtain ⟨l, w, hl, h⟩ := AbortsOnly.exists_of_bind_ok h
    cases h
    refine givesLanguage_of_plain hclass (s := u) (t := t) ?_
    rw [inherited?, hbuiltIn]
    dsimp only
    rw [argument?_of_require ha, Option.bind_some, hl]

theorem givesLanguage_of_template {spec : GeneratorSpec} {template : String}
    (hspec : policy.spec? call = some spec) (hbody : spec.body = .pattern template)
    (h : (generateText setting reader call template).run s = (.ok (.literal text language?), t)) :
    policy.GivesLanguage setting reader call language? := by
  obtain ⟨hbuiltIn, hget⟩ := spec?_eq_some_iff.1 hspec
  obtain ⟨⟨filled, found?⟩, u, hfilled, h⟩ := AbortsOnly.exists_of_bind_ok h
  obtain ⟨l, w, hl, h⟩ := AbortsOnly.exists_of_bind_ok h
  cases h
  obtain ⟨parts, last, hparts, -⟩ := Template.exists_matches template.toList
  obtain ⟨values, hvalues⟩ := exists_holeValues ((exists_run_substitute_iff hparts s).1 ⟨_, _, hfilled⟩)
  have hfound : policy.inherited? reader call = found? := by
    cases (run_substitute_parts hparts hvalues s).symm.trans hfilled
    rw [inherited?, hbuiltIn, hget, Option.map_some, hbody]
    dsimp only
    rw [hparts.placeholders_eq]
    cases hvalues with
    | nil => rfl
    | cons hv _ =>
      obtain ⟨⟨a, ha, hread⟩, -⟩ := hv
      rw [List.map_cons, List.head?_cons, Option.bind_some, ha, Option.bind_some, carried?_of_ok hread]
      rfl
  refine givesLanguage_of_plain ?_ (hfound ▸ hl)
  rw [classOf?, hspec, Option.map_some, hbody]

theorem givesLanguage_of_custom {spec : GeneratorSpec} {className : String} {cls : CustomClass}
    (hspec : policy.spec? call = some spec) (hbody : spec.body = .custom className)
    (hregistered : policy.classes.get? className = some cls)
    (h : (generateCustom setting reader call spec className cls).run s = (.ok (.literal text language?), t)) :
    policy.GivesLanguage setting reader call language? := by
  obtain ⟨hbuiltIn, hget⟩ := spec?_eq_some_iff.1 hspec
  have hclass : policy.classOf? call = some cls := by
    rw [classOf?, hspec, Option.map_some, hbody]
    exact hregistered
  have hargument : policy.languageArgument? call = call.languageArguments.getLast? := by
    rw [languageArgument?, hclass]
    rfl
  have hmerges : policy.merges call = cls.merges := by
    rw [merges, hclass, Option.any_some]
  obtain ⟨output, u, houtput, h⟩ := AbortsOnly.exists_of_bind_ok h
  obtain ⟨hreads, hlanguage⟩ := handOver_ok houtput
  have hgiven : policy.given? reader call = output.language? := by
    rw [given?, hargument, inherited?, hbuiltIn, hget, Option.map_some, hbody, hmerges, hlanguage,
      Option.none_or]
    rfl
  refine ⟨fun a ha => ?_, ?_⟩
  · rw [hargument] at ha
    rw [hmerges]
    exact hreads a (List.mem_of_mem_filter (List.mem_of_getLast? ha))
  · rw [hgiven]
    split at h
    · exact customValue_ok h
    · cases h

theorem givesLanguage_of_generate
    (h : (policy.generate setting reader call).run s = (.ok (.literal text language?), t)) :
    policy.GivesLanguage setting reader call language? := by
  rw [generate] at h
  cases hbuiltIn : BuiltIn.ofName? call.name with
  | some b =>
    rw [hbuiltIn] at h
    exact givesLanguage_of_builtIn hbuiltIn h
  | none =>
    rw [hbuiltIn] at h
    obtain ⟨spec, u, hget, h⟩ := AbortsOnly.exists_of_bind_ok h
    have hspec : policy.spec? call = some spec := by
      rw [specOf] at hget
      cases hfound : policy.get? call.name with
      | none =>
        rw [hfound] at hget
        cases hget
      | some found =>
        rw [hfound] at hget
        cases hget
        exact spec?_eq_some_iff.2 ⟨hbuiltIn, hfound⟩
    split at h
    next className hbody =>
      split at h
      next cls hregistered => exact givesLanguage_of_custom hspec hbody hregistered h
      next => cases h
    next =>
      obtain ⟨_, _, _, h⟩ := AbortsOnly.exists_of_bind_ok h
      obtain ⟨_, _, _, h⟩ := AbortsOnly.exists_of_bind_ok h
      split at h
      · cases h
      · obtain ⟨_, _, _, h⟩ := AbortsOnly.exists_of_bind_ok h
        cases h
    next template hbody _ => exact givesLanguage_of_template hspec hbody h

/-- The language of a literal is free of blanks around it unless it is a default that is not: a call that is
given a language never takes it otherwise. Where one argument says the language, it is what that argument is read
as, without blanks around it, and there is none if that is blank; whatever else has a language. -/
theorem generate_language_iff
    (h : (policy.generate setting reader call).run s = (.ok (.literal text language?), t)) :
    ((∀ l ∈ language?, IsPresent l) ↔
      policy.given? reader call ≠ none ∨ ∀ l ∈ setting.defaultLanguage?, IsPresent l) ∧
    ∀ a, call.languageArguments = [a] → ∃ v, reader a (policy.merges call) = .ok v ∧
      language? = if Text.isBlankText v.value then none else some (Text.trim v.value) := by
  obtain ⟨hreads, htaken⟩ := givesLanguage_of_generate h
  refine ⟨?_, fun a ha => ?_⟩
  · rw [htaken]
    cases hgiven : policy.given? reader call with
    | none => simp [effectiveLanguage?]
    | some given => exact iff_of_true (fun l hl => isPresent_effectiveLanguage hl) (.inl (Option.some_ne_none _))
  · have hargument : policy.languageArgument? call = some a := by
      rw [languageArgument?, ha]
      split <;> rfl
    obtain ⟨v, hread⟩ := hreads a hargument
    refine ⟨v, hread, ?_⟩
    rw [htaken, given?, hargument, Option.bind_some, said?_of_ok hread, Option.some_or, effectiveLanguage?]

/-- The language is said between two arguments that have languages of their own, and the default is blank. -/
theorem generate_language_iff_names :
    let policy := GeneratorPolicy.empty.insert ⟨"Names", none, false, false, .custom "ConcatMultipleTerms"⟩
    let setting : GeneratorSetting := ⟨.builtin, some " ", "|||"⟩
    let reader : ArgumentReader := fun a _ => .ok ⟨a.value, a.language?⟩
    let language : Argument := ⟨"language", .constant, " en ", none⟩
    let call : GeneratorCall := ⟨"Names", [⟨"text", .xpath, "Ada|||Augusta", some "fr"⟩, language,
      ⟨"delimiter", .constant, ", ", some "de"⟩]⟩
    ((policy.generate setting reader call).run default).1 = .ok (.literal "Ada, Augusta" (some "en")) ∧
      call.languageArguments = [language] ∧ IsPresent "en" ∧
      some "en" = if Text.isBlankText " en " then none else some (Text.trim " en ") := by
  intro policy setting reader language call
  have hmade : ((policy.generate setting reader call).run default).1 =
      .ok (.literal "Ada, Augusta" (some "en")) := by
    decide +kernel
  have hlanguage : call.languageArguments = [language] := by decide +kernel
  obtain ⟨hpresent, hsaid⟩ := generate_language_iff (Prod.ext hmade rfl)
  obtain ⟨v, hv, htaken⟩ := hsaid language hlanguage
  cases hv
  refine ⟨hmade, hlanguage, hpresent.2 (.inl ?_) _ rfl, htaken⟩
  decide +kernel

/-- A default that is blank, or has blanks around it, becomes a language that no literal can have. -/
theorem language_of_blank_default :
    let reader : ArgumentReader := fun a _ => .ok ⟨a.value, a.language?⟩
    let call : GeneratorCall := ⟨"Literal", [⟨"text", .constant, "Ada", none⟩]⟩
    let made (default? : Option String) : Except Fault Value :=
      ((GeneratorPolicy.empty.generate ⟨.builtin, default?, "|||"⟩ reader call).run default).1
    (made (some "") = .ok (.literal "Ada" (some "")) ∧ ¬IsPresent "" ∧ Rdf.languageTag? "" = none) ∧
    made (some " en ") = .ok (.literal "Ada" (some " en ")) ∧ ¬IsPresent " en " ∧
      Rdf.languageTag? " en " = none := by
  decide +kernel

end GeneratorPolicy

end Crosswalk
