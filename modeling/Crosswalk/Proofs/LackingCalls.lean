import Crosswalk.Proofs.Aborting

/-!
# Calls that lack something

A call that passes the check can still end a run: the check does not ask for the text of a generator that
is always there, and not for the namespace in which a generator places its URIs. Without the text every
generation ends the run, and without the namespace every one whose URI is not absolute on its own.
-/

namespace Crosswalk

open Template (Piece)

namespace GeneratorPolicy

variable {policy : GeneratorPolicy} {ns : Namespaces} {call : GeneratorCall} {e : SetupError}

/-- The errors with which a call can end a run although it passes the check. -/
inductive Lacks (policy : GeneratorPolicy) (ns : Namespaces) (call : GeneratorCall) : SetupError → Prop
  | text {b : BuiltIn} (builtIn : BuiltIn.ofName? call.name = some b) (asks : b ≠ .freshUuid)
      (missing : call.argument? "text" = none) : Lacks policy ns call (.missingArgument call.name "text")
  | space {spec : GeneratorSpec} {space : String} (specified : policy.spec? call = some spec)
      (placed : policy.spaceOf? spec = some space) (relative : Namespaces.isAbsolute space = false)
      (unknown : ns.get? space = none) : Lacks policy ns call (.unknownAlias space (space ++ ":"))

theorem checkArguments_iff {names : List String} :
    checkArguments call names = .ok () ↔ ∀ name ∈ names, call.argument? name ≠ none := by
  induction names with
  | nil => simp [checkArguments]
  | cons name rest ih =>
    rw [checkArguments, List.forall_mem_cons, ← ih]
    cases call.argument? name <;> simp

theorem spec?_eq_some_iff {spec : GeneratorSpec} : policy.spec? call = some spec ↔
    BuiltIn.ofName? call.name = none ∧ policy.get? call.name = some spec := by
  rw [spec?]
  cases BuiltIn.ofName? call.name <;> simp

/-- What the check asks of a call. -/
theorem check_iff : policy.check call = .ok () ↔ BuiltIn.ofName? call.name ≠ none ∨
    ∃ spec, policy.get? call.name = some spec ∧
      (∀ template, spec.body = .pattern template →
        ∀ name ∈ Template.placeholders template, call.argument? name ≠ none) ∧
      ∀ className, spec.body = .custom className → policy.classes.get? className ≠ none := by
  rw [check, specOf]
  cases BuiltIn.ofName? call.name with
  | some b => simp
  | none =>
    rcases policy.get? call.name with _ | ⟨name, space?, shorten, uuid, body⟩
    · simp [bind, Except.bind]
    · cases body with
      | pattern template => simp [bind, Except.bind, checkArguments_iff]
      | custom className =>
        simp [bind, Except.bind, Table.contains, Option.isSome_iff_ne_none]

/-- A call that passes the check fails only for what the check leaves out. -/
theorem Fails.lacks (h : policy.Fails ns call e) (checked : policy.check call = .ok ()) :
    policy.Lacks ns call e := by
  rw [check_iff] at checked
  cases h with
  | unknown hbuiltIn hunknown =>
    obtain h | ⟨spec, hspec, -⟩ := checked
    · exact absurd hbuiltIn h
    · rw [hunknown] at hspec
      cases hspec
  | unregistered hspec hcustom hunregistered =>
    obtain ⟨hbuiltIn, hget⟩ := spec?_eq_some_iff.1 hspec
    obtain h | ⟨spec, hspec, -, hregistered⟩ := checked
    · exact absurd hbuiltIn h
    · cases hget.symm.trans hspec
      exact absurd hunregistered (hregistered _ hcustom)
  | argument hwanted hmissing =>
    rw [wanted] at hwanted
    split at hwanted
    · cases hwanted
    next b hne hb =>
      cases List.mem_singleton.1 hwanted
      exact .text hb hne hmissing
    next hbuiltIn =>
      obtain h | ⟨spec, hspec, harguments, -⟩ := checked
      · exact absurd hbuiltIn h
      · rw [hspec, Option.map_some] at hwanted
        split at hwanted
        next template hbody =>
          exact absurd hmissing (harguments template (Option.some.inj hbody) _ hwanted)
        · cases hwanted
  | space hspec hplaced hrelative hunknown => exact .space hspec hplaced hrelative hunknown

/-- A call has the text, and its generator the namespace, for which the check does not ask. -/
structure Supplies (policy : GeneratorPolicy) (ns : Namespaces) (call : GeneratorCall) : Prop where
  text : ∀ b ∈ BuiltIn.ofName? call.name, b ≠ .freshUuid → call.argument? "text" ≠ none
  space : ∀ spec ∈ policy.spec? call, ∀ space ∈ policy.spaceOf? spec,
    Namespaces.isAbsolute space = false → ns.get? space ≠ none

instance : Decidable (policy.Supplies ns call) :=
  decidable_of_iff (_ ∧ _) ⟨fun ⟨text, space⟩ => ⟨text, space⟩, fun ⟨text, space⟩ => ⟨text, space⟩⟩

/-- Nothing else is lacking. -/
theorem supplies_iff : policy.Supplies ns call ↔ ∀ e, ¬policy.Lacks ns call e := by
  constructor
  · rintro h e (⟨hb, hne, hmissing⟩ | ⟨hspec, hplaced, hrelative, hunknown⟩)
    · exact h.text _ hb hne hmissing
    · exact h.space _ hspec _ hplaced hrelative hunknown
  · intro h
    exact ⟨fun b hb hne hmissing => h _ (.text hb hne hmissing),
      fun spec hspec space hplaced hrelative hunknown => h _ (.space hspec hplaced hrelative hunknown)⟩

end GeneratorPolicy

/-! ## Relative names -/

/-- A letter, a digit or a hyphen: none of them makes what it stands in absolute. -/
def isPlain (c : Char) : Bool :=
  c.isAlphanum || c == '-'

theorem exists_eq_append_of_not_mem {s t : List Char} (before needle : List Char) {after : List Char}
    {c : Char} (h : s ++ t = before ++ (needle ++ [c]) ++ after) (hc : c ∉ t) :
    ∃ rest, s = before ++ (needle ++ [c]) ++ rest := by
  rcases List.append_eq_append_iff.1 h with ⟨rest, hrest, rfl⟩ | ⟨rest, hrest, -⟩
  · rcases List.eq_nil_or_concat rest with rfl | ⟨rest, last, rfl⟩
    · exact ⟨[], by rw [List.append_nil, hrest, List.append_nil]⟩
    · rw [List.concat_eq_append, ← List.append_assoc, ← List.append_assoc] at hrest
      obtain ⟨-, heq⟩ := List.append_inj' hrest rfl
      cases heq
      simp at hc
  · exact ⟨rest, hrest⟩

theorem isAbsolute_of_append {s t : String} (ht : ∀ c ∈ t.toList, isPlain c = true)
    (h : Namespaces.isAbsolute (s ++ t) = true) : Namespaces.isAbsolute s = true := by
  have hcolon : ':' ∉ t.toList := fun hmem => absurd (ht _ hmem) (by decide)
  have hslash : '/' ∉ t.toList := fun hmem => absurd (ht _ hmem) (by decide)
  simp only [Namespaces.isAbsolute, Bool.or_eq_true, Text.occurs_iff, Text.startsWith_iff,
    String.toList_append] at h ⊢
  rcases h with (⟨before, after, h⟩ | ⟨after, h⟩) | ⟨after, h⟩
  · obtain ⟨rest, hrest⟩ := exists_eq_append_of_not_mem before [':', '/'] h hslash
    exact .inl (.inl ⟨before, rest, hrest⟩)
  · obtain ⟨rest, hrest⟩ := exists_eq_append_of_not_mem [] ['u', 'r', 'n'] h hcolon
    exact .inl (.inr ⟨rest, hrest⟩)
  · obtain ⟨rest, hrest⟩ := exists_eq_append_of_not_mem [] ['u', 'u', 'i', 'd'] h hcolon
    exact .inr ⟨rest, hrest⟩

theorem isAbsolute_append {s : String} (h : Namespaces.isAbsolute s = true) (t : String) :
    Namespaces.isAbsolute (s ++ t) = true := by
  simp only [Namespaces.isAbsolute, Bool.or_eq_true, Text.occurs_iff, Text.startsWith_iff,
    String.toList_append] at h ⊢
  rcases h with (⟨before, after, h⟩ | ⟨after, h⟩) | ⟨after, h⟩
  · exact .inl (.inl ⟨before, after ++ t.toList, by rw [h, List.append_assoc]⟩)
  · exact .inl (.inr ⟨after ++ t.toList, by rw [h, List.append_assoc]⟩)
  · exact .inr ⟨after ++ t.toList, by rw [h, List.append_assoc]⟩

theorem isPlain_hexByte (b : UInt8) : ∀ c ∈ hexByte b, isPlain c = true := by
  have hdigit : ∀ n < 16, isPlain (Text.hexDigit n).toLower = true := by decide
  have hb := b.toNat_lt
  simp only [hexByte, List.forall_mem_cons]
  exact ⟨hdigit _ (by omega), hdigit _ (by omega), by simp⟩

theorem isPlain_uuidText (bytes : List UInt8) : ∀ c ∈ (uuidText bytes).toList, isPlain c = true := by
  have hgroup (start count : Nat) :
      ∀ c ∈ ((bytes.drop start).take count).flatMap hexByte, isPlain c = true := by
    intro c hc
    obtain ⟨b, -, hc⟩ := List.mem_flatMap.1 hc
    exact isPlain_hexByte b c hc
  have hhyphen : isPlain '-' = true := by decide
  simp only [uuidText, String.toList_ofList, List.forall_mem_append, List.forall_mem_cons]
  exact ⟨⟨⟨⟨hgroup _ _, hhyphen, hgroup _ _⟩, hhyphen, hgroup _ _⟩, hhyphen, hgroup _ _⟩, hhyphen,
    hgroup _ _⟩

theorem isPlain_labelDigits (n : Nat) : ∀ c ∈ labelDigits n, isPlain c = true := by
  have hletter : ∀ n < 26, isPlain (labelLetter n) = true := by decide
  fun_induction labelDigits n with
  | case1 n hn => simpa using hletter n hn
  | case2 n hn ih =>
    rw [List.forall_mem_append]
    exact ⟨ih, by simpa using hletter (n % 26) (by omega)⟩

theorem isPlain_peek (u : UuidSource) : ∀ c ∈ u.peek.toList, isPlain c = true := by
  cases u with
  | random seed drawn => exact isPlain_uuidText _
  | alphabetic width drawn =>
    simp only [UuidSource.peek, label, String.toList_ofList, List.forall_mem_append]
    exact ⟨fun c hc => (List.eq_of_mem_replicate hc) ▸ by decide, isPlain_labelDigits drawn⟩

/-! ## What a lack leads to -/

/-- Gives a letter for every argument. -/
def letterReader : ArgumentReader :=
  fun _ _ => .ok ⟨"x", none⟩

section

variable {policy : GeneratorPolicy} {setting : GeneratorSetting} {call : GeneratorCall}

/-- A required argument is asked for, and is what the reader gives for it. -/
theorem run_required {reader : ArgumentReader} {name : String} {a : Argument}
    {r : Except RunError ArgumentValue} (ha : call.argument? name = some a) (hr : reader a false = r)
    (s : GenerationState) :
    (required reader call name).run s = (r.mapError .abort, ⟨s.uuids, s.asked ++ [(name, false)]⟩) := by
  have hname : a.name = name := by simpa using List.find?_some ha
  rw [required, GeneratorCall.require, ha, ← hname]
  change (Generation.ask reader a false).run s = _
  rw [Generation.ask, hr]
  cases r <;> rfl

/-- Filled with letters, a template becomes its specimen. -/
theorem exists_fill_letter {pieces : List Piece}
    (harguments : ∀ name ∈ pieces.filterMap Piece.name?, call.argument? name ≠ none)
    (s : GenerationState) : ∃ language?? t,
      (fill letterReader call Text.percentEncode pieces).run s =
        (.ok (pieces.map Piece.shape, language??), t) := by
  induction pieces generalizing s with
  | nil => exact ⟨none, s, rfl⟩
  | cons piece rest ih =>
    cases piece with
    | char c =>
      obtain ⟨language??, t, hrest⟩ := ih harguments s
      exact ⟨language??, t, run_bind_of_ok hrest⟩
    | hole name =>
      rw [List.filterMap_cons, Piece.name?, List.forall_mem_cons] at harguments
      obtain ⟨argument, hargument⟩ := Option.ne_none_iff_exists'.1 harguments.1
      obtain ⟨_, t, hrest⟩ := ih harguments.2 _
      exact ⟨some none, t, (run_bind_of_ok (run_required hargument rfl s)).trans (run_bind_of_ok hrest)⟩

/-- A local part is absolute just if it is not shortened and the filled template is. -/
theorem exists_localPart (spec : GeneratorSpec) (filled : String) (s : GenerationState) :
    ∃ base t, (localPart spec filled).run s = (.ok base, t) ∧
      Namespaces.isAbsolute base = (!spec.shorten && Namespaces.isAbsolute filled) := by
  rw [localPart]
  split
  -- A name-based UUID is relative whatever it was made from.
  next hshorten =>
    refine ⟨_, s, rfl, ?_⟩
    rw [hshorten, Bool.not_true, Bool.false_and, ← Bool.not_eq_true]
    intro hname
    have hempty : Namespaces.isAbsolute "" = true :=
      isAbsolute_of_append (isPlain_uuidText _) (by simpa [nameUuid] using hname)
    exact absurd hempty (by decide)
  next hshorten =>
    rw [Bool.not_eq_true] at hshorten
    rw [hshorten, Bool.not_false, Bool.true_and]
    split
    · exact ⟨_, _, rfl, Bool.eq_iff_iff.2 ⟨isAbsolute_of_append (isPlain_peek s.uuids),
        fun h => isAbsolute_append h _⟩⟩
    · exact ⟨filled, s, rfl, rfl⟩

/-- Without its text, a generator that is always there ends every generation. -/
theorem generateBuiltIn_of_missing {b : BuiltIn} (asks : b ≠ .freshUuid)
    (missing : call.argument? "text" = none) (reader : ArgumentReader) (s : GenerationState) :
    (generateBuiltIn setting reader call b).run s =
      (.error (.abort (.setup (.missingArgument call.name "text"))), s) := by
  have hrequire : call.require "text" = .error (.missingArgument call.name "text") := by
    rw [GeneratorCall.require, missing]
  cases b with
  | freshUuid => exact absurd rfl asks
  | literal | preferredLabel =>
    rw [generateBuiltIn, generateLiteral, required, hrequire]
    rfl
  | constant =>
    rw [generateBuiltIn, generateConstant, hrequire]
    rfl
  | graphUri =>
    rw [generateBuiltIn, required, hrequire]
    rfl

/-- Without its namespace, a template whose specimen is relative ends the generation from letters. -/
theorem exists_generateUri_of_unknown {spec : GeneratorSpec} {space template : String}
    (harguments : ∀ name ∈ Template.placeholders template, call.argument? name ≠ none)
    (hspecimen : spec.shorten = false → Namespaces.isAbsolute (Template.specimen template) = false)
    (relative : Namespaces.isAbsolute space = false) (unknown : setting.namespaces.get? space = none)
    (s : GenerationState) : ∃ t,
      (generateUri setting letterReader call spec space template).run s =
        (.error (.abort (.setup (.unknownAlias space (space ++ ":")))), t) := by
  obtain ⟨language??, t, hfill⟩ := exists_fill_letter harguments s
  have hfilled : (substitute letterReader call Text.percentEncode template).run s =
      (.ok (Template.specimen template, language??.join), t) := by
    rw [substitute, run_bind_of_ok hfill]
    rfl
  obtain ⟨base, u, hbase, hrelative⟩ := exists_localPart spec (Template.specimen template) t
  have hbaseRelative : Namespaces.isAbsolute base = false := by
    rw [hrelative]
    cases hshorten : spec.shorten with
    | true => rfl
    | false => exact hspecimen hshorten
  refine ⟨u, ?_⟩
  rw [generateUri, run_bind_of_ok hfilled, run_bind_of_ok hbase, if_neg (by simp [hbaseRelative]),
    Namespaces.resolve, if_neg (by simp [relative]), unknown]
  rfl

/-- A call that lacks something ends the generation from letters. -/
theorem GeneratorPolicy.Lacks.exists_generate {e : SetupError}
    (h : policy.Lacks setting.namespaces call e) (checked : policy.check call = .ok ())
    (plain : ∀ spec ∈ policy.spec? call, ∀ className, spec.body ≠ .custom className)
    (s : GenerationState) : ∃ t,
      (policy.generate setting letterReader call).run s = (.error (.abort (.setup e)), t) := by
  rw [generate]
  cases h with
  | text hb hne hmissing =>
    rw [hb]
    exact ⟨s, generateBuiltIn_of_missing hne hmissing letterReader s⟩
  | @space spec space hspec hplaced hrelative hunknown =>
    have plain := plain spec hspec
    obtain ⟨hbuiltIn, hget⟩ := spec?_eq_some_iff.1 hspec
    obtain h | ⟨_, hspec, harguments, -⟩ := check_iff.1 checked
    · exact absurd hbuiltIn h
    cases hget.symm.trans hspec
    obtain ⟨name, space?, shorten, uuid, body⟩ := spec
    cases body with
    | custom className => exact absurd rfl (plain className)
    | pattern template =>
      rw [spaceOf?] at hplaced
      dsimp only at hplaced
      split at hplaced
      · cases hplaced
      next hspecimen =>
        subst hplaced
        rw [hbuiltIn, specOf, hget]
        exact exists_generateUri_of_unknown (harguments template rfl)
          (by simpa using hspecimen) hrelative hunknown s

/-- A call that passes the check ends no run of which all arguments can be read just if it is supplied. -/
theorem GeneratorPolicy.supplies_iff_generate (checked : policy.check call = .ok ())
    (plain : ∀ spec ∈ policy.spec? call, ∀ className, spec.body ≠ .custom className) :
    policy.Supplies setting.namespaces call ↔
      ∀ reader : ArgumentReader, (∀ argument merged, ∃ v, reader argument merged = .ok v) →
        ∀ s e t, (policy.generate setting reader call).run s ≠ (.error (.abort e), t) := by
  rw [supplies_iff]
  constructor
  · intro h reader hreader s e t hrun
    have hreads (argument : Argument) (merged : Bool) :
        ErrsOnly (fun _ => False) (reader argument merged) := by
      obtain ⟨v, hv⟩ := hreader argument merged
      exact hv ▸ .ok v
    exact AbortsOnly.generate hreads (fun e hfails => h e (hfails.lacks checked)) s e t hrun
  · intro h e hlacks
    obtain ⟨t, hrun⟩ := hlacks.exists_generate checked plain default
    exact h letterReader (fun _ _ => ⟨_, rfl⟩) default _ t hrun

end

end Crosswalk
