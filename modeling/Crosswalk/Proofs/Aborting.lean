import Crosswalk.Proofs.FilledTemplates
import Crosswalk.Proofs.Results
import Crosswalk.Run.Execute

/-!
# Which errors can end a step

A step of a run or of a generation that ends everything does so with an error, and which errors these can
be follows from the text of the step alone, whatever state it starts in: they are those of its parts.
-/

namespace Crosswalk

/-- If a reading is at fault, its fault is of a kind. -/
def ErrsOnly {ε α : Type} (P : ε → Prop) (r : Except ε α) : Prop :=
  ∀ e, r = .error e → P e

namespace ErrsOnly

variable {ε ε' α β : Type} {P : ε → Prop} {r : Except ε α}

theorem ok (a : α) : ErrsOnly P (.ok a) := by
  rintro e ⟨⟩

theorem error {e : ε} (h : P e) : ErrsOnly P (.error e : Except ε α) := by
  rintro _ ⟨⟩
  exact h

protected theorem bind {f : α → Except ε β} (hr : ErrsOnly P r) (hf : ∀ a, ErrsOnly P (f a)) :
    ErrsOnly P (r >>= f) := by
  intro e h
  cases r with
  | ok a => exact hf a e h
  | error e' =>
    cases h
    exact hr _ rfl

protected theorem map {f : α → β} (hr : ErrsOnly P r) : ErrsOnly P (r.map f) := by
  intro e h
  cases r with
  | ok a => cases h
  | error e' =>
    cases h
    exact hr _ rfl

protected theorem mapError {Q : ε' → Prop} {g : ε → ε'} (hr : ErrsOnly (fun e => Q (g e)) r) :
    ErrsOnly Q (r.mapError g) := by
  intro e h
  cases r with
  | ok a => cases h
  | error e' =>
    cases h
    exact hr _ rfl

theorem mapM {g : α → Except ε β} {as : List α} (h : ∀ a ∈ as, ErrsOnly P (g a)) :
    ErrsOnly P (as.mapM g) := by
  induction as with
  | nil => exact .ok _
  | cons a rest ih =>
    rw [List.forall_mem_cons] at h
    rw [List.mapM_cons]
    exact .bind h.1 fun _ => .bind (ih h.2) fun _ => .ok _

theorem mono {Q : ε → Prop} (hr : ErrsOnly P r) (h : ∀ e, P e → Q e) : ErrsOnly Q r :=
  fun e he => h e (hr e he)

end ErrsOnly

section

variable {σ α β : Type} {m : ExceptT Fault (StateM σ) α} {f : α → ExceptT Fault (StateM σ) β}
  {s t : σ}

theorem run_bind_of_ok {a : α} (h : m.run s = (.ok a, t)) : (m >>= f).run s = (f a).run t := by
  change ExceptT.bindCont f (m.run s).1 (m.run s).2 = _
  rw [h]
  rfl

theorem run_bind_of_error {e : Fault} (h : m.run s = (.error e, t)) :
    (m >>= f).run s = (.error e, t) := by
  change ExceptT.bindCont f (m.run s).1 (m.run s).2 = _
  rw [h]
  rfl

end

/-- If a step ends the run, it does so with an error of a kind. -/
def AbortsOnly {σ α : Type} (P : RunError → Prop) (m : ExceptT Fault (StateM σ) α) : Prop :=
  ∀ s e t, m.run s = (.error (.abort e), t) → P e

namespace AbortsOnly

variable {σ α β : Type} {P : RunError → Prop} {m : ExceptT Fault (StateM σ) α}
  {f : α → ExceptT Fault (StateM σ) β}

protected theorem pure (a : α) : AbortsOnly P (pure a : ExceptT Fault (StateM σ) α) := by
  rintro s e t ⟨⟩

theorem abort {e : RunError} (h : P e) :
    AbortsOnly P (throw (.abort e) : ExceptT Fault (StateM σ) α) := by
  rintro s _ t ⟨⟩
  exact h

theorem drop (cause : DropCause) :
    AbortsOnly P (throw (.drop cause) : ExceptT Fault (StateM σ) α) := by
  rintro s e t ⟨⟩

theorem modify (g : σ → σ) : AbortsOnly P (modify g : ExceptT Fault (StateM σ) PUnit) := by
  rintro s e t ⟨⟩

theorem modifyGet (g : σ → α × σ) : AbortsOnly P (modifyGet g : ExceptT Fault (StateM σ) α) := by
  rintro s e t ⟨⟩

theorem get : AbortsOnly P (get : ExceptT Fault (StateM σ) σ) := by
  rintro s e t ⟨⟩

/-- The second of two steps may rely on what the first one gave. -/
theorem bind_of_ok (hm : AbortsOnly P m)
    (hf : ∀ s a t, m.run s = (.ok a, t) → AbortsOnly P (f a)) : AbortsOnly P (m >>= f) := by
  intro s e v h
  rcases hs : m.run s with ⟨e' | a, t⟩
  · rw [run_bind_of_error hs] at h
    cases h
    exact hm s e _ hs
  · rw [run_bind_of_ok hs] at h
    exact hf s a t hs t e v h

protected theorem bind (hm : AbortsOnly P m) (hf : ∀ a, AbortsOnly P (f a)) :
    AbortsOnly P (m >>= f) :=
  hm.bind_of_ok fun _ a _ _ => hf a

protected theorem tryCatch {handler : Fault → ExceptT Fault (StateM σ) α} (hm : AbortsOnly P m)
    (hdrop : ∀ cause, AbortsOnly P (handler (.drop cause)))
    (habort : ∀ e, P e → AbortsOnly P (handler (.abort e))) :
    AbortsOnly P (tryCatch m handler) := by
  intro s e u h
  rcases hs : m.run s with ⟨r, t⟩
  have hrun : StateT.run (ExceptT.run m) s = (r, t) := hs
  change StateT.run (ExceptT.run (tryCatch m handler)) s = _ at h
  rw [ExceptT.run_tryCatch] at h
  change StateT.run (ExceptT.run m >>= _) s = _ at h
  rw [StateT.run_bind, hrun] at h
  rcases r with ⟨e' | cause⟩ | a
  · exact habort e' (hm s e' t hs) t e u h
  · exact hdrop cause t e u h
  · cases h

theorem exists_of_bind_ok {b : β} {s t : σ} (h : (m >>= f).run s = (.ok b, t)) :
    ∃ a u, m.run s = (.ok a, u) ∧ (f a).run u = (.ok b, t) := by
  rcases hs : m.run s with ⟨e | a, u⟩
  · rw [run_bind_of_error hs] at h
    cases h
  · rw [run_bind_of_ok hs] at h
    exact ⟨a, u, rfl, h⟩

end AbortsOnly

/-! ## Generations -/

namespace GeneratorPolicy

/-- The generator of the policy that a call names, unless it names one that is always there. -/
def spec? (policy : GeneratorPolicy) (call : GeneratorCall) : Option GeneratorSpec :=
  match BuiltIn.ofName? call.name with
  | some _ => none
  | none => policy.get? call.name

/-- The arguments that a call cannot do without. -/
def wanted (policy : GeneratorPolicy) (call : GeneratorCall) : List String :=
  match BuiltIn.ofName? call.name with
  | some .freshUuid => []
  | some _ => ["text"]
  | none =>
    match (policy.get? call.name).map GeneratorSpec.body with
    | some (.pattern template) => Template.placeholders template
    | _ => []

/-- The namespace in which the URIs of a generator are placed, unless they are always absolute. -/
def spaceOf? (policy : GeneratorPolicy) (spec : GeneratorSpec) : Option String :=
  match spec.body with
  | .pattern template =>
    if !spec.shorten && Namespaces.isAbsolute (Template.specimen template) then none else spec.space?
  | .custom className =>
    match policy.classes.get? className with
    | some cls => if cls.kind = .uri && cls.usesNamespace then spec.space? else none
    | none => none

/-- The errors with which a call can end a run, whatever its arguments are read as. -/
inductive Fails (policy : GeneratorPolicy) (ns : Namespaces) (call : GeneratorCall) :
    SetupError → Prop
  | unknown (builtIn : BuiltIn.ofName? call.name = none) (unknown : policy.get? call.name = none) :
    Fails policy ns call (.unknownGenerator call.name)
  | unregistered {spec : GeneratorSpec} {className : String} (specified : policy.spec? call = some spec)
      (custom : spec.body = .custom className) (unregistered : policy.classes.get? className = none) :
    Fails policy ns call (.unknownClass className)
  | argument {name : String} (wanted : name ∈ policy.wanted call)
      (missing : call.argument? name = none) : Fails policy ns call (.missingArgument call.name name)
  | space {spec : GeneratorSpec} {space : String} (specified : policy.spec? call = some spec)
      (placed : policy.spaceOf? spec = some space) (relative : Namespaces.isAbsolute space = false)
      (unknown : ns.get? space = none) : Fails policy ns call (.unknownAlias space (space ++ ":"))

end GeneratorPolicy

section

open Generation

variable {P : RunError → Prop} {policy : GeneratorPolicy} {setting : GeneratorSetting}
  {reader : ArgumentReader} {call : GeneratorCall}

namespace AbortsOnly

theorem ofSetup {α : Type} {r : Except SetupError α} (h : ErrsOnly (fun e => P (.setup e)) r) :
    AbortsOnly P (Generation.ofSetup r) := by
  cases r with
  | ok a => exact .pure a
  | error e => exact .abort (h e rfl)

variable (hreader : ∀ argument merged, ErrsOnly P (reader argument merged))

include hreader

theorem ask (argument : Argument) (merged : Bool) : AbortsOnly P (ask reader argument merged) := by
  refine .bind (.modify _) fun _ => ?_
  split
  · exact .pure _
  next e he => exact .abort (hreader argument merged e he)

variable {name : String}
  (hargument : call.argument? name = none → P (.setup (.missingArgument call.name name)))

omit hreader in
include hargument in
theorem require : AbortsOnly P (Generation.ofSetup (call.require name)) := by
  refine ofSetup fun e he => ?_
  rw [GeneratorCall.require] at he
  split at he
  · cases he
  next hnone =>
    cases he
    exact hargument hnone

include hargument in
theorem required : AbortsOnly P (required reader call name) :=
  .bind (require hargument) fun argument => ask hreader argument false

theorem literalLanguage (inherited? : Option String) :
    AbortsOnly P (literalLanguage setting reader call inherited?) := by
  rw [Crosswalk.literalLanguage]
  split
  · exact .bind (ask hreader _ _) fun _ => .pure _
  · exact .pure _

theorem generateLiteral
    (htext : call.argument? "text" = none → P (.setup (.missingArgument call.name "text"))) :
    AbortsOnly P (generateLiteral setting reader call) := by
  refine .bind (required hreader htext) fun text => ?_
  split
  · exact .drop _
  · exact .bind (literalLanguage hreader _) fun _ => .pure _

theorem generateBuiltIn {b : BuiltIn} (htext : b ≠ .freshUuid → call.argument? "text" = none →
    P (.setup (.missingArgument call.name "text"))) :
    AbortsOnly P (generateBuiltIn setting reader call b) := by
  cases b with
  | freshUuid => exact .bind (.modifyGet _) fun _ => .pure _
  | literal => exact generateLiteral hreader (htext (by decide))
  | preferredLabel => exact generateLiteral hreader (htext (by decide))
  | constant =>
    exact .bind (require (htext (by decide))) fun text =>
      .bind (literalLanguage hreader _) fun _ => .pure _
  | graphUri => exact .bind (required hreader (htext (by decide))) fun _ => .pure _

theorem fill {encode : String → String} {pieces : List Template.Piece}
    (hholes : ∀ name ∈ pieces.filterMap Template.Piece.name?, call.argument? name = none →
      P (.setup (.missingArgument call.name name))) :
    AbortsOnly P (fill reader call encode pieces) := by
  induction pieces with
  | nil => exact .pure _
  | cons piece rest ih =>
    have hrest := (List.sublist_cons_self piece rest).filterMap Template.Piece.name?
    have ih := ih fun name hname => hholes name (hrest.subset hname)
    cases piece with
    | char c => exact .bind ih fun _ => .pure _
    | hole name =>
      refine .bind (required hreader (hholes _ List.mem_cons_self)) fun v => ?_
      split
      · exact .drop _
      · exact .bind ih fun _ => .pure _

omit hreader in
theorem fills_of_fill {encode : String → String} {pieces : List Template.Piece} {text : List Char}
    {language?? : Option (Option String)} {s t : GenerationState}
    (h : (Crosswalk.fill reader call encode pieces).run s = (.ok (text, language??), t)) :
    Template.Fills pieces text := by
  induction pieces generalizing text language?? s t with
  | nil =>
    cases h
    exact .nil
  | cons piece rest ih =>
    cases piece with
    | char c =>
      obtain ⟨_, _, hrest, h⟩ := exists_of_bind_ok h
      cases h
      exact .char c (ih hrest)
    | hole name =>
      obtain ⟨v, _, -, h⟩ := exists_of_bind_ok h
      split at h
      · cases h
      · obtain ⟨_, _, hrest, h⟩ := exists_of_bind_ok h
        cases h
        exact .hole name _ (ih hrest)

theorem substitute {encode : String → String} {template : String}
    (hholes : ∀ name ∈ Template.placeholders template, call.argument? name = none →
      P (.setup (.missingArgument call.name name))) :
    AbortsOnly P (substitute reader call encode template) :=
  .bind (fill hreader hholes) fun _ => .pure _

omit hreader in
theorem resolve {ns : Namespaces} {space : String}
    (hspace : Namespaces.isAbsolute space = false → ns.get? space = none →
      P (.setup (.unknownAlias space (space ++ ":")))) :
    AbortsOnly P (Generation.ofSetup (ns.resolve space)) := by
  refine ofSetup fun e he => ?_
  rw [Namespaces.resolve] at he
  split at he
  · cases he
  next hrelative =>
    split at he
    · cases he
    next hunknown =>
      cases he
      exact hspace (by simpa using hrelative) hunknown

omit hreader in
/-- What a template is filled to, or that with an identifier behind it, begins with a filled template. -/
theorem exists_of_localPart {spec : GeneratorSpec} {encode : String → String}
    {template filled base : String} {language? : Option String} {s t u v : GenerationState}
    (hshorten : spec.shorten = false)
    (hfilled : (Crosswalk.substitute reader call encode template).run s = (.ok (filled, language?), t))
    (hbase : (localPart spec filled).run u = (.ok base, v)) :
    ∃ text more, Template.Fills (Template.pieces template.toList) text ∧
      base = String.ofList (text ++ more) := by
  obtain ⟨⟨text, _⟩, _, hfill, hfilled⟩ := exists_of_bind_ok hfilled
  cases hfilled
  rw [localPart, hshorten, if_neg Bool.false_ne_true] at hbase
  split at hbase
  · obtain ⟨suffix, _, -, hbase⟩ := exists_of_bind_ok hbase
    cases hbase
    exact ⟨text, suffix.toList, fills_of_fill hfill, by simp⟩
  · cases hbase
    exact ⟨text, [], fills_of_fill hfill, by simp⟩

theorem generateUri {spec : GeneratorSpec} {space template : String}
    (hbody : spec.body = .pattern template) (hspace? : spec.space? = some space)
    (hholes : ∀ name ∈ Template.placeholders template, call.argument? name = none →
      P (.setup (.missingArgument call.name name)))
    (hspace : policy.spaceOf? spec = some space → Namespaces.isAbsolute space = false →
      setting.namespaces.get? space = none → P (.setup (.unknownAlias space (space ++ ":")))) :
    AbortsOnly P (generateUri setting reader call spec space template) := by
  refine (substitute hreader hholes).bind_of_ok fun s ⟨filled, _⟩ t hfilled => ?_
  have hlocal : AbortsOnly P (localPart spec filled) := by
    rw [localPart]
    split
    · exact .pure _
    · split
      · exact .bind (.modifyGet _) fun _ => .pure _
      · exact .pure _
  refine hlocal.bind_of_ok fun u base v hbase => ?_
  split
  · exact .pure _
  next hrelative =>
    refine .bind (resolve (hspace ?_)) fun _ => .pure _
    rw [GeneratorPolicy.spaceOf?, hbody, hspace?]
    -- With an absolute specimen the base would be absolute too, and no namespace would be asked for.
    refine if_neg fun habsolute => hrelative ?_
    rw [Bool.and_eq_true, Bool.not_eq_true'] at habsolute
    obtain ⟨text, more, hfills, rfl⟩ := exists_of_localPart habsolute.1 hfilled hbase
    exact Template.isAbsolute_specimen_iff.1 habsolute.2 text more hfills

theorem generateText {template : String}
    (hholes : ∀ name ∈ Template.placeholders template, call.argument? name = none →
      P (.setup (.missingArgument call.name name))) :
    AbortsOnly P (generateText setting reader call template) :=
  .bind (substitute hreader hholes) fun _ => .bind (literalLanguage hreader _) fun _ => .pure _

theorem handOver (className : String) (cls : CustomClass) (arguments : List Argument)
    (input : CustomInput) : AbortsOnly P (handOver reader className cls arguments input) := by
  induction arguments generalizing input with
  | nil => exact .pure _
  | cons argument rest ih =>
    refine .bind (ask hreader _ _) fun v => ?_
    split
    · exact ih _
    · split
      · exact .drop _
      · exact ih _

theorem generateCustom {spec : GeneratorSpec} {className : String} {cls : CustomClass}
    (hbody : spec.body = .custom className) (hcls : policy.classes.get? className = some cls)
    (hspace : ∀ space, policy.spaceOf? spec = some space → Namespaces.isAbsolute space = false →
      setting.namespaces.get? space = none → P (.setup (.unknownAlias space (space ++ ":")))) :
    AbortsOnly P (generateCustom setting reader call spec className cls) := by
  refine .bind (handOver hreader _ _ _ _) fun input => ?_
  split
  · rw [customValue]
    split
    · exact .pure _
    next hkind =>
      split
      next space hspace? =>
        split
        next huses =>
          refine .bind (resolve (hspace space ?_)) fun _ => .pure _
          rw [Bool.and_eq_true] at huses
          simp [GeneratorPolicy.spaceOf?, hbody, hcls, hkind, huses.1, hspace?]
        · exact .pure _
      · exact .pure _
    · split
      · exact .drop _
      · exact .pure _
  · exact .drop _

/-- A generation ends the run because an argument cannot be read, or with an error of its call. -/
theorem generate
    (hcall : ∀ e, policy.Fails setting.namespaces call e → P (.setup e)) :
    AbortsOnly P (policy.generate setting reader call) := by
  rw [GeneratorPolicy.generate]
  split
  next b hb =>
    refine generateBuiltIn hreader fun hne hmissing => hcall _ (.argument ?_ hmissing)
    rw [GeneratorPolicy.wanted, hb]
    cases b with
    | freshUuid => exact absurd rfl hne
    | _ => exact List.mem_singleton_self _
  next hb =>
    rw [GeneratorPolicy.specOf]
    rcases hget : policy.get? call.name with _ | spec
    · refine .bind_of_ok (.abort (hcall _ (.unknown hb hget))) ?_
      rintro s spec t ⟨⟩
    have hspec : policy.spec? call = some spec := by rw [GeneratorPolicy.spec?, hb, hget]
    have hspace (space : String) (hplaced : policy.spaceOf? spec = some space) hrelative hunknown :=
      hcall _ (.space hspec hplaced hrelative hunknown)
    have hholes {template : String} (hbody : spec.body = .pattern template) (name : String)
        (hname : name ∈ Template.placeholders template) (hmissing : call.argument? name = none) :
        P (.setup (.missingArgument call.name name)) := by
      refine hcall _ (.argument ?_ hmissing)
      rwa [GeneratorPolicy.wanted, hb, hget, Option.map_some, hbody]
    change AbortsOnly P (pure spec >>= _)
    rw [pure_bind]
    split
    next className _ hbody =>
      split
      next cls hcls => exact generateCustom hreader hbody hcls hspace
      next hcls => exact .abort (hcall _ (.unregistered hspec hbody hcls))
    next template space hbody hspace? =>
      exact generateUri hreader hbody hspace? (hholes hbody) (hspace space)
    next template hbody _ => exact generateText hreader (hholes hbody)

end AbortsOnly

end

end Crosswalk
