import Crosswalk.Xml.Reader
import Mathlib.Data.List.TakeWhile

/-!
# The names of a document

A document that was read holds only names that were written as names, so none of them contains a
delimiter of a path: no slash, no bracket, no parenthesis. Names enter a document at one place, where
a qualified name is taken from the text. From there on the reader moves them about, from tags to
declarations and attributes and from these to the open elements, and never makes a new one. What it makes
of a single piece of markup is listed in `Partial.Step`.
-/

namespace Crosswalk.Xml

/-- A text all of whose characters may stand in a name. -/
def isNameText (s : String) : Bool :=
  s.toList.all isNameChar

def Binding.isNamed (b : Binding) : Bool :=
  b.alias?.all isNameText

def Attribute.isNamed (a : Attribute) : Bool :=
  isNameText a.name.localName

mutual

/-- Whether all names at a node and below it are texts of names. -/
def Content.namesValid : Content → Bool
  | .element name bindings attributes children =>
    isNameText name.localName && bindings.all Binding.isNamed &&
      attributes.all Attribute.isNamed && namesValidAll children
  | .text _ => true
  | .comment _ => true
  | .instruction _ _ => true

def namesValidAll : List Content → Bool
  | [] => true
  | c :: cs => c.namesValid && namesValidAll cs

end

theorem namesValidAll_iff {cs : List Content} :
    namesValidAll cs = true ↔ ∀ c ∈ cs, c.namesValid = true := by
  induction cs with
  | nil => simp [namesValidAll]
  | cons c cs ih => simp [namesValidAll, ih]

def Document.namesValid (d : Document) : Bool :=
  namesValidAll d.children

/-! ## Names as they are taken -/

def WrittenName.isValid (n : WrittenName) : Bool :=
  isNameText n.qualifier && isNameText n.base

theorem isNameText_ofList {cs : List Char} (h : ∀ c ∈ cs, isNameChar c = true) :
    isNameText (String.ofList cs) = true := by
  rw [isNameText, String.toList_ofList, List.all_eq_true]
  exact h

namespace Markup

/-- Whether the names of a piece that the tree keeps are texts of names. -/
def namesValid : Markup → Bool
  | .openTag name attributes _ => name.isValid && attributes.all fun a => a.name.isValid
  | _ => true

theorem takeQualified?_isValid {cs rest : List Char} {n : WrittenName}
    (h : takeQualified? cs = some (n, rest)) : n.isValid = true := by
  have hrun : ∀ c ∈ cs.takeWhile isNameChar, isNameChar c = true :=
    fun c hc => List.mem_takeWhile_imp hc
  have sides : ∀ q b : List Char, (∀ c ∈ q, c ∈ cs.takeWhile isNameChar) →
      (∀ c ∈ b, c ∈ cs.takeWhile isNameChar) → n = ⟨String.ofList q, String.ofList b⟩ →
      n.isValid = true := by
    rintro q b hq hb rfl
    simp only [WrittenName.isValid, Bool.and_eq_true]
    exact ⟨isNameText_ofList fun c hc => hrun c (hq c hc),
      isNameText_ofList fun c hc => hrun c (hb c hc)⟩
  simp only [takeQualified?] at h
  split at h
  next q b hcut =>
    have happend := Text.cutChars?_eq_append hcut
    refine sides q b (fun c hc => by simp [happend, hc]) (fun c hc => by simp [happend, hc]) ?_
    grind
  next =>
    refine sides [] (cs.takeWhile isNameChar) (by simp) (fun _ hc => hc) ?_
    grind

theorem takeAttributes?_isValid {fuel : Nat} {cs rest : List Char} {closed : Bool}
    {as : List WrittenAttribute} (h : takeAttributes? fuel cs = some (as, closed, rest)) :
    ∀ a ∈ as, a.name.isValid = true := by
  induction fuel generalizing cs rest closed as with
  | zero => simp [takeAttributes?] at h
  | succ fuel ih =>
    rw [takeAttributes?] at h
    split at h
    · simp only [Option.some.injEq, Prod.mk.injEq] at h
      simp [← h.1]
    · simp only [Option.some.injEq, Prod.mk.injEq] at h
      simp [← h.1]
    · split at h
      · simp at h
      · simp only [Option.bind_eq_bind, Option.bind_eq_some_iff, Prod.exists,
          Option.some.injEq, Prod.mk.injEq] at h
        obtain ⟨name, after, hname, value, after', -, more, closed', rest', hmore, rfl, -, -⟩ := h
        intro a ha
        rcases List.mem_cons.1 ha with rfl | ha
        · exact takeQualified?_isValid hname
        · exact ih hmore a ha

theorem take?_namesValid {cs rest : List Char} {m : Markup} (h : take? cs = some (m, rest)) :
    m.namesValid = true := by
  unfold take? at h
  split at h
  · split at h
    · simp only [takeComment?, Option.bind_eq_bind, Option.bind_eq_some_iff, Prod.exists] at h
      obtain ⟨_, _, -, h⟩ := h
      split at h
      · simp at h
      · simp only [Option.some.injEq, Prod.mk.injEq] at h
        simp [← h.1, namesValid]
    · simp only [Option.bind_eq_bind, Option.bind_eq_some_iff, Prod.exists, Option.some.injEq,
        Prod.mk.injEq] at h
      obtain ⟨_, -, _, _, -, rfl, -⟩ := h
      rfl
  · split at h
    · simp at h
    · simp only [takeInstruction?, Option.bind_eq_bind, Option.bind_eq_some_iff, Prod.exists,
        Option.some.injEq, Prod.mk.injEq] at h
      obtain ⟨_, _, -, _, _, -, rfl, -⟩ := h
      rfl
  · simp only [Option.bind_eq_bind, Option.bind_eq_some_iff, Prod.exists] at h
    obtain ⟨_, _, -, h⟩ := h
    split at h
    · simp only [Option.some.injEq, Prod.mk.injEq] at h
      simp [← h.1, namesValid]
    · simp at h
  · simp only [Option.bind_eq_bind, Option.bind_eq_some_iff, Prod.exists, Option.some.injEq,
      Prod.mk.injEq] at h
    obtain ⟨name, _, hname, as, _, _, has, rfl, -⟩ := h
    simp only [namesValid, Bool.and_eq_true, List.all_eq_true]
    exact ⟨takeQualified?_isValid hname, takeAttributes?_isValid has⟩
  · simp only [] at h
    split at h
    · simp at h
    · simp only [Option.some.injEq, Prod.mk.injEq] at h
      simp [← h.1, namesValid]

theorem takeAll?_namesValid {fuel : Nat} {cs : List Char} {ms : List Markup}
    (h : takeAll? fuel cs = some ms) : ∀ m ∈ ms, m.namesValid = true := by
  induction fuel generalizing cs ms with
  | zero =>
    cases cs with
    | nil => simp only [takeAll?, Option.some.injEq] at h; simp [← h]
    | cons => simp [takeAll?] at h
  | succ fuel ih =>
    cases cs with
    | nil => simp only [takeAll?, Option.some.injEq] at h; simp [← h]
    | cons c cs =>
      simp only [takeAll?, Option.bind_eq_bind, Option.bind_eq_some_iff, Prod.exists,
        Option.some.injEq] at h
      obtain ⟨piece, rest, hpiece, more, hmore, rfl⟩ := h
      intro m hm
      rcases List.mem_cons.1 hm with rfl | hm
      · exact take?_namesValid hpiece
      · exact ih hmore m hm

theorem ofChars?_namesValid {cs : List Char} {ms : List Markup} (h : ofChars? cs = some ms) :
    ∀ m ∈ ms, m.namesValid = true := by
  simp only [ofChars?] at h
  split at h
  · simp at h
  · simp only [Option.bind_eq_bind, Option.bind_some] at h
    split at h
    · obtain ⟨_, -, h⟩ := Option.bind_eq_some_iff.1 h
      exact takeAll?_namesValid h
    · exact takeAll?_namesValid h

end Markup

/-! ## Names as they are resolved -/

theorem sortAttributes?_valid {as : List WrittenAttribute} {bs bs' : List Binding}
    {plain plain' : List (WrittenName × String)} (has : ∀ a ∈ as, a.name.isValid = true)
    (hbs : ∀ b ∈ bs, b.isNamed = true) (hplain : ∀ a ∈ plain, a.1.isValid = true)
    (h : sortAttributes? bs plain as = some (bs', plain')) :
    (∀ b ∈ bs', b.isNamed = true) ∧ ∀ a ∈ plain', a.1.isValid = true := by
  induction as generalizing bs plain with
  | nil =>
    simp only [sortAttributes?, Option.some.injEq, Prod.mk.injEq] at h
    obtain ⟨rfl, rfl⟩ := h
    exact ⟨fun b hb => hbs b (List.mem_reverse.1 hb), fun a ha => hplain a (List.mem_reverse.1 ha)⟩
  | cons a rest ih =>
    obtain ⟨ha, hrest⟩ := List.forall_mem_cons.1 has
    have hbase : isNameText a.name.base = true := by
      simp only [WrittenName.isValid, Bool.and_eq_true] at ha
      exact ha.2
    simp only [sortAttributes?, Option.bind_eq_bind, Option.bind_eq_some_iff] at h
    obtain ⟨value, -, h⟩ := h
    have declared : ∀ alias? : Option String, alias?.all isNameText = true →
        ∀ b ∈ (⟨alias?, value⟩ :: bs : List Binding), b.isNamed = true :=
      fun _ halias => List.forall_mem_cons.2 ⟨halias, hbs⟩
    split at h
    · split at h
      · simp at h
      · split at h
        · split at h
          · exact ih hrest hbs hplain h
          · simp at h
        · split at h
          · simp at h
          · split at h
            · simp at h
            · exact ih hrest (declared (some a.name.base) hbase) hplain h
    · split at h
      · split at h
        · simp at h
        · exact ih hrest (declared none rfl) hplain h
      · exact ih hrest hbs (List.forall_mem_cons.2 ⟨ha, hplain⟩) h

theorem attributeName?_localName {scope : List Binding} {n : WrittenName} {name : ExpandedName}
    (h : attributeName? scope n = some name) : name.localName = n.base := by
  unfold attributeName? at h
  split at h
  · simp only [Option.some.injEq] at h; rw [← h]
  · split at h
    · simp only [Option.some.injEq] at h; rw [← h]
    · obtain ⟨_, -, rfl⟩ := Option.map_eq_some_iff.1 h
      rfl

theorem elementName?_localName {scope : List Binding} {n : WrittenName} {name : ExpandedName}
    (h : elementName? scope n = some name) : name.localName = n.base := by
  unfold elementName? at h
  split at h
  · simp only [Option.some.injEq] at h; rw [← h]
  · obtain ⟨_, -, rfl⟩ := Option.map_eq_some_iff.1 h
    rfl

theorem resolveAttributes?_valid {scope : List Binding} {plain : List (WrittenName × String)}
    {done as : List Attribute} (hplain : ∀ a ∈ plain, a.1.isValid = true)
    (hdone : ∀ a ∈ done, a.isNamed = true) (h : resolveAttributes? scope done plain = some as) :
    ∀ a ∈ as, a.isNamed = true := by
  induction plain generalizing done with
  | nil =>
    simp only [resolveAttributes?, Option.some.injEq] at h
    subst h
    simpa using hdone
  | cons a rest ih =>
    obtain ⟨n, value⟩ := a
    obtain ⟨ha, hrest⟩ := List.forall_mem_cons.1 hplain
    simp only [resolveAttributes?, Option.bind_eq_bind, Option.bind_eq_some_iff] at h
    obtain ⟨name, hname, h⟩ := h
    split at h
    · simp at h
    · refine ih hrest (List.forall_mem_cons.2 ⟨?_, hdone⟩) h
      simp only [WrittenName.isValid, Bool.and_eq_true] at ha
      rw [Attribute.isNamed, attributeName?_localName hname]
      exact ha.2

/-! ## What the reader does with a piece of markup -/

namespace Partial

/-- What a piece of markup makes of a document that was read in part. -/
inductive Step (p : Partial) : Markup → Partial → Prop
  | comment {body : List Char} : Step p (.comment body) (p.add (.comment (String.ofList body)))
  | instruction {target : String} {data? : Option String} :
    Step p (.instruction target data?) (p.add (.instruction target data?))
  | space {written : List Char} : Step p (.text written) p
  | text {written : List Char} {t : String} (read : textOf? written = some t) :
    Step p (.text written) (p.addText t)
  | marked {written : List Char} : Step p (.marked written) (p.addText (sectionText written))
  | empty {written : WrittenName} {attributes : List WrittenAttribute} {name : ExpandedName}
      {bindings scope : List Binding} {plain : List (WrittenName × String)} {as : List Attribute}
      (sorted : sortAttributes? [] [] attributes = some (bindings, plain))
      (resolved : resolveAttributes? scope [] plain = some as)
      (named : elementName? scope written = some name) :
    Step p (.openTag written attributes true) (p.add (.element name bindings as []))
  | opened {written : WrittenName} {attributes : List WrittenAttribute} {name : ExpandedName}
      {bindings scope : List Binding} {plain : List (WrittenName × String)} {as : List Attribute}
      (sorted : sortAttributes? [] [] attributes = some (bindings, plain))
      (resolved : resolveAttributes? scope [] plain = some as)
      (named : elementName? scope written = some name) :
    Step p (.openTag written attributes false)
      { p with stack := ⟨written, name, bindings, as, scope, []⟩ :: p.stack }
  | closed {written : WrittenName} {e : OpenElement} {outer : List OpenElement}
      (innermost : p.stack = e :: outer) :
    Step p (.closeTag written) (add { p with stack := outer }
      (.element e.name e.bindings e.attributes e.children.reverse))

variable {p q : Partial} {m : Markup} {ms : List Markup}

theorem step_of_step? (h : p.step? m = some q) : p.Step m q := by
  cases m with
  | comment body =>
    cases h
    exact .comment
  | instruction target data =>
    cases h
    exact .instruction
  | text written =>
    simp only [Partial.step?] at h
    split at h
    · split at h
      · cases h
        exact .space
      · cases h
    · obtain ⟨t, ht, rfl⟩ := Option.map_eq_some_iff.1 h
      exact .text ht
  | marked written =>
    simp only [Partial.step?] at h
    split at h
    · cases h
    · cases h
      exact .marked
  | openTag written attributes closed =>
    simp only [Partial.step?] at h
    split at h
    · cases h
    simp only [Option.bind_eq_bind] at h
    split at h
    · cases h
    simp only [Option.bind_eq_some_iff, Prod.exists] at h
    obtain ⟨bindings, plain, hsorted, as, hresolved, name, hnamed, h⟩ := h
    cases closed with
    | true =>
      cases h
      exact .empty hsorted hresolved hnamed
    | false =>
      cases h
      exact .opened hsorted hresolved hnamed
  | closeTag written =>
    simp only [Partial.step?] at h
    split at h
    · cases h
    next e outer hstack =>
      split at h
      · cases h
        exact .closed hstack
      · cases h

/-- What every piece of markup keeps, and what holds before any of it is read, holds in the end. -/
theorem of_steps? {P : Partial → Prop} (hstep : ∀ p, ∀ m ∈ ms, ∀ q, P p → p.Step m q → P q) (hp : P p)
    (h : p.steps? ms = some q) : P q := by
  induction ms generalizing p with
  | nil =>
    cases h
    exact hp
  | cons m rest ih =>
    simp only [Partial.steps?, Option.bind_eq_bind, Option.bind_eq_some_iff] at h
    obtain ⟨next, hnext, h⟩ := h
    refine ih (fun p m hm => hstep p m (List.mem_cons_of_mem _ hm)) ?_ h
    exact hstep p m List.mem_cons_self next hp (step_of_step? hnext)

end Partial

theorem Document.steps_of_read {s : String} {d : Document} (h : Document.read? s = some d) :
    ∃ pieces p, Markup.ofChars? s.toList = some pieces ∧ Partial.steps? ⟨[], []⟩ pieces = some p ∧
      d = ⟨p.top.reverse⟩ := by
  simp only [Document.read?, Option.bind_eq_bind, Option.bind_eq_some_iff] at h
  obtain ⟨pieces, hpieces, p, hsteps, h⟩ := h
  split at h
  · cases h
    exact ⟨pieces, p, hpieces, hsteps, rfl⟩
  · cases h

/-! ## The tree -/

theorem namesValid_of_openTag {written : WrittenName} {attributes : List WrittenAttribute}
    {closed : Bool} {name : ExpandedName} {bindings scope : List Binding}
    {plain : List (WrittenName × String)} {as : List Attribute}
    (hm : (Markup.openTag written attributes closed).namesValid = true)
    (sorted : sortAttributes? [] [] attributes = some (bindings, plain))
    (resolved : resolveAttributes? scope [] plain = some as)
    (named : elementName? scope written = some name) :
    isNameText name.localName = true ∧ (∀ b ∈ bindings, b.isNamed = true) ∧ ∀ a ∈ as, a.isNamed = true := by
  simp only [Markup.namesValid, Bool.and_eq_true, List.all_eq_true] at hm
  obtain ⟨hwritten, has⟩ := hm
  simp only [WrittenName.isValid, Bool.and_eq_true] at hwritten
  obtain ⟨hbindings, hplain⟩ := sortAttributes?_valid has (by simp) (by simp) sorted
  refine ⟨?_, hbindings, resolveAttributes?_valid hplain (by simp) resolved⟩
  rw [elementName?_localName named]
  exact hwritten.2

/-- Whether all names in an open element are texts of names. -/
structure OpenElement.NamesValid (e : OpenElement) : Prop where
  name : isNameText e.name.localName = true
  bindings : ∀ b ∈ e.bindings, b.isNamed = true
  attributes : ∀ a ∈ e.attributes, a.isNamed = true
  children : ∀ c ∈ e.children, c.namesValid = true

namespace Partial

structure NamesValid (p : Partial) : Prop where
  top : ∀ c ∈ p.top, c.namesValid = true
  stack : ∀ e ∈ p.stack, e.NamesValid

theorem NamesValid.add {p : Partial} (hp : p.NamesValid) {c : Content} (hc : c.namesValid = true) :
    (p.add c).NamesValid := by
  obtain ⟨top, stack⟩ := p
  cases stack with
  | nil => exact ⟨List.forall_mem_cons.2 ⟨hc, hp.top⟩, hp.stack⟩
  | cons e outer =>
    obtain ⟨he, houter⟩ := List.forall_mem_cons.1 hp.stack
    exact ⟨hp.top, List.forall_mem_cons.2
      ⟨⟨he.name, he.bindings, he.attributes, List.forall_mem_cons.2 ⟨hc, he.children⟩⟩, houter⟩⟩

theorem NamesValid.addText {p : Partial} (hp : p.NamesValid) (t : String) :
    (p.addText t).NamesValid := by
  obtain ⟨top, stack⟩ := p
  cases stack with
  | nil => exact hp
  | cons e outer =>
    obtain ⟨he, houter⟩ := List.forall_mem_cons.1 hp.stack
    refine ⟨hp.top, List.forall_mem_cons.2
      ⟨⟨he.name, he.bindings, he.attributes, ?_⟩, houter⟩⟩
    simp only []
    split
    next before more hchildren =>
      have hmore := he.children
      rw [hchildren] at hmore
      exact List.forall_mem_cons.2 ⟨rfl, (List.forall_mem_cons.1 hmore).2⟩
    next => exact List.forall_mem_cons.2 ⟨rfl, he.children⟩

theorem NamesValid.open {p : Partial} (hp : p.NamesValid) {e : OpenElement} (he : e.NamesValid) :
    NamesValid { p with stack := e :: p.stack } :=
  ⟨hp.top, List.forall_mem_cons.2 ⟨he, hp.stack⟩⟩

theorem NamesValid.step {p q : Partial} (hp : p.NamesValid) {m : Markup} (hm : m.namesValid = true)
    (h : p.Step m q) : q.NamesValid := by
  cases h with
  | comment | instruction => exact hp.add rfl
  | space => exact hp
  | text | marked => exact hp.addText _
  | empty sorted resolved named =>
    obtain ⟨hname, hbindings, hattributes⟩ := namesValid_of_openTag hm sorted resolved named
    refine hp.add ?_
    simp only [Content.namesValid, Bool.and_eq_true, List.all_eq_true, namesValidAll]
    exact ⟨⟨⟨hname, hbindings⟩, hattributes⟩, trivial⟩
  | opened sorted resolved named =>
    obtain ⟨hname, hbindings, hattributes⟩ := namesValid_of_openTag hm sorted resolved named
    exact hp.open ⟨hname, hbindings, hattributes, by simp⟩
  | @closed _ _ outer innermost =>
    have hstack := hp.stack
    rw [innermost] at hstack
    obtain ⟨he, houter⟩ := List.forall_mem_cons.1 hstack
    have hrest : NamesValid { p with stack := outer } := ⟨hp.top, houter⟩
    refine hrest.add ?_
    simp only [Content.namesValid, Bool.and_eq_true, List.all_eq_true, namesValidAll_iff]
    exact ⟨⟨⟨he.name, he.bindings⟩, he.attributes⟩, fun c hc => he.children c (by simpa using hc)⟩

end Partial

/-- Whatever is read, its names are texts of names. -/
theorem Document.namesValid_of_read {s : String} {d : Document} (h : Document.read? s = some d) :
    d.namesValid = true := by
  obtain ⟨pieces, p, hpieces, hsteps, rfl⟩ := Document.steps_of_read h
  have hp : p.NamesValid := Partial.of_steps?
    (fun p m hm q hp => hp.step (Markup.ofChars?_namesValid hpieces m hm)) ⟨by simp, by simp⟩ hsteps
  rw [Document.namesValid, namesValidAll_iff]
  exact fun c hc => hp.top c (by simpa using hc)

end Crosswalk.Xml
