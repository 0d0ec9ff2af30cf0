import Crosswalk.Proofs.DocumentNodes
import Crosswalk.Proofs.ValidNames
import Mathlib.Data.List.Nodup

/-!
# The attributes of an element have different names

A tag in which a name is given twice is not accepted, whatever aliases it is written with: names are
compared when they are in their namespaces. So in a document that was read an attribute is known by
its name. `every` says of the nodes of a tree what is to be said of each of them.
-/

namespace Crosswalk.Xml

/-! ## Every node of a document -/

mutual

/-- Whether a property holds of a node and of all nodes below it. -/
def Content.every (f : Content → Bool) : Content → Bool
  | .element n bs as cs => f (.element n bs as cs) && everyAmong f cs
  | .text t => f (.text t)
  | .comment t => f (.comment t)
  | .instruction target data => f (.instruction target data)

def everyAmong (f : Content → Bool) : List Content → Bool
  | [] => true
  | c :: cs => c.every f && everyAmong f cs

end

variable {f : Content → Bool} {c : Content} {cs : List Content} {d : Document} {l : Location}

theorem everyAmong_iff : everyAmong f cs = true ↔ ∀ c ∈ cs, c.every f = true := by
  induction cs with
  | nil => simp [everyAmong]
  | cons c cs ih => simp [everyAmong, ih]

theorem Content.of_every (h : c.every f = true) : f c = true ∧ everyAmong f c.children = true := by
  cases c with
  | element =>
    rw [Content.every, Bool.and_eq_true] at h
    exact h
  | text | comment | instruction => exact ⟨h, rfl⟩

theorem Document.of_everyAmong (h : everyAmong f d.children = true)
    (hc : d.contentAt? l = some c) : f c = true := by
  have hbelow (siblings : List Content) (hall : everyAmong f siblings = true) (p : List Nat) :
      everyAmong f (siblingsAt siblings p) = true := by
    induction p generalizing siblings with
    | nil => exact hall
    | cons i rest ih =>
      rw [siblingsAt]
      split
      next e he => exact ih _ (Content.of_every (everyAmong_iff.1 hall e (List.mem_of_getElem? he))).2
      next => rfl
  obtain ⟨p, a?⟩ := l
  rcases List.eq_nil_or_concat p with rfl | ⟨q, i, rfl⟩
  · simp [contentAt?, follow?] at hc
  · rw [List.concat_eq_append, contentAt?, follow?_append_singleton] at hc
    exact (Content.of_every (everyAmong_iff.1 (hbelow _ h q) c (List.mem_of_getElem? hc))).1

/-! ## Names in a tag -/

/-- Whether no two attributes of the node have one name. -/
def Content.hasDistinctAttributes (c : Content) : Bool :=
  decide (c.attributes.map (·.name)).Nodup

theorem resolveAttributes?_nodup {scope : List Binding} {plain : List (WrittenName × String)}
    {done as : List Attribute} (hdone : (done.map (·.name)).Nodup)
    (h : resolveAttributes? scope done plain = some as) : (as.map (·.name)).Nodup := by
  induction plain generalizing done with
  | nil =>
    simp only [resolveAttributes?, Option.some.injEq] at h
    rw [← h, List.map_reverse]
    exact List.nodup_reverse.2 hdone
  | cons a rest ih =>
    obtain ⟨n, value⟩ := a
    simp only [resolveAttributes?, Option.bind_eq_bind, Option.bind_eq_some_iff] at h
    obtain ⟨name, -, h⟩ := h
    split at h
    · cases h
    next hnew =>
      refine ih ?_ h
      rw [List.map_cons, List.nodup_cons]
      exact ⟨by simpa using hnew, hdone⟩

/-! ## The tree -/

namespace Partial

/-- So far no node has two attributes of one name, and neither has an open element. -/
structure AttributesDistinct (p : Partial) : Prop where
  top : everyAmong Content.hasDistinctAttributes p.top = true
  stack : ∀ e ∈ p.stack, (e.attributes.map (·.name)).Nodup ∧
    everyAmong Content.hasDistinctAttributes e.children = true

variable {p q : Partial}

theorem AttributesDistinct.add (hp : p.AttributesDistinct)
    (hc : c.every Content.hasDistinctAttributes = true) : (p.add c).AttributesDistinct := by
  obtain ⟨top, stack⟩ := p
  cases stack with
  | nil => exact ⟨Bool.and_eq_true_iff.2 ⟨hc, hp.top⟩, hp.stack⟩
  | cons e outer =>
    obtain ⟨⟨hown, hchildren⟩, houter⟩ := List.forall_mem_cons.1 hp.stack
    exact ⟨hp.top, List.forall_mem_cons.2 ⟨⟨hown, Bool.and_eq_true_iff.2 ⟨hc, hchildren⟩⟩, houter⟩⟩

theorem AttributesDistinct.addText (hp : p.AttributesDistinct) (t : String) :
    (p.addText t).AttributesDistinct := by
  obtain ⟨top, stack⟩ := p
  cases stack with
  | nil => exact hp
  | cons e outer =>
    obtain ⟨⟨hown, hchildren⟩, houter⟩ := List.forall_mem_cons.1 hp.stack
    refine ⟨hp.top, List.forall_mem_cons.2 ⟨⟨hown, ?_⟩, houter⟩⟩
    dsimp only
    split
    next before more heq =>
      rw [heq, everyAmong, Bool.and_eq_true] at hchildren
      exact Bool.and_eq_true_iff.2 ⟨rfl, hchildren.2⟩
    next => exact Bool.and_eq_true_iff.2 ⟨rfl, hchildren⟩

theorem AttributesDistinct.step {m : Markup} (hp : p.AttributesDistinct) (h : p.Step m q) :
    q.AttributesDistinct := by
  cases h with
  | comment | instruction => exact hp.add rfl
  | space => exact hp
  | text | marked => exact hp.addText _
  | empty _ resolved _ =>
    have hdistinct := resolveAttributes?_nodup (by simp) resolved
    exact hp.add (Bool.and_eq_true_iff.2 ⟨decide_eq_true hdistinct, rfl⟩)
  | opened _ resolved _ =>
    have hdistinct := resolveAttributes?_nodup (by simp) resolved
    exact ⟨hp.top, List.forall_mem_cons.2 ⟨⟨hdistinct, rfl⟩, hp.stack⟩⟩
  | @closed _ _ outer innermost =>
    have hstack := hp.stack
    rw [innermost] at hstack
    obtain ⟨⟨hown, hchildren⟩, houter⟩ := List.forall_mem_cons.1 hstack
    have hrest : AttributesDistinct { p with stack := outer } := ⟨hp.top, houter⟩
    refine hrest.add (Bool.and_eq_true_iff.2 ⟨decide_eq_true hown, ?_⟩)
    rw [everyAmong_iff] at hchildren ⊢
    exact fun c hc => hchildren c (List.mem_reverse.1 hc)

end Partial

/-- Whatever is read, no element has two attributes of one name. -/
theorem Document.nodup_attributes_of_read {s : String} (h : Document.read? s = some d)
    (hc : d.contentAt? l = some c) : (c.attributes.map (·.name)).Nodup := by
  obtain ⟨pieces, p, -, hsteps, rfl⟩ := Document.steps_of_read h
  have hp : p.AttributesDistinct :=
    Partial.of_steps? (fun _ _ _ _ hp => hp.step) ⟨rfl, by simp⟩ hsteps
  refine of_decide_eq_true (Document.of_everyAmong (f := Content.hasDistinctAttributes) ?_ hc)
  rw [everyAmong_iff]
  exact fun c hc => everyAmong_iff.1 hp.top c (List.mem_reverse.1 hc)

/-- An attribute of an element is known by its name. -/
theorem Document.attribute_eq_of_name_eq {p : List Nat} {i j : Nat} {n : ExpandedName}
    (distinct : ∀ c, d.contentAt? (.ofPath p) = some c → (c.attributes.map (·.name)).Nodup)
    (hi : d.nameAt? ⟨p, some i⟩ = some n) (hj : d.nameAt? ⟨p, some j⟩ = some n) : i = j := by
  obtain ⟨c, hc, hat⟩ := nameAt?_attribute_iff.1 hi
  obtain ⟨e, he, hat'⟩ := nameAt?_attribute_iff.1 hj
  obtain rfl : c = e := Option.some_inj.1 (hc.symm.trans he)
  exact (List.getElem?_inj (List.getElem?_eq_some_iff.1 hat).1 (distinct c hc)).1 (hat.trans hat'.symm)

end Crosswalk.Xml
