import Crosswalk.Condition.Evaluation
import Crosswalk.Proofs.MergedValues

/-!
# Readers of one value

There are four ways to read an expression: its first value, with the node that has it or without, all of its values
merged, and whether it has any. Each evaluates the expression and looks at what comes of it, so they fail together.
And they tell the same: at nodes a merged text that is not empty means that one of the nodes has a text that is not
blank, and this is what having a value means.

A value that is no nodes is merged as it is, and it counts as a value only if it is also true. So what has a value
is never merged to nothing, but a zero or `false` is merged to its text.
-/

namespace Crosswalk.Source

open Crosswalk.Xml (Location)
open Crosswalk.Text (isBlankText)

/-- What the readers find in a value. -/
structure Reading where
  text : String
  found? : Option Location
  merged : String
  present : Bool

def reading (src : Source) : XPath.Value → Reading
  | .nodes ls =>
    ⟨(ls.head?.map src.nodeText).getD "", ls.head?,
      src.mergeDelimiter.intercalate (Text.present (ls.map src.document.stringValue)),
      ls.any fun l => !isBlankText (src.document.stringValue l)⟩
  | v =>
    let text := Text.trim (v.toText src.document)
    ⟨text, none, text, v.toBool && !text.isEmpty⟩

variable {src : Source} {node : Location} {expression : String} {v : XPath.Value}

theorem isEmpty_nodeText (src : Source) (l : Location) :
    (src.nodeText l).isEmpty = isBlankText (src.document.stringValue l) := by
  rw [Bool.eq_iff_iff, String.isEmpty_iff]
  exact Text.trim_eq_empty_iff

/-! ## Each reader reads the value -/

theorem scalar_of_evaluate (h : src.evaluate node expression = .ok v) :
    src.scalar node expression = .ok (src.reading v).text := by
  rw [scalar, h]
  cases v with
  | nodes ls => cases ls <;> rfl
  | _ => rfl

theorem scalarWithNode_of_evaluate (h : src.evaluate node expression = .ok v) :
    src.scalarWithNode node expression = .ok ((src.reading v).text, (src.reading v).found?) := by
  rw [scalarWithNode, h]
  cases v <;> rfl

theorem merged_of_evaluate (h : src.evaluate node expression = .ok v) :
    src.merged node expression = .ok (src.reading v).merged := by
  rw [merged, h]
  cases v with
  | nodes ls =>
    rw [reading, Text.present, List.map_map]
    rfl
  | _ => rfl

theorem hasValue_of_evaluate (h : src.evaluate node expression = .ok v) :
    src.hasValue node expression = .ok (src.reading v).present := by
  rw [hasValue, h]
  cases v with
  | nodes ls =>
    have htexts : (ls.any fun l => !(src.nodeText l).isEmpty) =
        ls.any fun l => !isBlankText (src.document.stringValue l) := by
      simp only [isEmpty_nodeText]
    exact congrArg Except.ok htexts
  | _ => rfl

/-! ## What is read agrees -/

section

variable (src : Source) (ls : List Location)

theorem present_nodes_iff : (src.reading (.nodes ls)).present = true ↔
    ∃ l ∈ ls, isBlankText (src.document.stringValue l) = false := by
  simp [reading]

/-- Something is merged if there is something to merge. -/
theorem merged_nodes_ne_empty_iff : (src.reading (.nodes ls)).merged ≠ "" ↔
    ∃ l ∈ ls, isBlankText (src.document.stringValue l) = false := by
  have hkept : Text.present (ls.map src.document.stringValue) ≠ [] ↔
      ∃ l ∈ ls, isBlankText (src.document.stringValue l) = false := by
    simp [Text.present, Text.trim_eq_empty_iff]
  rw [← hkept, not_iff_not]
  constructor
  · intro h
    exact CustomClass.intercalate_eq_empty h fun v hv => (Text.present_trimmed v hv).1
  · intro h
    rw [reading, h]
    rfl

theorem present_of_text_ne_empty (h : (src.reading (.nodes ls)).text ≠ "") :
    (src.reading (.nodes ls)).present = true := by
  cases ls with
  | nil => exact absurd rfl h
  | cons l rest =>
    refine (present_nodes_iff src _).2 ⟨l, List.mem_cons_self, ?_⟩
    rw [← isEmpty_nodeText, ← Bool.not_eq_true, String.isEmpty_iff]
    exact h

end

/-- A value that is no nodes comes from no node and is merged as it is. -/
theorem reading_atom (src : Source) (h : ∀ ls, v ≠ .nodes ls) :
    (src.reading v).found? = none ∧ (src.reading v).merged = (src.reading v).text ∧
      ((src.reading v).present = true ↔ v.toBool = true ∧ (src.reading v).text ≠ "") := by
  cases v with
  | nodes ls => exact absurd rfl (h ls)
  | _ => exact ⟨rfl, rfl, by simp [reading]⟩

/-- What has a value is not merged to nothing. -/
theorem merged_ne_empty_of_present (src : Source) (v : XPath.Value)
    (h : (src.reading v).present = true) : (src.reading v).merged ≠ "" := by
  by_cases hv : ∃ ls, v = .nodes ls
  · obtain ⟨ls, rfl⟩ := hv
    exact (merged_nodes_ne_empty_iff src ls).2 ((present_nodes_iff src ls).1 h)
  · obtain ⟨-, hmerged, hpresent⟩ := reading_atom src (not_exists.1 hv)
    rw [hmerged]
    exact (hpresent.1 h).2

/-! ## All readers together -/

/-- The readers of an expression fail together and with one fault, that of its evaluation, or they all have a
result. Then the first value is the same with its node and without. Where the expression gives nodes, it has a
value just if there is something to merge, which is a node whose text is not blank; the first value can only be
there if one is, and it is that of the first node. So a condition that asks for a value at nodes fails just where a
generator that merges them would be given nothing. At any other value such a condition only holds where there is
something to merge. -/
theorem readers_agree (src : Source) (node : Location) (expression : String) :
    (∃ e, src.evaluate node expression = .error e ∧ src.scalar node expression = .error e ∧
      src.scalarWithNode node expression = .error e ∧ src.merged node expression = .error e ∧
      src.hasValue node expression = .error e ∧
      (∀ vocabulary?, (Condition.exists expression).fails ⟨src, vocabulary?⟩ node = .error (.setup e)) ∧
      ∀ name language? position,
        Run.readArgument src node position ⟨name, .xpath, expression, language?⟩ true =
          .error (.setup e)) ∨
    ∃ v text found? merged present, src.evaluate node expression = .ok v ∧
      src.scalar node expression = .ok text ∧
      src.scalarWithNode node expression = .ok (text, found?) ∧
      src.merged node expression = .ok merged ∧
      src.hasValue node expression = .ok present ∧
      (∀ ls, src.select node expression = .ok ls →
        (present = true ↔ merged ≠ "") ∧
        (merged ≠ "" ↔ ∃ l ∈ ls, isBlankText (src.document.stringValue l) = false) ∧
        (text ≠ "" → present = true) ∧ found? = ls.head?) ∧
      ((∀ ls, v ≠ .nodes ls) →
        found? = none ∧ merged = text ∧ (present = true ↔ v.toBool = true ∧ text ≠ "")) ∧
      (present = true → merged ≠ "") ∧
      (∀ vocabulary?, (Condition.exists expression).fails ⟨src, vocabulary?⟩ node = .ok (!present)) ∧
      ∀ name language? position,
        Run.readArgument src node position ⟨name, .xpath, expression, language?⟩ true =
          .ok ⟨merged, language?.or (src.language? node)⟩ := by
  cases h : src.evaluate node expression with
  | error e =>
    left
    have hmerged : src.merged node expression = .error e := by
      rw [merged, h]
      rfl
    have hpresent : src.hasValue node expression = .error e := by
      rw [hasValue, h]
      rfl
    refine ⟨e, rfl, ?_, ?_, hmerged, hpresent, fun vocabulary? => ?_, fun name language? position => ?_⟩
    · rw [scalar, h]
      rfl
    · rw [scalarWithNode, h]
      rfl
    · rw [Condition.fails, hpresent]
      rfl
    · rw [Run.readArgument, if_pos rfl, hmerged]
      rfl
  | ok v =>
    right
    have hmerged := merged_of_evaluate h
    have hpresent := hasValue_of_evaluate h
    refine ⟨v, _, _, _, _, rfl, scalar_of_evaluate h, scalarWithNode_of_evaluate h, hmerged, hpresent,
      fun ls hls => ?_, reading_atom src, merged_ne_empty_of_present src v, fun vocabulary? => ?_,
      fun name language? position => ?_⟩
    · obtain rfl : v = .nodes ls := Except.ok.inj (h.symm.trans (evaluate_of_select hls))
      rw [present_nodes_iff, merged_nodes_ne_empty_iff]
      exact ⟨Iff.rfl, Iff.rfl,
        fun h => (present_nodes_iff src ls).1 (present_of_text_ne_empty src ls h), rfl⟩
    · rw [Condition.fails, hpresent]
      rfl
    · rw [Run.readArgument, if_pos rfl, hmerged]
      rfl

/-- The first name is blank, but there is another one. -/
theorem readers_agree_names :
    let src := ofNames "|||" " " "Ada"
    ∃ ls merged, src.select (.ofPath [0]) "name" = .ok ls ∧
      src.scalarWithNode (.ofPath [0]) "name" = .ok ("", ls.head?) ∧
      src.merged (.ofPath [0]) "name" = .ok merged ∧ merged ≠ "" ∧
      src.hasValue (.ofPath [0]) "name" = .ok true := by
  intro src
  have hselect := select_ofNames "|||" " " "Ada"
  have hblank : src.nodeText (.ofPath [0, 0]) = "" := by decide +kernel
  have hscalar := scalar_of_evaluate (evaluate_of_select hselect)
  have hname : isBlankText (src.document.stringValue (.ofPath [0, 1])) = false := by decide +kernel
  rcases readers_agree src (.ofPath [0]) "name" with ⟨e, h, -⟩ |
    ⟨v, text, found?, merged, present, -, htext, hfound, hmerged, hpresent, hnodes, -⟩
  · rw [evaluate_of_select hselect] at h
    cases h
  · obtain ⟨hiff, hexists, -, rfl⟩ := hnodes _ hselect
    have hne : merged ≠ "" := hexists.2 ⟨_, by simp, hname⟩
    obtain rfl := hiff.2 hne
    obtain rfl : src.nodeText (.ofPath [0, 0]) = text := Except.ok.inj (hscalar.symm.trans htext)
    rw [hblank] at hfound
    exact ⟨_, merged, hselect, hfound, hmerged, hne, hpresent⟩

end Crosswalk.Source
