import Crosswalk.Number.Width
import Crosswalk.Proofs.DrawnIdentifiers
import Crosswalk.Proofs.MergedValues
import Mathlib.Algebra.Group.Nat.Defs
import Mathlib.Data.Nat.Log

/-!
# Labels that are counted

A source that counts gives the numbers from zero on, each as a label. A label is its number in base 26, and
the letters in front that fill it up to the width are zeros. So the label tells the number, with whatever width
and also where the number has outgrown it, and nothing is drawn twice. It does not matter in which way a label is
drawn: with the scheme in front or without it, the count goes on by one.

The count is kept in 64 bits. As long as fewer than `2 ^ 64` labels have been drawn, it fits.
-/

namespace Crosswalk

variable {width n : Nat}

/-! ## Labels -/

/-- The letters of labels. -/
def IsLetter (c : Char) : Prop :=
  'A' ≤ c ∧ c ≤ 'Z'

instance : DecidablePred IsLetter :=
  fun _ => instDecidableAnd

theorem isLetter_labelDigits (n : Nat) : ∀ c ∈ labelDigits n, IsLetter c := by
  have hletter : ∀ n < 26, IsLetter (labelLetter n) := by decide
  induction n using labelDigits.induct with
  | case1 n hn =>
    rw [labelDigits, if_pos hn]
    simpa using hletter n hn
  | case2 n hn ih =>
    rw [labelDigits, if_neg hn, List.forall_mem_append]
    exact ⟨ih, by simpa using hletter (n % 26) (Nat.mod_lt n (by decide))⟩

theorem length_labelDigits (n : Nat) : (labelDigits n).length = Nat.log 26 n + 1 := by
  induction n using labelDigits.induct with
  | case1 n hn =>
    rw [labelDigits, if_pos hn, Nat.log_of_lt hn]
    rfl
  | case2 n hn ih =>
    rw [labelDigits, if_neg hn, List.length_append, ih,
      Nat.log_of_one_lt_of_le (by decide) (Nat.le_of_not_lt hn)]
    rfl

theorem isLetter_label (width n : Nat) : ∀ c ∈ (label width n).toList, IsLetter c := by
  rw [label, String.toList_ofList, List.forall_mem_append]
  refine ⟨fun c hc => ?_, isLetter_labelDigits n⟩
  rw [List.eq_of_mem_replicate hc]
  decide

theorem length_label (width n : Nat) :
    (label width n).length = max width (Nat.log 26 n + 1) := by
  rw [label, String.length_ofList, List.length_append, List.length_replicate, length_labelDigits]
  omega

theorem labelValue_label (width n : Nat) : labelValue (label width n).toList = n := by
  rw [label, String.toList_ofList, labelValue_replicate, labelValue_labelDigits]

/-- Number 26 outgrows a width of one letter, and its label is none of those before it. -/
example : label 1 1 = "B" ∧ label 1 25 = "Z" ∧ label 1 26 = "BA" := by decide +kernel

namespace UuidSource

/-! ## One draw -/

/-- The ways to draw a label: as an identifier, or to be appended to a name. -/
inductive Draw where
  | uri
  | suffix
  deriving DecidableEq, Repr

def Draw.take : Draw → UuidSource → String × UuidSource
  | uri, u => u.nextUri
  | suffix, u => u.nextSuffix

/-- What a draw gives for a label. -/
def Draw.given : Draw → String → String
  | uri, label => "uuid:" ++ label
  | suffix, label => label

theorem take_alphabetic (d : Draw) (width n : Nat) :
    d.take (alphabetic width n) = (d.given (label width n), alphabetic width (n + 1)) := by
  cases d <;> rfl

/-- There is no colon in a label, so it is what follows the last colon of the identifier. -/
theorem split_uri (width n : Nat) : Text.split ":" ("uuid:" ++ label width n) = ["uuid", label width n] := by
  have hjoined : "uuid:" ++ label width n = ":".intercalate ["uuid", label width n] := by
    rw [String.intercalate_cons_cons, String.intercalate_singleton]
    rfl
  rw [hjoined, Text.split_intercalate_iff (by decide) (by simp)]
  refine ⟨by decide, XPath.cut?_colon_eq_none_iff.2 fun hcolon => ?_⟩
  exact absurd (isLetter_label width n _ hcolon) (by decide)

/-! ## Draws in a row -/

/-- What some draws give one after the other, and the source afterwards. -/
def drawAll : List Draw → UuidSource → List String × UuidSource
  | [], u => ([], u)
  | d :: rest, u =>
    let (given, v) := d.take u
    let (more, w) := drawAll rest v
    (given :: more, w)

/-- The labels are the numbers from where the count stands. -/
theorem drawAll_alphabetic (draws : List Draw) (width n : Nat) :
    drawAll draws (alphabetic width n) =
      (List.zipWith Draw.given draws ((List.range' n draws.length).map (label width)),
        alphabetic width (n + draws.length)) := by
  induction draws generalizing n with
  | nil => rfl
  | cons d rest ih =>
    rw [drawAll, take_alphabetic]
    dsimp only
    rw [ih, List.length_cons, List.range'_succ, List.map_cons, List.zipWith_cons_cons, Nat.add_assoc,
      Nat.add_comm 1]

theorem nodup_labels (width n count : Nat) :
    ((List.range' n count).map (label width)).Nodup :=
  List.Nodup.map (label_injective width) List.nodup_range'

/-- Labels that are drawn from a source that has just begun to count never repeat. They consist of letters, are as
long as the width says or as many letters as the number needs, and read in base 26 say how many were drawn before.
Drawn as an identifier or to be appended, a label is the same, with or without what stands in front of the
last colon. -/
theorem drawAll_labels (width : Nat) (draws : List Draw) (few : draws.length < 2 ^ 64) :
    ∃ labels : List String,
      drawAll draws (alphabetic width 0) =
        (List.zipWith Draw.given draws labels, alphabetic width draws.length) ∧
      labels.length = draws.length ∧ labels.Nodup ∧
      (∀ k label, labels[k]? = some label →
        (∀ c ∈ label.toList, IsLetter c) ∧ label.length = max width (Nat.log 26 k + 1) ∧
        labelValue label.toList = k) ∧
      ∀ before, before <+: draws →
        let u := (drawAll before (alphabetic width 0)).2
        u.drawn = before.length ∧ Number.fitsUnsigned 64 u.drawn = true ∧
        u.nextUri.1 = "uuid:" ++ u.nextSuffix.1 ∧
        (Text.split ":" u.nextUri.1).getLast? = some u.nextSuffix.1 ∧
        u.nextUri.2 = u.nextSuffix.2 := by
  refine ⟨(List.range' 0 draws.length).map (label width), ?_, by simp, nodup_labels width 0 _, ?_, ?_⟩
  · rw [drawAll_alphabetic, Nat.zero_add]
  · intro k given hk
    rw [List.getElem?_map, Option.map_eq_some_iff] at hk
    obtain ⟨n, hn, rfl⟩ := hk
    obtain rfl : n = k := by
      obtain ⟨hlt, hn⟩ := List.getElem?_eq_some_iff.1 hn
      rw [List.getElem_range'] at hn
      omega
    exact ⟨isLetter_label width n, length_label width n, labelValue_label width n⟩
  · intro before hbefore
    rw [drawAll_alphabetic, Nat.zero_add]
    have hcount : before.length < 2 ^ 64 := Nat.lt_of_le_of_lt hbefore.length_le few
    exact ⟨rfl, decide_eq_true hcount, rfl, congrArg List.getLast? (split_uri width _), rfl⟩

/-- The second label is drawn to be appended, and the third goes on from it. -/
theorem drawAll_labels_of_width_two :
    let draws : List Draw := [.uri, .suffix, .uri]
    draws.length < 2 ^ 64 ∧
      (drawAll draws (alphabetic 2 0)).1 = ["uuid:AA", "AB", "uuid:AC"] ∧
      ∃ labels : List String, (drawAll draws (alphabetic 2 0)).1 = List.zipWith Draw.given draws labels ∧
        labels.Nodup := by
  intro draws
  have few : draws.length < 2 ^ 64 := by decide
  obtain ⟨labels, hdrawn, -, hnodup, -⟩ := drawAll_labels 2 draws few
  exact ⟨few, by decide +kernel, labels, congrArg Prod.fst hdrawn, hnodup⟩

end UuidSource

end Crosswalk
