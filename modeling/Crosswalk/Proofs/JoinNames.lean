import Crosswalk.Proofs.Joins
import Crosswalk.Proofs.StructuralPath

/-!
# When names tell the questions of joins apart

The name of an index is put together from texts of the mapping and, for a relative expression, the path
of the base. The path can be cut off again, as it comes behind the last at sign of the name, and it tells
which node the base is if the document tells its names apart. The rest is up to the mapping alone:
`LegsApart` says that its own texts do not run into each other, and can be checked once for all
documents.
-/

namespace Crosswalk

open Crosswalk.Xml (Location)

/-- A leg of a join, with what the mapping says about it. -/
structure JoinLeg where
  domain : String
  relation : String
  expression : String
  key : String
  deriving DecidableEq, Repr

namespace JoinLeg

/-- What the name of an index has from the mapping. -/
def text (leg : JoinLeg) : String :=
  Source.joinName leg.domain leg.relation (leg.expression ++ "#" ++ leg.key) none

def isAbsolute (leg : JoinLeg) : Bool :=
  Text.startsWith "/" (Text.trim leg.expression)

/-- Legs with one text are joined alike, and the text of an absolute one does not go on like that of
a relative one at some base. -/
def Apart (leg other : JoinLeg) : Prop :=
  (leg.text = other.text → leg.expression = other.expression ∧ leg.key = other.key) ∧
    (leg.isAbsolute = true → other.isAbsolute = false →
      ¬(other.text ++ "@/").toList <+: leg.text.toList)

instance (leg other : JoinLeg) : Decidable (leg.Apart other) :=
  inferInstanceAs (Decidable (_ ∧ _))

end JoinLeg

/-- The legs of the joins of a link, if it is one that joins. -/
def Link.joinLegs (domain : String) (l : Link) : List JoinLeg :=
  if l.target.isMerge || !l.source.isJoin then []
  else
    match l.source.join with
    | .ok join => (join.legs (Text.trim l.range.sourceNode)).map fun leg =>
        ⟨domain, l.source.expression, leg.1, leg.2⟩
    | .error _ => []

/-- The legs of all joins of a mapping that are not skipped. -/
def MappingDocument.joinLegs (d : MappingDocument) : List JoinLeg :=
  (d.mappings.filter (!·.skip)).flatMap fun m =>
    (m.links.filter (!·.skip)).flatMap fun l => l.joinLegs m.domain.sourceNode

/-- The texts of a mapping tell the legs of its joins apart. -/
def MappingDocument.LegsApart (d : MappingDocument) : Prop :=
  ∀ leg ∈ d.joinLegs, ∀ other ∈ d.joinLegs, leg.Apart other

theorem MappingDocument.legsApart_of_all {d : MappingDocument}
    (h : (d.joinLegs.all fun leg => d.joinLegs.all fun other => decide (leg.Apart other)) = true) :
    d.LegsApart := by
  intro leg hleg other hother
  exact of_decide_eq_true (List.all_eq_true.1 (List.all_eq_true.1 h leg hleg) other hother)

/-- A question for a leg of a join, asked somewhere in a document. -/
structure JoinQuestion.IsFor (src : Source) (q : JoinQuestion) (leg : JoinLeg) : Prop where
  expression_eq : q.expression = leg.expression
  key_eq : q.key = leg.key
  absolute : leg.isAbsolute = true → q.name = leg.text ∧ q.base = .root
  relative : leg.isAbsolute = false → q.name = leg.text ++ "@" ++ src.path q.base ∧
    src.document.HasNode q.base ∧ q.base.isAttribute = false

theorem Xml.Location.isAttribute_parent {l m : Location} (h : l.parent? = some m) :
    m.isAttribute = false := by
  obtain ⟨p, a?⟩ := l
  rw [parent?] at h
  split at h
  · cases h
    rfl
  · split at h <;> cases h
    rfl

theorem Run.LinkSetting.isFor_question {l : LinkSetting} {node : Location}
    (hnode : l.scene.source.document.HasNode node) (expression key : String) :
    (l.question node expression key).IsFor l.scene.source
      ⟨l.mapping.domain.sourceNode, l.link.source.expression, expression, key⟩ := by
  refine ⟨rfl, rfl, fun habsolute => ?_, fun hrelative => ?_⟩
  · rw [JoinLeg.isAbsolute] at habsolute
    simp only [question, habsolute, if_true]
    exact ⟨rfl, trivial⟩
  · rw [JoinLeg.isAbsolute] at hrelative
    simp only [question, hrelative, Bool.false_eq_true, if_false]
    refine ⟨rfl, ?_⟩
    rcases hparent : node.parent? with _ | base
    · exact ⟨Xml.Document.hasNode_ofPath_nil _, rfl⟩
    · exact ⟨hnode.parent hparent, Xml.Location.isAttribute_parent hparent⟩

/-! ## Names -/

namespace JoinQuestion

variable {src : Source} {q q' : JoinQuestion} {leg leg' : JoinLeg}

theorem IsFor.name_relative (h : q.IsFor src leg) (hleg : leg.isAbsolute = false) :
    q.name.toList = leg.text.toList ++ '@' :: (src.path q.base).toList := by
  rw [(h.relative hleg).1]
  simp [String.toList_append]

/-- A relative question never has the name of an absolute one. -/
theorem IsFor.name_ne (h : q.IsFor src leg) (h' : q'.IsFor src leg')
    (habsolute : leg.isAbsolute = true) (hrelative : leg'.isAbsolute = false)
    (apart : leg.Apart leg') : q.name ≠ q'.name := by
  intro hname
  refine apart.2 habsolute hrelative ?_
  have htext := congrArg String.toList hname
  rw [(h.absolute habsolute).1, h'.name_relative hrelative, Source.path,
    Xml.Document.structuralPath_eq (h'.relative hrelative).2.1, String.toList_append] at htext
  rw [htext]
  simp [String.toList_append]

/-- Questions with one name are the same, where documents and mappings tell their names apart. -/
theorem IsFor.eq_of_name_eq (valid : src.document.namesValid = true)
    (names : src.document.NamesApart) (h : q.IsFor src leg) (h' : q'.IsFor src leg')
    (apart : leg.Apart leg') (apart' : leg'.Apart leg) (hname : q.name = q'.name) : q = q' := by
  have same (hbase : q.base = q'.base) (htext : leg.text = leg'.text) : q = q' := by
    obtain ⟨hexpression, hkey⟩ := apart.1 htext
    rw [← h.expression_eq, ← h'.expression_eq] at hexpression
    rw [← h.key_eq, ← h'.key_eq] at hkey
    exact JoinQuestion.ext hname hbase hexpression hkey
  cases hleg : leg.isAbsolute with
  | true =>
    cases hleg' : leg'.isAbsolute with
    | true =>
      obtain ⟨htext, hbase⟩ := h.absolute hleg
      obtain ⟨htext', hbase'⟩ := h'.absolute hleg'
      exact same (hbase.trans hbase'.symm) (htext.symm.trans (hname.trans htext'))
    | false => exact absurd hname (h.name_ne h' hleg hleg' apart)
  | false =>
    cases hleg' : leg'.isAbsolute with
    | true => exact absurd hname.symm (h'.name_ne h hleg' hleg apart')
    | false =>
      obtain ⟨-, hnode, hattribute⟩ := h.relative hleg
      obtain ⟨-, hnode', hattribute'⟩ := h'.relative hleg'
      have hchars := congrArg String.toList hname
      rw [h.name_relative hleg, h'.name_relative hleg'] at hchars
      obtain ⟨htext, hpath⟩ := Text.append_last_inj
        (Xml.Document.not_mem_structuralPath valid hnode hattribute)
        (Xml.Document.not_mem_structuralPath valid hnode' hattribute') hchars
      exact same (Xml.Document.eq_of_structuralPath_eq valid names hnode hnode'
        (String.toList_inj.1 hpath)) (String.toList_inj.1 htext)

end JoinQuestion

end Crosswalk
