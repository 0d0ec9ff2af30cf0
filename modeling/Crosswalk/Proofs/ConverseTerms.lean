import Crosswalk.Proofs.ReachedNodes
import Crosswalk.Proofs.ReadSubjects

/-!
# Broader and narrower are converse

A question about a term goes in by names and comes out by names: a term names some concepts, paths lead on from
them, and the answer is every name of what they lead to. To turn a question round, the way in and the way
out must be one relation, and they are, as long as paths lead from resources to resources: a concept is found
under exactly the texts by which it is shown, its own IRI and its labels, and a concept without an IRI or
without a label just has fewer of them. What is left is a path, which can be walked in both directions.

A literal at the end of a path would be shown by its text, but nothing is found under it. Statements are about
resources wherever they are read, so it is only their objects that have to be resources.
-/

namespace Crosswalk.Vocabulary

open Crosswalk.Rdf (Term Triple AboutResources)
open Relation (TransGen)

/-- A SKOS statement with a property of that name. -/
def Declares (statements : List Triple) (name : String) (a b : Term) : Prop :=
  ∃ t ∈ statements, t.predicate.text = Namespaces.skos ++ name ∧ t.subject = a ∧ t.object = b

/-- A text that a term is known by: its own, or that of a preferred label. -/
def IsNameOf (statements : List Triple) (name : String) (c : Term) : Prop :=
  c.text? = some name ∨ ∃ label, Declares statements "prefLabel" c label ∧ label.text? = some name

/-- That one term is broader than the other, in one step or in several. -/
def IsBroader (v : Vocabulary) (term other : String) : Prop :=
  match v with
  | declared broader _ => TransGen (fun s t => (s, t) ∈ broader) term other
  | concepts statements => ∃ c b, IsNameOf statements term c ∧ IsNameOf statements other b ∧
      TransGen (fun a b => Declares statements "broader" a b ∨ Declares statements "narrower" b a) c b

/-- That two terms mean the same, in one step or in several. A declared table does not say so of a term and
itself. -/
def IsMatch (v : Vocabulary) (term other : String) : Prop :=
  match v with
  | declared _ exact => other ≠ term ∧ TransGen (fun s t => (s, t) ∈ exact ∨ (t, s) ∈ exact) term other
  | concepts statements => ∃ c b, IsNameOf statements term c ∧ IsNameOf statements other b ∧
      TransGen (fun a b => Declares statements "exactMatch" a b ∨ Declares statements "exactMatch" b a) c b

/-- The objects of the statements that are followed are resources. -/
def LinksResources (v : Vocabulary) : Prop :=
  match v with
  | declared _ _ => True
  | concepts statements => ∀ name ∈ ["broader", "narrower", "exactMatch"],
      ∀ a b, Declares statements name a b → b.IsResource

/-- How a vocabulary comes about: a table is declared, statements are read. -/
inductive Arises : Vocabulary → Prop
  | declared (broader exact : List (String × String)) : Arises (.declared broader exact)
  | read {kind : VocabularyNotation} {text : String} {v : Vocabulary}
      (h : Vocabulary.read kind text = .ok v) : Arises v

variable {v : Vocabulary} {statements : List Triple} {pairs : List (Term × Term)} {name term other : String}
  {a b c : Term}

/-! ## Names of concepts -/

theorem mem_related : (a, b) ∈ related statements name ↔ Declares statements name a b := by
  rw [related, List.mem_map]
  constructor
  · rintro ⟨t, ht, hab⟩
    obtain ⟨hmem, hname⟩ := List.mem_filter.1 ht
    cases hab
    exact ⟨t, hmem, beq_iff_eq.1 hname, rfl, rfl⟩
  · rintro ⟨t, hmem, hname, rfl, rfl⟩
    exact ⟨t, List.mem_filter.2 ⟨hmem, beq_iff_eq.2 hname⟩, rfl⟩

theorem mem_textsOf : name ∈ textsOf statements c ↔ IsNameOf statements name c := by
  rw [textsOf, List.mem_append, IsNameOf, Option.mem_toList]
  refine or_congr_right ?_
  rw [List.mem_filterMap]
  constructor
  · rintro ⟨⟨d, label⟩, hlabel, htext⟩
    obtain ⟨hmem, hd⟩ := List.mem_filter.1 hlabel
    obtain rfl : d = c := beq_iff_eq.1 hd
    exact ⟨label, mem_related.1 hmem, htext⟩
  · rintro ⟨label, hmem, htext⟩
    exact ⟨(c, label), List.mem_filter.2 ⟨mem_related.2 hmem, beq_self_eq_true c⟩, htext⟩

theorem text?_eq_some_iff (hc : c.IsResource) :
    c.text? = some name ↔ c ∈ ((Rdf.Iri.ofText? name).map Term.iri).toList := by
  rw [Option.mem_toList, Option.map_eq_some_iff]
  constructor
  · intro h
    cases c with
    | iri i =>
      cases h
      exact ⟨i, i.ofText?_text, rfl⟩
    | blank => cases h
    | literal => exact hc.elim
  · rintro ⟨i, hi, rfl⟩
    exact congrArg some (Rdf.Iri.text_of_ofText? hi)

/-- A resource is found under the texts by which it is shown. -/
theorem mem_conceptsOf (hc : c.IsResource) : c ∈ conceptsOf statements name ↔ IsNameOf statements name c := by
  rw [conceptsOf, List.mem_append, IsNameOf, text?_eq_some_iff hc, or_comm]
  refine or_congr_right ?_
  rw [List.mem_map]
  constructor
  · rintro ⟨⟨c, label⟩, hlabel, rfl⟩
    obtain ⟨hmem, htext⟩ := List.mem_filter.1 hlabel
    exact ⟨label, mem_related.1 hmem, beq_iff_eq.1 htext⟩
  · rintro ⟨label, hmem, htext⟩
    exact ⟨(c, label), List.mem_filter.2 ⟨mem_related.2 hmem, beq_iff_eq.2 htext⟩, rfl⟩

theorem mem_reachedTexts (hpairs : ∀ a b, (a, b) ∈ pairs → a.IsResource) :
    other ∈ reachedTexts statements pairs term ↔
      ∃ c b, IsNameOf statements term c ∧ IsNameOf statements other b ∧ Reaches pairs c b := by
  rw [reachedTexts, Text.mem_distinct, List.mem_flatMap]
  constructor
  · rintro ⟨b, hb, hother⟩
    obtain ⟨c, hc, hcb⟩ := mem_reachedFrom.1 hb
    obtain ⟨d, hcd⟩ := hcb.exists_first
    exact ⟨c, b, (mem_conceptsOf (hpairs c d hcd)).1 hc, mem_textsOf.1 hother, hcb⟩
  · rintro ⟨c, b, hterm, hother, hcb⟩
    obtain ⟨d, hcd⟩ := hcb.exists_first
    exact ⟨b, mem_reachedFrom.2 ⟨c, (mem_conceptsOf (hpairs c d hcd)).2 hterm, hcb⟩, mem_textsOf.2 hother⟩

/-! ## Pairs that are followed -/

theorem mem_broaderPairs : (a, b) ∈ broaderPairs statements ↔
    Declares statements "broader" a b ∨ Declares statements "narrower" b a := by
  rw [broaderPairs, List.mem_append, mem_reversed, mem_related, mem_related]

theorem mem_matchPairs : (a, b) ∈ matchPairs statements ↔
    Declares statements "exactMatch" a b ∨ Declares statements "exactMatch" b a := by
  rw [matchPairs, List.mem_append, mem_reversed, mem_related, mem_related]

theorem isResource_of_declares (habout : AboutResources statements)
    (hlinks : LinksResources (.concepts statements)) (hname : name ∈ ["broader", "narrower", "exactMatch"])
    (h : Declares statements name a b) : a.IsResource ∧ b.IsResource := by
  refine ⟨?_, hlinks name hname a b h⟩
  obtain ⟨t, ht, -, rfl, -⟩ := h
  exact habout t ht

theorem isResource_of_broaderPairs (habout : AboutResources statements)
    (hlinks : LinksResources (.concepts statements)) (h : (a, b) ∈ broaderPairs statements) :
    a.IsResource ∧ b.IsResource := by
  rcases mem_broaderPairs.1 h with h | h
  · exact isResource_of_declares habout hlinks (by simp) h
  · exact (isResource_of_declares habout hlinks (by simp) h).symm

theorem isResource_of_matchPairs (habout : AboutResources statements)
    (hlinks : LinksResources (.concepts statements)) (h : (a, b) ∈ matchPairs statements) :
    a.IsResource ∧ b.IsResource := by
  rcases mem_matchPairs.1 h with h | h
  · exact isResource_of_declares habout hlinks (by simp) h
  · exact (isResource_of_declares habout hlinks (by simp) h).symm

/-! ## Questions -/

theorem Arises.aboutResources (h : Arises (.concepts statements)) : AboutResources statements := by
  cases h with
  | read h =>
    obtain ⟨_, heq, habout⟩ := exists_of_read h
    cases heq
    exact habout

theorem mem_broaderTerms (hv : v.Arises) (hlinks : v.LinksResources) :
    other ∈ v.broaderTerms term ↔ v.IsBroader term other := by
  cases v with
  | declared broader exact =>
    rw [broaderTerms, Text.mem_distinct, mem_reachedFrom]
    simp only [List.mem_singleton, exists_eq_left]
    rfl
  | concepts statements =>
    rw [broaderTerms, mem_reachedTexts fun a b h =>
      (isResource_of_broaderPairs hv.aboutResources hlinks h).1]
    simp only [Reaches, mem_broaderPairs]
    rfl

theorem mem_narrowerTerms (hv : v.Arises) (hlinks : v.LinksResources) :
    term ∈ v.narrowerTerms other ↔ v.IsBroader term other := by
  cases v with
  | declared broader exact =>
    rw [narrowerTerms, Text.mem_distinct, mem_reachedFrom]
    simp only [List.mem_singleton, exists_eq_left, reaches_reversed]
    rfl
  | concepts statements =>
    rw [narrowerTerms, mem_reachedTexts fun a b h =>
      (isResource_of_broaderPairs hv.aboutResources hlinks (mem_reversed.1 h)).2, exists_comm]
    simp only [reaches_reversed, and_left_comm]
    simp only [Reaches, mem_broaderPairs]
    rfl

theorem mem_exactTerms (hv : v.Arises) (hlinks : v.LinksResources) :
    other ∈ v.exactTerms term ↔ v.IsMatch term other := by
  cases v with
  | declared broader exact =>
    rw [exactTerms, List.mem_filter, Text.mem_distinct, mem_reachedFrom, and_comm, bne_iff_ne]
    simp only [List.mem_singleton, exists_eq_left, Reaches, List.mem_append, mem_reversed]
    rfl
  | concepts statements =>
    rw [exactTerms, mem_reachedTexts fun a b h =>
      (isResource_of_matchPairs hv.aboutResources hlinks h).1]
    simp only [Reaches, mem_matchPairs]
    rfl

/-- What may be followed in both directions leads back. -/
theorem transGen_comm {α : Type} {r : α → α → Prop} {x y : α} :
    TransGen (fun s t => r s t ∨ r t s) x y ↔ TransGen (fun s t => r s t ∨ r t s) y x := by
  rw [← Relation.transGen_swap]
  refine Iff.of_eq (congrArg (TransGen · y x) ?_)
  funext s t
  exact propext or_comm

theorem isMatch_comm : v.IsMatch term other ↔ v.IsMatch other term := by
  cases v with
  | declared broader exact => exact and_congr ne_comm transGen_comm
  | concepts statements =>
    rw [IsMatch, IsMatch, exists_comm]
    simp only [transGen_comm (r := Declares statements "exactMatch"), and_left_comm]

/-- Of two terms one is broader just if the other one is narrower, and both directions answer by what the
vocabulary declares; matches are the same from both sides. -/
theorem terms_converse (hv : v.Arises) (hlinks : v.LinksResources) (term other : String) :
    ((other ∈ v.broaderTerms term ↔ term ∈ v.narrowerTerms other) ∧
      (other ∈ v.exactTerms term ↔ term ∈ v.exactTerms other)) ∧
    (other ∈ v.broaderTerms term ↔ v.IsBroader term other) ∧
      (other ∈ v.exactTerms term ↔ v.IsMatch term other) := by
  have hbroader : other ∈ v.broaderTerms term ↔ _ := mem_broaderTerms hv hlinks
  have hexact : other ∈ v.exactTerms term ↔ _ := mem_exactTerms hv hlinks
  refine ⟨⟨hbroader.trans (mem_narrowerTerms hv hlinks).symm, ?_⟩, hbroader, hexact⟩
  exact (hexact.trans isMatch_comm).trans (mem_exactTerms hv hlinks).symm

/-- Paintings are a narrower concept of art; only they have a label. -/
def paintingsText : String :=
  "<urn:art> <http://www.w3.org/2004/02/skos/core#narrower> <urn:painting> .\n" ++
    "<urn:painting> <http://www.w3.org/2004/02/skos/core#prefLabel> \"painting\" .\n"

def paintings : List Triple :=
  let art : Rdf.Iri := ⟨"urn:art", by decide +kernel⟩
  let painting : Rdf.Iri := ⟨"urn:painting", by decide +kernel⟩
  [⟨.iri art, ⟨Namespaces.skos ++ "narrower", by decide +kernel⟩, .iri painting⟩,
    ⟨.iri painting, ⟨Namespaces.skos ++ "prefLabel", by decide +kernel⟩, .literal (.plain "painting")⟩]

theorem read_paintings : Vocabulary.read .nTriples paintingsText = .ok (.concepts paintings) := by
  have hread : VocabularyNotation.nTriples.read? paintingsText = some paintings := by decide +kernel
  have hdistinct : distinctTriples paintings = paintings := by decide +kernel
  rw [Vocabulary.read, hread]
  exact congrArg (fun statements => Except.ok (concepts statements)) hdistinct

theorem linksResources_paintings : LinksResources (.concepts paintings) := by
  rintro name hname a b ⟨t, ht, hpredicate, -, rfl⟩
  rcases List.mem_cons.1 ht with rfl | ht
  · trivial
  · rw [List.mem_singleton.1 ht] at hpredicate
    have hname' : name = "prefLabel" := ((String.append_right_inj _).1 hpredicate).symm
    subst hname'
    exact absurd hname (by decide)

/-- By its IRI art is broader than what is labelled as painting, and that is narrower than art. -/
theorem terms_converse_paintings :
    ∃ v, Vocabulary.read .nTriples paintingsText = .ok v ∧ v.LinksResources ∧
      "urn:art" ∈ v.broaderTerms "painting" ∧ "painting" ∈ v.narrowerTerms "urn:art" := by
  obtain ⟨⟨hconverse, -⟩, hbroader, -⟩ :=
    terms_converse (.read read_paintings) linksResources_paintings "painting" "urn:art"
  have hmem : "urn:art" ∈ (concepts paintings).broaderTerms "painting" := by
    refine hbroader.2 ⟨_, _, .inr ⟨_, ⟨_, List.mem_cons_of_mem _ List.mem_cons_self, rfl, rfl, rfl⟩, rfl⟩,
      .inl rfl, .single (.inr ⟨_, List.mem_cons_self, rfl, rfl, rfl⟩)⟩
  exact ⟨_, read_paintings, linksResources_paintings, hmem, hconverse.1 hmem⟩

end Crosswalk.Vocabulary
