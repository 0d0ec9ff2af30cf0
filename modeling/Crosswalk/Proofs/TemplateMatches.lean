import Crosswalk.Generator.Template
import Crosswalk.Text.Search
import Mathlib.Data.List.TakeWhile

/-!
# The holes of a template, as matches

A hole can be searched for anywhere in a text: a brace, a name of at least one character that does not close it,
a closing brace. Taking the leftmost match, and going on behind it, takes a template apart into holes with text
between them. There is one way to do this, and the pieces of the template are what it gives.
-/

namespace Crosswalk.Template

/-- A hole of the name stands in the text, between what is before and what is after it. -/
def IsMatch (cs before name after : List Char) : Prop :=
  cs = before ++ '{' :: (name ++ '}' :: after) ∧ name ≠ [] ∧ '}' ∉ name

def IsLeftmost (cs before name after : List Char) : Prop :=
  IsMatch cs before name after ∧
    ∀ before' name' after', IsMatch cs before' name' after' → before.length ≤ before'.length

/-- A hole, with the text between it and the hole before. -/
structure Part where
  before : List Char
  name : List Char
  deriving DecidableEq, Repr

/-- The text consists of parts and of a last text without a hole: each hole is the leftmost match behind
the one before. -/
inductive Matches : List Char → List Part → List Char → Prop
  | last {cs : List Char} (none : ∀ before name after, ¬IsMatch cs before name after) : Matches cs [] cs
  | part {cs before name after last : List Char} {parts : List Part}
      (leftmost : IsLeftmost cs before name after) (rest : Matches after parts last) :
      Matches cs (⟨before, name⟩ :: parts) last

def Part.pieces (p : Part) : List Piece :=
  p.before.map .char ++ [.hole p.name]

variable {c : Char} {cs before name after before' name' after' last last' : List Char}
  {parts parts' : List Part}

/-! ## One way -/

theorem IsLeftmost.unique (h : IsLeftmost cs before name after)
    (h' : IsLeftmost cs before' name' after') : before = before' ∧ name = name' ∧ after = after' := by
  have hlength := Nat.le_antisymm (h.2 _ _ _ h'.1) (h'.2 _ _ _ h.1)
  obtain ⟨hcs, -, hname⟩ := h.1
  obtain ⟨hcs', -, hname'⟩ := h'.1
  obtain ⟨hbefore, hrest⟩ := List.append_inj (hcs.symm.trans hcs') hlength
  obtain ⟨hnames, hafter⟩ := Text.append_first_inj hname hname' (List.cons.inj hrest).2
  exact ⟨hbefore, hnames, hafter⟩

theorem Matches.unique (h : Matches cs parts last) (h' : Matches cs parts' last') :
    parts = parts' ∧ last = last' := by
  induction h generalizing parts' with
  | last none =>
    cases h' with
    | last => exact ⟨rfl, rfl⟩
    | part leftmost rest => exact absurd leftmost.1 (none _ _ _)
  | part leftmost rest ih =>
    cases h' with
    | last none => exact absurd leftmost.1 (none _ _ _)
    | part leftmost' rest' =>
      obtain ⟨rfl, rfl, rfl⟩ := leftmost.unique leftmost'
      obtain ⟨rfl, rfl⟩ := ih rest'
      exact ⟨rfl, rfl⟩

/-! ## The way of the pieces -/

theorem isMatch_cons_iff : IsMatch (c :: cs) before name after ↔
    (before = [] ∧ c = '{' ∧ cs = name ++ '}' :: after ∧ name ≠ [] ∧ '}' ∉ name) ∨
      ∃ more, before = c :: more ∧ IsMatch cs more name after := by
  cases before with
  | nil => simp [IsMatch, and_assoc]
  | cons d before =>
    simp only [IsMatch, List.cons_append, List.cons.injEq, reduceCtorEq, false_and, false_or]
    constructor
    · rintro ⟨⟨rfl, hcs⟩, hname⟩
      exact ⟨before, ⟨rfl, rfl⟩, hcs, hname⟩
    · rintro ⟨_, ⟨rfl, rfl⟩, hcs, hname⟩
      exact ⟨⟨rfl, hcs⟩, hname⟩

/-- A character at which no hole begins belongs to the text before the next one. -/
theorem Matches.exists_cons (hno : ∀ name after, ¬IsMatch (c :: cs) [] name after)
    (h : Matches cs parts last) : ∃ parts' last', Matches (c :: cs) parts' last' ∧
      parts'.flatMap Part.pieces ++ last'.map .char =
        .char c :: (parts.flatMap Part.pieces ++ last.map .char) := by
  cases h with
  | last none =>
    refine ⟨[], c :: cs, .last fun before name after hmatch => ?_, rfl⟩
    obtain ⟨rfl, -⟩ | ⟨more, -, hmore⟩ := isMatch_cons_iff.1 hmatch
    · exact hno _ _ hmatch
    · exact none _ _ _ hmore
  | @part _ before name after _ parts leftmost rest =>
    refine ⟨⟨c :: before, name⟩ :: parts, last,
      .part ⟨isMatch_cons_iff.2 (.inr ⟨before, rfl, leftmost.1⟩), fun before' name' after' hmatch => ?_⟩ rest,
      rfl⟩
    obtain ⟨rfl, -⟩ | ⟨more, rfl, hmore⟩ := isMatch_cons_iff.1 hmatch
    · exact absurd hmatch (hno _ _)
    · exact Nat.succ_le_succ (leftmost.2 _ _ _ hmore)

theorem exists_matches (cs : List Char) : ∃ parts last, Matches cs parts last ∧
    pieces cs = parts.flatMap Part.pieces ++ last.map .char := by
  -- A character that the pieces keep is one at which no hole begins.
  have hkeep {c : Char} {rest : List Char} (hno : ∀ name after, ¬IsMatch (c :: rest) [] name after)
      (ih : ∃ parts last, Matches rest parts last ∧
        pieces rest = parts.flatMap Part.pieces ++ last.map .char) :
      ∃ parts last, Matches (c :: rest) parts last ∧
        .char c :: pieces rest = parts.flatMap Part.pieces ++ last.map .char := by
    obtain ⟨parts, last, h, heq⟩ := ih
    obtain ⟨parts', last', h', heq'⟩ := h.exists_cons hno
    exact ⟨parts', last', h', by rw [heq', heq]⟩
  fun_induction pieces cs with
  | case1 => exact ⟨[], [], .last (by simp [IsMatch]), rfl⟩
  | case2 rest x after h name hname ih =>
    refine hkeep (fun name' after' hmatch => ?_) ih
    obtain ⟨-, -, rfl, hne, hclosed⟩ | ⟨_, hnil, -⟩ := isMatch_cons_iff.1 hmatch
    · cases name' with
      | nil => exact hne rfl
      | cons d name' =>
        have hd : d ≠ '}' := fun hd => hclosed (hd ▸ List.mem_cons_self)
        simp [name, hd] at hname
    · cases hnil
  | case3 rest x after h name hname ih =>
    obtain ⟨parts, last, hmatches, heq⟩ := ih
    have hx : x = '}' := by simpa using head?_dropWhile_not _ h
    have hrest : rest = name ++ '}' :: after := by
      rw [← hx, ← h]
      exact (List.takeWhile_append_dropWhile ..).symm
    have hclosed : '}' ∉ name := fun hmem => by simpa using List.mem_takeWhile_imp hmem
    refine ⟨⟨[], name⟩ :: parts, last, .part ⟨isMatch_cons_iff.2 (.inl ?_), fun _ _ _ _ => Nat.zero_le _⟩
      hmatches, ?_⟩
    · exact ⟨rfl, rfl, hrest, by simpa using hname, hclosed⟩
    · rw [heq]
      rfl
  | case4 rest h ih =>
    refine hkeep (fun name after hmatch => ?_) ih
    obtain ⟨-, -, hrest, -⟩ | ⟨_, hnil, -⟩ := isMatch_cons_iff.1 hmatch
    · simpa using List.dropWhile_eq_nil_iff.1 h '}' (by simp [hrest])
    · cases hnil
  | case5 c rest hc ih =>
    refine hkeep (fun name after hmatch => ?_) ih
    obtain ⟨-, hbrace, -⟩ | ⟨_, hnil, -⟩ := isMatch_cons_iff.1 hmatch
    · exact hc hbrace
    · cases hnil

theorem Matches.pieces_eq (h : Matches cs parts last) :
    pieces cs = parts.flatMap Part.pieces ++ last.map .char := by
  obtain ⟨parts', last', h', heq⟩ := exists_matches cs
  obtain ⟨rfl, rfl⟩ := h.unique h'
  exact heq

theorem map_char_append_hole_inj {ps ps' : List Piece}
    (h : before.map .char ++ .hole name :: ps = before'.map .char ++ .hole name' :: ps') :
    before = before' ∧ name = name' ∧ ps = ps' := by
  induction before generalizing before' with
  | nil => cases before' <;> simp_all
  | cons c before ih =>
    cases before' with
    | nil => simp at h
    | cons c' before' =>
      rw [List.map_cons, List.map_cons, List.cons_append, List.cons_append, List.cons.injEq] at h
      obtain ⟨⟨⟩, h⟩ := h
      obtain ⟨rfl, hrest⟩ := ih h
      exact ⟨rfl, hrest⟩

/-- A list of pieces is put together from parts and a last text in one way. -/
theorem parts_inj (h : parts.flatMap Part.pieces ++ last.map .char =
    parts'.flatMap Part.pieces ++ last'.map .char) : parts = parts' ∧ last = last' := by
  -- Text without a hole is no part with more behind it.
  have hne (p : Part) (ps : List Piece) (cs : List Char) : p.pieces ++ ps ≠ cs.map .char := by
    intro heq
    have hmem : Piece.hole p.name ∈ cs.map Piece.char := heq ▸ by simp [Part.pieces]
    simp at hmem
  induction parts generalizing parts' with
  | nil =>
    cases parts' with
    | nil => exact ⟨rfl, (List.map_inj_right fun _ _ => Piece.char.inj).1 h⟩
    | cons p' parts' =>
      rw [List.flatMap_cons, List.append_assoc] at h
      exact absurd h.symm (hne _ _ _)
  | cons p parts ih =>
    rw [List.flatMap_cons, List.append_assoc] at h
    cases parts' with
    | nil => exact absurd h (hne _ _ _)
    | cons p' parts' =>
      rw [List.flatMap_cons, List.append_assoc] at h
      simp only [Part.pieces, List.append_assoc, List.singleton_append] at h
      obtain ⟨hbefore, hname, hrest⟩ := map_char_append_hole_inj h
      obtain ⟨rfl, rfl⟩ := ih hrest
      obtain ⟨before, name⟩ := p
      cases hbefore
      cases hname
      exact ⟨rfl, rfl⟩

/-- The matches of a template are its pieces. -/
theorem matches_iff : Matches cs parts last ↔ pieces cs = parts.flatMap Part.pieces ++ last.map .char := by
  refine ⟨Matches.pieces_eq, fun h => ?_⟩
  obtain ⟨parts', last', h', heq⟩ := exists_matches cs
  obtain ⟨rfl, rfl⟩ := parts_inj (heq.symm.trans h)
  exact h'

instance : Decidable (Matches cs parts last) :=
  decidable_of_iff _ matches_iff.symm

example : Matches "a{}{{b}}c".toList [⟨"a{}".toList, "\x7bb".toList⟩] "\x7dc".toList := by
  decide +kernel

/-- The names of a template are those of its holes. -/
theorem Matches.placeholders_eq {template : String} (h : Matches template.toList parts last) :
    placeholders template = parts.map fun p => String.ofList p.name := by
  have hchars (cs : List Char) : (cs.map Piece.char).filterMap Piece.name? = [] := by
    rw [List.filterMap_map]
    exact List.filterMap_eq_nil_iff.2 fun _ _ => rfl
  have hpart (p : Part) : p.pieces.filterMap Piece.name? = [String.ofList p.name] := by
    rw [Part.pieces, List.filterMap_append, hchars]
    rfl
  rw [placeholders, h.pieces_eq, List.filterMap_append, hchars, List.append_nil, List.filterMap_flatMap,
    List.map_eq_flatMap]
  simp only [hpart]

end Crosswalk.Template
