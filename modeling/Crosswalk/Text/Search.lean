/-!
# Searching in texts

Cutting a text at the first occurrence of a needle, testing for one, and splitting at all of
them. An empty needle occurs at every position, so splitting at it gives the single characters
between two empty pieces.
-/

namespace Crosswalk.Text

/-- What follows `start` in a list of characters that begins with it. -/
def after? : List Char → List Char → Option (List Char)
  | [], cs => some cs
  | _ :: _, [] => none
  | a :: start, c :: cs => if a == c then after? start cs else none

def cutChars? (needle : List Char) : List Char → Option (List Char × List Char)
  | [] => if needle.isEmpty then some ([], []) else none
  | c :: rest =>
    match after? needle (c :: rest) with
    | some after => some ([], after)
    | none => (cutChars? needle rest).map fun (before, after) => (c :: before, after)

/-- The parts of a string before and after the first occurrence of `needle`. -/
def cut? (needle s : String) : Option (String × String) :=
  (cutChars? needle.toList s.toList).map fun (before, after) =>
    (String.ofList before, String.ofList after)

def occurs (needle s : String) : Bool :=
  (cutChars? needle.toList s.toList).isSome

def startsWith (start s : String) : Bool :=
  start.toList.isPrefixOf s.toList

/-- What follows `start` in `s`, if `s` begins with it. -/
def dropStart? (start s : String) : Option String :=
  (after? start.toList s.toList).map String.ofList

def dropEnd? (ending s : String) : Option String :=
  (after? ending.toList.reverse s.toList.reverse).map fun r => String.ofList r.reverse

/-- The pieces between the occurrences of a nonempty needle, found from left to right without
overlap: `skip` counts the characters of the needle still to be passed over. -/
def splitRun (needle : List Char) : Nat → List Char → List Char → List (List Char)
  | _, piece, [] => [piece.reverse]
  | 0, piece, c :: rest =>
    if needle.isPrefixOf (c :: rest) then
      piece.reverse :: splitRun needle (needle.length - 1) [] rest
    else splitRun needle 0 (c :: piece) rest
  | skip + 1, piece, _ :: rest => splitRun needle skip piece rest

def splitChars (needle cs : List Char) : List (List Char) :=
  if needle.isEmpty then [] :: (cs.map fun c => [c]) ++ [[]]
  else splitRun needle 0 [] cs

def split (needle s : String) : List String :=
  (splitChars needle.toList s.toList).map String.ofList

def replace (needle replacement s : String) : String :=
  replacement.intercalate (split needle s)

/-! ## Lemmas -/

theorem after?_eq_some_iff {start cs rest : List Char} :
    after? start cs = some rest ↔ cs = start ++ rest := by
  induction start generalizing cs with
  | nil => simp [after?]
  | cons a start ih =>
    cases cs with
    | nil => simp [after?]
    | cons c cs =>
      by_cases h : a = c
      · subst h
        simp [after?, ih]
      · have h' : ¬c = a := fun e => h e.symm
        simp [after?, h, h']

theorem cutChars?_eq_append {needle cs before after : List Char}
    (h : cutChars? needle cs = some (before, after)) : cs = before ++ needle ++ after := by
  induction cs generalizing before after with
  | nil =>
    simp only [cutChars?] at h
    split at h <;> simp_all
  | cons c rest ih =>
    simp only [cutChars?] at h
    split at h
    next tail hd =>
      rw [after?_eq_some_iff] at hd
      simp_all
    next hd =>
      obtain ⟨⟨b, a⟩, hcut, heq⟩ := Option.map_eq_some_iff.1 h
      simp only [Prod.mk.injEq] at heq
      obtain ⟨rfl, rfl⟩ := heq
      simp [ih hcut]

theorem cutChars?_isSome_iff {needle cs : List Char} :
    (cutChars? needle cs).isSome = true ↔ ∃ before after, cs = before ++ needle ++ after := by
  constructor
  · intro h
    obtain ⟨⟨before, after⟩, hcut⟩ := Option.isSome_iff_exists.1 h
    exact ⟨before, after, cutChars?_eq_append hcut⟩
  · rintro ⟨before, after, rfl⟩
    induction before with
    | nil =>
      cases needle with
      | nil => cases after <;> simp [cutChars?, after?]
      | cons a needle =>
        have hafter : after? (a :: needle) (a :: (needle ++ after)) = some after :=
          after?_eq_some_iff.2 rfl
        simp [cutChars?, hafter]
    | cons c before ih =>
      rw [List.cons_append, List.cons_append, cutChars?]
      split
      · rfl
      · rwa [Option.isSome_map]

theorem occurs_iff {needle s : String} : occurs needle s = true ↔
    ∃ before after, s.toList = before ++ needle.toList ++ after :=
  cutChars?_isSome_iff

theorem startsWith_iff {start s : String} :
    startsWith start s = true ↔ ∃ after, s.toList = start.toList ++ after := by
  rw [startsWith, List.isPrefixOf_iff_prefix]
  exact ⟨fun ⟨after, h⟩ => ⟨after, h.symm⟩, fun ⟨after, h⟩ => ⟨after, h.symm⟩⟩

/-- What is before the last of a character can be told from what is behind it. -/
theorem append_last_inj {x : Char} {a b s t : List Char} (hs : x ∉ s) (ht : x ∉ t)
    (h : a ++ x :: s = b ++ x :: t) : a = b ∧ s = t := by
  have cut : ∀ {c s t : List Char}, x ∉ s → x :: s = c ++ x :: t → c = [] := by
    intro c s t hs h
    cases c with
    | nil => rfl
    | cons y c =>
      rw [List.cons_append, List.cons.injEq] at h
      exact absurd (h.2 ▸ List.mem_append_right c List.mem_cons_self) hs
  rcases List.append_eq_append_iff.1 h with ⟨c, hb, hc⟩ | ⟨c, ha, hc⟩
  · obtain rfl := cut hs hc
    rw [List.append_nil] at hb
    exact ⟨hb.symm, (List.cons.inj hc).2⟩
  · obtain rfl := cut ht hc
    rw [List.append_nil] at ha
    exact ⟨ha, (List.cons.inj hc).2.symm⟩

/-- What is before the first of a character can be told from what is behind it. -/
theorem append_first_inj {x : Char} {a b s t : List Char} (ha : x ∉ a) (hb : x ∉ b)
    (h : a ++ x :: s = b ++ x :: t) : a = b ∧ s = t := by
  have hreversed := congrArg List.reverse h
  simp only [List.reverse_append, List.reverse_cons, List.append_assoc, List.singleton_append]
    at hreversed
  rw [← List.mem_reverse] at ha hb
  obtain ⟨hst, hab⟩ := append_last_inj ha hb hreversed
  exact ⟨List.reverse_inj.1 hab, List.reverse_inj.1 hst⟩

end Crosswalk.Text
