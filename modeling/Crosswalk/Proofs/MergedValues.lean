import Crosswalk.Proofs.ContinuedRanges
import Crosswalk.Run.State
import Mathlib.Data.List.DropRight

/-!
# Values that are merged and parted again

The class that joins the values of an element gets them as one text, with the merge delimiter between them,
and takes that text apart again. The delimiter is written as it is, whatever the values hold, and the text
is cut wherever the delimiter is first found. So the values come back if each cut falls behind the value
that it should fall behind: the delimiter is not in the last value, and none begins inside a value that
another follows, not even one that ends in the delimiter written behind it. `Text.Separates` says this, and
nothing less will do if the values are to come back whatever they are then joined with.

An empty delimiter is apart. It is found between any two characters, so that it is the characters that are
joined, and the values come back if each is a single character.
-/

namespace Crosswalk

namespace Text

/-! ## Cutting and splitting -/

variable {needle piece cs : List Char} {d s v before after rest : String} {vs : List String}

theorem splitRun_append (xs : List Char) :
    splitRun needle xs.length piece (xs ++ cs) = splitRun needle 0 piece cs := by
  induction xs with
  | nil => rfl
  | cons x xs ih => simpa only [List.length_cons, List.cons_append, splitRun] using ih

/-- Splitting gives what is in front of the first occurrence, and goes on behind it. -/
theorem splitRun_eq (h : needle ≠ []) : splitRun needle 0 piece cs =
    match cutChars? needle cs with
    | some (before, after) => (piece.reverse ++ before) :: splitRun needle 0 [] after
    | none => [piece.reverse ++ cs] := by
  induction cs generalizing piece with
  | nil => simp [splitRun, cutChars?, h]
  | cons c rest ih =>
    rw [splitRun, cutChars?]
    cases hafter : after? needle (c :: rest) with
    | some after =>
      have hcs := after?_eq_some_iff.1 hafter
      have hprefix : needle.isPrefixOf (c :: rest) = true := by
        rw [List.isPrefixOf_iff_prefix, hcs]
        exact List.prefix_append needle after
      obtain ⟨a, start, rfl⟩ := List.exists_cons_of_ne_nil h
      rw [List.cons_append] at hcs
      obtain ⟨rfl, rfl⟩ := List.cons.inj hcs
      rw [if_pos hprefix, List.length_cons, Nat.add_sub_cancel, splitRun_append]
      simp
    | none =>
      have hprefix : ¬needle.isPrefixOf (c :: rest) = true := fun hp => by
        obtain ⟨after, hcs⟩ := List.isPrefixOf_iff_prefix.1 hp
        rw [after?_eq_some_iff.2 hcs.symm] at hafter
        cases hafter
      rw [if_neg hprefix, ih]
      cases cutChars? needle rest with
      | none => simp
      | some cut => simp

theorem toList_ne_nil (hd : d ≠ "") : d.toList ≠ [] :=
  fun h => hd (String.toList_eq_nil_iff.1 h)

theorem split_of_cut (hd : d ≠ "") (h : cut? d s = some (before, after)) :
    split d s = before :: split d after := by
  obtain ⟨⟨b, a⟩, hcut, heq⟩ := Option.map_eq_some_iff.1 h
  cases heq
  have hd := toList_ne_nil hd
  rw [split, split, splitChars, splitChars, if_neg (by simpa using hd), if_neg (by simpa using hd),
    splitRun_eq hd, hcut]
  simp

theorem split_of_not_cut (hd : d ≠ "") (h : cut? d s = none) : split d s = [s] := by
  have hcut := Option.map_eq_none_iff.1 h
  have hd := toList_ne_nil hd
  rw [split, splitChars, if_neg (by simpa using hd), splitRun_eq hd, hcut]
  simp

theorem eq_append_of_cut (h : cut? d s = some (before, after)) : s = before ++ d ++ after := by
  obtain ⟨⟨b, a⟩, hcut, heq⟩ := Option.map_eq_some_iff.1 h
  cases heq
  rw [← String.toList_inj, cutChars?_eq_append hcut]
  simp

theorem split_ne_nil (hd : d ≠ "") (s : String) : split d s ≠ [] := fun h => by
  cases hcut : cut? d s with
  | none => rw [split_of_not_cut hd hcut] at h; cases h
  | some cut => rw [split_of_cut hd hcut] at h; cases h

/-- The pieces with the delimiter between them are the text that was split. -/
theorem intercalate_split (hd : d ≠ "") (s : String) : d.intercalate (split d s) = s := by
  induction hn : s.length using Nat.strongRecOn generalizing s with
  | _ n ih =>
    cases hcut : cut? d s with
    | none => rw [split_of_not_cut hd hcut, String.intercalate_singleton]
    | some cut =>
      obtain ⟨before, after⟩ := cut
      have hs := eq_append_of_cut hcut
      have hlt : after.length < n := by
        have : d.length ≠ 0 := fun h => hd (String.length_eq_zero_iff.1 h)
        rw [← hn, hs, String.length_append, String.length_append]
        omega
      rw [split_of_cut hd hcut, String.intercalate_cons_of_ne_nil (split_ne_nil hd after), ih _ hlt _ rfl,
        ← hs]

/-! ## What comes back -/

/-- Whether a text in which the delimiter joins these values is cut behind each of them: nowhere earlier than
at its end, where the delimiter follows, and nowhere in the last. -/
def Separates (d : String) : List String → Prop
  | [] => True
  | [last] => cut? d last = none
  | v :: next :: more => cut? d (v ++ d) = some (v, "") ∧ Separates d (next :: more)

theorem after?_isSome_iff {start : List Char} : (after? start cs).isSome ↔ start <+: cs := by
  simp only [Option.isSome_iff_exists, after?_eq_some_iff, List.IsPrefix, eq_comm (a := cs)]

instance decidableSeparates (d : String) : (vs : List String) → Decidable (Separates d vs)
  | [] => isTrue trivial
  | [last] => inferInstanceAs (Decidable (cut? d last = none))
  | v :: next :: more =>
    have := decidableSeparates d (next :: more)
    inferInstanceAs (Decidable (cut? d (v ++ d) = some (v, "") ∧ Separates d (next :: more)))

/-- Where a value and the needle behind it are cut does not depend on what comes after. -/
theorem cutChars?_append_iff (h : needle ≠ []) (value more : List Char) :
    cutChars? needle (value ++ needle ++ more) = some (value, more) ↔
      cutChars? needle (value ++ needle) = some (value, []) := by
  induction value with
  | nil =>
    obtain ⟨a, start, rfl⟩ := List.exists_cons_of_ne_nil h
    have hmore (more : List Char) : after? (a :: start) (a :: (start ++ more)) = some more :=
      after?_eq_some_iff.2 rfl
    have hend := hmore []
    rw [List.append_nil] at hend
    simp [cutChars?, hmore, hend]
  | cons c value ih =>
    have hsome : (after? needle (c :: (value ++ needle ++ more))).isSome ↔
        (after? needle (c :: (value ++ needle))).isSome := by
      rw [after?_isSome_iff, after?_isSome_iff]
      exact ⟨fun h => List.prefix_of_prefix_length_le h (List.prefix_append (c :: (value ++ needle)) more)
        (by simp; omega), fun h => h.trans (List.prefix_append (c :: (value ++ needle)) more)⟩
    simp only [List.cons_append, cutChars?]
    cases hx : after? needle (c :: (value ++ needle)) <;>
      cases hy : after? needle (c :: (value ++ needle ++ more)) <;> simp only [hx, hy] at hsome
    · simpa using ih
    · cases hsome.1 rfl
    · cases hsome.2 rfl
    · simp

theorem cut?_append_iff (hd : d ≠ "") (v rest : String) :
    cut? d (v ++ d ++ rest) = some (v, rest) ↔ cut? d (v ++ d) = some (v, "") := by
  have hchars (s b a : String) :
      cut? d s = some (b, a) ↔ cutChars? d.toList s.toList = some (b.toList, a.toList) := by
    simp only [cut?, Option.map_eq_some_iff, Prod.exists, Prod.mk.injEq]
    constructor
    · rintro ⟨b', a', h, rfl, rfl⟩
      rw [h, String.toList_ofList, String.toList_ofList]
    · intro h
      exact ⟨_, _, h, String.ofList_toList, String.ofList_toList⟩
  simpa [hchars] using cutChars?_append_iff (toList_ne_nil hd) v.toList rest.toList

theorem split_intercalate_iff (hd : d ≠ "") (hvs : vs ≠ []) :
    split d (d.intercalate vs) = vs ↔ Separates d vs := by
  induction vs with
  | nil => exact absurd rfl hvs
  | cons v more ih =>
    cases more with
    | nil =>
      rw [String.intercalate_singleton, Separates]
      refine ⟨fun h => ?_, split_of_not_cut hd⟩
      cases hcut : cut? d v with
      | none => rfl
      | some cut =>
        rw [split_of_cut hd hcut] at h
        exact absurd (List.cons.inj h).2 (split_ne_nil hd _)
    | cons next more =>
      rw [String.intercalate_cons_cons, Separates, ← ih (List.cons_ne_nil _ _),
        ← cut?_append_iff hd v (d.intercalate (next :: more))]
      constructor
      · intro h
        cases hcut : cut? d (v ++ d ++ d.intercalate (next :: more)) with
        | none =>
          rw [split_of_not_cut hd hcut] at h
          exact absurd (List.cons.inj h).2 (List.cons_ne_nil _ _).symm
        | some cut =>
          rw [split_of_cut hd hcut] at h
          obtain ⟨hbefore, hafter⟩ := List.cons.inj h
          have happend := eq_append_of_cut hcut
          rw [hbefore, String.append_right_inj] at happend
          rw [happend]
          exact ⟨by rw [← hbefore], hafter⟩
      · rintro ⟨hcut, hrest⟩
        rw [split_of_cut hd hcut, hrest]

theorem cutChars?_append_of_not_mem {c : Char} {start value : List Char} (hc : c ∉ value)
    (behind : List Char) : cutChars? (c :: start) (value ++ behind) =
      (cutChars? (c :: start) behind).map fun (before, after) => (value ++ before, after) := by
  induction value with
  | nil => simp
  | cons x value ih =>
    rw [List.mem_cons, not_or] at hc
    simp [cutChars?, after?, hc.1, ih hc.2, Function.comp_def]

/-- A delimiter separates the values that do not hold its first character. -/
theorem separates_of_not_mem {c : Char} {start : List Char} (hd : d.toList = c :: start)
    (h : ∀ v ∈ vs, c ∉ v.toList) : Separates d vs := by
  have hafter : after? (c :: start) (c :: start) = some [] := after?_eq_some_iff.2 (List.append_nil _).symm
  have hend : cutChars? (c :: start) (c :: start) = some ([], []) := by simp [cutChars?, hafter]
  induction vs with
  | nil => trivial
  | cons v rest ih =>
    have hv (behind : List Char) : cutChars? (c :: start) (v.toList ++ behind) = _ :=
      cutChars?_append_of_not_mem (h v List.mem_cons_self) behind
    cases rest with
    | nil =>
      have hlast := hv []
      rw [List.append_nil] at hlast
      simp [Separates, cut?, hd, hlast, cutChars?]
    | cons next rest =>
      refine ⟨?_, ih fun w hw => h w (List.mem_cons_of_mem v hw)⟩
      simp [cut?, hd, hv, hend]

/-! ## Trimming the pieces -/

theorem trimChars_sublist (cs : List Char) : (trimChars cs).Sublist cs :=
  (List.rdropWhile_prefix isBlank (cs.dropWhile isBlank)).sublist.trans (List.dropWhile_sublist _)

theorem trim_trim (s : String) : trim (trim s) = trim s := by
  have hstart (cs : List Char) : (trimChars cs).dropWhile isBlank = trimChars cs := by
    have hprefix := List.rdropWhile_prefix isBlank (cs.dropWhile isBlank)
    rw [trimChars, dropBlankEnd, ← List.rdropWhile]
    cases htrimmed : (cs.dropWhile isBlank).rdropWhile isBlank with
    | nil => rfl
    | cons c rest =>
      rw [htrimmed] at hprefix
      obtain ⟨more, hmore⟩ := hprefix
      have hc := List.head?_dropWhile_not isBlank cs
      rw [← hmore] at hc
      rw [List.dropWhile_cons_of_neg]
      simpa using hc
  have hend (cs : List Char) : dropBlankEnd (dropBlankEnd cs) = dropBlankEnd cs :=
    List.rdropWhile_idempotent isBlank cs
  rw [trim, trim, String.toList_ofList, trimChars, hstart, trimChars, hend]

theorem trim_eq_empty_iff {s : String} : trim s = "" ↔ isBlankText s = true := by
  rw [trim, ← String.toList_inj, String.toList_ofList, String.toList_empty, trimChars, dropBlankEnd_eq_nil_iff,
    ← dropWhile_isBlank_eq_nil_iff, List.dropWhile_idempotent, dropWhile_isBlank_eq_nil_iff, isBlankText,
    List.all_eq_true]

/-- The pieces that are kept: not blank, and without blanks around them. -/
def present (pieces : List String) : List String :=
  (pieces.map trim).filter fun p => !p.isEmpty

theorem present_trimmed {pieces : List String} : ∀ v ∈ present pieces, v ≠ "" ∧ trim v = v := by
  intro v hv
  obtain ⟨htrimmed, hne⟩ := List.mem_filter.1 hv
  obtain ⟨p, -, rfl⟩ := List.mem_map.1 htrimmed
  exact ⟨by simpa using hne, trim_trim p⟩

theorem present_eq_self (h : ∀ v ∈ vs, v ≠ "" ∧ trim v = v) : present vs = vs := by
  have hmap : vs.map trim = vs := by
    conv_rhs => rw [← List.map_id vs]
    exact List.map_congr_left fun v hv => (h v hv).2
  rw [present, hmap, List.filter_eq_self]
  exact fun v hv => by simpa using (h v hv).1

/-- What a list of pieces takes up in a text where the delimiter is behind each of them. -/
def spread (d : String) (pieces : List String) : Nat :=
  (pieces.flatMap fun p => p.toList ++ d.toList).length

theorem toList_intercalate_append (h : vs ≠ []) :
    (d.intercalate vs).toList ++ d.toList = vs.flatMap fun v => v.toList ++ d.toList := by
  induction vs with
  | nil => exact absurd rfl h
  | cons v more ih =>
    cases more with
    | nil => simp
    | cons next more =>
      rw [String.intercalate_cons_cons, String.toList_append, String.toList_append, List.append_assoc,
        ih (List.cons_ne_nil _ _)]
      rfl

theorem length_intercalate (h : vs ≠ []) : (d.intercalate vs).length + d.length = spread d vs := by
  have := congrArg List.length (toList_intercalate_append h (d := d))
  simpa only [spread, List.length_append, String.length_toList] using this

theorem length_trim_le (s : String) : (trim s).length ≤ s.length := by
  rw [← String.length_toList, ← String.length_toList, trim, String.toList_ofList]
  exact (trimChars_sublist _).length_le

theorem trim_eq_self_of_length (h : (trim s).length = s.length) : trim s = s := by
  rw [← String.length_toList, ← String.length_toList, trim, String.toList_ofList] at h
  rw [trim, (trimChars_sublist _).eq_of_length h, String.ofList_toList]

/-- Pieces that take up no more than what is kept of them are all kept as they are. -/
theorem spread_present (hd : d ≠ "") (pieces : List String) :
    spread d (present pieces) ≤ spread d pieces ∧
      (spread d (present pieces) = spread d pieces → present pieces = pieces) := by
  have hpos : d.length ≠ 0 := fun h => hd (String.length_eq_zero_iff.1 h)
  induction pieces with
  | nil => exact ⟨Nat.le_refl _, fun _ => rfl⟩
  | cons p more ih =>
    have hp := length_trim_le p
    obtain ⟨hle, heq⟩ := ih
    by_cases hblank : trim p = ""
    · have hleft : present (p :: more) = present more := by simp [present, hblank]
      rw [hleft]
      simp only [spread, List.flatMap_cons, List.length_append, String.length_toList] at hle ⊢
      exact ⟨by omega, fun h => by omega⟩
    · have hkept : present (p :: more) = trim p :: present more := by simp [present, hblank]
      rw [hkept]
      simp only [spread, List.flatMap_cons, List.length_append, String.length_toList] at hle heq ⊢
      refine ⟨by omega, fun h => ?_⟩
      rw [trim_eq_self_of_length (by omega), heq (by omega)]

/-! ## No delimiter -/

theorem split_empty (s : String) :
    split "" s = "" :: (s.toList.map fun c => String.ofList [c]) ++ [""] := by
  simp [split, splitChars, Function.comp_def]

theorem present_split_empty (s : String) :
    present (split "" s) = present (s.toList.map fun c => String.ofList [c]) := by
  have hnone : present [""] = [] := rfl
  have happend (ps qs : List String) : present (ps ++ qs) = present ps ++ present qs := by
    simp [present]
  rw [split_empty, happend, hnone, List.append_nil, ← List.singleton_append, happend, hnone,
    List.nil_append]

theorem length_of_mem_present {cs : List Char} {p : String}
    (h : p ∈ present (cs.map fun c => String.ofList [c])) : p.length = 1 := by
  obtain ⟨htrimmed, hp⟩ := List.mem_filter.1 h
  obtain ⟨q, hq, rfl⟩ := List.mem_map.1 htrimmed
  obtain ⟨c, -, rfl⟩ := List.mem_map.1 hq
  have hle := length_trim_le (String.ofList [c])
  have hpos : (trim (String.ofList [c])).length ≠ 0 := fun h => by
    rw [String.length_eq_zero_iff.1 h] at hp
    cases hp
  rw [String.length_ofList, List.length_singleton] at hle
  omega

theorem characters_intercalate (h : ∀ v ∈ vs, v.length = 1) :
    (("".intercalate vs).toList.map fun c => String.ofList [c]) = vs := by
  induction vs with
  | nil => rfl
  | cons v more ih =>
    have hv : (v.toList.map fun c => String.ofList [c]) = [v] := by
      have hlength := h v List.mem_cons_self
      rw [← String.length_toList] at hlength
      obtain ⟨c, hc⟩ := List.length_eq_one_iff.1 hlength
      rw [hc, List.map_singleton, ← hc, String.ofList_toList]
    cases more with
    | nil => rw [String.intercalate_singleton, hv]
    | cons next more =>
      rw [String.intercalate_cons_cons, String.append_empty, String.toList_append, List.map_append, hv,
        ih fun w hw => h w (List.mem_cons_of_mem v hw), List.singleton_append]

end Text

namespace CustomClass

open Text (present spread)

variable {d : String} {v w : String} {vs ws : List String}

/-! ## Parting and joining -/

theorem parts_eq (d merged : String) : parts d merged = present (Text.split d merged) := rfl

theorem parts_empty_iff (hvs : ∀ v ∈ vs, v ≠ "" ∧ Text.trim v = v) :
    parts "" ("".intercalate vs) = vs ↔ ∀ v ∈ vs, v.length = 1 := by
  rw [parts_eq, Text.present_split_empty]
  constructor
  · intro h v hv
    rw [← h] at hv
    exact Text.length_of_mem_present hv
  · intro h
    rw [Text.characters_intercalate h, Text.present_eq_self hvs]

theorem parts_nil (hd : d ≠ "") : parts d "" = [] := by
  have hsplit : Text.split d "" = [""] := by
    refine Text.split_of_not_cut hd (Option.eq_none_iff_forall_ne_some.2 fun cut hcut => ?_)
    simpa [hd] using Text.eq_append_of_cut hcut
  rw [parts_eq, hsplit]
  rfl

/-- With a delimiter that is not empty, what is parted is what was merged if the text is cut where it was
joined. -/
theorem parts_intercalate_iff (hd : d ≠ "") (hvs : ∀ v ∈ vs, v ≠ "" ∧ Text.trim v = v) :
    parts d (d.intercalate vs) = vs ↔ Text.Separates d vs := by
  by_cases hne : vs = []
  · simp [hne, parts_nil hd, Text.Separates]
  · rw [← Text.split_intercalate_iff hd hne, parts_eq]
    refine ⟨fun h => ?_, fun h => by rw [h, Text.present_eq_self hvs]⟩
    -- The pieces take up as much as the values, so none of them was left out and none was trimmed.
    have hspread : spread d (Text.split d (d.intercalate vs)) = spread d vs := by
      rw [← Text.length_intercalate (Text.split_ne_nil hd _), Text.intercalate_split hd,
        Text.length_intercalate hne]
    have hkept := (Text.spread_present hd (Text.split d (d.intercalate vs))).2
    rw [h] at hkept
    exact (hkept hspread.symm).symm

/-- When merged values come back as they were: at each delimiter the text is cut as it was joined, and without a
delimiter every value is a single character. -/
def Keeps (d : String) (vs : List String) : Prop :=
  if d = "" then ∀ v ∈ vs, v.length = 1 else Text.Separates d vs

instance : Decidable (Keeps d vs) :=
  inferInstanceAs (Decidable (if d = "" then ∀ v ∈ vs, v.length = 1 else Text.Separates d vs))

/-- The end of the last value is safe, the end of another is not. -/
example : Keeps "|||" ["Ada", "Augusta|"] ∧ ¬Keeps "|||" ["Ada|", "Augusta"] := by decide

theorem parts_iff_keeps (hvs : ∀ v ∈ vs, v ≠ "" ∧ Text.trim v = v) :
    parts d (d.intercalate vs) = vs ↔ Keeps d vs := by
  rw [Keeps]
  split
  next hd => rw [hd, parts_empty_iff hvs]
  next hd => rw [parts_intercalate_iff hd hvs]

theorem eq_of_append_eq {xs ys : List Char} {more more' : Char → List Char}
    (h : ∀ c, xs ++ c :: more c = ys ++ c :: more' c) : xs = ys := by
  have hle {xs ys : List Char} {more more' : Char → List Char}
      (h : ∀ c, xs ++ c :: more c = ys ++ c :: more' c) : ys.length ≤ xs.length := by
    by_contra hlt
    have hat (c : Char) : ys[xs.length]? = some c := by
      have := congrArg (·[xs.length]?) (h c)
      simpa [List.getElem?_append_left (Nat.lt_of_not_le hlt)] using this.symm
    exact absurd ((hat 'a').symm.trans (hat 'b')) (by decide)
  exact List.append_inj_left (h 'a') (Nat.le_antisymm (hle fun c => (h c).symm) (hle h))

/-- Texts that are followed by a character each are known from what that gives for every character. -/
theorem eq_of_flatMap_eq {xss yss : List (List Char)}
    (h : ∀ c, (xss.flatMap fun xs => xs ++ [c]) = yss.flatMap fun ys => ys ++ [c]) : xss = yss := by
  induction xss generalizing yss with
  | nil =>
    cases yss with
    | nil => rfl
    | cons ys yss => simpa using h 'a'
  | cons xs xss ih =>
    cases yss with
    | nil => simpa using h 'a'
    | cons ys yss =>
      simp only [List.flatMap_cons, List.append_assoc, List.singleton_append] at h
      obtain rfl := eq_of_append_eq h
      rw [ih fun c => (List.cons.inj (List.append_cancel_left (h c))).2]

theorem intercalate_eq_empty (h : d.intercalate vs = "") (hvs : ∀ v ∈ vs, v ≠ "") : vs = [] := by
  rcases vs with - | ⟨v, - | ⟨next, more⟩⟩
  · rfl
  · exact absurd (String.intercalate_singleton.symm.trans h) (hvs v List.mem_cons_self)
  · simp [hvs v List.mem_cons_self] at h

/-- Values that come out the same whatever joins them are the same. -/
theorem eq_of_intercalate_eq (h : ∀ glue : String, glue.intercalate vs = glue.intercalate ws)
    (hvs : ∀ v ∈ vs, v ≠ "") (hws : ∀ w ∈ ws, w ≠ "") : vs = ws := by
  by_cases hnil : vs = []
  · subst hnil
    exact (intercalate_eq_empty ((h "").symm.trans String.intercalate_nil) hws).symm
  by_cases hnil' : ws = []
  · subst hnil'
    exact intercalate_eq_empty ((h "").trans String.intercalate_nil) hvs
  have hchars (c : Char) : (vs.map String.toList).flatMap (fun xs => xs ++ [c]) =
      (ws.map String.toList).flatMap (fun ys => ys ++ [c]) := by
    have hleft := Text.toList_intercalate_append hnil (d := String.ofList [c])
    have hright := Text.toList_intercalate_append hnil' (d := String.ofList [c])
    rw [h, hright, String.toList_ofList] at hleft
    rw [List.flatMap_map, List.flatMap_map, hleft]
  exact List.map_injective_iff.2 (fun _ _ => String.toList_inj.1) (eq_of_flatMap_eq hchars)

theorem produce_eq (d text glue : String) :
    concatenation.produce d [("text", text), ("delimiter", glue)] = .ok (glue.intercalate (parts d text)) :=
  rfl

/-- A merged text gives the values that were merged, whatever they are joined with, just if the delimiter
keeps them. -/
theorem produce_eq_iff_keeps (hvs : ∀ v ∈ vs, v ≠ "" ∧ Text.trim v = v) :
    (∀ glue, concatenation.produce d [("text", d.intercalate vs), ("delimiter", glue)] =
      .ok (glue.intercalate vs)) ↔ Keeps d vs := by
  rw [← parts_iff_keeps hvs]
  simp only [produce_eq, Except.ok.injEq]
  refine ⟨fun h => eq_of_intercalate_eq h (fun v hv => ?_) fun v hv => (hvs v hv).1, fun h => by simp [h]⟩
  exact (Text.present_trimmed v (parts_eq d _ ▸ hv)).1

end CustomClass

namespace Source

open CustomClass (concatenation Keeps)
open Xml (Location)

variable {src : Source} {node : Location} {expression : String} {ls : List Location}

theorem merged_of_select (h : src.select node expression = .ok ls) : src.merged node expression =
    .ok (src.mergeDelimiter.intercalate (Text.present (ls.map src.document.stringValue))) := by
  rw [merged, evaluate_of_select h, Text.present, List.map_map]
  rfl

/-- Whatever is merged at a node arrives in the class as the merged text, and the class gives the trimmed values
that are not empty, in document order and joined as it is told, just if the merge delimiter keeps them. -/
theorem concatenation_merged_iff (h : src.select node expression = .ok ls) :
    let values := Text.present (ls.map src.document.stringValue)
    Location.Ordered ls ∧ ∃ text, src.merged node expression = .ok text ∧
      (∀ position language?,
        Run.readArgument src node position ⟨"text", .xpath, expression, language?⟩ true =
          .ok ⟨text, language?.or (src.language? node)⟩) ∧
      ((∀ glue, concatenation.produce src.mergeDelimiter [("text", text), ("delimiter", glue)] =
        .ok (glue.intercalate values)) ↔ Keeps src.mergeDelimiter values) := by
  intro values
  have hmerged := merged_of_select h
  refine ⟨ordered_select h, _, hmerged, fun position language? => ?_,
    CustomClass.produce_eq_iff_keeps Text.present_trimmed⟩
  rw [Run.readArgument, if_pos rfl, hmerged]
  rfl

/-- A person of two names. -/
def ofNames (delimiter first second : String) : Source :=
  ⟨⟨[.element ⟨none, "person"⟩ [] [] [.element ⟨none, "name"⟩ [] [] [.text first],
    .element ⟨none, "name"⟩ [] [] [.text second]]]⟩, .builtin, delimiter⟩

theorem select_ofNames (delimiter first second : String) :
    (ofNames delimiter first second).select (.ofPath [0]) "name" = .ok [.ofPath [0, 0], .ofPath [0, 1]] := by
  have hordered : Location.Ordered [.ofPath [0, 0], .ofPath [0, 1]] := by
    rw [Location.Ordered]
    decide
  rw [select_eq_ok_iff parse_name, XPath.evaluate_path_iff, XPath.walk_cons_of _ (by rfl) hordered, XPath.walk]

/-- The one name ends in a part of the delimiter, but no other name follows. -/
theorem concatenation_merged_iff_names :
    let src := ofNames "|||" " Ada" "Augusta|"
    ∃ ls, src.select (.ofPath [0]) "name" = .ok ls ∧
      let values := Text.present (ls.map src.document.stringValue)
      Location.Ordered ls ∧ ∃ text, src.merged (.ofPath [0]) "name" = .ok text ∧
        (∀ position language?,
          Run.readArgument src (.ofPath [0]) position ⟨"text", .xpath, "name", language?⟩ true =
            .ok ⟨text, language?.or (src.language? (.ofPath [0]))⟩) ∧
        ((∀ glue, concatenation.produce "|||" [("text", text), ("delimiter", glue)] =
          .ok (glue.intercalate values)) ↔ Keeps "|||" values) := by
  have hselect := select_ofNames "|||" " Ada" "Augusta|"
  exact ⟨_, hselect, concatenation_merged_iff hselect⟩

/-- A name that ends in a part of the delimiter gives that part to the next name. -/
theorem concatenation_moves_end :
    let src := ofNames "|||" "Ada|" "Augusta"
    ∃ ls, src.select (.ofPath [0]) "name" = .ok ls ∧
      Text.present (ls.map src.document.stringValue) = ["Ada|", "Augusta"] ∧
      ∃ text, src.merged (.ofPath [0]) "name" = .ok text ∧
        concatenation.produce "|||" [("text", text), ("delimiter", ", ")] = .ok "Ada, |Augusta" ∧
        concatenation.produce "|||" [("text", text), ("delimiter", ", ")] ≠
          .ok (", ".intercalate ["Ada|", "Augusta"]) := by
  intro src
  have hselect := select_ofNames "|||" "Ada|" "Augusta"
  have hvalues : Text.present ([.ofPath [0, 0], .ofPath [0, 1]].map src.document.stringValue) =
      ["Ada|", "Augusta"] := by
    decide +kernel
  have hmerged := merged_of_select hselect
  rw [hvalues] at hmerged
  exact ⟨_, hselect, hvalues, _, hmerged, by decide +kernel, by decide +kernel⟩

end Source

end Crosswalk
