import Crosswalk.Proofs.KeptValues

/-!
# Identifiers that are drawn

Identifiers come from one source, and whatever a run does, it only ever draws on: the source is further
on afterwards, and nothing that was drawn comes back. So in a run whose entities all get fresh
identifiers, two keys with one value have drawn it at once: they are the same key.
-/

namespace Crosswalk

open Crosswalk.Xml (Location)

/-! ## Labels -/

/-- The number that some letters stand for in base 26. -/
def labelValue (letters : List Char) : Nat :=
  letters.foldl (fun n c => n * 26 + (c.toNat - 'A'.toNat)) 0

theorem toNat_labelLetter {n : Nat} (h : n < 26) : (labelLetter n).toNat = 'A'.toNat + n := by
  have hall : ∀ n < 26, (labelLetter n).toNat = 'A'.toNat + n := by decide
  exact hall n h

theorem labelValue_labelDigits (n : Nat) : labelValue (labelDigits n) = n := by
  induction n using labelDigits.induct with
  | case1 n h =>
    rw [labelDigits, if_pos h]
    simp [labelValue, toNat_labelLetter h]
  | case2 n h ih =>
    rw [labelDigits, if_neg h, labelValue, List.foldl_append, ← labelValue, ih]
    have hlast := toNat_labelLetter (n := n % 26) (Nat.mod_lt n (by decide))
    simp only [List.foldl_cons, List.foldl_nil, hlast]
    omega

theorem labelValue_replicate (k : Nat) (letters : List Char) :
    labelValue (List.replicate k 'A' ++ letters) = labelValue letters := by
  induction k with
  | zero => rfl
  | succ k ih => exact ih

/-- Labels tell numbers apart: the letters in front of a number do not count. -/
theorem label_injective (width : Nat) : Function.Injective (label width) := by
  intro m n h
  have hletters := congrArg labelValue (String.ofList_inj.1 h)
  rwa [labelValue_replicate, labelValue_replicate, labelValue_labelDigits, labelValue_labelDigits]
    at hletters

/-! ## Sources -/

namespace UuidSource

/-- How much was drawn from a source. -/
def drawn : UuidSource → Nat
  | random _ n => n
  | alphabetic _ n => n

/-- The identifier that a source gives at a draw. -/
def uri : UuidSource → Nat → String
  | random seed _, k => "urn:uuid:" ++ randomUuid seed k
  | alphabetic width _, k => "uuid:" ++ label width k

theorem nextUri_eq (u : UuidSource) : u.nextUri = (u.uri u.drawn, u.advance) := by
  cases u <;> rfl

/-- The same source, from which more may have been drawn. -/
structure Draws (u v : UuidSource) : Prop where
  uri_eq : v.uri = u.uri
  drawn_le : u.drawn ≤ v.drawn

theorem Draws.refl (u : UuidSource) : u.Draws u :=
  ⟨rfl, Nat.le_refl _⟩

theorem Draws.trans {u v w : UuidSource} (h : u.Draws v) (h' : v.Draws w) : u.Draws w :=
  ⟨h'.uri_eq.trans h.uri_eq, Nat.le_trans h.drawn_le h'.drawn_le⟩

@[simp] theorem uri_advance (u : UuidSource) : u.advance.uri = u.uri := by
  cases u <;> rfl

@[simp] theorem drawn_advance (u : UuidSource) : u.advance.drawn = u.drawn + 1 := by
  cases u <;> rfl

theorem draws_advance (u : UuidSource) : u.Draws u.advance :=
  ⟨uri_advance u, by simp⟩

/-- No two of the first draws have given the same identifier. -/
def IsApart (u : UuidSource) (count : Nat) : Prop :=
  ∀ i < count, ∀ j < count, u.uri i = u.uri j → i = j

/-- A source that counts never repeats itself. -/
theorem isApart_alphabetic (width n count : Nat) : (alphabetic width n).IsApart count := by
  intro i _ j _ h
  have hchars := congrArg String.toList h
  simp only [uri, String.toList_append, List.append_cancel_left_eq] at hchars
  exact label_injective width (String.toList_inj.1 hchars)

end UuidSource

/-! ## Generations -/

/-- Whatever comes of a generation, it only draws on. -/
def Generation.Advances {α : Type} (g : Generation α) : Prop :=
  ∀ s : GenerationState, s.uuids.Draws (g.run s).2.uuids

namespace Generation.Advances

variable {α β : Type} {g : Generation α} {f : α → Generation β}

theorem of_isSteady (h : g.IsSteady) : g.Advances := by
  obtain ⟨r, hr⟩ := h
  intro s
  obtain ⟨asked, hs⟩ := hr s
  rw [hs]
  exact .refl _

theorem bind (hg : g.Advances) (hf : ∀ a, (f a).Advances) : (g >>= f).Advances := by
  intro s
  have hbind : (g >>= f).run s = ExceptT.bindCont f (g.run s).1 (g.run s).2 := rfl
  rw [hbind]
  have hfirst := hg s
  rcases h : g.run s with ⟨e | a, t⟩ <;> rw [h] at hfirst
  · exact hfirst
  · exact hfirst.trans (hf a t)

end Generation.Advances

section

variable {setting : GeneratorSetting} {reader : ArgumentReader} {call : GeneratorCall}

theorem advances_generateUri (spec : GeneratorSpec) (space template : String) :
    (generateUri setting reader call spec space template).Advances := by
  refine .bind (.of_isSteady (isSteady_substitute _ template)) fun filled => ?_
  refine .bind ?_ fun base => .of_isSteady ?_
  · rw [localPart]
    split
    · exact .of_isSteady (.pure _)
    split
    · exact .bind (fun s => s.uuids.draws_advance) fun _ => .of_isSteady (.pure _)
    · exact .of_isSteady (.pure _)
  · split
    · exact .pure _
    · exact .bind (.ofSetup _) fun _ => .pure _

theorem advances_generateBuiltIn (b : BuiltIn) :
    (generateBuiltIn setting reader call b).Advances := by
  by_cases hb : b = .freshUuid
  · subst hb
    exact .bind (fun s => s.uuids.draws_advance) fun _ => .of_isSteady (.pure _)
  · exact .of_isSteady (isSteady_generateBuiltIn hb)

theorem GeneratorPolicy.advances_generate (policy : GeneratorPolicy) :
    (policy.generate setting reader call).Advances := by
  rw [generate]
  split
  · exact advances_generateBuiltIn _
  · refine .bind (.of_isSteady (.ofSetup _)) fun spec => ?_
    split
    · split
      · exact .of_isSteady (isSteady_generateCustom _ _ _)
      · exact .of_isSteady (.throw _)
    · exact advances_generateUri spec _ _
    · exact .of_isSteady (isSteady_generateText _)

end

namespace Run

variable {s t : RunState}

theorem generate_draws (scene : Scene) (call : GeneratorCall) (node : Location) (position : Nat)
    (s : RunState) : s.uuids.Draws (after (generate scene call node position) s).uuids :=
  scene.engine.policy.advances_generate ⟨s.uuids, []⟩

/-- The call of a generator of fresh identifiers gives the next one. -/
theorem outcome_generate_fresh {scene : Scene} {call : GeneratorCall}
    (h : BuiltIn.ofName? call.name = some .freshUuid) (node : Location) (position : Nat)
    (s : RunState) : outcome (generate scene call node position) s =
      (.ok (.uri (s.uuids.uri s.uuids.drawn)), { s with uuids := s.uuids.advance }) := by
  rw [generate, outcome_generation, GeneratorPolicy.generate, h]
  have hrun : (generateBuiltIn scene.engine.generatorSetting (readArgument scene.source node position)
      call .freshUuid).run ⟨s.uuids, []⟩ = (.ok (.uri s.uuids.nextUri.1), ⟨s.uuids.nextUri.2, []⟩) := rfl
  dsimp only
  rw [hrun, UuidSource.nextUri_eq]

/-! ## What is kept is drawn -/

/-- Every value that is kept was drawn, and those of different keys at different draws. -/
def KeepsDrawn (s : RunState) : Prop :=
  ∃ number : String → Nat, ∀ key v, s.cache.get? key = some v →
    number key < s.uuids.drawn ∧ v = .uri (s.uuids.uri (number key)) ∧
      ∀ key' v', s.cache.get? key' = some v' → number key' = number key → key' = key

theorem KeepsDrawn.draws (h : KeepsDrawn s) (hcache : t.cache = s.cache)
    (huuids : s.uuids.Draws t.uuids) : KeepsDrawn t := by
  obtain ⟨number, hnumber⟩ := h
  refine ⟨number, fun key v hv => ?_⟩
  rw [hcache] at hv
  obtain ⟨hlt, hvalue, hunique⟩ := hnumber key v hv
  rw [huuids.uri_eq, hcache]
  exact ⟨Nat.lt_of_lt_of_le hlt huuids.drawn_le, hvalue, hunique⟩

/-- A value that was just drawn may be kept under a new key. -/
theorem KeepsDrawn.insert {key : String} (h : KeepsDrawn s) :
    KeepsDrawn { s with
      uuids := s.uuids.advance
      cache := s.cache.insert key (.uri (s.uuids.uri s.uuids.drawn)) } := by
  obtain ⟨number, hnumber⟩ := h
  refine ⟨Function.update number key s.uuids.drawn, fun other v hv => ?_⟩
  have hbefore (k : String) (w : Value) (hk : k ≠ key)
      (hw : (s.cache.insert key (.uri (s.uuids.uri s.uuids.drawn))).get? k = some w) :
      s.cache.get? k = some w ∧ Function.update number key s.uuids.drawn k = number k := by
    rw [Table.get?_insert, if_neg hk] at hw
    exact ⟨hw, Function.update_of_ne hk _ _⟩
  simp only [UuidSource.drawn_advance, UuidSource.uri_advance]
  by_cases hother : other = key
  · subst hother
    rw [Table.get?_insert, if_pos rfl] at hv
    rw [Function.update_self]
    refine ⟨Nat.lt_succ_self _, (Option.some.inj hv).symm, fun k w hw hnumbers => ?_⟩
    by_contra hk
    obtain ⟨hw, hold⟩ := hbefore k w hk hw
    obtain ⟨hlt, -⟩ := hnumber k w hw
    rw [hold] at hnumbers
    omega
  · obtain ⟨hv, hold⟩ := hbefore other v hother hv
    obtain ⟨hlt, hvalue, hunique⟩ := hnumber other v hv
    rw [hold]
    refine ⟨Nat.lt_succ_of_lt hlt, hvalue, fun k w hw hnumbers => ?_⟩
    by_cases hk : k = key
    · subst hk
      rw [Function.update_self] at hnumbers
      omega
    · obtain ⟨hw, hkold⟩ := hbefore k w hk hw
      exact hunique k w hw (hkold ▸ hnumbers)

theorem KeepsDrawn.exists_uri (h : KeepsDrawn s) {key : String} {v : Value}
    (hv : s.cache.get? key = some v) : ∃ iri, v = .uri iri := by
  obtain ⟨number, hnumber⟩ := h
  exact ⟨_, (hnumber key v hv).2.1⟩

/-- Where all values that are kept were drawn apart, two keys have one value only if they are the same. -/
theorem KeepsDrawn.eq_of_get? (h : KeepsDrawn s) (apart : s.uuids.IsApart s.uuids.drawn)
    {key key' : String} {v v' : Value} (hv : s.cache.get? key = some v)
    (hv' : s.cache.get? key' = some v') (heq : v = v') : key = key' := by
  obtain ⟨number, hnumber⟩ := h
  obtain ⟨hlt, hvalue, hunique⟩ := hnumber key v hv
  obtain ⟨hlt', hvalue', -⟩ := hnumber key' v' hv'
  have huri : s.uuids.uri (number key) = s.uuids.uri (number key') := by
    rw [heq, hvalue'] at hvalue
    exact (Value.uri.inj hvalue).symm
  exact (hunique key' v' hv' (apart _ hlt' _ hlt huri.symm)).symm

end Run

end Crosswalk
