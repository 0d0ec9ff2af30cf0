import Crosswalk.Proofs.Seats
import Crosswalk.Proofs.SetOnce

/-!
# Distinct resources

Where every entity gets a fresh identifier, resources are as distinct as the keys under which they are kept:
a value is drawn for each key when the key is first met, and no two draws of a source that counts are the
same. The key of an attached entity has its number among those beside it, so that attached entities of the
same types are distinct resources. Only an entity that is given an identity is not kept under a key: it is
the resource that it is merged into.
-/

namespace Crosswalk

open Crosswalk.Xml (Location)

/-! ## Keys of attached entities -/

/-- A key does not tell in which order the types are. -/
theorem typesText_eq_of_perm {types types' : List String} (h : types.Perm types') :
    typesText types = typesText types' := by
  rw [typesText, typesText, Text.sorted_eq_of_perm h]

theorem Role.additional_injective {i j : Nat}
    (h : (additional i).keyText = (additional j).keyText) : i = j := by
  have hchars := congrArg String.toList h
  simp only [keyText, String.toList_append, List.append_cancel_left_eq, Nat.toString_eq_ofList_toDigits,
    String.toList_ofList] at hchars
  exact toDigits_injective hchars

/-- Attached entities of the same types have different keys if their numbers differ. -/
theorem cacheKey_additionalContext_ne {source : Source} {place : Place} {c : Context} {owner i j : Nat}
    {value : Value} {relationship relationship' : String} {types types' : List String}
    (hij : i ≠ j) (htypes : types.Perm types') :
    cacheKey source place (Run.additionalContext c owner value i relationship) types ≠
      cacheKey source place (Run.additionalContext c owner value j relationship') types' := by
  intro h
  rw [cacheKey_eq, cacheKey_eq, typesText_eq_of_perm htypes] at h
  have hrest := congrArg String.toList h
  simp only [String.toList_append] at hrest
  have hrole := keyText_eq_of_keyRest_eq (String.toList_inj.1 (List.append_cancel_left hrest))
  exact hij (Role.additional_injective hrole)

namespace Engine

open Crosswalk.Run

variable {engine : Engine} {seed : List UInt8} {document : Xml.Document} {s t u : RunState}
  {x y : Resolution} {r r' : Resolved}

/-! ## Keys and resources -/

theorem resolves_of_takesUp (h : (engine.course seed document).TakesUp x) :
    engine.Resolves seed document x := by
  induction h with
  | own hp hx => exact ⟨_, _, _, hp, hx.resolves, .refl⟩
  | attached _ _ attaches ih => exact ih.attaches attaches

section

variable (uuids : engine.OnlyUuids)

include uuids

/-- A resource that is given no identity is kept under its key to the end of the run. -/
theorem get?_final_of_run (hx : (engine.course seed document).TakesUp x) (own : x.identity? = none)
    (h : outcome x.run x.state = (.ok r, t)) :
    ∃ iri, r.value = .uri iri ∧
      (engine.final seed document).cache.get? (x.key r.types) = some (.uri iri) := by
  have hdescribes := describes_of_resolves (resolves_of_takesUp hx)
  obtain ⟨hvariable, hglobal, -⟩ := uuids _ (hdescribes.mem_entities own)
  obtain ⟨call, hkeyed⟩ := Resolution.isKeyed_of_run hx.isNew own hvariable hglobal h
  obtain ⟨v, hv, hshape⟩ := hkeyed.kept hx.isNew h
  have hlater : KeptOn t (engine.final seed document) :=
    after_eq h ▸ (later_final_of_takesUp hx).rel allows_keptOn
  have hfinal := hlater _ v hv
  obtain ⟨iri, rfl⟩ := (keepsDrawn_final uuids).exists_uri hfinal
  exact ⟨iri, (Except.ok.inj hshape).symm, hfinal⟩

variable (apart : engine.DrawsApart seed document)

include apart

/-- In every state of a run, what is kept under different keys are different resources. -/
theorem ne_of_key_ne (hs : engine.Later seed document (engine.start seed) s) {key key' : String}
    {v v' : Value} (hv : s.cache.get? key = some v) (hv' : s.cache.get? key' = some v')
    (hkey : key ≠ key') : v.isUri ∧ v'.isUri ∧ v ≠ v' := by
  have hkept : KeptOn s (engine.final seed document) := (later_final hs).rel allows_keptOn
  have hv := hkept _ v hv
  have hv' := hkept _ v' hv'
  obtain ⟨iri, rfl⟩ := (keepsDrawn_final uuids).exists_uri hv
  obtain ⟨iri', rfl⟩ := (keepsDrawn_final uuids).exists_uri hv'
  exact ⟨rfl, rfl, fun h => hkey ((eq_iff_of_get?_final uuids apart hv hv').1 h)⟩

/-- Entities that are given no identity are one resource just if they have one key. -/
theorem value_eq_iff_key_eq (hx : (engine.course seed document).TakesUp x)
    (hy : (engine.course seed document).TakesUp y) (ownx : x.identity? = none) (owny : y.identity? = none)
    (h : outcome x.run x.state = (.ok r, t)) (h' : outcome y.run y.state = (.ok r', u)) :
    r.value = r'.value ↔ x.key r.types = y.key r'.types := by
  obtain ⟨iri, hiri, hkept⟩ := get?_final_of_run uuids hx ownx h
  obtain ⟨iri', hiri', hkept'⟩ := get?_final_of_run uuids hy owny h'
  rw [hiri, hiri']
  exact eq_iff_of_get?_final uuids apart hkept hkept'

/-- Attached entities of the same types are different resources. -/
theorem ne_of_attached (hx : (engine.course seed document).TakesUp x)
    (h : outcome x.run x.state = (.ok r, t)) {i j : Nat} {a b : Attached Resolved}
    (ha : r.additionals[i]? = some a) (hb : r.additionals[j]? = some b) (hij : i ≠ j)
    (htypes : a.entity.types.Perm b.entity.types) :
    a.entity.value.isUri ∧ b.entity.value.isUri ∧ a.entity.value ≠ b.entity.value := by
  have typed := (Resolution.succeeds_of_run hx.isNew h).types_ne
  obtain ⟨e, u, w, attaches, hrun⟩ := Resolution.exists_attaches_of_run hx.isNew h ha
  obtain ⟨e', u', w', attaches', hrun'⟩ := Resolution.exists_attaches_of_run hx.isNew h hb
  have hy := hx.attached typed attaches
  have hz := hx.attached typed attaches'
  obtain ⟨iri, hiri, -⟩ := get?_final_of_run uuids hy rfl hrun
  obtain ⟨iri', hiri', -⟩ := get?_final_of_run uuids hz rfl hrun'
  refine ⟨hiri ▸ rfl, hiri' ▸ rfl, fun heq => ?_⟩
  have hkey := (value_eq_iff_key_eq uuids apart hy hz rfl rfl hrun hrun').1 heq
  rw [Resolution.key, Resolution.key, Resolution.context_entering, Resolution.context_entering] at hkey
  exact cacheKey_additionalContext_ne hij htypes hkey

end

/-- Where every entity gets a fresh identifier from a source that counts, what has an identity of its own is
a resource of its own. In every state of a run, different keys stand for different resources. Entities of
the same types that are attached to one owner are different resources. And entities that are given no
identity are the same resource again just if they have the same key. -/
theorem distinct_resources (engine : Engine) (seed : List UInt8) (document : Xml.Document) {width : Nat}
    (uuids : engine.OnlyUuids) (counted : engine.settings.uuidWidth? = some width) :
    (∀ s, engine.Later seed document (engine.start seed) s → ∀ key key' v v',
      s.cache.get? key = some v → s.cache.get? key' = some v' → key ≠ key' →
        v.isUri ∧ v'.isUri ∧ v ≠ v') ∧
    ∀ x, (engine.course seed document).TakesUp x → ∀ r t, outcome x.run x.state = (.ok r, t) →
      (∀ (i j : Nat) a b, r.additionals[i]? = some a → r.additionals[j]? = some b → i ≠ j →
        a.entity.types.Perm b.entity.types →
          a.entity.value.isUri ∧ b.entity.value.isUri ∧ a.entity.value ≠ b.entity.value) ∧
      ∀ y, (engine.course seed document).TakesUp y → x.identity? = none → y.identity? = none →
        ∀ r' u, outcome y.run y.state = (.ok r', u) →
          (r.value = r'.value ↔ x.key r.types = y.key r'.types) := by
  have apart : engine.DrawsApart seed document := drawsApart_of_width counted
  refine ⟨fun s hs key key' v v' => ne_of_key_ne uuids apart hs, fun x hx r t h => ⟨?_, ?_⟩⟩
  · exact fun i j a b => ne_of_attached uuids apart hx h
  · exact fun y hy ownx owny r' u h' => value_eq_iff_key_eq uuids apart hx hy ownx owny h h'

/-! ## A town with two gates -/

def marketEntity : Entity :=
  ⟨["<urn:Market>"], some ⟨"UUID", []⟩, [], [], none, none⟩

/-- A mapping that describes a town with two gates, and its market: once merged into the town, and then
twice as something in it. -/
def marketEngine : Engine :=
  let gate : Attached Entity := ⟨"<urn:gate>", ⟨["<urn:Gate>"], some ⟨"UUID", []⟩, [], [], none, none⟩⟩
  let town : Entity := ⟨["<urn:Town>"], some ⟨"UUID", []⟩, [], [gate, gate], none, none⟩
  let link (relationship : String) : Link :=
    ⟨⟨[""], []⟩, ⟨none, [relationship], []⟩, ⟨"", ⟨marketEntity, none⟩⟩, none, false⟩
  ⟨⟨.builtin, [⟨⟨"/town", ⟨town, none⟩, none⟩, [link "MERGE", link "<urn:market>", link "<urn:fair>"], none,
    false⟩]⟩, .empty, none, { Settings.default with uuidWidth? := some 2 }⟩

def marketDocument : Xml.Document :=
  ⟨[.element ⟨none, "town"⟩ [] [] []]⟩

/-- An entity is resolved in a way that satisfies a test. -/
def resolvesTo (test : Resolution → Resolved → Bool) (x : Resolution) : Bool :=
  (outcome x.run x.state).1.toOption.any (test x)

theorem exists_of_resolvesTo {test : Resolution → Resolved → Bool} (h : resolvesTo test x = true) :
    ∃ r t, outcome x.run x.state = (.ok r, t) ∧ test x r = true := by
  rw [resolvesTo, Option.any_eq_true] at h
  obtain ⟨r, hr, htest⟩ := h
  exact ⟨r, _, Prod.ext (eq_ok_of_toOption hr) rfl, htest⟩

theorem eq_marketEntity_iff {e : Entity} : e = marketEntity ↔
    e.types = ["<urn:Market>"] ∧ e.generator? = some ⟨"UUID", []⟩ ∧ e.labels = [] ∧
      e.additionals.isEmpty ∧ e.variableName? = none ∧ e.globalName? = none := by
  cases e
  simp [marketEntity]

instance (e : Entity) : Decidable (e = marketEntity) :=
  decidable_of_iff _ eq_marketEntity_iff.symm

/-- The market is resolved for a link, with an identity or without one. -/
structure IsMarket (x : Resolution) (r : Resolved) (link : Nat) (merged : Bool) : Prop where
  entity_eq : x.entity = marketEntity
  link?_eq : x.place.link? = some link
  merged_eq : x.identity?.isSome = merged
  key_eq : x.key r.types = "/town[1]|urn:Market"

instance (x : Resolution) (r : Resolved) (link : Nat) (merged : Bool) :
    Decidable (IsMarket x r link merged) :=
  decidable_of_iff (x.entity = marketEntity ∧ x.place.link? = some link ∧ x.identity?.isSome = merged ∧
      x.key r.types = "/town[1]|urn:Market")
    ⟨fun ⟨he, hl, hm, hk⟩ => ⟨he, hl, hm, hk⟩, fun ⟨he, hl, hm, hk⟩ => ⟨he, hl, hm, hk⟩⟩

theorem onlyUuids_marketEngine : marketEngine.OnlyUuids := by
  decide +kernel

/-- The gates of the town are different resources, and the two markets in it are one, which is not the
town. -/
theorem distinct_resources_town :
    ∃ x y z r r' r'' t u w a b v v', (marketEngine.course [] marketDocument).TakesUp x ∧
      (marketEngine.course [] marketDocument).TakesUp y ∧ (marketEngine.course [] marketDocument).TakesUp z ∧
      outcome x.run x.state = (.ok r, t) ∧ outcome y.run y.state = (.ok r', u) ∧
      outcome z.run z.state = (.ok r'', w) ∧ r.additionals = [a, b] ∧
      a.entity.types = ["urn:Gate"] ∧ b.entity.types = ["urn:Gate"] ∧ a.entity.value ≠ b.entity.value ∧
      IsMarket y r' 2 false ∧ IsMarket z r'' 3 false ∧ r'.value = .uri "uuid:AD" ∧ r''.value = r'.value ∧
      (marketEngine.final [] marketDocument).cache.get? "/town[1]|urn:Town" = some v ∧
      (marketEngine.final [] marketDocument).cache.get? "/town[1]|urn:Market" = some v' ∧ v ≠ v' := by
  have hvisit : (visits 5 (marketEngine.parts marketDocument) (marketEngine.start [])).any (takesUpAll
      [resolvesTo fun x r => decide (x.key r.types = "/town[1]|urn:Town") && x.identity?.isNone &&
          decide (r.additionals.map (·.entity.types) = [["urn:Gate"], ["urn:Gate"]]),
        resolvesTo fun x r => decide (IsMarket x r 2 false) && r.value == .uri "uuid:AD",
        resolvesTo fun x r => decide (IsMarket x r 3 false)]) = true := by
    decide +kernel
  obtain ⟨scene, place, m, mappingGraph?, node, position, s₀, hentered, htests⟩ :=
    exists_of_takesUpAll hvisit
  obtain ⟨x, hx, htown⟩ := htests _ List.mem_cons_self
  obtain ⟨y, hy, hmarket⟩ := htests _ (List.mem_cons_of_mem _ List.mem_cons_self)
  obtain ⟨z, hz, hfair⟩ := htests _ (List.mem_cons_of_mem _ (List.mem_cons_of_mem _ List.mem_cons_self))
  obtain ⟨r, t, hr, htown⟩ := exists_of_resolvesTo htown
  obtain ⟨r', u, hr', hmarket⟩ := exists_of_resolvesTo hmarket
  obtain ⟨r'', w, hr'', hfair⟩ := exists_of_resolvesTo hfair
  simp only [Bool.and_eq_true, decide_eq_true_eq, beq_iff_eq, Option.isNone_iff_eq_none] at htown hmarket hfair
  obtain ⟨⟨hkey, ownx⟩, hgates⟩ := htown
  obtain ⟨hmarket, hvalue⟩ := hmarket
  obtain ⟨a, rest, hadditionals, ha, hrest⟩ := List.map_eq_cons_iff.1 hgates
  obtain ⟨b, rest, rfl, hb, hrest⟩ := List.map_eq_cons_iff.1 hrest
  obtain rfl := List.map_eq_nil_iff.1 hrest
  have hx := takesUp_of_interior hentered hx
  have hy := takesUp_of_interior hentered hy
  have hz := takesUp_of_interior hentered hz
  have owny : y.identity? = none := by simpa using hmarket.merged_eq
  have ownz : z.identity? = none := by simpa using hfair.merged_eq
  obtain ⟨hkeys, hresources⟩ := distinct_resources marketEngine [] marketDocument onlyUuids_marketEngine rfl
  obtain ⟨hattached, -⟩ := hresources x hx r t hr
  obtain ⟨-, -, hgates⟩ := hattached 0 1 a b (by rw [hadditionals]; rfl) (by rw [hadditionals]; rfl)
    Nat.zero_ne_one (by rw [ha, hb])
  obtain ⟨-, hsame⟩ := hresources z hz r'' w hr''
  have heq := (hsame y hy ownz owny r' u hr').2 (hfair.key_eq.trans hmarket.key_eq.symm)
  obtain ⟨iri, -, hkept⟩ := get?_final_of_run onlyUuids_marketEngine hx ownx hr
  obtain ⟨iri', -, hkept'⟩ := get?_final_of_run onlyUuids_marketEngine hy owny hr'
  rw [hkey] at hkept
  rw [hmarket.key_eq] at hkept'
  obtain ⟨-, -, hne⟩ := hkeys _ (later_final .refl) _ _ _ _ hkept hkept' (by decide)
  exact ⟨x, y, z, r, r', r'', t, u, w, a, b, .uri iri, .uri iri', hx, hy, hz, hr, hr', hr'', hadditionals,
    ha, hb, hgates, hmarket, hfair, hvalue, heq, hkept, hkept', hne⟩

/-- The market that is merged into the town has the same key as one beside it, and is another resource. -/
theorem merged_market_apart :
    marketEngine.OnlyUuids ∧ marketEngine.settings.uuidWidth? = some 2 ∧
      ∃ x y r r' t u, (marketEngine.course [] marketDocument).TakesUp x ∧
        (marketEngine.course [] marketDocument).TakesUp y ∧ outcome x.run x.state = (.ok r, t) ∧
        outcome y.run y.state = (.ok r', u) ∧ x.entity = y.entity ∧ x.key r.types = y.key r'.types ∧
        IsMarket x r 1 true ∧ IsMarket y r' 2 false ∧ r.value = .uri "uuid:AA" ∧
        r'.value = .uri "uuid:AD" := by
  have hvisit : (visits 5 (marketEngine.parts marketDocument) (marketEngine.start [])).any (takesUpAll
      [resolvesTo fun x r => decide (IsMarket x r 1 true) && r.value == .uri "uuid:AA",
        resolvesTo fun x r => decide (IsMarket x r 2 false) && r.value == .uri "uuid:AD"]) = true := by
    decide +kernel
  obtain ⟨scene, place, m, mappingGraph?, node, position, s₀, hentered, htests⟩ :=
    exists_of_takesUpAll hvisit
  obtain ⟨x, hx, hmerged⟩ := htests _ List.mem_cons_self
  obtain ⟨y, hy, hmarket⟩ := htests _ (List.mem_cons_of_mem _ List.mem_cons_self)
  obtain ⟨r, t, hr, hmerged⟩ := exists_of_resolvesTo hmerged
  obtain ⟨r', u, hr', hmarket⟩ := exists_of_resolvesTo hmarket
  simp only [Bool.and_eq_true, decide_eq_true_eq, beq_iff_eq] at hmerged hmarket
  obtain ⟨hmerged, hvalue⟩ := hmerged
  obtain ⟨hmarket, hvalue'⟩ := hmarket
  exact ⟨onlyUuids_marketEngine, rfl, x, y, r, r', t, u, takesUp_of_interior hentered hx,
    takesUp_of_interior hentered hy, hr, hr', hmerged.entity_eq.trans hmarket.entity_eq.symm,
    hmerged.key_eq.trans hmarket.key_eq.symm, hmerged, hmarket, hvalue, hvalue'⟩

end Engine

end Crosswalk
