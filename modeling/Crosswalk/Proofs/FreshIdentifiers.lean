import Crosswalk.Proofs.DrawnIdentifiers
import Crosswalk.Proofs.LinkedBranches

/-!
# Whose an intermediate resource is

Where every entity gets a fresh identifier, two entities are given one resource exactly if they share a
key. The key of an intermediate entity speaks of its link and of the node of its path, and not of the
domain node from which the path was followed. So the branches of a link share their intermediate resource
exactly if they go through one path node, and that resource belongs to one domain resource only as
long as no path node is reached from two domain nodes.
-/

namespace Crosswalk

open Crosswalk.Xml (Location)

namespace Run

variable {s t : RunState}

/-! ## Along a run -/

theorem respects_keptOn : Respects KeptOn :=
  respects_of_sameKept fun _ _ h key v hv => by rwa [h]

/-- The source stays the same, and if what is kept was drawn before, it is so afterwards. -/
structure DrawsOn (s t : RunState) : Prop where
  uri_eq : t.uuids.uri = s.uuids.uri
  keeps : KeepsDrawn s → KeepsDrawn t

instance : IsPreorder RunState DrawsOn where
  refl _ := ⟨rfl, id⟩
  trans _ _ _ h h' := ⟨h'.uri_eq.trans h.uri_eq, fun hs => h'.keeps (h.keeps hs)⟩

theorem respects_drawsOn : Respects DrawsOn where
  generated scene call node position s := by
    have hdraws := generate_draws scene call node position s
    obtain ⟨uuids, hu⟩ := after_generate scene call node position s
    exact ⟨hdraws.uri_eq, fun h => h.draws (by rw [hu]) hdraws⟩
  associated _ _ := ⟨rfl, id⟩
  entered _ _ _ := ⟨rfl, id⟩
  noted _ _ _ _ := ⟨rfl, id⟩
  committed batch s := by
    rw [after, outcome_commit]
    split <;> exact ⟨rfl, id⟩
  counted _ _ := ⟨rfl, id⟩
  joined _ _ := ⟨rfl, id⟩
  reported _ _ := ⟨rfl, id⟩

namespace Resolution

variable {x : Resolution} {r : Resolved} {call : GeneratorCall} {types : List String}

/-- The value of an entity with a call is kept from then on. -/
theorem IsKeyed.kept (hkeyed : x.IsKeyed call types) (hx : x.IsNew)
    (h : outcome x.run x.state = (.ok r, t)) :
    ∃ v, t.cache.get? (x.key types) = some v ∧ v.shape types = .ok r.value := by
  obtain ⟨-, u, v, w, hvalued, hlabelled, hbelonging, rfl⟩ := succeeds_of_run hx h
  obtain ⟨-, made, hshape, hmade⟩ := hkeyed.valued_ok hvalued
  have hkept : u.cache.get? (x.key types) = some made := by
    rcases hmade with ⟨hkept, hu⟩ | ⟨-, -, hu⟩
    · rw [hu, hkept]
    · rw [hu, Table.get?_insert, if_pos rfl]
  have huv := ((labelled_reads (n := 0) x r.value).outcome hlabelled).keptOn
  have hvw := (after_eq hbelonging ▸ belonging_reads x r.value v).keptOn
  exact ⟨made, hvw _ _ (huv _ _ hkept), hshape⟩

/-- An entity whose generator is that of fresh identifiers only ever keeps what was just drawn. -/
theorem valued_drawsOn (hvariable : x.entity.variableName? = none)
    (hglobal : x.entity.globalName? = none)
    (hfresh : ∀ call ∈ x.entity.generator?, BuiltIn.ofName? call.name = some .freshUuid) :
    DrawsOn x.state (after x.valued x.state) := by
  rcases hidentity : x.identity? with _ | identity
  · rcases hts : x.entity.types.mapM x.scene.namespaces.expand with e | types
    · rw [valued, after_bind, expandAll, hts]
      exact refl x.state
    rw [after_valued hts hidentity, entityValue, hglobal, hvariable]
    rcases hgenerator : x.entity.generator? with _ | call
    · exact refl x.state
    rcases hkept : x.state.cache.get? (x.key types) with _ | kept
    · rw [after, outcome_keyedValue_of_new hkept,
        outcome_generate_fresh (hfresh call (Option.mem_def.2 hgenerator))]
      exact ⟨UuidSource.uri_advance _, fun hs => hs.insert⟩
    · rw [after, outcome_keyedValue_of_kept hkept]
      exact refl x.state
  · rw [after_valued_of_identity hidentity]
    exact refl x.state

end Resolution

end Run

namespace Engine

open Crosswalk.Run

variable {engine : Engine} {seed : List UInt8} {document : Xml.Document} {p : Part} {s t : RunState}

/-- Every entity gets a fresh identifier, and none names a variable. -/
def OnlyUuids (engine : Engine) : Prop :=
  ∀ e ∈ engine.mapping.entities, e.variableName? = none ∧ e.globalName? = none ∧
    ∀ call ∈ e.generator?, BuiltIn.ofName? call.name = some .freshUuid

instance : Decidable engine.OnlyUuids :=
  inferInstanceAs (Decidable (∀ e ∈ engine.mapping.entities, _))

/-- What a run keeps is kept to its end. -/
theorem keptOn_of_enters (h : engine.Enters seed document p s) :
    KeptOn s (engine.final seed document) := by
  rw [final_eq]
  refine (keptAlong respects_keptOn (fun _ _ _ hv => hv) fun y _ => ?_).rel_end h
  exact (Resolution.valued_reads (n := 0) y y.state).keptOn

theorem drawsOn_final (uuids : engine.OnlyUuids) :
    DrawsOn (engine.start seed) (engine.final seed document) := by
  refine rel_final respects_drawsOn (fun _ => ⟨rfl, id⟩) fun y hy => ?_
  rcases hidentity : y.identity? with _ | identity
  · obtain ⟨hvariable, hglobal, hfresh⟩ := uuids _ ((describes_of_resolves hy).mem_entities hidentity)
    exact Resolution.valued_drawsOn hvariable hglobal hfresh
  · rw [Resolution.after_valued_of_identity hidentity]
    exact refl y.state

/-- Nothing is kept at the start, so all that is kept in the end was drawn. -/
theorem keepsDrawn_final (uuids : engine.OnlyUuids) : KeepsDrawn (engine.final seed document) :=
  (drawsOn_final uuids).keeps ⟨fun _ => 0, fun key v hv => by simp [start, RunState.initial] at hv⟩

/-- No two of the identifiers that a run draws are the same. -/
def DrawsApart (engine : Engine) (seed : List UInt8) (document : Xml.Document) : Prop :=
  (engine.uuidSource seed).IsApart (engine.final seed document).uuids.drawn

/-- Identifiers that are counted are all different. -/
theorem drawsApart_of_width {width : Nat} (h : engine.settings.uuidWidth? = some width) :
    engine.DrawsApart seed document := by
  rw [DrawsApart, uuidSource, h]
  exact UuidSource.isApart_alphabetic width 0 _

theorem isApart_final (uuids : engine.OnlyUuids) (apart : engine.DrawsApart seed document) :
    (engine.final seed document).uuids.IsApart (engine.final seed document).uuids.drawn := by
  intro i hi j hj h
  have huri : (engine.final seed document).uuids.uri = (engine.uuidSource seed).uri :=
    (drawsOn_final uuids).uri_eq
  rw [huri] at h
  exact apart i hi j hj h

/-- What is kept in the end under two keys is the same just if the keys are. -/
theorem eq_iff_of_get?_final (uuids : engine.OnlyUuids) (apart : engine.DrawsApart seed document)
    {key key' : String} {v v' : Value} (hv : (engine.final seed document).cache.get? key = some v)
    (hv' : (engine.final seed document).cache.get? key' = some v') : v = v' ↔ key = key' := by
  constructor
  · exact (keepsDrawn_final uuids).eq_of_get? (isApart_final uuids apart) hv hv'
  · rintro rfl
    exact Option.some.inj (hv.symm.trans hv')

/-! ## Entities under their keys -/

/-- In a context stands what an entity was resolved to, and the value is kept under the key that the
entity has for a role at a place. -/
structure KeptFor (engine : Engine) (document : Xml.Document) (place : Place) (role : Role) (e : Entity)
    (id : Nat) (r : Resolved) (s : RunState) : Prop where
  resolved?_eq : (s.contexts.get id).resolved? = some r
  hasNode : document.HasNode (s.contexts.get id).node
  types_eq : e.types.mapM engine.namespaces.expand = .ok r.types
  kept : ∃ v, v.shape r.types = .ok r.value ∧ s.cache.get? (cacheKey (engine.source document) place
    (.fresh role (s.contexts.get id).node (s.contexts.get id).position none) r.types) = some v

section

variable {place : Place} {role : Role} {e : Entity} {id : Nat} {r : Resolved}

theorem KeptFor.grows (h : engine.KeptFor document place role e id r s) (hst : Grows s t) :
    engine.KeptFor document place role e id r t := by
  have hid := Contexts.lt_size_of_resolved? h.resolved?_eq
  obtain ⟨v, hshape, hv⟩ := h.kept
  rcases hst with ⟨hcache, hcontexts, -, -⟩
  refine ⟨hcontexts.resolved id r h.resolved?_eq, ?_, h.types_eq, v, hshape, ?_⟩
  · exact (hcontexts.node id hid).symm ▸ h.hasNode
  · rw [hcontexts.node id hid, hcontexts.position id hid]
    exact hcache _ v hv

/-- An entity that gets a fresh identifier is kept under its key. -/
theorem keptFor_of_run (uuids : engine.OnlyUuids) {x : Resolution}
    (hx : engine.Resolves seed document x) (hidentity : x.identity? = none)
    (howner : x.context.discriminator? = none) (h : outcome x.run x.state = (.ok r, t)) :
    engine.KeptFor document x.place x.context.role x.entity x.id r t := by
  have hdescribes := describes_of_resolves hx
  obtain ⟨hvariable, hglobal, -⟩ := uuids _ (hdescribes.mem_entities hidentity)
  obtain ⟨call, hkeyed⟩ := Resolution.isKeyed_of_run hx.isNew hidentity hvariable hglobal h
  obtain ⟨v, hv, hshape⟩ := hkeyed.kept hx.isNew h
  obtain ⟨hreads, hnoted⟩ := Resolution.reads_of_run hx.isNew h
  have htypes := hkeyed.types_eq
  have hkey : x.key r.types = cacheKey (engine.source document) x.place
      (.fresh x.context.role x.context.node x.context.position none) r.types := by
    rw [Resolution.key, cacheKey, cacheKey, howner, hdescribes.scene_eq]
    rfl
  rw [hdescribes.scene_eq] at htypes
  have hnode := hreads.extends.node _ hx.isNew.live
  refine ⟨hnoted, hnode.symm ▸ hdescribes.hasNode, htypes, v, hshape, ?_⟩
  rw [hnode, hreads.extends.position _ hx.isNew.live]
  exact hkey ▸ hv

theorem keptFor_of_enters_link (uuids : engine.OnlyUuids) {scene : Scene} {m : Mapping} {node : Location}
    {domainGraph? : Option String} {l : Link}
    (h : engine.Enters seed document (.link scene place m node id domainGraph? l) s) :
    ∃ d, d.value.isUri ∧
      engine.KeptFor document { place with link? := none } .domain m.domain.target.entity id d s := by
  obtain ⟨position, v, d, u, w, t, hx, hd, huri, hgraph, hlink, rfl, hgrows⟩ := domain_of_enters_link h
  have hkept := keptFor_of_run uuids hx rfl (by rw [Resolution.context_entering]; rfl) hd
  rw [Resolution.context_entering] at hkept
  have hwt : Grows w t := (link_moves respects_grows.toCarries _ _).outcome hlink
  exact ⟨d, huri, ((hkept.grows hgraph.grows).grows hwt).grows hgrows⟩

/-- The first intermediate entity of a path is kept under the node and the position of the path. -/
theorem keptFor_of_intermediates (uuids : engine.OnlyUuids) {l : LinkSetting} {joined : Bool}
    {node : Location} {position : Nat} {ids : List Nat}
    (hpath : engine.Enters seed document (.path l joined node position) s)
    (h : outcome (intermediates l s.contexts.size node position 0 l.link.target.entities)
      (s.enter (.fresh .path node position (some l.domain))) = (.ok (id :: ids), t)) :
    ∃ e v, l.link.target.entities.head? = some e ∧ v.value.isUri ∧
      engine.KeptFor document l.place (.intermediate 0) e id v t ∧
      (t.contexts.get id).node = node ∧ (t.contexts.get id).position = position := by
  cases hentities : l.link.target.entities with
  | nil =>
    rw [hentities] at h
    cases h
  | cons e rest =>
    rw [hentities, intermediates_cons] at h
    obtain ⟨_, t₁, h₁, h⟩ := bind_ok.1 h
    rw [outcome_enter] at h₁
    cases h₁
    obtain ⟨v, t₂, h₂, h⟩ := bind_ok.1 h
    have hv := resolveIntermediate_ok.1 h₂
    split at h
    next huri =>
      obtain ⟨others, t₃, hothers, h⟩ := bind_ok.1 h
      cases h
      have hx : engine.Resolves seed document
          (.entering l.scene l.place (.fresh (.intermediate 0) node position (some s.contexts.size)) none e
            (s.enter (.fresh .path node position (some l.domain)))) :=
        ⟨_, s, _, hpath, @Part.Resolves.intermediate l joined node position [] rest e [] s _ hentities
          (outcome_pure [] _), .refl⟩
      have hkept := keptFor_of_run uuids hx rfl (by rw [Resolution.context_entering]; rfl) hv
      rw [Resolution.context_entering] at hkept
      have hreads := after_eq hothers ▸
        (intermediates_meets l s.contexts.size node position 1 rest t₂).1
      have hextends := (Resolution.reads_of_run hx.isNew hv).1.extends.trans hreads.extends
      exact ⟨e, v, rfl, huri, hkept.grows hreads.grows, hextends.of_push.2⟩
    next => cases h

/-- What is kept for a range: the domain entity at the domain node, and the first intermediate entity
at the node of the path. -/
theorem keptFor_of_enters_range (uuids : engine.OnlyUuids) {l : LinkSetting} {path : Nat}
    {ids : List Nat} {node : Location} {position : Nat}
    (h : engine.Enters seed document (.range l path (id :: ids) node position) s) :
    (∃ d, d.value.isUri ∧ engine.KeptFor document { l.place with link? := none } .domain
      l.mapping.domain.target.entity l.domain d s) ∧
    ∃ e v, l.link.target.entities.head? = some e ∧ v.value.isUri ∧
      engine.KeptFor document l.place (.intermediate 0) e id v s ∧
      (s.contexts.get id).node = (s.contexts.get path).node ∧
      (s.contexts.get id).position = (s.contexts.get path).position := by
  obtain ⟨joined, pathNode, pathPosition, v, k, nodes, t, hpath, hvt, rfl, hids, -, hts⟩ :=
    path_of_enters_range h
  obtain ⟨domainNode, u, hlink, -, huv⟩ := link_of_enters_path hpath
  obtain ⟨d, huri, hd⟩ := keptFor_of_enters_link uuids hlink
  obtain ⟨e, w, he, hwuri, hw, hnode, hposition⟩ := keptFor_of_intermediates uuids hpath hids
  have hreads := after_eq hids ▸ (intermediates_meets l v.contexts.size pathNode pathPosition 0
    l.link.target.entities (v.enter (.fresh .path pathNode pathPosition (some l.domain)))).1
  obtain ⟨hlive, hpathNode, hpathPosition⟩ := hreads.extends.of_push
  have hid := Contexts.lt_size_of_resolved? hw.resolved?_eq
  refine ⟨⟨d, huri, ((hd.grows huv).grows hvt).grows hts⟩, e, w, he, hwuri, hw.grows hts, ?_, ?_⟩
  · rw [hts.contexts.node _ hid, hts.contexts.node _ hlive, hnode, hpathNode]
    rfl
  · rw [hts.contexts.position _ hid, hts.contexts.position _ hlive, hposition, hpathPosition]
    rfl

end

/-! ## Shared identifiers -/

/-- The contexts of one entity give it one key. -/
def KeyAgrees (engine : Engine) (document : Xml.Document) (types : List String) (c c' : Context) : Prop :=
  (engine.source document).path c.node = (engine.source document).path c'.node ∧
    (isOwnLiteral types = true → c.position = c'.position)

/-- Two resolutions of one entity have one value just if their contexts give it one key. -/
theorem KeptFor.value_eq_iff (uuids : engine.OnlyUuids) (apart : engine.DrawsApart seed document)
    {place : Place} {role : Role} {e : Entity} {id id' : Nat} {r r' : Resolved}
    (h : engine.KeptFor document place role e id r s) (h' : engine.KeptFor document place role e id' r' t)
    (hs : KeptOn s (engine.final seed document)) (ht : KeptOn t (engine.final seed document)) :
    r.value = r'.value ↔
      engine.KeyAgrees document r.types (s.contexts.get id) (t.contexts.get id') := by
  obtain ⟨v, hshape, hv⟩ := h.kept
  obtain ⟨v', hshape', hv'⟩ := h'.kept
  have htypes : r'.types = r.types := Except.ok.inj (h'.types_eq.symm.trans h.types_eq)
  rw [htypes] at hshape' hv'
  have hv := hs _ v hv
  have hv' := ht _ v' hv'
  have hkeeps : KeepsDrawn (engine.final seed document) := keepsDrawn_final uuids
  obtain ⟨iri, rfl⟩ := hkeeps.exists_uri hv
  obtain ⟨iri', rfl⟩ := hkeeps.exists_uri hv'
  have hvalue : Value.uri iri = r.value := Except.ok.inj hshape
  have hvalue' : Value.uri iri' = r'.value := Except.ok.inj hshape'
  rw [← hvalue, ← hvalue', KeyAgrees, ← cacheKey_fresh_eq_iff]
  exact eq_iff_of_get?_final uuids apart hv hv'

end Engine

end Crosswalk
