import Crosswalk.Proofs.Growing
import Crosswalk.Proofs.PlainResolutions

/-!
# Seats

A key tells the roles of entities apart as far as their texts do: the number of an attached entity among
those beside it, and the number of an intermediate one. So entities at one node can only share a key if
the mapping has them in roles of one text, with types of one text. Such a seat of the mapping agrees
with another one of that look if both have one call; then a run keeps under every key what any
entity with that key would have made.
-/

namespace Crosswalk

open Crosswalk.Run (Resolution)
open Crosswalk.Xml (Location)

/-! ## Roles in keys -/

/-- Behind the role, a rest goes on with the owner or with the text of a literal, if at all. -/
theorem keyRest_tail (place : Place) (c : Context) (types : List String) :
    ∃ tail, (keyRest place c types).toList = c.role.keyText.toList ++ tail ∧
      (tail = [] ∨ (∃ more, tail = '@' :: more) ∨ ∃ more, tail = '-' :: 'l' :: more) := by
  refine ⟨(((c.discriminator?.map ("@" ++ ·)).getD "") ++
    (if isOwnLiteral types then literalKeyText place c else "")).toList, ?_, ?_⟩
  · simp [keyRest, String.toList_append]
  · cases c.discriminator? with
    | some owner => exact .inr (.inl ⟨_, by simp [String.toList_append]; rfl⟩)
    | none =>
      split
      · exact .inr (.inr ⟨_, by simp [literalKeyText, String.toList_append]; rfl⟩)
      · exact .inl rfl

/-- The text of the role that a rest begins with. -/
def roleTextOf : List Char → List Char
  | '-' :: 'A' :: rest => '-' :: 'A' :: rest.takeWhile Char.isDigit
  | '-' :: 'i' :: 'n' :: 't' :: rest => '-' :: 'i' :: 'n' :: 't' :: rest.takeWhile Char.isDigit
  | _ => []

theorem takeWhile_toDigits_append {k : Nat} {tail : List Char}
    (htail : tail.takeWhile Char.isDigit = []) :
    (Nat.toDigits 10 k ++ tail).takeWhile Char.isDigit = Nat.toDigits 10 k := by
  rw [List.takeWhile_append_of_pos
    fun x hx => Nat.isDigit_of_mem_toDigits (by decide) (by decide) hx, htail, List.append_nil]

theorem roleTextOf_keyRest (place : Place) (c : Context) (types : List String) :
    roleTextOf (keyRest place c types).toList = c.role.keyText.toList := by
  obtain ⟨tail, hrest, htail⟩ := keyRest_tail place c types
  have hdigits : tail.takeWhile Char.isDigit = [] := by
    rcases htail with rfl | ⟨more, rfl⟩ | ⟨more, rfl⟩ <;> rfl
  have hnone : roleTextOf tail = [] := by
    rcases htail with rfl | ⟨more, rfl⟩ | ⟨more, rfl⟩ <;> rfl
  rw [hrest]
  cases c.role with
  | additional k =>
    simp [Role.keyText, String.toList_append, roleTextOf, takeWhile_toDigits_append hdigits]
  | intermediate k =>
    simp [Role.keyText, String.toList_append, roleTextOf, takeWhile_toDigits_append hdigits]
  | _ => exact hnone

/-- Rests that are the same are of roles with one text. -/
theorem keyText_eq_of_keyRest_eq {place place' : Place} {c c' : Context} {types types' : List String}
    (h : keyRest place c types = keyRest place' c' types') : c.role.keyText = c'.role.keyText := by
  rw [← String.toList_inj, ← roleTextOf_keyRest place c types, h, roleTextOf_keyRest]

/-! ## Seats of a mapping -/

/-- What hangs off an entity, with the role in which it is resolved. -/
def Entity.attachedRoles (e : Entity) : List (Role × Entity) :=
  e.family.flatMap fun member => member.additionals.zipIdx.map fun a => (.additional a.2, a.1.entity)

/-- An entity in a role, and what hangs off it. -/
def Role.cast (role : Role) (e : Entity) : List (Role × Entity) :=
  (role, e) :: e.attachedRoles

/-- The entities that are resolved for a link in their roles. What is merged takes its value from the
domain. -/
def Link.roles (l : Link) : List (Role × Entity) :=
  if l.target.isMerge then l.range.target.entity.attachedRoles
  else l.target.entities.zipIdx.flatMap (fun e => Role.cast (.intermediate e.2) e.1) ++
    Role.cast .range l.range.target.entity

/-- The entities of a mapping that may have values of their own, in their roles. -/
def MappingDocument.roles (d : MappingDocument) : List (Role × Entity) :=
  (d.mappings.filter (!·.skip)).flatMap fun m =>
    Role.cast .domain m.domain.target.entity ++ (m.links.filter (!·.skip)).flatMap Link.roles

theorem Entity.mem_attachedRoles_of_getElem? {e : Entity} {a : Attached Entity} {k : Nat}
    (h : e.additionals[k]? = some a) : (.additional k, a.entity) ∈ e.attachedRoles :=
  List.mem_flatMap.2 ⟨e, e.mem_family_self, List.mem_map.2 ⟨(a, k), List.mk_mem_zipIdx_iff_getElem?.2 h, rfl⟩⟩

theorem Entity.attachedRoles_subset {e : Entity} {a : Attached Entity} (ha : a ∈ e.additionals) :
    a.entity.attachedRoles ⊆ e.attachedRoles := by
  intro r hr
  obtain ⟨member, hmember, hr⟩ := List.mem_flatMap.1 hr
  refine List.mem_flatMap.2 ⟨member, ?_, hr⟩
  rw [family_eq, List.mem_cons, mem_attachedFamilies]
  exact .inr ⟨a, ha, hmember⟩

theorem MappingDocument.mem_roles {d : MappingDocument} {m : Mapping} (hm : m ∈ d.mappings)
    (hskip : m.skip = false) {r : Role × Entity}
    (hr : r ∈ Role.cast .domain m.domain.target.entity ∨
      ∃ l ∈ m.links, l.skip = false ∧ r ∈ l.roles) : r ∈ d.roles := by
  refine List.mem_flatMap.2 ⟨m, List.mem_filter.2 ⟨hm, by simp [hskip]⟩, ?_⟩
  rcases hr with hr | ⟨l, hl, hlskip, hr⟩
  · exact List.mem_append_left _ hr
  · exact List.mem_append_right _
      (List.mem_flatMap.2 ⟨l, List.mem_filter.2 ⟨hl, by simp [hlskip]⟩, hr⟩)

namespace Engine

open Crosswalk.Run

variable {engine : Engine} {seed : List UInt8} {document : Xml.Document} {x y : Resolution}

/-- The entity that is resolved stands in the mapping in its role, with what hangs off it. -/
structure Seated (engine : Engine) (x : Resolution) : Prop where
  mem_roles : x.identity? = none → (x.context.role, x.entity) ∈ engine.mapping.roles
  attached_subset : x.entity.attachedRoles ⊆ engine.mapping.roles

theorem seated_of_cast (role : Role) (hrole : x.context.role = role)
    (h : ∀ r ∈ Role.cast role x.entity, r ∈ engine.mapping.roles) : engine.Seated x where
  mem_roles _ := hrole ▸ h _ List.mem_cons_self
  attached_subset r hr := h r (List.mem_cons_of_mem _ hr)

theorem Seated.attaches (h : engine.Seated x) (hy : x.Attaches y) : engine.Seated y := by
  cases hy with
  | @intro types value labels before after a resolved relationship s t u valued isUri labelled divided =>
    have hget : x.entity.additionals[before.length]? = some a := by simp [divided]
    refine ⟨fun _ => ?_, ?_⟩
    · rw [Resolution.context_entering]
      exact h.attached_subset (Entity.mem_attachedRoles_of_getElem? hget)
    · exact fun r hr => h.attached_subset (Entity.attachedRoles_subset (List.mem_of_getElem? hget) hr)

theorem seated_of_takes {p : Part} {s : RunState} (hp : engine.Enters seed document p s)
    (hx : p.Resolves s x) : engine.Seated x := by
  cases hx with
  | domain =>
    obtain ⟨-, ⟨hm, hskip⟩, -⟩ := Part.occursIn_of_enters hp
    refine seated_of_cast .domain ?_ fun r hr => MappingDocument.mem_roles hm hskip (.inl hr)
    rw [Resolution.context_entering]
    rfl
  | merge isMerge =>
    obtain ⟨-, ⟨hm, hskip⟩, -, hl, hlskip⟩ := Part.occursIn_of_enters hp
    refine ⟨by rintro ⟨⟩, fun r hr => ?_⟩
    refine MappingDocument.mem_roles hm hskip (.inr ⟨_, hl, hlskip, ?_⟩)
    rwa [Link.roles, if_pos isMerge]
  | @intermediate l joined node position before after entity ids s t divided earlier =>
    have hl := isOf_of_enters_path hp
    refine seated_of_cast (.intermediate before.length) ?_ fun r hr =>
      MappingDocument.mem_roles hl.mapping_mem hl.mapping_kept (.inr ⟨_, hl.link_mem, hl.link_kept, ?_⟩)
    · rw [Resolution.context_entering]
      rfl
    · rw [Link.roles, hl.isMerge_eq, if_neg Bool.false_ne_true]
      refine List.mem_append_left _ (List.mem_flatMap.2 ⟨(entity, before.length), ?_, hr⟩)
      exact List.mk_mem_zipIdx_iff_getElem?.2 (by simp [divided])
  | range =>
    have hl := isOf_of_enters_range hp
    refine seated_of_cast .range ?_ fun r hr =>
      MappingDocument.mem_roles hl.mapping_mem hl.mapping_kept (.inr ⟨_, hl.link_mem, hl.link_kept, ?_⟩)
    · rw [Resolution.context_entering]
      rfl
    · rw [Link.roles, hl.isMerge_eq, if_neg Bool.false_ne_true]
      exact List.mem_append_right _ hr

theorem seated_of_resolves (h : engine.Resolves seed document x) : engine.Seated x := by
  obtain ⟨p, s, y, hp, hy, hx⟩ := h
  induction hx with
  | refl => exact seated_of_takes hp hy
  | tail _ hz ih => exact ih.attaches hz

/-- The texts of the role and of the types of an entity, and its call. -/
structure Seat where
  roleText : String
  typesText : String
  call : GeneratorCall
  deriving DecidableEq

/-- The seats of the entities that have a call, and types with a meaning. -/
def seats (engine : Engine) : List Seat :=
  engine.mapping.roles.filterMap fun (role, e) => do
    let types ← (e.types.mapM engine.namespaces.expand).toOption
    let call ← e.generator?
    return ⟨role.keyText, typesText types, call⟩

/-- Seats that look the same have one call, and no types can be taken for others with a rest behind
them. -/
structure SeatsAgree (engine : Engine) : Prop where
  types : ∀ kind ∈ engine.kinds, engine.TypesApart kind.1
  calls : ∀ a ∈ engine.seats, ∀ b ∈ engine.seats, a.roleText = b.roleText → a.typesText = b.typesText →
    a.call = b.call

instance : Decidable engine.SeatsAgree :=
  decidable_of_iff ((∀ kind ∈ engine.kinds, engine.TypesApart kind.1) ∧ ∀ a ∈ engine.seats,
      ∀ b ∈ engine.seats, a.roleText = b.roleText → a.typesText = b.typesText → a.call = b.call)
    ⟨fun ⟨ht, hc⟩ => ⟨ht, hc⟩, fun ⟨ht, hc⟩ => ⟨ht, hc⟩⟩

theorem mem_seats {role : Role} {e : Entity} {types : List String} {call : GeneratorCall}
    (he : (role, e) ∈ engine.mapping.roles) (htypes : e.types.mapM engine.namespaces.expand = .ok types)
    (hcall : e.generator? = some call) : ⟨role.keyText, typesText types, call⟩ ∈ engine.seats :=
  List.mem_filterMap.2 ⟨_, he, by simp [htypes, hcall, Except.toOption]⟩

theorem seat_of_isKeyed {call : GeneratorCall} {types : List String}
    (h : engine.Resolves seed document x) (hx : x.IsKeyed call types) :
    ⟨x.context.role.keyText, typesText types, call⟩ ∈ engine.seats := by
  have htypes := hx.types_eq
  rw [(describes_of_resolves h).scene_eq] at htypes
  exact mem_seats ((seated_of_resolves h).mem_roles hx.identity?_eq) htypes hx.generator?_eq

/-- Where names can be told apart and seats agree, keys agree, if no call gets different positions at
one node. -/
theorem keysAgree_of_seatsAgree (valid : document.namesValid = true) (names : document.NamesApart)
    (seats : engine.SeatsAgree) (plain : engine.ResolvesPlain seed document)
    (positions : ∀ x y, engine.Resolves seed document x → engine.Resolves seed document y →
      y.context.node = x.context.node → y.context.position = x.context.position) :
    engine.KeysAgree seed document := by
  intro x y call call' types types' hx hy hkeyed hkeyed' hkey
  obtain ⟨hnode, htypes, hrest⟩ :=
    eq_of_key_eq valid names (seats.types _ (kind_of_isKeyed hx hkeyed)) hx hy hkeyed' hkey
  obtain rfl : call' = call := seats.calls _ (seat_of_isKeyed hy hkeyed') _ (seat_of_isKeyed hx hkeyed)
    (keyText_eq_of_keyRest_eq hrest) htypes
  have hdraws := (plain x hx).generator call' (Option.mem_def.2 hkeyed.generator?_eq)
  exact own_congr hdraws (describes_of_resolves hx).scene_eq (describes_of_resolves hy).scene_eq
    hnode (.inr (positions x y hx hy hnode))

/-! ## Positions of domain nodes -/

/-- The node is selected for the domain of a mapping, at this position. -/
def Numbers (engine : Engine) (document : Xml.Document) (m : Mapping) (node : Location)
    (position : Nat) : Prop :=
  ∃ nodes i, (engine.source document).select .root m.domain.sourceNode = .ok nodes ∧
    nodes[i]? = some node ∧ position = i + 1

/-- No node is selected twice. -/
theorem Numbers.unique {m : Mapping} {node : Location} {position position' : Nat}
    (h : engine.Numbers document m node position) (h' : engine.Numbers document m node position') :
    position = position' := by
  obtain ⟨nodes, i, hnodes, hi, rfl⟩ := h
  obtain ⟨nodes', j, hnodes', hj, rfl⟩ := h'
  obtain rfl : nodes = nodes' := Except.ok.inj (hnodes.symm.trans hnodes')
  have hnodup := (Source.ordered_select hnodes).nodup
  obtain ⟨hlt, -⟩ := List.getElem?_eq_some_iff.1 hi
  rw [(List.getElem?_inj hlt hnodup).1 (hi.trans hj.symm)]

theorem numbers_of_enters_domain {scene : Scene} {place : Place} {m : Mapping} {g? : Option String}
    {node : Location} {position : Nat} {s : RunState}
    (h : engine.Enters seed document (.domain scene place m g? node position) s) :
    engine.Numbers document m node position := by
  rcases opener_of_enters h with h | ⟨q, v, parts, t, hq, hopens, hopened, hleads⟩
  · cases h
  cases hopens with
  | domain =>
    obtain ⟨rfl, -⟩ := Part.occursIn_of_enters hq
    obtain ⟨graph?, nodes, -, hnodes, -, -, rfl⟩ := openMapping_ok hopened
    obtain ⟨i, b, hb, ⟨⟩⟩ := Part.mem_domains hleads.mem
    exact ⟨nodes, i, hnodes, hb, Nat.add_comm 1 i⟩

/-- A link is followed from the node and the position of a domain. -/
theorem numbers_of_enters_link {scene : Scene} {place : Place} {m : Mapping} {node : Location}
    {id : Nat} {g? : Option String} {l : Link} {s : RunState}
    (h : engine.Enters seed document (.link scene place m node id g? l) s) :
    engine.Numbers document m (s.contexts.get id).node (s.contexts.get id).position := by
  rcases opener_of_enters h with h | ⟨q, v, parts, t, hq, hopens, hopened, hleads⟩
  · cases h
  cases hopens with
  | link scene place m mappingGraph? node position k id domainGraph? l =>
    rcases openDomain_ok hopened with ⟨-, rfl, -⟩ | ⟨-, d, u, graph?, w, hd, huri, hgraph, hlink, rfl⟩
    · cases hleads.mem
    obtain ⟨_, _, _, -, ⟨⟩⟩ := Part.mem_links hleads.mem
    have hreads := (Resolution.reads_of_run (Resolution.isNew_entering (Context.isFresh_fresh ..) _ _ _) hd).1
    have hgraphReads := (domainGraph_reads _ m mappingGraph? node position).outcome hgraph
    have hgrows : Grows w s := IsTrans.trans _ _ _ ((link_moves respects_grows.toCarries _ _).outcome hlink)
      (grows_of_leads (by simp [Part.depth]) hopened hleads)
    obtain ⟨-, hnode, hposition⟩ : 0 < s.contexts.size ∧ (s.contexts.get 0).node = node ∧
        (s.contexts.get 0).position = position :=
      ((hreads.extends.trans hgraphReads.extends).trans hgrows.contexts).of_push
    rw [hnode, hposition]
    exact numbers_of_enters_domain hq

/-- Where all links merge, everything is resolved at the node and the position of a domain. -/
theorem numbers_of_resolves
    (merges : ∀ m ∈ engine.mapping.mappings, ∀ l ∈ m.links, l.target.isMerge = true)
    (h : engine.Resolves seed document x) :
    ∃ m ∈ engine.mapping.mappings, engine.Numbers document m x.context.node x.context.position := by
  obtain ⟨p, s, y, hp, hy, hx⟩ := h
  induction hx with
  | refl =>
    cases hy with
    | domain =>
      obtain ⟨-, hm, -⟩ := Part.occursIn_of_enters hp
      rw [Resolution.context_entering]
      exact ⟨_, hm.1, numbers_of_enters_domain hp⟩
    | merge =>
      obtain ⟨-, hm, -⟩ := Part.occursIn_of_enters hp
      rw [Resolution.merging, Resolution.context_entering]
      exact ⟨_, hm.1, numbers_of_enters_link hp⟩
    | intermediate =>
      have hl := isOf_of_enters_path hp
      cases hl.isMerge_eq.symm.trans (merges _ hl.mapping_mem _ hl.link_mem)
    | range =>
      have hl := isOf_of_enters_range hp
      cases hl.isMerge_eq.symm.trans (merges _ hl.mapping_mem _ hl.link_mem)
  | tail _ hz ih =>
    cases hz
    rw [Resolution.context_entering]
    exact ih

end Engine

end Crosswalk
