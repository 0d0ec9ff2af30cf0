import Crosswalk.Proofs.FreshIdentifiers

/-!
# Shared intermediate resources

Two branches of one link go through one intermediate resource exactly if their path nodes have one path,
and start from one domain resource exactly if their domain nodes have. Nothing relates the two: a
link that leads from several domain nodes to one path node attaches its intermediate resource to all of
their resources.
-/

namespace Crosswalk

open Crosswalk.Rdf (Statement)
open Crosswalk.Xml (Location)

namespace Engine

open Crosswalk.Run

variable {engine : Engine} {seed : List UInt8} {document : Xml.Document}

/-- A range is linked, for which a first intermediate entity is attached to a domain entity. -/
structure Attaches (engine : Engine) (seed : List UInt8) (document : Xml.Document) (l : LinkSetting)
    (path : Nat) (d v : Resolved) (s t : RunState) : Prop where
  step : ∃ id ids node position, engine.Enters seed document (.range l path (id :: ids) node position) s ∧
    outcome (linkRange l path (id :: ids) node position) s = (.ok (), t) ∧
    (s.contexts.get id).resolved? = some v
  counted : t.counters.rangesLinked ≠ s.counters.rangesLinked
  domain_eq : (s.contexts.get l.domain).resolved? = some d

section

variable {l l' : LinkSetting} {path path' : Nat} {d d' v v' : Resolved} {s s' t t' : RunState}

/-- The first intermediate entity hangs off the domain entity by the first property of the link. -/
theorem Attaches.holds (valid : engine.validate = .ok ())
    (h : engine.Attaches seed document l path d v s t) :
    ∃ properties property, l.link.target.relationships.mapM engine.namespaces.expand = .ok properties ∧
      properties.head? = some property ∧
      t.graph.Holds (· = ⟨d.value.text, property, v.value, l.linkGraph?⟩) := by
  obtain ⟨⟨id, ids, node, position, hentered, hlinked, hv⟩, hcounted, hd⟩ := h
  obtain ⟨⟨d', hd', -⟩, -, vs, hvs, htracks⟩ := tracks_of_enters_range hentered
  obtain rfl : d = d' := Option.some.inj (hd.symm.trans hd'.resolved?_eq)
  have hl := isOf_of_enters_range hentered
  have hscene : l.scene.namespaces = engine.namespaces := congrArg Scene.namespaces hl.scene_eq
  have hlength := relationships_length_of_validate valid hl
  rw [hvs.length_eq] at hlength
  obtain ⟨hcount, -⟩ | ⟨-, r, properties, u, -, hproperties, hgains⟩ :=
    gains_of_linkRange hd' htracks hlength hlinked
  · exact absurd hcount hcounted
  rw [hscene] at hproperties
  rw [(mapM_eq_ok_iff.1 hproperties).length_eq] at hlength
  obtain ⟨property, rest, rfl⟩ := List.exists_cons_of_length_eq_add_one hlength
  refine ⟨_, property, hproperties, rfl, fun st hst => hgains.holds st ?_⟩
  cases htracks with
  | cons hfirst _ =>
    obtain rfl := Option.some.inj (hv.symm.trans hfirst.resolved?_eq)
    exact .inr (.inr (.inr ⟨0, d.value, property, v.value, rfl, rfl, rfl, hst⟩))

/-- Both entities are kept, the domain entity at the domain node and the intermediate one at the path
node. -/
theorem Attaches.keptFor (uuids : engine.OnlyUuids) (h : engine.Attaches seed document l path d v s t) :
    engine.NumbersLink l.place l.mapping l.link ∧ KeptOn s (engine.final seed document) ∧
      engine.KeptFor document { l.place with link? := none } .domain l.mapping.domain.target.entity
        l.domain d s ∧
      ∃ e id, l.link.target.entities.head? = some e ∧
        engine.KeptFor document l.place (.intermediate 0) e id v s ∧
        (s.contexts.get id).node = (s.contexts.get path).node ∧
        (s.contexts.get id).position = (s.contexts.get path).position := by
  obtain ⟨⟨id, ids, node, position, hentered, -, hv⟩, -, hd⟩ := h
  obtain ⟨⟨d', -, hdkept⟩, e, v', he, -, hvkept, hpath⟩ := keptFor_of_enters_range uuids hentered
  obtain rfl := Option.some.inj (hd.symm.trans hdkept.resolved?_eq)
  obtain rfl := Option.some.inj (hv.symm.trans hvkept.resolved?_eq)
  exact ⟨numbersLink_of_enters_range hentered, keptOn_of_enters hentered, hdkept, e, id, he, hvkept, hpath⟩

/-- Where names can be told apart, contexts that give one key are at one node. -/
theorem keyAgrees_iff_of_namesApart (valid : document.namesValid = true) (names : document.NamesApart)
    {types : List String} (hliteral : isOwnLiteral types = false) {c c' : Context}
    (hc : document.HasNode c.node) (hc' : document.HasNode c'.node) :
    engine.KeyAgrees document types c c' ↔ c.node = c'.node := by
  rw [KeyAgrees, hliteral]
  constructor
  · rintro ⟨hpath, -⟩
    exact Xml.Document.eq_of_structuralPath_eq valid names hc hc' hpath
  · exact fun hnode => ⟨by rw [hnode], Bool.noConfusion⟩

/-- For a mapping in which every entity gets a fresh identifier, a branch of a link attaches its first
intermediate resource to its domain resource. Two branches of the link have one intermediate resource just if
their path nodes have one path, and one domain resource just if their domain nodes have one; for entities that
have the types of literals the position counts as well. So no two domain resources share the intermediate
resource just as long as no path node is reached from two domain nodes. -/
theorem shares_intermediate_iff (valid : engine.validate = .ok ()) (uuids : engine.OnlyUuids)
    (apart : engine.DrawsApart seed document) (h : engine.Attaches seed document l path d v s t)
    (h' : engine.Attaches seed document l' path' d' v' s' t') (same : l.place = l'.place) :
    (∃ properties property, l.link.target.relationships.mapM engine.namespaces.expand = .ok properties ∧
      properties.head? = some property ∧
      t.graph.Holds (· = ⟨d.value.text, property, v.value, l.linkGraph?⟩) ∧
      t'.graph.Holds (· = ⟨d'.value.text, property, v'.value, l'.linkGraph?⟩)) ∧
    (v.value = v'.value ↔
      engine.KeyAgrees document v.types (s.contexts.get path) (s'.contexts.get path')) ∧
    (d.value = d'.value ↔
      engine.KeyAgrees document d.types (s.contexts.get l.domain) (s'.contexts.get l'.domain)) ∧
    (document.namesValid = true → document.NamesApart → isOwnLiteral v.types = false →
      isOwnLiteral d.types = false →
      ((v.value = v'.value → d.value = d'.value) ↔
        ((s.contexts.get path).node = (s'.contexts.get path').node →
          (s.contexts.get l.domain).node = (s'.contexts.get l'.domain).node))) := by
  obtain ⟨hnumbers, hs, hd, e, id, he, hv, hnode, hposition⟩ := h.keptFor uuids
  obtain ⟨hnumbers', hs', hd', e', id', he', hv', hnode', hposition'⟩ := h'.keptFor uuids
  rw [← same] at hnumbers' hd' hv'
  obtain ⟨hmapping, hlink⟩ := hnumbers.unique hnumbers'
  rw [← hmapping] at hd'
  obtain rfl : e = e' := by
    rw [hlink, he'] at he
    exact (Option.some.inj he).symm
  have hvalues : v.value = v'.value ↔
      engine.KeyAgrees document v.types (s.contexts.get path) (s'.contexts.get path') := by
    rw [hv.value_eq_iff uuids apart hv' hs hs', KeyAgrees, KeyAgrees, hnode, hposition, hnode', hposition']
  have hdomains := hd.value_eq_iff uuids apart hd' hs hs'
  refine ⟨?_, hvalues, hdomains, fun valid names hvtypes hdtypes => ?_⟩
  · obtain ⟨properties, property, hproperties, hfirst, hholds⟩ := h.holds valid
    obtain ⟨properties', property', hproperties', hfirst', hholds'⟩ := h'.holds valid
    rw [← hlink, hproperties] at hproperties'
    obtain rfl := Except.ok.inj hproperties'
    obtain rfl := Option.some.inj (hfirst.symm.trans hfirst')
    exact ⟨properties, property, hproperties, hfirst, hholds, hholds'⟩
  · rw [hvalues, hdomains, keyAgrees_iff_of_namesApart valid names hvtypes (hnode ▸ hv.hasNode)
      (hnode' ▸ hv'.hasNode), keyAgrees_iff_of_namesApart valid names hdtypes hd.hasNode hd'.hasNode]

end

/-! ## Orders of one customer -/

/-- A mapping that leads from the orders of a shop through a purchase to what they are related to. -/
def orderEngine (relation range : String) : Engine :=
  let entity (type : String) : Entity := ⟨[type], some ⟨"UUID", []⟩, [], [], none, none⟩
  let link : Link :=
    ⟨⟨[relation], []⟩, ⟨none, ["<urn:by>", "<urn:of>"], [entity "<urn:Purchase>"]⟩,
      ⟨range, ⟨entity "<urn:Related>", none⟩⟩, none, false⟩
  ⟨⟨.builtin, [⟨⟨"/shop/order", ⟨entity "<urn:Order>", none⟩, none⟩, [link], none, false⟩]⟩,
    .empty, none, { Settings.default with uuidWidth? := some 2 }⟩

/-- Two orders of one customer, of one item each. -/
def ordersDocument : Xml.Document :=
  let element (name : String) (attributes : List Xml.Attribute) (content : List Xml.Content) :
      Xml.Content :=
    .element ⟨none, name⟩ [] attributes content
  let order := element "order" [⟨⟨none, "for"⟩, "1"⟩] [element "item" [] [element "price" [] []]]
  ⟨[element "shop" [] [element "customer" [⟨⟨none, "id"⟩, "1"⟩] [], order, order]]⟩

def orderNodes : List Location :=
  [.ofPath [0, 1], .ofPath [0, 2]]

section

variable {relation range : String}

theorem walk_orders : XPath.walk ordersDocument .builtin
    [⟨.child, .name none "shop", []⟩, ⟨.child, .name none "order", []⟩] [.root] = .ok orderNodes := by
  have hshop : XPath.gather (XPath.Step.from ordersDocument .builtin
      ⟨.child, .name none "shop", []⟩) [.root] = .ok [.ofPath [0]] := by
    decide +kernel
  have horder : XPath.gather (XPath.Step.from ordersDocument .builtin
      ⟨.child, .name none "order", []⟩) [.ofPath [0]] = .ok orderNodes := by
    decide +kernel
  have hordered : Location.Ordered orderNodes := by
    rw [Location.Ordered]
    decide
  rw [XPath.walk, hshop, bind_eq_ok]
  refine ⟨_, rfl, ?_⟩
  rw [Location.inOrder_of_ordered (Location.ordered_singleton _), XPath.walk, horder, bind_eq_ok]
  refine ⟨_, rfl, ?_⟩
  rw [Location.inOrder_of_ordered hordered, XPath.walk]

/-- The names of an absolute path of two children. -/
def childNames? : Except XPath.Fault XPath.Expr → Option (String × String)
  | .ok (.path true [⟨.child, .name none a, []⟩, ⟨.child, .name none b, []⟩]) => some (a, b)
  | _ => none

theorem eq_path_of_childNames? {r : Except XPath.Fault XPath.Expr} {a b : String}
    (h : childNames? r = some (a, b)) :
    r = .ok (.path true [⟨.child, .name none a, []⟩, ⟨.child, .name none b, []⟩]) := by
  rw [childNames?.eq_def] at h
  split at h
  · cases h
    rfl
  · cases h

theorem select_orders : ((orderEngine relation range).source ordersDocument).select .root "/shop/order" =
    .ok orderNodes := by
  have hparse := eq_path_of_childNames? (r := XPath.Expr.parse (Text.trim "/shop/order"))
    (show _ = some ("shop", "order") by decide +kernel)
  have hvalue : ((orderEngine relation range).source ordersDocument).evaluate .root "/shop/order" =
      .ok (.nodes orderNodes) := by
    rw [Source.evaluate]
    refine mapError_eq_ok.2 (bind_eq_ok.2 ⟨_, hparse, ?_⟩)
    rw [XPath.Expr.evaluate, XPath.Expr.eval]
    exact bind_eq_ok.2 ⟨_, walk_orders, rfl⟩
  exact bind_eq_ok.2 ⟨_, hvalue, rfl⟩

/-- The orders as parts of the run. -/
def orderParts (relation range : String) : List Part :=
  let engine := orderEngine relation range
  engine.mapping.mappings.flatMap fun m =>
    Part.domains (engine.scene ordersDocument) ⟨1, none⟩ m none 1 orderNodes

/-- The state in which the first order is entered. -/
def orderStart : RunState :=
  { RunState.initial (.alphabetic 2 0) with counters := { (default : Counters) with domainsMatched := 2 } }

theorem enters_of_mem_visits {n : Nat} {p : Part} {s : RunState}
    (h : (p, s) ∈ visits n (orderParts relation range) orderStart) :
    (orderEngine relation range).Enters [] ordersDocument p s := by
  refine .inside ?_ (entered_of_mem_visits h)
  refine bind_ok.2 ⟨none, _, rfl, bind_ok.2 ⟨_, _, ofSetup_ok.2 ⟨select_orders, rfl⟩, ?_⟩⟩
  exact bind_ok.2 ⟨_, _, rfl, rfl⟩

/-- The place of a range that is linked, with the resources of the domain and of its first intermediate
entity. -/
def attached? : Part × RunState → Option (Place × Value × Value)
  | (.range l path (id :: ids) node position, s) =>
    match outcome (linkRange l path (id :: ids) node position) s, (s.contexts.get l.domain).resolved?,
      (s.contexts.get id).resolved? with
    | (.ok (), t), some d, some v =>
      if t.counters.rangesLinked == s.counters.rangesLinked then none else some (l.place, d.value, v.value)
    | _, _, _ => none
  | _ => none

theorem exists_attaches_of_visits {n : Nat} {place : Place} {domain first : Value}
    (h : (place, domain, first) ∈
      (visits n (orderParts relation range) orderStart).filterMap attached?) :
    ∃ l path d v s t, (orderEngine relation range).Attaches [] ordersDocument l path d v s t ∧
      l.place = place ∧ d.value = domain ∧ v.value = first := by
  obtain ⟨⟨p, s⟩, hmem, hattached⟩ := List.mem_filterMap.1 h
  have hentered := enters_of_mem_visits hmem
  rw [attached?.eq_def] at hattached
  split at hattached
  next l path id ids node position s' heq =>
    cases heq
    split at hattached
    next t d v hlinked hd hv =>
      split at hattached
      · cases hattached
      next hcounted =>
        cases hattached
        exact ⟨l, path, d, v, s, t, ⟨⟨id, ids, node, position, hentered, hlinked, hv⟩,
          by simpa using hcounted, hd⟩, rfl, rfl, rfl⟩
    next => cases hattached
  next => cases hattached

end

/-- Purchases that are made for the item of an order are of that order. -/
theorem shares_intermediate_iff_items :
    (orderEngine "item" "item/price").validate = .ok () ∧ (orderEngine "item" "item/price").OnlyUuids ∧
    (orderEngine "item" "item/price").DrawsApart [] ordersDocument ∧
    ∃ l l' path path' d d' v v' s s' t t',
      (orderEngine "item" "item/price").Attaches [] ordersDocument l path d v s t ∧
      (orderEngine "item" "item/price").Attaches [] ordersDocument l' path' d' v' s' t' ∧
      l.place = l'.place ∧ d.value ≠ d'.value ∧ v.value ≠ v'.value ∧
      ¬(orderEngine "item" "item/price").KeyAgrees ordersDocument v.types (s.contexts.get path)
        (s'.contexts.get path') := by
  have hvisits : (visits 12 (orderParts "item" "item/price") orderStart).filterMap attached? =
      [(⟨1, some 1⟩, .uri "uuid:AA", .uri "uuid:AB"), (⟨1, some 1⟩, .uri "uuid:AD", .uri "uuid:AE")] := by
    decide +kernel
  have valid : (orderEngine "item" "item/price").validate = .ok () := by decide +kernel
  have uuids : (orderEngine "item" "item/price").OnlyUuids := by decide +kernel
  have apart : (orderEngine "item" "item/price").DrawsApart [] ordersDocument :=
    drawsApart_of_width rfl
  obtain ⟨l, path, d, v, s, t, h, hplace, hd, hv⟩ :=
    exists_attaches_of_visits (hvisits ▸ List.mem_cons_self)
  obtain ⟨l', path', d', v', s', t', h', hplace', hd', hv'⟩ :=
    exists_attaches_of_visits (hvisits ▸ List.mem_cons_of_mem _ List.mem_cons_self)
  have same : l.place = l'.place := hplace.trans hplace'.symm
  have hdomains : d.value ≠ d'.value := by rw [hd, hd']; decide
  have hvalues : v.value ≠ v'.value := by rw [hv, hv']; decide
  obtain ⟨-, hshared, -, -⟩ := shares_intermediate_iff valid uuids apart h h' same
  exact ⟨valid, uuids, apart, l, l', path, path', d, d', v, v', s, s', t, t', h, h', same, hdomains,
    hvalues, fun hagrees => hvalues (hshared.2 hagrees)⟩

/-- Both orders of a customer get the purchase that is made at the customer. -/
theorem shared_intermediate_of_joined :
    (orderEngine "@for==@id" "customer").validate = .ok () ∧ (orderEngine "@for==@id" "customer").OnlyUuids ∧
    ∃ l l' path path' d d' v v' s s' t t',
      (orderEngine "@for==@id" "customer").Attaches [] ordersDocument l path d v s t ∧
      (orderEngine "@for==@id" "customer").Attaches [] ordersDocument l' path' d' v' s' t' ∧
      l.place = l'.place ∧ v.value = v'.value ∧ d.value ≠ d'.value := by
  have hvisits : (visits 12 (orderParts "@for==@id" "customer") orderStart).filterMap attached? =
      [(⟨1, some 1⟩, .uri "uuid:AA", .uri "uuid:AB"), (⟨1, some 1⟩, .uri "uuid:AD", .uri "uuid:AB")] := by
    decide +kernel
  obtain ⟨l, path, d, v, s, t, h, hplace, hd, hv⟩ :=
    exists_attaches_of_visits (hvisits ▸ List.mem_cons_self)
  obtain ⟨l', path', d', v', s', t', h', hplace', hd', hv'⟩ :=
    exists_attaches_of_visits (hvisits ▸ List.mem_cons_of_mem _ List.mem_cons_self)
  have hdomains : d.value ≠ d'.value := by rw [hd, hd']; decide
  exact ⟨by decide +kernel, by decide +kernel, l, l', path, path', d, d', v, v', s, s', t, t', h, h',
    hplace.trans hplace'.symm, hv.trans hv'.symm, hdomains⟩

end Engine

end Crosswalk
