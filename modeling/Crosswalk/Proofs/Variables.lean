import Crosswalk.Proofs.Growing
import Crosswalk.Proofs.LaterStates

/-!
# Where variables are bound

The variables of a mapping are bound in the context of the domain node, and every context finds that one on
its way up. The way up is told by the seats of the contexts, and these never change, so a context leads to
the same place as long as it is there. What an entity is taken up in always leads to the first context,
whose number is zero: that of the domain node.
-/

namespace Crosswalk

open Crosswalk.Xml (Location)

namespace Contexts

variable {cs ds : Contexts} {id parent : Nat} {name : String} {value : Value}

/-! ## The way up -/

theorem owner_of_parent (hrole : (cs.get id).role ≠ .domain) (hparent : (cs.get id).parent? = some parent)
    (hlt : parent < id) : cs.owner id = cs.owner parent := by
  rw [owner.eq_def cs id, hparent]
  split
  next h => exact absurd h hrole
  next h _ => cases h
  next h _ =>
    cases h
    rw [if_pos hlt]

theorem owner_zero (cs : Contexts) : cs.owner 0 = 0 := by
  rw [owner]
  split
  · rfl
  · rfl
  · rw [if_neg (Nat.not_lt_zero _)]

theorem owner_le (cs : Contexts) (id : Nat) : cs.owner id ≤ id := by
  induction id using Nat.strongRecOn with
  | ind id ih =>
    rw [owner]
    split
    · exact Nat.le_refl id
    · exact Nat.le_refl id
    · split
      next hlt => exact Nat.le_trans (ih _ hlt) (Nat.le_of_lt hlt)
      next => exact Nat.le_refl id

/-- Contexts in equal seats lead to the same place. -/
theorem owner_congr (h : ∀ other ≤ id, (ds.get other).seat = (cs.get other).seat) :
    ds.owner id = cs.owner id := by
  induction id using Nat.strongRecOn with
  | ind id ih =>
    have hseat := h id (Nat.le_refl id)
    have hrole : (ds.get id).role = (cs.get id).role := congrArg (·.1) hseat
    have hparent : (ds.get id).parent? = (cs.get id).parent? := congrArg (·.2.1) hseat
    rw [owner.eq_def ds id, owner.eq_def cs id, hrole, hparent]
    split
    · rfl
    · rfl
    · split
      next hlt => exact ih _ hlt fun other hother => h other (by omega)
      next => rfl

theorem Extends.owner_eq (h : cs.Extends ds) (hid : id < cs.size) : ds.owner id = cs.owner id :=
  owner_congr fun other hother => h.seat other (by omega)

/-- A context that is entered leads to where the one leads that it belongs to. -/
theorem owner_push {c : Context} (fresh : c.IsFresh) (hrole : c.role ≠ .domain)
    (hparent : c.parent? = some parent) (hlive : parent < cs.size) :
    (cs.push c).owner cs.size = cs.owner parent := by
  have hget := get_push_size cs c
  rw [owner_of_parent (hget.symm ▸ hrole) (hget.symm ▸ hparent) hlive, (extends_push fresh).owner_eq hlive]

theorem owner_bind (cs : Contexts) (id other : Nat) (name : String) (value : Value) :
    (cs.bind id name value).owner other = cs.owner other :=
  owner_congr fun _ _ => get_update_congr (·.seat) fun _ => rfl

/-! ## Variables -/

theorem lookup?_bind (hid : id < cs.size) : (cs.bind id name value).lookup? id name = some value := by
  rw [lookup?, owner_bind, bind, get_update_of_lt (Nat.lt_of_le_of_lt (cs.owner_le id) hid),
    Table.get?_insert, if_pos rfl]

/-- What leads to the same context sees the same variables. -/
theorem lookup?_congr {other : Nat} (h : cs.owner id = cs.owner other) (name : String) :
    cs.lookup? id name = cs.lookup? other name := by
  rw [lookup?, lookup?, h]

end Contexts

namespace Run.Resolution

variable {x y : Resolution} {s : RunState} {parent : Nat}

/-- The entity is taken up in a context that leads to that of the domain node. -/
def IsInDomain (x : Resolution) : Prop :=
  x.state.contexts.owner x.id = 0

theorem isInDomain_entering {scene : Scene} {place : Place} {c : Context} {identity? : Option Value}
    {entity : Entity} (fresh : c.IsFresh) (hrole : c.role ≠ .domain) (hparent : c.parent? = some parent)
    (hlive : parent < s.contexts.size) (hdomain : s.contexts.owner parent = 0) :
    (entering scene place c identity? entity s).IsInDomain :=
  (Contexts.owner_push fresh hrole hparent hlive).trans hdomain

theorem Attaches.isInDomain (hx : x.IsNew) (hdomain : x.IsInDomain) (h : x.Attaches y) : y.IsInDomain := by
  obtain ⟨value, k, relationship, entity, u, hu, rfl⟩ := h.exists_entering
  have hreads : Reads 0 x.state u := (valued_reads x x.state).trans hu
  have hextends := hreads.extends
  exact isInDomain_entering (isFresh_additionalContext ..) (by rintro ⟨⟩) rfl
    (Nat.lt_of_lt_of_le hx.live hextends.size_le) ((hextends.owner_eq hx.live).trans hdomain)

end Run.Resolution

namespace Engine

open Crosswalk.Run

variable {engine : Engine} {seed : List UInt8} {document : Xml.Document} {p : Part} {s t : RunState}
  {x : Resolution}

/-- The context of a domain node is the first one. -/
theorem domain_eq_zero_of_enters_link {scene : Scene} {place : Place} {m : Mapping} {node : Location}
    {id : Nat} {domainGraph? : Option String} {l : Link}
    (h : engine.Enters seed document (.link scene place m node id domainGraph? l) s) : id = 0 := by
  obtain ⟨_, _, _, _, _, _, _, _, _, _, _, hid, _⟩ := domain_of_enters_link h
  exact hid

theorem domain_eq_zero_of_enters_path {l : LinkSetting} {joined : Bool} {node : Location} {position : Nat}
    (h : engine.Enters seed document (.path l joined node position) s) : l.domain = 0 := by
  obtain ⟨_, _, hlink, -⟩ := link_of_enters_path h
  exact domain_eq_zero_of_enters_link hlink

/-- The context of a path leads to that of the domain node, wherever it is still there. -/
theorem owner_path {l : LinkSetting} {joined : Bool} {node : Location} {position : Nat}
    (h : engine.Enters seed document (.path l joined node position) s)
    (hst : (s.contexts.push (.fresh .path node position (some l.domain))).Extends t.contexts) :
    s.contexts.size < t.contexts.size ∧ t.contexts.owner s.contexts.size = 0 := by
  have hlive : l.domain < s.contexts.size := (typedEntry_of_enters h).2.lt_size
  have hpath := Context.isFresh_fresh .path node position (some l.domain)
  refine ⟨hst.of_push.1, ?_⟩
  rw [hst.owner_eq (by simp), Contexts.owner_push hpath (by rintro ⟨⟩) rfl hlive,
    domain_eq_zero_of_enters_path h, Contexts.owner_zero]

/-- Whatever a part takes up is in the domain of its node. -/
theorem isInDomain_of_takes (hp : engine.Enters seed document p s) (hx : p.Resolves s x) :
    x.IsInDomain := by
  cases hx with
  | domain => exact Contexts.owner_zero _
  | @merge scene place m node id domainGraph? l s r hmerge hr =>
    have hpath := Context.isFresh_fresh .path (s.contexts.get id).node (s.contexts.get id).position (some id)
    refine Resolution.isInDomain_entering (Context.isFresh_fresh ..) (by rintro ⟨⟩) rfl
      (by simp [RunState.enter, RunState.countLink]) ?_
    refine (Contexts.owner_push hpath (by rintro ⟨⟩) rfl (Contexts.lt_size_of_resolved? hr)).trans ?_
    rw [domain_eq_zero_of_enters_link hp]
    exact Contexts.owner_zero _
  | @intermediate l joined node position before after entity ids s t divided earlier =>
    have hreads := after_eq earlier ▸ (intermediates_meets l s.contexts.size node position 0 before _).1
    obtain ⟨hlive, howner⟩ := owner_path hp hreads.extends
    exact Resolution.isInDomain_entering (Context.isFresh_fresh ..) (by rintro ⟨⟩) rfl hlive howner
  | @range l path ids node position s =>
    obtain ⟨joined, pathNode, pathPosition, v, k, nodes, t, hpath, -, rfl, hids, -, hts⟩ :=
      path_of_enters_range hp
    have hreads := after_eq hids ▸
      (intermediates_meets l v.contexts.size pathNode pathPosition 0 l.link.target.entities _).1
    obtain ⟨hlive, howner⟩ := owner_path hpath (hreads.extends.trans hts.contexts)
    exact Resolution.isInDomain_entering (Context.isFresh_fresh ..) (by rintro ⟨⟩) rfl hlive howner

theorem isInDomain_of_takesUp (h : (engine.course seed document).TakesUp x) : x.IsInDomain := by
  induction h with
  | own hp hx => exact isInDomain_of_takes hp hx.resolves
  | attached h _ attaches ih => exact attaches.isInDomain h.isNew ih

end Engine

end Crosswalk
