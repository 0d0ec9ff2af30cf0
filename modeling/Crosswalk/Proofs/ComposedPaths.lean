import Crosswalk.Proofs.ContinuedRanges
import Crosswalk.Proofs.DocumentOrder

/-!
# Paths behind paths

A location path means the same from several nodes as from each of them alone, although its steps bring
into order what they reach after each step and not only at the end, and although predicates count
positions. Positions are counted along the axis of one node, so it does not matter which other nodes a
walk has come to; and order and repetitions do not last longer than until the next step. So steps from
several nodes give the union of what they give from each, and fail where they fail from one of them.

A relative path behind another one is therefore a composition: it is evaluated at each node of the first
path, at whatever position this node is taken to stand.
-/

namespace Crosswalk.XPath

open Crosswalk.Xml (Document Location)
open Crosswalk.Xml.Location (Ordered ofPath ordered_inOrder ordered_singleton)

variable {d : Document} {ns : Namespaces} {starts ms found : List Location} {steps more p q : List Step}
  {c : Context}

/-! ## The text of a path behind another -/

section

variable {t : Token} {joint : List Step} {rs us rest : List Token} {first second : String}
  {after : List Char}

/-- Steps behind a sign go on with the path in front of it. -/
theorem StepsPhrase.joined (hjoint : Junction t joint) : ∀ {ts : List Token} {steps : List Step},
    StepsPhrase ts steps (t :: us) → StepsPhrase us more rest →
      StepsPhrase ts (steps ++ (joint ++ more)) rest
  | _, _, .last phrase, hmore => by
    cases hjoint with
    | child => exact .child phrase hmore
    | everywhere => exact .everywhere phrase hmore
  | _, _, .child phrase others, hmore => .child phrase (others.joined hjoint hmore)
  | _, _, .everywhere phrase others, hmore => .everywhere phrase (others.joined hjoint hmore)

theorem parse_append_slash (hrs : tokens first = .ok rs) (hsteps : StepsPhrase rs steps [])
    (hjoint : Junction t joint) (hafter : tokensIn ('/' :: after) = .ok (t :: us))
    (hmore : StepsPhrase us more []) (hsecond : second.toList = '/' :: after) :
    Expr.parse (first ++ second) = .ok (.path false (steps ++ (joint ++ more))) := by
  have htokens : tokens (first ++ second) = .ok (rs ++ t :: us) := by
    rw [tokens_eq, String.toList_append, hsecond]
    exact (tokensIn_append_slash hrs hsteps.endsApart).2 ⟨_, hafter, rfl⟩
  have hphrase : StepsPhrase (rs ++ t :: us) (steps ++ (joint ++ more)) [] :=
    (hsteps.append (hjoint.noStep us)).joined hjoint hmore
  exact parse_eq_ok_of_derives htokens hphrase.derives

/-- No path begins with a slash and is relative. -/
theorem StepsPhrase.ne_slash (hus : tokensIn after = .ok us) (h : StepsPhrase us more []) :
    ∀ others, after ≠ '/' :: others := by
  rintro others rfl
  obtain ⟨u, rest, rfl, hbegins, -⟩ := h.begins (avoids_nil _)
  have hnot := head?_of_tokensIn_slash hus
  rw [startsStep_cons.2 hbegins] at hnot
  cases hnot

/-- A slash between two paths makes one path of them. -/
theorem parse_joined (hrs : tokens first = .ok rs) (hsteps : StepsPhrase rs steps [])
    (hus : tokens second = .ok us) (hmore : StepsPhrase us more []) :
    Expr.parse (first ++ "/" ++ second) = .ok (.path false (steps ++ more)) := by
  rw [tokens_eq] at hus
  rw [String.append_assoc]
  have hafter : tokensIn ('/' :: second.toList) = .ok (.slash :: us) :=
    (tokensIn_slash (hmore.ne_slash hus)).2 ⟨us, hus, rfl⟩
  exact parse_append_slash hrs hsteps .child hafter hmore (by rw [String.toList_append]; rfl)

/-- Two slashes between them add the step to all nodes below. -/
theorem parse_joined_everywhere (hrs : tokens first = .ok rs) (hsteps : StepsPhrase rs steps [])
    (hus : tokens second = .ok us) (hmore : StepsPhrase us more []) :
    Expr.parse (first ++ "//" ++ second) = .ok (.path false (steps ++ .everyBelow :: more)) := by
  rw [String.append_assoc]
  have hafter : tokensIn ('/' :: '/' :: second.toList) = .ok (.doubleSlash :: us) :=
    tokensIn_doubleSlash.2 ⟨us, hus, rfl⟩
  exact parse_append_slash hrs hsteps .everywhere hafter hmore (by rw [String.toList_append]; rfl)

end

/-! ## Readings united -/

/-- A reading from several nodes is the union of the readings from each of them: it fails if one of them
does, and else it gives what one of them gives, in document order and each node once. -/
structure Unites (d : Document) (read : Location → Except Fault (List Location))
    (starts : List Location) (whole : Except Fault (List Location)) : Prop where
  fails_iff : (∃ e, whole = .error e) ↔ ∃ l ∈ starts, ∃ e, read l = .error e
  mem_iff : ∀ found, whole = .ok found →
    ∀ m, m ∈ found ↔ ∃ l ∈ starts, ∃ ms, read l = .ok ms ∧ m ∈ ms
  ascends : ∀ found, whole = .ok found → found.Pairwise d.Precedes
  once : ∀ found, whole = .ok found → found.Nodup

theorem exists_error_iff {α : Type} {r : Except Fault α} :
    (∃ e, r = .error e) ↔ ¬ ∃ a, r = .ok a := by
  cases r <;> simp

/-- Steps from several nodes, as far as these are in order when no step is taken. -/
theorem unites_walk (hstarts : ∀ l ∈ starts, d.HasNode l) (h : steps ≠ [] ∨ Ordered starts) :
    Unites d (fun l => walk d ns steps [l]) starts (walk d ns steps starts) := by
  have hordered : ∀ found, walk d ns steps starts = .ok found → Ordered found := by
    intro found hfound
    rcases h with hne | hordered
    · cases steps with
      | nil => exact absurd rfl hne
      | cons s rest =>
        obtain ⟨reached, -, hrest⟩ := bind_eq_ok.1 hfound
        exact ordered_walk (ordered_inOrder reached) hrest
    · exact ordered_walk hordered hfound
  constructor
  · rw [exists_error_iff, exists_walk_iff]
    simp only [exists_error_iff, not_forall, exists_prop]
  · intro found hfound m
    exact mem_walk_iff hfound
  · intro found hfound
    exact Document.pairwise_precedes (hasNode_walk hstarts hfound) (hordered found hfound)
  · intro found hfound
    exact (hordered found hfound).nodup

/-! ## Relative paths -/

/-- The nodes that an expression selects in a context. -/
def Expr.selected (d : Document) (ns : Namespaces) (e : Expr) (c : Context) :
    Except Fault (List Location) := do
  match ← e.eval d ns c with
  | .nodes ls => .ok ls
  | _ => .error .selectsNoNodes

theorem selected_path (steps : List Step) (c : Context) :
    (Expr.path false steps).selected d ns c = walk d ns steps [c.node] := by
  rw [Expr.selected, Expr.eval, if_neg (by decide)]
  cases walk d ns steps [c.node] <;> rfl

/-- The steps of a location path that is not empty give the union of what they give from each node they
start from. A relative path with another one behind it fails where the first one does, and otherwise
gives the union of what the other one gives at the nodes of the first, at whatever positions it is
evaluated; and a slash between their texts puts the one behind the other. -/
theorem paths_compose (d : Document) (ns : Namespaces) :
    (∀ starts steps, (∀ l ∈ starts, d.HasNode l) → steps ≠ [] →
      Unites d (fun l => walk d ns steps [l]) starts (walk d ns steps starts)) ∧
    (∀ p q c, d.HasNode c.node →
      (∀ e, (Expr.path false p).selected d ns c = .error e →
        (Expr.path false (p ++ q)).selected d ns c = .error e) ∧
      ∀ ms, (Expr.path false p).selected d ns c = .ok ms → ∀ position size,
        Unites d (fun m => (Expr.path false q).selected d ns ⟨m, position, size⟩) ms
          ((Expr.path false (p ++ q)).selected d ns c)) ∧
    ∀ first second rs us p q, tokens first = .ok rs → StepsPhrase rs p [] →
      tokens second = .ok us → StepsPhrase us q [] →
        Expr.parse (first ++ "/" ++ second) = .ok (.path false (p ++ q)) := by
  refine ⟨fun starts steps hstarts hne => unites_walk hstarts (.inl hne), fun p q c hc => ?_,
    fun first second rs us p q hrs hp hus hq => parse_joined hrs hp hus hq⟩
  simp only [selected_path, walk_append]
  refine ⟨fun e he => by rw [he]; rfl, fun ms hms position size => ?_⟩
  have hnodes : ∀ m ∈ ms, d.HasNode m :=
    hasNode_walk (fun l hl => List.mem_singleton.1 hl ▸ hc) hms
  have hordered : Ordered ms := ordered_walk (ordered_singleton c.node) hms
  rw [hms]
  exact unites_walk hnodes (.inr hordered)

/-- Steps to first children from a list and from one of its entries: the name in that entry is reached from
both. -/
theorem paths_compose_names :
    let element (name : String) (content : List Xml.Content) : Xml.Content :=
      .element ⟨none, name⟩ [] [] content
    let d : Document := ⟨[element "list" [element "entry" [],
      element "entry" [element "name" [], element "name" []]]]⟩
    let p : List Step := [⟨.descendantOrSelf, .any, []⟩]
    let q : List Step := [⟨.child, .any, [.number (.ofNat 1)]⟩]
    let entries := [ofPath [0], ofPath [0, 0], ofPath [0, 1], ofPath [0, 1, 0], ofPath [0, 1, 1]]
    let firsts := [ofPath [0, 0], ofPath [0, 1, 0]]
    ((∀ l ∈ [ofPath [0, 1], ofPath [0]], d.HasNode l) ∧ p ++ q ≠ [] ∧
      Unites d (fun l => walk d .builtin (p ++ q) [l]) [ofPath [0, 1], ofPath [0]] (.ok firsts)) ∧
    (d.HasNode (ofPath [0]) ∧ (Expr.path false p).selected d .builtin ⟨ofPath [0], 3, 4⟩ = .ok entries ∧
      Unites d (fun m => (Expr.path false q).selected d .builtin ⟨m, 2, 2⟩) entries (.ok firsts)) ∧
    tokens "entry" = .ok [.name "entry"] ∧ tokens "name" = .ok [.name "name"] ∧
      Expr.parse ("entry" ++ "/" ++ "name") =
        .ok (.path false [.childNamed "entry", .childNamed "name"]) := by
  intro element d p q entries firsts
  have hnodes : ∀ l ∈ [ofPath [0, 1], ofPath [0]], d.HasNode l := by decide
  have hlist : d.HasNode (ofPath [0]) := by decide
  have hsecond : walk d .builtin q entries = .ok firsts := by
    refine walk_cons_of firsts (by decide +kernel) ?_
    rw [Ordered]
    decide
  have hwhole : walk d .builtin (p ++ q) [ofPath [0, 1], ofPath [0]] = .ok firsts := by
    have hfirst : walk d .builtin p [ofPath [0, 1], ofPath [0]] = .ok entries := by cbv
    rw [walk_append, hfirst]
    exact hsecond
  have hentries : (Expr.path false p).selected d .builtin ⟨ofPath [0], 3, 4⟩ = .ok entries := by cbv
  have hfirsts : (Expr.path false (p ++ q)).selected d .builtin ⟨ofPath [0], 3, 4⟩ = .ok firsts := by
    rw [selected_path, walk_append, ← selected_path, hentries]
    exact hsecond
  have hentry : tokens "entry" = .ok [.name "entry"] := by rfl
  have hname : tokens "name" = .ok [.name "name"] := by rfl
  obtain ⟨hunites, hcompose, hjoined⟩ := paths_compose d .builtin
  refine ⟨⟨hnodes, by decide, ?_⟩, ⟨hlist, hentries, ?_⟩, hentry, hname, ?_⟩
  · rw [← hwhole]
    exact hunites _ _ hnodes (by decide)
  · rw [← hfirsts]
    exact (hcompose p q ⟨ofPath [0], 3, 4⟩ hlist).2 entries hentries 2 2
  · exact hjoined _ _ _ _ _ _ hentry (.last (.child (by decide))) hname (.last (.child (by decide)))

end Crosswalk.XPath
