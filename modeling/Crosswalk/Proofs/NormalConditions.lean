import Crosswalk.Condition.Evaluation
import Crosswalk.Proofs.RememberedCalls
import Mathlib.Logic.Relation

/-!
# Conditions with negations in front of tests only

A negation can be brought inside: two of them cancel out, and what denies a conjunction is a disjunction
of denials, and the other way round. However this is done, it ends in the same condition,
`Condition.normalForm`, and no replacement shows in the outcome. For the outcome is told by the tests alone,
asked one after the other until the answer is clear, and a replacement neither asks for another test
nor in another order. So a fault that comes up comes up all the same, and what a source remembers of the
tests is the same as well.
-/

namespace Crosswalk

open Crosswalk.Xml (Location)

namespace Condition

/-! ## Replacements -/

/-- A condition that is not made of others. -/
def isTest : Condition → Bool
  | all _ => false
  | any _ => false
  | not _ => false
  | _ => true

/-- One replacement, somewhere in a condition. -/
inductive Rewrites : Condition → Condition → Prop
  | deniedTwice (c : Condition) : Rewrites (not (not c)) c
  | deniedAll (cs : List Condition) : Rewrites (not (all cs)) (any (cs.map not))
  | deniedAny (cs : List Condition) : Rewrites (not (any cs)) (all (cs.map not))
  | inAll (before : List Condition) {c d : Condition} (after : List Condition) (h : Rewrites c d) :
    Rewrites (all (before ++ c :: after)) (all (before ++ d :: after))
  | inAny (before : List Condition) {c d : Condition} (after : List Condition) (h : Rewrites c d) :
    Rewrites (any (before ++ c :: after)) (any (before ++ d :: after))
  | inNot {c d : Condition} (h : Rewrites c d) : Rewrites (not c) (not d)

/-- Any number of replacements. -/
abbrev Reduces : Condition → Condition → Prop :=
  Relation.ReflTransGen Rewrites

/-- Nothing but tests is denied. -/
inductive IsNormal : Condition → Prop
  | test {c : Condition} (h : c.isTest) : IsNormal c
  | denied {c : Condition} (h : c.isTest) : IsNormal (not c)
  | all {cs : List Condition} (h : ∀ c ∈ cs, IsNormal c) : IsNormal (all cs)
  | any {cs : List Condition} (h : ∀ c ∈ cs, IsNormal c) : IsNormal (any cs)

def deny : Bool → Condition → Condition
  | true, c => not c
  | false, c => c

mutual

/-- A condition, or its denial, with negations in front of tests only. -/
def normalize : Bool → Condition → Condition
  | true, all cs => any (normalizeEach true cs)
  | false, all cs => all (normalizeEach false cs)
  | true, any cs => all (normalizeEach true cs)
  | false, any cs => any (normalizeEach false cs)
  | denied, not c => normalize (!denied) c
  | denied, c => deny denied c

def normalizeEach (denied : Bool) : List Condition → List Condition
  | [] => []
  | c :: cs => normalize denied c :: normalizeEach denied cs

end

def normalForm (c : Condition) : Condition :=
  normalize false c

/-! ## What the replacements lead to -/

/-- What holds of tests, and of what is made of conditions that it holds of, holds of every condition. -/
theorem induction {P : Condition → Prop} (test : ∀ c : Condition, c.isTest → P c)
    (all : ∀ cs, (∀ c ∈ cs, P c) → P (all cs)) (any : ∀ cs, (∀ c ∈ cs, P c) → P (any cs))
    (not : ∀ c, P c → P (not c)) (c : Condition) : P c :=
  @Condition.rec P (fun cs => ∀ c ∈ cs, P c) (fun _ => test _ rfl) (fun _ _ => test _ rfl)
    (fun _ _ => test _ rfl) (fun _ _ => test _ rfl) (fun _ _ => test _ rfl) all any not (by simp)
    (fun _ _ h h' => List.forall_mem_cons.2 ⟨h, h'⟩) c

theorem normalizeEach_eq (denied : Bool) (cs : List Condition) :
    normalizeEach denied cs = cs.map (normalize denied) := by
  induction cs with
  | nil => rfl
  | cons c cs ih => rw [normalizeEach, ih, List.map_cons]

theorem normalize_all (denied : Bool) (cs : List Condition) :
    normalize denied (all cs) =
      if denied then any (cs.map (normalize denied)) else all (cs.map (normalize denied)) := by
  cases denied <;> rw [normalize, normalizeEach_eq] <;> rfl

theorem normalize_any (denied : Bool) (cs : List Condition) :
    normalize denied (any cs) =
      if denied then all (cs.map (normalize denied)) else any (cs.map (normalize denied)) := by
  cases denied <;> rw [normalize, normalizeEach_eq] <;> rfl

@[simp] theorem normalize_not (denied : Bool) (c : Condition) :
    normalize denied (not c) = normalize (!denied) c := by
  cases denied <;> rw [normalize]

theorem normalize_test (denied : Bool) {c : Condition} (h : c.isTest) :
    normalize denied c = deny denied c := by
  cases c <;> cases denied <;> first | rfl | cases h

theorem map_normalize_map_not (denied : Bool) (cs : List Condition) :
    (cs.map not).map (normalize denied) = cs.map (normalize (!denied)) := by
  rw [List.map_map]
  exact List.map_congr_left fun c _ => normalize_not denied c

/-- A replacement does not change what is reached in the end. -/
theorem Rewrites.normalize_eq {c d : Condition} (h : Rewrites c d) (denied : Bool) :
    normalize denied c = normalize denied d := by
  induction h generalizing denied with
  | deniedTwice c => rw [normalize_not, normalize_not, Bool.not_not]
  | deniedAll cs =>
    rw [normalize_not, normalize_all, normalize_any, map_normalize_map_not]
    cases denied <;> rfl
  | deniedAny cs =>
    rw [normalize_not, normalize_all, normalize_any, map_normalize_map_not]
    cases denied <;> rfl
  | inAll before after _ ih => simp only [normalize_all, List.map_append, List.map_cons, ih]
  | inAny before after _ ih => simp only [normalize_any, List.map_append, List.map_cons, ih]
  | inNot _ ih => rw [normalize_not, normalize_not, ih]

theorem Reduces.normalize_eq {c d : Condition} (h : Reduces c d) (denied : Bool) :
    normalize denied c = normalize denied d := by
  induction h with
  | refl => rfl
  | tail _ h ih => rw [ih, h.normalize_eq]

theorem IsNormal.normalForm_eq {c : Condition} (h : c.IsNormal) : c.normalForm = c := by
  rw [normalForm]
  induction h with
  | test h => exact normalize_test false h
  | denied h => rw [normalize_not, normalize_test _ h]; rfl
  | all _ ih =>
    rw [normalize_all, if_neg Bool.false_ne_true]
    exact congrArg Condition.all ((List.map_congr_left ih).trans (List.map_id _))
  | any _ ih =>
    rw [normalize_any, if_neg Bool.false_ne_true]
    exact congrArg Condition.any ((List.map_congr_left ih).trans (List.map_id _))

theorem isNormal_normalize (denied : Bool) (c : Condition) : (normalize denied c).IsNormal := by
  induction c using induction generalizing denied with
  | test c h =>
    rw [normalize_test denied h]
    cases denied with
    | true => exact .denied h
    | false => exact .test h
  | all cs ih =>
    have hcs : ∀ d ∈ cs.map (normalize denied), d.IsNormal := by
      simpa using fun c hc => ih c hc denied
    rw [normalize_all]
    cases denied with
    | true => exact .any hcs
    | false => exact .all hcs
  | any cs ih =>
    have hcs : ∀ d ∈ cs.map (normalize denied), d.IsNormal := by
      simpa using fun c hc => ih c hc denied
    rw [normalize_any]
    cases denied with
    | true => exact .all hcs
    | false => exact .any hcs
  | not c ih =>
    rw [normalize_not]
    exact ih _

/-- Conditions in a list can be reduced one after the other. -/
theorem reduces_of_forall {wrap : List Condition → Condition} {f : Condition → Condition}
    (hwrap : ∀ before c d after, Rewrites c d →
      Rewrites (wrap (before ++ c :: after)) (wrap (before ++ d :: after)))
    {cs : List Condition} (h : ∀ c ∈ cs, Reduces c (f c)) : Reduces (wrap cs) (wrap (cs.map f)) := by
  have onwards (rest before : List Condition) (hrest : ∀ c ∈ rest, Reduces c (f c)) :
      Reduces (wrap (before ++ rest)) (wrap (before ++ rest.map f)) := by
    induction rest generalizing before with
    | nil => exact .refl
    | cons c rest ih =>
      obtain ⟨hc, hrest⟩ := List.forall_mem_cons.1 hrest
      have hfirst : Reduces (wrap (before ++ c :: rest)) (wrap (before ++ f c :: rest)) :=
        hc.lift (fun d => wrap (before ++ d :: rest)) fun c d => hwrap before c d rest
      have hothers := ih (before ++ [f c]) hrest
      rw [List.append_assoc, List.append_assoc] at hothers
      exact hfirst.trans hothers
  exact onwards cs [] h

theorem reduces_normalize (denied : Bool) (c : Condition) : Reduces (deny denied c) (normalize denied c) := by
  induction c using induction generalizing denied with
  | test c h => rw [normalize_test denied h]
  | all cs ih =>
    rw [normalize_all]
    cases denied with
    | true =>
      have hdenied : ∀ c ∈ cs.map not, Reduces c (normalize false c) := by
        simpa [deny] using fun c hc => ih c hc true
      have hcs := reduces_of_forall (fun before _ _ after => .inAny before after) hdenied
      rw [map_normalize_map_not] at hcs
      exact hcs.head (.deniedAll cs)
    | false => exact reduces_of_forall (fun before _ _ after => .inAll before after) fun c hc => ih c hc false
  | any cs ih =>
    rw [normalize_any]
    cases denied with
    | true =>
      have hdenied : ∀ c ∈ cs.map not, Reduces c (normalize false c) := by
        simpa [deny] using fun c hc => ih c hc true
      have hcs := reduces_of_forall (fun before _ _ after => .inAll before after) hdenied
      rw [map_normalize_map_not] at hcs
      exact hcs.head (.deniedAny cs)
    | false => exact reduces_of_forall (fun before _ _ after => .inAny before after) fun c hc => ih c hc false
  | not c ih =>
    rw [normalize_not]
    cases denied with
    | true => exact (ih false).head (.deniedTwice c)
    | false => exact ih true

/-- However the replacements are made, they end in the same condition. -/
theorem eq_normalForm_iff (c d : Condition) : c.Reduces d ∧ d.IsNormal ↔ d = c.normalForm := by
  constructor
  · rintro ⟨hreduces, hnormal⟩
    rw [normalForm, hreduces.normalize_eq]
    exact hnormal.normalForm_eq.symm
  · rintro rfl
    exact ⟨reduces_normalize false c, isNormal_normalize false c⟩

/-! ## What the tests tell -/

section

variable {m : Type → Type} [Monad m] (test : Condition → m Bool)

mutual

/-- Whether a condition fails, told by its tests, which are asked one after the other. -/
def failsBy : Condition → m Bool
  | all cs => settledBy true cs
  | any cs => settledBy false cs
  | not c => (! ·) <$> failsBy c
  | c => test c

/-- The first condition of which the answer is the given one settles a list of them. -/
def settledBy (answer : Bool) : List Condition → m Bool
  | [] => return !answer
  | c :: rest => do
    let failed ← failsBy c
    if failed == answer then return answer else settledBy answer rest

end

theorem failsBy_test {c : Condition} (h : c.isTest) : failsBy test c = test c := by
  cases c <;> first | rfl | cases h

theorem settledBy_congr {c d : Condition} (h : failsBy test c = failsBy test d) (answer : Bool)
    (before after : List Condition) :
    settledBy test answer (before ++ c :: after) = settledBy test answer (before ++ d :: after) := by
  induction before with
  | nil => rw [List.nil_append, List.nil_append, settledBy, settledBy, h]
  | cons first before ih => rw [List.cons_append, List.cons_append, settledBy, settledBy, ih]

variable [LawfulMonad m]

/-- What settles a list settles the list of the denials, with the denied answer. -/
theorem not_settledBy (answer : Bool) (cs : List Condition) :
    (! ·) <$> settledBy test answer cs = settledBy test (!answer) (cs.map not) := by
  induction cs with
  | nil => simp only [settledBy, List.map_nil, map_pure]
  | cons c rest ih =>
    rw [settledBy, List.map_cons, settledBy, failsBy, map_bind, bind_map_left, ← ih]
    refine bind_congr fun failed => ?_
    cases failed <;> cases answer <;> simp

/-- A replacement asks for the same tests in the same order. -/
theorem Rewrites.failsBy_eq {c d : Condition} (h : Rewrites c d) : failsBy test c = failsBy test d := by
  induction h with
  | deniedTwice c => simp [failsBy]
  | deniedAll cs =>
    rw [failsBy, failsBy, failsBy]
    exact not_settledBy test true cs
  | deniedAny cs =>
    rw [failsBy, failsBy, failsBy]
    exact not_settledBy test false cs
  | inAll before after _ ih =>
    rw [failsBy, failsBy]
    exact settledBy_congr test ih true before after
  | inAny before after _ ih =>
    rw [failsBy, failsBy]
    exact settledBy_congr test ih false before after
  | inNot _ ih => rw [failsBy, failsBy, ih]

theorem Reduces.failsBy_eq {c d : Condition} (h : Reduces c d) : failsBy test c = failsBy test d := by
  induction h with
  | refl => rfl
  | tail _ h ih => rw [ih, h.failsBy_eq]

theorem failsBy_normalForm (c : Condition) : failsBy test c.normalForm = failsBy test c :=
  ((reduces_normalize false c).failsBy_eq test).symm

end

/-- The outcome of a condition is told by its tests. -/
theorem fails_eq_failsBy (s : ConditionSetting) (node : Location) (c : Condition) :
    c.fails s node = failsBy (fails s node) c := by
  induction c using induction with
  | test c h => exact (failsBy_test _ h).symm
  | all cs ih =>
    rw [fails, failsBy]
    induction cs with
    | nil => rfl
    | cons c rest ihrest =>
      obtain ⟨hc, hrest⟩ := List.forall_mem_cons.1 ih
      rw [anyFails, settledBy, ← hc, ihrest hrest]
      refine bind_congr fun failed => ?_
      cases failed <;> rfl
  | any cs ih =>
    rw [fails, failsBy]
    induction cs with
    | nil => rfl
    | cons c rest ihrest =>
      obtain ⟨hc, hrest⟩ := List.forall_mem_cons.1 ih
      rw [allFail, settledBy, ← hc, ihrest hrest]
      refine bind_congr fun failed => ?_
      cases failed <;> rfl
  | not c ih =>
    rw [fails, failsBy, ih]
    rfl

end Condition

/-! ## Asking a source that remembers -/

/-- What is known of terms. A question for terms may end in a fault. -/
structure Terminology where
  broader : String → Except VocabularyError (List String)
  narrower : String → Except VocabularyError (List String)
  exact : String → Except VocabularyError (List String)

def Terminology.ofVocabulary (v : Vocabulary) : Terminology :=
  ⟨fun term => .ok (v.broaderTerms term), fun term => .ok (v.narrowerTerms term),
    fun term => .ok (v.exactTerms term)⟩

/-- Questions to a source that remembers and to a terminology. -/
abbrev Consultation := ExceptT RunError (StateM Memory)

namespace Consultation

variable {α β : Type}

def ofRecall (question : Recall α) : Consultation α :=
  ExceptT.mk do return (← question.run).mapError .setup

def ofResult : Except RunError α → Consultation α
  | .ok a => return a
  | .error e => throw e

/-- How a consultation ends, and what is remembered then. -/
def outcome (m : Consultation α) (memory : Memory) : Except RunError α × Memory :=
  m.run memory

/-- The consultation ends in a certain way, whatever expressions are remembered. -/
def Gives (m : Consultation α) (r : Except RunError α) : Prop :=
  ∀ s, Recall.Parses s.compiled →
    ∃ compiled, Recall.Parses compiled ∧ outcome m s = (r, { s with compiled := compiled })

namespace Gives

variable {m : Consultation α} {r : Except RunError α} {f : α → Consultation β} {g : α → Except RunError β}

theorem pure (a : α) : Gives (Pure.pure a) (.ok a) :=
  fun s hs => ⟨s.compiled, hs, rfl⟩

theorem ofRecall {question : Recall α} {r : Except SetupError α} (h : Recall.Gives question r) :
    Gives (ofRecall question) (r.mapError .setup) := by
  intro s hs
  obtain ⟨compiled, hparses, hquestion⟩ := h s hs
  have houtcome : outcome (Consultation.ofRecall question) s =
      ((Recall.outcome question s).1.mapError .setup, (Recall.outcome question s).2) := rfl
  refine ⟨compiled, hparses, ?_⟩
  rw [houtcome, hquestion]

theorem bind (hm : Gives m r) (hf : ∀ a, Gives (f a) (g a)) : Gives (m >>= f) (r >>= g) := by
  intro s hs
  obtain ⟨compiled, hparses, hm⟩ := hm s hs
  have hbind : outcome (m >>= f) s = ExceptT.bindCont f (outcome m s).1 (outcome m s).2 := rfl
  rw [hbind, hm]
  cases r with
  | error e => exact ⟨compiled, hparses, rfl⟩
  | ok a => exact hf a _ hparses

theorem map (hm : Gives m r) (h : α → β) : Gives (h <$> m) (h <$> r) := by
  rw [map_eq_pure_bind, map_eq_pure_bind]
  exact hm.bind fun a => .pure (h a)

end Gives

end Consultation

namespace Condition

open Consultation

section

variable (src : Source) (terms? : Option Terminology) (node : Location)

/-- A test for a value or a term of it. The terms are only asked for if the value is another one. -/
def consultTerms (c : Condition) (expression value : String)
    (terms : Terminology → String → Except VocabularyError (List String)) : Consultation Bool := do
  let terminology ← ofResult (terms?.elim (.error (.vocabulary (.missing c.display))) .ok)
  let found ← ofRecall (Recall.scalar src node expression)
  if found == value then return false
  let terms ← ofResult ((terms terminology value).mapError .vocabulary)
  return !terms.contains found

/-- Whether a test fails. Conditions that are made of others do not count here. -/
def consultTest : Condition → Consultation Bool
  | .exists e => (! ·) <$> ofRecall (Recall.hasValue src node e)
  | equals e v => (· != v) <$> ofRecall (Recall.scalar src node e)
  | c@(broader e v) => consultTerms src terms? node c e v Terminology.broader
  | c@(narrower e v) => consultTerms src terms? node c e v Terminology.narrower
  | c@(exactMatch e v) => consultTerms src terms? node c e v Terminology.exact
  | _ => return false

/-- Whether a condition fails, asked of a source that remembers. -/
def consult (c : Condition) : Consultation Bool :=
  failsBy (consultTest src terms? node) c

end

/-- What tells the outcome of each test tells that of every condition. -/
theorem failsBy_gives {test : Condition → Consultation Bool} {test' : Condition → Except RunError Bool}
    (h : ∀ c : Condition, c.isTest → Gives (test c) (test' c)) (c : Condition) :
    Gives (failsBy test c) (failsBy test' c) := by
  have settled (answer : Bool) (cs : List Condition)
      (hcs : ∀ c ∈ cs, Gives (failsBy test c) (failsBy test' c)) :
      Gives (settledBy test answer cs) (settledBy test' answer cs) := by
    induction cs with
    | nil => exact .pure _
    | cons c rest ih =>
      obtain ⟨hc, hrest⟩ := List.forall_mem_cons.1 hcs
      rw [settledBy, settledBy]
      refine hc.bind fun failed => ?_
      split
      · exact .pure answer
      · exact ih hrest
  induction c using induction with
  | test c hc =>
    rw [failsBy_test test hc, failsBy_test test' hc]
    exact h c hc
  | all cs ih =>
    rw [failsBy, failsBy]
    exact settled true cs ih
  | any cs ih =>
    rw [failsBy, failsBy]
    exact settled false cs ih
  | not c ih =>
    rw [failsBy, failsBy]
    exact ih.map _

theorem consultTerms_gives (s : ConditionSetting) (node : Location) (c : Condition)
    (expression value : String) {terms : Terminology → String → Except VocabularyError (List String)}
    {terms' : Vocabulary → String → List String}
    (hterms : ∀ v, terms (.ofVocabulary v) value = .ok (terms' v value)) :
    Gives (consultTerms s.source (s.vocabulary?.map .ofVocabulary) node c expression value terms)
      (termFails s node c expression value terms') := by
  obtain ⟨src, _ | v⟩ := s
  · exact fun m hm => ⟨m.compiled, hm, rfl⟩
  · have hfound : Gives (ofRecall (Recall.scalar src node expression))
        (ConditionSetting.scalar ⟨src, some v⟩ node expression) :=
      .ofRecall (Recall.scalar_gives node expression)
    have hfails : termFails ⟨src, some v⟩ node c expression value terms' =
        ConditionSetting.scalar ⟨src, some v⟩ node expression >>= fun found =>
          .ok (found != value && !(terms' v value).contains found) := pure_bind v _
    rw [hfails, consultTerms, Option.map_some, Option.elim_some, ofResult, pure_bind]
    refine hfound.bind fun found => ?_
    rw [hterms, bne]
    rcases found == value with _ | _ <;> exact .pure _

theorem consult_gives (s : ConditionSetting) (node : Location) (c : Condition) :
    Gives (c.consult s.source (s.vocabulary?.map .ofVocabulary) node) (c.fails s node) := by
  rw [consult, fails_eq_failsBy]
  refine failsBy_gives (fun c hc => ?_) c
  cases c with
  | «exists» e => exact (Gives.ofRecall (Recall.hasValue_gives node e)).map _
  | equals e v => exact (Gives.ofRecall (Recall.scalar_gives node e)).map _
  | broader e v => exact consultTerms_gives s node _ e v fun _ => rfl
  | narrower e v => exact consultTerms_gives s node _ e v fun _ => rfl
  | exactMatch e v => exact consultTerms_gives s node _ e v fun _ => rfl
  | all cs => cases hc
  | any cs => cases hc
  | not c => cases hc

/-- A condition has one normal form, and it has the same outcome. This is so for a source that remembers,
in whatever state it is and also if the terminology has faults of its own, and what is remembered
afterwards is the same as well. The outcome is the one without a memory, whatever has been asked before. -/
theorem fails_normalForm (c : Condition) :
    (∀ d, c.Reduces d ∧ d.IsNormal ↔ d = c.normalForm) ∧
      (∀ s node, c.normalForm.fails s node = c.fails s node) ∧
      (∀ src terms? node memory, outcome (c.normalForm.consult src terms? node) memory =
        outcome (c.consult src terms? node) memory) ∧
      ∀ (s : ConditionSetting) (node : Location) (earlier : List Request),
        (outcome (c.consult s.source (s.vocabulary?.map .ofVocabulary) node)
          (Request.recallAll s.source earlier .fresh).2).1 = c.fails s node := by
  refine ⟨eq_normalForm_iff c, fun s node => ?_, fun src terms? node memory => ?_,
    fun s node earlier => ?_⟩
  · rw [fails_eq_failsBy s node c.normalForm, failsBy_normalForm, ← fails_eq_failsBy]
  · rw [consult, consult, failsBy_normalForm]
  · have hparses : Recall.Parses (Request.recallAll s.source earlier .fresh).2.compiled :=
      Request.recallAll_parses (Memory.recalls_fresh s.source fun _ => True).parses earlier
    obtain ⟨compiled, -, hgives⟩ := consult_gives s node c _ hparses
    rw [hgives]

/-- An empty conjunction never fails and its denial always does, whichever way they are written. -/
example : (not (not (all []))).normalForm = all [] ∧
    (not (all [.exists "a", not (any [])])).normalForm = any [not (.exists "a"), any []] :=
  ⟨by rfl, by rfl⟩

end Condition

end Crosswalk
