import Crosswalk.Condition
import Crosswalk.Source
import Crosswalk.Vocabulary.Basic

/-!
# Testing conditions

A condition that fails at a node discards what it guards. Tests that ask for broader, narrower or
equivalent terms need a vocabulary, even where the value is the wanted one already. A conjunction
stops at its first condition that fails, a disjunction at its first one that does not, so a fault in a
later one does not come up.
-/

namespace Crosswalk

open Crosswalk.Xml (Location)

structure ConditionSetting where
  source : Source
  vocabulary? : Option Vocabulary

namespace ConditionSetting

def require (s : ConditionSetting) (c : Condition) : Except RunError Vocabulary :=
  match s.vocabulary? with
  | some v => .ok v
  | none => .error (.vocabulary (.missing c.display))

def scalar (s : ConditionSetting) (node : Location) (expression : String) :
    Except RunError String :=
  (s.source.scalar node expression).mapError .setup

end ConditionSetting

namespace Condition

/-- A test of the value of an expression against a value and the terms that may stand for it. -/
def termFails (s : ConditionSetting) (node : Location) (c : Condition) (expression value : String)
    (terms : Vocabulary → String → List String) : Except RunError Bool := do
  let vocabulary ← s.require c
  let found ← s.scalar node expression
  .ok (found != value && !(terms vocabulary value).contains found)

mutual

def fails (s : ConditionSetting) (node : Location) : Condition → Except RunError Bool
  | .exists e => ((s.source.hasValue node e).mapError .setup).map (!·)
  | equals e v => (s.scalar node e).map (· != v)
  | c@(broader e v) => termFails s node c e v Vocabulary.broaderTerms
  | c@(narrower e v) => termFails s node c e v Vocabulary.narrowerTerms
  | c@(exactMatch e v) => termFails s node c e v Vocabulary.exactTerms
  | all cs => anyFails s node cs
  | any cs => allFail s node cs
  | not c => (fails s node c).map (!·)

def anyFails (s : ConditionSetting) (node : Location) : List Condition → Except RunError Bool
  | [] => .ok false
  | c :: rest => do
    if ← fails s node c then .ok true else anyFails s node rest

def allFail (s : ConditionSetting) (node : Location) : List Condition → Except RunError Bool
  | [] => .ok true
  | c :: rest => do
    if ← fails s node c then allFail s node rest else .ok false

end

/-- Whether what a condition guards is discarded; without a condition it never is. -/
def guardFails (s : ConditionSetting) (node : Location) :
    Option Condition → Except RunError Bool
  | some c => c.fails s node
  | none => .ok false

end Condition

end Crosswalk
