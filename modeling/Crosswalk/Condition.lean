import Crosswalk.Text.Quoted

/-!
# Conditions

Trees of tests that guard a part of the mapping, and the text by which messages show them.
-/

namespace Crosswalk

inductive Condition where
  | exists (expression : String)
  | equals (expression value : String)
  | broader (expression value : String)
  | narrower (expression value : String)
  | exactMatch (expression value : String)
  | all (conditions : List Condition)
  | any (conditions : List Condition)
  | not (condition : Condition)
  deriving Repr, Inhabited

namespace Condition

def displayTest (name expression value : String) : String :=
  name ++ "(" ++ expression ++ ", " ++ Text.quoted value ++ ")"

mutual

def display : Condition → String
  | .exists e => "exists(" ++ e ++ ")"
  | equals e v => displayTest "equals" e v
  | broader e v => displayTest "broader" e v
  | narrower e v => displayTest "narrower" e v
  | exactMatch e v => displayTest "exact_match" e v
  | all cs => "and(" ++ ", ".intercalate (displayAll cs) ++ ")"
  | any cs => "or(" ++ ", ".intercalate (displayAll cs) ++ ")"
  | not c => "not(" ++ c.display ++ ")"

def displayAll : List Condition → List String
  | [] => []
  | c :: cs => c.display :: displayAll cs

end

end Condition

end Crosswalk
