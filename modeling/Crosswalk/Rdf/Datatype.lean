import Crosswalk.Namespaces
import Crosswalk.Number.Text
import Crosswalk.Rdf.Datatype.Calendar
import Crosswalk.Rdf.Datatype.Duration

/-!
# Canonical literals

Two literals of a datatype of XML Schema may be different texts for one value. A literal is kept in
the canonical text of its value, so that equal values are equal literals: `01.50` and `1.5` are one
decimal. The datatypes of integers in some range count as integers. A literal whose text its datatype
does not admit, or whose value is out of range, is kept as it is written.
-/

namespace Crosswalk.Rdf

def canonicalBoolean? (text : String) : Option String :=
  if text == "true" || text == "1" then some "true"
  else if text == "false" || text == "0" then some "false"
  else none

def floatText (fmt : NumberFormat) : Number → String
  | .infinite negative => if negative then "-INF" else "INF"
  | x => x.display fmt

def canonicalFloat? (fmt : NumberFormat) (text : String) : Option String :=
  (Number.read? fmt text.toList).map (floatText fmt)

def integerNames : List String :=
  ["integer", "byte", "short", "int", "long", "unsignedByte", "unsignedShort", "unsignedInt",
    "unsignedLong", "positiveInteger", "negativeInteger", "nonPositiveInteger",
    "nonNegativeInteger"]

/-- The canonical text for the value of a text, and the local name of the datatype that it is kept
with, for a datatype of XML Schema. -/
def canonicalSchema? (name text : String) : Option (String × String) :=
  let keep (t? : Option (List Char)) := t?.map fun t => (String.ofList t, name)
  if integerNames.contains name then
    (readInteger? text.toList).map fun n => (toString n, "integer")
  else
    match name with
    | "boolean" => (canonicalBoolean? text).map (·, name)
    | "decimal" => keep ((readDecimal? text.toList).map decimalText)
    | "float" => (canonicalFloat? .single text).map (·, name)
    | "double" => (canonicalFloat? .double text).map (·, name)
    | "dateTime" => keep (canonicalDateTime? text.toList)
    | "dateTimeStamp" => (canonicalDateTime? text.toList).map (String.ofList ·, "dateTime")
    | "date" => keep (canonicalDate? text.toList)
    | "time" => keep (canonicalTime? text.toList)
    | "gYearMonth" => keep (canonicalYearMonth? text.toList)
    | "gYear" => keep (canonicalYear? text.toList)
    | "gMonthDay" => keep (canonicalMonthDay? text.toList)
    | "gMonth" => keep (canonicalMonth? text.toList)
    | "gDay" => keep (canonicalDay? text.toList)
    | "duration" => keep (canonicalDuration? text.toList)
    | "yearMonthDuration" => keep (canonicalMonths? text.toList)
    | "dayTimeDuration" => keep (canonicalSeconds? text.toList)
    | _ => none

/-- The text and the datatype that a typed literal is kept with. -/
def canonicalTyped (text datatype : String) : String × String :=
  match (Text.dropStart? Namespaces.xsd datatype).bind (canonicalSchema? · text) with
  | some (t, name) => (t, Namespaces.xsd ++ name)
  | none => (text, datatype)

end Crosswalk.Rdf
