import Crosswalk.Run.State
import Crosswalk.Text.Distinct

/-!
# Identities

The value that an entity gets. It is the value of a variable once that is bound; else the value that was
generated for the same key; else a fresh one, which is kept from then on. A key is made of the
path of the node, the types, and what tells apart entities of equal types at one node: the place of
an intermediate or additional entity, the owner of the latter, and for literals of two datatypes the
mapping, the link and the position as well.
-/

namespace Crosswalk

def literalType : String := Namespaces.rdfs ++ "Literal"

def dateTimeType : String := Namespaces.xsd ++ "dateTime"

def isOwnLiteral (types : List String) : Bool :=
  types.contains literalType || types.contains dateTimeType

def Role.keyText : Role → String
  | .additional k => "-A" ++ toString k
  | .intermediate k => "-int" ++ toString k
  | _ => ""

def literalKeyText (place : Place) (c : Context) : String :=
  "-lit:m" ++ toString place.mapping ++ ":l" ++ toString (place.link?.getD 0) ++ ":" ++
    c.role.name ++ ":" ++ toString c.position

def cacheKey (source : Source) (place : Place) (c : Context) (types : List String) : String :=
  source.path c.node ++ "|" ++ ",".intercalate (Text.sorted types) ++ c.role.keyText ++
    ((c.discriminator?.map ("@" ++ ·)).getD "") ++
    (if isOwnLiteral types then literalKeyText place c else "")

/-- A generated value as the types want it: a literal has exactly one type, which is its datatype
unless it is the type of plain literals. -/
def Value.shape (types : List String) : Value → Except SetupError Value
  | .uri iri => .ok (.uri iri)
  | .literal t language? =>
    match types with
    | [type] => .ok (if type == literalType then .literal t language? else .typed t type)
    | _ => .error (.ambiguousTypes types.length)
  | .typed t datatype =>
    if types.length == 1 then .ok (.typed t datatype) else .error (.ambiguousTypes types.length)

namespace Run

/-- The value that a variable is bound to: a generated one, so without a generator there is none. -/
def firstValue (scene : Scene) (generator? : Option GeneratorCall) (c : Context) (name : String) :
    Run Value :=
  match generator? with
  | some call => generate scene call c.node c.position
  | none => drop (.unboundVariable name)

def globalValue (scene : Scene) (generator? : Option GeneratorCall) (id : Nat) (name : String) :
    Run Value := do
  match (← get).globals.get? name with
  | some value => return value
  | none =>
    let value ← firstValue scene generator? (← context id) name
    modify fun s => { s with globals := s.globals.insert name value }
    return value

def variableValue (scene : Scene) (generator? : Option GeneratorCall) (id : Nat) (name : String) :
    Run Value := do
  match (← get).contexts.lookup? id name with
  | some value => return value
  | none =>
    let value ← firstValue scene generator? (← context id) name
    modify fun s => { s with contexts := s.contexts.bind id name value }
    return value

def keyedValue (scene : Scene) (place : Place) (generator? : Option GeneratorCall) (id : Nat)
    (types : List String) : Run Value := do
  match generator? with
  | none => throw (Fault.setup .missingGenerator)
  | some call =>
    let c ← context id
    let key := cacheKey scene.source place c types
    match (← get).cache.get? key with
    | some value => return value
    | none =>
      let value ← generate scene call c.node c.position
      modify fun s => { s with cache := s.cache.insert key value }
      return value

/-- The value of an entity in a context, before it is shaped. -/
def entityValue (scene : Scene) (place : Place) (entity : Entity) (id : Nat)
    (types : List String) : Run Value :=
  match entity.globalName?, entity.variableName? with
  | some name, _ => globalValue scene entity.generator? id name
  | none, some name => variableValue scene entity.generator? id name
  | none, none => keyedValue scene place entity.generator? id types

end Run

end Crosswalk
