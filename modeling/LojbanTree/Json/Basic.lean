import LojbanTree.Decimal.Binary64
import LojbanTree.Text.Basic

/-!
Values of the JSON data format.

Whole numbers are kept apart from numbers written with a point or an exponent, and the fields of
an object keep their order.
-/

namespace LojbanTree

/-- A number as the text gave it. -/
inductive Json.Number where
  | int (value : Int)
  | decimal (value : Decimal)
  | infinite (negative : Bool)
  | nan
  deriving DecidableEq, Repr

/-- A JSON value. -/
inductive Json where
  | null
  | bool (value : Bool)
  | num (value : Json.Number)
  | str (value : Text)
  | arr (items : List Json)
  | obj (fields : List (Text × Json))
  deriving Repr

namespace Json

/-- The value of a number, when it is whole. Numbers with a point are taken as the nearest
binary number first. -/
def Number.integer? : Number → Option Int
  | .int n => some n
  | .decimal d => (Binary64.nearest d).integer?
  | .infinite _ => none
  | .nan => none

/-- The kinds of value. -/
inductive Kind where
  | null | bool | int | float | str | list | object
  deriving DecidableEq, Repr

/-- The name under which messages mention a kind. -/
def Kind.name : Kind → String
  | .null => "NoneType"
  | .bool => "bool"
  | .int => "int"
  | .float => "float"
  | .str => "str"
  | .list => "list"
  | .object => "dict"

/-- The kind of a number: whole numbers stand apart from all others. -/
def Number.kind : Number → Kind
  | .int _ => .int
  | _ => .float

/-- The kind of a value. -/
def kind : Json → Kind
  | .null => .null
  | .bool _ => .bool
  | .num n => n.kind
  | .str _ => .str
  | .arr _ => .list
  | .obj _ => .object

/-- Sets a field: a key that is there keeps its place. -/
def putField (fields : List (Text × Json)) (key : Text) (value : Json) :
    List (Text × Json) :=
  if fields.any (fun field => field.1 = key) then
    fields.map fun field => if field.1 = key then (key, value) else field
  else fields ++ [(key, value)]

/-- The value of an object's field. -/
def field? : Json → Text → Option Json
  | .obj fields, key => fields.lookup key
  | _, _ => none

end Json

end LojbanTree
