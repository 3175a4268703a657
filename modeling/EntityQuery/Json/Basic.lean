-- SUMMARY: JSON values, the members of objects, and the order of members.
import EntityQuery.Keyed

/-!
# JSON values

Whole numbers are kept apart from doubles, so that `1000` is never written
as `1000.0`. The members of an object have an order, which is the one they are
written in; a JSON text that is read gives them in the order of their names.
-/

namespace EntityQuery

/-- A JSON value. -/
inductive Json where
  | null
  | bool (b : Bool)
  | int (n : Int)
  | float (x : Float)
  | string (s : Text)
  | array (items : List Json)
  | object (members : List (Text × Json))

namespace Json

/-- The value of a member of an object. -/
def member? (name : Text) : Json → Option Json
  | object members => Keyed.find? name members
  | _ => none

/-- The text of a JSON string. -/
def text? : Json → Option Text
  | string s => some s
  | _ => none

/-- Whether a value is an object. -/
def isObject : Json → Bool
  | object _ => true
  | _ => false

mutual

/-- The same value with the members of every object in the order of their names. -/
def sorted : Json → Json
  | array items => array (sortedItems items)
  | object members => object (Keyed.ofList (sortedMembers members))
  | v => v

/-- The items of an array, each with its members in order. -/
def sortedItems : List Json → List Json
  | [] => []
  | v :: items => sorted v :: sortedItems items

/-- The members of an object, each value with its members in order. -/
def sortedMembers : List (Text × Json) → List (Text × Json)
  | [] => []
  | (name, v) :: members => (name, sorted v) :: sortedMembers members

end

end Json

end EntityQuery
