import Mathlib.Data.UInt

/-! JSON values as the clients see them: the accessors of `Json`, which check what they
read, and the raw `operator[]` and `GetString` of the parser library, which do not. -/

namespace VeloxHash

inductive Json
  | null
  | bool (b : Bool)
  | int (i : Int)
  | double (bits : UInt64)
  | string (s : String)
  | array (elements : List Json)
  | object (members : List (String × Json))

namespace Json

def isObject : Json → Bool
  | object _ => true
  | _ => false

/-- `IsInt64()`. -/
def toInt64? : Json → Option Int
  | int i => if -2 ^ 63 ≤ i ∧ i < 2 ^ 63 then some i else none
  | _ => none

def isString : Json → Bool
  | string _ => true
  | _ => false

/-- `FindMember`: the first member of that name. -/
def findMember (key : String) : List (String × Json) → Option Json
  | [] => none
  | (name, value) :: rest => if name = key then some value else findMember key rest

def getValue (key : String) : Json → Json
  | object members => (findMember key members).getD null
  | _ => null

def getString (key : String) (v : Json) : Option String :=
  match v.getValue key with
  | string s => some s
  | _ => none

/-- `HasMember`; a value that is no object has none. -/
def hasMember (key : String) : Json → Bool
  | object members => (findMember key members).isSome
  | _ => false

def getInt64 (key : String) (v : Json) (default : Int) : Int :=
  (v.getValue key).toInt64?.getD default

def getUint64 (key : String) (v : Json) : Nat :=
  match v.getValue key with
  | int i => if 0 ≤ i ∧ i < 2 ^ 64 then i.toNat else 0
  | _ => 0

def getObject (key : String) (v : Json) : Json :=
  if (v.getValue key).isObject then v.getValue key else null

/-- `GetString()` on a value of any type, with assertions compiled out: the pointer is null
for the types that leave it so, and runs into `memory` that is no string for the rest. -/
def rawString (memory : String) : Json → Option String
  | string s => some s
  | array (_ :: _) | object (_ :: _) => some memory
  | _ => none

end Json

end VeloxHash
