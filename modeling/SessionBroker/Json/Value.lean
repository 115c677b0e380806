import SessionBroker.Json.Number

/-!
# JSON values

The members of an object are kept in increasing order of their names, by code points; of two
members of one name the later counts.
-/

namespace SessionBroker.Json

inductive Value where
  | null
  | bool (b : Bool)
  | number (n : Number)
  | string (s : String)
  | array (items : List Value)
  | object (members : List (String × Value))
  deriving Repr

/-- Puts a member into a list of members in increasing order of names. -/
def insertMember (name : String) (value : Value) :
    List (String × Value) → List (String × Value)
  | [] => [(name, value)]
  | (n, v) :: rest =>
    if name = n then (name, value) :: rest
    else if name < n then (name, value) :: (n, v) :: rest
    else (n, v) :: insertMember name value rest

namespace Value

/-- An object with the given members; the later of two members of one name counts. -/
def ofMembers (members : List (String × Value)) : Value :=
  .object (members.foldl (fun acc (n, v) => insertMember n v acc) [])

def get? (name : String) : Value → Option Value
  | .object members => (members.find? (·.1 = name)).map (·.2)
  | _ => none

def ofNat (n : Nat) : Value := .number (.natural n)

def isObject : Value → Bool
  | .object _ => true
  | _ => false

def isString : Value → Bool
  | .string _ => true
  | _ => false

end Value

end SessionBroker.Json
