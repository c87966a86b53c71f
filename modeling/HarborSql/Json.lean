/-! JSON values (`serde_json::Value`), as far as they are read and compared. -/

namespace HarborSql

/-- A number, as it was parsed. A double is given by its bits, and is finite. -/
inductive JsonNumber where
  | posInt (n : UInt64)
  | negInt (n : Int64)
  | float (bits : UInt64)

/-- Two doubles are equal if their bits are, or if both are zero. -/
def JsonNumber.beq : JsonNumber → JsonNumber → Bool
  | posInt a, posInt b => a == b
  | negInt a, negInt b => a == b
  | float a, float b => a == b || (a <<< 1 == 0 && b <<< 1 == 0)
  | _, _ => false

/-- The fields of an object are in the order of their keys, which are distinct. -/
inductive Json where
  | null
  | bool (b : Bool)
  | number (n : JsonNumber)
  | string (s : String)
  | array (items : List Json)
  | object (fields : List (String × Json))

namespace Json

mutual

def beq : Json → Json → Bool
  | null, null => true
  | bool a, bool b => a == b
  | number a, number b => a.beq b
  | string a, string b => a == b
  | array a, array b => beqItems a b
  | object a, object b => beqFields a b
  | _, _ => false

def beqItems : List Json → List Json → Bool
  | [], [] => true
  | a :: as, b :: bs => a.beq b && beqItems as bs
  | _, _ => false

def beqFields : List (String × Json) → List (String × Json) → Bool
  | [], [] => true
  | (k, a) :: as, (l, b) :: bs => k == l && a.beq b && beqFields as bs
  | _, _ => false

end

instance : BEq Json := ⟨beq⟩

/-- `get`. -/
def get? : Json → String → Option Json
  | object fields, key => fields.lookup key
  | _, _ => none

/-- `value[key]`. -/
def index (value : Json) (key : String) : Json := (value.get? key).getD null

def asStr : Json → Option String
  | string s => some s
  | _ => none

def asArray : Json → Option (List Json)
  | array items => some items
  | _ => none

def isNull : Json → Bool
  | null => true
  | _ => false

end Json
end HarborSql
