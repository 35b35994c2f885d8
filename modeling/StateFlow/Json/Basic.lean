import StateFlow.NameTable

/-! # JSON documents

Documents keep integers and doubles apart: `5` and `5.0` are different documents that compare as
equal numbers. The members of an object stand in the order of their names. -/

namespace StateFlow

/-- A JSON number. Integers are exact. -/
inductive Number where
  | int (value : Int)
  | float (value : Float)
deriving DecidableEq, Inhabited

namespace Number

/-- The double nearest to a number. -/
def toFloat : Number → Float
  | int n => Float.ofInt n
  | float x => x

/-- An integer as a signed word of 64 bits. No document has an integer below all of them, so only
the upper end counts. -/
def signed? : Number → Option Int
  | int n => if n < Int.pow 2 63 then some n else none
  | float _ => none

/-- An integer as an unsigned word of 64 bits. No document has an integer above all of them, so only
the lower end counts. -/
def unsigned? : Number → Option Nat
  | int n => if 0 ≤ n then some n.toNat else none
  | float _ => none

/-- The order of two doubles; what is no number has none. -/
def compareFloats? (x y : Float) : Option Ordering :=
  if x < y then some .lt else if x == y then some .eq else if y < x then some .gt else none

/-- Integers are compared as words of one kind if there is one that holds both. If there is none,
one of them is negative and the other beyond the signed words. Next to a double both sides are taken
as doubles. -/
def compare? (a b : Number) : Option Ordering :=
  match a.signed?, b.signed?, a.unsigned?, b.unsigned? with
  | some m, some n, _, _ => some (compare m n)
  | _, _, some m, some n => some (compare m n)
  | some _, none, none, some _ => some .lt
  | none, some _, some _, none => some .gt
  | _, _, _, _ => compareFloats? a.toFloat b.toFloat

end Number

/-- A JSON document. -/
inductive Json where
  | null
  | bool (value : Bool)
  | number (value : Number)
  | string (value : String)
  | array (items : List Json)
  | object (members : List (String × Json))
deriving Inhabited, BEq

namespace Json

def isNull : Json → Bool
  | null => true
  | _ => false

def isString : Json → Bool
  | string _ => true
  | _ => false

def isNumber : Json → Bool
  | number _ => true
  | _ => false

def isBool : Json → Bool
  | bool _ => true
  | _ => false

def asString? : Json → Option String
  | string s => some s
  | _ => none

def asBool? : Json → Option Bool
  | bool b => some b
  | _ => none

/-- The items of an array, and none of any other document. -/
def items : Json → List Json
  | array xs => xs
  | _ => []

/-- The members of an object, and none of any other document. -/
def members : Json → Entries Json
  | object ms => ms
  | _ => []

/-- An object with these members; of a repeated name the last one stays. -/
def ofMembers (members : List (String × Json)) : Json :=
  object (Entries.ofList members)

/-- The integer of a natural number. -/
def ofNat (n : Nat) : Json :=
  number (.int n)

end Json

end StateFlow
