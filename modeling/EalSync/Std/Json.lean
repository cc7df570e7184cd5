import EalSync.Std.Str

/-! serde_json::Value. A floating-point number is finite, so it is kept exactly as a mantissa
and a binary exponent; an object keeps its members in order. -/
namespace EalSync

inductive Number where
  | posInt (n : Nat)
  | negInt (n : Int)
  | float (mantissa exponent : Int)
  deriving DecidableEq, Repr

inductive Json where
  | null
  | bool (b : Bool)
  | number (n : Number)
  | string (s : Str)
  | array (items : List Json)
  | object (members : List (Str × Json))
  deriving Repr

namespace Json

def asObject : Json → Option (List (Str × Json))
  | object members => some members
  | null | bool _ | number _ | string _ | array _ => none

def asArray : Json → Option (List Json)
  | array items => some items
  | null | bool _ | number _ | string _ | object _ => none

def asStr : Json → Option Str
  | string s => some s
  | null | bool _ | number _ | array _ | object _ => none

def asU64 : Json → Option Nat
  | number (.posInt n) => some n
  | null | bool _ | number _ | string _ | array _ | object _ => none

/-- as_f64, before the integers are rounded. -/
def asNumber : Json → Option Number
  | number n => some n
  | null | bool _ | string _ | array _ | object _ => none

/-- Value::get of a key; none of anything but an object. -/
def get (key : Str) (value : Json) : Option Json := value.asObject.bind (List.lookup key)

theorem asObject_eq_some {value : Json} {members : List (Str × Json)} :
    value.asObject = some members ↔ value = .object members := by
  cases value <;> simp [asObject]

theorem asStr_eq_some {value : Json} {s : Str} : value.asStr = some s ↔ value = .string s := by
  cases value <;> simp [asStr]

end Json

/-- serde_json::from_slice; an error is the text of the crate's Error. -/
structure SerdeJson where
  fromSlice : List UInt8 → Except Str Json

end EalSync
