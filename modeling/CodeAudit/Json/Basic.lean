import CodeAudit.Number.Binary64

namespace CodeAudit

inductive Json where
  | null
  | bool (value : Bool)
  | int (value : Int)
  | float (value : Number.Binary64)
  | str (value : String)
  | arr (items : List Json)
  | obj (members : List (String × Json))
deriving Inhabited

namespace Json

/-- Value of the first member with the given name; `none` for anything but an object. -/
def get? (name : String) : Json → Option Json
  | obj members => (members.find? fun m => m.1 == name).map (·.2)
  | _ => none

def asCount? : Json → Option Nat
  | int i => if 0 ≤ i && i < Number.pow2 64 then some i.toNat else none
  | _ => none

def asString? : Json → Option String
  | str s => some s
  | _ => none

def asList? : Json → Option (List Json)
  | arr items => some items
  | _ => none

end Json

end CodeAudit
