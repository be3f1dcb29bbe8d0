import CodeAudit.Number.Shortest

namespace CodeAudit

/-- An integer in the range of 64 bits, signed or not, or a binary64 number. -/
inductive Numeral where
  | int (value : Int)
  | float (value : Number.Binary64)
deriving DecidableEq, Repr

namespace Numeral

def text : Numeral → String
  | int i => toString i
  | float x => x.text

/-- Equality as map keys: an integer and a float are never equal. -/
def same : Numeral → Numeral → Bool
  | int a, int b => a == b
  | float a, float b => a.same b
  | _, _ => false

end Numeral

inductive Value where
  | null
  | bool (value : Bool)
  | number (value : Numeral)
  | string (value : String)
  | list (items : List Value)
  | mapping (entries : List (Value × Value))
  | tagged (tag : String) (value : Value)
deriving Inhabited

namespace Value

mutual

/-- Equality as map keys: mappings are equal when they hold the same entries in any order. -/
def same : Value → Value → Bool
  | null, null => true
  | bool a, bool b => a == b
  | number a, number b => a.same b
  | string a, string b => a == b
  | list as, list bs => sameItems as bs
  | mapping as, mapping bs => as.length == bs.length && sameEntries as bs
  | tagged s a, tagged t b => s == t && same a b
  | _, _ => false

def sameItems : List Value → List Value → Bool
  | [], [] => true
  | a :: as, b :: bs => same a b && sameItems as bs
  | _, _ => false

/-- Whether every entry of the first mapping has its like in the second. -/
def sameEntries : List (Value × Value) → List (Value × Value) → Bool
  | [], _ => true
  | (k, v) :: rest, bs => bs.any (fun e => same k e.1 && same v e.2) && sameEntries rest bs

end

def entries? : Value → Option (List (Value × Value))
  | mapping entries => some entries
  | tagged _ v => v.entries?
  | _ => none

def isNull : Value → Bool
  | null => true
  | tagged _ v => v.isNull
  | _ => false

def isName (name : String) : Value → Bool
  | string s => s == name
  | _ => false

def lookup (name : String) (entries : List (Value × Value)) : Option Value :=
  (entries.find? fun e => e.1.isName name).map (·.2)

def get? (v : Value) (name : String) : Option Value :=
  v.entries?.bind (lookup name)

def at? (v : Value) : List String → Option Value
  | [] => some v
  | name :: rest => (v.get? name).bind fun w => w.at? rest

def scalarText? : Value → Option String
  | string s => some s
  | bool b => some (if b then "true" else "false")
  | number n => some n.text
  | _ => none

def describe : Value → String
  | null => "null"
  | bool b => "boolean '" ++ (if b then "true" else "false") ++ "'"
  | number n => "number '" ++ n.text ++ "'"
  | string s => "string '" ++ s ++ "'"
  | list _ => "a list"
  | mapping _ => "a nested configuration"
  | tagged tag _ => "tagged value '!" ++ tag ++ "'"

end Value

end CodeAudit
