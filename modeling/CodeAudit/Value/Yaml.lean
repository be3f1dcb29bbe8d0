import CodeAudit.Number.Reading
import CodeAudit.Value.Basic
import CodeAudit.Yaml.Document

/-!
Values of YAML documents. A plain scalar is null, a boolean, an integer or a float when it reads as
one in the core schema, and otherwise a string; quoted and block scalars are strings. Aliases are
followed, and an own tag makes a tagged value.
-/

namespace CodeAudit.Value

open Number (Binary64 boundedNat?)

/-- Digits behind a leading zero, which make a string and not a number. -/
def hasLeadingZero (cs : List Char) : Bool :=
  let cs :=
    match cs with
    | '-' :: rest => rest
    | '+' :: rest => rest
    | cs => cs
  match cs with
  | '0' :: d :: rest => (d :: rest).all Char.isDigit
  | _ => false

def basedNat? (bound : Nat) : List Char → Option Nat
  | '0' :: 'x' :: rest => boundedNat? 16 bound rest
  | '0' :: 'o' :: rest => boundedNat? 8 bound rest
  | '0' :: 'b' :: rest => boundedNat? 2 bound rest
  | _ => none

/-- A natural number below `bound`, decimal or with a base mark, with an optional `+`. -/
def plainNat? (bound : Nat) (cs : List Char) : Option Nat :=
  let unsigned :=
    match cs with
    | '+' :: rest => rest
    | cs => cs
  match basedNat? bound unsigned with
  | some n => some n
  | none => if hasLeadingZero cs then none else boundedNat? 10 bound unsigned

/-- The magnitude, at most `bound`, of an integer with a minus sign. -/
def plainNegative? (bound : Nat) (cs : List Char) : Option Nat :=
  match cs with
  | '-' :: rest =>
    match basedNat? (bound + 1) rest with
    | some n => some n
    | none => if hasLeadingZero cs then none else boundedNat? 10 (bound + 1) rest
  | _ => none

inductive PlainInt where
  | fits (value : Int)
  /-- Beyond 64 bits but within 128: no value can hold it. -/
  | tooLarge
  | notAnInt

def plainInt (cs : List Char) : PlainInt :=
  match plainNat? (Number.pow2 64) cs with
  | some n => .fits n
  | none =>
    match plainNegative? (Number.pow2 63) cs with
    | some n => .fits (-(n : Int))
    | none =>
      if (plainNat? (Number.pow2 128) cs).isSome || (plainNegative? (Number.pow2 127) cs).isSome then .tooLarge
      else .notAnInt

def plainFloat? (text : String) : Option Binary64 :=
  match text with
  | ".inf" | ".Inf" | ".INF" | "+.inf" | "+.Inf" | "+.INF" => some (Binary64.infinity false)
  | "-.inf" | "-.Inf" | "-.INF" => some (Binary64.infinity true)
  | ".nan" | ".NaN" | ".NAN" => some Binary64.nan
  | _ =>
    match text.toList with
    | '+' :: '+' :: _ => none
    | '+' :: '-' :: _ => none
    | _ =>
      match Number.parseFloat? text with
      | some x => if x.isFinite then some x else none
      | none => none

def isNullWord (text : String) : Bool :=
  text == "null" || text == "Null" || text == "NULL" || text == "~"

def boolWord? : String → Option Bool
  | "true" | "True" | "TRUE" => some true
  | "false" | "False" | "FALSE" => some false
  | _ => none

/-- The value of a plain scalar without a tag; `none` for an integer that does not fit. -/
def ofPlain (text : String) : Option Value :=
  if text.isEmpty || isNullWord text then some null
  else
    match boolWord? text with
    | some b => some (bool b)
    | none =>
      match plainInt text.toList with
      | .fits i => some (number (.int i))
      | .tooLarge => none
      | .notAnInt =>
        if hasLeadingZero text.toList then some (string text)
        else
          match plainFloat? text with
          | some x => some (number (.float x))
          | none => some (string text)

def coreTag (name : String) : String := "tag:yaml.org,2002:" ++ name

def ofScalar (tag : Option String) (text : String) (plain : Bool) : Option Value :=
  match tag with
  | none => if plain then ofPlain text else some (string text)
  | some tag =>
    if tag == coreTag "bool" then (boolWord? text).map bool
    else if tag == coreTag "int" then
      match plainInt text.toList with
      | .fits i => some (number (.int i))
      | _ => none
    else if tag == coreTag "float" then (plainFloat? text).map fun x => number (.float x)
    else if tag == coreTag "null" then (if isNullWord text then some null else none)
    else some (string text)

/-- The name of an own tag, which starts with `!`. -/
def ownTag? (tag : Option String) : Option String :=
  match tag.map String.toList with
  | some ('!' :: rest) => some (String.ofList rest)
  | _ => none

/-- Follows an alias. The second component counts how often this was done; there is a limit, so
that a short text cannot stand for an enormous value. -/
def follow (anchors : Yaml.Anchors) (limit : Nat) (jumps : Nat) :
    Yaml.Node → Option (Yaml.Node × Nat)
  | .alias id => if limit < jumps + 1 then none else (anchors.node? id).map (·, jumps + 1)
  | n => some (n, jumps)

def withTag (tag : Option String) (v : Value) : Option Value :=
  match ownTag? tag with
  | none => some v
  | some name =>
    if name.isEmpty then none
    else
      match name.toList with
      | '!' :: c :: rest => some (tagged (String.ofList (c :: rest)) v)
      | _ => some (tagged name v)

/-- The value of a scalar; an own tag says nothing about its text. -/
def ofTaggedScalar (tag : Option String) (text : String) (plain : Bool) : Option Value := do
  let v ←
    match ownTag? tag with
    | some _ => ofScalar none text plain
    | none => ofScalar tag text plain
  withTag tag v

/-- The value of a node, at most `depth` collections deep. -/
def ofNode (anchors : Yaml.Anchors) (limit : Nat) :
    Nat → Nat → Yaml.Node → Option (Value × Nat)
  | 0, jumps, node => do
    let (node, jumps) ← follow anchors limit jumps node
    match node with
    | .scalar tag text plain => return (← ofTaggedScalar tag text plain, jumps)
    | .sequence _ _ | .mapping _ _ | .alias _ => none
  | depth + 1, jumps, node => do
    let (node, jumps) ← follow anchors limit jumps node
    match node with
    | .scalar tag text plain => return (← ofTaggedScalar tag text plain, jumps)
    | .sequence tag items =>
      let (items, jumps) ← items.foldlM
        (fun (acc, jumps) item => do
          let (v, jumps) ← ofNode anchors limit depth jumps item
          return (v :: acc, jumps))
        (([], jumps) : List Value × Nat)
      return (← withTag tag (list items.reverse), jumps)
    | .mapping tag entries =>
      let (entries, jumps) ← entries.foldlM
        (fun (acc, jumps) (k, v) => do
          let (k, jumps) ← ofNode anchors limit depth jumps k
          if acc.any fun e => same k e.1 then none
          else
            let (v, jumps) ← ofNode anchors limit depth jumps v
            return ((k, v) :: acc, jumps))
        (([], jumps) : List (Value × Value) × Nat)
      return (← withTag tag (mapping entries.reverse), jumps)
    | .alias _ => none

/-- How many collections may stand inside each other. -/
def maxDepth : Nat := 128

/-- The value of a YAML text with one document; an empty one is null. -/
def ofYaml? (text : String) : Option Value := do
  let doc ← Yaml.document? text
  match doc.root with
  | none => return null
  | some root =>
    let (v, _) ← ofNode doc.anchors (root.events * 100) maxDepth 0 root
    return v

end CodeAudit.Value
