import CodeAudit.Value.Basic

namespace CodeAudit.Value

/-- Applies `f` to the value of the entry with key `k`, or appends `k` with `v`. -/
def upsert (k v : Value) (f : Value → Value) : List (Value × Value) → List (Value × Value)
  | [] => [(k, v)]
  | (k', old) :: rest => if same k k' then (k', f old) :: rest else (k', old) :: upsert k v f rest

mutual

def merge (base overlay : Value) : Value :=
  match overlay with
  | null => base
  | mapping upper =>
    match base with
    | mapping lower => mapping (mergeEntries lower upper)
    | _ => mapping upper
  | v => v
termination_by structural overlay

/-- Lays the entries of a mapping on top of those of another, one after the other. -/
def mergeEntries (lower upper : List (Value × Value)) : List (Value × Value) :=
  match upper with
  | [] => lower
  | (k, v) :: rest => mergeEntries (upsert k v (fun old => merge old v) lower) rest
termination_by structural upper

end

/-- What a change has made of something, and whether it got to the end of its path. -/
structure Edited (α : Type) where
  value : α
  reached : Bool

def Edited.map {α β : Type} (f : α → β) (e : Edited α) : Edited β :=
  { value := f e.value, reached := e.reached }

/-- Changes the value at a path of names in place. Null scopes on the way become mappings and missing
ones are added as they are come to. A value on the way that is neither null nor a mapping, tags
looked through, ends the change, and what was done before it stays done. -/
def editAt (f : Value → Value) : List String → Value → Edited Value
  | [], v => { value := f v, reached := true }
  | name :: rest, v => enter name (editAt f rest) (if v.isNull then mapping [] else v)
where
  enter (name : String) (g : Value → Edited Value) : Value → Edited Value
    | mapping entries => (enterEntries name g entries).map mapping
    | tagged tag v => (enter name g v).map (tagged tag)
    | v => { value := v, reached := false }
  enterEntries (name : String) (g : Value → Edited Value) :
      List (Value × Value) → Edited (List (Value × Value))
    | [] => (g (mapping [])).map fun w => [(string name, w)]
    | (k, v) :: rest =>
      if k.isName name then (g v).map fun w => (k, w) :: rest
      else (enterEntries name g rest).map fun rest => (k, v) :: rest

/-- The mapping that holds a value at a path and nothing else. -/
def nest (v : Value) : List String → Value
  | [] => v
  | name :: rest => mapping [(string name, nest v rest)]

end CodeAudit.Value
