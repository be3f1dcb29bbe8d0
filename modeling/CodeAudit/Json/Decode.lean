import CodeAudit.Json.Basic

namespace CodeAudit.Json

def fields? (names : List String) : Json → Option (List (Option Json))
  | obj members =>
    names.mapM fun name =>
      match members.filter fun m => m.1 == name with
      | [] => some none
      | [m] => some (some m.2)
      | _ => none
  | arr items =>
    if names.length < items.length then none
    else some (items.map some ++ List.replicate (names.length - items.length) none)
  | _ => none

def fieldD {α : Type} (field : Option Json) (decode : Json → Option α) (default : α) : Option α :=
  match field with
  | none => some default
  | some v => decode v

def fieldOrNull {α : Type} (field : Option Json) (decode : Json → Option α) : Option (Option α) :=
  match field with
  | none | some null => some none
  | some v => (decode v).map some

def listOf? {α : Type} (decode : Json → Option α) : Json → Option (List α)
  | arr items => items.mapM decode
  | _ => none

/-- The word of an enumeration: a string, or an object with that one name and a null. -/
def word? : Json → Option String
  | str s => some s
  | obj [(name, null)] => some name
  | _ => none

def asBool? : Json → Option Bool
  | bool b => some b
  | _ => none

end CodeAudit.Json
