import CodeAudit.Config.Read
import CodeAudit.Glob

namespace CodeAudit

/-- Patterns of paths to include and to exclude; none given is not the same as an empty list. -/
structure PathFilter where
  includes : Option (List Glob) := none
  excludes : Option (List Glob) := none

namespace PathFilter

/-- The patterns of a key; the first malformed one is reported. -/
def globs (patterns : List String) (key : String) : Except ConfigError (List Glob) :=
  patterns.mapM fun pattern =>
    match Glob.parse? pattern with
    | some g => .ok g
    | none =>
      .error (.invalid ("Invalid glob '" ++ pattern ++ "' in '" ++ key ++ "': error parsing glob '" ++
        pattern ++ "'"))

def globsUnder (config : Config) (key : String) (patterns : Option (List String)) :
    Except ConfigError (Option (List Glob)) :=
  match patterns with
  | none => .ok none
  | some ps => (globs ps (config.keyPath key)).map some

def ofConfig (config : Config) : Except ConfigError PathFilter := do
  let includes ← config.value? .texts "includes"
  let excludes ← config.value? .texts "excludes"
  let includes ← globsUnder config "includes" includes
  let excludes ← globsUnder config "excludes" excludes
  return { includes, excludes }

/-- Included, or nothing is said about inclusion, and not excluded. -/
def accepts (f : PathFilter) (p : Path) : Bool :=
  (f.includes.all fun gs => gs.any (·.matchesPath p)) &&
    !(f.excludes.any fun gs => gs.any (·.matchesPath p))

end PathFilter

end CodeAudit
