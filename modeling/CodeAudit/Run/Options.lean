import CodeAudit.Config.Load
import CodeAudit.Registry

namespace CodeAudit

structure RunOptions where
  configPaths : List Path := []
  defaultConfig : Bool := true
  overrides : List (List String × Value) := []
  baseline : Option Path := none
  createBaseline : Bool := false
  manifestDirs : List Path := []
  discovery : Discovery := {}
  restriction : Restriction := .all

namespace RunOptions

def files (o : RunOptions) (fs : FileSystem) : Except ConfigError Config :=
  if !o.configPaths.isEmpty then Config.loadLayered fs o.configPaths
  else if o.defaultConfig then Config.loadDefault fs
  else .ok .empty

/-- The configuration of the files, with the overrides set. -/
def config (o : RunOptions) (fs : FileSystem) : Except ConfigError Config :=
  (o.files fs).map fun c => o.overrides.foldl (fun c (path, v) => c.set path v) c

end RunOptions

end CodeAudit
