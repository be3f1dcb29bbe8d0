import CodeAudit.Cli.Basic

namespace CodeAudit.Main

def homeName : String := "~"

/-- The entries below a directory; a file that is no text is left out. -/
partial def entriesBelow (place : Place) : IO (List (Place × Entry)) := do
  let here := "/".intercalate place
  let mut dir ← IO.currentDir
  if !place.isEmpty then dir := here
  let mut entries := []
  for e in ← dir.readDir do
    let inner := place ++ [e.fileName]
    if ← e.path.isDir then
      entries := entries ++ (inner, .directory) :: (← entriesBelow inner)
    else
      try
        entries := entries ++ [(inner, .file (← IO.FS.readFile e.path))]
      catch _ => pure ()
  return entries

def homeEntries : IO (List (Place × Entry)) := do
  match ← IO.getEnv "HOME" with
  | none => return []
  | some home =>
    let mut entries := [([homeName], Entry.directory)]
    for name in Config.defaultNames do
      try
        entries := entries ++ [([homeName, name], .file (← IO.FS.readFile (home ++ "/" ++ name)))]
      catch _ => pure ()
    return entries

def store (before after : FileSystem) : IO Unit :=
  for (place, e) in after.entries do
    if before.entry? place != some e then
      match e with
      | .directory => IO.FS.createDirAll ("/".intercalate place)
      | .file text => IO.FS.writeFile ("/".intercalate place) text

def wantsColor : IO Bool := do
  match ← IO.getEnv "CLICOLOR_FORCE" with
  | some v => return v != "0"
  | none => return false

end CodeAudit.Main

def main (args : List String) : IO UInt32 := do
  let fs : CodeAudit.FileSystem := {
    entries := (← CodeAudit.Main.entriesBelow []) ++ (← CodeAudit.Main.homeEntries)
    home := ⟨CodeAudit.Main.homeName⟩ }
  let x := CodeAudit.Cli.command args (← CodeAudit.Main.wantsColor) fs
  IO.print x.stdout
  IO.eprint x.stderr
  CodeAudit.Main.store fs x.files
  return x.code.toUInt32
