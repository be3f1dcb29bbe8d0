import CodeAudit.Baseline.Document
import CodeAudit.FileSystem

namespace CodeAudit

inductive BaselineError where
  | io (cause : IoError)
  | refused (file : Path) (defect : Baseline.Defect)
deriving DecidableEq, Repr

def BaselineError.message : BaselineError → String
  | io cause => "IO error: " ++ cause.message
  | refused file defect =>
    (if defect.isMalformed then "Malformed baseline " else "Unexpected baseline structure in ") ++
      file.text ++ ": " ++ defect.message

namespace Baseline

/-- The baseline in a file; a missing file is an empty baseline. -/
def load (fs : FileSystem) (path : Path) : Except BaselineError Baseline := do
  if !fs.exists? path then return {}
  let text ← (fs.read path).mapError .io
  (parse text).mapError (.refused path)

inductive Outcome where
  | written
  | unchanged
  | skipped
deriving DecidableEq, Repr

def store (fs : FileSystem) (path : Path) (text : String) : Except BaselineError FileSystem := do
  let fs ← (fs.makeDirs [] path.components.dropLast).mapError .io
  (fs.write path text).mapError .io

def update (fs : FileSystem) (path : Path) (findings : List Finding) :
    Except BaselineError (FileSystem × Outcome) := do
  if !fs.exists? path && findings.isEmpty then return (fs, .skipped)
  let old ← load fs path
  let document := (old.withFindings findings).render
  if (fs.read path).toOption == some document then return (fs, .unchanged)
  return (← store fs path document, .written)

/-- The store after an update. One that fails when the old baseline has been read has made
directories before. -/
def updated (fs : FileSystem) (path : Path) (findings : List Finding) : FileSystem :=
  match update fs path findings, load fs path with
  | .ok (fs, _), _ => fs
  | .error _, .ok _ => fs.madeDirs [] path.components.dropLast
  | .error _, .error _ => fs

end Baseline

end CodeAudit
