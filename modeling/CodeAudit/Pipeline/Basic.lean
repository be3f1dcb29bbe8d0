import CodeAudit.Baseline.File
import CodeAudit.Result.Basic

namespace CodeAudit

inductive ExtensionError where
  | failed (extension detail : String)
  | baseline (cause : BaselineError)
deriving DecidableEq, Repr

def ExtensionError.message : ExtensionError → String
  | failed extension detail => "Extension '" ++ extension ++ "' failed: " ++ detail
  | baseline cause => "Baseline error: " ++ cause.message

inductive Stage where
  | observe
  | transform
  | final
deriving DecidableEq, Repr

structure Call where
  extension : String
  stage : Stage
  input : AnalysisResult

/-- What a pipeline asks of its extensions. A call may change what the extension remembers, which is
in `X`, and the files that all of them work on, which are in `W`; a call that fails may have done so
before. -/
class Staged (X : Type) (W : outParam Type) where
  id : X → String
  priority : X → Int
  observe : AnalysisResult → X → W → Except ExtensionError Unit × X × W
  transform : AnalysisResult → X → W → Except ExtensionError AnalysisResult × X × W
  final : AnalysisResult → X → W → X × W

/-- What a stage, or a whole run, left behind. -/
structure Progress (X W α : Type) where
  extensions : List X
  files : W
  calls : List Call
  outcome : Except ExtensionError α

structure Pipeline (X : Type) where
  extensions : List X := []

namespace Pipeline

variable {X W : Type} [Staged X W]

def register (p : Pipeline X) (x : X) : Pipeline X :=
  { extensions :=
      (p.extensions ++ [x]).mergeSort fun a b => Staged.priority a ≤ Staged.priority b }

def ofList (xs : List X) : Pipeline X := xs.foldl register {}

def ids (p : Pipeline X) : List String := p.extensions.map Staged.id

def observeAll (r : AnalysisResult) : List X → W → Progress X W Unit
  | [], w => ⟨[], w, [], .ok ()⟩
  | x :: rest, w =>
    let call : Call := ⟨Staged.id x, .observe, r⟩
    match Staged.observe r x w with
    | (.error e, x, w) => ⟨x :: rest, w, [call], .error e⟩
    | (.ok _, x, w) =>
      let p := observeAll r rest w
      { p with extensions := x :: p.extensions, calls := call :: p.calls }

def transformAll : AnalysisResult → List X → W → Progress X W AnalysisResult
  | r, [], w => ⟨[], w, [], .ok r⟩
  | r, x :: rest, w =>
    let call : Call := ⟨Staged.id x, .transform, r⟩
    match Staged.transform r x w with
    | (.error e, x, w) => ⟨x :: rest, w, [call], .error e⟩
    | (.ok r, x, w) =>
      let p := transformAll r rest w
      { p with extensions := x :: p.extensions, calls := call :: p.calls }

def finalAll (r : AnalysisResult) : List X → W → Progress X W Unit
  | [], w => ⟨[], w, [], .ok ()⟩
  | x :: rest, w =>
    let call : Call := ⟨Staged.id x, .final, r⟩
    let (x, w) := Staged.final r x w
    let p := finalAll r rest w
    { p with extensions := x :: p.extensions, calls := call :: p.calls }

def run (p : Pipeline X) (w : W) (r : AnalysisResult) : Progress X W AnalysisResult :=
  let seen := observeAll r p.extensions w
  match seen.outcome with
  | .error e => { seen with outcome := .error e }
  | .ok _ =>
    let changed := transformAll r seen.extensions seen.files
    match changed.outcome with
    | .error e => { changed with calls := seen.calls ++ changed.calls, outcome := .error e }
    | .ok last =>
      let shown := finalAll last changed.extensions changed.files
      { shown with
        calls := seen.calls ++ changed.calls ++ shown.calls
        outcome := .ok last }

end Pipeline

end CodeAudit
