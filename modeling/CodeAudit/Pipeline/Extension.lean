import CodeAudit.Pipeline.Basic

namespace CodeAudit

/-- An extension that touches nothing but the result. -/
structure Hook where
  id : String
  priority : Int := 0
  observe : AnalysisResult → Except ExtensionError Unit := fun _ => .ok ()
  transform : AnalysisResult → Except ExtensionError AnalysisResult := .ok

/-- The extension that drops the findings a baseline records. -/
structure BaselineStage where
  path : Path
  create : Bool := false
  /-- The baseline, which is read only once. -/
  loaded : Option Baseline := none

namespace BaselineStage

def id : String := "baseline"

def priority : Int := -100

/-- Reads the baseline, unless that was done before. -/
def read (s : BaselineStage) (fs : FileSystem) : Except BaselineError (BaselineStage × Baseline) :=
  match s.loaded with
  | some b => .ok (s, b)
  | none => do
    let b ← Baseline.load fs s.path
    return ({ s with loaded := some b }, b)

def observe (s : BaselineStage) (fs : FileSystem) (r : AnalysisResult) :
    Except BaselineError (BaselineStage × FileSystem) := do
  let fs ← if s.create then (Baseline.update fs s.path r.findings).map (·.1) else .ok fs
  let (s, _) ← s.read fs
  return (s, fs)

def blockedWarning (f : Finding) : Notification :=
  .warning ("Rule '" ++ f.ruleSetId ++ ":" ++ f.ruleId ++
    "' cannot be suppressed; ignoring baseline at " ++ f.location.text)

/-- The result without what a baseline records; an empty baseline changes nothing. -/
def apply (b : Baseline) (r : AnalysisResult) : AnalysisResult :=
  if b.isEmpty then r
  else
    (r.withFindings (b.keep r.findings)).withNotifications
      ((b.blocked r.findings).map blockedWarning)

def transform (s : BaselineStage) (fs : FileSystem) (r : AnalysisResult) :
    Except BaselineError (BaselineStage × AnalysisResult) := do
  let (s, b) ← s.read fs
  return (s, apply b r)

end BaselineStage

inductive Extension where
  | hook (hook : Hook)
  | baseline (stage : BaselineStage)

namespace Extension

def id : Extension → String
  | hook h => h.id
  | baseline _ => BaselineStage.id

def priority : Extension → Int
  | hook h => h.priority
  | baseline _ => BaselineStage.priority

def observe (x : Extension) (fs : FileSystem) (r : AnalysisResult) :
    Except ExtensionError (Extension × FileSystem) :=
  match x with
  | hook h => (h.observe r).map fun _ => (x, fs)
  | baseline s =>
    match s.observe fs r with
    | .ok (s, fs) => .ok (.baseline s, fs)
    | .error e => .error (.baseline e)

/-- The files after the extension was shown the unchanged result, also when it failed. -/
def observedFiles (x : Extension) (fs : FileSystem) (r : AnalysisResult) : FileSystem :=
  match x with
  | hook _ => fs
  | baseline s => if s.create then Baseline.updated fs s.path r.findings else fs

def transform (x : Extension) (fs : FileSystem) (r : AnalysisResult) :
    Except ExtensionError (Extension × AnalysisResult) :=
  match x with
  | hook h => (h.transform r).map (x, ·)
  | baseline s =>
    match s.transform fs r with
    | .ok (s, r) => .ok (.baseline s, r)
    | .error e => .error (.baseline e)

end Extension

instance : Staged Extension FileSystem where
  id := Extension.id
  priority := Extension.priority
  observe r x fs :=
    match x.observe fs r with
    | .ok (x, fs) => (.ok (), x, fs)
    | .error e => (.error e, x, x.observedFiles fs r)
  transform r x fs :=
    match x.transform fs r with
    | .ok (x, r) => (.ok r, x, fs)
    | .error e => (.error e, x, fs)
  final _ x fs := (x, fs)

end CodeAudit
