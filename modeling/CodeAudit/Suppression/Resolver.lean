import CodeAudit.Config.Read
import CodeAudit.Finding.Basic
import CodeAudit.Notification
import CodeAudit.Suppression.Targets

namespace CodeAudit

inductive Suppressor where
  | attachedReason
  | marker (targets : MarkerTargets)
  | markedWith (names : List String)
  | insideFunction (names : List String)
  | supplied (name : String) (test : Finding → Tree → Bool)

/-- The node a finding is anchored at; the file when it has none in this tree. -/
def Finding.anchor (f : Finding) (t : Tree) : NodeId :=
  match f.entity.node with
  | some id => if (t.node? id).isSome then id else Tree.rootId
  | none => Tree.rootId

namespace Suppressor

def name : Suppressor → String
  | attachedReason => "attached reason"
  | marker _ => "suppression marker"
  | markedWith _ => "ignore_annotated"
  | insideFunction _ => "ignore_function"
  | supplied name _ => name

def simpleName (s : String) : String :=
  String.ofList (s.toList.reverse.takeWhile (· != '.')).reverse

def lists (names : List String) (name : String) : Bool :=
  names.any fun n => n == name || n == simpleName name

def marksNode (names : List String) (t : Tree) (id : NodeId) : Bool :=
  match t.node? id with
  | some n => n.kind.isDeclaration && n.marks.any fun m => lists names m.name
  | none => false

def namesNode (names : List String) (t : Tree) (id : NodeId) : Bool :=
  match t.node? id with
  | some n => n.kind = .function && n.name?.any names.contains
  | none => false

def claims (s : Suppressor) (f : Finding) (t : Tree) : Bool :=
  match s with
  | attachedReason => !f.suppressReasons.isEmpty
  | marker targets => (t.ancestors (f.anchor t)).any (targets.matchedOn t)
  | markedWith names => (t.ancestors (f.anchor t)).any (marksNode names t)
  | insideFunction names => (t.ancestors (f.anchor t)).any (namesNode names t)
  | supplied _ test => test f t

end Suppressor

inductive Decision where
  | keep
  | suppressed (reason : String)
  /-- Claimed, but the rule cannot be suppressed. -/
  | blocked (warning : Notification)
deriving DecidableEq, Repr

structure Resolver where
  rule : String
  suppressible : Bool
  targets : MarkerTargets
  suppressors : List Suppressor

namespace Resolver

/-- The resolver of a rule instance; lists without names suppress nothing and are left out. -/
def ofRule (d : Descriptor) (config : Config) : Except ConfigError Resolver := do
  let targets := MarkerTargets.ofRule d
  let marked ← config.valueD .texts "ignore_annotated" []
  let functions ← config.valueD .texts "ignore_function" []
  return {
    rule := d.qualifiedId
    suppressible := d.category.isSuppressible
    targets
    suppressors :=
      [.attachedReason, .marker targets] ++
        (if marked.isEmpty then [] else [.markedWith marked]) ++
        (if functions.isEmpty then [] else [.insideFunction functions]) }

def withSuppressor (r : Resolver) (s : Suppressor) : Resolver :=
  { r with suppressors := r.suppressors ++ [s] }

def blockedWarning (r : Resolver) (s : Suppressor) (f : Finding) : Notification :=
  .warning ("Rule '" ++ r.rule ++ "' cannot be suppressed; ignoring " ++ s.name ++ " at " ++
    f.location.text)

def decide (r : Resolver) (f : Finding) (t : Tree) : Decision :=
  match r.suppressors.find? fun s => s.claims f t with
  | none => .keep
  | some s => if r.suppressible then .suppressed s.name else .blocked (r.blockedWarning s f)

def drops (r : Resolver) (f : Finding) (t : Tree) : Bool :=
  match r.decide f t with
  | .suppressed _ => true
  | _ => false

/-- Whether a marker on the file node switches the rule off for the whole file. -/
def switchedOff (r : Resolver) (t : Tree) : Bool :=
  r.suppressible && r.targets.matchedOn t Tree.rootId

end Resolver

end CodeAudit
