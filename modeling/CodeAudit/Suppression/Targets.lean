import CodeAudit.Rule.Descriptor
import CodeAudit.Text.Blank
import CodeAudit.Text.Pieces
import CodeAudit.Tree.Basic

namespace CodeAudit

namespace Marker

def markNames : List String := ["Suppress", "SuppressWarnings"]

def toolPrefixes : List String := ["frost:", "frost.", "Frost:", "Frost."]

/-- The argument without white space around it and without the first tool prefix that it has. -/
def bareName (argument : String) : String :=
  let trimmed := Text.trim argument
  (toolPrefixes.findSome? fun p => Text.stripLead? p trimmed).getD trimmed

def argumentsOn (t : Tree) (id : NodeId) : List String :=
  match t.node? id with
  | none => []
  | some n => (n.marks.filter fun a => markNames.contains a.name).flatMap (·.args)

end Marker

/-- The names under which markers address one rule instance. -/
structure MarkerTargets where
  names : List String
deriving DecidableEq, Repr

namespace MarkerTargets

def namesOf (ruleSetId ruleId : String) : List String :=
  [ruleSetId ++ "." ++ ruleId, ruleSetId ++ ":" ++ ruleId]

def ofRule (d : Descriptor) : MarkerTargets :=
  let own := [d.ruleId, d.ruleSetId] ++ namesOf d.ruleSetId d.ruleId
  let base := if d.isCustom then d.baseId :: namesOf d.ruleSetId d.baseId else []
  ⟨own ++ base ++ d.aliases⟩

/-- Whether a marker argument addresses the rule; `all` in any case addresses every rule. -/
def matchedBy (ts : MarkerTargets) (argument : String) : Bool :=
  let bare := Marker.bareName argument
  Text.sameAsciiFold bare "all" || ts.names.contains bare

def matchedOn (ts : MarkerTargets) (t : Tree) (id : NodeId) : Bool :=
  (Marker.argumentsOn t id).any ts.matchedBy

end MarkerTargets

end CodeAudit
