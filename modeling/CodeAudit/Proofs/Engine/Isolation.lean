import CodeAudit.Proofs.Engine.Ledger

namespace CodeAudit

/-- The rule set with another rule behind the instance at a position. -/
def RuleSet.withRule (s : RuleSet) (k : Nat) (rule : Rule) : RuleSet :=
  { s with rules := s.rules.modify k fun r => { r with rule } }

/-- The engine with another rule behind the instance at a place. -/
def Engine.withRule (e : Engine) (place : Nat × Nat) (rule : Rule) : Engine :=
  { e with ruleSets := e.ruleSets.modify place.1 fun s => s.withRule place.2 rule }

def Task.withRule (t : Task) (place : Nat × Nat) (rule : Rule) : Task :=
  { t with
    ruleSet := if t.place.1 = place.1 then t.ruleSet.withRule place.2 rule else t.ruleSet
    rule := if t.place = place then { t.rule with rule } else t.rule }

/-! ### The plan -/

namespace Engine

variable (e : Engine) (place : Nat × Nat) (rule : Rule)

end Engine

/-! ### One task -/

namespace Task

variable (t : Task) (place : Nat × Nat) (rule : Rule)

end Task

namespace Engine

variable {e : Engine} {trees : List Tree} {u : Site} {tree : Tree} {s : RuleSet}
  {r : RuleInstance} {rule : Rule}

namespace Crash

def reporter (id : String) : RuleInstance where
  descriptor := { ruleSetId := "style", ruleId := id, baseId := id, severity := .warning }
  config := .empty
  resolver := { rule := id, suppressible := true, targets := ⟨[]⟩, suppressors := [] }
  filter := {}
  rule := .perNode fun _ _ => some "seen"

def style : RuleSet :=
  { id := "style", rules := [reporter "First", reporter "Second"], filter := {} }

def engine : Engine :=
  { settings := { profiling := true }, ruleSets := [style], collectors := [.files] }

def file (name : String) : Tree := { path := ⟨name⟩, nodes := #[{ kind := .file }] }

def files : List Tree := [file "b.kt", file "a.kt"]

/-- Breaks off on one file, and reports every node of others. -/
def crashing : Rule where
  visit ctx :=
    if ctx.tree.path = (file "a.kt").path ∧ ctx.tree.nodes = (file "a.kt").nodes then
      .error (.crashed none)
    else (reporter "Second").rule.visit ctx

/-- Where the second rule visits the second file. -/
def site : Site := ⟨1, (0, 1)⟩

def crashed : Engine := { engine.withRule site.place crashing with time := fun _ => 1 }

end Crash

end Engine

end CodeAudit
