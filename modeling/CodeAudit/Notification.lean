namespace CodeAudit

inductive Level where
  | info
  | warning
  | error
deriving DecidableEq, Repr

def Level.text : Level → String
  | info => "info"
  | warning => "warning"
  | error => "error"

structure Notification where
  message : String
  level : Level
deriving DecidableEq, Repr

namespace Notification

def warning (message : String) : Notification := ⟨message, .warning⟩

def error (message : String) : Notification := ⟨message, .error⟩

def isError (n : Notification) : Bool := n.level == .error

def text (n : Notification) : String := n.level.text ++ ": " ++ n.message

end Notification

end CodeAudit
