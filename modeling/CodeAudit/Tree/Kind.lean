import CodeAudit.Text.Case

namespace CodeAudit

inductive NodeKind where
  | file
  | classType
  | object
  | function
  | property
  | parameter
  | lambda
  | block
  | call
  | expression
  | other
deriving DecidableEq, Repr, Inhabited

namespace NodeKind

/-- Declarations have a part in signatures and may carry suppression markers. -/
def isDeclaration : NodeKind → Bool
  | classType | object | function | property | parameter | lambda => true
  | file | block | call | expression | other => false

def text : NodeKind → String
  | file => "file"
  | classType => "class"
  | object => "object"
  | function => "function"
  | property => "property"
  | parameter => "parameter"
  | lambda => "lambda"
  | block => "block"
  | call => "call"
  | expression => "expression"
  | other => "other"

def all : List NodeKind :=
  [file, classType, object, function, property, parameter, lambda, block, call, expression, other]

def ofText? (s : String) : Option NodeKind := all.find? fun k => k.text == s

def parse? (s : String) : Option NodeKind :=
  match Text.fold s with
  | "interface" => some classType
  | "fun" | "method" => some function
  | "field" => some property
  | "param" => some parameter
  | "closure" => some lambda
  | "expr" => some expression
  | word => ofText? word

end NodeKind

end CodeAudit
