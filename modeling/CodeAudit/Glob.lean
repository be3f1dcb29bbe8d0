import CodeAudit.Path
import CodeAudit.Regex.Match

/-!
Patterns of paths. A star and a question mark match slashes too; `**` between slashes stands for any
number of directories. Matching is on the bytes of the path as it is written, so a question mark
stands for one byte.
-/

namespace CodeAudit

namespace Glob

inductive Token where
  | literal (c : Char)
  | any
  | anyRun
  | leadingDirs
  | trailingDirs
  | betweenDirs
  | set (negated : Bool) (ranges : List (Char × Char))
  | alternatives (branches : List (List Token))

/-- Unclosed levels of alternatives; in each, the branches are last first and so are the tokens. -/
structure Reader where
  branch : List Token := []
  siblings : List (List Token) := []
  outer : List (List Token × List (List Token)) := []
  previous : Option Char := none

namespace Reader

def push (r : Reader) (t : Token) : Reader := { r with branch := t :: r.branch }

def inGroup (r : Reader) : Bool := !r.outer.isEmpty

/-- The group is closed: its branches become one token of the branch around it. -/
def close? (r : Reader) : Option Reader :=
  match r.outer with
  | [] => none
  | (branch, siblings) :: outer =>
    let branches := ((r.branch :: r.siblings).map List.reverse).reverse
    some { r with branch := .alternatives branches :: branch, siblings, outer }

def open' (r : Reader) : Reader :=
  { r with branch := [], siblings := [], outer := (r.branch, r.siblings) :: r.outer }

def next (r : Reader) : Reader :=
  { r with branch := [], siblings := r.branch :: r.siblings }

end Reader

/-- The items of a bracketed set, up to its closing bracket. A dash between two characters makes a
range. -/
def setItems? : Bool → Bool → List (Char × Char) → List Char →
    Option (List (Char × Char) × List Char)
  | _, _, _, [] => none
  | first, inRange, ranges, c :: rest =>
    if c == ']' && !first then
      some ((if inRange then ('-', '-') :: ranges else ranges).reverse, rest)
    else if c == '-' && !first && !inRange then setItems? false true ranges rest
    else if inRange then
      match ranges with
      | (lo, _) :: more => if c < lo then none else setItems? false false ((lo, c) :: more) rest
      | [] => none
    else setItems? false false ((c, c) :: ranges) rest

/-- Two stars, behind which `rest` stands. -/
def doubleStar (r : Reader) (rest : List Char) : Reader × List Char :=
  let plain : Reader × List Char := ((r.push .anyRun).push .anyRun, rest)
  if r.branch.isEmpty then
    match rest with
    | [] => (r.push .leadingDirs, [])
    | '/' :: more => ({ r.push .leadingDirs with previous := some '/' }, more)
    | _ => plain
  else if r.previous != some '/' then plain
  else
    -- The new token takes in the slash in front, so the token of the slash is given up.
    let replace (t : Token) : Reader :=
      match r.branch with
      | .leadingDirs :: _ => r
      | .trailingDirs :: _ => r
      | _ :: more => { r with branch := t :: more }
      | [] => r
    match rest with
    | [] => (replace .trailingDirs, [])
    | '/' :: more => ({ replace .betweenDirs with previous := some '/' }, more)
    | c :: _ =>
      if r.inGroup && (c == ',' || c == '\x7d') then (replace .trailingDirs, rest) else plain

/-- The tokens of a pattern. Each step reads at least one character. -/
def read : Nat → Reader → List Char → Option (List Token)
  | 0, _, _ => none
  | fuel + 1, r, cs =>
    match cs with
    | [] => if r.inGroup then none else some r.branch.reverse
    | c :: rest =>
      let seen (r : Reader) : Reader := { r with previous := some c }
      match c with
      | '?' => read fuel (seen (r.push .any)) rest
      | '*' =>
        match rest with
        | '*' :: rest =>
          let (r', rest') := doubleStar r rest
          let r' := if rest'.length == rest.length then { r' with previous := some '*' } else r'
          read fuel r' rest'
        | _ => read fuel (seen (r.push .anyRun)) rest
      | '[' => do
        let (negated, rest) :=
          match rest with
          | '!' :: more => (true, more)
          | '^' :: more => (true, more)
          | rest => (false, rest)
        let (ranges, rest) ← setItems? true false [] rest
        read fuel { r.push (.set negated ranges) with previous := some ']' } rest
      | '\x7b' => read fuel (seen r.open') rest
      | '\x7d' => do read fuel (seen (← r.close?)) rest
      | ',' => read fuel (seen (if r.inGroup then r.next else r.push (.literal ','))) rest
      | '\\' =>
        match rest with
        | [] => none
        | e :: rest => read fuel { r.push (.literal e) with previous := some e } rest
      | c => read fuel (seen (r.push (.literal c))) rest

def bytesOf (s : String) : List Char := s.toUTF8.toList.map fun b => Char.ofNat b.toNat

def byteSet (negated : Bool) (ranges : List (Char × Char)) : Regex.CharSet :=
  let bytes : Regex.CharSet := ranges.flatMap fun (lo, hi) =>
    let los := (bytesOf (String.ofList [lo])).map (·.toNat)
    let his := (bytesOf (String.ofList [hi])).map (·.toNat)
    if lo == hi then los.map fun b => (b, b)
    else
      los.dropLast.map (fun b => (b, b)) ++ [(los.getLastD 0, his.headD 0)] ++
        (his.drop 1).map fun b => (b, b)
  if negated then bytes.complement else bytes

open Regex (char star altAll seqAll) in
mutual

def Token.regex : Token → Regex
  | .literal c => seqAll ((bytesOf (String.ofList [c])).map char)
  | .any => .set Regex.CharSet.all
  | .anyRun => star (.set Regex.CharSet.all)
  | .leadingDirs =>
    .alt (.times (char '/') 0 (some 1)) (.seq (star (.set Regex.CharSet.all)) (char '/'))
  | .trailingDirs => .seq (char '/') (star (.set Regex.CharSet.all))
  | .betweenDirs =>
    .alt (char '/') (.seq (char '/') (.seq (star (.set Regex.CharSet.all)) (char '/')))
  | .set negated ranges => .set (byteSet negated ranges)
  | .alternatives branches =>
    match branchRegexes branches with
    | [] => .empty
    | rs => altAll rs

def tokensRegex : List Token → Regex
  | [] => .empty
  | t :: rest => .seq t.regex (tokensRegex rest)

/-- The expressions of the alternatives; those that are written empty are dropped. -/
def branchRegexes : List (List Token) → List Regex
  | [] => []
  | branch :: rest =>
    if isBlankBranch branch then branchRegexes rest
    else tokensRegex branch :: branchRegexes rest

/-- Whether nothing is written for a branch. -/
def isBlankBranch : List Token → Bool
  | [] => true
  | .alternatives branches :: rest => allBlank branches && isBlankBranch rest
  | _ :: _ => false

def allBlank : List (List Token) → Bool
  | [] => true
  | branch :: rest => isBlankBranch branch && allBlank rest

end

end Glob

structure Glob where
  regex : Regex

namespace Glob

/-- The pattern of a text; `none` when it is malformed. A lone `**` matches everything. -/
def parse? (text : String) : Option Glob := do
  let cs := text.toList
  match ← read (cs.length + 1) {} cs with
  | [.leadingDirs] => return ⟨Regex.star (.set Regex.CharSet.all)⟩
  | tokens => return ⟨tokensRegex tokens⟩

def matchesText (g : Glob) (text : String) : Bool := g.regex.matchesWhole (bytesOf text).toArray

def matchesPath (g : Glob) (p : Path) : Bool := g.matchesText p.text

end Glob

end CodeAudit
