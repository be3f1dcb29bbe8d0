import CodeAudit.Regex.Basic

namespace CodeAudit.Regex

def before (text : Array Char) (p : Nat) (s : CharSet) : Bool :=
  match p with
  | 0 => false
  | q + 1 => (text[q]?).any s.contains

def after (text : Array Char) (p : Nat) (s : CharSet) : Bool := (text[p]?).any s.contains

def Assertion.holds (text : Array Char) (p : Nat) : Assertion → Bool
  | textStart => p == 0
  | textEnd => p == text.size
  | lineStart => p == 0 || before text p (CharSet.single '\n')
  | lineEnd => p == text.size || after text p (CharSet.single '\n')
  | crlfLineStart =>
    p == 0 || before text p (CharSet.single '\n') ||
      (before text p (CharSet.single '\r') && !after text p (CharSet.single '\n'))
  | crlfLineEnd =>
    p == text.size || after text p (CharSet.single '\r') ||
      (after text p (CharSet.single '\n') && !before text p (CharSet.single '\r'))
  | boundary w => before text p w != after text p w
  | noBoundary w => before text p w == after text p w
  | wordStart w => !before text p w && after text p w
  | wordEnd w => before text p w && !after text p w
  | wordStartHalf w => !before text p w
  | wordEndHalf w => !after text p w

/-- Adds the positions that are not there yet. -/
def addNew (known : List Nat) (ps : List Nat) : List Nat :=
  ps.foldl (fun known p => if known.contains p then known else p :: known) known

/-- The positions reached by applying a step any number of times; each round must find a new one. -/
def close (step : List Nat → List Nat) : Nat → List Nat → List Nat → List Nat
  | 0, known, _ => known
  | rounds + 1, known, frontier =>
    let fresh := (step frontier).filter fun p => !known.contains p
    if fresh.isEmpty then known else close step rounds (addNew known fresh) (addNew [] fresh)

/-- Applies a step a number of times, unless nothing is left. -/
def iterate (step : List Nat → List Nat) : Nat → List Nat → List Nat
  | 0, ps => ps
  | _ + 1, [] => []
  | n + 1, ps => iterate step n (step ps)

/-- The positions reached by applying a step at most a number of times. -/
def upTo (step : List Nat → List Nat) : Nat → List Nat → List Nat → List Nat
  | 0, known, _ => known
  | _ + 1, known, [] => known
  | n + 1, known, frontier =>
    let fresh := addNew [] ((step frontier).filter fun p => !known.contains p)
    upTo step n (addNew known fresh) fresh

def run (text : Array Char) : Regex → List Nat → List Nat
  | empty, ps => ps
  | set s, ps => ps.filterMap fun p => if after text p s then some (p + 1) else none
  | assert a, ps => ps.filter fun p => a.holds text p
  | seq a b, ps => run text b (run text a ps)
  | alt a b, ps => addNew (run text a ps) (run text b ps)
  | times r least most, ps =>
    let reached := addNew [] (iterate (run text r) least ps)
    match most with
    | none => close (run text r) (text.size + 1) reached reached
    | some n => upTo (run text r) (n - least) reached reached

def matchesIn (r : Regex) (text : String) : Bool :=
  let cs := text.toList.toArray
  !(run cs r (List.range (cs.size + 1))).isEmpty

def matchesWhole (r : Regex) (cs : Array Char) : Bool :=
  (run cs r [0]).contains cs.size

end CodeAudit.Regex
