import CodeAudit.Text.CaseOrbit
import CodeAudit.Text.DecimalDigit
import CodeAudit.Text.WordChar

namespace CodeAudit.Regex

abbrev CharSet := List (Nat × Nat)

namespace CharSet

def top : Nat := 0x10FFFF

def contains (s : CharSet) (c : Char) : Bool :=
  s.any fun (lo, hi) => lo ≤ c.toNat && c.toNat ≤ hi

def single (c : Char) : CharSet := [(c.toNat, c.toNat)]

def all : CharSet := [(0, top)]

def gaps (start : Nat) : CharSet → CharSet
  | [] => if start ≤ top then [(start, top)] else []
  | (lo, hi) :: rest =>
    (if start < lo then [(start, lo - 1)] else []) ++ gaps (max start (hi + 1)) rest

def sorted (s : CharSet) : CharSet := s.mergeSort fun a b => a.1 ≤ b.1

def complement (s : CharSet) : CharSet := gaps 0 s.sorted

def union (a b : CharSet) : CharSet := a ++ b

def intersect (a b : CharSet) : CharSet := (union a.complement b.complement).complement

def subtract (a b : CharSet) : CharSet := intersect a b.complement

def exclusive (a b : CharSet) : CharSet := (subtract a b).union (subtract b a)

/-- The members of a range that lie on a run, as offsets from it: the first that does and the
number of steps. -/
def onRun (lo hi first last step : Nat) : List Nat :=
  let start := if lo ≤ first then first else first + ((lo - first + step - 1) / step) * step
  let stop := min hi last
  if stop < start then []
  else (List.range ((stop - start) / step + 1)).map fun k => start + k * step

def representatives (s : CharSet) : CharSet :=
  s.flatMap fun (lo, hi) =>
    Text.caseRuns.flatMap fun (first, last, step, delta) =>
      (onRun lo hi first last step).map fun (n : Nat) =>
        let r := ((n : Int) + delta).toNat
        (r, r)

def represented (s : CharSet) : CharSet :=
  s.flatMap fun (lo, hi) =>
    Text.caseRuns.flatMap fun (first, last, step, delta) =>
      let image (n : Nat) : Nat := ((n : Int) + delta).toNat
      (onRun lo hi (image first) (image last) step).map fun (r : Nat) =>
        let n := ((r : Int) - delta).toNat
        (n, n)

/-- The set with every character added that differs from a member only in case. -/
def foldCase (s : CharSet) : CharSet :=
  let reps := s ++ s.representatives
  reps ++ reps.represented

def digits : CharSet := Text.decimalDigitRanges

def wordChars : CharSet := Text.wordRanges

def spaces : CharSet :=
  [(9, 13), (32, 32), (0x85, 0x85), (0xA0, 0xA0), (0x1680, 0x1680), (0x2000, 0x200A),
    (0x2028, 0x2029), (0x202F, 0x202F), (0x205F, 0x205F), (0x3000, 0x3000)]

def asciiDigits : CharSet := [(48, 57)]

def asciiWordChars : CharSet := [(48, 57), (65, 90), (95, 95), (97, 122)]

def asciiSpaces : CharSet := [(9, 13), (32, 32)]

def named? : String → Option CharSet
  | "alnum" => some [(48, 57), (65, 90), (97, 122)]
  | "alpha" => some [(65, 90), (97, 122)]
  | "ascii" => some [(0, 127)]
  | "blank" => some [(9, 9), (32, 32)]
  | "cntrl" => some [(0, 31), (127, 127)]
  | "digit" => some [(48, 57)]
  | "graph" => some [(33, 126)]
  | "lower" => some [(97, 122)]
  | "print" => some [(32, 126)]
  | "punct" => some [(33, 47), (58, 64), (91, 96), (123, 126)]
  | "space" => some [(9, 13), (32, 32)]
  | "upper" => some [(65, 90)]
  | "word" => some [(48, 57), (65, 90), (95, 95), (97, 122)]
  | "xdigit" => some [(48, 57), (65, 70), (97, 102)]
  | _ => none

end CharSet

end CodeAudit.Regex
