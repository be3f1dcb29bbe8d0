import CodeAudit.Number.Binary64

namespace CodeAudit.Number

def digitValue? (base : Nat) (c : Char) : Option Nat :=
  let n :=
    if c.isDigit then c.toNat - '0'.toNat
    else if 'a' ≤ c && c ≤ 'f' then c.toNat - 'a'.toNat + 10
    else if 'A' ≤ c && c ≤ 'F' then c.toNat - 'A'.toNat + 10
    else base
  if n < base then some n else none

/-- A natural number written with at least one digit. -/
def natOfDigits? (base : Nat) (cs : List Char) : Option Nat :=
  if cs.isEmpty then none
  else cs.foldlM (fun n c => (digitValue? base c).map (n * base + ·)) 0

def boundedNat? (base bound : Nat) (cs : List Char) : Option Nat :=
  (natOfDigits? base cs).bind fun n => if n < bound then some n else none

def parseUnsigned? (s : String) : Option Nat :=
  match s.toList with
  | '+' :: rest => boundedNat? 10 (pow2 64) rest
  | cs => boundedNat? 10 (pow2 64) cs

def parseSigned? (s : String) : Option Int :=
  match s.toList with
  | '-' :: rest => (boundedNat? 10 (pow2 63 + 1) rest).map fun n => -(n : Int)
  | '+' :: rest => (boundedNat? 10 (pow2 63) rest).map fun n => (n : Int)
  | cs => (boundedNat? 10 (pow2 63) cs).map fun n => (n : Int)

/-- An exponent: a sign and digits, clamped far beyond what a number can hold. -/
def exponent? (cs : List Char) : Option Int :=
  let (negative, digits) :=
    match cs with
    | '-' :: rest => (true, rest)
    | '+' :: rest => (false, rest)
    | rest => (false, rest)
  (natOfDigits? 10 digits).map fun n =>
    let n : Int := (min n 100000000 : Nat)
    if negative then -n else n

/-- A decimal fraction without its sign; a digit is needed on one side of the point. -/
def decimal? (negative : Bool) (cs : List Char) : Option Binary64 :=
  let whole := cs.takeWhile Char.isDigit
  let rest := cs.drop whole.length
  let (fraction, rest) :=
    match rest with
    | '.' :: rest =>
      let fraction := rest.takeWhile Char.isDigit
      (fraction, rest.drop fraction.length)
    | rest => ([], rest)
  match natOfDigits? 10 (whole ++ fraction) with
  | none => none
  | some digits =>
    let shift : Int := -(fraction.length : Int)
    match rest with
    | [] => some (Binary64.ofDecimal negative digits shift)
    | e :: rest =>
      if e == 'e' || e == 'E' then
        (exponent? rest).map fun x => Binary64.ofDecimal negative digits (shift + x)
      else none

/-- A number: a decimal fraction, an infinity or a NaN, with an optional sign. -/
def parseFloat? (s : String) : Option Binary64 :=
  let (negative, cs) :=
    match s.toList with
    | '-' :: rest => (true, rest)
    | '+' :: rest => (false, rest)
    | cs => (false, cs)
  match String.ofList (cs.map Char.toLower) with
  | "inf" | "infinity" => some (Binary64.infinity negative)
  | "nan" => some Binary64.nan
  | _ => decimal? negative cs

end CodeAudit.Number
