import CodeAudit.Number.Binary64

/-!
The shortest decimal that reads back as a given binary64 number, and the text it is written as.
The decimals that round to `m * 2 ^ q` form an interval around it; the first number of digits whose
grid meets the interval wins, and of two hits the nearer one, of two equally near the even one.
-/

namespace CodeAudit.Number

/-- A decimal `digits * 10 ^ exponent`. -/
structure Decimal where
  digits : Nat
  exponent : Int
deriving DecidableEq, Repr

namespace Decimal

/-- Removes trailing zeros of the digits; at most `fuel` of them. -/
def normalize : Nat → Decimal → Decimal
  | 0, d => d
  | fuel + 1, d =>
    if d.digits != 0 && d.digits % 10 == 0 then normalize fuel ⟨d.digits / 10, d.exponent + 1⟩
    else d

end Decimal

def scaleDecimal (n d : Nat) (k : Int) : Nat × Nat :=
  if 0 ≤ k then (n, d * pow10 k.toNat) else (n * pow10 (-k).toNat, d)

def floorLog10 (n d : Nat) : Nat → Int → Int
  | 0, e => e
  | fuel + 1, e =>
    let (a, b) := scaleDecimal n d e
    if b ≤ a then e else floorLog10 n d fuel (e - 1)

/-- The reals that round to a positive finite number, in units of a quarter of its last place. -/
structure RoundingInterval where
  low : Nat
  value : Nat
  high : Nat
  closed : Bool
  unit : Int

/-- Below a power of two the neighbour is only half as far away, except for the smallest ones. -/
def roundingInterval (x : Magnitude) : RoundingInterval :=
  let narrow := x.mantissa == pow2 52 && Magnitude.minExponent < x.exponent
  { low := 4 * x.mantissa - (if narrow then 1 else 2)
    value := 4 * x.mantissa
    high := 4 * x.mantissa + 2
    closed := x.mantissa % 2 == 0
    unit := x.exponent - 2 }

def RoundingInterval.holds (i : RoundingInterval) (c : Nat) (k : Int) : Bool :=
  let (num, den) := if 0 ≤ k then (c * pow10 k.toNat, 1) else (c, pow10 (-k).toNat)
  let (unitNum, unitDen) := if 0 ≤ i.unit then (pow2 i.unit.toNat, 1) else (1, pow2 (-i.unit).toNat)
  let point := num * unitDen
  let low := i.low * unitNum * den
  let high := i.high * unitNum * den
  if i.closed then low ≤ point && point ≤ high else low < point && point < high

/-- The candidate with `n` digits: the nearer of the two neighbours on the grid that lie in the
interval. -/
def shortestAt (x : Magnitude) (top : Int) (n : Nat) : Option Decimal :=
  let i := roundingInterval x
  let k := top - (n : Int) + 1
  let (num, den) := x.toRatio
  let (a, b) := scaleDecimal num den k
  let below := a / b
  let above := below + 1
  let downward := 2 * (a % b) < b || (2 * (a % b) == b && below % 2 == 0)
  let nearer := if downward then [below, above] else [above, below]
  (nearer.find? fun c => c != 0 && i.holds c k).map (⟨·, k⟩)

/-- The shortest decimal of a positive finite number; seventeen digits always suffice. -/
def shortest (x : Magnitude) : Decimal :=
  let (num, den) := x.toRatio
  let guess : Int := ((num.log2 : Int) - (den.log2 : Int) + 1) * 30103 / 100000 + 1
  let top := floorLog10 num den 4 guess
  match (List.range 17).findSome? fun n => shortestAt x top (n + 1) with
  | some d => d.normalize 20
  | none => ⟨0, 0⟩

/-- The text of a decimal: positional while the point falls within the first sixteen digits or at
most four zeros follow it, otherwise with an exponent. -/
def Decimal.text (d : Decimal) : String :=
  let digits := Nat.toDigits 10 d.digits
  let length := digits.length
  let point : Int := (length : Int) + d.exponent
  if 0 ≤ d.exponent && point ≤ 16 then
    String.ofList (digits ++ List.replicate d.exponent.toNat '0') ++ ".0"
  else if 0 < point && point ≤ 16 then
    String.ofList (digits.take point.toNat) ++ "." ++ String.ofList (digits.drop point.toNat)
  else if -5 < point && point ≤ 0 then
    "0." ++ String.ofList (List.replicate (-point).toNat '0' ++ digits)
  else
    let exponent := toString (point - 1)
    match digits with
    | [] => "0"
    | [c] => String.ofList [c] ++ "e" ++ exponent
    | c :: rest => String.ofList (c :: '.' :: rest) ++ "e" ++ exponent

/-- The text of a number: `.inf`, `-.inf`, `.nan`, or the shortest decimal that reads back. -/
def Binary64.text (x : Binary64) : String :=
  if x.isNaN then ".nan"
  else
    let sign := if x.negative then "-" else ""
    if x.isInfinite then sign ++ ".inf"
    else if x.isZero then sign ++ "0.0"
    else sign ++ (shortest x.toMagnitude).text

end CodeAudit.Number
