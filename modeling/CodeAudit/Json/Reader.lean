import CodeAudit.Json.Basic

/-!
Reading JSON text. The grammar is strict: no comments, no trailing text, no unpaired surrogates, at
most `maxDepth` arrays and objects inside each other. A number with a fraction or an exponent, a
negative zero and an integer beyond 64 bits are floats; a float that overflows is refused.
-/

namespace CodeAudit.Json

/-- How many arrays and objects may stand inside each other. -/
def maxDepth : Nat := 127

def isSpace (c : Char) : Bool :=
  c == ' ' || c == '\n' || c == '\t' || c == '\r'

def skipSpace (cs : List Char) : List Char :=
  cs.dropWhile isSpace

def hexValue? (c : Char) : Option Nat :=
  if c.isDigit then some (c.toNat - '0'.toNat)
  else if 'a' ≤ c && c ≤ 'f' then some (c.toNat - 'a'.toNat + 10)
  else if 'A' ≤ c && c ≤ 'F' then some (c.toNat - 'A'.toNat + 10)
  else none

def hex4? : List Char → Option (Nat × List Char)
  | a :: b :: c :: d :: rest => do
    let a ← hexValue? a
    let b ← hexValue? b
    let c ← hexValue? c
    let d ← hexValue? d
    return (((a * 16 + b) * 16 + c) * 16 + d, rest)
  | _ => none

/-- The character of a backslash-u escape, after its first four digits: a high surrogate needs a
low one behind it. -/
def unicodeEscape? (rest : List Char) : Option (Char × List Char) := do
  let (n, rest) ← hex4? rest
  if 0xD800 ≤ n && n < 0xDC00 then
    match rest with
    | '\\' :: 'u' :: rest =>
      let (m, rest) ← hex4? rest
      if 0xDC00 ≤ m && m < 0xE000 then
        return (Char.ofNat (0x10000 + (n - 0xD800) * 0x400 + (m - 0xDC00)), rest)
      else none
    | _ => none
  else if 0xDC00 ≤ n && n < 0xE000 then none
  else return (Char.ofNat n, rest)

def simpleEscape? : Char → Option Char
  | '"' => some '"'
  | '\\' => some '\\'
  | '/' => some '/'
  | 'b' => some (Char.ofNat 8)
  | 'f' => some (Char.ofNat 12)
  | 'n' => some '\n'
  | 'r' => some '\r'
  | 't' => some '\t'
  | _ => none

/-- The characters up to the closing quote; `acc` holds those read so far, last first. -/
def readString : Nat → List Char → List Char → Option (String × List Char)
  | 0, _, _ => none
  | fuel + 1, acc, cs =>
    match cs with
    | [] => none
    | '"' :: rest => some (String.ofList acc.reverse, rest)
    | '\\' :: 'u' :: rest => do
      let (c, rest) ← unicodeEscape? rest
      readString fuel (c :: acc) rest
    | '\\' :: e :: rest => do
      let c ← simpleEscape? e
      readString fuel (c :: acc) rest
    | ['\\'] => none
    | c :: rest => if c.toNat < 0x20 then none else readString fuel (c :: acc) rest

/-- Digits of a number that is read into 64 bits: those that fit, how many were left over, and
what follows. -/
structure Digits where
  significand : Nat
  taken : Nat
  dropped : Nat
  rest : List Char

def readDigits (significand taken dropped : Nat) : List Char → Digits
  | [] => ⟨significand, taken, dropped, []⟩
  | c :: rest =>
    if c.isDigit then
      let next := significand * 10 + (c.toNat - '0'.toNat)
      if dropped == 0 && next < Number.pow2 64 then readDigits next (taken + 1) 0 rest
      else readDigits significand taken (dropped + 1) rest
    else ⟨significand, taken, dropped, c :: rest⟩

open Number in
def powerOfTen (n : Nat) : Magnitude := Magnitude.ofNat (Number.pow10 n)

open Number in
/-- Scales a 64-bit significand by a power of ten in at most a few rounded steps; `none` when the
result is too large. Steps are bounded by `fuel`. -/
def scaleFloat? : Nat → Magnitude → Int → Option Magnitude
  | 0, _, _ => some ⟨0, Magnitude.minExponent⟩
  | fuel + 1, f, exponent =>
    if exponent.natAbs ≤ 308 then
      if 0 ≤ exponent then
        let product := f.mul (powerOfTen exponent.toNat)
        if (Binary64.ofMagnitude false product).isFinite then some product else none
      else some (f.div (powerOfTen exponent.natAbs))
    else if f.mantissa == 0 then some f
    else if 0 ≤ exponent then none
    else scaleFloat? fuel (f.div (powerOfTen 308)) (exponent + 308)

open Number in
def floatOfParts? (negative : Bool) (significand : Nat) (exponent : Int) : Option Json := do
  let f ← scaleFloat? 8 (Magnitude.ofNat significand) exponent
  return .float (Binary64.ofMagnitude negative f)

def readExponent? : List Char → Option (Option Int × List Char)
  | e :: rest =>
    if e == 'e' || e == 'E' then
      let (negative, rest) :=
        match rest with
        | '+' :: r => (false, r)
        | '-' :: r => (true, r)
        | r => (false, r)
      let digits := rest.takeWhile Char.isDigit
      if digits.isEmpty then none
      else
        let n : Nat :=
          -- An exponent beyond this bound is out of range whatever its digits are.
          digits.foldl (fun n c => min (n * 10 + (c.toNat - '0'.toNat)) (Number.pow2 31)) 0
        some (some (if negative then -(n : Int) else n), rest.dropWhile Char.isDigit)
    else some (none, e :: rest)
  | [] => some (none, [])

def readUnsigned? (negative : Bool) (cs : List Char) : Option (Json × List Char) := do
  let whole := readDigits 0 0 0 cs
  match cs with
  | '0' :: d :: _ => if d.isDigit then none else pure ()
  | c :: _ => if c.isDigit then pure () else none
  | [] => none
  let plain : List Char → Option (Json × List Char) := fun rest => do
    if whole.dropped == 0 then
      if !negative then return (.int whole.significand, rest)
      -- Minus zero, and what is below the least integer, are floats.
      if 0 < whole.significand && whole.significand ≤ Number.pow2 63 then
        return (.int (-(whole.significand : Int)), rest)
    return (← floatOfParts? negative whole.significand whole.dropped, rest)
  match whole.rest with
  | '.' :: rest =>
    let fraction := readDigits whole.significand 0 0 rest
    if fraction.taken == 0 && fraction.dropped == 0 then none
    else
      let scale : Int := (whole.dropped : Int) - (fraction.taken : Int)
      let (exponent, rest) ← readExponent? fraction.rest
      return (← floatOfParts? negative fraction.significand (scale + exponent.getD 0), rest)
  | rest =>
    match ← readExponent? rest with
    | (some exponent, rest) =>
      return (← floatOfParts? negative whole.significand ((whole.dropped : Int) + exponent), rest)
    | (none, rest) => plain rest

def readNumber? : List Char → Option (Json × List Char)
  | '-' :: rest => readUnsigned? true rest
  | rest => readUnsigned? false rest

def afterWord? (word : String) (cs : List Char) : Option (List Char) :=
  if cs.take word.length == word.toList then some (cs.drop word.length) else none

mutual

/-- One value; `depth` is how many more arrays and objects may be opened. -/
def readValue : Nat → Nat → List Char → Option (Json × List Char)
  | 0, _, _ => none
  | fuel + 1, depth, cs =>
    match skipSpace cs with
    | '"' :: rest => do
      let (s, rest) ← readString (rest.length + 1) [] rest
      return (.str s, rest)
    | '[' :: rest =>
      if depth == 0 then none
      else
        match skipSpace rest with
        | ']' :: rest => some (.arr [], rest)
        | rest => readItems fuel (depth - 1) [] rest
    | '\x7b' :: rest =>
      if depth == 0 then none
      else
        match skipSpace rest with
        | '\x7d' :: rest => some (.obj [], rest)
        | rest => readMembers fuel (depth - 1) [] rest
    | 't' :: rest => (afterWord? "rue" rest).map (.bool true, ·)
    | 'f' :: rest => (afterWord? "alse" rest).map (.bool false, ·)
    | 'n' :: rest => (afterWord? "ull" rest).map (.null, ·)
    | rest => readNumber? rest

/-- The items of an array, up to its bracket; `acc` holds those read so far, last first. -/
def readItems : Nat → Nat → List Json → List Char → Option (Json × List Char)
  | 0, _, _, _ => none
  | fuel + 1, depth, acc, cs => do
    let (v, rest) ← readValue fuel depth cs
    match skipSpace rest with
    | ',' :: rest => readItems fuel depth (v :: acc) rest
    | ']' :: rest => return (.arr (v :: acc).reverse, rest)
    | _ => none

def readMembers : Nat → Nat → List (String × Json) → List Char → Option (Json × List Char)
  | 0, _, _, _ => none
  | fuel + 1, depth, acc, cs => do
    match skipSpace cs with
    | '"' :: rest =>
      let (name, rest) ← readString (rest.length + 1) [] rest
      match skipSpace rest with
      | ':' :: rest =>
        let (v, rest) ← readValue fuel depth rest
        match skipSpace rest with
        | ',' :: rest => readMembers fuel depth ((name, v) :: acc) rest
        | '\x7d' :: rest => return (.obj ((name, v) :: acc).reverse, rest)
        | _ => none
      | _ => none
    | _ => none

end

/-- The value of a whole text; `none` when it is no JSON document. -/
def parse? (text : String) : Option Json := do
  let cs := text.toList
  let (v, rest) ← readValue (cs.length + 1) maxDepth cs
  if (skipSpace rest).isEmpty then return v else none

end CodeAudit.Json
