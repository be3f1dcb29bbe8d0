import CodeAudit.Number.Reading
import CodeAudit.Regex.Basic
import CodeAudit.Text.Blank
import CodeAudit.Text.Pieces

namespace CodeAudit.Regex

/-- Switches set by groups such as `(?i)`. -/
structure Flags where
  ignoreCase : Bool := false
  multiLine : Bool := false
  dotAll : Bool := false
  swapGreed : Bool := false
  unicode : Bool := true
  crlf : Bool := false
  ignoreSpace : Bool := false

namespace Flags

def set? (f : Flags) (c : Char) (on : Bool) : Option Flags :=
  match c with
  | 'i' => some { f with ignoreCase := on }
  | 'm' => some { f with multiLine := on }
  | 's' => some { f with dotAll := on }
  | 'U' => some { f with swapGreed := on }
  | 'u' => some { f with unicode := on }
  | 'R' => some { f with crlf := on }
  | 'x' => some { f with ignoreSpace := on }
  | _ => none

def wordChars (f : Flags) : CharSet := if f.unicode then .wordChars else .asciiWordChars

/-- A set as it stands in the expression: closed under case where case is ignored. -/
def fold (f : Flags) (s : CharSet) : CharSet := if f.ignoreCase then s.foldCase else s

end Flags

def skipIgnored (f : Flags) : Nat → List Char → List Char
  | 0, cs => cs
  | fuel + 1, cs =>
    if !f.ignoreSpace then cs
    else
      match cs with
      | '#' :: rest => skipIgnored f fuel (rest.dropWhile (· != '\n'))
      | c :: rest => if CharSet.spaces.contains c then skipIgnored f fuel rest else cs
      | [] => []

def skipBlank (f : Flags) (cs : List Char) : List Char := skipIgnored f (cs.length + 1) cs

/-! ### Escapes -/

inductive Primitive where
  | literal (c : Char)
  | perl (s : CharSet)
  | assertion (a : Assertion)
  | dot

def codePoint? (digits : List Char) : Option Char := do
  let n ← Number.natOfDigits? 16 digits
  if 0x10FFFF < n || (0xD800 ≤ n && n ≤ 0xDFFF) then none else return Char.ofNat n

def hexEscape? (width : Nat) (cs : List Char) : Option (Char × List Char) :=
  match cs with
  | '\x7b' :: rest => do
    let (digits, rest) ← Text.cutAt? (· == '\x7d') rest
    return (← codePoint? digits, rest)
  | _ => do
    if cs.length < width then none
    return (← codePoint? (cs.take width), cs.drop width)

def boundaryName? (cs : List Char) : Option (Option (String × List Char)) :=
  match cs with
  | '\x7b' :: rest =>
    let isNameChar (c : Char) := c.isAlpha || c == '-'
    match rest with
    | [] => none
    | c :: _ =>
      if !isNameChar c then some none
      else
        match rest.dropWhile isNameChar with
        | '\x7d' :: after => some (some (String.ofList (rest.takeWhile isNameChar), after))
        | _ => none
  | _ => some none

def isEscapable (c : Char) : Bool :=
  c.toNat < 128 && !c.isAlphanum && c != '<' && c != '>'

def property? (name : String) : Option CharSet :=
  match name with
  | "Nd" | "nd" | "Decimal_Number" => some .digits
  | "White_Space" | "whitespace" | "space" => some .spaces
  | "Any" | "any" => some .all
  | "ASCII" | "ascii" => some [(0, 127)]
  | _ => none

def propertyEscape? (negated : Bool) (cs : List Char) : Option (Primitive × List Char) := do
  let (name, rest) ←
    match cs with
    | '\x7b' :: rest => Text.cutAt? (· == '\x7d') rest
    | c :: rest => some ([c], rest)
    | [] => none
  let (negated, name) :=
    match name with
    | '^' :: name => (!negated, name)
    | name => (negated, name)
  let s ← property? (String.ofList name)
  return (.perl (if negated then s.complement else s), rest)

def perlSet? (f : Flags) (c : Char) : Option CharSet :=
  let s? : Option CharSet :=
    match c.toLower with
    | 'd' => some (if f.unicode then .digits else .asciiDigits)
    | 's' => some (if f.unicode then .spaces else .asciiSpaces)
    | 'w' => some f.wordChars
    | _ => none
  s?.bind fun s =>
    if c.isUpper then (if f.unicode then some s.complement else none) else some s

def escape? (f : Flags) (cs : List Char) : Option (Primitive × List Char) :=
  match cs with
  | [] => none
  | c :: rest =>
    match c with
    | 'x' => (hexEscape? 2 rest).map fun (c, r) => (.literal c, r)
    | 'u' => (hexEscape? 4 rest).map fun (c, r) => (.literal c, r)
    | 'U' => (hexEscape? 8 rest).map fun (c, r) => (.literal c, r)
    | 'p' => propertyEscape? false rest
    | 'P' => propertyEscape? true rest
    | 'a' => some (.literal (Char.ofNat 7), rest)
    | 'f' => some (.literal (Char.ofNat 12), rest)
    | 't' => some (.literal '\t', rest)
    | 'n' => some (.literal '\n', rest)
    | 'r' => some (.literal '\r', rest)
    | 'v' => some (.literal (Char.ofNat 11), rest)
    | 'A' => some (.assertion .textStart, rest)
    | 'z' => some (.assertion .textEnd, rest)
    | 'b' => do
      match ← boundaryName? rest with
      | none => return (.assertion (.boundary f.wordChars), rest)
      | some ("start", rest) => return (.assertion (.wordStart f.wordChars), rest)
      | some ("end", rest) => return (.assertion (.wordEnd f.wordChars), rest)
      | some ("start-half", rest) => return (.assertion (.wordStartHalf f.wordChars), rest)
      | some ("end-half", rest) => return (.assertion (.wordEndHalf f.wordChars), rest)
      | some _ => none
    | 'B' => some (.assertion (.noBoundary f.wordChars), rest)
    | '<' => some (.assertion (.wordStart f.wordChars), rest)
    | '>' => some (.assertion (.wordEnd f.wordChars), rest)
    | _ =>
      match perlSet? f c with
      | some s => some (.perl s, rest)
      | none => if isEscapable c then some (.literal c, rest) else none

/-! ### Bracketed sets -/

def setItem? (f : Flags) (cs : List Char) : Option (Primitive × List Char) :=
  match cs with
  | '\\' :: rest => escape? f rest
  | c :: rest => some (.literal c, rest)
  | [] => none

def literalOf? : Primitive → Option Char
  | .literal c => some c
  | _ => none

def setOf? : Primitive → Option CharSet
  | .literal c => some (CharSet.single c)
  | .perl s => some s
  | .assertion _ => none
  | .dot => none

def setRange? (f : Flags) (cs : List Char) : Option (CharSet × List Char) := do
  let (first, rest) ← setItem? f cs
  let rest := skipBlank f rest
  match rest with
  | [] => none
  | '-' :: more =>
    let next := skipBlank f more
    if next.head? == some ']' || next.head? == some '-' then return (← setOf? first, rest)
    else
      let (last, after) ← setItem? f next
      let lo ← literalOf? first
      let hi ← literalOf? last
      if hi.toNat < lo.toNat then none
      return ([(lo.toNat, hi.toNat)], after)
  | _ => return (← setOf? first, rest)

def namedSet? (cs : List Char) : Option (CharSet × List Char) :=
  match cs with
  | '[' :: ':' :: rest =>
    let (negated, rest) :=
      match rest with
      | '^' :: r => (true, r)
      | r => (false, r)
    let name := rest.takeWhile (· != ':')
    match rest.drop name.length with
    | ':' :: ']' :: after =>
      (CharSet.named? (String.ofList name)).map fun s => (if negated then s.complement else s, after)
    | _ => none
  | _ => none

inductive SetOp where
  | intersection
  | difference
  | symmetricDifference

def SetOp.apply (f : Flags) (op : SetOp) (a b : CharSet) : CharSet :=
  let a := f.fold a
  let b := f.fold b
  match op with
  | intersection => a.intersect b
  | difference => a.subtract b
  | symmetricDifference => a.exclusive b

/-- What has been read of a set: the operations to the left, and the items since. -/
structure OpenSet where
  left : Option (CharSet × SetOp) := none
  items : CharSet := []

def OpenSet.value (f : Flags) (s : OpenSet) : CharSet :=
  match s.left with
  | none => s.items
  | some (a, op) => op.apply f a s.items

mutual

def readSet (f : Flags) : Nat → List Char → Option (CharSet × List Char)
  | 0, _ => none
  | fuel + 1, cs => do
    let cs := skipBlank f cs
    let (negated, cs) :=
      match cs with
      | '^' :: rest => (true, skipBlank f rest)
      | cs => (false, cs)
    let dashes := cs.takeWhile (· == '-')
    let cs := skipBlank f (cs.drop dashes.length)
    let items : CharSet := if dashes.isEmpty then [] else CharSet.single '-'
    let (items, cs) :=
      match cs with
      | ']' :: rest => if dashes.isEmpty then (CharSet.single ']', rest) else (items, cs)
      | cs => (items, cs)
    let (s, rest) ← readSetItems f fuel { items } cs
    let s := f.fold s
    if negated then
      if f.unicode then return (s.complement, rest) else none
    else return (s, rest)

def readSetItems (f : Flags) : Nat → OpenSet → List Char → Option (CharSet × List Char)
  | 0, _, _ => none
  | fuel + 1, s, cs =>
    let push (op : SetOp) : OpenSet := { left := some (s.value f, op) }
    match skipBlank f cs with
    | [] => none
    | '[' :: rest =>
      match namedSet? ('[' :: rest) with
      | some (named, rest) => readSetItems f fuel { s with items := s.items ++ named } rest
      | none => do
        let (inner, rest) ← readSet f fuel rest
        readSetItems f fuel { s with items := s.items ++ inner } rest
    | ']' :: rest => some (s.value f, rest)
    | '&' :: '&' :: rest => readSetItems f fuel (push .intersection) rest
    | '-' :: '-' :: rest => readSetItems f fuel (push .difference) rest
    | '~' :: '~' :: rest => readSetItems f fuel (push .symmetricDifference) rest
    | cs => do
      let (range, rest) ← setRange? f cs
      readSetItems f fuel { s with items := s.items ++ range } rest

end

/-! ### Expressions -/

/-- An item of a sequence; a group of flags cannot be repeated. -/
structure Item where
  regex : Regex
  repeatable : Bool := true

/-- A repetition count, with white space around it; where white space is ignored it may also stand
between the digits. -/
def count? (f : Flags) (cs : List Char) : Option (Nat × List Char) :=
  let cs := (skipBlank f cs).dropWhile Text.isBlank
  let run := cs.takeWhile fun c => c.isDigit || (f.ignoreSpace && Text.isBlank c)
  match Number.boundedNat? 10 (Number.pow2 32) (run.filter Char.isDigit) with
  | some n => some (n, skipBlank f ((cs.drop run.length).dropWhile Text.isBlank))
  | none => none

def bounds? (f : Flags) (cs : List Char) : Option (Nat × Option Nat × List Char) := do
  let (least, rest) ← count? f cs
  match rest with
  | '\x7d' :: rest => return (least, some least, rest)
  | ',' :: rest =>
    match skipBlank f rest with
    | '\x7d' :: rest => return (least, none, rest)
    | rest =>
      let (most, rest) ← count? f rest
      match rest with
      | '\x7d' :: rest => if most < least then none else return (least, some most, rest)
      | _ => none
  | _ => none

def skipLazy (f : Flags) (cs : List Char) : List Char :=
  match skipBlank f cs with
  | '?' :: rest => rest
  | _ => cs

def repeatLast? (items : List Item) (least : Nat) (most : Option Nat) : Option (List Item) :=
  match items with
  | item :: rest =>
    if item.repeatable then some ({ regex := .times item.regex least most } :: rest) else none
  | [] => none

def readFlags : Nat → Flags → List Char → Bool → Bool → List Char →
    Option (Flags × Bool × List Char)
  | 0, _, _, _, _, _ => none
  | fuel + 1, f, seen, negated, dangling, cs =>
    match cs with
    | ':' :: rest => if dangling then none else some (f, false, rest)
    | ')' :: rest =>
      if dangling || (seen.isEmpty && !negated) then none else some (f, true, rest)
    | '-' :: rest => if negated then none else readFlags fuel f seen true true rest
    | c :: rest => do
      if seen.contains c then none
      let f ← f.set? c (!negated)
      readFlags fuel f (c :: seen) negated false rest
    | [] => none

def isNameStart (c : Char) : Bool := c == '_' || c.isAlpha || (127 < c.toNat && CharSet.wordChars.contains c)

def isNameRest (c : Char) : Bool :=
  isNameStart c || c.isDigit || c == '.' || c == '[' || c == ']'

def groupName? (names : List String) (cs : List Char) : Option (String × List Char) := do
  let (name, rest) ← Text.cutAt? (· == '>') cs
  match name with
  | [] => none
  | c :: more =>
    let text := String.ofList name
    if isNameStart c && more.all isNameRest && !names.contains text then return (text, rest)
    else none

def ofPrimitive (f : Flags) : Primitive → Regex
  | .literal c => .set (f.fold (CharSet.single c))
  | .perl s => .set s
  | .assertion a => .assert a
  | .dot =>
    if f.dotAll then .set CharSet.all
    else if f.crlf then .set (CharSet.complement [(10, 10), (13, 13)])
    else .set (CharSet.complement [(10, 10)])

def lineStartOf (f : Flags) : Assertion :=
  if f.multiLine then (if f.crlf then .crlfLineStart else .lineStart) else .textStart

def lineEndOf (f : Flags) : Assertion :=
  if f.multiLine then (if f.crlf then .crlfLineEnd else .lineEnd) else .textEnd

def primitive? (f : Flags) (cs : List Char) : Option (Primitive × List Char) :=
  match cs with
  | '\\' :: rest => escape? f rest
  | '.' :: rest => if f.unicode then some (.dot, rest) else none
  | '^' :: rest => some (.assertion (lineStartOf f), rest)
  | '$' :: rest => some (.assertion (lineEndOf f), rest)
  | c :: rest => some (.literal c, rest)
  | [] => none

/-- The alternatives up to a closing parenthesis or the end. `branches` are complete, `items` are
those of the present one, last first; `names` are the groups named so far. -/
def readAlternatives : Nat → Flags → List String → List Regex → List Item → List Char →
    Option (Regex × List String × List Char)
  | 0, _, _, _, _, _ => none
  | fuel + 1, f, names, branches, items, cs =>
    let branch := seqAll (items.reverse.map (·.regex))
    let done (rest : List Char) : Option (Regex × List String × List Char) :=
      some (altAll (branch :: branches).reverse, names, rest)
    let again (least : Nat) (most : Option Nat) (rest : List Char) := do
      let items ← repeatLast? items least most
      readAlternatives fuel f names branches items (skipLazy f rest)
    let group (f' : Flags) (names : List String) (rest : List Char) := do
      let (r, names, rest) ← readAlternatives fuel f' names [] [] rest
      match rest with
      | ')' :: rest => readAlternatives fuel f names branches ({ regex := r } :: items) rest
      | _ => none
    match skipBlank f cs with
    | [] => done []
    | ')' :: rest => done (')' :: rest)
    | '|' :: rest => readAlternatives fuel f names (branch :: branches) [] rest
    | '[' :: rest => do
      let (s, rest) ← readSet f (rest.length + 2) rest
      readAlternatives fuel f names branches ({ regex := .set s } :: items) rest
    | '*' :: rest => again 0 none rest
    | '+' :: rest => again 1 none rest
    | '?' :: rest => again 0 (some 1) rest
    | '\x7b' :: rest => do
      let (least, most, rest) ← bounds? f rest
      again least most rest
    | '(' :: rest =>
      match skipBlank f rest with
      -- Looking around is no part of the language.
      | '?' :: '=' :: _ | '?' :: '!' :: _ | '?' :: '<' :: '=' :: _ | '?' :: '<' :: '!' :: _ => none
      | '?' :: 'P' :: '<' :: rest => do
        let (name, rest) ← groupName? names rest
        group f (name :: names) rest
      | '?' :: '<' :: rest => do
        let (name, rest) ← groupName? names rest
        group f (name :: names) rest
      | '?' :: rest => do
        let (f', alone, rest) ← readFlags (rest.length + 1) f [] false false rest
        -- Flags that stand alone hold up to the end of the group around them.
        if alone then
          readAlternatives fuel f' names branches ({ regex := .empty, repeatable := false } :: items)
            rest
        else group f' names rest
      | rest => group f names rest
    | cs => do
      let (p, rest) ← primitive? f cs
      readAlternatives fuel f names branches ({ regex := ofPrimitive f p } :: items) rest

/-- The expression a text stands for; `none` when it is malformed. -/
def parse? (text : String) : Option Regex := do
  let cs := text.toList
  let (r, _, rest) ← readAlternatives (2 * cs.length + 2) {} [] [] [] cs
  if rest.isEmpty then return r else none

end CodeAudit.Regex
