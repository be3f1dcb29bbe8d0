import CodeAudit.FileSystem

namespace CodeAudit

inductive NameItem where
  | char (c : Char)
  | any
  | run
  | set (negated : Bool) (ranges : List (Char × Char))
deriving DecidableEq, Repr

namespace NameItem

/-- Whether an item that stands for one character admits it. -/
def admits (c : Char) : NameItem → Bool
  | char c' => c == c'
  | any => true
  | run => false
  | set negated ranges => negated != ranges.any fun r => r.1 ≤ c && c ≤ r.2

end NameItem

inductive PatternStep where
  | directories
  | name (items : List NameItem)
deriving DecidableEq, Repr

structure FilePattern where
  steps : List PatternStep
  absolute : Bool
deriving DecidableEq, Repr

namespace FilePattern

def ranges : List Char → List (Char × Char)
  | a :: '-' :: b :: rest => (a, b) :: ranges rest
  | a :: rest => (a, a) :: ranges rest
  | [] => []

/-- The items of a name, the first `fuel` of them; every item takes a character at least. -/
def itemsOf? : Nat → List Char → Option (List NameItem)
  | _, [] => some []
  | 0, _ => none
  | _ + 1, '*' :: '*' :: _ => none
  | fuel + 1, '*' :: rest => (itemsOf? fuel rest).map (.run :: ·)
  | fuel + 1, '?' :: rest => (itemsOf? fuel rest).map (.any :: ·)
  | fuel + 1, '[' :: '!' :: first :: rest => set? fuel true first rest
  | _ + 1, ['[', '!'] => none
  | fuel + 1, '[' :: first :: rest => set? fuel false first rest
  | _ + 1, ['['] => none
  | fuel + 1, c :: rest => (itemsOf? fuel rest).map (.char c :: ·)
where
  /-- A set ends at the first closing bracket that is not its first member. -/
  set? (fuel : Nat) (negated : Bool) (first : Char) (rest : List Char) :
      Option (List NameItem) := do
    let (members, rest) ← Text.cutAt? (· == ']') rest
    (itemsOf? fuel rest).map (.set negated (ranges (first :: members)) :: ·)

def step? (piece : String) : Option PatternStep :=
  if piece == "**" then some .directories
  else (itemsOf? piece.length piece.toList).map .name

/-- Reads a pattern; a slash at its end makes no difference. -/
def parse? (text : String) : Option FilePattern := do
  let pieces := Text.splitOnChar '/' text
  let pieces := if pieces.getLast? == some "" then pieces.dropLast else pieces
  let pieces := if pieces.isEmpty then [""] else pieces
  return { steps := ← pieces.mapM step?, absolute := text.toList.head? == some '/' }

def suffixes : List Char → List (List Char)
  | [] => [[]]
  | c :: cs => (c :: cs) :: suffixes cs

def matchesName : List NameItem → List Char → Bool
  | [], cs => cs.isEmpty
  | .run :: rest, cs => (suffixes cs).any (matchesName rest)
  | item :: rest, c :: cs => item.admits c && matchesName rest cs
  | _ :: _, [] => false

def literal? (items : List NameItem) : Option String :=
  (items.mapM fun item =>
    match item with
    | NameItem.char c => some c
    | _ => none).map String.ofList

def step (path : Path) (name : String) : Path :=
  if path.components == [.here] then ⟨name⟩ else path.join ⟨name⟩

def descendants (fs : FileSystem) (path : Path) : List (Path × String) :=
  match fs.find path with
  | .ok (place, .directory) =>
    fs.entries.filterMap fun (p, _) =>
      if place.isPrefixOf p then
        let names := p.drop place.length
        names.getLast?.map fun name => (step path ("/".intercalate names), name)
      else none
  | _ => []

def children (fs : FileSystem) (path : Path) : List String :=
  match fs.list path with
  | .ok names => names
  | .error _ => []

mutual

/-- The paths that steps lead to from a path. A name without wildcards need only exist; a directory
itself and the one above it are met only where they are written out or after a dot. -/
def expand (fs : FileSystem) (steps : List PatternStep) (path : Path) : List Path :=
  match steps with
  | [] => [path]
  | .directories :: rest => expandBelow fs rest path
  | .name items :: rest =>
    match literal? items with
    | some name =>
      let special := name == "." || name == ".."
      if (if special then fs.isDirectory path else fs.exists? (step path name)) then
        expand fs rest (step path name)
      else []
    -- Wildcards go through what a directory holds, which never counts itself among its entries.
    | none =>
      let matching := fun (name : String) => matchesName items name.toList
      let dotted := items.head? == some (.char '.') && fs.isDirectory path
      ((children fs path).filter matching).flatMap (fun name => expand fs rest (step path name)) ++
        if dotted then
          ([".", ".."].filter matching).flatMap fun name => expand fs rest (path.join ⟨name⟩)
        else []
termination_by structural steps

def expandBelow (fs : FileSystem) (steps : List PatternStep) (path : Path) : List Path :=
  match steps with
  | [] => []
  | .directories :: rest => expandBelow fs rest path
  | .name items :: rest =>
    ((descendants fs path).filter fun d => matchesName items d.2.toList).flatMap fun d =>
      expand fs rest d.1
termination_by structural steps

end

def files (p : FilePattern) (fs : FileSystem) : List Path :=
  if p.absolute then [] else (expand fs p.steps ⟨"."⟩).filter fs.isFile

end FilePattern

end CodeAudit
