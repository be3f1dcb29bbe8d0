import CodeAudit.Path

namespace CodeAudit

inductive Entry where
  | file (text : String)
  | directory
deriving DecidableEq, Repr

abbrev Place := List String

/-- Where a component leads from a place; nothing outside of the working directory can be
reached. -/
def Component.from? (c : Component) (base : Place) : Option Place :=
  match c with
  | root => none
  | here => some base
  | parent => if base.isEmpty then none else some base.dropLast
  | name s => some (base ++ [s])

/-- The files below a working directory. Nothing else can be reached: a path that is absolute or
climbs above the working directory always fails. There are no permissions, so whatever can be read
can be written. -/
structure FileSystem where
  entries : List (Place × Entry)
  home : Path

inductive IoError where
  | notFound
  | notADirectory
  | isADirectory
  | alreadyExists
  | denied
deriving DecidableEq, Repr

namespace IoError

def message : IoError → String
  | notFound => "No such file or directory (os error 2)"
  | notADirectory => "Not a directory (os error 20)"
  | isADirectory => "Is a directory (os error 21)"
  | alreadyExists => "File exists (os error 17)"
  | denied => "Permission denied (os error 13)"

end IoError

namespace FileSystem

def entry? (fs : FileSystem) (p : Place) : Option Entry :=
  if p.isEmpty then some .directory else fs.entries.lookup p

/-- The place reached from `base` by a path's components. Every place on the way must be a
directory. -/
def walk (fs : FileSystem) : Place → List Component → Except IoError Place
  | base, [] => .ok base
  | base, c :: rest =>
    match fs.entry? base with
    | some .directory =>
      match c with
      | .root => .error .denied
      | .here => walk fs base rest
      | .parent => if base.isEmpty then .error .denied else walk fs base.dropLast rest
      | .name s => walk fs (base ++ [s]) rest
    | some (.file _) => .error .notADirectory
    | none => .error .notFound

/-- Whether a path can only name a directory. -/
def namesDirectory (p : Path) : Bool :=
  match p.text.toList.reverse with
  | '/' :: _ => true
  | '.' :: '/' :: _ => true
  | _ => false

def find (fs : FileSystem) (p : Path) : Except IoError (Place × Entry) := do
  if p.text.isEmpty then throw .notFound
  let place ← fs.walk [] p.components
  match fs.entry? place with
  | some (.file text) =>
    if namesDirectory p then throw .notADirectory else return (place, .file text)
  | some .directory => return (place, .directory)
  | none => throw .notFound

def exists? (fs : FileSystem) (p : Path) : Bool := (fs.find p).isOk

def isDirectory (fs : FileSystem) (p : Path) : Bool :=
  match fs.find p with
  | .ok (_, .directory) => true
  | _ => false

def isFile (fs : FileSystem) (p : Path) : Bool :=
  match fs.find p with
  | .ok (_, .file _) => true
  | _ => false

def read (fs : FileSystem) (p : Path) : Except IoError String := do
  match ← fs.find p with
  | (_, .file text) => return text
  | (_, .directory) => throw .isADirectory

def namesIn (fs : FileSystem) (place : Place) : List String :=
  fs.entries.filterMap fun (p, _) =>
    if p.dropLast == place then p.getLast? else none

def list (fs : FileSystem) (p : Path) : Except IoError (List String) := do
  match ← fs.find p with
  | (place, .directory) => return fs.namesIn place
  | (_, .file _) => throw .notADirectory

def put (fs : FileSystem) (place : Place) (e : Entry) : FileSystem :=
  if (fs.entries.lookup place).isSome then
    { fs with entries := fs.entries.map fun (p, old) => (p, if p == place then e else old) }
  else { fs with entries := fs.entries ++ [(place, e)] }

/-- The place of a file that is about to be written; its directory must exist. -/
def placeToWrite (fs : FileSystem) (p : Path) : Except IoError Place := do
  if p.text.isEmpty then throw .notFound
  let place ← fs.walk [] p.components
  match fs.entry? place with
  | some .directory => throw .isADirectory
  | some (.file _) => if namesDirectory p then throw .notADirectory else return place
  | none =>
    if namesDirectory p then throw .isADirectory
    match fs.entry? place.dropLast with
    | some .directory => return place
    | some (.file _) => throw .notADirectory
    | none => throw .notFound

def write (fs : FileSystem) (p : Path) (text : String) : Except IoError FileSystem := do
  return fs.put (← fs.placeToWrite p) (.file text)

def makeDirs (fs : FileSystem) : Place → List Component → Except IoError FileSystem
  | base, [] =>
    match fs.entry? base with
    | some .directory => .ok fs
    | some (.file _) => .error .alreadyExists
    | none => .ok (fs.put base .directory)
  | base, c :: rest =>
    let next : Except IoError FileSystem :=
      match fs.entry? base with
      | some .directory => .ok fs
      | some (.file _) => .error .notADirectory
      | none => .ok (fs.put base .directory)
    match next with
    | .error e => .error e
    | .ok fs =>
      match c with
      | .root => .error .denied
      | .here => makeDirs fs base rest
      | .parent => if base.isEmpty then .error .denied else makeDirs fs base.dropLast rest
      | .name s => makeDirs fs (base ++ [s]) rest

def makeDir (fs : FileSystem) (place : Place) : FileSystem :=
  if (fs.entry? place).isNone then fs.put place .directory else fs

/-- The store after directories were made along a path, as far as that got. -/
def madeDirs (fs : FileSystem) : Place → List Component → FileSystem
  | base, [] => fs.makeDir base
  | base, c :: rest =>
    let fs := fs.makeDir base
    match fs.entry? base, c.from? base with
    | some .directory, some next => madeDirs fs next rest
    | _, _ => fs

def createDirectories (fs : FileSystem) (p : Path) : Except IoError FileSystem :=
  if p.text.isEmpty then .ok fs else fs.makeDirs [] p.components

/-- The store that holds the given files, the directories above them, and nothing else. A path
without text makes a directory. -/
def ofFiles (home : Path) (files : List (Path × Option String)) : Except IoError FileSystem :=
  files.foldlM
    (fun fs (p, content) =>
      match content with
      | none => fs.createDirectories p
      | some text => do
        let fs ← fs.makeDirs [] p.components.dropLast
        fs.write p text)
    { entries := [], home }

end FileSystem

end CodeAudit
