import RichDoc.CommandLine.Run

/-!
# Runs on a store of files

A world in memory for a run: the files of a directory tree, the directory
in it that the run works in, the standard input, what was written to the
standard output and the environment variables. A directory exists if it
was made or something is in it. What is no text cannot be read, but it can
be replaced.

A path with a slash at its start leads down from the root, every other
path from the working directory. Two dots lead to the directory above; the
root is above itself. There are no links, so each file has one location.
-/

namespace RichDoc

/-- The names from the root down to a file or directory. -/
abbrev Location := List String

structure Store where
  files : List (Location × String) := []
  /-- The files whose bytes are no text. -/
  undecodable : List Location := []
  /-- Directories that were made, with or without files in them. -/
  directories : List Location := []
  /-- Where the paths that do not start at the root start. -/
  workingDirectory : Location := []
  /-- Files that may not be replaced, and directories that nothing may be added to. -/
  readOnly : List Location := []
  /-- The standard input, if it is text. -/
  input : Option String := some ""
  output : String := ""
  environment : List (String × String) := []
deriving DecidableEq, Repr

namespace Store

def file? (store : Store) (location : Location) : Option String := store.files.lookup location

/-- The text of the file at a location, if it has one. -/
def text? (store : Store) (location : Location) : Option String :=
  if location ∈ store.undecodable then none else store.file? location

/-- The working directory, one that was made, or one with something below it. -/
def isDirectory (store : Store) (location : Location) : Bool :=
  location.isPrefixOf store.workingDirectory
    || store.directories.any location.isPrefixOf
    || store.files.any fun (file, _) => location.isPrefixOf file && location != file

/-- Follows the names of a path from a directory. What a name is looked
up in has to be a directory; the last name need not be there. -/
def walk (store : Store) (location : Location) : List String → Option Location
  | [] => some location
  | name :: rest =>
    if !store.isDirectory location then none
    else if name = "" || name = "." then store.walk location rest
    else if name = ".." then store.walk location.dropLast rest
    else store.walk (location ++ [name]) rest

/-- The names in a path. -/
def namesIn (path : String) : List String := (path.toList.splitOn '/').map String.ofList

/-- The directory that a path starts from. -/
def startOf (store : Store) (path : String) : Location :=
  if path.toList.head? = some '/' then [] else store.workingDirectory

/-- A path is some text without a null character. -/
def isPath (path : String) : Bool := !path.isEmpty && !path.toList.contains '\x00'

/-- The location that a path leads to. -/
def locate? (store : Store) (path : String) : Option Location :=
  if isPath path then store.walk (store.startOf path) (namesIn path) else none

/-- The store with another text under a location. -/
def put (store : Store) (location : Location) (text : String) : Store :=
  let files :=
    if (store.file? location).isSome then
      store.files.map fun (file, old) => if file = location then (file, text) else (file, old)
    else store.files ++ [(location, text)]
  { store with files, undecodable := store.undecodable.filter (· ≠ location) }

/-! ## Operations -/

def exists? (store : Store) (path : String) : Bool :=
  match store.locate? path with
  | some location => (store.file? location).isSome || store.isDirectory location
  | none => false

/-- The text of the file at a path. -/
def read? (store : Store) (path : String) : Option String := (store.locate? path).bind store.text?

/-- A file at the location may be replaced, or made if there is none. -/
def mayWrite (store : Store) (location : Location) : Bool :=
  !store.isDirectory location &&
    !store.readOnly.contains
      (if (store.file? location).isSome then location else location.dropLast)

/-- The store with another text in the file at a path, which may be new. -/
def write? (store : Store) (path : String) (text : String) : Option Store := do
  let location ← store.locate? path
  if store.mayWrite location then some (store.put location text) else none

/-- The store as the world of a run. -/
def system : System (StateM Store) where
  lookupVariable name := return (← get).environment.lookup name
  exists? path := return (← get).exists? path
  readFile path := return (← get).read? path
  writeFile path text := do
    match (← get).write? path text with
    | some store => set store; return true
    | none => return false
  readInput := return (← get).input
  writeOutput text := modify fun store => { store with output := store.output ++ text }

/-! ## Configuration files -/

/-- The names of a path, without those that stay where they are. -/
def namesOf (path : String) : Location := (namesIn path).filter fun name => name ≠ "" && name ≠ "."

/-- The names of the directory that a path has its last name in. -/
def directoryNames (path : String) : List String :=
  ((namesIn path).reverse.dropWhile fun name => name = "" || name = ".").tail.reverse

/-- Follows the names of a path from a directory and makes the directories
that are not there. Nothing comes of it where a file stands in the way or
nothing may be added. -/
def makeDirectories (store : Store) (location : Location) : List String → Option Store
  | [] => some store
  | name :: rest =>
    if name = "" || name = "." then store.makeDirectories location rest
    else if name = ".." then store.makeDirectories location.dropLast rest
    else if store.isDirectory (location ++ [name]) then
      store.makeDirectories (location ++ [name]) rest
    else if (store.file? (location ++ [name])).isSome || store.readOnly.contains location then none
    else
      { store with directories := store.directories ++ [location ++ [name]] }.makeDirectories
        (location ++ [name]) rest

/-- Writes a configuration to a file, with the directories that it needs. -/
def saveConfig? (path : String) (config : Config) (store : Store) : Option Store := do
  let store ← store.makeDirectories (store.startOf path) (directoryNames path)
  store.write? path config.write

/-- The store after a configuration was written, or as it was if that failed. -/
def saveConfig (path : String) (config : Config) (store : Store) : Store :=
  (store.saveConfig? path config).getD store

/-- Loads the configuration in a file, if there is one. -/
def loadConfig (path : String) (store : Store) : Except RunError (Option Config) :=
  ((RichDoc.loadConfig system path).run.run store).1

end Store

end RichDoc
