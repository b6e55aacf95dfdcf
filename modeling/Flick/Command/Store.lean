import Flick.SystemError

/-!
# Files by path

A store is what a run can see of a file system: a directory with files
and directories in it.  `Store.find` follows a path, from that directory
or from the root of the system.  A path may leave the directory.  There
it finds directories above it, and nothing else.
-/

namespace Flick

/-- A file that can be accessed: its size in bytes, and its text if it
can be read. -/
structure SourceFile where
  size : Nat
  content : Except SystemError String

/-- What a path can lead to. -/
inductive Entry where
  | directory
  | file (source : SourceFile)

/-- The entry as a source file.  A directory can be accessed but not
read. -/
def Entry.toSourceFile : Entry → SourceFile
  | .directory => ⟨0, .error .isADirectory⟩
  | .file source => source

/-- A directory: the entries in it and below it by their names on the
way.  The directories on the way to an entry exist too. -/
abbrev Store := List (List String × Entry)

namespace Store

/-- Where a path has led to: a place by the names on the way from the
directory, or some directory above it. -/
inductive Place where
  | within (names : List String)
  | above
  deriving DecidableEq

/-- The place of the parent directory. -/
def Place.parent : Place → Place
  | .within [] | .above => .above
  | .within names => .within names.dropLast

/-- The entry by the names on the way to it, if there is one. -/
def entry? (store : Store) (names : List String) : Option Entry :=
  match List.find? (fun entry => entry.1 == names) store with
  | some (_, entry) => some entry
  | none =>
    if List.any store (fun entry => names.isPrefixOf entry.1) then some .directory else none

/-- The most bytes of a name. -/
def maxName : Nat := 255

/-- The most bytes of a path. -/
def maxPath : Nat := 4095

/-- Takes a step by name from the directory at a place. -/
def step (store : Store) (place : Place) (name : String) :
    Except SystemError (Place × Entry) :=
  if name = "" || name = "." then .ok (place, .directory)
  else if name = ".." then .ok (place.parent, .directory)
  else if maxName < name.utf8ByteSize then .error .nameTooLong
  else
    match place with
    | .above => .error .noSuchFile
    | .within names =>
      match store.entry? (names ++ [name]) with
      | none => .error .noSuchFile
      | some entry => .ok (.within (names ++ [name]), entry)

/-- Follows names, step by step, from an entry at a place. -/
def follow (store : Store) (place : Place) (entry : Entry) :
    List String → Except SystemError Entry
  | [] => .ok entry
  | name :: names =>
    match entry with
    | .file _ => .error .notADirectory
    | .directory =>
      match store.step place name with
      | .error reason => .error reason
      | .ok (place, entry) => store.follow place entry names

/-- The names on a path. -/
def namesOf (path : String) : List String := path.splitOn "/"

/-- What is known of every system from its root on: an empty device, and
a directory for files that nobody keeps. -/
def system : Store := [(["dev", "null"], .file ⟨0, .ok ""⟩), (["tmp"], .directory)]

/-- The file at a path, or why it cannot be accessed. -/
def find (store : Store) (path : String) : Except SystemError SourceFile :=
  if maxPath < path.utf8ByteSize then .error .nameTooLong
  else
    let start := if path.startsWith "/" then system else store
    match start.follow (.within []) .directory (namesOf path) with
    | .error reason => .error reason
    | .ok entry => .ok entry.toSourceFile

end Store

end Flick
