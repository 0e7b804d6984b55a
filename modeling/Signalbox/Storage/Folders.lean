import Std.Data.ExtTreeMap
import Std.Data.ExtTreeSet

/-!
# Folders and files

A tree of folders that hold text files.  A place in the tree is the list of names on the way to it,
innermost first.  A path is walked name by name from the root of the tree, and every name but the
last must be that of a folder.

* `Folders.makeAll` : make the folder of a path and every folder on the way to it.
-/

set_option autoImplicit false

namespace Signalbox

/-! ## Faults -/

/-- Why a file could not be read or written. -/
inductive StorageFault where
  | notFound
  | exists_
  | notDirectory
  | isDirectory
  | nameTooLong
  | nulInName
  | full
deriving DecidableEq, Inhabited

def StorageFault.message : StorageFault → String
  | notFound => "No such file or directory (os error 2)"
  | exists_ => "File exists (os error 17)"
  | notDirectory => "Not a directory (os error 20)"
  | isDirectory => "Is a directory (os error 21)"
  | nameTooLong => "File name too long (os error 36)"
  | nulInName => "file name contained an unexpected NUL byte"
  | full => "disk full"

/-! ## Places -/

/-- The names on the way to a folder or file, innermost first. -/
abbrev Place := List String

/-- The name that stands for the folder around a folder. -/
def upName : String := ".."

/-- The name that stands for a folder itself. -/
def hereName : String := "."

/-- The name of the topmost folder. -/
def topName : String := "/"

/-- The place around a place.  Above the root of the tree lie places of which nothing is known. -/
def Place.outer : Place → Place
  | [] => [upName]
  | n :: p => if n = topName then [topName] else if n = upName then upName :: n :: p else p

/-- A path: where it starts, and its names, innermost first. -/
structure StoragePath where
  base : Place
  names : List String
deriving DecidableEq

namespace StoragePath

/-- The longest name, in bytes. -/
def maxName : Nat := 255

/-- The longest path, in bytes. -/
def maxPath : Nat := 4095

/-- Names without the empty ones and without those that stand for the folder itself, except that
the last of all may stand for the folder itself. -/
def normalize (names : List String) : List String :=
  let present := names.filter (· ≠ "")
  let kept := (present.filter (· ≠ hereName)).reverse
  if present.getLast? = some hereName then hereName :: kept else kept

/-- The path that a text spells, with slashes between its names. -/
def ofText (s : String) : Except StorageFault StoragePath :=
  if s.toList.contains '\x00' then .error .nulInName
  else if maxPath < s.utf8ByteSize then .error .nameTooLong
  else .ok ⟨if s.startsWith topName then [topName] else [], normalize (s.splitOn topName)⟩

/-- The path of a file in the folder of a path. -/
def file (p : StoragePath) (name : String) : StoragePath := { p with names := name :: p.names }

end StoragePath

/-- Folders and the texts of files. -/
structure Folders where
  folders : Std.ExtTreeSet Place := ∅
  files : Std.ExtTreeMap Place String := ∅

namespace Folders

def empty : Folders := {}

instance : Inhabited Folders := ⟨empty⟩

/-- Whether a place is a folder.  The root is, and so is everything above it. -/
def isFolder (t : Folders) (p : Place) : Bool :=
  p.all (· = upName) || p = [topName] || decide (p ∈ t.folders)

def isFile (t : Folders) (p : Place) : Bool := decide (p ∈ t.files)

/-- The place of a name in a folder. -/
def enter (t : Folders) (p : Place) (name : String) : Except StorageFault Place :=
  if t.isFolder p then
    if name = hereName then .ok p
    else if name = upName then .ok p.outer
    else if StoragePath.maxName < name.utf8ByteSize then .error .nameTooLong
    else .ok (name :: p)
  else if t.isFile p then .error .notDirectory
  else .error .notFound

/-- The place that a path leads to; it need not exist. -/
def locate (t : Folders) (base : Place) : List String → Except StorageFault Place
  | [] => .ok base
  | n :: outer => do t.enter (← t.locate base outer) n

/-- Whether a path leads to a folder. -/
def leadsToFolder (t : Folders) (base : Place) (names : List String) : Bool :=
  match t.locate base names with
  | .ok p => t.isFolder p
  | .error _ => false

/-- Make the folder of a path inside a folder that is there. -/
def make (t : Folders) (base : Place) (names : List String) : Except StorageFault Folders := do
  let p ← t.locate base names
  if t.isFolder p || t.isFile p then .error .exists_
  else .ok { t with folders := t.folders.insert p }

/-- Make the folder of a path, and first those on the way to it that are not there.  Folders made
before a fault stay. -/
def makeAll (t : Folders) (base : Place) : List String → Folders × Option StorageFault
  | [] => (t, none)
  | n :: outer =>
    match t.make base (n :: outer) with
    | .ok t => (t, none)
    | .error .notFound =>
      match t.makeAll base (if n = hereName then outer.tail else outer) with
      | (t, some f) => (t, some f)
      | (t, none) =>
        match t.make base (n :: outer) with
        | .ok t => (t, none)
        | .error f => (t, if t.leadsToFolder base (n :: outer) then none else some f)
    | .error f => (t, if t.leadsToFolder base (n :: outer) then none else some f)
termination_by names => names.length
decreasing_by
  rw [List.length_cons]
  have : outer.tail.length ≤ outer.length := by simp
  split <;> omega

/-- Write a file, in place of one that was there. -/
def write (t : Folders) (path : StoragePath) (text : String) : Except StorageFault Folders := do
  let p ← t.locate path.base path.names
  if t.isFolder p then .error .isDirectory
  else .ok { t with files := t.files.insert p text }

def read? (t : Folders) (path : StoragePath) : Option String :=
  match t.locate path.base path.names with
  | .ok p => t.files[p]?
  | .error _ => none

end Folders

end Signalbox
