import Cosmac.Path
import Cosmac.Text.Encoding
import Cosmac.Text.Quoted

/-!
# Workspace

The files that the tools read and write, as a value.  A file stands at a place, the list of names
that leads to it from the working folder, or from the root if the first of them is `/`.
-/

namespace Cosmac

/-- What stands at a place. -/
inductive Entry where
  /-- A file with its bytes. -/
  | file (bytes : List UInt8)
  /-- A folder. -/
  | folder
  deriving DecidableEq, Repr

/-- Why a file could not be read or written. -/
inductive FileFault where
  /-- There is nothing at its place, or no folder to put it into. -/
  | missing
  /-- Something on the way is no folder. -/
  | notFolder
  /-- It is a folder. -/
  | isFolder
  /-- A name in its path, or the whole path, takes too many bytes. -/
  | nameTooLong
  /-- A name in its path holds the null character. -/
  | invalidName
  deriving DecidableEq, Repr

/-- The text of a fault. -/
def FileFault.message (fault : FileFault) (p : Path) : Text :=
  match fault with
  | missing => "[Errno 2] No such file or directory: ".toList ++ Text.quoted p.toText
  | notFolder => "[Errno 20] Not a directory: ".toList ++ Text.quoted p.toText
  | isFolder => "[Errno 21] Is a directory: ".toList ++ Text.quoted p.toText
  | nameTooLong => "[Errno 36] File name too long: ".toList ++ Text.quoted p.toText
  | invalidName => "embedded null byte".toList

/-- The names that lead to a file or folder. -/
abbrev Place := List Text

/-- Files and folders. -/
structure Workspace where
  /-- The files, each with its place. -/
  files : List (Place × List UInt8) := []
  /-- Folders that hold no file. -/
  folders : List Place := []
  /-- Files that keep nothing of what is written to them. -/
  sinks : List Place := []
  deriving DecidableEq, Repr

namespace Workspace

/-- The name of the folder above. -/
def above : Text := "..".toList

/-- The place is the working folder, the root or a folder above them. -/
def isOutermost (place : Place) : Bool := place.all (· == above) || place == ["/".toList]

/-- What stands at a place. -/
def find? (w : Workspace) (place : Place) : Option Entry :=
  match w.files.lookup place with
  | some bytes => some (.file bytes)
  | none =>
    if w.sinks.contains place then some (.file [])
    else if isOutermost place || w.folders.contains place ||
        w.files.any (fun file => place.isPrefixOf file.1) then
      some .folder
    else none

/-- The most bytes of a name. -/
def nameLimit : Nat := 255

/-- The most bytes of a path. -/
def pathLimit : Nat := 4095

/-- The text takes more bytes than the limit. -/
def exceeds (limit : Nat) (t : Text) : Bool := decide (limit < (Text.encodeUtf8 t).length)

/-- One name further. -/
def step (place : Place) (name : Text) : Place :=
  if name = above then
    if place = ["/".toList] then place
    else if place.all (· == above) then place ++ [name]
    else place.dropLast
  else place ++ [name]

/-- The place to which names lead from another; each name but the last must be a folder's, and none
may be too long. -/
def follow (w : Workspace) (place : Place) : List Text → Except FileFault Place
  | [] => .ok place
  | name :: rest =>
    match w.find? place with
    | none => .error .missing
    | some (.file _) => .error .notFolder
    | some .folder =>
      if exceeds nameLimit name then .error .nameTooLong else w.follow (step place name) rest

/-- The place of a path. -/
def locate (w : Workspace) (p : Path) : Except FileFault Place :=
  if p.parts.any (·.contains '\x00') then .error .invalidName
  else if exceeds pathLimit p.toText then .error .nameTooLong
  else w.follow (if p.root.isEmpty then [] else ["/".toList]) p.parts

/-- What stands at the path as written: a slash or a dot at its end asks for a folder. -/
def entry? (w : Workspace) (t : Text) : Option Entry :=
  if t.isEmpty || exceeds pathLimit t then none
  else
    match w.locate (.ofText t) with
    | .error _ => none
    | .ok place =>
      match w.find? place, (Text.splitOn '/' t).getLast? with
      | some (.file _), some [] => none
      | some (.file _), some ['.'] => none
      | entry, _ => entry

/-- There is a file at the path, or none; a path that is too long cannot be looked up. -/
def isFile (w : Workspace) (p : Path) : Except FileFault Bool :=
  match w.locate p with
  | .error .nameTooLong => .error .nameTooLong
  | .error _ => .ok false
  | .ok place =>
    match w.find? place with
    | some (.file _) => .ok true
    | _ => .ok false

/-- The bytes of a file. -/
def read (w : Workspace) (p : Path) : Except FileFault (List UInt8) := do
  match w.find? (← w.locate p) with
  | some (.file bytes) => .ok bytes
  | some .folder => .error .isFolder
  | none => .error .missing

/-- Puts bytes at a place. -/
def put (w : Workspace) (place : Place) (bytes : List UInt8) : Workspace :=
  if w.sinks.contains place then w
  else if (w.files.lookup place).isSome then
    { w with files := w.files.map fun file => if file.1 = place then (place, bytes) else file }
  else { w with files := w.files ++ [(place, bytes)] }

/-- Writes a file; its folder must exist. -/
def write (w : Workspace) (p : Path) (bytes : List UInt8) : Except FileFault Workspace := do
  let place ← w.locate p
  match w.find? place with
  | some .folder => .error .isFolder
  | _ => .ok (w.put place bytes)

/-- The files that are new or have other bytes than before. -/
def changes (before after : Workspace) : List (Place × List UInt8) :=
  after.files.filter fun file => before.files.lookup file.1 != some file.2

end Workspace

end Cosmac
