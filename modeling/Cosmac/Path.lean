import Cosmac.Text.Basic

/-!
# File paths

A path is kept in normal form: no empty parts, no `.`, no slash at the end.  A leading slash makes
it absolute; exactly two are kept as two.
-/

namespace Cosmac

/-- A file path in normal form. -/
structure Path where
  /-- The leading slashes of an absolute path. -/
  root : Text
  /-- The names along the path. -/
  parts : List Text
  deriving DecidableEq, Repr

namespace Path

/-- The path written by a text. -/
def ofText (t : Text) : Path where
  root :=
    match (t.takeWhile (· == '/')).length with
    | 0 => []
    | 2 => "//".toList
    | _ => "/".toList
  parts := (Text.splitOn '/' t).filter fun part => part != [] && part != ['.']

/-- The text of a path. -/
def toText (p : Path) : Text :=
  if p.root.isEmpty && p.parts.isEmpty then ".".toList
  else p.root ++ ['/'].intercalate p.parts

/-- The last name, empty if there is none. -/
def name (p : Path) : Text := p.parts.getLast?.getD []

/-- The name has an extension: a dot that is neither its first nor its last character. -/
def hasExtension (name : Text) : Bool :=
  match name.reverse with
  | [] => false
  | '.' :: _ => false
  | last =>
    match last.dropWhile (· != '.') with
    | [] | [_] => false
    | _ => true

/-- The extension of source files. -/
def sourceExtension : Text := ".asm".toList

/-- The path of a source file, which gets its extension if it has none.  There is no such path if
the name is empty. -/
def source? (p : Path) : Option Path :=
  if hasExtension p.name then some p
  else if p.name.isEmpty then none
  else some { p with parts := p.parts.dropLast ++ [p.name ++ sourceExtension] }

end Path

end Cosmac
