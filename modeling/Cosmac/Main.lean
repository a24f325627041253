import Cosmac.Command.Assemble
import Cosmac.Command.Disassemble

/-!
# The command line

The first argument names the tool, the others are its command line.  The files that the command
line mentions are read into a workspace, the command runs on that, and the files that it changed
are written back.
-/

namespace Cosmac.Command

/-- The text as a string. -/
def asString (t : Text) : String := String.ofList t

/-- The paths that a word of a command line can stand for, each with the folders on its way. -/
def mentioned (arg : Text) : List Path :=
  let value := (arg.dropWhile (· != '=')).drop 1
  let paths := [arg, arg.drop 2, value].map Path.ofText
  let sources := paths.filterMap Path.source?
  (paths ++ sources).flatMap fun p =>
    (List.range (p.parts.length + 1)).map fun n => { p with parts := p.parts.take n }

/-- What stands at a path in the file system. -/
def loadEntry (p : Path) : IO (Option Entry) := do
  try
    return some (.file (← IO.FS.readBinFile (asString p.toText)).toList)
  catch
    | .inappropriateType .. => return some .folder
    | _ => return none

/-- The workspace with what stands at a path. -/
def loadPath (w : Workspace) (p : Path) : IO Workspace := do
  match w.locate p, ← loadEntry p with
  | .ok place, some (.file bytes) => return w.put place bytes
  | .ok place, some .folder => return { w with folders := place :: w.folders }
  | _, _ => return w

/-- The text of the path of a place. -/
def placeText (place : Place) : Text :=
  match place with
  | ['/'] :: names => '/' :: ['/'].intercalate names
  | names => ['/'].intercalate names

/-- Writes a file to the file system. -/
def storeFile (file : Place × List UInt8) : IO Unit :=
  IO.FS.writeBinFile (asString (placeText file.1)) (ByteArray.mk file.2.toArray)

/-- Runs a tool on the file system. -/
def runTool (tool : Workspace → List Text → Outcome) (args : List Text) : IO UInt32 := do
  let before ← (args.flatMap mentioned).foldlM loadPath {}
  match tool before args with
  | .usageError =>
    IO.eprintln "Error: invalid command line"
    return 2
  | .abandoned => return 1
  | .finished status console =>
    (before.changes console.files).forM storeFile
    IO.print (asString console.out)
    IO.eprint (asString console.err)
    return UInt32.ofNat status.code

end Cosmac.Command

/-- Runs the tool that the first argument names. -/
def main (args : List String) : IO UInt32 := do
  match args with
  | "asm1802" :: rest => Cosmac.Command.runTool Cosmac.Command.Assemble.run (rest.map String.toList)
  | "dis1802" :: rest =>
    Cosmac.Command.runTool Cosmac.Command.Disassemble.run (rest.map String.toList)
  | _ =>
    IO.eprintln "usage: asm1802 | dis1802 [option ...] file"
    return 2
