import Cosmac.Assembly.Log
import Cosmac.IntelHex
import Cosmac.SymbolReport
import Cosmac.Text.Encoding
import Cosmac.Workspace

/-!
# Assembler

An assembler keeps settings and predefined symbols over several programs, and the assembly of the
last one.  It assembles text or files and gives the results in the forms in which they are
printed and written to files.
-/

namespace Cosmac

/-- Sets the value of a name: in its place if it is there, else at the end. -/
def setNamed (entries : List (Text × Int)) (name : Text) (value : Int) : List (Text × Int) :=
  if (entries.lookup name).isSome then
    entries.map fun entry => if entry.1 = name then (name, value) else entry
  else entries ++ [(name, value)]

/-- Settings, predefined symbols and the last assembly. -/
structure Assembler where
  /-- Progress is reported. -/
  verbose : Bool := false
  /-- The byte for gaps in the binary image. -/
  fill : Int := 0
  /-- The predefined symbols, names in upper case and values words. -/
  defines : List (Text × Int) := []
  /-- The last source file. -/
  sourceFile : Option Path := none
  /-- The last assembly. -/
  assembly : Assembly := {}
  deriving DecidableEq, Repr

namespace Assembler

/-! ### Settings -/

/-- Predefines a symbol for all programs to come. -/
def define (a : Assembler) (name : Text) (value : Int) : Assembler :=
  { a with defines := setNamed a.defines (Text.upper name) (word value) }

/-- An assembler with settings.  Of two predefined symbols that are written alike the later value
counts, at the place of the first. -/
def create (verbose : Bool) (defines : List (Text × Int)) (fill : Int) : Assembler :=
  let distinct := defines.foldl (fun entries entry => setNamed entries entry.1 entry.2) []
  distinct.foldl (fun a entry => a.define entry.1 entry.2) { verbose, fill := lowByte fill }

/-- An empty assembly with the predefined symbols. -/
def seed (a : Assembler) : Assembly :=
  a.defines.foldl (fun assembly entry => (assembly.define entry.1 (some entry.2)).toOption.getD
    assembly) {}

/-! ### Results -/

/-- The binary image. -/
def code (a : Assembler) : List UInt8 := a.assembly.image.flatten a.fill

/-- The lowest address that holds code. -/
def origin (a : Assembler) : Int := a.assembly.image.start

/-- The rows of the symbol table. -/
def records (a : Assembler) : List SymbolRecord := a.assembly.context.symbols.records

/-- The symbols that have a value, with it. -/
def symbols (a : Assembler) : List (Text × Int) :=
  (a.records.filter (·.resolved)).map fun r => (r.name, r.value)

/-- Warnings, number of errors and symbol table. -/
def summary (a : Assembler) : Text :=
  SymbolReport.summary a.assembly.report.errorCount a.records a.assembly.report.warnings

/-- The listing and the summary. -/
def listing (a : Assembler) : Text :=
  listingText a.assembly.listing ++ "\n\n".toList ++ a.summary

/-- The code in Intel HEX. -/
def intelHex (a : Assembler) : Text := IntelHex.render a.assembly.image.chunks a.origin

/-! ### Assembling -/

/-- Assembles source lines, afresh. -/
def assembleLines (a : Assembler) (lines : List Text) : Assembler × List LogRecord :=
  let done := { a with assembly := a.seed.generate lines }
  (done, a.seed.generateLog lines ++
    [.progress ("Assembled ".toList ++ Numeral.decimal done.assembly.statements.length ++
      " statements: ".toList ++ Numeral.decimal done.code.length ++ " bytes, ".toList ++
      Numeral.decimal done.assembly.report.errorCount ++ " errors".toList)])

/-- Assembles the lines of a text. -/
def assembleText (a : Assembler) (source : Text) : Assembler × List LogRecord :=
  a.assembleLines (Text.splitLines source)

/-- Why a source file could not be assembled. -/
inductive SourceFault where
  /-- The path names no file. -/
  | noName (p : Path)
  /-- The file could not be read. -/
  | unreadable (fault : FileFault) (p : Path)
  deriving DecidableEq, Repr

/-- Assembles a source file.  Its path, with the extension added, is remembered also if the file
cannot be read. -/
def assembleFile (a : Assembler) (w : Workspace) (p : Path) :
    Except SourceFault Unit × Assembler × List LogRecord :=
  match p.source? with
  | none => (.error (.noName p), a, [])
  | some source =>
    let a := { a with sourceFile := some source }
    let started := [LogRecord.progress ("Assembling ".toList ++ source.toText ++ "...".toList)]
    match w.read source with
    | .error fault => (.error (.unreadable fault source), a, started)
    | .ok bytes =>
      let (done, log) := a.assembleText (Text.unifyNewlines (Text.ofLatin1 bytes))
      (.ok (), done, started ++ log)

/-! ### Files -/

/-- A file that an assembler writes. -/
inductive Product where
  /-- The binary image. -/
  | binary
  /-- Intel HEX. -/
  | hex
  /-- The listing. -/
  | listing
  /-- The symbol table. -/
  | symbols
  deriving DecidableEq, Repr

/-- The bytes of a file. -/
def contents (a : Assembler) : Product → List UInt8
  | .binary => a.code
  | .hex => Text.encodeUtf8 a.intelHex
  | .listing => Text.encodeUtf8 (a.listing ++ ['\n'])
  | .symbols => Text.encodeUtf8 (SymbolReport.file a.records)

/-- What is reported of a file, under the name that it was given. -/
def written (a : Assembler) (product : Product) (name : Text) : LogRecord :=
  let what :=
    match product with
    | .binary => "Wrote ".toList ++ Numeral.decimal a.code.length ++ " bytes to ".toList
    | .hex => "Wrote Intel HEX to ".toList
    | .listing => "Wrote listing to ".toList
    | .symbols => "Wrote symbols to ".toList
  .progress (what ++ name)

end Assembler

end Cosmac
