import Cosmac.Assembler
import Cosmac.Command.Console
import Cosmac.Command.Options
import Cosmac.Numeral.Literal

/-!
# The assembling command

Assembles a source file, prints the listing and the symbol table, and writes the files that are
asked for.  Binary and HEX files are written only for a program without errors.
-/

namespace Cosmac.Command.Assemble

/-- The options. -/
inductive Key where
  | output | hex | listing | symbols | define | quiet | verbose | version | help
  deriving DecidableEq, Repr

/-- The options with their names. -/
def specs : List (OptionSpec Key) :=
  [{ key := .output, long := "--output", short := 'o' },
   { key := .hex, long := "--hex", short := 'x' },
   { key := .listing, long := "--listing", short := 'l' },
   { key := .symbols, long := "--symbols", short := 's' },
   { key := .define, long := "--define", short := 'D' },
   { key := .quiet, long := "--quiet", short := 'q', takesValue := false },
   { key := .verbose, long := "--verbose", short := 'v', takesValue := false },
   { key := .version, long := "--version", takesValue := false },
   { key := .help, long := "--help", takesValue := false }]

/-- The symbol that an option defines: `NAME=VALUE`, or `NAME` with the value 1. -/
def parseDefine (t : Text) : Except Failure (Text × Int) :=
  match t.dropWhile (· != '=') with
  | [] => .ok (Text.strip t, 1)
  | _ :: value =>
    match Numeral.option? value with
    | some n => .ok (Text.strip (t.takeWhile (· != '=')), n)
    | none => .error (.parameter (.name "-D".toList) ("invalid value in -D ".toList ++ t))

/-- What a command line asks for. -/
structure Request where
  /-- The source file. -/
  input : Path
  /-- The binary file to write. -/
  output : Option Path
  /-- The Intel HEX file to write. -/
  hex : Option Path
  /-- The listing file to write. -/
  listing : Option Path
  /-- The symbol file to write. -/
  symbols : Option Path
  /-- The symbols to define. -/
  defines : List Text
  /-- The listing is not printed. -/
  quiet : Bool
  /-- Progress is reported. -/
  verbose : Bool

/-- The option is followed by the path of a file. -/
def Key.isPath : Key → Bool
  | output | hex | listing | symbols => true
  | _ => false

/-- The request of sorted words. -/
def Request.ofWords (files : Workspace) (w : Words Key) : Except Refusal Request := do
  let input ← checkWords w
    (fun key value => if key.isPath then checkPath files false value else .ok ())
    (checkPath files false)
  return {
    input := .ofText input
    output := (w.last? .output).map .ofText
    hex := (w.last? .hex).map .ofText
    listing := (w.last? .listing).map .ofText
    symbols := (w.last? .symbols).map .ofText
    defines := w.all .define
    quiet := w.has .quiet
    verbose := w.has .verbose }

/-- Writes a file of the assembler, if it is asked for. -/
def writeProduct (a : Assembler) (product : Assembler.Product) : Option Path → Action Unit
  | none => pure ()
  | some p => do
    writeFile p (a.contents product)
    log a.verbose [a.written product p.toText]

/-- The failure for a source file that cannot be assembled. -/
def sourceFailure : Assembler.SourceFault → Failure
  | .noName p =>
    .internal ("PosixPath(".toList ++ Text.quoted p.toText ++ ") has an empty name".toList)
  | .unreadable fault p => fileFailure fault p

/-- The path of the source file, which must exist. -/
def findSource (input : Path) : Action Path := do
  match input.source? with
  | none => fail (sourceFailure (.noName input))
  | some source =>
    match (← get).files.isFile source with
    | .error fault => fail (fileFailure fault source)
    | .ok true => return source
    | .ok false => fail (.file (source.toText ++ " not found".toList))

/-- Does what a command line asks for. -/
def execute (r : Request) : Action Unit := do
  let defines ← r.defines.mapM fun text =>
    match parseDefine text with
    | .error f => fail f
    | .ok define => pure define
  let source ← findSource r.input
  echo ("ASM1802 v".toList ++ version)
  echo []
  let (result, a, records) :=
    (Assembler.create r.verbose defines 0).assembleFile (← get).files source
  log r.verbose records
  if let .error fault := result then fail (sourceFailure fault)
  unless r.quiet do
    echo (listingText a.assembly.listing)
    echo []
  echo a.summary
  writeProduct a .listing r.listing
  writeProduct a .symbols r.symbols
  if a.assembly.report.hasErrors then
    if r.verbose then echoError a.assembly.report.render
    throw (.exit .assemblyError)
  writeProduct a .binary r.output
  writeProduct a .hex r.hex
  log r.verbose [.debug ("Assembly complete: ".toList ++ Numeral.decimal a.code.length ++
    " bytes at $".toList ++ Numeral.hex 4 a.origin ++ ", ".toList ++
    Numeral.decimal a.records.length ++ " symbols".toList)]

/-- Runs a command line on files. -/
def run (files : Workspace) (args : List Text) : Outcome :=
  match Words.sort specs args with
  | .error fault => optionFault files fault
  | .ok w =>
    match w.options.find? fun option => option.1 == .version || option.1 == .help with
    | some (.version, _) => only files ("asm1802, version ".toList ++ version)
    | some _ => .finished .success { files }
    | none =>
      match Request.ofWords files w with
      | .error refusal => refusal.outcome
      | .ok request => perform "Assembly" files (execute request)

end Cosmac.Command.Assemble
