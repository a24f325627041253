import Cosmac.Command.Console
import Cosmac.Command.Options
import Cosmac.Disassembly
import Cosmac.Text.Encoding

/-!
# The disassembling command

Disassembles a binary file, as a listing or as source text.
-/

namespace Cosmac.Command.Disassemble

/-- The options. -/
inductive Key where
  | output | address | count | symbols | source | verbose | version | help
  deriving DecidableEq, Repr

/-- The options with their names. -/
def specs : List (OptionSpec Key) :=
  [{ key := .output, long := "--output", short := 'o' },
   { key := .address, long := "--address", short := 'a' },
   { key := .count, long := "--count", short := 'c' },
   { key := .symbols, long := "--symbols", short := 's' },
   { key := .source, long := "--source", takesValue := false },
   { key := .verbose, long := "--verbose", short := 'v', takesValue := false },
   { key := .version, long := "--version", takesValue := false },
   { key := .help, long := "--help", takesValue := false }]

/-- What a command line asks for. -/
structure Request where
  /-- The binary file. -/
  input : Path
  /-- The file to write, in place of standard output. -/
  output : Option Path
  /-- The base address, as written. -/
  address : Text
  /-- The most instructions. -/
  count : Option Int
  /-- The symbol file. -/
  symbols : Option Path
  /-- Source text is wanted, not a listing. -/
  source : Bool
  /-- Progress is reported. -/
  verbose : Bool

/-- Checks the value of an option: the symbol file must exist, and the count be a number. -/
def checkOption (files : Workspace) (key : Key) (value : Text) : Except Refusal Unit :=
  match key with
  | .output => checkPath files false value
  | .symbols => checkPath files true value
  | .count => if (Numeral.integer? 10 value).isSome then .ok () else .error .usage
  | _ => .ok ()

/-- The request of sorted words; the binary file must exist. -/
def Request.ofWords (files : Workspace) (w : Words Key) : Except Refusal Request := do
  let input ← checkWords w (checkOption files) (checkPath files true)
  return {
    input := .ofText input
    count := (w.last? .count).bind (Numeral.integer? 10)
    symbols := (w.last? .symbols).map .ofText
    output := (w.last? .output).map .ofText
    address := (w.last? .address).getD "0".toList
    source := w.has .source
    verbose := w.has .verbose }

/-- The base address, which is a word. -/
def baseAddress (t : Text) : Except Failure Int :=
  let invalid (message : Text) := Failure.parameter (.name "--address".toList) message
  match Numeral.option? t with
  | none => .error (invalid ("invalid address '".toList ++ t ++ "'".toList))
  | some n =>
    if 0 ≤ n ∧ n ≤ 0xFFFF then .ok n
    else .error (invalid "address must be 0-65535 (0x0000-0xFFFF)".toList)

/-- The failure for a symbol file that is not UTF-8. -/
def decodingFailure (f : Text.Utf8Failure) : Failure :=
  let subject :=
    if f.length = 1 then
      "byte 0x".toList ++ (Numeral.hexByte f.byte).map Char.toLower ++ " in position ".toList ++
        Numeral.decimal f.start
    else
      "bytes in position ".toList ++ Numeral.decimal f.start ++ "-".toList ++
        Numeral.decimal (f.start + f.length - 1 : Nat)
  .internal ("'utf-8' codec can't decode ".toList ++ subject ++ ": ".toList ++
    f.fault.message.toList)

/-- The names in the bytes of a symbol file. -/
def namesOf (bytes : List UInt8) : Except Text.Utf8Failure AddressNames :=
  (Text.decodeUtf8 bytes).map fun text => .ofSymbolFile (Text.unifyNewlines text)

/-- The bytes of a file. -/
def readFile (p : Path) : Action (List UInt8) := do
  match (← get).files.read p with
  | .error fault => fail (fileFailure fault p)
  | .ok bytes => return bytes

/-- The names in a symbol file, if one is given. -/
def readNames : Option Path → Action AddressNames
  | none => pure {}
  | some p => do
    match namesOf (← readFile p) with
    | .error f => fail (decodingFailure f)
    | .ok names => return names

/-- The text for the data of a request. -/
def render (names : AddressNames) (r : Request) (address : Int) (data : List UInt8) : Text :=
  let instructions := Disassembly.disassemble names { count := r.count } address data
  if r.source then Disassembly.sourceText names address instructions
  else Disassembly.listing names instructions ++ ['\n']

/-- Does what a command line asks for. -/
def execute (r : Request) : Action Unit := do
  let address ←
    match baseAddress r.address with
    | .error f => fail f
    | .ok address => pure address
  let data ← readFile r.input
  if data.isEmpty then
    fail (.parameter (.name "INPUT_FILE".toList) (r.input.toText ++ " is empty".toList))
  if r.verbose then
    echoError ("Input file: ".toList ++ r.input.toText ++ " (".toList ++
      Numeral.decimal data.length ++ " bytes)".toList)
    echoError ("Base address: ".toList ++ Numeral.hex 4 address)
  let text := render (← readNames r.symbols) r address data
  match r.output with
  | none => print text
  | some p => do
    writeFile p (Text.encodeUtf8 text)
    if r.verbose then echoError ("Output written to: ".toList ++ p.toText)

/-- Runs a command line on files. -/
def run (files : Workspace) (args : List Text) : Outcome :=
  match Words.sort specs args with
  | .error fault => optionFault files fault
  | .ok w =>
    match w.options.find? fun option => option.1 == .version || option.1 == .help with
    | some (.version, _) => only files ("dis1802, version ".toList ++ version)
    | some _ => .finished .success { files }
    | none =>
      match Request.ofWords files w with
      | .error refusal => refusal.outcome
      | .ok request => perform "" files (execute request)

end Cosmac.Command.Disassemble
