import Cosmac.Text.Quoted

/-!
# Options of a command line

A command line holds options and other words, in any order.  An option has a long name (`--hex`),
and may have a short one (`-x`).  Its value is the next word, or what follows `=` behind a long
name, or what follows a short name in the same word.  Short options without values can share a
word (`-qv`).  Behind `--` there are no options.
-/

namespace Cosmac.Command

/-- An option that a command knows; `α` is what the command calls it. -/
structure OptionSpec (α : Type) where
  /-- What the command calls it. -/
  key : α
  /-- Its long name, with the dashes. -/
  long : String
  /-- Its short name, without the dash. -/
  short : Option Char := none
  /-- It has a value. -/
  takesValue : Bool := true

/-- What is wrong with the options of a command line. -/
inductive OptionFault where
  /-- An option is not known. -/
  | unknown
  /-- The option lacks its value. -/
  | needsValue (name : Text)
  /-- The option has a value, which it does not take. -/
  | takesNoValue (name : Text)
  deriving DecidableEq, Repr

/-- What is said about a fault, unless it is about the usage of the command as a whole. -/
def OptionFault.message? : OptionFault → Option Text
  | unknown => none
  | needsValue name =>
    some ("Option ".toList ++ Text.quoted name ++ " requires an argument.".toList)
  | takesNoValue name =>
    some ("Option ".toList ++ Text.quoted name ++ " does not take a value.".toList)

/-- The options found with their values, and the other words. -/
structure Words (α : Type) where
  /-- The options in order; the value of one that takes none is empty. -/
  options : List (α × Text) := []
  /-- The other words in order. -/
  positional : List Text := []

namespace Words

variable {α : Type}

/-- Puts options before the others. -/
def consOptions (options : List (α × Text)) (w : Words α) : Words α :=
  { w with options := options ++ w.options }

/-- The option with a long name. -/
def findLong (specs : List (OptionSpec α)) (name : Text) : Option (OptionSpec α) :=
  specs.find? (·.long.toList == name)

/-- The options in a word of short names, and the option at its end that still needs a value, with
its name. -/
def cluster (specs : List (OptionSpec α)) :
    Text → Except OptionFault (List (α × Text) × Option (α × Text))
  | [] => .ok ([], none)
  | c :: more =>
    match specs.find? (·.short == some c) with
    | none => .error .unknown
    | some spec =>
      if !spec.takesValue then (cluster specs more).map fun (found, pending) =>
        ((spec.key, []) :: found, pending)
      else if more.isEmpty then .ok ([], some (spec.key, ['-', c]))
      else .ok ([(spec.key, more)], none)

/-- Sorts the words of a command line.  The first fault counts. -/
def sort (specs : List (OptionSpec α)) (args : List Text) : Except OptionFault (Words α) :=
  match args with
  | [] => .ok {}
  | arg :: rest =>
    let name := arg.takeWhile (· != '=')
    let attached := (arg.dropWhile (· != '=')).tail?
    if arg = "--".toList then .ok { positional := rest }
    else if !("-".toList.isPrefixOf arg) || arg.length ≤ 1 then
      (sort specs rest).map fun w => { w with positional := arg :: w.positional }
    else
      match findLong specs name with
      | some spec =>
        match spec.takesValue, attached with
        | true, some value => (sort specs rest).map (consOptions [(spec.key, value)])
        | true, none =>
          match rest with
          | [] => .error (.needsValue name)
          | value :: rest => (sort specs rest).map (consOptions [(spec.key, value)])
        | false, some _ => .error (.takesNoValue name)
        | false, none => (sort specs rest).map (consOptions [(spec.key, [])])
      | none =>
        if "--".toList.isPrefixOf arg then .error .unknown
        else
          match cluster specs (arg.drop 1) with
          | .error fault => .error fault
          | .ok (found, none) => (sort specs rest).map (consOptions found)
          | .ok (found, some (key, shortName)) =>
            match rest with
            | [] => .error (.needsValue shortName)
            | value :: rest => (sort specs rest).map (consOptions (found ++ [(key, value)]))

/-- The last value of an option. -/
def last? [BEq α] (w : Words α) (key : α) : Option Text :=
  (w.options.reverse.find? (·.1 == key)).map (·.2)

/-- All values of an option. -/
def all [BEq α] (w : Words α) (key : α) : List Text :=
  (w.options.filter (·.1 == key)).map (·.2)

/-- The option is there. -/
def has [BEq α] (w : Words α) (key : α) : Bool := w.options.any (·.1 == key)

end Words

end Cosmac.Command
