import Cosmac.Assembly.Basic
import Cosmac.Log

/-!
# Log of an assembly

What the passes tell about their progress, read off the assembly that they leave.
-/

namespace Cosmac

namespace Assembly

/-- What taking the source lines logs. -/
def loadLog (loaded : Assembly) : List LogRecord :=
  [.debug ("Loaded ".toList ++ Numeral.decimal loaded.source.length ++ " lines, ".toList ++
    Numeral.decimal loaded.statements.length ++ " statements".toList)]

/-- What a layout logs. -/
def layoutLog (laidOut : Assembly) : List LogRecord :=
  (if laidOut.missingEnd then [.warning missingEndWarning] else []) ++
    [.debug ("Pass 1: final pc $".toList ++ Numeral.hex 4 laidOut.context.pc ++ ", ".toList ++
      Numeral.decimal laidOut.context.symbols.symbols.length ++ " symbols".toList)]

/-- What generating code logs. -/
def codeLog (coded : Assembly) : List LogRecord :=
  coded.report.errors.map (.debug ·.message) ++
    [.debug ("Pass 2: ".toList ++ Numeral.decimal coded.report.errorCount ++
      " errors, ".toList ++ Numeral.decimal coded.image.byteCount ++ " bytes".toList)]

/-- What assembling source lines logs. -/
def generateLog (a : Assembly) (lines : List Text) : List LogRecord :=
  let loaded := a.load lines
  loaded.loadLog ++ loaded.layout.layoutLog ++ loaded.layout.code.codeLog

end Assembly

end Cosmac
