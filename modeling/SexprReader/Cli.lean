import SexprReader.Report
import SexprReader.Text.Newline
import SexprReader.Text.Path

/-!
# The command line

The command takes one argument at most: the path of a file, or `-` for the standard input, which is
also what no argument means.  It reports on the text it finds there.  A text is UTF-8, and each of
its line ends counts as a line feed.

`Cli.run` is the whole command over any way to read the standard input and files, so the same
definition serves a real system and a given set of files.
-/

namespace SexprReader

namespace Cli

/-- Where the arguments say the text is. -/
inductive Request where
  | standardInput
  | file (path : Path)
  | misuse

/-- What the arguments ask for. -/
def Request.ofArgs : List String → Request
  | [] | ["-"] => standardInput
  | [path] => file (Path.ofText path)
  | _ => misuse

/-- What a run of the command leaves behind. -/
structure Outcome where
  exitCode : Nat
  out : String
  err : String
deriving DecidableEq

/-- Why a run of the command breaks off. -/
inductive Failure where
  | notUtf8
  | settings (cause : SettingsFault)

def usage : String := "Usage: python -m lispish [source.lisp]"

/-- The outcome of a run that says something on the error channel only. -/
def complaint (lines : List String) : Outcome where
  exitCode := 1
  out := ""
  err := String.join (lines.map (· ++ "\n"))

/-- The text that bytes stand for, if they are UTF-8. -/
def decode? (bytes : ByteArray) : Option String := (String.fromUTF8? bytes).map unifyNewlines

section Runs

variable [CallStack]

/-- The outcome of a run on a text.  The log is only shown when asked for. -/
def report (showLog : Bool) (source : String) : Except SettingsFault Outcome := do
  let rendered := Report.renderLogged source
  let (text, accepted) ← rendered.result
  let log := if showLog then rendered.log else []
  return { exitCode := if accepted then 0 else 1
           out := text ++ "\n"
           err := String.join (log.map (·.line ++ "\n")) }

/-- The outcome of a run on the bytes of a text. -/
def reportBytes (showLog : Bool) (bytes : ByteArray) : Except Failure Outcome :=
  match decode? bytes with
  | none => .error .notUtf8
  | some source => (report showLog source).mapError .settings

/-- The command, over a way to read the standard input and a way to read files. -/
def run {m : Type → Type} [Monad m] (input : m ByteArray) (file? : Path → m (Option ByteArray))
    (showLog : Bool) (args : List String) : m (Except Failure Outcome) :=
  match Request.ofArgs args with
  | .misuse => return .ok (complaint [usage])
  | .standardInput => return reportBytes showLog (← input)
  | .file path => do
    match ← file? path with
    | none => return .ok (complaint [usage, "no such file: " ++ path.toText])
    | some bytes => return reportBytes showLog bytes

end Runs

end Cli

end SexprReader
