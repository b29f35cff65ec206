import SexprReader.Reader.Telling
import SexprReader.Verdict

/-!
# The log

Scanning, reading and judging tell what happens while they are at it.  The logged version of each
gives its result together with the events that were told on the way, in the order in which they
happened.  A fault of the grammar is an event where it is met (`Teller`); the others are told at the
end of their stage.  A fault of the settings is no event.  `Event.line` is the line that a log has for
an event: the stage that speaks, and what it says.
-/

namespace SexprReader

/-- Something worth telling on the way to a verdict. -/
inductive Event where
  | noToken
  | scanned (count : Nat)
  | readingFailed (cause : GrammarFault)
  | read (count : Nat)
  | rejectedScanning (cause : ScanFault)
  | rejectedReading (cause : GrammarFault)
deriving DecidableEq

/-- The line of an event in a log. -/
def Event.line : Event → String
  | noToken => "lispish.lexer: no token pattern matches"
  | scanned count => "lispish.lexer: tokenized " ++ toString count ++ " tokens"
  | readingFailed cause => "lispish.parser: parse failed: " ++ cause.message
  | read count => "lispish.parser: parsed " ++ toString count ++ " top-level expressions"
  | rejectedScanning cause => "lispish.checker: rejected during lexing: " ++ cause.message
  | rejectedReading cause => "lispish.checker: rejected during parsing: " ++ cause.message

/-- A result, and what was told on the way to it. -/
structure Logged (α : Type) where
  log : List Event
  result : α

namespace Token

/-- Scans `cs` behind the tokens `found`, which holds the last one first, and tells how it ends. -/
def scanLoggedFrom (found : List Token) (cs : List Char) :
    Logged (Except ScanFault (List Token)) :=
  match cs with
  | [] => ⟨[.scanned found.length], .ok found.reverse⟩
  | c :: rest =>
    if isBlank c then scanLoggedFrom found rest
    else
      match _h : lexeme? (c :: rest) with
      | none => ⟨[.noToken], .error .noToken⟩
      | some (token, rest) => scanLoggedFrom (token :: found) rest
termination_by cs.length
decreasing_by
  · simp
  · exact length_lt_of_lexeme? _h

/-- The tokens of a text, and what scanning tells. -/
def scanLogged (text : String) : Logged (Except ScanFault (List Token)) :=
  scanLoggedFrom [] text.toList

end Token

section Reading

variable [CallStack]

/-- The program that the nodes stand for, and what reading tells.  That the stack of calls overflows is
told here. -/
def Program.readLogged (nodes : List Node) (options : Options) : Logged (Except ReadFault Node) :=
  match options.settings with
  | .error cause => ⟨[], .error (.settings cause)⟩
  | .ok settings =>
    match (Reader.program settings : Teller Node) { rest := nodes } with
    | .ok tree _ => ⟨[.read tree.children.length], .ok tree⟩
    | .error ⟨.grammar .overCap, log⟩ _ =>
      ⟨log.map .readingFailed ++ [.readingFailed .overCap], .error (.grammar .overCap)⟩
    | .error ⟨fault, log⟩ _ => ⟨log.map .readingFailed, .error fault⟩

/-- The verdict on a text, and all that is told on the way to it. -/
def Verdict.judgeLogged (source : String) (options : Options) :
    Logged (Except SettingsFault Verdict) :=
  let scanned := Token.scanLogged source
  match scanned.result with
  | .error cause => ⟨scanned.log ++ [.rejectedScanning cause], .ok (unscannable cause)⟩
  | .ok tokens =>
    let reading := Program.readLogged (tokens.map .leaf) options
    match reading.result with
    | .ok tree => ⟨scanned.log ++ reading.log, .ok (accepted tokens tree)⟩
    | .error (.grammar cause) =>
      ⟨scanned.log ++ reading.log ++ [.rejectedReading cause], .ok (unreadable tokens cause)⟩
    | .error (.settings cause) => ⟨scanned.log ++ reading.log, .error cause⟩

end Reading

end SexprReader
