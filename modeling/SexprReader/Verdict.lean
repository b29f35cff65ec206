import SexprReader.Program
import SexprReader.Token.Scan

/-!
# Verdicts

A `Verdict` says what became of a text: it was read to a tree, it has no tokens, or its tokens do
not fit the grammar.  `Verdict.judge` scans and reads a text.  Settings that make no sense are not
the text's fault: they are no verdict, and they show only where there are tokens to read.
-/

namespace SexprReader

/-- What became of a text. -/
inductive Verdict where
  | accepted (tokens : List Token) (tree : Node)
  | unscannable (cause : ScanFault)
  | unreadable (tokens : List Token) (cause : GrammarFault)

namespace Verdict

/-- The verdict on a text. -/
def judge [CallStack] (source : String) (options : Options) : Except SettingsFault Verdict :=
  match Token.scan source with
  | .error cause => .ok (unscannable cause)
  | .ok tokens =>
    match Program.read (tokens.map .leaf) options with
    | .ok tree => .ok (accepted tokens tree)
    | .error (.grammar cause) => .ok (unreadable tokens cause)
    | .error (.settings cause) => .error cause

def isAccepted : Verdict → Bool
  | accepted .. => true
  | unscannable _ | unreadable .. => false

/-- The tokens of the text, as far as it has any. -/
def tokens : Verdict → List Token
  | accepted tokens _ | unreadable tokens _ => tokens
  | unscannable _ => []

def tree? : Verdict → Option Node
  | accepted _ tree => some tree
  | unscannable _ | unreadable .. => none

/-- The stage that failed and the message of its fault. -/
def error? : Verdict → Option String
  | accepted .. => none
  | unscannable cause => some ("lex error: " ++ cause.message)
  | unreadable _ cause => some ("parse error: " ++ cause.message)

theorem isAccepted_iff_tree? (verdict : Verdict) :
    verdict.isAccepted = true ↔ verdict.tree?.isSome = true := by
  cases verdict <;> simp [isAccepted, tree?]

theorem isAccepted_iff_error? (verdict : Verdict) :
    verdict.isAccepted = true ↔ verdict.error? = none := by
  cases verdict <;> simp [isAccepted, error?]

end Verdict

end SexprReader
