import SexprReader.Log
import SexprReader.Node.Outline

/-!
# Reports

A report shows a text, its tokens and its tree, or that it was not accepted, with a ruler between
the parts.  `Report.render` judges a text by the default settings and reports on it;
`Report.renderLogged` gives the log as well.
-/

namespace SexprReader

namespace Report

/-- The text fifty times over. -/
def ruler (text : String) : String := String.join (List.replicate 50 text)

/-- The ruler between two parts of a report. -/
def divider : String := ruler "-"

/-- The part of the report on what became of the text. -/
def findings : Verdict → List String
  | .accepted tokens tree =>
    ["Tokens", divider, Node.table (tokens.map .leaf), divider,
     "Parse Tree", divider, tree.outline "", divider]
  | .unscannable _ | .unreadable .. => ["Threw an exception on invalid input."]

/-- The report on a text with a verdict. -/
def text (source : String) (verdict : Verdict) : String :=
  "\n".intercalate (ruler "=" :: ("Input: " ++ source) :: divider :: findings verdict)

/-- The report on a text by the default settings, and whether the text was accepted. -/
def render [CallStack] (source : String) : Except SettingsFault (String × Bool) := do
  let verdict ← Verdict.judge source (.ready {})
  return (text source verdict, verdict.isAccepted)

/-- The report on a text, whether the text was accepted, and what was told on the way. -/
def renderLogged [CallStack] (source : String) : Logged (Except SettingsFault (String × Bool)) :=
  let judged := Verdict.judgeLogged source (.ready {})
  { log := judged.log
    result := do
      let verdict ← judged.result
      return (text source verdict, verdict.isAccepted) }

end Report

end SexprReader
