import SexprReader.Reader.List

/-!
# Steps

A `Step` runs one reader, or asks the cursor a question, and leaves the cursor to the next step.
`Step.runAll` drives a whole session of steps; a step that stops with a fault does not end the
session, and the next one goes on from where it stood.
-/

namespace SexprReader

/-- One reader to run, or one question to ask. -/
inductive Step where
  | program
  | expr
  | list
  | seq
  | flatSeq
  | atom
  | close
  | peek
  | advance
  | atEnd
  | atClose
deriving DecidableEq

/-- The result of a step. -/
inductive Reply where
  | node (node : Node)
  | flag (b : Bool)
deriving DecidableEq

namespace Step

variable [CallStack]

/-- The reader that a step runs. -/
def reader (settings : Settings) : Step → Reader Reply
  | program => .node <$> Reader.program settings
  | expr => .node <$> (Reader.expr settings).read
  | list => .node <$> Reader.list settings
  | seq => .node <$> Reader.seq settings (Reader.expr settings)
  | flatSeq => .node <$> Reader.flatSeq (Reader.expr settings)
  | atom => .node <$> Reader.atom
  | close => .node <$> Reader.close settings
  | peek => .node <$> Reader.peek
  | advance => .node <$> Reader.advance
  | atEnd => (.flag ·.atEnd) <$> get
  | atClose => (.flag ·.atClose) <$> get

/-- The result of a step from a cursor, and where it leaves the cursor. -/
def run (settings : Settings) (step : Step) (cursor : Cursor) : Except ReadFault Reply × Cursor :=
  match step.reader settings cursor with
  | .ok reply cursor => (.ok reply, cursor)
  | .error fault cursor => (.error fault, cursor)

/-- The results of the steps of a session, each with where it leaves the cursor. -/
def runAll (settings : Settings) : List Step → Cursor → List (Except ReadFault Reply × Cursor)
  | [], _ => []
  | step :: steps, cursor =>
    let outcome := step.run settings cursor
    outcome :: runAll settings steps outcome.2

end Step

end SexprReader
