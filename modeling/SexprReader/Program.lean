import SexprReader.Reader.List

/-!
# Programs

`Program.read` reads a whole sequence of nodes as a program, by settings that are made ready first.
-/

namespace SexprReader

namespace Program

/-- The program that the nodes stand for. -/
def read [CallStack] (nodes : List Node) (options : Options) : Except ReadFault Node :=
  match options.settings with
  | .error cause => .error (.settings cause)
  | .ok settings =>
    match Reader.program settings { rest := nodes } with
    | .ok tree _ => .ok tree
    | .error fault _ => .error fault

end Program

end SexprReader
