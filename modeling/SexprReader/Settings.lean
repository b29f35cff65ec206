import SexprReader.Value.Integer

/-!
# Settings

`Settings` steer reading: whether a list must end at a `)`, whether the body of a list is flat, and
how deep lists may nest.  The depth limit is kept as it was given, because a limit that is no number
goes unnoticed until a list is entered; `Settings.exceeded` is where it is compared.

Callers give `Options`: settings that are ready, or a loose value still to be read.  `ofValue` reads
a loose value, ignores fields it does not know, and turns the limit into an integer; `ofFields`
takes the fields as they are and refuses one it does not know.
-/

namespace SexprReader

/-- How sequences of nodes are read. -/
structure Settings where
  /-- A list ends at a `)` or not at all. -/
  checkClose : Bool := false
  /-- The body of a list is one sequence of all its expressions. -/
  flat : Bool := false
  /-- The greatest depth of lists, or null for no limit. -/
  maxDepth : Value := .null

namespace Settings

/-- The limit does not admit lists of this depth.  Only numbers can be compared with a depth. -/
def exceeded (settings : Settings) (depth : Nat) : Except SettingsFault Bool :=
  match settings.maxDepth with
  | .null => .ok false
  | .bool b => .ok (decide (b.toNat < depth))
  | .int n => .ok (decide (n < depth))
  | .real x => .ok (x.isBelow depth)
  | limit => .error (.incomparable limit)

/-- A flag among loose fields; one that is missing is off. -/
def flagOf (fields : List (String × Value)) (key : String) : Bool :=
  ((Value.field? fields key).map Value.isTruthy).getD false

/-- The depth limit among loose fields, as an integer. -/
def limitOf (fields : List (String × Value)) : Except SettingsFault Value :=
  match Value.field? fields "max_depth" with
  | none | some .null => .ok .null
  | some limit => Value.int <$> limit.toInteger

/-- The settings that a loose value stands for. -/
def ofValue : Value → Except SettingsFault Settings
  | .null => .ok {}
  | .object fields => do
    let limit ← limitOf fields
    return { checkClose := flagOf fields "check_close"
             flat := flagOf fields "flat_seq"
             maxDepth := limit }
  | value => .error (.unsupported value)

/-- The names of the settings. -/
def keys : List String := ["check_close", "flat_seq", "max_depth"]

/-- Settings from fields of their names, taken as they are. -/
def ofFields (fields : List (String × Value)) : Except SettingsFault Settings :=
  match fields.find? fun field => !keys.contains field.1 with
  | some field => .error (.unknown field.1)
  | none =>
    .ok { checkClose := flagOf fields "check_close"
          flat := flagOf fields "flat_seq"
          maxDepth := (Value.field? fields "max_depth").getD .null }

end Settings

/-- Settings as callers give them. -/
inductive Options where
  | loose (value : Value)
  | ready (settings : Settings)

/-- The settings that the options stand for. -/
def Options.settings : Options → Except SettingsFault Settings
  | loose value => Settings.ofValue value
  | ready settings => .ok settings

end SexprReader
