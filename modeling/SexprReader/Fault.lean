import SexprReader.Text.Quoted
import SexprReader.Value

/-!
# Faults

What can go wrong, by stage: a text has no token at some place (`ScanFault`), a sequence of nodes
does not fit the grammar (`GrammarFault`), or the settings make no sense (`SettingsFault`).
Reading meets the last two (`ReadFault`).  Each kind has one function `message` for its wording, and
`SettingsFault.kind` says what is wrong with a value that makes no sense as a setting.

A reader may stop with more than the fault alone, so readers are written for all types that stand for
the faults they meet (`Faults`).
-/

namespace SexprReader

/-- Why a text has no tokens. -/
inductive ScanFault where
  /-- No rule of the scanner fits what is left of the text. -/
  | noToken
deriving DecidableEq

def ScanFault.message : ScanFault → String
  | noToken => "lexer error"

/-- Why a sequence of nodes has no tree. -/
inductive GrammarFault where
  | unexpectedEnd
  | expectedOpen
  | expectedClose
  | expectedAtom
  /-- A list lies deeper than the settings allow. -/
  | tooDeep
  /-- The stack of calls is too small for the lists that nest. -/
  | overCap
deriving DecidableEq

def GrammarFault.message : GrammarFault → String
  | unexpectedEnd => "unexpected end of input"
  | expectedOpen => "expected '('"
  | expectedClose => "expected ')'"
  | expectedAtom => "expected atom"
  | tooDeep | overCap => "max nesting depth exceeded"

/-- Why a value cannot serve as settings, or as one of them. -/
inductive SettingsFault where
  /-- Settings come as fields or not at all. -/
  | unsupported (given : Value)
  /-- No setting has this name. -/
  | unknown (key : String)
  /-- The text does not spell an integer. -/
  | notInteger (text : String)
  /-- The text spells an integer of more than `digitLimit` digits. -/
  | tooManyDigits (count : Nat)
  /-- The infinite number has no integer part. -/
  | infinite
  /-- The number that is no number has no integer part. -/
  | notANumber
  /-- Only numbers and texts can be turned into integers. -/
  | noInteger (given : Value)
  /-- Only numbers can limit the depth. -/
  | incomparable (given : Value)

namespace SettingsFault

/-- The most digits that a text may spell an integer with. -/
def digitLimit : Nat := 4300

/-- The most characters that a message shows of a text that spells no integer. -/
def excerptLength : Nat := 200

def message : SettingsFault → String
  | unsupported given => "unsupported options type: " ++ given.kindName
  | unknown key =>
    "ParseOptions.__init__() got an unexpected keyword argument " ++ "'" ++ key ++ "'"
  | notInteger text =>
    "invalid literal for int() with base 10: " ++
      String.ofList ((quoted text).toList.take excerptLength)
  | tooManyDigits count =>
    "Exceeds the limit (" ++ toString digitLimit ++
      " digits) for integer string conversion: value has " ++ toString count ++
      " digits; use sys.set_int_max_str_digits() to increase the limit"
  | infinite => "cannot convert float infinity to integer"
  | notANumber => "cannot convert float NaN to integer"
  | noInteger given =>
    "int() argument must be a string, a bytes-like object or a real number, not '" ++
      given.kindName ++ "'"
  | incomparable given =>
    "'>' not supported between instances of 'int' and '" ++ given.kindName ++ "'"

/-- What is wrong with a value that cannot serve as settings, or as one of them. -/
inductive Kind where
  /-- No value of its type would do. -/
  | type
  /-- It is a text that spells no integer, or too long a one, or it is no number. -/
  | value
  /-- It is a number beyond all integers. -/
  | overflow
deriving DecidableEq

def kind : SettingsFault → Kind
  | unsupported _ | unknown _ | noInteger _ | incomparable _ => .type
  | notInteger _ | tooManyDigits _ | notANumber => .value
  | infinite => .overflow

end SettingsFault

/-- Why reading stopped. -/
inductive ReadFault where
  | grammar (cause : GrammarFault)
  | settings (cause : SettingsFault)

def ReadFault.message : ReadFault → String
  | grammar cause => cause.message
  | settings cause => cause.message

/-- A type that stands for the faults that readers meet. -/
class Faults (ε : Type) where
  /-- The nodes do not fit the grammar. -/
  grammar : GrammarFault → ε
  /-- The limit cannot be compared with a depth. -/
  settings : SettingsFault → ε
  /-- There is no room on the stack of calls. -/
  overflow : ε

@[default_instance]
instance : Faults ReadFault where
  grammar := .grammar
  settings := .settings
  overflow := .grammar .overCap

namespace Faults

@[simp] theorem grammar_eq (cause : GrammarFault) :
    (grammar cause : ReadFault) = .grammar cause := rfl

@[simp] theorem settings_eq (cause : SettingsFault) :
    (settings cause : ReadFault) = .settings cause := rfl

end Faults

end SexprReader
