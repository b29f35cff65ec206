import SexprReader.Proofs.Session
import SexprReader.Verdict

/-!
# Judging texts

`Verdict.judge` scans a text, makes the settings ready and reads the tokens, and each of the three may
fail.  The order decides what is told: a text without tokens has a verdict whatever the options are
(`Verdict.judge_of_scan_error`), settings that make no sense are told before anything is read
(`Verdict.judge_of_settings_error`), and then only the grammar is left to fail
(`Verdict.judge_of_settings`), unless the limit that it compares depths with is no number.

Why settings make no sense is one of three kinds (`SettingsFault.kind`).  Only a limit that is infinite
is too great to be an integer (`Options.kind_of_settings`).
-/

namespace SexprReader

/-! ### Kinds of faults -/

namespace Value

def isInfinite : Value → Bool
  | real (.infinite _) => true
  | _ => false

theorem kind_of_integerOfText {text : String} {cause : SettingsFault}
    (h : integerOfText text = .error cause) : cause.kind = .value := by
  unfold integerOfText at h
  dsimp only at h
  split at h
  · cases h
    rfl
  · split at h
    · cases h
      rfl
    · split at h <;> cases h
      rfl

theorem kind_of_toInteger {value : Value} {cause : SettingsFault}
    (h : value.toInteger = .error cause) : cause.kind = .overflow ↔ value.isInfinite = true := by
  cases value with
  | null | list | object =>
    cases h
    exact ⟨nofun, nofun⟩
  | bool | int => cases h
  | text s =>
    rw [kind_of_integerOfText h]
    exact ⟨nofun, nofun⟩
  | real x =>
    cases x with
    | finite => cases h
    | nan =>
      cases h
      exact ⟨nofun, nofun⟩
    | infinite =>
      cases h
      exact ⟨fun _ => rfl, fun _ => rfl⟩

end Value

/-- The loose fields have a depth limit that is infinite. -/
def Options.hasInfiniteLimit : Options → Bool
  | .loose (.object fields) => ((Value.field? fields "max_depth").map Value.isInfinite).getD false
  | _ => false

/-- Among loose fields there is no limit, or there is one that is read as an integer. -/
theorem Settings.limitOf_cases (fields : List (String × Value)) :
    limitOf fields = .ok .null ∨ ∃ limit, Value.field? fields "max_depth" = some limit ∧
      limitOf fields = Value.int <$> limit.toInteger := by
  unfold limitOf
  split
  · exact Or.inl rfl
  · exact Or.inl rfl
  · next limit _ hf => exact Or.inr ⟨limit, hf, rfl⟩

theorem Settings.kind_of_limitOf {fields : List (String × Value)} {cause : SettingsFault}
    (h : limitOf fields = .error cause) :
    cause.kind = .overflow ↔ (Options.loose (.object fields)).hasInfiniteLimit = true := by
  obtain hl | ⟨limit, hf, hl⟩ := limitOf_cases fields
  · rw [hl] at h
    cases h
  rw [Options.hasInfiniteLimit, hf]
  cases hi : limit.toInteger with
  | ok n =>
    rw [hl, hi] at h
    cases h
  | error fault =>
    rw [hl, hi] at h
    cases h
    exact Value.kind_of_toInteger hi

/-- Settings make no sense for one of three reasons, and the last of them is an infinite limit. -/
theorem Options.kind_of_settings {options : Options} {cause : SettingsFault}
    (h : options.settings = .error cause) :
    cause.kind = .overflow ↔ options.hasInfiniteLimit = true := by
  cases options with
  | ready settings => cases h
  | loose value =>
    cases value with
    | null => cases h
    | bool | int | real | text | list =>
      cases h
      exact ⟨nofun, nofun⟩
    | object fields =>
      cases hl : Settings.limitOf fields with
      | ok limit =>
        rw [settings, Settings.ofValue, hl] at h
        cases h
      | error fault =>
        rw [settings, Settings.ofValue, hl] at h
        cases h
        exact Settings.kind_of_limitOf hl

/-! ### Limits that are numbers -/

namespace Settings

/-- There is no limit, or it is a number. -/
def hasNumericLimit (settings : Settings) : Bool :=
  match settings.maxDepth with
  | .null | .bool _ | .int _ | .real _ => true
  | _ => false

/-- A limit that is a number can be compared with all depths. -/
theorem exists_exceeded {settings : Settings} (h : settings.hasNumericLimit = true) (depth : Nat) :
    ∃ refused, settings.exceeded depth = .ok refused := by
  rw [hasNumericLimit] at h
  rw [exceeded]
  generalize settings.maxDepth = limit at h
  cases limit with
  | null | bool | int | real => exact ⟨_, rfl⟩
  | text | list | object => cases h

theorem hasNumericLimit_of_limitOf {fields : List (String × Value)} {limit : Value}
    (h : limitOf fields = .ok limit) (checkClose flat : Bool) :
    (Settings.mk checkClose flat limit).hasNumericLimit = true := by
  obtain hl | ⟨limit', -, hl⟩ := limitOf_cases fields
  · rw [hl] at h
    cases h
    rfl
  cases hi : limit'.toInteger with
  | ok n =>
    rw [hl, hi] at h
    cases h
    rfl
  | error fault =>
    rw [hl, hi] at h
    cases h

/-- Loose values stand for settings whose limit is a number. -/
theorem hasNumericLimit_of_ofValue {value : Value} {settings : Settings}
    (h : ofValue value = .ok settings) : settings.hasNumericLimit = true := by
  cases value with
  | null =>
    cases h
    rfl
  | bool | int | real | text | list => cases h
  | object fields =>
    cases hl : limitOf fields with
    | error fault =>
      rw [ofValue, hl] at h
      cases h
    | ok limit =>
      rw [ofValue, hl] at h
      cases h
      exact hasNumericLimit_of_limitOf hl _ _

end Settings

namespace Options

/-- Settings that are ready have no limit or one that is a number.  No other ones are read from a loose
value. -/
def hasNumericLimit : Options → Bool
  | .loose _ => true
  | .ready settings => settings.hasNumericLimit

theorem hasNumericLimit_of_settings {options : Options} (hn : options.hasNumericLimit = true)
    {settings : Settings} (ho : options.settings = .ok settings) :
    settings.hasNumericLimit = true := by
  cases options with
  | ready settings' =>
    cases ho
    exact hn
  | loose value => exact Settings.hasNumericLimit_of_ofValue ho

end Options

/-- With a limit that is a number only the grammar can stop reading. -/
theorem Program.read_of_hasNumericLimit [CallStack] {options : Options} {settings : Settings}
    (ho : options.settings = .ok settings) (hn : settings.hasNumericLimit = true)
    (nodes : List Node) :
    (∃ tree, read nodes options = .ok tree) ∨
      ∃ cause, read nodes options = .error (.grammar cause) := by
  rw [read_of_settings ho]
  cases hp : Reader.program settings ⟨nodes, 0⟩ with
  | ok tree last => exact Or.inl ⟨tree, rfl⟩
  | error fault last =>
    cases fault with
    | grammar cause => exact Or.inr ⟨cause, rfl⟩
    | settings cause =>
      obtain ⟨level, ⟨-, he⟩ | ⟨cause', hc, -⟩⟩ := (Reader.stops_program settings hp).refused rfl
      · cases he
      · obtain ⟨refused, hr⟩ := Settings.exists_exceeded hn level
        rw [hr] at hc
        cases hc

namespace Verdict

/-- The messages of the two stages begin with different letters. -/
theorem lexError_ne_parseError (message message' : String) :
    "lex error: " ++ message ≠ "parse error: " ++ message' := by
  intro h
  have hc := congrArg (·.toList.head?) h
  simp at hc

theorem error?_unscannable (cause : ScanFault) :
    (unscannable cause).error? = some "lex error: lexer error" := by
  cases cause
  rfl

/-! ### The three stages -/

section Bounded

variable [CallStack] {source : String} {options : Options} {tokens : List Token}

theorem judge_of_scan_error {cause : ScanFault} (h : Token.scan source = .error cause)
    (options : Options) : judge source options = .ok (.unscannable cause) := by
  rw [judge, h]

theorem judge_of_settings_error (h : Token.scan source = .ok tokens) {cause : SettingsFault}
    (ho : options.settings = .error cause) : judge source options = .error cause := by
  simp only [judge, h, Program.read, ho]

/-- What became of a text that scans to the tokens, under settings that make sense. -/
theorem judge_of_settings (h : Token.scan source = .ok tokens) {settings : Settings}
    (ho : options.settings = .ok settings) (hn : settings.hasNumericLimit = true) :
    (∃ tree, Program.read (tokens.map .leaf) options = .ok tree ∧
      judge source options = .ok (.accepted tokens tree)) ∨
    ∃ cause, Program.read (tokens.map .leaf) options = .error (.grammar cause) ∧
      judge source options = .ok (.unreadable tokens cause) := by
  simp only [judge, h]
  obtain ⟨tree, hr⟩ | ⟨cause, hr⟩ := Program.read_of_hasNumericLimit ho hn (tokens.map .leaf)
  · exact Or.inl ⟨tree, hr, by rw [hr]⟩
  · exact Or.inr ⟨cause, hr, by rw [hr]⟩

/-! ### What a verdict says -/

/-- A verdict says what scanning the text and reading its tokens give. -/
structure Reports (source : String) (options : Options) (verdict : Verdict) : Prop where
  isAccepted_iff_tree : verdict.isAccepted = true ↔ verdict.tree?.isSome = true
  isAccepted_iff_error : verdict.isAccepted = true ↔ verdict.error? = none
  tokens_of_ok : ∀ tokens, Token.scan source = .ok tokens → verdict.tokens = tokens
  tokens_of_error : ∀ cause, Token.scan source = .error cause → verdict.tokens = []
  read_of_tree : ∀ tree, verdict.tree? = some tree → Token.scan source = .ok verdict.tokens ∧
    Program.read (verdict.tokens.map .leaf) options = .ok tree ∧ tree.leaves = verdict.tokens
  lexError_iff : verdict.error? = some "lex error: lexer error" ↔
    ∃ cause, Token.scan source = .error cause
  parseError_iff : ∀ message, verdict.error? = some ("parse error: " ++ message) ↔
    ∃ tokens cause, Token.scan source = .ok tokens ∧
      Program.read (tokens.map .leaf) options = .error (.grammar cause) ∧ message = cause.message

theorem reports_unscannable {cause : ScanFault} (h : Token.scan source = .error cause) :
    (unscannable cause).Reports source options where
  isAccepted_iff_tree := isAccepted_iff_tree? _
  isAccepted_iff_error := isAccepted_iff_error? _
  tokens_of_ok tokens hs := nomatch h.symm.trans hs
  tokens_of_error _ _ := rfl
  read_of_tree _ ht := nomatch ht
  lexError_iff := ⟨fun _ => ⟨cause, h⟩, fun _ => error?_unscannable cause⟩
  parseError_iff message := by
    constructor
    · intro he
      exact absurd (Option.some.inj he) (lexError_ne_parseError cause.message message)
    · rintro ⟨tokens, cause', hs, -⟩
      exact nomatch h.symm.trans hs

theorem reports_accepted (h : Token.scan source = .ok tokens) {tree : Node}
    (hr : Program.read (tokens.map .leaf) options = .ok tree) :
    (accepted tokens tree).Reports source options where
  isAccepted_iff_tree := isAccepted_iff_tree? _
  isAccepted_iff_error := isAccepted_iff_error? _
  tokens_of_ok tokens' hs := Except.ok.inj (h.symm.trans hs)
  tokens_of_error cause hs := nomatch h.symm.trans hs
  read_of_tree tree' ht := by
    cases ht
    exact ⟨h, hr, Program.leaves_of_read_tokens hr⟩
  lexError_iff := ⟨nofun, fun ⟨cause, hs⟩ => nomatch h.symm.trans hs⟩
  parseError_iff message := by
    refine ⟨nofun, ?_⟩
    rintro ⟨tokens', cause, hs, hr', -⟩
    cases h.symm.trans hs
    exact nomatch hr.symm.trans hr'

theorem reports_unreadable (h : Token.scan source = .ok tokens) {cause : GrammarFault}
    (hr : Program.read (tokens.map .leaf) options = .error (.grammar cause)) :
    (unreadable tokens cause).Reports source options where
  isAccepted_iff_tree := isAccepted_iff_tree? _
  isAccepted_iff_error := isAccepted_iff_error? _
  tokens_of_ok tokens' hs := Except.ok.inj (h.symm.trans hs)
  tokens_of_error cause hs := nomatch h.symm.trans hs
  read_of_tree _ ht := nomatch ht
  lexError_iff := by
    constructor
    · intro he
      exact absurd (Option.some.inj he).symm (lexError_ne_parseError "lexer error" cause.message)
    · rintro ⟨cause', hs⟩
      exact nomatch h.symm.trans hs
  parseError_iff message := by
    constructor
    · intro he
      exact ⟨tokens, cause, h, hr, ((String.append_right_inj _).1 (Option.some.inj he)).symm⟩
    · rintro ⟨tokens', cause', hs, hr', rfl⟩
      cases h.symm.trans hs
      cases hr.symm.trans hr'
      rfl

/-- Where the settings make no sense there is no verdict, and else there is one. -/
theorem judge_cases (source : String) (hn : options.hasNumericLimit = true) :
    (∃ tokens cause, Token.scan source = .ok tokens ∧ options.settings = .error cause ∧
      judge source options = .error cause) ∨
    ∃ verdict, judge source options = .ok verdict ∧ verdict.Reports source options := by
  cases hs : Token.scan source with
  | error fault => exact Or.inr ⟨_, judge_of_scan_error hs options, reports_unscannable hs⟩
  | ok tokens =>
    cases ho : options.settings with
    | error cause => exact Or.inl ⟨tokens, cause, rfl, rfl, judge_of_settings_error hs ho⟩
    | ok settings =>
      right
      obtain ⟨tree, hr, hj⟩ | ⟨fault, hr, hj⟩ :=
        judge_of_settings hs ho (Options.hasNumericLimit_of_settings hn ho)
      · exact ⟨_, hj, reports_accepted hs hr⟩
      · exact ⟨_, hj, reports_unreadable hs hr⟩

/-- There is no verdict just where there are tokens but no settings to read them by. -/
theorem judge_eq_error_iff (hn : options.hasNumericLimit = true) {cause : SettingsFault} :
    judge source options = .error cause ↔
      (∃ tokens, Token.scan source = .ok tokens) ∧ options.settings = .error cause := by
  constructor
  · intro h
    obtain ⟨tokens, cause', hs, ho, hj⟩ | ⟨verdict, hj, -⟩ := judge_cases source hn
    · cases hj.symm.trans h
      exact ⟨⟨tokens, hs⟩, ho⟩
    · cases hj.symm.trans h
  · rintro ⟨⟨tokens, hs⟩, ho⟩
    exact judge_of_settings_error hs ho

theorem reports_of_judge (hn : options.hasNumericLimit = true) {verdict : Verdict}
    (h : judge source options = .ok verdict) : verdict.Reports source options := by
  obtain ⟨tokens, cause, -, -, hj⟩ | ⟨verdict', hj, hr⟩ := judge_cases source hn
  · cases hj.symm.trans h
  · cases hj.symm.trans h
    exact hr

/-- A text is judged unless it scans and the options make no sense, and the verdict says what scanning
and reading give.  Options that make no sense are of a wrong type or value, or their limit is
infinite. -/
theorem judge_reports (source : String) (options : Options)
    (hn : options.hasNumericLimit = true) :
    (∀ cause, judge source options = .error cause ↔
      (∃ tokens, Token.scan source = .ok tokens) ∧ options.settings = .error cause) ∧
    (∀ cause, judge source options = .error cause →
      if options.hasInfiniteLimit then cause.kind = .overflow
      else cause.kind = .type ∨ cause.kind = .value) ∧
    ∀ verdict, judge source options = .ok verdict → verdict.Reports source options := by
  refine ⟨fun cause => judge_eq_error_iff hn, fun cause h => ?_, fun verdict => reports_of_judge hn⟩
  have hkind := Options.kind_of_settings ((judge_eq_error_iff hn).1 h).2
  split
  · next hi => exact hkind.2 hi
  · next hi =>
    cases hc : cause.kind with
    | type => exact Or.inl rfl
    | value => exact Or.inr rfl
    | overflow => exact absurd (hkind.1 hc) hi

end Bounded

/-- A limit of one and a half admits one list, but not one inside of it. -/
theorem judge_reports_too_deep :
    let options : Options := .ready { maxDepth := .real (.finite false 3 (-1)) }
    let tokens : List Token := [.openParen, .openParen]
    ∃ verdict, judge "((" options = .ok verdict ∧ verdict.isAccepted = false ∧
      verdict.tokens = tokens ∧
      verdict.error? = some ("parse error: " ++ "max nesting depth exceeded") := by
  intro options tokens
  have hs : Token.scan "((" = .ok tokens := eq_ok_of_toOption (by decide +kernel)
  have hr : Program.read (tokens.map .leaf) options = .error (.grammar .tooDeep) :=
    eq_error_of_grammarFault? (by decide +kernel)
  obtain ⟨-, -, hreports⟩ := judge_reports "((" options rfl
  have hj : judge "((" options = .ok (.unreadable tokens .tooDeep) := by
    simp only [judge, hs, hr]
  have hv := hreports _ hj
  exact ⟨_, hj, rfl, hv.tokens_of_ok tokens hs, (hv.parseError_iff _).2 ⟨tokens, _, hs, hr, rfl⟩⟩

/-- An infinite limit is neither of a wrong type nor of a wrong value. -/
theorem judge_infinite_limit :
    let options : Options := .loose (.object [("max_depth", .real (.infinite false))])
    judge "a" options = .error .infinite ∧
      ¬ (SettingsFault.infinite.kind = .type ∨ SettingsFault.infinite.kind = .value) := by
  intro options
  have hs : Token.scan "a" = .ok [⟨.identifier, "a"⟩] := eq_ok_of_toOption (by decide +kernel)
  exact ⟨judge_of_settings_error hs rfl, by decide⟩

end Verdict

end SexprReader
