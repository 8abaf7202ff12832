import AppCore.Args.SpecValidation

/-!
# The parser of a command line

`CliParser::parse` reads the words from left to right. A word is a long option, a bundle of short
options, a command or a positional, depending on the commands entered so far; an option may take
the word behind it as its value. The final checks come after the last word.

The loop reads a list of words, and a step says how many of the words behind its own it took.

* `ParseState.parseWord` — one turn of the loop.
-/

namespace AppCore

structure ParsedOption where
  name : String
  value : Option String
  deriving DecidableEq, Repr

structure ParsedCli where
  commandPath : List String
  options : List ParsedOption
  positionals : List String
  passthrough : List String
  deriving DecidableEq, Repr

structure ParseState extends Scope where
  commandPath : List String := []
  options : List ParsedOption := []
  positionals : List String := []
  passthrough : List String := []

/-! ## The value of an option -/

/-- The error of an option that stands without its required value. -/
def OptionSpec.missingValue (option : OptionSpec) : CliError :=
  ⟨.missingValue, "option `--" ++ option.long ++ "` requires a value"⟩

/-- `value` would do for `option`. -/
def OptionSpec.admits (option : OptionSpec) (value : String) : Except CliError Unit :=
  validateValue value option.valueType option.possibleValues ("--" ++ option.long)

def OptionSpec.admitsEach (option : OptionSpec) : Option String → Except CliError Unit
  | some value => option.admits value
  | none => .ok ()

/-- `optional_value`: the value, and how many of the `following` words it takes. -/
def optionalValue (following : List String) (inline : Option String) (option : OptionSpec) :
    Option String × Nat :=
  if inline.isSome || !option.detachedOptionalValue then (inline, 0)
  else match following.head? with
    | none => (none, 0)
    | some candidate =>
      if (option.admits candidate).isOk then (some candidate, 1) else (none, 0)

def optionValue (following : List String) (inline : Option String) (option : OptionSpec)
    (short : Bool) : Except CliError (Option String × Nat) :=
  match option.value with
  | .forbidden =>
    if inline.isSome && !short then
      .error ⟨.invalidValue, "option `--" ++ option.long ++ "` does not accept a value"⟩
    else .ok (none, 0)
  | .optional => .ok (optionalValue following inline option)
  | .required =>
    match inline with
    | some value => .ok (some value, 0)
    | none =>
      match following.head? with
      | some value => .ok (some value, 1)
      | none => .error option.missingValue

namespace ParseState

/-! ## One word -/

def pushOption (state : ParseState) (option : OptionSpec) (value : Option String) :
    Except CliError ParseState :=
  if !option.repeatable && state.options.any (·.name == option.long) then
    .error ⟨.duplicateOption, "option `--" ++ option.long ++ "` cannot be repeated"⟩
  else do
    option.admitsEach value
    .ok { state with options := state.options ++ [⟨option.long, value⟩] }

/-- `enter_command`, where the word names a command. -/
def enterCommand (state : ParseState) (word : String) : Option ParseState :=
  (state.availableCommands.find? (·.matches word)).map fun command =>
    { state with
      toScope := state.enter command
      commandPath := state.commandPath ++ [command.name] }

def pushPositional (state : ParseState) (value : String) : Except CliError ParseState :=
  match state.nextArgument state.positionals.length with
  | none =>
    if state.positionals.isEmpty && !state.availableCommands.isEmpty then
      let candidates := (state.availableCommands.filter (!·.hidden)).flatMap
        fun command => command.name :: command.aliases
      .error ⟨.unexpectedArgument, Suggestion.append ("unknown command `" ++ value ++ "`")
        (Suggestion.closest value candidates) ""⟩
    else .error ⟨.unexpectedArgument, "unexpected argument `" ++ value ++ "`"⟩
  | some argument => do
      validateValue value argument.valueType argument.possibleValues argument.name
      .ok { state with positionals := state.positionals ++ [value] }

/-- The two calls that read one option: `option_value` and `push_option`. -/
def readOption (state : ParseState) (following : List String) (option : OptionSpec)
    (inline : Option String) (short : Bool) : Except CliError (Nat × ParseState) := do
  let (value, taken) ← optionValue following inline option short
  let state ← state.pushOption option value
  .ok (taken, state)

def parseLongOption (state : ParseState) (raw : List Char) (following : List String) :
    Except CliError (Nat × ParseState) :=
  let (name, inline) := splitInline raw
  if name.isEmpty then .error ⟨.unknownOption, "empty long option is not accepted"⟩
  else match state.findLongOption name with
    | none =>
      let candidates := (state.visibleOptions.filter (!·.hidden)).map OptionSpec.long
      .error ⟨.unknownOption, Suggestion.append ("unknown option `--" ++ name ++ "`")
        (Suggestion.closest name candidates) "--"⟩
    | some option => state.readOption following option inline false

/-- What stands behind a short option in its word, as a value. -/
def remainder : List Char → Option String
  | [] => none
  | '=' :: rest => some (String.ofList rest)
  | rest => some (String.ofList rest)

/-- The loop of `parse_short_options`. -/
def parseShortOptions (state : ParseState) (following : List String) :
    List Char → Except CliError (Nat × ParseState)
  | [] => .ok (0, state)
  | short :: rest =>
    match state.findShortOption short with
    | none => .error ⟨.unknownOption, "unknown option `-" ++ short.toString ++ "`"⟩
    | some option => do
        let (taken, state) ← state.readOption following option (remainder rest) true
        if option.value ≠ .forbidden then .ok (taken, state)
        else parseShortOptions state following rest

/-- One turn of the loop of `parse`, for a word that is not the separator. -/
def parseWord (state : ParseState) (word : String) (following : List String) :
    Except CliError (Nat × ParseState) :=
  match stripDashes word with
  | some raw => state.parseLongOption raw following
  | none =>
    if isShortOption word &&
        !state.acceptsNegativePositional state.positionals.length word then
      state.parseShortOptions following word.toList.tail
    else
      match if state.positionals.isEmpty then state.enterCommand word else none with
      | some state => .ok (0, state)
      | none => do
          let state ← state.pushPositional word
          .ok (0, state)

/-- How the loop ended: at its separator, or behind the last word. -/
structure LoopEnd where
  state : ParseState
  separator : Bool

/-- The `while` loop of `parse`. -/
def parseLoop (state : ParseState) : List String → Except CliError LoopEnd
  | [] => .ok ⟨state, false⟩
  | word :: following =>
    if word = "--" then
      .ok ⟨{ state with passthrough := state.passthrough ++ following }, true⟩
    else do
      let (taken, state) ← state.parseWord word following
      state.parseLoop (following.drop taken)
  termination_by words => words.length
  decreasing_by
    rw [List.length_drop, List.length_cons]
    omega

/-! ## The final checks -/

/-- An option of this name was parsed. -/
def isPresent (state : ParseState) (name : String) : Bool :=
  state.options.any (·.name == name)

def hasTerminalOption (state : ParseState) : Bool :=
  state.visibleOptions.any fun option => option.terminal && state.isPresent option.long

def validateRequiredCommand (state : ParseState) : Except CliError Unit :=
  if state.commandRequired && !state.availableCommands.isEmpty then
    .error ⟨.missingCommand, "a command is required after `" ++
      (if state.commandPath.isEmpty then state.spec.name else " ".intercalate state.commandPath)
      ++ "`"⟩
  else .ok ()

def validateRequiredArguments (state : ParseState) : Except CliError Unit :=
  state.activeArguments.zipIdx.forM fun (argument, index) =>
    if argument.required && decide (state.positionals.length ≤ index) then
      .error ⟨.missingValue, "missing required argument `<" ++ argument.name ++ ">`"⟩
    else .ok ()

/-- The body of the loop of `validate_option_rules`. -/
def validateOptionRule (state : ParseState) (option : OptionSpec) : Except CliError Unit :=
  if option.required && !state.isPresent option.long then
    .error ⟨.missingOption, "required option `--" ++ option.long ++ "` was not provided"⟩
  else if !state.isPresent option.long then .ok ()
  else match option.conflictsWith.find? state.isPresent with
    | some conflict => .error ⟨.optionConflict,
        "option `--" ++ option.long ++ "` conflicts with `--" ++ conflict ++ "`"⟩
    | none =>
      match option.requires.find? (!state.isPresent ·) with
      | some required => .error ⟨.missingRequirement,
          "option `--" ++ option.long ++ "` requires `--" ++ required ++ "`"⟩
      | none => .ok ()

def validateOptionRules (state : ParseState) : Except CliError Unit :=
  state.visibleOptions.forM state.validateOptionRule

def finish (state : ParseState) : Except CliError ParsedCli := do
  if !state.hasTerminalOption then
    state.validateRequiredCommand
    state.validateRequiredArguments
    state.validateOptionRules
  .ok ⟨state.commandPath, state.options, state.positionals, state.passthrough⟩

end ParseState

/-- `ParseState::new`. -/
def CliSpec.start (spec : CliSpec) : ParseState := { spec }

/-- The words of a process. -/
structure RawArgs where
  words : List String

def CliParser.parse (spec : CliSpec) (args : RawArgs) : Except CliError ParsedCli := do
  spec.validate.mapError fun error => ⟨.invalidSpecification, error.message⟩
  let done ← spec.start.parseLoop args.words
  done.state.finish

end AppCore
