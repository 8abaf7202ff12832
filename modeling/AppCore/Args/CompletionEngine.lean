import AppCore.Args.Rendering

/-!
# The words that completion offers

`CompletionEngine::complete` offers words for the cursor: the possible values of an option named in
the word under the cursor, those of an option that waits for its value, options, commands, and the
possible values of the next argument. What each is offered for is kept with it (`Offer`).

* `CompletionEngine.offers` — the offers of a request.
-/

namespace AppCore

open ParseState

inductive CompletionKind where
  | command
  | option
  | value
  deriving DecidableEq, Repr

structure CompletionCandidate where
  value : String
  description : String
  kind : CompletionKind
  deriving DecidableEq, Repr

structure CompletionRequest where
  words : List String
  cursorWord : Nat

/-! ## The offers -/

/-- What a word is offered for. -/
inductive Offer where
  | command (command : CommandSpec)
  | option (option : OptionSpec) (word : String)
  | pending (option : OptionSpec) (value : String)
  | inline (option : OptionSpec) (value : String)
  | argument (argument : ArgumentSpec) (value : String)

namespace Offer

def word : Offer → String
  | command c => c.name
  | option _ w => w
  | pending _ value => value
  | inline o value => "--" ++ o.long ++ "=" ++ value
  | argument _ value => value

def candidate (offer : Offer) : CompletionCandidate :=
  match offer with
  | command c => ⟨offer.word, c.about, .command⟩
  | option o _ => ⟨offer.word, o.about, .option⟩
  | _ => ⟨offer.word, "", .value⟩

end Offer

/-- `str::starts_with`. -/
def begins (typed word : String) : Bool := typed.toList.isPrefixOf word.toList

/-- How an option can be written: `--long`, and `-s` where it has a short name. -/
def OptionSpec.spellings (option : OptionSpec) : List String :=
  ("--" ++ option.long) :: option.short.toList.map fun short => "-" ++ short.toString

def longInlineValue (typed : String) : Option (String × String) :=
  (stripDashes typed).bind fun raw => (splitInline raw).2.map ((splitInline raw).1, ·)

namespace CompletionContext

def pushCommands (context : CompletionContext) (typed : String) : List Offer :=
  if context.positionals > 0 then []
  else (context.availableCommands.filter fun command =>
    !command.hidden && begins typed command.name).map .command

def pushOptions (context : CompletionContext) (typed : String) : List Offer :=
  (context.visibleOptions.filter (!·.hidden)).flatMap fun option =>
    if !option.repeatable && decide (option.long ∈ context.usedOptions) then []
    else (option.spellings.filter (begins typed)).map (.option option)

def pushArgumentValues (context : CompletionContext) (typed : String) : List Offer :=
  match context.nextArgument context.positionals with
  | none => []
  | some argument => (argument.possibleValues.filter (begins typed)).map (.argument argument)

/-- `complete`, behind the analysis of the words before the cursor. -/
def offers (context : CompletionContext) (typed : String) : List Offer :=
  if context.passthrough then []
  else match longInlineValue typed with
    | some (name, value) =>
      match context.findLongOption name with
      | none => []
      | some option => (option.possibleValues.filter (begins value)).map (.inline option)
    | none =>
      match context.pendingValue with
      | some option => (option.possibleValues.filter (begins typed)).map (.pending option)
      | none =>
        if typed.toList.head? = some '-' then
          context.pushOptions typed ++ context.pushArgumentValues typed
        else context.pushCommands typed ++ context.pushArgumentValues typed

end CompletionContext

def normalizeWords (binary : String) (request : CompletionRequest) : List String × Nat :=
  if request.words.head? = some binary then (request.words.tail, request.cursorWord - 1)
  else (request.words, request.cursorWord)

/-- The words before the cursor. -/
def CompletionRequest.front (request : CompletionRequest) (binary : String) : List String :=
  (normalizeWords binary request).1.take (normalizeWords binary request).2

/-- The word under the cursor. -/
def CompletionRequest.typed (request : CompletionRequest) (binary : String) : String :=
  (normalizeWords binary request).1[(normalizeWords binary request).2]?.getD ""

namespace CompletionEngine

def offers (spec : CliSpec) (request : CompletionRequest) : List Offer :=
  match spec.validate with
  | .error _ => []
  | .ok () => (CompletionContext.analyze spec (request.front spec.name)).offers
      (request.typed spec.name)

def complete (spec : CliSpec) (request : CompletionRequest) : List CompletionCandidate :=
  (offers spec request).map Offer.candidate

end CompletionEngine

/-- The parser behind the word of an offer, when it reads the word as what it was offered for. -/
def Offer.after (state : ParseState) : Offer → ParseState
  | command c => state.through [c]
  | option o _ => { state with options := state.options ++ [⟨o.long, none⟩] }
  | pending o value => { state with options := state.options ++ [⟨o.long, some value⟩] }
  | inline o value => { state with options := state.options ++ [⟨o.long, some value⟩] }
  | argument _ value => { state with positionals := state.positionals ++ [value] }

/-- From `state`, where the word of the offer had its turn, the loop came to `result`. An option may
lack its required value then. -/
def Offer.IsReadAt (state : ParseState) (result : Except CliError LoopEnd) (offer : Offer) : Prop :=
  match offer with
  | option o _ => result = .ok ⟨offer.after state, false⟩ ∨ result = .error o.missingValue
  | argument a _ => state.nextArgument state.positionals.length = some a ∧
      result = .ok ⟨offer.after state, false⟩
  | _ => result = .ok ⟨offer.after state, false⟩

/-- Behind the words before the cursor, the loop of the parser reads the word of the offer as what it
was offered for. -/
def Offer.IsRead (spec : CliSpec) (front : List String) (offer : Offer) : Prop :=
  match offer with
  | pending o value => spec.start.parseLoop front = .error o.missingValue ∧
      ∃ state, spec.start.parseLoop (front ++ [value]) = .ok ⟨state, false⟩ ∧
        state.options.getLast? = some ⟨o.long, some value⟩
  | _ => ∃ state, spec.start.parseLoop front = .ok ⟨state, false⟩ ∧
      offer.IsReadAt state (spec.start.parseLoop (front ++ [offer.word]))

/-! ## The parser at the cursor -/

/-- How the parser goes on. The next word has a turn of its own, unless the option `taker` takes it
as its optional value; completion may wait for a value of the option `mistaken` there. Or the next
word is the value of an option, or it is not read at all. -/
inductive Cursor where
  | turn (state : ParseState) (taker mistaken : Option OptionSpec)
  | value (state : ParseState) (option : OptionSpec)
  | closed

namespace ParseState

/-- The option of a word that takes the next one as its optional value, if it can. -/
def detaches (state : ParseState) (word : String) : Option OptionSpec :=
  if state.isOption state.positionals.length word then
    (state.valued word).bind fun (option, inline) =>
      if option.value = .optional && inline.isNone && option.detachedOptionalValue then some option
      else none
  else none

/-- The parser behind some words. A detached value that looks like an option without its required
value is what completion can be mistaken about. -/
def cursor (state : ParseState) : List String → Cursor
  | [] => .turn state none none
  | word :: following =>
    if word = "--" then .closed
    else match state.parseWord word following with
      | .error _ => ((state.awaited word).map (.value state)).getD .closed
      | .ok (taken, next) =>
        if following.drop taken = [] then
          .turn next (if following = [] then state.detaches word else none)
            ((state.detachedValue word following).bind next.awaited)
        else next.cursor (following.drop taken)
  termination_by words => words.length
  decreasing_by
    rw [List.length_drop, List.length_cons]
    omega

/-- The option may come again, or it is not there yet. -/
def Fresh (state : ParseState) (option : OptionSpec) : Prop :=
  option.repeatable = false → state.isPresent option.long = false

/-- The parser reads the word of the offer as what it is offered for. -/
def Fits (state : ParseState) (taker : Option OptionSpec) (offer : Offer) : Prop :=
  (∀ option ∈ taker, ¬ Admits option.valueType option.possibleValues offer.word) ∧
    match offer with
    | .command command => state.isOption 0 command.name = false
    | .option _ _ => True
    | .pending _ _ => False
    | .inline option value => state.Fresh option ∧ option.valueType.accepts value = true
    | .argument argument value => state.isOption state.positionals.length value = false ∧
        argument.valueType.accepts value = true ∧
        (state.positionals = [] → ∀ command ∈ state.availableCommands,
          command.matches value = false)

end ParseState

/-- The words that may be offered at the cursor, where `typed` stands, fit there. -/
def Cursor.Suits (typed : String) : Cursor → Prop
  | closed => True
  | value state option =>
    match longInlineValue typed with
    | some (name, part) => ∀ named, state.findLongOption name = some named →
        ∀ v ∈ named.possibleValues, begins part v = false
    | none => ∀ v ∈ option.possibleValues, begins typed v = true →
        state.Fresh option ∧ option.valueType.accepts v = true
  | turn state taker mistaken =>
    match longInlineValue typed with
    | some (name, part) => ∀ named, state.findLongOption name = some named →
        ∀ v ∈ named.possibleValues, begins part v = true → state.Fits taker (.inline named v)
    | none =>
      match mistaken with
      | some option => ∀ v ∈ option.possibleValues, begins typed v = false
      | none =>
        (typed.toList.head? = some '-' → ∀ option ∈ state.visibleOptions,
          option.hidden = false → state.Fresh option → ∀ word ∈ option.spellings,
            begins typed word = true → state.Fits taker (.option option word)) ∧
        (typed.toList.head? ≠ some '-' → state.positionals = [] →
          ∀ command ∈ state.availableCommands, command.hidden = false →
            begins typed command.name = true → state.Fits taker (.command command)) ∧
        ∀ argument, state.nextArgument state.positionals.length = some argument →
          ∀ v ∈ argument.possibleValues, begins typed v = true →
            state.Fits taker (.argument argument v)

end AppCore
