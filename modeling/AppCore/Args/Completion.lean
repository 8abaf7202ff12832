import AppCore.Args.Parser

/-!
# What completion makes of a command line

`CompletionContext::analyze` reads the words before the cursor with a scanner of its own, which
never fails: it skips what it cannot resolve and remembers an option that still needs its value.

* `CompletionContext.consume` — one word.
-/

namespace AppCore

structure CompletionContext extends Scope where
  usedOptions : Finset String := ∅
  positionals : Nat := 0
  pendingValue : Option OptionSpec := none
  passthrough : Bool := false

namespace CompletionContext

def consumeLong (context : CompletionContext) (raw : List Char) : CompletionContext :=
  let (name, inline) := splitInline raw
  match context.findLongOption name with
  | none => context
  | some option =>
    { context with
      usedOptions := insert option.long context.usedOptions
      pendingValue :=
        if option.value = .required && inline.isNone then some option
        else context.pendingValue }

/-- `consume_short`, behind the dashes. -/
def consumeShort (context : CompletionContext) : List Char → CompletionContext
  | [] => context
  | short :: rest =>
    match context.findShortOption short with
    | none => context
    | some option =>
      let context :=
        { context with usedOptions := insert option.long context.usedOptions }
      if option.value ≠ .forbidden then
        if rest.isEmpty && option.value = .required then
          { context with pendingValue := some option }
        else context
      else context.consumeShort rest

/-- `consume`: whether the scan stops at this word, and what is known behind it. -/
def consume (context : CompletionContext) (word : String) : Bool × CompletionContext :=
  match context.pendingValue with
  | some _ => (false, { context with pendingValue := none })
  | none =>
    if word = "--" then (true, { context with passthrough := true })
    else match stripDashes word with
      | some raw => (false, context.consumeLong raw)
      | none =>
        if isShortOption word &&
            !context.acceptsNegativePositional context.positionals word then
          (false, context.consumeShort (word.toList.dropWhile (· == '-')))
        else
          match if context.positionals = 0 then
              context.availableCommands.find? (·.matches word) else none with
          | some command => (false, { context with toScope := context.enter command })
          | none => (false, { context with positionals := context.positionals + 1 })

/-- The loop of `analyze`. -/
def analyzeFrom (context : CompletionContext) : List String → CompletionContext
  | [] => context
  | word :: words =>
    let (stop, context) := context.consume word
    if stop then context else context.analyzeFrom words

def analyze (spec : CliSpec) (words : List String) : CompletionContext :=
  analyzeFrom { spec } words

end CompletionContext

/-! ## What an option word says -/

namespace Scope

/-- The options that a bundle of short options names, up to the one that takes the rest of it. -/
def bundleOptions (scope : Scope) : List Char → List OptionSpec
  | [] => []
  | short :: rest =>
    match scope.findShortOption short with
    | none => []
    | some option =>
      if option.value ≠ .forbidden then [option] else option :: scope.bundleOptions rest

/-- The option of a bundle that may have a value, with the value it has there. -/
def bundleValued (scope : Scope) : List Char → Option (OptionSpec × Option String)
  | [] => none
  | short :: rest =>
    match scope.findShortOption short with
    | none => none
    | some option =>
      if option.value ≠ .forbidden then some (option, ParseState.remainder rest)
      else scope.bundleValued rest

/-- The word is read as options, when `positionals` were read. -/
def isOption (scope : Scope) (positionals : Nat) (word : String) : Bool :=
  (stripDashes word).isSome ||
    (isShortOption word && !scope.acceptsNegativePositional positionals word)

def namedOptions (scope : Scope) (word : String) : List OptionSpec :=
  match stripDashes word with
  | some raw => (scope.findLongOption (splitInline raw).1).toList
  | none => scope.bundleOptions word.toList.tail

/-- The option that decides whether an option word has a value, with the value in the word. -/
def valued (scope : Scope) (word : String) : Option (OptionSpec × Option String) :=
  match stripDashes word with
  | some raw => (scope.findLongOption (splitInline raw).1).map (·, (splitInline raw).2)
  | none => scope.bundleValued word.toList.tail

end Scope

/-- `option` needs the next word as its value. -/
def OptionSpec.awaits (option : OptionSpec) (inline : Option String) : Bool :=
  option.value = .required && inline.isNone

/-- The next word, where `option` takes it as its optional value. -/
def OptionSpec.detached (option : OptionSpec) (inline : Option String) (following : List String) :
    Option String :=
  if option.value = .optional && inline.isNone && option.detachedOptionalValue then
    following.head?.filter fun value => Admits option.valueType option.possibleValues value
  else none

/-- The option of an option word that needs the next word as its value. -/
def Scope.awaits (scope : Scope) (word : String) : Option OptionSpec :=
  (scope.valued word).bind fun (option, inline) =>
    if option.awaits inline then some option else none

/-- The next word, where an option word takes it as the detached value of an optional option. -/
def Scope.detached (scope : Scope) (word : String) (following : List String) : Option String :=
  (scope.valued word).bind fun (option, inline) => option.detached inline following

namespace ParseState

/-- The option that needs the next word as its value, if the word is read as options. -/
def awaited (state : ParseState) (word : String) : Option OptionSpec :=
  if state.isOption state.positionals.length word then state.awaits word else none

/-- The next word, where it is taken as the detached value of an optional option. -/
def detachedValue (state : ParseState) (word : String) (following : List String) :
    Option String :=
  if state.isOption state.positionals.length word then state.detached word following else none

/-- An option word that names no option which is not there already. -/
def PassesOver (state : ParseState) (word : String) : Prop :=
  word ≠ "--" ∧ state.isOption state.positionals.length word = true ∧
    ∀ option ∈ state.namedOptions word, state.isPresent option.long = true

/-- Completion learns nothing from the value: it passes over it, and if the value looks like an
option without its own value, then it passes over the word behind it too. -/
def Unnoticed (state : ParseState) (value : String) (behind : Option String) : Prop :=
  state.PassesOver value ∧ (state.awaited value ≠ none →
    ∀ word, behind = some word → state.PassesOver word ∧ state.awaited word = none)

/-- Every word that the loop takes as the detached value of an optional option is unnoticed. -/
def ReadAlike (state : ParseState) : List String → Prop
  | [] => True
  | word :: following =>
    word ≠ "--" → ∀ taken next, state.parseWord word following = .ok (taken, next) →
      (∀ value, state.detachedValue word following = some value →
        next.Unnoticed value following[1]?) ∧
      next.ReadAlike (following.drop taken)
  termination_by words => words.length
  decreasing_by
    rw [List.length_drop, List.length_cons]
    omega

end ParseState

end AppCore
