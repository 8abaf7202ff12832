import AppCore.Base.Text

/-!
# Command line specifications

What a program declares about its command line, and the checks a single value goes through.

* `CliSpec` — the commands, options and arguments of a program, as a tree.
-/

namespace AppCore

/-! ## The declarations -/

inductive ValueMode where
  | forbidden
  | required
  | optional
  deriving DecidableEq, Repr

inductive ValueType where
  | string
  | bool
  | i64
  | u64
  deriving DecidableEq, Repr

/-- `Display for ValueType`. -/
def ValueType.text : ValueType → String
  | string => "text"
  | bool => "true or false"
  | i64 => "a signed integer"
  | u64 => "an unsigned integer"

structure OptionSpec where
  long : String
  short : Option Char := none
  value : ValueMode
  valueType : ValueType := .string
  possibleValues : List String := []
  required : Bool := false
  repeatable : Bool := false
  detachedOptionalValue : Bool := false
  terminal : Bool := false
  hidden : Bool := false
  conflictsWith : List String := []
  requires : List String := []
  about : String := ""
  deriving DecidableEq, Repr

structure ArgumentSpec where
  name : String
  valueType : ValueType := .string
  possibleValues : List String := []
  required : Bool := false
  multiple : Bool := false
  deriving DecidableEq, Repr

structure CommandSpec where
  name : String
  aliases : List String := []
  commands : List CommandSpec := []
  options : List OptionSpec := []
  arguments : List ArgumentSpec := []
  commandRequired : Bool := false
  hidden : Bool := false
  about : String := ""

structure CliSpec where
  name : String
  commands : List CommandSpec := []
  options : List OptionSpec := []
  arguments : List ArgumentSpec := []
  commandRequired : Bool := false

def CommandSpec.matches (command : CommandSpec) (value : String) : Bool :=
  command.name == value || command.aliases.any (· == value)

def OptionSpec.flag (long : String) : OptionSpec := { long, value := .forbidden }

inductive CliErrorKind where
  | invalidInput
  | invalidSpecification
  | unknownOption
  | unexpectedArgument
  | missingCommand
  | missingOption
  | missingValue
  | invalidValue
  | duplicateOption
  | optionConflict
  | missingRequirement
  deriving DecidableEq, Repr

structure CliError where
  kind : CliErrorKind
  message : String
  deriving DecidableEq, Repr

structure SpecError where
  message : String
  deriving DecidableEq, Repr

/-! ## Suggestions -/

namespace Suggestion

def maxSuggestionBytes : Nat := 128

def acceptedDistance (length : Nat) : Nat :=
  if length ≤ 4 then 1 else if length ≤ 8 then 2 else 3

/-- One row of the table of `edit_distance`; `left` is the cell before. -/
def editRow (byte : UInt8) : Nat → Bytes → List Nat → List Nat
  | left, r :: right, diagonal :: above :: previous =>
    let substitution := diagonal + if byte = r then 0 else 1
    let cell := min (min substitution (above + 1)) (left + 1)
    cell :: editRow byte cell right (above :: previous)
  | _, _, _ => []

def editDistance (left right : String) : Nat :=
  let right := strBytes right
  let rows := (strBytes left).zipIdx.foldl
    (fun previous (byte, index) => (index + 1) :: editRow byte (index + 1) right previous)
    (List.range (right.length + 1))
  rows.getLastD 0

/-- The first of the candidates with the smallest distance, then the smallest length. -/
def closest (input : String) (candidates : List String) : Option String :=
  if input.utf8ByteSize > maxSuggestionBytes then none
  else
    let close := (candidates.filter (·.utf8ByteSize ≤ maxSuggestionBytes)).filterMap
      fun candidate =>
        let distance := editDistance input candidate
        if distance ≤ acceptedDistance (max input.utf8ByteSize candidate.utf8ByteSize) then
          some (distance, candidate)
        else none
    let best := close.foldl (fun best next => match best with
      | none => some next
      | some found =>
        if next.1 < found.1 ∨ (next.1 = found.1 ∧ next.2.utf8ByteSize < found.2.utf8ByteSize)
        then some next else some found) none
    best.map (·.2)

def append (message : String) (suggestion : Option String) (front : String) : String :=
  match suggestion with
  | some suggestion => message ++ "; did you mean `" ++ front ++ suggestion ++ "`?"
  | none => message

end Suggestion

/-! ## Values -/

/-- `str::parse::<i64>`: an optional sign, digits, and no overflow. -/
def parseI64 (t : List Char) : Option Int :=
  let (negative, digits) := match t with
    | '-' :: rest => (true, rest)
    | '+' :: rest => (false, rest)
    | _ => (false, t)
  if digits.isEmpty || !digits.all Char.isDigit then none
  else
    let magnitude : Int := Nat.ofDigitChars 10 digits 0
    let value := if negative then -magnitude else magnitude
    if -2 ^ 63 ≤ value ∧ value < 2 ^ 63 then some value else none

/-- `value` reads as a value of the type. -/
def ValueType.accepts (valueType : ValueType) (value : String) : Bool :=
  match valueType with
  | string => true
  | bool => value == "true" || value == "false"
  | i64 => (parseI64 value.toList).isSome
  | u64 => (parseU64 value.toList).isSome

def validateValue (value : String) (valueType : ValueType) (possible : List String)
    (owner : String) : Except CliError Unit :=
  if !valueType.accepts value then
    .error ⟨.invalidValue, "invalid value `" ++ value ++ "` for `" ++ owner ++ "`; expected "
      ++ valueType.text⟩
  else if !possible.isEmpty && !possible.any (· == value) then
    .error ⟨.invalidValue, Suggestion.append
      ("invalid value `" ++ value ++ "` for `" ++ owner ++ "`; expected one of: "
        ++ ", ".intercalate possible)
      (Suggestion.closest value possible) ""⟩
  else .ok ()

/-- What a value must satisfy: it reads as the type, and it is a possible value where there are
any. -/
def Admits (valueType : ValueType) (possible : List String) (value : String) : Prop :=
  valueType.accepts value = true ∧ (possible ≠ [] → value ∈ possible)

instance (valueType : ValueType) (possible : List String) (value : String) :
    Decidable (Admits valueType possible value) :=
  inferInstanceAs (Decidable (_ ∧ _))

theorem validateValue_eq_ok {value owner : String} {valueType : ValueType}
    {possible : List String} :
    validateValue value valueType possible owner = .ok () ↔ Admits valueType possible value := by
  unfold validateValue Admits
  by_cases htyped : valueType.accepts value = true
  · by_cases hempty : possible = []
    · simp [htyped, hempty]
    · simp [htyped, hempty]
  · simp [htyped]

theorem kind_of_validateValue {value owner : String} {valueType : ValueType}
    {possible : List String} {e : CliError}
    (h : validateValue value valueType possible owner = .error e) : e.kind = .invalidValue := by
  unfold validateValue at h
  split at h
  · cases h
    rfl
  · split at h
    · cases h
      rfl
    · cases h

/-! ## The specification from where the scan stands -/

/-- The specification and the commands entered so far. -/
structure Scope where
  spec : CliSpec
  commands : List CommandSpec := []

namespace Scope

def availableCommands (scope : Scope) : List CommandSpec :=
  (scope.commands.getLast?.map CommandSpec.commands).getD scope.spec.commands

def activeArguments (scope : Scope) : List ArgumentSpec :=
  (scope.commands.getLast?.map CommandSpec.arguments).getD scope.spec.arguments

/-- The innermost scope asks for a command. -/
def commandRequired (scope : Scope) : Bool :=
  (scope.commands.getLast?.map CommandSpec.commandRequired).getD scope.spec.commandRequired

def visibleOptions (scope : Scope) : List OptionSpec :=
  scope.spec.options ++ scope.commands.flatMap CommandSpec.options

def findLongOption (scope : Scope) (name : String) : Option OptionSpec :=
  scope.visibleOptions.reverse.find? (·.long == name)

def findShortOption (scope : Scope) (short : Char) : Option OptionSpec :=
  scope.visibleOptions.reverse.find? (·.short == some short)

/-- The argument of the next positional when `positionals` were read. -/
def nextArgument (scope : Scope) (positionals : Nat) : Option ArgumentSpec :=
  scope.activeArguments[positionals]?.or (scope.activeArguments.getLast?.filter (·.multiple))

def acceptsNegativePositional (scope : Scope) (positionals : Nat) (value : String) : Bool :=
  match scope.nextArgument positionals with
  | none => false
  | some argument =>
    argument.valueType == .i64 && (parseI64 value.toList).isSome &&
      (value.toList[1]?.all fun short => (scope.findShortOption short).isNone)

def enter (scope : Scope) (command : CommandSpec) : Scope :=
  { scope with commands := scope.commands ++ [command] }

variable {scope : Scope} {name : String} {short : Char} {option : OptionSpec}

theorem of_findLongOption (h : scope.findLongOption name = some option) :
    option ∈ scope.visibleOptions ∧ option.long = name := by
  constructor
  · exact List.mem_reverse.1 (List.mem_of_find?_eq_some h)
  · simpa using List.find?_some h

theorem mem_of_findShortOption (h : scope.findShortOption short = some option) :
    option ∈ scope.visibleOptions :=
  List.mem_reverse.1 (List.mem_of_find?_eq_some h)

theorem visibleOptions_enter (command : CommandSpec) :
    (scope.enter command).visibleOptions = scope.visibleOptions ++ command.options := by
  simp [visibleOptions, enter]

end Scope

/-- `strip_prefix("--")`. -/
def stripDashes (word : String) : Option (List Char) :=
  match word.toList with
  | '-' :: '-' :: raw => some raw
  | _ => none

/-- `is_short_option`: one dash, and something behind it. -/
def isShortOption (word : String) : Bool :=
  match word.toList with
  | ['-'] => false
  | '-' :: '-' :: _ => false
  | '-' :: _ => true
  | _ => false

/-- The name of a long option, and what stands behind the first equals sign. -/
def splitInline (raw : List Char) : String × Option String :=
  match splitOnce '=' raw with
  | some (name, value) => (String.ofList name, some (String.ofList value))
  | none => (String.ofList raw, none)

end AppCore
