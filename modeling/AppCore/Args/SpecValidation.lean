import AppCore.Args.Spec
import AppCore.Base.Cursor

/-!
# Validation of a specification

`CliSpec::validate` checks the root and then every command with the options it inherits. A parser
needs one thing of it: along every path of commands, no two visible options share a long name.

* `CliSpec.validate` — the checks, scope after scope.
-/

namespace AppCore

/-! ## The checks -/

def validateName (kind name : String) : Except SpecError Unit :=
  if !name.isEmpty && name.toList.all fun c => c.isAlphanum || c = '-' || c = '_' || c = '.' then
    .ok ()
  else .error ⟨"invalid " ++ kind ++ " name `" ++ name ++ "`"⟩

/-- `validate_possible_values`, after the values in `unique`. -/
def validatePossibleValues (owner : String) (unique : List String) :
    List String → Except SpecError Unit
  | [] => .ok ()
  | value :: values =>
    if value.isEmpty then .error ⟨owner ++ " contains an empty possible value"⟩
    else if value ∈ unique then
      .error ⟨owner ++ " contains duplicate possible value `" ++ value ++ "`"⟩
    else validatePossibleValues owner (value :: unique) values

/-- The inner loop of `validate_commands`, over the name of a command and its aliases. -/
def validateCommandNames (path : String) (names : List String) :
    List String → Except SpecError (List String)
  | [] => .ok names
  | name :: rest => do
      validateName "command alias" name
      if name ∈ names then
        .error ⟨"duplicate command or alias `" ++ name ++ "` under `" ++ path ++ "`"⟩
      else validateCommandNames path (name :: names) rest

/-- `validate_commands`, after the commands that took the names `names`. -/
def validateCommands (path : String) (names : List String) :
    List CommandSpec → Except SpecError Unit
  | [] => .ok ()
  | command :: commands => do
      validateName "command" command.name
      let names ← validateCommandNames path names (command.name :: command.aliases)
      validateCommands path names commands

/-- The middle of `validate_option`, about the short name. -/
def validateShort (path : String) (shorts : List Char) :
    Option Char → Except SpecError (List Char)
  | none => .ok shorts
  | some short =>
    if short = '-' || isWhitespace short || !decide (short.toNat < 128) then
      .error ⟨"invalid short option `-" ++ short.toString ++ "` under `" ++ path ++ "`"⟩
    else if short ∈ shorts then
      .error ⟨"duplicate short option `-" ++ short.toString ++ "` under `" ++ path ++ "`"⟩
    else .ok (short :: shorts)

/-- `validate_option`: the names taken with those of the option. -/
def validateOption (path : String) (longs : List String) (shorts : List Char)
    (option : OptionSpec) : Except SpecError (List String × List Char) := do
  validateName "option" option.long
  if option.long ∈ longs then
    .error ⟨"duplicate option `--" ++ option.long ++ "` under `" ++ path ++ "`"⟩
  else
    let shorts ← validateShort path shorts option.short
    if option.value = .forbidden && (!option.possibleValues.isEmpty || option.valueType ≠ .string)
    then .error ⟨"flag `--" ++ option.long ++ "` cannot declare value validation"⟩
    else
      validatePossibleValues ("option `--" ++ option.long ++ "`") [] option.possibleValues
      .ok (option.long :: longs, shorts)

/-- The first loop of `validate_options`. -/
def validateEachOption (path : String) (longs : List String) (shorts : List Char) :
    List OptionSpec → Except SpecError (List String)
  | [] => .ok longs
  | option :: options => do
      let (longs, shorts) ← validateOption path longs shorts option
      validateEachOption path longs shorts options

def validateOptionRelationships (path : String) (option : OptionSpec) (visible : List String) :
    Except SpecError Unit :=
  match (option.conflictsWith ++ option.requires).find? fun related =>
      related == option.long || !visible.contains related with
  | some related => .error ⟨"option `--" ++ option.long
      ++ "` references unknown or self option `--" ++ related ++ "` under `" ++ path ++ "`"⟩
  | none => .ok ()

def validateOptions (path : String) (options inherited : List OptionSpec) :
    Except SpecError Unit := do
  let longs ← validateEachOption path (inherited.map OptionSpec.long)
    (inherited.filterMap OptionSpec.short) options
  options.forM fun option => validateOptionRelationships path option longs

/-- `validate_arguments`, after the arguments called `names`. -/
def validateArguments (path : String) (names : List String) (optionalSeen : Bool) :
    List ArgumentSpec → Except SpecError Unit
  | [] => .ok ()
  | argument :: rest => do
      validateName "argument" argument.name
      if argument.name ∈ names then
        .error ⟨"duplicate argument `" ++ argument.name ++ "` under `" ++ path ++ "`"⟩
      else if argument.required && optionalSeen then
        .error ⟨"required argument `" ++ argument.name
          ++ "` follows an optional argument under `" ++ path ++ "`"⟩
      else if argument.multiple && !rest.isEmpty then
        .error ⟨"variadic argument `" ++ argument.name ++ "` must be last under `" ++ path ++ "`"⟩
      else do
        validatePossibleValues ("argument `" ++ argument.name ++ "`") [] argument.possibleValues
        validateArguments path (argument.name :: names) (optionalSeen || !argument.required) rest

/-- The three checks of `validate_scope` before it visits the commands. -/
def validateLevel (path : String) (commands : List CommandSpec) (options : List OptionSpec)
    (arguments : List ArgumentSpec) (inherited : List OptionSpec) : Except SpecError Unit := do
  validateCommands path [] commands
  validateOptions path options inherited
  validateArguments path [] false arguments

mutual

/-- `validate_scope` for one command. -/
def CommandSpec.validateScope (path : String) (inherited : List OptionSpec) :
    CommandSpec → Except SpecError Unit
  | ⟨name, _, commands, options, arguments, _, _, _⟩ => do
      validateLevel (path ++ " " ++ name) commands options arguments inherited
      validateScopes (path ++ " " ++ name) (inherited ++ options) commands

/-- The loop of `validate_scope` over the commands of a scope. -/
def validateScopes (path : String) (visible : List OptionSpec) :
    List CommandSpec → Except SpecError Unit
  | [] => .ok ()
  | command :: commands => do
      command.validateScope path visible
      validateScopes path visible commands

end

/-- `validate_spec`. -/
def CliSpec.validate (spec : CliSpec) : Except SpecError Unit := do
  validateName "CLI" spec.name
  validateLevel spec.name spec.commands spec.options spec.arguments []
  validateScopes spec.name spec.options spec.commands

/-- Each command of the list is declared by the one before it, the first one among `available`. -/
def IsPathFrom (available : List CommandSpec) : List CommandSpec → Prop
  | [] => True
  | command :: path => command ∈ available ∧ IsPathFrom command.commands path

def CliSpec.IsPath (spec : CliSpec) (path : List CommandSpec) : Prop :=
  IsPathFrom spec.commands path

theorem isPathFrom_concat {available path : List CommandSpec} {command : CommandSpec} :
    IsPathFrom available (path ++ [command]) ↔ IsPathFrom available path ∧
      command ∈ (path.getLast?.map CommandSpec.commands).getD available := by
  induction path generalizing available with
  | nil => simp [IsPathFrom]
  | cons first path ih =>
    have hlast : ((first :: path).getLast?.map CommandSpec.commands).getD available =
        (path.getLast?.map CommandSpec.commands).getD first.commands := by
      cases path with
      | nil => rfl
      | cons second path => simp [List.getLast?_eq_some_getLast]
    rw [List.cons_append, IsPathFrom, ih, IsPathFrom, and_assoc, hlast]

/-! ## What a validated specification promises -/

theorem longs_of_validateOption {path : String} {longs longs' : List String}
    {shorts shorts' : List Char} {option : OptionSpec}
    (h : validateOption path longs shorts option = .ok (longs', shorts')) :
    option.long ∉ longs ∧ longs' = option.long :: longs := by
  unfold validateOption at h
  obtain ⟨_, -, h⟩ := bind_eq_ok.1 h
  split at h
  · cases h
  next hnew =>
    obtain ⟨_, -, h⟩ := bind_eq_ok.1 h
    split at h
    · cases h
    · obtain ⟨_, -, h⟩ := bind_eq_ok.1 h
      cases h
      exact ⟨hnew, rfl⟩

theorem nodup_of_validateEachOption {path : String} {longs longs' : List String}
    {shorts : List Char} {options : List OptionSpec} (hnodup : longs.Nodup)
    (h : validateEachOption path longs shorts options = .ok longs') :
    (longs ++ options.map OptionSpec.long).Nodup := by
  induction options generalizing longs shorts with
  | nil => simpa using hnodup
  | cons option options ih =>
    obtain ⟨⟨next, shorts'⟩, hoption, h⟩ := bind_eq_ok.1 h
    obtain ⟨hnew, rfl⟩ := longs_of_validateOption hoption
    have hrest := ih (List.nodup_cons.2 ⟨hnew, hnodup⟩) h
    rw [List.map_cons]
    exact List.nodup_middle.2 hrest

theorem nodup_of_validateLevel {path : String} {commands : List CommandSpec}
    {options inherited : List OptionSpec} {arguments : List ArgumentSpec}
    (hnodup : (inherited.map OptionSpec.long).Nodup)
    (h : validateLevel path commands options arguments inherited = .ok ()) :
    ((inherited ++ options).map OptionSpec.long).Nodup := by
  obtain ⟨_, -, h⟩ := bind_eq_ok.1 h
  obtain ⟨_, hoptions, -⟩ := bind_eq_ok.1 h
  obtain ⟨_, heach, -⟩ := bind_eq_ok.1 hoptions
  rw [List.map_append]
  exact nodup_of_validateEachOption hnodup heach

theorem validateScope_of_mem {path : String} {visible : List OptionSpec}
    {commands : List CommandSpec} {command : CommandSpec} (hmem : command ∈ commands)
    (h : validateScopes path visible commands = .ok ()) :
    command.validateScope path visible = .ok () := by
  induction commands with
  | nil => cases hmem
  | cons first commands ih =>
    rw [validateScopes] at h
    obtain ⟨⟨⟩, hfirst, hrest⟩ := bind_eq_ok.1 h
    rcases List.mem_cons.1 hmem with rfl | hmem
    · exact hfirst
    · exact ih hmem hrest

/-- What each level adds to the visible options, when its checks keep it, holds along a path. -/
theorem visible_of_validateScopes {P : List OptionSpec → Prop} {path : String}
    {visible : List OptionSpec} {available entered : List CommandSpec}
    (hlevel : ∀ path commands options arguments inherited, P inherited →
      validateLevel path commands options arguments inherited = .ok () → P (inherited ++ options))
    (hvisible : P visible) (hpath : IsPathFrom available entered)
    (h : validateScopes path visible available = .ok ()) :
    P (visible ++ entered.flatMap CommandSpec.options) := by
  induction entered generalizing path visible available with
  | nil => simpa using hvisible
  | cons command entered ih =>
    have hscope := validateScope_of_mem hpath.1 h
    cases command with
    | mk name aliases commands options arguments commandRequired hidden about =>
      rw [CommandSpec.validateScope] at hscope
      obtain ⟨_, hchecked, hscopes⟩ := bind_eq_ok.1 hscope
      have hnext := ih (hlevel _ _ _ _ _ hvisible hchecked) hpath.2 hscopes
      rw [List.flatMap_cons, ← List.append_assoc]
      exact hnext

theorem visible_of_validate {P : List OptionSpec → Prop} {spec : CliSpec}
    {entered : List CommandSpec}
    (hlevel : ∀ path commands options arguments inherited, P inherited →
      validateLevel path commands options arguments inherited = .ok () → P (inherited ++ options))
    (hnil : P []) (h : spec.validate = .ok ()) (hpath : spec.IsPath entered) :
    P (Scope.mk spec entered).visibleOptions := by
  obtain ⟨_, -, h⟩ := bind_eq_ok.1 h
  obtain ⟨_, hroot, hscopes⟩ := bind_eq_ok.1 h
  exact visible_of_validateScopes hlevel (hlevel _ _ _ _ _ hnil hroot) hpath hscopes

/-- Along a path of a validated specification, no two visible options share a long name. -/
theorem nodup_longs_of_validate {spec : CliSpec} {entered : List CommandSpec}
    (h : spec.validate = .ok ()) (hpath : spec.IsPath entered) :
    ((Scope.mk spec entered).visibleOptions.map OptionSpec.long).Nodup :=
  visible_of_validate (P := fun options => (options.map OptionSpec.long).Nodup)
    (fun _ _ _ _ _ => nodup_of_validateLevel) List.nodup_nil h hpath

theorem eq_of_long_eq {options : List OptionSpec} (h : (options.map OptionSpec.long).Nodup)
    {first second : OptionSpec} (hfirst : first ∈ options) (hsecond : second ∈ options)
    (hlong : first.long = second.long) : first = second :=
  List.inj_on_of_nodup_map h hfirst hsecond hlong

end AppCore
