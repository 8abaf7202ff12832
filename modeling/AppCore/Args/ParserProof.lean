import AppCore.Args.Parser

/-!
# What an accepted command line satisfies

The loop of the parser keeps an invariant, `ParseState.Proper`: the commands entered are a path of
the tree, every parsed option is declared on that path and has a value it may have, and every
positional suits the argument at its place. No command is entered behind a positional, so the
arguments stay those of the last scope. Options are resolved while the path is still growing; the
long names of a path are different, so a name keeps its meaning.

* `parse_obeys` — the loop and the final checks together.
-/

namespace AppCore

/-- `option` may be parsed with `value`. -/
structure OptionSpec.Carries (option : OptionSpec) (value : Option String) : Prop where
  forbidden : option.value = .forbidden → value = none
  required : option.value = .required → value ≠ none
  admitted : ∀ v, value = some v → Admits option.valueType option.possibleValues v

/-- How many of the options have the name. -/
def occurrences (options : List ParsedOption) (name : String) : Nat :=
  options.countP (·.name == name)

/-- The parsed option is declared in the scope, and has what its declaration allows. -/
def Scope.Declares (scope : Scope) (options : List ParsedOption) (parsed : ParsedOption) : Prop :=
  ∃ option ∈ scope.visibleOptions, option.long = parsed.name ∧ option.Carries parsed.value ∧
    (option.repeatable = false → occurrences options parsed.name = 1)

/-- The positional suits the argument at its index, or the last one when that is variadic. -/
def Scope.Suits (scope : Scope) (index : Nat) (value : String) : Prop :=
  ∃ argument, scope.nextArgument index = some argument ∧
    Admits argument.valueType argument.possibleValues value

namespace ParseState

/-- What holds whenever the loop is about to read a word. -/
structure Proper (spec : CliSpec) (state : ParseState) : Prop where
  spec_eq : state.spec = spec
  path : spec.IsPath state.commands
  names : state.commandPath = state.commands.map CommandSpec.name
  options : ∀ parsed ∈ state.options, state.Declares state.options parsed
  positionals : ∀ index value, state.positionals[index]? = some value → state.Suits index value

variable {spec : CliSpec} {state next : ParseState} {option : OptionSpec} {value : Option String}
  {word : String} {following : List String} {taken : Nat}

theorem proper_start (spec : CliSpec) : Proper spec spec.start where
  spec_eq := rfl
  path := trivial
  names := rfl
  options := by
    intro parsed h
    cases h
  positionals := by
    intro index value h
    cases h

/-! ## Options -/

theorem admits_eq_ok {v : String} :
    option.admits v = .ok () ↔ Admits option.valueType option.possibleValues v :=
  validateValue_eq_ok

/-- What a pushed option adds, and what it was checked for. -/
theorem of_pushOption (h : state.pushOption option value = .ok next) :
    next = { state with options := state.options ++ [⟨option.long, value⟩] } ∧
      (option.repeatable = false → occurrences state.options option.long = 0) ∧
      ∀ v, value = some v → Admits option.valueType option.possibleValues v := by
  unfold pushOption at h
  split at h
  · cases h
  next hnew =>
    obtain ⟨⟨⟩, hvalue, h⟩ := bind_eq_ok.1 h
    cases h
    refine ⟨rfl, ?_, ?_⟩
    · intro hrepeat
      rw [occurrences, List.countP_eq_zero]
      intro parsed hparsed heq
      apply hnew
      rw [hrepeat, Bool.not_false, Bool.true_and, List.any_eq_true]
      exact ⟨parsed, hparsed, heq⟩
    · intro v hv
      subst hv
      exact admits_eq_ok.1 hvalue

/-- The value that goes with an option is there when the option requires one, and not when it
forbids one. -/
theorem of_optionValue {inline : Option String} {short : Bool}
    (h : optionValue following inline option short = .ok (value, taken)) :
    (option.value = .forbidden → value = none) ∧ (option.value = .required → value ≠ none) := by
  unfold optionValue at h
  cases hmode : option.value with
  | forbidden =>
    simp only [hmode] at h
    split at h
    · cases h
    · cases h
      simp
  | optional => simp
  | required =>
    simp only [hmode] at h
    cases inline with
    | some v =>
      cases h
      simp
    | none =>
      cases hhead : following.head? with
      | none => simp [hhead] at h
      | some v =>
        simp only [hhead] at h
        cases h
        simp

/-- Reading a visible option keeps the invariant. -/
theorem proper_readOption {inline : Option String} {short : Bool}
    (hvalid : spec.validate = .ok ()) (hstate : Proper spec state)
    (hmem : option ∈ state.visibleOptions)
    (h : state.readOption following option inline short = .ok (taken, next)) :
    Proper spec next := by
  obtain ⟨⟨value, taken⟩, hvalue, h⟩ := bind_eq_ok.1 h
  obtain ⟨pushed, hpush, h⟩ := bind_eq_ok.1 h
  cases h
  obtain ⟨rfl, hnew, hadmits⟩ := of_pushOption hpush
  have hmodes := of_optionValue hvalue
  have hnodup : (state.visibleOptions.map OptionSpec.long).Nodup := by
    have := nodup_longs_of_validate hvalid hstate.path
    rwa [← hstate.spec_eq] at this
  have hcount (name : String) :
      occurrences (state.options ++ [⟨option.long, value⟩]) name =
        occurrences state.options name + if option.long = name then 1 else 0 := by
    simp [occurrences, List.countP_append, List.countP_cons]
  refine ⟨hstate.spec_eq, hstate.path, hstate.names, ?_, hstate.positionals⟩
  intro parsed hparsed
  rcases List.mem_append.1 hparsed with hold | hlast
  · obtain ⟨declared, hdeclared, hlong, hcarries, honce⟩ := hstate.options parsed hold
    refine ⟨declared, hdeclared, hlong, hcarries, fun hrepeat => ?_⟩
    rw [hcount, honce hrepeat]
    by_cases hsame : option.long = parsed.name
    · -- The name of a visible option belongs to one option, which was pushed before.
      have heq := eq_of_long_eq hnodup hmem hdeclared (hsame.trans hlong.symm)
      subst heq
      have hzero := hnew hrepeat
      rw [hsame, honce hrepeat] at hzero
      cases hzero
    · rw [if_neg hsame]
  · obtain rfl := List.mem_singleton.1 hlast
    refine ⟨option, hmem, rfl, ⟨hmodes.1, hmodes.2, hadmits⟩, fun hrepeat => ?_⟩
    rw [hcount, hnew hrepeat, if_pos rfl]

theorem proper_parseLongOption {raw : List Char} (hvalid : spec.validate = .ok ())
    (hstate : Proper spec state)
    (h : state.parseLongOption raw following = .ok (taken, next)) : Proper spec next := by
  unfold parseLongOption at h
  dsimp only at h
  split at h
  · cases h
  · split at h
    · cases h
    next option hfind =>
      exact proper_readOption hvalid hstate (Scope.of_findLongOption hfind).1 h

theorem proper_parseShortOptions {raw : List Char} (hvalid : spec.validate = .ok ())
    (hstate : Proper spec state)
    (h : state.parseShortOptions following raw = .ok (taken, next)) : Proper spec next := by
  induction raw generalizing state with
  | nil =>
    cases h
    exact hstate
  | cons short rest ih =>
    unfold parseShortOptions at h
    split at h
    · cases h
    next option hfind =>
      obtain ⟨⟨taken, pushed⟩, hread, h⟩ := bind_eq_ok.1 h
      have hpushed := proper_readOption hvalid hstate (Scope.mem_of_findShortOption hfind) hread
      dsimp only at h
      split at h
      · cases h
        exact hpushed
      · exact ih hpushed h

theorem proper_enterCommand (hstate : Proper spec state) (hnone : state.positionals = [])
    (h : state.enterCommand word = some next) : Proper spec next := by
  obtain ⟨command, hfind, rfl⟩ := Option.map_eq_some_iff.1 h
  have havailable := List.mem_of_find?_eq_some hfind
  refine ⟨hstate.spec_eq, ?_, ?_, ?_, ?_⟩
  · refine isPathFrom_concat.2 ⟨hstate.path, ?_⟩
    rw [← hstate.spec_eq]
    exact havailable
  · show state.commandPath ++ [command.name] = (state.commands ++ [command]).map CommandSpec.name
    rw [hstate.names, List.map_append]
    rfl
  · intro parsed hparsed
    obtain ⟨declared, hdeclared, hrest⟩ := hstate.options parsed hparsed
    refine ⟨declared, ?_, hrest⟩
    show declared ∈ (state.enter command).visibleOptions
    rw [Scope.visibleOptions_enter]
    exact List.mem_append_left _ hdeclared
  · intro index value hvalue
    simp only [hnone] at hvalue
    cases hvalue

theorem proper_pushPositional (hstate : Proper spec state)
    (h : state.pushPositional word = .ok next) : Proper spec next := by
  unfold pushPositional at h
  split at h
  · split at h
    · cases h
    · cases h
  next argument hargument =>
    obtain ⟨⟨⟩, hvalue, h⟩ := bind_eq_ok.1 h
    cases h
    refine ⟨hstate.spec_eq, hstate.path, hstate.names, hstate.options, ?_⟩
    intro index value hindex
    by_cases hold : index < state.positionals.length
    · rw [List.getElem?_append_left hold] at hindex
      exact hstate.positionals index value hindex
    · rw [List.getElem?_append_right (by omega), List.getElem?_singleton] at hindex
      split at hindex
      next hzero =>
        cases hindex
        obtain rfl : index = state.positionals.length := by omega
        exact ⟨argument, hargument, validateValue_eq_ok.1 hvalue⟩
      · cases hindex

theorem proper_parseWord (hvalid : spec.validate = .ok ()) (hstate : Proper spec state)
    (h : state.parseWord word following = .ok (taken, next)) : Proper spec next := by
  unfold parseWord at h
  split at h
  · exact proper_parseLongOption hvalid hstate h
  · split at h
    · exact proper_parseShortOptions hvalid hstate h
    · split at h
      next entered henter =>
        cases h
        split at henter
        next hnone => exact proper_enterCommand hstate (List.isEmpty_iff.1 hnone) henter
        next => cases henter
      next =>
        obtain ⟨pushed, hpush, h⟩ := bind_eq_ok.1 h
        cases h
        exact proper_pushPositional hstate hpush

theorem proper_parseLoop {words : List String} {done : LoopEnd}
    (hvalid : spec.validate = .ok ()) (hstate : Proper spec state)
    (h : state.parseLoop words = .ok done) : Proper spec done.state := by
  induction hn : words.length using Nat.strong_induction_on generalizing state words with
  | _ n ih =>
    cases words with
    | nil =>
      rw [parseLoop] at h
      cases h
      exact hstate
    | cons word following =>
      rw [parseLoop] at h
      split at h
      · cases h
        exact ⟨hstate.spec_eq, hstate.path, hstate.names, hstate.options, hstate.positionals⟩
      · obtain ⟨⟨taken, next⟩, hword, h⟩ := bind_eq_ok.1 h
        refine ih _ ?_ (proper_parseWord hvalid hstate hword) h rfl
        rw [← hn, List.length_drop, List.length_cons]
        omega

/-! ## The final checks -/

variable {parsed : ParsedCli}

theorem isPresent_iff {name : String} :
    state.isPresent name = true ↔ ∃ parsed ∈ state.options, parsed.name = name := by
  simp [isPresent, List.any_eq_true]

theorem of_finish (hterminal : state.hasTerminalOption = false)
    (h : state.finish = .ok parsed) :
    parsed = ⟨state.commandPath, state.options, state.positionals, state.passthrough⟩ ∧
      state.validateRequiredCommand = .ok () ∧ state.validateRequiredArguments = .ok () ∧
      state.validateOptionRules = .ok () := by
  unfold finish at h
  rw [hterminal] at h
  obtain ⟨⟨⟩, hcommand, h⟩ := bind_eq_ok.1 h
  obtain ⟨⟨⟩, harguments, h⟩ := bind_eq_ok.1 h
  obtain ⟨⟨⟩, hrules, h⟩ := bind_eq_ok.1 h
  cases h
  exact ⟨rfl, hcommand, harguments, hrules⟩

theorem validateRequiredCommand_eq_ok : state.validateRequiredCommand = .ok () ↔
    (state.commandRequired = true → state.availableCommands = []) := by
  unfold validateRequiredCommand
  by_cases hrequired : state.commandRequired = true
  · simp [hrequired]
  · simp [hrequired]

theorem validateRequiredArguments_eq_ok : state.validateRequiredArguments = .ok () ↔
    ∀ index argument, state.activeArguments[index]? = some argument →
      argument.required = true → index < state.positionals.length := by
  unfold validateRequiredArguments
  rw [forM_eq_ok]
  constructor
  · intro h index argument hget hrequired
    have hcheck := h (argument, index) (List.mk_mem_zipIdx_iff_getElem?.2 hget)
    dsimp only at hcheck
    by_contra hlength
    rw [hrequired, Bool.true_and, decide_eq_true (Nat.le_of_not_lt hlength)] at hcheck
    cases hcheck
  · intro h ⟨argument, index⟩ hmem
    have hget := List.mk_mem_zipIdx_iff_getElem?.1 hmem
    refine if_neg fun hfails => ?_
    rw [Bool.and_eq_true, decide_eq_true_eq] at hfails
    have := h index argument hget hfails.1
    omega

theorem validateOptionRule_eq_ok : state.validateOptionRule option = .ok () ↔
    (option.required = true → state.isPresent option.long = true) ∧
      (state.isPresent option.long = true →
        (∀ other ∈ option.conflictsWith, state.isPresent other = false) ∧
          ∀ other ∈ option.requires, state.isPresent other = true) := by
  unfold validateOptionRule
  by_cases hpresent : state.isPresent option.long = true
  · cases hconflict : option.conflictsWith.find? state.isPresent with
    | some other =>
      have hmem := List.mem_of_find?_eq_some hconflict
      have hfound := List.find?_some hconflict
      simp only [hpresent, Bool.not_true, Bool.and_false, Bool.false_eq_true, if_false,
        reduceCtorEq, false_iff]
      intro h
      have hnot := (h.2 trivial).1 other hmem
      rw [hfound] at hnot
      cases hnot
    | none =>
      have hnone := List.find?_eq_none.1 hconflict
      cases hmissing : option.requires.find? (!state.isPresent ·) with
      | some other =>
        have hmem := List.mem_of_find?_eq_some hmissing
        have hfound := List.find?_some hmissing
        simp only [hpresent, Bool.not_true, Bool.and_false, Bool.false_eq_true, if_false,
          reduceCtorEq, false_iff]
        intro h
        have hthere := (h.2 trivial).2 other hmem
        rw [hthere] at hfound
        cases hfound
      | none =>
        have hall := List.find?_eq_none.1 hmissing
        simp only [hpresent, Bool.not_true, Bool.and_false, Bool.false_eq_true, if_false,
          true_iff]
        refine ⟨fun _ => trivial, fun _ => ⟨fun other hother => ?_, fun other hother => ?_⟩⟩
        · exact Bool.not_eq_true _ ▸ hnone other hother
        · simpa using hall other hother
  · by_cases hrequired : option.required = true
    · simp [hpresent, hrequired]
    · simp [hpresent, hrequired]

end ParseState

/-! ## The accepted command line -/

/-- An option of this name is there. -/
def ParsedCli.Has (parsed : ParsedCli) (name : String) : Prop :=
  ∃ option ∈ parsed.options, option.name = name

/-- One of the parsed options is a terminal one. -/
def ParsedCli.HasTerminal (parsed : ParsedCli) (spec : CliSpec) : Prop :=
  ∃ commands, spec.IsPath commands ∧ parsed.commandPath = commands.map CommandSpec.name ∧
    ∃ option ∈ (Scope.mk spec commands).visibleOptions, option.terminal = true ∧
      parsed.Has option.long

/-- What the specification asks of a command line that ends in `scope`, its commands apart. -/
structure ParsedCli.Obeys (parsed : ParsedCli) (scope : Scope) : Prop where
  path : scope.spec.IsPath scope.commands
  commandPath : parsed.commandPath = scope.commands.map CommandSpec.name
  options : ∀ option ∈ parsed.options, scope.Declares parsed.options option
  positionals : ∀ index value, parsed.positionals[index]? = some value → scope.Suits index value
  requiredArguments : ∀ index argument, scope.activeArguments[index]? = some argument →
    argument.required = true → index < parsed.positionals.length
  requiredOptions : ∀ option ∈ scope.visibleOptions, option.required = true →
    parsed.Has option.long
  conflicts : ∀ option ∈ scope.visibleOptions, parsed.Has option.long →
    ∀ other ∈ option.conflictsWith, ¬ parsed.Has other
  requirements : ∀ option ∈ scope.visibleOptions, parsed.Has option.long →
    ∀ other ∈ option.requires, parsed.Has other

/-- Each scope on the way that asks for a command is followed by one. -/
def Scope.CommandsPresent (scope : Scope) : Prop :=
  ∀ before after, scope.commands = before ++ after →
    (Scope.mk scope.spec before).commandRequired = true → after ≠ []

/-- Each scope on the way that asks for a command, and declares one, is followed by one. -/
def Scope.DeclaredCommandsPresent (scope : Scope) : Prop :=
  ∀ before after, scope.commands = before ++ after →
    (Scope.mk scope.spec before).commandRequired = true →
    (Scope.mk scope.spec before).availableCommands ≠ [] → after ≠ []

/-- Validation, the loop and the final checks: an accepted command line obeys its specification. -/
theorem parse_obeys {spec : CliSpec} {args : RawArgs} {parsed : ParsedCli}
    (h : CliParser.parse spec args = .ok parsed) (hterminal : ¬ parsed.HasTerminal spec) :
    ∃ commands, parsed.Obeys ⟨spec, commands⟩ ∧
      (Scope.mk spec commands).DeclaredCommandsPresent := by
  obtain ⟨⟨⟩, hvalidate, h⟩ := bind_eq_ok.1 h
  obtain ⟨done, hloop, hfinish⟩ := bind_eq_ok.1 h
  have hvalid : spec.validate = .ok () := by
    cases hspec : spec.validate with
    | error error =>
      rw [hspec] at hvalidate
      cases hvalidate
    | ok => rfl
  have hproper := ParseState.proper_parseLoop hvalid (ParseState.proper_start spec) hloop
  generalize done.state = state at hproper hfinish
  obtain ⟨hspec, hpath, hnames, hoptions, hpositionals⟩ := hproper
  have hscope : state.toScope = ⟨spec, state.commands⟩ := by rw [← hspec]
  have hnot : state.hasTerminalOption = false := by
    by_contra hfound
    rw [Bool.not_eq_false] at hfound
    obtain ⟨option, hmem, hboth⟩ := List.any_eq_true.1 hfound
    rw [Bool.and_eq_true, ParseState.isPresent_iff] at hboth
    have hparsed : parsed.commandPath = state.commandPath ∧ parsed.options = state.options := by
      unfold ParseState.finish at hfinish
      rw [hfound] at hfinish
      cases hfinish
      exact ⟨rfl, rfl⟩
    refine hterminal ⟨state.commands, hpath, hparsed.1.trans hnames, option, ?_, hboth.1, ?_⟩
    · rwa [← hscope]
    · rw [ParsedCli.Has, hparsed.2]
      exact hboth.2
  obtain ⟨rfl, hcommand, harguments, hrules⟩ := ParseState.of_finish hnot hfinish
  have hrule (option : OptionSpec) (hmem : option ∈ state.visibleOptions) :=
    ParseState.validateOptionRule_eq_ok.1 (forM_eq_ok.1 hrules option hmem)
  simp only [ParseState.isPresent_iff, ← Bool.not_eq_true] at hrule
  refine ⟨state.commands, ?_, ?_⟩
  · rw [← hscope]
    refine ⟨?_, hnames, hoptions, hpositionals, ?_, ?_, ?_, ?_⟩
    · rw [hspec]
      exact hpath
    · exact ParseState.validateRequiredArguments_eq_ok.1 harguments
    · exact fun option hmem => (hrule option hmem).1
    · exact fun option hmem hhas => ((hrule option hmem).2 hhas).1
    · exact fun option hmem hhas => ((hrule option hmem).2 hhas).2
  · intro before after hsplit hrequired havailable hnil
    -- Only the last scope can lack a command behind it, and the parser checked that one.
    subst hnil
    rw [List.append_nil] at hsplit
    change state.commands = before at hsplit
    subst hsplit
    rw [← hscope] at hrequired havailable
    exact havailable (ParseState.validateRequiredCommand_eq_ok.1 hcommand hrequired)

/-- A program with a flag for all its commands, and one command that needs an argument. -/
def runSpec : CliSpec where
  name := "demo"
  options := [.flag "verbose"]
  commands := [{ name := "run", arguments := [{ name := "mode", required := true }] }]
  commandRequired := true

theorem parse_obeys_run : ∃ commands,
    (ParsedCli.mk ["run"] [⟨"verbose", none⟩] ["fast"] []).Obeys ⟨runSpec, commands⟩ ∧
      (Scope.mk runSpec commands).DeclaredCommandsPresent := by
  have hvalid : runSpec.validate = .ok () := by rfl
  let inRun : ParseState :=
    { runSpec.start with
      commands := runSpec.commands
      commandPath := ["run"] }
  have hrun : runSpec.start.parseWord "run" ["--verbose", "fast"] = .ok (0, inRun) := by rfl
  have hflag : inRun.parseWord "--verbose" ["fast"] =
      .ok (0, { inRun with options := [⟨"verbose", none⟩] }) := by rfl
  have hmode : ParseState.parseWord { inRun with options := [⟨"verbose", none⟩] } "fast" [] =
      .ok (0, { inRun with
        options := [⟨"verbose", none⟩]
        positionals := ["fast"] }) := by rfl
  have hparse : CliParser.parse runSpec ⟨["run", "--verbose", "fast"]⟩ =
      .ok ⟨["run"], [⟨"verbose", none⟩], ["fast"], []⟩ := by
    simp only [CliParser.parse, hvalid, ParseState.parseLoop, String.reduceEq, if_false, hrun,
      hflag, hmode, Except.mapError, ok_bind, List.drop_zero]
    rfl
  refine parse_obeys hparse ?_
  rintro ⟨commands, hpath, -, option, hmem, hterminal, -⟩
  have hplain : ∀ o ∈ (Scope.mk runSpec commands).visibleOptions, o = .flag "verbose" := by
    intro o ho
    rcases List.mem_append.1 ho with hroot | hcommand
    · exact List.mem_singleton.1 hroot
    · obtain ⟨command, hin, hdeclared⟩ := List.mem_flatMap.1 hcommand
      cases commands with
      | nil => cases hin
      | cons first rest =>
        obtain ⟨hfirst, hrest⟩ := hpath
        obtain rfl := List.mem_singleton.1 hfirst
        cases rest with
        | nil =>
          obtain rfl := List.mem_singleton.1 hin
          cases hdeclared
        | cons second rest => cases hrest.1
  rw [hplain option hmem] at hterminal
  cases hterminal

/-- A program that asks for a command and declares none. -/
def askingSpec : CliSpec := { name := "demo", commandRequired := true }

/-- `askingSpec` accepts a command line without a command. -/
theorem required_command_absent :
    ¬ ∀ (spec : CliSpec) (args : RawArgs) (parsed : ParsedCli),
      CliParser.parse spec args = .ok parsed → ¬ parsed.HasTerminal spec →
      ∃ commands, parsed.Obeys ⟨spec, commands⟩ ∧ (Scope.mk spec commands).CommandsPresent := by
  intro h
  have hparse : CliParser.parse askingSpec ⟨[]⟩ = .ok ⟨[], [], [], []⟩ := by
    have hvalid : askingSpec.validate = .ok () := by rfl
    simp only [CliParser.parse, hvalid, ParseState.parseLoop, Except.mapError, ok_bind]
    rfl
  obtain ⟨commands, hobeys, hpresent⟩ := h askingSpec ⟨[]⟩ _ hparse (by
    rintro ⟨commands, hpath, hnames, option, hmem, -, p, hp, -⟩
    cases hp)
  have hnone : commands = [] := List.map_eq_nil_iff.1 hobeys.commandPath.symm
  subst hnone
  exact hpresent [] [] rfl rfl rfl

end AppCore
