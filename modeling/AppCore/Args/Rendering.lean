import AppCore.Args.CompletionProof
import AppCore.Base.HostPort

/-!
# Parsing what was rendered

A command line written out in full: the commands, a long word for each option, the positionals, and
everything else behind the separator.

* `parse_render_iff` — the parser gives back the command line exactly when none of the words for
  commands reads as an option.

`CliSpec::validate` lets the names of commands start with a dash, and the parser looks for options
first.
-/

namespace AppCore

open ParseState

/-! ## What validation says about names -/

/-- No two commands go by one name. -/
def UniqueNames (commands : List CommandSpec) : Prop :=
  ∀ first ∈ commands, ∀ second ∈ commands, ∀ word,
    first.matches word = true → second.matches word = true → first = second

theorem matches_iff {command : CommandSpec} {word : String} :
    command.matches word = true ↔ word ∈ command.name :: command.aliases := by
  rw [CommandSpec.matches, Bool.or_eq_true, beq_iff_eq, List.any_beq', List.contains_iff_mem,
    List.mem_cons, eq_comm]

theorem of_validateName {kind name : String} (h : validateName kind name = .ok ()) :
    name ≠ "" ∧ '=' ∉ name.toList := by
  unfold validateName at h
  split at h
  · next hvalid =>
    obtain ⟨hne, hall⟩ := Bool.and_eq_true_iff.1 hvalid
    refine ⟨?_, fun hmem => ?_⟩
    · rintro rfl
      cases hne
    · exact absurd (List.all_eq_true.1 hall _ hmem) (by decide)
  · cases h

/-- The names of a command are new, and taken from then on. -/
theorem mem_of_validateCommandNames {path : String} {names names' fresh : List String}
    (h : validateCommandNames path names fresh = .ok names') :
    (∀ name ∈ fresh, name ∉ names) ∧ ∀ name, name ∈ names' ↔ name ∈ names ∨ name ∈ fresh := by
  induction fresh generalizing names with
  | nil =>
    cases h
    simp
  | cons name fresh ih =>
    obtain ⟨_, -, h⟩ := bind_eq_ok.1 h
    split at h
    · cases h
    next hnew =>
      obtain ⟨hfresh, hnames⟩ := ih h
      constructor
      · intro other hother
        rcases List.mem_cons.1 hother with rfl | hother
        · exact hnew
        · exact fun hmem => hfresh other hother (List.mem_cons_of_mem _ hmem)
      · intro other
        rw [hnames, List.mem_cons, List.mem_cons]
        tauto

theorem unique_of_validateCommands {path : String} {names : List String}
    {commands : List CommandSpec} (h : validateCommands path names commands = .ok ()) :
    (∀ command ∈ commands, ∀ word, command.matches word = true → word ∉ names) ∧
      UniqueNames commands := by
  induction commands generalizing names with
  | nil =>
    constructor
    · intro command hmem
      cases hmem
    · intro first hmem
      cases hmem
  | cons command commands ih =>
    obtain ⟨_, -, h⟩ := bind_eq_ok.1 h
    obtain ⟨names', hnames, h⟩ := bind_eq_ok.1 h
    obtain ⟨hfresh, hmem⟩ := mem_of_validateCommandNames hnames
    obtain ⟨hnew, hunique⟩ := ih h
    -- a later command has no name of this one
    have hapart (other : CommandSpec) (hother : other ∈ commands) (word : String)
        (hhere : command.matches word = true) (hthere : other.matches word = true) : False :=
      hnew other hother word hthere ((hmem word).2 (Or.inr (matches_iff.1 hhere)))
    constructor
    · intro other hother word hword hin
      rcases List.mem_cons.1 hother with rfl | hother
      · exact hfresh word (matches_iff.1 hword) hin
      · exact hnew other hother word hword ((hmem word).2 (Or.inl hin))
    · intro first hfirst second hsecond word hone htwo
      rcases List.mem_cons.1 hfirst with hfirst | hfirst
      · rcases List.mem_cons.1 hsecond with hsecond | hsecond
        · rw [hfirst, hsecond]
        · rw [hfirst] at hone
          exact (hapart second hsecond word hone htwo).elim
      · rcases List.mem_cons.1 hsecond with hsecond | hsecond
        · rw [hsecond] at htwo
          exact (hapart first hfirst word htwo hone).elim
        · exact hunique first hfirst second hsecond word hone htwo

/-- Each command on a path has passed the checks of its level. -/
theorem level_of_mem {path : String} {visible : List OptionSpec}
    {available entered : List CommandSpec} (hpath : IsPathFrom available entered)
    (h : validateScopes path visible available = .ok ()) :
    ∀ command ∈ entered, ∃ path inherited,
      validateLevel path command.commands command.options command.arguments inherited = .ok () := by
  induction entered generalizing path visible available with
  | nil =>
    intro command hmem
    cases hmem
  | cons first entered ih =>
    have hscope := validateScope_of_mem hpath.1 h
    cases first with
    | mk name aliases commands options arguments commandRequired hidden about =>
      rw [CommandSpec.validateScope] at hscope
      obtain ⟨_, hlevel, hscopes⟩ := bind_eq_ok.1 hscope
      intro command hmem
      rcases List.mem_cons.1 hmem with rfl | hmem
      · exact ⟨_, _, hlevel⟩
      · exact ih hpath.2 hscopes command hmem

/-- Each option of a level has passed its own checks. -/
theorem validateOption_of_mem {path : String} {longs longs' : List String} {shorts : List Char}
    {options : List OptionSpec} {option : OptionSpec}
    (h : validateEachOption path longs shorts options = .ok longs') (hmem : option ∈ options) :
    ∃ longs shorts read, validateOption path longs shorts option = .ok read := by
  induction options generalizing longs shorts with
  | nil => cases hmem
  | cons first options ih =>
    obtain ⟨⟨next, shorts'⟩, hoption, h⟩ := bind_eq_ok.1 h
    rcases List.mem_cons.1 hmem with rfl | hmem
    · exact ⟨_, _, _, hoption⟩
    · exact ih h hmem

/-- The long name of an option that passes its checks can be written as a word. -/
theorem name_of_validateOption {path : String} {longs : List String} {shorts : List Char}
    {option : OptionSpec} {read : List String × List Char}
    (h : validateOption path longs shorts option = .ok read) :
    option.long ≠ "" ∧ '=' ∉ option.long.toList := by
  obtain ⟨_, hname, -⟩ := bind_eq_ok.1 h
  exact of_validateName hname

section Validated

variable {spec : CliSpec} {entered : List CommandSpec}

theorem validateOption_of_validate (h : spec.validate = .ok ()) (hpath : spec.IsPath entered)
    {option : OptionSpec} (hmem : option ∈ (Scope.mk spec entered).visibleOptions) :
    ∃ path longs shorts read, validateOption path longs shorts option = .ok read := by
  refine visible_of_validate (P := fun options => ∀ option ∈ options,
    ∃ path longs shorts read, validateOption path longs shorts option = .ok read) ?_ ?_ h hpath
    option hmem
  · intro path commands options arguments inherited hinherited hlevel option hmem
    rcases List.mem_append.1 hmem with hold | hnew
    · exact hinherited option hold
    · obtain ⟨_, -, hlevel⟩ := bind_eq_ok.1 hlevel
      obtain ⟨_, hoptions, -⟩ := bind_eq_ok.1 hlevel
      obtain ⟨_, heach, -⟩ := bind_eq_ok.1 hoptions
      exact ⟨path, validateOption_of_mem heach hnew⟩
  · intro option hmem
    cases hmem

theorem unique_of_validate (h : spec.validate = .ok ()) (hpath : spec.IsPath entered) :
    UniqueNames (Scope.mk spec entered).availableCommands := by
  obtain ⟨_, -, h⟩ := bind_eq_ok.1 h
  obtain ⟨_, hlevel, hscopes⟩ := bind_eq_ok.1 h
  unfold Scope.availableCommands
  cases hlast : entered.getLast? with
  | none =>
    obtain ⟨_, hcommands, -⟩ := bind_eq_ok.1 hlevel
    exact (unique_of_validateCommands hcommands).2
  | some command =>
    obtain ⟨path, inherited, hlevel⟩ :=
      level_of_mem hpath hscopes command (List.mem_of_getLast? hlast)
    obtain ⟨_, hcommands, -⟩ := bind_eq_ok.1 hlevel
    exact (unique_of_validateCommands hcommands).2

end Validated

/-! ## Rendering -/

/-- The long word of an option, with its value behind the equals sign. -/
def ParsedOption.word (option : ParsedOption) : String :=
  match option.value with
  | none => "--" ++ option.name
  | some value => "--" ++ option.name ++ "=" ++ value

/-- Everything behind the commands. -/
def ParsedCli.tailWords (parsed : ParsedCli) : List String :=
  parsed.options.map ParsedOption.word ++ parsed.positionals ++ "--" :: parsed.passthrough

/-- The command line, with one word for each command on its path. -/
def ParsedCli.render (parsed : ParsedCli) (words : List String) : List String :=
  words ++ parsed.tailWords

/-- None of the words for commands reads as an option where it stands. -/
def Scope.ReadsCommands (scope : Scope) : List CommandSpec → List String → Prop
  | command :: commands, word :: words =>
    scope.isOption 0 word = false ∧ (scope.enter command).ReadsCommands commands words
  | _, _ => True

/-- Each word names the command at its place. -/
def Spells (commands : List CommandSpec) (words : List String) : Prop :=
  List.Forall₂ (fun command word => command.matches word = true) commands words

/-- What a command line needs besides its specification to be read back from its words. -/
structure ParsedCli.Renders (parsed : ParsedCli) (scope : Scope) : Prop where
  first : ∀ word ∈ parsed.positionals.head?, ∀ command ∈ scope.availableCommands,
    command.matches word = false
  positionals : ∀ word ∈ parsed.positionals, word.toList.head? ≠ some '-'
  valueless : ∀ parsedOption ∈ parsed.options, parsedOption.value = none →
    ∀ option ∈ scope.visibleOptions, option.long = parsedOption.name →
      option.value = .optional → option.detachedOptionalValue = false

/-! ## Commands -/

namespace ParseState

/-- The state behind the words of commands. -/
def through (state : ParseState) (commands : List CommandSpec) : ParseState :=
  { state with
    toScope := ⟨state.spec, state.commands ++ commands⟩
    commandPath := state.commandPath ++ commands.map CommandSpec.name }

@[simp] theorem through_nil (state : ParseState) : state.through [] = state := by
  cases state
  simp [through]

theorem through_cons (state : ParseState) (command : CommandSpec) (commands : List CommandSpec) :
    (state.through [command]).through commands = state.through (command :: commands) := by
  simp [through]

end ParseState

variable {spec : CliSpec} {state next : ParseState} {command : CommandSpec}
  {commands : List CommandSpec} {word : String} {words rest : List String}

theorem isPathFrom_of_append {available front : List CommandSpec} {path : List CommandSpec}
    (h : IsPathFrom available (front ++ path)) : IsPathFrom available front := by
  induction path using List.reverseRecOn with
  | nil => simpa using h
  | append_singleton path last ih =>
    rw [← List.append_assoc] at h
    exact ih (isPathFrom_concat.1 h).1

/-- The one element that passes a test is found. -/
theorem find?_of_unique {α : Type} {l : List α} {p : α → Bool} {a : α} (hmem : a ∈ l)
    (ha : p a = true) (hunique : ∀ b ∈ l, p b = true → b = a) : l.find? p = some a := by
  cases hfind : l.find? p with
  | none => exact absurd ha (List.find?_eq_none.1 hfind a hmem)
  | some b => rw [hunique b (List.mem_of_find?_eq_some hfind) (List.find?_some hfind)]

theorem parsePlain_command (hvalid : spec.validate = .ok ()) (hspec : state.spec = spec)
    (hpath : spec.IsPath (state.commands ++ command :: commands))
    (hnone : state.positionals = []) (hword : command.matches word = true) :
    state.parsePlain word = .ok (0, state.through [command]) := by
  have hhere : spec.IsPath (state.commands ++ [command]) := by
    rw [List.append_cons] at hpath
    exact isPathFrom_of_append hpath
  obtain ⟨hfront, hmem⟩ := isPathFrom_concat.1 hhere
  have hunique := unique_of_validate hvalid hfront
  subst hspec
  have hfind : state.availableCommands.find? (·.matches word) = some command :=
    find?_of_unique hmem hword fun other hother hsame =>
      hunique other hother command hmem word hsame hword
  simp [parsePlain, hnone, enterCommand, hfind, through, Scope.enter]

/-- The loop enters the commands whose words do not read as options. -/
theorem parseLoop_commands (hvalid : spec.validate = .ok ()) (hspec : state.spec = spec)
    (hpath : spec.IsPath (state.commands ++ commands)) (hnone : state.positionals = [])
    (hwords : Spells commands words) (hreads : state.ReadsCommands commands words) :
    state.parseLoop (words ++ rest) = (state.through commands).parseLoop rest := by
  induction hwords generalizing state with
  | nil => rw [through_nil, List.nil_append]
  | @cons command word commands words hword hwords ih =>
    obtain ⟨hoption, hreads⟩ := hreads
    rw [show 0 = state.positionals.length by rw [hnone]; rfl] at hoption
    obtain ⟨hdashes, -, hplain⟩ := @parseWord_plain state (words ++ rest) word hoption
    have hseparator : word ≠ "--" := by
      rintro rfl
      cases hdashes
    rw [parsePlain_command hvalid hspec hpath hnone hword] at hplain
    rw [List.cons_append, parseLoop_cons hseparator hplain, List.drop_zero,
      ← through_cons state command commands]
    refine @ih (state.through [command]) hspec ?_ hnone hreads
    show spec.IsPath ((state.commands ++ [command]) ++ commands)
    rwa [List.append_assoc]

/-! ## Options and positionals -/

theorem toList_dashes (name : String) : ("--" ++ name).toList = '-' :: '-' :: name.toList := by
  rw [String.toList_append]
  rfl

theorem stripDashes_dashes (name : String) : stripDashes ("--" ++ name) = some name.toList := by
  simp only [stripDashes, toList_dashes]

theorem splitInline_name {name : String} (h : '=' ∉ name.toList) :
    splitInline name.toList = (name, none) := by
  rw [splitInline, splitOnce_eq_none h]
  simp

theorem splitInline_value {name : String} (h : '=' ∉ name.toList) (value : String) :
    splitInline (name ++ "=" ++ value).toList = (name, some value) := by
  have hsplit : (name ++ "=" ++ value).toList = name.toList ++ '=' :: value.toList := by
    simp [String.toList_append]
  rw [splitInline, hsplit, splitOnce_append h]
  simp

theorem splitInline_word {parsed : ParsedOption} (h : '=' ∉ parsed.name.toList) :
    ∃ raw, stripDashes parsed.word = some raw ∧
      splitInline raw = (parsed.name, parsed.value) := by
  unfold ParsedOption.word
  cases parsed.value with
  | none => exact ⟨_, stripDashes_dashes _, splitInline_name h⟩
  | some value =>
    refine ⟨_, ?_, splitInline_value h value⟩
    show stripDashes ("--" ++ parsed.name ++ "=" ++ value) = _
    rw [String.append_assoc, String.append_assoc, stripDashes_dashes, ← String.append_assoc]

theorem word_ne_separator {parsed : ParsedOption} (hname : parsed.name ≠ "") :
    parsed.word ≠ "--" := by
  intro hword
  have hlist := congrArg String.toList hword
  have hempty : parsed.name.toList = [] := by
    unfold ParsedOption.word at hlist
    cases hvalue : parsed.value with
    | none =>
      rw [hvalue] at hlist
      dsimp only at hlist
      rw [toList_dashes] at hlist
      simpa using hlist
    | some value =>
      rw [hvalue] at hlist
      dsimp only at hlist
      rw [String.append_assoc, String.append_assoc, toList_dashes] at hlist
      simp at hlist
  exact hname (String.toList_eq_nil_iff.1 hempty)

/-- An option reads its own value and no word behind it. -/
theorem optionValue_rendered {option : OptionSpec} {value : Option String}
    {following : List String} (hcarries : option.Carries value)
    (hvalueless : value = none → option.value = .optional →
      option.detachedOptionalValue = false) :
    optionValue following value option false = .ok (value, 0) := by
  unfold optionValue
  cases hmode : option.value with
  | forbidden =>
    obtain rfl := hcarries.forbidden hmode
    rfl
  | optional =>
    unfold optionalValue
    cases value with
    | none =>
      rw [hvalueless rfl hmode]
      rfl
    | some value => rfl
  | required =>
    cases value with
    | none => exact absurd rfl (hcarries.required hmode)
    | some value => rfl

theorem pushOption_eq_ok {option : OptionSpec} {value : Option String} {pushed : ParseState} :
    state.pushOption option value = .ok pushed ↔
      pushed = { state with options := state.options ++ [⟨option.long, value⟩] } ∧
        (option.repeatable = false → occurrences state.options option.long = 0) ∧
        ∀ v, value = some v → Admits option.valueType option.possibleValues v := by
  refine ⟨ParseState.of_pushOption, ?_⟩
  rintro ⟨rfl, honce, hadmits⟩
  unfold pushOption
  have hnew : ¬ (!option.repeatable && state.options.any (·.name == option.long)) = true := by
    intro hboth
    obtain ⟨hrepeat, hany⟩ := Bool.and_eq_true_iff.1 hboth
    obtain ⟨parsed, hparsed, hname⟩ := List.any_eq_true.1 hany
    have hzero := honce (by simpa using hrepeat)
    exact List.countP_eq_zero.1 hzero parsed hparsed hname
  rw [if_neg hnew]
  cases value with
  | none => rfl
  | some value =>
    show (option.admits value >>= fun _ => _) = _
    rw [admits_eq_ok.2 (hadmits value rfl), ok_bind]

/-- The word of a visible option reads this option, with the value in the word. -/
theorem parseWord_long {option : OptionSpec} {following : List String}
    (hnodup : (state.visibleOptions.map OptionSpec.long).Nodup)
    (hmem : option ∈ state.visibleOptions) (hname : option.long ≠ "" ∧ '=' ∉ option.long.toList)
    (value : Option String) :
    state.parseWord (ParsedOption.mk option.long value).word following =
      state.readOption following option value false := by
  obtain ⟨raw, hdashes, hsplit⟩ := @splitInline_word ⟨option.long, value⟩ hname.2
  have hfind : state.findLongOption option.long = some option :=
    find?_of_unique (List.mem_reverse.2 hmem) (beq_self_eq_true _) fun other hother hlong =>
      eq_of_long_eq hnodup (List.mem_reverse.1 hother) hmem (beq_iff_eq.1 hlong)
  have hnotempty : ¬ option.long.isEmpty = true := by simpa using hname.1
  unfold parseWord
  simp only [hdashes, parseLongOption, hsplit]
  rw [if_neg hnotempty, hfind]

/-- The loop adds the options whose words it reads. -/
theorem parseLoop_options {options : List ParsedOption}
    (hnodup : (state.visibleOptions.map OptionSpec.long).Nodup)
    (hnames : ∀ option ∈ state.visibleOptions, option.long ≠ "" ∧ '=' ∉ option.long.toList)
    (hdeclares : ∀ parsed ∈ options, state.Declares (state.options ++ options) parsed)
    (hvalueless : ∀ parsed ∈ options, parsed.value = none → ∀ option ∈ state.visibleOptions,
      option.long = parsed.name → option.value = .optional →
        option.detachedOptionalValue = false) :
    state.parseLoop (options.map ParsedOption.word ++ rest) =
      ParseState.parseLoop { state with options := state.options ++ options } rest := by
  induction options generalizing state with
  | nil => simp
  | cons parsed options ih =>
    obtain ⟨option, hmem, hlong, hcarries, honce⟩ := hdeclares parsed List.mem_cons_self
    have hvalue := hvalueless parsed List.mem_cons_self
    obtain ⟨name, value⟩ := parsed
    dsimp only at hlong hcarries honce hvalue
    subst hlong
    have hzero (hrepeat : option.repeatable = false) :
        occurrences state.options option.long = 0 := by
      have hone := honce hrepeat
      simp only [occurrences, List.countP_append, List.countP_cons, beq_self_eq_true,
        if_true] at hone
      rw [occurrences]
      omega
    have hpush := pushOption_eq_ok.2 ⟨rfl, hzero, hcarries.admitted⟩
    have hread : state.parseWord (ParsedOption.mk option.long value).word
        (options.map ParsedOption.word ++ rest) =
        .ok (0, { state with options := state.options ++ [⟨option.long, value⟩] }) := by
      rw [parseWord_long hnodup hmem (hnames option hmem), readOption,
        optionValue_rendered hcarries fun hnone => hvalue hnone option hmem rfl, ok_bind]
      dsimp only
      rw [hpush, ok_bind]
    have hseparator := @word_ne_separator ⟨option.long, value⟩ (hnames option hmem).1
    rw [List.map_cons, List.cons_append, parseLoop_cons hseparator hread, List.drop_zero]
    have hrest := @ih { state with options := state.options ++ [⟨option.long, value⟩] } hnodup
      hnames (fun other hother => by
        show state.Declares ((state.options ++ [⟨option.long, value⟩]) ++ options) other
        rw [List.append_assoc]
        exact hdeclares other (List.mem_cons_of_mem _ hother))
      (fun other hother => hvalueless other (List.mem_cons_of_mem _ hother))
    rw [hrest]
    simp only [List.append_assoc, List.singleton_append]

/-- A word without a dash in front does not read as an option. -/
theorem isOption_of_head {scope : Scope} {positionals : Nat}
    (h : word.toList.head? ≠ some '-') : scope.isOption positionals word = false := by
  have hdashes : stripDashes word = none := by
    unfold stripDashes
    split
    next raw hword =>
      rw [hword] at h
      exact absurd rfl h
    · rfl
  have hshort : isShortOption word = false := by
    unfold isShortOption
    split
    · rfl
    · rfl
    next rest _ _ hword =>
      rw [hword] at h
      exact absurd rfl h
    · rfl
  simp [Scope.isOption, hdashes, hshort]

theorem pushPositional_suits (h : state.Suits state.positionals.length word) :
    state.pushPositional word = .ok { state with positionals := state.positionals ++ [word] } := by
  obtain ⟨argument, hnext, hadmits⟩ := h
  unfold pushPositional
  rw [hnext]
  dsimp only
  rw [validateValue_eq_ok.2 hadmits, ok_bind]

/-- A word that suits the next argument, and names no command there, is taken for it. -/
theorem parsePlain_positional (hnames : state.positionals = [] →
      ∀ command ∈ state.availableCommands, command.matches word = false)
    (hsuits : state.Suits state.positionals.length word) :
    state.parsePlain word =
      .ok (0, { state with positionals := state.positionals ++ [word] }) := by
  have hcommand : (if state.positionals.isEmpty then state.enterCommand word else none) = none := by
    split
    next hempty =>
      rw [enterCommand, Option.map_eq_none_iff, List.find?_eq_none]
      intro command hmem
      rw [hnames (List.isEmpty_iff.1 hempty) command hmem]
      exact Bool.false_ne_true
    · rfl
  rw [parsePlain, hcommand]
  dsimp only
  rw [pushPositional_suits hsuits, ok_bind]

/-- The loop takes the positionals, the first of which names no command. -/
theorem parseLoop_positionals {positionals : List String}
    (hdash : ∀ word ∈ positionals, word.toList.head? ≠ some '-')
    (hfirst : state.positionals = [] → ∀ word ∈ positionals.head?,
      ∀ command ∈ state.availableCommands, command.matches word = false)
    (hsuits : ∀ index value, (state.positionals ++ positionals)[index]? = some value →
      state.Suits index value) :
    state.parseLoop (positionals ++ rest) =
      ParseState.parseLoop { state with positionals := state.positionals ++ positionals } rest := by
  induction positionals generalizing state with
  | nil => simp
  | cons word positionals ih =>
    have hhead := hdash word List.mem_cons_self
    have hoption := @isOption_of_head word state.toScope state.positionals.length hhead
    obtain ⟨hdashes, -, hplain⟩ := @parseWord_plain state (positionals ++ rest) word hoption
    have hseparator : word ≠ "--" := by
      rintro rfl
      cases hdashes
    rw [parsePlain_positional (fun hnone => hfirst hnone word rfl)
      (hsuits state.positionals.length word (by simp))] at hplain
    rw [List.cons_append, parseLoop_cons hseparator hplain, List.drop_zero]
    have hrest := @ih { state with positionals := state.positionals ++ [word] }
      (fun other hother => hdash other (List.mem_cons_of_mem _ hother))
      (fun hnone => by simp at hnone)
      (fun index value hvalue => hsuits index value (by simpa using hvalue))
    rw [hrest]
    simp only [List.append_assoc, List.singleton_append]

/-- The final checks pass for what obeys the specification. -/
theorem finish_obeys (hobeys : (ParsedCli.mk state.commandPath state.options state.positionals
      state.passthrough).Obeys state.toScope)
    (hpresent : state.DeclaredCommandsPresent) :
    state.finish =
      .ok ⟨state.commandPath, state.options, state.positionals, state.passthrough⟩ := by
  have hcommand : state.validateRequiredCommand = .ok () := by
    refine validateRequiredCommand_eq_ok.2 fun hrequired => ?_
    by_contra hsome
    exact hpresent state.commands [] (List.append_nil _).symm hrequired hsome rfl
  have harguments : state.validateRequiredArguments = .ok () :=
    validateRequiredArguments_eq_ok.2 hobeys.requiredArguments
  have hrules : state.validateOptionRules = .ok () := by
    refine forM_eq_ok.2 fun option hmem => validateOptionRule_eq_ok.2 ⟨?_, ?_⟩
    · intro hrequired
      exact isPresent_iff.2 (hobeys.requiredOptions option hmem hrequired)
    · intro hthere
      have hhas := isPresent_iff.1 hthere
      constructor
      · intro other hother
        refine Bool.eq_false_iff.2 fun hpresent => ?_
        exact hobeys.conflicts option hmem hhas other hother (isPresent_iff.1 hpresent)
      · intro other hother
        exact isPresent_iff.2 (hobeys.requirements option hmem hhas other hother)
  unfold finish
  rw [hcommand, harguments, hrules]
  cases state.hasTerminalOption with
  | true => rfl
  | false => rfl

/-! ## How many words can name commands

A word with two dashes in front is never a command or a positional, so a word for a command that
reads as an option leaves too few words for the rest.
-/

/-- How many commands were entered and positionals taken. -/
def ParseState.plain (state : ParseState) : Nat :=
  state.commands.length + state.positionals.length

def plainWords (words : List String) : Nat :=
  words.countP fun word => (stripDashes word).isNone

/-- The loop read the words `read`, and `passthrough` stands behind its separator. -/
def ReadUpTo (words read passthrough : List String) : Prop :=
  words = read ++ "--" :: passthrough ∨ (words = read ∧ passthrough = [])

theorem plainWords_le_length (words : List String) : plainWords words ≤ words.length :=
  List.countP_le_length

theorem plainWords_append (front back : List String) :
    plainWords (front ++ back) = plainWords front + plainWords back :=
  List.countP_append

variable {option : OptionSpec} {inline : Option String} {short : Bool}
  {following : List String} {taken : Nat} {done : LoopEnd}

theorem passthrough_readOption
    (h : state.readOption following option inline short = .ok (taken, next)) :
    next.passthrough = state.passthrough := by
  obtain ⟨⟨value, count⟩, -, h⟩ := bind_eq_ok.1 h
  obtain ⟨pushed, hpush, h⟩ := bind_eq_ok.1 h
  cases h
  rw [(of_pushOption hpush).1]

theorem passthrough_parseShortOptions {raw : List Char}
    (h : state.parseShortOptions following raw = .ok (taken, next)) :
    next.passthrough = state.passthrough := by
  induction raw generalizing state with
  | nil =>
    cases h
    rfl
  | cons c rest ih =>
    unfold parseShortOptions at h
    split at h
    · cases h
    · obtain ⟨⟨count, pushed⟩, hread, h⟩ := bind_eq_ok.1 h
      rw [← passthrough_readOption hread]
      dsimp only at h
      split at h
      · cases h
        rfl
      · exact ih h

/-- A word taken as a command or a positional. -/
theorem of_parsePlain (h : state.parsePlain word = .ok (taken, next)) :
    next.passthrough = state.passthrough ∧ next.plain = state.plain + 1 := by
  unfold parsePlain at h
  split at h
  next entered henter =>
    cases h
    split at henter
    · obtain ⟨command, -, rfl⟩ := Option.map_eq_some_iff.1 henter
      refine ⟨rfl, ?_⟩
      simp only [plain, Scope.enter, List.length_append, List.length_singleton]
      omega
    · cases henter
  next =>
    obtain ⟨pushed, hpush, h⟩ := bind_eq_ok.1 h
    cases h
    rw [AppCore.of_pushPositional hpush]
    refine ⟨rfl, ?_⟩
    simp only [plain, List.length_append, List.length_singleton]
    omega

theorem passthrough_parseWord (h : state.parseWord word following = .ok (taken, next)) :
    next.passthrough = state.passthrough := by
  cases hoption : state.isOption state.positionals.length word with
  | false =>
    rw [(parseWord_plain hoption).2.2] at h
    exact (of_parsePlain h).1
  | true =>
    unfold parseWord at h
    rcases isOption_iff.1 hoption with ⟨raw, hdashes⟩ | ⟨hdashes, hshort⟩
    · simp only [hdashes, parseLongOption] at h
      split at h
      · cases h
      · split at h
        · cases h
        · exact passthrough_readOption h
    · simp only [hdashes, hshort, if_true] at h
      exact passthrough_parseShortOptions h

theorem plain_option (hoption : state.isOption state.positionals.length word = true)
    (h : state.parseWord word following = .ok (taken, next)) : next.plain = state.plain := by
  have hcontext := (readsOptions_parseWord hoption h).context
  have hcommands : next.commands = state.commands := congrArg (·.commands) hcontext
  have hpositionals : next.positionals.length = state.positionals.length :=
    congrArg CompletionContext.positionals hcontext
  rw [plain, plain, hcommands, hpositionals]

theorem plain_parseWord (h : state.parseWord word following = .ok (taken, next)) :
    next.plain ≤ state.plain + plainWords [word] := by
  cases hoption : state.isOption state.positionals.length word with
  | true =>
    rw [plain_option hoption h]
    exact Nat.le_add_right _ _
  | false =>
    obtain ⟨hdashes, -, hplain⟩ := @parseWord_plain state following word hoption
    rw [hplain] at h
    rw [(of_parsePlain h).2]
    simp [plainWords, hdashes]

/-- The loop enters at most one command, or takes one positional, for each plain word it reads. -/
theorem plain_parseLoop (hnone : state.passthrough = [])
    (h : state.parseLoop words = .ok done) :
    ∃ read, ReadUpTo words read done.state.passthrough ∧
      done.state.plain ≤ state.plain + plainWords read := by
  induction hn : words.length using Nat.strong_induction_on generalizing state words with
  | _ n ih =>
    cases words with
    | nil =>
      rw [parseLoop] at h
      cases h
      exact ⟨[], Or.inr ⟨rfl, hnone⟩, Nat.le_add_right _ _⟩
    | cons word following =>
      rw [parseLoop] at h
      split at h
      next hseparator =>
        cases h
        subst hseparator
        refine ⟨[], Or.inl ?_, Nat.le_add_right _ _⟩
        show _ = [] ++ "--" :: (state.passthrough ++ following)
        rw [hnone]
        rfl
      · obtain ⟨⟨taken, next⟩, hword, h⟩ := bind_eq_ok.1 h
        have hlength : (following.drop taken).length < n := by
          rw [← hn, List.length_drop, List.length_cons]
          omega
        obtain ⟨read, hread, hle⟩ :=
          ih _ hlength ((passthrough_parseWord hword).trans hnone) h rfl
        have hsplit := List.take_append_drop taken following
        refine ⟨word :: (following.take taken ++ read), ?_, ?_⟩
        · rcases hread with hread | ⟨hread, hend⟩
          · left
            rw [List.cons_append, List.append_assoc, ← hread, hsplit]
          · exact Or.inr ⟨by rw [← hread, hsplit], hend⟩
        · have hone := plain_parseWord hword
          have hcount : plainWords (word :: (following.take taken ++ read)) =
              plainWords [word] + (plainWords (following.take taken) + plainWords read) := by
            rw [← plainWords_append, ← plainWords_append]
            rfl
          omega

/-- A loop that enters all the commands, and takes what it can of the words behind theirs, read none
of their words as an option. -/
theorem readsCommands_of_parseLoop {count : Nat} (hvalid : spec.validate = .ok ())
    (hspec : state.spec = spec) (hpath : spec.IsPath (state.commands ++ commands))
    (hnone : state.positionals = []) (hbehind : state.passthrough = [])
    (hwords : Spells commands words)
    (hmost : ∀ front read, front <:+ words →
      ReadUpTo (front ++ rest) read done.state.passthrough →
      plainWords read ≤ front.length + count)
    (hdone : done.state.plain = state.plain + commands.length + count)
    (h : state.parseLoop (words ++ rest) = .ok done) : state.ReadsCommands commands words := by
  induction hwords generalizing state with
  | nil => trivial
  | @cons command word commands words hword hwords ih =>
    have hlength : commands.length = words.length := hwords.length_eq
    rw [List.length_cons] at hdone
    cases hoption : state.isOption state.positionals.length word with
    | true =>
      exfalso
      by_cases hseparator : word = "--"
      · -- the loop ends here, short of the command
        rw [List.cons_append, parseLoop, if_pos hseparator] at h
        cases h
        change state.plain = _ at hdone
        omega
      · rw [List.cons_append, parseLoop, if_neg hseparator] at h
        obtain ⟨⟨taken, next⟩, hread, h⟩ := bind_eq_ok.1 h
        have hsame := plain_option hoption hread
        obtain ⟨read, hread, hle⟩ :=
          plain_parseLoop ((passthrough_parseWord hread).trans hbehind) h
        have hsplit := List.take_append_drop taken (words ++ rest)
        have hbound := hmost words ((words ++ rest).take taken ++ read)
          (List.suffix_cons word words) (by
            rcases hread with hread | ⟨hread, hend⟩
            · left
              rw [List.append_assoc, ← hread, hsplit]
            · exact Or.inr ⟨by rw [← hread, hsplit], hend⟩)
        rw [plainWords_append] at hbound
        omega
    | false =>
      obtain ⟨hdashes, -, hplain⟩ := @parseWord_plain state (words ++ rest) word hoption
      have hseparator : word ≠ "--" := by
        rintro rfl
        cases hdashes
      rw [parsePlain_command hvalid hspec hpath hnone hword] at hplain
      rw [List.cons_append, parseLoop_cons hseparator hplain, List.drop_zero] at h
      have hzero : state.positionals.length = 0 := by rw [hnone]; rfl
      rw [hzero] at hoption
      refine ⟨hoption, @ih (state.through [command]) hspec ?_ hnone hbehind ?_ ?_ h⟩
      · show spec.IsPath ((state.commands ++ [command]) ++ commands)
        rwa [List.append_assoc]
      · intro front read hfront
        exact hmost front read (hfront.trans (List.suffix_cons word words))
      · rw [hdone]
        simp only [plain, through, List.length_append, List.length_singleton]
        omega

/-! ## Parsing what was rendered -/

/-- The loop takes the words to the innermost of the commands. -/
def Reaches (spec : CliSpec) (commands : List CommandSpec) (words : List String) : Prop :=
  ∃ done, spec.start.parseLoop words = .ok done ∧ done.state.toScope = ⟨spec, commands⟩

theorem reaches_iff (hvalid : spec.validate = .ok ()) (hpath : spec.IsPath commands)
    (hwords : Spells commands words) :
    Reaches spec commands words ↔ (Scope.mk spec []).ReadsCommands commands words := by
  constructor
  · rintro ⟨done, hloop, hscope⟩
    obtain ⟨read, hread, hle⟩ := plain_parseLoop rfl hloop
    have hcommands : done.state.commands = commands := congrArg Scope.commands hscope
    have hzero : done.state.positionals.length = 0 := by
      have hshort : plainWords read ≤ words.length := by
        rcases hread with hread | ⟨hread, -⟩
        · rw [hread, List.length_append]
          exact (plainWords_le_length read).trans (Nat.le_add_right _ _)
        · rw [hread]
          exact plainWords_le_length read
      have hstart : spec.start.plain = 0 := rfl
      have hlength := hwords.length_eq
      rw [plain, hcommands] at hle
      omega
    refine @readsCommands_of_parseLoop spec spec.start commands words [] done 0 hvalid rfl hpath
      rfl rfl hwords ?_ ?_ (by rwa [List.append_nil])
    · intro front read _ hread
      rw [List.append_nil] at hread
      rcases hread with hread | ⟨hread, -⟩
      · rw [hread, List.length_append]
        exact (plainWords_le_length read).trans (Nat.le_add_right _ _)
      · rw [hread]
        exact plainWords_le_length read
    · rw [plain, hcommands, hzero]
      exact (Nat.zero_add _).symm
  · intro hreads
    have hloop := @parseLoop_commands spec spec.start commands words [] hvalid rfl hpath rfl
      hwords hreads
    rw [List.append_nil, parseLoop] at hloop
    exact ⟨_, hloop, rfl⟩

theorem plainWords_options (options : List ParsedOption) :
    plainWords (options.map ParsedOption.word) = 0 := by
  refine List.countP_eq_zero.2 fun word hmem => ?_
  obtain ⟨parsed, -, rfl⟩ := List.mem_map.1 hmem
  unfold ParsedOption.word
  split
  · rw [stripDashes_dashes]
    exact Bool.false_ne_true
  · rw [String.append_assoc, String.append_assoc, stripDashes_dashes]
    exact Bool.false_ne_true

/-- What the loop makes of everything behind the words for commands. -/
theorem parseLoop_tailWords {parsed : ParsedCli} (hvalid : spec.validate = .ok ())
    (hobeys : parsed.Obeys ⟨spec, commands⟩) (hrenders : parsed.Renders ⟨spec, commands⟩) :
    (spec.start.through commands).parseLoop parsed.tailWords =
      .ok ⟨⟨⟨spec, commands⟩, parsed.commandPath, parsed.options, parsed.positionals,
        parsed.passthrough⟩, true⟩ := by
  have hnames (option : OptionSpec) (hmem : option ∈ (Scope.mk spec commands).visibleOptions) :
      option.long ≠ "" ∧ '=' ∉ option.long.toList := by
    obtain ⟨_, _, _, _, hchecked⟩ := validateOption_of_validate hvalid hobeys.path hmem
    exact name_of_validateOption hchecked
  have hoptions := @parseLoop_options (spec.start.through commands)
    (parsed.positionals ++ "--" :: parsed.passthrough) parsed.options
    (nodup_longs_of_validate hvalid hobeys.path)
    hnames hobeys.options
    hrenders.valueless
  have hpositionals := @parseLoop_positionals
    { spec.start.through commands with options := parsed.options } ("--" :: parsed.passthrough)
    parsed.positionals hrenders.positionals (fun _ => hrenders.first) hobeys.positionals
  rw [ParsedCli.tailWords, List.append_assoc, hoptions]
  refine hpositionals.trans ?_
  rw [parseLoop, if_pos rfl, hobeys.commandPath]
  rfl

/-- The words for the commands lead there, and a command line rendered with them is parsed back,
exactly when none of them reads as an option. -/
theorem parse_render_iff (hvalid : spec.validate = .ok ()) (hpath : spec.IsPath commands)
    (hwords : Spells commands words) :
    (Reaches spec commands words ↔ (Scope.mk spec []).ReadsCommands commands words) ∧
      ∀ parsed : ParsedCli, parsed.Obeys ⟨spec, commands⟩ →
        (Scope.mk spec commands).DeclaredCommandsPresent → parsed.Renders ⟨spec, commands⟩ →
        (CliParser.parse spec ⟨parsed.render words⟩ = .ok parsed ↔
          (Scope.mk spec []).ReadsCommands commands words) := by
  refine ⟨reaches_iff hvalid hpath hwords, ?_⟩
  intro parsed hobeys hpresent hrenders
  have hparse : CliParser.parse spec ⟨parsed.render words⟩ =
      spec.start.parseLoop (words ++ parsed.tailWords) >>= fun done => done.state.finish := by
    rw [CliParser.parse, hvalid]
    rfl
  rw [hparse]
  constructor
  · intro h
    obtain ⟨done, hloop, hfinish⟩ := bind_eq_ok.1 h
    have hproper := proper_parseLoop hvalid (proper_start spec) hloop
    have hdone : parsed = ⟨done.state.commandPath, done.state.options, done.state.positionals,
        done.state.passthrough⟩ := by
      unfold finish at hfinish
      split at hfinish
      · obtain ⟨_, _, hfinish⟩ := bind_eq_ok.1 hfinish
        obtain ⟨_, _, hfinish⟩ := bind_eq_ok.1 hfinish
        obtain ⟨_, _, hfinish⟩ := bind_eq_ok.1 hfinish
        cases hfinish
        rfl
      · cases hfinish
        rfl
    have hlength : done.state.commands.length = commands.length := by
      have hnames := hobeys.commandPath
      rw [hdone] at hnames
      have hsame := congrArg List.length (hproper.names.symm.trans hnames)
      rwa [List.length_map, List.length_map] at hsame
    refine @readsCommands_of_parseLoop spec spec.start commands words parsed.tailWords done
      parsed.positionals.length hvalid rfl hpath rfl rfl hwords ?_ ?_ hloop
    · -- the words before the separator, of which those of options are not plain
      intro front read _ hread
      have hbehind : done.state.passthrough = parsed.passthrough := by rw [hdone]
      rw [hbehind, ParsedCli.tailWords, ← List.append_assoc] at hread
      have hcount : plainWords read ≤
          plainWords (front ++ (parsed.options.map ParsedOption.word ++ parsed.positionals)) := by
        rcases hread with hread | ⟨hread, hend⟩
        · rw [List.append_cancel_right hread]
        · rw [← hread, plainWords_append _ ("--" :: _), hend]
          exact Nat.le_refl _
      rw [plainWords_append, plainWords_append, plainWords_options] at hcount
      have hfront := plainWords_le_length front
      have hpositionals := plainWords_le_length parsed.positionals
      omega
    · rw [plain, hlength, hdone]
      exact congrArg (· + _) (Nat.zero_add _).symm
  · intro hreads
    have hloop := @parseLoop_commands spec spec.start commands words parsed.tailWords hvalid rfl
      hpath rfl hwords hreads
    rw [hloop, parseLoop_tailWords hvalid hobeys hrenders, ok_bind]
    exact @finish_obeys ⟨⟨spec, commands⟩, parsed.commandPath, parsed.options, parsed.positionals,
      parsed.passthrough⟩ hobeys hpresent

theorem present_of_not_required (hroot : spec.commandRequired = false)
    (hcommands : ∀ command ∈ commands, command.commandRequired = false) :
    (Scope.mk spec commands).DeclaredCommandsPresent := by
  intro before after hsplit hrequired
  change commands = before ++ after at hsplit
  exfalso
  unfold Scope.commandRequired at hrequired
  cases hlast : before.getLast? with
  | none =>
    rw [hlast] at hrequired
    exact absurd hrequired (by simpa using hroot)
  | some command =>
    rw [hlast] at hrequired
    have hmem : command ∈ commands := by
      rw [hsplit]
      exact List.mem_append_left _ (List.mem_of_getLast? hlast)
    exact absurd hrequired (by simpa using hcommands command hmem)

/-- A program with a setting for all its commands, and one command with a short name. -/
def settingSpec : CliSpec where
  name := "demo"
  options := [{
    long := "set"
    value := .required }]
  commands := [{
    name := "run"
    aliases := ["r"]
    arguments := [{ name := "mode" }] }]

/-- `r --set=a=--b fast -- --` is parsed back, with the command under its name. -/
theorem parse_render_setting :
    CliParser.parse settingSpec ⟨["r", "--set=a=--b", "fast", "--", "--"]⟩ =
      .ok ⟨["run"], [⟨"set", some "a=--b"⟩], ["fast"], ["--"]⟩ := by
  have hvalid : settingSpec.validate = .ok () := by rfl
  have hpath : settingSpec.IsPath settingSpec.commands := ⟨List.mem_cons_self, trivial⟩
  have hwords : Spells settingSpec.commands ["r"] := .cons (by decide) .nil
  let parsed : ParsedCli := ⟨["run"], [⟨"set", some "a=--b"⟩], ["fast"], ["--"]⟩
  have hobeys : parsed.Obeys ⟨settingSpec, settingSpec.commands⟩ := by
    refine ⟨hpath, rfl, ?_, ?_, ?_, ?_, ?_, ?_⟩
    · intro option hoption
      obtain rfl := List.mem_singleton.1 hoption
      refine ⟨_, List.mem_cons_self, rfl, ⟨?_, ?_, ?_⟩, fun _ => rfl⟩
      · intro hmode
        cases hmode
      · exact fun _ => Option.some_ne_none _
      · exact fun v _ => ⟨rfl, fun hne => absurd rfl hne⟩
    · intro index value hvalue
      cases index with
      | zero => exact ⟨_, rfl, rfl, fun hne => absurd rfl hne⟩
      | succ index => cases hvalue
    · intro index argument hargument hrequired
      cases index with
      | zero => exact Nat.zero_lt_one
      | succ index => cases hargument
    · intro option hoption hrequired
      obtain rfl := List.mem_singleton.1 hoption
      cases hrequired
    · intro option hoption _ other hother
      obtain rfl := List.mem_singleton.1 hoption
      cases hother
    · intro option hoption _ other hother
      obtain rfl := List.mem_singleton.1 hoption
      cases hother
  have hpresent : (Scope.mk settingSpec settingSpec.commands).DeclaredCommandsPresent := by
    refine present_of_not_required rfl fun command hcommand => ?_
    obtain rfl := List.mem_singleton.1 hcommand
    rfl
  have hrenders : parsed.Renders ⟨settingSpec, settingSpec.commands⟩ := by
    refine ⟨?_, ?_, ?_⟩
    · intro word _ command hcommand
      cases hcommand
    · decide
    · intro option hoption hnone
      obtain rfl := List.mem_singleton.1 hoption
      cases hnone
  exact ((parse_render_iff hvalid hpath hwords).2 parsed hobeys hpresent hrenders).2
    ⟨by decide, trivial⟩

/-- A program with one command, called `-v`. -/
def dashedSpec : CliSpec where
  name := "demo"
  commands := [{ name := "-v" }]

/-- `dashedSpec` is valid, and its command cannot be reached: the word reads as a bundle of short
options. -/
theorem dashed_command_unread :
    ¬ ∀ (spec : CliSpec) (commands : List CommandSpec) (words : List String),
      spec.validate = .ok () → spec.IsPath commands → Spells commands words →
      Reaches spec commands words ∧
        ∀ parsed : ParsedCli, parsed.Obeys ⟨spec, commands⟩ →
          (Scope.mk spec commands).DeclaredCommandsPresent → parsed.Renders ⟨spec, commands⟩ →
          CliParser.parse spec ⟨parsed.render words⟩ = .ok parsed := by
  intro h
  have hvalid : dashedSpec.validate = .ok () := by rfl
  have hpath : dashedSpec.IsPath dashedSpec.commands := ⟨List.mem_cons_self, trivial⟩
  have hwords : Spells dashedSpec.commands ["-v"] := .cons (by decide) .nil
  have hrefused : dashedSpec.start.parseWord "-v" ["--"] =
      .error ⟨.unknownOption, "unknown option `-v`"⟩ := by rfl
  have hparse : CliParser.parse dashedSpec ⟨["-v", "--"]⟩ =
      .error ⟨.unknownOption, "unknown option `-v`"⟩ := by
    rw [CliParser.parse, hvalid]
    show dashedSpec.start.parseLoop ["-v", "--"] >>= _ = _
    rw [parseLoop_error (by decide) hrefused]
    rfl
  have hback := (h dashedSpec dashedSpec.commands ["-v"] hvalid hpath hwords).2
    ⟨["-v"], [], [], []⟩ ?_ ?_ ?_
  · have hrendered : (ParsedCli.mk ["-v"] [] [] []).render ["-v"] = ["-v", "--"] := rfl
    rw [hrendered, hparse] at hback
    cases hback
  · refine ⟨hpath, rfl, ?_, ?_, ?_, ?_, ?_, ?_⟩
    · intro option hoption
      cases hoption
    · intro index value hvalue
      cases hvalue
    · intro index argument hargument
      cases hargument
    · intro option hoption
      cases hoption
    · intro option hoption
      cases hoption
    · intro option hoption
      cases hoption
  · refine present_of_not_required rfl fun command hcommand => ?_
    obtain rfl := List.mem_singleton.1 hcommand
    rfl
  · refine ⟨?_, ?_, ?_⟩
    · intro word hword
      cases hword
    · intro word hword
      cases hword
    · intro option hoption
      cases hoption

end AppCore
