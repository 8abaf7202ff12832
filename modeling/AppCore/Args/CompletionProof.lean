import AppCore.Args.Completion
import AppCore.Args.ParserProof

/-!
# Completion against the parser

Both scanners keep the same commands, option names and count of positionals. Completion is behind
by one thing: it does not know that an optional option may take the next word as its value. It reads
that word as one more word of the command line, and agrees with the parser exactly when this
changes nothing.

* `agrees_iff` — completion agrees on every front of a line exactly when the line is read alike.
-/

namespace AppCore

open ParseState

variable {state next : ParseState} {option : OptionSpec} {inline : Option String} {short : Bool}
  {following : List String} {word : String} {taken : Nat} {e : CliError}

/-- What completion should know where the parser stands. -/
def ParseState.context (state : ParseState) : CompletionContext where
  toScope := state.toScope
  usedOptions := (state.options.map ParsedOption.name).toFinset
  positionals := state.positionals.length

theorem mem_usedOptions {name : String} :
    name ∈ state.context.usedOptions ↔ state.isPresent name = true := by
  simp [context, isPresent_iff]

/-! ## One option -/

/-- How many words the value of an option takes. -/
theorem taken_of_optionValue {value : Option String}
    (h : optionValue following inline option short = .ok (value, taken)) :
    taken = (if option.awaits inline || (option.detached inline following).isSome then 1 else 0) ∧
      (option.awaits inline = true → following ≠ []) := by
  unfold optionValue at h
  unfold OptionSpec.awaits OptionSpec.detached
  cases hmode : option.value with
  | forbidden =>
    simp only [hmode] at h
    split at h
    · cases h
    · cases h
      simp
  | required =>
    simp only [hmode] at h
    cases inline with
    | some v =>
      cases h
      simp
    | none =>
      cases following with
      | nil => cases h
      | cons v following =>
        cases h
        simp
  | optional =>
    simp only [hmode, optionalValue] at h
    cases inline with
    | some v =>
      cases h
      simp
    | none =>
      cases hdetached : option.detachedOptionalValue with
      | false =>
        rw [hdetached] at h
        cases h
        simp
      | true =>
        rw [hdetached] at h
        cases following with
        | nil =>
          cases h
          simp
        | cons v following =>
          by_cases hadmits : Admits option.valueType option.possibleValues v
          · have hok : (option.admits v).isOk = true := by
              rw [admits_eq_ok.2 hadmits]
              rfl
            simp only [List.head?_cons, hok] at h
            cases h
            simp [hadmits]
          · have hfails : (option.admits v).isOk = false := by
              cases hvalue : option.admits v with
              | error e => rfl
              | ok => exact absurd (admits_eq_ok.1 hvalue) hadmits
            simp only [List.head?_cons, hfails] at h
            cases h
            simp [hadmits]

theorem of_readOption (h : state.readOption following option inline short = .ok (taken, next)) :
    next.context = { state.context with
        usedOptions := insert option.long state.context.usedOptions } ∧
      taken = (if option.awaits inline || (option.detached inline following).isSome
        then 1 else 0) ∧
      (option.awaits inline = true → following ≠ []) := by
  obtain ⟨⟨value, taken⟩, hvalue, h⟩ := bind_eq_ok.1 h
  obtain ⟨pushed, hpush, h⟩ := bind_eq_ok.1 h
  cases h
  obtain ⟨rfl, -, -⟩ := of_pushOption hpush
  refine ⟨?_, taken_of_optionValue hvalue⟩
  have hused : ((state.options ++ [ParsedOption.mk option.long value]).map ParsedOption.name).toFinset =
      insert option.long (state.options.map ParsedOption.name).toFinset := by
    ext name
    simp
  simp only [context, hused]

/-- The one error of this kind is that of an option at the end of the line. -/
theorem missingValue_of_readOption
    (h : state.readOption following option inline short = .error e) (hkind : e.kind = .missingValue) :
    option.awaits inline = true ∧ following = [] ∧ e = option.missingValue := by
  unfold readOption at h
  cases hvalue : optionValue following inline option short with
  | error e' =>
    rw [hvalue] at h
    cases h
    unfold optionValue at hvalue
    cases hmode : option.value with
    | forbidden =>
      simp only [hmode] at hvalue
      split at hvalue
      · cases hvalue
        cases hkind
      · cases hvalue
    | optional => simp [hmode] at hvalue
    | required =>
      simp only [hmode] at hvalue
      cases inline with
      | some v => cases hvalue
      | none =>
        cases following with
        | nil =>
          cases hvalue
          simp [OptionSpec.awaits, hmode]
        | cons v following => cases hvalue
  | ok read =>
    obtain ⟨value, taken⟩ := read
    rw [hvalue] at h
    change (state.pushOption option value >>= fun pushed => .ok (taken, pushed)) = _ at h
    unfold pushOption at h
    split at h
    · cases h
      cases hkind
    · cases value with
      | none => cases h
      | some v =>
        cases hchecked : option.admits v with
        | error e' =>
          simp only [OptionSpec.admitsEach, hchecked] at h
          cases h
          have := kind_of_validateValue hchecked
          rw [hkind] at this
          cases this
        | ok => 
          simp only [OptionSpec.admitsEach, hchecked] at h
          cases h

/-- At the end of the line an option that does without the next word has the value it had, or
none. -/
theorem optionValue_nil {value : Option String}
    (h : optionValue following inline option short = .ok (value, taken))
    (hawaits : option.awaits inline = false) :
    ∃ value', optionValue [] inline option short = .ok (value', 0) ∧
      (value' = value ∨ value' = none) := by
  unfold OptionSpec.awaits at hawaits
  unfold optionValue at h ⊢
  cases hmode : option.value with
  | forbidden =>
    simp only [hmode] at h ⊢
    split at h
    · cases h
    next hno =>
      cases h
      exact ⟨none, if_neg hno, .inl rfl⟩
  | required =>
    simp only [hmode] at h ⊢
    cases inline with
    | some v =>
      cases h
      exact ⟨some v, rfl, .inl rfl⟩
    | none => simp [hmode] at hawaits
  | optional =>
    simp only [hmode] at h ⊢
    cases inline with
    | some v =>
      cases h
      exact ⟨some v, rfl, .inl rfl⟩
    | none =>
      refine ⟨none, ?_, .inr rfl⟩
      simp [optionalValue]

theorem pushOption_none {value : Option String} (h : state.pushOption option value = .ok next) :
    ∃ next', state.pushOption option none = .ok next' := by
  unfold pushOption at h ⊢
  split at h
  · cases h
  next hnew => exact ⟨_, if_neg hnew⟩

/-- An option read at the end of the line: it lacks its required value, or it does without. -/
theorem readOption_nil (h : state.readOption following option inline short = .ok (taken, next)) :
    (option.awaits inline = true →
      state.readOption [] option inline short = .error option.missingValue) ∧
    (option.awaits inline = false →
      ∃ next', state.readOption [] option inline short = .ok (0, next')) := by
  constructor
  · intro hawaits
    unfold OptionSpec.awaits at hawaits
    rw [Bool.and_eq_true, decide_eq_true_eq, Option.isNone_iff_eq_none] at hawaits
    obtain ⟨hmode, rfl⟩ := hawaits
    have hvalue : optionValue [] none option short = .error option.missingValue := by
      simp [optionValue, hmode]
    rw [readOption, hvalue]
    rfl
  · intro hawaits
    obtain ⟨⟨value, taken⟩, hvalue, h⟩ := bind_eq_ok.1 h
    obtain ⟨pushed, hpush, h⟩ := bind_eq_ok.1 h
    obtain ⟨value', hnil, hsame⟩ := optionValue_nil hvalue hawaits
    have hpushed : ∃ next', state.pushOption option value' = .ok next' := by
      rcases hsame with rfl | rfl
      · exact ⟨pushed, hpush⟩
      · exact pushOption_none hpush
    obtain ⟨next', hnext'⟩ := hpushed
    refine ⟨next', ?_⟩
    rw [readOption, hnil, ok_bind]
    dsimp only
    rw [hnext', ok_bind]

/-! ## One option word -/

/-- The context behind an option word that names `options` and waits for `pending`. -/
def CompletionContext.see (context : CompletionContext) (options : List OptionSpec)
    (pending : Option OptionSpec) : CompletionContext :=
  { context with
    usedOptions := (options.map OptionSpec.long).toFinset ∪ context.usedOptions
    pendingValue := pending }

theorem see_nil {context : CompletionContext} (hpending : context.pendingValue = none) :
    context.see [] none = context := by
  cases context
  simp_all [CompletionContext.see]

theorem see_cons (context : CompletionContext) (options : List OptionSpec)
    (pending : Option OptionSpec) :
    CompletionContext.see { context with usedOptions := insert option.long context.usedOptions }
      options pending = context.see (option :: options) pending := by
  have hused : (options.map OptionSpec.long).toFinset ∪ insert option.long context.usedOptions =
      ((option :: options).map OptionSpec.long).toFinset ∪ context.usedOptions := by
    ext name
    simp
  simp only [CompletionContext.see, hused]

theorem see_singleton (context : CompletionContext) (pending : Option OptionSpec) :
    context.see [option] pending =
      { context with
        usedOptions := insert option.long context.usedOptions
        pendingValue := pending } := by
  have hused : ([option].map OptionSpec.long).toFinset ∪ context.usedOptions =
      insert option.long context.usedOptions := by
    ext name
    simp
  simp only [CompletionContext.see, hused]

theorem tail_of_isShortOption (h : isShortOption word = true) :
    word.toList.dropWhile (· == '-') = word.toList.tail := by
  unfold isShortOption at h
  split at h
  · cases h
  · cases h
  next rest hdash htwo hword =>
    rw [hword, List.dropWhile_cons_of_pos (by rfl), List.tail_cons]
    cases rest with
    | nil => rfl
    | cons c rest =>
      refine List.dropWhile_cons_of_neg fun hc => ?_
      rw [beq_iff_eq] at hc
      subst hc
      exact htwo rest rfl
  · cases h

/-- The option of a bundle that needs the next word. -/
def Scope.bundleAwaits (scope : Scope) (raw : List Char) : Option OptionSpec :=
  (scope.bundleValued raw).bind fun (option, inline) =>
    if option.awaits inline then some option else none

theorem isNone_remainder (rest : List Char) : (remainder rest).isNone = rest.isEmpty := by
  unfold remainder
  split
  · rfl
  · rfl
  next hne _ =>
    cases rest with
    | nil => exact absurd rfl hne
    | cons c rest => rfl

theorem consumeShort_eq {context : CompletionContext} (raw : List Char)
    (hpending : context.pendingValue = none) :
    context.consumeShort raw =
      context.see (context.bundleOptions raw) (context.bundleAwaits raw) := by
  induction raw generalizing context with
  | nil => exact (see_nil hpending).symm
  | cons c rest ih =>
    unfold CompletionContext.consumeShort Scope.bundleAwaits Scope.bundleOptions
      Scope.bundleValued
    cases hfind : context.findShortOption c with
    | none => exact (see_nil hpending).symm
    | some option =>
      by_cases hmode : option.value = .forbidden
      · simp only [hmode, ne_eq, not_true_eq_false, if_false]
        rw [← see_cons]
        exact ih hpending
      · simp only [ne_eq, hmode, not_false_eq_true, if_true, Option.bind_some, see_singleton,
          OptionSpec.awaits, isNone_remainder, Bool.and_comm]
        split
        · rfl
        · rw [hpending]

/-- Completion at an option word, when it does not wait for a value. -/
theorem consume_option (context : CompletionContext) (hpending : context.pendingValue = none)
    (hseparator : word ≠ "--") (hoption : context.isOption context.positionals word = true) :
    context.consume word =
      (false, context.see (context.namedOptions word) (context.awaits word)) := by
  unfold CompletionContext.consume Scope.namedOptions Scope.awaits Scope.valued
  unfold Scope.isOption at hoption
  simp only [hpending, if_neg hseparator]
  cases hdashes : stripDashes word with
  | some raw =>
    unfold CompletionContext.consumeLong
    dsimp only
    cases hfind : context.findLongOption (splitInline raw).1 with
    | none => rw [Option.toList_none, Option.map_none, Option.bind_none, see_nil hpending]
    | some option =>
      simp only [Option.toList_some, Option.map_some, Option.bind_some, see_singleton,
        OptionSpec.awaits, hpending]
      rfl
  | none =>
    simp only [hdashes, Option.isSome_none, Bool.false_or] at hoption
    rw [if_pos hoption]
    rw [Bool.and_eq_true] at hoption
    rw [tail_of_isShortOption hoption.1, consumeShort_eq _ hpending]
    rfl

/-! ## The parser at an option word -/

theorem awaits_of_forbidden (h : option.value = .forbidden) : option.awaits inline = false := by
  simp [OptionSpec.awaits, h]

theorem readOption_forbidden (hmode : option.value = .forbidden) :
    state.readOption following option inline short = state.readOption [] option inline short := by
  simp [readOption, optionValue, hmode]

theorem see_append (context : CompletionContext) (first second : List OptionSpec)
    (pending : Option OptionSpec) :
    (context.see first none).see second pending = context.see (first ++ second) pending := by
  have hused : (second.map OptionSpec.long).toFinset ∪
      ((first.map OptionSpec.long).toFinset ∪ context.usedOptions) =
      ((first ++ second).map OptionSpec.long).toFinset ∪ context.usedOptions := by
    ext name
    simp [or_left_comm]
  simp only [CompletionContext.see, hused]

variable {mid : ParseState} {flags : List OptionSpec}

/-- `mid` is `state` behind some flags. -/
structure Flagged (state mid : ParseState) (flags : List OptionSpec) : Prop where
  commandPath : mid.commandPath = state.commandPath
  positionals : mid.positionals = state.positionals
  context : mid.context = state.context.see flags none
  flags : ∀ flag ∈ flags, flag ∈ state.visibleOptions ∧ flag.value = .forbidden

theorem flagged_nil (state : ParseState) : Flagged state state [] :=
  ⟨rfl, rfl, (see_nil rfl).symm, by simp⟩

theorem pushed_of_readOption
    (h : state.readOption following option inline short = .ok (taken, next)) :
    ∃ value, next = { state with options := state.options ++ [⟨option.long, value⟩] } := by
  obtain ⟨⟨value, count⟩, -, h⟩ := bind_eq_ok.1 h
  obtain ⟨pushed, hpush, h⟩ := bind_eq_ok.1 h
  cases h
  exact ⟨value, (of_pushOption hpush).1⟩

theorem Flagged.cons (hmem : option ∈ state.visibleOptions) (hmode : option.value = .forbidden)
    (h : state.readOption following option inline short = .ok (taken, next))
    (hflagged : Flagged next mid flags) : Flagged state mid (option :: flags) := by
  have hcontext := (of_readOption h).1
  obtain ⟨value, rfl⟩ := pushed_of_readOption h
  refine ⟨hflagged.commandPath, hflagged.positionals, ?_, ?_⟩
  · rw [hflagged.context, hcontext]
    exact see_cons _ _ _
  · intro flag hflag
    rcases List.mem_cons.1 hflag with rfl | hflag
    · exact ⟨hmem, hmode⟩
    · exact hflagged.flags flag hflag

/-- What the parser makes of an option word, whatever stands behind it: it refuses it, or the word
is one of flags, or behind flags comes an option that may have a value. -/
inductive ReadsWord (state : ParseState) (named : List OptionSpec)
    (valued : Option (OptionSpec × Option String))
    (read : List String → Except CliError (Nat × ParseState)) : Prop where
  | refused (e : CliError) (hkind : e.kind ≠ .missingValue)
      (hread : ∀ following, read following = .error e)
  | flags (mid : ParseState) (hmid : Flagged state mid named) (hvalued : valued = none)
      (hread : ∀ following, read following = .ok (0, mid))
  | valued (mid : ParseState) (flags : List OptionSpec) (option : OptionSpec)
      (inline : Option String) (short : Bool) (hmid : Flagged state mid flags)
      (hnamed : named = flags ++ [option]) (hvalued : valued = some (option, inline))
      (hmem : option ∈ state.visibleOptions)
      (hread : ∀ following, read following = mid.readOption following option inline short)

theorem readsWord_parseShortOptions (raw : List Char) :
    ReadsWord state (state.bundleOptions raw) (state.bundleValued raw)
      fun following => state.parseShortOptions following raw := by
  induction raw generalizing state with
  | nil => exact .flags state (flagged_nil state) rfl fun _ => rfl
  | cons c rest ih =>
    unfold Scope.bundleOptions Scope.bundleValued parseShortOptions
    cases hfind : state.findShortOption c with
    | none => exact .refused _ (by simp) fun _ => rfl
    | some found =>
      have hmem := Scope.mem_of_findShortOption hfind
      by_cases hmode : found.value = .forbidden
      · simp only [hmode, ne_eq, not_true_eq_false, if_false,
          fun following => @readOption_forbidden state found (remainder rest) true following hmode]
        cases hone : state.readOption [] found (remainder rest) true with
        | error e =>
          refine .refused e (fun hkind => ?_) fun _ => rfl
          have hawaits := (missingValue_of_readOption hone hkind).1
          rw [awaits_of_forbidden hmode] at hawaits
          cases hawaits
        | ok read =>
          obtain ⟨count, pushed⟩ := read
          have hflag := fun mid flags => @Flagged.cons state pushed found (remainder rest) true []
            count mid flags hmem hmode hone
          -- an option that is pushed leaves the scope as it was
          obtain ⟨value, rfl⟩ := pushed_of_readOption hone
          cases @ih { state with options := state.options ++ [⟨found.long, value⟩] } with
          | refused e hkind hread => exact .refused e hkind hread
          | flags mid hmid hvalued hread => exact .flags mid (hflag _ _ hmid) hvalued hread
          | valued mid flags option inline short hmid hnamed hvalued hvisible hread =>
            exact .valued mid _ option inline short (hflag _ _ hmid)
              (congrArg (found :: ·) hnamed) hvalued hvisible hread
      · simp only [ne_eq, hmode, not_false_eq_true, if_true]
        refine .valued state [] found (remainder rest) true (flagged_nil state) rfl rfl hmem
          fun following => ?_
        cases state.readOption following found (remainder rest) true with
        | error e => rfl
        | ok read => rfl

/-- What the parser does with an option word that it accepts, given the options named in it, the one
that needs the next word and the optional value found there. -/
structure ReadsOptions (state next : ParseState) (following : List String) (taken : Nat)
    (options : List OptionSpec) (awaited : Option OptionSpec) (detached : Option String) : Prop where
  context : next.context = state.context.see options none
  taken : taken = if awaited.isSome || detached.isSome then 1 else 0
  follows : awaited.isSome = true → following ≠ []

theorem readsOptions_of_readOption
    (h : state.readOption following option inline short = .ok (taken, next)) :
    ReadsOptions state next following taken [option]
      (if option.awaits inline then some option else none) (option.detached inline following) := by
  obtain ⟨hcontext, htaken, hfollows⟩ := of_readOption h
  refine ⟨?_, ?_, ?_⟩
  · rw [hcontext, see_singleton]
    rfl
  · rw [htaken]
    cases option.awaits inline with
    | false => rfl
    | true => rfl
  · intro hsome
    apply hfollows
    by_contra hno
    rw [if_neg hno] at hsome
    cases hsome

/-! ## One word -/

theorem isOption_iff {scope : Scope} {positionals : Nat} :
    scope.isOption positionals word = true ↔ (∃ raw, stripDashes word = some raw) ∨
      (stripDashes word = none ∧
        (isShortOption word && !scope.acceptsNegativePositional positionals word) = true) := by
  unfold Scope.isOption
  cases stripDashes word with
  | some raw => simp
  | none => simp

theorem readsWord_parseWord (hoption : state.isOption state.positionals.length word = true) :
    ReadsWord state (state.namedOptions word) (state.valued word) (state.parseWord word) := by
  unfold Scope.namedOptions Scope.valued
  rcases isOption_iff.1 hoption with ⟨raw, hdashes⟩ | ⟨hdashes, hshort⟩
  · have hword : state.parseWord word = state.parseLongOption raw := by
      funext following
      rw [parseWord, hdashes]
    rw [hword, hdashes]
    unfold parseLongOption
    by_cases hname : (splitInline raw).1.isEmpty = true
    · simp only [hname, if_true]
      exact .refused _ (by simp) fun _ => rfl
    · simp only [hname, Bool.false_eq_true, if_false]
      cases hfind : state.findLongOption (splitInline raw).1 with
      | none => exact .refused _ (by simp) fun _ => rfl
      | some found =>
        exact .valued state [] found (splitInline raw).2 false (flagged_nil state) rfl rfl
          (Scope.of_findLongOption hfind).1 fun _ => rfl
  · have hword : state.parseWord word =
        fun following => state.parseShortOptions following word.toList.tail := by
      funext following
      simp only [parseWord, hdashes, hshort, if_true]
    rw [hword, hdashes]
    exact readsWord_parseShortOptions word.toList.tail

/-- An option word that the parser accepts. -/
theorem readsOptions_parseWord (hoption : state.isOption state.positionals.length word = true)
    (h : state.parseWord word following = .ok (taken, next)) :
    ReadsOptions state next following taken (state.namedOptions word) (state.awaits word)
      (state.detached word following) := by
  unfold Scope.awaits Scope.detached
  cases readsWord_parseWord hoption with
  | refused e hkind hread =>
    rw [hread] at h
    cases h
  | flags mid hmid hvalued hread =>
    rw [hread] at h
    cases h
    rw [hvalued]
    exact ⟨hmid.context, rfl, nofun⟩
  | valued mid flags option inline short hmid hnamed hvalued hvisible hread =>
    rw [hread] at h
    rw [hnamed, hvalued]
    obtain ⟨hcontext, htaken, hfollows⟩ := readsOptions_of_readOption h
    refine ⟨?_, htaken, hfollows⟩
    rw [hcontext, hmid.context, see_append]

/-- A word that is not an option is a command or a positional. -/
def ParseState.parsePlain (state : ParseState) (word : String) : Except CliError (Nat × ParseState) :=
  match if state.positionals.isEmpty then state.enterCommand word else none with
  | some state => .ok (0, state)
  | none => do
      let state ← state.pushPositional word
      .ok (0, state)

theorem parseWord_plain (hoption : state.isOption state.positionals.length word = false) :
    stripDashes word = none ∧
      (isShortOption word && !state.acceptsNegativePositional state.positionals.length word) =
        false ∧
      state.parseWord word following = state.parsePlain word := by
  rw [← Bool.not_eq_true, isOption_iff, not_or, not_exists, not_and] at hoption
  cases hdashes : stripDashes word with
  | some raw => exact absurd hdashes (hoption.1 raw)
  | none =>
    have hshort := Bool.eq_false_iff.2 (hoption.2 hdashes)
    refine ⟨rfl, hshort, ?_⟩
    unfold parseWord
    simp only [hdashes, hshort, Bool.false_eq_true, if_false]
    rfl

theorem of_pushPositional (h : state.pushPositional word = .ok next) :
    next = { state with positionals := state.positionals ++ [word] } := by
  unfold pushPositional at h
  split at h
  · split at h
    · cases h
    · cases h
  · obtain ⟨_, -, h⟩ := bind_eq_ok.1 h
    cases h
    rfl

theorem taken_of_parsePlain (h : state.parsePlain word = .ok (taken, next)) : taken = 0 := by
  unfold parsePlain at h
  split at h
  · cases h
    rfl
  · obtain ⟨pushed, -, h⟩ := bind_eq_ok.1 h
    cases h
    rfl

/-- A plain word is not refused for the want of a value. -/
theorem kind_of_parsePlain (h : state.parsePlain word = .error e) : e.kind ≠ .missingValue := by
  unfold parsePlain at h
  split at h
  · cases h
  · cases hpush : state.pushPositional word with
    | ok next =>
      rw [hpush] at h
      cases h
    | error e' =>
      rw [hpush] at h
      cases h
      unfold pushPositional at hpush
      split at hpush
      · split at hpush
        · cases hpush
          nofun
        · cases hpush
          nofun
      next argument _ =>
        cases hvalue : validateValue word argument.valueType argument.possibleValues
            argument.name with
        | error e' =>
          rw [hvalue] at hpush
          cases hpush
          rw [kind_of_validateValue hvalue]
          nofun
        | ok =>
          rw [hvalue] at hpush
          cases hpush

/-- A command or a positional, for either scanner. -/
theorem consume_plain (hoption : state.isOption state.positionals.length word = false)
    (hseparator : word ≠ "--") (h : state.parseWord word following = .ok (taken, next)) :
    taken = 0 ∧ state.context.consume word = (false, next.context) := by
  obtain ⟨hdashes, hshort, hplain⟩ := @parseWord_plain state following word hoption
  have hcontext : ¬ (isShortOption word && !state.context.acceptsNegativePositional
      state.context.positionals word) = true := Bool.eq_false_iff.1 hshort
  have hpending : state.context.pendingValue = none := rfl
  rw [hplain, parsePlain] at h
  unfold CompletionContext.consume
  simp only [hpending, hdashes, if_neg hseparator]
  rw [if_neg hcontext]
  have hpush (h : (do
      let state ← state.pushPositional word
      Except.ok (0, state)) = Except.ok (taken, next)) :
      taken = 0 ∧ next.context =
        { state.context with positionals := state.context.positionals + 1 } := by
    obtain ⟨pushed, hpushed, h⟩ := bind_eq_ok.1 h
    cases h
    rw [of_pushPositional hpushed]
    simp [context]
  by_cases hnone : state.positionals = []
  · have hzero : state.context.positionals = 0 := List.length_eq_zero_iff.2 hnone
    simp only [hnone, List.isEmpty_nil, if_true, enterCommand] at h
    rw [if_pos hzero]
    cases hfind : state.availableCommands.find? (·.matches word) with
    | some command =>
      have hfind' : state.context.availableCommands.find? (·.matches word) = some command := hfind
      simp only [hfind, Option.map_some] at h
      rw [hfind']
      cases h
      simp [context, hnone]
    | none =>
      have hfind' : state.context.availableCommands.find? (·.matches word) = none := hfind
      simp only [hfind, Option.map_none] at h
      rw [hfind']
      obtain ⟨rfl, hnext⟩ := hpush h
      rw [hnext]
      exact ⟨rfl, rfl⟩
  · have hzero : state.context.positionals ≠ 0 := fun hzero =>
      hnone (List.length_eq_zero_iff.1 hzero)
    have hempty : state.positionals.isEmpty = false := by simpa using hnone
    simp only [hempty, Bool.false_eq_true, if_false] at h
    rw [if_neg hzero]
    obtain ⟨rfl, hnext⟩ := hpush h
    rw [hnext]
    exact ⟨rfl, rfl⟩

/-- A word that the parser accepts takes completion to the same place, but for the value that the
word still lacks. -/
theorem consume_context (hseparator : word ≠ "--")
    (h : state.parseWord word following = .ok (taken, next)) :
    state.context.consume word =
        (false, { next.context with pendingValue := state.awaited word }) ∧
      taken = (if (state.awaited word).isSome || (state.detachedValue word following).isSome
        then 1 else 0) ∧
      ((state.awaited word).isSome = true → following ≠ []) := by
  unfold awaited detachedValue
  cases hoption : state.isOption state.positionals.length word with
  | true =>
    obtain ⟨hcontext, htaken, hfollows⟩ := readsOptions_parseWord hoption h
    refine ⟨?_, htaken, hfollows⟩
    have hconsume := consume_option state.context rfl hseparator hoption
    rw [hconsume, hcontext]
    rfl
  | false =>
    obtain ⟨rfl, hconsume⟩ := consume_plain hoption hseparator h
    exact ⟨hconsume, rfl, nofun⟩

/-- A word that lacks its required value leaves completion waiting for it. -/
theorem awaited_of_parseWord (h : state.parseWord word following = .error e)
    (hkind : e.kind = .missingValue) :
    ∃ option, state.awaited word = some option ∧ following = [] ∧ e = option.missingValue := by
  cases hoption : state.isOption state.positionals.length word with
  | true =>
    rw [awaited, hoption, if_pos rfl, Scope.awaits]
    cases readsWord_parseWord hoption with
    | refused e hother hread =>
      rw [hread] at h
      cases h
      exact absurd hkind hother
    | flags mid hmid hvalued hread =>
      rw [hread] at h
      cases h
    | valued mid flags option inline short hmid hnamed hvalued hvisible hread =>
      rw [hread] at h
      obtain ⟨hawaits, hnil, hmissing⟩ := missingValue_of_readOption h hkind
      exact ⟨option, by simp [hvalued, hawaits], hnil, hmissing⟩
  | false =>
    rw [(parseWord_plain hoption).2.2] at h
    exact absurd hkind (kind_of_parsePlain h)

/-- The same word at the end of the line. -/
theorem parseWord_nil (h : state.parseWord word following = .ok (taken, next)) :
    (∀ option, state.awaited word = some option →
      state.parseWord word [] = .error option.missingValue) ∧
    (state.awaited word = none → ∃ next', state.parseWord word [] = .ok (0, next')) := by
  cases hoption : state.isOption state.positionals.length word with
  | true =>
    rw [awaited, hoption, if_pos rfl, Scope.awaits]
    cases readsWord_parseWord hoption with
    | refused e hkind hread =>
      rw [hread] at h
      cases h
    | flags mid hmid hvalued hread =>
      rw [hvalued]
      exact ⟨nofun, fun _ => ⟨mid, hread []⟩⟩
    | valued mid flags found inline short hmid hnamed hvalued hvisible hread =>
      rw [hread] at h
      rw [hvalued, hread, Option.bind_some]
      dsimp only
      obtain ⟨hmissing, hnone⟩ := readOption_nil h
      refine ⟨fun option hsome => ?_, fun hno => hnone ?_⟩
      · obtain ⟨hawaits, heq⟩ := Option.ite_none_right_eq_some.1 hsome
        cases heq
        exact hmissing hawaits
      · by_contra hawaits
        rw [if_pos (Bool.not_eq_false _ ▸ hawaits)] at hno
        cases hno
  | false =>
    rw [awaited, hoption, if_neg Bool.false_ne_true]
    rw [(parseWord_plain hoption).2.2] at h
    refine ⟨fun option hsome => absurd hsome.symm (Option.some_ne_none option),
      fun _ => ⟨next, ?_⟩⟩
    rw [(parseWord_plain hoption).2.2, h, taken_of_parsePlain h]

/-- The parser looks at one word behind its own. -/
theorem parseWord_head {other : List String} (h : following.head? = other.head?) :
    state.parseWord word following = state.parseWord word other := by
  have hvalue (option : OptionSpec) (inline : Option String) (short : Bool) (state : ParseState) :
      state.readOption following option inline short =
        state.readOption other option inline short := by
    unfold readOption optionValue optionalValue
    rw [h]
  have hshort (raw : List Char) (state : ParseState) :
      state.parseShortOptions following raw = state.parseShortOptions other raw := by
    induction raw generalizing state with
    | nil => rfl
    | cons c rest ih =>
      unfold parseShortOptions
      simp only [hvalue, ih]
  unfold parseWord parseLongOption
  simp only [hvalue, hshort]

/-! ## The whole line -/

/-- Completion is where the loop ended: the same commands, option names and count of positionals,
and behind a separator exactly when the loop met one. -/
structure CompletionContext.Matches (context : CompletionContext) (done : LoopEnd) : Prop where
  commands : context.commands.map CommandSpec.name = done.state.commandPath
  usedOptions : ∀ name, name ∈ context.usedOptions ↔ done.state.isPresent name = true
  positionals : context.positionals = done.state.positionals.length
  passthrough : context.passthrough = done.separator

/-- The loop accepts the words, or they end in an option that lacks its required value. -/
def ParseState.Readable (state : ParseState) (words : List String) : Prop :=
  (∃ done, state.parseLoop words = .ok done) ∨
    ∃ option : OptionSpec, state.parseLoop words = .error option.missingValue

/-- From where the two scanners stand, completion reads the words as the parser does. -/
structure AgreesFrom (state : ParseState) (context : CompletionContext) (words : List String) :
    Prop where
  accepted : ∀ done, state.parseLoop words = .ok done → (context.analyzeFrom words).Matches done
  missing : ∀ option : OptionSpec, state.parseLoop words = .error option.missingValue →
    ∃ pending, (context.analyzeFrom words).pendingValue = some pending ∧
      pending.long = option.long

/-- `analyze` reads the words as `parse` does. -/
def Agrees (spec : CliSpec) (words : List String) : Prop :=
  AgreesFrom spec.start { spec } words

theorem long_of_missingValue {first second : OptionSpec}
    (h : first.missingValue = second.missingValue) : first.long = second.long := by
  have hmessage := congrArg (fun e => e.message.toList) h
  simp only [OptionSpec.missingValue, String.toList_append] at hmessage
  rw [List.append_assoc, List.append_assoc, List.append_cancel_left_eq,
    List.append_cancel_right_eq] at hmessage
  exact String.toList_inj.1 hmessage

theorem see_present {options : List OptionSpec} {pending : Option OptionSpec}
    (h : ∀ option ∈ options, state.isPresent option.long = true) :
    state.context.see options pending = { state.context with pendingValue := pending } := by
  have hused : (options.map OptionSpec.long).toFinset ∪ state.context.usedOptions =
      state.context.usedOptions := by
    refine Finset.union_eq_right.2 fun name hname => ?_
    obtain ⟨option, hoption, rfl⟩ := List.mem_map.1 (List.mem_toFinset.1 hname)
    exact mem_usedOptions.2 (h option hoption)
  simp only [CompletionContext.see, hused]

theorem consume_passesOver (h : state.PassesOver word) :
    state.context.consume word =
      (false, { state.context with pendingValue := state.awaited word }) := by
  obtain ⟨hseparator, hoption, hpresent⟩ := h
  have hconsume := consume_option state.context rfl hseparator hoption
  rw [hconsume, awaited, hoption, if_pos rfl]
  exact congrArg (Prod.mk false) (see_present hpresent)

variable {spec : CliSpec}

/-- A word that leaves completion where the parser stands is one that it passes over. -/
theorem passesOver_of_matches (hstate : Proper spec state)
    (h : (state.context.analyzeFrom [word]).Matches ⟨state, false⟩) : state.PassesOver word := by
  have hpending : state.context.pendingValue = none := rfl
  unfold CompletionContext.analyzeFrom at h
  by_cases hseparator : word = "--"
  · have hconsume : state.context.consume word =
        (true, { state.context with passthrough := true }) := by
      unfold CompletionContext.consume
      simp only [hpending, if_pos hseparator]
    rw [hconsume] at h
    exact absurd h.passthrough Bool.noConfusion
  · cases hoption : state.isOption state.positionals.length word with
    | true =>
      refine ⟨hseparator, hoption, fun option hmem => (h.usedOptions option.long).1 ?_⟩
      rw [consume_option state.context hpending hseparator hoption]
      refine Finset.mem_union_left _ (List.mem_toFinset.2 ?_)
      exact List.mem_map_of_mem hmem
    | false =>
      obtain ⟨hdashes, hshort, -⟩ := @parseWord_plain state [] word hoption
      have hcontext : ¬ (isShortOption word && !state.context.acceptsNegativePositional
          state.context.positionals word) = true := Bool.eq_false_iff.1 hshort
      unfold CompletionContext.consume at h
      simp only [hpending, hdashes, if_neg hseparator, if_neg hcontext] at h
      exfalso
      split at h
      · have hnames := congrArg List.length h.commands
        simp [hstate.names, CompletionContext.analyzeFrom, Scope.enter, context] at hnames
      · have hcount := h.positionals
        simp [CompletionContext.analyzeFrom, context] at hcount

/-! ## The two loops side by side -/

theorem parseLoop_cons (hseparator : word ≠ "--")
    (h : state.parseWord word following = .ok (taken, next)) :
    state.parseLoop (word :: following) = next.parseLoop (following.drop taken) := by
  rw [parseLoop, if_neg hseparator, h]
  rfl

theorem parseLoop_error (hseparator : word ≠ "--")
    (h : state.parseWord word following = .error e) :
    state.parseLoop (word :: following) = .error e := by
  rw [parseLoop, if_neg hseparator, h]
  rfl

theorem analyzeFrom_cons {context behind : CompletionContext} {words : List String}
    (h : context.consume word = (false, behind)) :
    context.analyzeFrom (word :: words) = behind.analyzeFrom words := by
  rw [CompletionContext.analyzeFrom, h]
  rfl

theorem agreesFrom_congr {state' : ParseState} {context context' : CompletionContext}
    {words words' : List String} (hloop : state.parseLoop words = state'.parseLoop words')
    (hanalyze : context.analyzeFrom words = context'.analyzeFrom words') :
    AgreesFrom state context words ↔ AgreesFrom state' context' words' := by
  constructor
  · rintro ⟨haccepted, hmissing⟩
    exact ⟨by rwa [← hloop, ← hanalyze], by rwa [← hloop, ← hanalyze]⟩
  · rintro ⟨haccepted, hmissing⟩
    exact ⟨by rwa [hloop, hanalyze], by rwa [hloop, hanalyze]⟩

theorem agreesFrom_nil (hstate : Proper spec state) (pending : Option OptionSpec) :
    AgreesFrom state { state.context with pendingValue := pending } [] := by
  constructor
  · intro done h
    rw [parseLoop] at h
    cases h
    exact ⟨hstate.names.symm, fun _ => mem_usedOptions, rfl, rfl⟩
  · intro option h
    rw [parseLoop] at h
    cases h

/-- The line that ends behind a word which the parser accepts, with or without its value. -/
theorem agreesFrom_word (hvalid : spec.validate = .ok ()) (hstate : Proper spec state)
    (hseparator : word ≠ "--") (h : state.parseWord word following = .ok (taken, next)) :
    AgreesFrom state state.context [word] := by
  obtain ⟨hmissing, hnone⟩ := parseWord_nil h
  have hconsume := (consume_context hseparator h).1
  cases hawaited : state.awaited word with
  | some option =>
    have hloop := parseLoop_error hseparator (hmissing option hawaited)
    constructor
    · intro done hdone
      rw [hloop] at hdone
      cases hdone
    · intro other hother
      rw [hloop] at hother
      refine ⟨option, ?_, long_of_missingValue (Except.error.inj hother)⟩
      rw [analyzeFrom_cons hconsume, hawaited]
      rfl
  | none =>
    obtain ⟨next', hnext'⟩ := hnone hawaited
    have hproper := proper_parseWord hvalid hstate hnext'
    have hsame := (consume_context hseparator hnext').1
    refine (agreesFrom_congr ?_ (analyzeFrom_cons hsame)).2 (agreesFrom_nil hproper _)
    rw [parseLoop_cons hseparator hnext', List.drop_nil]

theorem consume_settled (hseparator : word ≠ "--")
    (h : state.parseWord word following = .ok (taken, next)) (hawaited : state.awaited word = none) :
    state.context.consume word = (false, next.context) := by
  have hconsume := (consume_context hseparator h).1
  rw [hawaited] at hconsume
  exact hconsume

theorem head_of_isPrefix {front words : List String} (h : front <+: words) (hne : front ≠ []) :
    front.head? = words.head? := by
  obtain ⟨rest, rfl⟩ := h
  exact (List.head?_append_of_ne_nil front hne).symm

theorem agreesFrom_cons (hvalid : spec.validate = .ok ()) (hstate : Proper spec state)
    (hseparator : word ≠ "--") (h : state.parseWord word following = .ok (0, next))
    (hawaited : state.awaited word = none) {front : List String} (hfront : front <+: following) :
    AgreesFrom state state.context (word :: front) ↔ AgreesFrom next next.context front := by
  have hconsume := consume_settled hseparator h hawaited
  by_cases hne : front = []
  · subst hne
    refine iff_of_true (agreesFrom_word hvalid hstate hseparator h) ?_
    exact agreesFrom_nil (proper_parseWord hvalid hstate h) none
  · refine agreesFrom_congr ?_ (analyzeFrom_cons hconsume)
    rw [parseWord_head (head_of_isPrefix hfront hne).symm] at h
    exact parseLoop_cons hseparator h

variable {value : String} {rest : List String}

theorem parseLoop_value (hseparator : word ≠ "--")
    (h : state.parseWord word (value :: rest) = .ok (1, next)) (front : List String) :
    state.parseLoop (word :: value :: front) = next.parseLoop front := by
  have hhead : (value :: rest).head? = (value :: front).head? := rfl
  rw [parseWord_head hhead] at h
  exact parseLoop_cons hseparator h

/-- Completion behind a value that it does not notice. -/
theorem analyzeFrom_unnoticed {rest front : List String} (hvalue : next.Unnoticed value rest.head?)
    (hfront : front <+: rest) (hne : front ≠ []) :
    next.context.analyzeFrom (value :: front) = next.context.analyzeFrom front := by
  rw [analyzeFrom_cons (consume_passesOver hvalue.1)]
  cases hawaited : next.awaited value with
  | none => rfl
  | some option =>
    cases front with
    | nil => exact absurd rfl hne
    | cons after front =>
      have hhead := head_of_isPrefix hfront hne
      obtain ⟨hover, hnone⟩ := hvalue.2 (by rw [hawaited]; nofun) after hhead.symm
      have hskip : CompletionContext.consume
          { next.context with pendingValue := some option } after =
          (false, { next.context with pendingValue := none }) := rfl
      have hpass := consume_passesOver hover
      rw [hnone] at hpass
      rw [analyzeFrom_cons hskip, analyzeFrom_cons hpass]

/-- The lines behind a value that completion does not notice. -/
theorem agreesFrom_unnoticed {rest front : List String} (hvalid : spec.validate = .ok ())
    (hstate : Proper spec state) (hseparator : word ≠ "--")
    (h : state.parseWord word (value :: rest) = .ok (1, next))
    (hawaited : state.awaited word = none) (hvalue : next.Unnoticed value rest.head?)
    (hfront : front <+: rest) :
    AgreesFrom state state.context (word :: value :: front) ↔
      AgreesFrom next next.context front := by
  have hproper := proper_parseWord hvalid hstate h
  have hconsume := consume_settled hseparator h hawaited
  have hloop := parseLoop_value hseparator h front
  by_cases hne : front = []
  · subst hne
    refine iff_of_true ?_ (agreesFrom_nil hproper none)
    refine (agreesFrom_congr hloop ?_).2 (agreesFrom_nil hproper (next.awaited value))
    rw [analyzeFrom_cons hconsume, analyzeFrom_cons (consume_passesOver hvalue.1)]
  · refine agreesFrom_congr hloop ?_
    rw [analyzeFrom_cons hconsume]
    exact analyzeFrom_unnoticed hvalue hfront hne

/-- In a readable line, a word that is refused at the end of its front lacks a value. -/
theorem kind_of_readable (hread : state.Readable (word :: following)) (hseparator : word ≠ "--")
    (h : state.parseWord word [] = .error e) : e.kind = .missingValue := by
  cases hfull : state.parseWord word following with
  | ok read =>
    obtain ⟨taken, next⟩ := read
    obtain ⟨hmissing, hnone⟩ := parseWord_nil hfull
    cases hawaited : state.awaited word with
    | some option =>
      have hsame := h.symm.trans (hmissing option hawaited)
      cases hsame
      rfl
    | none =>
      obtain ⟨next', hnext'⟩ := hnone hawaited
      rw [h] at hnext'
      cases hnext'
  | error full =>
    have hloop := parseLoop_error hseparator hfull
    obtain ⟨done, hdone⟩ | ⟨option, hoption⟩ := hread
    · rw [hloop] at hdone
      cases hdone
    · rw [hloop] at hoption
      cases hoption
      obtain ⟨wanting, -, rfl, -⟩ := awaited_of_parseWord hfull rfl
      rw [h] at hfull
      cases hfull
      rfl

/-- Where completion agrees behind a detached value, it did not notice it. -/
theorem unnoticed_of_agreesFrom (hvalid : spec.validate = .ok ()) (hstate : Proper spec state)
    (hseparator : word ≠ "--") (h : state.parseWord word (value :: rest) = .ok (1, next))
    (hawaited : state.awaited word = none) (hread : next.Readable rest)
    (hagrees : ∀ front, front <+: rest →
      AgreesFrom state state.context (word :: value :: front)) :
    next.Unnoticed value rest.head? := by
  have hproper := proper_parseWord hvalid hstate h
  have hconsume := consume_settled hseparator h hawaited
  have hover : next.PassesOver value := by
    have hloop := parseLoop_value hseparator h []
    rw [parseLoop] at hloop
    have hmatches := (hagrees [] List.nil_prefix).accepted _ hloop
    rw [analyzeFrom_cons hconsume] at hmatches
    exact passesOver_of_matches hproper hmatches
  refine ⟨hover, fun hwaits after hafter => ?_⟩
  obtain ⟨option, hoption⟩ := Option.ne_none_iff_exists'.1 hwaits
  obtain ⟨rest, rfl⟩ : ∃ rest', rest = after :: rest' := by
    cases rest with
    | nil => cases hafter
    | cons first rest =>
      cases hafter
      exact ⟨rest, rfl⟩
  have hone := hagrees [after] ⟨rest, rfl⟩
  have hloop := parseLoop_value hseparator h [after]
  have hskip : CompletionContext.consume
      { next.context with pendingValue := some option } after =
      (false, { next.context with pendingValue := none }) := rfl
  have hanalyze : state.context.analyzeFrom [word, value, after] = next.context := by
    rw [analyzeFrom_cons hconsume, analyzeFrom_cons (consume_passesOver hover), hoption,
      analyzeFrom_cons hskip]
    rfl
  by_cases hdashes : after = "--"
  · -- The parser met its separator, which completion took for a value.
    have hend : next.parseLoop [after] =
        .ok ⟨{ next with passthrough := next.passthrough ++ [] }, true⟩ := by
      rw [parseLoop, if_pos hdashes]
    have hmatches := (hone.accepted _ (hloop.trans hend)).passthrough
    rw [hanalyze] at hmatches
    cases hmatches
  · cases hword : next.parseWord after [] with
    | ok read =>
      obtain ⟨count, behind⟩ := read
      have hbehind := proper_parseWord hvalid hproper hword
      obtain ⟨hafter, -, hfollows⟩ := consume_context hdashes hword
      have hnone : next.awaited after = none := by
        cases hawaits : next.awaited after with
        | none => rfl
        | some option => exact absurd rfl (hfollows (by rw [hawaits]; rfl))
      rw [parseLoop_cons hdashes hword, List.drop_nil, parseLoop] at hloop
      obtain ⟨hcommands, hused, hcount, -⟩ := hanalyze ▸ hone.accepted _ hloop
      refine ⟨passesOver_of_matches hproper ?_, hnone⟩
      rw [analyzeFrom_cons (consume_settled hdashes hword hnone)]
      refine ⟨?_, ?_, ?_, rfl⟩
      · show behind.commands.map CommandSpec.name = next.commandPath
        rw [← hbehind.names, ← hcommands, hproper.names]
        rfl
      · intro name
        rw [← mem_usedOptions, hused name]
        exact mem_usedOptions
      · exact hcount.symm
    | error e =>
      -- The parser wants a value, and completion does not wait for one.
      obtain ⟨wanting, -, -, rfl⟩ :=
        awaited_of_parseWord hword (kind_of_readable hread hdashes hword)
      rw [parseLoop_error hdashes hword] at hloop
      obtain ⟨pending, hpending, -⟩ := hone.missing wanting hloop
      rw [hanalyze] at hpending
      cases hpending

/-! ## Agreement -/

theorem agreesFrom_separator (hstate : Proper spec state) (hseparator : word = "--")
    (front : List String) :
    AgreesFrom state state.context (word :: front) := by
  have hpending : state.context.pendingValue = none := rfl
  have hconsume : state.context.consume word =
      (true, { state.context with passthrough := true }) := by
    unfold CompletionContext.consume
    simp only [hpending, if_pos hseparator]
  constructor
  · intro done h
    rw [parseLoop, if_pos hseparator] at h
    cases h
    rw [CompletionContext.analyzeFrom, hconsume]
    exact ⟨hstate.names.symm, fun _ => mem_usedOptions, rfl, rfl⟩
  · intro option h
    rw [parseLoop, if_pos hseparator] at h
    cases h

/-- A readable line ends in a word that is refused, and completion waits for its value. -/
theorem agreesFrom_refused (hread : state.Readable (word :: following)) (hseparator : word ≠ "--")
    (h : state.parseWord word following = .error e) :
    following = [] ∧ AgreesFrom state state.context [word] := by
  have hloop := parseLoop_error hseparator h
  obtain ⟨done, hdone⟩ | ⟨option, hoption⟩ := hread
  · rw [hloop] at hdone
    cases hdone
  · rw [hloop] at hoption
    cases hoption
    obtain ⟨wanting, hawaited, rfl, hsame⟩ := awaited_of_parseWord h rfl
    refine ⟨rfl, ?_, ?_⟩
    · intro done hdone
      rw [hloop] at hdone
      cases hdone
    · intro other hother
      rw [hloop] at hother
      refine ⟨wanting, ?_, ?_⟩
      · have hword : state.isOption state.positionals.length word = true := by
          by_contra hno
          rw [awaited, if_neg hno] at hawaited
          cases hawaited
        rw [analyzeFrom_cons (consume_option state.context rfl hseparator hword)]
        rw [awaited, if_pos hword] at hawaited
        exact hawaited
      · exact long_of_missingValue (hsame.symm.trans (Except.error.inj hother))

/-- A detached value is the next word. -/
theorem head_of_detachedValue (h : state.detachedValue word following = some value) :
    ∃ rest, following = value :: rest := by
  unfold detachedValue Scope.detached at h
  split at h
  · obtain ⟨⟨option, inline⟩, -, h⟩ := Option.bind_eq_some_iff.1 h
    dsimp only [OptionSpec.detached] at h
    split at h
    · obtain ⟨hhead, -⟩ := Option.filter_eq_some_iff.1 h
      cases following with
      | nil => cases hhead
      | cons first rest =>
        cases hhead
        exact ⟨rest, rfl⟩
    · cases h
  · cases h

/-- An option needs the next word, or may take it, but not both. -/
theorem detachedValue_of_awaited (h : state.awaited word = some option) :
    state.detachedValue word following = none := by
  unfold awaited Scope.awaits at h
  unfold detachedValue Scope.detached
  split at h
  next hoption =>
    rw [if_pos hoption]
    cases hvalued : state.valued word with
    | none => rfl
    | some found =>
      obtain ⟨found, inline⟩ := found
      rw [hvalued, Option.bind_some] at h
      dsimp only at h
      split at h
      next hawaits =>
        rw [OptionSpec.awaits, Bool.and_eq_true, decide_eq_true_eq] at hawaits
        simp [OptionSpec.detached, hawaits.1]
      next => cases h
  next => cases h

theorem forall_isPrefix_cons {P : List String → Prop} (hempty : P []) :
    (∀ front, front <+: value :: rest → P front) ↔
      ∀ front, front <+: rest → P (value :: front) := by
  constructor
  · exact fun h front hfront => h _ (List.cons_prefix_cons.2 ⟨rfl, hfront⟩)
  · intro h front hfront
    cases front with
    | nil => exact hempty
    | cons first front =>
      obtain ⟨rfl, htail⟩ := List.cons_prefix_cons.1 hfront
      exact h front htail

theorem agreesFrom_required (hseparator : word ≠ "--")
    (h : state.parseWord word (value :: rest) = .ok (1, next))
    (hawaited : state.awaited word = some option) (front : List String) :
    AgreesFrom state state.context (word :: value :: front) ↔
      AgreesFrom next next.context front := by
  have hconsume := (consume_context hseparator h).1
  rw [hawaited] at hconsume
  refine agreesFrom_congr (parseLoop_value hseparator h front) ?_
  rw [analyzeFrom_cons hconsume]
  exact analyzeFrom_cons rfl

/-- One accepted word: completion agrees behind it exactly when it does not notice a detached value
and agrees from there on. -/
theorem agreesFrom_step (hvalid : spec.validate = .ok ()) (hstate : Proper spec state)
    (hseparator : word ≠ "--") (hread : state.Readable (word :: following))
    (h : state.parseWord word following = .ok (taken, next)) :
    (∀ front, front <+: following → AgreesFrom state state.context (word :: front)) ↔
      (∀ value, state.detachedValue word following = some value →
        next.Unnoticed value following[1]?) ∧
      ∀ front, front <+: following.drop taken → AgreesFrom next next.context front := by
  have hword := agreesFrom_word hvalid hstate hseparator h
  obtain ⟨-, htaken, hfollows⟩ := consume_context hseparator h
  cases hawaited : state.awaited word with
  | some option =>
    rw [hawaited] at htaken hfollows
    obtain ⟨value, rest, rfl⟩ := List.exists_cons_of_ne_nil (hfollows rfl)
    obtain rfl : taken = 1 := htaken
    rw [detachedValue_of_awaited hawaited, forall_isPrefix_cons hword]
    simp only [agreesFrom_required hseparator h hawaited]
    exact ⟨fun hall => ⟨nofun, hall⟩, fun hboth => hboth.2⟩
  | none =>
    rw [hawaited] at htaken
    cases hdetached : state.detachedValue word following with
    | none =>
      rw [hdetached] at htaken
      obtain rfl : taken = 0 := htaken
      constructor
      · exact fun hall => ⟨nofun, fun front hfront =>
          (agreesFrom_cons hvalid hstate hseparator h hawaited hfront).1 (hall front hfront)⟩
      · exact fun hboth front hfront =>
          (agreesFrom_cons hvalid hstate hseparator h hawaited hfront).2 (hboth.2 front hfront)
    | some value =>
      rw [hdetached] at htaken
      obtain rfl : taken = 1 := htaken
      obtain ⟨rest, rfl⟩ := head_of_detachedValue hdetached
      have hnext : next.Readable rest := by
        unfold Readable at hread ⊢
        rwa [parseLoop_cons hseparator h] at hread
      rw [forall_isPrefix_cons hword]
      have hbehind : (value :: rest)[1]? = rest.head? := by
        rw [List.getElem?_cons_succ, List.head?_eq_getElem?]
      simp only [Option.some.injEq, forall_eq', hbehind]
      constructor
      · intro hall
        have hvalue := unnoticed_of_agreesFrom hvalid hstate hseparator h hawaited hnext hall
        exact ⟨hvalue, fun front hfront => (agreesFrom_unnoticed hvalid hstate hseparator h
          hawaited hvalue hfront).1 (hall front hfront)⟩
      · intro ⟨hvalue, hall⟩ front hfront
        exact (agreesFrom_unnoticed hvalid hstate hseparator h hawaited hvalue hfront).2
          (hall front hfront)

/-- Completion agrees on every front of a readable line exactly when the line is read alike. -/
theorem agreesFrom_iff {words : List String} (hvalid : spec.validate = .ok ())
    (hstate : Proper spec state) (hread : state.Readable words) :
    (∀ front, front <+: words → AgreesFrom state state.context front) ↔ state.ReadAlike words := by
  induction hn : words.length using Nat.strong_induction_on generalizing state words with
  | _ n ih =>
    have hempty : AgreesFrom state state.context [] := agreesFrom_nil hstate none
    cases words with
    | nil =>
      rw [ReadAlike]
      refine iff_of_true (fun front hfront => ?_) trivial
      rw [List.prefix_nil.1 hfront]
      exact hempty
    | cons word following =>
      rw [ReadAlike]
      rw [forall_isPrefix_cons hempty]
      by_cases hseparator : word = "--"
      · refine iff_of_true (fun front _ => ?_) (fun hno => absurd hseparator hno)
        exact agreesFrom_separator hstate hseparator front
      cases hword : state.parseWord word following with
      | error e =>
        refine iff_of_true (fun front hfront => ?_) fun _ _ _ hfailed => by cases hfailed
        obtain ⟨rfl, hone⟩ := agreesFrom_refused hread hseparator hword
        rw [List.prefix_nil.1 hfront]
        exact hone
      | ok read =>
        obtain ⟨taken, next⟩ := read
        have hproper := proper_parseWord hvalid hstate hword
        have hnext : next.Readable (following.drop taken) := by
          unfold Readable at hread ⊢
          rwa [← parseLoop_cons hseparator hword]
        have hlength : (following.drop taken).length < n := by
          rw [← hn, List.length_drop, List.length_cons]
          omega
        have hrest := ih _ hlength hproper hnext rfl
        have hcases : (word ≠ "--" → ∀ taken' next', Except.ok (taken, next) =
            (Except.ok (taken', next') : Except CliError (Nat × ParseState)) →
            (∀ value, state.detachedValue word following = some value →
              next'.Unnoticed value following[1]?) ∧
            next'.ReadAlike (following.drop taken')) ↔
            (∀ value, state.detachedValue word following = some value →
              next.Unnoticed value following[1]?) ∧
            next.ReadAlike (following.drop taken) := by
          constructor
          · exact fun h => h hseparator taken next rfl
          · intro h _ taken' next' hsame
            cases hsame
            exact h
        rw [hcases, ← hrest]
        exact agreesFrom_step hvalid hstate hseparator hread hword

/-- For a validated specification and a line that the parser reads to its end, completion reads the
line and each of its fronts as the parser does exactly when the line is read alike. -/
theorem agrees_iff {spec : CliSpec} {words : List String} (hvalid : spec.validate = .ok ())
    (hread : spec.start.Readable words) :
    (∀ front, front <+: words → Agrees spec front) ↔ spec.start.ReadAlike words :=
  agreesFrom_iff hvalid (proper_start spec) hread

/-- A program with a switch that may be followed by its value, and one argument. -/
def switchSpec : CliSpec where
  name := "demo"
  options := [{
    long := "enabled"
    value := .optional
    valueType := .bool
    detachedOptionalValue := true }]
  arguments := [{ name := "input" }]

theorem validate_switchSpec : switchSpec.validate = .ok () := by rfl

/-- `--enabled=false input.txt` has no detached value, and is read alike. -/
theorem agrees_inline : Agrees switchSpec ["--enabled=false", "input.txt"] := by
  let enabled : ParseState := { switchSpec.start with options := [⟨"enabled", some "false"⟩] }
  have hfirst : switchSpec.start.parseWord "--enabled=false" ["input.txt"] = .ok (0, enabled) := by
    rfl
  have hsecond : enabled.parseWord "input.txt" [] =
      .ok (0, { enabled with positionals := ["input.txt"] }) := by rfl
  refine (agrees_iff validate_switchSpec (.inl ⟨⟨{ enabled with positionals := ["input.txt"] },
    false⟩, ?_⟩)).2 ?_ _ (List.prefix_refl _)
  · rw [parseLoop_cons (by decide) hfirst, List.drop_zero, parseLoop_cons (by decide) hsecond,
      List.drop_nil, parseLoop]
  · rw [ReadAlike]
    intro _ taken next hword
    rw [hfirst] at hword
    cases hword
    refine ⟨(fun _ hdetached => by cases hdetached), ?_⟩
    rw [List.drop_zero, ReadAlike]
    intro _ taken next hword
    rw [hsecond] at hword
    cases hword
    refine ⟨(fun _ hdetached => by cases hdetached), ?_⟩
    rw [List.drop_nil, ReadAlike]
    trivial

/-- `--enabled false input.txt`: the parser takes `false` for the switch, and completion takes it
for the argument. -/
theorem detached_value_miscounted :
    ¬ ∀ (spec : CliSpec) (words : List String), spec.validate = .ok () →
      spec.start.Readable words → Agrees spec words := by
  intro h
  let enabled : ParseState := { switchSpec.start with options := [⟨"enabled", some "false"⟩] }
  have hfirst : switchSpec.start.parseWord "--enabled" ["false", "input.txt"] =
      .ok (1, enabled) := by rfl
  have hsecond : enabled.parseWord "input.txt" [] =
      .ok (0, { enabled with positionals := ["input.txt"] }) := by rfl
  have hloop : switchSpec.start.parseLoop ["--enabled", "false", "input.txt"] =
      .ok ⟨{ enabled with positionals := ["input.txt"] }, false⟩ := by
    rw [parseLoop_cons (by decide) hfirst, List.drop_succ_cons, List.drop_zero,
      parseLoop_cons (by decide) hsecond, List.drop_nil, parseLoop]
  have hagrees := h switchSpec _ validate_switchSpec (.inl ⟨_, hloop⟩)
  have hcount := (hagrees.accepted _ hloop).positionals
  have htwo : (CompletionContext.analyzeFrom { spec := switchSpec }
      ["--enabled", "false", "input.txt"]).positionals = 2 := by rfl
  rw [htwo] at hcount
  exact absurd hcount (by decide)

end AppCore
