import AppCore.Args.CompletionEngine

/-!
# The parser reads what completion offers

Behind words that completion has read as the parser does, the offers are those at the cursor of the
parser. Each is read as what it was offered for exactly when it fits there; an option that takes the
word as its optional value, and a value that is not of the declared type, are among what can come in
between.

* `offers_read_iff` — all offers are read exactly when they suit the cursor.
-/

namespace AppCore

open ParseState

variable {spec : CliSpec} {state next mid : ParseState} {option : OptionSpec}
  {inline : Option String} {short : Bool} {front following : List String} {word w : String}
  {taken : Nat} {e : CliError}

theorem shorts_of_validateShort {path : String} {shorts shorts' : List Char} {short : Option Char}
    (h : validateShort path shorts short = .ok shorts') :
    short ≠ some '-' ∧ (shorts.Nodup → (shorts ++ short.toList).Nodup) ∧
      shorts' = short.toList ++ shorts := by
  cases short with
  | none =>
    cases h
    simp
  | some c =>
    unfold validateShort at h
    dsimp only at h
    split at h
    · cases h
    next hvalid =>
      split at h
      · cases h
      next hnew =>
        cases h
        refine ⟨?_, fun hnodup => ?_, rfl⟩
        · rintro hdash
          cases hdash
          exact hvalid (by simp)
        · exact List.nodup_append_comm.1 (List.nodup_cons.2 ⟨hnew, hnodup⟩)

/-- What an option that passes its checks has as its short name and as possible values. -/
theorem of_validateOption {path : String} {longs longs' : List String} {shorts shorts' : List Char}
    (h : validateOption path longs shorts option = .ok (longs', shorts')) :
    validateShort path shorts option.short = .ok shorts' ∧
      (option.possibleValues ≠ [] → option.value ≠ .forbidden) := by
  unfold validateOption at h
  obtain ⟨_, -, h⟩ := bind_eq_ok.1 h
  split at h
  · cases h
  · obtain ⟨taken, hshort, h⟩ := bind_eq_ok.1 h
    split at h
    · cases h
    next hmode =>
      obtain ⟨_, -, h⟩ := bind_eq_ok.1 h
      cases h
      refine ⟨hshort, fun hsome hforbidden => hmode ?_⟩
      simp [hforbidden, hsome]

theorem nodup_shorts_of_validateEachOption {path : String} {longs longs' : List String}
    {shorts : List Char} {options : List OptionSpec} (hnodup : shorts.Nodup)
    (h : validateEachOption path longs shorts options = .ok longs') :
    (shorts ++ options.filterMap OptionSpec.short).Nodup := by
  induction options generalizing longs shorts with
  | nil => simpa using hnodup
  | cons option options ih =>
    obtain ⟨⟨next, shorts'⟩, hoption, h⟩ := bind_eq_ok.1 h
    obtain ⟨-, hnew, rfl⟩ := shorts_of_validateShort (of_validateOption hoption).1
    have hrest := ih (List.nodup_append_comm.1 (hnew hnodup)) h
    have hsplit : (option :: options).filterMap OptionSpec.short =
        option.short.toList ++ options.filterMap OptionSpec.short := by
      cases hshort : option.short with
      | none => simp [hshort]
      | some c => simp [hshort]
    rw [hsplit, ← List.append_assoc]
    refine (List.Perm.nodup_iff ?_).1 hrest
    exact List.Perm.append_right _ List.perm_append_comm

theorem eq_of_short_eq {options : List OptionSpec}
    (hnodup : (options.filterMap OptionSpec.short).Nodup) {first second : OptionSpec}
    (hfirst : first ∈ options) (hsecond : second ∈ options) {c : Char}
    (hone : first.short = some c) (htwo : second.short = some c) : first = second := by
  by_contra hne
  have hapart := List.pairwise_filterMap.1 hnodup
  have hsymm : Std.Symm fun a b : OptionSpec =>
      ∀ x, a.short = some x → ∀ y, b.short = some y → x ≠ y :=
    ⟨fun a b h x hx y hy hxy => h y hy x hx hxy.symm⟩
  exact hapart.forall hfirst hsecond hne c hone c htwo rfl

/-! ## One option -/

theorem occurrences_eq_zero {name : String} :
    occurrences state.options name = 0 ↔ state.isPresent name = false := by
  simp [occurrences, isPresent, List.countP_eq_zero]

theorem pushOption_iff {value : Option String} {pushed : ParseState} :
    state.pushOption option value = .ok pushed ↔
      pushed = { state with options := state.options ++ [⟨option.long, value⟩] } ∧
        state.Fresh option ∧
        ∀ v, value = some v → Admits option.valueType option.possibleValues v := by
  rw [pushOption_eq_ok]
  simp only [occurrences_eq_zero, Fresh]

/-- A word that the option does not take makes no difference to it. -/
theorem readOption_untaken (hawaits : option.awaits inline = false)
    (hdetached : option.detached inline [w] = none) :
    state.readOption [w] option inline short = state.readOption [] option inline short := by
  have hvalue : optionValue [w] inline option short = optionValue [] inline option short := by
    unfold optionValue
    unfold OptionSpec.awaits at hawaits
    unfold OptionSpec.detached at hdetached
    cases hmode : option.value with
    | forbidden => rfl
    | required =>
      cases inline with
      | some v => rfl
      | none => simp [hmode] at hawaits
    | optional =>
      unfold optionalValue
      cases inline with
      | some v => rfl
      | none =>
        cases hdetaches : option.detachedOptionalValue with
        | false => rfl
        | true =>
          have hno : ¬ Admits option.valueType option.possibleValues w := by
            simpa [hmode, hdetaches] using hdetached
          have hfails : (option.admits w).isOk = false := by
            cases hadmits : option.admits w with
            | error e => rfl
            | ok => exact absurd (admits_eq_ok.1 hadmits) hno
          simp [hfails]
  unfold readOption
  rw [hvalue]

/-- A word that the option takes as its optional value stands in the place of no value. -/
theorem readOption_taken (h : state.readOption [] option inline short = .ok (taken, next))
    (hdetached : option.detached inline [w] = some w) :
    ∃ after : ParseState, state.readOption [w] option inline short = .ok (1, after) ∧
      after.commandPath = next.commandPath ∧ after.positionals = next.positionals ∧
      after.options.length = next.options.length := by
  unfold OptionSpec.detached at hdetached
  split at hdetached
  next hmay =>
    simp only [Bool.and_eq_true, decide_eq_true_eq, Option.isNone_iff_eq_none] at hmay
    obtain ⟨⟨hmode, rfl⟩, hdetaches⟩ := hmay
    have hadmits : Admits option.valueType option.possibleValues w := by simpa using hdetached
    have hok : (option.admits w).isOk = true := by
      rw [admits_eq_ok.2 hadmits]
      rfl
    have hnil : optionValue [] none option short = .ok (none, 0) := by
      simp [optionValue, hmode, optionalValue]
    have htaken : optionValue [w] none option short = .ok (some w, 1) := by
      simp [optionValue, hmode, optionalValue, hdetaches, hok]
    rw [readOption, hnil, ok_bind] at h
    obtain ⟨pushed, hpush, h⟩ := bind_eq_ok.1 h
    cases h
    obtain ⟨rfl, hfresh, -⟩ := pushOption_iff.1 hpush
    have hpushed : state.pushOption option (some w) =
        .ok { state with options := state.options ++ [⟨option.long, some w⟩] } :=
      pushOption_iff.2 ⟨rfl, hfresh, fun v hv => Option.some.inj hv ▸ hadmits⟩
    refine ⟨{ state with options := state.options ++ [⟨option.long, some w⟩] }, ?_, rfl, rfl, ?_⟩
    · rw [readOption, htaken, ok_bind]
      dsimp only
      rw [hpushed, ok_bind]
    · simp
  · cases hdetached

/-- An option that lacks its required value takes the word. -/
theorem readOption_awaits (h : option.awaits inline = true) :
    state.readOption [w] option inline short =
      state.pushOption option (some w) >>= fun pushed => .ok (1, pushed) := by
  unfold OptionSpec.awaits at h
  rw [Bool.and_eq_true, decide_eq_true_eq, Option.isNone_iff_eq_none] at h
  obtain ⟨hmode, rfl⟩ := h
  have hvalue : optionValue [w] none option short = .ok (some w, 1) := by
    simp [optionValue, hmode]
  rw [readOption, hvalue, ok_bind]

/-- The flags before an option in its word are other options. -/
theorem fresh_of_flagged {flags : List OptionSpec}
    (hnodup : (state.visibleOptions.map OptionSpec.long).Nodup)
    (hmid : Flagged state mid flags) (hmem : option ∈ state.visibleOptions)
    (hmode : option.value ≠ .forbidden) : mid.Fresh option ↔ state.Fresh option := by
  have hpresent : mid.isPresent option.long = state.isPresent option.long := by
    refine Bool.eq_iff_iff.2 ?_
    rw [← mem_usedOptions, ← mem_usedOptions, hmid.context]
    refine ⟨fun hthere => ?_, Finset.mem_union_right _⟩
    rcases Finset.mem_union.1 hthere with hflag | hold
    · obtain ⟨flag, hflag, hlong⟩ := List.mem_map.1 (List.mem_toFinset.1 hflag)
      obtain ⟨hvisible, hforbidden⟩ := hmid.flags flag hflag
      obtain rfl := eq_of_long_eq hnodup hvisible hmem hlong
      exact absurd hforbidden hmode
    · exact hold
  rw [Fresh, Fresh, hpresent]

/-! ## One more word behind a line -/

theorem detached_singleton : option.detached inline [w] = some w ↔
    (option.value = .optional && inline.isNone && option.detachedOptionalValue) = true ∧
      Admits option.valueType option.possibleValues w := by
  unfold OptionSpec.detached
  split
  next hmay => simp [hmay]
  next hmay => simp [hmay]

theorem detached_eq_none (h : ¬ option.detached inline [w] = some w) :
    option.detached inline [w] = none := by
  unfold OptionSpec.detached at h ⊢
  split
  next hmay =>
    rw [if_pos hmay] at h
    simpa using h
  · rfl

theorem mem_detaches {taker : OptionSpec} : taker ∈ state.detaches word ↔
    state.isOption state.positionals.length word = true ∧ ∃ inline,
      state.valued word = some (taker, inline) ∧
        (taker.value = .optional && inline.isNone && taker.detachedOptionalValue) = true := by
  unfold detaches
  split
  next hoption =>
    cases hvalued : state.valued word with
    | none => simp [hoption]
    | some found =>
      obtain ⟨found, inline⟩ := found
      by_cases hmay :
          (found.value = .optional && inline.isNone && found.detachedOptionalValue) = true
      · simp only [Option.bind_some, if_pos hmay, Option.mem_some_iff, hoption, true_and]
        constructor
        · rintro rfl
          exact ⟨inline, rfl, hmay⟩
        · rintro ⟨other, hsame, -⟩
          cases hsame
          rfl
      · simp only [Option.bind_some, if_neg hmay, Option.not_mem_none, hoption, true_and,
          false_iff]
        rintro ⟨other, hsame, hother⟩
        cases hsame
        exact hmay hother
  next hoption => simp [hoption]

theorem awaited_of_valued (hoption : state.isOption state.positionals.length word = true)
    (hvalued : state.valued word = some (option, inline)) :
    state.awaited word = if option.awaits inline then some option else none := by
  rw [awaited, hoption, if_pos rfl, Scope.awaits, hvalued, Option.bind_some]

/-- A word that is not taken makes no difference to the one before it. -/
theorem parseWord_untaken (hawaited : state.awaited word = none)
    (hfree : ∀ taker ∈ state.detaches word, ¬ Admits taker.valueType taker.possibleValues w) :
    state.parseWord word [w] = state.parseWord word [] := by
  cases hoption : state.isOption state.positionals.length word with
  | false => rw [(parseWord_plain hoption).2.2, (parseWord_plain hoption).2.2]
  | true =>
    cases readsWord_parseWord hoption with
    | refused e hkind hread => rw [hread, hread]
    | flags mid hmid hvalued hread => rw [hread, hread]
    | valued mid flags option inline short hmid hnamed hvalued hmem hread =>
      rw [hread, hread]
      rw [awaited_of_valued hoption hvalued] at hawaited
      refine readOption_untaken ?_ (detached_eq_none fun hdetached => ?_)
      · by_contra hawaits
        rw [Bool.not_eq_false] at hawaits
        rw [if_pos hawaits] at hawaited
        cases hawaited
      · obtain ⟨hmay, hadmits⟩ := detached_singleton.1 hdetached
        exact hfree option (mem_detaches.2 ⟨hoption, inline, hvalued, hmay⟩) hadmits

/-- A word that is taken as an optional value. -/
theorem parseWord_taken {taker : OptionSpec} (h : state.parseWord word [] = .ok (taken, next))
    (htaker : taker ∈ state.detaches word)
    (hadmits : Admits taker.valueType taker.possibleValues w) :
    ∃ after : ParseState, state.parseWord word [w] = .ok (1, after) ∧
      after.commandPath = next.commandPath ∧ after.positionals = next.positionals ∧
      after.options.length = next.options.length := by
  obtain ⟨hoption, inline, hvalued, hmay⟩ := mem_detaches.1 htaker
  cases readsWord_parseWord hoption with
  | refused e hkind hread =>
    rw [hread] at h
    cases h
  | flags mid hmid hnone hread =>
    rw [hnone] at hvalued
    cases hvalued
  | valued mid flags option inline' short hmid hnamed hsome hmem hread =>
    rw [hvalued] at hsome
    cases hsome
    rw [hread] at h
    rw [hread]
    exact readOption_taken h (detached_singleton.2 ⟨hmay, hadmits⟩)

theorem nodup_visible (hvalid : spec.validate = .ok ()) (hstate : Proper spec state) :
    (state.visibleOptions.map OptionSpec.long).Nodup := by
  have := nodup_longs_of_validate hvalid hstate.path
  rwa [← hstate.spec_eq] at this

/-- A word behind one that lacks its value is that value, if it may be. -/
theorem parseLoop_awaited (hvalid : spec.validate = .ok ()) (hstate : Proper spec state)
    (hseparator : word ≠ "--") (hawaited : state.awaited word = some option)
    (h : state.parseWord word [] = .error option.missingValue) :
    (∃ after, state.parseLoop [word, w] = .ok ⟨after, false⟩ ∧
      after.options.getLast? = some ⟨option.long, some w⟩) ↔
    state.Fresh option ∧ Admits option.valueType option.possibleValues w := by
  have hoption : state.isOption state.positionals.length word = true := by
    by_contra hno
    rw [awaited, if_neg hno] at hawaited
    cases hawaited
  cases readsWord_parseWord hoption with
  | refused e hkind hread =>
    rw [hread] at h
    cases h
    exact absurd rfl hkind
  | flags mid hmid hvalued hread =>
    rw [hread] at h
    cases h
  | valued mid flags found inline short hmid hnamed hvalued hmem hread =>
    rw [awaited_of_valued hoption hvalued] at hawaited
    obtain ⟨hawaits, hfound⟩ := Option.ite_none_right_eq_some.1 hawaited
    cases hfound
    have hmode : option.value ≠ .forbidden := fun hmode => by
      rw [awaits_of_forbidden hmode] at hawaits
      cases hawaits
    have hword := hread [w]
    rw [readOption_awaits hawaits] at hword
    rw [← fresh_of_flagged (nodup_visible hvalid hstate) hmid hmem hmode]
    constructor
    · rintro ⟨after, hloop, -⟩
      rw [parseLoop, if_neg hseparator, hword] at hloop
      cases hpush : mid.pushOption option (some w) with
      | error e =>
        rw [hpush] at hloop
        cases hloop
      | ok pushed =>
        obtain ⟨-, hfresh, hadmits⟩ := pushOption_iff.1 hpush
        exact ⟨hfresh, hadmits w rfl⟩
    · rintro ⟨hfresh, hadmits⟩
      have hpush := pushOption_iff.2 ⟨rfl, hfresh, fun v hv => Option.some.inj hv ▸ hadmits⟩
      rw [hpush, ok_bind] at hword
      refine ⟨{ mid with options := mid.options ++ [⟨option.long, some w⟩] }, ?_, ?_⟩
      · rw [parseLoop_cons hseparator hword, List.drop_succ_cons, List.drop_nil, parseLoop]
      · simp

/-- What the loop makes of the words before the cursor, and of one more behind them. -/
def Cursor.Behind (result : Except CliError LoopEnd) (more : String → Except CliError LoopEnd) :
    Cursor → Prop
  | turn state taker _ => result = .ok ⟨state, false⟩ ∧ ∀ w,
      ((∀ option ∈ taker, ¬ Admits option.valueType option.possibleValues w) →
        more w = state.parseLoop [w]) ∧
      ∀ option ∈ taker, Admits option.valueType option.possibleValues w →
        ∃ after : ParseState, more w = .ok ⟨after, false⟩ ∧
          after.commandPath = state.commandPath ∧ after.positionals = state.positionals ∧
          after.options.length = state.options.length
  | value state option => result = .error option.missingValue ∧ ∀ w,
      (∃ after, more w = .ok ⟨after, false⟩ ∧
        after.options.getLast? = some ⟨option.long, some w⟩) ↔
      state.Fresh option ∧ Admits option.valueType option.possibleValues w
  | closed => ∃ state, result = .ok ⟨state, true⟩

theorem taken_le_one (hseparator : word ≠ "--")
    (h : state.parseWord word following = .ok (taken, next)) :
    taken ≤ 1 ∧ (following = [] → taken = 0 ∧ state.awaited word = none) := by
  obtain ⟨-, htaken, hfollows⟩ := consume_context hseparator h
  refine ⟨by split at htaken <;> omega, ?_⟩
  rintro rfl
  have hawaited : state.awaited word = none := by
    cases hsome : state.awaited word with
    | none => rfl
    | some option => exact absurd rfl (hfollows (by rw [hsome]; rfl))
  have hdetached : state.detachedValue word [] = none := by
    cases hsome : state.detachedValue word [] with
    | none => rfl
    | some v =>
      obtain ⟨rest, hrest⟩ := head_of_detachedValue hsome
      cases hrest
  rw [hawaited, hdetached] at htaken
  exact ⟨htaken, hawaited⟩

theorem readable_next (hseparator : word ≠ "--")
    (h : state.parseWord word following = .ok (taken, next))
    (hread : state.Readable (word :: following)) : next.Readable (following.drop taken) := by
  unfold Readable at hread ⊢
  rwa [parseLoop_cons hseparator h] at hread

theorem awaited_of_readable (hseparator : word ≠ "--")
    (h : state.parseWord word following = .error e)
    (hread : state.Readable (word :: following)) :
    ∃ option, state.awaited word = some option ∧ following = [] ∧ e = option.missingValue := by
  rcases hread with ⟨done, hloop⟩ | ⟨option, hloop⟩
  · rw [parseLoop_error hseparator h] at hloop
    cases hloop
  · rw [parseLoop_error hseparator h] at hloop
    cases hloop
    exact awaited_of_parseWord h rfl

theorem behind_cursor (hvalid : spec.validate = .ok ()) (hstate : Proper spec state)
    (hread : state.Readable front) :
    (state.cursor front).Behind (state.parseLoop front) fun w => state.parseLoop (front ++ [w]) := by
  induction hn : front.length using Nat.strong_induction_on generalizing state front with
  | _ n ih =>
    cases front with
    | nil =>
      rw [cursor]
      refine ⟨by rw [parseLoop], fun w => ⟨fun _ => rfl, fun option hoption => ?_⟩⟩
      cases hoption
    | cons word following =>
      rw [cursor]
      by_cases hseparator : word = "--"
      · rw [if_pos hseparator, parseLoop, if_pos hseparator]
        exact ⟨_, rfl⟩
      rw [if_neg hseparator]
      cases hword : state.parseWord word following with
      | error e =>
        obtain ⟨option, hawaited, rfl, rfl⟩ := awaited_of_readable hseparator hword hread
        simp only [hawaited, Option.map_some, Option.getD_some]
        exact ⟨parseLoop_error hseparator hword, fun w =>
          parseLoop_awaited hvalid hstate hseparator hawaited hword⟩
      | ok read =>
        obtain ⟨taken, next⟩ := read
        dsimp only
        obtain ⟨hone, hnil⟩ := taken_le_one hseparator hword
        have hloop := parseLoop_cons hseparator hword
        by_cases hend : following.drop taken = []
        · rw [if_pos hend]
          rw [hend, parseLoop] at hloop
          by_cases hempty : following = []
          · subst hempty
            obtain ⟨rfl, hawaited⟩ := hnil rfl
            rw [if_pos rfl]
            refine ⟨hloop, fun w => ⟨fun hfree => ?_, fun taker htaker hadmits => ?_⟩⟩
            · have hmore := (parseWord_untaken hawaited hfree).trans hword
              exact parseLoop_cons hseparator hmore
            · obtain ⟨after, hmore, hshape⟩ := parseWord_taken hword htaker hadmits
              refine ⟨after, ?_, hshape⟩
              show state.parseLoop [word, w] = _
              rw [parseLoop_cons hseparator hmore, List.drop_succ_cons, List.drop_nil,
                parseLoop]
          · rw [if_neg hempty]
            obtain ⟨value, rest, rfl⟩ := List.exists_cons_of_ne_nil hempty
            obtain rfl : taken = 1 := by
              have := List.drop_eq_nil_iff.1 hend
              rw [List.length_cons] at this
              omega
            rw [List.drop_succ_cons, List.drop_zero] at hend
            subst hend
            refine ⟨hloop, fun w => ⟨fun _ => parseLoop_value hseparator hword [w],
              fun taker htaker => ?_⟩⟩
            cases htaker
        · rw [if_neg hend]
          have hlength : (following.drop taken).length < n := by
            rw [← hn, List.length_drop, List.length_cons]
            omega
          have hrest := ih _ hlength (proper_parseWord hvalid hstate hword)
            (readable_next hseparator hword hread) rfl
          have hmore (w : String) : state.parseLoop (word :: following ++ [w]) =
              next.parseLoop (following.drop taken ++ [w]) := by
            have hempty : following ≠ [] := by
              rintro rfl
              exact hend List.drop_nil
            have hhead : following.head? = (following ++ [w]).head? :=
              (List.head?_append_of_ne_nil following hempty).symm
            have hlonger := hword
            rw [parseWord_head hhead] at hlonger
            rw [List.cons_append, parseLoop_cons hseparator hlonger,
              List.drop_append_of_le_length]
            have := List.length_pos_of_ne_nil hempty
            omega
          rw [hloop]
          simp only [hmore]
          exact hrest

def Cursor.Seen (context : CompletionContext) : Cursor → Prop
  | turn state _ mistaken => context = { state.context with pendingValue := mistaken }
  | value state option => context.toScope = state.toScope ∧ context.pendingValue = some option ∧
      context.passthrough = false
  | closed => context.passthrough = true

/-- A word and the value it takes leave completion where the parser stands. -/
theorem analyzeFrom_drop (hseparator : word ≠ "--")
    (h : state.parseWord word following = .ok (taken, next))
    (hvalue : ∀ value, state.detachedValue word following = some value →
      next.Unnoticed value following[1]?) (hne : following.drop taken ≠ []) :
    state.context.analyzeFrom (word :: following) =
      next.context.analyzeFrom (following.drop taken) := by
  obtain ⟨hconsume, htaken, hfollows⟩ := consume_context hseparator h
  rw [analyzeFrom_cons hconsume]
  cases hawaited : state.awaited word with
  | some option =>
    rw [hawaited] at htaken hfollows
    obtain ⟨value, rest, rfl⟩ := List.exists_cons_of_ne_nil (hfollows rfl)
    have hskip : CompletionContext.consume { next.context with pendingValue := some option }
        value = (false, next.context) := rfl
    rw [analyzeFrom_cons hskip, htaken]
    rfl
  | none =>
    cases hdetached : state.detachedValue word following with
    | none =>
      rw [hawaited, hdetached] at htaken
      rw [htaken]
      rfl
    | some value =>
      obtain ⟨rest, rfl⟩ := head_of_detachedValue hdetached
      rw [hawaited, hdetached] at htaken
      subst htaken
      have hunnoticed := hvalue value hdetached
      rw [List.getElem?_cons_succ, ← List.head?_eq_getElem?] at hunnoticed
      exact analyzeFrom_unnoticed hunnoticed (List.prefix_refl rest) hne

theorem seen_cursor (hread : state.Readable front) (halike : state.ReadAlike front) :
    (state.cursor front).Seen (state.context.analyzeFrom front) := by
  induction hn : front.length using Nat.strong_induction_on generalizing state front with
  | _ n ih =>
    cases front with
    | nil =>
      rw [cursor]
      rfl
    | cons word following =>
      rw [cursor]
      by_cases hseparator : word = "--"
      · have hconsume : state.context.consume word =
            (true, { state.context with passthrough := true }) := by
          unfold CompletionContext.consume
          have hpending : state.context.pendingValue = none := rfl
          simp only [hpending, if_pos hseparator]
        rw [if_pos hseparator, CompletionContext.analyzeFrom, hconsume]
        rfl
      rw [if_neg hseparator]
      rw [ReadAlike] at halike
      cases hword : state.parseWord word following with
      | error e =>
        obtain ⟨option, hawaited, rfl, -⟩ := awaited_of_readable hseparator hword hread
        have hoption : state.isOption state.positionals.length word = true := by
          by_contra hno
          rw [awaited, if_neg hno] at hawaited
          cases hawaited
        have hconsume := consume_option state.context rfl hseparator hoption
        have hawaits : state.awaits word = some option := by
          rwa [awaited, if_pos hoption] at hawaited
        simp only [hawaited, Option.map_some, Option.getD_some]
        rw [analyzeFrom_cons hconsume]
        exact ⟨rfl, hawaits, rfl⟩
      | ok read =>
        obtain ⟨taken, next⟩ := read
        obtain ⟨hvalue, hrest⟩ := halike hseparator taken next hword
        obtain ⟨hone, hnil⟩ := taken_le_one hseparator hword
        obtain ⟨hconsume, htaken, hfollows⟩ := consume_context hseparator hword
        dsimp only
        by_cases hend : following.drop taken = []
        · rw [if_pos hend]
          show state.context.analyzeFrom (word :: following) = { next.context with
            pendingValue := (state.detachedValue word following).bind next.awaited }
          rw [analyzeFrom_cons hconsume]
          cases hdetached : state.detachedValue word following with
          | some value =>
            obtain ⟨rest, rfl⟩ := head_of_detachedValue hdetached
            obtain rfl : taken = 1 := by
              rw [hdetached, Option.isSome_some, Bool.or_true] at htaken
              exact htaken
            change rest = [] at hend
            subst hend
            have hnone : state.awaited word = none := by
              cases hsome : state.awaited word with
              | none => rfl
              | some option =>
                rw [detachedValue_of_awaited hsome] at hdetached
                cases hdetached
            rw [hnone]
            exact analyzeFrom_cons (consume_passesOver (hvalue value hdetached).1)
          | none =>
            cases hawaited : state.awaited word with
            | none =>
              obtain rfl : taken = 0 := by
                rw [htaken, hawaited, hdetached]
                rfl
              change following = [] at hend
              rw [hend]
              rfl
            | some option =>
              rw [hawaited] at hfollows htaken
              obtain ⟨first, rest, rfl⟩ := List.exists_cons_of_ne_nil (hfollows rfl)
              subst htaken
              change rest = [] at hend
              rw [hend]
              rfl
        · rw [if_neg hend, analyzeFrom_drop hseparator hword hvalue hend]
          have hlength : (following.drop taken).length < n := by
            rw [← hn, List.length_drop, List.length_cons]
            omega
          exact ih _ hlength (readable_next hseparator hword hread) hrest rfl

/-! ## One offer -/

theorem parseLoop_singleton {after : ParseState} : state.parseLoop [w] = .ok ⟨after, false⟩ ↔
    w ≠ "--" ∧ ∃ taken, state.parseWord w [] = .ok (taken, after) := by
  by_cases hseparator : w = "--"
  · rw [parseLoop, if_pos hseparator]
    simp [hseparator]
  · rw [parseLoop, if_neg hseparator]
    cases hword : state.parseWord w [] with
    | error e =>
      constructor
      · intro h
        cases h
      · rintro ⟨-, taken, h⟩
        cases h
    | ok read =>
      obtain ⟨taken, next⟩ := read
      rw [ok_bind]
      dsimp only
      rw [List.drop_nil, parseLoop]
      constructor
      · intro h
        cases h
        exact ⟨hseparator, taken, rfl⟩
      · rintro ⟨-, count, h⟩
        cases h
        rfl

/-- What is offered at a turn of the parser. -/
def Offer.Stands (state : ParseState) : Offer → Prop
  | .command c => c ∈ state.availableCommands ∧ state.positionals = []
  | .option o w => o ∈ state.visibleOptions ∧ state.Fresh o ∧ w ∈ o.spellings
  | .pending _ _ => False
  | .inline o value => o ∈ state.visibleOptions ∧ value ∈ o.possibleValues
  | .argument a value => state.nextArgument state.positionals.length = some a ∧
      value ∈ a.possibleValues

theorem admits_of_mem {valueType : ValueType} {possible : List String} {value : String}
    (hmem : value ∈ possible) :
    Admits valueType possible value ↔ valueType.accepts value = true :=
  ⟨fun h => h.1, fun h => ⟨h, fun _ => hmem⟩⟩

theorem read_argument {argument : ArgumentSpec} {value : String}
    (hnext : state.nextArgument state.positionals.length = some argument)
    (hvalue : value ∈ argument.possibleValues) :
    state.parseLoop [value] =
        .ok ⟨{ state with positionals := state.positionals ++ [value] }, false⟩ ↔
      state.isOption state.positionals.length value = false ∧
        argument.valueType.accepts value = true ∧
        (state.positionals = [] → ∀ command ∈ state.availableCommands,
          command.matches value = false) := by
  rw [parseLoop_singleton]
  constructor
  · rintro ⟨-, taken, hword⟩
    have hoption : state.isOption state.positionals.length value = false := by
      by_contra hoption
      have hplain := plain_option (Bool.not_eq_false _ ▸ hoption) hword
      simp [plain] at hplain
    rw [(parseWord_plain hoption).2.2, parsePlain] at hword
    have hcommand : (if state.positionals.isEmpty then state.enterCommand value else none) =
        none := by
      cases henter : (if state.positionals.isEmpty then state.enterCommand value else none) with
      | none => rfl
      | some entered =>
        rw [henter] at hword
        cases hword
        split at henter
        · obtain ⟨command, -, hentered⟩ := Option.map_eq_some_iff.1 henter
          have hlength := congrArg (fun s => s.positionals.length) hentered
          simp at hlength
        · cases henter
    rw [hcommand] at hword
    obtain ⟨pushed, hpush, -⟩ := bind_eq_ok.1 hword
    unfold pushPositional at hpush
    rw [hnext] at hpush
    obtain ⟨_, hadmits, -⟩ := bind_eq_ok.1 hpush
    refine ⟨hoption, (validateValue_eq_ok.1 hadmits).1, fun hnone command hmem => ?_⟩
    rw [hnone, List.isEmpty_nil, if_pos rfl, enterCommand, Option.map_eq_none_iff] at hcommand
    exact Bool.eq_false_iff.2 (List.find?_eq_none.1 hcommand command hmem)
  · rintro ⟨hoption, haccepts, hnames⟩
    obtain ⟨hdashes, -, hplain⟩ := @parseWord_plain state [] value hoption
    refine ⟨?_, 0, ?_⟩
    · rintro rfl
      cases hdashes
    · rw [hplain, parsePlain_positional hnames ⟨argument, hnext, (admits_of_mem hvalue).2 haccepts⟩]

variable (hvalid : spec.validate = .ok ()) (hstate : Proper spec state)

include hvalid hstate

theorem checked_of_visible (hmem : option ∈ state.visibleOptions) :
    (option.long ≠ "" ∧ '=' ∉ option.long.toList) ∧ option.short ≠ some '-' ∧
      (option.possibleValues ≠ [] → option.value ≠ .forbidden) := by
  have hvisible : option ∈ (Scope.mk spec state.commands).visibleOptions := by
    rwa [← hstate.spec_eq]
  obtain ⟨_, _, _, ⟨_, _⟩, hchecked⟩ := validateOption_of_validate hvalid hstate.path hvisible
  obtain ⟨hshort, hmode⟩ := of_validateOption hchecked
  exact ⟨name_of_validateOption hchecked, (shorts_of_validateShort hshort).1, hmode⟩

theorem nodup_shorts : (state.visibleOptions.filterMap OptionSpec.short).Nodup := by
  have hnodup := visible_of_validate
    (P := fun options => (options.filterMap OptionSpec.short).Nodup) ?_ List.nodup_nil hvalid
    hstate.path
  · rwa [← hstate.spec_eq] at hnodup
  · intro path commands options arguments inherited hinherited hlevel
    obtain ⟨_, -, hlevel⟩ := bind_eq_ok.1 hlevel
    obtain ⟨_, hoptions, -⟩ := bind_eq_ok.1 hlevel
    obtain ⟨_, heach, -⟩ := bind_eq_ok.1 hoptions
    rw [List.filterMap_append]
    exact nodup_shorts_of_validateEachOption hinherited heach

/-- A short name alone reads its option. -/
theorem parseWord_short (hmem : option ∈ state.visibleOptions) {c : Char}
    (hc : option.short = some c) :
    state.parseWord ("-" ++ c.toString) [] = state.readOption [] option none true := by
  have hlist : ("-" ++ c.toString).toList = ['-', c] := by simp
  have hdash : c ≠ '-' := fun hdash =>
    (checked_of_visible hvalid hstate hmem).2.1 (by rw [hc, hdash])
  have hfind : state.findShortOption c = some option :=
    find?_of_unique (List.mem_reverse.2 hmem) (by simp [hc]) fun other hother hshort =>
      eq_of_short_eq (nodup_shorts hvalid hstate) (List.mem_reverse.1 hother) hmem
        (beq_iff_eq.1 hshort) hc
  have hdashes : stripDashes ("-" ++ c.toString) = none := by
    unfold stripDashes
    rw [hlist]
    split
    next raw heq =>
      cases heq
      exact absurd rfl hdash
    · rfl
  have hshort : isShortOption ("-" ++ c.toString) = true := by
    unfold isShortOption
    rw [hlist]
    split
    next heq => cases heq
    next heq =>
      cases heq
      exact absurd rfl hdash
    · rfl
    next heq => exact absurd rfl (heq [c])
  have haccepts : state.acceptsNegativePositional state.positionals.length
      ("-" ++ c.toString) = false := by
    unfold Scope.acceptsNegativePositional
    split
    · rfl
    · simp [hfind]
  unfold parseWord
  simp only [hdashes, hshort, haccepts, hlist, Bool.not_false, Bool.and_true, if_true,
    List.tail_cons]
  unfold parseShortOptions
  simp only [hfind]
  have hremainder : remainder [] = none := rfl
  rw [hremainder]
  cases hread : state.readOption [] option none true with
  | error e => rfl
  | ok read =>
    obtain ⟨taken, next⟩ := read
    rw [ok_bind]
    dsimp only
    split
    · rfl
    next hmode =>
      have htaken := (of_readOption hread).2.1
      have hforbidden : option.value = .forbidden := by simpa using hmode
      simp [OptionSpec.awaits, OptionSpec.detached, hforbidden] at htaken
      rw [htaken]
      rfl

theorem read_command {command : CommandSpec} (hmem : command ∈ state.availableCommands)
    (hnone : state.positionals = []) :
    state.parseLoop [command.name] = .ok ⟨state.through [command], false⟩ ↔
      state.isOption 0 command.name = false := by
  have hzero : state.positionals.length = 0 := by rw [hnone]; rfl
  rw [parseLoop_singleton]
  constructor
  · rintro ⟨-, taken, hword⟩
    by_contra hoption
    rw [Bool.not_eq_false, ← hzero] at hoption
    have hplain := plain_option hoption hword
    simp [plain, through] at hplain
  · intro hoption
    rw [← hzero] at hoption
    obtain ⟨hdashes, -, hplain⟩ := @parseWord_plain state [] command.name hoption
    refine ⟨?_, 0, ?_⟩
    · intro hseparator
      rw [hseparator] at hdashes
      cases hdashes
    · rw [hplain]
      have hpath : spec.IsPath (state.commands ++ [command]) := by
        refine isPathFrom_concat.2 ⟨hstate.path, ?_⟩
        rw [← hstate.spec_eq]
        exact hmem
      refine parsePlain_command hvalid hstate.spec_eq hpath hnone (matches_iff.2 ?_)
      exact List.mem_cons_self

theorem read_inline {value : String} (hmem : option ∈ state.visibleOptions)
    (hvalue : value ∈ option.possibleValues) :
    state.parseLoop ["--" ++ option.long ++ "=" ++ value] =
        .ok ⟨(Offer.inline option value).after state, false⟩ ↔
      state.Fresh option ∧ option.valueType.accepts value = true := by
  obtain ⟨hname, -, hmodes⟩ := checked_of_visible hvalid hstate hmem
  have hmode := hmodes (List.ne_nil_of_mem hvalue)
  have hread : optionValue [] (some value) option false = .ok (some value, 0) := by
    unfold optionValue
    cases hoption : option.value with
    | forbidden => exact absurd hoption hmode
    | optional => rfl
    | required => rfl
  have hword : state.parseWord ("--" ++ option.long ++ "=" ++ value) [] =
      state.pushOption option (some value) >>= fun pushed => .ok (0, pushed) := by
    have hlong := @parseWord_long state option [] (nodup_visible hvalid hstate) hmem hname
      (some value)
    refine hlong.trans ?_
    rw [readOption, hread, ok_bind]
  rw [parseLoop_singleton, hword]
  constructor
  · rintro ⟨-, taken, h⟩
    obtain ⟨pushed, hpush, -⟩ := bind_eq_ok.1 h
    obtain ⟨-, hfresh, hadmits⟩ := pushOption_iff.1 hpush
    exact ⟨hfresh, (hadmits value rfl).1⟩
  · rintro ⟨hfresh, haccepts⟩
    have hpush := pushOption_iff.2 ⟨rfl, hfresh, fun v hv =>
      Option.some.inj hv ▸ (admits_of_mem hvalue).2 haccepts⟩
    refine ⟨@word_ne_separator ⟨option.long, some value⟩ hname.1, 0, ?_⟩
    rw [hpush]
    rfl

/-- An option that may come takes its place, or it lacks its required value. -/
theorem read_option {word : String} (hmem : option ∈ state.visibleOptions)
    (hfresh : state.Fresh option) (hword : word ∈ option.spellings) :
    state.parseLoop [word] = .ok ⟨(Offer.option option word).after state, false⟩ ∨
      state.parseLoop [word] = .error option.missingValue := by
  have hname := (checked_of_visible hvalid hstate hmem).1
  have hread : ∃ short, word ≠ "--" ∧
      state.parseWord word [] = state.readOption [] option none short := by
    rcases List.mem_cons.1 hword with rfl | hshort
    · exact ⟨false, @word_ne_separator ⟨option.long, none⟩ hname.1,
        parseWord_long (nodup_visible hvalid hstate) hmem hname none⟩
    · obtain ⟨c, hc, rfl⟩ := List.mem_map.1 hshort
      have hc : option.short = some c := by simpa using hc
      refine ⟨true, ?_, parseWord_short hvalid hstate hmem hc⟩
      intro hseparator
      have hlist := congrArg String.toList hseparator
      rw [String.toList_append] at hlist
      refine (checked_of_visible hvalid hstate hmem).2.1 (hc.trans (congrArg some ?_))
      simpa using hlist
  obtain ⟨short, hseparator, hread⟩ := hread
  have hpush := pushOption_iff.2 ⟨rfl, hfresh, fun v (hv : none = some v) => by cases hv⟩
  cases hmode : option.value with
  | required =>
    right
    refine parseLoop_error hseparator (hread.trans ?_)
    have hvalue : optionValue [] none option short = .error option.missingValue := by
      simp [optionValue, hmode]
    rw [readOption, hvalue]
    rfl
  | forbidden =>
    left
    refine parseLoop_singleton.2 ⟨hseparator, 0, hread.trans ?_⟩
    have hvalue : optionValue [] none option short = .ok (none, 0) := by
      simp [optionValue, hmode]
    rw [readOption, hvalue, ok_bind]
    dsimp only
    rw [hpush]
    rfl
  | optional =>
    left
    refine parseLoop_singleton.2 ⟨hseparator, 0, hread.trans ?_⟩
    have hvalue : optionValue [] none option short = .ok (none, 0) := by
      simp [optionValue, optionalValue, hmode]
    rw [readOption, hvalue, ok_bind]
    dsimp only
    rw [hpush]
    rfl

/-- **One offer** is read exactly when it fits. -/
theorem isRead_iff_fits {taker mistaken : Option OptionSpec} {offer : Offer}
    (hbehind : (Cursor.turn state taker mistaken).Behind (spec.start.parseLoop front)
      fun w => spec.start.parseLoop (front ++ [w]))
    (hoffer : offer.Stands state) : offer.IsRead spec front ↔ state.Fits taker offer := by
  obtain ⟨hfront, hmore⟩ := hbehind
  obtain ⟨hfree, htaken⟩ := hmore offer.word
  have hstart (result : Except CliError LoopEnd) : offer.IsReadAt state result ↔
      ∃ s, spec.start.parseLoop front = .ok ⟨s, false⟩ ∧ offer.IsReadAt s result := by
    constructor
    · exact fun h => ⟨state, hfront, h⟩
    · rintro ⟨s, hs, h⟩
      rw [hfront] at hs
      cases hs
      exact h
  have hread : offer.IsRead spec front ↔
      offer.IsReadAt state (spec.start.parseLoop (front ++ [offer.word])) := by
    cases offer with
    | pending option value => cases hoffer
    | command command => exact (hstart _).symm
    | option option word => exact (hstart _).symm
    | inline option value => exact (hstart _).symm
    | argument argument value => exact (hstart _).symm
  rw [hread]
  by_cases hsome : ∃ option ∈ taker, Admits option.valueType option.possibleValues offer.word
  · -- the word is taken as an optional value, and the state has the shape it had
    obtain ⟨option, hoption, hadmits⟩ := hsome
    obtain ⟨after, hloop, hpath, hpositionals, hoptions⟩ := htaken option hoption hadmits
    refine iff_of_false (fun h => ?_) (fun h => h.1 option hoption hadmits)
    dsimp only at hloop
    rw [hloop] at h
    cases offer with
    | pending option value => cases hoffer
    | command command =>
      cases h
      have := congrArg List.length hpath
      simp [Offer.after, through] at this
    | option option word =>
      rcases h with h | h
      · cases h
        simp [Offer.after] at hoptions
      · cases h
    | inline option value =>
      cases h
      simp [Offer.after] at hoptions
    | argument argument value =>
      obtain ⟨-, h⟩ := h
      cases h
      have := congrArg List.length hpositionals
      simp [Offer.after] at this
  · have hno : ∀ option ∈ taker, ¬ Admits option.valueType option.possibleValues offer.word :=
      fun option hoption hadmits => hsome ⟨option, hoption, hadmits⟩
    have hloop := hfree hno
    dsimp only at hloop
    unfold Fits
    rw [hloop, and_iff_right hno]
    cases offer with
    | pending option value => cases hoffer
    | command command => exact read_command hvalid hstate hoffer.1 hoffer.2
    | option option word =>
      exact iff_true_intro (read_option hvalid hstate hoffer.1 hoffer.2.1 hoffer.2.2)
    | inline option value => exact read_inline hvalid hstate hoffer.1 hoffer.2
    | argument argument value =>
      exact (and_iff_right hoffer.1).trans (read_argument hoffer.1 hoffer.2)

omit hvalid hstate

/-! ## All offers -/

variable {typed : String}

theorem forall_mem_filterMap {α : Type} {p : α → Bool} {make : α → Offer} {l : List α}
    {P : Offer → Prop} :
    (∀ offer ∈ (l.filter p).map make, P offer) ↔ ∀ a ∈ l, p a = true → P (make a) := by
  simp only [List.mem_map, List.mem_filter]
  constructor
  · exact fun h a ha hp => h _ ⟨a, ⟨ha, hp⟩, rfl⟩
  · rintro h offer ⟨a, ⟨ha, hp⟩, rfl⟩
    exact h a ha hp

/-- What `complete` offers at a turn of the parser, when nothing is named or waited for. -/
theorem forall_offers {P : Offer → Prop} (hinline : longInlineValue typed = none) :
    (∀ offer ∈ state.context.offers typed, P offer) ↔
      (typed.toList.head? = some '-' → ∀ option ∈ state.visibleOptions, option.hidden = false →
        state.Fresh option → ∀ word ∈ option.spellings, begins typed word = true →
          P (.option option word)) ∧
      (typed.toList.head? ≠ some '-' → state.positionals = [] →
        ∀ command ∈ state.availableCommands, command.hidden = false →
          begins typed command.name = true → P (.command command)) ∧
      ∀ argument, state.nextArgument state.positionals.length = some argument →
        ∀ v ∈ argument.possibleValues, begins typed v = true → P (.argument argument v) := by
  have hoptions : (∀ offer ∈ state.context.pushOptions typed, P offer) ↔
      ∀ option ∈ state.visibleOptions, option.hidden = false → state.Fresh option →
        ∀ word ∈ option.spellings, begins typed word = true → P (.option option word) := by
    have hfresh (option : OptionSpec) : (!option.repeatable &&
        decide (option.long ∈ state.context.usedOptions)) = true ↔ ¬ state.Fresh option := by
      simp [Fresh, mem_usedOptions]
    unfold CompletionContext.pushOptions
    simp only [List.mem_flatMap, List.mem_filter, Bool.not_eq_true']
    constructor
    · intro h option hmem hhidden hnew word hword hbegins
      refine h _ ⟨option, ⟨hmem, hhidden⟩, ?_⟩
      rw [if_neg fun hboth => (hfresh option).1 hboth hnew]
      exact List.mem_map_of_mem (List.mem_filter.2 ⟨hword, hbegins⟩)
    · rintro h offer ⟨option, ⟨hmem, hhidden⟩, hoffer⟩
      split at hoffer
      · cases hoffer
      next hboth =>
        obtain ⟨word, hword, rfl⟩ := List.mem_map.1 hoffer
        obtain ⟨hword, hbegins⟩ := List.mem_filter.1 hword
        exact h option hmem hhidden (not_not.1 fun hno => hboth ((hfresh option).2 hno)) word hword
          hbegins
  have hcommands : (∀ offer ∈ state.context.pushCommands typed, P offer) ↔
      (state.positionals = [] → ∀ command ∈ state.availableCommands, command.hidden = false →
        begins typed command.name = true → P (.command command)) := by
    unfold CompletionContext.pushCommands
    by_cases hnone : state.positionals = []
    · have hzero : ¬ state.context.positionals > 0 := by simp [context, hnone]
      rw [if_neg hzero, forall_mem_filterMap]
      simp only [hnone, true_imp_iff, Bool.and_eq_true, Bool.not_eq_true', and_imp]
      rfl
    · have hpos : state.context.positionals > 0 := List.length_pos_of_ne_nil hnone
      rw [if_pos hpos]
      simp [hnone]
  have harguments : (∀ offer ∈ state.context.pushArgumentValues typed, P offer) ↔
      ∀ argument, state.nextArgument state.positionals.length = some argument →
        ∀ v ∈ argument.possibleValues, begins typed v = true → P (.argument argument v) := by
    unfold CompletionContext.pushArgumentValues
    have hnext : state.context.nextArgument state.context.positionals =
        state.nextArgument state.positionals.length := rfl
    rw [hnext]
    cases state.nextArgument state.positionals.length with
    | none => simp
    | some argument =>
      dsimp only
      rw [forall_mem_filterMap]
      simp
  unfold CompletionContext.offers
  have hpassthrough : state.context.passthrough = false := rfl
  have hpending : state.context.pendingValue = none := rfl
  simp only [hpassthrough, hinline, hpending, Bool.false_eq_true, if_false]
  by_cases hdash : typed.toList.head? = some '-'
  · rw [if_pos hdash, List.forall_mem_append, hoptions, harguments]
    exact ⟨fun h => ⟨fun _ => h.1, fun hno => absurd hdash hno, h.2⟩, fun h => ⟨h.1 hdash, h.2.2⟩⟩
  · rw [if_neg hdash, List.forall_mem_append, hcommands, harguments]
    exact ⟨fun h => ⟨fun hyes => absurd hyes hdash, fun _ => h.1, h.2⟩,
      fun h => ⟨h.2.1 hdash, h.2.2⟩⟩

/-- At the cursor of a readable line, all that is offered is read exactly when it suits. -/
theorem reads_iff_suits {cursor : Cursor} {context : CompletionContext}
    (hvalid : spec.validate = .ok ())
    (hproper : ∀ state taker mistaken, cursor = .turn state taker mistaken → Proper spec state)
    (hbehind : cursor.Behind (spec.start.parseLoop front)
      fun w => spec.start.parseLoop (front ++ [w]))
    (hseen : cursor.Seen context) :
    (∀ offer ∈ context.offers typed, offer.IsRead spec front) ↔ cursor.Suits typed := by
  cases cursor with
  | closed =>
    have hnone : context.offers typed = [] := if_pos hseen
    simp [hnone, Cursor.Suits]
  | value state option =>
    obtain ⟨hscope, hpending, hopen⟩ := hseen
    obtain ⟨hfront, hmore⟩ := hbehind
    unfold CompletionContext.offers Cursor.Suits
    simp only [hopen, hscope, hpending, Bool.false_eq_true, if_false]
    cases hinline : longInlineValue typed with
    | some named =>
      obtain ⟨name, value⟩ := named
      dsimp only
      cases hfind : state.findLongOption name with
      | none => simp
      | some named =>
        dsimp only
        rw [forall_mem_filterMap]
        have hunread (v : String) : ¬ (Offer.inline named v).IsRead spec front := by
          rintro ⟨s, hs, -⟩
          rw [hfront] at hs
          cases hs
        simp [hunread]
    | none =>
      dsimp only
      rw [forall_mem_filterMap]
      refine forall₃_congr fun v hv _ => ?_
      rw [← @admits_of_mem _ option.possibleValues _ hv, ← hmore v]
      exact and_iff_right hfront
  | turn state taker mistaken =>
    have hstate := hproper state taker mistaken rfl
    have hfits (offer : Offer) := @isRead_iff_fits spec state front hvalid hstate taker mistaken
      offer hbehind
    subst hseen
    unfold Cursor.Suits
    cases hinline : longInlineValue typed with
    | some named =>
      obtain ⟨name, value⟩ := named
      unfold CompletionContext.offers
      have hpassthrough : state.context.passthrough = false := rfl
      have hscope : state.context.findLongOption name = state.findLongOption name := rfl
      simp only [hpassthrough, hinline, hscope, Bool.false_eq_true, if_false]
      cases hfind : state.findLongOption name with
      | none => simp
      | some named =>
        dsimp only
        rw [forall_mem_filterMap]
        have hmem := (Scope.of_findLongOption hfind).1
        simp only [Option.some.injEq, forall_eq']
        exact forall₃_congr fun v hv _ => hfits _ ⟨hmem, hv⟩
    | none =>
      cases mistaken with
      | some option =>
        unfold CompletionContext.offers
        have hpassthrough : state.context.passthrough = false := rfl
        simp only [hpassthrough, hinline, Bool.false_eq_true, if_false]
        rw [forall_mem_filterMap]
        have hunread (v : String) : ¬ (Offer.pending option v).IsRead spec front := by
          rintro ⟨hs, -⟩
          rw [hbehind.1] at hs
          cases hs
        simp [hunread]
      | none =>
        dsimp only
        refine (forall_offers hinline).trans ?_
        refine and_congr ?_ (and_congr ?_ ?_)
        · exact imp_congr_right fun _ => forall₅_congr fun option hmem _ hnew word =>
            forall₂_congr fun hword _ => hfits _ ⟨hmem, hnew, hword⟩
        · exact forall₅_congr fun _ hnone command hmem _ =>
            forall_congr' fun _ => hfits _ ⟨hmem, hnone⟩
        · exact forall₅_congr fun argument hnext v hv _ => hfits _ ⟨hnext, hv⟩

/-- Behind words that the parser reads, and completion alike, every word that is offered is read as
what it was offered for exactly when the offers suit the cursor. -/
theorem offers_read_iff {request : CompletionRequest} (hvalid : spec.validate = .ok ())
    (hread : spec.start.Readable (request.front spec.name))
    (halike : spec.start.ReadAlike (request.front spec.name)) :
    (∀ offer ∈ CompletionEngine.offers spec request, offer.IsRead spec (request.front spec.name)) ↔
      (spec.start.cursor (request.front spec.name)).Suits (request.typed spec.name) := by
  have hoffers : CompletionEngine.offers spec request = (CompletionContext.analyzeFrom
      spec.start.context (request.front spec.name)).offers (request.typed spec.name) := by
    unfold CompletionEngine.offers
    rw [hvalid]
    rfl
  have hbehind := behind_cursor hvalid (proper_start spec) hread
  rw [hoffers]
  refine reads_iff_suits hvalid ?_ hbehind (seen_cursor hread halike)
  intro state taker mistaken hcursor
  rw [hcursor] at hbehind
  exact proper_parseLoop hvalid (proper_start spec) hbehind.1

/-- A program with one option, which has one of two colours. -/
def colorSpec : CliSpec where
  name := "demo"
  options := [{
    long := "color"
    value := .required
    possibleValues := ["red", "green"] }]

theorem validate_colorSpec : colorSpec.validate = .ok () := by rfl

/-- `--color g` is completed with a value that the parser takes. -/
theorem offers_read_green : (CompletionEngine.offers colorSpec ⟨["--color", "g"], 1⟩).Forall
    (·.IsRead colorSpec ["--color"]) := by
  have hword : colorSpec.start.parseWord "--color" [] = .error ⟨.missingValue,
      "option `--color` requires a value"⟩ := by rfl
  have hread : colorSpec.start.Readable ["--color"] :=
    Or.inr ⟨colorSpec.options.head (by decide), parseLoop_error (by decide) hword⟩
  have halike : colorSpec.start.ReadAlike ["--color"] := by
    rw [ReadAlike]
    intro _ taken next h
    rw [hword] at h
    cases h
  rw [List.forall_iff_forall_mem]
  refine (@offers_read_iff colorSpec ⟨["--color", "g"], 1⟩ validate_colorSpec hread halike).2 ?_
  have hcursor : colorSpec.start.cursor ["--color"] =
      .value colorSpec.start (colorSpec.options.head (by decide)) := by
    rw [cursor, if_neg (by decide), hword]
    rfl
  show (colorSpec.start.cursor ["--color"]).Suits "g"
  rw [hcursor]
  intro v hv _
  exact ⟨fun _ => rfl, rfl⟩

/-- `--color red --color=r`: the option is there already, and its value is offered once more. -/
theorem repeated_option_offered :
    ¬ ∀ (spec : CliSpec) (request : CompletionRequest), spec.validate = .ok () →
      spec.start.Readable (request.front spec.name) →
      ∀ offer ∈ CompletionEngine.offers spec request,
        offer.IsRead spec (request.front spec.name) := by
  intro h
  let colored : ParseState := { colorSpec.start with options := [⟨"color", some "red"⟩] }
  have hfirst (rest : List String) : colorSpec.start.parseWord "--color" ("red" :: rest) =
      .ok (1, colored) := by rfl
  have hsecond : colored.parseWord "--color=red" [] =
      .error ⟨.duplicateOption, "option `--color` cannot be repeated"⟩ := by rfl
  have hfront : colorSpec.start.parseLoop ["--color", "red"] = .ok ⟨colored, false⟩ := by
    rw [parseLoop_cons (by decide) (hfirst []), List.drop_succ_cons, List.drop_zero, parseLoop]
  obtain ⟨state, -, hbehind⟩ := h colorSpec ⟨["--color", "red", "--color=r"], 2⟩ validate_colorSpec
    (Or.inl ⟨_, hfront⟩) (.inline (colorSpec.options.head (by decide)) "red") (by
      refine List.mem_cons.2 (Or.inl ?_)
      rfl)
  have hrepeated : colorSpec.start.parseLoop ["--color", "red", "--color=red"] =
      .error ⟨.duplicateOption, "option `--color` cannot be repeated"⟩ := by
    rw [parseLoop_cons (by decide) (hfirst _), List.drop_succ_cons, List.drop_zero,
      parseLoop_error (by decide) hsecond]
  have hsame := hrepeated.symm.trans hbehind
  cases hsame

end AppCore
