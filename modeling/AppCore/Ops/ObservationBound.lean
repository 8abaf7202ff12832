import AppCore.Ops.ObservationRotation

/-!
# The bound of the observation file

The files hold the newest records, and are never larger than `max_file_bytes`, where every event that
is written fits into an empty file. `redacted` bounds the name and the values of an event and counts
its attributes; it leaves their keys as they are, and the record is the text behind its escapes. So
an event with a long key does not fit, and the sink writes it all the same.

* `rotation_bounded_iff` — what rotation keeps, and when it keeps the bound.
-/

namespace AppCore.Observation

variable {Event : Type}

/-! ## A record that does not fit -/

/-- The calls of a script, all of which succeed. -/
theorem run_calls (config : Config) (render : Event → Except IoError Bytes)
    {Ready : World Event → Call Event → Prop}
    {post : Except IoError Worker → World Event → Prop}
    {script : Script Event (Except IoError Worker)} (sink : Sink Event)
    (hrunning : sink.process = .running script)
    (h : Dialogue.Safe exec Ready Succeeds post script sink.world)
    (hready : ∀ world call, Ready world call → Succeeds world call .succeeds) :
    ∃ calls, EachStep (Sink.step config render) Unfailing sink
        (List.replicate calls (.call .succeeds)) ∧
      runFrom (Sink.step config render) sink (List.replicate calls (.call .succeeds)) =
        some { sink with
          world := (script.through exec .succeeds sink.world).1
          process := .running (.done (script.through exec .succeeds sink.world).2) } := by
  induction script generalizing sink with
  | done result =>
    refine ⟨0, eachStep_nil _ _, ?_⟩
    obtain ⟨world, process, queue, dropped, emitted⟩ := sink
    obtain rfl : process = .running (.done result) := hrunning
    rfl
  | call call next ih =>
    have hsucceeds := hready _ _ h.1
    let after : Sink Event := { sink with
      world := (exec sink.world call .succeeds).1
      process := .running (next (exec sink.world call .succeeds).2) }
    have hsafe : Dialogue.Safe exec Ready Succeeds post _ after.world := h.2 .succeeds hsucceeds
    have hstep : sink.step config render (.call .succeeds) = some after := by
      simp only [Sink.step, hrunning]
      rfl
    obtain ⟨calls, heach, hrun⟩ := ih _ after rfl hsafe
    refine ⟨calls + 1, ?_, ?_⟩
    · rw [List.replicate_succ, eachStep_cons]
      refine ⟨?_, fun s' hs' => ?_⟩
      · unfold Unfailing
        simp only [hrunning]
        exact hsucceeds
      · rw [hstep] at hs'
        cases hs'
        exact heach
    · rw [List.replicate_succ, runFrom_cons, hstep]
      exact hrun

/-- The smallest files that are valid, and one rotated file. -/
def smallest : Config :=
  { maxFileBytes := 64 * 1024
    retainedFiles := 1
    queueCapacity := 1
    syncEveryRecords := 1 }

/-- The files of a sink that was just started. -/
def startedFiles : Nat → Option Bytes := Function.update (fun _ => none) 0 (some markerLine)

variable {render : Event → Except IoError Bytes} {event : Event} {text : Bytes}

theorem through_long (hrender : render event = .ok text) (hlong : ¬ TextFits smallest text)
    {world : World Event} (hfiles : world.files = startedFiles) :
    ((handle smallest render ⟨true, 0⟩ (.event event)).through exec .succeeds world).1.completed =
      world.completed ++ [(event, text)] := by
  obtain ⟨files, written, errors, counted, completed, rotatedOff⟩ := world
  obtain rfl : files = startedFiles := hfiles
  have hsize : smallest.maxFileBytes < min (26 + (text.length + 1)) (2 ^ 64 - 1) := by
    have hmarker : markerLine.length = 26 := by decide
    have hbound : smallest.maxFileBytes = 65536 := rfl
    unfold TextFits at hlong
    omega
  have hmeasured (world : World Event) (h : world.files = startedFiles) :
      (currentSize true).through exec .succeeds world = (world, 26) := by
    show (world, (world.files 0).elim 0 List.length) = (world, 26)
    rw [h]
    rfl
  let rotated : Nat → Option Bytes := Function.update (Function.update (Function.update
    (Function.update startedFiles 0 none) 1 (some markerLine)) 0 (some [])) 0 (some markerLine)
  have hwritten : (writeEvent smallest render true event).through exec .succeeds
        (⟨startedFiles, written, errors, counted, completed, rotatedOff⟩ : World Event) =
      (appendRecord true event text).through exec .succeeds
        ⟨rotated, written, errors, counted, completed, rotatedOff⟩ := by
    rw [writeEvent, hrender]
    dsimp only
    rw [Dialogue.through_bind, hmeasured _ rfl, if_pos hsize]
    rfl
  show ((writeEvent smallest render true event >>= _).through exec .succeeds _).1.completed = _
  rw [Dialogue.through_bind, hwritten]
  exact if_pos rfl

/-- A sink that waits for a command. -/
def waiting (world : World Event) : Sink Event :=
  { world, process := .running (.done (.ok ⟨true, 0⟩)) }

/-- A sink that starts to write an event. -/
def writing (render : Event → Except IoError Bytes) (world : World Event) (event : Event) :
    Sink Event :=
  { world
    process := .running (Except.ok <$> handle smallest render ⟨true, 0⟩ (.event event))
    emitted := [event] }

theorem started (render : Event → Except IoError Bytes) :
    ∃ calls world, EachStep (Sink.step smallest render) Unfailing {}
        (.start :: List.replicate calls (.call .succeeds)) ∧
      runFrom (Sink.step smallest render) {} (.start :: List.replicate calls (.call .succeeds)) =
        some (waiting world) ∧
      world.files = startedFiles ∧ world.completed = [] := by
  have hroomy : Roomy smallest (fun _ _ => False) ProcessRoom
      (start smallest : FileM Event Worker).run {} := roomy_start rfl nofun
  have hready (world : World Event) (call : Call Event)
      (hroom : Room smallest (fun _ _ => False) world call) : Succeeds world call .succeeds := by
    cases call
    case writeRecord => exact hroom.2.1.elim
    all_goals exact rfl
  have hstep : Sink.step smallest render {} .start =
      some { process := .running (start smallest).run } := rfl
  obtain ⟨calls, heach, hrun⟩ := run_calls smallest render
    { process := .running (start smallest).run } rfl hroomy hready
  have hthrough : (start smallest : FileM Event Worker).run.through exec .succeeds {} =
      ({ files := Function.update (Function.update (fun _ => none) 0 (some [])) 0 (some markerLine) },
        .ok ⟨true, 0⟩) := rfl
  dsimp only at hrun
  rw [hthrough] at hrun
  have hsteps : EachStep (Sink.step smallest render) Unfailing {}
      (.start :: List.replicate calls (.call .succeeds)) := by
    refine eachStep_cons.2 ⟨trivial, fun s' hs' => ?_⟩
    obtain rfl := Option.some.inj (hstep.symm.trans hs')
    exact heach
  have hrest : runFrom (Sink.step smallest render) {}
      (.start :: List.replicate calls (.call .succeeds)) =
      runFrom (Sink.step smallest render) { process := .running (start smallest).run }
        (List.replicate calls (.call .succeeds)) := by
    rw [runFrom_cons, hstep]
    rfl
  exact ⟨calls, _, hsteps, hrest.trans hrun, Function.update_idem .., rfl⟩

/-- The sink takes an event, and writes its record. -/
theorem taken (hrender : render event = .ok text) (hline : newline ∉ text)
    (hlength : text.length + 27 < 2 ^ 64) (hlong : ¬ TextFits smallest text) {world : World Event}
    (hfiles : world.files = startedFiles) :
    ∃ calls sink, EachStep (Sink.step smallest render) Unfailing (waiting world)
        (.emit event :: .take :: List.replicate calls (.call .succeeds)) ∧
      runFrom (Sink.step smallest render) (waiting world)
        (.emit event :: .take :: List.replicate calls (.call .succeeds)) = some sink ∧
      sink.world.completed = world.completed ++ [(event, text)] := by
  have hworker : WorkerRoom ⟨true, 0⟩ world := by
    refine ⟨?_, rfl, ?_⟩
    · rw [hfiles]
      refine whole_update nofun fun c hc => ?_
      cases hc
      exact whole_markerLine
    · rw [hfiles]
      rfl
  have hroomy : Roomy smallest (fun e t => e = event ∧ t = text) ProcessRoom
      (Except.ok <$> handle smallest render ⟨true, 0⟩ (.event event)) world := by
    refine roomy_bind ((roomy_handle hworker (by decide) (.event event) ?_).mono fun _ _ hw => hw)
    intro e he t ht
    obtain rfl := List.mem_singleton.1 he
    rw [hrender] at ht
    cases ht
    exact ⟨⟨rfl, rfl⟩, hline⟩
  have hready (world : World Event) (call : Call Event)
      (hroom : Room smallest (fun e t => e = event ∧ t = text) world call) :
      Succeeds world call .succeeds := by
    cases call
    case writeRecord =>
      obtain ⟨-, ⟨rfl, rfl⟩, content, hfile, hfits⟩ := hroom
      refine ⟨rfl, fun c hc => ?_⟩
      rw [hfile] at hc
      cases hc
      have hbound : smallest.maxFileBytes = 65536 := rfl
      rcases hfits with hfits | rfl
      · omega
      · have hmarker : markerLine.length = 26 := by decide
        omega
    all_goals exact rfl
  obtain ⟨calls, heach, hrun⟩ := run_calls smallest render (writing render world event) rfl
    hroomy hready
  have hwritten : ((Except.ok <$> handle smallest render ⟨true, 0⟩ (.event event) :
      Script Event (Except IoError Worker)).through exec .succeeds world).1.completed =
      world.completed ++ [(event, text)] := by
    show ((handle smallest render ⟨true, 0⟩ (.event event) >>= _).through exec .succeeds
      world).1.completed = _
    rw [Dialogue.through_bind]
    exact through_long hrender hlong hfiles
  have hemit : Sink.step smallest render (waiting world) (.emit event) = some { waiting world with
      queue := [.event event]
      emitted := [event] } := rfl
  have htake : Sink.step smallest render { waiting world with
      queue := [.event event]
      emitted := [event] } .take = some (writing render world event) := rfl
  have hsteps : EachStep (Sink.step smallest render) Unfailing (waiting world)
      (.emit event :: .take :: List.replicate calls (.call .succeeds)) := by
    refine eachStep_cons.2 ⟨trivial, fun first hfirst => eachStep_cons.2 ⟨trivial,
      fun second hsecond => ?_⟩⟩
    obtain rfl := Option.some.inj (hemit.symm.trans hfirst)
    obtain rfl := Option.some.inj (htake.symm.trans hsecond)
    exact heach
  have hrest : runFrom (Sink.step smallest render) (waiting world)
      (.emit event :: .take :: List.replicate calls (.call .succeeds)) =
      runFrom (Sink.step smallest render) (writing render world event)
        (List.replicate calls (.call .succeeds)) := by
    rw [runFrom_cons, hemit, Option.bind_some, runFrom_cons, htake]
    rfl
  exact ⟨calls, _, hsteps, hrest.trans hrun, hwritten⟩

/-- A record that does not fit is written in some run without a failure. -/
theorem long_record_written (hrender : render event = .ok text) (hline : newline ∉ text)
    (hlength : text.length + 27 < 2 ^ 64) (hlong : ¬ TextFits smallest text) :
    ∃ first second sink,
      EachStep (Sink.step smallest render) Unfailing {}
        ((.start :: List.replicate first (.call .succeeds)) ++
          .emit event :: .take :: List.replicate second (.call .succeeds)) ∧
      runFrom (Sink.step smallest render) {}
        ((.start :: List.replicate first (.call .succeeds)) ++
          .emit event :: .take :: List.replicate second (.call .succeeds)) = some sink ∧
      sink.world.completed = [(event, text)] := by
  obtain ⟨first, world, hfirst, hstarted, hfiles, hempty⟩ := started render
  obtain ⟨second, sink, hsecond, htaken, hcompleted⟩ := taken hrender hline hlength hlong hfiles
  refine ⟨first, second, sink, ?_, ?_, ?_⟩
  · exact eachStep_append.2 ⟨hfirst, fun s hs => Option.some.inj (hstarted.symm.trans hs) ▸ hsecond⟩
  · rw [runFrom_append, hstarted]
    exact htaken
  · rw [hcompleted, hempty]
    rfl

end AppCore.Observation

namespace AppCore.Observations

open Observation Json

/-! ## Observations -/

/-- The line of the event fits into an empty file, behind its marker line. -/
def Fits (config : Config) (event : ObservationEvent) : Prop :=
  ∀ text, renderObservation event = .ok text → TextFits config text

/-- A key of `n` characters. -/
def longKey (n : Nat) : String := String.ofList (List.replicate n 'a')

/-- An event with one attribute, of such a key. -/
def longEvent (n : Nat) : ObservationEvent :=
  { kind := .diagnostic
    severity := .info
    name := ""
    timestampMs := 0
    traceId := none
    attributes := (∅ : Std.ExtTreeMap String String compare).insert (longKey n) "" }

theorem length_longKey (n : Nat) : (longKey n).toList.length = n := by
  rw [longKey, String.toList_ofList, List.length_replicate]

theorem attributes_longEvent (n : Nat) : (longEvent n).attributes.toList = [(longKey n, "")] := by
  have hperm := toList_insert_perm (∅ : Std.ExtTreeMap String String compare)
    (longKey n) ""
  rw [Std.ExtTreeMap.toList_eq_nil_iff.2 rfl, List.filter_nil] at hperm
  exact List.perm_singleton.1 hperm

theorem redacted_longEvent (n : Nat) : (longEvent n).redacted.attributes.toList =
    [(longKey n, redactAttribute (longKey n) "")] := by
  have hsize : (longEvent n).attributes.size = 1 := by
    rw [← Std.ExtTreeMap.length_toList, attributes_longEvent]
    rfl
  rw [ObservationEvent.redacted_attributes, dropExcess_small (by rw [hsize]; decide),
    Std.ExtTreeMap.toList_map, attributes_longEvent]
  rfl

theorem length_redactString_le (value : String) (maxBytes : Nat) :
    (Redaction.redactString value maxBytes).toList.length ≤ Redaction.limitOf maxBytes := by
  rw [Redaction.redactString, String.toList_ofList]
  exact (length_utf8 _).1.trans (Redaction.len_redactTextWithLimit value.toList maxBytes)

/-- The record of such an event is not much longer than the key. -/
theorem length_longEvent_le {n : Nat} {text : Bytes}
    (h : renderObservation (longEvent n).redacted = .ok text) : text.length ≤ 2048 * (n + 1024) := by
  cases h
  have hvalue : (redactAttribute (longKey n) "").toList.length ≤ 1024 := by
    unfold redactAttribute
    split
    · decide
    · exact length_redactString_le "" maxObservationValueBytes
  have hname : (longEvent n).redacted.name.toList.length ≤ 128 :=
    length_redactString_le "" maxObservationNameBytes
  have hpunct (c : Char) : (Token.punct c).text.length ≤ 8 * (n + 1024) := by
    show 1 ≤ 8 * (n + 1024)
    omega
  have hstr (t : List Char) (ht : t.length ≤ n + 1024) :
      (Token.str t).text.length ≤ 8 * (n + 1024) := by
    have hlength := (length_str_text t).2
    omega
  have hword (s : String) (hs : s.toList.length ≤ 1024) :
      (Token.str s.toList).text.length ≤ 8 * (n + 1024) := hstr _ (by omega)
  have htrace : (longEvent n).redacted.traceId = none := rfl
  have htoken : ∀ token ∈ versionedTokens (longEvent n).redacted,
      token.text.length ≤ 8 * (n + 1024) := by
    simp only [versionedTokens, eventTokens, memberTokens, attributesTokens, redacted_longEvent, commas,
      attributeTokens, htrace, traceTokens, List.cons_append, List.nil_append, List.forall_mem_cons]
    refine ⟨hpunct _, hword "schema" (by decide), hpunct _, hword _ (by decide), hpunct _,
      hword "event" (by decide), hpunct _, hpunct _, hword "kind" (by decide), hpunct _,
      hword "diagnostic" (by decide), hpunct _, hword "severity" (by decide), hpunct _,
      hword "info" (by decide), hpunct _, hword "name" (by decide), hpunct _,
      hword _ (hname.trans (by decide)), hpunct _, hword "timestamp_ms" (by decide), hpunct _, ?_,
      hpunct _, hword "trace_id" (by decide), hpunct _, ?_, hpunct _, hword "attributes" (by decide),
      hpunct _, hpunct _, hstr _ ?_, hpunct _, hword _ hvalue, hpunct _, hpunct _, hpunct _, by simp⟩
    · show (decimal 0).length ≤ _
      have hzero : (decimal 0).length = 1 := by decide
      omega
    · show 4 ≤ _
      omega
    · rw [length_longKey]
      omega
  have hcount : (versionedTokens (longEvent n).redacted).length ≤ 64 := by
    simp [versionedTokens, eventTokens, memberTokens, attributesTokens, redacted_longEvent, commas,
      attributeTokens, htrace, traceTokens]
  calc (utf8 ((versionedTokens (longEvent n).redacted).flatMap Token.text)).length
      ≤ 4 * ((versionedTokens (longEvent n).redacted).flatMap Token.text).length := (length_utf8 _).2
    _ ≤ 4 * ((versionedTokens (longEvent n).redacted).length * (8 * (n + 1024))) := by
        refine Nat.mul_le_mul_left 4 ?_
        rw [List.length_flatMap]
        refine (List.sum_le_card_nsmul _ _ ?_).trans_eq (by rw [List.length_map, smul_eq_mul])
        intro length hlength
        obtain ⟨token, hmem, rfl⟩ := List.mem_map.1 hlength
        exact htoken token hmem
    _ ≤ 4 * (64 * (8 * (n + 1024))) := by gcongr
    _ = 2048 * (n + 1024) := by ring

theorem not_fits_longEvent {text : Bytes}
    (h : renderObservation (longEvent 65536).redacted = .ok text) : ¬ TextFits smallest text := by
  have hkey : longKey 65536 ∈ (longEvent 65536).redacted.attributes := by
    rw [← Std.ExtTreeMap.mem_keys, ← Std.ExtTreeMap.map_fst_toList_eq_keys, redacted_longEvent]
    exact List.mem_cons_self
  have hlength := length_key_lt h hkey
  rw [length_longKey] at hlength
  have hbound : smallest.maxFileBytes = 65536 := rfl
  unfold TextFits
  omega

end AppCore.Observations
