import AppCore.Ops.ObservationFile

/-!
# What the observation file keeps

Three things break the file. A process that stops between creating the file and writing all of its
marker leaves a file that `new` refuses for ever. A record written behind the bytes of one that was
cut short shares its line. And where `exists` fails for a rotated file, the next rename replaces it.
In every run without them the sink can be started again, and the records in the files are those
written, in order, behind the ones rotated off.

* `file_survives` — what holds throughout a run.
-/

namespace AppCore.Observation

variable {Event : Type}

/-! ## Lines -/

theorem cutLines_newline (rest : Bytes) :
    cutLines (newline :: rest) = ([] :: (cutLines rest).1, (cutLines rest).2) := by
  simp [cutLines]

theorem cutLines_other {b : UInt8} (hb : b ≠ newline) (rest : Bytes) :
    cutLines (b :: rest) = match (cutLines rest).1 with
      | [] => ([], b :: (cutLines rest).2)
      | line :: lines => ((b :: line) :: lines, (cutLines rest).2) :=
  if_neg hb

theorem newline_notMem_torn (content : Bytes) : newline ∉ (cutLines content).2 := by
  induction content with
  | nil => exact List.not_mem_nil
  | cons b content ih =>
    by_cases hb : b = newline
    · subst hb
      rw [cutLines_newline]
      exact ih
    · rw [cutLines_other hb]
      split
      · rw [List.mem_cons, not_or]
        exact ⟨Ne.symm hb, ih⟩
      · exact ih

theorem cutLines_append (first second : Bytes) :
    cutLines (first ++ second) =
      ((cutLines first).1 ++ (cutLines ((cutLines first).2 ++ second)).1,
        (cutLines ((cutLines first).2 ++ second)).2) := by
  induction first with
  | nil => rfl
  | cons b first ih =>
    rw [List.cons_append]
    by_cases hb : b = newline
    · subst hb
      rw [cutLines_newline, ih, cutLines_newline]
      rfl
    · rw [cutLines_other hb, ih, cutLines_other hb]
      cases hlines : (cutLines first).1 with
      | nil => rw [List.nil_append, List.nil_append, List.cons_append, cutLines_other hb]
      | cons line lines => rfl

variable {text : Bytes}

theorem cutLines_of_notMem (h : newline ∉ text) : cutLines text = ([], text) := by
  induction text with
  | nil => rfl
  | cons b text ih =>
    rw [List.mem_cons, not_or] at h
    rw [cutLines_other (Ne.symm h.1), ih h.2]

theorem cutLines_line (h : newline ∉ text) (rest : Bytes) :
    cutLines (text ++ newline :: rest) = (text :: (cutLines rest).1, (cutLines rest).2) := by
  induction text with
  | nil => exact cutLines_newline rest
  | cons b text ih =>
    rw [List.mem_cons, not_or] at h
    rw [List.cons_append, cutLines_other (Ne.symm h.1), ih h.2]

theorem completeLines_append_part {part : Bytes} (h : newline ∉ part) (content : Bytes) :
    completeLines (content ++ part) = completeLines content := by
  have hboth : newline ∉ (cutLines content).2 ++ part := by
    rw [List.mem_append, not_or]
    exact ⟨newline_notMem_torn content, h⟩
  rw [completeLines, cutLines_append, cutLines_of_notMem hboth, List.append_nil]
  rfl

theorem completeLines_append_line {text content : Bytes} (h : newline ∉ text)
    (htorn : tornTail content = []) :
    completeLines (content ++ (text ++ [newline])) = completeLines content ++ [text] := by
  unfold tornTail at htorn
  rw [completeLines, cutLines_append, htorn, List.nil_append, cutLines_line h]
  rfl

/-! ## Proper files -/

/-- The file starts with the marker line. -/
def Marked (content : Bytes) : Prop := markerLine <+: content

theorem newline_notMem_format : newline ∉ strBytes observationFileFormatV1 := by decide

theorem completeLines_marked (rest : Bytes) :
    completeLines (markerLine ++ rest) = strBytes observationFileFormatV1 :: completeLines rest := by
  rw [markerLine, List.append_assoc, completeLines, List.singleton_append,
    cutLines_line newline_notMem_format]
  rfl

theorem recordLines_marked (rest : Bytes) : recordLines (markerLine ++ rest) = completeLines rest := by
  rw [recordLines, completeLines_marked, List.tail_cons]

theorem firstLine_line (h : newline ∉ text) (rest : Bytes) :
    firstLine (text ++ newline :: rest) = text ++ [newline] := by
  induction text with
  | nil => simp [firstLine]
  | cons b text ih =>
    rw [List.mem_cons, not_or] at h
    rw [List.cons_append, firstLine, if_neg (Ne.symm h.1), ih h.2, List.cons_append]

theorem firstLine_marked {content : Bytes} (h : Marked content) :
    firstLine content = markerLine := by
  obtain ⟨rest, rfl⟩ := h
  rw [markerLine, List.append_assoc, List.singleton_append, firstLine_line newline_notMem_format]

theorem isMarker_markerLine : isMarker markerLine = true := by
  decide

/-! ## The records in the files -/

def linesOf (files : Nat → Option Bytes) (slot : Nat) : List Bytes :=
  ((files slot).map recordLines).getD []

/-- The records of the files from `path.n` down to the active one. -/
def linesDown (files : Nat → Option Bytes) : Nat → List Bytes
  | 0 => linesOf files 0
  | n + 1 => linesOf files (n + 1) ++ linesDown files n

variable {files : Nat → Option Bytes} {slot n : Nat} {content : Option Bytes}

theorem linesOf_update_self : linesOf (Function.update files slot content) slot =
    (content.map recordLines).getD [] := by
  rw [linesOf, Function.update_self]

theorem linesOf_update_ne {other : Nat} (h : other ≠ slot) :
    linesOf (Function.update files slot content) other = linesOf files other := by
  rw [linesOf, Function.update_of_ne h, linesOf]

theorem linesDown_update_above (h : n < slot) :
    linesDown (Function.update files slot content) n = linesDown files n := by
  induction n with
  | zero => exact linesOf_update_ne (Nat.ne_of_lt h)
  | succ n ih => rw [linesDown, linesDown, linesOf_update_ne (by omega), ih (by omega)]

variable {added : List Bytes}

theorem linesDown_active {before after : Bytes} (hfile : files 0 = some before)
    (hadded : recordLines after = recordLines before ++ added) (n : Nat) :
    linesDown (Function.update files 0 (some after)) n = linesDown files n ++ added := by
  induction n with
  | zero =>
    rw [linesDown, linesDown, linesOf_update_self, linesOf, hfile]
    exact hadded
  | succ n ih => rw [linesDown, linesDown, linesOf_update_ne (by omega), ih, List.append_assoc]

theorem linesDown_created (hfile : files 0 = none) (htext : recordLines text = []) (n : Nat) :
    linesDown (Function.update files 0 (some text)) n = linesDown files n := by
  induction n with
  | zero =>
    rw [linesDown, linesDown, linesOf_update_self, linesOf, hfile]
    exact htext
  | succ n ih => rw [linesDown, linesDown, linesOf_update_ne (by omega), ih]

/-- A file that moves up to a free slot keeps its records in their place. -/
theorem linesDown_rename (hsource : files slot = some text) (htarget : files (slot + 1) = none)
    (hn : slot < n) :
    linesDown (Function.update (Function.update files slot none) (slot + 1) (some text)) n =
      linesDown files n := by
  induction n with
  | zero => cases hn
  | succ n ih =>
    rw [linesDown, linesDown]
    by_cases hslot : slot = n
    · subst hslot
      rw [linesOf_update_self, linesDown_update_above (Nat.lt_succ_self slot)]
      have hempty : linesOf files (slot + 1) = [] := by
        rw [linesOf, htarget]
        rfl
      have hdown : linesDown files slot =
          recordLines text ++ linesDown (Function.update files slot none) slot := by
        cases slot with
        | zero =>
          rw [linesDown, linesDown, linesOf_update_self, linesOf, hsource]
          exact (List.append_nil _).symm
        | succ slot =>
          rw [linesDown, linesDown, linesOf_update_self,
            linesDown_update_above (Nat.lt_succ_self slot), linesOf, hsource]
          rfl
      rw [hempty, hdown]
      rfl
    · rw [linesOf_update_ne (by omega), linesOf_update_ne (by omega), ih (by omega)]

theorem linesDown_remove (files : Nat → Option Bytes) (n : Nat) :
    linesOf files (n + 1) ++ linesDown (Function.update files (n + 1) none) (n + 1) =
      linesDown files (n + 1) := by
  rw [linesDown, linesDown, linesOf_update_self, linesDown_update_above (Nat.lt_succ_self n)]
  rfl

/-! ## The invariant -/

variable (config : Config) (render : Event → Except IoError Bytes) (sent : List Event)

/-- Every file starts with the marker line, and the files hold the records that were written whole
and not rotated off, in their order. -/
structure FilesOk (world : World Event) : Prop where
  marked : ∀ slot content, world.files slot = some content → Marked content
  bounded : ∀ slot, config.retainedFiles < slot → world.files slot = none
  lines : world.rotatedOff ++ linesDown world.files config.retainedFiles =
    world.completed.map Prod.snd

/-- The records written and the events counted, against the events handed to the worker. -/
structure Logged (completed : List (Event × Bytes)) (counted : List Event) : Prop where
  rendered : ∀ record ∈ completed, render record.1 = .ok record.2
  counted : counted.Sublist (completed.map Prod.fst)
  sent : (completed.map Prod.fst).Sublist sent

def Settled (world : World Event) : Prop :=
  FilesOk config world ∧ Logged render sent world.completed world.counted

/-- All is settled at every call but the one that writes the marker of a new file. -/
def Ready (world : World Event) (call : Call Event) : Prop :=
  call ≠ .writeMarker → Settled config render sent world

/-- The fates that spare the files: a marker is written whole, no record is completed behind the
bytes of one that was cut short, and no rename replaces a file. -/
def Allowed (world : World Event) : Call Event → Fate → Prop
  | .writeMarker, fate => World.writtenBytes markerLine fate = markerLine
  | .writeRecord _ text, fate =>
    World.writtenBytes (text ++ [newline]) fate = text ++ [newline] →
      ∀ content, world.files 0 = some content → tornTail content = []
  | .rename _ target, fate => fate = .succeeds → world.files target = none
  | _, _ => True

/-- Under those fates the script stays ready, and ends in `post`. -/
abbrev Runs {α : Type} (post : α → World Event → Prop) (script : Script Event α)
    (world : World Event) : Prop :=
  Dialogue.Safe exec (Ready config render sent) Allowed post script world

variable {config render sent} {completed : List (Event × Bytes)} {counted : List Event}
  {world : World Event} {α β : Type}

/-- The files are settled, and the logs are what they were. -/
structure Holds (config : Config) (completed : List (Event × Bytes)) (counted : List Event)
    (world : World Event) : Prop where
  files : FilesOk config world
  completed : world.completed = completed
  counted : world.counted = counted

theorem Holds.settled (h : Holds config completed counted world)
    (hlogged : Logged render sent completed counted) : Settled config render sent world := by
  refine ⟨h.files, ?_⟩
  rw [h.completed, h.counted]
  exact hlogged

theorem runs_bind {post : β → World Event → Prop} {script : Script Event α}
    {next : α → Script Event β}
    (h : Runs config render sent (fun a w => Runs config render sent post (next a) w)
      script world) :
    Runs config render sent post (script >>= next) world :=
  Dialogue.safe_bind h

/-- Behind a function that may return an error. -/
def orElse (post : Except IoError β → World Event → Prop)
    (next : α → World Event → Prop) : Except IoError α → World Event → Prop
  | .ok a, w => next a w
  | .error e, w => post (.error e) w

variable {post : Except IoError β → World Event → Prop} {next : α → FileM Event β}

theorem runs_try {script : FileM Event α}
    (h : Runs config render sent (orElse post fun a w => Runs config render sent post (next a) w)
      script world) :
    Runs config render sent post (script >>= next : FileM Event β) world := by
  refine Dialogue.safe_bind (h.mono fun r w hr => ?_)
  cases r with
  | ok a => exact hr
  | error e => exact hr

theorem runs_lift {script : Script Event α}
    (h : Runs config render sent (fun a w => Runs config render sent post (next a) w)
      script world) :
    Runs config render sent post (ExceptT.lift script >>= next : FileM Event β) world :=
  runs_try (Dialogue.safe_bind h)

/-! ## The calls -/

/-- A call that leaves the files and the logs alone. -/
def Quiet : Call Event → Prop
  | .createDirs | .inspect | .pathExists _ | .syncFile | .syncParent | .readFirstLine | .openFile
  | .metadata | .spawn | .countError => True
  | _ => False

theorem exec_quiet {call : Call Event} (hquiet : Quiet call) (fate : Fate) :
    (exec world call fate).1.files = world.files ∧
      (exec world call fate).1.completed = world.completed ∧
      (exec world call fate).1.counted = world.counted ∧
      (exec world call fate).1.rotatedOff = world.rotatedOff := by
  cases call
  case readFirstLine =>
    cases fate
    · unfold exec
      cases world.files 0
      · exact ⟨rfl, rfl, rfl, rfl⟩
      · exact ⟨rfl, rfl, rfl, rfl⟩
    · exact ⟨rfl, rfl, rfl, rfl⟩
  case openFile =>
    cases fate
    · unfold exec
      cases world.files 0
      · exact ⟨rfl, rfl, rfl, rfl⟩
      · exact ⟨rfl, rfl, rfl, rfl⟩
    · exact ⟨rfl, rfl, rfl, rfl⟩
  all_goals first
    | exact hquiet.elim
    | (cases fate <;> exact ⟨rfl, rfl, rfl, rfl⟩)

theorem FilesOk.congr {other : World Event} (h : FilesOk config world)
    (hfiles : other.files = world.files) (hcompleted : other.completed = world.completed)
    (hrotated : other.rotatedOff = world.rotatedOff) : FilesOk config other := by
  obtain ⟨hmarked, hbounded, hlines⟩ := h
  exact ⟨by rwa [hfiles], by rwa [hfiles], by rwa [hfiles, hcompleted, hrotated]⟩

theorem runs_quiet (call : Call Event) (hlogged : Logged render sent completed counted)
    (hholds : Holds config completed counted world) (hquiet : Quiet call) :
    Runs config render sent (fun r w => Holds config completed counted w ∧
      w.files = world.files ∧ ∃ fate, r = (exec world call fate).2) (ask call) world := by
  refine Dialogue.safe_ask (fun _ => hholds.settled hlogged) fun fate _ => ?_
  obtain ⟨hfiles, hcompleted, hcounted, hrotated⟩ := @exec_quiet Event world call hquiet fate
  refine ⟨⟨hholds.files.congr hfiles hcompleted hrotated, ?_, ?_⟩, hfiles, fate, rfl⟩
  · rw [hcompleted, hholds.completed]
  · rw [hcounted, hholds.counted]

theorem runs_try_quiet {script : FileM Event α} (hscript : Runs config render sent
      (fun _ w => Holds config completed counted w ∧ w.files = world.files) script world)
    (herror : ∀ e w, Holds config completed counted w → post (.error e) w)
    (hnext : ∀ a w, Holds config completed counted w → w.files = world.files →
      Runs config render sent post (next a) w) :
    Runs config render sent post (script >>= next : FileM Event β) world := by
  refine runs_try (hscript.mono fun r w h => ?_)
  cases r with
  | ok a => exact hnext a w h.1 h.2
  | error e => exact herror e w h.1

/-- All holds as before, and the active file is there if the function succeeded. -/
def Done (config : Config) (completed : List (Event × Bytes)) (counted : List Event)
    (result : Except IoError Unit) (world : World Event) : Prop :=
  Holds config completed counted world ∧ (result = .ok () → (world.files 0).isSome = true)

theorem done_error {e : IoError} (h : Holds config completed counted world) :
    Done config completed counted (.error e) world :=
  ⟨h, nofun⟩

variable (hlogged : Logged render sent completed counted)
include hlogged

/-- A file gets its marker before the script can be stopped. -/
theorem runs_createFile (hholds : Holds config completed counted world) :
    Runs config render sent (Done config completed counted) createFile world := by
  refine runs_try (Dialogue.safe_ask (fun _ => hholds.settled hlogged) fun fate _ => ?_)
  cases fate with
  | fails n => exact done_error hholds
  | succeeds =>
    cases hfile : world.files 0 with
    | some content =>
      simp only [exec, hfile]
      exact done_error hholds
    | none =>
      simp only [exec, hfile]
      refine runs_try (Dialogue.safe_ask (fun h => absurd rfl h) fun fate hallowed => ?_)
      have hwhole : World.writtenBytes markerLine fate = markerLine := hallowed
      have hfiles : ((world.put 0 (some [])).append markerLine).files =
          Function.update world.files 0 (some markerLine) := by
        simp [World.append, World.put]
      have hcreated : Holds config completed counted
          ((world.put 0 (some [])).append markerLine) := by
        refine ⟨⟨?_, ?_, ?_⟩, hholds.completed, hholds.counted⟩
        · intro slot content h
          rw [hfiles, Function.update_apply] at h
          split at h
          · cases h
            exact List.prefix_refl _
          · exact hholds.files.marked slot content h
        · intro slot h
          rw [hfiles, Function.update_of_ne (by omega)]
          exact hholds.files.bounded slot h
        · rw [hfiles, linesDown_created hfile (by decide)]
          exact hholds.files.lines
      have hthere : (((world.put 0 (some [])).append markerLine).files 0).isSome = true := by
        rw [hfiles, Function.update_self]
        rfl
      simp only [exec, hwhole]
      generalize (world.put 0 (some [])).append markerLine = created at hcreated hthere
      cases fate with
      | fails n => exact done_error hcreated
      | succeeds =>
        refine runs_try_quiet ((runs_quiet .syncFile hlogged hcreated trivial).mono
          fun _ _ h => ⟨h.1, h.2.1⟩) (fun _ _ h => done_error h) fun _ w hw hsame => ?_
        refine (runs_quiet .syncParent hlogged hw trivial).mono fun _ _ h => ⟨h.1, fun _ => ?_⟩
        rw [h.2.1, hsame]
        exact hthere

theorem runs_checkFile (hholds : Holds config completed counted world) :
    Runs config render sent (Done config completed counted) checkFile world := by
  refine runs_try ((runs_quiet .readFirstLine hlogged hholds trivial).mono fun r w h => ?_)
  obtain ⟨hw, hsame, fate, rfl⟩ := h
  cases fate with
  | fails n => exact done_error hw
  | succeeds =>
    cases hfile : world.files 0 with
    | none =>
      simp only [exec, hfile]
      exact done_error hw
    | some content =>
      simp only [exec, hfile]
      show Runs config render sent _ (if isMarker (firstLine content) then _ else _) w
      split
      · refine ⟨hw, fun _ => ?_⟩
        rw [hsame, hfile]
        rfl
      · exact done_error hw

theorem runs_initializeFile (hholds : Holds config completed counted world) :
    Runs config render sent (Done config completed counted) initializeFile world := by
  refine runs_try_quiet ((runs_quiet .createDirs hlogged hholds trivial).mono
    fun _ _ h => ⟨h.1, h.2.1⟩) (fun _ _ h => done_error h) fun _ w hw _ => ?_
  refine runs_try_quiet ((runs_quiet .inspect hlogged hw trivial).mono
    fun _ _ h => ⟨h.1, h.2.1⟩) (fun _ _ h => done_error h) fun _ w hw _ => ?_
  refine runs_lift ((runs_quiet (.pathExists 0) hlogged hw trivial).mono fun there w h => ?_)
  cases there with
  | true => exact runs_checkFile hlogged h.1
  | false => exact runs_createFile hlogged h.1

theorem runs_openAppend (hholds : Holds config completed counted world) :
    Runs config render sent (Done config completed counted) openAppend world := by
  refine runs_try ((runs_initializeFile hlogged hholds).mono fun r w h => ?_)
  cases r with
  | error e => exact h
  | ok =>
    refine (runs_quiet .openFile hlogged h.1 trivial).mono fun _ _ hopened => ⟨hopened.1, fun _ => ?_⟩
    rw [hopened.2.1]
    exact h.2 rfl

/-! ## Rotation -/

/-- A function that keeps what holds, whether or not it succeeds. -/
def Kept (config : Config) (completed : List (Event × Bytes)) (counted : List Event)
    (_ : Except IoError Unit) (world : World Event) : Prop :=
  Holds config completed counted world

variable {index : Nat}

/-- The records of the last file are rotated off. -/
theorem runs_removeIfExists (hindex : index + 1 = config.retainedFiles)
    (hholds : Holds config completed counted world) :
    Runs config render sent (Kept config completed counted) (removeIfExists (index + 1)) world := by
  have hremoved : Runs config render sent (fun _ w => Holds config completed counted w)
      (ask (.remove (index + 1))) world := by
    refine Dialogue.safe_ask (fun _ => hholds.settled hlogged) fun fate _ => ?_
    cases fate with
    | fails n => exact hholds
    | succeeds =>
      cases hfile : world.files (index + 1) with
      | none =>
        simp only [exec, hfile]
        exact hholds
      | some content =>
        simp only [exec, hfile]
        refine ⟨⟨?_, ?_, ?_⟩, hholds.completed, hholds.counted⟩
        · intro slot other h
          have hother : Function.update world.files (index + 1) none slot = some other := h
          rw [Function.update_apply] at hother
          split at hother
          · cases hother
          · exact hholds.files.marked slot other hother
        · intro slot h
          show Function.update world.files (index + 1) none slot = none
          rw [Function.update_of_ne (by omega)]
          exact hholds.files.bounded slot h
        · show (world.rotatedOff ++ recordLines content) ++
            linesDown (Function.update world.files (index + 1) none) config.retainedFiles = _
          have hcontent : recordLines content = linesOf world.files (index + 1) := by
            rw [linesOf, hfile]
            rfl
          rw [List.append_assoc, ← hindex, hcontent, linesDown_remove, hindex]
          exact hholds.files.lines
  refine runs_lift (hremoved.mono fun r w hw => ?_)
  cases r with
  | ok => exact hw
  | error e => cases e <;> exact hw

/-- A file moves up only where there is room for it. -/
theorem runs_renameIfExists (hindex : index + 1 ≤ config.retainedFiles)
    (hholds : Holds config completed counted world) :
    Runs config render sent (Kept config completed counted) (renameIfExists index (index + 1))
      world := by
  refine runs_lift ((runs_quiet (.pathExists index) hlogged hholds trivial).mono fun there w h => ?_)
  obtain ⟨hw, -, -⟩ := h
  cases there with
  | false => exact hw
  | true =>
    refine Dialogue.safe_ask (fun _ => hw.settled hlogged) fun fate hallowed => ?_
    cases fate with
    | fails n => exact hw
    | succeeds =>
      have htarget : w.files (index + 1) = none := hallowed rfl
      cases hfile : w.files index with
      | none =>
        simp only [exec, hfile]
        exact hw
      | some content =>
        simp only [exec, hfile]
        refine ⟨⟨?_, ?_, ?_⟩, hw.completed, hw.counted⟩
        · intro slot other h
          have hother : Function.update (Function.update w.files index none) (index + 1)
              (some content) slot = some other := h
          rw [Function.update_apply] at hother
          split at hother
          · cases hother
            exact hw.files.marked index content hfile
          · rw [Function.update_apply] at hother
            split at hother
            · cases hother
            · exact hw.files.marked slot other hother
        · intro slot h
          show Function.update (Function.update w.files index none) (index + 1)
            (some content) slot = none
          rw [Function.update_of_ne (by omega), Function.update_of_ne (by omega)]
          exact hw.files.bounded slot h
        · show w.rotatedOff ++ linesDown (Function.update (Function.update w.files index none)
            (index + 1) (some content)) config.retainedFiles = _
          rw [linesDown_rename hfile htarget hindex]
          exact hw.files.lines

theorem runs_shiftFiles (hindex : index ≤ config.retainedFiles)
    (hholds : Holds config completed counted world) :
    Runs config render sent (Kept config completed counted) (shiftFiles config index) world := by
  induction index generalizing world with
  | zero => exact hholds
  | succ index ih =>
    have hrest (r : Except IoError Unit) (w : World Event)
        (hw : Kept config completed counted r w) :
        orElse (Kept config completed counted) (fun _ => Runs config render sent
          (Kept config completed counted) (shiftFiles config index)) r w := by
      cases r with
      | error e => exact hw
      | ok => exact ih (by omega) hw
    rw [shiftFiles]
    split
    next hlast => exact runs_try ((runs_removeIfExists hlogged hlast hholds).mono hrest)
    next => exact runs_try ((runs_renameIfExists hlogged (by omega) hholds).mono hrest)

theorem runs_rotateFiles (hretained : 0 < config.retainedFiles)
    (hholds : Holds config completed counted world) :
    Runs config render sent (Done config completed counted) (rotateFiles config) world := by
  refine runs_try ((runs_shiftFiles hlogged le_rfl hholds).mono fun r w hw => ?_)
  cases r with
  | error e => exact done_error hw
  | ok =>
    refine runs_try ((runs_renameIfExists hlogged hretained hw).mono fun r w hw => ?_)
    cases r with
    | error e => exact done_error hw
    | ok => exact runs_initializeFile hlogged hw

/-! ## Records -/

theorem runs_currentSize (file : Bool) (hholds : Holds config completed counted world) :
    Runs config render sent (fun _ w => Holds config completed counted w ∧
      w.files = world.files) (currentSize file) world := by
  cases file with
  | false => exact ⟨hholds, rfl⟩
  | true =>
    refine runs_bind ((runs_quiet .metadata hlogged hholds trivial).mono fun r w h => ?_)
    cases r with
    | ok size => exact ⟨h.1, h.2.1⟩
    | error e => exact ⟨h.1, h.2.1⟩

/-- The rotation of `write_event`. -/
theorem runs_makeRoom (hretained : 0 < config.retainedFiles) (file : Bool)
    (hholds : Holds config completed counted world) :
    Runs config render sent (Done config completed counted) (makeRoom config file) world := by
  have hrest (w : World Event) (hw : Holds config completed counted w) :
      Runs config render sent (Done config completed counted)
        (do
          rotateFiles config
          openAppend : FileM Event Unit) w := by
    refine runs_try ((runs_rotateFiles hlogged hretained hw).mono fun r w h => ?_)
    cases r with
    | error e => exact done_error h.1
    | ok => exact runs_openAppend hlogged h.1
  unfold makeRoom
  cases file with
  | false => exact hrest world hholds
  | true =>
    exact runs_try_quiet ((runs_quiet .syncFile hlogged hholds trivial).mono
      fun _ _ h => ⟨h.1, h.2.1⟩) (fun _ _ h => done_error h) fun _ w hw _ => hrest w hw

omit hlogged

/-- Behind a write: the files are settled, and the record is among those written whole if the write
succeeded. -/
structure Appended (config : Config) (completed : List (Event × Bytes)) (counted : List Event)
    (event : Event) (text : Bytes) (result : Except IoError Unit × Bool) (world : World Event) :
    Prop where
  files : FilesOk config world
  sameCount : world.counted = counted
  whole : world.completed = completed ∨ world.completed = completed ++ [(event, text)]
  written : result.1 = .ok () → world.completed = completed ++ [(event, text)]
  opened : result.2 = true → (world.files 0).isSome = true

variable {event : Event}

theorem appended_error {e : IoError} (h : Holds config completed counted world) :
    Appended config completed counted event text (.error e, false) world :=
  ⟨h.files, h.counted, .inl h.completed, nofun, nofun⟩

theorem recordLines_append {content bytes : Bytes} (hmarked : Marked content)
    (h : completeLines (content ++ bytes) = completeLines content ++ added) :
    recordLines (content ++ bytes) = recordLines content ++ added := by
  obtain ⟨rest, rfl⟩ := hmarked
  rw [recordLines, h, completeLines_marked, recordLines_marked]
  rfl

/-- The active file with more bytes at its end. -/
theorem filesOk_append {content bytes : Bytes} {completed' : List (Event × Bytes)}
    (h : FilesOk config world) (hfile : world.files 0 = some content)
    (hadded : completeLines (content ++ bytes) = completeLines content ++ added)
    (hcompleted : completed'.map Prod.snd = world.completed.map Prod.snd ++ added) :
    FilesOk config { world.append bytes with completed := completed' } := by
  have hmarked := h.marked 0 content hfile
  have hfiles : (world.append bytes).files =
      Function.update world.files 0 (some (content ++ bytes)) := by
    simp [World.append, World.put, hfile]
  refine ⟨?_, ?_, ?_⟩
  · intro slot other hother
    rw [hfiles, Function.update_apply] at hother
    split at hother
    · cases hother
      exact hmarked.trans (List.prefix_append _ _)
    · exact h.marked slot other hother
  · intro slot hslot
    rw [hfiles, Function.update_of_ne (by omega)]
    exact h.bounded slot hslot
  · show world.rotatedOff ++ linesDown (world.append bytes).files config.retainedFiles = _
    rw [hfiles, linesDown_active hfile (recordLines_append hmarked hadded), ← List.append_assoc,
      h.lines, hcompleted]

/-- The write of a record, to an active file that does not end in the middle of one. -/
theorem runs_writeRecord (hlogged : Logged render sent completed counted) (htext : newline ∉ text)
    (hholds : Holds config completed counted world) (hopen : (world.files 0).isSome = true) :
    Runs config render sent (fun r w => Appended config completed counted event text (r, true) w)
      (ask (.writeRecord event text)) world := by
  obtain ⟨content, hfile⟩ := Option.isSome_iff_exists.1 hopen
  refine Dialogue.safe_ask (fun _ => hholds.settled hlogged) fun fate hallowed => ?_
  have hthere : ∀ bytes, ((world.append bytes).files 0).isSome = true := by
    intro bytes
    simp [World.append, World.put, hfile]
  by_cases hwhole : World.writtenBytes (text ++ [newline]) fate = text ++ [newline]
  · have htorn := hallowed hwhole content hfile
    simp only [exec, hwhole, if_true]
    have hcompleted : world.completed ++ [(event, text)] = completed ++ [(event, text)] := by
      rw [hholds.completed]
    refine ⟨?_, hholds.counted, .inr hcompleted, fun _ => hcompleted, fun _ => hthere _⟩
    refine filesOk_append hholds.files hfile (completeLines_append_line htext htorn) ?_
    rw [List.map_append]
    rfl
  · simp only [exec, if_neg hwhole]
    cases fate with
    | succeeds => exact absurd rfl hwhole
    | fails n =>
      have hpart : World.writtenBytes (text ++ [newline]) (.fails n) = text.take n := by
        show (text ++ [newline]).take n = text.take n
        refine List.take_append_of_le_length ?_
        by_contra hlong
        refine hwhole (List.take_of_length_le ?_)
        rw [List.length_append, List.length_singleton]
        omega
      rw [hpart]
      refine ⟨?_, hholds.counted, .inl hholds.completed, nofun, fun _ => hthere _⟩
      have hnone : newline ∉ text.take n := fun hmem => htext (List.mem_of_mem_take hmem)
      refine filesOk_append hholds.files hfile ?_ (List.append_nil _).symm
      rw [completeLines_append_part hnone, List.append_nil]

theorem runs_appendRecord (hlogged : Logged render sent completed counted) (htext : newline ∉ text)
    (file : Bool) (hholds : Holds config completed counted world)
    (hopen : file = true → (world.files 0).isSome = true) :
    Runs config render sent (Appended config completed counted event text)
      (appendRecord file event text) world := by
  have hwrite (w : World Event) (hw : Holds config completed counted w)
      (hthere : (w.files 0).isSome = true) :
      Runs config render sent (Appended config completed counted event text)
        (do
          let result : Except IoError Unit ← ask (.writeRecord event text)
          pure (result, true)) w :=
    runs_bind (runs_writeRecord hlogged htext hw hthere)
  unfold appendRecord
  cases file with
  | true => exact hwrite world hholds (hopen rfl)
  | false =>
    refine runs_bind ((runs_openAppend hlogged hholds).mono fun r w h => ?_)
    cases r with
    | error e => exact appended_error h.1
    | ok => exact hwrite w h.1 (h.2 rfl)

/-- `write_event`, for an event that can be rendered. -/
theorem runs_writeEvent (hlogged : Logged render sent completed counted)
    (hretained : 0 < config.retainedFiles) (hrender : render event = .ok text)
    (htext : newline ∉ text) (file : Bool) (hholds : Holds config completed counted world)
    (hopen : file = true → (world.files 0).isSome = true) :
    Runs config render sent (Appended config completed counted event text)
      (writeEvent config render file event) world := by
  unfold writeEvent
  rw [hrender]
  refine runs_bind ((runs_currentSize hlogged file hholds).mono fun size w h => ?_)
  split
  · refine runs_bind ((runs_makeRoom hlogged hretained file h.1).mono fun r w h => ?_)
    cases r with
    | error e => exact appended_error h.1
    | ok => exact runs_appendRecord hlogged htext true h.1 fun _ => h.2 rfl
  · refine runs_appendRecord hlogged htext file h.1 fun hfile => ?_
    rw [h.2]
    exact hopen hfile

/-! ## The worker -/

/-- What the worker leaves behind a command. -/
def WorkerOk (config : Config) (render : Event → Except IoError Bytes) (sent : List Event)
    (worker : Worker) (world : World Event) : Prop :=
  Settled config render sent world ∧ (worker.file = true → (world.files 0).isSome = true)

theorem Settled.holds (h : Settled config render sent world) :
    Holds config world.completed world.counted world :=
  ⟨h.1, rfl, rfl⟩

theorem runs_settled_quiet (call : Call Event) (hquiet : Quiet call)
    (h : Settled config render sent world) :
    Runs config render sent (fun _ w => Settled config render sent w ∧ w.files = world.files)
      (ask call) world :=
  (runs_quiet call h.2 h.holds hquiet).mono fun _ _ hw => ⟨hw.1.settled h.2, hw.2.1⟩

theorem runs_syncIfOpen (file : Bool) (h : Settled config render sent world) :
    Runs config render sent (fun _ w => Settled config render sent w ∧ w.files = world.files)
      (syncIfOpen file) world := by
  cases file with
  | false => exact ⟨h, rfl⟩
  | true =>
    refine runs_bind ((runs_settled_quiet .syncFile trivial h).mono fun r w hw => ?_)
    cases r with
    | ok => exact hw
    | error e =>
      refine (runs_settled_quiet .countError trivial hw.1).mono fun _ _ hsame => ?_
      exact ⟨hsame.1, hsame.2.trans hw.2⟩

/-- The counters behind a write. -/
theorem runs_countResult {worker : Worker} {result : Except IoError Unit} {file : Bool}
    (hlogged : Logged render sent completed counted) (hrender : render event = .ok text)
    (h : Appended config completed counted event text (result, file) world) :
    Runs config render (sent ++ [event])
      (fun _ w => Settled config render (sent ++ [event]) w ∧ w.files = world.files)
      (countResult worker event result) world := by
  have hrendered : ∀ record ∈ world.completed, render record.1 = .ok record.2 := by
    intro record hrecord
    rcases h.whole with hsame | hadded
    · rw [hsame] at hrecord
      exact hlogged.rendered record hrecord
    · rw [hadded] at hrecord
      rcases List.mem_append.1 hrecord with hold | hnew
      · exact hlogged.rendered record hold
      · rw [List.mem_singleton.1 hnew]
        exact hrender
  have hsent : (world.completed.map Prod.fst).Sublist (sent ++ [event]) := by
    rcases h.whole with hsame | hadded
    · rw [hsame]
      exact hlogged.sent.trans (List.sublist_append_left sent [event])
    · rw [hadded, List.map_append]
      exact hlogged.sent.append (List.Sublist.refl [event])
  have hcounted : world.counted.Sublist (world.completed.map Prod.fst) := by
    rw [h.sameCount]
    rcases h.whole with hsame | hadded
    · rw [hsame]
      exact hlogged.counted
    · rw [hadded, List.map_append]
      exact hlogged.counted.trans (List.sublist_append_left _ _)
  have hsettled : Settled config render (sent ++ [event]) world :=
    ⟨h.files, hrendered, hcounted, hsent⟩
  cases result with
  | error e =>
    exact runs_bind ((runs_settled_quiet .countError trivial hsettled).mono fun _ _ hw => hw)
  | ok =>
    refine runs_bind (Dialogue.safe_ask (fun _ => hsettled) fun fate _ => ?_)
    refine ⟨⟨h.files.congr rfl rfl rfl, hrendered, ?_, hsent⟩, rfl⟩
    show (world.counted ++ [event]).Sublist (world.completed.map Prod.fst)
    rw [h.written rfl, List.map_append, h.sameCount]
    exact hlogged.counted.append (List.Sublist.refl [event])

/-- The events that a command hands to the worker. -/
def Command.events : Command Event → List Event
  | .event e => [e]
  | .flush => []

theorem Settled.more (h : Settled config render sent world) (events : List Event) :
    Settled config render (sent ++ events) world :=
  ⟨h.1, h.2.rendered, h.2.counted, h.2.sent.trans (List.sublist_append_left sent events)⟩

/-- One turn of the worker. -/
theorem runs_handle (hretained : 0 < config.retainedFiles)
    (hrender : ∀ event text, render event = .ok text → newline ∉ text) {worker : Worker}
    (command : Command Event) (h : WorkerOk config render sent worker world) :
    Runs config render (sent ++ command.events)
      (WorkerOk config render (sent ++ command.events)) (handle config render worker command)
      world := by
  obtain ⟨hsettled, hopen⟩ := h
  cases command with
  | flush =>
    refine runs_bind ((runs_syncIfOpen worker.file (hsettled.more [])).mono fun _ w hw => ?_)
    refine ⟨hw.1, fun hfile => ?_⟩
    rw [hw.2]
    exact hopen hfile
  | event event =>
    -- What the worker does once the result is counted.
    have hcounting (result : Except IoError Unit) (file : Bool) (w : World Event)
        (hcount : Runs config render (sent ++ [event])
          (fun _ v => Settled config render (sent ++ [event]) v ∧ v.files = w.files)
          (countResult worker event result) w)
        (hfile : file = true → (w.files 0).isSome = true) :
        Runs config render (sent ++ [event]) (WorkerOk config render (sent ++ [event]))
          (do
            let unsynced ← countResult worker event result
            if config.syncEveryRecords ≤ unsynced then do
              syncIfOpen file
              pure ⟨file, 0⟩
            else pure ⟨file, unsynced⟩) w := by
      refine runs_bind (hcount.mono fun unsynced v hv => ?_)
      split
      · refine runs_bind ((runs_syncIfOpen file hv.1).mono fun _ u hu => ⟨hu.1, fun h => ?_⟩)
        rw [hu.2, hv.2]
        exact hfile h
      · refine ⟨hv.1, fun h => ?_⟩
        rw [hv.2]
        exact hfile h
    cases htext : render event with
    | error e =>
      have hskip : writeEvent config render worker.file event =
          pure (.error e, worker.file) := by
        rw [writeEvent, htext]
      show Runs _ _ _ _ (writeEvent config render worker.file event >>= _) world
      rw [hskip]
      refine hcounting (.error e) worker.file world ?_ hopen
      have hmore := hsettled.more [event]
      exact runs_bind ((runs_settled_quiet .countError trivial hmore).mono fun _ _ hw => hw)
    | ok text =>
      have hwrite := runs_writeEvent hsettled.2 hretained htext (hrender event text htext)
        worker.file hsettled.holds hopen
      have hready : Runs config render (sent ++ [event])
          (Appended config world.completed world.counted event text)
          (writeEvent config render worker.file event) world :=
        hwrite.ready_mono fun w call hw hcall => (hw hcall).more [event]
      refine runs_bind (hready.mono fun result w hw => ?_)
      obtain ⟨result, file⟩ := result
      exact hcounting result file w (runs_countResult hsettled.2 htext hw) hw.opened

/-- What a process ends in: a worker, or the error of `new`. -/
def ProcessOk (config : Config) (render : Event → Except IoError Bytes) (sent : List Event) :
    Except IoError Worker → World Event → Prop
  | .ok worker, world => WorkerOk config render sent worker world
  | .error _, world => Settled config render sent world

/-- A new process, up to the loop of its worker. -/
theorem runs_start (h : Settled config render sent world) :
    Runs config render sent (ProcessOk config render sent) (start config).run world := by
  have hopened (w : World Event) (hw : Settled config render sent w) :
      Runs config render sent (ProcessOk config render sent)
        (do
          let opened ← ExceptT.lift openAppend.run
          pure ⟨opened.isOk, 0⟩ : FileM Event Worker) w := by
    refine runs_lift ((runs_openAppend hw.2 hw.holds).mono fun r v hv => ?_)
    refine ⟨hv.1.settled hw.2, fun hok => hv.2 ?_⟩
    cases r with
    | error e => cases hok
    | ok => rfl
  have hinitialize (w : World Event) (hw : Settled config render sent w) :
      Runs config render sent (fun _ w => Settled config render sent w)
        (do
          initializeFile
          attempt (ask .spawn) : FileM Event Unit) w := by
    refine runs_try ((runs_initializeFile hw.2 hw.holds).mono fun r v hv => ?_)
    have hsettled := hv.1.settled hw.2
    cases r with
    | error e => exact hsettled
    | ok => exact (runs_settled_quiet .spawn trivial hsettled).mono fun _ _ hu => hu.1
  have hnew : Runs config render sent (fun _ w => Settled config render sent w)
      (new config).run world := by
    refine runs_try (?_ : Runs config render sent _ (attempt (pure config.validate)) world)
    show orElse _ _ config.validate world
    cases config.validate with
    | error e => exact h
    | ok => exact hinitialize world h
  refine runs_try (hnew.mono fun r w hw => ?_)
  cases r with
  | error e => exact hw
  | ok => exact hopened w hw

theorem through_try {x : FileM Event α} {f : α → FileM Event β} {fate : Fate} {a : α}
    (h : (Dialogue.through exec fate x.run world).2 = .ok a) :
    Dialogue.through exec fate (x >>= f).run world =
      Dialogue.through exec fate (f a).run (Dialogue.through exec fate x.run world).1 := by
  show Dialogue.through exec fate (x.run >>= ExceptT.bindCont f) world = _
  rw [Dialogue.through_bind, h]
  rfl

/-- Without a fault, `initialize_file` accepts settled files. -/
theorem through_initializeFile (h : FilesOk config world) :
    (Dialogue.through exec .succeeds (initializeFile : FileM Event Unit).run world).2 = .ok () := by
  rw [initializeFile, through_try (a := ()) rfl, through_try (a := ()) rfl,
    through_try (a := (world.files 0).isSome) rfl]
  show (Dialogue.through exec .succeeds
    (if (world.files 0).isSome then checkFile else createFile : FileM Event Unit).run world).2 = _
  cases hfile : world.files 0 with
  | none =>
    have hcreated : exec world .createNew .succeeds = (world.put 0 (some []), .ok ()) := by
      simp only [exec, hfile]
    have hcreate : (Dialogue.through exec .succeeds
        (attempt (ask .createNew) : FileM Event Unit).run world).2 = .ok () :=
      congrArg Prod.snd hcreated
    show (Dialogue.through exec .succeeds (createFile : FileM Event Unit).run world).2 = _
    rw [createFile, through_try hcreate, through_try (a := ()) rfl, through_try (a := ()) rfl]
    rfl
  | some content =>
    have hmarked := firstLine_marked (h.marked 0 content hfile)
    have hread : (Dialogue.through exec .succeeds
        (attempt (ask .readFirstLine) : FileM Event Bytes).run world).2 = .ok markerLine := by
      show (exec world .readFirstLine .succeeds).2 = .ok markerLine
      simp only [exec, hfile, hmarked]
      rfl
    show (Dialogue.through exec .succeeds (checkFile : FileM Event Unit).run world).2 = _
    rw [checkFile, through_try hread, isMarker_markerLine]
    rfl

theorem through_new (hvalid : config.validate = .ok ()) (h : FilesOk config world) :
    (Dialogue.through exec .succeeds (new config : FileM Event Unit).run world).2 = .ok () := by
  have hchecked : (Dialogue.through exec .succeeds
      (attempt (pure config.validate) : FileM Event Unit).run world).2 = .ok () := hvalid
  rw [new, through_try hchecked]
  show (Dialogue.through exec .succeeds
    (initializeFile >>= fun _ => attempt (ask .spawn) : FileM Event Unit).run world).2 = _
  rw [through_try (through_initializeFile h)]
  rfl

/-! ## Runs of the sink -/

/-- The files are settled whenever the process makes no call, and its calls keep them so. -/
def SinkOk (config : Config) (render : Event → Except IoError Bytes) (sink : Sink Event) : Prop :=
  ∃ sent, (sent ++ sink.queue.flatMap Command.events).Sublist sink.emitted ∧
    match sink.process with
    | .stopped => Settled config render sent sink.world
    | .running script => Runs config render sent (ProcessOk config render sent) script sink.world

/-- The steps that spare the files: no fate that harms them, and no stop at the call that writes the
marker of a new file. -/
def Spares (sink : Sink Event) : Step Event → Prop
  | .call fate => match sink.process with
    | .running (.call call _) => Allowed sink.world call fate
    | _ => True
  | .stop => match sink.process with
    | .running (.call .writeMarker _) => False
    | _ => True
  | _ => True

instance : (call : Call Event) → (fate : Fate) → Decidable (Allowed world call fate)
  | .writeMarker, fate => inferInstanceAs (Decidable (World.writtenBytes markerLine fate = markerLine))
  | .writeRecord _ text, fate =>
    decidable_of_iff (World.writtenBytes (text ++ [newline]) fate = text ++ [newline] →
      (world.files 0).all fun content => tornTail content = [])
      (by simp [Allowed, Option.all_eq_true])
  | .rename _ target, fate =>
    decidable_of_iff (fate = .succeeds → (world.files target).isNone) (by simp [Allowed])
  | .createDirs, _ | .inspect, _ | .pathExists _, _ | .createNew, _ | .syncFile, _ | .syncParent, _
  | .readFirstLine, _ | .openFile, _ | .metadata, _ | .remove _, _ | .spawn, _
  | .countWritten _, _ | .countError, _ => isTrue trivial

/-- Whether the step spares the files. -/
def spares (sink : Sink Event) : Step Event → Bool
  | .call fate => match sink.process with
    | .running (.call call _) => decide (Allowed sink.world call fate)
    | _ => true
  | .stop => match sink.process with
    | .running (.call .writeMarker _) => false
    | _ => true
  | _ => true

theorem spares_iff (sink : Sink Event) (step : Step Event) :
    spares sink step = true ↔ Spares sink step := by
  cases step with
  | call fate =>
    simp only [spares, Spares]
    split
    next => exact decide_eq_true_iff
    next => exact iff_of_true rfl trivial
  | stop =>
    simp only [spares, Spares]
    split
    next => exact iff_of_false Bool.false_ne_true not_false
    next => exact iff_of_true rfl trivial
  | start => exact iff_of_true rfl trivial
  | emit event => exact iff_of_true rfl trivial
  | flush => exact iff_of_true rfl trivial
  | take => exact iff_of_true rfl trivial

theorem ProcessOk.settled {result : Except IoError Worker}
    (h : ProcessOk config render sent result world) : Settled config render sent world := by
  cases result with
  | error e => exact h
  | ok worker => exact h.1

/-- A process with no call to make has settled the files, and so has a stopped one. -/
theorem SinkOk.settled {sink : Sink Event} (h : SinkOk config render sink)
    (hcall : ∀ next, sink.process ≠ .running (.call .writeMarker next)) :
    ∃ sent, (sent ++ sink.queue.flatMap Command.events).Sublist sink.emitted ∧
      Settled config render sent sink.world := by
  obtain ⟨sent, hsent, hprocess⟩ := h
  refine ⟨sent, hsent, ?_⟩
  cases hrunning : sink.process with
  | stopped =>
    rw [hrunning] at hprocess
    exact hprocess
  | running script =>
    rw [hrunning] at hprocess
    cases script with
    | done result => exact ProcessOk.settled hprocess
    | call call next =>
      refine hprocess.1 fun heq => ?_
      subst heq
      exact hcall next hrunning

theorem sublist_queue_nil {sent queued emitted : List Event}
    (h : (sent ++ queued).Sublist emitted) : (sent ++ []).Sublist emitted := by
  rw [List.append_nil]
  exact (List.sublist_append_left sent queued).trans h

variable {sink after : Sink Event}

theorem sinkOk_start (h : SinkOk config render sink)
    (hstep : sink.step config render .start = some after) : SinkOk config render after := by
  by_cases halive : sink.alive = true
  · simp [Sink.step, halive] at hstep
  · have hidle : ∀ next, sink.process ≠ .running (.call .writeMarker next) := by
      intro next hrunning
      exact halive (by rw [Sink.alive, hrunning])
    obtain ⟨sent, hsent, hsettled⟩ := h.settled hidle
    simp only [Sink.step, if_neg halive, Option.some.injEq] at hstep
    subst hstep
    refine ⟨sent, sublist_queue_nil hsent, runs_start ?_⟩
    exact ⟨hsettled.1.congr rfl rfl rfl, hsettled.2⟩

theorem sinkOk_call {fate : Fate} (h : SinkOk config render sink) (hspares : Spares sink (.call fate))
    (hstep : sink.step config render (.call fate) = some after) : SinkOk config render after := by
  obtain ⟨sent, hsent, hprocess⟩ := h
  simp only [Sink.step] at hstep
  unfold Spares at hspares
  cases hrunning : sink.process with
  | stopped => simp [hrunning] at hstep
  | running script =>
    rw [hrunning] at hprocess
    cases script with
    | done result => simp [hrunning] at hstep
    | call call next =>
      simp only [hrunning, Option.some.injEq] at hstep hspares
      subst hstep
      exact ⟨sent, hsent, hprocess.2 fate hspares⟩

theorem sinkOk_emit (h : SinkOk config render sink)
    (hstep : sink.step config render (.emit event) = some after) : SinkOk config render after := by
  obtain ⟨sent, hsent, hprocess⟩ := h
  simp only [Sink.step] at hstep
  split at hstep
  · split at hstep
    · cases hstep
      refine ⟨sent, ?_, hprocess⟩
      rw [List.flatMap_append, ← List.append_assoc]
      exact hsent.append (List.Sublist.refl [event])
    · cases hstep
      exact ⟨sent, hsent.trans (List.sublist_append_left _ _), hprocess⟩
  · cases hstep

theorem sinkOk_flush (h : SinkOk config render sink)
    (hstep : sink.step config render .flush = some after) : SinkOk config render after := by
  obtain ⟨sent, hsent, hprocess⟩ := h
  simp only [Sink.step] at hstep
  split at hstep
  · cases hstep
    refine ⟨sent, ?_, hprocess⟩
    rw [List.flatMap_append]
    exact (List.append_nil _).symm ▸ hsent
  · cases hstep

theorem sinkOk_take (hretained : 0 < config.retainedFiles)
    (hrender : ∀ event text, render event = .ok text → newline ∉ text)
    (h : SinkOk config render sink) (hstep : sink.step config render .take = some after) :
    SinkOk config render after := by
  obtain ⟨sent, hsent, hprocess⟩ := h
  simp only [Sink.step] at hstep
  split at hstep
  next worker command queue hrunning hqueue =>
      rw [hrunning] at hprocess
      rw [hqueue, List.flatMap_cons, ← List.append_assoc] at hsent
      cases hstep
      exact ⟨sent ++ command.events, hsent,
        runs_bind ((runs_handle hretained hrender command hprocess).mono fun _ _ hw => hw)⟩
  next => cases hstep

theorem sinkOk_stop (h : SinkOk config render sink) (hspares : Spares sink .stop)
    (hstep : sink.step config render .stop = some after) : SinkOk config render after := by
  have hcall : ∀ next, sink.process ≠ .running (.call .writeMarker next) := by
    intro next hrunning
    unfold Spares at hspares
    rw [hrunning] at hspares
    exact hspares
  obtain ⟨sent, hsent, hsettled⟩ := h.settled hcall
  simp only [Sink.step] at hstep
  split at hstep
  · cases hstep
  · cases hstep
    exact ⟨sent, sublist_queue_nil hsent, hsettled⟩

theorem sinkOk_step (hretained : 0 < config.retainedFiles)
    (hrender : ∀ event text, render event = .ok text → newline ∉ text) (step : Step Event)
    (h : SinkOk config render sink) (hspares : Spares sink step)
    (hstep : sink.step config render step = some after) : SinkOk config render after := by
  cases step with
  | start => exact sinkOk_start h hstep
  | call fate => exact sinkOk_call h hspares hstep
  | emit event => exact sinkOk_emit h hstep
  | flush => exact sinkOk_flush h hstep
  | take => exact sinkOk_take hretained hrender h hstep
  | stop => exact sinkOk_stop h hspares hstep

/-! ## What survives -/

/-- Once no call fails `new` succeeds on the path, and each file starts with the marker line. The
lines of the files from `path.N` down to the active one are, behind those rotated off, the records
that were written, one for each event counted and in the order in which the events were emitted. -/
structure Survives (config : Config) (render : Event → Except IoError Bytes)
    (sink : Sink Event) : Prop where
  restarts : (Dialogue.through exec .succeeds (new config : FileM Event Unit).run sink.world).2 =
    .ok ()
  marked : ∀ slot content, sink.world.files slot = some content → markerLine <+: content
  lines : sink.world.rotatedOff ++ linesDown sink.world.files config.retainedFiles =
    sink.world.completed.map Prod.snd
  rendered : ∀ record ∈ sink.world.completed, render record.1 = .ok record.2
  counted : sink.world.counted.Sublist (sink.world.completed.map Prod.fst)
  emitted : (sink.world.completed.map Prod.fst).Sublist sink.emitted

/-- The next call writes the marker of the file that was just created. -/
def Sink.creating (sink : Sink Event) : Prop :=
  ∃ next, sink.process = .running (.call .writeMarker next)

theorem SinkOk.survives (hvalid : config.validate = .ok ()) (h : SinkOk config render sink)
    (hcreating : ¬ sink.creating) : Survives config render sink := by
  obtain ⟨sent, hsent, hfiles, hlogged⟩ := h.settled fun next hrunning => hcreating ⟨next, hrunning⟩
  exact {
    restarts := through_new hvalid hfiles
    marked := hfiles.marked
    lines := hfiles.lines
    rendered := hlogged.rendered
    counted := hlogged.counted
    emitted := hlogged.sent.trans ((List.sublist_append_left sent _).trans hsent) }

theorem sinkOk_initial (config : Config) (render : Event → Except IoError Bytes) :
    SinkOk config render {} := by
  have hdown : ∀ n, linesDown (fun _ => none) n = [] := by
    intro n
    induction n with
    | zero => rfl
    | succ n ih => rw [linesDown, ih]; rfl
  refine ⟨[], List.nil_sublist _, ⟨nofun, fun _ _ => rfl, hdown _⟩, nofun, ?_, ?_⟩
  · exact List.nil_sublist _
  · exact List.nil_sublist _

theorem retained_of_valid (h : config.validate = .ok ()) : 0 < config.retainedFiles := by
  unfold Config.validate at h
  split at h
  · cases h
  · omega

/-- **The observation file survives** every run that spares it: stops at any call but the one that
writes the marker of a new file, and any failure of a call but a marker cut short, a record written
behind one cut short, and a rename that replaces a file. -/
theorem file_survives (hvalid : config.validate = .ok ())
    (hrender : ∀ event text, render event = .ok text → newline ∉ text) (steps : List (Step Event))
    (hspares : EachStep (Sink.step config render) Spares {} steps) :
    Throughout (Sink.step config render)
      (fun sink => ¬ sink.creating → Survives config render sink) {} steps := by
  have hok := throughout_of_step (sinkOk_initial config render)
    (fun _ step _ h hspares hstep =>
      sinkOk_step (retained_of_valid hvalid) hrender step h hspares hstep) hspares
  exact hok.imp fun _ h hcreating => h.survives hvalid hcreating

/-! ## Runs that do and do not -/

/-- Events that are bytes, each rendered as itself. -/
def byteRender (event : UInt8) : Except IoError Bytes :=
  if event = newline then .error (.invalidData "newline") else .ok [event]

/-- The sink starts, writes one event and is stopped behind the first byte of another; it is started
again and takes a third. -/
def sampleSteps : List (Step UInt8) :=
  .start :: List.replicate 13 (.call .succeeds) ++
    .emit 7 :: .take :: List.replicate 3 (.call .succeeds) ++
    .emit 8 :: .take :: .call .succeeds :: .call (.fails 1) :: .stop ::
    .start :: List.replicate 9 (.call .succeeds) ++ [.emit 9]

theorem newline_notMem_byteRender (event : UInt8) (text : Bytes)
    (h : byteRender event = .ok text) : newline ∉ text := by
  unfold byteRender at h
  split at h
  next => cases h
  next hevent =>
    cases h
    rw [List.mem_singleton]
    exact Ne.symm hevent

theorem file_survives_restart :
    (runFrom (Sink.step {} byteRender) {} sampleSteps).map (·.world.counted) = some [7] ∧
      Throughout (Sink.step {} byteRender)
        (fun sink => ¬ sink.creating → Survives {} byteRender sink) {} sampleSteps :=
  ⟨by decide, file_survives rfl newline_notMem_byteRender sampleSteps fun before step after
      sink heq hrun => (spares_iff sink step).1
        (eachStep_of_check (by decide) before step after sink heq hrun)⟩

/-- The process is stopped between creating the file and writing its marker. -/
def stoppedCreating : List (Step UInt8) :=
  .start :: List.replicate 4 (.call .succeeds) ++ [.stop]

/-- A stop at that call leaves a file that `new` refuses from then on. -/
theorem file_without_marker_refused :
    ¬ ∀ (config : Config) (render : UInt8 → Except IoError Bytes) (steps : List (Step UInt8)),
      config.validate = .ok () →
      (∀ event text, render event = .ok text → newline ∉ text) →
      Throughout (Sink.step config render)
        (fun sink => ¬ sink.creating → Survives config render sink) {} steps := by
  intro h
  have hsurvives := h {} byteRender stoppedCreating rfl newline_notMem_byteRender
  obtain ⟨sink, hrun, hstopped, hrefused⟩ : ∃ sink,
      runFrom (Sink.step {} byteRender) {} stoppedCreating = some sink ∧
        sink.process = .stopped ∧
        (Dialogue.through exec .succeeds (new {} : FileM UInt8 Unit).run sink.world).2 =
          .error (.invalidData "unsupported observation file format") :=
    ⟨_, rfl, rfl, rfl⟩
  have hrestarts := (hsurvives.final hrun fun hcreating => by
    obtain ⟨next, hrunning⟩ := hcreating
    rw [hstopped] at hrunning
    cases hrunning).restarts
  rw [hrefused] at hrestarts
  cases hrestarts

/-- A record behind one that was cut short shares its line. -/
example : completeLines (markerLine ++ [8] ++ ([9] ++ [newline])) =
    [strBytes observationFileFormatV1, [8, 9]] := by decide

end AppCore.Observation
