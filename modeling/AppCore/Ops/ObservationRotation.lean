import AppCore.Ops.ObservationFileProof
import AppCore.Ops.ObservationRecords

/-!
# What rotation keeps

In a run without a failure the active file is measured before each write, and rotated where the
record does not fit behind what is there. It is not measured again: a record that does not fit
behind the marker line of an empty file makes that file too large. The keys of an event have no
bound, and its texts grow as they are escaped, so there are such records.

* `rotation_bounded_iff` — when no file is ever too large, and the records that the files hold.
-/

namespace AppCore.Observation

variable {Event : Type}

/-! ## Calls that succeed -/

/-- Every file starts with the marker line, and ends with a whole line. -/
def Whole (files : Nat → Option Bytes) : Prop :=
  ∀ slot content, files slot = some content → Marked content ∧ tornTail content = []

/-- What the sink knows when it makes a call: of the record that it writes, that it fits into the
active file or that this one is empty. -/
def Room (config : Config) (Known : Event → Bytes → Prop) (world : World Event) :
    Call Event → Prop
  | .writeMarker => world.files 0 = some [] ∧ Whole (Function.update world.files 0 none)
  | .writeRecord event text =>
    Whole world.files ∧ Known event text ∧ ∃ content, world.files 0 = some content ∧
      (min (content.length + (text.length + 1)) (2 ^ 64 - 1) ≤ config.maxFileBytes ∨
        content = markerLine)
  | .rename source target =>
    Whole world.files ∧ target = source + 1 ∧ target ≤ config.retainedFiles ∧
      world.files target = none
  | .remove slot => Whole world.files ∧ slot = config.retainedFiles
  | _ => Whole world.files

/-- A call succeeds. The size of a file is a `u64`, so a write that makes it larger fails. -/
def Succeeds (world : World Event) : Call Event → Fate → Prop
  | .writeRecord _ text, fate => fate = .succeeds ∧
      ∀ content ∈ world.files 0, content.length + (text.length + 1) < 2 ^ 64
  | _, fate => fate = .succeeds

theorem Succeeds.fate {world : World Event} {call : Call Event} {fate : Fate}
    (h : Succeeds world call fate) : fate = .succeeds := by
  cases call
  case writeRecord => exact h.1
  all_goals exact h

variable (config : Config) (Known : Event → Bytes → Prop)

/-- While its calls succeed the script has room for each, and ends in `post`. -/
abbrev Roomy {α : Type} (post : α → World Event → Prop) (script : Script Event α)
    (world : World Event) : Prop :=
  Dialogue.Safe exec (Room config Known) Succeeds post script world

variable {config Known} {world : World Event} {α β : Type}

theorem roomy_bind {post : β → World Event → Prop} {script : Script Event α}
    {next : α → Script Event β}
    (h : Roomy config Known (fun a w => Roomy config Known post (next a) w) script world) :
    Roomy config Known post (script >>= next) world :=
  Dialogue.safe_bind h

theorem roomy_try {post : Except IoError β → World Event → Prop} {script : FileM Event α}
    {next : α → FileM Event β}
    (h : Roomy config Known
      (fun r w => ∃ a, r = .ok a ∧ Roomy config Known post (next a) w) script world) :
    Roomy config Known post (script >>= next : FileM Event β) world := by
  refine Dialogue.safe_bind (h.mono fun r w hr => ?_)
  obtain ⟨a, rfl, hnext⟩ := hr
  exact hnext

theorem roomy_lift {post : Except IoError β → World Event → Prop} {script : Script Event α}
    {next : α → FileM Event β}
    (h : Roomy config Known (fun a w => Roomy config Known post (next a) w) script world) :
    Roomy config Known post (ExceptT.lift script >>= next : FileM Event β) world := by
  refine roomy_try (Dialogue.safe_bind (h.mono fun a w ha => ?_))
  exact ⟨a, rfl, ha⟩

theorem roomy_ask (call : Call Event) {post : call.Result → World Event → Prop}
    (hroom : Room config Known world call)
    (h : post (exec world call .succeeds).2 (exec world call .succeeds).1) :
    Roomy config Known post (ask call) world := by
  refine Dialogue.safe_ask hroom fun fate hfate => ?_
  rw [hfate.fate]
  exact h

theorem room_quiet {call : Call Event} (hquiet : Quiet call) (hwhole : Whole world.files) :
    Room config Known world call := by
  cases call
  case writeMarker | writeRecord | remove | rename => exact hquiet.elim
  all_goals exact hwhole

theorem roomy_quiet (call : Call Event) (hquiet : Quiet call) (hwhole : Whole world.files) :
    Roomy config Known
      (fun r w => w.files = world.files ∧ r = (exec world call .succeeds).2) (ask call) world :=
  roomy_ask call (room_quiet hquiet hwhole) ⟨(exec_quiet hquiet .succeeds).1, rfl⟩

/-! ## Files that are created and moved -/

theorem whole_update {files : Nat → Option Bytes} {slot : Nat} {content : Option Bytes}
    (h : Whole files) (hcontent : ∀ c ∈ content, Marked c ∧ tornTail c = []) :
    Whole (Function.update files slot content) := by
  intro other c hother
  rw [Function.update_apply] at hother
  split at hother
  · exact hcontent c hother
  · exact h other c hother

theorem whole_markerLine : Marked markerLine ∧ tornTail markerLine = [] :=
  ⟨List.prefix_refl _, by decide⟩

/-- The function succeeded, and the active file is there, with `content` if it was not. -/
def Opened (files : Nat → Option Bytes) (result : Except IoError Unit) (world : World Event) : Prop :=
  result = .ok () ∧
    world.files = Function.update files 0 (some ((files 0).getD markerLine))

theorem Opened.whole {files : Nat → Option Bytes} {result : Except IoError Unit}
    (h : Opened files result world) (hwhole : Whole files) : Whole world.files := by
  rw [h.2]
  refine whole_update hwhole fun c hc => ?_
  cases hc
  cases hfile : files 0 with
  | none => exact whole_markerLine
  | some content => exact hwhole 0 content hfile

theorem roomy_createFile (hwhole : Whole world.files) (hfile : world.files 0 = none) :
    Roomy config Known (Opened world.files) createFile world := by
  have hcreated : exec world .createNew .succeeds = (world.put 0 (some []), .ok ()) := by
    simp only [exec, hfile]
  refine roomy_try (roomy_ask .createNew hwhole ⟨(), congrArg Prod.snd hcreated, ?_⟩)
  rw [hcreated]
  have hempty : (world.put 0 (some [])).files = Function.update world.files 0 (some []) := rfl
  have hrest : Function.update (Function.update world.files 0 (some [])) 0 none = world.files := by
    rw [Function.update_idem, ← hfile, Function.update_eq_self]
  refine roomy_try (roomy_ask .writeMarker ⟨by simp [hempty], ?_⟩ ⟨(), rfl, ?_⟩)
  · rw [hempty, hrest]
    exact hwhole
  · have hmarked : ((world.put 0 (some [])).append markerLine).files =
        Function.update world.files 0 (some markerLine) := by
      simp [World.append, World.put]
    have hnew : Whole ((world.put 0 (some [])).append markerLine).files := by
      rw [hmarked]
      refine whole_update hwhole fun c hc => ?_
      cases hc
      exact whole_markerLine
    refine roomy_try ((roomy_quiet .syncFile trivial hnew).mono fun r w hw => ⟨(), hw.2, ?_⟩)
    have hsame : Whole w.files := by
      rw [hw.1]
      exact hnew
    refine (roomy_quiet .syncParent trivial hsame).mono fun r v hv => ⟨hv.2, ?_⟩
    rw [hv.1, hw.1, hfile]
    exact hmarked

theorem roomy_checkFile {content : Bytes} (hwhole : Whole world.files)
    (hfile : world.files 0 = some content) :
    Roomy config Known (Opened world.files) checkFile world := by
  have hread : exec world .readFirstLine .succeeds = (world, .ok markerLine) := by
    simp only [exec, hfile, firstLine_marked (hwhole 0 content hfile).1]
  refine roomy_try (roomy_ask .readFirstLine hwhole ⟨markerLine, congrArg Prod.snd hread, ?_⟩)
  rw [hread, isMarker_markerLine]
  refine ⟨rfl, ?_⟩
  rw [hfile, Option.getD_some, ← hfile, Function.update_eq_self]

theorem roomy_initializeFile (hwhole : Whole world.files) :
    Roomy config Known (Opened world.files) initializeFile world := by
  refine roomy_try ((roomy_quiet .createDirs trivial hwhole).mono fun r w hw => ⟨(), hw.2, ?_⟩)
  rw [← hw.1] at hwhole ⊢
  refine roomy_try ((roomy_quiet .inspect trivial hwhole).mono fun r v hv => ⟨(), hv.2, ?_⟩)
  rw [← hv.1] at hwhole ⊢
  refine roomy_lift ((roomy_quiet (.pathExists 0) trivial hwhole).mono fun there u hu => ?_)
  obtain ⟨hfiles, rfl⟩ := hu
  rw [← hfiles] at hwhole ⊢
  show Roomy config Known _ (if (v.files 0).isSome then checkFile else createFile) u
  rw [← hfiles]
  cases hfile : u.files 0 with
  | none => exact roomy_createFile hwhole hfile
  | some content => exact roomy_checkFile hwhole hfile

theorem roomy_openAppend (hwhole : Whole world.files) :
    Roomy config Known (Opened world.files) openAppend world := by
  refine roomy_try ((roomy_initializeFile hwhole).mono fun r w hw => ⟨(), hw.1, ?_⟩)
  have hopen : exec w .openFile .succeeds = (w, .ok ()) := by
    simp only [exec, hw.2, Function.update_self]
  refine roomy_ask .openFile (hw.whole hwhole) ?_
  rw [hopen]
  exact ⟨rfl, hw.2⟩

/-! ## Rotation -/

theorem roomy_removeIfExists (hwhole : Whole world.files) :
    Roomy config Known (fun r w => r = .ok () ∧
        w.files = Function.update world.files config.retainedFiles none)
      (removeIfExists config.retainedFiles) world := by
  refine roomy_lift (roomy_ask (.remove config.retainedFiles) ⟨hwhole, rfl⟩ ?_)
  cases hfile : world.files config.retainedFiles with
  | none =>
    simp only [exec, hfile]
    refine ⟨rfl, ?_⟩
    rw [← hfile, Function.update_eq_self]
  | some content =>
    simp only [exec, hfile]
    exact ⟨rfl, rfl⟩

/-- A file moves to a free slot, and leaves its own free. -/
theorem roomy_renameIfExists {slot : Nat} (hwhole : Whole world.files)
    (hslot : slot + 1 ≤ config.retainedFiles) (hfree : world.files (slot + 1) = none) :
    Roomy config Known (fun r w => r = .ok () ∧ Whole w.files ∧ w.files slot = none)
      (renameIfExists slot (slot + 1)) world := by
  refine roomy_lift ((roomy_quiet (.pathExists slot) trivial hwhole).mono fun there w hw => ?_)
  obtain ⟨hfiles, rfl⟩ := hw
  show Roomy config Known _ (if (world.files slot).isSome then _ else _) w
  rw [← hfiles] at hwhole hfree ⊢
  cases hfile : w.files slot with
  | none => exact ⟨rfl, hwhole, hfile⟩
  | some content =>
    refine roomy_ask (.rename slot (slot + 1)) ⟨hwhole, rfl, hslot, hfree⟩ ?_
    simp only [exec, hfile]
    refine ⟨trivial, whole_update (whole_update hwhole (by simp)) fun c hc => ?_, ?_⟩
    · cases hc
      exact hwhole slot content hfile
    · show Function.update (Function.update w.files slot none) (slot + 1) (some content) slot = none
      rw [Function.update_of_ne (by omega), Function.update_self]

/-- Every file moves to the slot that the one before it left. -/
theorem roomy_shiftFiles {index : Nat} (hwhole : Whole world.files)
    (hindex : index ≤ config.retainedFiles)
    (hfree : index < config.retainedFiles → world.files (index + 1) = none)
    (hretained : 0 < config.retainedFiles) :
    Roomy config Known (fun r w => r = .ok () ∧ Whole w.files ∧ w.files 1 = none)
      (shiftFiles config index) world := by
  induction index generalizing world with
  | zero => exact ⟨rfl, hwhole, hfree hretained⟩
  | succ index ih =>
    rw [shiftFiles]
    split
    next hlast =>
        rw [hlast]
        refine roomy_try ((roomy_removeIfExists hwhole).mono fun r w hw => ⟨(), hw.1, ?_⟩)
        refine ih (hw.2 ▸ whole_update hwhole (by simp)) (by omega) fun _ => ?_
        rw [hw.2, hlast, Function.update_self]
    next hinner =>
        have hbelow : index + 1 < config.retainedFiles := by omega
        refine roomy_try ((roomy_renameIfExists hwhole hbelow (hfree hbelow)).mono
          fun r w hw => ⟨(), hw.1, ?_⟩)
        exact ih hw.2.1 (by omega) fun _ => hw.2.2

/-- The active file is the empty one that a rotation leaves. -/
def Fresh (result : Except IoError Unit) (world : World Event) : Prop :=
  result = .ok () ∧ Whole world.files ∧ world.files 0 = some markerLine

theorem roomy_rotateFiles (hwhole : Whole world.files) (hretained : 0 < config.retainedFiles) :
    Roomy config Known Fresh (rotateFiles config) world := by
  have hnone : config.retainedFiles < config.retainedFiles →
      world.files (config.retainedFiles + 1) = none := fun h => absurd h (lt_irrefl _)
  refine roomy_try ((roomy_shiftFiles hwhole le_rfl hnone hretained).mono
    fun r w hw => ⟨(), hw.1, ?_⟩)
  refine roomy_try ((roomy_renameIfExists hw.2.1 hretained hw.2.2).mono
    fun r v hv => ⟨(), hv.1, ?_⟩)
  refine (roomy_initializeFile hv.2.1).mono fun r u hu => ⟨hu.1, hu.whole hv.2.1, ?_⟩
  rw [hu.2, Function.update_self, hv.2.2, Option.getD_none]

theorem roomy_makeRoom (hwhole : Whole world.files) (hretained : 0 < config.retainedFiles) :
    Roomy config Known Fresh (makeRoom config true) world := by
  refine roomy_try ((roomy_quiet .syncFile trivial hwhole).mono fun r w hw => ⟨(), hw.2, ?_⟩)
  rw [← hw.1] at hwhole
  refine roomy_try ((roomy_rotateFiles hwhole hretained).mono fun r v hv => ⟨(), hv.1, ?_⟩)
  refine (roomy_openAppend hv.2.1).mono fun r u hu => ⟨hu.1, hu.whole hv.2.1, ?_⟩
  rw [hu.2, Function.update_self, hv.2.2, Option.getD_some]

/-! ## The worker -/

/-- The worker has its file open. -/
def WorkerRoom (worker : Worker) (world : World Event) : Prop :=
  Whole world.files ∧ worker.file = true ∧ (world.files 0).isSome = true

/-- The record goes behind what is there, or to an empty file. -/
theorem roomy_appendRecord {event : Event} {text content : Bytes} (hwhole : Whole world.files)
    (hfile : world.files 0 = some content) (hknown : Known event text) (hline : newline ∉ text)
    (hfits : min (content.length + (text.length + 1)) (2 ^ 64 - 1) ≤ config.maxFileBytes ∨
      content = markerLine) :
    Roomy config Known
      (fun r w => r.2 = true ∧ Whole w.files ∧ (w.files 0).isSome = true)
      (appendRecord true event text) world := by
  have hfiles : (world.append (text ++ [newline])).files =
      Function.update world.files 0 (some (content ++ (text ++ [newline]))) := by
    simp [World.append, World.put, hfile]
  have hwritten : Whole (Function.update world.files 0 (some (content ++ (text ++ [newline])))) := by
    refine whole_update hwhole fun c hc => ?_
    cases hc
    obtain ⟨hmarked, htorn⟩ := hwhole 0 content hfile
    refine ⟨hmarked.trans (List.prefix_append _ _), ?_⟩
    unfold tornTail at htorn ⊢
    rw [cutLines_append, htorn, List.nil_append, cutLines_line hline]
    rfl
  show Roomy config Known _ (do
    let result : Except IoError Unit ← ask (.writeRecord event text)
    pure (result, true)) world
  refine roomy_bind (roomy_ask (.writeRecord event text) ⟨hwhole, hknown, content, hfile, hfits⟩ ?_)
  refine ⟨rfl, ?_⟩
  show Whole (world.append (text ++ [newline])).files ∧
    ((world.append (text ++ [newline])).files 0).isSome = true
  rw [hfiles, Function.update_self]
  exact ⟨hwritten, rfl⟩

/-- `write_event` measures the active file, and rotates it where the record does not fit. -/
theorem roomy_writeEvent {render : Event → Except IoError Bytes} {event : Event}
    (hwhole : Whole world.files) (hopen : (world.files 0).isSome = true)
    (hretained : 0 < config.retainedFiles)
    (hrender : ∀ text, render event = .ok text → Known event text ∧ newline ∉ text) :
    Roomy config Known
      (fun r w => r.2 = true ∧ Whole w.files ∧ (w.files 0).isSome = true)
      (writeEvent config render true event) world := by
  unfold writeEvent
  cases htext : render event with
  | error e => exact ⟨rfl, hwhole, hopen⟩
  | ok text =>
    obtain ⟨hknown, hline⟩ := hrender text htext
    obtain ⟨content, hfile⟩ := Option.isSome_iff_exists.1 hopen
    refine roomy_bind (roomy_bind ((roomy_quiet .metadata trivial hwhole).mono fun r w hw => ?_))
    obtain ⟨hfiles, rfl⟩ := hw
    rw [← hfiles] at hwhole hfile
    have hsize : (world.files 0).elim 0 List.length = content.length := by
      rw [← hfiles, hfile]
      rfl
    show Roomy config Known _ (if config.maxFileBytes <
      min ((world.files 0).elim 0 List.length + (text.length + 1)) (2 ^ 64 - 1) then _ else _) w
    rw [hsize]
    split
    next =>
        refine roomy_bind ((roomy_makeRoom hwhole hretained).mono fun r v hv => ?_)
        obtain ⟨rfl, hfresh, hmarker⟩ := hv
        exact roomy_appendRecord hfresh hmarker hknown hline (.inr rfl)
    next hfits =>
        exact roomy_appendRecord hwhole hfile hknown hline (.inl (Nat.le_of_not_lt hfits))

theorem roomy_syncIfOpen (file : Bool) (hwhole : Whole world.files) :
    Roomy config Known (fun _ w => w.files = world.files) (syncIfOpen file) world := by
  cases file with
  | false => exact rfl
  | true =>
    refine roomy_bind ((roomy_quiet .syncFile trivial hwhole).mono fun r w hw => ?_)
    obtain ⟨hfiles, rfl⟩ := hw
    exact hfiles

theorem roomy_countResult (worker : Worker) (event : Event) (result : Except IoError Unit)
    (hwhole : Whole world.files) :
    Roomy config Known (fun _ w => w.files = world.files) (countResult worker event result)
      world := by
  cases result with
  | error e =>
    exact roomy_bind ((roomy_quiet .countError trivial hwhole).mono fun _ _ hw => hw.1)
  | ok => exact roomy_bind (roomy_ask (.countWritten event) hwhole rfl)

/-- One turn of the worker. -/
theorem roomy_handle {render : Event → Except IoError Bytes} {worker : Worker}
    (h : WorkerRoom worker world) (hretained : 0 < config.retainedFiles) (command : Command Event)
    (hrender : ∀ event ∈ command.events, ∀ text, render event = .ok text →
      Known event text ∧ newline ∉ text) :
    Roomy config Known WorkerRoom (handle config render worker command) world := by
  obtain ⟨hwhole, hfile, hopen⟩ := h
  obtain ⟨file, unsynced⟩ := worker
  obtain rfl : file = true := hfile
  cases command with
  | flush =>
    refine roomy_bind ((roomy_syncIfOpen true hwhole).mono fun _ w hw => ?_)
    exact ⟨hw ▸ hwhole, rfl, hw ▸ hopen⟩
  | event event =>
    refine roomy_bind ((roomy_writeEvent hwhole hopen hretained
      (hrender event List.mem_cons_self)).mono
      fun result w hw => ?_)
    obtain ⟨result, file⟩ := result
    obtain ⟨rfl, hwhole, hopen⟩ := hw
    refine roomy_bind ((roomy_countResult _ event result hwhole).mono fun unsynced v hv => ?_)
    rw [← hv] at hwhole hopen
    split
    · refine roomy_bind ((roomy_syncIfOpen true hwhole).mono fun _ u hu => ?_)
      exact ⟨hu ▸ hwhole, rfl, hu ▸ hopen⟩
    · exact ⟨hwhole, rfl, hopen⟩

/-- What a process ends in: a worker with its file, or the error of `new`. -/
def ProcessRoom : Except IoError Worker → World Event → Prop
  | .ok worker, world => WorkerRoom worker world
  | .error _, world => Whole world.files

/-- A new process, up to the loop of its worker. -/
theorem roomy_start (hvalid : config.validate = .ok ()) (hwhole : Whole world.files) :
    Roomy config Known ProcessRoom (start config).run world := by
  have hnew : Roomy config Known (fun r w => r = .ok () ∧ Whole w.files)
      (new config).run world := by
    refine roomy_try (show Roomy config Known _ (attempt (pure config.validate)) world from ?_)
    refine ⟨(), hvalid, ?_⟩
    refine roomy_try ((roomy_initializeFile hwhole).mono fun r w hw => ⟨(), hw.1, ?_⟩)
    have hopened := hw.whole hwhole
    refine (roomy_quiet .spawn trivial hopened).mono fun r v hv => ⟨hv.2, ?_⟩
    rw [hv.1]
    exact hopened
  refine roomy_try (hnew.mono fun r w hw => ⟨(), hw.1, ?_⟩)
  refine roomy_lift ((roomy_openAppend hw.2).mono fun r v hv => ⟨hv.whole hw.2, ?_, ?_⟩)
  · rw [hv.1]
    rfl
  · rw [hv.2, Function.update_self]
    rfl

/-! ## What one call does -/

/-- The files on the disk, and the records that they hold behind those rotated off. -/
structure History (config : Config) (Known : Event → Bytes → Prop) (world : World Event) :
    Prop where
  retained : ∀ slot, config.retainedFiles < slot → world.files slot = none
  records : world.rotatedOff ++ linesDown world.files config.retainedFiles =
    world.completed.map Prod.snd
  known : ∀ record ∈ world.completed, Known record.1 record.2

/-- No file is larger than `max_file_bytes`. -/
def Sized (config : Config) (files : Nat → Option Bytes) : Prop :=
  ∀ slot content, files slot = some content → content.length ≤ config.maxFileBytes

/-- The record fits into an empty file, behind its marker line. -/
def TextFits (config : Config) (text : Bytes) : Prop :=
  markerLine.length + (text.length + 1) ≤ config.maxFileBytes

/-- Nothing is rotated off, or the records of the last file are, with the file. -/
def Drops (config : Config) (before after : World Event) : Prop :=
  after.rotatedOff = before.rotatedOff ∨
    after.files = Function.update before.files config.retainedFiles none ∧
      after.rotatedOff = before.rotatedOff ++ linesOf before.files config.retainedFiles

theorem History.congr {other : World Event} (h : History config Known world)
    (hfiles : other.files = world.files) (hcompleted : other.completed = world.completed)
    (hrotated : other.rotatedOff = world.rotatedOff) : History config Known other := by
  obtain ⟨hretained, hrecords, hknown⟩ := h
  exact ⟨by rwa [hfiles], by rwa [hfiles, hcompleted, hrotated], by rwa [hcompleted]⟩

/-- The active file with more bytes, and the record that they complete. -/
theorem History.active {before after : Bytes} {added : List (Event × Bytes)}
    (h : History config Known world) (hfile : world.files 0 = some before)
    (hadded : recordLines after = recordLines before ++ added.map Prod.snd)
    (hknown : ∀ record ∈ added, Known record.1 record.2) :
    History config Known { world.put 0 (some after) with completed := world.completed ++ added } := by
  refine ⟨fun slot hslot => ?_, ?_, fun record hrecord => ?_⟩
  · show Function.update world.files 0 (some after) slot = none
    rw [Function.update_of_ne (by omega)]
    exact h.retained slot hslot
  · show world.rotatedOff ++
      linesDown (Function.update world.files 0 (some after)) config.retainedFiles = _
    rw [linesDown_active hfile hadded, ← List.append_assoc, h.records, List.map_append]
  · rcases List.mem_append.1 hrecord with hold | hnew
    · exact h.known record hold
    · exact hknown record hnew

theorem history_createNew (h : History config Known world) :
    History config Known (exec world .createNew .succeeds).1 := by
  cases hfile : world.files 0 with
  | some content =>
    simp only [exec, hfile]
    exact h
  | none =>
    simp only [exec, hfile]
    refine ⟨fun slot hslot => ?_, ?_, h.known⟩
    · show Function.update world.files 0 (some []) slot = none
      rw [Function.update_of_ne (by omega)]
      exact h.retained slot hslot
    · show world.rotatedOff ++
        linesDown (Function.update world.files 0 (some [])) config.retainedFiles = _
      rw [linesDown_created hfile (by decide)]
      exact h.records

theorem history_writeMarker (h : History config Known world) (hfile : world.files 0 = some []) :
    History config Known (exec world .writeMarker .succeeds).1 := by
  have hmarked : recordLines markerLine = recordLines [] ++
      ([] : List (Event × Bytes)).map Prod.snd :=
    show recordLines markerLine = [] by decide
  refine (h.active hfile hmarked nofun).congr ?_ (List.append_nil _).symm rfl
  simp [exec, World.append, World.put, World.writtenBytes, hfile]

theorem history_writeRecord {event : Event} {text content : Bytes} (hline : newline ∉ text)
    (h : History config Known world) (hfile : world.files 0 = some content)
    (hwhole : Marked content ∧ tornTail content = []) (hknown : Known event text) :
    History config Known (exec world (.writeRecord event text) .succeeds).1 := by
  have hadded : recordLines (content ++ (text ++ [newline])) =
      recordLines content ++ [(event, text)].map Prod.snd :=
    recordLines_append hwhole.1 (completeLines_append_line hline hwhole.2)
  have hadds : ∀ record ∈ [(event, text)], Known record.1 record.2 := by
    intro record hrecord
    rw [List.mem_singleton.1 hrecord]
    exact hknown
  refine (h.active hfile hadded hadds).congr ?_ (if_pos rfl) rfl
  show (world.append (text ++ [newline])).files = _
  simp [World.append, World.put, hfile]

theorem history_remove (hretained : 0 < config.retainedFiles) (h : History config Known world) :
    History config Known (exec world (.remove config.retainedFiles) .succeeds).1 := by
  cases hfile : world.files config.retainedFiles with
  | none =>
    simp only [exec, hfile]
    exact h
  | some content =>
    simp only [exec, hfile]
    refine ⟨fun slot hslot => ?_, ?_, h.known⟩
    · show Function.update world.files config.retainedFiles none slot = none
      rw [Function.update_of_ne (by omega)]
      exact h.retained slot hslot
    · obtain ⟨n, hn⟩ := Nat.exists_eq_add_of_lt hretained
      rw [Nat.zero_add] at hn
      have hcontent : recordLines content = linesOf world.files config.retainedFiles := by
        rw [linesOf, hfile]
        rfl
      show (world.rotatedOff ++ recordLines content) ++ linesDown
        (Function.update world.files config.retainedFiles none) config.retainedFiles = _
      rw [List.append_assoc, hcontent, hn, linesDown_remove, ← hn]
      exact h.records

theorem history_rename {slot : Nat} (hslot : slot + 1 ≤ config.retainedFiles)
    (hfree : world.files (slot + 1) = none) (h : History config Known world) :
    History config Known (exec world (.rename slot (slot + 1)) .succeeds).1 := by
  cases hfile : world.files slot with
  | none =>
    simp only [exec, hfile]
    exact h
  | some content =>
    simp only [exec, hfile]
    refine ⟨fun other hother => ?_, ?_, h.known⟩
    · show Function.update (Function.update world.files slot none) (slot + 1) (some content)
        other = none
      rw [Function.update_of_ne (by omega), Function.update_of_ne (by omega)]
      exact h.retained other hother
    · show world.rotatedOff ++ linesDown (Function.update (Function.update world.files slot none)
        (slot + 1) (some content)) config.retainedFiles = _
      rw [linesDown_rename hfile hfree hslot]
      exact h.records

/-- A call that succeeds keeps the records. -/
theorem history_exec (hretained : 0 < config.retainedFiles)
    (hknown : ∀ event text, Known event text → newline ∉ text) {call : Call Event}
    (h : History config Known world) (hroom : Room config Known world call) :
    History config Known (exec world call .succeeds).1 := by
  have hquiet (hcall : Quiet call) : History config Known (exec world call .succeeds).1 := by
    obtain ⟨hfiles, hcompleted, -, hrotated⟩ := @exec_quiet Event world call hcall .succeeds
    exact h.congr hfiles hcompleted hrotated
  cases call with
  | createNew => exact history_createNew h
  | writeMarker => exact history_writeMarker h hroom.1
  | writeRecord event text =>
    obtain ⟨hwhole, hrecord, content, hfile, -⟩ := hroom
    exact history_writeRecord (hknown event text hrecord) h hfile (hwhole 0 content hfile) hrecord
  | remove slot =>
    obtain ⟨-, rfl⟩ := hroom
    exact history_remove hretained h
  | rename source target =>
    obtain ⟨-, rfl, htarget, hfree⟩ := hroom
    exact history_rename htarget hfree h
  | countWritten event => exact h.congr rfl rfl rfl
  | _ => exact hquiet trivial

theorem sized_update {files : Nat → Option Bytes} {slot : Nat} {content : Option Bytes}
    (h : Sized config files) (hcontent : ∀ c ∈ content, c.length ≤ config.maxFileBytes) :
    Sized config (Function.update files slot content) := by
  intro other c hother
  rw [Function.update_apply] at hother
  split at hother
  · exact hcontent c hother
  · exact h other c hother

/-- What a call writes fits into an empty file. -/
def WritesFitting (config : Config) : Call Event → Prop
  | .writeRecord _ text => TextFits config text
  | _ => True

/-- The write of a record keeps the bound exactly where the record fits into an empty file. -/
theorem sized_writeRecord_iff {event : Event} {text content : Bytes}
    (h : Sized config world.files) (hfile : world.files 0 = some content) (hmarked : Marked content)
    (hfits : min (content.length + (text.length + 1)) (2 ^ 64 - 1) ≤ config.maxFileBytes ∨
      content = markerLine)
    (hlength : content.length + (text.length + 1) < 2 ^ 64) :
    Sized config (exec world (.writeRecord event text) .succeeds).1.files ↔
      TextFits config text := by
  have hfiles : (exec world (.writeRecord event text) .succeeds).1.files =
      Function.update world.files 0 (some (content ++ (text ++ [newline]))) := by
    show (world.append (text ++ [newline])).files = _
    simp [World.append, World.put, hfile]
  have hcontent : (content ++ (text ++ [newline])).length = content.length + (text.length + 1) := by
    rw [List.length_append, List.length_append, List.length_singleton]
  rw [hfiles]
  constructor
  · intro hsized
    have hlong := hsized 0 _ (Function.update_self ..)
    rw [hcontent] at hlong
    have hmarker := hmarked.length_le
    unfold TextFits
    omega
  · intro htext
    refine sized_update h fun c hc => ?_
    cases hc
    rw [hcontent]
    rcases hfits with hroom | rfl
    · omega
    · exact htext

/-- A call that succeeds keeps the bound exactly where what it writes fits into an empty file. -/
theorem sized_exec_iff (hmarker : markerLine.length ≤ config.maxFileBytes) {call : Call Event}
    {fate : Fate} (h : Sized config world.files) (hroom : Room config Known world call)
    (hsucceeds : Succeeds world call fate) :
    Sized config (exec world call fate).1.files ↔ WritesFitting config call := by
  obtain rfl := hsucceeds.fate
  have hkept (hfiles : Sized config (exec world call .succeeds).1.files)
      (hcall : WritesFitting config call) :
      Sized config (exec world call .succeeds).1.files ↔ WritesFitting config call :=
    iff_of_true hfiles hcall
  have hquiet (hcall : Quiet call) : Sized config (exec world call .succeeds).1.files := by
    rw [(exec_quiet hcall .succeeds).1]
    exact h
  cases call with
  | createNew =>
    refine hkept ?_ trivial
    cases hfile : world.files 0 with
    | some content =>
      simp only [exec, hfile]
      exact h
    | none =>
      simp only [exec, hfile]
      refine sized_update h fun c hc => ?_
      cases hc
      exact Nat.zero_le _
  | writeMarker =>
    refine hkept ?_ trivial
    have hfiles : (exec world .writeMarker .succeeds).1.files =
        Function.update world.files 0 (some markerLine) := by
      simp [exec, World.append, World.put, World.writtenBytes, hroom.1]
    rw [hfiles]
    refine sized_update h fun c hc => ?_
    cases hc
    exact hmarker
  | writeRecord event text =>
    obtain ⟨hwhole, -, content, hfile, hfits⟩ := hroom
    exact sized_writeRecord_iff h hfile (hwhole 0 content hfile).1 hfits
      (hsucceeds.2 content hfile)
  | remove slot =>
    refine hkept ?_ trivial
    cases hfile : world.files slot with
    | none =>
      simp only [exec, hfile]
      exact h
    | some content =>
      simp only [exec, hfile]
      exact sized_update h (by simp)
  | rename source target =>
    refine hkept ?_ trivial
    cases hfile : world.files source with
    | none =>
      simp only [exec, hfile]
      exact h
    | some content =>
      simp only [exec, hfile]
      refine sized_update (sized_update h (by simp)) fun c hc => ?_
      cases hc
      exact h source content hfile
  | countWritten event => exact hkept h trivial
  | _ => exact hkept (hquiet trivial) trivial

/-- Only the removal of the last file rotates records off. -/
theorem drops_exec {call : Call Event} (hroom : Room config Known world call) :
    Drops config world (exec world call .succeeds).1 := by
  have hquiet (hcall : Quiet call) : Drops config world (exec world call .succeeds).1 :=
    .inl (exec_quiet hcall .succeeds).2.2.2
  cases call with
  | createNew =>
    refine .inl ?_
    cases hfile : world.files 0 with
    | none =>
      simp only [exec, hfile]
      rfl
    | some content => simp only [exec, hfile]
  | remove slot =>
    obtain ⟨-, rfl⟩ := hroom
    cases hfile : world.files config.retainedFiles with
    | none =>
      simp only [exec, hfile]
      exact .inl rfl
    | some content =>
      simp only [exec, hfile]
      refine .inr ⟨rfl, ?_⟩
      rw [linesOf, hfile]
      rfl
  | rename source target =>
    refine .inl ?_
    cases hfile : world.files source with
    | none => simp only [exec, hfile]
    | some content =>
      simp only [exec, hfile]
      rfl
  | writeMarker => exact .inl rfl
  | writeRecord event text => exact .inl rfl
  | countWritten event => exact .inl rfl
  | _ => exact hquiet trivial

/-- A call adds the record that it writes, and nothing else, to those written. -/
theorem completed_exec (call : Call Event) :
    (exec world call .succeeds).1.completed = world.completed ∨
      ∃ event text, call = .writeRecord event text ∧
        (exec world call .succeeds).1.completed = world.completed ++ [(event, text)] := by
  have hquiet (hcall : Quiet call) : (exec world call .succeeds).1.completed = world.completed :=
    (exec_quiet hcall .succeeds).2.1
  cases call with
  | createNew =>
    refine .inl ?_
    cases hfile : world.files 0 with
    | none =>
      simp only [exec, hfile]
      rfl
    | some content => simp only [exec, hfile]
  | remove slot =>
    refine .inl ?_
    cases hfile : world.files slot with
    | none => simp only [exec, hfile]
    | some content =>
      simp only [exec, hfile]
      rfl
  | rename source target =>
    refine .inl ?_
    cases hfile : world.files source with
    | none => simp only [exec, hfile]
    | some content =>
      simp only [exec, hfile]
      rfl
  | writeRecord event text => exact .inr ⟨event, text, rfl, if_pos rfl⟩
  | writeMarker => exact .inl rfl
  | countWritten event => exact .inl rfl
  | _ => exact .inl (hquiet trivial)

/-! ## Runs without a failure -/

/-- A record is the line of its event. -/
def Rendered (render : Event → Except IoError Bytes) (event : Event) (text : Bytes) : Prop :=
  render event = .ok text

/-- What the sink knows, at whatever call it is. -/
def SinkRoom (config : Config) (render : Event → Except IoError Bytes) (sink : Sink Event) : Prop :=
  match sink.process with
  | .stopped => Whole sink.world.files
  | .running script => Roomy config (Rendered render) ProcessRoom script sink.world

/-- No call fails, and the process is not stopped in the middle of creating a file. -/
def Unfailing (sink : Sink Event) : Step Event → Prop
  | .call fate => match sink.process with
    | .running (.call call _) => Succeeds sink.world call fate
    | _ => True
  | .stop => ¬ sink.creating
  | _ => True

variable {sink after : Sink Event}

theorem ProcessRoom.whole {result : Except IoError Worker} (h : ProcessRoom result world) :
    Whole world.files := by
  cases result with
  | error e => exact h
  | ok worker => exact h.1

theorem Room.whole {call : Call Event} (h : Room config (Rendered render) world call)
    (hcall : call ≠ .writeMarker) : Whole world.files := by
  cases call
  case writeMarker => exact absurd rfl hcall
  case writeRecord | remove | rename => exact h.1
  all_goals exact h

theorem SinkRoom.whole (h : SinkRoom config render sink) (hcreating : ¬ sink.creating) :
    Whole sink.world.files := by
  unfold SinkRoom at h
  cases hrunning : sink.process with
  | stopped =>
    rw [hrunning] at h
    exact h
  | running script =>
    rw [hrunning] at h
    cases script with
    | done result => exact ProcessRoom.whole h
    | call call next =>
      refine Room.whole h.1 fun heq => ?_
      subst heq
      exact hcreating ⟨next, hrunning⟩

/-- What one step does: a call, or nothing to the files and the records. -/
theorem step_world {step : Step Event} (hstep : sink.step config render step = some after) :
    (∃ call fate next, step = .call fate ∧ sink.process = .running (.call call next) ∧
        after.world = (exec sink.world call fate).1 ∧
        after.process = .running (next (exec sink.world call fate).2)) ∨
      (∀ fate, step ≠ .call fate) ∧ after.world.files = sink.world.files ∧
        after.world.completed = sink.world.completed ∧
        after.world.rotatedOff = sink.world.rotatedOff := by
  cases step with
  | call fate =>
    simp only [Sink.step] at hstep
    split at hstep
    next call next hrunning =>
        cases hstep
        exact .inl ⟨call, fate, next, rfl, hrunning, rfl, rfl⟩
    next => cases hstep
  | start =>
    simp only [Sink.step] at hstep
    split at hstep
    · cases hstep
    · cases hstep
      exact .inr ⟨by simp, rfl, rfl, rfl⟩
  | emit event =>
    simp only [Sink.step] at hstep
    split at hstep
    · split at hstep <;> cases hstep <;> exact .inr ⟨by simp, rfl, rfl, rfl⟩
    · cases hstep
  | flush =>
    simp only [Sink.step] at hstep
    split at hstep
    · cases hstep
      exact .inr ⟨by simp, rfl, rfl, rfl⟩
    · cases hstep
  | take =>
    simp only [Sink.step] at hstep
    split at hstep
    · cases hstep
      exact .inr ⟨by simp, rfl, rfl, rfl⟩
    · cases hstep
  | stop =>
    simp only [Sink.step] at hstep
    split at hstep
    · cases hstep
    · cases hstep
      exact .inr ⟨by simp, rfl, rfl, rfl⟩

theorem sinkRoom_step (hvalid : config.validate = .ok ())
    (hrender : ∀ event text, render event = .ok text → newline ∉ text) {step : Step Event}
    (h : SinkRoom config render sink) (hunfailing : Unfailing sink step)
    (hstep : sink.step config render step = some after) : SinkRoom config render after := by
  cases step with
  | call fate =>
    simp only [Sink.step] at hstep
    unfold SinkRoom at h
    unfold Unfailing at hunfailing
    split at hstep
    next call next hrunning =>
        cases hstep
        simp only [hrunning] at h hunfailing
        exact h.2 fate hunfailing
    next => cases hstep
  | start =>
    by_cases halive : sink.alive = true
    · simp [Sink.step, halive] at hstep
    · have hidle : ¬ sink.creating := by
        rintro ⟨next, hrunning⟩
        exact halive (by rw [Sink.alive, hrunning])
      simp only [Sink.step, if_neg halive, Option.some.injEq] at hstep
      subst hstep
      exact roomy_start hvalid (h.whole hidle)
  | emit event =>
    simp only [Sink.step] at hstep
    split at hstep
    · split at hstep <;> cases hstep <;> exact h
    · cases hstep
  | flush =>
    simp only [Sink.step] at hstep
    split at hstep
    · cases hstep
      exact h
    · cases hstep
  | take =>
    simp only [Sink.step] at hstep
    unfold SinkRoom at h
    split at hstep
    next worker command queue hrunning hqueue =>
        cases hstep
        simp only [hrunning] at h
        refine roomy_bind ((roomy_handle h (retained_of_valid hvalid) command
          fun event _ text htext => ⟨htext, hrender event text htext⟩).mono ?_)
        exact fun _ _ hw => hw
    next => cases hstep
  | stop =>
    have hwhole := h.whole hunfailing
    simp only [Sink.step] at hstep
    split at hstep
    · cases hstep
    · cases hstep
      exact hwhole

theorem marker_of_valid (h : config.validate = .ok ()) :
    markerLine.length ≤ config.maxFileBytes := by
  have hmarker : markerLine.length = 26 := by decide
  unfold Config.validate at h
  split at h
  · cases h
  · omega

/-- A step writes no record and keeps the bound, or it writes one and keeps the bound exactly where
the record fits into an empty file. -/
def Writes (config : Config) (before after : World Event) : Prop :=
  (after.completed = before.completed ∧ (Sized config before.files → Sized config after.files)) ∨
    ∃ event text, after.completed = before.completed ++ [(event, text)] ∧
      (Sized config before.files → (Sized config after.files ↔ TextFits config text))

theorem SinkRoom.call {call : Call Event} {next : call.Result → Script Event (Except IoError Worker)}
    (h : SinkRoom config render sink) (hrunning : sink.process = .running (.call call next)) :
    Room config (Rendered render) sink.world call := by
  unfold SinkRoom at h
  rw [hrunning] at h
  exact h.1

theorem Unfailing.call {call : Call Event} {next : call.Result → Script Event (Except IoError Worker)}
    {fate : Fate} (h : Unfailing sink (.call fate))
    (hrunning : sink.process = .running (.call call next)) : Succeeds sink.world call fate := by
  unfold Unfailing at h
  simp only [hrunning] at h
  exact h

theorem writes_step (hvalid : config.validate = .ok ()) {step : Step Event}
    (h : SinkRoom config render sink) (hunfailing : Unfailing sink step)
    (hstep : sink.step config render step = some after) :
    Writes config sink.world after.world := by
  rcases step_world hstep with ⟨call, fate, next, rfl, hrunning, hworld, -⟩ |
    ⟨-, hfiles, hcompleted, -⟩
  · have hsucceeds := hunfailing.call hrunning
    have hsized (hbefore : Sized config sink.world.files) :=
      sized_exec_iff (marker_of_valid hvalid) hbefore (h.call hrunning) hsucceeds
    rw [hworld]
    obtain rfl := hsucceeds.fate
    rcases @completed_exec _ sink.world call with hsame | ⟨event, text, rfl, hadded⟩
    · refine .inl ⟨hsame, fun hbefore => (hsized hbefore).2 ?_⟩
      cases call
      case writeRecord event text =>
        have hadded : (exec sink.world (.writeRecord event text) .succeeds).1.completed =
            sink.world.completed ++ [(event, text)] := if_pos rfl
        rw [hadded] at hsame
        exact absurd hsame (by simp)
      all_goals exact trivial
    · exact .inr ⟨event, text, hadded, hsized⟩
  · refine .inl ⟨hcompleted, fun hbefore => ?_⟩
    rw [hfiles]
    exact hbefore

theorem drops_step {step : Step Event} (h : SinkRoom config render sink)
    (hunfailing : Unfailing sink step) (hstep : sink.step config render step = some after) :
    Drops config sink.world after.world := by
  rcases step_world hstep with ⟨call, fate, next, rfl, hrunning, hworld, -⟩ | ⟨-, -, -, hrotated⟩
  · rw [hworld, (hunfailing.call hrunning).fate]
    exact drops_exec (h.call hrunning)
  · exact .inl hrotated

theorem history_step (hvalid : config.validate = .ok ())
    (hrender : ∀ event text, render event = .ok text → newline ∉ text) {step : Step Event}
    (h : SinkRoom config render sink) (hhistory : History config (Rendered render) sink.world)
    (hunfailing : Unfailing sink step) (hstep : sink.step config render step = some after) :
    History config (Rendered render) after.world := by
  rcases step_world hstep with ⟨call, fate, next, rfl, hrunning, hworld, -⟩ |
    ⟨-, hfiles, hcompleted, hrotated⟩
  · rw [hworld, (hunfailing.call hrunning).fate]
    exact history_exec (retained_of_valid hvalid) hrender hhistory (h.call hrunning)
  · exact hhistory.congr hfiles hcompleted hrotated

/-- The sink knows what it does, and the files hold the records. -/
def Rotates (config : Config) (render : Event → Except IoError Bytes) (sink : Sink Event) : Prop :=
  SinkRoom config render sink ∧ History config (Rendered render) sink.world

theorem rotates_initial (config : Config) (render : Event → Except IoError Bytes) :
    Rotates config render {} := by
  have hdown : ∀ n, linesDown (fun _ => none) n = [] := by
    intro n
    induction n with
    | zero => rfl
    | succ n ih => rw [linesDown, ih]; rfl
  exact ⟨fun _ _ h => (Option.some_ne_none _ h.symm).elim, fun _ _ => rfl, hdown _,
    List.forall_mem_nil _⟩

variable {steps : List (Step Event)}

theorem throughout_rotates (hvalid : config.validate = .ok ())
    (hrender : ∀ event text, render event = .ok text → newline ∉ text)
    (hunfailing : EachStep (Sink.step config render) Unfailing {} steps) :
    Throughout (Sink.step config render) (Rotates config render) {} steps :=
  throughout_of_step (rotates_initial config render)
    (fun _ _ _ h hstep hnext => ⟨sinkRoom_step hvalid hrender h.1 hstep hnext,
      history_step hvalid hrender h.1 h.2 hstep hnext⟩) hunfailing

/-- A record that is written stays written. -/
theorem completed_kept {sink after : Sink Event} (hvalid : config.validate = .ok ())
    (hrender : ∀ event text, render event = .ok text → newline ∉ text)
    (h : SinkRoom config render sink)
    (hunfailing : EachStep (Sink.step config render) Unfailing sink steps)
    (hrun : runFrom (Sink.step config render) sink steps = some after) :
    sink.world.completed <+: after.world.completed := by
  induction steps generalizing sink with
  | nil =>
    cases hrun
    exact List.prefix_refl _
  | cons step steps ih =>
    obtain ⟨hfirst, hrest⟩ := eachStep_cons.1 hunfailing
    obtain ⟨next, hstep, hrun⟩ := Option.bind_eq_some_iff.1 hrun
    refine .trans ?_ (ih (sinkRoom_step hvalid hrender h hfirst hstep) (hrest next hstep) hrun)
    rcases writes_step hvalid h hfirst hstep with ⟨hsame, -⟩ | ⟨event, text, hadded, -⟩
    · rw [hsame]
    · rw [hadded]
      exact List.prefix_append _ _

/-- While no file is too large, every record that is written fits. -/
theorem fitting_of_sized (hvalid : config.validate = .ok ())
    (hrender : ∀ event text, render event = .ok text → newline ∉ text)
    (hunfailing : EachStep (Sink.step config render) Unfailing {} steps)
    (hsized : Throughout (Sink.step config render) (fun s => Sized config s.world.files) {} steps) :
    Throughout (Sink.step config render)
      (fun s => ∀ record ∈ s.world.completed, TextFits config record.2) {} steps := by
  have hrotates := throughout_rotates hvalid hrender hunfailing
  refine throughout_of_reached (fun _ hrecord => absurd hrecord List.not_mem_nil)
    fun before step rest s s' heq hbefore hnext hfitting record hrecord => ?_
  have hs := hrotates before (step :: rest) s heq hbefore
  have hs' : Sized config s'.world.files :=
    hsized (before ++ [step]) rest s' (by simp [heq])
      (runFrom_concat_eq_some.2 ⟨s, hbefore, hnext⟩)
  rcases writes_step hvalid hs.1 (hunfailing before step rest s heq hbefore) hnext with
    ⟨hsame, -⟩ | ⟨event, text, hadded, hiff⟩
  · rw [hsame] at hrecord
    exact hfitting record hrecord
  · rw [hadded, List.mem_append, List.mem_singleton] at hrecord
    rcases hrecord with hold | rfl
    · exact hfitting record hold
    · exact (hiff (hsized before (step :: rest) s heq hbefore)).1 hs'

/-- While the records written fit, no file is too large. -/
theorem sized_of_fitting (hvalid : config.validate = .ok ())
    (hrender : ∀ event text, render event = .ok text → newline ∉ text)
    (hunfailing : EachStep (Sink.step config render) Unfailing {} steps)
    (hrun : runFrom (Sink.step config render) {} steps = some sink)
    (hfitting : ∀ record ∈ sink.world.completed, TextFits config record.2) :
    Throughout (Sink.step config render) (fun s => Sized config s.world.files) {} steps := by
  have hrotates := throughout_rotates hvalid hrender hunfailing
  refine throughout_of_reached nofun fun before step rest s s' heq hbefore hnext hsized => ?_
  have hs := hrotates before (step :: rest) s heq hbefore
  have hstep := hunfailing before step rest s heq hbefore
  rcases writes_step hvalid hs.1 hstep hnext with ⟨-, hkept⟩ | ⟨event, text, hadded, hiff⟩
  · exact hkept hsized
  · refine (hiff hsized).2 (hfitting (event, text) ?_)
    -- The record is still among those written when the run ends.
    have hafter : runFrom (Sink.step config render) {} (before ++ [step]) = some s' :=
      runFrom_concat_eq_some.2 ⟨s, hbefore, hnext⟩
    have hsplit : steps = before ++ [step] ++ rest := by rw [heq, List.append_cons]
    rw [hsplit, runFrom_append, hafter] at hrun
    have hrest := (eachStep_append.1 (hsplit ▸ hunfailing)).2 s' hafter
    have hroom := sinkRoom_step hvalid hrender hs.1 hstep hnext
    refine (completed_kept hvalid hrender hroom hrest hrun).subset ?_
    rw [hadded]
    exact List.mem_append_right _ List.mem_cons_self

theorem throughout_sized_iff (hvalid : config.validate = .ok ())
    (hrender : ∀ event text, render event = .ok text → newline ∉ text)
    (hunfailing : EachStep (Sink.step config render) Unfailing {} steps)
    (hrun : runFrom (Sink.step config render) {} steps = some sink) :
    Throughout (Sink.step config render) (fun s => Sized config s.world.files) {} steps ↔
      ∀ record ∈ sink.world.completed, TextFits config record.2 := by
  constructor
  · intro hsized
    exact (fitting_of_sized hvalid hrender hunfailing hsized).final hrun
  · intro hfitting
    exact sized_of_fitting hvalid hrender hunfailing hrun hfitting

end AppCore.Observation
