import AppCore.Base.Dialogue
import AppCore.Base.Runs
import AppCore.Base.Text

/-!
# The observation file

`FileObservationSink` appends each event as a line of JSON to an active file and rotates it to
`path.1`, `path.2`, … when it is full. A worker takes the events from a bounded queue. Every call of
the file system may fail, a write may stop behind some of its bytes, and the process may be stopped
before any call; the files stay as they are then.

* `exec` — what a call does to the files, for each of its fates.

The active file has slot 0, and `path.i` has slot `i`. The ghost fields of `World` remember the
events counted in `written`, the records whose bytes were all written, and the records that went
with a removed file.
-/

namespace AppCore.Observation

inductive IoError where
  | os
  | notFound
  | alreadyExists
  | invalidInput (message : String)
  | invalidData (message : String)
  deriving DecidableEq, Repr

/-- How a call ends. A write that fails has written the first `written` of its bytes. -/
inductive Fate where
  | succeeds
  | fails (written : Nat)
  deriving DecidableEq, Repr

/-- The calls of the sink: to the file system, to start its worker, and to its counters. -/
inductive Call (Event : Type) where
  | createDirs
  | inspect
  | pathExists (slot : Nat)
  | createNew
  | writeMarker
  | writeRecord (event : Event) (text : Bytes)
  | syncFile
  | syncParent
  | readFirstLine
  | openFile
  | metadata
  | remove (slot : Nat)
  | rename (source target : Nat)
  | spawn
  | countWritten (event : Event)
  | countError

variable {Event : Type}

def Call.Result : Call Event → Type
  | pathExists _ => Bool
  | readFirstLine => Except IoError Bytes
  | metadata => Except IoError Nat
  | countWritten _ => Unit
  | countError => Unit
  | _ => Except IoError Unit

/-! ## Lines -/

def newline : UInt8 := 0x0a

/-- The complete lines of a file, and what stands behind the last newline. -/
def cutLines : Bytes → List Bytes × Bytes
  | [] => ([], [])
  | b :: rest =>
    let (lines, torn) := cutLines rest
    if b = newline then ([] :: lines, torn)
    else match lines with
      | [] => ([], b :: torn)
      | line :: lines => ((b :: line) :: lines, torn)

def completeLines (content : Bytes) : List Bytes := (cutLines content).1

def tornTail (content : Bytes) : Bytes := (cutLines content).2

/-- The records of a file: its complete lines behind the first, which has the marker. -/
def recordLines (content : Bytes) : List Bytes := (completeLines content).tail

def observationFileFormatV1 : String := "# appcore-observations-v1"

/-- What `writeln!` writes into a new file. -/
def markerLine : Bytes := strBytes observationFileFormatV1 ++ [newline]

/-- What `read_line` reads: the first line with its newline, or all of a file without one. -/
def firstLine : Bytes → Bytes
  | [] => []
  | b :: rest => if b = newline then [b] else b :: firstLine rest

/-- The first line is the marker, as `initialize_file` compares it. -/
def isMarker (line : Bytes) : Bool :=
  match fromUtf8 line with
  | some text => text.rdropWhile isWhitespace = observationFileFormatV1.toList
  | none => false

/-! ## The files -/

/-- The files, the counters of the running sink, and what is remembered about all of them. -/
structure World (Event : Type) where
  files : Nat → Option Bytes := fun _ => none
  written : Nat := 0
  errors : Nat := 0
  counted : List Event := []
  completed : List (Event × Bytes) := []
  rotatedOff : List Bytes := []

namespace World

def put (world : World Event) (slot : Nat) (content : Option Bytes) : World Event :=
  { world with files := Function.update world.files slot content }

/-- The bytes go to the end of the active file. -/
def append (world : World Event) (bytes : Bytes) : World Event :=
  world.put 0 ((world.files 0).map (· ++ bytes))

/-- The bytes that a write of `bytes` leaves behind. -/
def writtenBytes (bytes : Bytes) : Fate → Bytes
  | .succeeds => bytes
  | .fails written => bytes.take written

def answer : Fate → Except IoError Unit
  | .succeeds => .ok ()
  | .fails _ => .error .os

end World

open World in
/-- What a call does, and how it is answered. `Path::exists` answers `false` where it fails. -/
def exec (world : World Event) (call : Call Event) (fate : Fate) : World Event × call.Result :=
  match call, fate with
  | .createDirs, fate => (world, answer fate)
  | .inspect, fate => (world, answer fate)
  | .pathExists slot, .succeeds => (world, (world.files slot).isSome)
  | .pathExists _, .fails _ => (world, false)
  | .createNew, .succeeds =>
    match world.files 0 with
    | some _ => (world, .error .alreadyExists)
    | none => (world.put 0 (some []), .ok ())
  | .createNew, .fails _ => (world, .error .os)
  | .writeMarker, fate => (world.append (writtenBytes markerLine fate), answer fate)
  | .writeRecord event text, fate =>
    let line := text ++ [newline]
    let bytes := writtenBytes line fate
    ({ world.append bytes with
        completed := if bytes = line then world.completed ++ [(event, text)]
          else world.completed }, answer fate)
  | .syncFile, fate => (world, answer fate)
  | .syncParent, fate => (world, answer fate)
  | .readFirstLine, .succeeds =>
    match world.files 0 with
    | some content => (world, .ok (firstLine content))
    | none => (world, .error .notFound)
  | .readFirstLine, .fails _ => (world, .error .os)
  | .openFile, .succeeds =>
    match world.files 0 with
    | some _ => (world, .ok ())
    | none => (world, .error .notFound)
  | .openFile, .fails _ => (world, .error .os)
  | .metadata, .succeeds => (world, .ok ((world.files 0).elim 0 List.length))
  | .metadata, .fails _ => (world, .error .os)
  | .remove slot, .succeeds =>
    match world.files slot with
    | some content =>
      ({ world.put slot none with
          rotatedOff := world.rotatedOff ++ recordLines content }, .ok ())
    | none => (world, .error .notFound)
  | .remove _, .fails _ => (world, .error .os)
  | .rename source target, .succeeds =>
    match world.files source with
    | some content => ((world.put source none).put target (some content), .ok ())
    | none => (world, .error .notFound)
  | .rename _ _, .fails _ => (world, .error .os)
  | .spawn, fate => (world, answer fate)
  | .countWritten event, _ =>
    ({ world with
        written := world.written + 1
        counted := world.counted ++ [event] }, ())
  | .countError, _ => ({ world with errors := world.errors + 1 }, ())

/-! ## The functions of the sink -/

/-- A program of the worker. -/
abbrev Script (Event α : Type) := Dialogue (Call Event) Call.Result α

/-- A program that may return an error, as the functions with `?` do. -/
abbrev FileM (Event : Type) := ExceptT IoError (Dialogue (Call Event) Call.Result)

def ask (call : Call Event) : Script Event call.Result := Dialogue.ask call

/-- A call whose error ends the function. -/
def attempt {α : Type} (script : Script Event (Except IoError α)) : FileM Event α := script

def pathExists (slot : Nat) : Script Event Bool := ask (.pathExists slot)

def syncAll : Script Event (Except IoError Unit) := ask .syncFile

structure Config where
  maxFileBytes : Nat := 16 * 1024 * 1024
  retainedFiles : Nat := 4
  queueCapacity : Nat := 4096
  syncEveryRecords : Nat := 64

def Config.validate (config : Config) : Except IoError Unit :=
  if config.maxFileBytes < 64 * 1024 ∨ config.retainedFiles = 0 ∨ config.queueCapacity = 0 ∨
      config.syncEveryRecords = 0 then
    .error (.invalidInput
      "observation drain limits must be positive and max_file_bytes >= 64 KiB")
  else .ok ()

/-- The branch of `initialize_file` for a path without a file. -/
def createFile : FileM Event Unit := do
  attempt (ask .createNew)
  attempt (ask .writeMarker)
  attempt (ask .syncFile)
  attempt (ask .syncParent)

/-- The branch of `initialize_file` for a file that is there. -/
def checkFile : FileM Event Unit := do
  let line ← attempt (ask .readFirstLine)
  if isMarker line then pure ()
  else throw (.invalidData "unsupported observation file format")

def initializeFile : FileM Event Unit := do
  attempt (ask .createDirs)
  attempt (ask .inspect)
  let there ← ExceptT.lift (pathExists 0)
  if there then checkFile else createFile

def openAppend : FileM Event Unit := do
  initializeFile
  attempt (ask .openFile)

def removeIfExists (slot : Nat) : FileM Event Unit := do
  let result : Except IoError Unit ← ExceptT.lift (ask (.remove slot))
  match result with
  | .error .notFound => pure ()
  | .error error => throw error
  | .ok () => pure ()

/-- Rename a file if `exists` says that it is there. -/
def renameIfExists (source target : Nat) : FileM Event Unit := do
  let there ← ExceptT.lift (pathExists source)
  if there then attempt (ask (.rename source target)) else pure ()

/-- The loop of `rotate_files`, which goes down from `index`. -/
def shiftFiles (config : Config) : Nat → FileM Event Unit
  | 0 => pure ()
  | index + 1 => do
      if index + 1 = config.retainedFiles then removeIfExists (index + 1)
        else renameIfExists (index + 1) (index + 2)
      shiftFiles config index

def rotateFiles (config : Config) : FileM Event Unit := do
  shiftFiles config config.retainedFiles
  renameIfExists 0 1
  initializeFile

/-- The size of the open file, or zero where there is none. -/
def currentSize (file : Bool) : Script Event Nat :=
  if file then do
    let size : Except IoError Nat ← ask .metadata
    match size with
    | .ok size => pure size
    | .error _ => pure 0
  else pure 0

/-- The rotation in `write_event`: the open file is taken and synchronised first. -/
def makeRoom (config : Config) (file : Bool) : FileM Event Unit := do
  if file then attempt (ask .syncFile) else pure ()
  rotateFiles config
  openAppend

/-- The end of `write_event`: the file is opened if it is not, and the record is written. -/
def appendRecord (file : Bool) (event : Event) (text : Bytes) :
    Script Event (Except IoError Unit × Bool) := do
  let opened : Except IoError Unit ← if file then pure (.ok ()) else openAppend.run
  match opened with
  | .error error => pure (.error error, false)
  | .ok () => do
      let result : Except IoError Unit ← ask (.writeRecord event text)
      pure (result, true)

/-- `write_event`: the result, and whether the worker has an open file behind it. -/
def writeEvent (config : Config) (render : Event → Except IoError Bytes) (file : Bool)
    (event : Event) : Script Event (Except IoError Unit × Bool) :=
  match render event with
  | .error error => pure (.error error, file)
  | .ok text => do
      let size ← currentSize file
      if config.maxFileBytes < min (size + (text.length + 1)) (2 ^ 64 - 1) then do
        let room ← (makeRoom config file).run
        match room with
        | .error error => pure (.error error, false)
        | .ok () => appendRecord true event text
      else appendRecord file event text

/-- `sync_file`. -/
def syncIfOpen (file : Bool) : Script Event Unit :=
  if file then do
    let result ← syncAll
    match result with
    | .ok () => pure ()
    | .error _ => ask .countError
  else pure ()

/-! ## The worker -/

inductive Command (Event : Type) where
  | event (event : Event)
  | flush

/-- What the worker keeps between two commands. -/
structure Worker where
  file : Bool
  unsynced : Nat

/-- The count behind `write_event` in `run_worker`. -/
def countResult (worker : Worker) (event : Event) : Except IoError Unit → Script Event Nat
  | .ok () => do
      ask (.countWritten event)
      pure (worker.unsynced + 1)
  | .error _ => do
      ask .countError
      pure worker.unsynced

/-- One turn of the loop of `run_worker`. -/
def handle (config : Config) (render : Event → Except IoError Bytes) (worker : Worker) :
    Command Event → Script Event Worker
  | .event event => do
      let (result, file) ← writeEvent config render worker.file event
      let unsynced ← countResult worker event result
      if config.syncEveryRecords ≤ unsynced then do
        syncIfOpen file
        pure ⟨file, 0⟩
      else pure ⟨file, unsynced⟩
  | .flush => do
      syncIfOpen worker.file
      pure ⟨worker.file, 0⟩

def new (config : Config) : FileM Event Unit := do
  attempt (pure config.validate)
  initializeFile
  attempt (ask .spawn)

/-- `new`, and the worker up to its loop. -/
def start (config : Config) : FileM Event Worker := do
  new config
  let opened ← ExceptT.lift openAppend.run
  pure ⟨opened.isOk, 0⟩

/-! ## Runs -/

/-- A process is stopped, or it makes calls. A worker that is done with its calls waits for a
command; a process whose `new` returned an error has no sink. -/
inductive Process (Event : Type) where
  | stopped
  | running (script : Script Event (Except IoError Worker))

structure Sink (Event : Type) where
  world : World Event := {}
  process : Process Event := .stopped
  queue : List (Command Event) := []
  dropped : Nat := 0
  emitted : List Event := []

inductive Step (Event : Type) where
  | start
  | call (fate : Fate)
  | emit (event : Event)
  | flush
  | take
  | stop

namespace Sink

/-- The process has a sink, or is about to have one. -/
def alive (sink : Sink Event) : Bool :=
  match sink.process with
  | .stopped => false
  | .running (.done (.error _)) => false
  | .running _ => true

/-- One step. An event that finds the queue full is dropped; a flush waits for its place. -/
def step (config : Config) (render : Event → Except IoError Bytes) (sink : Sink Event) :
    Step Event → Option (Sink Event)
  | .start =>
    if sink.alive then none
    else some { sink with
      world := { sink.world with
        written := 0
        errors := 0 }
      process := .running (Observation.start config).run
      queue := []
      dropped := 0 }
  | .call fate =>
    match sink.process with
    | .running (.call call next) =>
      let (world, answer) := exec sink.world call fate
      some { sink with
        world
        process := .running (next answer) }
    | _ => none
  | .emit event =>
    if sink.alive then
      let emitted := sink.emitted ++ [event]
      if sink.queue.length < config.queueCapacity then
        some { sink with
          queue := sink.queue ++ [.event event]
          emitted }
      else some { sink with
        dropped := sink.dropped + 1
        emitted }
    else none
  | .flush =>
    if sink.alive ∧ sink.queue.length < config.queueCapacity then
      some { sink with queue := sink.queue ++ [.flush] }
    else none
  | .take =>
    match sink.process, sink.queue with
    | .running (.done (.ok worker)), command :: queue =>
      some { sink with
        process := .running (Except.ok <$> handle config render worker command)
        queue }
    | _, _ => none
  | .stop =>
    match sink.process with
    | .stopped => none
    | .running _ => some { sink with
        process := .stopped
        queue := [] }

end Sink

end AppCore.Observation
