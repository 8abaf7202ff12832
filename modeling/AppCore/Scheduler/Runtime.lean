import AppCore.Base.Maps
import AppCore.Base.Word

/-!
# The scheduler

`runtime.rs`: a coordinator thread looks for tasks that are due and starts a worker thread for each;
a worker calls the callback of its task and then completes the task. They share the map of the
tasks, which is locked, and a counter of the active workers, which is not.

Every access to the shared state is a step of its own: the coordinator reads the counter before it
takes the lock, and a worker decrements it after it has released the lock. Times are arbitrary. The
texts of errors and traces, that only a snapshot shows, are left out.
-/

namespace AppCore.Scheduler

/-- `SystemTime`, in nanoseconds since the epoch. -/
abbrev SystemTime := Int

/-- `Duration`, in nanoseconds. -/
abbrev Duration := Nat

/-- `SystemTime::checked_add`: the seconds are an `i64`. -/
def checkedAddTime (now : SystemTime) (d : Duration) : Option SystemTime :=
  if now + d < 2 ^ 63 * 10 ^ 9 then some (now + d) else none

def asMillis (d : Duration) : Nat := d / 10 ^ 6

def fromMillis (millis : Nat) : Duration := millis * 10 ^ 6

/-! ## Tasks -/

inductive SchedulerError where
  | invalidConfig (reason : String)
  | invalidTaskId
  | invalidSchedule (reason : String)
  | invalidCron (message : String)
  | duplicateTask (id : String)
  | capacityExceeded (maxTasks : Nat)
  | shutdown
  deriving DecidableEq, Repr

structure SchedulerConfig where
  maxTasks : Nat
  maxConcurrentTasks : Nat
  pollInterval : Duration

structure RetryPolicy where
  maxAttempts : UInt32
  initialBackoff : Duration
  maxBackoff : Duration
  multiplier : UInt32
  jitter : Duration

inductive TaskSchedule where
  | once (runAt : SystemTime)
  | interval (every : Duration) (startAt : Option SystemTime)
  | cron (expression : String)

structure ScheduledTask where
  id : String
  schedule : TaskSchedule
  retry : RetryPolicy
  priority : UInt8

/-- The crate that reads cron expressions: the next time of an expression after a time. -/
class CronCrate where
  fromStr : String → Except String (SystemTime → Option SystemTime)

inductive ParsedSchedule where
  | once
  | interval (every : Duration)
  | cron (after : SystemTime → Option SystemTime)

def maxTaskIdBytes : Nat := 128

def validateTaskId (taskId : String) : Except SchedulerError Unit :=
  if taskId.isEmpty ∨ taskId.utf8ByteSize > maxTaskIdBytes ∨
      ¬ taskId.toList.all fun c => c.isAlphanum || c == '.' || c == '_' || c == '-' then
    .error .invalidTaskId
  else .ok ()

def validateRetry (policy : RetryPolicy) : Except SchedulerError Unit :=
  if policy.maxAttempts = 0 then .error (.invalidSchedule "max_attempts must be positive")
  else if policy.multiplier = 0 then
    .error (.invalidSchedule "retry multiplier must be positive")
  else if policy.initialBackoff > policy.maxBackoff then
    .error (.invalidSchedule "initial_backoff exceeds max_backoff")
  else .ok ()

def validateSchedule [CronCrate] : TaskSchedule → Except SchedulerError Unit
  | .once _ => .ok ()
  | .interval every _ =>
    if every = 0 then .error (.invalidSchedule "zero interval") else .ok ()
  | .cron expression =>
    match CronCrate.fromStr expression with
    | .ok _ => .ok ()
    | .error message => .error (.invalidCron message)

def ScheduledTask.validate [CronCrate] (task : ScheduledTask) : Except SchedulerError Unit := do
  validateTaskId task.id
  validateRetry task.retry
  validateSchedule task.schedule

def parseSchedule [CronCrate] (now : SystemTime) :
    TaskSchedule → Except SchedulerError (ParsedSchedule × SystemTime)
  | .once runAt => .ok (.once, runAt)
  | .interval every startAt =>
    if every = 0 then .error (.invalidSchedule "zero interval")
    else match startAt with
      | some startAt => .ok (.interval every, startAt)
      | none =>
        match checkedAddTime now every with
        | some next => .ok (.interval every, next)
        | none => .error (.invalidSchedule "interval exceeds clock range")
  | .cron expression =>
    match CronCrate.fromStr expression with
    | .error message => .error (.invalidCron message)
    | .ok after =>
      match after now with
      | some next => .ok (.cron after, next)
      | none => .error (.invalidSchedule "cron has no next occurrence")

def scheduleNext (now : SystemTime) : ParsedSchedule → Option SystemTime
  | .once => none
  | .interval every => checkedAddTime now every
  | .cron after => after now

def nextRandom (current : UInt64) : UInt64 :=
  let next := current ^^^ (current <<< 13)
  let next := next ^^^ (next >>> 7)
  next ^^^ (next <<< 17)

/-- `retry_delay`, and the state of the jitter after it. -/
def retryDelay (policy : RetryPolicy) (attempt : UInt32) (jitterState : UInt64) :
    Duration × UInt64 :=
  let exponent := min (attempt.toNat - 1) 31
  let factor := min (policy.multiplier.toNat ^ exponent) (2 ^ 128 - 1)
  let baseMs := min (asMillis policy.initialBackoff * factor) (2 ^ 128 - 1)
  let cappedMs := min baseMs (asMillis policy.maxBackoff)
  let jitterMax := min (asMillis policy.jitter) (2 ^ 64 - 1)
  let (jitter, jitterState) :=
    if jitterMax = 0 then (0, jitterState)
    else ((nextRandom jitterState).toNat % min (jitterMax + 1) (2 ^ 64 - 1), nextRandom jitterState)
  (fromMillis (min (min cappedMs (2 ^ 64 - 1) + jitter) (2 ^ 64 - 1)), jitterState)

/-- `attempts.saturating_add(1)`. -/
def nextAttempt (attempts : UInt32) : UInt32 :=
  if attempts.toNat + 1 < 2 ^ 32 then attempts + 1 else attempts

/-! ## The shared state -/

structure TaskEntry where
  schedule : ParsedSchedule
  retry : RetryPolicy
  priority : UInt8
  cancelled : Bool
  nextRun : SystemTime
  running : Bool
  attempts : UInt32
  order : UInt64

/-- A task whose cancellation is requested. -/
def TaskEntry.cancel (task : TaskEntry) : TaskEntry := { task with cancelled := true }

/-- Whether a task stays in the map. -/
def TaskEntry.stays (task : TaskEntry) : Bool := task.running || !task.cancelled

/-- Whether a task is due. -/
def TaskEntry.isDue (now : SystemTime) (task : TaskEntry) : Bool :=
  !task.running && task.nextRun ≤ now

/-- A task that is about to run. -/
def TaskEntry.mark (task : TaskEntry) : TaskEntry :=
  { task with running := true, attempts := nextAttempt task.attempts }

/-- The tasks by their ids. -/
abbrev TaskMap := Std.ExtTreeMap String TaskEntry compare

/-- The map with a task changed or removed. -/
def setTask (tasks : TaskMap) (taskId : String) : Option TaskEntry → TaskMap
  | some task => tasks.insert taskId task
  | none => tasks.erase taskId

abbrev TaskResult := Except String Unit

/-- Where a worker is: in its callback, behind it with the result, or behind the completion with the
counter still to be decremented. -/
inductive WorkerPhase where
  | executing
  | returned (result : TaskResult)
  | completed

/-- A worker thread and the attempt that was handed to its callback. -/
structure Worker where
  id : String
  attempt : UInt32
  phase : WorkerPhase

/-- Where the coordinator is in `coordinator_loop`. -/
inductive Coordinator where
  | waiting
  | loaded (available : Nat)
  | spawning (due : List String)
  | joining
  | stopped
  deriving DecidableEq

/-- `SchedulerInner`, with the threads. -/
structure SchedulerInner where
  config : SchedulerConfig
  tasks : TaskMap
  shutdown : Bool
  active : Nat
  sequence : UInt64
  jitterState : UInt64
  workers : List Worker
  coordinator : Coordinator

/-- What happens to the attempts of a task: one is handed to the callback, one could not be started,
or the execution cycle is over. -/
inductive Event where
  | handed (id : String) (attempt : UInt32)
  | notStarted (id : String) (attempt : UInt32)
  | cycleEnded (id : String)
  deriving DecidableEq

namespace SchedulerInner

def new (config : SchedulerConfig) (seed : UInt64) : SchedulerInner :=
  ⟨config, ∅, false, 0, 1, seed, [], .waiting⟩

def schedule [CronCrate] (inner : SchedulerInner) (task : ScheduledTask) (now : SystemTime) :
    Except SchedulerError Unit × SchedulerInner :=
  if inner.shutdown then (.error .shutdown, inner)
  else match task.validate with
    | .error e => (.error e, inner)
    | .ok () =>
      match parseSchedule now task.schedule with
      | .error e => (.error e, inner)
      | .ok (schedule, nextRun) =>
        if inner.tasks.contains task.id then (.error (.duplicateTask task.id), inner)
        else if inner.tasks.size ≥ inner.config.maxTasks then
          (.error (.capacityExceeded inner.config.maxTasks), inner)
        else (.ok (), { inner with
          tasks := inner.tasks.insert task.id
            ⟨schedule, task.retry, task.priority, false, nextRun, false, 0, inner.sequence⟩
          sequence := inner.sequence + 1 })

/-- `Scheduler::cancel`; a handle cancels its task in the same way. -/
def cancel (inner : SchedulerInner) (taskId : String) : SchedulerInner :=
  { inner with tasks := inner.tasks.modify taskId TaskEntry.cancel }

/-- `Scheduler::shutdown`: the flag. -/
def requestShutdown (inner : SchedulerInner) : SchedulerInner := { inner with shutdown := true }

/-- `Scheduler::shutdown`: the tasks. -/
def cancelTasks (inner : SchedulerInner) : SchedulerInner :=
  { inner with tasks := inner.tasks.map fun _ task => TaskEntry.cancel task }

/-! ## The coordinator -/

/-- The number of workers there is room for. -/
def loadAvailable (inner : SchedulerInner) : SchedulerInner :=
  { inner with coordinator := .loaded (inner.config.maxConcurrentTasks - inner.active) }

/-- The order of tasks that are due. -/
def dueBefore (left right : String × TaskEntry) : Bool :=
  left.2.priority > right.2.priority || left.2.priority == right.2.priority &&
    (left.2.nextRun < right.2.nextRun || left.2.nextRun == right.2.nextRun &&
      left.2.order ≤ right.2.order)

/-- The ids of the tasks that are due, at most `available` of them. -/
def dueTasks (tasks : TaskMap) (available : Nat) (now : SystemTime) : List String :=
  (((tasks.toList.filter fun entry => TaskEntry.isDue now entry.2).mergeSort dueBefore).take
    available).map (·.1)

/-- The locked part of a scan: cancelled tasks are removed, and tasks that are due are marked. -/
def selectDue (inner : SchedulerInner) (available : Nat) (now : SystemTime) :
    SchedulerInner × List Event :=
  let tasks := inner.tasks.filter fun _ task => TaskEntry.stays task
  let due := dueTasks tasks available now
  ({ inner with
      tasks := due.foldl (fun tasks id => tasks.modify id TaskEntry.mark) tasks
      coordinator := .spawning due },
    (inner.tasks.keys.filter fun id => !tasks.contains id).map .cycleEnded)

/-- The task that `complete_task` leaves, if any, whether its cycle is over, and the jitter. -/
def completed (task : TaskEntry) (shutdown : Bool) (jitterState : UInt64) (result : TaskResult)
    (now : SystemTime) : Option TaskEntry × Bool × UInt64 :=
  let task := { task with running := false }
  let next : Option TaskEntry :=
    (scheduleNext now task.schedule).map fun nextRun => { task with attempts := 0, nextRun }
  if shutdown || task.cancelled then (none, true, jitterState)
  else match result with
    | .error _ =>
      if task.attempts < task.retry.maxAttempts then
        let (delay, jitterState) := retryDelay task.retry task.attempts jitterState
        match checkedAddTime now delay with
        | some nextRun => (some { task with nextRun }, false, jitterState)
        | none => (none, true, jitterState)
      else (next, true, jitterState)
    | .ok () => (next, true, jitterState)

/-- The locked part of `complete_task`. -/
def completeTask (inner : SchedulerInner) (taskId : String) (result : TaskResult)
    (now : SystemTime) : SchedulerInner × List Event :=
  match inner.tasks[taskId]? with
  | none => (inner, [])
  | some task =>
    match completed task inner.shutdown inner.jitterState result now with
    | (left, ended, jitterState) =>
      ({ inner with tasks := setTask inner.tasks taskId left, jitterState },
        if ended then [.cycleEnded taskId] else [])

/-- `spawn_task`, with a thread that is started, or one that is not: then the coordinator completes
the task itself, and the counter goes up and down again. -/
def spawnTask (inner : SchedulerInner) (taskId : String) (started : Bool) (now : SystemTime) :
    SchedulerInner × List Event :=
  match inner.tasks[taskId]? with
  | none => (inner, [])
  | some task =>
    if started then
      ({ inner with
          active := inner.active + 1
          workers := inner.workers ++ [⟨taskId, task.attempts, .executing⟩] },
        [.handed taskId task.attempts])
    else
      let (inner, events) := inner.completeTask taskId (.error "worker could not start") now
      (inner, .notStarted taskId task.attempts :: events)

/-- **One step** of a caller, of the coordinator or of a worker. -/
inductive Step [CronCrate] : SchedulerInner → List Event → SchedulerInner → Prop where
  | schedule (inner : SchedulerInner) (task : ScheduledTask) (now : SystemTime) :
      Step inner [] (inner.schedule task now).2
  | cancel (inner : SchedulerInner) (taskId : String) : Step inner [] (inner.cancel taskId)
  | requestShutdown (inner : SchedulerInner) : Step inner [] inner.requestShutdown
  | cancelTasks {inner : SchedulerInner} (hshutdown : inner.shutdown = true) :
      Step inner [] inner.cancelTasks
  | load {inner : SchedulerInner} (hcoordinator : inner.coordinator = .waiting)
      (hshutdown : inner.shutdown = false) : Step inner [] inner.loadAvailable
  | select {inner : SchedulerInner} {available : Nat}
      (hcoordinator : inner.coordinator = .loaded available) (now : SystemTime) :
      Step inner (inner.selectDue available now).2 (inner.selectDue available now).1
  | spawn {inner : SchedulerInner} {taskId : String} {rest : List String}
      (hcoordinator : inner.coordinator = .spawning (taskId :: rest)) (started : Bool)
      (now : SystemTime) :
      Step inner (inner.spawnTask taskId started now).2
        { (inner.spawnTask taskId started now).1 with coordinator := .spawning rest }
  | wait {inner : SchedulerInner} (hcoordinator : inner.coordinator = .spawning []) :
      Step inner [] { inner with coordinator := .waiting }
  | join {inner : SchedulerInner} (hcoordinator : inner.coordinator = .waiting)
      (hshutdown : inner.shutdown = true) : Step inner [] { inner with coordinator := .joining }
  | clear {inner : SchedulerInner} (hcoordinator : inner.coordinator = .joining)
      (hworkers : inner.workers = []) :
      Step inner (inner.tasks.keys.map .cycleEnded)
        { inner with tasks := ∅, coordinator := .stopped }
  | callback {inner : SchedulerInner} {before after : List Worker} {id : String}
      {attempt : UInt32} (hworkers : inner.workers = before ++ ⟨id, attempt, .executing⟩ :: after)
      (result : TaskResult) :
      Step inner [] { inner with workers := before ++ ⟨id, attempt, .returned result⟩ :: after }
  | complete {inner : SchedulerInner} {before after : List Worker} {id : String}
      {attempt : UInt32} {result : TaskResult}
      (hworkers : inner.workers = before ++ ⟨id, attempt, .returned result⟩ :: after)
      (now : SystemTime) :
      Step inner (inner.completeTask id result now).2
        { (inner.completeTask id result now).1 with
          workers := before ++ ⟨id, attempt, .completed⟩ :: after }
  | release {inner : SchedulerInner} {before after : List Worker} {id : String}
      {attempt : UInt32} (hworkers : inner.workers = before ++ ⟨id, attempt, .completed⟩ :: after) :
      Step inner [] { inner with workers := before ++ after, active := inner.active - 1 }

/-- A run of a new scheduler, with its history. -/
inductive Run [CronCrate] (config : SchedulerConfig) (seed : UInt64) :
    List Event → SchedulerInner → Prop where
  | new : Run config seed [] (new config seed)
  | step {history events : List Event} {inner next : SchedulerInner}
      (hrun : Run config seed history inner) (hstep : Step inner events next) :
      Run config seed (history ++ events) next

end SchedulerInner

end AppCore.Scheduler
