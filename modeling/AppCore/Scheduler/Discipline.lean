import AppCore.Scheduler.Runtime

/-!
# The execution discipline of the scheduler

**Theorem (`execution_discipline`).** In every run there are never more callbacks than
`max_concurrent_tasks`, never two of one task, never more tasks than `max_tasks`, and the attempts of
an execution cycle are numbered 1, 2, … up to `max_attempts`.

The proof is an induction over the run with the invariant `Disciplined`:

* the counter is the number of the workers, and the coordinator has not reserved more room than there is,

An attempt whose thread could not be started has a number too, and it is not handed to the callback
(`gap_without_thread`).
-/

namespace AppCore.Scheduler

open SchedulerInner

/-! ## Cycles -/

/-- The attempts of a task since its last cycle ended, and whether they were handed to the
callback. -/
def cycleStep (id : String) (attempts : List (UInt32 × Bool)) : Event → List (UInt32 × Bool)
  | .handed taskId attempt => if taskId = id then attempts ++ [(attempt, true)] else attempts
  | .notStarted taskId attempt => if taskId = id then attempts ++ [(attempt, false)] else attempts
  | .cycleEnded taskId => if taskId = id then [] else attempts

/-- The execution cycle a task is in at the end of a history. -/
def cycle (id : String) (history : List Event) : List (UInt32 × Bool) :=
  history.foldl (cycleStep id) []

/-- The numbers 1, 2, …, `k`. -/
def upTo (k : Nat) : List UInt32 := (List.range' 1 k).map UInt32.ofNat

theorem upTo_succ (k : Nat) : upTo (k + 1) = upTo k ++ [UInt32.ofNat (k + 1)] := by
  rw [upTo, List.range'_concat, List.map_append, Nat.one_mul, Nat.add_comm 1 k]
  rfl

theorem cycle_append (id : String) (history events : List Event) :
    cycle id (history ++ events) = events.foldl (cycleStep id) (cycle id history) :=
  List.foldl_append

theorem cycle_ended (id : String) (history : List Event) (ids : List String) :
    cycle id (history ++ ids.map .cycleEnded) = if id ∈ ids then [] else cycle id history := by
  rw [cycle_append]
  generalize cycle id history = attempts
  induction ids generalizing attempts with
  | nil => simp
  | cons taskId ids ih =>
    rw [List.map_cons, List.foldl_cons, ih, cycleStep]
    by_cases htask : taskId = id
    · simp [htask]
    · simp [htask, Ne.symm htask]

/-- Events of another task do not change a cycle. -/
theorem cycle_other {id taskId : String} (hne : taskId ≠ id) (history : List Event)
    {events : List Event}
    (hevents : ∀ e ∈ events, (∃ attempt, e = .handed taskId attempt) ∨
      (∃ attempt, e = .notStarted taskId attempt) ∨ e = .cycleEnded taskId) :
    cycle id (history ++ events) = cycle id history := by
  rw [cycle_append]
  generalize cycle id history = attempts
  induction events with
  | nil => rfl
  | cons e events ih =>
    have hstep : cycleStep id attempts e = attempts := by
      obtain ⟨attempt, rfl⟩ | ⟨attempt, rfl⟩ | rfl := hevents e List.mem_cons_self
      · exact if_neg hne
      · exact if_neg hne
      · exact if_neg hne
    rw [List.foldl_cons, hstep]
    exact ih fun e' he' => hevents e' (List.mem_cons_of_mem _ he')

/-! ## The invariant -/

/-- The task of a worker that has not completed it. -/
def Worker.busy (w : Worker) : Option String :=
  match w.phase with
  | .executing | .returned _ => some w.id
  | .completed => none

/-- Whether a worker is in its callback. -/
def Worker.inFlight (w : Worker) : Bool :=
  match w.phase with
  | .executing => true
  | .returned _ | .completed => false

/-- The tasks that are marked and have no worker yet. -/
def Coordinator.pending : Coordinator → List String
  | .spawning due => due
  | _ => []

/-- The room the coordinator counts on. -/
def Coordinator.reserved : Coordinator → Nat
  | .loaded available => available
  | .spawning due => due.length
  | _ => 0

/-- The tasks that are being executed. -/
def SchedulerInner.busy (inner : SchedulerInner) : List String :=
  inner.coordinator.pending ++ inner.workers.filterMap Worker.busy

/-- The attempts of a task are those of its cycle; a task that is marked has one more than that. -/
def TaskOk (attempts : List (UInt32 × Bool)) (pending : Prop) : Option TaskEntry → Prop
  | none => attempts = [] ∧ ¬ pending
  | some task =>
    (∃ begun, attempts.map (·.1) = upTo begun ∧
      (pending → task.attempts.toNat = begun + 1) ∧ (¬ pending → task.attempts.toNat = begun)) ∧
    task.attempts ≤ task.retry.maxAttempts ∧ 0 < task.retry.maxAttempts ∧
    (task.running = false → task.attempts < task.retry.maxAttempts ∧ ¬ pending)

structure Disciplined (inner : SchedulerInner) (history : List Event) : Prop where
  active : inner.active = inner.workers.length
  room : inner.coordinator.reserved + inner.active ≤ inner.config.maxConcurrentTasks
  nodup : inner.busy.Nodup
  running : ∀ id ∈ inner.busy, ∃ task, inner.tasks[id]? = some task ∧ task.running = true
  size : inner.tasks.size ≤ inner.config.maxTasks
  tasks : ∀ id, TaskOk (cycle id history) (id ∈ inner.coordinator.pending) inner.tasks[id]?

theorem disciplined_new (config : SchedulerConfig) (seed : UInt64) :
    Disciplined (new config seed) [] := by
  refine ⟨rfl, Nat.zero_le _, List.nodup_nil, by simp [new, SchedulerInner.busy,
    Coordinator.pending], ?_, fun id => ?_⟩
  · rw [new, Std.ExtTreeMap.size_empty]
    exact Nat.zero_le _
  · rw [new, Std.ExtTreeMap.getElem?_empty]
    exact ⟨rfl, by simp [Coordinator.pending]⟩

/-! ## Callers -/

variable {inner : SchedulerInner} {history : List Event}

theorem Disciplined.withTasks (h : Disciplined inner history) (tasks : TaskMap)
    (hsize : tasks.size ≤ inner.config.maxTasks)
    (hrunning : ∀ (id : String) (task : TaskEntry), inner.tasks[id]? = some task →
      task.running = true → ∃ after : TaskEntry, tasks[id]? = some after ∧ after.running = true)
    (htasks : ∀ id, TaskOk (cycle id history) (id ∈ inner.coordinator.pending) inner.tasks[id]? →
      TaskOk (cycle id history) (id ∈ inner.coordinator.pending) tasks[id]?) :
    Disciplined { inner with tasks } history := by
  refine ⟨h.active, h.room, h.nodup, fun id hid => ?_, hsize, fun id => htasks id (h.tasks id)⟩
  obtain ⟨task, htask, hrun⟩ := h.running id hid
  exact hrunning id task htask hrun

theorem maxAttempts_pos [CronCrate] {task : ScheduledTask} (h : task.validate = .ok ()) :
    0 < task.retry.maxAttempts := by
  have hretry : validateRetry task.retry = .ok () := by
    rw [ScheduledTask.validate] at h
    cases hid : validateTaskId task.id with
    | error e =>
      rw [hid] at h
      cases h
    | ok u =>
      cases hretry : validateRetry task.retry with
      | error e =>
        rw [hid, hretry] at h
        cases h
      | ok u => rfl
  rw [validateRetry] at hretry
  split at hretry
  · cases hretry
  · rename_i hne
    exact UInt32.pos_iff_ne_zero.2 hne

theorem Disciplined.schedule [CronCrate] (h : Disciplined inner history) (task : ScheduledTask)
    (now : SystemTime) : Disciplined (inner.schedule task now).2 history := by
  rw [SchedulerInner.schedule]
  split
  · exact h
  cases hvalid : task.validate with
  | error e => exact h
  | ok u =>
    dsimp only
    cases hparsed : parseSchedule now task.schedule with
    | error e => exact h
    | ok parsed =>
      obtain ⟨schedule, nextRun⟩ := parsed
      dsimp only
      split
      · exact h
      split
      · exact h
      rename_i hnew hroom
      have hnone : inner.tasks[task.id]? = none := by
        rw [Bool.not_eq_true] at hnew
        exact Std.ExtTreeMap.getElem?_eq_none_of_contains_eq_false hnew
      have hinsert := h.withTasks (inner.tasks.insert task.id
        ⟨schedule, task.retry, task.priority, false, nextRun, false, 0, inner.sequence⟩)
        ?_ ?_ ?_
      · exact ⟨hinsert.active, hinsert.room, hinsert.nodup, hinsert.running, hinsert.size,
          hinsert.tasks⟩
      · have hsize : (inner.tasks.insert task.id (⟨schedule, task.retry, task.priority, false,
            nextRun, false, 0, inner.sequence⟩ : TaskEntry)).size ≤ _ :=
          Std.ExtTreeMap.size_insert_le
        omega
      · intro id other hother hrun
        rw [lookup_insert, if_neg]
        · exact ⟨other, hother, hrun⟩
        · rintro rfl
          rw [hnone] at hother
          cases hother
      · intro id hok
        rw [lookup_insert]
        split
        · rename_i hid
          rw [← hid, hnone] at hok
          obtain ⟨hempty, hidle⟩ := hok
          rw [← hid, hempty]
          have hpos := maxAttempts_pos hvalid
          exact ⟨⟨0, rfl, fun hpending => absurd hpending hidle, fun _ => rfl⟩,
            Std.le_of_lt hpos, hpos, fun _ => ⟨hpos, hidle⟩⟩
        · exact hok

theorem Disciplined.cancel (h : Disciplined inner history) (taskId : String) :
    Disciplined (inner.cancel taskId) history := by
  refine h.withTasks _ ?_ ?_ ?_
  · rw [Std.ExtTreeMap.size_modify]
    exact h.size
  · intro id task htask hrun
    rw [lookup_modify, htask]
    split
    · exact ⟨_, rfl, hrun⟩
    · exact ⟨_, rfl, hrun⟩
  · intro id hok
    rw [lookup_modify]
    split
    · cases htask : inner.tasks[id]? with
      | none => rwa [htask] at hok
      | some task => rwa [htask] at hok
    · exact hok

theorem Disciplined.cancelTasks (h : Disciplined inner history) :
    Disciplined inner.cancelTasks history := by
  refine h.withTasks _ ?_ ?_ ?_
  · rw [Std.ExtTreeMap.size_map]
    exact h.size
  · intro id task htask hrun
    rw [Std.ExtTreeMap.getElem?_map, htask]
    exact ⟨_, rfl, hrun⟩
  · intro id hok
    rw [Std.ExtTreeMap.getElem?_map]
    cases htask : inner.tasks[id]? with
    | none => rwa [htask] at hok
    | some task => rwa [htask] at hok

/-! ## The coordinator -/

theorem Disciplined.loadAvailable (h : Disciplined inner history)
    (hcoordinator : inner.coordinator = .waiting) :
    Disciplined inner.loadAvailable history := by
  obtain ⟨hactive, hroom, hnodup, hrunning, hsize, htasks⟩ := h
  rw [SchedulerInner.busy, hcoordinator] at hnodup hrunning
  simp only [hcoordinator] at hroom htasks
  refine ⟨hactive, ?_, hnodup, hrunning, hsize, htasks⟩
  simp only [SchedulerInner.loadAvailable, Coordinator.reserved] at hroom ⊢
  omega

variable {id : String}

theorem mem_dueTasks {tasks : TaskMap} {available : Nat} {now : SystemTime}
    (h : id ∈ dueTasks tasks available now) :
    ∃ task, tasks[id]? = some task ∧ task.running = false := by
  rw [dueTasks, List.mem_map] at h
  obtain ⟨⟨key, task⟩, hmem, rfl⟩ := h
  have hsorted := List.mem_mergeSort.1 (List.mem_of_mem_take hmem)
  rw [List.mem_filter] at hsorted
  refine ⟨task, Std.ExtTreeMap.mem_toList_iff_getElem?_eq_some.1 hsorted.1, ?_⟩
  have hdue := hsorted.2
  simp only [TaskEntry.isDue, Bool.and_eq_true, Bool.not_eq_true'] at hdue
  exact hdue.1

theorem nodup_dueTasks (tasks : TaskMap) (available : Nat) (now : SystemTime) :
    (dueTasks tasks available now).Nodup := by
  have hkeys := nodup_keys_toList tasks
  have hfilter := hkeys.sublist ((List.filter_sublist
    (p := fun entry : String × TaskEntry => TaskEntry.isDue now entry.2)).map (·.1))
  have hsort := ((List.mergeSort_perm (tasks.toList.filter fun entry =>
    TaskEntry.isDue now entry.2) dueBefore).map (·.1)).nodup_iff.2 hfilter
  exact hsort.sublist (List.Sublist.map (fun entry : String × TaskEntry => entry.1)
    (List.take_sublist available _))

theorem length_dueTasks_le (tasks : TaskMap) (available : Nat) (now : SystemTime) :
    (dueTasks tasks available now).length ≤ available := by
  rw [dueTasks, List.length_map]
  exact List.length_take_le _ _

theorem toNat_nextAttempt {attempts maxAttempts : UInt32} (h : attempts < maxAttempts) :
    (nextAttempt attempts).toNat = attempts.toNat + 1 := by
  have hmax := maxAttempts.toNat_lt
  have hlt := UInt32.lt_iff_toNat_lt.1 h
  rw [nextAttempt, if_pos (by omega), UInt32.toNat_add, UInt32.toNat_one, Nat.mod_eq_of_lt]
  omega

theorem nextAttempt_le {attempts maxAttempts : UInt32} (h : attempts < maxAttempts) :
    nextAttempt attempts ≤ maxAttempts := by
  have hlt := UInt32.lt_iff_toNat_lt.1 h
  rw [UInt32.le_iff_toNat_le, toNat_nextAttempt h]
  omega

theorem lookup_selectDue (inner : SchedulerInner) (available : Nat) (now : SystemTime) (id : String) :
    (inner.selectDue available now).1.tasks[id]? =
      if id ∈ (inner.selectDue available now).1.coordinator.pending then
        (inner.tasks[id]?.filter TaskEntry.stays).map TaskEntry.mark
      else inner.tasks[id]?.filter TaskEntry.stays := by
  have hfilter : (inner.tasks.filter fun _ task => TaskEntry.stays task)[id]? =
      inner.tasks[id]?.filter TaskEntry.stays := by
    rw [Std.ExtTreeMap.getElem?_filter']
  rw [selectDue, Coordinator.pending, lookup_modifyAll _ _ _ (nodup_dueTasks _ _ _), hfilter]

theorem mem_removed (tasks : TaskMap) (id : String) :
    id ∈ tasks.keys.filter (fun id =>
      !(tasks.filter fun _ task => TaskEntry.stays task).contains id) ↔
      ∃ task : TaskEntry, tasks[id]? = some task ∧ task.stays = false := by
  rw [List.mem_filter, Std.ExtTreeMap.mem_keys, Std.ExtTreeMap.mem_iff_isSome_getElem?,
    Std.ExtTreeMap.contains_eq_isSome_getElem?, Std.ExtTreeMap.getElem?_filter']
  cases tasks[id]? with
  | none => simp
  | some task => cases hstays : task.stays <;> simp [hstays]

theorem Disciplined.selectDue (h : Disciplined inner history) {available : Nat}
    (hcoordinator : inner.coordinator = .loaded available) (now : SystemTime) :
    Disciplined (inner.selectDue available now).1
      (history ++ (inner.selectDue available now).2) := by
  have hlookup := lookup_selectDue inner available now
  obtain ⟨hactive, hroom, hnodup, hrunning, hsize, htasks⟩ := h
  rw [SchedulerInner.busy, hcoordinator] at hnodup hrunning
  simp only [hcoordinator, Coordinator.pending, Coordinator.reserved, List.nil_append,
    List.not_mem_nil] at hroom htasks hnodup hrunning
  -- A task that is selected was not running, and it stays.
  have hdue : ∀ id ∈ (inner.selectDue available now).1.coordinator.pending, ∃ task : TaskEntry,
      inner.tasks[id]? = some task ∧ task.stays = true ∧ task.running = false := by
    intro id hid
    obtain ⟨task, htask, hidle⟩ := mem_dueTasks hid
    rw [Std.ExtTreeMap.getElem?_filter', Option.filter_eq_some_iff] at htask
    exact ⟨task, htask.1, htask.2, hidle⟩
  refine ⟨hactive, ?_, ?_, ?_, ?_, ?_⟩
  · have hlength := length_dueTasks_le (inner.tasks.filter fun _ task => TaskEntry.stays task)
      available now
    simp only [SchedulerInner.selectDue, Coordinator.reserved]
    omega
  · refine List.nodup_append.2 ⟨nodup_dueTasks _ _ _, hnodup, ?_⟩
    rintro id hid _ hbusy rfl
    obtain ⟨task, htask, -, hidle⟩ := hdue id hid
    obtain ⟨other, hother, hrun⟩ := hrunning id hbusy
    rw [htask] at hother
    cases hother
    rw [hidle] at hrun
    cases hrun
  · intro id hid
    rw [hlookup]
    obtain hid | hid := List.mem_append.1 hid
    · obtain ⟨task, htask, hstays, -⟩ := hdue id hid
      rw [if_pos hid, htask, Option.filter_some, if_pos hstays]
      exact ⟨_, rfl, rfl⟩
    · obtain ⟨task, htask, hrun⟩ := hrunning id hid
      have hstays : task.stays = true := by rw [TaskEntry.stays, hrun, Bool.true_or]
      rw [htask, Option.filter_some, if_pos hstays]
      split
      · exact ⟨_, rfl, rfl⟩
      · exact ⟨_, rfl, hrun⟩
  · rw [SchedulerInner.selectDue]
    dsimp only
    rw [size_modifyAll]
    exact Std.ExtTreeMap.size_filter_le_size.trans hsize
  · intro id
    have hok := htasks id
    have hcycle : cycle id (history ++ (inner.selectDue available now).2) =
        if ∃ task : TaskEntry, inner.tasks[id]? = some task ∧ task.stays = false then []
        else cycle id history := by
      simp only [SchedulerInner.selectDue, cycle_ended, mem_removed]
    rw [hcycle, hlookup]
    cases htask : inner.tasks[id]? with
    | none =>
      rw [htask] at hok
      have hidle : id ∉ (inner.selectDue available now).1.coordinator.pending := by
        intro hid
        obtain ⟨task, hsome, -⟩ := hdue id hid
        rw [htask] at hsome
        cases hsome
      rw [if_neg (by simp), if_neg hidle]
      exact ⟨hok.1, hidle⟩
    | some task =>
      rw [htask] at hok
      by_cases hstays : task.stays = true
      · obtain ⟨⟨begun, hbegun, -, hattempts⟩, hle, hpos, hidle⟩ := hok
        have hattempts := hattempts (by simp)
        rw [if_neg (by simp [hstays]), Option.filter_some, if_pos hstays]
        by_cases hid : id ∈ (inner.selectDue available now).1.coordinator.pending
        · obtain ⟨other, hother, -, hrun⟩ := hdue id hid
          obtain rfl : task = other := Option.some.inj (htask.symm.trans hother)
          have hlt := (hidle hrun).1
          rw [if_pos hid]
          refine ⟨⟨begun, hbegun, fun _ => ?_, fun hnot => absurd hid hnot⟩,
            nextAttempt_le hlt, hpos, fun hmarked => ?_⟩
          · rw [← hattempts]
            exact toNat_nextAttempt hlt
          · cases hmarked
        · rw [if_neg hid]
          exact ⟨⟨begun, hbegun, fun hpending => absurd hpending hid, fun _ => hattempts⟩, hle,
            hpos, fun hrun => ⟨(hidle hrun).1, hid⟩⟩
      · rw [Bool.not_eq_true] at hstays
        have hidle : id ∉ (inner.selectDue available now).1.coordinator.pending := by
          intro hid
          obtain ⟨other, hother, hkept, -⟩ := hdue id hid
          obtain rfl : task = other := Option.some.inj (htask.symm.trans hother)
          rw [hstays] at hkept
          cases hkept
        rw [if_pos ⟨task, rfl, hstays⟩, if_neg hidle, Option.filter_some, hstays]
        exact ⟨rfl, hidle⟩

theorem lookup_setTask (tasks : TaskMap) (taskId : String) (left : Option TaskEntry)
    (id : String) : (setTask tasks taskId left)[id]? = if taskId = id then left else tasks[id]? := by
  cases left with
  | none => exact lookup_erase tasks taskId id
  | some task => exact lookup_insert tasks taskId id task

variable {taskId : String} {task : TaskEntry}

theorem size_setTask_le {tasks : TaskMap} (h : tasks[taskId]? = some task) (left : Option TaskEntry) :
    
    (setTask tasks taskId left).size ≤ tasks.size := by
  cases left with
  | none => exact Std.ExtTreeMap.size_erase_le
  | some left =>
    have hmem : tasks.contains taskId = true := by
      rw [Std.ExtTreeMap.contains_eq_isSome_getElem?, h]
      rfl
    rw [setTask, Std.ExtTreeMap.size_insert, if_pos hmem]

/-- What a completion leaves of a task. -/
theorem taskOk_completed {attempts : List (UInt32 × Bool)} {pending : Prop}
    (h : TaskOk attempts pending (some task)) (hpending : ¬ pending) (shutdown : Bool)
    (jitterState : UInt64) (result : TaskResult) (now : SystemTime) :
    TaskOk (if (completed task shutdown jitterState result now).2.1 then [] else attempts) pending
      (completed task shutdown jitterState result now).1 := by
  obtain ⟨⟨begun, hbegun, -, hattempts⟩, hle, hpos, -⟩ := h
  have hfresh (next : Option SystemTime) : TaskOk [] pending (next.map fun nextRun =>
      { task with running := false, attempts := 0, nextRun }) := by
    cases next with
    | none => exact ⟨rfl, hpending⟩
    | some nextRun =>
      exact ⟨⟨0, rfl, fun hp => absurd hp hpending, fun _ => rfl⟩, Std.le_of_lt hpos, hpos,
        fun _ => ⟨hpos, hpending⟩⟩
  rw [completed.eq_def]
  dsimp only
  split
  · exact ⟨rfl, hpending⟩
  · cases result with
    | ok u => exact hfresh _
    | error message =>
      dsimp only
      split
      · rename_i hlt
        split
        · exact ⟨⟨begun, hbegun, fun hp => absurd hp hpending, hattempts⟩, hle, hpos,
            fun _ => ⟨hlt, hpending⟩⟩
        · exact ⟨rfl, hpending⟩
      · exact hfresh _

/-- The locked part of a completion, of a task that no worker has any more. -/
theorem Disciplined.completeTask (h : Disciplined inner history) (hfree : taskId ∉ inner.busy)
    (result : TaskResult) (now : SystemTime) :
    Disciplined (inner.completeTask taskId result now).1
      (history ++ (inner.completeTask taskId result now).2) := by
  rw [SchedulerInner.completeTask.eq_def]
  cases htask : inner.tasks[taskId]? with
  | none =>
    dsimp only
    rw [List.append_nil]
    exact h
  | some task =>
    have hpending : taskId ∉ inner.coordinator.pending := fun hmem =>
      hfree (List.mem_append_left _ hmem)
    have htaskOk := taskOk_completed (htask ▸ h.tasks taskId) hpending inner.shutdown
      inner.jitterState result now
    dsimp only
    generalize completed task inner.shutdown inner.jitterState result now = outcome at htaskOk
    obtain ⟨left, ended, jitterState⟩ := outcome
    dsimp only at htaskOk ⊢
    refine ⟨h.active, h.room, h.nodup, fun id hid => ?_, ?_, fun id => ?_⟩
    · have hne : taskId ≠ id := by
        rintro rfl
        exact hfree hid
      rw [lookup_setTask, if_neg hne]
      exact h.running id hid
    · exact (size_setTask_le htask left).trans h.size
    · rw [lookup_setTask]
      by_cases hid : taskId = id
      · subst hid
        rw [if_pos rfl]
        have hcycle : cycle taskId (history ++ if ended = true then [.cycleEnded taskId] else []) =
            if ended = true then [] else cycle taskId history := by
          cases ended with
          | false => simp
          | true => simp [cycle_append, cycleStep]
        rw [hcycle]
        exact htaskOk
      · rw [if_neg hid, cycle_other hid]
        · exact h.tasks id
        · intro e he
          cases ended with
          | false => cases he
          | true => exact .inr (.inr (List.mem_singleton.1 he))

/-! ## Workers -/

variable {rest : List String}

theorem not_mem_of_spawning (h : Disciplined inner history)
    (hcoordinator : inner.coordinator = .spawning (taskId :: rest)) :
    taskId ∉ rest ++ inner.workers.filterMap Worker.busy ∧
      (rest ++ inner.workers.filterMap Worker.busy).Nodup := by
  have hnodup := h.nodup
  rw [SchedulerInner.busy, hcoordinator, Coordinator.pending, List.cons_append,
    List.nodup_cons] at hnodup
  exact hnodup

/-- An attempt begins: it is the next one of its cycle. -/
theorem taskOk_begun (h : Disciplined inner history)
    (hcoordinator : inner.coordinator = .spawning (taskId :: rest))
    (htask : inner.tasks[taskId]? = some task) (started : Bool) (event : Event)
    (hevent : ∀ attempts, cycleStep taskId attempts event = attempts ++ [(task.attempts, started)])
    (hother : ∀ id, taskId ≠ id → cycle id (history ++ [event]) = cycle id history) (id : String) :
    TaskOk (cycle id (history ++ [event])) (id ∈ rest) inner.tasks[id]? := by
  have hok := h.tasks id
  obtain ⟨hnot, -⟩ := not_mem_of_spawning h hcoordinator
  rw [hcoordinator, Coordinator.pending] at hok
  by_cases hid : taskId = id
  · subst hid
    rw [htask] at hok ⊢
    obtain ⟨⟨begun, hbegun, hattempts, -⟩, hle, hpos, hidle⟩ := hok
    have hattempts := hattempts List.mem_cons_self
    have hrest : taskId ∉ rest := fun hmem => hnot (List.mem_append_left _ hmem)
    refine ⟨⟨begun + 1, ?_, fun hmem => absurd hmem hrest, fun _ => hattempts⟩, hle, hpos,
      fun hrun => ⟨(hidle hrun).1, hrest⟩⟩
    rw [cycle_append, List.foldl_cons, List.foldl_nil, hevent, List.map_append, hbegun, upTo_succ,
      ← hattempts, UInt32.ofNat_toNat]
    rfl
  · have hmem : id ∈ taskId :: rest ↔ id ∈ rest := by
      rw [List.mem_cons]
      exact or_iff_right (Ne.symm hid)
    rw [hother id hid, ← hmem]
    exact hok

theorem Disciplined.spawnTask (h : Disciplined inner history)
    (hcoordinator : inner.coordinator = .spawning (taskId :: rest)) (started : Bool)
    (now : SystemTime) :
    Disciplined { (inner.spawnTask taskId started now).1 with coordinator := .spawning rest }
      (history ++ (inner.spawnTask taskId started now).2) := by
  obtain ⟨hnot, hnodup⟩ := not_mem_of_spawning h hcoordinator
  have hroom := h.room
  have hrunning := h.running
  rw [hcoordinator, Coordinator.reserved, List.length_cons] at hroom
  rw [SchedulerInner.busy, hcoordinator, Coordinator.pending] at hrunning
  obtain ⟨task, htask, hrun⟩ := hrunning taskId List.mem_cons_self
  rw [SchedulerInner.spawnTask, htask]
  dsimp only
  cases started with
  | true =>
    have htasks := taskOk_begun h hcoordinator htask true
      (.handed taskId task.attempts) (fun attempts => if_pos rfl)
      (fun id hid => cycle_other hid history (by simp))
    rw [if_pos rfl]
    refine ⟨?_, ?_, ?_, fun id hid => ?_, h.size, htasks⟩
    · simp only [List.length_append, List.length_singleton, h.active]
    · simp only [Coordinator.reserved]
      omega
    · simp only [SchedulerInner.busy, Coordinator.pending, List.filterMap_append]
      rw [← List.append_assoc]
      exact List.nodup_append.2 ⟨hnodup, List.nodup_singleton taskId, by
        rintro id hid _ hmem rfl
        have heq : id = taskId := List.mem_singleton.1 hmem
        exact hnot (heq ▸ hid)⟩
    · simp only [SchedulerInner.busy, Coordinator.pending, List.filterMap_append] at hid
      refine hrunning id ?_
      rw [← List.append_assoc] at hid
      obtain hid | hid := List.mem_append.1 hid
      · exact List.mem_cons_of_mem _ hid
      · exact List.mem_singleton.1 hid ▸ List.mem_cons_self
  | false =>
    -- The coordinator completes the task itself, in the state in which it is not marked any more.
    have htasks := taskOk_begun h hcoordinator htask false
      (.notStarted taskId task.attempts) (fun attempts => if_pos rfl)
      (fun id hid => cycle_other hid history (by simp))
    have hbegun : Disciplined { inner with coordinator := .spawning rest }
        (history ++ [.notStarted taskId task.attempts]) := by
      refine ⟨h.active, ?_, hnodup, fun id hid => hrunning id (List.mem_cons_of_mem _ hid), h.size,
        htasks⟩
      simp only [Coordinator.reserved]
      omega
    have hcompleted := hbegun.completeTask hnot (.error "worker could not start") now
    have hcommute : ({ inner with coordinator := .spawning rest } : SchedulerInner).completeTask
        taskId (.error "worker could not start") now =
        ({ (inner.completeTask taskId (.error "worker could not start") now).1 with
          coordinator := .spawning rest },
          (inner.completeTask taskId (.error "worker could not start") now).2) := by
      simp only [SchedulerInner.completeTask, htask]
    rw [hcommute, List.append_assoc] at hcompleted
    rw [if_neg Bool.false_ne_true]
    exact hcompleted

variable {before after : List Worker}

/-- A worker that goes on, with the same task or without one. -/
theorem Disciplined.worker (h : Disciplined inner history) {w : Worker} (w' : Worker)
    (hworkers : inner.workers = before ++ w :: after) (hbusy : w'.busy = w.busy ∨ w'.busy = none) :
    Disciplined { inner with workers := before ++ w' :: after } history := by
  have hsub : ((before ++ w' :: after).filterMap Worker.busy).Sublist
      (inner.workers.filterMap Worker.busy) := by
    rw [hworkers, List.filterMap_append, List.filterMap_append, List.filterMap_cons,
      List.filterMap_cons]
    refine List.Sublist.append_left ?_ _
    obtain hbusy | hbusy := hbusy
    · rw [hbusy]
    · rw [hbusy]
      cases w.busy with
      | none => exact List.Sublist.refl _
      | some id => exact List.sublist_cons_self id _
  have hall := List.Sublist.append_left hsub inner.coordinator.pending
  refine ⟨?_, h.room, h.nodup.sublist hall, fun id hid => h.running id (hall.subset hid), h.size,
    h.tasks⟩
  simp only [h.active, hworkers, List.length_append, List.length_cons]

theorem Disciplined.complete (h : Disciplined inner history) {attempt : UInt32}
    {result : TaskResult}
    (hworkers : inner.workers = before ++ ⟨id, attempt, .returned result⟩ :: after)
    (now : SystemTime) :
    Disciplined { (inner.completeTask id result now).1 with
        workers := before ++ ⟨id, attempt, .completed⟩ :: after }
      (history ++ (inner.completeTask id result now).2) := by
  have hnext := h.worker ⟨id, attempt, .completed⟩ hworkers (.inr rfl)
  have hfree : id ∉ SchedulerInner.busy { inner with
      workers := before ++ ⟨id, attempt, .completed⟩ :: after } := by
    have hnodup := h.nodup
    rw [SchedulerInner.busy, hworkers, List.filterMap_append, List.filterMap_cons] at hnodup
    rw [SchedulerInner.busy, List.filterMap_append, List.filterMap_cons]
    simp only [Worker.busy] at hnodup ⊢
    rw [← List.append_assoc] at hnodup ⊢
    exact (List.nodup_middle.1 hnodup).notMem
  have hcompleted := hnext.completeTask hfree result now
  have hcommute : ({ inner with workers := before ++ ⟨id, attempt, .completed⟩ :: after } :
      SchedulerInner).completeTask id result now =
      ({ (inner.completeTask id result now).1 with
        workers := before ++ ⟨id, attempt, .completed⟩ :: after },
        (inner.completeTask id result now).2) := by
    simp only [SchedulerInner.completeTask.eq_def]
    cases inner.tasks[id]? with
    | none => rfl
    | some task => rfl
  rw [hcommute] at hcompleted
  exact hcompleted

theorem Disciplined.release (h : Disciplined inner history) {attempt : UInt32}
    (hworkers : inner.workers = before ++ ⟨id, attempt, .completed⟩ :: after) :
    Disciplined { inner with workers := before ++ after, active := inner.active - 1 } history := by
  have hactive := h.active
  have hroom := h.room
  have hnodup := h.nodup
  have hrunning := h.running
  have hbusy : (before ++ ⟨id, attempt, .completed⟩ :: after).filterMap Worker.busy =
      (before ++ after).filterMap Worker.busy := by
    simp [Worker.busy, List.filterMap_cons]
  rw [hworkers, List.length_append, List.length_cons] at hactive
  rw [SchedulerInner.busy, hworkers, hbusy] at hnodup hrunning
  refine ⟨?_, ?_, hnodup, hrunning, h.size, h.tasks⟩
  · change inner.active - 1 = (before ++ after).length
    rw [List.length_append]
    omega
  · change inner.coordinator.reserved + (inner.active - 1) ≤ inner.config.maxConcurrentTasks
    omega

theorem Disciplined.withCoordinator (h : Disciplined inner history) (coordinator : Coordinator)
    (hpending : coordinator.pending = inner.coordinator.pending)
    (hreserved : coordinator.reserved ≤ inner.coordinator.reserved) :
    Disciplined { inner with coordinator } history := by
  obtain ⟨hactive, hroom, hnodup, hrunning, hsize, htasks⟩ := h
  rw [SchedulerInner.busy, ← hpending] at hnodup hrunning
  simp only [← hpending] at htasks
  exact ⟨hactive, (Nat.add_le_add_right hreserved _).trans hroom, hnodup, hrunning, hsize, htasks⟩

theorem Disciplined.clear (h : Disciplined inner history) (hworkers : inner.workers = []) :
    Disciplined { inner with tasks := ∅, coordinator := .stopped }
      (history ++ inner.tasks.keys.map .cycleEnded) := by
  refine ⟨h.active, (Nat.add_le_add_right (Nat.zero_le _) _).trans h.room, ?_, ?_, ?_, fun id => ?_⟩
  · rw [SchedulerInner.busy, hworkers]
    exact List.nodup_nil
  · rw [SchedulerInner.busy, hworkers]
    simp [Coordinator.pending]
  · rw [Std.ExtTreeMap.size_empty]
    exact Nat.zero_le _
  · have hok := h.tasks id
    rw [Std.ExtTreeMap.getElem?_empty, cycle_ended]
    refine ⟨?_, List.not_mem_nil⟩
    split
    · rfl
    · rename_i hkey
      rw [Std.ExtTreeMap.mem_keys] at hkey
      rw [Std.ExtTreeMap.getElem?_eq_none hkey] at hok
      exact hok.1

/-! ## Runs -/

/-- **One step** keeps the discipline. -/
theorem Disciplined.step [CronCrate] (h : Disciplined inner history) {events : List Event}
    {next : SchedulerInner} (hstep : Step inner events next) :
    Disciplined next (history ++ events) := by
  cases hstep with
  | schedule task now =>
    rw [List.append_nil]
    exact h.schedule task now
  | cancel taskId =>
    rw [List.append_nil]
    exact h.cancel taskId
  | requestShutdown =>
    rw [List.append_nil]
    exact ⟨h.active, h.room, h.nodup, h.running, h.size, h.tasks⟩
  | cancelTasks =>
    rw [List.append_nil]
    exact h.cancelTasks
  | load hcoordinator =>
    rw [List.append_nil]
    exact h.loadAvailable hcoordinator
  | select hcoordinator now => exact h.selectDue hcoordinator now
  | spawn hcoordinator started now => exact h.spawnTask hcoordinator started now
  | wait hcoordinator =>
    rw [List.append_nil]
    exact h.withCoordinator .waiting (by rw [hcoordinator]; rfl) (Nat.zero_le _)
  | join hcoordinator =>
    rw [List.append_nil]
    exact h.withCoordinator .joining (by rw [hcoordinator]; rfl) (Nat.zero_le _)
  | clear _ hworkers => exact h.clear hworkers
  | callback hworkers result =>
    rw [List.append_nil]
    exact h.worker _ hworkers (.inl rfl)
  | complete hworkers now => exact h.complete hworkers now
  | release hworkers =>
    rw [List.append_nil]
    exact h.release hworkers

theorem disciplined_run [CronCrate] {config : SchedulerConfig} {seed : UInt64}
    (hrun : Run config seed history inner) : Disciplined inner history := by
  induction hrun with
  | new => exact disciplined_new config seed
  | step _ hstep ih => exact ih.step hstep

theorem completeTask_config (taskId : String) (result : TaskResult) (now : SystemTime) :
    (inner.completeTask taskId result now).1.config = inner.config := by
  rw [SchedulerInner.completeTask.eq_def]
  cases inner.tasks[taskId]? with
  | none => rfl
  | some task => rfl

theorem step_config [CronCrate] {events : List Event} {next : SchedulerInner}
    (hstep : Step inner events next) : next.config = inner.config := by
  cases hstep with
  | schedule task now =>
    rw [SchedulerInner.schedule]
    split
    · rfl
    split
    · rfl
    split
    · rfl
    split
    · rfl
    split
    · rfl
    · rfl
  | spawn hcoordinator started now =>
    change (inner.spawnTask _ started now).1.config = inner.config
    rw [SchedulerInner.spawnTask]
    split
    · rfl
    split
    · rfl
    · exact completeTask_config _ _ now
  | complete hworkers now => exact completeTask_config _ _ now
  | _ => rfl

theorem config_run [CronCrate] {config : SchedulerConfig} {seed : UInt64}
    (hrun : Run config seed history inner) : inner.config = config := by
  induction hrun with
  | new => rfl
  | step _ hstep ih => exact (step_config hstep).trans ih

/-- The attempts of the execution cycle that were handed to the callback. -/
def handedAttempts (id : String) (history : List Event) : List UInt32 :=
  ((cycle id history).filter (·.2)).map (·.1)

/-- Attempts that are all started are all handed to the callback. -/
theorem handedAttempts_eq (hstarted : ∀ attempt, Event.notStarted id attempt ∉ history) :
    handedAttempts id history = (cycle id history).map (·.1) := by
  have hall : ∀ a ∈ cycle id history, a.2 = true := by
    induction history using List.reverseRecOn with
    | nil =>
      intro a ha
      cases ha
    | append_singleton history e ih =>
      have ih := ih fun attempt hmem => hstarted attempt (List.mem_append_left _ hmem)
      have he := hstarted
      intro a ha
      rw [cycle_append, List.foldl_cons, List.foldl_nil] at ha
      cases e with
      | handed taskId attempt =>
        rw [cycleStep] at ha
        split at ha
        · obtain ha | ha := List.mem_append.1 ha
          · exact ih a ha
          · rw [List.mem_singleton.1 ha]
        · exact ih a ha
      | notStarted taskId attempt =>
        have hne : taskId ≠ id := by
          rintro rfl
          exact he attempt (by simp)
        rw [cycleStep, if_neg hne] at ha
        exact ih a ha
      | cycleEnded taskId =>
        rw [cycleStep] at ha
        split at ha
        · cases ha
        · exact ih a ha
  rw [handedAttempts, List.filter_eq_self.2 hall]

theorem inFlight_sublist_busy (workers : List Worker) :
    ((workers.filter Worker.inFlight).map Worker.id).Sublist (workers.filterMap Worker.busy) := by
  induction workers with
  | nil => exact List.Sublist.refl _
  | cons w workers ih =>
    obtain ⟨id, attempt, phase⟩ := w
    cases phase with
    | executing => exact ih.cons_cons id
    | returned result => exact ih.cons id
    | completed => exact ih

/-- **The execution discipline.** In every run: the callbacks in flight are at most
`max_concurrent_tasks`, and as many as the counter says when no worker is behind its callback; no
task has two; the tasks are at most `max_tasks`; and the attempts of the execution cycle of a task
are 1, 2, …, up to `max_attempts`, handed to the callback in this order, all of them when every
worker thread was started. -/
theorem execution_discipline [CronCrate] {config : SchedulerConfig} {seed : UInt64}
    (hrun : Run config seed history inner) :
    (inner.workers.filter Worker.inFlight).length ≤ config.maxConcurrentTasks ∧
    ((∀ w ∈ inner.workers, w.inFlight = true) →
      (inner.workers.filter Worker.inFlight).length = inner.active) ∧
    ((inner.workers.filter Worker.inFlight).map Worker.id).Nodup ∧
    inner.tasks.size ≤ config.maxTasks ∧
    ∀ id, ∃ begun, (cycle id history).map (·.1) = upTo begun ∧
      (handedAttempts id history).Sublist (upTo begun) ∧
      (∀ task : TaskEntry, inner.tasks[id]? = some task →
        begun ≤ task.retry.maxAttempts.toNat) ∧
      ((∀ attempt, Event.notStarted id attempt ∉ history) →
        handedAttempts id history = upTo begun) := by
  have h := disciplined_run hrun
  have hconfig := config_run hrun
  have hlength := List.length_filter_le Worker.inFlight inner.workers
  refine ⟨?_, fun hall => ?_, ?_, hconfig ▸ h.size, fun id => ?_⟩
  · have hroom := h.room
    rw [h.active, hconfig] at hroom
    omega
  · rw [List.filter_eq_self.2 hall, h.active]
  · have hsub := (inFlight_sublist_busy inner.workers).trans
      (List.sublist_append_right inner.coordinator.pending _)
    exact h.nodup.sublist hsub
  · have hhanded : (handedAttempts id history).Sublist ((cycle id history).map (·.1)) :=
      List.filter_sublist.map _
    have hok := h.tasks id
    cases htask : inner.tasks[id]? with
    | none =>
      rw [htask] at hok
      have hcycle : (cycle id history).map (·.1) = upTo 0 := by
        rw [hok.1]
        rfl
      refine ⟨0, hcycle, hcycle ▸ hhanded, by simp, fun hstarted => ?_⟩
      rw [handedAttempts_eq hstarted, hcycle]
    | some task =>
      rw [htask] at hok
      obtain ⟨⟨begun, hbegun, hmarked, hattempts⟩, hle, -⟩ := hok
      refine ⟨begun, hbegun, hbegun ▸ hhanded, ?_, fun hstarted => ?_⟩
      · rintro _ ⟨⟩
        have hle := UInt32.le_iff_toNat_le.1 hle
        by_cases hpending : id ∈ inner.coordinator.pending
        · have hnext := hmarked hpending
          omega
        · have hsame := hattempts hpending
          omega
      · rw [handedAttempts_eq hstarted, hbegun]

/-- A crate that reads no cron expression. -/
@[reducible] def noCron : CronCrate := ⟨fun _ => .error "unsupported"⟩

/-- A task that runs once, with a second attempt. -/
def onceTask : ScheduledTask := ⟨"t", .once 0, ⟨2, 0, 0, 1, 0⟩, 0⟩

theorem execution_discipline_once : ∃ (cron : CronCrate) (history : List Event)
    (inner : SchedulerInner), cron = noCron ∧ Run ⟨4, 1, 25⟩ 1 history inner ∧
    history = [.handed "t" 1] ∧ (inner.workers.filter Worker.inFlight).length ≤ 1 ∧
    ∃ begun, handedAttempts "t" history = upTo begun := by
  let _ := noCron
  have hscheduled := Run.step Run.new (Step.schedule (new ⟨4, 1, 25⟩ 1) onceTask 0)
  have hloaded := hscheduled.step (Step.load (by decide) (by decide))
  have hselected := hloaded.step (@Step.select _ _ 1 (by decide) 0)
  have hstarted := hselected.step (@Step.spawn _ _ "t" [] (by decide +kernel) true 0)
  obtain ⟨history, inner, hrun, hhistory⟩ : ∃ history inner, Run ⟨4, 1, 25⟩ 1 history inner ∧
      history = [.handed "t" 1] := ⟨_, _, hstarted, by decide +kernel⟩
  obtain ⟨hbound, -, -, -, hcycles⟩ := execution_discipline hrun
  obtain ⟨begun, -, -, -, hall⟩ := hcycles "t"
  exact ⟨noCron, history, inner, rfl, hrun, hhistory, hbound, begun, hall (by simp [hhistory])⟩

/-- The first attempt that is handed to a callback is the second one of its cycle when the thread of
the first could not be started. -/
theorem gap_without_thread : ∃ (cron : CronCrate) (history : List Event) (inner : SchedulerInner),
    cron = noCron ∧ Run ⟨4, 1, 25⟩ 1 history inner ∧
    ∀ begun, handedAttempts "t" history ≠ upTo begun := by
  let _ := noCron
  have hscheduled := Run.step Run.new (Step.schedule (new ⟨4, 1, 25⟩ 1) onceTask 0)
  have hloaded := hscheduled.step (Step.load (by decide) (by decide))
  have hselected := hloaded.step (@Step.select _ _ 1 (by decide) 0)
  have hfailed := hselected.step (@Step.spawn _ _ "t" [] (by decide +kernel) false 0)
  have hwaiting := hfailed.step (Step.wait (by decide))
  have hagain := hwaiting.step (Step.load (by decide +kernel) (by decide +kernel))
  have hretried := hagain.step (@Step.select _ _ 1 (by decide +kernel) 0)
  have hstarted := hretried.step (@Step.spawn _ _ "t" [] (by decide +kernel) true 0)
  obtain ⟨history, inner, hrun, hhanded⟩ : ∃ history inner, Run ⟨4, 1, 25⟩ 1 history inner ∧
      handedAttempts "t" history = [2] := ⟨_, _, hstarted, by decide +kernel⟩
  refine ⟨noCron, history, inner, rfl, hrun, fun begun heq => ?_⟩
  rw [hhanded] at heq
  have hlength := congrArg List.length heq
  rw [upTo, List.length_map, List.length_range', List.length_singleton] at hlength
  subst hlength
  revert heq
  decide

end AppCore.Scheduler
