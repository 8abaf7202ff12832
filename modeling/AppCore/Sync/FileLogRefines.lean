import AppCore.Sync.FileLogProof

/-!
# The file-backed log refines the process-local one

* `fileLog_refines` — over every sequence of operations within the size cap, the two logs give
  the same results and show the same contents;
* `torn_append_recovery` — an append that was cut short anywhere is undone by the next reload,
  and a completed one is kept.

Both rest on one fact: in its steady state a file-backed log is determined by the process-local
log with the same records (`ofMemory`).
-/

namespace AppCore.Sync

/-! ## Operations -/

/-- An operation on a log. -/
inductive LogOp where
  | append (record : Bytes)
  | appendWithSequence (record : Bytes) (sequence : UInt64)
  | restoreSnapshot (snapshot : ReplicationSnapshot)
  | reload
  | reopen

/-- What an operation returns. -/
inductive LogResult where
  | index (result : SyncResult Nat)
  | done (result : SyncResult Unit)
  deriving DecidableEq

/-- An operation on the process-local log, for which there is nothing to reload. -/
def InMemoryReplicationLog.apply [Sha256] (log : InMemoryReplicationLog) :
    LogOp → LogResult × InMemoryReplicationLog
  | .append record => (ReplicationLog.append log record).map .index id
  | .appendWithSequence record sequence =>
    (ReplicationLog.appendWithSequence log record sequence).map .index id
  | .restoreSnapshot snapshot => (ReplicationLog.restoreSnapshot log snapshot).map .done id
  | .reload => (.done (.ok ()), log)
  | .reopen => (.done (.ok ()), log)

/-- An operation on the file-backed log; reopening is `new` on the same file. -/
def FileReplicationLog.apply [Sha256] (relative : String) (log : FileReplicationLog) :
    LogOp → LogResult × FileReplicationLog
  | .append record => (ReplicationLog.append log record).map .index id
  | .appendWithSequence record sequence =>
    (ReplicationLog.appendWithSequence log record sequence).map .index id
  | .restoreSnapshot snapshot => (ReplicationLog.restoreSnapshot log snapshot).map .done id
  | .reload => log.reload.map .done id
  | .reopen =>
    match FileReplicationLog.new relative (some log.file) with
    | .error e => (.done (.error e), log)
    | .ok log => (.done (.ok ()), log)

/-- The operations in order, with their results. -/
def InMemoryReplicationLog.run [Sha256] (log : InMemoryReplicationLog) :
    List LogOp → List LogResult × InMemoryReplicationLog
  | [] => ([], log)
  | op :: ops =>
    let (result, log) := log.apply op
    (run log ops).map (result :: ·) id

/-- The operations in order, with their results. -/
def FileReplicationLog.run [Sha256] (relative : String) (log : FileReplicationLog) :
    List LogOp → List LogResult × FileReplicationLog
  | [] => ([], log)
  | op :: ops =>
    let (result, log) := log.apply relative op
    (run relative log ops).map (result :: ·) id

/-! ## The steady state -/

/-- The file-backed log with the records of a process-local one. -/
def FileReplicationLog.ofMemory (log : InMemoryReplicationLog) : FileReplicationLog :=
  ⟨encodeLog log.events, log.events, log.sequenceIndices⟩

/-- The canonical file of the log is within the cap. -/
def Fits (log : InMemoryReplicationLog) : Prop :=
  (encodeLog log.events).length ≤ maxReplicationLogBytes

instance (log : InMemoryReplicationLog) : Decidable (Fits log) :=
  inferInstanceAs (Decidable ((encodeLog log.events).length ≤ maxReplicationLogBytes))

namespace FileReplicationLog

variable {log : InMemoryReplicationLog}

theorem reload_ofMemory [Sha256] (hv : log.Valid) (hfits : Fits log) :
    (ofMemory log).reload = (.ok (), ofMemory log) := by
  rw [reload_canonical hv.records rfl hfits, ← hv.indexed]
  rfl

variable {relative : String}

theorem new_ofMemory [Sha256] (hpath : validRelativePath relative = true) (hv : log.Valid)
    (hfits : Fits log) :
    new relative (some (encodeLog log.events)) = .ok (ofMemory log) := by
  have hreload : reload ⟨encodeLog log.events, [], ∅⟩ = (.ok (), ofMemory log) := by
    rw [reload_canonical hv.records rfl hfits, ← hv.indexed]
    rfl
  simp [new, hpath, hreload]

theorem new_fresh [Sha256] (hpath : validRelativePath relative = true) :
    new relative none = .ok (ofMemory InMemoryReplicationLog.new) := by
  have hmarker : utf8 markerLine = encodeLog InMemoryReplicationLog.new.events := by
    simp [encodeLog, logText, InMemoryReplicationLog.new]
  have hopen := new_ofMemory hpath InMemoryReplicationLog.valid_new encodeLog_nil_le
  rw [← hmarker] at hopen
  exact hopen

/-- An append in the steady state is the process-local append, or is refused for the size of the
file it would leave. -/
theorem appendWithSequence_ofMemory [Sha256] (hv : log.Valid) (hfits : Fits log) (record : Bytes)
    (sequence : UInt64) :
    (Fits (log.appendWithSequence record sequence).2 →
      (ofMemory log).appendWithSequence record sequence =
        ((log.appendWithSequence record sequence).1,
          ofMemory (log.appendWithSequence record sequence).2)) ∧
    (¬ Fits (log.appendWithSequence record sequence).2 →
      (ofMemory log).appendWithSequence record sequence = (.error logTooLarge, ofMemory log)) := by
  rw [appendWithSequence, reload_ofMemory hv hfits]
  rcases log.appendWithSequence_cases record sequence with
    ⟨hbig, h⟩ | ⟨hsize, r, hr, h⟩ | ⟨hsize, hnone, h⟩
  · rw [h]
    refine ⟨fun _ => ?_, fun hover => absurd hfits hover⟩
    simp [validateRecordSize, Nat.lt_of_not_le hbig]
  · rw [h]
    refine ⟨fun _ => ?_, fun hover => absurd hfits hover⟩
    have hlookup : lookupSequence (ofMemory log).events (ofMemory log).sequenceIndices sequence =
        some r := hr
    simp only [validateRecordSize_eq_ok.2 hsize, hlookup]
    split <;> rfl
  · rw [h]
    have hlookup : lookupSequence (ofMemory log).events (ofMemory log).sequenceIndices sequence =
        none := hnone
    have hlength : (encodeLog (log.events ++ [nextRecord log.events record sequence])).length =
        (ofMemory log).file.length + (utf8 (nextLine log.events record sequence)).length := by
      rw [encodeLog_snoc, List.length_append]
      rfl
    simp only [validateRecordSize_eq_ok.2 hsize, hlookup, Fits, hlength]
    constructor
    · intro hroom
      refine (if_neg (Nat.not_lt.2 hroom)).trans ?_
      simp only [ofMemory, encodeLog_snoc]
      rfl
    · intro hover
      exact if_pos (Nat.lt_of_not_le hover)

/-- A restore in the steady state is the process-local restore, or is refused for the size of
the file it would leave. -/
theorem restoreSnapshot_ofMemory [Sha256] (hfits : Fits log) (snapshot : ReplicationSnapshot) :
    (Fits (log.restoreSnapshot snapshot).2 →
      (ofMemory log).restoreSnapshot snapshot =
        ((log.restoreSnapshot snapshot).1, ofMemory (log.restoreSnapshot snapshot).2)) ∧
    (¬ Fits (log.restoreSnapshot snapshot).2 →
      (ofMemory log).restoreSnapshot snapshot = (.error logTooLarge, ofMemory log)) := by
  unfold restoreSnapshot InMemoryReplicationLog.restoreSnapshot
  cases h : validateSnapshot snapshot with
  | error e => exact ⟨fun _ => rfl, fun hover => absurd hfits hover⟩
  | ok records =>
    have hwrite := writeReplicationRecords_eq (validRecords_of_validateSnapshot h)
    simp only [Fits]
    constructor
    · intro hroom
      rw [if_pos hroom] at hwrite
      simp only [hwrite]
      rfl
    · intro hover
      rw [if_neg hover] at hwrite
      simp only [hwrite]

theorem memory_apply_append [Sha256] (log : InMemoryReplicationLog) (record : Bytes) :
    log.apply (.append record) = (log.appendWithSequence record 0).map .index id := rfl

theorem memory_apply_appendWithSequence [Sha256] (log : InMemoryReplicationLog) (record : Bytes)
    (sequence : UInt64) :
    log.apply (.appendWithSequence record sequence) =
      (log.appendWithSequence record sequence).map .index id := rfl

theorem memory_apply_restoreSnapshot [Sha256] (log : InMemoryReplicationLog)
    (snapshot : ReplicationSnapshot) :
    log.apply (.restoreSnapshot snapshot) = (log.restoreSnapshot snapshot).map .done id := rfl

/-- One operation in the steady state, within the cap. -/
theorem apply_ofMemory [Sha256] (hpath : validRelativePath relative = true) (hv : log.Valid)
    (hfits : Fits log) {op : LogOp} (hafter : Fits (log.apply op).2) :
    (ofMemory log).apply relative op = ((log.apply op).1, ofMemory (log.apply op).2) := by
  cases op with
  | append record =>
    rw [memory_apply_append] at hafter ⊢
    rw [Prod.map_snd, id_eq] at hafter
    exact congrArg (Prod.map LogResult.index id)
      ((appendWithSequence_ofMemory hv hfits record 0).1 hafter)
  | appendWithSequence record sequence =>
    rw [memory_apply_appendWithSequence] at hafter ⊢
    rw [Prod.map_snd, id_eq] at hafter
    exact congrArg (Prod.map LogResult.index id)
      ((appendWithSequence_ofMemory hv hfits record sequence).1 hafter)
  | restoreSnapshot snapshot =>
    rw [memory_apply_restoreSnapshot] at hafter ⊢
    rw [Prod.map_snd, id_eq] at hafter
    exact congrArg (Prod.map LogResult.done id)
      ((restoreSnapshot_ofMemory hfits snapshot).1 hafter)
  | reload => exact congrArg (Prod.map LogResult.done id) (reload_ofMemory hv hfits)
  | reopen =>
    have hopen := new_ofMemory hpath hv hfits
    simp only [apply, ofMemory] at hopen ⊢
    rw [hopen]
    rfl

end FileReplicationLog

theorem InMemoryReplicationLog.valid_apply [Sha256] {log : InMemoryReplicationLog}
    (hv : log.Valid) (op : LogOp) : (log.apply op).2.Valid := by
  cases op with
  | append record => exact valid_append hv record 0
  | appendWithSequence record sequence => exact valid_append hv record sequence
  | restoreSnapshot snapshot => exact valid_restore hv snapshot
  | reload => exact hv
  | reopen => exact hv

variable {relative : String}

/-- A run in the steady state, with every state of it within the cap. -/
theorem FileReplicationLog.run_ofMemory [Sha256] (hpath : validRelativePath relative = true)
    {log : InMemoryReplicationLog} (hv : log.Valid) {ops : List LogOp}
    (hfits : ∀ before, before <+: ops → Fits (log.run before).2) :
    (ofMemory log).run relative ops = ((log.run ops).1, ofMemory (log.run ops).2) ∧
      (log.run ops).2.Valid := by
  induction ops generalizing log with
  | nil => exact ⟨rfl, hv⟩
  | cons op ops ih =>
    have hnow : Fits log := hfits [] List.nil_prefix
    have hnext : Fits (log.apply op).2 := hfits [op] ⟨ops, rfl⟩
    have hstep := apply_ofMemory hpath hv hnow hnext
    obtain ⟨hrun, hvalid⟩ := ih (log.valid_apply hv op) fun before hbefore =>
      hfits (op :: before) (List.cons_prefix_cons.2 ⟨rfl, hbefore⟩)
    refine ⟨?_, hvalid⟩
    simp only [run, hstep, hrun]
    rfl

/-- **The steady state**: the log of some valid process-local log, within the cap. -/
def FileReplicationLog.Steady [Sha256] (log : FileReplicationLog) : Prop :=
  ∃ memory : InMemoryReplicationLog, memory.Valid ∧ Fits memory ∧ log = ofMemory memory

/-- Every operation keeps the steady state, also one that is refused for the size. -/
theorem FileReplicationLog.steady_apply [Sha256] (hpath : validRelativePath relative = true)
    {log : FileReplicationLog} (hs : log.Steady) (op : LogOp) :
    (log.apply relative op).2.Steady := by
  obtain ⟨memory, hv, hfits, rfl⟩ := hs
  by_cases hafter : Fits (memory.apply op).2
  · rw [apply_ofMemory hpath hv hfits hafter]
    exact ⟨_, memory.valid_apply hv op, hafter, rfl⟩
  · have hsame : ((ofMemory memory).apply relative op).2 = ofMemory memory := by
      cases op with
      | append record =>
        rw [memory_apply_append, Prod.map_snd, id_eq] at hafter
        exact congrArg Prod.snd ((appendWithSequence_ofMemory hv hfits record 0).2 hafter)
      | appendWithSequence record sequence =>
        rw [memory_apply_appendWithSequence, Prod.map_snd, id_eq] at hafter
        exact congrArg Prod.snd ((appendWithSequence_ofMemory hv hfits record sequence).2 hafter)
      | restoreSnapshot snapshot =>
        rw [memory_apply_restoreSnapshot, Prod.map_snd, id_eq] at hafter
        exact congrArg Prod.snd ((restoreSnapshot_ofMemory hfits snapshot).2 hafter)
      | reload => exact absurd hfits hafter
      | reopen => exact absurd hfits hafter
    rw [hsame]
    exact ⟨memory, hv, hfits, rfl⟩

theorem FileReplicationLog.steady_run [Sha256] (hpath : validRelativePath relative = true)
    {log : FileReplicationLog} (hs : log.Steady) (ops : List LogOp) :
    (log.run relative ops).2.Steady := by
  induction ops generalizing log with
  | nil => exact hs
  | cons op ops ih => exact ih (steady_apply hpath hs op)

theorem FileReplicationLog.steady_new [Sha256] {fresh : FileReplicationLog}
    (h : new relative none = .ok fresh) :
    validRelativePath relative = true ∧ fresh.Steady := by
  have hpath : validRelativePath relative = true := by
    by_contra hbad
    simp [new, Bool.eq_false_iff.2 hbad] at h
  rw [new_fresh hpath] at h
  obtain rfl := Except.ok.inj h
  exact ⟨hpath, _, InMemoryReplicationLog.valid_new, encodeLog_nil_le, rfl⟩

/-! ## Results -/

/-- **Refinement.** Starting from a fresh file and from an empty process-local log, every
sequence of operations that stays within the size cap gives the same results on both, and leaves
both with the same contents. -/
theorem fileLog_refines [Sha256] (relative : String)
    (hpath : FileReplicationLog.validRelativePath relative = true) (ops : List LogOp)
    (hfits : ∀ before, before <+: ops → Fits (InMemoryReplicationLog.new.run before).2) :
    ∃ fresh, FileReplicationLog.new relative none = .ok fresh ∧
      let file := fresh.run relative ops
      let memory := InMemoryReplicationLog.new.run ops
      file.1 = memory.1 ∧
        (∀ index, ReplicationLog.eventsSince file.2 index =
          ReplicationLog.eventsSince memory.2 index) ∧
        (∀ sequence, ReplicationLog.eventAtSequence file.2 sequence =
          ReplicationLog.eventAtSequence memory.2 sequence) ∧
        ReplicationLog.len file.2 = ReplicationLog.len memory.2 ∧
        ReplicationLog.createSnapshot file.2 = ReplicationLog.createSnapshot memory.2 ∧
        file.2.events = memory.2.events ∧
        FileReplicationLog.new relative (some file.2.file) = .ok file.2 := by
  refine ⟨_, FileReplicationLog.new_fresh hpath, ?_⟩
  obtain ⟨hrun, hvalid⟩ :=
    FileReplicationLog.run_ofMemory hpath InMemoryReplicationLog.valid_new hfits
  have hopen := FileReplicationLog.new_ofMemory hpath hvalid (hfits ops (List.prefix_refl _))
  dsimp only
  rw [hrun]
  exact ⟨rfl, fun _ => rfl, fun _ => rfl, rfl, rfl, rfl, hopen⟩

/-- Appends with and without a sequence, a reload and a reopen. -/
theorem fileLog_refines_small :
    letI := Sha256.fips
    let ops := [LogOp.append [1], .appendWithSequence [2] 7, .reload, .append [3], .reopen]
    ∃ fresh, FileReplicationLog.new "sync/replication.log" none = .ok fresh ∧
      (fresh.run "sync/replication.log" ops).1 = (InMemoryReplicationLog.new.run ops).1 := by
  let _ := Sha256.fips
  intro ops
  have hfits : ∀ before ∈ ops.inits, Fits (InMemoryReplicationLog.new.run before).2 := by
    decide +kernel
  obtain ⟨fresh, hfresh, hsame, -⟩ := fileLog_refines "sync/replication.log" (by decide) ops
    fun before hbefore => hfits before ((List.mem_inits _ _).2 hbefore)
  exact ⟨fresh, hfresh, hsame⟩

/-- The part of a record's line that a cut append has left, without its end. -/
theorem torn_line [Sha256] {events : List ReplicationRecord} (hv : ValidRecords events)
    {record : Bytes} {sequence : UInt64} {torn : Bytes}
    (hinit : torn <+: utf8 (nextLine events record sequence))
    (hstrict : torn ≠ utf8 (nextLine events record sequence)) :
    ∃ tail, torn = utf8 tail ∧ '\n' ∉ tail := by
  have hascii : IsAscii (nextLine events record sequence) := by
    intro c hc
    rcases List.mem_append.1 hc with hc | hc
    · exact isAscii_nextFields hv record sequence c hc
    · rw [List.mem_singleton.1 hc]
      decide
  have htake : torn = utf8 ((nextLine events record sequence).take torn.length) := by
    rw [utf8_of_ascii fun c hc => hascii c (List.mem_of_mem_take hc), List.map_take,
      ← utf8_of_ascii hascii]
    exact List.prefix_iff_eq_take.1 hinit
  have hshort : torn.length ≤ (nextFields events record sequence).length := by
    have hle := hinit.length_le
    have hne : torn.length ≠ (utf8 (nextLine events record sequence)).length := fun h =>
      hstrict (hinit.eq_of_length h)
    have hlength : (utf8 (nextLine events record sequence)).length =
        (nextFields events record sequence).length + 1 := by
      rw [utf8_of_ascii hascii, List.length_map]
      simp [nextLine, recordLine, nextFields]
    omega
  have hfields : (nextLine events record sequence).take torn.length =
      (nextFields events record sequence).take torn.length :=
    List.take_append_of_le_length hshort
  refine ⟨_, htake, fun hmem => ?_⟩
  rw [hfields] at hmem
  exact not_mem_nextFields hv (by decide) record sequence (List.mem_of_mem_take hmem)

/-- **Recovery of a cut append.** Take any log that came from a fresh file, and an append that
adds a record to it by writing `line`. After a cut anywhere in the line, whoever reloads the file
finds the old records and leaves the file as a rewrite of them; after the whole line, the reload
finds the new record as well. -/
theorem torn_append_recovery [Sha256] (relative : String) (fresh : FileReplicationLog)
    (hfresh : FileReplicationLog.new relative none = .ok fresh) (ops : List LogOp)
    (record : Bytes) (sequence : UInt64) :
    let log := (fresh.run relative ops).2
    let appended := (log.appendWithSequence record sequence).2
    appended.events ≠ log.events →
    ∃ line new, appended.file = log.file ++ line ∧ appended.events = log.events ++ [new] ∧
      (∀ torn, torn <+: line → torn ≠ line → ∀ stale : FileReplicationLog,
        stale.file = log.file ++ torn →
          ∃ reloaded, stale.reload = (.ok (), reloaded) ∧ reloaded.events = log.events ∧
            writeReplicationRecords log.events = .ok reloaded.file) ∧
      (∀ stale : FileReplicationLog, stale.file = log.file ++ line →
        ∃ reloaded, stale.reload = (.ok (), reloaded) ∧
          reloaded.events = log.events ++ [new]) := by
  intro log appended hadded
  obtain ⟨hpath, hsteady⟩ := FileReplicationLog.steady_new hfresh
  obtain ⟨memory, hv, hfits, hlog⟩ := FileReplicationLog.steady_run hpath hsteady ops
  have hlog : log = FileReplicationLog.ofMemory memory := hlog
  obtain ⟨hroom, hover⟩ :=
    FileReplicationLog.appendWithSequence_ofMemory hv hfits record sequence
  rw [← hlog] at hroom hover
  have hafter : Fits (memory.appendWithSequence record sequence).2 := by
    by_contra hbig
    exact hadded (congrArg (fun result => result.2.events) (hover hbig))
  have happended : appended =
      FileReplicationLog.ofMemory (memory.appendWithSequence record sequence).2 :=
    congrArg Prod.snd (hroom hafter)
  rcases memory.appendWithSequence_cases record sequence with
    ⟨-, h⟩ | ⟨-, r, -, h⟩ | ⟨hsize, hnone, h⟩
  · rw [h] at happended
    exact absurd (congrArg FileReplicationLog.events (happended.trans hlog.symm)) hadded
  · rw [h] at happended
    exact absurd (congrArg FileReplicationLog.events (happended.trans hlog.symm)) hadded
  · have hv' := (hv.push hsize hnone).records
    rw [h] at happended hafter
    rw [happended, hlog]
    refine ⟨utf8 (nextLine memory.events record sequence),
      nextRecord memory.events record sequence, encodeLog_snoc _ _ _, rfl, ?_, ?_⟩
    · intro torn hinit hstrict stale hstale
      obtain ⟨tail, rfl, hnewline⟩ := torn_line hv.records hinit hstrict
      have hstale : stale.file = encodeLog memory.events ++ utf8 tail := hstale
      have hwrite := writeReplicationRecords_ok hv.records hfits
      by_cases hempty : tail = []
      · rw [hempty, utf8_nil, List.append_nil] at hstale
        exact ⟨_, FileReplicationLog.reload_canonical hv.records hstale hfits, rfl, hwrite⟩
      · have hbound : stale.file.length ≤ maxReplicationLogBytes := by
          have hle : (encodeLog (memory.events ++
              [nextRecord memory.events record sequence])).length ≤ maxReplicationLogBytes := hafter
          rw [encodeLog_snoc, List.length_append] at hle
          have := hinit.length_le
          rw [hstale, List.length_append]
          omega
        exact ⟨_, FileReplicationLog.reload_torn hv.records hempty hnewline hstale hbound, rfl,
          hwrite⟩
    · intro stale hstale
      have hstale : stale.file =
          encodeLog (memory.events ++ [nextRecord memory.events record sequence]) :=
        hstale.trans (encodeLog_snoc _ _ _).symm
      exact ⟨_, FileReplicationLog.reload_canonical hv' hstale hafter, rfl⟩

open FileReplicationLog in
/-- Every cut of the line of a second record. -/
theorem torn_append_recovery_small :
    ∃ (sha : Sha256) (line : Bytes), sha = Sha256.fips ∧ line ≠ [] ∧
      ∀ torn, torn <+: line → torn ≠ line → ∀ stale : FileReplicationLog,
      stale.file = ((ofMemory InMemoryReplicationLog.new).run "log" [.append [1]]).2.file ++ torn →
        ∃ reloaded, stale.reload = (.ok (), reloaded) ∧
          reloaded.events =
            ((ofMemory InMemoryReplicationLog.new).run "log" [.append [1]]).2.events := by
  let sha : Sha256 := Sha256.fips
  have hadded : (((ofMemory InMemoryReplicationLog.new).run "log"
      [.append [1]]).2.appendWithSequence [2] 7).2.events ≠
      ((ofMemory InMemoryReplicationLog.new).run "log" [.append [1]]).2.events := by
    decide +kernel
  have hgrown : (((ofMemory InMemoryReplicationLog.new).run "log"
      [.append [1]]).2.appendWithSequence [2] 7).2.file ≠
      ((ofMemory InMemoryReplicationLog.new).run "log" [.append [1]]).2.file := by
    decide +kernel
  obtain ⟨line, new, hfile, -, htorn, -⟩ := torn_append_recovery "log"
    (ofMemory InMemoryReplicationLog.new) (new_fresh (by decide)) [.append [1]] [2] 7 hadded
  refine ⟨sha, line, rfl, fun hempty => ?_, fun torn hinit hstrict stale hstale => ?_⟩
  · rw [hempty, List.append_nil] at hfile
    exact hgrown hfile
  · obtain ⟨reloaded, hreload, hsame, -⟩ := htorn torn hinit hstrict stale hstale
    exact ⟨reloaded, hreload, hsame⟩

end AppCore.Sync
