import AppCore.Sync.InStep
import AppCore.Sync.Interrupted
import AppCore.Sync.ReceiverProof

/-!
# Applying a batch again

`apply_sync_message` appends the events of a batch one by one and then moves the checkpoint. An I/O
error leaves what was appended so far; the sender tries the same batch again.

* `retry_converges_iff` — the second try reaches what one uninterrupted application would have
  reached, unless bytes had gone to a bare marker, or the checkpoint file had grown beyond what its
  reader accepts.
-/

namespace AppCore.Sync

section

variable {L : Type} [ReplicationLog L]

variable {index : Nat} {event : Bytes}

/-- A turn of a loop that ends well: the event is found, or it is appended. -/
theorem appendEventsFrom_ok_cons {start last : UInt64} {log final : L} {rest : List Bytes}
    {received skipped : Nat} {counts : Nat × Nat}
    (h : appendEventsFrom start last log index (event :: rest) received skipped =
      (.ok counts, final)) :
    ∃ seq, (¬ 2 ^ 64 ≤ index ∧ checkedAdd start (UInt64.ofNat index) = some seq) ∧
      (ReplicationLog.eventAtSequence log seq = .ok (some event) ∧
          appendEventsFrom start last log (index + 1) rest received (skipped + 1) =
            (.ok counts, final) ∨
        ReplicationLog.eventAtSequence log seq = .ok none ∧ ¬ seq ≤ last ∧
          ∃ i after, ReplicationLog.appendWithSequence log event seq = (.ok i, after) ∧
            appendEventsFrom start last after (index + 1) rest (received + 1) skipped =
              (.ok counts, final)) := by
  rw [appendEventsFrom] at h
  by_cases hindex : 2 ^ 64 ≤ index
  · rw [if_pos hindex] at h
    cases h
  rw [if_neg hindex] at h
  cases hseq : checkedAdd start (UInt64.ofNat index) with
  | none =>
    rw [hseq] at h
    cases h
  | some seq =>
    rw [hseq] at h
    dsimp only at h
    refine ⟨seq, ⟨hindex, rfl⟩, ?_⟩
    cases hevent : ReplicationLog.eventAtSequence log seq with
    | error e =>
      rw [hevent] at h
      cases h
    | ok found =>
      rw [hevent] at h
      cases found with
      | some existing =>
        dsimp only at h
        split at h
        next hsame =>
          rw [hsame]
          exact .inl ⟨rfl, h⟩
        next => cases h
      | none =>
        dsimp only at h
        split at h
        · cases h
        next hfresh =>
          cases happend : ReplicationLog.appendWithSequence log event seq with
          | mk result after =>
            rw [happend] at h
            cases result with
            | error e => cases h
            | ok i => exact .inr ⟨rfl, hfresh, i, after, rfl, h⟩

theorem appendEventsFrom_found {start last seq : UInt64} {log : L}
    (hseq : ¬ 2 ^ 64 ≤ index ∧ checkedAdd start (UInt64.ofNat index) = some seq)
    (hevent : ReplicationLog.eventAtSequence log seq = .ok (some event)) (rest : List Bytes)
    (received skipped : Nat) :
    appendEventsFrom start last log index (event :: rest) received skipped =
      appendEventsFrom start last log (index + 1) rest received (skipped + 1) := by
  rw [appendEventsFrom, if_neg hseq.1, hseq.2]
  dsimp only
  rw [hevent]
  exact if_pos rfl

theorem appendEventsFrom_appended {start last seq : UInt64} {log : L}
    (hseq : ¬ 2 ^ 64 ≤ index ∧ checkedAdd start (UInt64.ofNat index) = some seq)
    (hevent : ReplicationLog.eventAtSequence log seq = .ok none) (hfresh : ¬ seq ≤ last)
    (rest : List Bytes) (received skipped : Nat) :
    appendEventsFrom start last log index (event :: rest) received skipped =
      match ReplicationLog.appendWithSequence log event seq with
      | (.error e, log) => (.error e, log)
      | (.ok _, log) =>
        appendEventsFrom start last log (index + 1) rest (received + 1) skipped := by
  rw [appendEventsFrom, if_neg hseq.1, hseq.2]
  dsimp only
  rw [hevent]
  exact if_neg hfresh

end

/-! ## What a boxed log keeps -/

namespace BoxedLog

/-- The log shows well-formed records under their index, which its file holds. -/
def InStep [Sha256] : BoxedLog → Prop
  | .memory log => log.Valid
  | .file log => log.InStep

variable {log : BoxedLog}

theorem InStep.valid [Sha256] (h : log.InStep) :
    ValidRecords log.events ∧ log.sequenceIndices = Sync.sequenceIndices log.events := by
  cases log with
  | memory log =>
    have hvalid : log.Valid := h
    exact ⟨hvalid.records, hvalid.indexed⟩
  | file log =>
    have hinstep : log.InStep := h
    exact ⟨hinstep.valid, hinstep.indexed⟩

/-- The second log shows what the first one shows. -/
def Keeps (before after : BoxedLog) : Prop :=
  ∀ sequence record, before.payloadAt sequence = some record →
    after.payloadAt sequence = some record

theorem keeps_of_prefix [Sha256] {before after : BoxedLog} (hbefore : before.InStep)
    (hafter : after.InStep) (hpre : before.events <+: after.events) : Keeps before after := by
  intro sequence record h
  obtain ⟨found, hfound, hrecord⟩ := Option.map_eq_some_iff.1 h
  rw [hbefore.valid.2] at hfound
  obtain ⟨hpos, hmem, hsequence⟩ := lookupSequence_sound hfound
  have hlookup := (lookupSequence_eq_some hafter.valid.1).2 ⟨hpos, hpre.subset hmem, hsequence⟩
  rw [payloadAt, hafter.valid.2, hlookup, Option.map_some, hrecord]

theorem payloadAt_of_mem [Sha256] (h : log.InStep) {r : ReplicationRecord} (hr : r ∈ log.events)
    (hpos : 0 < r.sequence) : log.payloadAt r.sequence = some r.payload := by
  rw [payloadAt, h.valid.2, (lookupSequence_eq_some h.valid.1).2 ⟨hpos, hr, rfl⟩, Option.map_some]

variable {record : Bytes} {sequence : UInt64} {index : Nat}

/-- **An append that succeeds** keeps what the log shows and shows the record. -/
theorem append_kept [Sha256] {log after : BoxedLog} (h : log.InStep) (hpos : 0 < sequence)
    (hok : log.appendWithSequence record sequence = (.ok index, after)) :
    after.InStep ∧ Keeps log after ∧ after.payloadAt sequence = some record := by
  suffices hshown : after.InStep ∧ log.events <+: after.events ∧
      ∃ r ∈ after.events, r.sequence = sequence ∧ r.payload = record by
    obtain ⟨hafter, hpre, r, hr, rfl, rfl⟩ := hshown
    exact ⟨hafter, keeps_of_prefix h hafter hpre, payloadAt_of_mem hafter hr hpos⟩
  cases log with
  | memory log =>
    have hvalid : log.Valid := h
    have hafter := InMemoryReplicationLog.valid_append hvalid record sequence
    obtain ⟨-, happend⟩ | ⟨-, r, hr, happend⟩ | ⟨-, -, happend⟩ :=
      log.appendWithSequence_cases record sequence
    · simp only [appendWithSequence, happend] at hok
      cases hok
    · rw [happend] at hafter
      simp only [appendWithSequence, happend] at hok
      by_cases hsame : r.payload = record
      · rw [if_pos hsame] at hok
        cases hok
        rw [hvalid.indexed] at hr
        obtain ⟨-, hmem, hsequence⟩ := lookupSequence_sound hr
        exact ⟨hafter, List.prefix_refl _, r, hmem, hsequence, hsame⟩
      · rw [if_neg hsame] at hok
        cases hok
    · rw [happend] at hafter
      simp only [appendWithSequence, happend] at hok
      cases hok
      exact ⟨hafter, List.prefix_append _ _, nextRecord log.events record sequence,
        List.mem_append_right _ List.mem_cons_self, rfl, rfl⟩
  | file log =>
    have hinstep : log.InStep := h
    cases hfile : log.appendWithSequence record sequence with
    | mk result written =>
      have hafter := hinstep.append record sequence
      rw [hfile] at hafter
      simp only [appendWithSequence, hfile] at hok
      cases result with
      | error e => cases hok
      | ok i =>
        cases hok
        obtain ⟨loaded, hload, hcases⟩ := FileReplicationLog.append_ok hfile
        have hbehind := hinstep.held log loaded rfl hload
        have hindexed := (FileReplicationLog.inStep_loaded hload).indexed
        obtain ⟨existing, -, hlookup, hsame, -, rfl⟩ | ⟨-, -, rfl⟩ := hcases
        · rw [hindexed] at hlookup
          obtain ⟨-, hmem, hsequence⟩ := lookupSequence_sound hlookup
          exact ⟨hafter, hbehind, existing, hmem, hsequence, hsame⟩
        · exact ⟨hafter, hbehind.trans (List.prefix_append _ _),
            nextRecord loaded.events record sequence,
            List.mem_append_right _ List.mem_cons_self, rfl, rfl⟩

theorem append_file [Sha256] {file : FileReplicationLog} {after : BoxedLog}
    (hok : (BoxedLog.file file).appendWithSequence record sequence = (.ok index, after)) :
    ∃ written, after = .file written ∧
      file.appendWithSequence record sequence = (.ok index, written) := by
  cases hfile : file.appendWithSequence record sequence with
  | mk result written =>
    simp only [appendWithSequence, hfile] at hok
    cases hok
    exact ⟨written, rfl, rfl⟩

theorem file_of_append [Sha256] {written : FileReplicationLog}
    (hok : log.appendWithSequence record sequence = (.ok index, .file written)) :
    ∃ file : FileReplicationLog, file.appendWithSequence record sequence = (.ok index, written) := by
  cases log with
  | memory log => cases congrArg Prod.snd hok
  | file file =>
    obtain ⟨written', heq, hwritten⟩ := append_file hok
    cases heq
    exact ⟨file, hwritten⟩

/-- Logs that show the same records and hold them. -/
def Same [Sha256] : BoxedLog → BoxedLog → Prop
  | .memory a, .memory b => a = b
  | .file a, .file b => FileReplicationLog.SameRecords a b
  | _, _ => False

theorem Same.refl [Sha256] (log : BoxedLog) : Same log log := by
  cases log with
  | memory log => exact rfl
  | file log => exact FileReplicationLog.SameRecords.refl log

theorem Same.shows [Sha256] {a b : BoxedLog} (h : Same a b) :
    b.events = a.events ∧ b.stored = a.stored ∧
      ∀ sequence, b.payloadAt sequence = a.payloadAt sequence := by
  cases a with
  | memory a =>
    cases b with
    | memory b =>
      obtain rfl : a = b := h
      exact ⟨rfl, rfl, fun _ => rfl⟩
    | file b => exact h.elim
  | file a =>
    cases b with
    | memory b => exact h.elim
    | file b =>
      have hrecords : FileReplicationLog.SameRecords a b := h
      refine ⟨hrecords.events, hrecords.stored, fun sequence => ?_⟩
      simp only [payloadAt, events, sequenceIndices, hrecords.events, hrecords.indices]

theorem Same.append [Sha256] {a b after : BoxedLog} (h : Same a b)
    (hok : a.appendWithSequence record sequence = (.ok index, after)) :
    ∃ after', b.appendWithSequence record sequence = (.ok index, after') ∧ Same after after' := by
  cases a with
  | memory a =>
    cases b with
    | memory b =>
      obtain rfl : a = b := h
      exact ⟨after, hok, .refl after⟩
    | file b => exact h.elim
  | file a =>
    cases b with
    | memory b => exact h.elim
    | file b =>
      have hrecords : FileReplicationLog.SameRecords a b := h
      cases hfile : a.appendWithSequence record sequence with
      | mk result written =>
        simp only [appendWithSequence, hfile] at hok
        cases result with
        | error e => cases hok
        | ok i =>
          cases hok
          obtain ⟨again, hagain, hsame⟩ := hrecords.append hfile
          refine ⟨.file again, ?_, hsame⟩
          simp only [appendWithSequence, hagain]
          rfl

end BoxedLog

/-! ## The loop, tried again -/

variable {counts : Nat × Nat} {start last : UInt64} {index : Nat} {events : List Bytes}
  {received skipped : Nat}

/-- In logs that show the same, the loop goes the same way. -/
theorem appendEventsFrom_same [Sha256] {a b final : BoxedLog} (h : BoxedLog.Same a b)
    (hok : appendEventsFrom start last a index events received skipped = (.ok counts, final))
    (received' skipped' : Nat) :
    ∃ counts' final', appendEventsFrom start last b index events received' skipped' =
      (.ok counts', final') ∧ BoxedLog.Same final final' := by
  induction events generalizing a b index received skipped received' skipped' with
  | nil =>
    cases hok
    exact ⟨_, _, rfl, h⟩
  | cons event rest ih =>
    obtain ⟨-, -, hshows⟩ := h.shows
    obtain ⟨seq, hseq, ⟨hevent, hrest⟩ | ⟨hevent, hfresh, i, after, happend, hrest⟩⟩ :=
      appendEventsFrom_ok_cons hok
    · have hfound : ReplicationLog.eventAtSequence b seq = .ok (some event) := by
        rw [← hevent]
        exact congrArg Except.ok (hshows seq)
      rw [appendEventsFrom_found hseq hfound]
      exact ih h hrest received' (skipped' + 1)
    · have hfree : ReplicationLog.eventAtSequence b seq = .ok none := by
        rw [← hevent]
        exact congrArg Except.ok (hshows seq)
      obtain ⟨after', hagain, hsame⟩ := h.append happend
      rw [appendEventsFrom_appended hseq hfree hfresh]
      have hagain : ReplicationLog.appendWithSequence b event seq = (.ok i, after') := hagain
      rw [hagain]
      exact ih hsame hrest (received' + 1) skipped'

namespace FileReplicationLog

/-- No append that succeeds leaves the bare marker. -/
theorem not_bare_of_append [Sha256] {log after : FileReplicationLog} {record : Bytes}
    {sequence : UInt64} {index : Nat}
    (hok : log.appendWithSequence record sequence = (.ok index, after)) :
    ¬ MarkerOnly after.file := by
  intro hbare
  have hreload := reload_bare hbare
  obtain ⟨loaded, hload, ⟨existing, -, hlookup, -, -, rfl⟩ | ⟨happendable, -, rfl⟩⟩ := append_ok hok
  · rw [reload_loaded hload rfl] at hreload
    rw [(Prod.mk.inj hreload).2] at hlookup
    have hnone : lookupSequence [] ∅ sequence = none := by
      simp [lookupSequence]
    rw [hnone] at hlookup
    cases hlookup
  · by_cases hmarker : MarkerOnly log.file
    · rw [extended_unreadable hload hmarker happendable] at hreload
      cases hreload
    · rw [reload_extended hload hmarker happendable] at hreload
      have hevents := congrArg FileReplicationLog.events (Prod.mk.inj hreload).2
      simp [extended] at hevents

/-- What a stopped append shows: all that the log showed, and not the record it was to add. -/
theorem stopped_shows [Sha256] {log stopped : FileReplicationLog} {record : Bytes}
    {sequence : UInt64} {index : Nat} {after : FileReplicationLog} {fault : AppendFault}
    {error : String} {e : SyncError} (h : InStep log)
    (hok : log.appendWithSequence record sequence = (.ok index, after))
    (hfree : lookupSequence log.events log.sequenceIndices sequence = none)
    (hfail : log.appendFailing fault error record sequence = (.error e, stopped)) :
    log.events <+: stopped.events ∧
      lookupSequence stopped.events stopped.sequenceIndices sequence = none := by
  obtain hstopped | ⟨-, hstopped⟩ | ⟨loaded, hload, ⟨-, hstopped⟩ |
    ⟨bytes, -, happendable, hstopped⟩⟩ := appendFailing_cases fault error log record sequence
  · rw [hstopped, hok] at hfail
    cases hfail
  · rw [hstopped] at hfail
    cases hfail
    exact ⟨List.prefix_refl _, hfree⟩
  · rw [hstopped] at hfail
    cases hfail
    exact ⟨List.prefix_refl _, hfree⟩
  · rw [hstopped] at hfail
    cases hfail
    exact ⟨h.held log loaded rfl hload, happendable.free⟩

end FileReplicationLog

/-- **An append of an interrupted log**, where the log itself would append: it does so, or it is the
one that stops. -/
theorem InterruptedLog.append_cases [Sha256] {log after : BoxedLog} {record : Bytes}
    {sequence : UInt64} (hok : log.appendWithSequence record sequence = (.ok index, after))
    (stop : Option (Nat × FileReplicationLog.AppendFault)) (error : String) :
    (∃ stop', appendWithSequence ⟨log, stop, error⟩ record sequence =
        (.ok index, ⟨after, stop', error⟩)) ∨
      ∃ file fault e stopped, log = .file file ∧ stop = some (0, fault) ∧
        file.appendFailing fault error record sequence = (.error e, stopped) ∧
        appendWithSequence ⟨log, stop, error⟩ record sequence =
          (.error e, ⟨.file stopped, stop, error⟩) := by
  cases stop with
  | none =>
    left
    refine ⟨none, ?_⟩
    simp only [appendWithSequence, hok]
    rfl
  | some place =>
    obtain ⟨before, fault⟩ := place
    cases before with
    | succ before =>
      left
      refine ⟨some (before, fault), ?_⟩
      simp only [appendWithSequence, hok]
      rfl
    | zero =>
      cases log with
      | memory log =>
        left
        refine ⟨some (0, fault), ?_⟩
        simp only [appendWithSequence, hok]
        rfl
      | file file =>
        cases hstopped : file.appendFailing fault error record sequence with
        | mk result stopped =>
          have happend : appendWithSequence ⟨.file file, some (0, fault), error⟩ record
              sequence = (result, ⟨.file stopped, some (0, fault), error⟩) := by
            simp only [appendWithSequence, hstopped]
            rfl
          cases result with
          | error e => exact .inr ⟨file, fault, e, stopped, rfl, rfl, hstopped, happend⟩
          | ok i =>
            left
            refine ⟨some (0, fault), ?_⟩
            rw [happend]
            obtain hgoes | ⟨-, h⟩ | ⟨loaded, -, ⟨-, h⟩ | ⟨bytes, -, -, h⟩⟩ :=
              file.appendFailing_cases fault error record sequence
            · rw [hgoes] at hstopped
              simp only [BoxedLog.appendWithSequence, hstopped] at hok
              cases hok
              rfl
            · rw [h] at hstopped
              cases hstopped
            · rw [h] at hstopped
              cases hstopped
            · rw [h] at hstopped
              cases hstopped

variable {error : String} {e : SyncError} {log final : BoxedLog}

/-- What an interrupted loop leaves of a loop that would have ended well: it shows all that was
shown, and the loop over all the events ends well from there. -/
theorem interrupted_loop [Sha256] {stop : Option (Nat × FileReplicationLog.AppendFault)}
    {stopped : InterruptedLog} (hpos : 0 < start) (hin : log.InStep)
    (hok : appendEventsFrom start last log index events received skipped = (.ok counts, final))
    (hfail : appendEventsFrom start last (⟨log, stop, error⟩ : InterruptedLog) index events received
      skipped = (.error e, stopped))
    (hspoilt : ∀ file fault, log = .file file → stop = some (0, fault) → ¬ file.Spoilt fault) :
    BoxedLog.Keeps log stopped.log ∧ ∀ received' skipped', ∃ counts' final',
      appendEventsFrom start last stopped.log index events received' skipped' =
        (.ok counts', final') ∧ BoxedLog.Same final final' := by
  -- over the events: those before the stop are found, the one that stopped is appended again, and
  -- the ones behind it are appended as they would have been
  induction events generalizing log stop index received skipped with
  | nil => cases hfail
  | cons event rest ih =>
    obtain ⟨seq, hseq, ⟨hevent, hrest⟩ | ⟨hevent, hfresh, i, after, happend, hrest⟩⟩ :=
      appendEventsFrom_ok_cons hok
    · have hfound : ReplicationLog.eventAtSequence (⟨log, stop, error⟩ : InterruptedLog) seq =
          .ok (some event) := hevent
      rw [appendEventsFrom_found hseq hfound] at hfail
      obtain ⟨hkeeps, hagain⟩ := ih hin hrest hfail hspoilt
      refine ⟨hkeeps, fun received' skipped' => ?_⟩
      have hstopped : ReplicationLog.eventAtSequence stopped.log seq = .ok (some event) :=
        congrArg Except.ok (hkeeps seq event (Except.ok.inj hevent))
      rw [appendEventsFrom_found hseq hstopped]
      exact hagain received' (skipped' + 1)
    · have hfree : ReplicationLog.eventAtSequence (⟨log, stop, error⟩ : InterruptedLog) seq =
          .ok none := hevent
      have happend : log.appendWithSequence event seq = (.ok i, after) := happend
      rw [appendEventsFrom_appended hseq hfree hfresh] at hfail
      have hseqpos : 0 < seq := by
        obtain ⟨-, hsum⟩ := checkedAdd_index hseq.1 hseq.2
        rw [UInt64.lt_iff_toNat_lt] at hpos ⊢
        omega
      obtain ⟨hafter, hkept, hshown⟩ := BoxedLog.append_kept hin hseqpos happend
      obtain ⟨stop', hgoes⟩ | ⟨file, fault, e', file', rfl, rfl, hfile, hstops⟩ :=
        InterruptedLog.append_cases happend stop error
      · have hgoes : ReplicationLog.appendWithSequence (⟨log, stop, error⟩ : InterruptedLog) event
            seq = (.ok i, ⟨after, stop', error⟩) := hgoes
        rw [hgoes] at hfail
        obtain ⟨hkeeps, hagain⟩ := ih hafter hrest hfail fun file fault hfile _ hspoilt => by
          obtain ⟨before, hbefore⟩ := BoxedLog.file_of_append (hfile ▸ happend)
          exact FileReplicationLog.not_bare_of_append hbefore hspoilt.1
        refine ⟨fun sequence record h => hkeeps sequence record (hkept sequence record h),
          fun received' skipped' => ?_⟩
        have hstopped : ReplicationLog.eventAtSequence stopped.log seq = .ok (some event) :=
          congrArg Except.ok (hkeeps seq event hshown)
        rw [appendEventsFrom_found hseq hstopped]
        exact hagain received' (skipped' + 1)
      · have hstops : ReplicationLog.appendWithSequence
            (⟨.file file, some (0, fault), error⟩ : InterruptedLog) event seq =
              (.error e', ⟨.file file', some (0, fault), error⟩) := hstops
        rw [hstops] at hfail
        cases hfail
        obtain ⟨written, rfl, hwritten⟩ := BoxedLog.append_file happend
        have hinstep : file.InStep := hin
        have hnone : lookupSequence file.events file.sequenceIndices seq = none :=
          Option.map_eq_none_iff.1 (Except.ok.inj hevent)
        obtain ⟨hpre, hstill⟩ :=
          FileReplicationLog.stopped_shows hinstep hwritten hnone hfile
        have hstopped : (BoxedLog.file file').InStep := by
          have hstep := hinstep.appendFailing fault error event seq
          rwa [hfile] at hstep
        obtain ⟨again, hagain, hsame⟩ := FileReplicationLog.resumes hseqpos hwritten hfile
          (hspoilt file fault rfl rfl)
        refine ⟨BoxedLog.keeps_of_prefix hin hstopped hpre, fun received' skipped' => ?_⟩
        have hfree' : ReplicationLog.eventAtSequence (BoxedLog.file file') seq = .ok none :=
          congrArg Except.ok (Option.map_eq_none_iff.2 hstill)
        have hagain' : ReplicationLog.appendWithSequence (BoxedLog.file file') event seq =
            (.ok i, .file again) := by
          show BoxedLog.appendWithSequence _ _ _ = _
          simp only [BoxedLog.appendWithSequence, hagain]
          rfl
        rw [appendEventsFrom_appended hseq hfree' hfresh, hagain']
        have hsame : BoxedLog.Same (.file written) (.file again) := hsame
        exact appendEventsFrom_same hsame hrest (received' + 1) skipped'

/-- A loop that is not interrupted goes as over the log itself. -/
theorem uninterrupted_loop [Sha256]
    (hok : appendEventsFrom start last log index events received skipped = (.ok counts, final)) :
    appendEventsFrom start last (⟨log, none, error⟩ : InterruptedLog) index events received skipped =
      (.ok counts, ⟨final, none, error⟩) := by
  induction events generalizing log index received skipped with
  | nil =>
    cases hok
    rfl
  | cons event rest ih =>
    obtain ⟨seq, hseq, ⟨hevent, hrest⟩ | ⟨hevent, hfresh, i, after, happend, hrest⟩⟩ :=
      appendEventsFrom_ok_cons hok
    · have hfound : ReplicationLog.eventAtSequence (⟨log, none, error⟩ : InterruptedLog) seq =
          .ok (some event) := hevent
      rw [appendEventsFrom_found hseq hfound]
      exact ih hrest
    · have hfree : ReplicationLog.eventAtSequence (⟨log, none, error⟩ : InterruptedLog) seq =
          .ok none := hevent
      have hgoes : ReplicationLog.appendWithSequence (⟨log, none, error⟩ : InterruptedLog) event
          seq = (.ok i, ⟨after, none, error⟩) := by
        show InterruptedLog.appendWithSequence _ _ _ = _
        have happend : log.appendWithSequence event seq = (.ok i, after) := happend
        simp only [InterruptedLog.appendWithSequence, happend]
        rfl
      rw [appendEventsFrom_appended hseq hfree hfresh, hgoes]
      exact ih hrest

/-- After a loop that ended well every event is found, and the loop passes over all of them. -/
theorem loop_again [Sha256] (hpos : 0 < start) (hin : log.InStep)
    (hok : appendEventsFrom start last log index events received skipped = (.ok counts, final)) :
    final.InStep ∧ BoxedLog.Keeps log final ∧ ∀ received' skipped', ∃ counts',
      appendEventsFrom start last final index events received' skipped' = (.ok counts', final) := by
  induction events generalizing log index received skipped with
  | nil =>
    cases hok
    exact ⟨hin, fun _ _ h => h, fun _ _ => ⟨_, rfl⟩⟩
  | cons event rest ih =>
    obtain ⟨seq, hseq, hcases⟩ := appendEventsFrom_ok_cons hok
    have hseqpos : 0 < seq := by
      obtain ⟨-, hsum⟩ := checkedAdd_index hseq.1 hseq.2
      rw [UInt64.lt_iff_toNat_lt] at hpos ⊢
      omega
    suffices hrest : final.InStep ∧ BoxedLog.Keeps log final ∧
        final.payloadAt seq = some event ∧ ∀ received' skipped', ∃ counts',
          appendEventsFrom start last final (index + 1) rest received' skipped' =
            (.ok counts', final) by
      obtain ⟨hfinal, hkeeps, hshown, hagain⟩ := hrest
      refine ⟨hfinal, hkeeps, fun received' skipped' => ?_⟩
      rw [appendEventsFrom_found hseq (congrArg Except.ok hshown)]
      exact hagain received' (skipped' + 1)
    obtain ⟨hevent, hrest⟩ | ⟨-, -, i, after, happend, hrest⟩ := hcases
    · obtain ⟨hfinal, hkeeps, hagain⟩ := ih hin hrest
      exact ⟨hfinal, hkeeps, hkeeps seq event (Except.ok.inj hevent), hagain⟩
    · obtain ⟨hafter, hkept, hshown⟩ := BoxedLog.append_kept hin hseqpos happend
      obtain ⟨hfinal, hkeeps, hagain⟩ := ih hafter hrest
      exact ⟨hfinal, fun sequence record h => hkeeps sequence record (hkept sequence record h),
        hkeeps seq event hshown, hagain⟩

/-! ## The checkpoint -/

/-- The entries of a checkpoint file were validated. -/
theorem validCheckpoints_of_parse {map found : CheckpointMap} {ls : List (List Char)}
    (hmap : ValidCheckpoints map) (h : parseCheckpointLines map ls = .ok found) :
    ValidCheckpoints found := by
  induction ls generalizing map with
  | nil =>
    cases h
    exact hmap
  | cons line ls ih =>
    rw [parseCheckpointLines] at h
    split at h
    · cases h
    next peerId checkpoint hline =>
      obtain ⟨hpeer, hhash⟩ : validatePeerId peerId = .ok () ∧
          validateCheckpointHash checkpoint.2 = .ok () := by
        unfold parseCheckpointLine at hline
        split at hline
        · cases hline
        · split at hline
          · cases hline
          next hpeer =>
            dsimp only at hline
            split at hline
            · cases hline
            · split at hline
              · cases hline
              next hhash =>
                cases hline
                exact ⟨hpeer, hhash⟩
      exact ih (hmap.insert checkpoint.1 hpeer hhash) h

theorem validCheckpoints_of_readState {store : FileSyncCheckpointStore} {map : CheckpointMap}
    (h : store.readState = .ok map) : ValidCheckpoints map := by
  unfold FileSyncCheckpointStore.readState at h
  split at h
  · cases h
  · split at h
    · cases h
    · exact validCheckpoints_of_parse validCheckpoints_empty h

/-- The checkpoint file with a new entry is larger than its reader accepts. -/
def BoxedCheckpoints.Outgrown (store : BoxedCheckpoints) (peerId : String) (checkpoint : Checkpoint) :
    Prop :=
  ∃ file map, store = .file file ∧ file.readState = .ok map ∧
    ¬ CheckpointsFit (map.insert peerId checkpoint)

/-- **A checkpoint that was moved** is read back, unless its file has grown too large. -/
theorem getLastSequence_moved {store after : BoxedCheckpoints} {peerId hash : String}
    {sequence : UInt64} (hok : setCheckpoint store peerId sequence hash = (.ok (), after)) :
    (¬ store.Outgrown peerId (sequence, hash) → getLastSequence after peerId = .ok sequence) ∧
      (store.Outgrown peerId (sequence, hash) → ∃ e, getLastSequence after peerId = .error e) := by
  cases store with
  | memory store =>
    refine ⟨fun _ => ?_, fun houtgrown => ?_⟩
    · cases hpeer : validatePeerId peerId with
      | error e =>
        simp only [setCheckpoint, hpeer] at hok
        cases hok
      | ok _ =>
        cases hhash : validateCheckpointHash hash with
        | error e =>
          simp only [setCheckpoint, hpeer, hhash] at hok
          cases hok
        | ok _ =>
          simp only [setCheckpoint, hpeer, hhash] at hok
          cases hok
          simp only [getLastSequence, getCheckpoint, hpeer,
            Std.ExtTreeMap.getElem?_insert_self]
          rfl
    · obtain ⟨file, map, hfile, -, -⟩ := houtgrown
      cases hfile
  | file file =>
    cases hpeer : validatePeerId peerId with
    | error e =>
      simp only [setCheckpoint, hpeer] at hok
      cases hok
    | ok _ =>
      cases hhash : validateCheckpointHash hash with
      | error e =>
        simp only [setCheckpoint, hpeer, hhash] at hok
        cases hok
      | ok _ =>
        cases hread : file.readState with
        | error e =>
          simp only [setCheckpoint, hpeer, hhash, hread] at hok
          cases hok
        | ok map =>
          simp only [setCheckpoint, hpeer, hhash, hread] at hok
          cases hok
          have hv := (validCheckpoints_of_readState hread).insert sequence hpeer hhash
          obtain ⟨hfits, hbig⟩ := FileSyncCheckpointStore.readState_writeMap hv
          constructor
          · intro hinside
            have hfit : CheckpointsFit (map.insert peerId (sequence, hash)) := by
              by_contra hnot
              exact hinside ⟨file, map, rfl, hread, hnot⟩
            simp only [getLastSequence, getCheckpoint, hpeer, hfits hfit,
              Std.ExtTreeMap.getElem?_insert_self]
            rfl
          · intro houtgrown
            obtain ⟨file', map', hfile, hread', hnot⟩ := houtgrown
            cases hfile
            obtain rfl : map = map' := Except.ok.inj (hread.symm.trans hread')
            obtain ⟨e, he⟩ := hbig hnot
            refine ⟨e, ?_⟩
            simp only [getLastSequence, getCheckpoint, hpeer, he]

section

variable {L C L' C' : Type} [SyncCheckpointStore C] [SyncCheckpointStore C']

theorem checkSyncMessage_congr [Sha256] {a : SyncReceiverState L C} {b : SyncReceiverState L' C'}
    (hprocessed : b.processedBatches = a.processedBatches)
    (hget : ∀ peerId, getCheckpoint b.checkpointStore peerId =
      getCheckpoint a.checkpointStore peerId) (m : SyncMessage) :
    checkSyncMessage b m = checkSyncMessage a m := by
  unfold checkSyncMessage checkPreviousHash getLastSequence
  rw [hprocessed, hget]

variable {m : SyncMessage}

theorem validateMessage_of_check [Sha256] {state : SyncReceiverState L C}
    {passed : SyncReceiveAck ⊕ UInt64} (h : checkSyncMessage state m = .ok passed) :
    validateMessage state.processedBatches m = .ok () := by
  unfold checkSyncMessage at h
  split at h
  · cases h
  next hvalid => exact hvalid

variable [ReplicationLog L]

/-- **The second half of a call that succeeds.** -/
theorem commitSyncMessage_ok {state done : SyncReceiverState L C} {last : UInt64}
    {ack : SyncReceiveAck} (h : commitSyncMessage state m last = (.ok ack, done)) :
    ∃ counts, appendEventsFrom m.sequenceStart last state.replicationLog 0 m.events 0 0 =
        (.ok counts, done.replicationLog) ∧
      setCheckpoint state.checkpointStore m.sourceNodeId.asStr m.sequenceEnd m.eventsHash =
        (.ok (), done.checkpointStore) := by
  unfold commitSyncMessage appendEventsToLog at h
  cases hloop : appendEventsFrom m.sequenceStart last state.replicationLog 0 m.events 0 0 with
  | mk result log =>
    rw [hloop] at h
    cases result with
    | error e => cases h
    | ok counts =>
      dsimp only at h
      cases hset : setCheckpoint state.checkpointStore m.sourceNodeId.asStr m.sequenceEnd
          m.eventsHash with
      | mk result store =>
        rw [hset] at h
        cases result with
        | error e => cases h
        | ok _ =>
          cases h
          exact ⟨counts, rfl, rfl⟩

theorem commitSyncMessage_of_loop {state : SyncReceiverState L C} {last : UInt64}
    {counts : Nat × Nat} {log : L} {store : C}
    (hloop : appendEventsFrom m.sequenceStart last state.replicationLog 0 m.events 0 0 =
      (.ok counts, log))
    (hset : setCheckpoint state.checkpointStore m.sourceNodeId.asStr m.sequenceEnd m.eventsHash =
      (.ok (), store)) :
    commitSyncMessage state m last =
      (.ok ⟨true, counts.1, counts.2, m.sequenceEnd⟩,
        ⟨log, store, recordProcessedBatch state.processedBatches m.batchId⟩) := by
  unfold commitSyncMessage appendEventsToLog
  rw [hloop]
  dsimp only
  rw [hset]

end

/-! ## Convergence -/

/-- The states of the log of a receiver. -/
inductive BoxedLog.Reached [Sha256] : BoxedLog → Prop
  | memory (ops : List LogOp) : Reached (.memory (InMemoryReplicationLog.new.run ops).2)
  | file {log : FileReplicationLog} (h : log.Reached) : Reached (.file log)

theorem BoxedLog.Reached.inStep [Sha256] {log : BoxedLog} (h : log.Reached) : log.InStep := by
  cases h with
  | memory ops => exact InMemoryReplicationLog.valid_run InMemoryReplicationLog.valid_new ops
  | file hreached => exact hreached.inStep

/-- The batch is accepted, and leaves the records and the checkpoints of an uninterrupted
application. -/
def Converges [Sha256] (state : BoxedReceiver) (m : SyncMessage) (done : BoxedReceiver) : Prop :=
  ∃ ack after, applySyncMessage state m = (.ok ack, after) ∧
    after.replicationLog.events = done.replicationLog.events ∧
    after.replicationLog.stored = done.replicationLog.stored ∧
    after.checkpointStore = done.checkpointStore

variable {m : SyncMessage}

theorem converges_of_loop [Sha256] {state done : BoxedReceiver} {last : UInt64} {final : BoxedLog}
    (hcheck : checkSyncMessage state m = .ok (.inr last))
    (hloop : appendEventsFrom m.sequenceStart last state.replicationLog 0 m.events 0 0 =
      (.ok counts, final))
    (hset : setCheckpoint state.checkpointStore m.sourceNodeId.asStr m.sequenceEnd m.eventsHash =
      (.ok (), done.checkpointStore)) (hevents : final.events = done.replicationLog.events)
    (hstored : final.stored = done.replicationLog.stored) : Converges state m done := by
  refine ⟨⟨true, counts.1, counts.2, m.sequenceEnd⟩, ⟨final, done.checkpointStore,
    recordProcessedBatch state.processedBatches m.batchId⟩, ?_, hevents, hstored, rfl⟩
  simp only [applySyncMessage, hcheck]
  exact commitSyncMessage_of_loop hloop hset

/-- The interruptions after which the batch is not accepted: bytes have gone to the bare marker, or
the checkpoint file was replaced by one that is too large to be read. -/
def Spoils (state : BoxedReceiver) (m : SyncMessage) : Interruption → Prop
  | .append before fault =>
    before = 0 ∧ ∃ log, state.replicationLog = .file log ∧ log.Spoilt fault
  | .checkpoint moved =>
    moved = true ∧ state.checkpointStore.Outgrown m.sourceNodeId.asStr
      (m.sequenceEnd, m.eventsHash)

variable {state : BoxedReceiver}

theorem start_pos_of_check [Sha256] {passed : SyncReceiveAck ⊕ UInt64}
    (hcheck : checkSyncMessage state m = .ok passed) :
    0 < m.sequenceStart ∧ m.events ≠ [] := by
  obtain ⟨hm, -⟩ := validateMessage_eq_ok.1 (validateMessage_of_check hcheck)
  exact ⟨hm.start_pos, hm.nonempty⟩

/-- A log that is a bare marker cannot be appended to again after bytes have gone to it. -/
theorem spoilt_loop [Sha256] {file : FileReplicationLog} {final : BoxedLog} {bytes : Nat}
    {stopped : InterruptedLog} (hin : file.InStep)
    (hmarker : FileReplicationLog.MarkerOnly file.file) (hbytes : 0 < bytes)
    (hok : appendEventsFrom start last (.file file) 0 events 0 0 = (.ok counts, final))
    (hfail : appendEventsFrom start last
      (⟨.file file, some (0, .written bytes), error⟩ : InterruptedLog) 0 events 0 0 =
        (.error e, stopped)) :
    ∃ e' after, appendEventsFrom start last stopped.log 0 events 0 0 = (.error e', after) := by
  cases events with
  | nil => cases hfail
  | cons event rest =>
    have hload := FileReplicationLog.reload_bare hmarker
    have hempty : file.events = [] := List.prefix_nil.1 (hin.held file _ rfl hload)
    have hnone (sequence : UInt64) : (BoxedLog.file file).payloadAt sequence = none := by
      simp [BoxedLog.payloadAt, BoxedLog.events, lookupSequence, hempty]
    obtain ⟨seq, hseq, ⟨hevent, -⟩ | ⟨hevent, hfresh, i, after, happend, -⟩⟩ :=
      appendEventsFrom_ok_cons hok
    · have hfound := Except.ok.inj hevent
      rw [hnone] at hfound
      cases hfound
    · obtain ⟨written, -, hwritten⟩ := BoxedLog.append_file happend
      obtain ⟨loaded, hload', ⟨existing, -, hlookup, -⟩ | ⟨happendable, -, -⟩⟩ :=
        FileReplicationLog.append_ok hwritten
      · obtain rfl := (Prod.mk.inj (hload.symm.trans hload')).2
        simp [lookupSequence] at hlookup
      · have hstops : ReplicationLog.appendWithSequence
            (⟨.file file, some (0, .written bytes), error⟩ : InterruptedLog) event seq =
              (.error (.replicationFailed error),
                ⟨.file (loaded.cutShort event seq bytes), some (0, .written bytes), error⟩) := by
          show InterruptedLog.appendWithSequence _ _ _ = _
          simp only [InterruptedLog.appendWithSequence,
            FileReplicationLog.appendFailing_written hload' happendable]
          rfl
        have hfree : ReplicationLog.eventAtSequence
            (⟨.file file, some (0, .written bytes), error⟩ : InterruptedLog) seq = .ok none :=
          hevent
        rw [appendEventsFrom_appended hseq hfree hfresh, hstops] at hfail
        cases hfail
        have hunreadable :=
          FileReplicationLog.cutShort_unreadable hload' hmarker happendable hbytes
        have hstill : ReplicationLog.eventAtSequence
            (BoxedLog.file (loaded.cutShort event seq bytes)) seq = .ok none :=
          congrArg Except.ok (Option.map_eq_none_iff.2 happendable.free)
        rw [appendEventsFrom_appended hseq hstill hfresh]
        obtain ⟨e', -, hagain⟩ | ⟨other, hother, -⟩ := FileReplicationLog.append_cases
          (loaded.cutShort event seq bytes) event seq
        · have hagain : ReplicationLog.appendWithSequence
              (BoxedLog.file (loaded.cutShort event seq bytes)) event seq =
                (.error e', .file (loaded.cutShort event seq bytes)) := by
            show BoxedLog.appendWithSequence _ _ _ = _
            simp only [BoxedLog.appendWithSequence, hagain]
            rfl
          rw [hagain]
          exact ⟨e', _, rfl⟩
        · rw [hunreadable] at hother
          cases hother

/-- An interruption at an append. -/
theorem retry_append [Sha256] {last : UInt64} {done : BoxedReceiver}
    (hin : state.replicationLog.InStep) (hcheck : checkSyncMessage state m = .ok (.inr last))
    (hloop : appendEventsFrom m.sequenceStart last state.replicationLog 0 m.events 0 0 =
      (.ok counts, done.replicationLog))
    (hset : setCheckpoint state.checkpointStore m.sourceNodeId.asStr m.sequenceEnd m.eventsHash =
      (.ok (), done.checkpointStore)) {before : Nat} {fault : FileReplicationLog.AppendFault}
    {stopped : SyncReceiverState InterruptedLog InterruptedCheckpoints}
    (hfail : applySyncMessage (BoxedReceiver.interrupt state (.append before fault) error) m =
      (.error e, stopped)) :
    Converges (BoxedReceiver.resume stopped) m done ↔ ¬ Spoils state m (.append before fault) := by
  have hcheckI : checkSyncMessage (BoxedReceiver.interrupt state (.append before fault) error) m =
      .ok (.inr last) := (checkSyncMessage_congr rfl (fun _ => rfl) m).trans hcheck
  obtain ⟨hpos, -⟩ := start_pos_of_check hcheck
  simp only [applySyncMessage, hcheckI] at hfail
  cases hloopI : appendEventsFrom m.sequenceStart last
      (⟨state.replicationLog, some (before, fault), error⟩ : InterruptedLog) 0 m.events 0 0 with
  | mk result log =>
    cases result with
    | ok counts' =>
      have hsetI : setCheckpoint (⟨state.checkpointStore, none, error⟩ : InterruptedCheckpoints)
          m.sourceNodeId.asStr m.sequenceEnd m.eventsHash =
            (.ok (), ⟨done.checkpointStore, none, error⟩) := by
        show InterruptedCheckpoints.set _ _ _ _ = _
        simp only [InterruptedCheckpoints.set, hset]
      have hcommit : commitSyncMessage
          (BoxedReceiver.interrupt state (.append before fault) error) m last = _ :=
        commitSyncMessage_of_loop hloopI hsetI
      rw [hcommit] at hfail
      cases hfail
    | error e' =>
      have hresume : BoxedReceiver.resume stopped =
          ⟨log.log, state.checkpointStore, state.processedBatches⟩ := by
        have hloopI : appendEventsFrom m.sequenceStart last
            (BoxedReceiver.interrupt state (.append before fault) error).replicationLog 0
            m.events 0 0 = (.error e', log) := hloopI
        simp only [commitSyncMessage, appendEventsToLog, hloopI] at hfail
        cases hfail
        rfl
      rw [hresume]
      have hagain : checkSyncMessage (⟨log.log, state.checkpointStore,
          state.processedBatches⟩ : BoxedReceiver) m = .ok (.inr last) :=
        (checkSyncMessage_congr rfl (fun _ => rfl) m).trans hcheck
      by_cases hspoils : Spoils state m (.append before fault)
      · refine iff_of_false ?_ (not_not_intro hspoils)
        obtain ⟨rfl, file, hfile, hmarker, bytes, hbytes, rfl⟩ := hspoils
        rw [hfile] at hin hloop hloopI
        obtain ⟨e'', after, hstuck⟩ := spoilt_loop hin hmarker hbytes hloop hloopI
        intro hconverges
        obtain ⟨ack, final, happly, -⟩ := hconverges
        simp only [applySyncMessage, hagain] at happly
        obtain ⟨counts', hends, -⟩ := commitSyncMessage_ok happly
        rw [hstuck] at hends
        cases hends
      · refine iff_of_true ?_ hspoils
        obtain ⟨-, hretry⟩ := interrupted_loop hpos hin hloop hloopI fun file fault' hfile hstop
            hspoilt => by
          cases hstop
          exact hspoils ⟨rfl, file, hfile, hspoilt⟩
        obtain ⟨counts', final, hfinal, hsame⟩ := hretry 0 0
        obtain ⟨hevents, hstored, -⟩ := hsame.shows
        exact converges_of_loop hagain hfinal hset hevents hstored

/-- An interruption at `set_checkpoint`. -/
theorem retry_checkpoint [Sha256] {last : UInt64} {done : BoxedReceiver}
    (hin : state.replicationLog.InStep) (hcheck : checkSyncMessage state m = .ok (.inr last))
    (hloop : appendEventsFrom m.sequenceStart last state.replicationLog 0 m.events 0 0 =
      (.ok counts, done.replicationLog))
    (hset : setCheckpoint state.checkpointStore m.sourceNodeId.asStr m.sequenceEnd m.eventsHash =
      (.ok (), done.checkpointStore)) {moved : Bool}
    {stopped : SyncReceiverState InterruptedLog InterruptedCheckpoints}
    (hfail : applySyncMessage (BoxedReceiver.interrupt state (.checkpoint moved) error) m =
      (.error e, stopped)) :
    Converges (BoxedReceiver.resume stopped) m done ↔ ¬ Spoils state m (.checkpoint moved) := by
  have hcheckI : checkSyncMessage (BoxedReceiver.interrupt state (.checkpoint moved) error) m =
      .ok (.inr last) := (checkSyncMessage_congr rfl (fun _ => rfl) m).trans hcheck
  obtain ⟨hpos, -⟩ := start_pos_of_check hcheck
  obtain ⟨-, -, hagainLoop⟩ := loop_again hpos hin hloop
  have hloopI : appendEventsFrom m.sequenceStart last
      (BoxedReceiver.interrupt state (.checkpoint moved) error).replicationLog 0 m.events 0 0 =
        (.ok counts, ⟨done.replicationLog, none, error⟩) := uninterrupted_loop hloop
  have hsetI : setCheckpoint
      (BoxedReceiver.interrupt state (.checkpoint moved) error).checkpointStore
      m.sourceNodeId.asStr m.sequenceEnd m.eventsHash = (.error (.replicationFailed error),
        ⟨if moved then done.checkpointStore else state.checkpointStore, some moved, error⟩) := by
    show InterruptedCheckpoints.set _ _ _ _ = _
    cases moved with
    | true => simp only [BoxedReceiver.interrupt, InterruptedCheckpoints.set, hset, if_pos]
    | false =>
      simp only [BoxedReceiver.interrupt, InterruptedCheckpoints.set, hset]
      rfl
  simp only [applySyncMessage, hcheckI, commitSyncMessage, appendEventsToLog, hloopI, hsetI] at hfail
  cases hfail
  cases moved with
  | false =>
    refine iff_of_true ?_ fun hspoils => Bool.false_ne_true hspoils.1
    obtain ⟨counts', hagain⟩ := hagainLoop 0 0
    have hcheck' : checkSyncMessage (⟨done.replicationLog, state.checkpointStore,
        state.processedBatches⟩ : BoxedReceiver) m = .ok (.inr last) :=
      (checkSyncMessage_congr rfl (fun _ => rfl) m).trans hcheck
    exact converges_of_loop hcheck' hagain hset rfl rfl
  | true =>
    obtain ⟨hread, hunreadable⟩ := getLastSequence_moved hset
    have hvalid := validateMessage_of_check hcheck
    by_cases houtgrown : state.checkpointStore.Outgrown m.sourceNodeId.asStr
        (m.sequenceEnd, m.eventsHash)
    · refine iff_of_false ?_ (not_not_intro ⟨rfl, houtgrown⟩)
      obtain ⟨e, he⟩ := hunreadable houtgrown
      intro hconverges
      obtain ⟨ack, final, happly, -⟩ := hconverges
      have hcheck' : checkSyncMessage (⟨done.replicationLog, done.checkpointStore,
          state.processedBatches⟩ : BoxedReceiver) m = .error e := by
        simp only [checkSyncMessage, hvalid, he]
      have happly : applySyncMessage (⟨done.replicationLog, done.checkpointStore,
          state.processedBatches⟩ : BoxedReceiver) m = (.ok ack, final) := happly
      simp only [applySyncMessage, hcheck'] at happly
      cases happly
    · refine iff_of_true ?_ fun hspoils => houtgrown hspoils.2
      have hcheck' : checkSyncMessage (⟨done.replicationLog, done.checkpointStore,
          state.processedBatches⟩ : BoxedReceiver) m =
            .ok (.inl ⟨true, 0, m.events.length, m.sequenceEnd⟩) := by
        simp only [checkSyncMessage, hvalid, hread houtgrown]
        exact if_pos UInt64.le_rfl
      refine ⟨⟨true, 0, m.events.length, m.sequenceEnd⟩, ⟨done.replicationLog,
        done.checkpointStore, state.processedBatches⟩, ?_, rfl, rfl, rfl⟩
      show applySyncMessage (⟨done.replicationLog, done.checkpointStore,
        state.processedBatches⟩ : BoxedReceiver) m = _
      simp only [applySyncMessage, hcheck']

/-- **Applying an interrupted batch again** converges to what one uninterrupted application reaches,
exactly when the interruption has not spoilt a file. -/
theorem retry_converges_iff [Sha256] {state : BoxedReceiver} {m : SyncMessage}
    {ack : SyncReceiveAck} {done : BoxedReceiver} (hreached : state.replicationLog.Reached)
    (hok : applySyncMessage state m = (.ok ack, done)) {interruption : Interruption}
    {error : String} {e : SyncError}
    {stopped : SyncReceiverState InterruptedLog InterruptedCheckpoints}
    (hfail : applySyncMessage (BoxedReceiver.interrupt state interruption error) m =
      (.error e, stopped)) :
    Converges (BoxedReceiver.resume stopped) m done ↔ ¬ Spoils state m interruption := by
  have hsame : checkSyncMessage (BoxedReceiver.interrupt state interruption error) m =
      checkSyncMessage state m := by
    cases interruption with
    | append before fault => exact checkSyncMessage_congr rfl (fun _ => rfl) m
    | checkpoint moved => exact checkSyncMessage_congr rfl (fun _ => rfl) m
  cases hcheck : checkSyncMessage state m with
  | error e =>
    simp only [applySyncMessage, hcheck] at hok
    cases hok
  | ok passed =>
    cases passed with
    | inl covered =>
      simp only [applySyncMessage, hsame, hcheck] at hfail
      cases hfail
    | inr last =>
      have hcommit : commitSyncMessage state m last = (.ok ack, done) := by
        rw [← hok]
        simp only [applySyncMessage, hcheck]
      obtain ⟨counts, hloop, hset⟩ := commitSyncMessage_ok hcommit
      cases interruption with
      | append before fault =>
        exact retry_append hreached.inStep hcheck hloop hset hfail
      | checkpoint moved =>
        exact retry_checkpoint hreached.inStep hcheck hloop hset hfail

/-- A receiver over a file-backed log with the given file, and no checkpoints. -/
def receiverOn (file : List Char) : BoxedReceiver :=
  ⟨.file ⟨utf8 file, [], ∅⟩, .memory .new, ⟨∅, []⟩⟩

theorem reached_receiverOn [Sha256] {file : List Char}
    (h : FileReplicationLog.reload ⟨utf8 file, [], ∅⟩ = (.ok (), ⟨utf8 file, [], ∅⟩)) :
    (receiverOn file).replicationLog.Reached := by
  have hnew : FileReplicationLog.new "sync/replication.log" (some (utf8 file)) =
      .ok ⟨utf8 file, [], ∅⟩ := by
    have hpath : FileReplicationLog.validRelativePath "sync/replication.log" = true := by
      decide
    simp only [FileReplicationLog.new, hpath, Option.getD_some, h]
    rfl
  exact .file (.opened hnew)

theorem eq_of_fst {α β : Type} {p : α × β} {a : α} (h : p.1 = a) : p = (a, p.2) := by
  rw [← h]

/-- A batch of two events, the second of which is cut short after five bytes. -/
theorem retry_converges_two :
    letI := Sha256.fips
    let m := SyncMessage.new "batch-1" ⟨"leader-a"⟩ 1 2 0 none [[1], [2]]
    let state := receiverOn markerLine
    let stopped := (applySyncMessage
      (BoxedReceiver.interrupt state (.append 1 (.written 5)) "no space left") m).2
    Converges (BoxedReceiver.resume stopped) m (applySyncMessage state m).2 := by
  let sha := Sha256.fips
  intro m state stopped
  have hmarker : FileReplicationLog.reload ⟨utf8 markerLine, [], ∅⟩ =
      (.ok (), ⟨utf8 markerLine, [], ∅⟩) := by
    have hencoded : utf8 markerLine = encodeLog [] := by simp [encodeLog, logText]
    rw [FileReplicationLog.reload_canonical validRecords_nil hencoded encodeLog_nil_le, hencoded]
    rfl
  have hok : applySyncMessage state m = (.ok ⟨true, 2, 0, 2⟩, (applySyncMessage state m).2) :=
    eq_of_fst (by decide +kernel)
  have hfail : applySyncMessage
      (BoxedReceiver.interrupt state (.append 1 (.written 5)) "no space left") m =
        (.error (.replicationFailed "no space left"), stopped) := eq_of_fst (by decide +kernel)
  exact (retry_converges_iff (reached_receiverOn hmarker) hok hfail).2
    fun hspoils => absurd hspoils.1 (by decide)

/-- One byte of the line behind a bare marker, and the batch is never accepted again. -/
theorem retry_fails_on_bare_marker :
    ¬ ∀ (_ : Sha256) (state : BoxedReceiver) (m : SyncMessage) (ack : SyncReceiveAck)
      (done : BoxedReceiver) (interruption : Interruption) (error : String) (e : SyncError)
      (stopped : SyncReceiverState InterruptedLog InterruptedCheckpoints),
      state.replicationLog.Reached → applySyncMessage state m = (.ok ack, done) →
      applySyncMessage (BoxedReceiver.interrupt state interruption error) m = (.error e, stopped) →
      Converges (BoxedReceiver.resume stopped) m done := by
  intro h
  let sha := Sha256.fips
  let m := SyncMessage.new "batch-1" ⟨"leader-a"⟩ 1 1 0 none [[1]]
  let state := receiverOn replicationLogFormatV1.toList
  let stopped := (applySyncMessage
    (BoxedReceiver.interrupt state (.append 0 (.written 1)) "no space left") m).2
  have hok : applySyncMessage state m = (.ok ⟨true, 1, 0, 1⟩, (applySyncMessage state m).2) :=
    eq_of_fst (by decide +kernel)
  have hfail : applySyncMessage
      (BoxedReceiver.interrupt state (.append 0 (.written 1)) "no space left") m =
        (.error (.replicationFailed "no space left"), stopped) := eq_of_fst (by decide +kernel)
  have hbare : (FileReplicationLog.mk (utf8 replicationLogFormatV1.toList) [] ∅).reload =
      (.ok (), ⟨utf8 replicationLogFormatV1.toList, [], ∅⟩) := FileReplicationLog.reload_bare rfl
  obtain ⟨ack, after, hagain, -⟩ :=
    h sha state m _ _ _ _ _ _ (reached_receiverOn hbare) hok hfail
  have hrefused : (applySyncMessage (BoxedReceiver.resume stopped) m).1 =
      .error (.replicationFailed updateRequiredMessage) := by decide +kernel
  rw [hagain] at hrefused
  cases hrefused

end AppCore.Sync
