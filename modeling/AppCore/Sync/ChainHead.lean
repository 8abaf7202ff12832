import AppCore.Base.Delimited
import AppCore.Base.Lines
import AppCore.Sync.LoadedLog
import AppCore.Sync.Snapshot

/-!
# What the head of a chain commits to

The hash of a record is over the hash before it, its sequence and its payload, each behind its
length. As long as no two of the byte strings that were hashed have the same digest, the hash of a
record therefore determines the whole history up to it.

* `chain_head_commits` — lists with one head are the same, and a file in which a line still has the
  hash of a record, but not the history of that record in front of it, is not accepted.
-/

namespace AppCore.Sync

/-! ## What is hashed -/

/-- The bytes `replication_record_hash` feeds to the digest. -/
def recordHashInput (previousHash : String) (sequence : UInt64) (payload : Bytes) : Bytes :=
  strBytes replicationLogFormatV1 ++ lenBytes64 (strBytes previousHash).length ++
    strBytes previousHash ++ toBeBytes64 sequence ++ lenBytes64 payload.length ++ payload

/-- The byte strings that were hashed for the records. -/
def hashedInputs (records : List ReplicationRecord) : Set Bytes :=
  {input | ∃ r ∈ records, recordHashInput r.previousHash r.sequence r.payload = input}

variable {as bs : List ReplicationRecord}

theorem hashedInputs_mono (h : as ⊆ bs) :
    hashedInputs as ⊆ hashedInputs bs := by
  intro input hinput
  obtain ⟨r, hr, rfl⟩ := hinput
  exact ⟨r, h hr, rfl⟩

/-- No two of the byte strings that were hashed for the two lists have the same digest. -/
def NoCollision [Sha256] (as bs : List ReplicationRecord) : Prop :=
  Set.InjOn digest (hashedInputs as ∪ hashedInputs bs)

theorem NoCollision.mono [Sha256] {as bs as' bs' : List ReplicationRecord} (h : NoCollision as bs)
    (has : as' ⊆ as) (hbs : bs' ⊆ bs) : NoCollision as' bs' :=
  Set.InjOn.mono (Set.union_subset_union (hashedInputs_mono has) (hashedInputs_mono hbs)) h

/-- A length that is written in eight bytes. -/
def FitsLength (bytes : Bytes) : Prop := bytes.length < 256 ^ 8

theorem delimited_lenBytes64 :
    Delimited FitsLength fun bytes => lenBytes64 bytes.length ++ bytes := delimited_lengthed 8

theorem recordHashInput_injective {previousHash previousHash' : String}
    {sequence sequence' : UInt64} {payload payload' : Bytes}
    (hprevious : FitsLength (strBytes previousHash)) (hprevious' : FitsLength (strBytes previousHash'))
    (hpayload : FitsLength payload) (hpayload' : FitsLength payload')
    (h : recordHashInput previousHash sequence payload =
      recordHashInput previousHash' sequence' payload') :
    previousHash = previousHash' ∧ sequence = sequence' ∧ payload = payload' := by
  simp only [recordHashInput, List.append_assoc] at h
  have hfields := List.append_cancel_left h
  rw [← List.append_assoc, ← List.append_assoc (lenBytes64 (strBytes previousHash').length)]
    at hfields
  obtain ⟨hprev, hrest⟩ := delimited_lenBytes64 hprevious hprevious' _ _ hfields
  obtain ⟨hsequence, hlast⟩ := delimited_toBeBytes64 trivial trivial _ _ hrest
  exact ⟨strBytes_injective hprev, hsequence,
    delimited_lenBytes64.injective hpayload hpayload' hlast⟩

theorem hexDigest_injective [Sha256] {a b : Bytes} (h : hexDigest a = hexDigest b) :
    digest a = digest b := by
  exact Vector.toList_inj.1 (lowerHex_injective (String.ofList_injective h))

/-! ## One link -/

variable {records : List ReplicationRecord}

theorem chainHead_cases [Sha256] (hv : ValidRecords records) :
    records = [] ∨ ∃ input, chainHead "" records = hexDigest input := by
  cases records using List.reverseRecOn with
  | nil => exact .inl rfl
  | append_singleton done r =>
    obtain ⟨-, hr⟩ := hv.next
    right
    refine ⟨recordHashInput (chainHead "" done) r.sequence r.payload, ?_⟩
    have hhead : chainHead "" (done ++ [r]) = r.recordHash := by simp [chainHead]
    rw [hhead, hr]
    rfl

theorem fitsLength_chainHead [Sha256] (hv : ValidRecords records) :
    FitsLength (strBytes (chainHead "" records)) := by
  have hbound := (length_utf8 (chainHead "" records).toList).2
  have hlength : (chainHead "" records).toList.length ≤ 64 := by
    obtain rfl | ⟨input, hinput⟩ := chainHead_cases hv
    · exact Nat.zero_le 64
    · rw [hinput, length_hexDigest]
  have hbytes : (strBytes (chainHead "" records)).length ≤ 256 := by
    rw [strBytes]
    omega
  exact lt_of_le_of_lt hbytes (by decide)

variable {r : ReplicationRecord}

theorem fitsLength_payload [Sha256] (hv : ValidRecords records) (hr : r ∈ records) :
    FitsLength r.payload :=
  lt_of_le_of_lt (hv.sizes r hr) (by decide)

theorem input_mem_hashedInputs [Sha256] {done : List ReplicationRecord}
    (hv : ValidRecords (done ++ [r])) :
    r.recordHash = hexDigest (recordHashInput (chainHead "" done) r.sequence r.payload) ∧
      recordHashInput (chainHead "" done) r.sequence r.payload ∈ hashedInputs (done ++ [r]) := by
  obtain ⟨-, hr⟩ := hv.next
  have hprevious : r.previousHash = chainHead "" done := by
    rw [hr]
    rfl
  have hhash : r.recordHash = replicationRecordHash (chainHead "" done) r.sequence r.payload := by
    rw [hr]
    rfl
  refine ⟨hhash, r, List.mem_append_right _ List.mem_cons_self, ?_⟩
  rw [hprevious]

/-- **One link**: the hash of a record determines the hash before it, its sequence and its
payload. -/
theorem link_of_recordHash [Sha256] {a b : ReplicationRecord} (has : ValidRecords (as ++ [a]))
    (hbs : ValidRecords (bs ++ [b])) (hcollision : NoCollision (as ++ [a]) (bs ++ [b]))
    (h : a.recordHash = b.recordHash) :
    chainHead "" as = chainHead "" bs ∧ a.sequence = b.sequence ∧ a.payload = b.payload := by
  obtain ⟨hahash, hamem⟩ := input_mem_hashedInputs has
  obtain ⟨hbhash, hbmem⟩ := input_mem_hashedInputs hbs
  have hdigest : hexDigest (recordHashInput (chainHead "" as) a.sequence a.payload) =
      hexDigest (recordHashInput (chainHead "" bs) b.sequence b.payload) := by
    rw [← hahash, h, hbhash]
  have hinput := hcollision (.inl hamem) (.inr hbmem) (hexDigest_injective hdigest)
  exact recordHashInput_injective (fitsLength_chainHead has.next.1) (fitsLength_chainHead hbs.next.1)
    (fitsLength_payload has (List.mem_append_right _ List.mem_cons_self))
    (fitsLength_payload hbs (List.mem_append_right _ List.mem_cons_self)) hinput

/-! ## The whole history -/

theorem eq_nil_of_chainHead [Sha256] (hv : ValidRecords records) (h : chainHead "" records = "") :
    records = [] := by
  obtain hnil | ⟨input, hinput⟩ := chainHead_cases hv
  · exact hnil
  · have hlength := length_hexDigest input
    rw [← hinput, h] at hlength
    cases hlength

theorem chainHead_snoc (records : List ReplicationRecord) (r : ReplicationRecord) :
    chainHead "" (records ++ [r]) = r.recordHash := by
  simp [chainHead]

theorem entriesOf_snoc (records : List ReplicationRecord) (r : ReplicationRecord) :
    entriesOf (records ++ [r]) = entriesOf records ++ [⟨r.sequence, r.payload⟩] := by
  simp [entriesOf]

theorem entries_of_chainHead [Sha256] (has : ValidRecords as) (hbs : ValidRecords bs)
    (hcollision : NoCollision as bs) (h : chainHead "" as = chainHead "" bs) :
    entriesOf as = entriesOf bs := by
  -- from the ends to the front: one link at a time, until both lists are empty
  induction as using List.reverseRecOn generalizing bs with
  | nil => rw [eq_nil_of_chainHead hbs h.symm]
  | append_singleton as a ih =>
    cases bs using List.reverseRecOn with
    | nil => rw [eq_nil_of_chainHead has h]
    | append_singleton bs b =>
      rw [chainHead_snoc, chainHead_snoc] at h
      obtain ⟨hhead, hsequence, hpayload⟩ := link_of_recordHash has hbs hcollision h
      have hfront := ih has.next.1 hbs.next.1
        (hcollision.mono (List.subset_append_left _ _) (List.subset_append_left _ _)) hhead
      rw [entriesOf_snoc, entriesOf_snoc, hfront, hsequence, hpayload]

theorem validRecords_take [Sha256] (hv : ValidRecords records) (n : Nat) :
    ValidRecords (records.take n) := by
  by_cases hn : n < records.length
  · have hsplit : records = records.take n ++ records[n] :: records.drop (n + 1) := by
      rw [← List.drop_eq_getElem_cons hn, List.take_append_drop]
    rw [hsplit] at hv
    exact hv.next.1
  · rw [List.take_of_length_le (Nat.not_lt.1 hn)]
    exact hv

theorem chainHead_take {n : Nat} (h : records[n]? = some r) :
    chainHead "" (records.take (n + 1)) = r.recordHash := by
  rw [List.take_add_one, h, Option.toList_some, chainHead_snoc]

/-- Records with one hash stand at the end of one history. -/
theorem entries_of_recordHash [Sha256] (has : ValidRecords as) (hbs : ValidRecords bs)
    (hcollision : NoCollision as bs) {i j : Nat} {a b : ReplicationRecord} (ha : as[i]? = some a)
    (hb : bs[j]? = some b) (h : a.recordHash = b.recordHash) :
    (entriesOf as).take (i + 1) = (entriesOf bs).take (j + 1) := by
  have hentries := entries_of_chainHead (validRecords_take has (i + 1))
    (validRecords_take hbs (j + 1))
    (hcollision.mono (List.take_subset _ _) (List.take_subset _ _))
    (by rw [chainHead_take ha, chainHead_take hb, h])
  rwa [entriesOf, List.map_take, entriesOf, List.map_take] at hentries

/-! ## Where records come from -/

namespace FileReplicationLog

variable {log : FileReplicationLog}

theorem validRecords_reload [Sha256] (hv : ValidRecords log.events) :
    ValidRecords log.reload.2.events := by
  cases h : log.reload with
  | mk result after =>
    cases result with
    | error e =>
      rw [reload_error h]
      exact hv
    | ok _ => exact validRecords_of_reload h

theorem validRecords_append [Sha256] (hv : ValidRecords log.events) (record : Bytes)
    (sequence : UInt64) :
    ValidRecords (log.appendWithSequence record sequence).2.events := by
  obtain ⟨e, -, h⟩ | ⟨loaded, hload, ⟨e, h⟩ | ⟨existing, -, -, -, h⟩ | ⟨happendable, h⟩⟩ :=
    append_cases log record sequence
  · rw [h]
    exact hv
  · rw [h]
    exact validRecords_of_reload hload
  · rw [h]
    exact validRecords_of_reload hload
  · rw [h]
    exact (validRecords_of_reload hload).snoc happendable.size (happendable.unused hload)

theorem validRecords_restore [Sha256] (hv : ValidRecords log.events)
    (snapshot : ReplicationSnapshot) : ValidRecords (log.restoreSnapshot snapshot).2.events := by
  unfold restoreSnapshot
  split
  · exact hv
  next records hrecords =>
    split
    · exact hv
    · exact validRecords_of_validateSnapshot hrecords

theorem validRecords_new [Sha256] {relative : String} {disk : Option Bytes}
    (h : new relative disk = .ok log) : ValidRecords log.events := by
  unfold new at h
  split at h
  · cases h
  · dsimp only at h
    split at h
    · cases h
    next hreload =>
      cases h
      exact validRecords_of_reload hreload

theorem validRecords_apply [Sha256] (hv : ValidRecords log.events) (relative : String) (op : LogOp) :
    ValidRecords (log.apply relative op).2.events := by
  cases op with
  | append record => exact validRecords_append hv record 0
  | appendWithSequence record sequence => exact validRecords_append hv record sequence
  | restoreSnapshot snapshot => exact validRecords_restore hv snapshot
  | reload => exact validRecords_reload hv
  | reopen =>
    rw [apply]
    split
    · exact hv
    next hnew => exact validRecords_new hnew

theorem validRecords_run [Sha256] (hv : ValidRecords log.events) (relative : String)
    (ops : List LogOp) : ValidRecords (log.run relative ops).2.events := by
  induction ops generalizing log with
  | nil => exact hv
  | cons op ops ih => exact ih (validRecords_apply hv relative op)

end FileReplicationLog

/-- The records of a log: they were accepted from a file, or operations on a log have led to
them. -/
inductive Recorded [Sha256] : List ReplicationRecord → Prop
  | parsed {body : List Char} {records : List ReplicationRecord} {recoveredTail : Bool}
      (h : parseReplicationRecords body = .ok (records, recoveredTail)) : Recorded records
  | memory (ops : List LogOp) : Recorded (InMemoryReplicationLog.new.run ops).2.events
  | file {relative : String} {disk : Option Bytes} {log : FileReplicationLog}
      (h : FileReplicationLog.new relative disk = .ok log) (ops : List LogOp) :
      Recorded (log.run relative ops).2.events

theorem Recorded.valid [Sha256] (h : Recorded records) :
    ValidRecords records := by
  cases h with
  | parsed hparse => exact validRecords_of_parse hparse
  | memory ops =>
    exact (InMemoryReplicationLog.valid_run InMemoryReplicationLog.valid_new ops).records
  | file hnew ops =>
    exact FileReplicationLog.validRecords_run (FileReplicationLog.validRecords_new hnew) _ ops

/-! ## What a file says -/

/-- The lines of a file that are read as records. -/
def recordLinesOf (body : List Char) : List (List Char) :=
  (lines (completeRecordPrefix body).1).filter fun line => !isBlank line

/-- The sequence and the payload a line gives. -/
def lineEntry (line : List Char) : Option ReplicationSnapshotRecord :=
  match line.splitOn '\t' with
  | [sequenceField, payloadField, _, _] =>
    match parseU64 sequenceField, hexToBytes payloadField with
    | some sequence, .ok payload => some ⟨sequence, payload⟩
    | _, _ => none
  | _ => none

/-- The hash a line carries. -/
def lineHash (line : List Char) : Option String :=
  match line.splitOn '\t' with
  | [_, _, _, hashField] => some (String.ofList hashField)
  | _ => none

theorem lineEntry_of_parseRecord [Sha256] {lineNumber : Nat} {done : List ReplicationRecord}
    {line : List Char}
    (h : parseRecord lineNumber done (sequenceIndices done) (chainHead "" done) line = .ok r) :
    lineEntry line = some ⟨r.sequence, r.payload⟩ ∧ lineHash line = some r.recordHash := by
  obtain ⟨-, -, -, sequenceField, payloadField, hfields, hsequence, hpayload⟩ :=
    parseRecord_ok h
  constructor
  · rw [lineEntry, hfields]
    dsimp only
    rw [hsequence, hpayload]
  · rw [lineHash, hfields]
    dsimp only
    rw [String.ofList_toList]

/-- The lines of an accepted file say what its records hold, one by one. -/
theorem lines_of_parseRecordsFrom [Sha256] {lineNumber : Nat}
    {done records : List ReplicationRecord} {ls : List (List Char)} (hv : ValidRecords done)
    (h : parseRecordsFrom lineNumber done (sequenceIndices done) (chainHead "" done) ls =
      .ok records) :
    ∃ new, records = done ++ new ∧
      (ls.filter fun line => !isBlank line).map lineEntry = (entriesOf new).map some ∧
      (ls.filter fun line => !isBlank line).map lineHash = new.map fun r => some r.recordHash := by
  induction ls generalizing lineNumber done with
  | nil =>
    cases h
    exact ⟨[], (List.append_nil _).symm, rfl, rfl⟩
  | cons line ls ih =>
    rw [parseRecordsFrom] at h
    by_cases hblank : isBlank line = true
    · rw [if_pos hblank] at h
      obtain ⟨new, hnew⟩ := ih hv h
      refine ⟨new, ?_⟩
      rw [List.filter_cons_of_neg (by simp [hblank])]
      exact hnew
    · rw [if_neg hblank] at h
      cases hparse : parseRecord lineNumber done (sequenceIndices done) (chainHead "" done) line with
      | error e =>
        rw [hparse] at h
        cases h
      | ok r =>
        rw [hparse] at h
        dsimp only at h
        obtain ⟨hnext, hindices, hhead⟩ := parsed_snoc hv hparse
        rw [hindices, hhead] at h
        obtain ⟨new, hrecords, hentries, hhashes⟩ := ih hnext h
        obtain ⟨hentry, hhash⟩ := lineEntry_of_parseRecord hparse
        refine ⟨r :: new, by rw [hrecords, List.append_assoc, List.singleton_append], ?_, ?_⟩
        · rw [List.filter_cons_of_pos (by simp [hblank]), List.map_cons, hentry, hentries]
          rfl
        · rw [List.filter_cons_of_pos (by simp [hblank]), List.map_cons, hhash, hhashes]
          rfl

theorem lines_of_parse [Sha256] {body : List Char} {recoveredTail : Bool}
    (h : parseReplicationRecords body = .ok (records, recoveredTail)) :
    (recordLinesOf body).map lineEntry = (entriesOf records).map some ∧
      (recordLinesOf body).map lineHash = records.map fun r => some r.recordHash := by
  obtain ⟨complete, hcomplete, hparse⟩ := parseReplicationRecords_ok h
  obtain ⟨new, hrecords, hlines⟩ := lines_of_parseRecordsFrom validRecords_nil hparse
  rw [List.nil_append] at hrecords
  rw [recordLinesOf, hcomplete, hrecords]
  exact hlines

/-- A line of the file still has the hash of a record of the log, and the lines up to it no longer
tell the history of that record: something in front of the hash was changed, inserted, deleted or
moved, and the hash was not computed again. -/
def Tampered (records : List ReplicationRecord) (body : List Char) : Prop :=
  ∃ i j line r, (recordLinesOf body)[i]? = some line ∧ records[j]? = some r ∧
    lineHash line = some r.recordHash ∧
    ((recordLinesOf body).take (i + 1)).map lineEntry ≠
      ((entriesOf records).take (j + 1)).map some

theorem not_parsed_of_tampered [Sha256] {records found : List ReplicationRecord}
    {body : List Char} (hv : ValidRecords records) (htampered : Tampered records body)
    (hcollision : NoCollision records found) (recoveredTail : Bool) :
    parseReplicationRecords body ≠ .ok (found, recoveredTail) := by
  intro hparse
  obtain ⟨i, j, line, r, hline, hr, hhash, hhistory⟩ := htampered
  obtain ⟨hentries, hhashes⟩ := lines_of_parse hparse
  have hfound : (found.map fun q => some q.recordHash)[i]? = some (some r.recordHash) := by
    rw [← hhashes, List.getElem?_map, hline, Option.map_some, hhash]
  rw [List.getElem?_map] at hfound
  obtain ⟨q, hq, hsame⟩ := Option.map_eq_some_iff.1 hfound
  refine hhistory ?_
  rw [List.map_take, hentries, ← List.map_take, entries_of_recordHash hv (validRecords_of_parse hparse)
    hcollision hr hq (Option.some.inj hsame).symm]

/-- **The head of a chain commits to the whole history.** Of the records of two logs, if no two of
the byte strings that were hashed for them have one digest, equal last hashes mean equal sequences
and payloads at every position; and no file in which a line still has the hash of a record, but
another history in front of it, is accepted. -/
theorem chain_head_commits [Sha256] {records : List ReplicationRecord} (h : Recorded records) :
    (∀ others, Recorded others → NoCollision records others →
      ∀ last last', records.getLast? = some last → others.getLast? = some last' →
      last.recordHash = last'.recordHash →
      records.length = others.length ∧ ∀ i : Nat,
        (records[i]?.map fun r => (r.sequence, r.payload)) =
          (others[i]?.map fun r => (r.sequence, r.payload))) ∧
    ∀ body, Tampered records body → ∀ found recoveredTail, NoCollision records found →
      parseReplicationRecords body ≠ .ok (found, recoveredTail) := by
  constructor
  · intro others hothers hcollision last last' hlast hlast' hhash
    have hheads : chainHead "" records = chainHead "" others := by
      rw [chainHead, chainHead, hlast, hlast', Option.map_some, Option.map_some, hhash]
    have hentries := entries_of_chainHead h.valid hothers.valid hcollision hheads
    have hlength := congrArg List.length hentries
    simp only [entriesOf, List.length_map] at hlength
    refine ⟨hlength, fun i => ?_⟩
    have hentry := congrArg (fun entries => entries[i]?.map fun e => (e.sequence, e.payload)) hentries
    simp only [entriesOf, List.getElem?_map, Option.map_map] at hentry
    exact hentry
  · intro body htampered found recoveredTail hcollision
    exact not_parsed_of_tampered h.valid htampered hcollision recoveredTail

instance [Sha256] (as bs : List ReplicationRecord) : Decidable (NoCollision as bs) :=
  decidable_of_iff (∀ q ∈ as ++ bs, ∀ r ∈ as ++ bs,
    digest (recordHashInput q.previousHash q.sequence q.payload) =
        digest (recordHashInput r.previousHash r.sequence r.payload) →
      recordHashInput q.previousHash q.sequence q.payload =
        recordHashInput r.previousHash r.sequence r.payload) <| by
    have hmem (input : Bytes) : input ∈ hashedInputs as ∪ hashedInputs bs ↔
        ∃ r ∈ as ++ bs, recordHashInput r.previousHash r.sequence r.payload = input := by
      simp only [hashedInputs, Set.mem_union, Set.mem_ofPred_eq, List.mem_append, or_and_right,
        exists_or]
    constructor
    · intro h a ha b hb
      obtain ⟨q, hq, rfl⟩ := (hmem a).1 ha
      obtain ⟨r, hr, rfl⟩ := (hmem b).1 hb
      exact h q hq r hr
    · intro h q hq r hr
      exact h ((hmem _).2 ⟨q, hq, rfl⟩) ((hmem _).2 ⟨r, hr, rfl⟩)

/-- A log of one record, the file it was written to, and a file with another payload under the same
hash. -/
theorem chain_head_commits_one :
    letI := Sha256.fips
    let records := (InMemoryReplicationLog.new.run [.appendWithSequence [1] 7]).2.events
    let written := [nextRecord [] [1] 7]
    (∀ i : Nat, (records[i]?.map fun r => (r.sequence, r.payload)) =
        (written[i]?.map fun r => (r.sequence, r.payload))) ∧
      parseReplicationRecords (recordLine 7 [2] "" (replicationRecordHash "" 7 [1])) ≠
        .ok (records, false) := by
  let sha := Sha256.fips
  intro records written
  have hempty : parseReplicationRecords [] = .ok ([], false) := rfl
  have hwritten : Recorded written :=
    .parsed (parseReplicationRecords_next hempty (by decide) fun _ _ hr => absurd hr (by simp))
  obtain ⟨hsame, htampered⟩ := chain_head_commits (.memory [.appendWithSequence [1] 7])
  refine ⟨(hsame written hwritten (by decide +kernel) _ _ rfl rfl (by decide +kernel)).2,
    htampered _ ⟨0, 0, recordFields 7 [2] "" (replicationRecordHash "" 7 [1]), nextRecord [] [1] 7,
      ?_⟩ records false (by decide +kernel)⟩
  decide +kernel

end AppCore.Sync
