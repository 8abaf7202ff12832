import AppCore.Base.Maps
import AppCore.Sync.Checkpoint
import AppCore.Sync.Snapshot

/-!
# The file-backed checkpoint store

`FileSyncCheckpointStore` of `checkpoint.rs`: every call reads the whole file, a marker line and
one line `peer=sequence,hash` a peer, and a change writes it again. Reading has a size limit,
writing has none.

* `checkpointFile_refines_iff` — after any calls that all succeeded, the file answers as the
  process-local store does exactly when it is within the limit of the reader.
-/

namespace AppCore.Sync

def syncCheckpointFormatV1 : String := "# appcore-sync-checkpoint-v1"

def maxCheckpointFileBytes : Nat := 8 * 1024 * 1024

/-! ## The file -/

/-- One line of `parse_checkpoint_map`. -/
def parseCheckpointLine (line : List Char) : SyncResult (String × Checkpoint) :=
  match splitOnce '=' line with
  | none => .error (.replicationFailed "invalid checkpoint line")
  | some (peerId, rest) =>
    match validatePeerId (String.ofList peerId) with
    | .error e => .error e
    | .ok () =>
      let (sequenceText, hash) := (splitOnce ',' rest).getD (rest, [])
      match parseU64 sequenceText with
      | none => .error (.replicationFailed "invalid checkpoint sequence")
      | some sequence =>
        match validateCheckpointHash (String.ofList hash) with
        | .error e => .error e
        | .ok () => .ok (String.ofList peerId, sequence, String.ofList hash)

/-- The loop of `parse_checkpoint_map`. -/
def parseCheckpointLines (map : CheckpointMap) : List (List Char) → SyncResult CheckpointMap
  | [] => .ok map
  | line :: rest =>
    match parseCheckpointLine line with
    | .error e => .error e
    | .ok (peerId, checkpoint) => parseCheckpointLines (map.insert peerId checkpoint) rest

def parseCheckpointMap (text : List Char) : SyncResult CheckpointMap :=
  parseCheckpointLines ∅ ((lines text).filter fun line => !isBlank line)

/-- The line of one peer, without its end. -/
def checkpointLine (entry : String × Checkpoint) : List Char :=
  entry.1.toList ++ '=' :: (decimal entry.2.1.toNat ++ ',' :: entry.2.2.toList)

/-- The text `write_map` writes. -/
def checkpointText (map : CheckpointMap) : List Char :=
  syncCheckpointFormatV1.toList ++
    '\n' :: map.toList.flatMap fun entry => checkpointLine entry ++ ['\n']

/-- `FileSyncCheckpointStore`, with the bytes of its file. Locking and replacing the file is taken
to succeed. -/
structure FileSyncCheckpointStore where
  file : Bytes

namespace FileSyncCheckpointStore

def readState (store : FileSyncCheckpointStore) : SyncResult CheckpointMap :=
  match readBoundedText store.file maxCheckpointFileBytes with
  | .error e => .error e
  | .ok text =>
    match splitFormat text syncCheckpointFormatV1 with
    | .error e => .error e
    | .ok body => parseCheckpointMap body

def writeMap (map : CheckpointMap) : FileSyncCheckpointStore := ⟨utf8 (checkpointText map)⟩

/-- `FileSyncCheckpointStore::new` over what the disk holds at the path. -/
def new (disk : Option Bytes) : SyncResult FileSyncCheckpointStore :=
  let store : FileSyncCheckpointStore :=
    ⟨disk.getD (utf8 (syncCheckpointFormatV1.toList ++ ['\n']))⟩
  match store.readState with
  | .error e => .error e
  | .ok _ => .ok store

instance : SyncCheckpointStore FileSyncCheckpointStore where
  getCheckpoint store peerId :=
    match validatePeerId peerId with
    | .error e => .error e
    | .ok () =>
      match store.readState with
      | .error e => .error e
      | .ok map => .ok map[peerId]?
  setCheckpoint store peerId sequence hash :=
    match validatePeerId peerId with
    | .error e => (.error e, store)
    | .ok () =>
      match validateCheckpointHash hash with
      | .error e => (.error e, store)
      | .ok () =>
        match store.readState with
        | .error e => (.error e, store)
        | .ok map => (.ok (), writeMap (map.insert peerId (sequence, hash)))

end FileSyncCheckpointStore

/-! ## Runs -/

/-- The arguments of a `set_checkpoint` call. -/
structure CheckpointCall where
  peerId : String
  sequence : UInt64
  hash : String

/-- The calls in order, with their results. -/
def setCheckpoints {C : Type} [SyncCheckpointStore C] (store : C) :
    List CheckpointCall → List (SyncResult Unit) × C
  | [] => ([], store)
  | call :: calls =>
    let (result, store) := setCheckpoint store call.peerId call.sequence call.hash
    (setCheckpoints store calls).map (result :: ·) id

def lastSet (calls : List CheckpointCall) (peerId : String) : Option Checkpoint :=
  (calls.reverse.find? fun call => call.peerId = peerId).map fun call => (call.sequence, call.hash)

/-- The map the calls describe: the last checkpoint of each peer that was set. -/
def checkpointsOf (calls : List CheckpointCall) : CheckpointMap :=
  insertAll ∅ (calls.map fun call => (call.peerId, call.sequence, call.hash))

theorem checkpointsOf_snoc (calls : List CheckpointCall) (call : CheckpointCall) :
    checkpointsOf (calls ++ [call]) =
      (checkpointsOf calls).insert call.peerId (call.sequence, call.hash) := by
  simp [checkpointsOf, insertAll]

theorem getElem?_checkpointsOf (calls : List CheckpointCall) (peerId : String) :
    (checkpointsOf calls)[peerId]? = lastSet calls peerId := by
  induction calls using List.reverseRecOn with
  | nil => simp [checkpointsOf, insertAll, lastSet]
  | append_singleton calls call ih =>
    rw [checkpointsOf_snoc, Std.ExtTreeMap.getElem?_insert]
    by_cases h : call.peerId = peerId
    · simp [lastSet, h]
    · simp only [Std.LawfulEqCmp.compare_eq_iff_eq, if_neg h, ih]
      simp [lastSet, h]

/-! ## Reading what was written -/

/-- A map whose peers and hashes are valid ones. -/
def ValidCheckpoints (map : CheckpointMap) : Prop :=
  ∀ peerId checkpoint, map[peerId]? = some checkpoint →
    validatePeerId peerId = .ok () ∧ validateCheckpointHash checkpoint.2 = .ok ()

theorem validCheckpoints_empty : ValidCheckpoints ∅ := by
  intro peerId checkpoint h
  simp at h

theorem ValidCheckpoints.insert {map : CheckpointMap} (hv : ValidCheckpoints map)
    {peerId hash : String} (sequence : UInt64) (hp : validatePeerId peerId = .ok ())
    (hh : validateCheckpointHash hash = .ok ()) :
    ValidCheckpoints (map.insert peerId (sequence, hash)) := by
  intro q checkpoint hq
  rw [Std.ExtTreeMap.getElem?_insert] at hq
  simp only [Std.LawfulEqCmp.compare_eq_iff_eq] at hq
  split at hq
  · rename_i heq
    obtain rfl := Option.some.inj hq
    exact ⟨heq ▸ hp, hh⟩
  · exact hv q checkpoint hq

theorem isPeerIdChar_of_validate {peerId : String} (h : validatePeerId peerId = .ok ()) :
    peerId.toList ≠ [] ∧ ∀ c ∈ peerId.toList, isPeerIdChar c = true := by
  unfold validatePeerId at h
  split at h
  · simp at h
  split at h
  · simp at h
  rename_i hbound hall
  rw [Bool.or_eq_true, not_or] at hbound
  exact ⟨by simpa using hbound.1, by simpa using hall⟩

theorem isHexDigit_of_validateHash {hash : String} (h : validateCheckpointHash hash = .ok ()) :
    ∀ c ∈ hash.toList, isHexDigit c = true := by
  unfold validateCheckpointHash at h
  split at h
  · rename_i hform
    rw [Bool.or_eq_true, Bool.and_eq_true] at hform
    rcases hform with hempty | ⟨-, hall⟩
    · have hnil : hash.toList = [] := by simpa using hempty
      simp [hnil]
    · exact List.all_eq_true.1 hall
  · simp at h

/-- The characters a line of the file is made of. -/
def isCheckpointChar (c : Char) : Bool := isPeerIdChar c || c == '=' || c == ','

theorem isPeerIdChar_of_isHexDigit {c : Char} (h : isHexDigit c = true) :
    isPeerIdChar c = true := by
  have key : ∀ n : Fin 128, isHexDigit (Char.ofNat n) = true →
      isPeerIdChar (Char.ofNat n) = true := by decide
  simpa using key ⟨c.toNat, toNat_lt_of_isHexDigit h⟩ (by simpa using h)

theorem isPeerIdChar_of_isDigit {c : Char} (h : c.isDigit = true) : isPeerIdChar c = true := by
  simp [isPeerIdChar, Char.isAlphanum, h]

/-- One entry of a valid map. -/
structure ValidEntry (entry : String × Checkpoint) : Prop where
  peer : validatePeerId entry.1 = .ok ()
  hash : validateCheckpointHash entry.2.2 = .ok ()

theorem ValidCheckpoints.entry {map : CheckpointMap} (hv : ValidCheckpoints map)
    {entry : String × Checkpoint} (h : entry ∈ map.toList) : ValidEntry entry := by
  have hget := Std.ExtTreeMap.mem_toList_iff_getElem?_eq_some.1 (show (entry.1, entry.2) ∈ _ from h)
  exact ⟨(hv _ _ hget).1, (hv _ _ hget).2⟩

theorem isCheckpointChar_of_mem {entry : String × Checkpoint} (hv : ValidEntry entry) {c : Char}
    (h : c ∈ checkpointLine entry) : isCheckpointChar c = true := by
  have hpeer {c : Char} (h : isPeerIdChar c = true) : isCheckpointChar c = true := by
    simp [isCheckpointChar, h]
  rcases List.mem_append.1 h with hmem | hmem
  · exact hpeer ((isPeerIdChar_of_validate hv.peer).2 c hmem)
  rcases List.mem_cons.1 hmem with rfl | hmem
  · decide
  rcases List.mem_append.1 hmem with hmem | hmem
  · exact hpeer (isPeerIdChar_of_isDigit (isDigit_of_mem_decimal hmem))
  rcases List.mem_cons.1 hmem with rfl | hmem
  · decide
  · exact hpeer (isPeerIdChar_of_isHexDigit (isHexDigit_of_validateHash hv.hash c hmem))

theorem not_mem_checkpointLine {entry : String × Checkpoint} (hv : ValidEntry entry) {c : Char}
    (hc : isCheckpointChar c = false) : c ∉ checkpointLine entry := by
  intro hmem
  rw [isCheckpointChar_of_mem hv hmem] at hc
  simp at hc

theorem isBlank_checkpointLine (entry : String × Checkpoint) :
    isBlank (checkpointLine entry) = false := by
  rw [isBlank, List.all_eq_false]
  refine ⟨'=', ?_, by decide⟩
  simp [checkpointLine]

theorem parseCheckpointLine_checkpointLine {entry : String × Checkpoint} (hv : ValidEntry entry) :
    parseCheckpointLine (checkpointLine entry) = .ok entry := by
  obtain ⟨peerId, sequence, hash⟩ := entry
  have hpeer : '=' ∉ peerId.toList := by
    intro hmem
    exact absurd ((isPeerIdChar_of_validate hv.peer).2 _ hmem) (by decide)
  have hdigits : ',' ∉ decimal sequence.toNat := by
    intro hmem
    exact absurd (isDigit_of_mem_decimal hmem) (by decide)
  have hp : validatePeerId peerId = .ok () := hv.peer
  have hh : validateCheckpointHash hash = .ok () := hv.hash
  simp [parseCheckpointLine, checkpointLine, splitOnce_append hpeer, splitOnce_append hdigits,
    parseU64_decimal, hp, hh]

theorem lines_entries {entries : List (String × Checkpoint)} (hv : ∀ e ∈ entries, ValidEntry e) :
    (lines (entries.flatMap fun entry => checkpointLine entry ++ ['\n'])).filter
        (fun line => !isBlank line) = entries.map checkpointLine := by
  induction entries with
  | nil => rfl
  | cons e entries ih =>
    have he := hv e List.mem_cons_self
    rw [List.flatMap_cons, List.append_assoc, List.singleton_append,
      lines_line (not_mem_checkpointLine he (by decide)) (not_mem_checkpointLine he (by decide)),
      List.filter_cons_of_pos (by simp [isBlank_checkpointLine]),
      ih fun d hd => hv d (List.mem_cons_of_mem _ hd), List.map_cons]

theorem parseCheckpointLines_entries {entries : List (String × Checkpoint)}
    (hv : ∀ e ∈ entries, ValidEntry e) (map : CheckpointMap) :
    parseCheckpointLines map (entries.map checkpointLine) = .ok (insertAll map entries) := by
  induction entries generalizing map with
  | nil => rfl
  | cons e entries ih =>
    have hline := parseCheckpointLine_checkpointLine (hv e List.mem_cons_self)
    simp only [List.map_cons, parseCheckpointLines, hline]
    exact ih (fun d hd => hv d (List.mem_cons_of_mem _ hd)) _

/-- Whether the file of a map is within the limit of the reader. -/
def CheckpointsFit (map : CheckpointMap) : Prop :=
  (utf8 (checkpointText map)).length ≤ maxCheckpointFileBytes

namespace FileSyncCheckpointStore

/-- **Reading what was written** gives the map, or fails for the size of the file. -/
theorem readState_writeMap {map : CheckpointMap} (hv : ValidCheckpoints map) :
    (CheckpointsFit map → (writeMap map).readState = .ok map) ∧
      (¬ CheckpointsFit map → ∃ e, (writeMap map).readState = .error e) := by
  have hentries : ∀ e ∈ map.toList, ValidEntry e := fun e he => hv.entry he
  have hparse : parseCheckpointMap
      (map.toList.flatMap fun entry => checkpointLine entry ++ ['\n']) = .ok map := by
    rw [parseCheckpointMap, lines_entries hentries, parseCheckpointLines_entries hentries,
      insertAll_toList]
  constructor
  · intro hfits
    have hread : readBoundedText (writeMap map).file maxCheckpointFileBytes =
        .ok (checkpointText map) := by
      have hlength : ¬ (utf8 (checkpointText map)).length > maxCheckpointFileBytes :=
        Nat.not_lt.2 hfits
      simp only [readBoundedText, writeMap, if_neg hlength, fromUtf8_utf8]
    simp only [readState, hread, checkpointText, splitFormat_append, hparse]
  · intro hbig
    have hlength : (utf8 (checkpointText map)).length > maxCheckpointFileBytes :=
      Nat.lt_of_not_le hbig
    have hread : readBoundedText (writeMap map).file maxCheckpointFileBytes =
        .error (.replicationFailed "persistent file exceeds configured limit") :=
      if_pos hlength
    refine ⟨.replicationFailed "persistent file exceeds configured limit", ?_⟩
    simp only [readState, hread]

/-- A call on a written file is the insertion into its map, or fails for the size of the file. -/
theorem setCheckpoint_writeMap {map : CheckpointMap} (hv : ValidCheckpoints map) {peerId : String}
    {sequence : UInt64} {hash : String}
    (h : (setCheckpoint (writeMap map) peerId sequence hash).1 = .ok ()) :
    CheckpointsFit map ∧ ValidCheckpoints (map.insert peerId (sequence, hash)) ∧
      (setCheckpoint (writeMap map) peerId sequence hash).2 =
        writeMap (map.insert peerId (sequence, hash)) := by
  obtain ⟨hfit, hbig⟩ := readState_writeMap hv
  simp only [setCheckpoint] at h ⊢
  split at h
  · simp at h
  rename_i hp
  split at h
  · simp at h
  rename_i hh
  by_cases hfits : CheckpointsFit map
  · exact ⟨hfits, hv.insert sequence hp hh, by simp only [hfit hfits]⟩
  · obtain ⟨e, he⟩ := hbig hfits
    simp [he] at h

theorem getCheckpoint_writeMap {map : CheckpointMap} (hv : ValidCheckpoints map) {peerId : String}
    (hp : validatePeerId peerId = .ok ()) :
    (CheckpointsFit map → getCheckpoint (writeMap map) peerId = .ok map[peerId]?) ∧
      (¬ CheckpointsFit map → ∃ e, getCheckpoint (writeMap map) peerId = .error e) := by
  obtain ⟨hfit, hbig⟩ := readState_writeMap hv
  constructor
  · intro hfits
    simp [getCheckpoint, hp, hfit hfits]
  · intro hover
    obtain ⟨e, he⟩ := hbig hover
    exact ⟨e, by simp [getCheckpoint, hp, he]⟩

theorem new_none : new none = .ok (writeMap ∅) := by
  have hfresh : writeMap ∅ = ⟨utf8 (syncCheckpointFormatV1.toList ++ ['\n'])⟩ := by
    simp [writeMap, checkpointText, Std.ExtTreeMap.toList_eq_nil_iff.2 rfl]
  have hread := (readState_writeMap validCheckpoints_empty).1 (by
    show (utf8 (checkpointText ∅)).length ≤ maxCheckpointFileBytes
    decide)
  simp only [new, Option.getD_none, ← hfresh, hread]

theorem new_writeMap {map : CheckpointMap} (hv : ValidCheckpoints map) (hfits : CheckpointsFit map) :
    new (some (writeMap map).file) = .ok (writeMap map) := by
  have hread := (readState_writeMap hv).1 hfits
  simp only [new, Option.getD_some]
  rw [show (⟨(writeMap map).file⟩ : FileSyncCheckpointStore) = writeMap map from rfl, hread]

theorem setCheckpoints_writeMap {map : CheckpointMap} (hv : ValidCheckpoints map)
    {calls : List CheckpointCall}
    (hok : ∀ result ∈ (setCheckpoints (writeMap map) calls).1, result = .ok ()) :
    ValidCheckpoints (insertAll map (calls.map fun call => (call.peerId, call.sequence, call.hash))) ∧
      (setCheckpoints (writeMap map) calls).2 =
        writeMap (insertAll map (calls.map fun call => (call.peerId, call.sequence, call.hash))) := by
  induction calls generalizing map with
  | nil => exact ⟨hv, rfl⟩
  | cons call calls ih =>
    simp only [setCheckpoints, Prod.map_fst, Prod.map_snd, id_eq, List.mem_cons,
      forall_eq_or_imp] at hok ⊢
    obtain ⟨-, hv', hstore⟩ := setCheckpoint_writeMap hv hok.1
    rw [hstore] at hok ⊢
    exact ih hv' hok.2

end FileSyncCheckpointStore

/-- **The file refines the process-local store up to its size.** After any calls on a newly
created file that all succeeded, every valid peer is answered with what was last set for it,
also after reopening the file, exactly when the file of these checkpoints is within the limit
of the reader. -/
theorem checkpointFile_refines_iff (fresh : FileSyncCheckpointStore)
    (hfresh : FileSyncCheckpointStore.new none = .ok fresh) (calls : List CheckpointCall)
    (hok : ∀ result ∈ (setCheckpoints fresh calls).1, result = .ok ()) :
    let store := (setCheckpoints fresh calls).2
    (∀ peerId, validatePeerId peerId = .ok () →
      getCheckpoint store peerId = .ok (lastSet calls peerId) ∧
        ∃ reopened, FileSyncCheckpointStore.new (some store.file) = .ok reopened ∧
          getCheckpoint reopened peerId = .ok (lastSet calls peerId)) ↔
      CheckpointsFit (checkpointsOf calls) := by
  intro store
  rw [FileSyncCheckpointStore.new_none] at hfresh
  obtain rfl := Except.ok.inj hfresh
  obtain ⟨hv, hstore⟩ := FileSyncCheckpointStore.setCheckpoints_writeMap validCheckpoints_empty hok
  have hstore : store = FileSyncCheckpointStore.writeMap (checkpointsOf calls) := hstore
  have hv : ValidCheckpoints (checkpointsOf calls) := hv
  rw [hstore]
  constructor
  · intro hanswers
    by_contra hbig
    have hpeer : validatePeerId "peer-a" = .ok () := by decide
    obtain ⟨e, he⟩ := (FileSyncCheckpointStore.getCheckpoint_writeMap hv hpeer).2 hbig
    have hanswer := (hanswers "peer-a" hpeer).1
    rw [he] at hanswer
    simp at hanswer
  · intro hfits peerId hp
    have hget := (FileSyncCheckpointStore.getCheckpoint_writeMap hv hp).1 hfits
    rw [getElem?_checkpointsOf] at hget
    exact ⟨hget, _, FileSyncCheckpointStore.new_writeMap hv hfits, hget⟩

/-- Two peers, one of them set twice. -/
theorem checkpointFile_refines_two :
    ∃ (fresh : FileSyncCheckpointStore) (calls : List CheckpointCall),
      FileSyncCheckpointStore.new none = .ok fresh ∧
      calls = [⟨"peer-a", 1, ""⟩, ⟨"peer-b", 5, ""⟩, ⟨"peer-a", 2, ""⟩] ∧
      getCheckpoint (setCheckpoints fresh calls).2 "peer-a" = .ok (some (2, "")) := by
  have hfits : CheckpointsFit
      (checkpointsOf [⟨"peer-a", 1, ""⟩, ⟨"peer-b", 5, ""⟩, ⟨"peer-a", 2, ""⟩]) := by
    show (utf8 (checkpointText _)).length ≤ maxCheckpointFileBytes
    decide
  have hanswer := (checkpointFile_refines_iff _ FileSyncCheckpointStore.new_none
    [⟨"peer-a", 1, ""⟩, ⟨"peer-b", 5, ""⟩, ⟨"peer-a", 2, ""⟩] (by decide)).2 hfits
    "peer-a" (by decide)
  exact ⟨_, _, FileSyncCheckpointStore.new_none, rfl, hanswer.1⟩

/-! ## A file the reader refuses -/

/-- Peer ids of sixteen digits. -/
def numberedPeer (n : Nat) : String := bytesToHex (beBytes 8 n)

/-- A call for each of the first `k` peers. -/
def manyPeers (k : Nat) : List CheckpointCall :=
  (List.range k).map fun n => ⟨numberedPeer n, 0, ""⟩

theorem manyPeers_succ (k : Nat) : manyPeers (k + 1) = manyPeers k ++ [⟨numberedPeer k, 0, ""⟩] := by
  simp [manyPeers, List.range_succ]

theorem validatePeerId_numberedPeer (n : Nat) : validatePeerId (numberedPeer n) = .ok () := by
  have hlist : (numberedPeer n).toList = lowerHex (beBytes 8 n) := toList_bytesToHex _
  have hlength : (strBytes (numberedPeer n)).length = 16 := by
    rw [strBytes, hlist, utf8_of_ascii (isAscii_lowerHex _), List.length_map, length_lowerHex,
      length_beBytes]
  have hne : (numberedPeer n).toList ≠ [] := by
    intro hnil
    have hzero := congrArg List.length (hlist.symm.trans hnil)
    simp at hzero
  have hall : (numberedPeer n).toList.all isPeerIdChar = true := by
    rw [hlist, List.all_eq_true]
    exact fun c hc => isPeerIdChar_of_isHexDigit (isHexDigit_of_mem_lowerHex hc)
  simp [validatePeerId, hlength, hne, hall, maxCheckpointPeerIdBytes]

theorem numberedPeer_injective {m n : Nat} (hm : m < 2 ^ 64) (hn : n < 2 ^ 64)
    (h : numberedPeer m = numberedPeer n) : m = n := by
  have hbytes : (.ok (beBytes 8 m) : SyncResult Bytes) = .ok (beBytes 8 n) := by
    rw [← hexToBytes_bytesToHex, ← hexToBytes_bytesToHex]
    exact congrArg (fun s : String => hexToBytes s.toList) h
  have hvalue := congrArg fromBe (Except.ok.inj hbytes)
  rwa [fromBe_beBytes (by norm_num; omega), fromBe_beBytes (by norm_num; omega)] at hvalue

theorem size_manyPeers {k : Nat} (hk : k ≤ 2 ^ 64) : (checkpointsOf (manyPeers k)).size = k := by
  induction k with
  | zero => simp [manyPeers, checkpointsOf, insertAll]
  | succ k ih =>
    have hnew : (checkpointsOf (manyPeers k)).contains (numberedPeer k) = false := by
      rw [Std.ExtTreeMap.contains_eq_isSome_getElem?, getElem?_checkpointsOf, lastSet,
        Option.isSome_map, Bool.eq_false_iff, ne_eq, List.find?_isSome]
      rintro ⟨call, hcall, hpeer⟩
      obtain ⟨n, hn, rfl⟩ := List.mem_map.1 (List.mem_reverse.1 hcall)
      have hlt := List.mem_range.1 hn
      have heq := numberedPeer_injective (by omega) (by omega) (of_decide_eq_true hpeer)
      omega
    rw [manyPeers_succ, checkpointsOf_snoc, Std.ExtTreeMap.size_insert, hnew, ih (by omega)]
    simp

theorem size_le_file (map : CheckpointMap) : map.size ≤ (utf8 (checkpointText map)).length := by
  have hlines (entries : List (String × Checkpoint)) :
      entries.length ≤ (entries.flatMap fun entry => checkpointLine entry ++ ['\n']).length := by
    induction entries with
    | nil => simp
    | cons e entries ih =>
      rw [List.flatMap_cons, List.length_append, List.length_append]
      simp only [List.length_cons, List.length_nil]
      omega
  have htext := hlines map.toList
  have hbytes := length_le_utf8 (checkpointText map)
  rw [Std.ExtTreeMap.length_toList] at htext
  simp only [checkpointText, List.length_append, List.length_cons] at hbytes ⊢
  omega

theorem setCheckpoints_append {C : Type} [SyncCheckpointStore C] (store : C)
    (as bs : List CheckpointCall) :
    (setCheckpoints store (as ++ bs)).1 =
      (setCheckpoints store as).1 ++ (setCheckpoints (setCheckpoints store as).2 bs).1 := by
  induction as generalizing store with
  | nil => rfl
  | cons a as ih => simp [setCheckpoints, ih]

/-- As long as the file stays within the limit, the calls succeed; also the one that makes it
too large. -/
theorem manyPeers_ok {k : Nat} (h : ∀ j < k, CheckpointsFit (checkpointsOf (manyPeers j))) :
    ∀ result ∈ (setCheckpoints (FileSyncCheckpointStore.writeMap ∅) (manyPeers k)).1,
      result = .ok () := by
  induction k with
  | zero => simp [manyPeers, setCheckpoints]
  | succ k ih =>
    have hbefore := ih fun j hj => h j (by omega)
    obtain ⟨hv, hstore⟩ :=
      FileSyncCheckpointStore.setCheckpoints_writeMap validCheckpoints_empty hbefore
    have hread := (FileSyncCheckpointStore.readState_writeMap hv).1 (h k (by omega))
    rw [manyPeers_succ, setCheckpoints_append, hstore]
    intro result hmem
    rcases List.mem_append.1 hmem with hmem | hmem
    · exact hbefore result hmem
    · simp only [setCheckpoints, setCheckpoint, validatePeerId_numberedPeer, hread] at hmem
      simpa [validateCheckpointHash] using hmem

/-- A call succeeds and leaves a file that no later call can read. -/
theorem checkpointFile_outgrows_reader :
    ¬ ∀ (fresh : FileSyncCheckpointStore) (calls : List CheckpointCall),
      FileSyncCheckpointStore.new none = .ok fresh →
      (∀ result ∈ (setCheckpoints fresh calls).1, result = .ok ()) →
      ∀ peerId, validatePeerId peerId = .ok () →
        getCheckpoint (setCheckpoints fresh calls).2 peerId = .ok (lastSet calls peerId) := by
  intro h
  have hover : ∃ k, ¬ CheckpointsFit (checkpointsOf (manyPeers k)) := by
    refine ⟨maxCheckpointFileBytes + 1, fun hfits => ?_⟩
    have hsize := size_manyPeers (show maxCheckpointFileBytes + 1 ≤ 2 ^ 64 by
      norm_num [maxCheckpointFileBytes])
    have hfile := size_le_file (checkpointsOf (manyPeers (maxCheckpointFileBytes + 1)))
    have hlimit : (utf8 (checkpointText (checkpointsOf
      (manyPeers (maxCheckpointFileBytes + 1))))).length ≤ maxCheckpointFileBytes := hfits
    omega
  classical
  -- the first number of peers for which the file is too large
  have hok := manyPeers_ok fun j hj => not_not.1 (Nat.find_min hover hj)
  obtain ⟨hv, hstore⟩ := FileSyncCheckpointStore.setCheckpoints_writeMap validCheckpoints_empty hok
  have hpeer : validatePeerId "peer-a" = .ok () := by decide
  have hclaim := h _ _ FileSyncCheckpointStore.new_none hok "peer-a" hpeer
  obtain ⟨e, he⟩ := (FileSyncCheckpointStore.getCheckpoint_writeMap hv hpeer).2 (Nat.find_spec hover)
  rw [hstore, he] at hclaim
  simp at hclaim

end AppCore.Sync
