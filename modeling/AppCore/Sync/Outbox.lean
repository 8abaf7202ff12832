import AppCore.Sync.Client
import AppCore.Sync.FileLogProof
import AppCore.Sync.MessageJson

/-!
# Outboxes

The `SyncOutbox` trait of `outbox.rs` with its two implementations. Each operation runs under the
lock of the outbox, so it is one step. An instance of `FileSyncOutbox` keeps a copy of the queue,
but every operation loads the file again before it looks at the copy.

* `LawfulOutbox` — what an outbox does to the queue it stores, whatever the copy held;
-/

namespace AppCore.Sync

/-- The `SyncOutbox` trait. `Own` is what one instance keeps for itself, `Shared` what all
instances of the outbox share. -/
class SyncOutbox (Own Shared : Type) where
  tryEnqueue : Own → Shared → SyncMessage → Nat → SyncResult Bool × Own × Shared
  front : Own → Shared → SyncResult (Option SyncMessage) × Own × Shared
  acknowledgeFront : Own → Shared → String → SyncResult Unit × Own × Shared
  messages : Own → Shared → SyncResult (List SyncMessage) × Own × Shared
  len : Own → Shared → SyncResult Nat × Own × Shared

/-- Clients of an `InMemorySyncOutbox` share it whole. -/
instance : SyncOutbox Unit InMemorySyncOutbox where
  tryEnqueue _ outbox message maxLen :=
    let (taken, outbox) := outbox.tryEnqueue message maxLen
    (.ok taken, (), outbox)
  front _ outbox := (.ok outbox.front, (), outbox)
  acknowledgeFront _ outbox batchId :=
    let (result, outbox) := outbox.acknowledgeFront batchId
    (result, (), outbox)
  messages _ outbox := (.ok outbox.messages, (), outbox)
  len _ outbox := (.ok outbox.messages.length, (), outbox)

/-! ## The durable outbox -/

def syncOutboxFormatV1 : String := "# appcore-sync-outbox-v1"

def maxOutboxFileBytes : Nat := 64 * 1024 * 1024

/-- The bytes of an outbox file. Locking and replacing it is taken to succeed. -/
structure OutboxFile where
  bytes : Bytes

/-- `FileSyncOutbox`: the copy of the queue an instance keeps. -/
structure FileSyncOutbox where
  messages : List SyncMessage

/-- One line of `load_messages`. -/
def loadMessage [MessageJson] (lineNumber : Nat) (line : List Char) : SyncResult SyncMessage :=
  match hexToBytes line with
  | .error _ => .error (.corruptOutbox (lineNumber + 1))
  | .ok bytes =>
    if bytes.head? ≠ some 0x7b then .error (.replicationFailed updateRequiredMessage)
    else match Codec.decode bytes with
      | none => .error (.corruptOutbox (lineNumber + 1))
      | some message => .ok message

/-- The loop of `load_messages`, from the given line on. -/
def loadMessagesFrom [MessageJson] (lineNumber : Nat) (messages : List SyncMessage) :
    List (List Char) → SyncResult (List SyncMessage)
  | [] => .ok messages
  | line :: rest =>
    if line.isEmpty then loadMessagesFrom (lineNumber + 1) messages rest
    else match loadMessage lineNumber line with
      | .error e => .error e
      | .ok message => loadMessagesFrom (lineNumber + 1) (messages ++ [message]) rest

def loadMessages [MessageJson] (file : OutboxFile) : SyncResult (List SyncMessage) :=
  match readBoundedText file.bytes maxOutboxFileBytes with
  | .error e => .error e
  | .ok text =>
    match splitFormat text syncOutboxFormatV1 with
    | .error e => .error e
    | .ok body => loadMessagesFrom 0 [] (lines body)

/-- The line of one batch, without its end. -/
def outboxLine [MessageJson] (message : SyncMessage) : List Char :=
  lowerHex (Codec.encode message)

def outboxMarker : List Char := syncOutboxFormatV1.toList ++ ['\n']

/-- `exceeds configured limit`. -/
def outboxTooLarge : SyncError := .replicationFailed "sync outbox exceeds configured limit"

/-- The loop of `replace`, with the text written so far. -/
def encodeMessagesFrom [MessageJson] (text : List Char) :
    List SyncMessage → SyncResult (List Char)
  | [] => .ok text
  | message :: rest =>
    let text := text ++ (outboxLine message ++ ['\n'])
    if (utf8 text).length > maxOutboxFileBytes then .error outboxTooLarge
    else encodeMessagesFrom text rest

namespace FileSyncOutbox

/-- `replace`: the file with the queue written to it. -/
def replace [MessageJson] (messages : List SyncMessage) : SyncResult OutboxFile :=
  match encodeMessagesFrom outboxMarker messages with
  | .error e => .error e
  | .ok text => .ok ⟨utf8 text⟩

/-- `FileSyncOutbox::new` over what the disk holds at the path. -/
def new [MessageJson] (disk : Option OutboxFile) : SyncResult (FileSyncOutbox × OutboxFile) :=
  match disk with
  | some file =>
    match loadMessages file with
    | .error e => .error e
    | .ok messages => .ok (⟨messages⟩, file)
  | none =>
    match replace [] with
    | .error e => .error e
    | .ok file => .ok (⟨[]⟩, file)

/-- An operation that loads the file and then works on the queue. -/
def loaded [MessageJson] {α : Type} (outbox : FileSyncOutbox) (file : OutboxFile)
    (use : List SyncMessage → SyncResult α × FileSyncOutbox × OutboxFile) :
    SyncResult α × FileSyncOutbox × OutboxFile :=
  match loadMessages file with
  | .error e => (.error e, outbox, file)
  | .ok messages => use messages

/-- Replace the file by an updated queue; a queue that does not fit leaves the file and the copy
as they were loaded. -/
def store [MessageJson] {α : Type} (messages updated : List SyncMessage) (file : OutboxFile)
    (result : α) : SyncResult α × FileSyncOutbox × OutboxFile :=
  match replace updated with
  | .error e => (.error e, ⟨messages⟩, file)
  | .ok file => (.ok result, ⟨updated⟩, file)

end FileSyncOutbox

instance [MessageJson] : SyncOutbox FileSyncOutbox OutboxFile where
  tryEnqueue outbox file message maxLen := outbox.loaded file fun messages =>
    if messages.length ≥ maxLen then (.ok false, ⟨messages⟩, file)
    else FileSyncOutbox.store messages (messages ++ [message]) file true
  front outbox file := outbox.loaded file fun messages => (.ok messages.head?, ⟨messages⟩, file)
  acknowledgeFront outbox file batchId := outbox.loaded file fun messages =>
    if messages.head?.map (·.batchId) ≠ some batchId then
      (.error (.invalidSyncMessage "outbox acknowledgement mismatch"), ⟨messages⟩, file)
    else FileSyncOutbox.store messages messages.tail file ()
  messages outbox file := outbox.loaded file fun messages => (.ok messages, ⟨messages⟩, file)
  len outbox file := outbox.loaded file fun messages => (.ok messages.length, ⟨messages⟩, file)

/-- What the operations do, for the queue the shared part stores. A batch that cannot be stored is
refused with an error and nothing changes; no other operation fails on a stored queue, but for an
acknowledgement of a batch that is not in front. -/
class LawfulOutbox (Own Shared : Type) [SyncOutbox Own Shared] where
  Stores : Shared → List SyncMessage → Prop
  tryEnqueue_full (own : Own) {shared : Shared} {queue : List SyncMessage} (message : SyncMessage)
    {maxLen : Nat} : Stores shared queue → maxLen ≤ queue.length →
    ∃ own', SyncOutbox.tryEnqueue own shared message maxLen = (.ok false, own', shared)
  tryEnqueue_room (own : Own) {shared : Shared} {queue : List SyncMessage} (message : SyncMessage)
    {maxLen : Nat} : Stores shared queue → queue.length < maxLen →
    (∃ own' shared', SyncOutbox.tryEnqueue own shared message maxLen = (.ok true, own', shared') ∧
      Stores shared' (queue ++ [message])) ∨
    ∃ e own', SyncOutbox.tryEnqueue own shared message maxLen = (.error e, own', shared)
  front_eq (own : Own) {shared : Shared} {queue : List SyncMessage} : Stores shared queue →
    ∃ own', SyncOutbox.front own shared = (.ok queue.head?, own', shared)
  acknowledge_other (own : Own) {shared : Shared} {queue : List SyncMessage} {batchId : String} :
    Stores shared queue → queue.head?.map (·.batchId) ≠ some batchId →
    ∃ e own', SyncOutbox.acknowledgeFront own shared batchId = (.error e, own', shared)
  acknowledge_front (own : Own) {shared : Shared} {message : SyncMessage}
    {queue : List SyncMessage} : Stores shared (message :: queue) →
    ∃ own' shared', SyncOutbox.acknowledgeFront own shared message.batchId =
      (.ok (), own', shared') ∧ Stores shared' queue
  messages_eq (own : Own) {shared : Shared} {queue : List SyncMessage} : Stores shared queue →
    (SyncOutbox.messages own shared).1 = .ok queue

instance inMemoryOutbox_lawful : LawfulOutbox Unit InMemorySyncOutbox where
  Stores outbox queue := outbox.messages = queue
  tryEnqueue_full own outbox queue message maxLen hq hfull := by
    subst hq
    exact ⟨(), by simp [SyncOutbox.tryEnqueue, InMemorySyncOutbox.tryEnqueue, hfull]⟩
  tryEnqueue_room own outbox queue message maxLen hq hroom := by
    subst hq
    refine .inl ⟨(), ⟨outbox.messages ++ [message]⟩, ?_, rfl⟩
    simp [SyncOutbox.tryEnqueue, InMemorySyncOutbox.tryEnqueue, Nat.not_le.2 hroom]
  front_eq own outbox queue hq := by
    subst hq
    exact ⟨(), rfl⟩
  acknowledge_other own outbox queue batchId hq hother := by
    subst hq
    have hack : outbox.acknowledgeFront batchId =
        (.error (.invalidSyncMessage "outbox acknowledgement mismatch"), outbox) := if_pos hother
    exact ⟨.invalidSyncMessage "outbox acknowledgement mismatch", (), by
      simp [SyncOutbox.acknowledgeFront, hack]⟩
  acknowledge_front own outbox message queue hq := by
    have hfront : outbox.front = some message := by simp [InMemorySyncOutbox.front, hq]
    refine ⟨(), ⟨queue⟩, ?_, rfl⟩
    simp [SyncOutbox.acknowledgeFront, InMemorySyncOutbox.acknowledgeFront_front hfront, hq]
  messages_eq own outbox queue hq := by
    subst hq
    rfl

/-! ## The file of a queue -/

/-- The lines of a queue. -/
def outboxBody [MessageJson] (queue : List SyncMessage) : List Char :=
  queue.flatMap fun message => outboxLine message ++ ['\n']

def outboxText [MessageJson] (queue : List SyncMessage) : List Char :=
  outboxMarker ++ outboxBody queue

theorem outboxText_snoc [MessageJson] (queue : List SyncMessage) (message : SyncMessage) :
    outboxText (queue ++ [message]) = outboxText queue ++ (outboxLine message ++ ['\n']) := by
  simp [outboxText, outboxBody]

theorem outboxText_append_le [MessageJson] (front rest : List SyncMessage) :
    (utf8 (outboxText front)).length ≤ (utf8 (outboxText (front ++ rest))).length := by
  simp [outboxText, outboxBody]

/-- The queue as a file, which is within the limit. -/
structure StoredQueue [MessageJson] (file : OutboxFile) (queue : List SyncMessage) : Prop where
  bytes : file.bytes = utf8 (outboxText queue)
  fits : (utf8 (outboxText queue)).length ≤ maxOutboxFileBytes

theorem storedQueue_empty [MessageJson] : StoredQueue ⟨utf8 outboxMarker⟩ [] := by
  refine ⟨rfl, ?_⟩
  show (utf8 outboxMarker).length ≤ maxOutboxFileBytes
  decide

/-- The writer gives the text of the queue exactly when it is within the limit. -/
theorem encodeMessagesFrom_outboxText [MessageJson] (done : List SyncMessage)
    {rest : List SyncMessage} (hdone : (utf8 (outboxText done)).length ≤ maxOutboxFileBytes) :
    encodeMessagesFrom (outboxText done) rest =
      if (utf8 (outboxText (done ++ rest))).length ≤ maxOutboxFileBytes then
        .ok (outboxText (done ++ rest))
      else .error outboxTooLarge := by
  induction rest generalizing done with
  | nil => simp [encodeMessagesFrom, hdone]
  | cons message rest ih =>
    rw [encodeMessagesFrom, ← outboxText_snoc]
    have happend : done ++ message :: rest = done ++ [message] ++ rest := by simp
    by_cases hfits : (utf8 (outboxText (done ++ [message]))).length ≤ maxOutboxFileBytes
    · rw [if_neg (Nat.not_lt.2 hfits), ih (done ++ [message]) hfits, happend]
    · have hlonger := outboxText_append_le (done ++ [message]) rest
      rw [if_pos (Nat.not_le.1 hfits), happend, if_neg (by omega)]

theorem replace_eq [MessageJson] (queue : List SyncMessage) :
    FileSyncOutbox.replace queue =
      if (utf8 (outboxText queue)).length ≤ maxOutboxFileBytes then
        .ok ⟨utf8 (outboxText queue)⟩
      else .error outboxTooLarge := by
  have hencode := @encodeMessagesFrom_outboxText _ [] queue storedQueue_empty.fits
  rw [List.nil_append] at hencode
  have hmarker : outboxText [] = outboxMarker := rfl
  rw [FileSyncOutbox.replace, ← hmarker, hencode]
  by_cases hfits : (utf8 (outboxText queue)).length ≤ maxOutboxFileBytes
  · simp only [if_pos hfits]
  · simp only [if_neg hfits]

theorem loadMessage_outboxLine [MessageJson] (lineNumber : Nat) (message : SyncMessage) :
    loadMessage lineNumber (outboxLine message) = .ok message := by
  have hhex : hexToBytes (outboxLine message) = .ok (Codec.encode message) := by
    have h := hexToBytes_bytesToHex (Codec.encode message)
    rwa [toList_bytesToHex] at h
  obtain ⟨rest, hobject⟩ := MessageJson.encode_object message
  have hhead : (Codec.encode message).head? = some 0x7b := by simp [hobject]
  simp [loadMessage, hhex, hhead, Codec.decode_encode]

theorem loadMessagesFrom_outboxBody [MessageJson] (lineNumber : Nat)
    (done queue : List SyncMessage) :
    loadMessagesFrom lineNumber done (lines (outboxBody queue)) = .ok (done ++ queue) := by
  induction queue generalizing lineNumber done with
  | nil => simp [outboxBody, loadMessagesFrom]
  | cons message queue ih =>
    have hbody : outboxBody (message :: queue) =
        outboxLine message ++ '\n' :: outboxBody queue := by
      simp [outboxBody]
    have hchar {c : Char} (hc : isHexDigit c = false) : c ∉ outboxLine message := by
      intro hmem
      rw [isHexDigit_of_mem_lowerHex hmem] at hc
      simp at hc
    have hne : (outboxLine message).isEmpty = false := by
      obtain ⟨rest, hobject⟩ := MessageJson.encode_object message
      rw [outboxLine, hobject]
      rfl
    rw [hbody, lines_line (hchar (by decide)) (hchar (by decide)), loadMessagesFrom]
    simp only [hne, loadMessage_outboxLine, ih]
    simp

theorem loadMessages_stored [MessageJson] {file : OutboxFile} {queue : List SyncMessage}
    (h : StoredQueue file queue) : loadMessages file = .ok queue := by
  have hread : readBoundedText file.bytes maxOutboxFileBytes = .ok (outboxText queue) := by
    rw [readBoundedText, h.bytes, if_neg (Nat.not_lt.2 h.fits), fromUtf8_utf8]
  have hsplit : splitFormat (outboxText queue) syncOutboxFormatV1 = .ok (outboxBody queue) := by
    have htext : outboxText queue = syncOutboxFormatV1.toList ++ '\n' :: outboxBody queue := by
      simp [outboxText, outboxMarker]
    rw [htext, splitFormat_append]
  have hload := loadMessagesFrom_outboxBody 0 [] queue
  simp only [loadMessages, hread, hsplit, hload, List.nil_append]

theorem store_ok [MessageJson] {α : Type} {updated : List SyncMessage}
    (hfits : (utf8 (outboxText updated)).length ≤ maxOutboxFileBytes)
    (messages : List SyncMessage) (file : OutboxFile) (result : α) :
    FileSyncOutbox.store messages updated file result =
      (.ok result, ⟨updated⟩, ⟨utf8 (outboxText updated)⟩) := by
  rw [FileSyncOutbox.store, replace_eq, if_pos hfits]

theorem store_error [MessageJson] {α : Type} {updated : List SyncMessage}
    (hlarge : ¬ (utf8 (outboxText updated)).length ≤ maxOutboxFileBytes)
    (messages : List SyncMessage) (file : OutboxFile) (result : α) :
    FileSyncOutbox.store messages updated file result =
      (.error outboxTooLarge, ⟨messages⟩, file) := by
  rw [FileSyncOutbox.store, replace_eq, if_neg hlarge]

theorem loaded_stored [MessageJson] {α : Type} {file : OutboxFile} {queue : List SyncMessage}
    (h : StoredQueue file queue) (outbox : FileSyncOutbox)
    (use : List SyncMessage → SyncResult α × FileSyncOutbox × OutboxFile) :
    outbox.loaded file use = use queue := by
  rw [FileSyncOutbox.loaded, loadMessages_stored h]

instance fileOutbox_lawful [MessageJson] : LawfulOutbox FileSyncOutbox OutboxFile where
  Stores := StoredQueue
  tryEnqueue_full own file queue message maxLen hq hfull :=
    ⟨⟨queue⟩, (loaded_stored hq own _).trans (if_pos hfull)⟩
  tryEnqueue_room own file queue message maxLen hq hroom := by
    have hstep : SyncOutbox.tryEnqueue own file message maxLen =
        FileSyncOutbox.store queue (queue ++ [message]) file true :=
      (loaded_stored hq own _).trans (if_neg (Nat.not_le.2 hroom))
    by_cases hfits : (utf8 (outboxText (queue ++ [message]))).length ≤ maxOutboxFileBytes
    · exact .inl ⟨_, _, hstep.trans (store_ok hfits queue file true), rfl, hfits⟩
    · exact .inr ⟨_, _, hstep.trans (store_error hfits queue file true)⟩
  front_eq own file queue hq := ⟨⟨queue⟩, loaded_stored hq own _⟩
  acknowledge_other own file queue batchId hq hother :=
    ⟨_, ⟨queue⟩, (loaded_stored hq own _).trans (if_pos hother)⟩
  acknowledge_front own file message queue hq := by
    have hfits : (utf8 (outboxText queue)).length ≤ maxOutboxFileBytes := by
      have hle : (utf8 (outboxText queue)).length ≤ (utf8 (outboxText (message :: queue))).length := by
        simp only [outboxText, outboxBody, utf8_append, List.length_append, List.flatMap_cons]
        omega
      exact hle.trans hq.fits
    have hstep : SyncOutbox.acknowledgeFront own file message.batchId =
        FileSyncOutbox.store (message :: queue) queue file () :=
      (loaded_stored hq own _).trans (if_neg (by simp))
    exact ⟨_, _, hstep.trans (store_ok hfits _ file ()), rfl, hfits⟩
  messages_eq own file queue hq := congrArg Prod.fst (loaded_stored hq own _)

theorem new_none [MessageJson] :
    FileSyncOutbox.new none = .ok (⟨[]⟩, ⟨utf8 outboxMarker⟩) := by
  simp only [FileSyncOutbox.new, replace_eq, if_pos storedQueue_empty.fits]
  rfl

end AppCore.Sync
