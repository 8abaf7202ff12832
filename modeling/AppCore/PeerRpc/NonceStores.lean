import AppCore.Base.Maps
import AppCore.Base.Runs
import AppCore.PeerRpc.NonceFile

/-!
# The two nonce stores side by side

The process-local store forgets expired nonces from the front of its queue only, the durable one
forgets all of them. Both are started empty and get the same calls, at times that do not go back.

While they answer alike they hold the same live nonces (`SameLive`), and the next call decides: they
go apart exactly when the process-local store still has the nonce of the call, which expired behind a
live one, or is full of such nonces, or when the file of the durable store is too large to be read.

* `interchangeable_run` — the stores answer alike throughout a run exactly when no call is of this kind.
-/

namespace AppCore.PeerRpc

/-! ## The stores -/

/-- A call of `check_and_record`. -/
structure CheckCall where
  nonce : String
  expiresAtMs : UInt64
  nowMs : UInt64

/-- The two stores, and what each of them has accepted. -/
structure NonceStores where
  memory : InMemoryPeerNonceStore
  file : FilePeerNonceStore
  memoryAccepted : List (String × UInt64)
  fileAccepted : List (String × UInt64)

/-- The nonces that were accepted, after another answer. -/
def noteAccepted (accepted : List (String × UInt64)) (call : CheckCall) :
    PeerRpcResult → List (String × UInt64)
  | .ok () => accepted ++ [(call.nonce, call.expiresAtMs)]
  | .error _ => accepted

/-- The nonce was accepted, with an expiry later than now. -/
def AcceptedLive (accepted : List (String × UInt64)) (call : CheckCall) : Prop :=
  ∃ expiresAtMs, (call.nonce, expiresAtMs) ∈ accepted ∧ call.nowMs < expiresAtMs

def liveNonces (nowMs : UInt64) (seen : NonceMap) : NonceMap :=
  seen.filter fun _ expiresAtMs => decide (expiresAtMs > nowMs)

namespace NonceStores

/-- Both stores, empty. -/
def new : NonceStores := ⟨.new, .new, [], []⟩

variable [Codec PersistedNonceState]

/-- What the process-local store answers. -/
def memoryAnswer (s : NonceStores) (call : CheckCall) : PeerRpcResult :=
  (checkAndRecord s.memory call.nonce call.expiresAtMs call.nowMs).1

/-- What the durable store answers. -/
def fileAnswer (s : NonceStores) (call : CheckCall) : PeerRpcResult :=
  (checkAndRecord s.file call.nonce call.expiresAtMs call.nowMs).1

/-- One call, made on both. -/
def step (s : NonceStores) (call : CheckCall) : Option NonceStores :=
  some {
    memory := (checkAndRecord s.memory call.nonce call.expiresAtMs call.nowMs).2
    file := (checkAndRecord s.file call.nonce call.expiresAtMs call.nowMs).2
    memoryAccepted := noteAccepted s.memoryAccepted call (s.memoryAnswer call)
    fileAccepted := noteAccepted s.fileAccepted call (s.fileAnswer call) }

/-- The stores give one answer, and it is `NonceReplay` exactly when the nonce was accepted before
and has not expired. -/
structure Interchangeable (s : NonceStores) (call : CheckCall) : Prop where
  same : s.memoryAnswer call = s.fileAnswer call
  memoryReplay : s.memoryAnswer call = .error .nonceReplay ↔ AcceptedLive s.memoryAccepted call
  fileReplay : s.fileAnswer call = .error .nonceReplay ↔ AcceptedLive s.fileAccepted call

/-- The file can be read, and the nonce is live, or the expired nonces that are still in memory make
no difference: it is none of them, and the room does not depend on them. -/
structure Unaffected (s : NonceStores) (call : CheckCall) : Prop where
  readable : ∀ bytes, s.file.file = some bytes → bytes.length ≤ maxNonceStateBytes
  pruned : call.nonce ∈ liveNonces call.nowMs s.memory.seen ∨
    call.nonce ∉ (retainMemory call.nowMs s.memory.seen s.memory.order).seen ∧
      ((retainMemory call.nowMs s.memory.seen s.memory.order).seen.size ≥ maxNonceCacheEntries ↔
        (liveNonces call.nowMs s.memory.seen).size ≥ maxNonceCacheEntries)

end NonceStores

/-! ## Live nonces -/

variable {nonce : String}

theorem getElem?_liveNonces {nowMs : UInt64} {seen : NonceMap} {expiry : UInt64} :
    (liveNonces nowMs seen)[nonce]? = some expiry ↔ seen[nonce]? = some expiry ∧ nowMs < expiry := by
  rw [liveNonces, Std.ExtTreeMap.getElem?_filter]
  cases seen[nonce]? with
  | none => simp
  | some found => simp

theorem mem_liveNonces {nowMs : UInt64} {seen : NonceMap} :
    nonce ∈ liveNonces nowMs seen ↔ ∃ expiry, seen[nonce]? = some expiry ∧ nowMs < expiry := by
  rw [Std.ExtTreeMap.mem_iff_isSome_getElem?, Option.isSome_iff_exists]
  exact exists_congr fun expiry => getElem?_liveNonces

theorem getElem?_of_retainMemory {now expiry : UInt64} {seen : NonceMap} {order : List String}
    (h : (retainMemory now seen order).seen[nonce]? = some expiry) :
    seen[nonce]? = some expiry := by
  induction order generalizing seen with
  | nil => exact h
  | cons front rest ih =>
    unfold retainMemory at h
    dsimp only at h
    split at h
    · have hkept := ih h
      rw [Std.ExtTreeMap.getElem?_erase] at hkept
      split at hkept
      · cases hkept
      · exact hkept
    · exact h

theorem getElem?_retainMemory_iff {now expiry : UInt64} (hlive : now < expiry) {seen : NonceMap}
    {order : List String} :
    (retainMemory now seen order).seen[nonce]? = some expiry ↔ seen[nonce]? = some expiry :=
  ⟨getElem?_of_retainMemory, fun h => getElem?_retainMemory hlive h order⟩

/-- The map has the nonces that were accepted and are live at a time. -/
def Holds (nowMs : UInt64) (seen : NonceMap) (accepted : List (String × UInt64)) : Prop :=
  ∀ nonce expiry, nowMs < expiry → (seen[nonce]? = some expiry ↔ (nonce, expiry) ∈ accepted)

section

variable {now t : UInt64} {seen : NonceMap} {accepted : List (String × UInt64)}

theorem Holds.later (h : Holds t seen accepted) (hle : t ≤ now) : Holds now seen accepted :=
  fun nonce expiry hlive => h nonce expiry (UInt64.lt_of_le_of_lt hle hlive)

theorem Holds.retained (h : Holds now seen accepted) (order : List String) :
    Holds now (retainMemory now seen order).seen accepted :=
  fun nonce expiry hlive => (getElem?_retainMemory_iff hlive).trans (h nonce expiry hlive)

theorem Holds.live (h : Holds now seen accepted) : Holds now (liveNonces now seen) accepted := by
  intro nonce expiry hlive
  rw [getElem?_liveNonces, and_iff_left hlive]
  exact h nonce expiry hlive

theorem Holds.insert (h : Holds now seen accepted) {nonce : String} {expiry : UInt64}
    (hnew : ¬ ∃ held, (nonce, held) ∈ accepted ∧ now < held) :
    Holds now (seen.insert nonce expiry) (accepted ++ [(nonce, expiry)]) := by
  intro other held hlive
  rw [lookup_insert, List.mem_append, List.mem_singleton, Prod.mk.injEq]
  by_cases hsame : nonce = other
  · subst hsame
    have hfresh : (nonce, held) ∉ accepted := fun hmem => hnew ⟨held, hmem, hlive⟩
    simp [hfresh, eq_comm]
  · simp [hsame, Ne.symm hsame, h other held hlive]

theorem Holds.liveNonces_eq {other : NonceMap} (h : Holds now seen accepted)
    (hother : Holds now other accepted) : liveNonces now seen = liveNonces now other := by
  apply Std.ExtTreeMap.ext_getElem?
  intro nonce
  apply Option.ext
  intro expiry
  rw [getElem?_liveNonces, getElem?_liveNonces]
  constructor
  · intro hseen
    exact ⟨(hother nonce expiry hseen.2).2 ((h nonce expiry hseen.2).1 hseen.1), hseen.2⟩
  · intro hseen
    exact ⟨(h nonce expiry hseen.2).2 ((hother nonce expiry hseen.2).1 hseen.1), hseen.2⟩

theorem Holds.mem_liveNonces (h : Holds now seen accepted) {nonce : String} :
    nonce ∈ liveNonces now seen ↔ ∃ expiry, (nonce, expiry) ∈ accepted ∧ now < expiry := by
  rw [PeerRpc.mem_liveNonces]
  refine exists_congr fun expiry => ?_
  rw [and_congr_left_iff]
  exact h nonce expiry

end

/-! ## The answers -/

/-- What a store answers that has some nonces. -/
def nonceAnswer (seen : NonceMap) (nonce : String) : PeerRpcResult :=
  if nonce ∈ seen then .error .nonceReplay
  else if seen.size ≥ maxNonceCacheEntries then .error .nonceCacheFull
  else .ok ()

theorem nonceAnswer_eq_replay {seen : NonceMap} :
    nonceAnswer seen nonce = .error .nonceReplay ↔ nonce ∈ seen := by
  unfold nonceAnswer
  by_cases hmem : nonce ∈ seen
  · simp [hmem]
  · rw [if_neg hmem]
    split <;> simp [hmem]

/-- When two stores give one answer, of which one has what the other has. -/
theorem nonceAnswer_eq_iff {seen live : NonceMap} (hkept : nonce ∈ live → nonce ∈ seen) :
    nonceAnswer seen nonce = nonceAnswer live nonce ↔ nonce ∈ live ∨ nonce ∉ seen ∧
      (seen.size ≥ maxNonceCacheEntries ↔ live.size ≥ maxNonceCacheEntries) := by
  unfold nonceAnswer
  by_cases hlive : nonce ∈ live
  · simp [hlive, hkept hlive]
  · by_cases hseen : nonce ∈ seen
    · rw [if_pos hseen, if_neg hlive]
      simp only [hlive, hseen, not_true_eq_false, false_and, or_false, iff_false]
      split <;> simp
    · rw [if_neg hseen, if_neg hlive]
      simp only [hlive, hseen, not_false_eq_true, true_and, false_or]
      by_cases hfull : seen.size ≥ maxNonceCacheEntries
      · by_cases hfull' : live.size ≥ maxNonceCacheEntries
        · simp [hfull, hfull']
        · simp [hfull, hfull']
      · by_cases hfull' : live.size ≥ maxNonceCacheEntries
        · simp [hfull, hfull']
        · simp [hfull, hfull']

namespace NonceStores

variable [Codec PersistedNonceState] {s s' : NonceStores} {call : CheckCall} {t : UInt64}

/-- The state that a file with these entries has. -/
def stateOf (entries : NonceMap) : PersistedNonceState := ⟨nonceStoreFormat, entries⟩

def FileHas (s : NonceStores) (entries : NonceMap) : Prop :=
  s.file.file = none ∧ entries = ∅ ∨ s.file.file = some (Codec.encode (stateOf entries))

/-- **The invariant**: both stores have accepted the same, and hold what of it is live. -/
structure SameLive (s : NonceStores) (t : UInt64) : Prop where
  accepted : s.memoryAccepted = s.fileAccepted
  memory : Holds t s.memory.seen s.memoryAccepted
  file : ∃ entries, s.FileHas entries ∧ entries.size ≤ maxNonceCacheEntries ∧
    Holds t entries s.fileAccepted

theorem sameLive_new : SameLive new 0 := by
  refine ⟨rfl, fun nonce expiry _ => ?_, ∅, Or.inl ⟨rfl, rfl⟩, ?_, fun nonce expiry _ => ?_⟩
  · simp [new, InMemoryPeerNonceStore.new]
  · simp
  · simp [new]

omit [Codec PersistedNonceState] in
theorem memoryAnswer_eq (s : NonceStores) (call : CheckCall) :
    s.memoryAnswer call = nonceAnswer
      (retainMemory call.nowMs s.memory.seen s.memory.order).seen call.nonce := by
  unfold memoryAnswer nonceAnswer
  simp only [checkAndRecord, Std.ExtTreeMap.contains_iff_mem]
  split
  · rfl
  · split <;> rfl

variable {entries : NonceMap}

/-- The file is read when it is not too large. -/
theorem load_of_fileHas (hencode : ∀ state : PersistedNonceState, Codec.encode state ≠ [])
    (hfile : s.FileHas entries) (hsize : entries.size ≤ maxNonceCacheEntries) :
    ((∀ bytes, s.file.file = some bytes → bytes.length ≤ maxNonceStateBytes) ∧
        s.file.load = .ok (stateOf entries)) ∨
      (¬ (∀ bytes, s.file.file = some bytes → bytes.length ≤ maxNonceStateBytes) ∧
        s.file.load = .error (nonceStoreError "nonce_store_state_size_invalid")) := by
  rcases hfile with ⟨hnone, rfl⟩ | hsome
  · refine .inl ⟨fun bytes hbytes => ?_, ?_⟩
    · rw [hnone] at hbytes
      cases hbytes
    · rw [FilePeerNonceStore.load, hnone]
      rfl
  · have hne : (Codec.encode (stateOf entries) : Bytes).length ≠ 0 := by
      simpa using hencode _
    by_cases hfits : (Codec.encode (stateOf entries) : Bytes).length ≤ maxNonceStateBytes
    · refine .inl ⟨fun bytes hbytes => ?_, ?_⟩
      · rw [hsome] at hbytes
        exact Option.some.inj hbytes ▸ hfits
      · rw [FilePeerNonceStore.load, hsome]
        dsimp only
        rw [if_neg (by omega), Codec.decode_encode]
        dsimp only
        rw [if_neg (by simpa [stateOf] using hsize)]
    · refine .inr ⟨fun hall => hfits (hall _ hsome), ?_⟩
      rw [FilePeerNonceStore.load, hsome]
      dsimp only
      rw [if_pos (by omega)]

theorem fileAnswer_eq (hload : s.file.load = .ok (stateOf entries)) :
    s.fileAnswer call = nonceAnswer (liveNonces call.nowMs entries) call.nonce := by
  unfold fileAnswer nonceAnswer liveNonces
  simp only [checkAndRecord, hload, Std.ExtTreeMap.contains_iff_mem, stateOf]
  split
  · rfl
  · split <;> rfl

omit [Codec PersistedNonceState] in
theorem memory_cases (memory : InMemoryPeerNonceStore) (call : CheckCall) :
    (∃ e, checkAndRecord memory call.nonce call.expiresAtMs call.nowMs =
      (.error e, retainMemory call.nowMs memory.seen memory.order)) ∨
    ((checkAndRecord memory call.nonce call.expiresAtMs call.nowMs).1 = .ok () ∧
      (checkAndRecord memory call.nonce call.expiresAtMs call.nowMs).2.seen =
        (retainMemory call.nowMs memory.seen memory.order).seen.insert call.nonce
          call.expiresAtMs ∧
      call.nonce ∉ (retainMemory call.nowMs memory.seen memory.order).seen) := by
  simp only [checkAndRecord]
  split
  · exact .inl ⟨_, rfl⟩
  next hnew =>
    split
    · exact .inl ⟨_, rfl⟩
    · exact .inr ⟨rfl, rfl, hnew⟩

theorem file_cases {file : FilePeerNonceStore} (hload : file.load = .ok (stateOf entries))
    (call : CheckCall) :
    (∃ e, checkAndRecord file call.nonce call.expiresAtMs call.nowMs = (.error e, file)) ∨
    ((checkAndRecord file call.nonce call.expiresAtMs call.nowMs).1 = .ok () ∧
      (checkAndRecord file call.nonce call.expiresAtMs call.nowMs).2.file =
        some (Codec.encode (stateOf ((liveNonces call.nowMs entries).insert call.nonce
          call.expiresAtMs))) ∧
      (liveNonces call.nowMs entries).size < maxNonceCacheEntries) := by
  simp only [checkAndRecord, hload, stateOf]
  split
  · exact .inl ⟨_, rfl⟩
  · split
    · exact .inl ⟨_, rfl⟩
    next hroom => exact .inr ⟨rfl, rfl, Nat.not_le.1 hroom⟩

omit [Codec PersistedNonceState] in
theorem mem_retainMemory_of_live (hlive : call.nonce ∈ liveNonces call.nowMs s.memory.seen) :
    call.nonce ∈ (retainMemory call.nowMs s.memory.seen s.memory.order).seen := by
  obtain ⟨expiry, hentry, hexpiry⟩ := mem_liveNonces.1 hlive
  exact contains_of_getElem? (getElem?_retainMemory hexpiry hentry s.memory.order)

/-- **When the stores answer alike**: exactly when the file can be read, and the expired nonces that
are still in memory make no difference. -/
theorem interchangeable_iff (hencode : ∀ state : PersistedNonceState, Codec.encode state ≠ [])
    (h : s.SameLive t) (hle : t ≤ call.nowMs) : s.Interchangeable call ↔ s.Unaffected call := by
  obtain ⟨entries, hfile, hsize, hholds⟩ := h.file
  have hmemory := h.memory.later hle
  have hlive : liveNonces call.nowMs s.memory.seen = liveNonces call.nowMs entries :=
    hmemory.liveNonces_eq (h.accepted ▸ hholds.later hle)
  have hkept : call.nonce ∈ liveNonces call.nowMs s.memory.seen →
      call.nonce ∈ (retainMemory call.nowMs s.memory.seen s.memory.order).seen :=
    mem_retainMemory_of_live
  have hanswers := nonceAnswer_eq_iff hkept
  rcases load_of_fileHas hencode hfile hsize with ⟨hreadable, hload⟩ | ⟨hunreadable, hload⟩
  · have hfileAnswer : s.fileAnswer call = nonceAnswer (liveNonces call.nowMs entries) call.nonce :=
      fileAnswer_eq hload
    rw [← hlive] at hfileAnswer
    rw [← memoryAnswer_eq, ← hfileAnswer] at hanswers
    constructor
    · intro hsame
      exact ⟨hreadable, hanswers.1 hsame.same⟩
    · intro hpruned
      have hsame := hanswers.2 hpruned.pruned
      have hreplay : s.fileAnswer call = .error .nonceReplay ↔ AcceptedLive s.memoryAccepted call := by
        rw [hfileAnswer, nonceAnswer_eq_replay]
        exact hmemory.mem_liveNonces
      exact ⟨hsame, hsame ▸ hreplay, h.accepted ▸ hreplay⟩
  · refine iff_of_false (fun hsame => ?_) fun hpruned => hunreadable hpruned.readable
    have herror : s.fileAnswer call =
        .error (nonceStoreError "nonce_store_state_size_invalid") := by
      unfold fileAnswer
      simp only [checkAndRecord, hload]
    have hanswer := hsame.same
    rw [herror, memoryAnswer_eq, nonceAnswer] at hanswer
    split at hanswer
    · cases hanswer
    · split at hanswer <;> cases hanswer

/-- A call that the stores answer alike leaves them with the same live nonces. -/
theorem SameLive.step (hencode : ∀ state : PersistedNonceState, Codec.encode state ≠ [])
    (h : s.SameLive t) (hle : t ≤ call.nowMs) (hcall : s.Unaffected call)
    (hstep : s.step call = some s') : s'.SameLive call.nowMs := by
  have hsame := ((interchangeable_iff hencode h hle).2 hcall).same
  obtain ⟨entries, hfile, hsize, hholds⟩ := h.file
  obtain ⟨-, hload⟩ | ⟨hunreadable, -⟩ := load_of_fileHas hencode hfile hsize
  · obtain rfl := Option.some.inj hstep
    have hmemory := (h.memory.later hle).retained s.memory.order
    have hkept := hholds.later hle
    unfold memoryAnswer fileAnswer at hsame
    rcases memory_cases s.memory call with ⟨e, hanswer⟩ | ⟨haccepted, hseen, hnew⟩
    · rw [hanswer] at hsame
      rcases file_cases hload call with ⟨e', hanswer'⟩ | ⟨haccepted', -⟩
      · refine ⟨?_, ?_, entries, ?_, hsize, ?_⟩
        · simp only [memoryAnswer, fileAnswer, hanswer, hanswer', noteAccepted, h.accepted]
        · simp only [memoryAnswer, hanswer, noteAccepted]
          exact hmemory
        · simp only [FileHas, hanswer']
          exact hfile
        · simp only [fileAnswer, hanswer', noteAccepted]
          exact hkept
      · rw [haccepted'] at hsame
        cases hsame
    · rw [haccepted] at hsame
      rcases file_cases hload call with ⟨e', hanswer'⟩ | ⟨haccepted', hentries, hroom⟩
      · rw [hanswer'] at hsame
        cases hsame
      · have hfresh : ¬ ∃ expiry, (call.nonce, expiry) ∈ s.memoryAccepted ∧ call.nowMs < expiry := by
          intro hlive
          exact hnew (mem_retainMemory_of_live ((h.memory.later hle).mem_liveNonces.2 hlive))
        refine ⟨?_, ?_, (liveNonces call.nowMs entries).insert call.nonce call.expiresAtMs, ?_, ?_, ?_⟩
        · simp only [memoryAnswer, fileAnswer, haccepted, haccepted', noteAccepted, h.accepted]
        · simp only [memoryAnswer, haccepted, noteAccepted, hseen]
          exact hmemory.insert hfresh
        · simp only [FileHas, hentries, or_true]
        · exact Std.ExtTreeMap.size_insert_le.trans hroom
        · simp only [fileAnswer, haccepted', noteAccepted]
          exact hkept.live.insert (h.accepted ▸ hfresh)
  · exact absurd hcall.readable hunreadable

/-- The calls come at times that do not go back. -/
def Ordered (calls : List CheckCall) : Prop := calls.Pairwise fun a b => a.nowMs ≤ b.nowMs

instance (calls : List CheckCall) : Decidable (Ordered calls) :=
  inferInstanceAs (Decidable (List.Pairwise _ _))

theorem interchangeable_from (hencode : ∀ state : PersistedNonceState, Codec.encode state ≠ [])
    {calls : List CheckCall} (hcalls : Ordered calls) (h : s.SameLive t)
    (hlate : ∀ call ∈ calls, t ≤ call.nowMs) :
    EachStep step Interchangeable s calls ↔ EachStep step Unaffected s calls := by
  induction calls generalizing s t with
  | nil => exact iff_of_true (eachStep_nil _ s) (eachStep_nil _ s)
  | cons call calls ih =>
    obtain ⟨hnext, hrest⟩ := List.pairwise_cons.1 hcalls
    have hle := hlate call List.mem_cons_self
    rw [eachStep_cons, eachStep_cons, interchangeable_iff hencode h hle]
    refine and_congr_right fun hcall => ?_
    refine forall_congr' fun s' => imp_congr_right fun hstep => ?_
    exact ih hrest (h.step hencode hle hcall hstep) hnext

/-- **The stores are interchangeable** in a run from empty stores exactly when at each call the file
can be read and the expired nonces that are still in memory make no difference. -/
theorem interchangeable_run (hencode : ∀ state : PersistedNonceState, Codec.encode state ≠ [])
    {calls : List CheckCall} (hcalls : Ordered calls) :
    EachStep step Interchangeable new calls ↔ EachStep step Unaffected new calls :=
  interchangeable_from hencode hcalls sameLive_new fun _ _ => UInt64.zero_le

end NonceStores

/-! ### A nonce that expires behind a live one -/

namespace NonceStores

theorem encode_nonceStateJson (state : PersistedNonceState) : nonceStateJson.encode state ≠ [] := by
  intro h
  have hlength := (length_utf8 (stateText state)).1
  rw [show utf8 (stateText state) = [] from h, stateText] at hlength
  simp at hlength

theorem checkAndRecord_memory {memory : InMemoryPeerNonceStore} {nonce : String}
    {expiresAtMs nowMs : UInt64} (hkept : retainMemory nowMs memory.seen memory.order = memory)
    (hnew : nonce ∉ memory.seen) (hroom : memory.seen.size < maxNonceCacheEntries) :
    checkAndRecord memory nonce expiresAtMs nowMs =
      (.ok (), ⟨memory.seen.insert nonce expiresAtMs, memory.order ++ [nonce]⟩) := by
  simp only [checkAndRecord, hkept]
  rw [if_neg (by simpa using hnew), if_neg (Nat.not_le.2 hroom)]

/-- A nonce that is used for the first time is taken by both. -/
theorem interchangeable_first :
    @EachStep _ _ (@step nonceStateJson) (@Interchangeable nonceStateJson) new [⟨"a", 100, 0⟩] := by
  let _ := nonceStateJson
  refine (interchangeable_run encode_nonceStateJson (by decide)).2 ?_
  refine eachStep_cons.2 ⟨⟨?_, .inr ⟨?_, ?_⟩⟩, fun s _ => eachStep_nil _ s⟩
  · intro bytes hbytes
    cases hbytes
  · exact Std.ExtTreeMap.not_mem_empty
  · decide

/-- The process-local store refuses a nonce that the durable one takes. -/
theorem expired_behind_live :
    ¬ ∀ (codec : Codec PersistedNonceState) (calls : List CheckCall),
      (∀ state : PersistedNonceState, codec.encode state ≠ []) → Ordered calls →
      EachStep (@step codec) (@Interchangeable codec) new calls := by
  intro hclaim
  let _ := nonceStateJson
  have hsame := hclaim nonceStateJson [⟨"a", 100, 0⟩, ⟨"b", 10, 0⟩, ⟨"b", 100, 20⟩]
    encode_nonceStateJson (by decide)
  have hunaffected := (interchangeable_from encode_nonceStateJson (by decide) sameLive_new
    fun _ _ => UInt64.zero_le).1 hsame [⟨"a", 100, 0⟩, ⟨"b", 10, 0⟩] ⟨"b", 100, 20⟩ [] _ rfl rfl
  have hpruned := hunaffected.pruned
  have hfirst : checkAndRecord new.memory "a" 100 0 = (.ok (), ⟨(∅ : NonceMap).insert "a" 100, ["a"]⟩) :=
    checkAndRecord_memory rfl Std.ExtTreeMap.not_mem_empty (by decide)
  -- `a` is live and at the front, so that nothing is forgotten
  have hkept {nowMs : UInt64} (hlive : nowMs < 100) {seen : NonceMap} (ha : seen["a"]? = some 100)
      (order : List String) : retainMemory nowMs seen ("a" :: order) = ⟨seen, "a" :: order⟩ := by
    rw [retainMemory, ha]
    simp [UInt64.not_le.2 hlive]
  have hab : ("a" : String) ≠ "b" := by decide
  have hsecond : checkAndRecord (⟨(∅ : NonceMap).insert "a" 100, ["a"]⟩ : InMemoryPeerNonceStore)
      "b" 10 0 = (.ok (), ⟨((∅ : NonceMap).insert "a" 100).insert "b" 10, ["a", "b"]⟩) := by
    refine checkAndRecord_memory (hkept (by decide) Std.ExtTreeMap.getElem?_insert_self _) ?_ ?_
    · simp [Std.ExtTreeMap.mem_insert, Std.LawfulEqCmp.compare_eq_iff_eq, hab]
    · exact lt_of_le_of_lt Std.ExtTreeMap.size_insert_le (by decide)
  simp only [hfirst, hsecond] at hpruned
  rw [hkept (by decide) (by rw [lookup_insert, if_neg hab.symm, lookup_insert, if_pos rfl])] at hpruned
  rcases hpruned with hlive | ⟨hnew, -⟩
  · obtain ⟨expiry, hentry, hexpiry⟩ := mem_liveNonces.1 hlive
    rw [lookup_insert, if_pos rfl] at hentry
    cases hentry
    exact absurd hexpiry (by decide)
  · exact hnew Std.ExtTreeMap.mem_insert_self

end NonceStores

end AppCore.PeerRpc
