import AppCore.Base.Runs
import AppCore.Storage.SealedStoreProof

/-!
# Runs of the sealed object store

Writes, compact writes and rotations of keys, one after another, from any disk.

* `sealed_run` — under a policy whose bound on a file is a number, every read returns the payload
  that was written last, and a call that fails leaves the files alone.

Paths that name the same file are one path here. Two writes are left out: onto a directory, where the
temporary file stays behind, and onto the data root itself when there is none.
-/

namespace AppCore.Storage

open Dnt

/-! ## What a call does -/

section Calls

variable [Sha256] [aead : Aead] [zlib : Zlib] {store : DntFileObjectStore} {path : String}
  {d : Disk}

/-- What a call that writes did: a payload was sealed into the place of one file, or nothing was
done. -/
def DntFileObjectStore.Places (store : DntFileObjectStore) (path : String) (payload : Bytes)
    (d : Disk) (r : Except SealedError Unit) (t : Disk) : Prop :=
  (r = .ok () ∧ ∃ parent base names envelope,
    store.provider.storagePath = parent ++ [base] ∧ relativeNames path = some names ∧
      store.Seals envelope payload ∧ filesBelow t (parent ++ [base]) =
        Function.update (filesBelow d (parent ++ [base])) names (some envelope) ∧
      Held parent base (fun _ => none) t) ∨
  (r ≠ .ok () ∧ LeftAlone store.provider d t)

theorem places_error {payload : Bytes} {t : Disk} (e : SealedError)
    (h : LeftAlone store.provider d t) : store.Places path payload d (.error e) t :=
  Or.inr ⟨by simp, h⟩

theorem DntFileObjectStore.Places.of_leftAlone {payload : Bytes} {r : Except SealedError Unit}
    {t u : Disk} (h : LeftAlone store.provider d t) (hplaces : store.Places path payload t r u) :
    store.Places path payload d r u := by
  rcases hplaces with ⟨hr, parent, base, names, envelope, hp, hnames, hseals, hfiles, hheld⟩ | hfails
  · have hsame := h.files
    rw [hp] at hsame
    rw [hsame] at hfiles
    exact Or.inl ⟨hr, parent, base, names, envelope, hp, hnames, hseals, hfiles, hheld⟩
  · exact Or.inr ⟨hfails.1, h.trans hfails.2⟩

theorem wp_placeEnvelope {envelope payload : Bytes} (h : store.Seals envelope payload)
    {stamp : String} (hwritable : Writable store.provider path stamp d) :
    (ofStorage (store.provider.writeBytes path envelope stamp)).wp (fun _ => True)
      (store.Places path payload d) d := by
  rw [ofStorage, Prog.wp_mapError]
  refine ⟨fun _ _ => trivial, ?_⟩
  cases hr : (store.provider.writeBytes path envelope stamp).result d with
  | error e =>
    refine places_error _ ((wp_writeBytes_leftAlone hwritable).2 ?_)
    simp [hr]
  | ok u =>
    obtain hnil | ⟨parent, base, heq⟩ := List.eq_nil_or_concat store.provider.storagePath
    · exact absurd hr (wp_writeBytes_nameless hnil).2.1
    · have hp : store.provider.storagePath = parent ++ [base] :=
        heq.trans List.concat_eq_append
      obtain ⟨names, hnames, hfiles, hheld⟩ := (wp_writeBytes_held hp hwritable.2).2 hr
      exact Or.inl ⟨rfl, parent, base, names, envelope, hp, hnames, h, hfiles, hheld⟩

/-- What a write seals and verifies. -/
def DntFileObjectStore.sealed (store : DntFileObjectStore) (payload : Bytes) (flags : UInt32)
    (draw : Draw) : DntResult Bytes := do
  let options := { store.policy.sealOptions draw.nowMs [] with flags := flags }
  let envelope ← sealDnt payload store.keyProvider store.codec options draw.random
  let _ ← verifyDnt envelope store.keyProvider store.codec store.policy.openOptions
  .ok envelope

theorem wp_writeObject_of_sealed {payload envelope : Bytes} {flags : UInt32} {draw : Draw}
    {C : Disk → Prop} {Q : Except SealedError Unit → Disk → Prop}
    (hsealed : store.sealed payload flags draw = .ok envelope)
    (h : (ofStorage (store.provider.writeBytes path envelope draw.stamp)).wp C Q d) :
    (store.writeObjectWithFlags path payload flags draw).wp C Q d := by
  obtain ⟨found, hseal, hrest⟩ := bind_eq_ok.1 hsealed
  obtain ⟨verified, hverify, heq⟩ := bind_eq_ok.1 hrest
  obtain rfl := Except.ok.inj heq
  refine wp_ofDnt_bind (fun other hother => ?_) fun e he => ?_
  swap
  · cases hseal.symm.trans he
  obtain rfl := Except.ok.inj (hseal.symm.trans hother)
  refine wp_ofDnt_bind (fun _ _ => h) fun e he => ?_
  cases hverify.symm.trans he

theorem wp_writeObject (haead : aead.Correct) (hdetached : aead.Detached)
    (hzlib : zlib.Lossless) (hcodec : store.codec.Lawful) {payload : Bytes} {flags : UInt32}
    {draw : Draw} (hwritable : (∃ envelope, store.sealed payload flags draw = .ok envelope) →
      Writable store.provider path draw.stamp d) :
    (store.writeObjectWithFlags path payload flags draw).wp (fun _ => True)
      (store.Places path payload d) d := by
  refine wp_ofDnt_bind (fun envelope hseal => ?_)
    fun e _ => places_error _ (LeftAlone.refl _ d)
  refine wp_ofDnt_bind (fun verified hverify => ?_)
    fun e _ => places_error _ (LeftAlone.refl _ d)
  refine wp_placeEnvelope (seals_of_sealDnt haead hdetached hzlib hcodec rfl hseal hverify)
    (hwritable ⟨envelope, ?_⟩)
  rw [DntFileObjectStore.sealed]
  dsimp only
  rw [hseal, ok_bind, hverify, ok_bind]

/-- **A rotation.** It seals again what was in the place. -/
theorem wp_rekeyObject (haead : aead.Correct) (hdetached : aead.Detached)
    (hzlib : zlib.Lossless) (hcodec : store.codec.Lawful) (newKeyId : KeyId) (draw : Draw) :
    (store.rekeyObject path newKeyId draw).wp (fun _ => True) (fun r t => ∃ payload,
      store.Places path payload d r t ∧ (r = .ok () → ∀ names envelope found,
        relativeNames path = some names →
          filesBelow d store.provider.storagePath names = some envelope →
            store.Seals envelope found → found = payload)) d := by
  have hfailed (t : Disk) (e : SealedError) (h : LeftAlone store.provider d t) :
      ∃ payload, store.Places path payload d (.error e) t ∧ ((Except.error e : Except SealedError
        Unit) = .ok () → ∀ names envelope found, relativeNames path = some names →
          filesBelow d store.provider.storagePath names = some envelope →
            store.Seals envelope found → found = payload) :=
    ⟨[], places_error e h, fun h => by cases h⟩
  refine wp_ofDnt_bind (fun maxBytes _ => ?_) fun e _ => hfailed d _ (LeftAlone.refl _ d)
  have hleft := leftAlone_readBytesBounded store.provider path maxBytes d
  refine wp_ofStorage_bind ⟨fun _ _ => trivial, fun content hread => ?_,
    fun e _ => hfailed _ _ hleft⟩
  generalize (store.provider.readBytesBounded path maxBytes).final d = t at hleft ⊢
  obtain ⟨parent, base, names, hp, -, hnames, hfile⟩ :=
    held_of_readable (readable_of_bounded hread).1
  refine wp_ofDnt_bind (fun _ _ => ?_) fun e _ => hfailed _ _ hleft
  refine wp_ofDnt_bind (fun rotated hrekey => ?_) fun e _ => hfailed _ _ hleft
  refine wp_ofDnt_bind (fun verified hverify => ?_) fun e _ => hfailed _ _ hleft
  obtain ⟨opened, hopen, hseal⟩ := bind_eq_ok.1 hrekey
  have hopening := opening_optionsFromOpened (header_of_openDnt hopen).2 newKeyId
  -- the file that was read is in the place of the new one
  have hget : t.get (store.provider.storagePath ++ names) = some (.file content) := by
    rw [← filesBelow_eq_some, hleft.files, hfile]
  have hwritable : Writable store.provider path draw.stamp t := by
    constructor
    · rintro ⟨lock, other, -, -, hother, -, hdir, -⟩
      obtain rfl := Option.some.inj (hnames.symm.trans hother)
      rw [hget] at hdir
      cases hdir
    · rintro ⟨hother, hnone⟩
      obtain rfl := Option.some.inj (hnames.symm.trans hother)
      rw [List.append_nil, hnone] at hget
      cases hget
  have hseals := seals_of_sealDnt haead hdetached hzlib hcodec hopening hseal hverify
  refine Prog.wp_mono (wp_placeEnvelope hseals hwritable) (fun _ _ => trivial) ?_
  intro r u hplaces
  refine ⟨opened.payload, hplaces.of_leftAlone hleft, fun _ other envelope found hother henvelope
    hfound => ?_⟩
  obtain rfl := Option.some.inj (hnames.symm.trans hother)
  obtain rfl := Option.some.inj (hfile.symm.trans henvelope)
  obtain ⟨opened', hcopied, rfl⟩ := hfound.copied
  rw [Except.ok.inj (hcopied.symm.trans hopen)]

end Calls

/-! ## Runs -/

/-- A call that writes. -/
inductive Request where
  | write (path : String) (payload : Bytes)
  | writeCompact (path : String) (payload : Bytes)
  | rekey (path : String) (newKeyId : KeyId)

/-- A request, with what it takes from its surroundings. -/
structure SealedCall where
  request : Request
  draw : Draw

/-- The disk, and the payload that was written last to each place. -/
structure SealedState where
  disk : Disk
  written : Path → Option Bytes

namespace DntFileObjectStore

variable [Sha256] [Aead] [Zlib] (store : DntFileObjectStore)

/-- What a call runs. -/
def prog (call : SealedCall) : SealedProg Unit :=
  match call.request with
  | .write path payload => store.writeObject path payload call.draw
  | .writeCompact path payload => store.writeObjectCompact path payload call.draw
  | .rekey path newKeyId => store.rekeyObject path newKeyId call.draw

/-- The payload is the last one written to the path. -/
def record (written : Path → Option Bytes) (path : String) (payload : Bytes) : Path → Option Bytes :=
  Function.update written ((relativeNames path).getD []) (some payload)

/-- What was written last, after a call that succeeded. -/
def recorded (written : Path → Option Bytes) : Request → Path → Option Bytes
  | .write path payload => record written path payload
  | .writeCompact path payload => record written path payload
  | .rekey _ _ => written

/-- A call is made. -/
def step (s : SealedState) (call : SealedCall) : Option SealedState :=
  match (store.prog call).result s.disk with
  | .ok _ => some ⟨(store.prog call).final s.disk, recorded s.written call.request⟩
  | .error _ => some { s with disk := (store.prog call).final s.disk }

/-- What was written last is what is read. -/
def ReturnsLast (s : SealedState) : Prop :=
  ∀ path names payload, relativeNames path = some names → s.written names = some payload →
    (store.readObject path).result s.disk = .ok payload ∧
      (store.verifyObject path).result s.disk = .ok ()

/-- If the call fails, the files stay as they are. -/
def FailsCleanly (s : SealedState) (call : SealedCall) : Prop :=
  (store.prog call).result s.disk ≠ .ok () →
    filesBelow ((store.prog call).final s.disk) store.provider.storagePath =
      filesBelow s.disk store.provider.storagePath

/-- A payload that can be sealed is written to a place for a file. -/
def Placeable (s : SealedState) (call : SealedCall) : Prop :=
  match call.request with
  | .write path payload => (∃ envelope, store.sealed payload 0 call.draw = .ok envelope) →
      Writable store.provider path call.draw.stamp s.disk
  | .writeCompact path payload =>
    (∃ envelope, store.sealed payload dntFlagPayloadDeflate call.draw = .ok envelope) →
      Writable store.provider path call.draw.stamp s.disk
  | .rekey _ _ => True

/-- The invariant: an envelope of what was written last is in its place. -/
def Kept (s : SealedState) : Prop :=
  ∀ names payload, s.written names = some payload → ∃ parent base envelope,
    store.provider.storagePath = parent ++ [base] ∧ Held parent base (fun _ => none) s.disk ∧
      filesBelow s.disk (parent ++ [base]) names = some envelope ∧ store.Seals envelope payload

end DntFileObjectStore

section Runs

variable [Sha256] [aead : Aead] [zlib : Zlib] {store : DntFileObjectStore} {s s' : SealedState}
  {call : SealedCall}

theorem returnsLast_of_kept (hbounded : store.policy.Bounded) (h : store.Kept s) :
    store.ReturnsLast s := by
  intro path names payload hnames hwritten
  obtain ⟨parent, base, envelope, hp, hheld, hfile, hseals⟩ := h names payload hwritten
  have hfiles : Held parent base (filesBelow s.disk (parent ++ [base])) s.disk :=
    ⟨holds_filesBelow hheld.holds.dir, hheld.lock⟩
  exact read_sealed hbounded hp hfiles hnames hfile hseals

theorem kept_of_leftAlone {t : Disk} (h : store.Kept s)
    (hleft : LeftAlone store.provider s.disk t) : store.Kept { s with disk := t } := by
  intro names payload hwritten
  obtain ⟨parent, base, envelope, hp, hheld, hfile, hseals⟩ := h names payload hwritten
  have hfiles := hleft.files
  rw [hp] at hfiles
  exact ⟨parent, base, envelope, hp, hleft.held parent base hp hheld, by rw [hfiles, hfile],
    hseals⟩

/-- A call that placed a payload keeps it, when that is the payload written last to the place. -/
theorem kept_of_placed {path : String} {payload : Bytes} {t : Disk} {written : Path → Option Bytes}
    (h : store.Kept s) (hplaces : store.Places path payload s.disk (.ok ()) t)
    (hwritten : ∀ names found, written names = some found →
      (relativeNames path = some names → found = payload) ∧
        (relativeNames path ≠ some names → s.written names = some found)) :
    store.Kept ⟨t, written⟩ := by
  rcases hplaces with ⟨-, parent, base, here, envelope, hp, hhere, hseals, hfiles, hheld⟩ | hfails
  swap
  · exact absurd rfl hfails.1
  intro names found hfound
  obtain ⟨hsame, hother⟩ := hwritten names found hfound
  by_cases hnames : names = here
  · rw [hnames, hsame (hnames ▸ hhere)]
    refine ⟨parent, base, envelope, hp, hheld, ?_, hseals⟩
    rw [hfiles, Function.update_self]
  · have hne : relativeNames path ≠ some names := by
      rw [hhere]
      exact fun heq => hnames (Option.some.inj heq).symm
    obtain ⟨parent', base', old, hp', -, hfile, hold⟩ := h names found (hother hne)
    obtain ⟨rfl, hbase⟩ := List.append_inj' (hp.symm.trans hp') rfl
    obtain rfl : base = base' := by simpa using hbase
    refine ⟨parent, base, old, hp, hheld, ?_, hold⟩
    rw [hfiles, Function.update_of_ne hnames]
    exact hfile

/-- A write keeps the invariant, whatever became of it. -/
theorem kept_record {path : String} {payload : Bytes} {r : Except SealedError Unit} {t : Disk}
    (h : store.Kept s) (hplaces : store.Places path payload s.disk r t) :
    (r = .ok () → store.Kept ⟨t, DntFileObjectStore.record s.written path payload⟩) ∧
      (r ≠ .ok () → LeftAlone store.provider s.disk t) := by
  constructor
  · rintro rfl
    refine kept_of_placed h hplaces fun names found hfound => ⟨fun hnames => ?_, fun hnames => ?_⟩
    · rw [DntFileObjectStore.record, hnames, Option.getD_some, Function.update_self] at hfound
      exact (Option.some.inj hfound).symm
    · rcases hplaces with ⟨-, _, _, here, _, -, hhere, -⟩ | hfails
      · have hne : names ≠ here := by
          rintro rfl
          exact hnames hhere
        rw [DntFileObjectStore.record, hhere, Option.getD_some,
          Function.update_of_ne hne] at hfound
        exact hfound
      · exact absurd rfl hfails.1
  · intro hr
    rcases hplaces with ⟨hok, -⟩ | hfails
    · exact absurd hok hr
    · exact hfails.2

/-- **One call**: it succeeds and what was written last is in its place, or it leaves the files
alone. -/
theorem kept_prog (haead : aead.Correct) (hdetached : aead.Detached) (hzlib : zlib.Lossless)
    (hcodec : store.codec.Lawful) (h : store.Kept s) (hnext : store.Placeable s call) :
    ((store.prog call).result s.disk = .ok () →
      store.Kept ⟨(store.prog call).final s.disk,
        DntFileObjectStore.recorded s.written call.request⟩) ∧
    ((store.prog call).result s.disk ≠ .ok () →
      LeftAlone store.provider s.disk ((store.prog call).final s.disk)) := by
  obtain ⟨request, draw⟩ := call
  cases request with
  | write path payload =>
    exact kept_record h (wp_writeObject haead hdetached hzlib hcodec hnext).2
  | writeCompact path payload =>
    exact kept_record h (wp_writeObject haead hdetached hzlib hcodec hnext).2
  | rekey path newKeyId =>
    obtain ⟨payload, hplaces, hsame⟩ :=
      (wp_rekeyObject haead hdetached hzlib hcodec newKeyId draw).2
    refine ⟨fun hr => ?_, (kept_record h hplaces).2⟩
    refine kept_of_placed h (hr ▸ hplaces) fun names found hfound => ⟨fun hnames => ?_, fun _ => hfound⟩
    obtain ⟨parent, base, envelope, hp, -, hfile, hseals⟩ := h names found hfound
    exact hsame hr names envelope found hnames (hp ▸ hfile) hseals

theorem kept_step (haead : aead.Correct) (hdetached : aead.Detached) (hzlib : zlib.Lossless)
    (hcodec : store.codec.Lawful) (h : store.Kept s) (hnext : store.Placeable s call)
    (hstep : store.step s call = some s') : store.Kept s' := by
  obtain ⟨hok, herror⟩ := kept_prog haead hdetached hzlib hcodec h hnext
  rw [DntFileObjectStore.step] at hstep
  cases hr : (store.prog call).result s.disk with
  | ok u =>
    rw [hr] at hstep
    obtain rfl := Option.some.inj hstep
    exact hok hr
  | error e =>
    rw [hr] at hstep
    obtain rfl := Option.some.inj hstep
    exact kept_of_leftAlone h (herror (by simp [hr]))

/-- **The store returns the last good object**, in every run of calls that are not made onto a
directory or a missing data root, when the bound on a file is a number. When it is not, nothing can
be read. -/
theorem sealed_run (haead : aead.Correct) (hdetached : aead.Detached) (hzlib : zlib.Lossless)
    (hcodec : store.codec.Lawful) (d : Disk) :
    (store.policy.Bounded → ∀ calls : List SealedCall,
      EachStep store.step store.Placeable ⟨d, fun _ => none⟩ calls →
        Throughout store.step store.ReturnsLast ⟨d, fun _ => none⟩ calls ∧
          EachStep store.step store.FailsCleanly ⟨d, fun _ => none⟩ calls) ∧
    (¬ store.policy.Bounded → ∀ path,
      (∀ payload, (store.readObject path).result d ≠ .ok payload) ∧
        (store.verifyObject path).result d ≠ .ok ()) := by
  refine ⟨fun hbounded calls hcalls => ?_, fun hwide path => unreadable hwide path d⟩
  have hstart : store.Kept ⟨d, fun _ => none⟩ := fun _ _ h => by cases h
  have hkept : Throughout store.step store.Kept ⟨d, fun _ => none⟩ calls :=
    throughout_of_step hstart
      (fun _ _ _ h hnext hstep => kept_step haead hdetached hzlib hcodec h hnext hstep) hcalls
  refine ⟨hkept.imp fun _ h => returnsLast_of_kept hbounded h, ?_⟩
  refine hkept.eachStep hcalls fun state call h hnext hr => ?_
  exact ((kept_prog haead hdetached hzlib hcodec h hnext).2 hr).files

/-- A condition that is needed: where a sealed payload leaves its temporary file, the call fails and
the files change. -/
theorem not_failsCleanly {path : String} {payload : Bytes} {draw : Draw}
    (hsealed : ∃ envelope, store.sealed payload 0 draw = .ok envelope)
    (hleaves : LeavesTemporary store.provider path draw.stamp s.disk) :
    ¬ store.FailsCleanly s ⟨.write path payload, draw⟩ := by
  obtain ⟨envelope, hsealed⟩ := hsealed
  obtain ⟨rel, hnone, hwrite⟩ := wp_writeBytes_leaves envelope hleaves
  have hwp : (store.prog ⟨.write path payload, draw⟩).wp (fun _ => True) (fun r t => r ≠ .ok () ∧
      filesBelow t store.provider.storagePath rel = some envelope) s.disk := by
    refine wp_writeObject_of_sealed hsealed ?_
    rw [ofStorage, Prog.wp_mapError]
    refine Prog.wp_mono hwrite (fun _ _ => trivial) ?_
    rintro r t ⟨rfl, hfile⟩
    exact ⟨by simp [Except.mapError], hfile⟩
  intro hcleanly
  obtain ⟨hfailed, hfile⟩ := hwp.2
  rw [hcleanly hfailed, hnone] at hfile
  cases hfile

end Runs

/-! ## A write under a policy -/

/-- A policy with this limit. -/
def samplePolicy (maxPayloadBytes : UInt64) : SealedStoragePolicy where
  applicationId := sampleParts.applicationId
  tenantId := none
  contentType := sampleParts.contentType
  schemaVersion := 1
  keyId := sampleParts.keyId
  maxPayloadBytes := maxPayloadBytes
  publicMetadata := []

/-- A store under that policy. -/
def sampleStore (maxPayloadBytes : UInt64) : DntFileObjectStore :=
  ⟨sampleProvider, Dnt.sampleProvider, bytesCodec, samplePolicy maxPayloadBytes⟩

/-- A write of two bytes to the file `a`. -/
def sampleWriteCall : SealedCall :=
  ⟨.write "a" [5, 6], 7, some (Vector.replicate 24 9), "1_ThreadId1_0"⟩

theorem encodeHeader_sample (maxPayloadBytes : UInt64) (payloadHash : Digest) :
    ∃ header, encodeHeader (sealedParts ((samplePolicy maxPayloadBytes).sealOptions 7 [])
      bytesCodec.codecId (Vector.replicate 24 9) [5, 6] payloadHash) = .ok header := by
  have ht : ValidTenant (sealedParts ((samplePolicy maxPayloadBytes).sealOptions 7 [])
      bytesCodec.codecId (Vector.replicate 24 9) [5, 6] payloadHash) := fun _ h => by cases h
  refine ⟨_, (encodeHeader_eq_ok ht).2 ⟨⟨?_, ?_⟩, ?_, rfl⟩⟩
  · exact Nat.zero_le _
  · exact Nat.zero_le _
  · have happlication : (strBytes sampleParts.applicationId.asStr).length = 7 := by decide
    have hcontent : (strBytes sampleParts.contentType.asStr).length = 16 := by decide
    have hcodec : (strBytes bytesCodec.codecId.asStr).length = 5 := by decide
    have hkey : (strBytes sampleParts.keyId.asStr).length = 5 := by decide
    simp [headerSize, headerBody, textBytes, Dnt.optionalBytes, toBeBytes16, toBeBytes32, toBeBytes64,
      sealedParts, SealedStoragePolicy.sealOptions, samplePolicy, happlication, hcontent, hcodec,
      hkey, dntMaxHeaderBytes]

/-- What the sample gives to the cipher. -/
theorem requested_sample [Sha256] [Zlib] {maxPayloadBytes : UInt64}
    (h : 2 ≤ maxPayloadBytes.toNat) : ∃ header payloadHash,
      Requested [5, 6] Dnt.sampleProvider bytesCodec
        ((samplePolicy maxPayloadBytes).sealOptions 7 [])
        ⟨Vector.replicate 32 1, Vector.replicate 24 9, header, [0, 0, 0, 0, 5, 6]⟩ [5, 6] [5, 6]
        payloadHash := by
  have hfits : enforceMax 2 (some maxPayloadBytes) = .ok () := by
    rw [enforceMax_eq_ok]
    intro limit hlimit
    rwa [← Option.some.inj hlimit]
  have hlength : ([5, 6] : Bytes).length < 2 ^ 64 := by decide
  have hdigest : ∃ payloadHash, payloadDigest (Vector.replicate 32 1) [5, 6] = .ok payloadHash := by
    rw [payloadDigest, if_pos hlength]
    exact ⟨_, rfl⟩
  obtain ⟨payloadHash, hdigest⟩ := hdigest
  obtain ⟨header, hheader⟩ := encodeHeader_sample maxPayloadBytes payloadHash
  have hflags : validateFlags 0 = .ok () := by decide
  have hcompression : DntCompression.fromFlags 0 = .ok .none := by decide
  have hstore : encodePayload 0 [5, 6] (some maxPayloadBytes) = .ok [5, 6] := by
    rw [encodePayload, hcompression, ok_bind]
  have hmetadata : ([] : Bytes).length < 2 ^ 32 := by decide
  have hplaintext : encodePlaintext [] [5, 6] = .ok [0, 0, 0, 0, 5, 6] := by decide
  exact ⟨header, payloadHash, hfits, hflags, rfl, hfits, hstore, hfits, hmetadata, rfl, hdigest,
    hlength, hheader, hplaintext⟩

theorem encrypt_short (key : SecretKey) (nonce : Nonce) (aad : Bytes) {plaintext : Bytes}
    (h : ¬ ChaCha.tooLong plaintext) :
    ∃ ciphertext, xChaCha20Poly1305.encrypt key nonce aad plaintext = some ciphertext := by
  change ∃ ciphertext, ChaCha.sealMessage key nonce aad plaintext = some ciphertext
  rw [ChaCha.sealMessage, if_neg h]
  exact ⟨_, rfl⟩

/-- The sample is sealed, when its two bytes are within the limit. -/
theorem sealed_sample [Sha256] [aead : Aead] [zlib : Zlib] (haead : aead.Correct)
    (hzlib : zlib.Lossless) (hencrypt : ∀ aad, ∃ ciphertext, aead.encrypt (Vector.replicate 32 1)
      (Vector.replicate 24 9) aad [0, 0, 0, 0, 5, 6] = some ciphertext)
    {maxPayloadBytes : UInt64} (h : 2 ≤ maxPayloadBytes.toNat) :
    ∃ envelope, (sampleStore maxPayloadBytes).sealed [5, 6] 0 sampleWriteCall.draw =
      .ok envelope := by
  obtain ⟨header, payloadHash, hrequest⟩ := requested_sample h
  obtain ⟨ciphertext, hencrypt⟩ := hencrypt header
  have hseal : sealDnt [5, 6] Dnt.sampleProvider bytesCodec
      ((samplePolicy maxPayloadBytes).sealOptions 7 []) (some (Vector.replicate 24 9)) =
        .ok (header ++ ciphertext) := by
    have hsealed := sealRequest_of_requested hrequest
    dsimp only at hsealed
    rw [sealDnt, hsealed, ok_bind]
    exact envelope_eq_ok.2 ⟨ciphertext, hencrypt, rfl⟩
  obtain ⟨opened, hopen, -⟩ := opened_of_sealDnt haead hzlib bytesCodec_lawful
    (fun _ h => by cases h) (fun _ => Option.some_ne_none _) hseal
  obtain ⟨verified, hverify⟩ := verified_of_openDnt hopen
  refine ⟨header ++ ciphertext, ?_⟩
  change (sealDnt [5, 6] Dnt.sampleProvider bytesCodec ((samplePolicy maxPayloadBytes).sealOptions
    7 []) (some (Vector.replicate 24 9)) >>= fun envelope =>
      verifyDnt envelope Dnt.sampleProvider bytesCodec
        ((samplePolicy maxPayloadBytes).sealOptions 7 []).opening >>= fun _ => Except.ok envelope) = _
  rw [hseal, ok_bind, hverify, ok_bind]

theorem written_sample (envelope : Bytes) :
    (sampleProvider.writeBytes "a" envelope "1_ThreadId1_0").result freshDisk = .ok () := by
  rfl

theorem result_sample [Sha256] [aead : Aead] [zlib : Zlib] {store : DntFileObjectStore}
    (hprovider : store.provider = sampleProvider)
    (hsealed : ∃ envelope, store.sealed [5, 6] 0 sampleWriteCall.draw = .ok envelope) :
    (store.prog sampleWriteCall).result freshDisk = .ok () := by
  obtain ⟨envelope, hsealed⟩ := hsealed
  have hwp : (store.prog sampleWriteCall).wp (fun _ => True) (fun r _ => r = .ok ()) freshDisk := by
    refine wp_writeObject_of_sealed hsealed ?_
    rw [ofStorage, Prog.wp_mapError, hprovider]
    refine ⟨fun _ _ => trivial, ?_⟩
    have hwritten := written_sample envelope
    rw [sampleWriteCall, hwritten]
    rfl
  exact hwp.2

theorem run_sample [Sha256] [aead : Aead] [zlib : Zlib] {store : DntFileObjectStore}
    (hprovider : store.provider = sampleProvider)
    (hsealed : ∃ envelope, store.sealed [5, 6] 0 sampleWriteCall.draw = .ok envelope) :
    ∃ s, runFrom store.step ⟨freshDisk, fun _ => none⟩ [sampleWriteCall] = some s ∧
      s.written ["a"] = some [5, 6] := by
  have hresult := result_sample hprovider hsealed
  refine ⟨⟨(store.prog sampleWriteCall).final freshDisk,
    DntFileObjectStore.recorded (fun _ => none) sampleWriteCall.request⟩, ?_, ?_⟩
  · rw [runFrom_cons, DntFileObjectStore.step, hresult]
    rfl
  · have hnames : (relativeNames "a").getD [] = ["a"] := by decide
    change DntFileObjectStore.record (fun _ => none) "a" [5, 6] ["a"] = _
    rw [DntFileObjectStore.record, hnames, Function.update_self]

theorem sealed_fips {maxPayloadBytes : UInt64} (h : 2 ≤ maxPayloadBytes.toNat) :
    ∃ envelope, @DntFileObjectStore.sealed Sha256.fips xChaCha20Poly1305 storingZlib
      (sampleStore maxPayloadBytes) [5, 6] 0 sampleWriteCall.draw = .ok envelope := by
  have hshort : ¬ ChaCha.tooLong [0, 0, 0, 0, 5, 6] := by decide
  exact @sealed_sample Sha256.fips xChaCha20Poly1305 storingZlib xChaCha20Poly1305_correct
    storingZlib_lossless (fun aad => encrypt_short _ _ aad hshort) _ h

theorem sealed_run_written : ∃ (sha : Sha256) (aead : Aead) (zlib : Zlib) (s : SealedState),
    sha = Sha256.fips ∧ aead = xChaCha20Poly1305 ∧ zlib = storingZlib ∧
      runFrom (sampleStore 64).step ⟨freshDisk, fun _ => none⟩ [sampleWriteCall] = some s ∧
      ((sampleStore 64).readObject "a").result s.disk = .ok [5, 6] ∧
      ((sampleStore 64).verifyObject "a").result s.disk = .ok () := by
  obtain ⟨s, hrun, hwritten⟩ := @run_sample Sha256.fips xChaCha20Poly1305 storingZlib
    (sampleStore 64) rfl (sealed_fips (by decide))
  have hplaceable : @DntFileObjectStore.Placeable Sha256.fips xChaCha20Poly1305 storingZlib
      (sampleStore 64) ⟨freshDisk, fun _ => none⟩ sampleWriteCall := by
    intro _
    constructor
    · rintro ⟨lock, names, -, -, hnames, -, hdir, -⟩
      have ha : relativeNames "a" = some ["a"] := by decide
      obtain rfl := Option.some.inj (ha.symm.trans hnames)
      exact absurd hdir (by decide)
    · rintro ⟨hnames, -⟩
      exact absurd hnames (by decide)
  have hbounded : (sampleStore 64).policy.Bounded := by
    rw [SealedStoragePolicy.Bounded]
    decide
  obtain ⟨hreturns, -⟩ := (@sealed_run Sha256.fips xChaCha20Poly1305 storingZlib (sampleStore 64)
    xChaCha20Poly1305_correct xChaCha20Poly1305_detached storingZlib_lossless bytesCodec_lawful
    freshDisk).1 hbounded [sampleWriteCall]
      (eachStep_cons.2 ⟨hplaceable, fun _ _ => eachStep_nil _ _⟩)
  have hnames : relativeNames "a" = some ["a"] := by decide
  obtain ⟨hread, hverify⟩ := hreturns.final hrun "a" ["a"] [5, 6] hnames hwritten
  exact ⟨_, _, _, s, rfl, rfl, rfl, hrun, hread, hverify⟩

/-- **A write that nobody can read**: under the largest limit there is, the sample is written without
an error. -/
theorem sealed_write_unreadable :
    ¬ ∀ [Sha256] [aead : Aead] [zlib : Zlib], aead.Correct → aead.Detached → zlib.Lossless →
      ∀ store : DntFileObjectStore, store.codec.Lawful → ∀ (d : Disk) (calls : List SealedCall),
        Throughout store.step store.ReturnsLast ⟨d, fun _ => none⟩ calls := by
  intro h
  have hlimit : 2 ≤ (18446744073709551615 : UInt64).toNat := by decide
  obtain ⟨s, hrun, hwritten⟩ := @run_sample Sha256.fips xChaCha20Poly1305 storingZlib
    (sampleStore 18446744073709551615) rfl (sealed_fips hlimit)
  have hreturns := (@h Sha256.fips xChaCha20Poly1305 storingZlib xChaCha20Poly1305_correct
    xChaCha20Poly1305_detached storingZlib_lossless (sampleStore 18446744073709551615)
    bytesCodec_lawful freshDisk [sampleWriteCall]).final hrun
  have hnames : relativeNames "a" = some ["a"] := by decide
  have hwide : ¬ (sampleStore 18446744073709551615).policy.Bounded := by
    rw [SealedStoragePolicy.Bounded]
    decide
  exact (@unreadable Sha256.fips xChaCha20Poly1305 storingZlib (sampleStore 18446744073709551615)
    hwide "a" s.disk).1 [5, 6] (hreturns "a" ["a"] [5, 6] hnames hwritten).1

end AppCore.Storage
