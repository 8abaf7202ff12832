import AppCore.Dnt.RoundTrip
import AppCore.Storage.Fs

/-!
# DNT files

`verify` of `model.rs` and the file helpers of `io.rs`. `write_atomic` seals a payload, verifies what
it sealed under the options of the reader, and moves it into its place; `read_verified` reads a
bounded file and opens it.

* `read_written` — what `write_atomic` accepts, `read_verified` reads.

The reader bounds the whole file by the largest header, the largest metadata, the length field, the
tag and the payload limit. The writer checks none of these sums, but each part has its own bound: the
header when it is written, the metadata when it is encoded, and the payload when the envelope is
verified.
-/

namespace AppCore.Dnt

structure VerifiedDnt where
  header : DntHeader
  deriving DecidableEq

/-- `verify`. A payload that is not compressed is not looked at. -/
def verifyDnt [Sha256] [Aead] [Zlib] (input : Bytes) (provider : DntKeyProvider) (codec : DntCodec)
    (options : DntOpenOptions) : DntResult VerifiedDnt := do
  let dnt ← authenticateInternal input provider codec options
  if dnt.header.compression.isCompacted then do
    let _ ← decodePayload dnt.header.flags dnt.storedPayload options.maxPayloadBytes
    .ok ⟨dnt.header⟩
  else .ok ⟨dnt.header⟩

variable {provider : DntKeyProvider} {codec : DntCodec}

theorem verified_of_openDnt [Sha256] [Aead] [Zlib] {envelope : Bytes} {options : DntOpenOptions}
    {opened : OpenedDnt} (h : openDnt envelope provider codec options = .ok opened) :
    ∃ verified, verifyDnt envelope provider codec options = .ok verified := by
  obtain ⟨dnt, hauthenticate, h⟩ := bind_eq_ok.1 h
  refine ⟨⟨dnt.header⟩, ?_⟩
  rw [verifyDnt, hauthenticate, ok_bind]
  by_cases hcompacted : dnt.header.compression.isCompacted = true
  · rw [openAuthenticated, if_pos hcompacted] at h
    obtain ⟨encoded, hencoded, -⟩ := bind_eq_ok.1 h
    rw [if_pos hcompacted, hencoded, ok_bind]
  · rw [if_neg hcompacted]

/-! ## Files -/

/-- An operation on files: it may stop after any system call. -/
abbrev DntProg (α : Type) := Prog Disk DntError α

def io (call : Disk → Except IoError Disk) : DntProg Unit :=
  Prog.step fun d => (call d).mapError fun _ => .io

def DntOpenOptions.maxEnvelopeBytes (options : DntOpenOptions) : DntResult UInt64 :=
  match options.maxPayloadBytes with
  | none => .error .payloadTooLarge
  | some max =>
    let length := (checkedAdd max (UInt64.ofNat dntMaxHeaderBytes)).bind fun length =>
      (checkedAdd length (UInt64.ofNat dntMaxEncryptedMetadataBytes)).bind fun length =>
        checkedAdd length 20
    match length with
    | none => .error .payloadTooLarge
    | some length => .ok length

/-- `reject_symlink`, on a disk without links. -/
def rejectSymlink (path : Path) (d : Disk) : DntResult Unit :=
  match d.stat path with
  | .ok _ => .ok ()
  | .error .notFound => .ok ()
  | .error _ => .error .io

def readBounded (path : Path) (maxBytes : UInt64) (d : Disk) : DntResult Bytes := do
  rejectSymlink path d
  match d.readFile path with
  | .error _ => .error .io
  | .ok content =>
    if content.length > maxBytes.toNat then .error .payloadTooLarge
    else match checkedAdd maxBytes 1 with
      | none => .error .payloadTooLarge
      | some readLimit =>
        let bytes := content.take readLimit.toNat
        if bytes.length > maxBytes.toNat then .error .payloadTooLarge else .ok bytes

/-- What the name of a temporary file is made of. -/
structure TempStamp where
  process : UInt32
  counter : UInt64
  deriving DecidableEq

def temporaryPath (stamp : TempStamp) (path : Path) : Path :=
  path.dropLast ++ ["." ++ path.getLast?.getD "appcore-dnt" ++ "." ++
    String.ofList (decimal stamp.process.toNat) ++ "-" ++
    String.ofList (decimal stamp.counter.toNat) ++ ".tmp"]

/-- `sync_parent`, which opens the directory. -/
def syncParent (parent : Path) (d : Disk) : DntResult Unit :=
  match d.stat parent with
  | .ok _ => .ok ()
  | .error _ => .error .io

def writeAndRename (temporary path : Path) (bytes : Bytes) : DntProg Unit := do
  io (Disk.createNew · temporary)
  io (Disk.writeAll · temporary bytes)
  io (Disk.rename · temporary path)
  Prog.read (syncParent path.dropLast)

/-- `atomic_replace`. The temporary file goes when the call fails. -/
def atomicReplace (stamp : TempStamp) (path : Path) (bytes : Bytes) : DntProg Unit := do
  Prog.each (fun p => io (Storage.ensureDir p)) path.dropLast.inits.tail
  Prog.read (rejectSymlink path)
  let result ← Prog.attempt (writeAndRename (temporaryPath stamp path) path bytes)
  match result with
  | .ok () => pure ()
  | .error e => do
      let _ ← Prog.attempt (io (Disk.remove · (temporaryPath stamp path)))
      Prog.fail e

/-- `write_atomic`, with the random nonce of its `seal`. -/
def writeAtomic [Sha256] [Aead] [Zlib] (stamp : TempStamp) (path : Path) (payload : Bytes)
    (provider : DntKeyProvider) (codec : DntCodec) (sealOptions : DntSealOptions)
    (openOptions : DntOpenOptions) (random : Option Nonce) : DntProg Unit := do
  let envelope ← Prog.read fun _ => sealDnt payload provider codec sealOptions random
  let _ ← Prog.read fun _ => verifyDnt envelope provider codec openOptions
  atomicReplace stamp path envelope

def readVerified [Sha256] [Aead] [Zlib] (path : Path) (provider : DntKeyProvider) (codec : DntCodec)
    (options : DntOpenOptions) (d : Disk) : DntResult OpenedDnt := do
  let maxBytes ← options.maxEnvelopeBytes
  let bytes ← readBounded path maxBytes d
  openOwned bytes provider codec options

/-! ## The file that is there -/

section

variable {α : Type} {call : Disk → Except IoError Disk} {C : Disk → Prop} {d : Disk}

theorem wp_io {Q : DntResult Unit → Disk → Prop} (hok : ∀ t, call d = .ok t → C t ∧ Q (.ok ()) t)
    (herror : Q (.error .io) d) : (io call).wp C Q d :=
  Prog.wp_step_mapError hok fun _ _ => herror

theorem wp_io_bind {g : Unit → DntProg α} {Q : DntResult α → Disk → Prop}
    (hok : ∀ t, call d = .ok t → C t ∧ (g ()).wp C Q t) (herror : Q (.error .io) d) :
    Prog.wp (io call >>= g) C Q d := by
  rw [Prog.wp_bind]
  exact wp_io hok herror

end

theorem temporaryPath_ne (stamp : TempStamp) (path : Path) : temporaryPath stamp path ≠ path := by
  intro h
  have hlast := congrArg List.getLast? h
  rw [temporaryPath, List.getLast?_concat] at hlast
  cases hname : path.getLast? with
  | none =>
    rw [hname] at hlast
    cases hlast
  | some name =>
    rw [hname, Option.getD_some] at hlast
    -- the name of the file is a proper part of the other one
    have hlength := congrArg String.length (Option.some.inj hlast)
    simp only [String.length_append] at hlength
    have hdot : ".".length = 1 := by decide
    omega

theorem wp_writeAndRename {d : Disk} {temporary path : Path} {bytes : Bytes}
    (hne : temporary ≠ path) :
    (writeAndRename temporary path bytes).wp (fun _ => True)
      (fun r t => r = .ok () → t.get path = some (.file bytes)) d := by
  rw [writeAndRename]
  refine wp_io_bind (fun t _ => ⟨trivial, ?_⟩) nofun
  refine wp_io_bind (fun u hwrite => ⟨trivial, ?_⟩) nofun
  refine wp_io_bind (fun v hrename => ⟨trivial, ?_⟩) nofun
  rw [Prog.wp_read]
  intro _
  have htemporary := Disk.get_writeAll hwrite temporary
  rw [if_pos rfl] at htemporary
  rw [(Disk.get_rename hrename hne).2, if_pos (List.prefix_refl path), List.drop_length,
    List.append_nil, htemporary]

variable {path : Path}

/-- When the call returns without an error, the file is there. -/
theorem wp_atomicReplace {d : Disk} {stamp : TempStamp} {bytes : Bytes} :
    (atomicReplace stamp path bytes).wp (fun _ => True)
      (fun r t => r = .ok () → t.get path = some (.file bytes)) d := by
  have hparents : Prog.Keeps (fun _ : Disk => True)
      (Prog.each (fun p => io (Storage.ensureDir p)) path.dropLast.inits.tail) := by
    apply Prog.keeps_each
    intro p _ t _
    exact wp_io (fun _ _ => ⟨trivial, trivial⟩) trivial
  rw [atomicReplace, Prog.wp_bind]
  refine Prog.wp_mono (hparents d trivial) (fun _ h => h) ?_
  intro r t _
  cases r with
  | error e => nofun
  | ok _ =>
    dsimp only
    rw [Prog.wp_read_bind]
    refine ⟨fun _ _ => ?_, fun _ _ => nofun⟩
    rw [Prog.wp_bind, Prog.wp_attempt]
    refine Prog.wp_mono (wp_writeAndRename (temporaryPath_ne stamp path)) (fun _ h => h) ?_
    intro r u hwritten
    cases r with
    | ok _ =>
      dsimp only
      rw [Prog.wp_pure]
      exact hwritten
    | error e =>
      dsimp only
      rw [Prog.wp_bind, Prog.wp_attempt]
      refine wp_io (fun v _ => ⟨trivial, ?_⟩) ?_
      all_goals
        dsimp only
        rw [Prog.wp_fail]
        exact nofun

/-- What a call without an error has done: the envelope was sealed and verified, and it is the
content of the file. -/
theorem written_of_writeAtomic [Sha256] [Aead] [Zlib] {stamp : TempStamp} {payload : Bytes}
    {sealOptions : DntSealOptions} {openOptions : DntOpenOptions} {random : Option Nonce} {d : Disk}
    (h : (writeAtomic stamp path payload provider codec sealOptions openOptions random).result d =
      .ok ()) :
    ∃ envelope verified, sealDnt payload provider codec sealOptions random = .ok envelope ∧
      verifyDnt envelope provider codec openOptions = .ok verified ∧
      ((writeAtomic stamp path payload provider codec sealOptions openOptions random).final d).get
        path = some (.file envelope) := by
  have hwp : (writeAtomic stamp path payload provider codec sealOptions openOptions random).wp
      (fun _ => True) (fun r t => r = .ok () → ∃ envelope verified,
        sealDnt payload provider codec sealOptions random = .ok envelope ∧
        verifyDnt envelope provider codec openOptions = .ok verified ∧
        t.get path = some (.file envelope)) d := by
    rw [writeAtomic, Prog.wp_read_bind]
    refine ⟨fun envelope hseal => ?_, fun _ _ => nofun⟩
    rw [Prog.wp_read_bind]
    refine ⟨fun verified hverify => ?_, fun _ _ => nofun⟩
    refine Prog.wp_mono wp_atomicReplace (fun _ h => h) ?_
    intro r t hwritten hr
    exact ⟨envelope, verified, hseal, hverify, hwritten hr⟩
  exact hwp.2 h

/-! ## What verification has checked -/

variable {header : DntHeader}

/-- The buffer a plaintext was checked in holds the stored payload. -/
theorem checkPlaintext_of_authenticateBuffer [Sha256] {key : SecretKey} {plaintext : Bytes}
    {dnt : AuthenticatedDnt}
    (h : authenticateBuffer header key plaintext ⟨0, plaintext.length⟩ = .ok dnt) :
    dnt.header = header ∧
      checkPlaintext header key plaintext = .ok (dnt.encryptedMetadata, dnt.storedPayload) := by
  unfold authenticateBuffer at h
  simp only [Range.of_all, List.drop_zero, Nat.zero_add] at h
  obtain ⟨⟨metadataRange, payloadStart⟩, hranges, h⟩ := bind_eq_ok.1 h
  obtain ⟨digestMatches, hdigest, h⟩ := bind_eq_ok.1 h
  split at h
  · cases h
  rename_i hmatches
  cases h
  refine ⟨rfl, ?_⟩
  rw [checkPlaintext, hranges, ok_bind]
  dsimp only
  rw [hdigest, ok_bind, if_neg hmatches, AuthenticatedDnt.storedPayload, Range.of_all]

variable {options : DntSealOptions}

/-- A verified envelope has a header that the options accept, and its stored payload is decoded. -/
theorem accepted_of_verifyDnt [Sha256] [Aead] [Zlib] {payload encoded stored : Bytes}
    {request : SealRequest} {payloadHash : Digest}
    (h : Requested payload provider codec options request encoded stored payloadHash)
    (hread : ReadAs request codec options stored payloadHash header) {ciphertext : Bytes}
    (hdecrypt : decrypt request.key request.nonce request.header ciphertext =
      .ok request.plaintext) {opening : DntOpenOptions} {verified : VerifiedDnt}
    (hverify : verifyDnt (request.header ++ ciphertext) provider codec opening = .ok verified) :
    validateHeaderContext header codec opening = .ok () ∧
      enforceMax header.payloadLength.toNat opening.maxPayloadBytes = .ok () ∧
      ∃ decoded, decodePayload header.flags stored opening.maxPayloadBytes = .ok decoded := by
  obtain ⟨dnt, hauthenticate, hverify⟩ := bind_eq_ok.1 hverify
  rw [authenticateInternal_eq] at hauthenticate
  obtain ⟨⟨header', key⟩, hcheck, hauthenticate⟩ := bind_eq_ok.1 hauthenticate
  obtain ⟨plaintext, hplaintext, hbuffer⟩ := bind_eq_ok.1 hauthenticate
  have hpasses := (passes_of_checkHeader hcheck).1
  obtain rfl : header = header' :=
    Except.ok.inj ((hread.inspected ciphertext).symm.trans hpasses.inspected)
  obtain rfl : request.key = key :=
    Except.ok.inj ((resolveKey_of_readAs h hread).symm.trans hpasses.resolved)
  have hnonce : header.nonce = request.nonce := by rw [hread.parts, sealedParts]
  rw [hread.length, List.take_left, List.drop_left, hnonce, hdecrypt] at hplaintext
  obtain rfl := Except.ok.inj hplaintext
  obtain ⟨hheader, hstored⟩ := checkPlaintext_of_authenticateBuffer hbuffer
  rw [hread.plaintext] at hstored
  obtain ⟨-, hstored⟩ := Prod.mk.inj (Except.ok.inj hstored)
  refine ⟨hpasses.context, hpasses.size, ?_⟩
  rw [hheader, ← hstored] at hverify
  by_cases hcompacted : header.compression.isCompacted = true
  · rw [if_pos hcompacted] at hverify
    obtain ⟨decoded, hdecode, -⟩ := bind_eq_ok.1 hverify
    exact ⟨decoded, hdecode⟩
  · have hflags : header.flags = options.flags := by rw [hread.parts, sealedParts]
    rw [Bool.not_eq_true] at hcompacted
    exact ⟨stored, decodePayload_of_not_compacted (hflags ▸ h.flags) hcompacted stored _⟩

variable {limit : UInt64}

/-- Whatever limit the encoder had, a decoder that succeeds under its own gives back the whole of
what was encoded. -/
theorem decoded_eq_encoded [zlib : Zlib] (hzlib : zlib.Lossless) {flags : UInt32}
    {encoded stored decoded : Bytes} {max : Option UInt64} (hlimit : limit.toNat < 2 ^ 64 - 1)
    (h : encodePayload flags encoded max = .ok stored)
    (hdecode : decodePayload flags stored (some limit) = .ok decoded) :
    decoded = encoded ∧ (decoded = stored ∨ decoded.length ≤ limit.toNat) := by
  obtain ⟨compression, hcompression, h⟩ := bind_eq_ok.1 h
  rw [decodePayload, hcompression, ok_bind] at hdecode
  cases compression with
  | none =>
    cases h
    cases hdecode
    exact ⟨rfl, Or.inl rfl⟩
  | deflate =>
    dsimp only at h hdecode
    split at h
    · cases h
    rename_i compacted hcompacted
    obtain ⟨_, -, h⟩ := bind_eq_ok.1 h
    cases h
    rw [inflateBounded, hzlib _ hcompacted] at hdecode
    dsimp only at hdecode
    obtain ⟨_, hfits, hdecode⟩ := bind_eq_ok.1 hdecode
    cases hdecode
    have hle := enforceMax_eq_ok.1 hfits limit rfl
    refine ⟨?_, Or.inr hle⟩
    -- one byte more than the limit would have been read
    rw [List.length_take, toNat_saturatingAdd] at hle
    apply List.take_of_length_le
    rw [toNat_saturatingAdd]
    have hone : (1 : UInt64).toNat = 1 := rfl
    omega

/-- The bound on a file: the payload limit, the largest header and metadata, the length of the
metadata, and the tag. -/
theorem maxEnvelopeBytes_eq {options : DntOpenOptions} (hmax : options.maxPayloadBytes = some limit)
    (hlimit : limit.toNat ≤ 2 ^ 63) :
    ∃ maxBytes, options.maxEnvelopeBytes = .ok maxBytes ∧
      maxBytes.toNat = limit.toNat + dntMaxHeaderBytes + dntMaxEncryptedMetadataBytes + 20 := by
  have hheader : (UInt64.ofNat dntMaxHeaderBytes).toNat = 65536 := by decide
  have hmetadata : (UInt64.ofNat dntMaxEncryptedMetadataBytes).toNat = 65536 := by decide
  have hrest : (20 : UInt64).toNat = 20 := by decide
  have hfirst : limit.toNat + 65536 < 2 ^ 64 := by omega
  have hsum₁ := toNat_add_of_lt (hheader.symm ▸ hfirst)
  rw [hheader] at hsum₁
  have hsum₂ : (limit + UInt64.ofNat dntMaxHeaderBytes +
      UInt64.ofNat dntMaxEncryptedMetadataBytes).toNat = limit.toNat + 65536 + 65536 := by
    rw [toNat_add_of_lt, hsum₁, hmetadata]
    omega
  have hsum₃ : (limit + UInt64.ofNat dntMaxHeaderBytes +
      UInt64.ofNat dntMaxEncryptedMetadataBytes + 20).toNat =
        limit.toNat + 65536 + 65536 + 20 := by
    rw [toNat_add_of_lt, hsum₂, hrest]
    omega
  refine ⟨_, ?_, hsum₃⟩
  rw [DntOpenOptions.maxEnvelopeBytes, hmax]
  dsimp only
  rw [checkedAdd, if_pos (by omega), Option.bind_some, checkedAdd, if_pos (by omega),
    Option.bind_some, checkedAdd, if_pos (by omega)]

/-- The parts of an envelope are within their bounds, whatever limit it was sealed under. -/
theorem length_envelope_le [Sha256] [aead : Aead] [Zlib] (haead : aead.Correct)
    {payload encoded stored : Bytes} {request : SealRequest} {payloadHash : Digest}
    (h : Requested payload provider codec options request encoded stored payloadHash)
    (hread : ReadAs request codec options stored payloadHash header) {ciphertext : Bytes}
    (hencrypt : Aead.encrypt request.key request.nonce request.header request.plaintext =
      some ciphertext) :
    (request.header ++ ciphertext).length ≤
      stored.length + dntMaxHeaderBytes + dntMaxEncryptedMetadataBytes + 20 := by
  obtain ⟨hparsed, hsize, hheader, -⟩ := headerBytes_of_inspectHeader (hread.inspected ciphertext)
  rw [hread.length] at hsize
  have hmetadata := hparsed.encrypted
  rw [hread.parts, sealedParts, UInt32.toNat_ofNat_of_lt' h.metadataFits] at hmetadata
  have hplaintext := h.plaintext
  unfold encodePlaintext at hplaintext
  split at hplaintext
  · cases hplaintext
  have hlength := haead.length_encrypt hencrypt
  rw [← Except.ok.inj hplaintext, List.length_append, List.length_append, length_toBeBytes32,
    aeadTagBytes] at hlength
  rw [List.length_append]
  omega

/-! ## Reading what was written -/

theorem readBounded_of_get {content : Bytes} {maxBytes : UInt64} {d : Disk}
    (h : d.get path = some (.file content)) (hlength : content.length ≤ maxBytes.toNat)
    (hmax : maxBytes.toNat < 2 ^ 64 - 1) : readBounded path maxBytes d = .ok content := by
  have hsymlink : rejectSymlink path d = .ok () := by rw [rejectSymlink, Disk.stat_of_get h]
  have hone : (1 : UInt64).toNat = 1 := rfl
  have hlimit : (maxBytes + 1).toNat = maxBytes.toNat + 1 := by
    rw [toNat_add_of_lt, hone]
    omega
  have hwhole : content.take (maxBytes + 1).toNat = content := by
    apply List.take_of_length_le
    omega
  rw [readBounded, hsymlink, ok_bind, Disk.readFile_eq_ok.2 h]
  dsimp only
  rw [if_neg (Nat.not_lt.2 hlength), checkedAdd, if_pos (by omega)]
  dsimp only
  rw [hwhole, if_neg (Nat.not_lt.2 hlength)]

/-- A verified envelope is opened to its payload by the two codecs that store it as it is. -/
theorem opened_of_verified [Sha256] [aead : Aead] [zlib : Zlib] (haead : aead.Correct)
    (hdetached : aead.Detached) (hzlib : zlib.Lossless) {codecId : CodecId}
    (htenant : ∀ tenant, options.tenantId = some tenant → TenantId.new tenant.asStr = .ok tenant)
    {payload : Bytes} {random : Option Nonce} {envelope : Bytes}
    (hseal : sealDnt payload provider (.identity codecId) options random = .ok envelope)
    {opening : DntOpenOptions} (hmax : opening.maxPayloadBytes = some limit)
    (hlimit : limit.toNat ≤ 2 ^ 63) {verified : VerifiedDnt}
    (hverify : verifyDnt envelope provider (.identity codecId) opening = .ok verified) :
    envelope.length ≤ limit.toNat + dntMaxHeaderBytes + dntMaxEncryptedMetadataBytes + 20 ∧
      ∃ opened, openOwned envelope provider (.identity codecId) opening = .ok opened ∧
        opened.payload = payload := by
  obtain ⟨request, hrequest, henvelope⟩ := bind_eq_ok.1 hseal
  obtain ⟨ciphertext, hencrypt, rfl⟩ := envelope_eq_ok.1 henvelope
  obtain ⟨hne, hdecrypt, htagged⟩ := decrypt_encrypted haead hencrypt
  obtain ⟨encoded, stored, payloadHash, header, h, hread⟩ := readAs_of_sealRequest htenant hrequest
  obtain ⟨hcontext, hsize, decoded, hdecode⟩ := accepted_of_verifyDnt h hread hdecrypt hverify
  have hflags : header.flags = options.flags := by rw [hread.parts, sealedParts]
  have hstored : header.payloadLength.toNat = stored.length := by
    rw [hread.parts, sealedParts]
    exact UInt64.toNat_ofNat_of_lt' h.storedLength
  have hstoredFits : stored.length ≤ limit.toNat :=
    hstored ▸ enforceMax_eq_ok.1 hsize limit hmax
  obtain rfl : payload = encoded := Except.ok.inj h.encode
  have hdecode' := hdecode
  rw [hflags, hmax] at hdecode'
  obtain ⟨rfl, hdecoded⟩ := decoded_eq_encoded hzlib (by omega) h.store hdecode'
  have hfits : enforceMax decoded.length opening.maxPayloadBytes = .ok () := by
    rw [enforceMax_eq_ok, hmax]
    intro found hfound
    rw [← Option.some.inj hfound]
    rcases hdecoded with hsame | hle
    · rw [hsame]
      exact hstoredFits
    · exact hle
  constructor
  · have hlength := length_envelope_le haead h hread hencrypt
    omega
  · refine ⟨⟨header, decoded, options.encryptedMetadata⟩, ?_, rfl⟩
    rw [openOwned_eq hdetached, openWith_readAs h hread hcontext hsize hne htagged]
    exact openStored_eq (hflags ▸ h.flags) hdecode rfl hfits

/-- **What `write_atomic` accepts, `read_verified` reads.** When the call returns without an error,
the file is no longer than the reader allows, and as long as it is there the reader opens it to the
payload. -/
theorem read_written [Sha256] [aead : Aead] [zlib : Zlib] (haead : aead.Correct)
    (hdetached : aead.Detached) (hzlib : zlib.Lossless) {codec : DntCodec}
    (hcodec : codec = bytesCodec ∨ codec = identityJsonCodec) {sealOptions : DntSealOptions}
    (htenant : ∀ tenant, sealOptions.tenantId = some tenant →
      TenantId.new tenant.asStr = .ok tenant)
    {openOptions : DntOpenOptions} {limit : UInt64}
    (hmax : openOptions.maxPayloadBytes = some limit) (hlimit : limit.toNat ≤ 2 ^ 63)
    {stamp : TempStamp} {path : Path} {payload : Bytes} {provider : DntKeyProvider}
    {random : Option Nonce} {d : Disk}
    (h : (writeAtomic stamp path payload provider codec sealOptions openOptions random).result d =
      .ok ()) :
    ∃ content maxBytes, openOptions.maxEnvelopeBytes = .ok maxBytes ∧
      content.length ≤ maxBytes.toNat ∧
      ((writeAtomic stamp path payload provider codec sealOptions openOptions random).final d).get
        path = some (.file content) ∧
      ∀ d' : Disk, d'.get path = some (.file content) →
        ∃ opened, readVerified path provider codec openOptions d' = .ok opened ∧
          opened.payload = payload := by
  obtain ⟨envelope, verified, hseal, hverify, hfile⟩ := written_of_writeAtomic h
  obtain ⟨codecId, rfl⟩ : ∃ codecId, codec = .identity codecId := by
    rcases hcodec with rfl | rfl
    · exact ⟨_, rfl⟩
    · exact ⟨_, rfl⟩
  obtain ⟨hlength, opened, hopen, hpayload⟩ :=
    opened_of_verified haead hdetached hzlib htenant hseal hmax hlimit hverify
  obtain ⟨maxBytes, hbytes, hsum⟩ := maxEnvelopeBytes_eq hmax hlimit
  rw [← hsum] at hlength
  have hbound : maxBytes.toNat < 2 ^ 64 - 1 := by
    rw [hsum, dntMaxHeaderBytes, dntMaxEncryptedMetadataBytes]
    omega
  refine ⟨envelope, maxBytes, hbytes, hlength, hfile, fun d' hd' => ⟨opened, ?_, hpayload⟩⟩
  rw [readVerified, hbytes, ok_bind, readBounded_of_get hd' hlength hbound, ok_bind, hopen]

/-- Options without a limit, for a compressed payload. -/
def sampleFileOptions : DntSealOptions :=
  { sampleSealOptions with flags := dntFlagPayloadDeflate, maxPayloadBytes := none }

/-- The sample payload written to a file. -/
def sampleWrite [Sha256] [Aead] [Zlib] : DntProg Unit :=
  writeAtomic ⟨1, 0⟩ ["data", "sample.dnt"] [5, 6] sampleProvider bytesCodec sampleFileOptions
    sampleSealOptions.opening (some (Vector.replicate 24 9))

theorem read_written_sample : ∃ (sha : Sha256) (aead : Aead) (zlib : Zlib) (opened : OpenedDnt),
    sha = Sha256.fips ∧ aead = xChaCha20Poly1305 ∧ zlib = storingZlib ∧
      sampleWrite.result Disk.empty = .ok () ∧
      readVerified ["data", "sample.dnt"] sampleProvider bytesCodec sampleSealOptions.opening
        (sampleWrite.final Disk.empty) = .ok opened ∧ opened.payload = [5, 6] := by
  have hok : ((@sampleWrite Sha256.fips xChaCha20Poly1305 storingZlib).result
      Disk.empty).toOption.any (fun _ => true) = true := by decide +kernel
  obtain ⟨_, hwrite, -⟩ := ok_of_any hok
  obtain ⟨content, maxBytes, -, -, hfile, hread⟩ := @read_written Sha256.fips xChaCha20Poly1305
    storingZlib xChaCha20Poly1305_correct xChaCha20Poly1305_detached storingZlib_lossless
    bytesCodec (Or.inl rfl) sampleFileOptions validTenant_sampleParts sampleSealOptions.opening 64
    rfl (by decide) _ _ _ _ _ _ hwrite
  obtain ⟨opened, hopen, hpayload⟩ := hread _ hfile
  exact ⟨_, _, _, opened, rfl, rfl, rfl, hwrite, hopen, hpayload⟩

end AppCore.Dnt
