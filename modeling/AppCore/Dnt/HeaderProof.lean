import AppCore.Dnt.Header

/-!
# The DNT header: writing and reading

Each `take_` function is paired with the bytes it reads in one lemma (`reads_takeU32` and so on).
Two lemmas run through the fields with these, one in each direction, and give the two theorems.

* `inspectHeader_encodeHeader` — what was written is read back, whatever follows it;
* `encodeHeader_inspectHeader` — what is read is what would be written, byte for byte.
-/

namespace AppCore.Dnt

/-! ## Readers and writers -/

theorem get_at {input bytes rest : Bytes} {cursor : Nat} (h : At input cursor (bytes ++ rest)) :
    get input cursor (cursor + bytes.length) = .ok bytes := by
  rw [get, slice_at h]

theorem get_eq_ok {input bytes : Bytes} {start stop : Nat} (h : get input start stop = .ok bytes) :
    start + bytes.length = stop ∧ ∃ rest, At input start (bytes ++ rest) := by
  unfold get at h
  split at h
  · simp at h
  · rename_i hslice
    obtain rfl := Except.ok.inj h
    exact slice_eq_some hslice

theorem map_eq_ok {α β : Type} {x : DntResult α} {f : α → β} {b : β} :
    x.map f = .ok b ↔ ∃ a, x = .ok a ∧ f a = b := by
  cases x with
  | error e => simp [Except.map]
  | ok a => simp [Except.map]

theorem reads_takeBytes (n : Nat) : Reads (takeBytes n) id fun bytes => bytes.length = n where
  accepts {input cursor bytes rest} hlen h := by
    subst hlen
    have hget := get_at (show At input cursor (bytes ++ rest) from h)
    simp [takeBytes, hget, Except.map]
  canonical {input cursor next bytes} h := by
    obtain ⟨found, hget, heq⟩ := map_eq_ok.1 h
    obtain ⟨rfl, rfl⟩ := Prod.mk.inj heq
    obtain ⟨hlen, rest, hat⟩ := get_eq_ok hget
    exact ⟨by omega, by simp [← hlen], rest, hat⟩

/-- A number of a fixed width. -/
theorem reads_number {α : Type} {width : Nat} {toNat : α → Nat} {ofNat : Nat → α}
    (hlt : ∀ x, toNat x < 256 ^ width) (hof : ∀ x, ofNat (toNat x) = x)
    (hto : ∀ n, n < 256 ^ width → toNat (ofNat n) = n) {reader : Reader DntError α}
    (hreader : ∀ input cursor, reader input cursor =
      (get input cursor (cursor + width)).map fun bytes => (ofNat (fromBe bytes), cursor + width)) :
    Reads reader (fun x => beBytes width (toNat x)) fun _ => True where
  accepts {input cursor x rest} _ h := by
    have hget := get_at (show At input cursor (beBytes width (toNat x) ++ rest) from h)
    rw [length_beBytes] at hget
    rw [hreader, hget, length_beBytes, Except.map, fromBe_beBytes (hlt x), hof]
  canonical {input cursor next x} h := by
    rw [hreader] at h
    obtain ⟨bytes, hget, heq⟩ := map_eq_ok.1 h
    obtain ⟨rfl, rfl⟩ := Prod.mk.inj heq
    obtain ⟨hlen, rest, hat⟩ := get_eq_ok hget
    have hwidth : bytes.length = width := by omega
    subst hwidth
    rw [hto _ (fromBe_lt bytes), beBytes_fromBe]
    exact ⟨trivial, rfl, rest, hat⟩

theorem reads_takeU16 : Reads takeU16 toBeBytes16 fun _ => True :=
  reads_number (fun x => x.toNat_lt) (fun x => UInt16.ofNat_toNat)
    (fun _ h => UInt16.toNat_ofNat_of_lt' h) fun input cursor => by
      rw [takeU16, readU16]
      cases get input cursor (cursor + 2) <;> rfl

theorem reads_takeU32 : Reads takeU32 toBeBytes32 fun _ => True :=
  reads_number (fun x => x.toNat_lt) (fun x => UInt32.ofNat_toNat)
    (fun _ h => UInt32.toNat_ofNat_of_lt' h) fun input cursor => by
      rw [takeU32, readU32]
      cases get input cursor (cursor + 4) <;> rfl

theorem reads_takeU64 : Reads takeU64 toBeBytes64 fun _ => True :=
  reads_number (fun x => x.toNat_lt) (fun x => UInt64.ofNat_toNat)
    (fun _ h => UInt64.toNat_ofNat_of_lt' h) fun input cursor => by
      rw [takeU64, takeBytes]
      cases get input cursor (cursor + 8) <;> rfl

theorem reads_takeArray (n : Nat) : Reads (takeArray n) Vector.toList fun _ => True where
  accepts {input cursor array rest} _ h := by
    have hbytes := @Reads.accepts _ _ _ _ _ (reads_takeBytes n) input cursor array.toList rest (by simp) h
    simp only [id_eq] at hbytes
    have hlen : array.toList.length = n := by simp
    simp only [takeArray, hbytes, ok_bind, dif_pos hlen]
    congr 2
  canonical {input cursor next array} h := by
    obtain ⟨⟨bytes, cursor'⟩, hbytes, h⟩ := bind_eq_ok.1 h
    dsimp only at h
    split at h
    · obtain ⟨rfl, rfl⟩ := Prod.mk.inj (Except.ok.inj h)
      obtain ⟨-, hnext, rest, hat⟩ := (reads_takeBytes n).canonical hbytes
      exact ⟨trivial, by simpa using hnext, rest, by simpa using hat⟩
    · simp at h

/-- The bytes of a text: its length and the text. -/
def textBytes (text : String) : Bytes :=
  toBeBytes16 (UInt16.ofNat (strBytes text).length) ++ strBytes text

/-- The texts with a length that is not zero and fits its field. -/
def Fits (text : String) : Prop := 0 < (strBytes text).length ∧ (strBytes text).length < 2 ^ 16

/-- The bytes of a text that may be absent. -/
def optionalBytes : Option String → Bytes
  | none => toBeBytes16 0
  | some text => textBytes text

theorem textOf_strBytes (text : String) : textOf (strBytes text) = .ok text := by
  simp [textOf, strBytes, fromUtf8_utf8]

variable {text : String}

theorem strBytes_of_textOf {bytes : Bytes} (h : textOf bytes = .ok text) :
    strBytes text = bytes := by
  unfold textOf at h
  split at h
  · simp at h
  · rename_i chars hchars
    obtain rfl := Except.ok.inj h
    simpa [strBytes] using utf8_of_fromUtf8 hchars

/-- What both text readers do with the bytes of a text. -/
theorem take_textBytes {input rest : Bytes} {cursor : Nat} (hfits : Fits text)
    (h : At input cursor (textBytes text ++ rest)) :
    ∃ length, takeU16 input cursor = .ok (length, cursor + 2) ∧ length ≠ 0 ∧
      takeBytes length.toNat input (cursor + 2) =
        .ok (strBytes text, cursor + (textBytes text).length) := by
  have hlength : (UInt16.ofNat (strBytes text).length).toNat = (strBytes text).length :=
    UInt16.toNat_ofNat_of_lt' hfits.2
  rw [textBytes, List.append_assoc] at h
  have hu16 := reads_takeU16.accepts trivial h
  have hnext := h.advance
  have hwidth : (toBeBytes16 (UInt16.ofNat (strBytes text).length)).length = 2 := length_beBytes 2 _
  rw [hwidth] at hu16 hnext
  refine ⟨_, hu16, ?_, ?_⟩
  · intro hzero
    have hzero := congrArg UInt16.toNat hzero
    rw [hlength] at hzero
    exact absurd hzero (Nat.pos_iff_ne_zero.1 hfits.1)
  · have hbytes := (reads_takeBytes (strBytes text).length).accepts rfl hnext
    rw [hlength, hbytes, textBytes, List.length_append, hwidth, Nat.add_assoc]
    rfl

/-- What a text reader has found. -/
theorem textBytes_of_take {input bytes : Bytes} {cursor cursor' next : Nat} {length : UInt16}
    (hlength : takeU16 input cursor = .ok (length, cursor')) (hzero : length ≠ 0)
    (hbytes : takeBytes length.toNat input cursor' = .ok (bytes, next))
    (htext : textOf bytes = .ok text) :
    Fits text ∧ next = cursor + (textBytes text).length ∧
      ∃ rest, At input cursor (textBytes text ++ rest) := by
  obtain ⟨-, rfl, rest, hat⟩ := reads_takeU16.canonical hlength
  obtain ⟨hlen, rest', rfl, hat'⟩ := (reads_takeBytes _).step hat.advance hbytes
  obtain ⟨-, rfl, -⟩ := (reads_takeBytes _).canonical hbytes
  have hstr := strBytes_of_textOf htext
  have hfield : UInt16.ofNat (strBytes text).length = length := by
    rw [hstr, hlen, UInt16.ofNat_toNat]
  have hpos : 0 < length.toNat := by
    rw [Nat.pos_iff_ne_zero]
    intro h
    exact hzero (UInt16.toNat_inj.1 h)
  have htextBytes : textBytes text = toBeBytes16 length ++ bytes := by rw [textBytes, hfield, hstr]
  refine ⟨⟨by rw [hstr, hlen]; exact hpos, by rw [hstr, hlen]; exact length.toNat_lt⟩, ?_, rest', ?_⟩
  · rw [htextBytes, List.length_append, Nat.add_assoc]
    rfl
  · rw [htextBytes, List.append_assoc]
    exact hat

theorem reads_takeText : Reads takeText textBytes Fits where
  accepts {input cursor text rest} hfits h := by
    obtain ⟨length, hlength, hzero, hbytes⟩ := take_textBytes hfits h
    simp only [takeText, hlength, ok_bind, if_neg hzero, hbytes, textOf_strBytes]
  canonical {input cursor next text} h := by
    obtain ⟨⟨length, cursor'⟩, hlength, h⟩ := bind_eq_ok.1 h
    dsimp only at h
    split at h
    · simp at h
    rename_i hzero
    obtain ⟨⟨bytes, next'⟩, hbytes, h⟩ := bind_eq_ok.1 h
    obtain ⟨text', htext, h⟩ := bind_eq_ok.1 h
    obtain ⟨rfl, rfl⟩ := Prod.mk.inj (Except.ok.inj h)
    exact textBytes_of_take hlength hzero hbytes htext

theorem reads_takeOptionalText :
    Reads takeOptionalText optionalBytes fun text => ∀ t, text = some t → Fits t where
  accepts {input cursor text rest} hfits h := by
    cases text with
    | none =>
      have hlength := reads_takeU16.accepts trivial (show At input cursor (toBeBytes16 0 ++ rest) from h)
      simp only [takeOptionalText, hlength, ok_bind, if_true]
      rfl
    | some text =>
      obtain ⟨length, hlength, hzero, hbytes⟩ := take_textBytes (hfits text rfl) h
      simp only [takeOptionalText, hlength, ok_bind, if_neg hzero, hbytes, textOf_strBytes]
      rfl
  canonical {input cursor next text} h := by
    obtain ⟨⟨length, cursor'⟩, hlength, h⟩ := bind_eq_ok.1 h
    dsimp only at h
    split at h
    · rename_i hzero
      obtain ⟨rfl, rfl⟩ := Prod.mk.inj (Except.ok.inj h)
      subst hzero
      obtain ⟨-, hnext, rest, hat⟩ := reads_takeU16.canonical hlength
      exact ⟨by simp, hnext, rest, hat⟩
    · rename_i hzero
      obtain ⟨⟨bytes, next'⟩, hbytes, h⟩ := bind_eq_ok.1 h
      obtain ⟨text', htext, h⟩ := bind_eq_ok.1 h
      obtain ⟨rfl, rfl⟩ := Prod.mk.inj (Except.ok.inj h)
      obtain ⟨hfits, hfound⟩ := textBytes_of_take hlength hzero hbytes htext
      exact ⟨fun t ht => Option.some.inj ht ▸ hfits, hfound⟩

/-! ## The layout -/

/-- The header behind its length. -/
def headerBody (parts : HeaderParts) : Bytes :=
  toBeBytes32 parts.flags ++ (toBeBytes16 parts.algorithm.id ++
    (toBeBytes32 parts.schemaVersion ++ (toBeBytes64 parts.createdAtMs ++
    (toBeBytes64 parts.payloadLength ++ (parts.nonce.toList ++ (parts.payloadHash.toList ++
    (toBeBytes32 (UInt32.ofNat parts.publicMetadata.length) ++
    (toBeBytes32 parts.encryptedMetadataLength ++ (textBytes parts.applicationId.asStr ++
    (optionalBytes (parts.tenantId.map (·.asStr)) ++ (textBytes parts.contentType.asStr ++
    (textBytes parts.codecId.asStr ++ (textBytes parts.keyId.asStr ++
    parts.publicMetadata)))))))))))))

/-- The length of the whole header. -/
def headerSize (parts : HeaderParts) : Nat := 14 + (headerBody parts).length

/-- The bytes before the length. -/
def headerStart : Bytes := dntMagic ++ toBeBytes16 dntEnvelopeVersionV1

def headerBytes (parts : HeaderParts) : Bytes :=
  headerStart ++ (toBeBytes32 (UInt32.ofNat (headerSize parts)) ++ headerBody parts)

theorem length_headerBytes (parts : HeaderParts) :
    (headerBytes parts).length = headerSize parts := by
  have hstart : headerStart.length = 10 := by decide
  have hlength : (toBeBytes32 (UInt32.ofNat (headerSize parts))).length = 4 := length_beBytes 4 _
  rw [headerBytes, List.length_append, List.length_append, hstart, hlength, headerSize]
  omega

/-- The identifiers a header can carry: a tenant has passed its check. -/
def ValidTenant (parts : HeaderParts) : Prop :=
  ∀ tenant, parts.tenantId = some tenant → TenantId.new tenant.asStr = .ok tenant

/-! ### Identifiers fit their fields -/

theorem fits_of_validateId {value : String} {max : Nat} {allowSlash : Bool} (hmax : max < 2 ^ 16)
    (h : validateId value max allowSlash = .ok ()) : Fits value := by
  unfold validateId at h
  split at h
  · simp at h
  · rename_i hbound
    rw [Bool.or_eq_true, not_or, decide_eq_true_eq, Nat.not_lt] at hbound
    refine ⟨?_, by omega⟩
    rw [List.length_pos_iff]
    simpa using hbound.1

theorem fits_applicationId (id : ApplicationId) : Fits id.asStr := by
  have h := id.valid
  unfold validateContractIdentifier validateContractText at h
  split at h
  · simp at h
  rename_i htext
  split at htext
  · simp at htext
  rename_i hblank
  split at htext
  · simp at htext
  rename_i hlong
  refine ⟨?_, by omega⟩
  rw [List.length_pos_iff]
  intro hempty
  cases hchars : id.asStr.toList with
  | nil => simp [hchars, isBlank] at hblank
  | cons c rest =>
    have hsize := String.length_utf8EncodeChar c
    have hpos := c.utf8Size_pos
    simp only [strBytes, utf8, hchars, List.flatMap_cons, List.append_eq_nil_iff] at hempty
    rw [hempty.1] at hsize
    simp at hsize
    omega

theorem fits_tenantId {tenant : TenantId} (h : TenantId.new tenant.asStr = .ok tenant) :
    Fits tenant.asStr := by
  unfold TenantId.new validateDistributedIdentifier at h
  split at h
  · simp at h
  rename_i hvalid
  split at hvalid
  · simp at hvalid
  rename_i hshort
  split at hvalid
  · simp at hvalid
  rename_i hlong
  have hmax : maxDistributedIdentifierLen = 80 := rfl
  exact ⟨by omega, by omega⟩

theorem new_applicationId (id : ApplicationId) : ApplicationId.new id.asStr = .ok id := by
  unfold ApplicationId.new
  split
  · rename_i h
    rw [id.valid] at h
    simp at h
  · rfl

theorem new_contentType (id : ContentType) : ContentType.new id.asStr = .ok id := by
  unfold ContentType.new
  split
  · rename_i h
    rw [id.valid] at h
    simp at h
  · rfl

theorem new_codecId (id : CodecId) : CodecId.new id.asStr = .ok id := by
  unfold CodecId.new
  split
  · rename_i h
    rw [id.valid] at h
    simp at h
  · rfl

theorem new_keyId (id : KeyId) : KeyId.new id.asStr = .ok id := by
  unfold KeyId.new
  split
  · rename_i h
    rw [id.valid] at h
    simp at h
  · rfl

/-! ## Encoding -/

theorem putText_eq {output : Bytes} (h : Fits text) :
    putText output text = .ok (output ++ textBytes text) := by
  rw [putText, if_pos h.2, textBytes, List.append_assoc]

theorem putOptionalText_eq {output : Bytes} {text : Option String}
    (h : ∀ t, text = some t → Fits t) :
    putOptionalText output text = .ok (output ++ optionalBytes text) := by
  cases text with
  | none => rfl
  | some text => exact putText_eq (h text rfl)

theorem patch_eq {first field rest bytes : Bytes} (h : bytes.length = field.length) :
    patch (first ++ (field ++ rest)) first.length bytes = first ++ (bytes ++ rest) := by
  rw [patch, List.take_left, List.append_assoc, h, ← List.append_assoc first field,
    ← List.length_append, List.drop_left]

variable {parts : HeaderParts}

theorem fits_tenantText (ht : ValidTenant parts) :
    ∀ text, parts.tenantId.map (·.asStr) = some text → Fits text := by
  intro text htext
  obtain ⟨tenant, htenant, rfl⟩ := Option.map_eq_some_iff.1 htext
  exact fits_tenantId (ht tenant htenant)

/-- The header of valid parts: the layout, within the two limits. -/
theorem encodeHeader_eq (ht : ValidTenant parts) :
    encodeHeader parts =
      if parts.publicMetadata.length > dntMaxHeaderBytes ∨
          parts.encryptedMetadataLength.toNat > dntMaxEncryptedMetadataBytes then
        .error .payloadTooLarge
      else if headerSize parts > dntMaxHeaderBytes then .error .invalidFormat
      else .ok (headerBytes parts) := by
  have happ := fits_applicationId parts.applicationId
  have hcontent := fits_of_validateId (by decide) parts.contentType.valid
  have hcodec := fits_of_validateId (by decide) parts.codecId.valid
  have hkey := fits_of_validateId (by decide) parts.keyId.valid
  have hbody : fixedHeader parts ++ textBytes parts.applicationId.asStr ++
      optionalBytes (parts.tenantId.map (·.asStr)) ++ textBytes parts.contentType.asStr ++
      textBytes parts.codecId.asStr ++ textBytes parts.keyId.asStr ++ parts.publicMetadata =
      headerStart ++ (toBeBytes32 0 ++ headerBody parts) := by
    simp only [fixedHeader, headerStart, headerBody, List.append_assoc]
  have hsize : (headerStart ++ (toBeBytes32 0 ++ headerBody parts)).length = headerSize parts := by
    have hstart : headerStart.length = 10 := by decide
    have hzero : (toBeBytes32 0).length = 4 := by decide
    rw [List.length_append, List.length_append, hstart, hzero, headerSize]
    omega
  have hpatch (n : UInt32) : patch (headerStart ++ (toBeBytes32 0 ++ headerBody parts)) 10
      (toBeBytes32 n) = headerStart ++ (toBeBytes32 n ++ headerBody parts) := by
    have hlen : (toBeBytes32 n).length = (toBeBytes32 0).length := by
      rw [toBeBytes32, toBeBytes32, length_beBytes, length_beBytes]
    exact patch_eq hlen
  rw [encodeHeader]
  split
  · rfl
  · simp only [putText_eq happ, putOptionalText_eq (fits_tenantText ht), putText_eq hcontent,
      putText_eq hcodec, putText_eq hkey, ok_bind, hbody, hsize, hpatch]
    rfl

theorem encodeHeader_eq_ok (ht : ValidTenant parts) {bytes : Bytes} :
    encodeHeader parts = .ok bytes ↔
      (parts.publicMetadata.length ≤ dntMaxHeaderBytes ∧
        parts.encryptedMetadataLength.toNat ≤ dntMaxEncryptedMetadataBytes) ∧
      headerSize parts ≤ dntMaxHeaderBytes ∧ headerBytes parts = bytes := by
  rw [encodeHeader_eq ht]
  split
  · rename_i hlarge
    simp only [reduceCtorEq, false_iff]
    rintro ⟨⟨hpublic, hencrypted⟩, -⟩
    omega
  · rename_i hsmall
    rw [not_or, Nat.not_lt, Nat.not_lt] at hsmall
    split
    · rename_i hlarge
      simp only [reduceCtorEq, false_iff]
      rintro ⟨-, hsize, -⟩
      omega
    · rename_i hsize
      simp only [Except.ok.injEq]
      exact ⟨fun h => ⟨hsmall, Nat.not_lt.1 hsize, h⟩, fun h => h.2.2⟩

theorem parseHeader_headerBody (ht : ValidTenant parts)
    (hflags : validateFlags parts.flags = .ok ()) (hpublic : parts.publicMetadata.length < 2 ^ 32)
    (hencrypted : parts.encryptedMetadataLength.toNat ≤ dntMaxEncryptedMetadataBytes)
    {input : Bytes} (h : At input 14 (headerBody parts)) (headerLength : UInt32) :
    parseHeader input headerLength = .ok ⟨parts, dntEnvelopeVersionV1, headerLength⟩ := by
  have hlength : (UInt32.ofNat parts.publicMetadata.length).toNat = parts.publicMetadata.length :=
    UInt32.toNat_ofNat_of_lt' hpublic
  have halgorithm : DntAlgorithm.fromId parts.algorithm.id = .ok parts.algorithm := by
    cases parts.algorithm
    rfl
  have htenant : tenantOf (parts.tenantId.map (·.asStr)) = .ok parts.tenantId := by
    cases hcase : parts.tenantId with
    | none => rfl
    | some tenant => simp [tenantOf, ht tenant hcase, asFormat, Except.map]
  obtain ⟨_, hread₁, h⟩ := reads_takeU32.next trivial h
  obtain ⟨_, hread₂, h⟩ := reads_takeU16.next trivial h
  obtain ⟨_, hread₃, h⟩ := reads_takeU32.next trivial h
  obtain ⟨_, hread₄, h⟩ := reads_takeU64.next trivial h
  obtain ⟨_, hread₅, h⟩ := reads_takeU64.next trivial h
  obtain ⟨_, hread₆, h⟩ := (reads_takeArray 24).next trivial h
  obtain ⟨_, hread₇, h⟩ := (reads_takeArray 32).next trivial h
  obtain ⟨_, hread₈, h⟩ := reads_takeU32.next trivial h
  obtain ⟨_, hread₉, h⟩ := reads_takeU32.next trivial h
  obtain ⟨_, happ, h⟩ := reads_takeText.next (fits_applicationId parts.applicationId) h
  obtain ⟨_, htext, h⟩ := reads_takeOptionalText.next (fits_tenantText ht) h
  obtain ⟨_, hcontent, h⟩ :=
    reads_takeText.next (fits_of_validateId (by decide) parts.contentType.valid) h
  obtain ⟨_, hcodec, h⟩ := reads_takeText.next (fits_of_validateId (by decide) parts.codecId.valid) h
  obtain ⟨_, hkey, h⟩ := reads_takeText.next (fits_of_validateId (by decide) parts.keyId.valid) h
  rw [← List.append_nil parts.publicMetadata] at h
  obtain ⟨cursor, hmetadata, hend⟩ := (reads_takeBytes parts.publicMetadata.length).next rfl h
  have hdone : ¬ cursor ≠ input.length := by simp [hend.length_eq]
  simp only [parseHeader, hread₁, hread₂, hread₃, hread₄, hread₅, hread₆, hread₇, hread₈, hread₉,
    happ, htext, hcontent, hcodec, hkey, hflags, halgorithm, htenant, new_applicationId,
    new_contentType, new_codecId, new_keyId, asFormat, hlength, hmetadata, ok_bind,
    if_neg (Nat.not_lt.2 hencrypted), if_neg hdone]

/-! ## What was parsed -/

theorem asStr_applicationId {id : ApplicationId} (h : asFormat (ApplicationId.new text) = .ok id) :
    id.asStr = text := by
  unfold ApplicationId.new at h
  split at h
  · simp [asFormat] at h
  · obtain rfl := Except.ok.inj h
    rfl

theorem asStr_contentType {id : ContentType} (h : ContentType.new text = .ok id) :
    id.asStr = text := by
  unfold ContentType.new at h
  split at h
  · simp at h
  · obtain rfl := Except.ok.inj h
    rfl

theorem asStr_codecId {id : CodecId} (h : CodecId.new text = .ok id) :
    id.asStr = text := by
  unfold CodecId.new at h
  split at h
  · simp at h
  · obtain rfl := Except.ok.inj h
    rfl

theorem asStr_keyId {id : KeyId} (h : KeyId.new text = .ok id) :
    id.asStr = text := by
  unfold KeyId.new at h
  split at h
  · simp at h
  · obtain rfl := Except.ok.inj h
    rfl

theorem asStr_tenantOf {text : Option String} {tenant : Option TenantId}
    (h : tenantOf text = .ok tenant) :
    tenant.map (·.asStr) = text ∧ ∀ t, tenant = some t → TenantId.new t.asStr = .ok t := by
  cases text with
  | none =>
    obtain rfl := Except.ok.inj h
    simp
  | some text =>
    cases hnew : TenantId.new text with
    | error e => simp [tenantOf, hnew, asFormat, Except.map] at h
    | ok id =>
      have hid : id.asStr = text := by
        unfold TenantId.new at hnew
        split at hnew
        · simp at hnew
        · obtain rfl := Except.ok.inj hnew
          rfl
      simp only [tenantOf, hnew, asFormat, Except.map, Except.ok.injEq] at h
      subst h hid
      exact ⟨rfl, fun t ht => Option.some.inj ht ▸ hnew⟩

/-- What the parser has checked of a header. -/
structure Parsed (header : DntHeader) (headerLength : UInt32) : Prop where
  version : header.envelopeVersion = dntEnvelopeVersionV1
  length : header.headerLength = headerLength
  tenant : ValidTenant header.toHeaderParts
  flags : validateFlags header.flags = .ok ()
  encrypted : header.encryptedMetadataLength.toNat ≤ dntMaxEncryptedMetadataBytes

/-- The parser consumes exactly the bytes that its result is written with. -/
theorem headerBody_of_parseHeader {input body : Bytes} {headerLength : UInt32} {header : DntHeader}
    (hat : At input 14 body) (h : parseHeader input headerLength = .ok header) :
    Parsed header headerLength ∧ body = headerBody header.toHeaderParts := by
  obtain ⟨⟨flags, _⟩, hread, h⟩ := bind_eq_ok.1 h
  obtain ⟨-, _, hbody₁, hat⟩ := reads_takeU32.step hat hread
  obtain ⟨_, hflags, h⟩ := bind_eq_ok.1 h
  obtain ⟨⟨algorithmId, _⟩, hread, h⟩ := bind_eq_ok.1 h
  obtain ⟨-, _, hbody₂, hat⟩ := reads_takeU16.step hat hread
  obtain ⟨algorithm, halgorithm, h⟩ := bind_eq_ok.1 h
  obtain ⟨⟨schemaVersion, _⟩, hread, h⟩ := bind_eq_ok.1 h
  obtain ⟨-, _, hbody₃, hat⟩ := reads_takeU32.step hat hread
  obtain ⟨⟨createdAtMs, _⟩, hread, h⟩ := bind_eq_ok.1 h
  obtain ⟨-, _, hbody₄, hat⟩ := reads_takeU64.step hat hread
  obtain ⟨⟨payloadLength, _⟩, hread, h⟩ := bind_eq_ok.1 h
  obtain ⟨-, _, hbody₅, hat⟩ := reads_takeU64.step hat hread
  obtain ⟨⟨nonce, _⟩, hread, h⟩ := bind_eq_ok.1 h
  obtain ⟨-, _, hbody₆, hat⟩ := (reads_takeArray 24).step hat hread
  obtain ⟨⟨payloadHash, _⟩, hread, h⟩ := bind_eq_ok.1 h
  obtain ⟨-, _, hbody₇, hat⟩ := (reads_takeArray 32).step hat hread
  obtain ⟨⟨publicMetadataLength, _⟩, hread, h⟩ := bind_eq_ok.1 h
  obtain ⟨-, _, hbody₈, hat⟩ := reads_takeU32.step hat hread
  obtain ⟨⟨encryptedMetadataLength, _⟩, hread, h⟩ := bind_eq_ok.1 h
  obtain ⟨-, _, hbody₉, hat⟩ := reads_takeU32.step hat hread
  dsimp only at h
  split at h
  · simp at h
  rename_i hencrypted
  obtain ⟨⟨applicationText, _⟩, hread, h⟩ := bind_eq_ok.1 h
  obtain ⟨-, _, hbody₁₀, hat⟩ := reads_takeText.step hat hread
  obtain ⟨applicationId, happ, h⟩ := bind_eq_ok.1 h
  obtain ⟨⟨tenantText, _⟩, hread, h⟩ := bind_eq_ok.1 h
  obtain ⟨-, _, hbody₁₁, hat⟩ := reads_takeOptionalText.step hat hread
  obtain ⟨tenantId, htenant, h⟩ := bind_eq_ok.1 h
  obtain ⟨⟨contentText, _⟩, hread, h⟩ := bind_eq_ok.1 h
  obtain ⟨-, _, hbody₁₂, hat⟩ := reads_takeText.step hat hread
  obtain ⟨contentType, hcontent, h⟩ := bind_eq_ok.1 h
  obtain ⟨⟨codecText, _⟩, hread, h⟩ := bind_eq_ok.1 h
  obtain ⟨-, _, hbody₁₃, hat⟩ := reads_takeText.step hat hread
  obtain ⟨codecId, hcodec, h⟩ := bind_eq_ok.1 h
  obtain ⟨⟨keyText, _⟩, hread, h⟩ := bind_eq_ok.1 h
  obtain ⟨-, _, hbody₁₄, hat⟩ := reads_takeText.step hat hread
  obtain ⟨keyId, hkey, h⟩ := bind_eq_ok.1 h
  obtain ⟨⟨publicMetadata, cursor⟩, hread, h⟩ := bind_eq_ok.1 h
  obtain ⟨hlength, rest, hbody, hat⟩ := (reads_takeBytes _).step hat hread
  dsimp only at h
  split at h
  · simp at h
  rename_i hdone
  have hrest : rest = [] := by
    have hlen := hat.length_eq
    rw [not_not] at hdone
    exact List.length_eq_zero_iff.1 (by omega)
  obtain ⟨htenantText, hvalid⟩ := asStr_tenantOf htenant
  have halgorithmId : algorithm.id = algorithmId := by
    unfold DntAlgorithm.fromId at halgorithm
    split at halgorithm
    · rename_i hone
      obtain rfl := Except.ok.inj halgorithm
      exact hone.symm
    · simp at halgorithm
  have hmetadataLength : UInt32.ofNat publicMetadata.length = publicMetadataLength := by
    rw [hlength, UInt32.ofNat_toNat]
  obtain rfl := Except.ok.inj h
  refine ⟨⟨rfl, rfl, fun t ht => hvalid t ht, hflags, Nat.not_lt.1 hencrypted⟩, ?_⟩
  rw [hbody₁, hbody₂, hbody₃, hbody₄, hbody₅, hbody₆, hbody₇, hbody₈, hbody₉, hbody₁₀, hbody₁₁,
    hbody₁₂, hbody₁₃, hbody₁₄, hbody]
  simp only [headerBody, halgorithmId, hmetadataLength, asStr_applicationId happ, htenantText,
    asStr_contentType hcontent, asStr_codecId hcodec, asStr_keyId hkey, hrest, List.append_nil,
    id_eq]

/-! ## Inspecting -/

theorem length_headerStart : headerStart.length = 10 := by decide

theorem length_toBeBytes32 (value : UInt32) : (toBeBytes32 value).length = 4 := length_beBytes 4 _

theorem at_body (headerLength : UInt32) (body : Bytes) :
    At (headerStart ++ (toBeBytes32 headerLength ++ body)) 14 body := by
  have hnext := (At.append headerStart (toBeBytes32 headerLength ++ body)).advance
  rwa [length_headerStart, length_toBeBytes32] at hnext

/-- A header is read back, whatever follows it. -/
theorem inspectHeader_headerBytes (ht : ValidTenant parts)
    (hflags : validateFlags parts.flags = .ok ())
    (hencrypted : parts.encryptedMetadataLength.toNat ≤ dntMaxEncryptedMetadataBytes)
    (hsize : headerSize parts ≤ dntMaxHeaderBytes) (suffix : Bytes) :
    inspectHeader (headerBytes parts ++ suffix) =
      .ok ⟨parts, dntEnvelopeVersionV1, UInt32.ofNat (headerSize parts)⟩ := by
  have hmax : dntMaxHeaderBytes = 65536 := rfl
  have hmin : 14 ≤ headerSize parts := Nat.le_add_right 14 _
  have hlength : (UInt32.ofNat (headerSize parts)).toNat = headerSize parts :=
    UInt32.toNat_ofNat_of_lt' (show headerSize parts < 2 ^ 32 by omega)
  have hpublic : parts.publicMetadata.length < 2 ^ 32 := by
    have hle : parts.publicMetadata.length ≤ (headerBody parts).length := by
      simp only [headerBody, List.length_append]
      omega
    rw [headerSize] at hsize
    omega
  have hversion : readU16 (headerBytes parts ++ suffix) 8 = .ok dntEnvelopeVersionV1 := by
    have hat : At (headerBytes parts ++ suffix) 8 (toBeBytes16 dntEnvelopeVersionV1 ++
        (toBeBytes32 (UInt32.ofNat (headerSize parts)) ++ headerBody parts ++ suffix)) := by
      rw [headerBytes, headerStart, List.append_assoc, List.append_assoc]
      exact At.append dntMagic _
    have htake := reads_takeU16.accepts trivial hat
    obtain ⟨value, hread, heq⟩ := map_eq_ok.1 htake
    rw [hread, (Prod.mk.inj heq).1]
  have hfield : At (headerBytes parts ++ suffix) 10
      (toBeBytes32 (UInt32.ofNat (headerSize parts)) ++ (headerBody parts ++ suffix)) := by
    rw [headerBytes, List.append_assoc, List.append_assoc]
    exact At.append headerStart _
  have hread : readU32 (headerBytes parts ++ suffix) 10 =
      .ok (UInt32.ofNat (headerSize parts)) := by
    have htake := reads_takeU32.accepts trivial hfield
    obtain ⟨value, hread, heq⟩ := map_eq_ok.1 htake
    rw [hread, (Prod.mk.inj heq).1]
  have hmagic : (headerBytes parts ++ suffix).take 8 = dntMagic := by
    rw [headerBytes, headerStart, List.append_assoc, List.append_assoc]
    exact List.take_left' (by decide)
  have htotal : headerSize parts ≤ (headerBytes parts ++ suffix).length := by
    rw [List.length_append, length_headerBytes]
    omega
  have hwhole : (headerBytes parts ++ suffix).take (headerSize parts) = headerBytes parts := by
    rw [← length_headerBytes, List.take_left]
  have hbody : At (headerBytes parts) 14 (headerBody parts) := at_body _ _
  have hinit : ¬ ((headerBytes parts ++ suffix).length < minPrefixBytes ∨
      (headerBytes parts ++ suffix).take 8 ≠ dntMagic) := by
    rintro (hlt | hne)
    · exact absurd hlt (Nat.not_lt.2 (hmin.trans htotal))
    · exact hne hmagic
  have hrange : ¬ (¬ (minPrefixBytes ≤ headerSize parts ∧ headerSize parts ≤ dntMaxHeaderBytes) ∨
      (headerBytes parts ++ suffix).length < headerSize parts) := by
    rintro (hne | hlt)
    · exact hne ⟨hmin, hsize⟩
    · exact absurd hlt (Nat.not_lt.2 htotal)
  rw [inspectHeader, if_neg hinit, hversion, ok_bind, if_neg (by simp), hread, ok_bind, hlength,
    if_neg hrange, hwhole]
  exact parseHeader_headerBody ht hflags hpublic hencrypted hbody _

/-- What an accepted input begins with. -/
theorem headerBytes_of_inspectHeader {input : Bytes} {header : DntHeader}
    (h : inspectHeader input = .ok header) :
    Parsed header (UInt32.ofNat (headerSize header.toHeaderParts)) ∧
      header.headerLength.toNat = headerSize header.toHeaderParts ∧
      headerSize header.toHeaderParts ≤ dntMaxHeaderBytes ∧
      ∃ suffix, input = headerBytes header.toHeaderParts ++ suffix := by
  unfold inspectHeader at h
  split at h
  · simp at h
  rename_i hinit
  rw [not_or, not_not, Nat.not_lt] at hinit
  obtain ⟨version, hversion, h⟩ := bind_eq_ok.1 h
  split at h
  · simp at h
  rename_i hv1
  obtain ⟨headerLength, hlength, h⟩ := bind_eq_ok.1 h
  split at h
  · simp at h
  rename_i hrange
  rw [not_or, not_not, Nat.not_lt] at hrange
  obtain ⟨⟨hmin, hmax⟩, htotal⟩ := hrange
  -- the prefix of the input: magic, version and length
  have hmagic : At input 0 (dntMagic ++ input.drop 8) := by
    refine ⟨Nat.zero_le _, ?_⟩
    rw [← hinit.2, List.take_append_drop]
    rfl
  obtain ⟨-, rest₁, hrest₁, hat₁⟩ := reads_takeU16.step hmagic.advance
    (map_eq_ok.2 ⟨version, hversion, rfl⟩)
  obtain ⟨-, rest₂, hrest₂, hat₂⟩ := reads_takeU32.step hat₁
    (map_eq_ok.2 ⟨headerLength, hlength, rfl⟩)
  have hinput : input = headerStart ++ (toBeBytes32 headerLength ++ rest₂) := by
    have hwhole := hmagic.drop
    rw [List.drop_zero, hrest₁, hrest₂, not_not.1 hv1] at hwhole
    rw [headerStart, List.append_assoc]
    exact hwhole
  -- the header is cut out of the input, and its body parsed
  have hcut : input.take headerLength.toNat =
      headerStart ++ (toBeBytes32 headerLength ++ rest₂.take (headerLength.toNat - 14)) := by
    have hmin : 14 ≤ headerLength.toNat := hmin
    have h10 : headerLength.toNat = headerStart.length + (4 + (headerLength.toNat - 14)) := by
      rw [length_headerStart]
      omega
    rw [hinput, h10, List.take_length_add_append, ← length_toBeBytes32 headerLength,
      List.take_length_add_append, length_toBeBytes32, length_headerStart]
    congr 4
  have hbody : At (input.take headerLength.toNat) 14 (rest₂.take (headerLength.toNat - 14)) := by
    rw [hcut]
    exact at_body headerLength _
  obtain ⟨hparsed, heq⟩ := headerBody_of_parseHeader hbody h
  have hsize : headerLength.toNat = headerSize header.toHeaderParts := by
    have hlen := hbody.length_eq
    rw [heq, List.length_take, Nat.min_eq_left htotal] at hlen
    exact hlen
  have hfield : UInt32.ofNat (headerSize header.toHeaderParts) = headerLength := by
    rw [← hsize, UInt32.ofNat_toNat]
  rw [hfield, hparsed.length]
  refine ⟨hparsed, hsize, hsize ▸ hmax, input.drop headerLength.toNat, ?_⟩
  rw [headerBytes, hfield, ← heq, ← hcut, List.take_append_drop]

/-- **Decoding undoes encoding.** A header that was written is read back from any input it begins,
with its length and every part of it. -/
theorem inspectHeader_encodeHeader {parts : HeaderParts} (ht : ValidTenant parts)
    (hflags : validateFlags parts.flags = .ok ()) {bytes : Bytes}
    (h : encodeHeader parts = .ok bytes) (suffix : Bytes) :
    ∃ header, inspectHeader (bytes ++ suffix) = .ok header ∧
      header.headerLength.toNat = bytes.length ∧
      header.envelopeVersion = dntEnvelopeVersionV1 ∧ header.toHeaderParts = parts := by
  obtain ⟨⟨-, hencrypted⟩, hsize, rfl⟩ := (encodeHeader_eq_ok ht).1 h
  refine ⟨_, inspectHeader_headerBytes ht hflags hencrypted hsize suffix, ?_, rfl, rfl⟩
  have hmax : dntMaxHeaderBytes = 65536 := rfl
  rw [length_headerBytes]
  exact UInt32.toNat_ofNat_of_lt' (show headerSize parts < 2 ^ 32 by omega)

/-- **Headers are canonical.** The bytes of an accepted header are those its fields are written
with, so no other bytes are read as the same header, and what follows them does not matter. -/
theorem encodeHeader_inspectHeader {input : Bytes} {header : DntHeader}
    (h : inspectHeader input = .ok header) :
    encodeHeader header.toHeaderParts = .ok (input.take header.headerLength.toNat) ∧
    header.headerLength.toNat ≤ input.length ∧
    (∀ other, inspectHeader other = .ok header →
      other.take header.headerLength.toNat = input.take header.headerLength.toNat) ∧
    ∀ other, other.take header.headerLength.toNat = input.take header.headerLength.toNat →
      inspectHeader other = .ok header := by
  obtain ⟨hparsed, hsize, hmax, suffix, rfl⟩ := headerBytes_of_inspectHeader h
  have htake (suffix : Bytes) : (headerBytes header.toHeaderParts ++ suffix).take
      header.headerLength.toNat = headerBytes header.toHeaderParts := by
    rw [hsize, ← length_headerBytes, List.take_left]
  have hpublic : header.publicMetadata.length ≤ dntMaxHeaderBytes := by
    have hle : header.publicMetadata.length ≤ (headerBody header.toHeaderParts).length := by
      simp only [headerBody, List.length_append]
      omega
    rw [headerSize] at hmax
    omega
  have hheader : header = ⟨header.toHeaderParts, dntEnvelopeVersionV1,
      UInt32.ofNat (headerSize header.toHeaderParts)⟩ := by
    conv_lhs => rw [show header = ⟨header.toHeaderParts, header.envelopeVersion,
      header.headerLength⟩ from rfl, hparsed.version, hparsed.length]
  refine ⟨?_, ?_, fun other hother => ?_, fun other hother => ?_⟩
  · rw [htake]
    exact (encodeHeader_eq_ok hparsed.tenant).2 ⟨⟨hpublic, hparsed.encrypted⟩, hmax, rfl⟩
  · rw [hsize, List.length_append, length_headerBytes]
    omega
  · obtain ⟨-, -, -, suffix', rfl⟩ := headerBytes_of_inspectHeader hother
    rw [htake, htake]
  · rw [htake] at hother
    rw [← List.take_append_drop header.headerLength.toNat other, hother,
      inspectHeader_headerBytes hparsed.tenant hparsed.flags hparsed.encrypted hmax, ← hheader]

/-! ## A header -/

theorem valid_sampleCodecId : validateId "json" 64 false = .ok () := by decide

/-- A header with a tenant, public metadata and a caller's flag. -/
def sampleParts : HeaderParts where
  flags := 0x00010001
  algorithm := .xChaCha20Poly1305
  applicationId := ⟨"app.one", by decide⟩
  tenantId := some ⟨"tenant-1"⟩
  contentType := ⟨"application/json", by decide⟩
  codecId := ⟨"json", valid_sampleCodecId⟩
  keyId := ⟨"key-a", by decide⟩
  schemaVersion := 2
  createdAtMs := 1700000000000
  payloadLength := 5
  nonce := Vector.replicate 24 9
  payloadHash := Vector.replicate 32 4
  publicMetadata := [1, 2, 3]
  encryptedMetadataLength := 0

theorem validTenant_sampleParts : ValidTenant sampleParts := by
  intro tenant h
  obtain rfl := Option.some.inj h
  decide

theorem inspectHeader_encodeHeader_sample :
    ∃ bytes, encodeHeader sampleParts = .ok bytes ∧
      ∃ header, inspectHeader (bytes ++ [0xff]) = .ok header ∧
        header.headerLength.toNat = bytes.length ∧
        header.envelopeVersion = dntEnvelopeVersionV1 ∧ header.toHeaderParts = sampleParts := by
  have h : encodeHeader sampleParts = .ok (headerBytes sampleParts) := by decide +kernel
  exact ⟨_, h, inspectHeader_encodeHeader validTenant_sampleParts (by decide) h [0xff]⟩

theorem encodeHeader_inspectHeader_sample :
    ∃ header, inspectHeader (headerBytes sampleParts ++ [7]) = .ok header ∧
      encodeHeader header.toHeaderParts =
        .ok ((headerBytes sampleParts ++ [7]).take header.headerLength.toNat) := by
  have h := inspectHeader_headerBytes validTenant_sampleParts (by decide) (by decide)
    (by decide +kernel) [7]
  exact ⟨_, h, (encodeHeader_inspectHeader h).1⟩

end AppCore.Dnt
