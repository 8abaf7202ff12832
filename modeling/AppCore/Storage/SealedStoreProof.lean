import AppCore.Storage.Containment
import AppCore.Storage.SealedStore

/-!
# Reading and writing sealed objects

* `wp_writeBytes_held`, `wp_writeBytes_leftAlone` — what a write of the provider leaves for the reads
  that follow.

The largest payload that a policy allows is checked by every writer. The bound on the file is added
up by the readers alone, and a sum that does not fit fails there.
-/

namespace AppCore.Storage

open Dnt

section Envelopes

variable [Sha256] [aead : Aead] [zlib : Zlib] {store : DntFileObjectStore}

/-- The store reads the envelope as the payload. -/
structure DntFileObjectStore.Seals (store : DntFileObjectStore) (envelope payload : Bytes) :
    Prop where
  length : envelope.length ≤ store.policy.maxPayloadBytes.toNat + envelopeOverhead
  copied : ∃ opened, openDnt envelope store.keyProvider store.codec store.policy.openOptions =
    .ok opened ∧ opened.payload = payload
  owned : ∃ opened, openOwned envelope store.keyProvider store.codec store.policy.openOptions =
    .ok opened ∧ opened.payload = payload
  verified : ∃ verified, verifyDnt envelope store.keyProvider store.codec
    store.policy.openOptions = .ok verified

theorem tenant_of_verifyDnt {envelope : Bytes} {provider : DntKeyProvider} {codec : DntCodec}
    {options : DntOpenOptions} {verified : VerifiedDnt}
    (h : verifyDnt envelope provider codec options = .ok verified) (tenant : TenantId)
    (htenant : options.tenantId = some tenant) : TenantId.new tenant.asStr = .ok tenant := by
  obtain ⟨dnt, h, -⟩ := bind_eq_ok.1 h
  obtain ⟨header, hinspect, h⟩ := bind_eq_ok.1 h
  obtain ⟨_, hcontext, -⟩ := bind_eq_ok.1 h
  have hsame := (validateHeaderContext_eq_ok hcontext).2.1
  exact (headerBytes_of_inspectHeader hinspect).1.tenant tenant (hsame.trans htenant)

/-- What was sealed under options that the policy opens, and verified, is read. -/
theorem seals_of_sealDnt (haead : aead.Correct) (hdetached : aead.Detached)
    (hzlib : zlib.Lossless) (hcodec : store.codec.Lawful) {options : DntSealOptions}
    (hopening : options.opening = store.policy.openOptions) {payload envelope : Bytes}
    {random : Option Nonce}
    (hseal : sealDnt payload store.keyProvider store.codec options random = .ok envelope)
    {verified : VerifiedDnt}
    (hverify : verifyDnt envelope store.keyProvider store.codec store.policy.openOptions =
      .ok verified) : store.Seals envelope payload := by
  have hmax : options.maxPayloadBytes = some store.policy.maxPayloadBytes :=
    congrArg DntOpenOptions.maxPayloadBytes hopening
  have htenant : ∀ tenant, options.tenantId = some tenant →
      TenantId.new tenant.asStr = .ok tenant := by
    intro tenant h
    exact tenant_of_verifyDnt hverify tenant
      ((congrArg DntOpenOptions.tenantId hopening).symm.trans h)
  obtain ⟨opened, hcopied, howned, hpayload, -⟩ :=
    opened_of_sealDnt haead hzlib hcodec htenant (fun _ => by simp [hmax]) hseal
  rw [hopening] at hcopied howned
  refine ⟨?_, ⟨opened, hcopied, hpayload⟩, ⟨opened, howned hdetached, hpayload⟩, verified, hverify⟩
  obtain ⟨request, hrequest, henvelope⟩ := bind_eq_ok.1 hseal
  obtain ⟨ciphertext, hencrypt, rfl⟩ := envelope_eq_ok.1 henvelope
  obtain ⟨encoded, stored, payloadHash, header, h, hread⟩ := readAs_of_sealRequest htenant hrequest
  have hlength := length_envelope_le haead h hread hencrypt
  have hstored := enforceMax_eq_ok.1 h.storedFits _ hmax
  rw [envelopeOverhead]
  omega

end Envelopes

section Rules

variable {α β : Type} {C : Disk → Prop} {d : Disk}

theorem wp_ofDnt_bind {r : DntResult α} {g : α → SealedProg β}
    {Q : Except SealedError β → Disk → Prop} (hok : ∀ a, r = .ok a → (g a).wp C Q d)
    (herror : ∀ e, r = .error e → Q (.error (mapDntError e)) d) :
    Prog.wp (ofDnt r >>= g) C Q d := by
  rw [ofDnt, Prog.wp_read_bind]
  constructor
  · intro a h
    exact hok a (mapError_eq_ok.1 h)
  · intro e h
    cases r with
    | error found =>
      cases h
      exact herror found rfl
    | ok a => cases h

theorem wp_ofStorage_bind {m : StorageProg α} {g : α → SealedProg β}
    {Q : Except SealedError β → Disk → Prop}
    (h : m.wp C (fun r t => (∀ a, r = .ok a → (g a).wp C Q t) ∧
      ∀ e, r = .error e → Q (.error (.storage e)) t) d) :
    Prog.wp (ofStorage m >>= g) C Q d := by
  rw [ofStorage, Prog.wp_bind, Prog.wp_mapError]
  refine Prog.wp_mono h (fun _ h => h) ?_
  rintro (e | a) t ⟨hok, herror⟩
  · exact herror e rfl
  · exact hok a rfl

end Rules

/-! ## Reading -/

/-- Where a read finds its file: what comes before it is opened. -/
def FileStorageProvider.locate (provider : FileStorageProvider) (path : String) :
    StorageProg Path := do
  let _ ← Prog.read (provider.resolveStorage path)
  provider.withStorageLock (Prog.read (provider.resolveStorage path))

theorem look_eq {α : Type} (provider : FileStorageProvider) (path : String)
    (f : Path → Disk → StorageResult α) :
    look provider path f = provider.locate path >>= fun full => Prog.read (f full) := by
  simp only [look, FileStorageProvider.locate, FileStorageProvider.withStorageLock, bind_assoc]

section Reading

variable {provider : FileStorageProvider} {parent : Path} {base path : String} {d : Disk}
  {files : Path → Option Bytes}

theorem filesBelow_locate (hp : provider.storagePath = parent ++ [base]) :
    filesBelow ((provider.locate path).final d) (parent ++ [base]) =
      filesBelow d (parent ++ [base]) := by
  have hwp : (provider.locate path).wp (fun _ => True) (fun _ t =>
      filesBelow t (parent ++ [base]) = filesBelow d (parent ++ [base])) d := by
    rw [FileStorageProvider.locate, Prog.wp_read_bind]
    refine ⟨fun _ _ => ?_, fun _ _ => rfl⟩
    rw [FileStorageProvider.withStorageLock, FileStorageProvider.acquireOperationLock, hp,
      siblingPath_concat, Prog.wp_bind, Prog.wp_bind, Prog.wp_read]
    refine wp_io (fun t hlock => ⟨trivial, ?_⟩) fun _ => rfl
    dsimp only
    rw [Prog.wp_read]
    exact filesBelow_openLock hlock
  exact hwp.2

theorem held_locate (hp : provider.storagePath = parent ++ [base]) (hd : Held parent base files d) :
    Held parent base files ((provider.locate path).final d) := by
  refine Prog.Keeps.final ?_ hd
  exact Prog.keeps_bind (Prog.keeps_read _) fun _ => keeps_withStorageLock hp (Prog.keeps_read _)

theorem final_readBytesBounded (maxBytes : UInt64) :
    (provider.readBytesBounded path maxBytes).final d = (provider.locate path).final d := by
  have heq : provider.readBytesBounded path maxBytes =
    provider.locate path >>= fun full => Prog.read (readRegularBounded full path maxBytes) :=
    look_eq provider path fun full => readRegularBounded full path maxBytes
  rw [heq, Prog.final_bind_read]

/-- What is read within a bound could be read without one. -/
theorem readable_of_bounded {maxBytes : UInt64} {content : Bytes}
    (h : (provider.readBytesBounded path maxBytes).result d = .ok content) :
    Readable provider d path content ∧ maxBytes.toNat < 2 ^ 64 - 1 := by
  have heq : provider.readBytesBounded path maxBytes =
    provider.locate path >>= fun full => Prog.read (readRegularBounded full path maxBytes) :=
    look_eq provider path fun full => readRegularBounded full path maxBytes
  have hwhole : provider.readBytes path = provider.locate path >>= fun full =>
      Prog.read (readRegularFile full (.repositoryNotFound path)) :=
    look_eq provider path fun full => readRegularFile full (.repositoryNotFound path)
  rw [heq, Prog.result_bind_read] at h
  obtain ⟨full, hfull, hread⟩ := bind_eq_ok.1 h
  obtain ⟨hfile, hmax⟩ := readRegularBounded_eq_ok hread
  refine ⟨?_, hmax⟩
  rw [Readable, hwhole, Prog.result_bind_read, hfull, ok_bind]
  exact readRegularFile_eq_ok.2 hfile

theorem readBytesBounded_of_held (hp : provider.storagePath = parent ++ [base])
    (hd : Held parent base files d) {names : Path} {content : Bytes} {maxBytes : UInt64}
    (hpath : relativeNames path = some names) (hfile : files names = some content)
    (hlength : content.length ≤ maxBytes.toNat) (hmax : maxBytes.toNat < 2 ^ 64 - 1) :
    (provider.readBytesBounded path maxBytes).result d = .ok content := by
  obtain ⟨hget, hread⟩ := (wp_look hp hd hpath hfile
    fun full => readRegularBounded full path maxBytes).2
  exact hread.trans (readRegularBounded_of_get hget hlength hmax)

end Reading

section Objects

variable [Sha256] [aead : Aead] [zlib : Zlib] {store : DntFileObjectStore} {parent : Path}
  {base path : String} {d : Disk}

/-- An envelope in its place is read and verified. -/
theorem read_sealed (hbounded : store.policy.Bounded)
    (hp : store.provider.storagePath = parent ++ [base]) {files : Path → Option Bytes}
    (hd : Held parent base files d) {names : Path} {envelope payload : Bytes}
    (hpath : relativeNames path = some names) (hfile : files names = some envelope)
    (h : store.Seals envelope payload) :
    (store.readObject path).result d = .ok payload ∧
      (store.verifyObject path).result d = .ok () := by
  have hlt : store.policy.maxPayloadBytes.toNat + envelopeOverhead < 2 ^ 64 :=
    Nat.lt_of_lt_of_le hbounded (Nat.sub_le _ _)
  have hsum : (UInt64.ofNat (store.policy.maxPayloadBytes.toNat + envelopeOverhead)).toNat =
      store.policy.maxPayloadBytes.toNat + envelopeOverhead :=
    UInt64.toNat_ofNat_of_lt' hlt
  have hmax : store.policy.openOptions.maxEnvelopeBytes =
      .ok (UInt64.ofNat (store.policy.maxPayloadBytes.toNat + envelopeOverhead)) :=
    (maxEnvelopeBytes_eq_ok rfl).2 hsum
  have hread := readBytesBounded_of_held hp hd hpath hfile (h.length.trans_eq hsum.symm)
    (lt_of_eq_of_lt hsum hbounded)
  obtain ⟨opened, howned, hpayload⟩ := h.owned
  obtain ⟨verified, hverified⟩ := h.verified
  have hwhole {α : Type} {g : Bytes → SealedProg α} {Q : Except SealedError α → Disk → Prop}
      (hg : ∀ t, (g envelope).wp (fun _ => True) Q t) :
      Prog.wp (ofDnt store.policy.openOptions.maxEnvelopeBytes >>= fun maxBytes =>
        ofStorage (store.provider.readBytesBounded path maxBytes) >>= g) (fun _ => True) Q d := by
    refine wp_ofDnt_bind (fun maxBytes hfound => ?_) fun e he => ?_
    · obtain rfl := Except.ok.inj (hmax.symm.trans hfound)
      refine wp_ofStorage_bind ⟨fun _ _ => trivial, fun bytes hbytes => ?_, fun e he => ?_⟩
      · obtain rfl := Except.ok.inj (hread.symm.trans hbytes)
        exact hg _
      · rw [hread] at he
        cases he
    · rw [hmax] at he
      cases he
  constructor
  · have hwp : (store.readObject path).wp (fun _ => True) (fun r _ => r = .ok payload) d := by
      refine hwhole fun t => wp_ofDnt_bind (fun found hfound => ?_) fun e he => ?_
      · obtain rfl := Except.ok.inj (howned.symm.trans hfound)
        rw [Prog.wp_pure, hpayload]
      · rw [howned] at he
        cases he
    exact hwp.2
  · have hwp : (store.verifyObject path).wp (fun _ => True) (fun r _ => r = .ok ()) d := by
      refine hwhole fun t => wp_ofDnt_bind (fun found hfound => ?_) fun e he => ?_
      · rw [Prog.wp_pure]
      · rw [hverified] at he
        cases he
    exact hwp.2

/-- **A bound that is no number**: nothing is read or verified under it. -/
theorem unreadable (hwide : ¬ store.policy.Bounded) (path : String) (d : Disk) :
    (∀ payload, (store.readObject path).result d ≠ .ok payload) ∧
      (store.verifyObject path).result d ≠ .ok () := by
  have hfails {α : Type} {g : Bytes → SealedProg α} :
      Prog.wp (ofDnt store.policy.openOptions.maxEnvelopeBytes >>= fun maxBytes =>
        ofStorage (store.provider.readBytesBounded path maxBytes) >>= g) (fun _ => True)
          (fun r _ => ∀ a, r ≠ .ok a) d := by
    refine wp_ofDnt_bind (fun maxBytes hfound => ?_) fun _ _ _ => by simp
    refine wp_ofStorage_bind ⟨fun _ _ => trivial, fun bytes hbytes => ?_, fun _ _ _ => by simp⟩
    have hsum := (maxEnvelopeBytes_eq_ok rfl).1 hfound
    have hmax := (readable_of_bounded hbytes).2
    rw [hsum] at hmax
    exact absurd hmax hwide
  exact ⟨hfails.2, hfails.2 ()⟩

end Objects

/-! ## Writing an envelope -/

/-- The path names the data root itself, which is missing: a write makes a file of it. -/
def TakesRoot (provider : FileStorageProvider) (path : String) (d : Disk) : Prop :=
  relativeNames path = some [] ∧ d.get provider.storagePath = none

/-- A write to the path replaces a file below the data root, or fails without a trace. -/
def Writable (provider : FileStorageProvider) (path stamp : String) (d : Disk) : Prop :=
  ¬ LeavesTemporary provider path stamp d ∧ ¬ TakesRoot provider path d

/-- The files are as they were, and can be read if they could be. -/
structure LeftAlone (provider : FileStorageProvider) (d t : Disk) : Prop where
  files : filesBelow t provider.storagePath = filesBelow d provider.storagePath
  held : ∀ parent base, provider.storagePath = parent ++ [base] →
    Held parent base (fun _ => none) d → Held parent base (fun _ => none) t

theorem LeftAlone.refl (provider : FileStorageProvider) (d : Disk) : LeftAlone provider d d :=
  ⟨rfl, fun _ _ _ h => h⟩

theorem LeftAlone.trans {provider : FileStorageProvider} {d t u : Disk}
    (h : LeftAlone provider d t) (h' : LeftAlone provider t u) : LeftAlone provider d u :=
  ⟨h'.files.trans h.files, fun parent base hp hd => h'.held parent base hp (h.held parent base hp hd)⟩

section Placing

variable {provider : FileStorageProvider} {parent : Path} {base path stamp : String} {bytes : Bytes}
  {d : Disk}

theorem wp_writeBytes_unresolved {e : StorageError}
    (h : provider.resolveStorage path d = .error e) :
    (provider.writeBytes path bytes stamp).wp (fun _ => True) (fun r t => r ≠ .ok () ∧ t = d) d := by
  have heq := writeBytes_unresolved h bytes stamp
  refine ⟨fun _ _ => trivial, ?_, ?_⟩
  · rw [Prog.result, heq]
    simp
  · rw [Prog.final, heq]
    rfl

theorem wp_writeBytes_nameless (h : provider.storagePath = []) :
    (provider.writeBytes path bytes stamp).wp (fun _ => True) (fun r t => r ≠ .ok () ∧ t = d) d := by
  rw [FileStorageProvider.writeBytes, Prog.wp_read_bind]
  refine ⟨fun _ _ => ?_, fun _ _ => ⟨by simp, rfl⟩⟩
  rw [FileStorageProvider.withStorageLock, FileStorageProvider.acquireOperationLock, h,
    Prog.wp_bind, Prog.wp_bind, Prog.wp_read]
  exact ⟨by simp, rfl⟩

/-- A write that succeeds has taken the lock. -/
theorem wp_writeBytes_locked (hp : provider.storagePath = parent ++ [base]) :
    (provider.writeBytes path bytes stamp).wp (fun _ => True) (fun r t => r = .ok () →
      NamesFile path → ∃ content, t.get (sibling parent base "lock") = some (.file content)) d := by
  have hlock : IsLock provider (sibling parent base "lock") := by
    rw [IsLock, hp, siblingPath_concat]
  have hout : ¬ Inside provider.storagePath (sibling parent base "lock") := by
    rintro ⟨c, r, heq⟩
    rw [hp] at heq
    exact (apart_sibling parent base "lock").1 (heq ▸ List.prefix_append _ _)
  cases hresolve : provider.resolveStorage path d with
  | error e =>
    exact Prog.wp_mono (wp_writeBytes_unresolved hresolve) (fun _ _ => trivial)
      fun _ _ h hok => absurd hok h.1
  | ok full =>
    cases hopen : d.openCreate (sibling parent base "lock") with
    | ok u =>
      by_cases htext : NamesFile path
      · exact Prog.wp_mono (wp_writeBytes_locks hlock hresolve ⟨u, hopen⟩ htext hout)
          (fun _ _ => trivial) fun _ _ h _ _ => h
      · exact ⟨fun _ _ => trivial, fun _ h => absurd h htext⟩
    | error e =>
      rw [FileStorageProvider.writeBytes, Prog.wp_read_bind]
      refine ⟨fun _ _ => ?_, fun _ _ h => by cases h⟩
      rw [FileStorageProvider.withStorageLock, FileStorageProvider.acquireOperationLock,
        Prog.wp_bind, Prog.wp_bind, Prog.wp_read, hlock]
      refine wp_io (fun t ht => ?_) fun _ h => by cases h
      rw [hopen] at ht
      cases ht

/-- A write that succeeds has replaced a file below the data root. -/
theorem wp_writeBytes_replaced (hp : provider.storagePath = parent ++ [base])
    (hroot : ¬ TakesRoot provider path d) :
    (provider.writeBytes path bytes stamp).wp (fun _ => True) (fun r t => r = .ok () →
      ∃ names, relativeNames path = some names ∧ names ≠ [] ∧ filesBelow t (parent ++ [base]) =
        Function.update (filesBelow d (parent ++ [base])) names (some bytes)) d := by
  by_cases hfile : ∃ content, d.get (parent ++ [base]) = some (.file content)
  · -- nothing is resolved below a file
    obtain ⟨content, hfile⟩ := hfile
    have hresolve : ∃ e, provider.resolveStorage path d = .error e := by
      rw [FileStorageProvider.resolveStorage, resolveUnderRoot, hp, Disk.stat_of_get hfile]
      split
      · exact ⟨_, rfl⟩
      · exact ⟨_, rfl⟩
    obtain ⟨e, hresolve⟩ := hresolve
    exact Prog.wp_mono (wp_writeBytes_unresolved hresolve) (fun _ _ => trivial)
      fun _ _ h hok => absurd hok h.1
  refine wp_writeBytes_place hp (fun e t _ h => by cases h) ?_
  intro u names _ hnames hclear hu hkept
  have hbelow := append_mem_below (parent ++ [base]) names
  obtain ⟨front, name, hplace⟩ := target_concat parent base names
  obtain ⟨other, hother, htmp⟩ := tmpPathFor_concat front name stamp
  rw [hplace] at hclear hbelow hkept ⊢
  rw [htmp]
  have hsame := hkept _ hbelow not_prefix_parentPath
  by_cases hdir : u.get (front ++ [name]) = some .dir
  · exact Prog.wp_mono (wp_writeAtomicFile_onto hother hdir) (fun _ _ => trivial)
      fun _ _ h hok => absurd (h.1.symm.trans hok) (by simp)
  · refine Prog.wp_mono (wp_writeAtomicFile_replaces hother hclear hdir) (fun _ _ => trivial) ?_
    rintro r v (⟨-, hget⟩ | ⟨hr, -⟩) hok
    · rw [← hplace] at hget
      refine ⟨names, hnames, ?_, hu ▸ filesBelow_update hget⟩
      rintro rfl
      rw [← hplace, List.append_nil] at hsame hdir
      cases hnode : d.get (parent ++ [base]) with
      | none => exact hroot ⟨hnames, hp ▸ hnode⟩
      | some n =>
        cases n with
        | dir => exact hdir (hsame.trans hnode)
        | file content => exact hfile ⟨content, hnode⟩
    · exact absurd hok hr

/-- Then the file can be read. -/
theorem wp_writeBytes_held (hp : provider.storagePath = parent ++ [base])
    (hroot : ¬ TakesRoot provider path d) :
    (provider.writeBytes path bytes stamp).wp (fun _ => True) (fun r t => r = .ok () →
      ∃ names, relativeNames path = some names ∧ filesBelow t (parent ++ [base]) =
        Function.update (filesBelow d (parent ++ [base])) names (some bytes) ∧
          Held parent base (fun _ => none) t) d := by
  refine Prog.wp_mono (Prog.wp_and (wp_writeBytes_replaced hp hroot) (wp_writeBytes_locked hp))
    (fun _ _ => trivial) ?_
  rintro r t ⟨hreplaced, hlocked⟩ hok
  obtain ⟨names, hnames, hne, hfiles⟩ := hreplaced hok
  have hnamed : NamesFile path := by
    intro h
    exact hne (Option.some.inj (hnames.symm.trans h))
  obtain ⟨content, hlock⟩ := hlocked hok hnamed
  refine ⟨names, hnames, hfiles, ⟨⟨?_, fun _ _ h => by cases h⟩, by simp [hlock]⟩⟩
  have hfile : filesBelow t (parent ++ [base]) names = some bytes := by
    rw [hfiles, Function.update_self]
  cases names with
  | nil => exact absurd rfl hne
  | cons c rest => exact Disk.get_of_append (filesBelow_eq_some.1 hfile)

/-- A write that fails leaves the files alone. -/
theorem wp_writeBytes_leftAlone (h : Writable provider path stamp d) :
    (provider.writeBytes path bytes stamp).wp (fun _ => True) (fun r t => r ≠ .ok () →
      LeftAlone provider d t) d := by
  obtain hnil | ⟨parent, base, heq⟩ := List.eq_nil_or_concat provider.storagePath
  · refine Prog.wp_mono (wp_writeBytes_nameless hnil) (fun _ _ => trivial) ?_
    rintro r t ⟨-, rfl⟩ _
    exact LeftAlone.refl provider t
  · have hp : provider.storagePath = parent ++ [base] := heq.trans List.concat_eq_append
    refine ⟨fun _ _ => trivial, fun hr => ⟨?_, fun parent base hp hd => ?_⟩⟩
    · rw [hp]
      exact (wp_writeBytes_keeps h.1 hp).2 hr
    · exact (wp_writeBytes hp hd path bytes stamp).2.1 hr

/-- A read leaves the files alone. -/
theorem leftAlone_readBytesBounded (provider : FileStorageProvider) (path : String)
    (maxBytes : UInt64) (d : Disk) :
    LeftAlone provider d ((provider.readBytesBounded path maxBytes).final d) := by
  rw [final_readBytesBounded]
  refine ⟨?_, fun parent base hp hd => held_locate hp hd⟩
  obtain hnil | ⟨parent, base, heq⟩ := List.eq_nil_or_concat provider.storagePath
  · have hwp : (provider.locate path).wp (fun _ => True) (fun _ t => t = d) d := by
      rw [FileStorageProvider.locate, Prog.wp_read_bind]
      refine ⟨fun _ _ => ?_, fun _ _ => rfl⟩
      rw [FileStorageProvider.withStorageLock, FileStorageProvider.acquireOperationLock, hnil,
        Prog.wp_bind, Prog.wp_bind, Prog.wp_read]
      rfl
    rw [hwp.2]
  · have hp : provider.storagePath = parent ++ [base] := heq.trans List.concat_eq_append
    rw [hp]
    exact filesBelow_locate hp

end Placing

end AppCore.Storage
