import AppCore.Base.Runs
import AppCore.Storage.RemoteExchange
import AppCore.Storage.Writes

/-!
# Files that are sealed by the service

Writes and reads through the auth service, and an attacker who copies files below the data root.

* `bound_run` — as long as a copy brings to a path only what was stored for that path, what a read
  returns was written to its path, and what was written last can be read back.

A write onto a directory is left out, too: it fails with the sealed bytes in its temporary file.
-/

namespace AppCore.Storage.SealedFiles

open Remote

section

variable {Seed : Type} (provider : FileStorageProvider) (path : String)
  (client : Option (RemoteAuthStorageClient Seed)) (data : TimedProvider Seed)
  (exchange : Exchange Seed)

def writeRemoteAuthRequiredBytes (bytes : Bytes) (stamp : String) (d : Disk) :
    RemoteResult Unit × Disk :=
  match client with
  | none => (.error (.authUnavailable path), d)
  | some client =>
    match client.sealResource path bytes exchange.draw (network client.provider data exchange)
        exchange.last with
    | .error e => (.error e, d)
    | .ok sealed =>
      let write := provider.writeBytes path sealed stamp
      ((write.result d).mapError .storage, write.final d)

def readRemoteAuthRequiredBytes (d : Disk) : RemoteResult Bytes × Disk :=
  match client with
  | none => (.error (.authUnavailable path), d)
  | some client =>
    let read := provider.readBytes path
    match read.result d with
    | .error e => (.error (.storage e), read.final d)
    | .ok sealed =>
      (client.openResource path sealed exchange.draw (network client.provider data exchange)
        exchange.last, read.final d)

end

/-- A file is copied onto another one. -/
def copyFile (source target : Path) (d : Disk) : Except IoError Disk := do
  let content ← d.readFile source
  let d ← d.openCreate target
  d.writeAll target content

/-! ## The system -/

/-- A write that succeeded, with the bytes that it put on the disk. -/
structure Stored where
  path : String
  names : Path
  bytes : Bytes
  sealed : Bytes
  deriving DecidableEq

/-- The disk, the writes that succeeded, the last of them for each path unless a file was copied onto
it since, and what reads returned. -/
structure State where
  disk : Disk
  stored : List Stored := []
  current : Path → Option Stored := fun _ => none
  reads : List (String × Bytes) := []

/-- What happens next. A copy is made by an attacker, between two names below the data root. -/
inductive Event (Seed : Type) where
  | write (path : String) (bytes : Bytes) (stamp : String) (exchange : Exchange Seed)
  | copy (source target : Path)
  | read (path : String) (exchange : Exchange Seed)

section

variable {Seed : Type}

/-- A step of the system. -/
def step (provider : FileStorageProvider) (client : RemoteAuthStorageClient Seed)
    (data : TimedProvider Seed) (s : State) : Event Seed → Option State
  | .write path bytes stamp exchange =>
    match writeRemoteAuthRequiredBytes provider path (some client) data exchange bytes stamp
        s.disk with
    | (.error _, disk) => some { s with disk := disk }
    | (.ok _, disk) =>
      let names := (relativeNames path).getD []
      let stored : Stored :=
        ⟨path, names, bytes, (filesBelow disk provider.storagePath names).getD []⟩
      some { s with
        disk := disk
        stored := s.stored ++ [stored]
        current := Function.update s.current names (some stored) }
  | .copy source target =>
    match copyFile (provider.storagePath ++ source) (provider.storagePath ++ target) s.disk with
    | .error _ => some s
    | .ok disk =>
      some { s with disk := disk, current := Function.update s.current target none }
  | .read path exchange =>
    match readRemoteAuthRequiredBytes provider path (some client) data exchange s.disk with
    | (.error _, disk) => some { s with disk := disk }
    | (.ok bytes, disk) => some { s with disk := disk, reads := s.reads ++ [(path, bytes)] }

/-- No step interferes: no write goes onto a directory, and a copy brings to a path what a write to
that path stored. -/
def Undisturbed (provider : FileStorageProvider) (s : State) : Event Seed → Prop
  | .write path _ _ _ =>
    ∀ names, relativeNames path = some names →
      s.disk.get (provider.storagePath ++ names) ≠ some .dir
  | .copy source target =>
    ∀ content, filesBelow s.disk provider.storagePath source = some content →
      ∃ stored ∈ s.stored, stored.names = target ∧ stored.sealed = content
  | .read _ _ => True

/-- Sealed data is bound to its path. -/
structure Bound (provider : FileStorageProvider) (client : RemoteAuthStorageClient Seed)
    (data : TimedProvider Seed) (s : State) : Prop where
  /-- What a read returned was written to its path. -/
  read : ∀ r ∈ s.reads, ∃ stored ∈ s.stored,
    relativeNames r.1 = some stored.names ∧ stored.bytes = r.2
  /-- What was written last is read back when the exchange goes through. -/
  through : ∀ names stored, s.current names = some stored → ∀ exchange,
    GoesThrough client stored.path "open" stored.sealed stored.bytes exchange →
      (readRemoteAuthRequiredBytes provider stored.path (some client) data exchange s.disk).1 =
        .ok stored.bytes
  /-- It need not be small then, when sizes are as they should be. -/
  timely : Sized client data → ∀ names stored, s.current names = some stored → ∀ exchange,
    Timely client stored.path "open" stored.sealed stored.bytes exchange →
      (readRemoteAuthRequiredBytes provider stored.path (some client) data exchange s.disk).1 =
        .ok stored.bytes

end

section

variable {provider : FileStorageProvider} {parent : Path} {base : String} {d : Disk}

/-- A copy puts the bytes of one file in the place of another. -/
theorem filesBelow_copyFile {root source target : Path} {t : Disk}
    (h : copyFile (root ++ source) (root ++ target) d = .ok t) :
    ∃ content, filesBelow d root source = some content ∧
      filesBelow t root = Function.update (filesBelow d root) target (some content) ∧
      d.get (root ++ target) ≠ some .dir ∧ ∀ q, q ≠ root ++ target → t.get q = d.get q := by
  obtain ⟨content, hread, h⟩ := bind_eq_ok.1 h
  obtain ⟨u, hopen, hwrite⟩ := bind_eq_ok.1 h
  have hget (q : Path) :
      t.get q = if q = root ++ target then some (.file content) else d.get q := by
    rw [Disk.get_writeAll hwrite]
    by_cases hq : q = root ++ target
    · rw [if_pos hq, if_pos hq]
    · rw [if_neg hq, if_neg hq, (Disk.get_openCreate hopen).2.1 q hq]
  refine ⟨content, filesBelow_eq_some.2 (Disk.readFile_eq_ok.1 hread), filesBelow_update hget,
    fun hdir => ?_, fun q hq => ?_⟩
  · rw [Disk.openCreate, Disk.stat_of_get hdir] at hopen
    cases hopen
  · rw [hget, if_neg hq]

/-- A read leaves the files alone. -/
theorem filesBelow_readBytes (hp : provider.storagePath = parent ++ [base])
    (hd : Held parent base (fun _ => none) d) (path : String) :
    Held parent base (fun _ => none) ((provider.readBytes path).final d) ∧
      filesBelow ((provider.readBytes path).final d) (parent ++ [base]) =
        filesBelow d (parent ++ [base]) := by
  refine ⟨(keeps_look hp path _).final hd, ?_⟩
  have hwp : (provider.readBytes path).wp (fun _ => True) (fun _ t =>
      filesBelow t (parent ++ [base]) = filesBelow d (parent ++ [base])) d := by
    rw [FileStorageProvider.readBytes, Prog.wp_read_bind]
    refine ⟨fun _ _ => ?_, fun _ _ => rfl⟩
    rw [FileStorageProvider.withStorageLock, FileStorageProvider.acquireOperationLock, hp,
      siblingPath_concat, Prog.wp_bind, Prog.wp_bind, Prog.wp_read]
    refine wp_io (fun t hlock => ⟨trivial, ?_⟩) fun _ => rfl
    have ht := filesBelow_openLock hlock
    dsimp only
    rw [Prog.wp_read_bind]
    refine ⟨fun _ _ => ?_, fun _ _ => ht⟩
    rw [Prog.wp_read]
    exact ht
  exact hwp.2

end

/-! ## What is kept -/

section

variable {Seed : Type} {provider : FileStorageProvider} {parent : Path} {base : String}
  {client : RemoteAuthStorageClient Seed} {data : TimedProvider Seed} {s : State}

/-- The bytes were sealed within the limits, for a path that has these names. -/
structure Stored.Sealed (client : RemoteAuthStorageClient Seed) (data : TimedProvider Seed)
    (stored : Stored) : Prop where
  names : relativeNames stored.path = some stored.names
  resource : validateResource stored.path = .ok ()
  sealed : ∃ exchange, GoesThrough client stored.path "seal" stored.bytes stored.sealed exchange ∧
    data.sealToken exchange.serving.dataMs exchange.serving.dataSeed stored.bytes dataClaims =
      .ok stored.sealed

/-- The invariant: every file was stored for its path. -/
structure Kept (client : RemoteAuthStorageClient Seed) (data : TimedProvider Seed) (parent : Path)
    (base : String) (s : State) : Prop where
  held : Held parent base (fun _ => none) s.disk
  files : ∀ names content, filesBelow s.disk (parent ++ [base]) names = some content →
    ∃ stored ∈ s.stored, stored.names = names ∧ stored.sealed = content
  stored : ∀ stored ∈ s.stored, stored.Sealed client data
  current : ∀ names stored, s.current names = some stored → stored ∈ s.stored ∧
    stored.names = names ∧ filesBelow s.disk (parent ++ [base]) names = some stored.sealed
  reads : ∀ r ∈ s.reads, ∃ stored ∈ s.stored,
    relativeNames r.1 = some stored.names ∧ stored.bytes = r.2

theorem Stored.Sealed.opens {stored : Stored} (h : stored.Sealed client data) (hdata : Exact data)
    (openMs : UInt64) : data.openToken openMs stored.sealed dataClaims = .ok stored.bytes := by
  obtain ⟨exchange, -, hseal⟩ := h.sealed
  obtain ⟨out, hopen⟩ := hdata.unexpiring _ _ _ _ _ openMs hseal rfl
  rw [hopen, hdata.same _ _ _ _ _ _ _ hseal hopen]

theorem Stored.Sealed.opened {stored : Stored} (h : stored.Sealed client data)
    (htransport : Exact client.provider) (hdata : Exact data) {path : String}
    {exchange : Exchange Seed} {out : Bytes}
    (hopen : client.openResource path stored.sealed exchange.draw
      (network client.provider data exchange) exchange.last = .ok out) : out = stored.bytes := by
  obtain ⟨-, -, -, hmade⟩ := (call_eq_ok htransport).1 hopen
  obtain ⟨hseal, -⟩ | ⟨-, hmade⟩ := hmade
  · exact absurd hseal (by decide)
  · rw [h.opens hdata] at hmade
    exact (Except.ok.inj hmade).symm

theorem held_files {d : Disk} (h : Held parent base (fun _ => none) d) :
    Held parent base (filesBelow d (parent ++ [base])) d :=
  ⟨holds_filesBelow h.holds.dir, h.lock⟩

/-- Stored bytes that are in their place are read back. -/
theorem read_back (hp : provider.storagePath = parent ++ [base]) (htransport : Exact client.provider)
    (hdata : Exact data) {stored : Stored} (h : stored.Sealed client data) {d : Disk}
    (hheld : Held parent base (fun _ => none) d)
    (hfile : filesBelow d (parent ++ [base]) stored.names = some stored.sealed)
    {exchange : Exchange Seed}
    (hthrough : GoesThrough client stored.path "open" stored.sealed stored.bytes exchange) :
    (readRemoteAuthRequiredBytes provider stored.path (some client) data exchange d).1 =
      .ok stored.bytes := by
  obtain ⟨hget, hread⟩ := (wp_look hp (held_files hheld) h.names hfile
    fun full => readRegularFile full (.repositoryNotFound stored.path)).2
  have hbytes : (provider.readBytes stored.path).result d = .ok stored.sealed :=
    hread.trans (readRegularFile_eq_ok.2 hget)
  have hcall : client.openResource stored.path stored.sealed exchange.draw
      (network client.provider data exchange) exchange.last = .ok stored.bytes :=
    (call_eq_ok htransport).2 ⟨h.resource, by decide, hthrough,
      Or.inr ⟨rfl, h.opens hdata exchange.serving.dataMs⟩⟩
  simp only [readRemoteAuthRequiredBytes, hbytes, hcall]

/-- What the invariant says about reads. -/
theorem Kept.bound (h : Kept client data parent base s)
    (hp : provider.storagePath = parent ++ [base]) (htransport : Exact client.provider)
    (hdata : Exact data) : Bound provider client data s := by
  have hback : ∀ names stored, s.current names = some stored → ∀ exchange,
      GoesThrough client stored.path "open" stored.sealed stored.bytes exchange →
        (readRemoteAuthRequiredBytes provider stored.path (some client) data exchange s.disk).1 =
          .ok stored.bytes := by
    intro names stored hcurrent exchange hthrough
    obtain ⟨hstored, hnames, hfile⟩ := h.current names stored hcurrent
    rw [← hnames] at hfile
    exact read_back hp htransport hdata (h.stored stored hstored) h.held hfile hthrough
  refine ⟨h.reads, hback, ?_⟩
  intro hsized names stored hcurrent exchange htimely
  obtain ⟨hstored, -, -⟩ := h.current names stored hcurrent
  obtain ⟨written, hwritten, hseal⟩ := (h.stored stored hstored).sealed
  exact hback names stored hcurrent exchange (goesThrough_of_sealed hsized hwritten hseal htimely)

theorem Kept.of_files (h : Kept client data parent base s) {disk : Disk}
    (hheld : Held parent base (fun _ => none) disk)
    (hfiles : filesBelow disk (parent ++ [base]) = filesBelow s.disk (parent ++ [base])) :
    Kept client data parent base { s with disk := disk } :=
  ⟨hheld, hfiles ▸ h.files, h.stored, hfiles ▸ h.current, h.reads⟩

/-- Bytes that were sealed for a path take its place. -/
theorem Kept.write (h : Kept client data parent base s) {disk : Disk} (stored : Stored)
    (hheld : Held parent base (fun _ => none) disk) (hsealed : stored.Sealed client data)
    (hfiles : filesBelow disk (parent ++ [base]) =
      Function.update (filesBelow s.disk (parent ++ [base])) stored.names (some stored.sealed)) :
    Kept client data parent base { s with
      disk := disk
      stored := s.stored ++ [stored]
      current := Function.update s.current stored.names (some stored) } := by
  have hlast : stored ∈ s.stored ++ [stored] := by simp
  refine ⟨hheld, ?_, ?_, ?_, ?_⟩
  · intro names content hcontent
    rw [hfiles] at hcontent
    by_cases hnames : names = stored.names
    · rw [hnames, Function.update_self] at hcontent
      exact ⟨stored, hlast, hnames.symm, Option.some.inj hcontent⟩
    · rw [Function.update_of_ne hnames] at hcontent
      obtain ⟨old, hold, heq⟩ := h.files names content hcontent
      exact ⟨old, List.mem_append_left _ hold, heq⟩
  · intro old hold
    obtain hold | hold := List.mem_append.1 hold
    · exact h.stored old hold
    · rw [List.mem_singleton.1 hold]
      exact hsealed
  · intro names old hold
    dsimp only at hold ⊢
    rw [hfiles]
    by_cases hnames : names = stored.names
    · rw [hnames, Function.update_self] at hold ⊢
      obtain rfl := Option.some.inj hold
      exact ⟨hlast, rfl, rfl⟩
    · rw [Function.update_of_ne hnames] at hold ⊢
      obtain ⟨hmem, heq⟩ := h.current names old hold
      exact ⟨List.mem_append_left _ hmem, heq⟩
  · intro r hr
    obtain ⟨old, hold, heq⟩ := h.reads r hr
    exact ⟨old, List.mem_append_left _ hold, heq⟩

/-- Bytes that were stored for a path are copied onto it. -/
theorem Kept.copy (h : Kept client data parent base s) {disk : Disk} {target : Path} {content : Bytes}
    (hheld : Held parent base (fun _ => none) disk)
    (hstored : ∃ stored ∈ s.stored, stored.names = target ∧ stored.sealed = content)
    (hfiles : filesBelow disk (parent ++ [base]) =
      Function.update (filesBelow s.disk (parent ++ [base])) target (some content)) :
    Kept client data parent base { s with
      disk := disk
      current := Function.update s.current target none } := by
  refine ⟨hheld, ?_, h.stored, ?_, h.reads⟩
  · intro names found hfound
    rw [hfiles] at hfound
    by_cases hnames : names = target
    · rw [hnames, Function.update_self] at hfound
      rw [hnames, ← Option.some.inj hfound]
      exact hstored
    · rw [Function.update_of_ne hnames] at hfound
      exact h.files names found hfound
  · intro names old hold
    dsimp only at hold ⊢
    by_cases hnames : names = target
    · rw [hnames, Function.update_self] at hold
      cases hold
    · rw [Function.update_of_ne hnames] at hold
      rw [hfiles, Function.update_of_ne hnames]
      exact h.current names old hold

theorem Kept.read (h : Kept client data parent base s) {r : String × Bytes}
    (hr : ∃ stored ∈ s.stored, relativeNames r.1 = some stored.names ∧ stored.bytes = r.2) :
    Kept client data parent base { s with reads := s.reads ++ [r] } := by
  refine ⟨h.held, h.files, h.stored, h.current, ?_⟩
  intro other hother
  obtain hother | hother := List.mem_append.1 hother
  · exact h.reads other hother
  · rw [List.mem_singleton.1 hother]
    exact hr

/-- A write keeps the invariant. -/
theorem kept_write (hp : provider.storagePath = parent ++ [base]) (htransport : Exact client.provider)
    (h : Kept client data parent base s) {path : String} {bytes : Bytes} {stamp : String}
    {exchange : Exchange Seed} {s' : State}
    (hnext : Undisturbed provider s (.write path bytes stamp exchange))
    (hstep : step provider client data s (.write path bytes stamp exchange) = some s') :
    Kept client data parent base s' := by
  simp only [step, writeRemoteAuthRequiredBytes] at hstep
  cases hcall : client.sealResource path bytes exchange.draw (network client.provider data exchange)
      exchange.last with
  | error e =>
    rw [hcall] at hstep
    obtain rfl := Option.some.inj hstep
    exact h
  | ok sealed =>
    obtain ⟨hresource, -, hthrough, hmade⟩ := (call_eq_ok htransport).1 hcall
    obtain ⟨-, hseal⟩ | ⟨hopen, -⟩ := hmade
    swap
    · exact absurd hopen (by decide)
    rw [hcall] at hstep
    dsimp only at hstep
    have hheld := (wp_writeBytes hp h.held path sealed stamp).2
    have hnone (names : Path) : Function.update (fun _ : Path => (none : Option Bytes)) names none =
        fun _ => none := Function.update_eq_self names _
    obtain ⟨hresult, names, hnames, hfiles⟩ | ⟨hresult, hfiles⟩ := (wp_writeBytes_files hp
      (fun names hnames => hp ▸ hnext names hnames) sealed stamp).2
    · rw [hresult] at hstep
      obtain rfl := Option.some.inj hstep
      have hcontent : filesBelow ((provider.writeBytes path sealed stamp).final s.disk)
          provider.storagePath names = some sealed := by
        rw [hp, hfiles, Function.update_self]
      have hgiven : ⟨path, (relativeNames path).getD [], bytes,
          (filesBelow ((provider.writeBytes path sealed stamp).final s.disk) provider.storagePath
            ((relativeNames path).getD [])).getD []⟩ = (⟨path, names, bytes, sealed⟩ : Stored) := by
        rw [hnames, Option.getD_some, hcontent, Option.getD_some]
      rw [hgiven, hnames, Option.getD_some]
      refine h.write ⟨path, names, bytes, sealed⟩ ?_
        ⟨hnames, hresource, exchange, hthrough, hseal⟩ hfiles
      have hafter := hheld.2 names hnames
      rwa [hnone] at hafter
    · cases hwrite : (provider.writeBytes path sealed stamp).result s.disk with
      | ok _ => exact absurd hwrite hresult
      | error e =>
        rw [hwrite] at hstep
        obtain rfl := Option.some.inj hstep
        exact h.of_files (hheld.1 hresult) hfiles

/-- A copy keeps it. -/
theorem kept_copy (hp : provider.storagePath = parent ++ [base]) (h : Kept client data parent base s)
    {source target : Path} {s' : State} (hnext : Undisturbed provider s (.copy source target : Event Seed))
    (hstep : step provider client data s (.copy source target) = some s') :
    Kept client data parent base s' := by
  simp only [step] at hstep
  cases hcopy : copyFile (provider.storagePath ++ source) (provider.storagePath ++ target) s.disk with
  | error e =>
    rw [hcopy] at hstep
    obtain rfl := Option.some.inj hstep
    exact h
  | ok disk =>
    rw [hcopy] at hstep
    obtain rfl := Option.some.inj hstep
    obtain ⟨content, hsource, hfiles, hdir, hothers⟩ := filesBelow_copyFile hcopy
    rw [hp] at hfiles hdir hothers
    refine h.copy ⟨⟨?_, fun _ _ hnone => ?_⟩, ?_⟩ (hnext content hsource) hfiles
    · -- the data root is a directory, so nothing was copied onto it
      rw [hothers _ fun heq => hdir (heq ▸ h.held.holds.dir)]
      exact h.held.holds.dir
    · cases hnone
    · have hlock : sibling parent base "lock" ≠ parent ++ [base] ++ target := fun heq =>
        (apart_sibling parent base "lock").1 (heq ▸ List.prefix_append _ _)
      rw [hothers _ hlock]
      exact h.held.lock

/-- A read keeps it. -/
theorem kept_read (hp : provider.storagePath = parent ++ [base]) (htransport : Exact client.provider)
    (hdata : Exact data) (h : Kept client data parent base s) {path : String}
    {exchange : Exchange Seed} {s' : State}
    (hstep : step provider client data s (.read path exchange) = some s') :
    Kept client data parent base s' := by
  obtain ⟨hheld, hfiles⟩ := filesBelow_readBytes hp h.held path
  have hdisk := h.of_files hheld hfiles
  simp only [step, readRemoteAuthRequiredBytes] at hstep
  cases hread : (provider.readBytes path).result s.disk with
  | error e =>
    rw [hread] at hstep
    obtain rfl := Option.some.inj hstep
    exact hdisk
  | ok content =>
    rw [hread] at hstep
    dsimp only at hstep
    cases hcall : client.openResource path content exchange.draw
        (network client.provider data exchange) exchange.last with
    | error e =>
      rw [hcall] at hstep
      obtain rfl := Option.some.inj hstep
      exact hdisk
    | ok out =>
      rw [hcall] at hstep
      obtain rfl := Option.some.inj hstep
      refine hdisk.read ?_
      obtain ⟨-, -, names, -, -, hnames, hfile⟩ := held_of_readable hread
      rw [hp] at hfile
      obtain ⟨stored, hstored, rfl, rfl⟩ := h.files names content hfile
      exact ⟨stored, hstored, hnames, ((h.stored stored hstored).opened htransport hdata hcall).symm⟩

theorem kept_step (hp : provider.storagePath = parent ++ [base]) (htransport : Exact client.provider)
    (hdata : Exact data) (h : Kept client data parent base s) {event : Event Seed} {s' : State}
    (hnext : Undisturbed provider s event) (hstep : step provider client data s event = some s') :
    Kept client data parent base s' := by
  cases event with
  | write path bytes stamp exchange => exact kept_write hp htransport h hnext hstep
  | copy source target => exact kept_copy hp h hnext hstep
  | read path exchange => exact kept_read hp htransport hdata h hstep

/-- **Sealed data stays bound to its path** in every run without interference, from an open data root
without files. -/
theorem bound_run (hp : provider.storagePath = parent ++ [base]) (htransport : Exact client.provider)
    (hdata : Exact data) {d : Disk} (hopened : Held parent base (fun _ => none) d)
    (hempty : ∀ names, filesBelow d (parent ++ [base]) names = none) {steps : List (Event Seed)}
    (h : EachStep (step provider client data) (Undisturbed provider) ⟨d, [], fun _ => none, []⟩
      steps) :
    Throughout (step provider client data) (Bound provider client data) ⟨d, [], fun _ => none, []⟩
      steps := by
  have hstart : Kept client data parent base ⟨d, [], fun _ => none, []⟩ := by
    refine ⟨hopened, fun names content hcontent => ?_, fun _ hnone => ?_, fun _ _ hnone => ?_,
      fun _ hnone => ?_⟩
    · rw [hempty] at hcontent
      cases hcontent
    all_goals cases hnone
  have hkept : Throughout (step provider client data) (Kept client data parent base)
      ⟨d, [], fun _ => none, []⟩ steps :=
    throughout_of_step hstart
      (fun _ _ _ hinv hnext hstep => kept_step hp htransport hdata hinv hnext hstep) h
  exact hkept.imp fun _ hinv => hinv.bound hp htransport hdata

end

/-! ## A copied file -/

/-- A data root without files. -/
def openedDisk : Disk := (Disk.empty.createDir ["data"]).toOption.getD Disk.empty

/-- The provider of that data root. -/
def openedProvider : FileStorageProvider := ⟨["data"], ["backup"]⟩

/-- An exchange at a time, of the process 7. -/
def exchangeAt (ms : UInt64) (counter : UInt64) : Exchange Unit :=
  ⟨⟨ms, ms, 7, counter, ()⟩, true, ⟨ms, ms, ms, (), ms, ()⟩, ⟨ms, ms⟩⟩

/-- A client whose transport carries a write of one byte to `first.bin`, and a read of a path. -/
def carryingClient (path : String) : RemoteAuthStorageClient Unit where
  provider := listedTransport
    [requestToVec (asked "first.bin" "seal" [1] (exchangeAt 1000 0).draw),
      responseToVec (answered (exchangeAt 1000 0).draw [0, 1]),
      requestToVec (asked path "open" [0, 1] (exchangeAt 2000 1).draw),
      responseToVec (answered (exchangeAt 2000 1).draw [1])]

/-- That write, and a read after it. -/
def writeOfFirst : Event Unit := .write "first.bin" [1] "1" (exchangeAt 1000 0)

theorem exact_listedTransport {documents : List Bytes} (h : documents.length ≤ 256) :
    Exact (listedTransport documents) := by
  have hplace {document : Bytes} (hmem : document ∈ documents) :
      documents[((documents.idxOf document).toUInt8).toNat]? = some document := by
    have hlt := List.idxOf_lt_length_of_mem hmem
    have hnat : ((documents.idxOf document).toUInt8).toNat = documents.idxOf document := by
      rw [Nat.toUInt8_eq, UInt8.toNat_ofNat']
      omega
    rw [hnat, List.getElem?_eq_getElem hlt, List.getElem_idxOf]
  have hopens : ∀ sealMs seed document claims token openMs,
      (listedTransport documents).sealToken sealMs seed document claims = .ok token →
        (listedTransport documents).openToken openMs token claims = .ok document := by
    intro sealMs seed document claims token openMs hseal
    simp only [listedTransport] at hseal ⊢
    by_cases hmem : document ∈ documents
    · rw [if_pos hmem] at hseal
      obtain rfl := Except.ok.inj hseal
      simp only [hplace hmem]
    · rw [if_neg hmem] at hseal
      cases hseal
  constructor
  · intro sealMs seed document claims token openMs out hseal hopen
    rw [hopens _ _ _ _ _ openMs hseal] at hopen
    exact (Except.ok.inj hopen).symm
  · intro sealMs seed document claims token openMs hseal _
    exact ⟨document, hopens _ _ _ _ _ openMs hseal⟩

theorem exact_taggedData : Exact taggedData := by
  constructor
  · intro sealMs seed payload claims token openMs out hseal hopen
    obtain rfl := Except.ok.inj hseal
    exact (Except.ok.inj hopen).symm
  · intro sealMs seed payload claims token openMs hseal _
    obtain rfl := Except.ok.inj hseal
    exact ⟨payload, rfl⟩

theorem held_openedDisk : Held [] "data" (fun _ => none) openedDisk :=
  ⟨⟨by decide, fun _ _ hnone => by cases hnone⟩, by decide⟩

theorem filesBelow_openedDisk (names : Path) : filesBelow openedDisk ["data"] names = none := by
  have hnodes : openedDisk.nodes = [([], .dir), (["data"], .dir)] := by decide
  refine Option.eq_none_iff_forall_ne_some.2 fun content hcontent => ?_
  have hmem := Disk.get_eq_some.1 (filesBelow_eq_some.1 hcontent)
  rw [hnodes] at hmem
  simp at hmem

theorem bound_run_written : ∃ s,
    runFrom (step openedProvider (carryingClient "first.bin") taggedData)
        ⟨openedDisk, [], fun _ => none, []⟩
        [writeOfFirst, .read "first.bin" (exchangeAt 2000 1)] = some s ∧
      s.reads = [("first.bin", [1])] ∧
      Throughout (step openedProvider (carryingClient "first.bin") taggedData)
        (Bound openedProvider (carryingClient "first.bin") taggedData)
        ⟨openedDisk, [], fun _ => none, []⟩
        [writeOfFirst, .read "first.bin" (exchangeAt 2000 1)] := by
  have hrun : (runFrom (step openedProvider (carryingClient "first.bin") taggedData)
      ⟨openedDisk, [], fun _ => none, []⟩ [writeOfFirst, .read "first.bin" (exchangeAt 2000 1)]).any
        (fun s => s.reads = [("first.bin", [1])]) = true := by
    delta step writeRemoteAuthRequiredBytes readRemoteAuthRequiredBytes
      RemoteAuthStorageClient.sealResource RemoteAuthStorageClient.openResource
      RemoteAuthStorageClient.call RemoteAuthStorageClient.begin RemoteAuthStorageClient.finish
      network serve openRemoteRequest openRemoteResponse sealRemoteRequest sealRemoteResponse
      sealDocument readHttpResponse requestFromSlice responseFromSlice
    rw [fromUtf8_eq_ascii]
    decide +kernel
  obtain ⟨s, hs, hreads⟩ := (Option.any_eq_true _ _).1 hrun
  have hnames : relativeNames "first.bin" = some ["first.bin"] := by decide
  have hwrite : Undisturbed openedProvider ⟨openedDisk, [], fun _ => none, []⟩ writeOfFirst := by
    intro names h
    obtain rfl := Option.some.inj (hnames.symm.trans h)
    decide
  have hp : openedProvider.storagePath = [] ++ ["data"] := rfl
  refine ⟨s, hs, of_decide_eq_true hreads, bound_run hp (exact_listedTransport (by simp))
    exact_taggedData held_openedDisk filesBelow_openedDisk ?_⟩
  exact eachStep_cons.2 ⟨hwrite, fun _ _ => eachStep_cons.2 ⟨trivial, fun _ _ => eachStep_nil _ _⟩⟩

/-- The copy of a sealed file is opened as the file that it was copied onto. -/
theorem copied_file_opens :
    ¬ ∀ (Seed : Type) (provider : FileStorageProvider) (client : RemoteAuthStorageClient Seed)
      (data : TimedProvider Seed) (parent : Path) (base : String),
      provider.storagePath = parent ++ [base] → Exact client.provider → Exact data →
        ∀ d : Disk, Held parent base (fun _ => none) d →
          (∀ names, filesBelow d (parent ++ [base]) names = none) →
            ∀ steps : List (Event Seed), Throughout (step provider client data)
              (Bound provider client data) ⟨d, [], fun _ => none, []⟩ steps := by
  intro h
  have hrun : (runFrom (step openedProvider (carryingClient "second.bin") taggedData)
      ⟨openedDisk, [], fun _ => none, []⟩ [writeOfFirst, .copy ["first.bin"] ["second.bin"],
        .read "second.bin" (exchangeAt 2000 1)]).any
          (fun s => (s.reads, s.stored.map Stored.names) =
            ([("second.bin", [1])], [["first.bin"]])) = true := by
    delta step writeRemoteAuthRequiredBytes readRemoteAuthRequiredBytes
      RemoteAuthStorageClient.sealResource RemoteAuthStorageClient.openResource
      RemoteAuthStorageClient.call RemoteAuthStorageClient.begin RemoteAuthStorageClient.finish
      network serve openRemoteRequest openRemoteResponse sealRemoteRequest sealRemoteResponse
      sealDocument readHttpResponse requestFromSlice responseFromSlice
    rw [fromUtf8_eq_ascii]
    decide +kernel
  obtain ⟨s, hs, hlast⟩ := (Option.any_eq_true _ _).1 hrun
  obtain ⟨hreads, hstored⟩ := Prod.mk.inj (of_decide_eq_true hlast)
  have hbound := (h Unit openedProvider (carryingClient "second.bin") taggedData [] "data" rfl
    (exact_listedTransport (by simp)) exact_taggedData openedDisk held_openedDisk
    filesBelow_openedDisk _).final hs
  obtain ⟨stored, hmem, hnames, -⟩ := hbound.read ("second.bin", [1]) (by simp [hreads])
  have hname : stored.names = ["first.bin"] := by
    have hin : stored.names ∈ s.stored.map Stored.names := List.mem_map_of_mem hmem
    rw [hstored] at hin
    exact List.mem_singleton.1 hin
  rw [hname] at hnames
  exact absurd hnames (by decide)

end AppCore.Storage.SealedFiles
