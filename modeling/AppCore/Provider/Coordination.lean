import AppCore.Base.Ends
import AppCore.Base.Lines
import AppCore.Lease.State
import AppCore.Storage.Fs

/-!
# The coordination store

`FileCoordinationStore` of `coordination.rs`: one file of `key=value` lines that names the schema
version and the tables of a coordination store. A backup is restored by replacing that file with what
was read from the backup, and migrating the result.

Two checks stand between a backup and the file. `validate_metadata` is made before the file is
written and takes every version up to the latest one; `migrate_metadata` is made afterwards and does
not take version 0.

* `parseMetadata_renderMetadata` — what is written is read back.
-/

namespace AppCore.Provider

open Lease (ProviderError ProviderResult ioFailed io)

/-! ## Metadata -/

def coordinationSchemaVersion : UInt64 := 2

def coordinationTables : List String :=
  ["audit", "capabilities", "jobs", "leases", "runtime_instances", "runtime_versions",
    "schema_migrations", "tenants"]

def storeFormat : String := "appcore.coordination-store.v1"

def metadataFile : String := "coordination-schema.meta"

structure CoordinationMetadata where
  version : UInt64
  tables : List String
  deriving DecidableEq

def CoordinationMetadata.latest : CoordinationMetadata where
  version := coordinationSchemaVersion
  tables := coordinationTables

def migrateMetadata (metadata : CoordinationMetadata) : ProviderResult CoordinationMetadata :=
  if metadata.version > coordinationSchemaVersion then
    .error (.invalidConfiguration ("coordination schema " ++
      String.ofList (decimal metadata.version.toNat) ++ " is newer than supported schema " ++
      String.ofList (decimal coordinationSchemaVersion.toNat)))
  else if metadata.version = 0 then
    .error (.invalidConfiguration "coordination schema version must be positive")
  else .ok { version := coordinationSchemaVersion, tables := coordinationTables }

/-- What the lines read so far have set. -/
structure MetadataFields where
  format : Option (List Char) := none
  version : Option UInt64 := none
  tables : Option (List String) := none

/-- One line of the loop in `parse_metadata`. A key that comes again takes the place of the first. -/
def MetadataFields.add (fields : MetadataFields) (line : List Char) :
    ProviderResult MetadataFields :=
  match splitOnce '=' line with
  | none => .error (.invalidConfiguration "invalid coordination metadata")
  | some (key, value) =>
    if key = "format".toList then .ok { fields with format := some value }
    else if key = "version".toList then
      match parseU64 value with
      | none => .error (.invalidConfiguration "invalid coordination schema version")
      | some version => .ok { fields with version := some version }
    else if key = "tables".toList then
      .ok { fields with tables := some ((value.splitOn ',').map String.ofList) }
    else .error (.invalidConfiguration
      ("unknown coordination metadata field: " ++ String.ofList key))

/-- What follows the loop. -/
def MetadataFields.finish (fields : MetadataFields) : ProviderResult CoordinationMetadata :=
  if fields.format ≠ some storeFormat.toList then
    .error (.invalidConfiguration "unsupported coordination metadata format")
  else match fields.version with
    | none => .error (.invalidConfiguration "missing coordination schema version")
    | some version =>
      match fields.tables with
      | none => .error (.invalidConfiguration "missing coordination table allowlist")
      | some tables => .ok { version, tables }

def parseMetadata (contents : List Char) : ProviderResult CoordinationMetadata := do
  let fields ← ((lines contents).filter fun line => !isBlank line).foldlM MetadataFields.add {}
  fields.finish

def renderMetadata (metadata : CoordinationMetadata) : List Char :=
  Lease.fieldLine "format" storeFormat.toList ++
    (Lease.fieldLine "version" (decimal metadata.version.toNat) ++
    Lease.fieldLine "tables" ([','].intercalate (metadata.tables.map String.toList)))

def validateMetadata (metadata : CoordinationMetadata) : ProviderResult Unit :=
  if metadata.version > coordinationSchemaVersion then
    .error (.invalidConfiguration "coordination schema is newer than this Runtime")
  else if metadata.tables ≠ coordinationTables then
    .error (.invalidConfiguration "coordination table allowlist does not match schema V2")
  else .ok ()

/-! ## Files -/

/-- An operation on the directory of a store. -/
abbrev CoordinationProg (α : Type) := Prog Disk ProviderError α

/-- `reject_symlink`, on a disk without links. -/
def rejectSymlink (path : Path) (d : Disk) : ProviderResult Unit :=
  match d.stat path with
  | .ok _ => .ok ()
  | .error .notFound => .ok ()
  | .error e => .error (ioFailed "coordination path inspection failed" e)

/-- `fs::read_to_string`, with its failure told as `what`. -/
def readToString (what : String) (path : Path) (d : Disk) : ProviderResult (List Char) :=
  match d.readFile path with
  | .error e => .error (ioFailed what e)
  | .ok content =>
    match fromUtf8 content with
    | none => .error (.initialization (what ++ ": stream did not contain valid UTF-8"))
    | some text => .ok text

/-- What the name of a temporary file is made of. -/
structure TempName where
  process : UInt32
  counter : UInt64
  deriving DecidableEq

/-- The name of a temporary file. -/
def TempName.name (temp : TempName) : String :=
  ".coordination." ++ String.ofList (decimal temp.process.toNat) ++ "." ++
    String.ofList (decimal temp.counter.toNat) ++ ".tmp"

/-- The temporary file beside a path. -/
def TempName.path (temp : TempName) (path : Path) : Path := path.dropLast ++ [temp.name]

/-- Opening the directory to sync it. -/
def syncParent (parent : Path) (d : Disk) : ProviderResult Unit :=
  match d.stat parent with
  | .ok _ => .ok ()
  | .error e => .error (ioFailed "coordination directory sync failed" e)

def writeAndReplace (temp path : Path) (bytes : Bytes) : CoordinationProg Unit := do
  io "coordination temp create failed" (Disk.createNew · temp)
  io "coordination metadata write failed" (Disk.writeAll · temp bytes)
  io "coordination metadata replace failed" (Disk.rename · temp path)
  Prog.read (syncParent path.dropLast)

/-- `write_atomic`. The temporary file goes when the call fails. -/
def writeAtomic (temp : TempName) (path : Path) (bytes : Bytes) : CoordinationProg Unit := do
  Prog.each (fun p => io "coordination parent failed" (Storage.ensureDir p))
    path.dropLast.inits.tail
  let result ← Prog.attempt (writeAndReplace (temp.path path) path bytes)
  match result with
  | .ok () => pure ()
  | .error e => do
      let _ ← Prog.attempt (io "" (Disk.remove · (temp.path path)))
      Prog.fail e

/-! ## The store -/

structure FileCoordinationStore where
  root : Path

namespace FileCoordinationStore

variable (store : FileCoordinationStore)

def metadataPath : Path := store.root ++ [metadataFile]

def readMetadata (d : Disk) : ProviderResult CoordinationMetadata := do
  rejectSymlink store.metadataPath d
  let contents ← readToString "coordination metadata read failed" store.metadataPath d
  parseMetadata contents

/-- What `migrate` writes: the metadata that is there, brought to the latest version, or the latest
metadata where there is none. -/
def migrated (d : Disk) : ProviderResult CoordinationMetadata :=
  if (d.stat store.metadataPath).isOk then do
    let current ← store.readMetadata d
    migrateMetadata current
  else .ok .latest

def migrate (temp : TempName) : CoordinationProg Unit := do
  let metadata ← Prog.read store.migrated
  writeAtomic temp store.metadataPath (utf8 (renderMetadata metadata))

/-- What `restore_from` takes from a backup. -/
def backupMetadata (source : Path) (d : Disk) : ProviderResult CoordinationMetadata := do
  let contents ← readToString "coordination backup read failed" source d
  let metadata ← parseMetadata contents
  validateMetadata metadata
  .ok metadata

/-- `restore_from`, with the temporary files of its two writes. -/
def restoreFrom (first second : TempName) (source : Path) : CoordinationProg Unit := do
  let metadata ← Prog.read (backupMetadata source)
  writeAtomic first store.metadataPath (utf8 (renderMetadata metadata))
  store.migrate second

def health (d : Disk) : ProviderResult Unit := do
  rejectSymlink store.root d
  let metadata ← store.readMetadata d
  validateMetadata metadata

def schemaVersion (d : Disk) : ProviderResult UInt64 := do
  let metadata ← store.readMetadata d
  .ok metadata.version

def ensureCompatible (d : Disk) : ProviderResult Unit := do
  store.health d
  let actual ← store.schemaVersion d
  if actual < coordinationSchemaVersion then
    .error (.invalidConfiguration ("coordination schema " ++
      String.ofList (decimal actual.toNat) ++ " is older than required schema " ++
      String.ofList (decimal coordinationSchemaVersion.toNat)))
  else .ok ()

end FileCoordinationStore

theorem isBlank_field (key value : List Char) : isBlank (key ++ '=' :: value) = false := by
  have hequals : isWhitespace '=' = false := by decide
  simp [isBlank, hequals]

theorem filter_isBlank_field (key value : List Char) (rest : List (List Char)) :
    ((key ++ '=' :: value) :: rest).filter (fun line => !isBlank line) =
      (key ++ '=' :: value) :: rest.filter fun line => !isBlank line := by
  rw [List.filter_cons_of_pos (by rw [isBlank_field, Bool.not_false])]

theorem splitOn_tables :
    (([','].intercalate (coordinationTables.map String.toList)).splitOn ',').map String.ofList =
      coordinationTables := by
  have hcomma : ∀ table ∈ coordinationTables.map String.toList, ',' ∉ table := by decide
  rw [List.splitOn_intercalate ',' hcomma (by decide), List.map_map]
  simp

theorem parseMetadata_renderMetadata (version : UInt64) :
    parseMetadata (renderMetadata { version, tables := coordinationTables }) =
      .ok { version, tables := coordinationTables } := by
  have htables : Lease.OneLine ([','].intercalate (coordinationTables.map String.toList)) := by
    decide
  have hlines : lines (renderMetadata { version, tables := coordinationTables }) =
      ["format".toList ++ '=' :: storeFormat.toList,
        "version".toList ++ '=' :: decimal version.toNat,
        "tables".toList ++ '=' :: [','].intercalate (coordinationTables.map String.toList)] := by
    rw [renderMetadata, Lease.lines_fieldLine (by decide) (by decide),
      Lease.lines_fieldLine (by decide) (Lease.oneLine_decimal _)]
    have hlast := Lease.lines_fieldLine (by decide : Lease.OneLine "tables".toList) htables []
    rw [List.append_nil] at hlast
    rw [hlast, lines_nil]
  rw [parseMetadata, hlines, filter_isBlank_field, filter_isBlank_field, filter_isBlank_field,
    List.filter_nil]
  simp only [List.foldlM_cons, List.foldlM_nil, MetadataFields.add]
  rw [splitOnce_append (by decide), splitOnce_append (by decide), splitOnce_append (by decide)]
  simp only [parseU64_decimal, splitOn_tables]
  rfl

/-! ## A file that is replaced -/

theorem isName_tempName (temp : TempName) : isName temp.name = true := by
  have hchars : temp.name.toList = ".coordination.".toList ++ (decimal temp.process.toNat ++
      (".".toList ++ (decimal temp.counter.toNat ++ ".tmp".toList))) := by
    simp [TempName.name]
  have hdigit {n : Nat} {c : Char} (hc : c.isDigit = false) : c ∉ decimal n := by
    intro hmem
    rw [isDigit_of_mem_decimal hmem] at hc
    cases hc
  rw [isName_iff, hchars]
  refine ⟨by simp, by simp, by simp, ?_, ?_⟩
  · simp [hdigit (c := '/') (by decide)]
  · simp [hdigit (c := Char.ofNat 0) (by decide)]

theorem ends_io {what : String} {call : Disk → Except IoError Disk} {d t : Disk}
    (h : call d = .ok t) : (io what call).Ends d (.ok ()) t := by
  apply Prog.ends_step
  rw [h]
  rfl

variable {path : Path}

theorem ends_parents {d : Disk} (h : d.get path = some .dir) :
    (Prog.each (fun p => io "coordination parent failed" (Storage.ensureDir p))
      path.inits.tail).Ends d (.ok ()) d := by
  apply Prog.ends_each
  intro p hp
  obtain ⟨r, hr⟩ := (List.mem_inits _ _).1 (List.mem_of_mem_tail hp)
  have hdir : d.get p = some .dir := by
    subst hr
    cases r with
    | nil => rwa [List.append_nil] at h
    | cons c r => exact Disk.get_of_append h
  apply ends_io
  rw [Storage.ensureDir, Disk.stat_of_get hdir]

/-- A file that is there is replaced when the name of the temporary file is free. -/
theorem ends_writeAtomic {d : Disk} {temp : TempName} {old : Bytes} (bytes : Bytes)
    (hpath : d.get path = some (.file old)) (htemp : d.get (temp.path path) = none) :
    ∃ t, (writeAtomic temp path bytes).Ends d (.ok ()) t ∧
      ∀ q, t.get q = if q = path then some (.file bytes) else d.get q := by
  have hne : path ≠ [] := by
    intro hnil
    rw [hnil, Disk.get_root] at hpath
    cases hpath
  have hparent : d.get path.dropLast = some .dir := by
    rw [← List.dropLast_append_getLast hne] at hpath
    exact Disk.get_of_append hpath
  have hfree : d.Free (temp.path path) := Disk.free_concat hparent (isName_tempName temp) htemp
  obtain ⟨t, hcreate⟩ := Disk.createNew_ok hfree
  have ht := (Disk.get_createNew hcreate).2
  obtain ⟨u, hwrite⟩ := Disk.writeAll_ok bytes (d := t) (by rw [ht, if_pos rfl])
  have hu := Disk.get_writeAll hwrite
  have hdiff : temp.path path ≠ path := by
    intro heq
    rw [heq, hpath] at htemp
    cases htemp
  have hsrc : u.get (temp.path path) = some (.file bytes) := by rw [hu, if_pos rfl]
  have hdst : u.get path = some (.file old) := by
    rw [hu, if_neg hdiff.symm, ht, if_neg hdiff.symm, hpath]
  obtain ⟨v, hrename⟩ := Disk.rename_file_ok hsrc hdst hdiff
  have hv (q : Path) : v.get q = if q = path then some (.file bytes) else d.get q := by
    rw [Disk.get_rename_file hrename hsrc hdst hdiff]
    by_cases hq : q = path
    · rw [if_pos hq, if_pos hq]
    · rw [if_neg hq, if_neg hq, hu, ht]
      by_cases hqtemp : q = temp.path path
      · rw [if_pos hqtemp, hqtemp, htemp]
      · rw [if_neg hqtemp, if_neg hqtemp, if_neg hqtemp]
  have hsync : syncParent path.dropLast v = .ok () := by
    have hdir : v.get path.dropLast = some .dir := by
      have hlength : path.dropLast ≠ path := by
        intro heq
        have hlen := congrArg List.length heq
        have hpos := List.length_pos_iff.2 hne
        rw [List.length_dropLast] at hlen
        omega
      rw [hv, if_neg hlength, hparent]
    rw [syncParent, Disk.stat_of_get hdir]
  have hreplace : (writeAndReplace (temp.path path) path bytes).Ends d (.ok ()) v := by
    apply Prog.ends_bind (ends_io hcreate)
    apply Prog.ends_bind (ends_io hwrite)
    apply Prog.ends_bind (ends_io hrename)
    exact Prog.ends_read hsync
  refine ⟨v, ?_, hv⟩
  apply Prog.ends_bind (ends_parents hparent)
  apply Prog.ends_bind (Prog.ends_attempt hreplace)
  exact Prog.ends_pure ()

/-! ## Restoring -/

theorem validateMetadata_eq_ok {metadata : CoordinationMetadata} :
    validateMetadata metadata = .ok () ↔
      metadata.version ≤ coordinationSchemaVersion ∧ metadata.tables = coordinationTables := by
  rw [validateMetadata]
  by_cases hversion : metadata.version > coordinationSchemaVersion
  · simp [hversion, UInt64.not_le.2 hversion]
  · rw [if_neg hversion]
    by_cases htables : metadata.tables = coordinationTables
    · simp [htables, UInt64.not_lt.1 hversion]
    · simp [htables]

theorem rejectSymlink_of_get {d : Disk} {n : Node} (h : d.get path = some n) :
    rejectSymlink path d = .ok () := by
  rw [rejectSymlink, Disk.stat_of_get h]

theorem readToString_of_get {d : Disk} {text : List Char} (what : String)
    (h : d.get path = some (.file (utf8 text))) : readToString what path d = .ok text := by
  rw [readToString, Disk.readFile_eq_ok.2 h]
  simp only [fromUtf8_utf8]

namespace FileCoordinationStore

variable {store : FileCoordinationStore} {d : Disk}

variable {source : Path} {metadata : CoordinationMetadata}

theorem valid_of_backupMetadata {d : Disk} (h : backupMetadata source d = .ok metadata) :
    metadata.version ≤ coordinationSchemaVersion ∧ metadata.tables = coordinationTables := by
  obtain ⟨_, -, h⟩ := bind_eq_ok.1 h
  obtain ⟨parsed, -, h⟩ := bind_eq_ok.1 h
  obtain ⟨_, hvalid, h⟩ := bind_eq_ok.1 h
  cases h
  exact validateMetadata_eq_ok.1 hvalid

/-- The metadata file of the store is there, and the names of the temporary files are not taken. -/
structure Undisturbed (store : FileCoordinationStore) (first second : TempName) (live : Bytes)
    (d : Disk) : Prop where
  metadata : d.get store.metadataPath = some (.file live)
  first : d.get (first.path store.metadataPath) = none
  second : d.get (second.path store.metadataPath) = none

variable {version : UInt64}

theorem readMetadata_of_get (h : d.get store.metadataPath =
      some (.file (utf8 (renderMetadata { version, tables := coordinationTables })))) :
    store.readMetadata d = .ok { version, tables := coordinationTables } := by
  rw [readMetadata, rejectSymlink_of_get h, ok_bind, readToString_of_get _ h, ok_bind,
    parseMetadata_renderMetadata]

theorem ensureCompatible_of_latest
    (h : d.get store.metadataPath = some (.file (utf8 (renderMetadata .latest)))) :
    store.ensureCompatible d = .ok () := by
  have hroot : rejectSymlink store.root d = .ok () :=
    rejectSymlink_of_get (Disk.get_of_append h)
  have hread : store.readMetadata d = .ok .latest := readMetadata_of_get h
  have hvalid : validateMetadata .latest = .ok () := by decide
  rw [ensureCompatible, health, hroot, ok_bind, hread, ok_bind, hvalid, ok_bind, schemaVersion,
    hread]
  rfl

theorem migrated_of_get (h : d.get store.metadataPath =
      some (.file (utf8 (renderMetadata { version, tables := coordinationTables })))) :
    store.migrated d = migrateMetadata { version, tables := coordinationTables } := by
  rw [migrated, Disk.stat_of_get h, readMetadata_of_get h]
  rfl

/-- A backup that is refused is not written. -/
theorem ends_restoreFrom_refused {first second : TempName} {source : Path} {e : ProviderError}
    (h : backupMetadata source d = .error e) :
    (store.restoreFrom first second source).Ends d (.error e) d :=
  Prog.ends_bind_error (Prog.ends_read h)

/-- A backup of version 0 is written before it is refused. -/
theorem ends_restoreFrom_zero {first second : TempName} {live : Bytes}
    (hd : store.Undisturbed first second live d) (h : backupMetadata source d = .ok metadata)
    (hzero : metadata.version = 0) :
    ∃ e t, (store.restoreFrom first second source).Ends d (.error e) t ∧
      t.get store.metadataPath = some (.file (utf8 (renderMetadata metadata))) := by
  obtain ⟨-, htables⟩ := valid_of_backupMetadata h
  obtain ⟨version, tables⟩ := metadata
  dsimp only at hzero htables
  subst hzero htables
  obtain ⟨t, hwrite, ht⟩ := ends_writeAtomic
    (utf8 (renderMetadata { version := 0, tables := coordinationTables })) hd.metadata hd.first
  have hmeta : t.get store.metadataPath =
      some (.file (utf8 (renderMetadata { version := 0, tables := coordinationTables }))) := by
    rw [ht, if_pos rfl]
  have hmigrated : store.migrated t =
      .error (.invalidConfiguration "coordination schema version must be positive") := by
    rw [migrated_of_get hmeta]
    rfl
  refine ⟨.invalidConfiguration "coordination schema version must be positive", t, ?_, hmeta⟩
  apply Prog.ends_bind (Prog.ends_read h)
  apply Prog.ends_bind hwrite
  exact Prog.ends_bind_error (Prog.ends_read hmigrated)

/-- A backup of another version is written and brought to the latest one. -/
theorem ends_restoreFrom_migrated {first second : TempName} {live : Bytes}
    (hd : store.Undisturbed first second live d) (h : backupMetadata source d = .ok metadata)
    (hpositive : metadata.version ≠ 0) :
    ∃ t, (store.restoreFrom first second source).Ends d (.ok ()) t ∧
      t.get store.metadataPath = some (.file (utf8 (renderMetadata .latest))) := by
  obtain ⟨hversion, htables⟩ := valid_of_backupMetadata h
  obtain ⟨version, tables⟩ := metadata
  dsimp only at hversion hpositive htables
  subst htables
  obtain ⟨t, hwrite, ht⟩ := ends_writeAtomic
    (utf8 (renderMetadata { version, tables := coordinationTables })) hd.metadata hd.first
  have hmeta : t.get store.metadataPath =
      some (.file (utf8 (renderMetadata { version, tables := coordinationTables }))) := by
    rw [ht, if_pos rfl]
  have hmigrated : store.migrated t = .ok .latest := by
    rw [migrated_of_get hmeta, migrateMetadata, if_neg (UInt64.not_lt.2 hversion),
      if_neg hpositive]
    rfl
  have hsecond : t.get (second.path store.metadataPath) = none := by
    have hne : second.path store.metadataPath ≠ store.metadataPath := by
      intro heq
      have hnone := hd.second
      rw [heq, hd.metadata] at hnone
      cases hnone
    rw [ht, if_neg hne, hd.second]
  obtain ⟨u, hmigrate, hu⟩ := ends_writeAtomic (utf8 (renderMetadata .latest)) hmeta hsecond
  refine ⟨u, ?_, by rw [hu, if_pos rfl]⟩
  apply Prog.ends_bind (Prog.ends_read h)
  apply Prog.ends_bind hwrite
  exact Prog.ends_bind (Prog.ends_read hmigrated) hmigrate

/-- The store's file is as it was after an error, and the store is compatible otherwise. -/
def AllOrNothing (store : FileCoordinationStore) (first second : TempName) (source : Path)
    (d : Disk) : Prop :=
  (∀ e, (store.restoreFrom first second source).result d = .error e →
    ((store.restoreFrom first second source).final d).get store.metadataPath =
      d.get store.metadataPath) ∧
  ((store.restoreFrom first second source).result d = .ok () →
    store.ensureCompatible ((store.restoreFrom first second source).final d) = .ok ())

/-- A restore is all or nothing unless the backup passes the first check with version 0 and the file
is not already what that backup is written as. -/
theorem restoreFrom_allOrNothing_iff {first second : TempName} {live : Bytes} {source : Path}
    (hd : store.Undisturbed first second live d) :
    store.AllOrNothing first second source d ↔
      ∀ metadata, backupMetadata source d = .ok metadata → metadata.version = 0 →
        d.get store.metadataPath = some (.file (utf8 (renderMetadata metadata))) := by
  unfold AllOrNothing
  cases hbackup : backupMetadata source d with
  | error e =>
    obtain ⟨hresult, hfinal⟩ :=
      @ends_restoreFrom_refused store d first second source e hbackup
    rw [hresult, hfinal]
    simp
  | ok metadata =>
    by_cases hzero : metadata.version = 0
    · obtain ⟨e, t, ⟨hresult, hfinal⟩, hget⟩ := ends_restoreFrom_zero hd hbackup hzero
      rw [hresult, hfinal, hget]
      constructor
      · intro h metadata' heq _
        cases heq
        exact (h.1 e rfl).symm
      · intro h
        constructor
        · intro _ _
          exact (h metadata rfl hzero).symm
        · intro h
          cases h
    · obtain ⟨t, ⟨hresult, hfinal⟩, hget⟩ := ends_restoreFrom_migrated hd hbackup hzero
      rw [hresult, hfinal]
      constructor
      · intro _ metadata' heq hversion
        cases heq
        exact absurd hversion hzero
      · intro _
        constructor
        · intro e h
          cases h
        · intro _
          exact ensureCompatible_of_latest hget

/-! ### A backup of version 0 -/

def latestFile : Bytes := utf8 (renderMetadata .latest)

/-- A store in `/data` with the latest metadata, and a backup beside it. -/
def sampleNodes (version : UInt64) : List (Path × Node) :=
  [ ([], .dir),
    (["data"], .dir),
    (["data", "coordination-schema.meta"], .file latestFile),
    (["backup"], .file (utf8 (renderMetadata { version, tables := coordinationTables }))) ]

def sampleDisk (version : UInt64) : Disk where
  nodes := sampleNodes version
  nodup := by simp [sampleNodes]
  root := by simp [sampleNodes]
  parent := by
    have hparents : ∀ e ∈ sampleNodes version,
        e.1 ≠ [] → (e.1.dropLast, Node.dir) ∈ sampleNodes version := by
      simp [sampleNodes]
    intro p c n h
    have hparent := hparents _ h (by simp)
    rwa [List.dropLast_concat] at hparent
  names := by
    have hnames : ∀ e ∈ sampleNodes version, ∀ c ∈ e.1, isName c = true := by
      simp only [sampleNodes, List.forall_mem_cons]
      exact ⟨by decide, by decide, by decide, by decide, List.forall_mem_nil _⟩
    exact fun p n h => hnames _ h

def sampleStore : FileCoordinationStore where
  root := ["data"]

def sampleTemp (counter : UInt64) : TempName where
  process := 7
  counter := counter

theorem undisturbed_sampleDisk (version : UInt64) :
    sampleStore.Undisturbed (sampleTemp 1) (sampleTemp 2) latestFile (sampleDisk version) where
  metadata := rfl
  first := by rfl
  second := by rfl

theorem backupMetadata_sampleDisk (h : version ≤ coordinationSchemaVersion) :
    backupMetadata ["backup"] (sampleDisk version) =
      .ok { version, tables := coordinationTables } := by
  have hread : readToString "coordination backup read failed" ["backup"] (sampleDisk version) =
      .ok (renderMetadata { version, tables := coordinationTables }) :=
    readToString_of_get _ rfl
  have hvalid : validateMetadata { version, tables := coordinationTables } = .ok () :=
    validateMetadata_eq_ok.2 ⟨h, rfl⟩
  rw [backupMetadata, hread, ok_bind, parseMetadata_renderMetadata, ok_bind, hvalid, ok_bind]

/-- A backup of version 1 is taken as a whole. -/
theorem restoreFrom_version_one :
    sampleStore.AllOrNothing (sampleTemp 1) (sampleTemp 2) ["backup"] (sampleDisk 1) := by
  apply (restoreFrom_allOrNothing_iff (undisturbed_sampleDisk 1)).2
  intro metadata h hzero
  rw [backupMetadata_sampleDisk (by decide)] at h
  cases h
  exact absurd hzero (by decide)

/-- A backup of version 0 is refused when the store already has its metadata. -/
theorem restoreFrom_version_zero :
    ¬ sampleStore.AllOrNothing (sampleTemp 1) (sampleTemp 2) ["backup"] (sampleDisk 0) := by
  intro hall
  obtain ⟨e, t, ⟨hresult, hfinal⟩, hget⟩ := ends_restoreFrom_zero (undisturbed_sampleDisk 0)
    (backupMetadata_sampleDisk (by decide)) rfl
  have hsame := hall.1 e hresult
  rw [hfinal, hget, (undisturbed_sampleDisk 0).metadata] at hsame
  have hbytes : utf8 (renderMetadata { version := 0, tables := coordinationTables }) =
      utf8 (renderMetadata .latest) := Node.file.inj (Option.some.inj hsame)
  have htext := congrArg fromUtf8 hbytes
  rw [fromUtf8_utf8, fromUtf8_utf8] at htext
  have hparsed := congrArg parseMetadata (Option.some.inj htext)
  have hlatest : parseMetadata (renderMetadata .latest) = .ok .latest :=
    parseMetadata_renderMetadata coordinationSchemaVersion
  rw [parseMetadata_renderMetadata, hlatest] at hparsed
  have hversion := congrArg CoordinationMetadata.version (Except.ok.inj hparsed)
  exact absurd hversion (by decide)

end FileCoordinationStore

end AppCore.Provider
