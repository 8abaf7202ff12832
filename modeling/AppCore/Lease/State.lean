import AppCore.Base.Cursor
import AppCore.Base.DiskCalls
import AppCore.Base.Prog
import AppCore.Base.Text

/-!
# Durable lease state

`shared_lease_state.rs` with the records of `shared_lease.rs`. A lease and the fencing epoch of its
resource are two small files of `key=value` lines, each replaced through a temporary file.

* `parseState_stateText`, `parseEpoch_epochText` — what is written is read back.
-/

namespace AppCore.Lease

/-- `ProviderError`, with the variants the lease repository produces. -/
inductive ProviderError where
  | invalidConfiguration (message : String)
  | initialization (message : String)
  deriving DecidableEq, Repr

abbrev ProviderResult (α : Type) := Except ProviderError α

/-- A repository operation: a program over disks that may stop after any system call. -/
abbrev LeaseProg (α : Type) := Prog Disk ProviderError α

/-- The text of an error the system returns. -/
def ioText : IoError → String
  | .notFound => "No such file or directory (os error 2)"
  | .notADirectory => "Not a directory (os error 20)"
  | .isADirectory => "Is a directory (os error 21)"
  | .alreadyExists => "File exists (os error 17)"
  | .directoryNotEmpty => "Directory not empty (os error 39)"
  | .invalidInput => "Invalid argument (os error 22)"

/-- The error of a failed system call. -/
def ioFailed (what : String) (e : IoError) : ProviderError :=
  .initialization (what ++ ": " ++ ioText e)

def io (what : String) (call : Disk → Except IoError Disk) : LeaseProg Unit :=
  Prog.step fun d => (call d).mapError (ioFailed what)

/-! ## Records -/

/-- A byte `validate_label` accepts. -/
def isLabelByte (b : UInt8) : Bool :=
  (48 ≤ b && b ≤ 57) || (65 ≤ b && b ≤ 90) || (97 ≤ b && b ≤ 122) || b == 46 || b == 45 || b == 95

def validateLabel (field value : String) : ProviderResult Unit :=
  let bytes := strBytes value
  if bytes.isEmpty ∨ bytes.length > 128 ∨ ¬ bytes.all isLabelByte then
    .error (.invalidConfiguration ("invalid " ++ field))
  else .ok ()

structure LeaseOwner where
  asStr : String
  valid : validateLabel "lease owner" asStr = .ok ()
  deriving DecidableEq

def LeaseOwner.new (value : String) : ProviderResult LeaseOwner :=
  if h : validateLabel "lease owner" value = .ok () then .ok ⟨value, h⟩
  else .error (.invalidConfiguration "invalid lease owner")

/-- `LeaseToken`. -/
@[ext]
structure LeaseToken where
  resource : String
  owner : LeaseOwner
  epoch : UInt64
  deriving DecidableEq

structure SharedResourceLease where
  token : LeaseToken
  acquiredAtMs : UInt64
  heartbeatAtMs : UInt64
  expiresAtMs : UInt64
  deriving DecidableEq

/-! ## Texts -/

def maxStateBytes : Nat := 4 * 1024

def leaseFormat : String := "appcore-shared-lease-v1"

def epochFormat : String := "appcore-shared-lease-epoch-v1"

/-- A line `key=value` with its end. -/
def fieldLine (key : String) (value : List Char) : List Char :=
  key.toList ++ '=' :: value ++ ['\n']

/-- The text `write_state` writes. -/
def stateText (lease : SharedResourceLease) : List Char :=
  fieldLine "format" leaseFormat.toList ++ (fieldLine "resource" lease.token.resource.toList ++
    (fieldLine "owner" lease.token.owner.asStr.toList ++
    (fieldLine "epoch" (decimal lease.token.epoch.toNat) ++
    (fieldLine "acquired_at_ms" (decimal lease.acquiredAtMs.toNat) ++
    (fieldLine "heartbeat_at_ms" (decimal lease.heartbeatAtMs.toNat) ++
    fieldLine "expires_at_ms" (decimal lease.expiresAtMs.toNat))))))

/-- The text `write_epoch` writes. -/
def epochText (epoch : UInt64) : List Char :=
  fieldLine "format" epochFormat.toList ++ fieldLine "epoch" (decimal epoch.toNat)

def splitField (line : List Char) : ProviderResult (List Char × List Char) :=
  match splitOnce '=' line with
  | none => .error (.invalidConfiguration "lease state is malformed")
  | some field => .ok field

/-- `parse_u64`. -/
def parseInteger (value : List Char) : ProviderResult UInt64 :=
  match parseU64 value with
  | none => .error (.invalidConfiguration "lease integer field is malformed")
  | some n => .ok n

/-- The fields `parse_state` has seen. -/
structure StateFields where
  formatSeen : Bool
  resource : Option String
  owner : Option LeaseOwner
  epoch : Option UInt64
  acquiredAtMs : Option UInt64
  heartbeatAtMs : Option UInt64
  expiresAtMs : Option UInt64

/-- The match of `parse_state` on a key. -/
def StateFields.set (fields : StateFields) (key value : List Char) : ProviderResult StateFields :=
  if key = "format".toList ∧ value = leaseFormat.toList ∧ ¬ fields.formatSeen then
    .ok { fields with formatSeen := true }
  else if key = "resource".toList ∧ fields.resource.isNone then
    .ok { fields with resource := some (String.ofList value) }
  else if key = "owner".toList ∧ fields.owner.isNone then do
    let owner ← LeaseOwner.new (String.ofList value)
    .ok { fields with owner := some owner }
  else if key = "epoch".toList ∧ fields.epoch.isNone then do
    let epoch ← parseInteger value
    .ok { fields with epoch := some epoch }
  else if key = "acquired_at_ms".toList ∧ fields.acquiredAtMs.isNone then do
    let time ← parseInteger value
    .ok { fields with acquiredAtMs := some time }
  else if key = "heartbeat_at_ms".toList ∧ fields.heartbeatAtMs.isNone then do
    let time ← parseInteger value
    .ok { fields with heartbeatAtMs := some time }
  else if key = "expires_at_ms".toList ∧ fields.expiresAtMs.isNone then do
    let time ← parseInteger value
    .ok { fields with expiresAtMs := some time }
  else .error (.invalidConfiguration "lease state is malformed")

/-- One line of `parse_state`. -/
def StateFields.add (fields : StateFields) (line : List Char) : ProviderResult StateFields := do
  let (key, value) ← splitField line
  fields.set key value

/-- `ok_or_else`. -/
def required {α : Type} (message : String) : Option α → ProviderResult α
  | none => .error (.invalidConfiguration message)
  | some a => .ok a

def parseState (text : List Char) (expectedResource : String) :
    ProviderResult SharedResourceLease := do
  let fields ← (lines text).foldlM StateFields.add ⟨false, none, none, none, none, none, none⟩
  if ¬ fields.formatSeen then
    .error (.invalidConfiguration "lease state has unsupported format")
  else
    let resource ← required "lease state missing resource" fields.resource
    if resource ≠ expectedResource then
      .error (.invalidConfiguration "lease state resource mismatch")
    else
      let owner ← required "lease state missing owner" fields.owner
      let epoch ← required "lease state missing epoch" fields.epoch
      let acquiredAtMs ← required "lease state missing acquired_at_ms" fields.acquiredAtMs
      let heartbeatAtMs ← required "lease state missing heartbeat_at_ms" fields.heartbeatAtMs
      let expiresAtMs ← required "lease state missing expires_at_ms" fields.expiresAtMs
      .ok ⟨⟨resource, owner, epoch⟩, acquiredAtMs, heartbeatAtMs, expiresAtMs⟩

/-- One line of `read_epoch`. -/
def addEpochField (fields : Bool × Option UInt64) (line : List Char) :
    ProviderResult (Bool × Option UInt64) := do
  let (key, value) ← splitField line
  if key = "format".toList ∧ value = epochFormat.toList ∧ ¬ fields.1 then .ok (true, fields.2)
  else if key = "epoch".toList ∧ fields.2.isNone then do
    let epoch ← parseInteger value
    .ok (fields.1, some epoch)
  else .error (.invalidConfiguration "lease epoch state is malformed")

/-- `read_epoch`, of the text it read. -/
def parseEpoch (text : List Char) : ProviderResult UInt64 := do
  let (formatSeen, epoch) ← (lines text).foldlM addEpochField (false, none)
  if ¬ formatSeen then .error (.invalidConfiguration "lease epoch state has unsupported format")
  else required "lease epoch state missing epoch" epoch

/-! ## Files -/

/-- `reject_symlink`, on a disk without links. -/
def rejectSymlink (path : Path) (d : Disk) : ProviderResult Unit :=
  match d.stat path with
  | .ok _ => .ok ()
  | .error .notFound => .ok ()
  | .error e => .error (ioFailed "lease path inspect failed" e)

def readOptionalBounded (path : Path) (d : Disk) : ProviderResult (Option (List Char)) := do
  rejectSymlink path d
  match d.readFile path with
  | .error .notFound => .ok none
  | .error e => .error (ioFailed "lease read failed" e)
  | .ok content =>
    if content.length > maxStateBytes then
      .error (.invalidConfiguration "lease state exceeds size limit")
    else match fromUtf8 content with
      | none => .error (.invalidConfiguration "lease state is not UTF-8")
      | some text => .ok (some text)

def readState (path : Path) (expectedResource : String) (d : Disk) :
    ProviderResult (Option SharedResourceLease) := do
  match ← readOptionalBounded path d with
  | none => .ok none
  | some text => (parseState text expectedResource).map some

def readEpoch (path : Path) (d : Disk) : ProviderResult (Option UInt64) := do
  match ← readOptionalBounded path d with
  | none => .ok none
  | some text => (parseEpoch text).map some

/-- `sync_parent`, which opens the directory. -/
def syncParent (path : Path) (d : Disk) : ProviderResult Unit :=
  match d.stat path with
  | .ok _ => .ok ()
  | .error e => .error (ioFailed "lease parent sync failed" e)

def writeAndRename (temp path : Path) (bytes : Bytes) : LeaseProg Unit := do
  Prog.read (rejectSymlink path)
  io "lease temp create failed" (Disk.createNew · temp)
  io "lease write failed" (Disk.writeAll · temp bytes)
  io "lease rename failed" (Disk.rename · temp path)
  Prog.read (syncParent path.dropLast)

/-- What the name of a temporary file is made of. -/
structure TempName where
  process : UInt32
  counter : UInt64
  deriving DecidableEq

/-- The name of a temporary file. -/
def TempName.name (temp : TempName) : String :=
  ".lease." ++ String.ofList (decimal temp.process.toNat) ++ "-" ++
    String.ofList (decimal temp.counter.toNat) ++ ".tmp"

/-- The temporary file beside a path. -/
def TempName.path (temp : TempName) (path : Path) : Path := path.dropLast ++ [temp.name]

/-- `atomic_replace`. A temporary file that could not be renamed is removed. -/
def atomicReplace (temp : TempName) (path : Path) (bytes : Bytes) : LeaseProg Unit := do
  let result ← Prog.attempt (writeAndRename (temp.path path) path bytes)
  match result with
  | .ok () => pure ()
  | .error e => do
      let _ ← Prog.attempt (io "" (Disk.remove · (temp.path path)))
      Prog.fail e

def writeState (temp : TempName) (path : Path) (lease : SharedResourceLease) : LeaseProg Unit :=
  atomicReplace temp path (utf8 (stateText lease))

def writeEpoch (temp : TempName) (path : Path) (epoch : UInt64) : LeaseProg Unit :=
  atomicReplace temp path (utf8 (epochText epoch))

def removeState (path : Path) : LeaseProg Unit := do
  Prog.read (rejectSymlink path)
  io "lease release failed" (Disk.remove · path)
  Prog.read (syncParent path.dropLast)

/-! ## What is written is read back -/

/-- A text that stays on its line. -/
def OneLine (t : List Char) : Prop := '\n' ∉ t ∧ '\r' ∉ t

instance (t : List Char) : Decidable (OneLine t) := inferInstanceAs (Decidable (_ ∧ _))

theorem oneLine_decimal (n : Nat) : OneLine (decimal n) :=
  ⟨fun h => absurd (isDigit_of_mem_decimal h) (by decide),
    fun h => absurd (isDigit_of_mem_decimal h) (by decide)⟩

variable {field value : String}

/-- The characters a label does not contain. -/
theorem not_mem_of_validateLabel (h : validateLabel field value = .ok ()) {c : Char}
    (hascii : c.toNat < 128) (hc : isLabelByte (UInt8.ofNat c.toNat) = false) :
    c ∉ value.toList := by
  intro hmem
  unfold validateLabel at h
  dsimp only at h
  split at h
  · simp at h
  rename_i hvalid
  rw [not_or, not_or, not_not] at hvalid
  have hbyte : UInt8.ofNat c.toNat ∈ strBytes value := by
    refine List.mem_flatMap.2 ⟨c, hmem, ?_⟩
    rw [utf8EncodeChar_of_ascii hascii]
    exact List.mem_singleton.2 rfl
  have hlabel := List.all_eq_true.1 hvalid.2.2 _ hbyte
  rw [hc] at hlabel
  exact Bool.false_ne_true hlabel

theorem length_of_validateLabel (h : validateLabel field value = .ok ()) :
    (strBytes value).length ≤ 128 := by
  unfold validateLabel at h
  dsimp only at h
  split at h
  · simp at h
  rename_i hvalid
  rw [not_or, not_or, Nat.not_lt] at hvalid
  exact hvalid.2.1

theorem oneLine_of_validateLabel (h : validateLabel field value = .ok ()) : OneLine value.toList :=
  ⟨not_mem_of_validateLabel h (by decide) (by decide),
    not_mem_of_validateLabel h (by decide) (by decide)⟩

theorem lines_fieldLine {key : String} {value : List Char} (hkey : OneLine key.toList)
    (hvalue : OneLine value) (rest : List Char) :
    lines (fieldLine key value ++ rest) = (key.toList ++ '=' :: value) :: lines rest := by
  have hline : OneLine (key.toList ++ '=' :: value) := by
    constructor
    · simp [hkey.1, hvalue.1]
    · simp [hkey.2, hvalue.2]
  rw [fieldLine, List.append_assoc]
  exact lines_line hline.1 hline.2 rest

theorem splitField_line {key : String} (h : '=' ∉ key.toList) (value : List Char) :
    splitField (key.toList ++ '=' :: value) = .ok (key.toList, value) := by
  rw [splitField, splitOnce_append h]

theorem parseInteger_decimal (n : UInt64) : parseInteger (decimal n.toNat) = .ok n := by
  rw [parseInteger, parseU64_decimal]

theorem LeaseOwner.new_asStr (owner : LeaseOwner) : LeaseOwner.new owner.asStr = .ok owner :=
  dif_pos owner.valid

theorem lines_stateText {lease : SharedResourceLease} (h : OneLine lease.token.resource.toList) :
    lines (stateText lease) = ["format".toList ++ '=' :: leaseFormat.toList,
      "resource".toList ++ '=' :: lease.token.resource.toList,
      "owner".toList ++ '=' :: lease.token.owner.asStr.toList,
      "epoch".toList ++ '=' :: decimal lease.token.epoch.toNat,
      "acquired_at_ms".toList ++ '=' :: decimal lease.acquiredAtMs.toNat,
      "heartbeat_at_ms".toList ++ '=' :: decimal lease.heartbeatAtMs.toNat,
      "expires_at_ms".toList ++ '=' :: decimal lease.expiresAtMs.toNat] := by
  have howner := oneLine_of_validateLabel lease.token.owner.valid
  have hlast := @lines_fieldLine "expires_at_ms" _ (by decide)
    (oneLine_decimal lease.expiresAtMs.toNat) []
  rw [List.append_nil] at hlast
  rw [stateText, lines_fieldLine (by decide) (by decide), lines_fieldLine (by decide) h,
    lines_fieldLine (by decide) howner, lines_fieldLine (by decide) (oneLine_decimal _),
    lines_fieldLine (by decide) (oneLine_decimal _),
    lines_fieldLine (by decide) (oneLine_decimal _), hlast]
  rfl

theorem StateFields.add_line (fields : StateFields) {key : String} (h : '=' ∉ key.toList)
    (value : List Char) :
    fields.add (key.toList ++ '=' :: value) = fields.set key.toList value := by
  rw [StateFields.add, splitField_line h, ok_bind]

/-- The fields after each line of a lease, in their order. -/
theorem foldlM_add_state (lease : SharedResourceLease) :
    (["format".toList ++ '=' :: leaseFormat.toList,
      "resource".toList ++ '=' :: lease.token.resource.toList,
      "owner".toList ++ '=' :: lease.token.owner.asStr.toList,
      "epoch".toList ++ '=' :: decimal lease.token.epoch.toNat,
      "acquired_at_ms".toList ++ '=' :: decimal lease.acquiredAtMs.toNat,
      "heartbeat_at_ms".toList ++ '=' :: decimal lease.heartbeatAtMs.toNat,
      "expires_at_ms".toList ++ '=' :: decimal lease.expiresAtMs.toNat].foldlM StateFields.add
        ⟨false, none, none, none, none, none, none⟩ : ProviderResult StateFields) =
      .ok ⟨true, some lease.token.resource, some lease.token.owner, some lease.token.epoch,
        some lease.acquiredAtMs, some lease.heartbeatAtMs, some lease.expiresAtMs⟩ := by
  -- a key that is not the one looked for
  have hne {a b : String} {p : Prop} (h : a.toList ≠ b.toList) : ¬ (a.toList = b.toList ∧ p) :=
    fun hp => h hp.1
  rw [List.foldlM_cons, StateFields.add_line _ (by decide), StateFields.set,
    if_pos ⟨rfl, rfl, Bool.false_ne_true⟩, ok_bind]
  rw [List.foldlM_cons, StateFields.add_line _ (by decide), StateFields.set,
    if_neg (hne (by decide)), if_pos ⟨rfl, rfl⟩, ok_bind, String.ofList_toList]
  rw [List.foldlM_cons, StateFields.add_line _ (by decide), StateFields.set,
    if_neg (hne (by decide)), if_neg (hne (by decide)), if_pos ⟨rfl, rfl⟩, String.ofList_toList,
    LeaseOwner.new_asStr, ok_bind, ok_bind]
  rw [List.foldlM_cons, StateFields.add_line _ (by decide), StateFields.set,
    if_neg (hne (by decide)), if_neg (hne (by decide)), if_neg (hne (by decide)),
    if_pos ⟨rfl, rfl⟩, parseInteger_decimal, ok_bind, ok_bind]
  rw [List.foldlM_cons, StateFields.add_line _ (by decide), StateFields.set,
    if_neg (hne (by decide)), if_neg (hne (by decide)), if_neg (hne (by decide)),
    if_neg (hne (by decide)), if_pos ⟨rfl, rfl⟩, parseInteger_decimal, ok_bind, ok_bind]
  rw [List.foldlM_cons, StateFields.add_line _ (by decide), StateFields.set,
    if_neg (hne (by decide)), if_neg (hne (by decide)), if_neg (hne (by decide)),
    if_neg (hne (by decide)), if_neg (hne (by decide)), if_pos ⟨rfl, rfl⟩, parseInteger_decimal,
    ok_bind, ok_bind]
  rw [List.foldlM_cons, StateFields.add_line _ (by decide), StateFields.set,
    if_neg (hne (by decide)), if_neg (hne (by decide)), if_neg (hne (by decide)),
    if_neg (hne (by decide)), if_neg (hne (by decide)), if_neg (hne (by decide)),
    if_pos ⟨rfl, rfl⟩, parseInteger_decimal, ok_bind, ok_bind]
  rfl

/-- **A lease is read back.** -/
theorem parseState_stateText {lease : SharedResourceLease}
    (h : OneLine lease.token.resource.toList) :
    parseState (stateText lease) lease.token.resource = .ok lease := by
  rw [parseState, lines_stateText h, foldlM_add_state, ok_bind]
  simp [required, ok_bind]

/-- **An epoch is read back.** -/
theorem parseEpoch_epochText (epoch : UInt64) : parseEpoch (epochText epoch) = .ok epoch := by
  have hlast := @lines_fieldLine "epoch" _ (by decide) (oneLine_decimal epoch.toNat) []
  rw [List.append_nil] at hlast
  have hlines : lines (epochText epoch) = ["format".toList ++ '=' :: epochFormat.toList,
      "epoch".toList ++ '=' :: decimal epoch.toNat] := by
    rw [epochText, lines_fieldLine (by decide) (by decide), hlast]
    rfl
  have hformat : addEpochField (false, none) ("format".toList ++ '=' :: epochFormat.toList) =
      .ok (true, none) := by
    rw [addEpochField, splitField_line (by decide), ok_bind]
    exact if_pos ⟨rfl, rfl, Bool.false_ne_true⟩
  have hepoch : addEpochField (true, none) ("epoch".toList ++ '=' :: decimal epoch.toNat) =
      .ok (true, some epoch) := by
    rw [addEpochField, splitField_line (by decide), ok_bind]
    dsimp only
    rw [if_neg (fun h => absurd h.1 (by decide)), if_pos ⟨rfl, rfl⟩, parseInteger_decimal, ok_bind]
  rw [parseEpoch, hlines, List.foldlM_cons, hformat, ok_bind, List.foldlM_cons, hepoch, ok_bind]
  rfl

/-! ## Both files are within the limit of the reader -/

theorem length_utf8_decimal (n : UInt64) : (utf8 (decimal n.toNat)).length ≤ 20 := by
  have hascii : IsAscii (decimal n.toNat) := fun c hc =>
    toNat_lt_of_isDigit (isDigit_of_mem_decimal hc)
  rw [utf8_of_ascii hascii, List.length_map]
  refine (Nat.length_toDigits_le_iff (by decide) (by decide)).2 (n.toNat_lt.trans ?_)
  decide

theorem length_utf8_fieldLine (key : String) (value : List Char) :
    (utf8 (fieldLine key value)).length =
      (strBytes key).length + (utf8 value).length + 2 := by
  have heq : utf8 ['='] = [61] := by decide
  have hnewline : utf8 ['\n'] = [10] := by decide
  have hsplit : fieldLine key value = key.toList ++ (['='] ++ (value ++ ['\n'])) := by
    simp [fieldLine]
  rw [hsplit, utf8_append, utf8_append, utf8_append, heq, hnewline, strBytes]
  simp only [List.length_append, List.length_cons, List.length_nil]
  omega

theorem length_stateText {lease : SharedResourceLease}
    (h : (strBytes lease.token.resource).length ≤ 128) :
    (utf8 (stateText lease)).length ≤ maxStateBytes := by
  have howner := length_of_validateLabel lease.token.owner.valid
  have hepoch := length_utf8_decimal lease.token.epoch
  have hacquired := length_utf8_decimal lease.acquiredAtMs
  have hheartbeat := length_utf8_decimal lease.heartbeatAtMs
  have hexpires := length_utf8_decimal lease.expiresAtMs
  have hkeys : (strBytes "format").length = 6 ∧ (strBytes "resource").length = 8 ∧
      (strBytes "owner").length = 5 ∧ (strBytes "epoch").length = 5 ∧
      (strBytes "acquired_at_ms").length = 14 ∧ (strBytes "heartbeat_at_ms").length = 15 ∧
      (strBytes "expires_at_ms").length = 13 ∧ (utf8 leaseFormat.toList).length = 23 := by
    decide
  rw [strBytes] at h howner
  simp only [stateText, utf8_append, List.length_append, length_utf8_fieldLine, maxStateBytes]
  omega

theorem length_epochText (epoch : UInt64) : (utf8 (epochText epoch)).length ≤ maxStateBytes := by
  have hepoch := length_utf8_decimal epoch
  have hkeys : (strBytes "format").length = 6 ∧ (strBytes "epoch").length = 5 ∧
      (utf8 epochFormat.toList).length = 29 := by
    decide
  simp only [epochText, utf8_append, List.length_append, length_utf8_fieldLine, maxStateBytes]
  omega

variable {d : Disk}

theorem wp_io {what : String} {call : Disk → Except IoError Disk} {C : Disk → Prop}
    {Q : ProviderResult Unit → Disk → Prop} (hok : ∀ t, call d = .ok t → C t ∧ Q (.ok ()) t)
    (herror : ∀ e, Q (.error e) d) : (io what call).wp C Q d :=
  Prog.wp_step_mapError hok fun _ _ => herror _

theorem wp_io_bind {α : Type} {what : String} {call : Disk → Except IoError Disk}
    {g : Unit → LeaseProg α} {C : Disk → Prop} {Q : ProviderResult α → Disk → Prop}
    (hok : ∀ t, call d = .ok t → C t ∧ (g ()).wp C Q t) (herror : ∀ e, Q (.error e) d) :
    Prog.wp (io what call >>= g) C Q d := by
  rw [Prog.wp_bind]
  exact wp_io hok herror

variable {root : Path} {name : String}

theorem rejectSymlink_ok (hroot : d.get root = some .dir) (hname : isName name = true) :
    rejectSymlink (root ++ [name]) d = .ok () := by
  unfold rejectSymlink
  cases h : d.get (root ++ [name]) with
  | none => rw [Disk.stat_missing hroot hname h]
  | some n => rw [Disk.stat_of_get h]

theorem readOptionalBounded_missing (hroot : d.get root = some .dir) (hname : isName name = true)
    (h : d.get (root ++ [name]) = none) : readOptionalBounded (root ++ [name]) d = .ok none := by
  have hread : d.readFile (root ++ [name]) = .error .notFound := by
    rw [Disk.readFile, Disk.stat_missing hroot hname h]
  rw [readOptionalBounded, rejectSymlink_ok hroot hname, ok_bind, hread]

theorem readOptionalBounded_file {text : List Char} (hroot : d.get root = some .dir)
    (hname : isName name = true) (h : d.get (root ++ [name]) = some (.file (utf8 text)))
    (hsize : (utf8 text).length ≤ maxStateBytes) :
    readOptionalBounded (root ++ [name]) d = .ok (some text) := by
  rw [readOptionalBounded, rejectSymlink_ok hroot hname, ok_bind, Disk.readFile_eq_ok.2 h]
  dsimp only
  rw [if_neg (Nat.not_lt.2 hsize), fromUtf8_utf8]

end AppCore.Lease
