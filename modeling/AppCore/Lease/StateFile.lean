import AppCore.Lease.RepositoryProof

/-!
# What a lease file can say

`write_state` writes the seven fields in one format string, and `parse_state` takes them in any
order, each under a guard of its own. The fields it has taken (`StateFields.taken`) grow by the key
of the line with every line, so that an accepted text has each of them once and no other line.

* `lease_files` — both files, written and read back, and what an accepted text looks like.
-/

namespace AppCore.Lease

/-! ## The fields of an accepted text -/

/-- A key, when its field has been taken. -/
def takenKey (key : String) (taken : Bool) : Multiset (List Char) :=
  if taken then {key.toList} else 0

@[simp] theorem takenKey_true (key : String) : takenKey key true = {key.toList} := rfl

@[simp] theorem takenKey_false (key : String) : takenKey key false = 0 := rfl

/-- The keys of the fields that have been taken. -/
def StateFields.taken (fields : StateFields) : Multiset (List Char) :=
  takenKey "format" fields.formatSeen + takenKey "resource" fields.resource.isSome +
    takenKey "owner" fields.owner.isSome + takenKey "epoch" fields.epoch.isSome +
    takenKey "acquired_at_ms" fields.acquiredAtMs.isSome +
    takenKey "heartbeat_at_ms" fields.heartbeatAtMs.isSome +
    takenKey "expires_at_ms" fields.expiresAtMs.isSome

/-- A field is taken once. -/
theorem StateFields.taken_set {fields next : StateFields} {key value : List Char}
    (h : fields.set key value = .ok next) : next.taken = {key} + fields.taken := by
  unfold StateFields.set at h
  split_ifs at h with hformat hresource howner hepoch hacquired hheartbeat hexpires
  · cases h
    simp only [StateFields.taken, hformat.1, hformat.2.2, takenKey_true, takenKey_false]
    abel
  · cases h
    simp only [StateFields.taken, hresource.1, Option.isNone_iff_eq_none.1 hresource.2,
      Option.isSome_some, Option.isSome_none, takenKey_true, takenKey_false]
    abel
  · obtain ⟨owner, -, hnext⟩ := bind_eq_ok.1 h
    cases hnext
    simp only [StateFields.taken, howner.1, Option.isNone_iff_eq_none.1 howner.2,
      Option.isSome_some, Option.isSome_none, takenKey_true, takenKey_false]
    abel
  · obtain ⟨epoch, -, hnext⟩ := bind_eq_ok.1 h
    cases hnext
    simp only [StateFields.taken, hepoch.1, Option.isNone_iff_eq_none.1 hepoch.2,
      Option.isSome_some, Option.isSome_none, takenKey_true, takenKey_false]
    abel
  · obtain ⟨time, -, hnext⟩ := bind_eq_ok.1 h
    cases hnext
    simp only [StateFields.taken, hacquired.1, Option.isNone_iff_eq_none.1 hacquired.2,
      Option.isSome_some, Option.isSome_none, takenKey_true, takenKey_false]
    abel
  · obtain ⟨time, -, hnext⟩ := bind_eq_ok.1 h
    cases hnext
    simp only [StateFields.taken, hheartbeat.1, Option.isNone_iff_eq_none.1 hheartbeat.2,
      Option.isSome_some, Option.isSome_none, takenKey_true, takenKey_false]
    abel
  · obtain ⟨time, -, hnext⟩ := bind_eq_ok.1 h
    cases hnext
    simp only [StateFields.taken, hexpires.1, Option.isNone_iff_eq_none.1 hexpires.2,
      Option.isSome_some, Option.isSome_none, takenKey_true, takenKey_false]
    abel

/-- The line of a key and a value. -/
def keyLine (field : List Char × List Char) : List Char := field.1 ++ '=' :: field.2

theorem keyLine_of_splitField {line : List Char} {field : List Char × List Char}
    (h : splitField line = .ok field) : keyLine field = line := by
  unfold splitField at h
  split at h
  · cases h
  · next split hsplit =>
      cases h
      exact (splitOnce_eq_some hsplit).symm

/-- The lines of a scan, as the fields that it took. -/
theorem foldlM_add_taken {text : List (List Char)} {fields last : StateFields}
    (h : (text.foldlM StateFields.add fields : ProviderResult StateFields) = .ok last) :
    ∃ read : List (List Char × List Char), text = read.map keyLine ∧
      last.taken = Multiset.ofList (read.map Prod.fst) + fields.taken := by
  induction text generalizing fields with
  | nil =>
    cases h
    exact ⟨[], rfl, by simp⟩
  | cons line text ih =>
    rw [List.foldlM_cons] at h
    obtain ⟨next, hadd, hrest⟩ := bind_eq_ok.1 h
    obtain ⟨field, hsplit, hset⟩ := bind_eq_ok.1 hadd
    obtain ⟨read, rfl, hlast⟩ := ih hrest
    refine ⟨field :: read, by simp [keyLine_of_splitField hsplit], ?_⟩
    rw [hlast, StateFields.taken_set hset, List.map_cons, ← Multiset.cons_coe,
      ← Multiset.singleton_add]
    abel

def stateKeys : List (List Char) :=
  ["format".toList, "resource".toList, "owner".toList, "epoch".toList, "acquired_at_ms".toList,
    "heartbeat_at_ms".toList, "expires_at_ms".toList]

/-- Every line is a field, and each of the seven is there once. -/
def HasEachField (text : List Char) : Prop :=
  ∃ read : List (List Char × List Char), lines text = read.map keyLine ∧ (read.map Prod.fst).Perm stateKeys

theorem taken_eq_stateKeys {fields : StateFields} (hformat : fields.formatSeen = true)
    (hresource : fields.resource.isSome = true) (howner : fields.owner.isSome = true)
    (hepoch : fields.epoch.isSome = true) (hacquired : fields.acquiredAtMs.isSome = true)
    (hheartbeat : fields.heartbeatAtMs.isSome = true)
    (hexpires : fields.expiresAtMs.isSome = true) :
    fields.taken = Multiset.ofList stateKeys := by
  rw [StateFields.taken, hformat, hresource, howner, hepoch, hacquired, hheartbeat, hexpires]
  rfl

theorem isSome_of_required {α : Type} {message : String} {value : Option α} {a : α}
    (h : required message value = .ok a) : value.isSome = true := by
  cases value with
  | none => cases h
  | some a => rfl

/-- No field of an accepted text is missing, given twice or left at a default. -/
theorem hasEachField_of_parseState {text : List Char} {resource : String}
    {lease : SharedResourceLease} (h : parseState text resource = .ok lease) :
    HasEachField text := by
  obtain ⟨fields, hscan, h⟩ := bind_eq_ok.1 h
  split_ifs at h with hformat
  obtain ⟨found, hresource, h⟩ := bind_eq_ok.1 h
  split_ifs at h
  obtain ⟨owner, howner, h⟩ := bind_eq_ok.1 h
  obtain ⟨epoch, hepoch, h⟩ := bind_eq_ok.1 h
  obtain ⟨acquired, hacquired, h⟩ := bind_eq_ok.1 h
  obtain ⟨heartbeat, hheartbeat, h⟩ := bind_eq_ok.1 h
  obtain ⟨expires, hexpires, -⟩ := bind_eq_ok.1 h
  obtain ⟨read, hlines, htaken⟩ := foldlM_add_taken hscan
  have hall := taken_eq_stateKeys hformat (isSome_of_required hresource)
    (isSome_of_required howner) (isSome_of_required hepoch) (isSome_of_required hacquired)
    (isSome_of_required hheartbeat) (isSome_of_required hexpires)
  have hnone : StateFields.taken ⟨false, none, none, none, none, none, none⟩ = 0 := rfl
  rw [hall, hnone, add_zero] at htaken
  exact ⟨read, hlines, (Multiset.coe_eq_coe.1 htaken).symm⟩

theorem parseState_other {lease : SharedResourceLease} (h : OneLine lease.token.resource.toList)
    {other : String} (hother : other ≠ lease.token.resource) :
    parseState (stateText lease) other =
      .error (.invalidConfiguration "lease state resource mismatch") := by
  rw [parseState, lines_stateText h, foldlM_add_state, ok_bind]
  simp [required, ok_bind, hother.symm]

/-! ## Written and read back -/

theorem get_of_atomicReplace {root : Path} {temp : TempName} {name : String} {bytes : Bytes}
    {d : Disk} (hname : name ≠ temp.name)
    (h : (atomicReplace temp (root ++ [name]) bytes).result d = .ok ()) :
    ((atomicReplace temp (root ++ [name]) bytes).final d).get (root ++ [name]) =
      some (.file bytes) := by
  have hreplaced := (@wp_atomicReplace root temp name bytes d hname).2.1 h
  rw [hreplaced name hname, if_pos rfl]

theorem readOptionalBounded_written {root : Path} {temp : TempName} {name : String}
    {text : List Char} {d : Disk} (hname : isName name = true) (hne : name ≠ temp.name)
    (hsize : (utf8 text).length ≤ maxStateBytes)
    (h : (atomicReplace temp (root ++ [name]) (utf8 text)).result d = .ok ()) :
    readOptionalBounded (root ++ [name])
      ((atomicReplace temp (root ++ [name]) (utf8 text)).final d) = .ok (some text) := by
  have hget := get_of_atomicReplace hne h
  exact readOptionalBounded_file (Disk.get_of_append hget) hname hget hsize

variable {root : Path} {temp : TempName} {d : Disk}

theorem readState_written {lease : SharedResourceLease}
    (hresource : ValidResource lease.token.resource)
    (h : (writeState temp (leaseFile root lease.token.resource) lease).result d = .ok ())
    (expected : String) :
    readState (leaseFile root lease.token.resource) expected
        ((writeState temp (leaseFile root lease.token.resource) lease).final d) =
      (parseState (stateText lease) expected).map some := by
  have hread := readOptionalBounded_written (isName_lease hresource) lease_ne_name
    (length_stateText (length_of_validateLabel hresource)) h
  rw [readState, leaseFile, writeState, hread, ok_bind]

theorem readEpoch_written {resource : String} (hresource : ValidResource resource)
    {epoch : UInt64} (h : (writeEpoch temp (epochFile root resource) epoch).result d = .ok ()) :
    readEpoch (epochFile root resource)
        ((writeEpoch temp (epochFile root resource) epoch).final d) = .ok (some epoch) := by
  have hread := readOptionalBounded_written (isName_epoch hresource) epoch_ne_name
    (length_epochText epoch) h
  rw [readEpoch, epochFile, writeEpoch, hread, ok_bind]
  dsimp only
  rw [parseEpoch_epochText]
  rfl

/-- Both files are read back as they were written, a lease only for its own resource, and a text is
accepted only with each of the seven fields once and nothing else. -/
theorem lease_files :
    (∀ lease : SharedResourceLease, ValidResource lease.token.resource →
      (utf8 (stateText lease)).length ≤ maxStateBytes) ∧
    (∀ (root : Path) (temp : TempName) (lease : SharedResourceLease) (d : Disk),
      ValidResource lease.token.resource →
      (writeState temp (leaseFile root lease.token.resource) lease).result d = .ok () →
      let written := (writeState temp (leaseFile root lease.token.resource) lease).final d
      readState (leaseFile root lease.token.resource) lease.token.resource written =
          .ok (some lease) ∧
        ∀ other, other ≠ lease.token.resource →
          ∃ e, readState (leaseFile root lease.token.resource) other written = .error e) ∧
    (∀ (root : Path) (temp : TempName) (resource : String) (epoch : UInt64) (d : Disk),
      ValidResource resource →
      (writeEpoch temp (epochFile root resource) epoch).result d = .ok () →
      readEpoch (epochFile root resource)
        ((writeEpoch temp (epochFile root resource) epoch).final d) = .ok (some epoch)) ∧
    ∀ (text : List Char) (resource : String) (lease : SharedResourceLease),
      parseState text resource = .ok lease → HasEachField text := by
  refine ⟨fun lease hresource => length_stateText (length_of_validateLabel hresource), ?_, ?_, ?_⟩
  · intro root temp lease d hresource hwrite written
    have hline := oneLine_of_validateLabel hresource
    constructor
    · rw [readState_written hresource hwrite, parseState_stateText hline]
      rfl
    · intro other hother
      rw [readState_written hresource hwrite, parseState_other hline hother]
      exact ⟨_, rfl⟩
  · intro root temp resource epoch d hresource hwrite
    exact readEpoch_written hresource hwrite
  · intro text resource lease hparse
    exact hasEachField_of_parseState hparse

end AppCore.Lease
