import AppCore.Base.Prog
import AppCore.Core.IdempotencyJson

/-!
# What a reopened idempotency store holds

The records of the file, in their order, are a ledger of the store: the map in memory is the last
record of each key (`Holds`), and opening the file reads the last resolved record of each key
(`newWithTtl_holds`). The two agree but for a key whose record is pending and that has a resolved
record in the file too.

* `reopened_iff` — a store is reopened as it was exactly when no key has lost a result to a pending
  record since the file was rewritten.
* `reopens_iff` — a store is reopened at all exactly when its file is within the limit.
* `reopened_after_faults` — appends that fail.
-/

namespace AppCore.Core

section

variable [RecordJson]

variable {record : IdempotencyRecord}

theorem loadLine_toString (hjson : RecordJson.Lawful) (seen : RecordMap)
    (hvalid : validateKey record.key = .ok ()) :
    loadLine seen (RecordJson.toString record) =
      .ok (if record.isResolved then seen.insert record.key record else seen) := by
  obtain ⟨body, hbody⟩ := hjson.object record
  have htrim : trim (RecordJson.toString record) = RecordJson.toString record := by
    rw [hbody]
    exact trim_of_ends (by decide) (by decide) body
  have hparse : parseIdempotencyRecord (RecordJson.toString record) = .ok record := by
    rw [parseIdempotencyRecord, hjson.lossless, if_neg (by simp [hbody])]
  have hne : (RecordJson.toString record).isEmpty = false := by simp [hbody]
  unfold loadLine
  simp [htrim, hne, hparse, hvalid]

/-- The resolved records are kept, the last of each key. -/
theorem foldlM_loadLine (hjson : RecordJson.Lawful) {records : List IdempotencyRecord}
    (hvalid : ∀ r ∈ records, validateKey r.key = .ok ()) :
    (records.map RecordJson.toString).foldlM loadLine (∅ : RecordMap) =
      .ok (indexBy (·.key) (records.filter (·.isResolved))) := by
  induction records using List.reverseRecOn with
  | nil => rfl
  | append_singleton records record ih =>
    have hrest := ih fun r hr => hvalid r (List.mem_append_left _ hr)
    have hlast := hvalid record (by simp)
    rw [List.map_append, List.foldlM_append, hrest]
    change (List.foldlM loadLine _ [RecordJson.toString record]) = _
    rw [List.foldlM_cons, loadLine_toString hjson _ hlast, List.filter_append]
    cases hresolved : record.isResolved with
    | true =>
      rw [List.filter_cons_of_pos hresolved, List.filter_nil, indexBy_concat]
      rfl
    | false =>
      rw [List.filter_cons_of_neg (by simp [hresolved]), List.filter_nil, List.append_nil]
      rfl

/-- A file with the part of a line behind it. -/
theorem loadEntries_fileOf (hjson : RecordJson.Lawful) (records : List IdempotencyRecord)
    (hvalid : ∀ r ∈ records, validateKey r.key = .ok ()) {tail : Bytes} (htail : NoNewline tail)
    {text : List Char} (htext : fromUtf8 tail = some text)
    (hsize : (fileOf records ++ tail).length ≤ maxIdempotencyFileBytes) :
    loadEntries (fileOf records ++ tail) =
      .ok (indexBy (·.key) (records.filter (·.isResolved)), !text.isEmpty) := by
  have hlines : ∀ l ∈ records.map RecordJson.toString, IsLine l := by
    intro l hl
    obtain ⟨record, -, rfl⟩ := List.mem_map.1 hl
    exact hjson.line record
  have hread : fromUtf8 (fileOf records ++ tail) = some (idempotencyFormatV1.toList ++
      '\n' :: (joinLines (records.map RecordJson.toString) ++ text)) := by
    rw [fileOf, fromUtf8_append, htext]
    simp
  have hsplit (body : List Char) :
      splitIdempotencyFormat (idempotencyFormatV1.toList ++ '\n' :: body) = .ok body := by
    rw [splitIdempotencyFormat, stripMarker_append]
  rw [loadEntries, if_neg (Nat.not_lt.2 hsize), hread]
  simp only [hsplit, completeLinePrefix_joinLines _ (htail.text htext), lines_joinLines hlines,
    foldlM_loadLine hjson hvalid]

/-! ## The ledger of a store -/

/-- The file has these records, and the map in memory the last of each key. -/
structure Holds (s : FileStore) (records : List IdempotencyRecord) : Prop where
  file : s.file = fileOf records
  valid : ∀ r ∈ records, validateKey r.key = .ok ()
  seen : s.store.seen = indexBy (·.key) records

variable {s : FileStore} {records : List IdempotencyRecord}

theorem Holds.mem (h : Holds s records) {key : String} (hseen : s.store.seen[key]? = some record) :
    record ∈ records ∧ record.key = key := by
  rw [h.seen] at hseen
  exact mem_of_getElem?_indexBy hseen

theorem rewriteEntries_empty : rewriteEntries ∅ = fileOf [] := by
  have hempty : (∅ : RecordMap).toList = [] := by simp [← List.isEmpty_iff]
  rw [rewriteEntries, hempty, List.map_nil]

theorem length_fileOf_nil_le : (fileOf []).length ≤ maxIdempotencyFileBytes := by
  have hlen : (fileOf []).length = 25 := rfl
  rw [hlen]
  decide

theorem newWithTtl_none (hjson : RecordJson.Lawful) (ttlMs : Option UInt64) :
    ∃ s, FileStore.newWithTtl none ttlMs = .ok s ∧ Holds s [] := by
  have hload : loadEntries (fileOf []) = .ok (∅, false) := by
    have h := loadEntries_fileOf hjson [] (by simp) noNewline_nil
      (fromUtf8_utf8 []) (by simpa using length_fileOf_nil_le)
    simpa using h
  refine ⟨⟨⟨if ttlMs = some 0 then none else ttlMs, ∅⟩, fileOf []⟩, ?_, rfl, by simp, rfl⟩
  rw [FileStore.newWithTtl, Option.getD_none, rewriteEntries_empty, hload]
  rfl

theorem fileOf_concat (records : List IdempotencyRecord) (record : IdempotencyRecord) :
    fileOf (records ++ [record]) = fileOf records ++ entryLine record := by
  rw [fileOf, fileOf, entryLine, ← utf8_append]
  simp

theorem Holds.insert (h : Holds s records) (hvalid : validateKey record.key = .ok ()) :
    (s.insert record none).1 = .ok () ∧ Holds (s.insert record none).2 (records ++ [record]) := by
  simp only [FileStore.insert, hvalid, true_and]
  refine ⟨?_, ?_, ?_⟩
  · rw [h.file, fileOf_concat]
  · intro r hr
    obtain hr | hr := List.mem_append.1 hr
    · exact h.valid r hr
    · exact List.mem_singleton.1 hr ▸ hvalid
  · rw [indexBy_concat, ← h.seen]

theorem Holds.rewrite (h : Holds s records) {seen : RecordMap}
    (hsub : ∀ (key : String) (record : IdempotencyRecord), seen[key]? = some record →
      s.store.seen[key]? = some record) :
    Holds ⟨{ s.store with seen }, rewriteEntries seen⟩ (seen.toList.map (·.2)) := by
  have hkey (key : String) (record : IdempotencyRecord) (hseen : seen[key]? = some record) :=
    h.mem (hsub key record hseen)
  refine ⟨rfl, fun record hrecord => ?_, ?_⟩
  · obtain ⟨entry, hentry, rfl⟩ := List.mem_map.1 hrecord
    have hseen := Std.ExtTreeMap.mem_toList_iff_getElem?_eq_some.1
      (show (entry.1, entry.2) ∈ seen.toList from hentry)
    exact h.valid _ (hkey _ _ hseen).1
  · exact (indexBy_toList fun key record hseen => (hkey key record hseen).2).symm

/-- What is read back: the last resolved record of each key. -/
theorem newWithTtl_holds (hjson : RecordJson.Lawful) (h : Holds s records)
    (hsize : s.file.length ≤ maxIdempotencyFileBytes) (ttlMs : Option UInt64) :
    ∃ t, FileStore.newWithTtl (some s.file) ttlMs = .ok t ∧
      t.store.seen = indexBy (·.key) (records.filter (·.isResolved)) := by
  have hload := loadEntries_fileOf hjson records h.valid noNewline_nil (fromUtf8_utf8 [])
    (by simpa [← h.file] using hsize)
  rw [List.append_nil, ← h.file] at hload
  simp only [FileStore.newWithTtl, Option.getD_some, hload]
  exact ⟨_, rfl, rfl⟩

theorem newWithTtl_too_large (file : Bytes) (hsize : maxIdempotencyFileBytes < file.length)
    (ttlMs : Option UInt64) :
    FileStore.newWithTtl (some file) ttlMs =
      .error (corruptIdempotency "store exceeds size limit") := by
  rw [FileStore.newWithTtl, Option.getD_some, loadEntries, if_pos hsize]

/-! ## Runs without faults -/

/-- The operations that replace the file. -/
def FileStore.rewrites (s : FileStore) : StoreOp → Bool
  | .insert _ => false
  | .remove key => s.store.seen.contains key
  | .compact _ => true

/-- None of the operations `after` the ones `before` replaces the file. -/
def Unrewritten (ttlMs : Option UInt64) (before after : List StoreOp) : Prop :=
  ∀ middle op rest s, after = middle ++ op :: rest →
    FileStore.run ttlMs (before ++ middle) = .ok s → s.rewrites op = false

/-- No key whose record is pending at the end had a resolved one since the file was last
rewritten. -/
def NoResultReserved (ttlMs : Option UInt64) (ops : List StoreOp) : Prop :=
  ∀ (before after : List StoreOp) (s t : FileStore) (key : String)
    (record result : IdempotencyRecord), ops = before ++ after → Unrewritten ttlMs before after →
    FileStore.run ttlMs before = .ok s → FileStore.run ttlMs ops = .ok t →
    t.store.seen[key]? = some record → record.isResolved = false →
    s.store.seen[key]? = some result → result.isResolved = false

theorem Unrewritten.nil (ttlMs : Option UInt64) (before : List StoreOp) :
    Unrewritten ttlMs before [] := by
  intro middle op rest s heq
  simp at heq

variable {ttlMs : Option UInt64} {op : StoreOp}

theorem unrewritten_concat {before after : List StoreOp}
    (hrun : FileStore.run ttlMs (before ++ after) = .ok s) :
    Unrewritten ttlMs before (after ++ [op]) ↔
      Unrewritten ttlMs before after ∧ s.rewrites op = false := by
  constructor
  · intro h
    refine ⟨fun middle op' rest s' heq hmiddle => ?_, h after op [] s rfl hrun⟩
    exact h middle op' (rest ++ [op]) s' (by rw [heq]; simp) hmiddle
  · rintro ⟨h, hop⟩ middle op' rest s' heq hmiddle
    obtain rfl | ⟨last, rest', rfl⟩ := List.eq_nil_or_concat rest
    · obtain ⟨rfl, hlast⟩ := List.append_inj' heq rfl
      obtain rfl := List.singleton_inj.1 hlast
      rw [hrun] at hmiddle
      obtain rfl := Except.ok.inj hmiddle
      exact hop
    · rw [List.concat_eq_append, ← List.cons_append, ← List.append_assoc] at heq
      exact h middle op' _ s' (List.append_inj' heq rfl).1 hmiddle

variable {ops : List StoreOp} {t : FileStore}

theorem run_concat :
    FileStore.run ttlMs (ops ++ [op]) = .ok t ↔
      ∃ s, FileStore.run ttlMs ops = .ok s ∧ s.apply op = .ok t := by
  unfold FileStore.run
  cases FileStore.newWithTtl none ttlMs with
  | error e => simp
  | ok new =>
    dsimp only
    rw [List.foldlM_append]
    cases ops.foldlM FileStore.apply new with
    | error e => simp [bind, Except.bind]
    | ok s =>
      simp only [bind, Except.bind, pure, Except.pure, List.foldlM_cons, List.foldlM_nil,
        Except.ok.injEq, exists_eq_left']
      cases s.apply op <;> rfl

theorem apply_of_run_concat {t u : FileStore} (hrun : FileStore.run ttlMs ops = .ok s)
    (happly : s.apply op = .ok t) (hu : FileStore.run ttlMs (ops ++ [op]) = .ok u) : u = t := by
  obtain ⟨s', hs', hu⟩ := run_concat.1 hu
  rw [hrun] at hs'
  obtain rfl := Except.ok.inj hs'
  rw [happly] at hu
  exact (Except.ok.inj hu).symm

/-- The records of the file: the last of each key is the one in memory, and the resolved ones are
those that were in memory since the file was rewritten. -/
structure Ledger (ttlMs : Option UInt64) (ops : List StoreOp) (s : FileStore)
    (records : List IdempotencyRecord) : Prop extends Holds s records where
  written : ∀ record ∈ records, ∃ before after t, ops = before ++ after ∧
    Unrewritten ttlMs before after ∧ FileStore.run ttlMs before = .ok t ∧
    t.store.seen[record.key]? = some record
  kept : ∀ before after t (key : String) (record : IdempotencyRecord), ops = before ++ after →
    Unrewritten ttlMs before after → FileStore.run ttlMs before = .ok t →
    t.store.seen[key]? = some record → record ∈ records

/-- An operation that leaves the file as it is, or adds to it. -/
theorem Ledger.extend (h : Ledger ttlMs ops s records) (more : List IdempotencyRecord)
    (hrun : FileStore.run ttlMs ops = .ok s) (happly : s.apply op = .ok t)
    (hrewrites : s.rewrites op = false) (hholds : Holds t (records ++ more))
    (hmore : ∀ record ∈ more, t.store.seen[record.key]? = some record) :
    Ledger ttlMs (ops ++ [op]) t (records ++ more) where
  toHolds := hholds
  written record hrecord := by
    obtain hold | hnew := List.mem_append.1 hrecord
    · obtain ⟨before, after, u, rfl, hun, hbefore, hseen⟩ := h.written record hold
      exact ⟨before, after ++ [op], u, by simp,
        (unrewritten_concat hrun).2 ⟨hun, hrewrites⟩, hbefore, hseen⟩
    · exact ⟨ops ++ [op], [], t, by simp, .nil _ _, run_concat.2 ⟨s, hrun, happly⟩,
        hmore record hnew⟩
  kept before after u key record heq hun hbefore hseen := by
    obtain rfl | ⟨after, last, rfl⟩ := List.eq_nil_or_concat after
    · rw [List.append_nil] at heq
      obtain rfl := apply_of_run_concat hrun happly (heq ▸ hbefore)
      exact (hholds.mem hseen).1
    · rw [List.concat_eq_append, ← List.append_assoc] at heq
      obtain ⟨rfl, hlast⟩ := List.append_inj' heq rfl
      obtain rfl := List.singleton_inj.1 hlast
      rw [List.concat_eq_append, unrewritten_concat hrun] at hun
      exact List.mem_append_left _ (h.kept before after u key record rfl hun.1 hbefore hseen)

/-- An operation that replaces the file. -/
theorem Ledger.replace {new : List IdempotencyRecord} (hrun : FileStore.run ttlMs ops = .ok s)
    (happly : s.apply op = .ok t) (hrewrites : s.rewrites op = true) (hholds : Holds t new)
    (hnew : ∀ record ∈ new, t.store.seen[record.key]? = some record) :
    Ledger ttlMs (ops ++ [op]) t new where
  toHolds := hholds
  written record hrecord :=
    ⟨ops ++ [op], [], t, by simp, .nil _ _, run_concat.2 ⟨s, hrun, happly⟩, hnew record hrecord⟩
  kept before after u key record heq hun hbefore hseen := by
    obtain rfl | ⟨after, last, rfl⟩ := List.eq_nil_or_concat after
    · rw [List.append_nil] at heq
      obtain rfl := apply_of_run_concat hrun happly (heq ▸ hbefore)
      exact (hholds.mem hseen).1
    · rw [List.concat_eq_append, ← List.append_assoc] at heq
      obtain ⟨rfl, hlast⟩ := List.append_inj' heq rfl
      obtain rfl := List.singleton_inj.1 hlast
      rw [List.concat_eq_append, unrewritten_concat hrun, hrewrites] at hun
      simp at hun

theorem Ledger.apply (h : Ledger ttlMs ops s records) (hrun : FileStore.run ttlMs ops = .ok s)
    (happly : s.apply op = .ok t) : ∃ records, Ledger ttlMs (ops ++ [op]) t records := by
  have hsaved (seen : RecordMap) (hsub : ∀ (key : String) (record : IdempotencyRecord),
      seen[key]? = some record → s.store.seen[key]? = some record) :
      ∀ record ∈ seen.toList.map (·.2), seen[record.key]? = some record := by
    intro record hrecord
    obtain ⟨entry, hentry, rfl⟩ := List.mem_map.1 hrecord
    have hseen := Std.ExtTreeMap.mem_toList_iff_getElem?_eq_some.1
      (show (entry.1, entry.2) ∈ seen.toList from hentry)
    rw [(h.mem (hsub _ _ hseen)).2]
    exact hseen
  cases op with
  | insert record =>
    cases hvalid : validateKey record.key with
    | error e => simp [FileStore.apply, FileStore.insert, hvalid] at happly
    | ok _ =>
      obtain ⟨hok, hholds⟩ := h.toHolds.insert hvalid
      have ht : t = (s.insert record none).2 := by
        simp only [FileStore.apply, FileStore.insert, hvalid] at happly ⊢
        exact (Except.ok.inj happly).symm
      subst ht
      refine ⟨_, h.extend _ hrun happly rfl hholds ?_⟩
      simp [FileStore.insert, hvalid]
  | remove key =>
    by_cases hcontains : s.store.seen.contains key = true
    · have hsub (k : String) (record : IdempotencyRecord)
          (hseen : (s.store.seen.erase key)[k]? = some record) : s.store.seen[k]? = some record :=
        getElem?_of_erase hseen
      have ht : t = ⟨{ s.store with seen := s.store.seen.erase key },
          rewriteEntries (s.store.seen.erase key)⟩ := by
        simp only [FileStore.apply, FileStore.remove, hcontains, if_true] at happly
        exact (Except.ok.inj happly).symm
      subst ht
      exact ⟨_, .replace hrun happly hcontains (h.toHolds.rewrite hsub) (hsaved _ hsub)⟩
    · have ht : t = s := by
        simp only [FileStore.apply, FileStore.remove, hcontains] at happly
        exact (Except.ok.inj happly).symm
      subst ht
      refine ⟨_, h.extend [] hrun happly (Bool.eq_false_iff.2 hcontains) ?_ (by simp)⟩
      rw [List.append_nil]
      exact h.toHolds
  | compact nowMs =>
    have hsub (k : String) (record : IdempotencyRecord)
        (hseen : (s.store.seen.filter fun _ record =>
          !isExpired record.createdAtMs s.store.ttlMs nowMs)[k]? = some record) :
        s.store.seen[k]? = some record := by
      rw [Std.ExtTreeMap.getElem?_filter'] at hseen
      exact (Option.filter_eq_some_iff.1 hseen).1
    have ht := (Except.ok.inj happly).symm
    subst ht
    exact ⟨_, .replace hrun happly rfl (h.toHolds.rewrite hsub) (hsaved _ hsub)⟩

theorem ledger_run (hjson : RecordJson.Lawful) (ops : List StoreOp)
    (hrun : FileStore.run ttlMs ops = .ok s) : ∃ records, Ledger ttlMs ops s records := by
  induction ops using List.reverseRecOn generalizing s with
  | nil =>
    obtain ⟨new, hnew, hholds⟩ := newWithTtl_none hjson ttlMs
    simp only [FileStore.run, hnew] at hrun
    obtain rfl := Except.ok.inj hrun
    refine ⟨[], hholds, by simp, fun before after t key record heq _ hbefore hseen => ?_⟩
    obtain ⟨rfl, rfl⟩ := List.append_eq_nil_iff.1 heq.symm
    simp only [FileStore.run, hnew] at hbefore
    obtain rfl := Except.ok.inj hbefore
    exact (hholds.mem hseen).1
  | append_singleton ops op ih =>
    obtain ⟨u, hu, happly⟩ := run_concat.1 hrun
    obtain ⟨records, hledger⟩ := ih hu
    exact hledger.apply hu happly

/-- A store is reopened as it was, without its pending records, exactly when no key whose record
is pending had a result since the file was rewritten. -/
theorem reopened_iff (hjson : RecordJson.Lawful) {ttlMs : Option UInt64} (ops : List StoreOp)
    {s : FileStore} (hrun : FileStore.run ttlMs ops = .ok s)
    (hsize : s.file.length ≤ maxIdempotencyFileBytes) (reopenTtlMs : Option UInt64) :
    (∃ t, FileStore.newWithTtl (some s.file) reopenTtlMs = .ok t ∧
      t.store.seen = s.store.seen.filter fun _ record => record.isResolved) ↔
      NoResultReserved ttlMs ops := by
  obtain ⟨records, h⟩ := ledger_run hjson ops hrun
  obtain ⟨t, ht, hseen⟩ := newWithTtl_holds hjson h.toHolds hsize reopenTtlMs
  have hread : (∃ t, FileStore.newWithTtl (some s.file) reopenTtlMs = .ok t ∧
      t.store.seen = s.store.seen.filter fun _ record => record.isResolved) ↔
        indexBy (·.key) (records.filter (·.isResolved)) =
          (indexBy (·.key) records).filter fun _ record => record.isResolved := by
    rw [ht, ← hseen, ← h.seen]
    simp
  rw [hread, indexBy_filter_iff, ← h.seen]
  constructor
  · intro hfile before after u v key record result heq hun hbefore hafter hrecord hpending hresult
    rw [hrun] at hafter
    obtain rfl := Except.ok.inj hafter
    have hmem := h.kept before after u key result heq hun hbefore hresult
    obtain ⟨other, hother⟩ := ledger_run hjson before hbefore
    exact hfile key record hrecord hpending result hmem (hother.mem hresult).2
  · intro hcond key record hrecord hpending result hmem hkey
    obtain ⟨before, after, u, heq, hun, hbefore, hresult⟩ := h.written result hmem
    rw [hkey] at hresult
    exact hcond before after u s key record result heq hun hbefore hrun hrecord hpending hresult

end

/-- A record under the key `k1` at a time. -/
def recordAt (status : IdempotencyStatus) (createdAtMs : UInt64) : IdempotencyRecord :=
  ⟨"k1", "hash", status, createdAtMs⟩

theorem reopened_iff_resolved : ∃ (json : RecordJson) (s : FileStore), json = recordJson ∧
    FileStore.run none [.insert (recordAt .pending 1), .insert (recordAt (.resolved 200 "ok") 2)] =
      .ok s ∧
    ((∃ t, FileStore.newWithTtl (some s.file) none = .ok t ∧
      t.store.seen = s.store.seen.filter fun _ record => record.isResolved) ↔
      NoResultReserved none
        [.insert (recordAt .pending 1), .insert (recordAt (.resolved 200 "ok") 2)]) := by
  let _ := recordJson
  obtain ⟨s, hrun, hsize⟩ := ok_of_any (x := FileStore.run none
      [.insert (recordAt .pending 1), .insert (recordAt (.resolved 200 "ok") 2)])
    (p := fun s => s.file.length ≤ maxIdempotencyFileBytes) (by decide +kernel)
  exact ⟨recordJson, s, rfl, hrun,
    reopened_iff recordJson_lawful _ hrun (of_decide_eq_true hsize) none⟩

/-- A result whose key is reserved again is back after the store is reopened. -/
theorem not_reopened_reserved : ∃ (json : RecordJson) (s t : FileStore), json = recordJson ∧
    RecordJson.Lawful ∧
    FileStore.run none [.insert (recordAt (.resolved 200 "ok") 1), .insert (recordAt .pending 2)] =
      .ok s ∧
    s.file.length ≤ maxIdempotencyFileBytes ∧ FileStore.newWithTtl (some s.file) none = .ok t ∧
    t.store.seen ≠ s.store.seen.filter fun _ record => record.isResolved := by
  let _ := recordJson
  obtain ⟨s, hrun, hs⟩ := ok_of_any (x := FileStore.run none
      [.insert (recordAt (.resolved 200 "ok") 1), .insert (recordAt .pending 2)])
    (p := fun s => s.file.length ≤ maxIdempotencyFileBytes ∧
      s.store.seen["k1"]? = some (recordAt .pending 2) ∧
      (FileStore.newWithTtl (some s.file) none).toOption.any fun t =>
        t.store.seen["k1"]? = some (recordAt (.resolved 200 "ok") 1)) (by decide +kernel)
  obtain ⟨hsize, hpending, hopen⟩ := of_decide_eq_true hs
  obtain ⟨t, ht, hresolved⟩ := ok_of_any hopen
  refine ⟨recordJson, s, t, rfl, recordJson_lawful, hrun, hsize, ht, fun heq => ?_⟩
  have hlost : t.store.seen["k1"]? = none := by
    rw [heq, Std.ExtTreeMap.getElem?_filter', hpending]
    rfl
  rw [of_decide_eq_true hresolved] at hlost
  cases hlost

/-- **A store is reopened** exactly when its file is within the limit of the reader. -/
theorem reopens_iff [RecordJson] (hjson : RecordJson.Lawful) {ttlMs : Option UInt64} (ops : List StoreOp)
    {s : FileStore} (hrun : FileStore.run ttlMs ops = .ok s) (reopenTtlMs : Option UInt64) :
    (∃ t, FileStore.newWithTtl (some s.file) reopenTtlMs = .ok t) ↔
      s.file.length ≤ maxIdempotencyFileBytes := by
  constructor
  · rintro ⟨t, ht⟩
    by_contra hlarge
    rw [newWithTtl_too_large s.file (Nat.lt_of_not_le hlarge)] at ht
    cases ht
  · intro hsize
    obtain ⟨records, h⟩ := ledger_run hjson ops hrun
    obtain ⟨t, ht, -⟩ := newWithTtl_holds hjson h.toHolds hsize reopenTtlMs
    exact ⟨t, ht⟩

theorem reopens_iff_resolved : ∃ (json : RecordJson) (s : FileStore), json = recordJson ∧
    FileStore.run none [.insert (recordAt (.resolved 200 "ok") 2)] = .ok s ∧
    ((∃ t, FileStore.newWithTtl (some s.file) none = .ok t) ↔
      s.file.length ≤ maxIdempotencyFileBytes) := by
  let _ := recordJson
  obtain ⟨s, hrun, -⟩ := ok_of_any (x := FileStore.run none
    [.insert (recordAt (.resolved 200 "ok") 2)]) (p := fun _ => true) (by decide)
  exact ⟨recordJson, s, rfl, hrun, reopens_iff recordJson_lawful _ hrun none⟩

/-- A record that is as large as the limit of the reader. -/
def largeRecord : IdempotencyRecord :=
  recordAt (.resolved 200 (String.ofList (List.replicate maxIdempotencyFileBytes 'a'))) 1

theorem length_le_entryLine (record : IdempotencyRecord) {responseStatus : UInt16} {body : String}
    (hstatus : record.status = .resolved responseStatus body) :
    body.toList.length ≤ (@entryLine recordJson record).length := by
  have hmem : Json.Token.str body.toList ∈ recordTokens record := by
    simp [recordTokens_eq, Json.memberTokens, hstatus, statusTokens]
  obtain ⟨before, after, hsplit⟩ := List.append_of_mem hmem
  have htext : body.toList.length ≤ (recordText record).length := by
    have hbody := (Json.length_str_text body.toList).1
    rw [recordText, hsplit, List.flatMap_append, List.flatMap_cons]
    simp only [List.length_append]
    omega
  have hline := (length_utf8 (recordText record ++ ['\n'])).1
  rw [List.length_append] at hline
  change body.toList.length ≤ (utf8 (recordText record ++ ['\n'])).length
  omega

/-- A record that is inserted, and a file that is not opened again. -/
theorem not_reopens_large : ∃ (json : RecordJson) (s : FileStore), json = recordJson ∧
    RecordJson.Lawful ∧
    FileStore.run none [.insert largeRecord] = .ok s ∧
    FileStore.newWithTtl (some s.file) none =
      .error (corruptIdempotency "store exceeds size limit") := by
  let _ := recordJson
  obtain ⟨new, hnew, hholds⟩ := newWithTtl_none recordJson_lawful none
  have hvalid : validateKey largeRecord.key = .ok () := by decide
  have hinsert := hholds.insert hvalid
  have happly : new.apply (.insert largeRecord) = .ok (new.insert largeRecord none).2 := by
    simp only [FileStore.apply, FileStore.insert, hvalid]
  have hrun : FileStore.run none ([] ++ [.insert largeRecord]) =
      .ok (new.insert largeRecord none).2 := by
    refine run_concat.2 ⟨new, ?_, happly⟩
    simp only [FileStore.run, hnew]
    rfl
  refine ⟨recordJson, _, rfl, recordJson_lawful, hrun, newWithTtl_too_large _ ?_ none⟩
  have hline := length_le_entryLine largeRecord rfl
  have hempty : (fileOf []).length = 25 := rfl
  rw [hinsert.2.file, fileOf_concat, List.length_append, hempty]
  rw [String.toList_ofList, List.length_replicate] at hline
  omega

/-! ## Appends that fail -/

section

variable [RecordJson] {s : FileStore} {records : List IdempotencyRecord}

/-- The records whose inserts returned `Ok`. -/
def succeeded (inserts : List (IdempotencyRecord × Option AppendFault)) : List IdempotencyRecord :=
  (inserts.filter fun (record, fault) => fault.isNone && (validateKey record.key).isOk).map (·.1)

/-- An insert that keeps the file readable: one that returns `Ok` begins a line of its own, one that
fails stops between two characters, and neither makes the file too large. -/
def FileStore.StaysReadable (s : FileStore) (step : IdempotencyRecord × Option AppendFault) : Prop :=
  (validateKey step.1.key = .ok () → match step.2 with
    | none => s.file.getLast? = some 0x0a
    | some fault => (fromUtf8 (tornPart (entryLine step.1) fault.written)).isSome) ∧
  (s.insert step.1 step.2).2.file.length ≤ maxIdempotencyFileBytes

instance (s : FileStore) : (step : IdempotencyRecord × Option AppendFault) →
    Decidable (s.StaysReadable step)
  | (record, none) => inferInstanceAs (Decidable
      ((validateKey record.key = .ok () → s.file.getLast? = some 0x0a) ∧
        (s.insert record none).2.file.length ≤ maxIdempotencyFileBytes))
  | (record, some fault) => inferInstanceAs (Decidable
      ((validateKey record.key = .ok () →
        (fromUtf8 (tornPart (entryLine record) fault.written)).isSome) ∧
        (s.insert record (some fault)).2.file.length ≤ maxIdempotencyFileBytes))

/-- The file has these records and a part of a line behind them. -/
structure HoldsTorn (s : FileStore) (records : List IdempotencyRecord) : Prop where
  file : ∃ tail text, s.file = fileOf records ++ tail ∧ NoNewline tail ∧ fromUtf8 tail = some text
  valid : ∀ r ∈ records, validateKey r.key = .ok ()

theorem HoldsTorn.insert (hjson : RecordJson.Lawful) (h : HoldsTorn s records)
    {step : IdempotencyRecord × Option AppendFault} (hreadable : s.StaysReadable step) :
    HoldsTorn (s.insert step.1 step.2).2 (records ++ succeeded [step]) := by
  obtain ⟨record, fault⟩ := step
  obtain ⟨⟨tail, text, hfile, htail, htext⟩, hvalid⟩ := h
  have hcond := hreadable.1
  simp only [FileStore.insert]
  cases hkey : validateKey record.key with
  | error e =>
    have hnone : succeeded [(record, fault)] = [] := by simp [succeeded, hkey, Except.isOk,
      Except.toBool]
    rw [hnone, List.append_nil]
    exact ⟨⟨tail, text, hfile, htail, htext⟩, hvalid⟩
  | ok _ =>
    have hcond := hcond hkey
    cases fault with
    | none =>
      have hempty : tail = [] := by
        by_contra hne
        rw [hfile, List.getLast?_append_of_ne_nil _ hne] at hcond
        exact htail (List.mem_of_getLast? hcond)
      subst hempty
      have hone : succeeded [(record, none)] = [record] := by simp [succeeded, hkey,
        Except.isOk, Except.toBool]
      rw [hone]
      refine ⟨⟨[], [], ?_, noNewline_nil, fromUtf8_utf8 []⟩, fun r hr => ?_⟩
      · simp [hfile, fileOf_concat]
      · obtain hr | hr := List.mem_append.1 hr
        · exact hvalid r hr
        · exact List.mem_singleton.1 hr ▸ hkey
    | some fault =>
      obtain ⟨more, hmore⟩ := Option.isSome_iff_exists.1 hcond
      have hnone : succeeded [(record, some fault)] = [] := by simp [succeeded]
      rw [hnone, List.append_nil]
      refine ⟨⟨tail ++ tornPart (entryLine record) fault.written, text ++ more, ?_,
        htail.append (noNewline_tornPart (hjson.line record) _),
        fromUtf8_append_some htext hmore⟩, hvalid⟩
      simp [hfile]

theorem runInserts_concat {ttlMs : Option UInt64}
    {inserts : List (IdempotencyRecord × Option AppendFault)}
    {step : IdempotencyRecord × Option AppendFault} {t : FileStore} :
    FileStore.runInserts ttlMs (inserts ++ [step]) = .ok t ↔
      ∃ s, FileStore.runInserts ttlMs inserts = .ok s ∧ (s.insert step.1 step.2).2 = t := by
  unfold FileStore.runInserts
  cases FileStore.newWithTtl none ttlMs with
  | error e => simp
  | ok new => simp

theorem holdsTorn_runInserts (hjson : RecordJson.Lawful) {ttlMs : Option UInt64}
    (inserts : List (IdempotencyRecord × Option AppendFault))
    (hsteps : ∀ before step after s, inserts = before ++ step :: after →
      FileStore.runInserts ttlMs before = .ok s → s.StaysReadable step)
    (hrun : FileStore.runInserts ttlMs inserts = .ok s) :
    HoldsTorn s (succeeded inserts) ∧ s.file.length ≤ maxIdempotencyFileBytes := by
  induction inserts using List.reverseRecOn generalizing s with
  | nil =>
    obtain ⟨new, hnew, hholds⟩ := newWithTtl_none hjson ttlMs
    simp only [FileStore.runInserts, hnew, List.foldl_nil] at hrun
    obtain rfl := Except.ok.inj hrun
    refine ⟨⟨⟨[], [], by rw [List.append_nil]; exact hholds.file, noNewline_nil, fromUtf8_utf8 []⟩,
      hholds.valid⟩, ?_⟩
    rw [hholds.file]
    exact length_fileOf_nil_le
  | append_singleton inserts step ih =>
    obtain ⟨u, hu, rfl⟩ := runInserts_concat.1 hrun
    have hreadable := hsteps inserts step [] u rfl hu
    obtain ⟨htorn, -⟩ := ih (fun before step' after v heq hv =>
      hsteps before step' (after ++ [step]) v (by rw [heq]; simp) hv) hu
    refine ⟨?_, hreadable.2⟩
    have hsplit : succeeded (inserts ++ [step]) = succeeded inserts ++ succeeded [step] := by
      simp [succeeded]
    rw [hsplit]
    exact htorn.insert hjson hreadable

/-- A store whose inserts keep the file readable is reopened with the last resolved record of each
key whose insert returned `Ok`. -/
theorem reopened_after_faults (hjson : RecordJson.Lawful) {ttlMs : Option UInt64}
    (inserts : List (IdempotencyRecord × Option AppendFault))
    (hsteps : ∀ before step after s, inserts = before ++ step :: after →
      FileStore.runInserts ttlMs before = .ok s → s.StaysReadable step)
    {s : FileStore} (hrun : FileStore.runInserts ttlMs inserts = .ok s)
    (reopenTtlMs : Option UInt64) :
    ∃ t, FileStore.newWithTtl (some s.file) reopenTtlMs = .ok t ∧
      t.store.seen = indexBy (·.key) ((succeeded inserts).filter (·.isResolved)) := by
  obtain ⟨⟨⟨tail, text, hfile, htail, htext⟩, hvalid⟩, hsize⟩ :=
    holdsTorn_runInserts hjson inserts hsteps hrun
  have hload := loadEntries_fileOf hjson _ hvalid htail htext (hfile ▸ hsize)
  simp only [FileStore.newWithTtl, Option.getD_some, hfile, hload]
  exact ⟨_, rfl, rfl⟩

end

/-- An insert, and one that fails after it wrote a part of its line. -/
def lastInsertFails : List (IdempotencyRecord × Option AppendFault) :=
  [(recordAt (.resolved 200 "ok") 1, none),
    (recordAt .pending 2, some ⟨12, "no space left on device"⟩)]

theorem reopened_after_faults_last : ∃ (json : RecordJson) (s t : FileStore), json = recordJson ∧
    FileStore.runInserts none lastInsertFails = .ok s ∧
    FileStore.newWithTtl (some s.file) none = .ok t ∧
    t.store.seen = indexBy (·.key) ((succeeded lastInsertFails).filter (·.isResolved)) := by
  let _ := recordJson
  obtain ⟨s, hrun, -⟩ := ok_of_any (x := FileStore.runInserts none lastInsertFails)
    (p := fun _ => true) (by decide)
  obtain ⟨t, ht, hseen⟩ := reopened_after_faults recordJson_lawful lastInsertFails
    (steps_of_take (by decide +kernel)) hrun none
  exact ⟨recordJson, s, t, rfl, hrun, ht, hseen⟩

/-- An insert that fails, and one that does not. -/
def firstInsertFails : List (IdempotencyRecord × Option AppendFault) :=
  [(recordAt .pending 1, some ⟨12, "no space left on device"⟩),
    (recordAt (.resolved 200 "ok") 2, none)]

/-- The store is not opened, for this reason. -/
def isRefused (error : RuntimeError) : Except RuntimeError FileStore → Bool
  | .error e => e == error
  | .ok _ => false

/-- A record that was inserted behind the part of a line is not read back, and the store is not
opened again. -/
theorem not_reopened_after_faults : ∃ (json : RecordJson) (s : FileStore), json = recordJson ∧
    RecordJson.Lawful ∧
    FileStore.runInserts none firstInsertFails = .ok s ∧
    succeeded firstInsertFails = [recordAt (.resolved 200 "ok") 2] ∧
    FileStore.newWithTtl (some s.file) none =
      .error (corruptIdempotency "invalid JSON record") := by
  let _ := recordJson
  obtain ⟨s, hrun, hs⟩ := ok_of_any (x := FileStore.runInserts none firstInsertFails)
    (p := fun s => isRefused (corruptIdempotency "invalid JSON record")
      (FileStore.newWithTtl (some s.file) none)) (by decide +kernel)
  refine ⟨recordJson, s, rfl, recordJson_lawful, hrun, by decide, ?_⟩
  cases hopen : FileStore.newWithTtl (some s.file) none with
  | ok t => simp [hopen, isRefused] at hs
  | error e =>
    rw [hopen] at hs
    rw [eq_of_beq hs]

end AppCore.Core
