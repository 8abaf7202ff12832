import AppCore.Base.Runs
import AppCore.Base.Window
import Mathlib.Data.Finset.Card

/-!
# The deduplicator of opaque messages

`OpaqueEnvelopeDeduplicator` (`opaque.rs`) keeps the ids it accepted in a set, to look them up, and
in a queue, to drop the oldest. The loop that drops looks at the size of the set and takes from the
queue, so that it would never end if the queue ran out first.

* `remembers_window` — every sequence of calls: the queue lists the last distinct ids accepted.
-/

namespace AppCore.Contracts

/-! ## The deduplicator -/

inductive OpaqueEnvelopeDecision where
  | accepted
  | unsupportedSchema
  | unsupportedEnvelopeVersion
  | expired
  | payloadTooLarge
  | unsupportedCapability
  | duplicate
  | invalidEnvelope
  deriving DecidableEq, Repr

structure OpaqueEnvelopeDeduplicator where
  maxEntries : ℕ
  seen : Finset String
  order : List String
  deriving DecidableEq

namespace OpaqueEnvelopeDeduplicator

def new (maxEntries : ℕ) : OpaqueEnvelopeDeduplicator := ⟨max maxEntries 1, ∅, []⟩

/-- The body of the eviction loop. -/
def evictOldest (d : OpaqueEnvelopeDeduplicator) : OpaqueEnvelopeDeduplicator :=
  match d.order with
  -- The loop goes on with the same set, and never ends.
  | [] => d
  | oldest :: order => { d with seen := d.seen.erase oldest, order := order }

/-- The eviction loop, or `none` when it does not end within the given number of tests. -/
def evict : ℕ → OpaqueEnvelopeDeduplicator → Option OpaqueEnvelopeDeduplicator
  | 0, _ => none
  | fuel + 1, d => if d.maxEntries < d.seen.card then evict fuel d.evictOldest else some d

def accept (fuel : ℕ) (d : OpaqueEnvelopeDeduplicator) (messageId : String) :
    Option (OpaqueEnvelopeDecision × OpaqueEnvelopeDeduplicator) :=
  if messageId ∈ d.seen then some (.duplicate, d)
  else do
    let d ← evict fuel { d with seen := insert messageId d.seen, order := d.order ++ [messageId] }
    return (.accepted, d)

/-- The set holds the ids of the queue, there are no more than allowed, and none is there twice. -/
structure Consistent (d : OpaqueEnvelopeDeduplicator) : Prop where
  nodup : d.order.Nodup
  seen_eq : d.seen = d.order.toFinset
  card_le : d.seen.card ≤ d.maxEntries

namespace Consistent

variable {d : OpaqueEnvelopeDeduplicator}

theorem mem_seen (h : d.Consistent) {id : String} : id ∈ d.seen ↔ id ∈ d.order := by
  rw [h.seen_eq, List.mem_toFinset]

theorem length_order (h : d.Consistent) : d.order.length = d.seen.card := by
  rw [h.seen_eq, List.toFinset_card_of_nodup h.nodup]

end Consistent

/-- The deduplicator that lists exactly these ids. -/
def listing (maxEntries : ℕ) (order : List String) : OpaqueEnvelopeDeduplicator :=
  ⟨maxEntries, order.toFinset, order⟩

/-- With one id too many, the loop drops the oldest one and ends. -/
theorem evict_listing {maxEntries : ℕ} {order : List String} (hnodup : order.Nodup)
    (hlength : order.length ≤ maxEntries + 1) (fuel : ℕ) :
    evict (fuel + 2) (listing maxEntries order) =
      some (listing maxEntries (order.rtake maxEntries)) := by
  have hcard : (listing maxEntries order).seen.card = order.length :=
    List.toFinset_card_of_nodup hnodup
  rw [evict, hcard]
  split_ifs with hover
  · have hone : order.length = maxEntries + 1 := le_antisymm hlength hover
    cases order with
    | nil => simp at hone
    | cons oldest order =>
      rw [List.nodup_cons] at hnodup
      have hdrop : (listing maxEntries (oldest :: order)).evictOldest =
          listing maxEntries order := by
        have herase : (oldest :: order).toFinset.erase oldest = order.toFinset := by
          rw [List.toFinset_cons, Finset.erase_insert (by simpa using hnodup.1)]
        simp only [listing, evictOldest, herase]
      have hrest : (listing maxEntries order).seen.card = order.length :=
        List.toFinset_card_of_nodup hnodup.2
      have hfits : order.length = maxEntries := by simpa using hone
      have hkeep : (oldest :: order).rtake maxEntries = order := by
        rw [List.rtake, List.length_cons, hfits, Nat.add_sub_cancel_left]
        rfl
      rw [hdrop, evict, hrest, if_neg (by change ¬ maxEntries < _; omega), hkeep]
  · have hfits : order.length ≤ maxEntries := not_lt.1 hover
    have hkeep : order.rtake maxEntries = order := by
      rw [List.rtake, Nat.sub_eq_zero_of_le hfits, List.drop_zero]
    rw [hkeep]

theorem consistent_listing {maxEntries : ℕ} {order : List String} (hnodup : order.Nodup)
    (hlength : order.length ≤ maxEntries) : (listing maxEntries order).Consistent where
  nodup := hnodup
  seen_eq := rfl
  card_le := (List.toFinset_card_le order).trans hlength

/-- One call from a consistent state. -/
theorem accept_of_consistent {d : OpaqueEnvelopeDeduplicator} (h : d.Consistent) (id : String)
    (fuel : ℕ) : accept (fuel + 2) d id =
      some (if id ∈ d.order then (.duplicate, d)
        else (.accepted, listing d.maxEntries ((d.order ++ [id]).rtake d.maxEntries))) := by
  unfold accept
  simp only [h.mem_seen]
  split_ifs with hmem
  · rfl
  · have hpushed : ({ d with seen := insert id d.seen, order := d.order ++ [id] } :
        OpaqueEnvelopeDeduplicator) = listing d.maxEntries (d.order ++ [id]) := by
      simp only [listing, h.seen_eq, List.toFinset_append, List.toFinset_cons, List.toFinset_nil,
        insert_empty_eq, Finset.union_singleton]
    have hnodup : (d.order ++ [id]).Nodup := by
      rw [List.nodup_append]
      refine ⟨h.nodup, List.nodup_singleton id, ?_⟩
      rintro a ha b hb rfl
      exact hmem (List.mem_singleton.1 hb ▸ ha)
    have hlength : (d.order ++ [id]).length ≤ d.maxEntries + 1 := by
      have hcard := h.card_le
      rw [← h.length_order] at hcard
      simpa using hcard
    rw [hpushed, evict_listing hnodup hlength]
    rfl

/-! ## Sequences of calls -/

/-- A call, with the list of the ids that were accepted so far. -/
def call (fuel : ℕ) (state : OpaqueEnvelopeDeduplicator × List String) (id : String) :
    Option (OpaqueEnvelopeDeduplicator × List String) :=
  (accept fuel state.1 id).map fun (decision, d) =>
    (d, if decision = .accepted then state.2 ++ [id] else state.2)

/-- The queue lists the last distinct ids that were accepted. -/
structure Remembers (window : ℕ) (d : OpaqueEnvelopeDeduplicator) (log : List String) : Prop where
  consistent : d.Consistent
  maxEntries : d.maxEntries = window
  order : d.order = log.dedup.rtake window

theorem Remembers.of_log {window : ℕ} (log : List String) :
    Remembers window (listing window (log.dedup.rtake window)) log where
  consistent := consistent_listing
    ((List.nodup_dedup log).sublist (List.drop_sublist _ _)) (length_rtake_le _ _)
  maxEntries := rfl
  order := rfl

theorem Remembers.call {window : ℕ} {d : OpaqueEnvelopeDeduplicator} {log : List String}
    (h : Remembers window d log) (id : String) :
    ∃ d' log', Remembers window d' log' ∧
      ∀ fuel, OpaqueEnvelopeDeduplicator.call (fuel + 2) (d, log) id = some (d', log') := by
  by_cases hmem : id ∈ d.order
  · refine ⟨d, log, h, fun fuel => ?_⟩
    rw [OpaqueEnvelopeDeduplicator.call, accept_of_consistent h.consistent, if_pos hmem]
    rfl
  · refine ⟨_, log ++ [id], Remembers.of_log (log ++ [id]), fun fuel => ?_⟩
    rw [OpaqueEnvelopeDeduplicator.call, accept_of_consistent h.consistent, if_neg hmem,
      h.maxEntries, h.order, rtake_dedup_concat (h.order ▸ hmem)]
    rfl

theorem remembers_calls (window : ℕ) (ids : List String) :
    ∃ d log, Remembers window d log ∧
      ∀ fuel, runFrom (call (fuel + 2)) (listing window [], []) ids = some (d, log) := by
  induction ids using List.reverseRecOn with
  | nil =>
    have hstart := @Remembers.of_log window []
    rw [List.dedup_nil, List.rtake_nil] at hstart
    exact ⟨_, _, hstart, fun fuel => rfl⟩
  | append_singleton ids id ih =>
    obtain ⟨d, log, hlog, hrun⟩ := ih
    obtain ⟨d', log', hlog', hcall⟩ := hlog.call id
    exact ⟨d', log', hlog', fun fuel =>
      runFrom_concat_eq_some.2 ⟨_, hrun fuel, hcall fuel⟩⟩

/-- Every sequence of calls ends, and leaves the window of the ids that were accepted: an id is a
duplicate when it is in the window, and accepted when it is not. -/
theorem remembers_window (maxEntries : ℕ) (ids : List String) :
    ∃ d log, (∀ fuel, runFrom (call (fuel + 2)) (new maxEntries, []) ids = some (d, log)) ∧
      d.order.Nodup ∧ d.seen = d.order.toFinset ∧ d.seen.card ≤ max maxEntries 1 ∧
      ∀ id, ∃ d', ∀ fuel, accept (fuel + 2) d id =
        some (if id ∈ log.dedup.rtake (max maxEntries 1) then .duplicate else .accepted, d') := by
  obtain ⟨d, log, hlog, hrun⟩ := remembers_calls (max maxEntries 1) ids
  refine ⟨d, log, hrun, hlog.consistent.nodup, hlog.consistent.seen_eq, ?_, fun id => ?_⟩
  · exact hlog.maxEntries ▸ hlog.consistent.card_le
  · rw [← hlog.order]
    by_cases hmem : id ∈ d.order
    · refine ⟨d, fun fuel => ?_⟩
      rw [accept_of_consistent hlog.consistent, if_pos hmem, if_pos hmem]
    · refine ⟨listing d.maxEntries ((d.order ++ [id]).rtake d.maxEntries), fun fuel => ?_⟩
      rw [accept_of_consistent hlog.consistent, if_neg hmem, if_neg hmem]

end OpaqueEnvelopeDeduplicator

end AppCore.Contracts
