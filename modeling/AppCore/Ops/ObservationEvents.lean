import AppCore.Base.Maps
import AppCore.Core.RedactionAgain

/-!
# Observation events and their sinks

`observation.rs`: a sink in memory redacts an event and keeps it, and then gives it to its drains.
A drain in memory redacts it again, and so does the one that writes a file before it queues the
event. The sink that counts metrics keeps no text, and is left out. The drains of a sink are a tree.

* `redacted_redacted_iff` — when an event that is redacted twice is the one that is redacted once.
-/

namespace AppCore.Observations

open AppCore.Redaction (redactString redactString_third redactString_again_iff)

/-! ## Events -/

def maxObservationAttributes : Nat := 32

def maxObservationNameBytes : Nat := 128

def maxObservationValueBytes : Nat := 1024

def maxObservationTraceBytes : Nat := 256

inductive ObservationKind where
  | lifecycle
  | configuration
  | health
  | security
  | storage
  | controlPlane
  | peerRpc
  | scheduler
  | sync
  | audit
  | diagnostic
  deriving DecidableEq, Repr

inductive ObservationSeverity where
  | debug
  | info
  | warning
  | error
  deriving DecidableEq, Repr

/-- `ObservationEvent`. -/
@[ext]
structure ObservationEvent where
  kind : ObservationKind
  severity : ObservationSeverity
  name : String
  timestampMs : UInt64
  traceId : Option String
  attributes : Std.ExtTreeMap String String compare

def isSensitiveKey (key : String) : Bool :=
  ["secret", "password", "token", "credential", "private_key"].any fun fragment =>
    fragment.toList <:+: key.toList.map Char.toLower

/-- The loop of `redacted` that drops the last attributes. -/
def dropExcess (attributes : Std.ExtTreeMap String String compare) :
    Std.ExtTreeMap String String compare :=
  if maxObservationAttributes < attributes.size then
    match _hlast : attributes.keys.getLast? with
    | none => attributes
    | some key => dropExcess (attributes.erase key)
  else attributes
termination_by attributes.size
decreasing_by
  have hmem : key ∈ attributes := Std.ExtTreeMap.mem_keys.1 (List.mem_of_getLast? _hlast)
  rw [Std.ExtTreeMap.size_erase, if_pos (Std.ExtTreeMap.mem_iff_contains.1 hmem)]
  omega

def redactAttribute (key value : String) : String :=
  if isSensitiveKey key then "[REDACTED]" else redactString value maxObservationValueBytes

def ObservationEvent.redacted (event : ObservationEvent) : ObservationEvent :=
  { event with
    name := redactString event.name maxObservationNameBytes
    traceId := event.traceId.map fun value => redactString value maxObservationTraceBytes
    attributes := (dropExcess event.attributes).map redactAttribute }

/-- A sink in memory with its drains, or the queue of a sink that writes a file, until it stops. -/
inductive Sink where
  | memory (capacity : Nat) (events : List ObservationEvent) (drains : List Sink)
  | file (capacity : Nat) (queue : Option (List ObservationEvent)) (dropped : Nat)

mutual

/-- `emit`: the sink with its drains, and what they record of the event. -/
def Sink.emit : Sink → ObservationEvent → Sink × List ObservationEvent
  | .memory capacity events drains, event =>
    let event := event.redacted
    let events := (if events.length = capacity then events.tail else events) ++ [event]
    let emitted := emitAll drains event
    (.memory capacity events emitted.1, event :: emitted.2)
  | .file capacity none dropped, _ => (.file capacity none (dropped + 1), [])
  | .file capacity (some queue) dropped, event =>
    if queue.length < capacity then
      (.file capacity (some (queue ++ [event.redacted])) dropped, [event.redacted])
    else (.file capacity (some queue) (dropped + 1), [])

/-- The loop over the drains. -/
def emitAll : List Sink → ObservationEvent → List Sink × List ObservationEvent
  | [], _ => ([], [])
  | sink :: sinks, event =>
    let emitted := sink.emit event
    let rest := emitAll sinks event
    (emitted.1 :: rest.1, emitted.2 ++ rest.2)

end

/-! ## The attributes that are kept -/

theorem dropExcess_small {attributes : Std.ExtTreeMap String String compare}
    (h : attributes.size ≤ maxObservationAttributes) : dropExcess attributes = attributes := by
  rw [dropExcess, if_neg (Nat.not_lt.2 h)]

/-- The first attributes are kept. -/
theorem keys_dropExcess (attributes : Std.ExtTreeMap String String compare) :
    (dropExcess attributes).keys = attributes.keys.take maxObservationAttributes ∧
      ∀ key ∈ (dropExcess attributes).keys, (dropExcess attributes)[key]? = attributes[key]? := by
  induction attributes using dropExcess.induct with
  | case1 attributes hsize hlast =>
    rw [List.getLast?_eq_none_iff] at hlast
    rw [← Std.ExtTreeMap.length_keys, hlast] at hsize
    exact absurd hsize (Nat.not_lt_zero _)
  | case2 attributes hsize key hlast ih =>
    obtain ⟨front, hfront⟩ := List.getLast?_eq_some_iff.1 hlast
    have hkeys := keys_erase_last attributes hfront
    have hlength : maxObservationAttributes ≤ front.length := by
      rw [← Std.ExtTreeMap.length_keys, hfront, List.length_append, List.length_singleton] at hsize
      omega
    have hdrop : dropExcess attributes = dropExcess (attributes.erase key) := by
      rw [dropExcess, if_pos hsize]
      split
      next hnone => rw [hlast] at hnone; cases hnone
      next other hother =>
        rw [hlast] at hother
        cases hother
        rfl
    rw [hdrop, ih.1, hkeys]
    refine ⟨by rw [hfront, List.take_append_of_le_length hlength], fun other hother => ?_⟩
    rw [ih.2 other (by rw [ih.1, hkeys]; exact hother), lookup_erase, if_neg]
    rintro rfl
    have hnodup := Std.ExtTreeMap.nodup_keys (t := attributes)
    rw [hfront] at hnodup
    exact (List.nodup_append.1 hnodup).2.2 key (List.mem_of_mem_take hother) key
      List.mem_cons_self rfl
  | case3 attributes hsize =>
    rw [dropExcess_small (Nat.le_of_not_lt hsize)]
    refine ⟨(List.take_of_length_le ?_).symm, fun key hkey => rfl⟩
    rw [Std.ExtTreeMap.length_keys]
    exact Nat.le_of_not_lt hsize

theorem size_dropExcess (attributes : Std.ExtTreeMap String String compare) :
    (dropExcess attributes).size ≤ maxObservationAttributes := by
  rw [← Std.ExtTreeMap.length_keys, (keys_dropExcess attributes).1]
  exact List.length_take_le _ _

theorem lookup_dropExcess {attributes : Std.ExtTreeMap String String compare} {key value : String} :
    (dropExcess attributes)[key]? = some value ↔
      key ∈ attributes.keys.take maxObservationAttributes ∧ attributes[key]? = some value := by
  have hkept := keys_dropExcess attributes
  rw [← hkept.1]
  constructor
  · intro h
    have hmem : key ∈ (dropExcess attributes).keys := by
      rw [Std.ExtTreeMap.mem_keys, Std.ExtTreeMap.mem_iff_isSome_getElem?, h]
      rfl
    exact ⟨hmem, hkept.2 key hmem ▸ h⟩
  · intro h
    rw [hkept.2 key h.1, h.2]

/-! ## Events that are redacted again -/

/-- A text of the event that is kept is cut off in a value. -/
def ObservationEvent.CutInValue (event : ObservationEvent) : Prop :=
  Redaction.CutInValue event.name.toList maxObservationNameBytes ∨
    (∃ trace ∈ event.traceId, Redaction.CutInValue trace.toList maxObservationTraceBytes) ∨
    ∃ key ∈ event.attributes.keys.take maxObservationAttributes, ∃ value,
      event.attributes[key]? = some value ∧ isSensitiveKey key = false ∧
        Redaction.CutInValue value.toList maxObservationValueBytes

theorem redactAttribute_again_iff (key value : String) :
    redactAttribute key (redactAttribute key value) = redactAttribute key value ↔
      ¬ (isSensitiveKey key = false ∧
        Redaction.CutInValue value.toList maxObservationValueBytes) := by
  unfold redactAttribute
  by_cases hkey : isSensitiveKey key = true
  · rw [if_pos hkey, hkey]
    simp
  · rw [if_neg hkey, if_neg hkey, redactString_again_iff]
    rw [Bool.not_eq_true] at hkey
    rw [hkey]
    simp

theorem redactAttribute_third (key value : String) :
    redactAttribute key (redactAttribute key (redactAttribute key value)) =
      redactAttribute key (redactAttribute key value) := by
  unfold redactAttribute
  by_cases hkey : isSensitiveKey key = true
  · simp only [if_pos hkey]
  · rw [if_neg hkey, if_neg hkey, if_neg hkey, redactString_third]

namespace ObservationEvent

variable (event : ObservationEvent)

theorem redacted_kind : event.redacted.kind = event.kind := rfl

theorem redacted_severity : event.redacted.severity = event.severity := rfl

theorem redacted_timestampMs : event.redacted.timestampMs = event.timestampMs := rfl

theorem redacted_name :
    event.redacted.name = redactString event.name maxObservationNameBytes := rfl

theorem redacted_traceId : event.redacted.traceId =
    event.traceId.map fun value => redactString value maxObservationTraceBytes := rfl

theorem redacted_attributes :
    event.redacted.attributes = (dropExcess event.attributes).map redactAttribute := rfl

theorem dropExcess_redacted : dropExcess event.redacted.attributes = event.redacted.attributes := by
  refine dropExcess_small ?_
  rw [redacted_attributes, Std.ExtTreeMap.size_map]
  exact size_dropExcess _

theorem attributes_redacted_redacted :
    event.redacted.redacted.attributes =
      (dropExcess event.attributes).map fun key value =>
        redactAttribute key (redactAttribute key value) := by
  rw [redacted_attributes, dropExcess_redacted, redacted_attributes, Std.ExtTreeMap.map_map]

theorem redacted_third : event.redacted.redacted.redacted = event.redacted.redacted := by
  have htrace : event.redacted.redacted.redacted.traceId = event.redacted.redacted.traceId := by
    simp only [redacted_traceId, Option.map_map]
    refine congrArg (event.traceId.map ·) (funext fun trace => ?_)
    exact redactString_third trace maxObservationTraceBytes
  have hattributes : event.redacted.redacted.redacted.attributes =
      event.redacted.redacted.attributes := by
    rw [attributes_redacted_redacted event.redacted, attributes_redacted_redacted,
      dropExcess_redacted, redacted_attributes, Std.ExtTreeMap.map_map]
    simp only [redactAttribute_third]
  have hname : event.redacted.redacted.redacted.name = event.redacted.redacted.name := by
    simp only [redacted_name, redactString_third]
  exact ObservationEvent.ext (by simp only [redacted_kind]) (by simp only [redacted_severity]) hname
    (by simp only [redacted_timestampMs]) htrace hattributes

theorem attributes_again_iff :
    event.redacted.redacted.attributes = event.redacted.attributes ↔
      ∀ key ∈ event.attributes.keys.take maxObservationAttributes, ∀ value,
        event.attributes[key]? = some value →
          redactAttribute key (redactAttribute key value) = redactAttribute key value := by
  rw [attributes_redacted_redacted, redacted_attributes]
  constructor
  · intro h key hkey value hvalue
    have hkept := lookup_dropExcess.2 ⟨hkey, hvalue⟩
    have hlookup := congrArg (fun map : Std.ExtTreeMap String String compare => map[key]?) h
    simp only [Std.ExtTreeMap.getElem?_map, hkept, Option.map_some, Option.some.injEq] at hlookup
    exact hlookup
  · intro h
    apply Std.ExtTreeMap.ext_getElem?
    intro key
    rw [Std.ExtTreeMap.getElem?_map, Std.ExtTreeMap.getElem?_map]
    cases hkept : (dropExcess event.attributes)[key]? with
    | none => rw [Option.map_none, Option.map_none]
    | some value =>
      obtain ⟨hkey, hvalue⟩ := lookup_dropExcess.1 hkept
      rw [Option.map_some, Option.map_some, h key hkey value hvalue]

/-- **When an event is redacted once and for all.** -/
theorem redacted_redacted_iff : event.redacted.redacted = event.redacted ↔ ¬ event.CutInValue := by
  have htrace : event.redacted.redacted.traceId = event.redacted.traceId ↔
      ¬ ∃ trace ∈ event.traceId, Redaction.CutInValue trace.toList maxObservationTraceBytes := by
    rw [redacted_traceId, redacted_traceId]
    cases event.traceId with
    | none => simp
    | some trace =>
      simp only [Option.map_some, Option.some.injEq, Option.mem_def, exists_eq_left']
      exact redactString_again_iff trace maxObservationTraceBytes
  have hattributes : event.redacted.redacted.attributes = event.redacted.attributes ↔
      ¬ ∃ key ∈ event.attributes.keys.take maxObservationAttributes, ∃ value,
        event.attributes[key]? = some value ∧ isSensitiveKey key = false ∧
          Redaction.CutInValue value.toList maxObservationValueBytes := by
    rw [attributes_again_iff]
    simp only [redactAttribute_again_iff, not_exists, not_and]
  have hname : event.redacted.redacted.name = event.redacted.name ↔
      ¬ Redaction.CutInValue event.name.toList maxObservationNameBytes := by
    rw [redacted_name, redacted_name]
    exact redactString_again_iff event.name maxObservationNameBytes
  rw [ObservationEvent.CutInValue, not_or, not_or, ← htrace, ← hattributes, ← hname,
    ObservationEvent.ext_iff]
  constructor
  · intro h
    exact ⟨h.2.2.1, h.2.2.2.2.1, h.2.2.2.2.2⟩
  · intro h
    exact ⟨redacted_kind _, redacted_severity _, h.1, redacted_timestampMs _, h.2.1, h.2.2⟩

end ObservationEvent

/-! ## One event in all sinks -/

/-- The sink records an event that it is given. -/
def Sink.Takes : Sink → Prop
  | .memory _ _ _ => True
  | .file capacity queue _ => ∃ commands ∈ queue, commands.length < capacity

/-- What a sink and its drains record of an event is one event. -/
def OneText (sink : Sink) (event : ObservationEvent) : Prop :=
  ∀ first ∈ (sink.emit event).2, ∀ second ∈ (sink.emit event).2, first = second

theorem emitAll_eq (sinks : List Sink) (event : ObservationEvent) :
    (emitAll sinks event).2 = sinks.flatMap fun sink => (sink.emit event).2 := by
  induction sinks with
  | nil => rfl
  | cons sink sinks ih => rw [emitAll, List.flatMap_cons, ← ih]

theorem Sink.takes_iff (sink : Sink) (event : ObservationEvent) :
    sink.Takes ↔ (sink.emit event).2 ≠ [] := by
  cases sink with
  | memory capacity events drains =>
    rw [Sink.emit]
    exact iff_of_true trivial (List.cons_ne_nil _ _)
  | file capacity queue dropped =>
    cases queue with
    | none => simp [Sink.Takes, Sink.emit]
    | some queue =>
      by_cases hroom : queue.length < capacity
      · simp [Sink.Takes, Sink.emit, hroom]
      · simp [Sink.Takes, Sink.emit, hroom]

/-- What a sink records of an event whose redaction is settled. -/
theorem Sink.emit_settled (sink : Sink) {event : ObservationEvent}
    (h : event.redacted.redacted = event.redacted) :
    ∀ recorded ∈ (sink.emit event).2, recorded = event.redacted := by
  induction hsize : sizeOf sink using Nat.strong_induction_on generalizing sink event with
  | _ size ih =>
    intro recorded hrecorded
    cases sink with
    | memory capacity events drains =>
      rw [Sink.emit] at hrecorded
      dsimp only at hrecorded
      rw [emitAll_eq, List.mem_cons, List.mem_flatMap] at hrecorded
      rcases hrecorded with rfl | ⟨drain, hdrain, hmem⟩
      · rfl
      · have hdepth : sizeOf drain < size := by
          rw [← hsize, Sink.memory.sizeOf_spec]
          have hlist := List.sizeOf_lt_of_mem hdrain
          omega
        rw [ih (sizeOf drain) hdepth drain event.redacted_third rfl recorded hmem, h]
    | file capacity queue dropped =>
      cases queue with
      | none => simp [Sink.emit] at hrecorded
      | some queue =>
        by_cases hroom : queue.length < capacity
        · simpa [Sink.emit, hroom] using hrecorded
        · simp [Sink.emit, hroom] at hrecorded

/-- **When a sink and its drains record one event.** -/
theorem oneText_iff (capacity : Nat) (events : List ObservationEvent) (drains : List Sink)
    (event : ObservationEvent) :
    OneText (.memory capacity events drains) event ↔
      ¬ ((∃ drain ∈ drains, drain.Takes) ∧ event.CutInValue) := by
  have hrecorded : ((Sink.memory capacity events drains).emit event).2 =
      event.redacted :: drains.flatMap fun drain => (drain.emit event.redacted).2 := by
    rw [← emitAll_eq, Sink.emit]
  -- What a drain records was redacted twice, or more often, which is the same.
  have hdrain {drain : Sink} {recorded : ObservationEvent}
      (h : recorded ∈ (drain.emit event.redacted).2) : recorded = event.redacted.redacted :=
    drain.emit_settled event.redacted_third recorded h
  rw [OneText, hrecorded]
  constructor
  · rintro hone ⟨⟨drain, hmem, htakes⟩, hcut⟩
    obtain ⟨recorded, hlast⟩ :=
      List.exists_mem_of_ne_nil _ ((drain.takes_iff event.redacted).1 htakes)
    have hsame := hone recorded
      (List.mem_cons_of_mem _ (List.mem_flatMap.2 ⟨drain, hmem, hlast⟩)) _ List.mem_cons_self
    rw [hdrain hlast] at hsame
    exact event.redacted_redacted_iff.1 hsame hcut
  · intro h
    have hall : ∀ recorded ∈ event.redacted ::
        drains.flatMap fun drain => (drain.emit event.redacted).2, recorded = event.redacted := by
      intro recorded hmem
      rcases List.mem_cons.1 hmem with rfl | hmem
      · rfl
      · obtain ⟨drain, hdrains, hlast⟩ := List.mem_flatMap.1 hmem
        have htakes := (drain.takes_iff event.redacted).2 (List.ne_nil_of_mem hlast)
        rw [hdrain hlast]
        exact event.redacted_redacted_iff.2 fun hcut => h ⟨⟨drain, hdrains, htakes⟩, hcut⟩
    intro first hfirst second hsecond
    rw [hall first hfirst, hall second hsecond]

end AppCore.Observations
