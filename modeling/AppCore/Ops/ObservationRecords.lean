import AppCore.Base.Json
import AppCore.Ops.ObservationEvents
import AppCore.Ops.ObservationFile

/-!
# Observations as records

The line of JSON that the sink of a file writes for an event (`VersionedObservation`). An event is
redacted when it is emitted, and rendered when it is written.
-/

namespace AppCore.Observations

open Json

/-! ## The document -/

/-- The name of a kind, in snake case. -/
def ObservationKind.text : ObservationKind → String
  | .lifecycle => "lifecycle"
  | .configuration => "configuration"
  | .health => "health"
  | .security => "security"
  | .storage => "storage"
  | .controlPlane => "control_plane"
  | .peerRpc => "peer_rpc"
  | .scheduler => "scheduler"
  | .sync => "sync"
  | .audit => "audit"
  | .diagnostic => "diagnostic"

def ObservationSeverity.text : ObservationSeverity → String
  | .debug => "debug"
  | .info => "info"
  | .warning => "warning"
  | .error => "error"

/-- A trace identity, if there is one. -/
def traceTokens : Option String → List Token
  | none => [.null]
  | some trace => [.str trace.toList]

def attributeTokens (entry : String × String) : List Token :=
  [.str entry.1.toList, .punct ':', .str entry.2.toList]

/-- The attributes, an object with their keys in order. -/
def attributesTokens (attributes : Std.ExtTreeMap String String compare) : List Token :=
  .punct '{' :: (commas (.punct ',') attributeTokens attributes.toList ++ [.punct '}'])

/-- The tokens of an event: its members in the order of the fields. -/
def eventTokens (event : ObservationEvent) : List Token :=
  .punct '{' ::
    memberTokens "kind" [.str event.kind.text.toList] ',' (
    memberTokens "severity" [.str event.severity.text.toList] ',' (
    memberTokens "name" [.str event.name.toList] ',' (
    memberTokens "timestamp_ms" [.num event.timestampMs.toNat] ',' (
    memberTokens "trace_id" (traceTokens event.traceId) ',' (
    memberTokens "attributes" (attributesTokens event.attributes) '}' [])))))

/-- `VersionedObservation`. -/
def versionedTokens (event : ObservationEvent) : List Token :=
  .punct '{' ::
    memberTokens "schema" [.str "appcore.observation.v1".toList] ',' (
    memberTokens "event" (eventTokens event) '}' [])

/-- What `serde_json::to_vec` writes for an event; it has no value that fails. -/
def renderObservation (event : ObservationEvent) : Except Observation.IoError Bytes :=
  .ok (utf8 ((versionedTokens event).flatMap Token.text))

/-- What a step is to the queue: `emit` redacts its event. -/
def queued : Observation.Step ObservationEvent → Observation.Step ObservationEvent
  | .emit event => .emit event.redacted
  | step => step

/-! ## Lines -/

theorem separated_attributes (attributes : Std.ExtTreeMap String String compare) :
    Separated (attributesTokens attributes) := by
  have hentry (entry : String × String) : Separated (attributeTokens entry) :=
    ⟨by decide, trivial⟩
  exact ⟨by decide, separated_append_punct (separated_commas hentry _) (by decide) trivial⟩

theorem separated_event (event : ObservationEvent) : Separated (eventTokens event) := by
  have hstr (t : List Char) : Separated [.str t] := trivial
  have hnum : Separated [.num event.timestampMs.toNat] := ⟨by simp, trivial⟩
  have htrace : Separated (traceTokens event.traceId) := by
    cases event.traceId <;> exact trivial
  have hcomma : isPunct ',' = true := by decide
  refine ⟨by decide, ?_⟩
  refine separated_memberTokens _ (hstr _) hcomma ?_
  refine separated_memberTokens _ (hstr _) hcomma ?_
  refine separated_memberTokens _ (hstr _) hcomma ?_
  refine separated_memberTokens _ hnum hcomma ?_
  refine separated_memberTokens _ htrace hcomma ?_
  exact separated_memberTokens _ (separated_attributes _) (by decide) trivial

theorem separated_versioned (event : ObservationEvent) : Separated (versionedTokens event) := by
  have hschema : Separated [.str "appcore.observation.v1".toList] := trivial
  refine ⟨by decide, separated_memberTokens _ hschema (by decide) ?_⟩
  exact separated_memberTokens _ (separated_event event) (by decide) trivial

theorem newline_notMem_observation (event : ObservationEvent) (text : Bytes)
    (h : renderObservation event = .ok text) : Observation.newline ∉ text := by
  cases h
  intro hmem
  exact (isLine_tokens (separated_versioned event)).1 (newline_mem_utf8.1 hmem)

/-- A record is longer than each key of its event. -/
theorem length_key_lt {event : ObservationEvent} {text : Bytes} {key : String}
    (h : renderObservation event = .ok text) (hkey : key ∈ event.attributes) :
    key.toList.length < text.length := by
  cases h
  obtain ⟨value, hvalue⟩ := Option.isSome_iff_exists.1 (Std.ExtTreeMap.mem_iff_isSome_getElem?.1 hkey)
  have hentry : (key, value) ∈ event.attributes.toList :=
    Std.ExtTreeMap.mem_toList_iff_getElem?_eq_some.2 hvalue
  have hattributes : Token.str key.toList ∈ attributesTokens event.attributes := by
    rw [attributesTokens, List.mem_cons, List.mem_append]
    exact .inr (.inl (mem_commas hentry List.mem_cons_self))
  have hmember {name : String} {value rest : List Token} {c : Char} {token : Token}
      (h : token ∈ value ∨ token ∈ rest) : token ∈ memberTokens name value c rest := by
    simp only [memberTokens, List.mem_cons, List.mem_append]
    rcases h with h | h
    · exact .inr (.inr (.inl h))
    · exact .inr (.inr (.inr (.inr h)))
  have hevent : Token.str key.toList ∈ eventTokens event := by
    refine List.mem_cons_of_mem _ ?_
    iterate 5 refine hmember (.inr ?_)
    exact hmember (.inl hattributes)
  have hversioned : Token.str key.toList ∈ versionedTokens event :=
    List.mem_cons_of_mem _ (hmember (.inr (hmember (.inl hevent))))
  calc key.toList.length < (Token.str key.toList).text.length := by
        have hlength := (length_str_text key.toList).1
        omega
    _ ≤ ((versionedTokens event).flatMap Token.text).length := length_text_le hversioned
    _ ≤ (utf8 ((versionedTokens event).flatMap Token.text)).length := (length_utf8 _).1

end AppCore.Observations
