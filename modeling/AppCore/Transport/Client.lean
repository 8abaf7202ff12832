import AppCore.Transport.Response

/-!
# Reading a response

`client.rs`: the bytes of a response are read from a stream up to a bound on all of them
(`readBounded`), and then parsed (`receive`). The parser bounds the headers and the body.

* `receive_eq_parse_iff` — for every way in which the stream splits a response, reading and parsing
  it gives what the parser gives, exactly when the response is not empty and within the bound on all
  bytes, or is one that the parser refuses for its size.
-/

namespace AppCore.Transport

structure HttpClientConfig where
  timeoutMs : UInt64
  maxRequestBytes : Nat
  maxResponseBytes : Nat
  maxHeaderBytes : Nat
  deriving DecidableEq, Repr

/-- What a round of `read_bounded` meets: whether the caller has cancelled, and what is read. -/
structure SocketRead where
  cancelled : Bool
  result : Except TransportError Bytes

def SocketRead.bytes (round : SocketRead) : Bytes :=
  match round.result with
  | .ok chunk => chunk
  | .error _ => []

def checkCancelled (cancelled : Bool) : Except TransportError Unit :=
  if cancelled then .error .cancelled else .ok ()

/-- The bound on all bytes of a response. -/
def HttpClientConfig.maxRaw (config : HttpClientConfig) : Nat :=
  usizeSaturatingAdd (usizeSaturatingAdd config.maxHeaderBytes config.maxResponseBytes) 1

/-- The loop of `read_bounded`; the stream ends behind the reads. -/
def readBoundedFrom (config : HttpClientConfig) :
    List SocketRead → Bytes → Except TransportError Bytes
  | [], raw => .ok raw
  | round :: rounds, raw =>
    match checkCancelled round.cancelled with
    | .error error => .error error
    | .ok () =>
      match round.result with
      | .error error => .error error
      | .ok chunk =>
        if chunk.length = 0 then .ok raw
        else if usizeSaturatingAdd raw.length chunk.length > config.maxRaw then
          .error (.responseTooLarge config.maxResponseBytes)
        else readBoundedFrom config rounds (raw ++ chunk)

def readBounded (config : HttpClientConfig) (rounds : List SocketRead) :
    Except TransportError Bytes :=
  match readBoundedFrom config rounds [] with
  | .error error => .error error
  | .ok raw => if raw.isEmpty then .error (.invalidResponse "empty response") else .ok raw

/-- The end of `exchange`: the response is read and parsed. -/
def receive [Gzip] (config : HttpClientConfig) (rounds : List SocketRead) : Outcome HttpResponse := do
  let raw ← Outcome.returned (readBounded config rounds)
  parseResponse raw config.maxHeaderBytes config.maxResponseBytes

/-- The reads of a stream that gives a response, in pieces of up to `8_192` bytes, without an error
and without being cancelled. -/
structure Splits (rounds : List SocketRead) (raw : Bytes) : Prop where
  running : ∀ round ∈ rounds, round.cancelled = false
  read : ∀ round ∈ rounds, ∃ chunk, round.result = .ok chunk ∧ chunk ≠ [] ∧ chunk.length ≤ 8192
  whole : rounds.flatMap SocketRead.bytes = raw

variable {rounds : List SocketRead}

theorem Splits.next {round : SocketRead} {raw : Bytes} (h : Splits (round :: rounds) raw) :
    ∃ chunk rest, round.cancelled = false ∧
      round.result = .ok chunk ∧ chunk.length ≠ 0 ∧ raw = chunk ++ rest ∧ Splits rounds rest := by
  obtain ⟨chunk, hread, hnonempty, -⟩ := h.read round List.mem_cons_self
  refine ⟨chunk, rounds.flatMap SocketRead.bytes, h.running round List.mem_cons_self, hread,
    fun hzero => hnonempty (List.length_eq_zero_iff.1 hzero), ?_, ?_⟩
  · rw [← h.whole, List.flatMap_cons, SocketRead.bytes, hread]
  · exact ⟨fun other hother => h.running other (List.mem_cons_of_mem _ hother),
      fun other hother => h.read other (List.mem_cons_of_mem _ hother), rfl⟩

/-- The rounds that are left. -/
theorem readBoundedFrom_splits {config : HttpClientConfig} {raw rest : Bytes}
    (h : Splits rounds rest) (hraw : raw.length ≤ config.maxRaw)
    (hsize : raw.length + rest.length ≤ usizeMax) :
    readBoundedFrom config rounds raw =
      if raw.length + rest.length ≤ config.maxRaw then .ok (raw ++ rest)
      else .error (.responseTooLarge config.maxResponseBytes) := by
  induction rounds generalizing raw rest with
  | nil =>
    have hrest : rest = [] := h.whole.symm
    rw [hrest, List.length_nil, Nat.add_zero, if_pos hraw, List.append_nil]
    rfl
  | cons round rounds ih =>
    obtain ⟨chunk, behind, hrunning, hread, hnonempty, rfl, hnext⟩ := h.next
    rw [List.length_append] at hsize ⊢
    rw [readBoundedFrom, hrunning, hread]
    dsimp only [checkCancelled]
    rw [if_neg Bool.false_ne_true]
    dsimp only
    rw [if_neg hnonempty]
    have hsum : usizeSaturatingAdd raw.length chunk.length = raw.length + chunk.length := by
      rw [usizeSaturatingAdd]
      omega
    rw [hsum]
    by_cases hfits : raw.length + chunk.length > config.maxRaw
    · have hlarge : ¬ raw.length + (chunk.length + behind.length) ≤ config.maxRaw := by omega
      rw [if_pos hfits, if_neg hlarge]
    · have hlength : (raw ++ chunk).length = raw.length + chunk.length := List.length_append
      rw [if_neg hfits, ih hnext (by omega) (by omega), hlength, List.append_assoc, Nat.add_assoc]

/-- **The bound on all bytes** is the only thing that `read_bounded` asks of a response. -/
theorem readBounded_splits {config : HttpClientConfig} {raw : Bytes} (h : Splits rounds raw)
    (hsize : raw.length ≤ isizeMax) :
    readBounded config rounds =
      if raw.length ≤ config.maxRaw then
        if raw = [] then .error (.invalidResponse "empty response") else .ok raw
      else .error (.responseTooLarge config.maxResponseBytes) := by
  have hsizes : isizeMax ≤ usizeMax := by decide
  have htotal : ([] : Bytes).length + raw.length = raw.length := Nat.zero_add _
  have hread : readBoundedFrom config rounds [] =
      if raw.length ≤ config.maxRaw then .ok raw
      else .error (.responseTooLarge config.maxResponseBytes) := by
    rw [readBoundedFrom_splits h (Nat.zero_le _) (by omega), htotal, List.nil_append]
  unfold readBounded
  rw [hread]
  by_cases hfits : raw.length ≤ config.maxRaw
  · rw [if_pos hfits, if_pos hfits]
    dsimp only
    cases raw with
    | nil => rfl
    | cons b raw => rfl
  · rw [if_neg hfits, if_neg hfits]

/-! ## The parser -/

section

variable [Gzip]

/-- What is inflated is too large. -/
def OversizedContent (headers : Headers) (body : Bytes) (maxBytes : Nat) : Prop :=
  headerIs headers "content-encoding" "gzip" = true ∧ maxBytes < usizeMax ∧
    maxBytes < (Gzip.inflate body).1.length

/-- What is transferred is too large, or what it inflates to. -/
def OversizedBody (headers : Headers) (encoded : Bytes) (maxBytes : Nat) : Prop :=
  if headerIs headers "transfer-encoding" "chunked" then
    decodeChunked encoded maxBytes = .err (.responseTooLarge maxBytes) ∨
      ∃ body, decodeChunked encoded maxBytes = .ok body ∧ OversizedContent headers body maxBytes
  else validateContentLength headers encoded = .ok () ∧
    (maxBytes < encoded.length ∨ OversizedContent headers encoded maxBytes)

/-- A response with headers that are good, and a body that is too large. -/
def Oversized (raw : Bytes) (maxHeaderBytes maxResponseBytes : Nat) : Prop :=
  ∃ headerEnd headerText statusCode headers, position (crlf ++ crlf) raw = some headerEnd ∧
    headerEnd ≤ maxHeaderBytes ∧ fromUtf8 (raw.take headerEnd) = some headerText ∧
    parseHeaders headerText = .ok (statusCode, headers) ∧
    OversizedBody headers (raw.drop (headerEnd + 4)) maxResponseBytes

variable {headers : Headers} {maxBytes : Nat}

theorem contentBody_eq_tooLarge_iff {body : Bytes} :
    contentBody headers body maxBytes = .error (.responseTooLarge maxBytes) ↔
      OversizedContent headers body maxBytes := by
  unfold contentBody OversizedContent
  by_cases hgzip : headerIs headers "content-encoding" "gzip" = true
  · rw [if_pos hgzip, and_iff_right hgzip]
    unfold decodeGzipLimited
    generalize Gzip.inflate body = inflation
    obtain ⟨inflated, failure⟩ := inflation
    dsimp only
    have hlength : (inflated.take (usizeSaturatingAdd maxBytes 1)).length =
        min (min (maxBytes + 1) usizeMax) inflated.length := List.length_take
    have hlarge : (inflated.take (usizeSaturatingAdd maxBytes 1)).length > maxBytes ↔
        maxBytes < usizeMax ∧ maxBytes < inflated.length := by
      rw [hlength]
      omega
    split
    next error hfailure =>
      refine iff_of_false (fun h => by cases h) fun h => ?_
      have hlimit : ¬ inflated.length < usizeSaturatingAdd maxBytes 1 := by
        rw [usizeSaturatingAdd]
        omega
      rw [if_neg hlimit] at hfailure
      cases hfailure
    next =>
      rw [← hlarge]
      split
      next htoo => exact iff_of_true rfl htoo
      next hfits => exact iff_of_false (fun h => by cases h) hfits
  · rw [if_neg hgzip]
    exact iff_of_false (fun h => by cases h) fun h => hgzip h.1

variable {error : TransportError}

omit [Gzip] in
theorem error_parseHeader {line : List Char} (h : parseHeader line = .error error) :
    ∃ reason, error = .invalidResponse reason := by
  unfold parseHeader at h
  split at h
  · cases h
    exact ⟨_, rfl⟩
  · cases h

omit [Gzip] in
theorem error_mapM {rest : List (List Char)} (h : rest.mapM parseHeader = .error error) :
    ∃ reason, error = .invalidResponse reason := by
  induction rest with
  | nil => cases h
  | cons line rest ih =>
    rw [List.mapM_cons] at h
    cases hline : parseHeader line with
    | error first =>
      rw [hline] at h
      cases h
      exact error_parseHeader hline
    | ok header =>
      rw [hline] at h
      cases hrest : rest.mapM parseHeader with
      | error first =>
        rw [hrest] at h
        cases h
        exact ih hrest
      | ok headers =>
        rw [hrest] at h
        cases h

omit [Gzip] in
/-- Bad headers are refused as an invalid response. -/
theorem error_parseHeaders {text : List Char} (h : parseHeaders text = .error error) :
    ∃ reason, error = .invalidResponse reason := by
  unfold parseHeaders at h
  split at h
  · cases h
    exact ⟨_, rfl⟩
  next statusLine rest _ =>
    split at h
    · cases h
      exact ⟨_, rfl⟩
    · split at h
      · cases h
        exact ⟨_, rfl⟩
      · cases hrest : rest.mapM parseHeader with
        | error first =>
          rw [hrest] at h
          cases h
          exact error_mapM hrest
        | ok headers =>
          rw [hrest] at h
          cases h

omit [Gzip] in
theorem validateContentLength_ne {encoded : Bytes} :
    validateContentLength headers encoded ≠ .error (.responseTooLarge maxBytes) := by
  unfold validateContentLength
  intro h
  split at h
  · cases h
  · split at h
    · cases h
    · split at h
      · cases h
      · split at h
        · cases h
        · cases h

/-- A body that is too large, as it comes or as it is inflated. -/
theorem decodedBody_eq_tooLarge_iff {encoded : Bytes} :
    decodedBody headers encoded maxBytes = .err (.responseTooLarge maxBytes) ↔
      OversizedBody headers encoded maxBytes := by
  have hcontent : ∀ body : Bytes, (Outcome.returned (contentBody headers body maxBytes) =
      .err (.responseTooLarge maxBytes)) ↔ OversizedContent headers body maxBytes := by
    intro body
    rw [← contentBody_eq_tooLarge_iff, Outcome.err, Outcome.returned.injEq]
  unfold decodedBody transferredBody OversizedBody
  by_cases hchunked : headerIs headers "transfer-encoding" "chunked" = true
  · rw [if_pos hchunked, if_pos hchunked]
    cases hdecoded : decodeChunked encoded maxBytes with
    | returned result =>
      cases result with
      | ok body =>
        refine (hcontent body).trans ⟨fun h => Or.inr ⟨body, rfl, h⟩, fun h => ?_⟩
        rcases h with h | h
        · cases h
        · obtain ⟨other, heq, h⟩ := h
          cases heq
          exact h
      | error error =>
        refine ⟨fun h => Or.inl h, fun h => ?_⟩
        rcases h with h | h
        · exact h
        · obtain ⟨other, heq, -⟩ := h
          cases heq
    | outside =>
      refine iff_of_false (fun h => by cases h) fun h => ?_
      rcases h with h | h
      · cases h
      · obtain ⟨other, heq, -⟩ := h
        cases heq
    | unfinished =>
      refine iff_of_false (fun h => by cases h) fun h => ?_
      rcases h with h | h
      · cases h
      · obtain ⟨other, heq, -⟩ := h
        cases heq
  · rw [if_neg hchunked, if_neg hchunked]
    cases hlength : validateContentLength headers encoded with
    | error error =>
      refine iff_of_false (fun h => ?_) fun h => by cases h.1
      cases h
      exact validateContentLength_ne hlength
    | ok u =>
      rw [and_iff_right rfl]
      dsimp only
      by_cases hlarge : encoded.length > maxBytes
      · rw [if_pos hlarge]
        exact iff_of_true rfl (Or.inl hlarge)
      · rw [if_neg hlarge]
        exact (hcontent encoded).trans ⟨Or.inr, fun h => h.resolve_left hlarge⟩

omit [Gzip] in
theorem bind_return_eq_err {outcome : Outcome Bytes} {make : Bytes → HttpResponse} :
    (do let body ← outcome; return make body : Outcome HttpResponse) = .err error ↔
      outcome = .err error := by
  cases outcome with
  | returned result =>
    cases result with
    | ok body => exact iff_of_false (fun h => by cases h) fun h => by cases h
    | error other =>
      constructor
      · intro h
        cases h
        rfl
      · intro h
        cases h
        rfl
  | outside => exact iff_of_false (fun h => by cases h) fun h => by cases h
  | unfinished => exact iff_of_false (fun h => by cases h) fun h => by cases h

/-- What the parser refuses for its size. -/
theorem parseResponse_eq_tooLarge_iff {raw : Bytes} {maxHeaderBytes maxResponseBytes : Nat} :
    parseResponse raw maxHeaderBytes maxResponseBytes = .err (.responseTooLarge maxResponseBytes) ↔
      Oversized raw maxHeaderBytes maxResponseBytes := by
  constructor
  · intro h
    unfold parseResponse at h
    split at h
    · cases h
    next headerEnd hend =>
      split at h
      · cases h
      next hheaders =>
        split at h
        · cases h
        next headerText htext =>
          split at h
          next error herror =>
            obtain ⟨reason, rfl⟩ := error_parseHeaders herror
            cases h
          next statusCode headers hparsed =>
            exact ⟨headerEnd, headerText, statusCode, headers, hend, Nat.le_of_not_lt hheaders, htext,
              hparsed, decodedBody_eq_tooLarge_iff.1 (bind_return_eq_err.1 h)⟩
  · intro h
    obtain ⟨headerEnd, headerText, statusCode, headers, hend, hheaders, htext, hparsed, hbody⟩ := h
    unfold parseResponse
    rw [hend]
    dsimp only
    rw [if_neg (Nat.not_lt.2 hheaders), htext]
    dsimp only
    rw [hparsed]
    exact bind_return_eq_err.2 (decodedBody_eq_tooLarge_iff.2 hbody)

/-- A response that the bound on all bytes does not come in the way of: it is not empty, and it is
within the bound, or is one that the parser refuses for its size. -/
def HttpClientConfig.Admits (config : HttpClientConfig) (raw : Bytes) : Prop :=
  raw ≠ [] ∧ (raw.length ≤ config.maxRaw ∨
    Oversized raw config.maxHeaderBytes config.maxResponseBytes)

theorem receive_splits {config : HttpClientConfig} {raw : Bytes} {rounds : List SocketRead}
    (hsplits : Splits rounds raw) (hsize : raw.length ≤ isizeMax) :
    receive config rounds =
      if raw.length ≤ config.maxRaw then
        if raw = [] then .err (.invalidResponse "empty response")
        else parseResponse raw config.maxHeaderBytes config.maxResponseBytes
      else .err (.responseTooLarge config.maxResponseBytes) := by
  unfold receive
  rw [readBounded_splits hsplits hsize]
  by_cases hfits : raw.length ≤ config.maxRaw
  · rw [if_pos hfits, if_pos hfits]
    by_cases hempty : raw = []
    · rw [if_pos hempty, if_pos hempty]
      rfl
    · rw [if_neg hempty, if_neg hempty]
      rfl
  · rw [if_neg hfits, if_neg hfits]
    rfl

theorem parseResponse_nil (maxHeaderBytes maxResponseBytes : Nat) :
    parseResponse [] maxHeaderBytes maxResponseBytes = .err (.invalidResponse "missing headers") :=
  rfl

/-- **When reading a response gives what the parser gives**, however the stream splits it; and a
response that the parser accepts is accepted exactly when all its bytes are within the bound. -/
theorem receive_eq_parse_iff (config : HttpClientConfig) (raw : Bytes) (rounds : List SocketRead)
    (hsplits : Splits rounds raw) (hsize : raw.length ≤ isizeMax) :
    (receive config rounds = parseResponse raw config.maxHeaderBytes config.maxResponseBytes ↔
      config.Admits raw) ∧
    ∀ response, parseResponse raw config.maxHeaderBytes config.maxResponseBytes = .ok response →
      (receive config rounds = .ok response ↔ raw.length ≤ config.maxRaw) := by
  rw [receive_splits hsplits hsize]
  by_cases hfits : raw.length ≤ config.maxRaw
  · rw [if_pos hfits]
    by_cases hempty : raw = []
    · rw [if_pos hempty, hempty, parseResponse_nil]
      have hreason : "empty response" ≠ "missing headers" := by decide
      refine ⟨iff_of_false (fun h => ?_) fun h => h.1 rfl, fun response h => by cases h⟩
      exact hreason (TransportError.invalidResponse.inj (Except.error.inj (Outcome.returned.inj h)))
    · rw [if_neg hempty]
      exact ⟨iff_of_true rfl ⟨hempty, Or.inl hfits⟩, fun response h => iff_of_true h hfits⟩
  · have hnonempty : raw ≠ [] := by
      rintro rfl
      exact hfits (Nat.zero_le _)
    rw [if_neg hfits]
    constructor
    · rw [eq_comm, parseResponse_eq_tooLarge_iff]
      exact ⟨fun h => ⟨hnonempty, Or.inr h⟩, fun h => h.2.resolve_left hfits⟩
    · exact fun response _ => iff_of_false (fun h => by cases h) hfits

end

/-! ### A response of its greatest size -/

/-- The head of a response. -/
def sampleHead : List Char := "HTTP/1.1 200 OK".toList

/-- A response with that head, and with a body of two bytes. -/
def sampleRaw : Bytes := utf8 sampleHead ++ (crlf ++ (crlf ++ [0x68, 0x69]))

/-- Limits on the headers and on the body of a response. -/
def limits (maxHeaderBytes maxResponseBytes : Nat) : HttpClientConfig :=
  { timeoutMs := 5000, maxRequestBytes := 1048576, maxResponseBytes, maxHeaderBytes }

/-- The response in two reads. -/
def sampleReads : List SocketRead :=
  [⟨false, .ok (utf8 sampleHead)⟩, ⟨false, .ok (crlf ++ (crlf ++ [0x68, 0x69]))⟩]

/-- No gzip body is read. -/
@[reducible] def noGzip : Gzip := ⟨fun _ => ([], some "invalid gzip header")⟩

theorem splits_sampleReads : Splits sampleReads sampleRaw := by
  have hreads : ∀ round ∈ sampleReads, round.cancelled = false ∧
      ∃ chunk, round.result = .ok chunk ∧ chunk ≠ [] ∧ chunk.length ≤ 8192 := by
    intro round h
    rcases List.mem_cons.1 h with rfl | h
    · exact ⟨rfl, _, rfl, by decide, by decide⟩
    · rw [List.mem_singleton.1 h]
      exact ⟨rfl, _, rfl, by decide, by decide⟩
  exact ⟨fun round h => (hreads round h).1, fun round h => (hreads round h).2, rfl⟩

theorem parseResponse_sample [Gzip] : parseResponse sampleRaw 15 2 =
    .ok { statusCode := 200, headers := [], body := [0x68, 0x69] } := by
  have hend : position (crlf ++ crlf) sampleRaw = some 15 := by decide
  have htext : fromUtf8 (sampleRaw.take 15) = some sampleHead := fromUtf8_utf8 sampleHead
  have hheaders : parseHeaders sampleHead = .ok (200, []) := by decide
  unfold parseResponse
  rw [hend]
  dsimp only
  rw [if_neg (Nat.lt_irrefl 15), htext]
  dsimp only
  rw [hheaders]
  rfl

/-- The head and the body are as large as they may be, and the response is refused for its size. -/
theorem receive_refuses_within_limits :
    (¬ ∀ (gzip : Gzip) (config : HttpClientConfig) (raw : Bytes) (rounds : List SocketRead),
      Splits rounds raw → raw.length ≤ isizeMax → @receive gzip config rounds =
        @parseResponse gzip raw config.maxHeaderBytes config.maxResponseBytes) ∧
    @receive noGzip (limits 15 2) sampleReads = .err (.responseTooLarge 2) ∧
    @parseResponse noGzip sampleRaw 15 2 =
      .ok { statusCode := 200, headers := [], body := [0x68, 0x69] } := by
  have hsize : sampleRaw.length ≤ isizeMax := by decide
  have hlarge : ¬ sampleRaw.length ≤ (limits 15 2).maxRaw := by decide
  have hrefused : @receive noGzip (limits 15 2) sampleReads = .err (.responseTooLarge 2) := by
    rw [@receive_splits noGzip _ _ _ splits_sampleReads hsize, if_neg hlarge]
    rfl
  have hparsed := @parseResponse_sample noGzip
  refine ⟨fun hclaim => ?_, hrefused, hparsed⟩
  have hsame : @receive noGzip (limits 15 2) sampleReads = @parseResponse noGzip sampleRaw 15 2 :=
    hclaim noGzip (limits 15 2) sampleRaw sampleReads splits_sampleReads hsize
  rw [hrefused, hparsed] at hsame
  cases hsame

/-- With more room for the headers it is read as it is parsed. -/
theorem receive_eq_parse_iff_sample :
    @receive noGzip (limits 64 2) sampleReads = @parseResponse noGzip sampleRaw 64 2 :=
  (@receive_eq_parse_iff noGzip (limits 64 2) sampleRaw sampleReads splits_sampleReads
    (by decide)).1.2 ⟨by decide, Or.inl (by decide)⟩

end AppCore.Transport
