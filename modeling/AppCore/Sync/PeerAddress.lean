import AppCore.Transport.Target

/-!
# The address of a peer

`discovery.rs` reads the address of a peer and writes it as a URL, with brackets around a host that
has a colon in it. `transport.rs` writes its own URL from the same host and port, without them, and
hands it to the parser of targets.

* `one_host_iff` — the three readings of an address agree exactly when its host has no colon.
-/

namespace AppCore.Sync

open Transport

inductive SyncPeerScheme where
  | http
  | https
  deriving DecidableEq, Repr

def SyncPeerScheme.asStr : SyncPeerScheme → String
  | http => "http"
  | https => "https"

def SyncPeerScheme.transport : SyncPeerScheme → HttpScheme
  | http => .http
  | https => .https

/-- `SyncError`, with the variants that an address is refused with. -/
inductive PeerAddressError where
  | invalidPeerAddress
  | unsupportedPeerScheme
  deriving DecidableEq, Repr

structure SyncPeerAddress where
  url : String
  host : String
  port : UInt16
  scheme : SyncPeerScheme
  deriving DecidableEq, Repr

def splitScheme (peer : List Char) : Except PeerAddressError (SyncPeerScheme × List Char) :=
  let peer := (trim peer).rdropWhile (· == '/')
  match peer.dropPrefix? "http://".toList with
  | some address => .ok (.http, address)
  | none =>
    match peer.dropPrefix? "https://".toList with
    | some address => .ok (.https, address)
    | none =>
      if "://".toList <:+: peer then .error .unsupportedPeerScheme else .ok (.http, peer)

/-- `parse_port`. -/
def parsePeerPort (raw : List Char) : Except PeerAddressError UInt16 :=
  match parseU16 raw with
  | some port => .ok port
  | none => .error .invalidPeerAddress

def parseBracketedIpv6 (peer : List Char) :
    Except PeerAddressError (Option (List Char × UInt16)) :=
  match peer with
  | '[' :: rest =>
    match splitOnce ']' rest with
    | some (host, ':' :: port) => do
        let port ← parsePeerPort port
        .ok (some (host, port))
    | _ => .error .invalidPeerAddress
  | _ => .ok none

def parsePlainHostPort (peer : List Char) (defaultPort : Option UInt16) :
    Except PeerAddressError (List Char × UInt16) :=
  match rsplitOnce ':' peer, defaultPort with
  | some (host, last), _ =>
    if host.isEmpty then .error .invalidPeerAddress
    else do
      let port ← parsePeerPort last
      .ok (host, port)
  | none, some port => .ok (peer, port)
  | none, none => .error .invalidPeerAddress

def parsePeerSeed (peer : List Char) (defaultPort : Option UInt16) :
    Except PeerAddressError (SyncPeerScheme × List Char × UInt16) := do
  let (scheme, address) ← splitScheme peer
  if address.isEmpty then .error .invalidPeerAddress
  else
    match ← parseBracketedIpv6 address with
    | some (host, port) => .ok (scheme, host, port)
    | none => do
        let (host, port) ← parsePlainHostPort address defaultPort
        .ok (scheme, host, port)

namespace SyncPeerAddress

def fromHostPort (host : String) (port : UInt16) (scheme : SyncPeerScheme) : SyncPeerAddress :=
  let portText := String.ofList (decimal port.toNat)
  let url :=
    if host.toList.contains ':' then scheme.asStr ++ "://[" ++ host ++ "]:" ++ portText
    else scheme.asStr ++ "://" ++ host ++ ":" ++ portText
  ⟨url, host, port, scheme⟩

def parse (peer : String) : Except PeerAddressError SyncPeerAddress := do
  let (scheme, host, port) ← parsePeerSeed peer.toList none
  .ok (fromHostPort (String.ofList host) port scheme)

end SyncPeerAddress

/-- `HttpSyncTransport`, with the endpoint that it is configured with. -/
structure HttpSyncTransport where
  host : String
  port : UInt16
  scheme : SyncPeerScheme
  deriving DecidableEq, Repr

def HttpSyncTransport.baseUrl (transport : HttpSyncTransport) : String :=
  transport.scheme.asStr ++ "://" ++ transport.host ++ ":" ++
    String.ofList (decimal transport.port.toNat)

/-- The target of `HttpSyncTransport::post_sync_events`. -/
def HttpSyncTransport.target (transport : HttpSyncTransport) : Except InvalidRequest HttpTarget :=
  HttpTarget.parse transport.baseUrl "/v1/sync/events"

/-! ## The URL of an address -/

/-- The authority in the URL of an address. -/
def urlAuthority (host : List Char) (port : UInt16) : List Char :=
  if ':' ∈ host then '[' :: host ++ ']' :: ':' :: decimal port.toNat else hostPort host port

theorem toList_url (host : String) (port : UInt16) (scheme : SyncPeerScheme) :
    (SyncPeerAddress.fromHostPort host port scheme).url.toList =
      scheme.transport.text.toList ++ urlAuthority host.toList port := by
  cases scheme with
  | http =>
    simp only [SyncPeerAddress.fromHostPort, urlAuthority, List.contains_iff_mem]
    split_ifs <;> simp [SyncPeerScheme.asStr, SyncPeerScheme.transport, HttpScheme.text, hostPort]
  | https =>
    simp only [SyncPeerAddress.fromHostPort, urlAuthority, List.contains_iff_mem]
    split_ifs <;> simp [SyncPeerScheme.asStr, SyncPeerScheme.transport, HttpScheme.text, hostPort]

theorem urlAuthority_ends (host : List Char) (port : UInt16) :
    ∃ front, urlAuthority host port = front ++ decimal port.toNat := by
  unfold urlAuthority
  split_ifs
  · exact ⟨'[' :: host ++ [']', ':'], by simp⟩
  · exact ⟨host ++ [':'], by simp [hostPort]⟩

theorem splitScheme_url (scheme : SyncPeerScheme) (host : List Char) (port : UInt16) :
    splitScheme (scheme.transport.text.toList ++ urlAuthority host port) =
      .ok (scheme, urlAuthority host port) := by
  obtain ⟨front, hfront⟩ := urlAuthority_ends host port
  obtain ⟨last, hlast, hdigit⟩ :=
    getLast?_append_decimal (scheme.transport.text.toList ++ front) port.toNat
  rw [List.append_assoc, ← hfront] at hlast
  have hhead : (scheme.transport.text.toList ++ urlAuthority host port).head? = some 'h' := by
    cases scheme <;> rfl
  have hslash : (last == '/') = false := by
    rw [beq_eq_false_iff_ne]
    rintro rfl
    cases hdigit
  have htrim : (trim (scheme.transport.text.toList ++ urlAuthority host port)).rdropWhile
      (· == '/') = scheme.transport.text.toList ++ urlAuthority host port := by
    rw [trim_eq_self hhead hlast (by decide) (isWhitespace_of_isDigit hdigit)]
    exact rdropWhile_eq_self hlast hslash
  rw [splitScheme, htrim]
  cases scheme with
  | http =>
    rw [SyncPeerScheme.transport, HttpScheme.text, List.dropPrefix?_append_of_beq _ (by simp)]
  | https =>
    have hhttp : ("https://".toList ++ urlAuthority host port).dropPrefix? "http://".toList =
      none := rfl
    rw [SyncPeerScheme.transport, HttpScheme.text, hhttp,
      List.dropPrefix?_append_of_beq _ (by simp)]

theorem parsePeerPort_decimal (port : UInt16) : parsePeerPort (decimal port.toNat) = .ok port := by
  rw [parsePeerPort, parseU16_decimal]

theorem parseBracketedIpv6_none {host : List Char} (hne : host ≠ [])
    (h : ∀ c ∈ host, IsHostChar c) (rest : List Char) :
    parseBracketedIpv6 (host ++ rest) = .ok none := by
  cases host with
  | nil => exact absurd rfl hne
  | cons c host =>
    have hc : c ≠ '[' := (h c List.mem_cons_self).2.1
    unfold parseBracketedIpv6
    split
    · next tail heq => exact absurd (List.head_eq_of_cons_eq heq) hc
    · rfl

/-- What the parser finds in the URL of an address. -/
theorem parsePeerSeed_url {host : List Char} (hne : host ≠ []) (h : ∀ c ∈ host, IsHostChar c)
    (port : UInt16) (scheme : SyncPeerScheme) (default : Option UInt16) :
    parsePeerSeed (scheme.transport.text.toList ++ urlAuthority host port) default =
      .ok (scheme, host, port) := by
  have hclose : ']' ∉ host := fun hmem => (h ']' hmem).2.2.1 rfl
  have hdigits : ':' ∉ decimal port.toNat := not_mem_decimal (by decide) _
  rw [parsePeerSeed, splitScheme_url, ok_bind]
  unfold urlAuthority
  split_ifs with hcolon
  · simp only [List.cons_append, List.isEmpty_cons, Bool.false_eq_true, if_false,
      parseBracketedIpv6, splitOnce_append hclose, parsePeerPort_decimal, ok_bind]
  · have hsome : (hostPort host port).isEmpty = false := by simp [hostPort]
    have hhost : host.isEmpty = false := List.isEmpty_eq_false_iff.2 hne
    simp only [hsome, Bool.false_eq_true, if_false]
    rw [hostPort, parseBracketedIpv6_none hne h, ok_bind]
    simp only [parsePlainHostPort, rsplitOnce_append hdigits, hhost, Bool.false_eq_true, if_false,
      parsePeerPort_decimal, ok_bind]

/-- The URL of an address is read back as the address. -/
theorem parse_url {host : String} (hne : host.toList ≠ []) (h : ∀ c ∈ host.toList, IsHostChar c)
    (port : UInt16) (scheme : SyncPeerScheme) :
    SyncPeerAddress.parse (SyncPeerAddress.fromHostPort host port scheme).url =
      .ok (SyncPeerAddress.fromHostPort host port scheme) := by
  rw [SyncPeerAddress.parse, toList_url, parsePeerSeed_url hne h, ok_bind]
  simp only [String.ofList_toList]

theorem eq_fromHostPort_of_parse {peer : String} {a : SyncPeerAddress}
    (h : SyncPeerAddress.parse peer = .ok a) :
    a = SyncPeerAddress.fromHostPort a.host a.port a.scheme := by
  obtain ⟨⟨scheme, host, port⟩, -, heq⟩ := bind_eq_ok.1 h
  cases heq
  rfl

/-! ## One host everywhere -/

/-- A target with the scheme, the host and the port of an address. -/
def SyncPeerAddress.IsTargetOf (a : SyncPeerAddress) (target : HttpTarget) : Prop :=
  target.scheme = a.scheme.transport ∧ target.host = a.host ∧ target.port = a.port

/-- The three readings of an address: its own URL, the target of the URL, and the target of the
transport that it configures. -/
def MeansOneHost (a : SyncPeerAddress) (path : String) : Prop :=
  SyncPeerAddress.parse a.url = .ok a ∧
    (∃ target, HttpTarget.parse a.url path = .ok target ∧ a.IsTargetOf target) ∧
    ∃ target, HttpSyncTransport.target ⟨a.host, a.port, a.scheme⟩ = .ok target ∧
      a.IsTargetOf target

/-- A letter, a digit, a dot, a dash or a colon. -/
def isNameChar (c : Char) : Bool := c.isAlphanum || c == '.' || c == '-' || c == ':'

theorem toNat_of_isNameChar {c : Char} (h : isNameChar c = true) :
    45 ≤ c.toNat ∧ c.toNat ≤ 122 := by
  have hle {a b : Char} (hab : a ≤ b) : a.toNat ≤ b.toNat := UInt32.le_iff_toNat_le.1 hab
  simp only [isNameChar, Char.isAlphanum, Char.isAlpha, Char.isUpper, Char.isLower, Char.isDigit,
    Bool.or_eq_true, Bool.and_eq_true, decide_eq_true_eq, beq_iff_eq] at h
  rcases h with (((((h | h) | h) | rfl) | rfl) | rfl)
  · have hfirst : 65 ≤ c.toNat := hle h.1
    have hlast : c.toNat ≤ 90 := hle h.2
    omega
  · have hfirst : 97 ≤ c.toNat := hle h.1
    have hlast : c.toNat ≤ 122 := hle h.2
    omega
  · have hfirst : 48 ≤ c.toNat := hle h.1
    have hlast : c.toNat ≤ 57 := hle h.2
    omega
  · decide
  · decide
  · decide

theorem isHostChar_of_isNameChar {c : Char} (h : isNameChar c = true) : IsHostChar c := by
  have hother {d : Char} (hd : isNameChar d = false) : c ≠ d := by
    rintro rfl
    rw [h] at hd
    cases hd
  obtain ⟨hfirst, hlast⟩ := toNat_of_isNameChar h
  refine ⟨hother (by decide), hother (by decide), hother (by decide), ?_, ?_⟩
  · simp only [isControl, Bool.or_eq_false_iff, Bool.and_eq_false_iff, decide_eq_false_iff_not]
    omega
  · simp only [isWhitespace, Bool.or_eq_false_iff, Bool.and_eq_false_iff, decide_eq_false_iff_not,
      beq_eq_false_iff_ne]
    omega

section

variable {host : String} {port : UInt16} {scheme : SyncPeerScheme} {path : String}

theorem slash_not_mem_urlAuthority (h : ∀ c ∈ host.toList, IsHostChar c) :
    '/' ∉ urlAuthority host.toList port := by
  have hplain := slash_not_mem_hostPort h port
  unfold urlAuthority
  split_ifs
  · rw [hostPort, List.mem_append, List.mem_cons, not_or, not_or] at hplain
    simp only [List.cons_append, List.mem_cons, List.mem_append, not_or]
    exact ⟨by decide, hplain.1, by decide, by decide, hplain.2.2⟩
  · exact hplain

theorem parseAuthority_url (hne : host.toList ≠ []) (h : ∀ c ∈ host.toList, IsHostChar c) :
    parseAuthority (urlAuthority host.toList port) scheme.transport =
      .ok (host.toList, port) := by
  unfold urlAuthority
  split_ifs with hcolon
  · exact parseAuthority_bracketed h
  · exact parseAuthority_plain hne h hcolon

theorem host_checks (hne : host.toList ≠ []) (h : ∀ c ∈ host.toList, IsHostChar c) :
    host.toList.isEmpty = false ∧ host.toList.any isControl = false :=
  ⟨List.isEmpty_eq_false_iff.2 hne, List.any_eq_false.2 fun c hc => by simp [(h c hc).2.2.2.1]⟩

/-- The URL of an address is a target of the address, for every path that can be requested. -/
theorem target_url_iff (hne : host.toList ≠ []) (h : ∀ c ∈ host.toList, IsHostChar c) :
    (∃ target, HttpTarget.parse (SyncPeerAddress.fromHostPort host port scheme).url path =
      .ok target ∧ (SyncPeerAddress.fromHostPort host port scheme).IsTargetOf target) ↔
      path.toList.any isControl = false := by
  have hurl : (SyncPeerAddress.fromHostPort host port scheme).url =
      String.ofList (scheme.transport.text.toList ++ urlAuthority host.toList port) := by
    rw [← toList_url, String.ofList_toList]
  obtain ⟨hsome, hcontrol⟩ := host_checks hne h
  rw [hurl, HttpTarget.parse_authority (slash_not_mem_urlAuthority h), parseAuthority_url hne h,
    ok_bind]
  simp only [hsome, hcontrol, Bool.false_or, String.ofList_toList]
  constructor
  · rintro ⟨target, hparse, -⟩
    split_ifs at hparse with hpath
    exact Bool.eq_false_iff.2 hpath
  · intro hpath
    rw [hpath]
    exact ⟨_, rfl, rfl, rfl, rfl⟩

theorem toList_baseUrl (host : String) (port : UInt16) (scheme : SyncPeerScheme) :
    HttpSyncTransport.baseUrl ⟨host, port, scheme⟩ =
      String.ofList (scheme.transport.text.toList ++ hostPort host.toList port) := by
  refine String.toList_injective ?_
  cases scheme with
  | http =>
    simp [HttpSyncTransport.baseUrl, SyncPeerScheme.asStr, SyncPeerScheme.transport,
      HttpScheme.text, hostPort]
  | https =>
    simp [HttpSyncTransport.baseUrl, SyncPeerScheme.asStr, SyncPeerScheme.transport,
      HttpScheme.text, hostPort]

/-- The URL of the transport is one exactly when the host has no colon. -/
theorem target_transport_iff (hne : host.toList ≠ []) (h : ∀ c ∈ host.toList, IsHostChar c) :
    (∃ target, HttpSyncTransport.target ⟨host, port, scheme⟩ = .ok target ∧
      (SyncPeerAddress.fromHostPort host port scheme).IsTargetOf target) ↔
      ':' ∉ host.toList := by
  obtain ⟨hsome, hcontrol⟩ := host_checks hne h
  have hpath : "/v1/sync/events".toList.any isControl = false := by decide
  rw [HttpSyncTransport.target, toList_baseUrl,
    HttpTarget.parse_authority (slash_not_mem_hostPort h port)]
  constructor
  · rintro ⟨target, hparse, -⟩ hcolon
    rw [parseAuthority_colons hne h hcolon] at hparse
    cases hparse
  · intro hcolon
    rw [parseAuthority_plain hne h hcolon, ok_bind]
    simp only [hsome, hcontrol, hpath, Bool.or_self, Bool.false_eq_true, if_false,
      String.ofList_toList]
    exact ⟨_, rfl, rfl, rfl, rfl⟩

end

/-- An address means one host everywhere exactly when its host has no colon, for every path without
control characters, which no target takes. -/
theorem one_host_iff {peer : String} {a : SyncPeerAddress} (path : String)
    (hparse : SyncPeerAddress.parse peer = .ok a) (hne : a.host ≠ "")
    (hhost : ∀ c ∈ a.host.toList, isNameChar c = true) :
    MeansOneHost a path ↔ ':' ∉ a.host.toList ∧ path.toList.any isControl = false := by
  have hchars : ∀ c ∈ a.host.toList, IsHostChar c := fun c hc =>
    isHostChar_of_isNameChar (hhost c hc)
  have hempty : a.host.toList ≠ [] := by simpa using hne
  have heq := eq_fromHostPort_of_parse hparse
  have hurl := parse_url hempty hchars a.port a.scheme
  have htarget := @target_url_iff a.host a.port a.scheme path hempty hchars
  have htransport := @target_transport_iff a.host a.port a.scheme hempty hchars
  rw [← heq] at hurl htarget htransport
  rw [MeansOneHost, htarget, htransport, and_iff_right hurl, and_comm]

theorem one_host_localhost :
    SyncPeerAddress.parse "http://localhost:8080" =
        .ok ⟨"http://localhost:8080", "localhost", 8080, .http⟩ ∧
      (MeansOneHost ⟨"http://localhost:8080", "localhost", 8080, .http⟩ "/v1/sync/events" ↔
        ':' ∉ "localhost".toList ∧ "/v1/sync/events".toList.any isControl = false) := by
  have hchars : ∀ c ∈ "localhost".toList, isNameChar c = true := List.all_eq_true.1 (by decide)
  have hurl : (SyncPeerAddress.fromHostPort "localhost" 8080 .http).url =
      "http://localhost:8080" := by
    refine String.toList_injective ?_
    rw [toList_url]
    decide
  have haddress : SyncPeerAddress.fromHostPort "localhost" 8080 .http =
      ⟨"http://localhost:8080", "localhost", 8080, .http⟩ := by
    rw [← hurl]
    rfl
  have hparse := parse_url (by decide) (fun c hc => isHostChar_of_isNameChar (hchars c hc)) 8080
    .http
  rw [haddress] at hparse
  exact ⟨hparse, one_host_iff "/v1/sync/events" hparse (by decide) hchars⟩

/-- The transport cannot be used with an IPv6 address. -/
theorem not_one_host_ipv6 :
    SyncPeerAddress.parse "http://[::1]:8080" = .ok ⟨"http://[::1]:8080", "::1", 8080, .http⟩ ∧
      (∀ c ∈ "::1".toList, isNameChar c = true) ∧
      ¬ MeansOneHost ⟨"http://[::1]:8080", "::1", 8080, .http⟩ "/v1/sync/events" := by
  have hchars : ∀ c ∈ "::1".toList, isNameChar c = true := List.all_eq_true.1 (by decide)
  have hurl : (SyncPeerAddress.fromHostPort "::1" 8080 .http).url = "http://[::1]:8080" := by
    refine String.toList_injective ?_
    rw [toList_url]
    decide
  have haddress : SyncPeerAddress.fromHostPort "::1" 8080 .http =
      ⟨"http://[::1]:8080", "::1", 8080, .http⟩ := by
    rw [← hurl]
    rfl
  have hparse := parse_url (by decide) (fun c hc => isHostChar_of_isNameChar (hchars c hc)) 8080
    .http
  rw [haddress] at hparse
  refine ⟨hparse, hchars, ?_⟩
  rintro ⟨-, -, target, htarget, -⟩
  have hrefused : HttpSyncTransport.target ⟨"::1", 8080, .http⟩ =
      .error ⟨"IPv6 hosts require brackets"⟩ := by decide
  rw [hrefused] at htarget
  cases htarget

end AppCore.Sync
