import AppCore.Base.Cursor
import AppCore.Base.HostPort
import AppCore.Types.Ids

/-!
# The target of a request

`target.rs`: an endpoint, read from a base URL and a request path. The authority of the URL is a host
and a port; a host with a colon in it has to stand in brackets.

* `parseAuthority_plain`, `parseAuthority_bracketed` — a host without a colon, and one in brackets.
-/

namespace AppCore.Transport

inductive HttpScheme where
  | http
  | https
  deriving DecidableEq, Repr

def HttpScheme.defaultPort : HttpScheme → UInt16
  | http => 80
  | https => 443

/-- The scheme in front of an authority. -/
def HttpScheme.text : HttpScheme → String
  | http => "http://"
  | https => "https://"

structure InvalidRequest where
  reason : String
  deriving DecidableEq, Repr

structure HttpTarget where
  scheme : HttpScheme
  host : String
  port : UInt16
  path : String
  deriving DecidableEq, Repr

def parseScheme (baseUrl : List Char) : Except InvalidRequest (HttpScheme × List Char) :=
  match baseUrl.dropPrefix? "http://".toList with
  | some base => .ok (.http, base)
  | none =>
    match baseUrl.dropPrefix? "https://".toList with
    | some base => .ok (.https, base)
    | none => .error ⟨"URL must use http:// or https://"⟩

def parsePort (value : List Char) : Except InvalidRequest UInt16 :=
  match parseU16 value with
  | some port => .ok port
  | none => .error ⟨"invalid port"⟩

/-- `parse_authority`, of an authority in brackets. -/
def parseBracketed (rest : List Char) (scheme : HttpScheme) :
    Except InvalidRequest (List Char × UInt16) :=
  match splitOnce ']' rest with
  | none => .error ⟨"invalid IPv6 authority"⟩
  | some (host, []) => .ok (host, scheme.defaultPort)
  | some (host, ':' :: value) => do
      let port ← parsePort value
      .ok (host, port)
  | some _ => .error ⟨"invalid IPv6 authority"⟩

def parseAuthority (authority : List Char) (scheme : HttpScheme) :
    Except InvalidRequest (List Char × UInt16) :=
  match authority.dropPrefix? ['['] with
  | some rest => parseBracketed rest scheme
  | none =>
    if authority.count ':' > 1 then .error ⟨"IPv6 hosts require brackets"⟩
    else match rsplitOnce ':' authority with
      | some (host, value) => do
          let port ← parsePort value
          .ok (host, port)
      | none => .ok (authority, scheme.defaultPort)

def joinPaths (base path : List Char) : List Char :=
  let base := base.rdropWhile (· == '/')
  let path := path.dropWhile (· == '/')
  if base.isEmpty then '/' :: path
  else if path.isEmpty then base
  else base ++ '/' :: path

def HttpTarget.parse (baseUrl requestPath : String) : Except InvalidRequest HttpTarget := do
  let (scheme, base) ← parseScheme baseUrl.toList
  let (authority, basePath) := match splitOnce '/' base with
    | some (authority, path) => (authority, '/' :: path)
    | none => (base, [])
  let (host, port) ← parseAuthority authority scheme
  let path := joinPaths basePath requestPath.toList
  if host.isEmpty || host.any isControl || path.head? != some '/' || path.any isControl then
    .error ⟨"invalid HTTP target"⟩
  else .ok ⟨scheme, String.ofList host, port, String.ofList path⟩

/-! ## Authorities -/

theorem parsePort_decimal (port : UInt16) : parsePort (decimal port.toNat) = .ok port := by
  rw [parsePort, parseU16_decimal]

theorem parseScheme_text (scheme : HttpScheme) (base : List Char) :
    parseScheme (scheme.text.toList ++ base) = .ok (scheme, base) := by
  cases scheme with
  | http =>
    rw [parseScheme, HttpScheme.text, List.dropPrefix?_append_of_beq base (by simp)]
  | https =>
    have hhttp : (HttpScheme.https.text.toList ++ base).dropPrefix? "http://".toList = none := rfl
    rw [parseScheme, hhttp, HttpScheme.text, List.dropPrefix?_append_of_beq base (by simp)]

/-- A character that can stand in a host: none that an address is taken apart at. -/
def IsHostChar (c : Char) : Prop :=
  c ≠ '/' ∧ c ≠ '[' ∧ c ≠ ']' ∧ isControl c = false ∧ isWhitespace c = false

/-- A host and a port with a colon in between. -/
def hostPort (host : List Char) (port : UInt16) : List Char := host ++ ':' :: decimal port.toNat

theorem slash_not_mem_hostPort {host : List Char} (h : ∀ c ∈ host, IsHostChar c) (port : UInt16) :
    '/' ∉ hostPort host port := by
  rw [hostPort, List.mem_append, List.mem_cons, not_or, not_or]
  exact ⟨fun hmem => (h '/' hmem).1 rfl, by decide, not_mem_decimal (by decide) _⟩

theorem dropPrefix?_bracket {host : List Char} (hne : host ≠ []) (h : ∀ c ∈ host, IsHostChar c)
    (rest : List Char) : (host ++ rest).dropPrefix? ['['] = none := by
  cases host with
  | nil => exact absurd rfl hne
  | cons c host =>
    have hc : c ≠ '[' := (h c List.mem_cons_self).2.1
    simp [List.dropPrefix?, hc]

theorem count_colon_hostPort (host : List Char) (port : UInt16) :
    (hostPort host port).count ':' = host.count ':' + 1 := by
  have hdigits : (decimal port.toNat).count ':' = 0 :=
    List.count_eq_zero.2 (not_mem_decimal (by decide) _)
  rw [hostPort, List.count_append, List.count_cons_self, hdigits]

variable {host : List Char} {port : UInt16} {scheme : HttpScheme}

theorem parseAuthority_plain (hne : host ≠ []) (h : ∀ c ∈ host, IsHostChar c)
    (hcolon : ':' ∉ host) : parseAuthority (hostPort host port) scheme = .ok (host, port) := by
  have hcount : ¬ (hostPort host port).count ':' > 1 := by
    rw [count_colon_hostPort, List.count_eq_zero.2 hcolon]
    decide
  rw [parseAuthority, hostPort, dropPrefix?_bracket hne h]
  have hdigits : ':' ∉ decimal port.toNat := not_mem_decimal (by decide) _
  rw [hostPort] at hcount
  simp only [hcount, if_false, rsplitOnce_append hdigits, parsePort_decimal, ok_bind]

/-- A host with a colon is refused without brackets. -/
theorem parseAuthority_colons (hne : host ≠ []) (h : ∀ c ∈ host, IsHostChar c)
    (hcolon : ':' ∈ host) :
    parseAuthority (hostPort host port) scheme = .error ⟨"IPv6 hosts require brackets"⟩ := by
  have hcount : (hostPort host port).count ':' > 1 := by
    have hpos := List.count_pos_iff.2 hcolon
    rw [count_colon_hostPort]
    omega
  rw [parseAuthority, hostPort, dropPrefix?_bracket hne h]
  rw [hostPort] at hcount
  simp only [hcount, if_true]

theorem parseAuthority_bracketed (h : ∀ c ∈ host, IsHostChar c) :
    parseAuthority ('[' :: host ++ ']' :: ':' :: decimal port.toNat) scheme = .ok (host, port) := by
  have hclose : ']' ∉ host := fun hmem => (h ']' hmem).2.2.1 rfl
  have hopen : ('[' :: host ++ ']' :: ':' :: decimal port.toNat).dropPrefix? ['['] =
      some (host ++ ']' :: ':' :: decimal port.toNat) := by simp [List.dropPrefix?]
  rw [parseAuthority, hopen]
  simp only [parseBracketed, splitOnce_append hclose, parsePort_decimal, ok_bind]

theorem joinPaths_nil (path : List Char) : joinPaths [] path = '/' :: path.dropWhile (· == '/') := by
  simp [joinPaths]

theorem any_isControl_joinPaths (path : List Char) :
    (joinPaths [] path).any isControl = path.any isControl := by
  rw [joinPaths_nil, List.any_cons]
  have hslash : isControl '/' = false := by decide
  rw [hslash, Bool.false_or]
  induction path with
  | nil => rfl
  | cons c path ih =>
    by_cases hc : c = '/'
    · subst hc
      rw [List.dropWhile_cons_of_pos rfl, List.any_cons, hslash, Bool.false_or, ih]
    · rw [List.dropWhile_cons_of_neg (by simpa using hc)]

/-- A URL without a path of its own: what its authority says, unless the request path has control
characters. -/
theorem HttpTarget.parse_authority {authority : List Char} (hslash : '/' ∉ authority)
    (requestPath : String) :
    HttpTarget.parse (String.ofList (scheme.text.toList ++ authority)) requestPath =
      parseAuthority authority scheme >>= fun found =>
        if found.1.isEmpty || found.1.any isControl || requestPath.toList.any isControl then
          .error ⟨"invalid HTTP target"⟩
        else .ok ⟨scheme, String.ofList found.1, found.2,
          String.ofList (joinPaths [] requestPath.toList)⟩ := by
  rw [HttpTarget.parse, String.toList_ofList, parseScheme_text, ok_bind]
  simp only [splitOnce_eq_none hslash, any_isControl_joinPaths]
  congr 1
  funext found
  simp [joinPaths_nil]

end AppCore.Transport
