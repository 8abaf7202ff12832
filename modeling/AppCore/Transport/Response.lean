import AppCore.Base.Cursor
import AppCore.Base.Lines

/-!
# HTTP responses

`response.rs`: the head of a response is split into its status and its headers (`parseHeaders`), and
the body is what its length declares, or what its chunks hold (`decodeChunked`), and is inflated when
it is compressed (`parseResponse`).

A `usize` is a number up to `usizeMax`. A byte that is read outside the input panics (`outside`), and
the loop over the chunks makes as many rounds as it is given (`unfinished` when they run out).
-/

namespace AppCore.Transport

/-! ## Results -/

/-- The variants of `TransportError` that reading a response can end with. -/
inductive TransportError where
  | cancelled
  | timeout
  | connectionRefused
  | responseTooLarge (max : Nat)
  | invalidResponse (reason : String)
  | truncatedResponse
  | io (message : String)
  deriving DecidableEq, Repr

/-- What the code does with an input: it returns, it reads outside the input, or it goes on. -/
inductive Outcome (α : Type) where
  | returned (result : Except TransportError α)
  | outside
  | unfinished
  deriving Repr

namespace Outcome

variable {α β : Type}

/-- `Ok(value)`. -/
def ok (value : α) : Outcome α := .returned (.ok value)

/-- `Err(error)`. -/
def err (error : TransportError) : Outcome α := .returned (.error error)

/-- `?`. -/
def bind (outcome : Outcome α) (next : α → Outcome β) : Outcome β :=
  match outcome with
  | .returned (.ok value) => next value
  | .returned (.error error) => .returned (.error error)
  | .outside => .outside
  | .unfinished => .unfinished

instance : Monad Outcome where
  pure := ok
  bind := bind

@[simp] theorem ok_bind (value : α) (next : α → Outcome β) : (ok value >>= next) = next value := rfl

@[simp] theorem err_bind (error : TransportError) (next : α → Outcome β) :
    ((err error : Outcome α) >>= next) = err error := rfl

end Outcome

/-! ## Sizes -/

/-- `usize::MAX`. -/
def usizeMax : Nat := 2 ^ 64 - 1

/-- `isize::MAX`: no byte string is longer. -/
def isizeMax : Nat := 2 ^ 63 - 1

/-- `usize::checked_add`. -/
def usizeCheckedAdd (a b : Nat) : Option Nat := if a + b ≤ usizeMax then some (a + b) else none

/-- `usize::saturating_add`. -/
def usizeSaturatingAdd (a b : Nat) : Nat := min (a + b) usizeMax

/-- The value of a hexadecimal digit. -/
def hexDigit (c : Char) : Nat :=
  if c ≤ '9' then c.toNat - '0'.toNat
  else if c ≤ 'F' then c.toNat - 'A'.toNat + 10
  else c.toNat - 'a'.toNat + 10

/-- The value of hexadecimal digits. -/
def hexValue (digits : List Char) : Nat := digits.foldl (fun value c => 16 * value + hexDigit c) 0

/-- `usize::from_str_radix` to the base 16: an optional plus sign, digits, and no overflow. -/
def fromStrRadix16 (t : List Char) : Option Nat :=
  let digits := stripPlus t
  if digits.isEmpty || !digits.all isHexDigit then none
  else if hexValue digits ≤ usizeMax then some (hexValue digits)
  else none

/-- `input.windows(n).position(|window| window == pattern)`, for a pattern of `n` bytes. -/
def position (pattern : Bytes) : Bytes → Option Nat
  | [] => none
  | b :: rest =>
    if pattern.isPrefixOf (b :: rest) then some 0 else (position pattern rest).map (· + 1)

/-- The end of a line. -/
def crlf : Bytes := [0x0d, 0x0a]

/-! ## Chunks -/

/-- The size that a size line declares: what is in front of the first semicolon. -/
def chunkSize (line : Bytes) : Except TransportError Nat :=
  match fromUtf8 line with
  | none => .error (.invalidResponse "invalid chunk size")
  | some sizeText =>
    match fromStrRadix16 (sizeText.takeWhile (· ≠ ';')) with
    | none => .error (.invalidResponse "invalid chunk size")
    | some size => .ok size

/-- How a round of the loop ends: it returns, it reads outside the input, or another one follows. -/
inductive ChunkRound where
  | finished (result : Except TransportError Bytes)
  | outside
  | again (cursor : Nat) (output : Bytes)
  deriving Repr

/-- The end of a round: the data of the chunk, which begin at the cursor, and the end of a line. -/
def chunkData (input : Bytes) (maxBytes cursor : Nat) (output : Bytes) (size : Nat) : ChunkRound :=
  match usizeCheckedAdd cursor size with
  | none => .finished (.error (.invalidResponse "chunk overflow"))
  | some chunkEnd =>
    if usizeSaturatingAdd chunkEnd 2 > input.length ∨
        slice input chunkEnd (chunkEnd + 2) ≠ some crlf then
      .finished (.error .truncatedResponse)
    else if usizeSaturatingAdd output.length size > maxBytes then
      .finished (.error (.responseTooLarge maxBytes))
    else
      match slice input cursor chunkEnd with
      | none => .outside
      | some chunk => .again (chunkEnd + 2) (output ++ chunk)

/-- A round, from the size line on; the cursor is behind the line. -/
def chunkLine (input : Bytes) (maxBytes cursor : Nat) (output line : Bytes) : ChunkRound :=
  match chunkSize line with
  | .error error => .finished (.error error)
  | .ok size =>
    if size = 0 then .finished (.ok output) else chunkData input maxBytes cursor output size

/-- Where the line at the cursor ends. -/
def lineEnd (input : Bytes) (cursor : Nat) : Option Nat :=
  (slice input cursor input.length).bind fun remaining =>
    (position crlf remaining).map fun offset => cursor + offset

/-- One round of the loop of `decode_chunked`. -/
def chunkRound (input : Bytes) (maxBytes cursor : Nat) (output : Bytes) : ChunkRound :=
  match lineEnd input cursor with
  | none => .finished (.error .truncatedResponse)
  | some stop =>
    match slice input cursor stop with
    | none => .outside
    | some line => chunkLine input maxBytes (stop + 2) output line

/-- The loop of `decode_chunked`. -/
def decodeChunkedFrom (input : Bytes) (maxBytes : Nat) : Nat → Nat → Bytes → Outcome Bytes
  | 0, _, _ => .unfinished
  | rounds + 1, cursor, output =>
    match chunkRound input maxBytes cursor output with
    | .finished result => .returned result
    | .outside => .outside
    | .again cursor output => decodeChunkedFrom input maxBytes rounds cursor output

/-- `decode_chunked`; the cursor moves on in every round. -/
def decodeChunked (input : Bytes) (maxBytes : Nat) : Outcome Bytes :=
  decodeChunkedFrom input maxBytes (input.length + 1) 0 []

/-! ## Headers -/

/-- The headers of a response, in the order received. -/
abbrev Headers := List (List Char × List Char)

def splitWhitespace (t : List Char) : List (List Char) :=
  (t.splitOnP isWhitespace).filter fun word => word ≠ []

/-- `str::parse` for an unsigned integer up to `max`: an optional plus sign, digits, no overflow. -/
def parseUnsigned (max : Nat) (t : List Char) : Option Nat :=
  let digits := stripPlus t
  if digits.isEmpty || !digits.all Char.isDigit then none
  else if Nat.ofDigitChars 10 digits 0 ≤ max then some (Nat.ofDigitChars 10 digits 0)
  else none

/-- The line of a header: its name in lower case, and its value. -/
def parseHeader (line : List Char) : Except TransportError (List Char × List Char) :=
  match splitOnce ':' line with
  | none => .error (.invalidResponse "malformed response header")
  | some (name, value) => .ok ((trim name).map Char.toLower, trim value)

def parseHeaders (headerText : List Char) : Except TransportError (Nat × Headers) :=
  match lines headerText with
  | [] => .error (.invalidResponse "missing status line")
  | statusLine :: rest =>
    match (splitWhitespace statusLine)[1]? with
    | none => .error (.invalidResponse "missing status code")
    | some code =>
      match parseUnsigned 65535 code with
      | none => .error (.invalidResponse "invalid status code")
      | some statusCode => do
          let headers ← rest.mapM parseHeader
          return (statusCode, headers)

def headerValue (headers : Headers) (name : String) : Option (List Char) :=
  (headers.find? fun header => header.1 = name.toList).map (·.2)

/-- Whether a header has a value, in whatever case. -/
def headerIs (headers : Headers) (name value : String) : Bool :=
  (headerValue headers name).any fun found => found.map Char.toLower = value.toList

def validateContentLength (headers : Headers) (encoded : Bytes) : Except TransportError Unit :=
  match headerValue headers "content-length" with
  | none => .ok ()
  | some value =>
    match parseUnsigned usizeMax value with
    | none => .error (.invalidResponse "invalid content length")
    | some expected =>
      if encoded.length < expected then .error .truncatedResponse
      else if encoded.length > expected then
        .error (.invalidResponse "response exceeds declared content length")
      else .ok ()

/-! ## Responses -/

/-- What the gzip decoder makes of an input: the bytes it yields until its end or its error, and the
error if there is one. -/
class Gzip where
  inflate : Bytes → Bytes × Option String

structure HttpResponse where
  statusCode : Nat
  headers : Headers
  body : Bytes
  deriving DecidableEq, Repr

section

variable [Gzip]

/-- `decode_gzip_limited`: an error behind the bytes that are taken is not seen. -/
def decodeGzipLimited (input : Bytes) (maxBytes : Nat) : Except TransportError Bytes :=
  let (inflated, failure) := Gzip.inflate input
  let limit := usizeSaturatingAdd maxBytes 1
  match if inflated.length < limit then failure else none with
  | some error => .error (.invalidResponse ("malformed gzip body: " ++ error))
  | none =>
    if (inflated.take limit).length > maxBytes then .error (.responseTooLarge maxBytes)
    else .ok (inflated.take limit)

def transferredBody (headers : Headers) (encoded : Bytes) (maxResponseBytes : Nat) : Outcome Bytes :=
  if headerIs headers "transfer-encoding" "chunked" then decodeChunked encoded maxResponseBytes
  else
    match validateContentLength headers encoded with
    | .error error => .err error
    | .ok () =>
      if encoded.length > maxResponseBytes then .err (.responseTooLarge maxResponseBytes)
      else .ok encoded

/-- The body as it was before it was compressed. -/
def contentBody (headers : Headers) (body : Bytes) (maxResponseBytes : Nat) :
    Except TransportError Bytes :=
  if headerIs headers "content-encoding" "gzip" then decodeGzipLimited body maxResponseBytes
  else .ok body

def decodedBody (headers : Headers) (encoded : Bytes) (maxResponseBytes : Nat) : Outcome Bytes := do
  let body ← transferredBody headers encoded maxResponseBytes
  Outcome.returned (contentBody headers body maxResponseBytes)

def parseResponse (raw : Bytes) (maxHeaderBytes maxResponseBytes : Nat) : Outcome HttpResponse :=
  match position (crlf ++ crlf) raw with
  | none => .err (.invalidResponse "missing headers")
  | some headerEnd =>
    if headerEnd > maxHeaderBytes then .err (.invalidResponse "headers exceed configured limit")
    else
      match fromUtf8 (raw.take headerEnd) with
      | none => .err (.invalidResponse "headers are not UTF-8")
      | some headerText =>
        match parseHeaders headerText with
        | .error error => .err error
        | .ok (statusCode, headers) => do
            let body ← decodedBody headers (raw.drop (headerEnd + 4)) maxResponseBytes
            return { statusCode, headers, body }

end

end AppCore.Transport
