import AppCore.Base.Text
import AppCore.Base.Words

/-!
# Redaction

`redact_text_with_limit` hides what follows a credential marker in a text for the logs. There is one
pass over the text for each marker, and each pass works on what the one before it left
(`redactMarker`). Of a long text only a part is scanned, and a long result is cut off.

A text is a list of characters, its length is counted in bytes, and an index of a character boundary
is the text in front of it. No text is as long as the largest `usize`, so the saturating sum of the
scan limit is a sum.
-/

namespace AppCore.Redaction

def redacted : List Char := "[REDACTED]".toList

def truncated : List Char := "[TRUNCATED]".toList

def isSecretDelimiter (character : Char) : Bool :=
  isWhitespace character || character == ',' || character == ';' || character == '&' ||
    character == '"' || character == '\''

/-! ## Markers -/

/-- A marker is searched in lower case, and it is not empty: the search always goes on. -/
structure Marker where
  text : List Char
  nonempty : text ≠ []

def authorization : Marker := ⟨"authorization:".toList, by decide⟩

def bearer : Marker := ⟨"bearer ".toList, by decide⟩

def token : Marker := ⟨"token=".toList, by decide⟩

def secret : Marker := ⟨"secret=".toList, by decide⟩

def password : Marker := ⟨"password=".toList, by decide⟩

def apiKey : Marker := ⟨"api_key=".toList, by decide⟩

def apikey : Marker := ⟨"apikey=".toList, by decide⟩

/-- The markers, in the order of the passes. -/
def markers : List Marker := [authorization, bearer, token, secret, password, apiKey, apikey]

/-- What is put in the place of a value. -/
def hide (value : List Char) : List Char := if value = [] then [] else redacted

/-- `redact_marker`, from the cursor on. -/
def redactMarker (marker : Marker) (input : List Char) : List Char :=
  match _hcut : cutAfter Char.toLower marker.text input with
  | none => input
  | some (shown, rest) =>
    shown ++ hide (rest.takeWhile fun c => !isSecretDelimiter c) ++
      redactMarker marker (rest.dropWhile fun c => !isSecretDelimiter c)
termination_by input.length
decreasing_by
  exact (List.dropWhile_suffix _).length_le.trans_lt (length_of_cutAfter marker.nonempty _hcut)

/-- The passes over a text. -/
def redactMarkers (text : List Char) : List Char :=
  markers.foldl (fun output marker => redactMarker marker output) text

/-! ## Limits -/

def len (text : List Char) : Nat := (utf8 text).length

/-- The text in front of `floor_char_boundary`: whole characters in at most `index` bytes. -/
def floorCharBoundary : List Char → Nat → List Char
  | [], _ => []
  | c :: text, index =>
    if c.utf8Size ≤ index then c :: floorCharBoundary text (index - c.utf8Size) else []

def truncateText (value : List Char) (maxBytes : Nat) (inputWasTruncated : Bool) : List Char :=
  if ¬ inputWasTruncated ∧ len value ≤ maxBytes then value
  else floorCharBoundary value (min (maxBytes - len truncated) (len value)) ++ truncated

def redactTextWithLimit (input : List Char) (maxBytes : Nat) : List Char :=
  let maxBytes := max maxBytes (len truncated)
  let scanLimit := min (maxBytes + 1024) (len input)
  let scanned := floorCharBoundary input scanLimit
  truncateText (redactMarkers scanned) maxBytes (len scanned < len input)

def redactText (input : List Char) : List Char := redactTextWithLimit input 8192

end AppCore.Redaction
