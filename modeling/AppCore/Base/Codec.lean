import AppCore.Base.Word

/-!
# Codecs

Some state is stored through a third-party serializer. A codec is what the program relies on:
an encoder, a decoder that may reject, and the round trip between them.
-/

namespace AppCore

/-- A serializer for the values of a type. -/
class Codec (α : Type) where
  encode : α → Bytes
  decode : Bytes → Option α
  decode_encode (value : α) : decode (encode value) = some value

end AppCore
