import AppCore.Base.Text

/-!
# Evaluation

Functions on text that are computed from one byte after another. They are equal to those the formats
are defined with, which put a text together from its end again and again; runs on concrete inputs are
evaluated with these.
-/

namespace AppCore

theorem strBytes_eq_toByteArray (s : String) : strBytes s = s.toByteArray.data.toList := by
  have hutf8 (t : List Char) : (String.ofList t).toByteArray.data.toList = utf8 t := by
    simp [String.ofList, utf8, List.utf8Encode]
  rw [strBytes, ← hutf8, String.ofList_toList]

/-- `fromUtf8`, with a shorter way for characters of one byte. -/
def fromUtf8Ascii (bytes : Bytes) : Option (List Char) :=
  if bytes.all (· < 128) then some (bytes.map fun b => Char.ofNat b.toNat) else fromUtf8 bytes

theorem utf8_map_ofNat {bytes : Bytes} (h : bytes.all (· < 128) = true) :
    utf8 (bytes.map fun b => Char.ofNat b.toNat) = bytes := by
  induction bytes with
  | nil => rfl
  | cons b rest ih =>
    rw [List.all_cons, Bool.and_eq_true] at h
    have hlt : b.toNat < 128 := UInt8.lt_iff_toNat_lt.1 (of_decide_eq_true h.1)
    have hchar : (Char.ofNat b.toNat).toNat = b.toNat := by
      rw [Char.toNat_ofNat, if_pos (Or.inl (by omega))]
    have hfirst : utf8 [Char.ofNat b.toNat] = [b] := by
      rw [utf8, List.flatMap_cons, utf8EncodeChar_of_ascii (hchar.symm ▸ hlt), hchar]
      simp
    rw [List.map_cons, ← List.singleton_append, utf8_append, hfirst, ih h.2,
      List.singleton_append]

theorem fromUtf8_eq_ascii : fromUtf8 = fromUtf8Ascii := by
  funext bytes
  rw [fromUtf8Ascii]
  split
  next h => rw [← fromUtf8_utf8, utf8_map_ofNat h]
  next => rfl

end AppCore
