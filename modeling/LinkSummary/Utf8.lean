/-!
# Texts as bytes

A text is stored as its UTF-8 bytes. Bytes that are no UTF-8 are no text, so reading undoes
writing, and each text has one form.
-/

namespace LinkSummary.Utf8

def encode (s : String) : List UInt8 := s.toByteArray.data.toList

def decode? (bytes : List UInt8) : Option String := String.fromUTF8? ⟨bytes.toArray⟩

theorem encode_append (s s' : String) : encode (s ++ s') = encode s ++ encode s' := by
  rw [encode, String.toByteArray_append, ByteArray.data_append, Array.toList_append]
  rfl

@[simp] theorem decode?_encode (s : String) : decode? (encode s) = some s := by
  have : (ByteArray.mk (encode s).toArray) = s.toByteArray := by simp [encode]
  rw [decode?, this, String.fromUTF8?, dif_pos s.isValidUTF8]
  rfl

theorem eq_encode_of_decode? {bytes : List UInt8} {s : String} (h : decode? bytes = some s) :
    bytes = encode s := by
  simp only [decode?, String.fromUTF8?] at h
  split at h
  · cases h
    rfl
  · cases h

end LinkSummary.Utf8
