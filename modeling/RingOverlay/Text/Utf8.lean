import RingOverlay.Bytes.BigEndian
/-!
Texts as byte strings: each character is written in its one to four byte form.
-/

set_option autoImplicit false
set_option relaxedAutoImplicit false

namespace RingOverlay.Utf8

def encode (cs : List Char) : Bytes :=
  cs.flatMap String.utf8EncodeChar

def decode? (bs : Bytes) : Option String :=
  String.fromUTF8? ⟨bs.toArray⟩

end RingOverlay.Utf8
