import RingOverlay.Address.Text
import RingOverlay.Proofs.Address.Codec
import RingOverlay.Proofs.Bytes.Hex
/-!
Texts of addresses. Reading the text of an address is reading its bytes, and the text of a position is
read as that position.
-/

set_option autoImplicit false
set_option relaxedAutoImplicit false

namespace RingOverlay

namespace Address

variable {cs rest : List Char} {a : Address}

theorem afterStart?_eq_some_iff {start : List Char} :
    afterStart? start cs = some rest ↔ cs = start ++ rest := by
  induction start generalizing cs with
  | nil => simp [afterStart?]
  | cons c start ih =>
    cases cs with
    | nil => simp [afterStart?]
    | cons d cs =>
      by_cases same : c = d
      · subst same
        rw [afterStart?, if_pos rfl, ih, List.cons_append, List.cons_inj_right]
      · rw [afterStart?, if_neg same, List.cons_append]
        refine iff_of_false nofun fun text => ?_
        injection text with other
        exact same other.symm

theorem ofText_textOfBits (b : AddressBits) : ofText (textOfBits b) = ofBytes b.toBytes := by
  have characters : (textOfBits b).toList = textStart.toList ++ Hex.encode b.toBytes := by
    rw [textOfBits, String.toList_append, String.toList_ofList]
  rw [ofText, characters, afterStart?_eq_some_iff.mpr rfl]
  simp only [Hex.decode_encode]

theorem text_toList (a : Address) : a.text.toList = textStart.toList ++ Hex.encode a.toBytes := by
  rw [text, textOfBits, String.toList_append, String.toList_ofList]
  rfl

theorem ofText_text (valid : a.InRange) : ofText a.text = .ok a :=
  (ofText_textOfBits a.toAddressBits).trans (ofBytes_written valid)

end Address

theorem RingAddress.ofText_text (a : RingAddress) : RingAddress.ofText a.text = .ok a := by
  have read : Address.ofText a.text = .ok (.ring a) := Address.ofText_text (a := .ring a) trivial
  simp only [RingAddress.ofText, read, bind, Except.bind]

end RingOverlay
