import Mathlib.Data.List.Forall2
import RingOverlay.Bytes.Hex
import RingOverlay.Text.Utf8
/-!
What is read as hexadecimal. A text is read as a byte string exactly if it spells it, two digits of
either case to a byte; the text that is written spells it in lower case.
-/

set_option autoImplicit false
set_option relaxedAutoImplicit false

namespace RingOverlay.Hex

variable {c d : Char} {n m position : Nat} {cs ds : List Char} {lead high low : UInt8} {bs rest : Bytes}

def IsDigit (c : Char) (n : Nat) : Prop := n < 16 ∧ (c = digit n ∨ c = (digit n).toUpper)

instance (c : Char) (n : Nat) : Decidable (IsDigit c n) := inferInstanceAs (Decidable (_ ∧ _))

/-- The characters are two digits for each byte, the high half first. -/
inductive Spells : List Char → Bytes → Prop
  | nil : Spells [] []
  | cons {c d : Char} {b : UInt8} {cs : List Char} {bs : Bytes} (upper : IsDigit c (b.toNat / 16))
      (lower : IsDigit d (b.toNat % 16)) (rest : Spells cs bs) : Spells (c :: d :: cs) (b :: bs)

/-! ### Digits -/

private theorem digit_facts (n : Fin 16) :
    (digit n).toNat ≤ 127 ∧ (digit n).toUpper.toNat ≤ 127 ∧ (digit n).toLower = digit n ∧
    (digit n).toUpper.toLower = digit n ∧ digitValue? (UInt8.ofNat (digit n).toNat) = some n.val ∧
    digitValue? (UInt8.ofNat (digit n).toUpper.toNat) = some n.val := by
  revert n
  decide

private theorem isDigit_of_digitValue? (k : Fin 128) :
    ∀ n ∈ digitValue? (UInt8.ofNat k), IsDigit (Char.ofNat k) n := by
  revert k
  decide

theorem isDigit_digit (small : n < 16) : IsDigit (digit n) n := ⟨small, Or.inl rfl⟩

theorem IsDigit.ascii (h : IsDigit c n) : c.toNat ≤ 127 := by
  obtain ⟨small, rfl | rfl⟩ := h
  · exact (digit_facts ⟨n, small⟩).1
  · exact (digit_facts ⟨n, small⟩).2.1

theorem IsDigit.toLower (h : IsDigit c n) : c.toLower = digit n := by
  obtain ⟨small, rfl | rfl⟩ := h
  · exact (digit_facts ⟨n, small⟩).2.2.1
  · exact (digit_facts ⟨n, small⟩).2.2.2.1

theorem digitValue?_eq_some_iff (ascii : c.toNat ≤ 127) :
    digitValue? (UInt8.ofNat c.toNat) = some n ↔ IsDigit c n := by
  constructor
  · intro value
    have digit := isDigit_of_digitValue? ⟨c.toNat, by omega⟩ n value
    rwa [Char.ofNat_toNat] at digit
  · rintro ⟨small, rfl | rfl⟩
    · exact (digit_facts ⟨n, small⟩).2.2.2.2.1
    · exact (digit_facts ⟨n, small⟩).2.2.2.2.2

theorem IsDigit.value (h : IsDigit c n) : digitValue? (UInt8.ofNat c.toNat) = some n :=
  (digitValue?_eq_some_iff h.ascii).mpr h

theorem IsDigit.unique (h : IsDigit c n) (h' : IsDigit c m) : n = m :=
  Option.some.inj (h.value.symm.trans h'.value)

/-! ### Characters and their bytes -/

private theorem utf8_ascii (ascii : c.toNat ≤ 127) (cs : List Char) :
    Utf8.encode (c :: cs) = UInt8.ofNat c.toNat :: Utf8.encode cs := by
  change c.val.toNat ≤ 127 at ascii
  rw [Utf8.encode, List.flatMap_cons, String.utf8EncodeChar, if_pos ascii]
  rfl

private theorem utf8_not_ascii (wide : 127 < c.toNat) (cs : List Char) :
    ∃ lead rest, Utf8.encode (c :: cs) = lead :: rest ∧ digitValue? lead = none := by
  have no_digit : ∀ {k : Nat}, 192 ≤ k → k < 256 → digitValue? (UInt8.ofNat k) = none := by
    intro k low high
    have same : (UInt8.ofNat k).toNat = k := UInt8.toNat_ofNat_of_lt' high
    unfold digitValue?
    simp only [same]
    split_ifs <;> first | rfl | omega
  change 127 < c.val.toNat at wide
  rw [Utf8.encode, List.flatMap_cons, String.utf8EncodeChar, if_neg (by omega)]
  split_ifs
  · exact ⟨_, _, rfl, no_digit (by omega) (by omega)⟩
  · exact ⟨_, _, rfl, no_digit (by omega) (by omega)⟩
  · exact ⟨_, _, rfl, no_digit (by omega) (by omega)⟩

private theorem isDigit_of_lead (text : Utf8.encode (c :: cs) = lead :: rest)
    (value : digitValue? lead = some n) : IsDigit c n ∧ Utf8.encode cs = rest := by
  rcases Nat.lt_or_ge 127 c.toNat with wide | ascii
  · obtain ⟨lead', rest', text', none⟩ := utf8_not_ascii wide cs
    rw [text] at text'
    injection text' with same
    rw [same, none] at value
    cases value
  · rw [utf8_ascii ascii] at text
    injection text with same others
    rw [← same] at value
    exact ⟨(digitValue?_eq_some_iff ascii).mp value, others⟩

private theorem exists_pair (even : (Utf8.encode (c :: cs)).length % 2 = 0) :
    ∃ high low rest, Utf8.encode (c :: cs) = high :: low :: rest := by
  obtain ⟨lead, rest, text⟩ : ∃ lead rest, Utf8.encode (c :: cs) = lead :: rest := by
    rcases Nat.lt_or_ge 127 c.toNat with wide | ascii
    · obtain ⟨lead, rest, text, -⟩ := utf8_not_ascii wide cs
      exact ⟨lead, rest, text⟩
    · exact ⟨_, _, utf8_ascii ascii cs⟩
  rw [text] at even ⊢
  cases rest with
  | nil => cases even
  | cons next rest => exact ⟨lead, next, rest, rfl⟩

private theorem utf8_pair (upper : IsDigit c n) (lower : IsDigit d m) (cs : List Char) :
    Utf8.encode (c :: d :: cs) =
      UInt8.ofNat c.toNat :: UInt8.ofNat d.toNat :: Utf8.encode cs := by
  rw [utf8_ascii upper.ascii, utf8_ascii lower.ascii]

/-! ### Pairs of digits -/

private theorem readPairs_pair_iff : readPairs position (high :: low :: rest) = .ok bs ↔
    ∃ h l tail, digitValue? high = some h ∧ digitValue? low = some l ∧
      readPairs (position + 2) rest = .ok tail ∧ bs = UInt8.ofNat (16 * h + l) :: tail := by
  rw [readPairs, readDigit, readDigit]
  cases digitValue? high with
  | none => simp [bind, Except.bind]
  | some h =>
    cases digitValue? low with
    | none => simp [bind, Except.bind]
    | some l =>
      cases readPairs (position + 2) rest <;> simp [bind, Except.bind, eq_comm]

private theorem halves {h l : Nat} (upper : h < 16) (lower : l < 16) :
    (UInt8.ofNat (16 * h + l)).toNat / 16 = h ∧ (UInt8.ofNat (16 * h + l)).toNat % 16 = l := by
  rw [UInt8.toNat_ofNat_of_lt' (by change _ < 256; omega)]
  omega

theorem Spells.readPairs (h : Spells cs bs) (position : Nat) :
    readPairs position (Utf8.encode cs) = .ok bs := by
  induction h generalizing position with
  | nil => rfl
  | @cons _ _ b _ bs upper lower rest ih =>
    have whole : 16 * (b.toNat / 16) + b.toNat % 16 = b.toNat := Nat.div_add_mod ..
    rw [utf8_pair upper lower, readPairs_pair_iff]
    refine ⟨_, _, bs, upper.value, lower.value, ih _, ?_⟩
    rw [whole, UInt8.ofNat_toNat]

private theorem spells_of_readPairs : ∀ {cs : List Char} {bs : Bytes} {position : Nat},
    (Utf8.encode cs).length % 2 = 0 → readPairs position (Utf8.encode cs) = .ok bs → Spells cs bs
  | [], bs, _, _, read => by
    cases read
    exact .nil
  | c :: cs, bs, position, even, read => by
    obtain ⟨high, low, rest, text⟩ := exists_pair even
    rw [text] at even read
    obtain ⟨h, l, tail, value, value', read', rfl⟩ := readPairs_pair_iff.mp read
    obtain ⟨upper, others⟩ := isDigit_of_lead text value
    match cs, others with
    | [], others => cases others
    | d :: cs, others =>
      obtain ⟨lower, others'⟩ := isDigit_of_lead others value'
      obtain ⟨left, right⟩ := halves upper.1 lower.1
      rw [← others'] at even read'
      simp only [List.length_cons] at even
      refine .cons ?_ ?_ (spells_of_readPairs (by omega) read')
      · rw [left]
        exact upper
      · rw [right]
        exact lower

theorem Spells.length (h : Spells cs bs) : cs.length = 2 * bs.length := by
  induction h with
  | nil => rfl
  | cons upper lower rest ih =>
    simp only [List.length_cons, ih]
    omega

private theorem Spells.length_utf8 (h : Spells cs bs) : (Utf8.encode cs).length = 2 * bs.length := by
  induction h with
  | nil => rfl
  | cons upper lower rest ih =>
    simp only [utf8_pair upper lower, List.length_cons, ih]
    omega

theorem decode_eq_ok_iff : decode (Utf8.encode cs) = .ok bs ↔ Spells cs bs := by
  unfold decode
  constructor
  · intro read
    split at read
    · cases read
    · exact spells_of_readPairs (by omega) read
  · intro spells
    rw [spells.length_utf8, if_neg (by omega)]
    exact spells.readPairs 0

theorem spells_encode (bs : Bytes) : Spells (encode bs) bs := by
  induction bs with
  | nil => exact .nil
  | cons b bs ih =>
    have small : b.toNat < 256 := b.toNat_lt
    exact .cons (isDigit_digit (by omega)) (isDigit_digit (by omega)) ih

theorem decode_encode (bs : Bytes) : decode (Utf8.encode (encode bs)) = .ok bs :=
  decode_eq_ok_iff.mpr (spells_encode bs)

theorem Spells.encode_eq (h : Spells cs bs) : encode bs = cs.map Char.toLower := by
  induction h with
  | nil => rfl
  | cons upper lower rest ih =>
    rw [List.map_cons, List.map_cons, upper.toLower, lower.toLower, ← ih]
    rfl

/-! ### Case -/

/-- The characters are the same, except that digits may differ in case. -/
def SameUpToCase : List Char → List Char → Prop :=
  List.Forall₂ fun c d => c = d ∨ ∃ n, IsDigit c n ∧ IsDigit d n

theorem sameUpToCase_append_iff (start : List Char) :
    SameUpToCase (start ++ cs) (start ++ ds) ↔ SameUpToCase cs ds := by
  induction start with
  | nil => rfl
  | cons c start ih =>
    rw [← ih, SameUpToCase, List.cons_append, List.cons_append, List.forall₂_cons]
    exact and_iff_right (Or.inl rfl)

theorem IsDigit.same_value (h : IsDigit c n) (h' : IsDigit d m)
    (same : c = d ∨ ∃ k, IsDigit c k ∧ IsDigit d k) : n = m := by
  rcases same with rfl | ⟨k, one, other⟩
  · exact h.unique h'
  · exact (h.unique one).trans (other.unique h')

private theorem eq_of_halves {b b' : UInt8} (upper : b.toNat / 16 = b'.toNat / 16)
    (lower : b.toNat % 16 = b'.toNat % 16) : b = b' := by
  apply UInt8.toNat_inj.mp
  rw [← Nat.div_add_mod b.toNat 16, upper, lower, Nat.div_add_mod]

theorem Spells.sameUpToCase_iff {bs' : Bytes} (h : Spells cs bs) (h' : Spells ds bs') :
    SameUpToCase cs ds ↔ bs = bs' := by
  constructor
  · intro same
    induction h generalizing ds bs' with
    | nil =>
      cases same
      cases h'
      rfl
    | cons upper lower rest ih =>
      cases h' with
      | nil => cases same
      | cons upper' lower' rest' =>
        rcases same with _ | ⟨first, _ | ⟨second, others⟩⟩
        rw [eq_of_halves (upper.same_value upper' first) (lower.same_value lower' second),
          ih rest' others]
  · rintro rfl
    induction h generalizing ds with
    | nil =>
      cases h'
      exact .nil
    | cons upper lower rest ih =>
      cases h' with
      | cons upper' lower' rest' =>
        exact .cons (Or.inr ⟨_, upper, upper'⟩) (.cons (Or.inr ⟨_, lower, lower'⟩) (ih rest'))

end RingOverlay.Hex
