import Mathlib.Data.List.Induction
import Mathlib.Data.String.Basic
import RingOverlay.Data.Reading
/-!
Values that are read back from their texts. What is asked of a text form of values is that reading
undoes writing, but for numbers and for what is nested too deep. The compact text is such a form: every
part of it shows by its first character what it is, and ends where the next part begins.
-/

set_option autoImplicit false
set_option relaxedAutoImplicit false

namespace RingOverlay

/-- A value without numbers in which the keys of every record ascend. Its lists and records are nested no
deeper than told. -/
inductive Value.Plain : Nat → Value → Prop
  | null {d : Nat} : Plain d .null
  | bool {d : Nat} (b : Bool) : Plain d (.bool b)
  | string {d : Nat} (s : String) : Plain d (.string s)
  | list {d : Nat} {items : List Value} (all : ∀ v ∈ items, Plain d v) : Plain (d + 1) (.list items)
  | record {d : Nat} {entries : List (String × Value)}
    (ascending : (entries.map (·.1)).Pairwise (· < ·)) (all : ∀ e ∈ entries, Plain d e.2) :
    Plain (d + 1) (.record entries)

/-- A text form of values: how they are written, and what is read from a text. -/
structure TextCodec where
  write : Value → String
  read : String → Option Value

/-- Reading undoes writing. Numbers are left aside, since a float may be rounded when it is read. -/
def TextCodec.Faithful (codec : TextCodec) : Prop :=
  ∀ v : Value, v.Plain Value.deepest → codec.read (codec.write v) = some v

namespace Value

section

variable {n d : Nat} {c : Char} {cs rest : List Char} {v : Value}

private theorem readNumbered_control (control : c.toNat < 0x20) (rest : List Char) :
    readNumbered ('0' :: '0' :: Hex.encode [UInt8.ofNat c.toNat] ++ rest) = some (c, rest) := by
  have numbers : ∀ k : Fin 32, ∃ a b, Hex.encode [UInt8.ofNat k] = [a, b] ∧
      hexNumber? ['0', '0', a, b] = some k.val := by
    intro k
    exact ⟨_, _, rfl, by revert k; decide⟩
  obtain ⟨a, b, digits, number⟩ := numbers ⟨c.toNat, control⟩
  have low : c.toNat < 0xd800 := by omega
  have unit : readUnit ('0' :: '0' :: a :: b :: rest) = some (c.toNat, rest) := by
    rw [readUnit, if_pos (by simp)]
    change (hexNumber? ['0', '0', a, b]).map _ = _
    rw [number]
    rfl
  rw [digits]
  change (readUnit ('0' :: '0' :: a :: b :: rest)).bind _ = _
  rw [unit]
  simp only [Option.bind_some, low, true_or, if_true, Char.ofNat_toNat]
  rfl

theorem readQuoted_quotedChar (n : Nat) (c : Char) (cs : List Char) :
    readQuoted (n + 1) (quotedChar c ++ cs) = (readQuoted n cs).map fun r => (c :: r.1, r.2) := by
  have escaped : ∀ {es : List Char}, readEscape (es ++ cs) = some (c, cs) →
      readQuoted (n + 1) (('\\' :: es) ++ cs) = (readQuoted n cs).map fun r => (c :: r.1, r.2) := by
    intro es read
    simp only [List.cons_append, readQuoted, read, Option.bind_eq_bind, Option.bind_some]
    cases readQuoted n cs <;> rfl
  unfold quotedChar
  split_ifs with quote newline back tab backspace feed control
  · rcases quote with rfl | rfl <;> exact escaped rfl
  · subst newline
    exact escaped rfl
  · subst back
    exact escaped rfl
  · subst tab
    exact escaped rfl
  · subst backspace
    exact escaped rfl
  · subst feed
    exact escaped rfl
  · exact escaped (readNumbered_control control cs)
  · rw [not_or] at quote
    rw [List.singleton_append, readQuoted.eq_5 _ _ _ quote.1 quote.2, if_neg control]
    cases readQuoted n cs <;> rfl

theorem length_quotedChar_pos (c : Char) : 0 < (quotedChar c).length := by
  unfold quotedChar
  split_ifs <;> simp

theorem readQuoted_quoted (s : List Char) (rest : List Char)
    (enough : (s.flatMap quotedChar).length < n) :
    readQuoted n (s.flatMap quotedChar ++ '"' :: rest) = some (s, rest) := by
  induction s generalizing n with
  | nil =>
    obtain ⟨n, rfl⟩ := Nat.exists_eq_add_one.mpr enough
    rfl
  | cons c s ih =>
    obtain ⟨n, rfl⟩ := Nat.exists_eq_add_one.mpr (Nat.zero_lt_of_lt enough)
    have some_char := length_quotedChar_pos c
    rw [List.flatMap_cons, List.length_append] at enough
    rw [List.flatMap_cons, List.append_assoc, readQuoted_quotedChar, ih (by omega)]
    rfl

private theorem insertEntry_last (k : String) (v : Value) (es : List (String × Value))
    (last : ∀ e ∈ es, e.1 < k) : insertEntry k v es = es ++ [(k, v)] := by
  induction es with
  | nil => rfl
  | cons e es ih =>
    have before := last e List.mem_cons_self
    rw [insertEntry, if_neg (lt_asymm before), if_neg (ne_of_gt before),
      ih fun f member => last f (List.mem_cons_of_mem e member)]
    rfl

theorem ofEntries_of_ascending {es : List (String × Value)}
    (ascending : (es.map (·.1)).Pairwise (· < ·)) : ofEntries es = .record es := by
  induction es using List.reverseRecOn with
  | nil => rfl
  | append_singleton es e ih =>
    rw [List.map_append] at ascending
    obtain ⟨before, -, last⟩ := List.pairwise_append.mp ascending
    have start : es.foldl (fun es e => insertEntry e.1 e.2 es) [] = es := Value.record.inj (ih before)
    have end_ := insertEntry_last e.1 e.2 es fun f member =>
      last f.1 (List.mem_map_of_mem member) e.1 (by simp)
    rw [ofEntries, List.foldl_append, start, List.foldl_cons, List.foldl_nil, end_]

private theorem skipBlank_cons {c : Char} (dark : (c = ' ' || c = '\t' || c = '\r' || c = '\n') = false)
    (cs : List Char) : skipBlank (c :: cs) = c :: cs := by
  rw [skipBlank, List.dropWhile_cons_of_neg (by simpa using dark)]

/-- That a value is read from its text, whatever follows and with as many steps as there are
characters. -/
private def ReadsBack (d : Nat) (v : Value) : Prop :=
  ∀ n rest, v.chars.length < n → readValue n d (v.chars ++ rest) = some (v, rest)

private theorem Plain.exists_head (plain : Plain d v) : ∃ c cs, v.chars = c :: cs ∧ c ≠ ']' ∧
    (c = ' ' || c = '\t' || c = '\r' || c = '\n') = false := by
  cases plain with
  | null => exact ⟨_, _, rfl, by decide, by decide⟩
  | bool b => cases b <;> exact ⟨_, _, rfl, by decide, by decide⟩
  | string s => exact ⟨'"', _, rfl, by decide, by decide⟩
  | list => exact ⟨'[', _, rfl, by decide, by decide⟩
  | record => exact ⟨'\x7b', _, rfl, by decide, by decide⟩

private theorem readItems_itemChars {items : List Value} (nonempty : items ≠ [])
    (reads : ∀ v ∈ items, ReadsBack d v) (rest : List Char)
    (enough : (itemChars items).length + 1 < n) :
    readItems n d (itemChars items ++ ']' :: rest) = some (items, rest) := by
  induction items generalizing n with
  | nil => exact absurd rfl nonempty
  | cons v items ih =>
    obtain ⟨n, rfl⟩ := Nat.exists_eq_add_one.mpr (Nat.zero_lt_of_lt enough)
    have first := reads v List.mem_cons_self
    cases items with
    | nil =>
      rw [itemChars] at enough ⊢
      rw [readItems, first n (']' :: rest) (by omega)]
      rfl
    | cons w items =>
      have unfolded : itemChars (v :: w :: items) = v.chars ++ ',' :: itemChars (w :: items) := by
        rw [itemChars]
        exact List.cons_ne_nil w items
      rw [unfolded, List.length_append, List.length_cons] at enough
      have later := ih (List.cons_ne_nil w items)
        (fun x member => reads x (List.mem_cons_of_mem v member)) (n := n) (by omega)
      rw [unfolded, List.append_assoc, List.cons_append, readItems, first n _ (by omega)]
      change (readItems n d (itemChars (w :: items) ++ ']' :: rest)).bind _ = _
      rw [later]
      rfl

private theorem readEntries_entry (k : String) (reads : ReadsBack d v) (rest : List Char)
    (enough : (quoted k ++ ':' :: v.chars).length < n) :
    readEntries (n + 1) d (quoted k ++ ':' :: v.chars ++ rest) = match skipBlank rest with
      | ',' :: cs => (readEntries n d cs).map fun r => ((k, v) :: r.1, r.2)
      | '\x7d' :: cs => some ([(k, v)], cs)
      | _ => none := by
  simp only [quoted, List.length_append, List.length_cons] at enough
  have written : quoted k ++ ':' :: v.chars ++ rest =
      '"' :: (k.toList.flatMap quotedChar ++ '"' :: ':' :: (v.chars ++ rest)) := by
    simp [quoted]
  have key := readQuoted_quoted (n := n) k.toList (':' :: (v.chars ++ rest)) (by omega)
  rw [written, readEntries, skipBlank_cons rfl]
  change (readQuoted n _).bind _ = _
  rw [key, Option.bind_some]
  change (readValue n d (v.chars ++ rest)).bind _ = _
  rw [reads n rest (by omega), Option.bind_some]
  dsimp only
  rw [String.ofList_toList]
  cases skipBlank rest with
  | nil => rfl
  | cons c cs =>
    by_cases comma : c = ','
    · subst comma
      change (readEntries n d cs).bind _ = (readEntries n d cs).map _
      cases readEntries n d cs <;> rfl
    · by_cases closes : c = '\x7d'
      · subst closes
        rfl
      · simp [comma, closes]

private theorem readEntries_entryChars {entries : List (String × Value)} (nonempty : entries ≠ [])
    (reads : ∀ e ∈ entries, ReadsBack d e.2) (rest : List Char)
    (enough : (entryChars entries).length + 1 < n) :
    readEntries n d (entryChars entries ++ '\x7d' :: rest) = some (entries, rest) := by
  induction entries generalizing n with
  | nil => exact absurd rfl nonempty
  | cons e entries ih =>
    obtain ⟨k, v⟩ := e
    obtain ⟨n, rfl⟩ := Nat.exists_eq_add_one.mpr (Nat.zero_lt_of_lt enough)
    have first : ReadsBack d v := reads (k, v) List.mem_cons_self
    cases entries with
    | nil =>
      rw [entryChars] at enough ⊢
      rw [readEntries_entry k first _ (by omega), skipBlank_cons rfl]
      rfl
    | cons f entries =>
      have unfolded : entryChars ((k, v) :: f :: entries) =
          quoted k ++ ':' :: v.chars ++ ',' :: entryChars (f :: entries) := by
        rw [entryChars]
        exact List.cons_ne_nil f entries
      rw [unfolded, List.length_append, List.length_cons] at enough
      have later := ih (List.cons_ne_nil f entries)
        (fun x member => reads x (List.mem_cons_of_mem (k, v) member)) (n := n) (by omega)
      rw [unfolded, List.append_assoc, readEntries_entry k first _ (by omega), List.cons_append,
        skipBlank_cons rfl]
      change (readEntries n d _).map _ = _
      rw [later]
      rfl

theorem readValue_chars (plain : Plain d v) (rest : List Char) (enough : v.chars.length < n) :
    readValue n d (v.chars ++ rest) = some (v, rest) := by
  suffices reads : ReadsBack d v from reads n rest enough
  clear enough
  induction plain with
  | null =>
    intro n rest enough
    obtain ⟨n, rfl⟩ := Nat.exists_eq_add_one.mpr (Nat.zero_lt_of_lt enough)
    rfl
  | bool b =>
    intro n rest enough
    obtain ⟨n, rfl⟩ := Nat.exists_eq_add_one.mpr (Nat.zero_lt_of_lt enough)
    cases b <;> rfl
  | string s =>
    intro n rest enough
    obtain ⟨n, rfl⟩ := Nat.exists_eq_add_one.mpr (Nat.zero_lt_of_lt enough)
    simp only [chars, quoted, List.length_append, List.length_cons] at enough
    have written : (string s).chars ++ rest = '"' :: (s.toList.flatMap quotedChar ++ '"' :: rest) := by
      simp [chars, quoted]
    rw [written, readValue, skipBlank_cons rfl]
    change (readQuoted n _).map _ = _
    rw [readQuoted_quoted s.toList rest (by omega), Option.map_some]
    dsimp only
    rw [String.ofList_toList]
  | @list d items all ih =>
    intro n rest enough
    obtain ⟨n, rfl⟩ := Nat.exists_eq_add_one.mpr (Nat.zero_lt_of_lt enough)
    have written : (list items).chars ++ rest = '[' :: (itemChars items ++ ']' :: rest) := by
      simp [chars]
    rw [written, readValue, skipBlank_cons rfl]
    simp only [chars, List.length_append, List.length_cons, List.length_nil] at enough
    simp only [Nat.add_one_ne_zero, if_false, Nat.add_sub_cancel]
    cases items with
    | nil => rfl
    | cons w items =>
      obtain ⟨c, cs, head, inside, dark⟩ := (all w List.mem_cons_self).exists_head
      have read := readItems_itemChars (n := n) (List.cons_ne_nil w items) ih rest (by omega)
      -- A first item does not start like the end of a list.
      obtain ⟨tail, text⟩ : ∃ tail, itemChars (w :: items) ++ ']' :: rest = c :: tail := by
        cases items <;> simp [itemChars, head]
      rw [text] at read ⊢
      simp [skipBlank_cons dark, inside, read]
  | @record d entries ascending all ih =>
    intro n rest enough
    obtain ⟨n, rfl⟩ := Nat.exists_eq_add_one.mpr (Nat.zero_lt_of_lt enough)
    have written : (record entries).chars ++ rest =
        '\x7b' :: (entryChars entries ++ '\x7d' :: rest) := by
      simp [chars]
    rw [written, readValue, skipBlank_cons rfl]
    simp only [chars, List.length_append, List.length_cons, List.length_nil] at enough
    simp only [Nat.add_one_ne_zero, if_false, Nat.add_sub_cancel]
    cases entries with
    | nil => rfl
    | cons e entries =>
      have read := readEntries_entryChars (n := n) (List.cons_ne_nil e entries) ih rest (by omega)
      obtain ⟨tail, text⟩ : ∃ tail, entryChars (e :: entries) ++ '\x7d' :: rest = '"' :: tail := by
        cases entries <;> simp [entryChars, quoted]
      rw [text] at read ⊢
      change (readEntries n d ('"' :: tail)).map _ = _
      rw [read, Option.map_some]
      dsimp only
      rw [ofEntries_of_ascending ascending]

end

def compactCodec : TextCodec := ⟨compact, ofText?⟩

theorem faithful_compactCodec : compactCodec.Faithful := by
  intro v plain
  have read := readValue_chars (n := v.chars.length + 1) plain [] (Nat.lt_succ_self _)
  rw [List.append_nil] at read
  change ofText? v.compact = some v
  rw [ofText?, compact, String.toList_ofList, String.length_ofList, read]
  rfl

end Value

end RingOverlay
