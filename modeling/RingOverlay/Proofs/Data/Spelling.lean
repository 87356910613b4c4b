import Mathlib.Data.List.Induction
import Mathlib.Data.List.Nodup
import RingOverlay.Data.Shape
/-!
The many spellings of a record. Where fields are stored independently of each other, what is read from
a value depends on the last spelling of each field only, and a field that is left out reads as its
default. So values that spell the same fields are read as the same record, whether they are records or
lists, with or without entries that no field asks for.
-/

set_option autoImplicit false
set_option relaxedAutoImplicit false

namespace RingOverlay

theorem Except.map_eq_ok_iff {ε α β : Type} {g : α → β} {e : Except ε α} {y : β} :
    g <$> e = .ok y ↔ ∃ x, e = .ok x ∧ g x = y := by
  cases e <;> simp [Functor.map, Except.map]

theorem Except.bind_eq_ok_iff {ε α β : Type} {e : Except ε α} {f : α → Except ε β} {y : β} :
    e >>= f = .ok y ↔ ∃ x, e = .ok x ∧ f x = .ok y := by
  cases e <;> simp [bind, Except.bind]

theorem Except.foldlM_concat_eq_ok_iff {ε α β : Type} {f : β → α → Except ε β} {xs : List α} {x : α}
    {b b' : β} : (xs ++ [x]).foldlM f b = .ok b' ↔ ∃ b₀, xs.foldlM f b = .ok b₀ ∧ f b₀ x = .ok b' := by
  rw [List.foldlM_append, Except.bind_eq_ok_iff]
  simp only [List.foldlM_cons, List.foldlM_nil, bind_pure]

def valuesOf (key : String) (entries : List (String × Value)) : List Value :=
  (entries.filter (·.1 = key)).map (·.2)

section

variable {key k : String} {v : Value} {es fs : List (String × Value)}

theorem valuesOf_append : valuesOf key (es ++ fs) = valuesOf key es ++ valuesOf key fs := by
  simp [valuesOf]

theorem valuesOf_cons_self : valuesOf key ((key, v) :: es) = v :: valuesOf key es := by
  simp [valuesOf]

theorem valuesOf_cons_of_ne (other : k ≠ key) : valuesOf key ((k, v) :: es) = valuesOf key es := by
  simp [valuesOf, other]

theorem valuesOf_eq_nil (none_left : ∀ e ∈ es, e.1 ≠ key) : valuesOf key es = [] := by
  simpa [valuesOf] using none_left

theorem mem_valuesOf : v ∈ valuesOf key es ↔ (key, v) ∈ es := by
  simp [valuesOf]

end

namespace RecordField

variable {α : Type} {f : RecordField α} {r r' m : α} {v w blank : Value} {vs ws : List Value}

/-- That a record shows a value in a field: storing the value changes nothing. -/
def Shows (f : RecordField α) (r : α) (v : Value) : Prop := f.store r v = .ok r

def Takes (f : RecordField α) (v : Value) : Prop := ∀ r, ∃ r', f.store r v = .ok r'

/-- That some spellings of a field yield what a record has there: all of them are taken, and the
record shows the last one, or the default if there is none. -/
structure Fits (f : RecordField α) (blank : Value) (m : α) (vs : List Value) : Prop where
  taken : ∀ v ∈ vs, f.Takes v
  shown : f.Shows m (vs.getLast?.getD blank)
  present : f.required = true → vs ≠ []

/-- That a field does not tell a value from another if it takes it. -/
def Passes (f : RecordField α) (v w : Value) : Prop :=
  ∀ r r', f.store r v = .ok r' → f.store r w = .ok r'

structure Sets {β : Type} (f : RecordField α) (read : Value → Except ShapeError β) (set : α → β → α)
    (get : α → β) : Prop where
  store : ∀ r v, f.store r v = set r <$> read v
  get_set : ∀ r x, get (set r x) = x
  set_get : ∀ r, set r (get r) = r

section

variable {β : Type} {read : Value → Except ShapeError β} {set : α → β → α} {get : α → β}

theorem Sets.shows_iff (sets : f.Sets read set get) : f.Shows r v ↔ read v = .ok (get r) := by
  rw [Shows, sets.store, Except.map_eq_ok_iff]
  constructor
  · rintro ⟨x, here, same⟩
    rw [here, ← same, sets.get_set]
  · intro here
    exact ⟨get r, here, sets.set_get r⟩

theorem Sets.takes (sets : f.Sets read set get) (stored : f.store r v = .ok r') : f.Takes v := by
  intro s
  rw [sets.store, Except.map_eq_ok_iff] at stored
  obtain ⟨x, here, -⟩ := stored
  exact ⟨set s x, by rw [sets.store, here]; rfl⟩

theorem Sets.shows (sets : f.Sets read set get) (stored : f.store r v = .ok r') : f.Shows r' v := by
  rw [sets.store, Except.map_eq_ok_iff] at stored
  obtain ⟨x, here, rfl⟩ := stored
  rw [sets.shows_iff, here, sets.get_set]

theorem Sets.agree (sets : f.Sets read set get) (here : f.Shows r v) (there : f.Shows r' v) :
    get r = get r' :=
  Except.ok.inj ((sets.shows_iff.mp here).symm.trans (sets.shows_iff.mp there))

theorem Sets.shows_of_eq (sets : f.Sets read set get) (shown : f.Shows r v) (kept : get r' = get r) :
    f.Shows r' v := by
  rw [sets.shows_iff] at shown ⊢
  rw [shown, kept]

theorem Sets.passes (sets : f.Sets read set get) (passes : ∀ x, read v = .ok x → read w = .ok x) :
    f.Passes v w := by
  intro r r' stored
  rw [sets.store, Except.map_eq_ok_iff] at stored ⊢
  obtain ⟨x, before, same⟩ := stored
  exact ⟨x, passes x before, same⟩

end

theorem Fits.respell (fits : f.Fits blank m (vs ++ v :: ws)) (passes : f.Passes v w) :
    f.Fits blank m (vs ++ w :: ws) := by
  refine ⟨fun x member => ?_, ?_, fun _ => by simp⟩
  · rcases List.mem_append.mp member with before | here
    · exact fits.taken x (List.mem_append_left _ before)
    · rcases List.mem_cons.mp here with rfl | after
      · intro r
        obtain ⟨r', stored⟩ := fits.taken v (by simp) r
        exact ⟨r', passes r r' stored⟩
      · exact fits.taken x (by simp [after])
  · have shown := fits.shown
    rcases List.eq_nil_or_concat ws with rfl | ⟨ws, last, rfl⟩
    · rw [List.getLast?_concat] at shown ⊢
      exact passes m m shown
    · rw [List.concat_eq_append, ← List.cons_append, ← List.append_assoc, List.getLast?_concat] at shown ⊢
      exact shown

end RecordField

namespace RecordShape

variable {α : Type}

/-- That the fields of a record type are stored independently of each other and make up the record.
The second argument gives the defaults of the fields. -/
structure Lawful (shape : RecordShape α) (blank : String → Value) : Prop where
  names : (shape.fields.map (·.name)).Nodup
  sets : ∀ f ∈ shape.fields, ∃ (β : Type) (read : Value → Except ShapeError β) (set : α → β → α)
    (get : α → β), f.Sets read set get
  apart : ∀ f ∈ shape.fields, ∀ g ∈ shape.fields, f.name ≠ g.name →
    ∀ r r' v w, f.Shows r v → g.store r w = .ok r' → f.Shows r' v
  determined : ∀ r r', (∀ f ∈ shape.fields, ∃ v, f.Shows r v ∧ f.Shows r' v) → r = r'
  blanks : ∀ f ∈ shape.fields, f.Shows shape.blank (blank f.name)
  bounded : shape.surplus = false

def Spelt (shape : RecordShape α) (blank : String → Value) (m : α) (es : List (String × Value)) : Prop :=
  ∀ f ∈ shape.fields, f.Fits (blank f.name) m (valuesOf f.name es)

section

variable {shape : RecordShape α} {blank : String → Value} {r r' m : α} {e : String × Value}
  {es : List (String × Value)} {f g : RecordField α} {items : List Value} {i : Nat}

theorem Lawful.takes (lawful : shape.Lawful blank) (member : f ∈ shape.fields) {v : Value}
    (stored : f.store r v = .ok r') : f.Takes v := by
  obtain ⟨_, _, _, _, sets⟩ := lawful.sets f member
  exact sets.takes stored

theorem Lawful.shows (lawful : shape.Lawful blank) (member : f ∈ shape.fields) {v : Value}
    (stored : f.store r v = .ok r') : f.Shows r' v := by
  obtain ⟨_, _, _, _, sets⟩ := lawful.sets f member
  exact sets.shows stored

theorem same_field (names : (shape.fields.map (·.name)).Nodup) (hf : f ∈ shape.fields)
    (hg : g ∈ shape.fields) (same : f.name = g.name) : f = g :=
  List.inj_on_of_nodup_map names hf hg same

theorem find?_name (names : (shape.fields.map (·.name)).Nodup) (member : f ∈ shape.fields) :
    shape.fields.find? (·.name == f.name) = some f := by
  obtain ⟨g, found⟩ : ∃ g, shape.fields.find? (·.name == f.name) = some g := by
    rw [← Option.isSome_iff_exists, List.find?_isSome]
    exact ⟨f, member, beq_self_eq_true _⟩
  have same := List.find?_some found
  rw [found, same_field names (List.mem_of_find?_eq_some found) member (by simpa using same)]

theorem storeEntry_eq (names : (shape.fields.map (·.name)).Nodup) (member : f ∈ shape.fields)
    (same : e.1 = f.name) : shape.storeEntry r e = f.store r e.2 := by
  rw [storeEntry, same, find?_name names member]

theorem storeEntry_foreign (foreign : ∀ f ∈ shape.fields, f.name ≠ e.1) :
    shape.storeEntry r e = .ok r := by
  have nobody : shape.fields.find? (·.name == e.1) = none := by
    rw [List.find?_eq_none]
    intro f member
    simpa using foreign f member
  rw [storeEntry, nobody]

theorem field_or_foreign (shape : RecordShape α) (key : String) :
    (∃ f ∈ shape.fields, key = f.name) ∨ ∀ f ∈ shape.fields, f.name ≠ key := by
  by_cases known : ∃ f ∈ shape.fields, key = f.name
  · exact Or.inl known
  · exact Or.inr fun f member same => known ⟨f, member, same.symm⟩

private theorem Lawful.stored (lawful : shape.Lawful blank)
    (read : es.foldlM shape.storeEntry shape.blank = .ok r) : ∀ f ∈ shape.fields,
      (∀ v ∈ valuesOf f.name es, f.Takes v) ∧
        f.Shows r ((valuesOf f.name es).getLast?.getD (blank f.name)) := by
  -- From the last entry on, since each one overrules those before it.
  induction es using List.reverseRecOn generalizing r with
  | nil =>
    obtain rfl : shape.blank = r := Except.ok.inj read
    exact fun f member => ⟨fun v absent => by simp [valuesOf] at absent, lawful.blanks f member⟩
  | append_singleton es e ih =>
    obtain ⟨r₀, before, read⟩ := Except.foldlM_concat_eq_ok_iff.mp read
    obtain ⟨k, last⟩ := e
    intro f member
    obtain ⟨taken, shown⟩ := ih before f member
    rw [valuesOf_append]
    by_cases here : k = f.name
    · subst here
      rw [storeEntry_eq lawful.names member rfl] at read
      rw [valuesOf_cons_self, List.getLast?_append_cons]
      refine ⟨fun v among => ?_, lawful.shows member read⟩
      rcases List.mem_append.mp among with before | here
      · exact taken v before
      · obtain rfl : v = last := by simpa [valuesOf] using here
        exact lawful.takes member read
    · have others : valuesOf f.name es ++ valuesOf f.name [(k, last)] = valuesOf f.name es := by
        rw [valuesOf_cons_of_ne here]
        exact List.append_nil _
      rw [others]
      refine ⟨taken, ?_⟩
      rcases shape.field_or_foreign k with ⟨g, among, rfl⟩ | foreign
      · rw [storeEntry_eq lawful.names among rfl] at read
        exact lawful.apart f member g among (Ne.symm here) _ _ _ _ shown read
      · rw [storeEntry_foreign foreign] at read
        exact Except.ok.inj read ▸ shown

theorem exists_stored (names : (shape.fields.map (·.name)).Nodup)
    (taken : ∀ f ∈ shape.fields, ∀ v ∈ valuesOf f.name es, f.Takes v) (r : α) :
    ∃ r', es.foldlM shape.storeEntry r = .ok r' := by
  induction es generalizing r with
  | nil => exact ⟨r, rfl⟩
  | cons e es ih =>
    obtain ⟨r₁, first⟩ : ∃ r₁, shape.storeEntry r e = .ok r₁ := by
      rcases shape.field_or_foreign e.1 with ⟨f, member, same⟩ | foreign
      · rw [storeEntry_eq names member same]
        exact taken f member e.2 (mem_valuesOf.mpr (same ▸ List.mem_cons_self)) r
      · exact ⟨r, storeEntry_foreign foreign⟩
    obtain ⟨r₂, later⟩ := ih (fun f member v among => by
      refine taken f member v (mem_valuesOf.mpr ?_)
      exact List.mem_cons_of_mem e (mem_valuesOf.mp among)) r₁
    refine ⟨r₂, ?_⟩
    rw [List.foldlM_cons, first]
    exact later

theorem Lawful.foldlM_eq_ok_iff (lawful : shape.Lawful blank) :
    es.foldlM shape.storeEntry shape.blank = .ok m ↔ ∀ f ∈ shape.fields,
      (∀ v ∈ valuesOf f.name es, f.Takes v) ∧
        f.Shows m ((valuesOf f.name es).getLast?.getD (blank f.name)) := by
  refine ⟨lawful.stored, fun spelt => ?_⟩
  obtain ⟨r, stored⟩ := exists_stored lawful.names (fun f member => (spelt f member).1) shape.blank
  rw [stored, lawful.determined r m]
  exact fun f member => ⟨_, (lawful.stored stored f member).2, (spelt f member).2⟩

private theorem Lawful.spelt_iff (lawful : shape.Lawful blank) : shape.Spelt blank m es ↔
    es.foldlM shape.storeEntry shape.blank = .ok m ∧
      ∀ f ∈ shape.fields, f.required = true → valuesOf f.name es ≠ [] := by
  rw [lawful.foldlM_eq_ok_iff]
  constructor
  · intro spelt
    exact ⟨fun f member => ⟨(spelt f member).taken, (spelt f member).shown⟩,
      fun f member => (spelt f member).present⟩
  · rintro ⟨stored, present⟩ f member
    exact ⟨(stored f member).1, (stored f member).2, present f member⟩

theorem Lawful.readEntries_eq_ok_iff (lawful : shape.Lawful blank) :
    shape.readEntries es = .ok m ↔ shape.Spelt blank m es := by
  have complete : (shape.fields.find? fun f => f.required && !es.any (·.1 == f.name)) = none ↔
      ∀ f ∈ shape.fields, f.required = true → valuesOf f.name es ≠ [] := by
    rw [List.find?_eq_none]
    refine forall₂_congr fun f _ => ?_
    simp [valuesOf]
  rw [lawful.spelt_iff, ← complete]
  unfold readEntries
  cases es.foldlM shape.storeEntry shape.blank with
  | error _ => simp [bind, Except.bind]
  | ok r =>
    simp only [bind, Except.bind]
    split <;> simp_all

def labelled (shape : RecordShape α) (items : List Value) : List (String × Value) :=
  (shape.fields.zip items).map fun p => (p.1.name, p.2)

private theorem valuesOf_zip {fields : List (RecordField α)} (names : (fields.map (·.name)).Nodup)
    (here : fields[i]? = some f) (items : List Value) :
    valuesOf f.name ((fields.zip items).map fun p => (p.1.name, p.2)) = items[i]?.toList := by
  induction fields generalizing i items with
  | nil => simp at here
  | cons g fields ih =>
    rw [List.map_cons, List.nodup_cons] at names
    cases items with
    | nil => simp [valuesOf]
    | cons v items =>
      rw [List.zip_cons_cons, List.map_cons]
      dsimp only
      cases i with
      | zero =>
        obtain rfl : g = f := by simpa using here
        rw [valuesOf_cons_self, valuesOf_eq_nil]
        · rfl
        · intro e member same
          obtain ⟨p, among, rfl⟩ := List.mem_map.mp member
          exact names.1 (List.mem_map.mpr ⟨p.1, (List.of_mem_zip among).1, same⟩)
      | succ i =>
        rw [List.getElem?_cons_succ] at here
        rw [valuesOf_cons_of_ne, ih names.2 here, List.getElem?_cons_succ]
        intro same
        exact names.1 (List.mem_map.mpr ⟨f, List.mem_of_getElem? here, same.symm⟩)

theorem Lawful.valuesOf_labelled (lawful : shape.Lawful blank) (here : shape.fields[i]? = some f)
    (items : List Value) : valuesOf f.name (shape.labelled items) = items[i]?.toList :=
  valuesOf_zip lawful.names here items

theorem foldlM_zip (names : (shape.fields.map (·.name)).Nodup) {fields : List (RecordField α)}
    (known : fields ⊆ shape.fields) (items : List Value) (r : α) :
    (fields.zip items).foldlM (fun r (f, v) => f.store r v) r =
      ((fields.zip items).map fun p => (p.1.name, p.2)).foldlM shape.storeEntry r := by
  rw [List.foldlM_map]
  induction fields generalizing items r with
  | nil => rfl
  | cons f fields ih =>
    cases items with
    | nil => rfl
    | cons v items =>
      have here : shape.storeEntry r (f.name, v) = f.store r v :=
        storeEntry_eq names (known List.mem_cons_self) rfl
      rw [List.zip_cons_cons, List.foldlM_cons, List.foldlM_cons]
      dsimp only
      rw [here]
      exact bind_congr fun r => ih (fun g member => known (List.mem_cons_of_mem f member)) items r

theorem Lawful.readItems_eq_ok_iff (lawful : shape.Lawful blank) : shape.readItems items = .ok m ↔
    items.length ≤ shape.fields.length ∧ shape.Spelt blank m (shape.labelled items) := by
  have complete : ((shape.fields.drop items.length).findIdx? (·.required)) = none ↔
      ∀ f ∈ shape.fields, f.required = true → valuesOf f.name (shape.labelled items) ≠ [] := by
    rw [List.findIdx?_eq_none_iff]
    constructor
    · intro optional f member required nothing
      obtain ⟨i, here⟩ := List.mem_iff_getElem?.mp member
      rw [lawful.valuesOf_labelled here] at nothing
      have beyond : items.length ≤ i := by simpa using nothing
      have dropped : (shape.fields.drop items.length)[i - items.length]? = some f := by
        rw [List.getElem?_drop, Nat.add_sub_cancel' beyond, here]
      simp [optional f (List.mem_of_getElem? dropped)] at required
    · intro present f member
      obtain ⟨i, here⟩ := List.mem_iff_getElem?.mp member
      rw [List.getElem?_drop] at here
      by_contra required
      refine present f (List.mem_of_getElem? here) (by simpa using required) ?_
      rw [lawful.valuesOf_labelled here, List.getElem?_eq_none (Nat.le_add_right ..)]
      rfl
  have stored := foldlM_zip lawful.names (List.Subset.refl _) items shape.blank
  rw [lawful.spelt_iff, ← complete]
  unfold readItems
  rw [stored]
  change ((shape.labelled items).foldlM shape.storeEntry shape.blank).bind _ = _ ↔ _
  cases (shape.labelled items).foldlM shape.storeEntry shape.blank with
  | error _ => simp [Except.bind]
  | ok r =>
    simp only [Except.bind, lawful.bounded]
    split
    case h_1 i missing => simp [missing]
    case h_2 complete =>
      split
      case isTrue within => simp_all
      case isFalse beyond =>
        have outside : ¬ items.length ≤ shape.fields.length := fun within => beyond (Or.inl within)
        simp [outside]

/-- Other spellings of a record, of which a reader should make the same: entries that no field asks
for may come in and change, fields may be respelt in ways of their own, a record may be given as the
list of all its fields, and such a list may end before a field with its default. -/
inductive Respells (shape : RecordShape α) (blank : String → Value)
    (inner : String → Value → Value → Prop) : Value → Value → Prop
  | added (before after : List (String × Value)) (key : String) (v : Value)
      (foreign : ∀ f ∈ shape.fields, f.name ≠ key) :
      Respells shape blank inner (.record (before ++ after)) (.record (before ++ (key, v) :: after))
  | ignored (before after : List (String × Value)) (key : String) (v w : Value)
      (foreign : ∀ f ∈ shape.fields, f.name ≠ key) :
      Respells shape blank inner (.record (before ++ (key, v) :: after))
        (.record (before ++ (key, w) :: after))
  | entry (before after : List (String × Value)) {key : String} {v w : Value}
      (respelt : inner key v w) :
      Respells shape blank inner (.record (before ++ (key, v) :: after))
        (.record (before ++ (key, w) :: after))
  | positional (es : List (String × Value)) :
      Respells shape blank inner (.record es)
        (.list (shape.fields.map fun f => (valuesOf f.name es).getLast?.getD (blank f.name)))
  | item (before after : List Value) {f : RecordField α} {v w : Value}
      (here : shape.fields[before.length]? = some f) (respelt : inner f.name v w) :
      Respells shape blank inner (.list (before ++ v :: after)) (.list (before ++ w :: after))
  | cut (items : List Value) {f : RecordField α} (here : shape.fields[items.length]? = some f)
      (optional : f.required = false) :
      Respells shape blank inner (.list (items ++ [blank f.name])) (.list items)

variable {inner : String → Value → Value → Prop} {v w : Value}

private theorem Lawful.fits_at (lawful : shape.Lawful blank)
    (spelt : shape.Spelt blank m (shape.labelled items)) (here : shape.fields[i]? = some f) :
    f.Fits (blank f.name) m items[i]?.toList :=
  lawful.valuesOf_labelled here items ▸ spelt f (List.mem_of_getElem? here)

private theorem Lawful.spelt_labelled (lawful : shape.Lawful blank)
    (fits : ∀ (i : Nat) (f : RecordField α), shape.fields[i]? = some f →
      f.Fits (blank f.name) m items[i]?.toList) :
    shape.Spelt blank m (shape.labelled items) := by
  intro f member
  obtain ⟨i, here⟩ := List.mem_iff_getElem?.mp member
  rw [lawful.valuesOf_labelled here]
  exact fits i f here

theorem Lawful.read_respelt (lawful : shape.Lawful blank)
    (passes : ∀ f ∈ shape.fields, ∀ v w, inner f.name v w → f.Passes v w)
    (respells : shape.Respells blank inner v w) (read : shape.read v = .ok m) :
    shape.read w = .ok m := by
  cases respells with
  | added before after key v foreign =>
    refine lawful.readEntries_eq_ok_iff.mpr fun f member => ?_
    have fits := lawful.readEntries_eq_ok_iff.mp read f member
    rw [valuesOf_append] at fits ⊢
    rwa [valuesOf_cons_of_ne (foreign f member).symm]
  | ignored before after key v w foreign =>
    refine lawful.readEntries_eq_ok_iff.mpr fun f member => ?_
    have fits := lawful.readEntries_eq_ok_iff.mp read f member
    rw [valuesOf_append, valuesOf_cons_of_ne (foreign f member).symm] at fits ⊢
    exact fits
  | @entry before after key v w respelt =>
    refine lawful.readEntries_eq_ok_iff.mpr fun f member => ?_
    have fits := lawful.readEntries_eq_ok_iff.mp read f member
    rw [valuesOf_append] at fits ⊢
    by_cases here : key = f.name
    · subst here
      rw [valuesOf_cons_self] at fits ⊢
      exact fits.respell (passes f member v w respelt)
    · rw [valuesOf_cons_of_ne here] at fits ⊢
      exact fits
  | positional es =>
    have spelt := lawful.readEntries_eq_ok_iff.mp read
    refine lawful.readItems_eq_ok_iff.mpr ⟨Nat.le_of_eq (List.length_map _), ?_⟩
    refine lawful.spelt_labelled fun i f here => ?_
    have fits := spelt f (List.mem_of_getElem? here)
    rw [List.getElem?_map, here, Option.map_some, Option.toList_some]
    refine ⟨fun v among => ?_, fits.shown, fun _ => List.cons_ne_nil _ _⟩
    obtain rfl := List.mem_singleton.mp among
    exact lawful.takes (List.mem_of_getElem? here) fits.shown
  | @item before after g v w at_item respelt =>
    obtain ⟨within, spelt⟩ := lawful.readItems_eq_ok_iff.mp read
    refine lawful.readItems_eq_ok_iff.mpr ⟨by simpa using within, lawful.spelt_labelled fun i f here => ?_⟩
    have fits := lawful.fits_at spelt here
    rcases Nat.lt_trichotomy i before.length with less | rfl | more
    · rwa [List.getElem?_append_left less] at fits ⊢
    · obtain rfl : g = f := Option.some.inj (at_item.symm.trans here)
      rw [List.getElem?_append_right (Nat.le_refl _), Nat.sub_self] at fits ⊢
      have only : g.Fits (blank g.name) m ([] ++ v :: []) := fits
      exact only.respell (passes g (List.mem_of_getElem? here) v w respelt)
    · obtain ⟨j, rfl⟩ := Nat.exists_eq_add_of_lt more
      rw [List.getElem?_append_right (by omega)] at fits ⊢
      have past : before.length + j + 1 - before.length = j + 1 := by omega
      rwa [past, List.getElem?_cons_succ] at fits ⊢
  | @cut items g at_end optional =>
    obtain ⟨within, spelt⟩ := lawful.readItems_eq_ok_iff.mp read
    rw [List.length_append] at within
    refine lawful.readItems_eq_ok_iff.mpr ⟨by omega, lawful.spelt_labelled fun i f here => ?_⟩
    have fits := lawful.fits_at spelt here
    rcases Nat.lt_trichotomy i items.length with less | rfl | more
    · rwa [List.getElem?_append_left less] at fits
    · obtain rfl : g = f := Option.some.inj (at_end.symm.trans here)
      rw [List.getElem?_concat_length] at fits
      rw [List.getElem?_eq_none (Nat.le_refl _)]
      refine ⟨fun v among => absurd among List.not_mem_nil, fits.shown, fun required => ?_⟩
      rw [optional] at required
      cases required
    · rw [List.getElem?_eq_none (by simp only [List.length_append, List.length_singleton]; omega)] at fits
      rwa [List.getElem?_eq_none (Nat.le_of_lt more)]

end

end RecordShape

inductive Value.ItemRespelt (R : Value → Value → Prop) : Value → Value → Prop
  | item (before after : List Value) {v w : Value} (respelt : R v w) :
      ItemRespelt R (.list (before ++ v :: after)) (.list (before ++ w :: after))

theorem Value.readList_respelt {α : Type} {R : Value → Value → Prop} {v w : Value} {xs : List α}
    {read : Value → Except ShapeError α}
    (passes : ∀ v w x, R v w → read v = .ok x → read w = .ok x) (respelt : ItemRespelt R v w)
    (before : v.readList read = .ok xs) : w.readList read = .ok xs := by
  cases respelt with
  | @item front back v w respelt =>
    simp only [readList, List.mapM_append, List.mapM_cons] at before ⊢
    cases here : read v with
    | error e =>
      rw [here] at before
      cases ahead : front.mapM read <;> rw [ahead] at before <;> cases before
    | ok x =>
      rw [here] at before
      rw [passes v w x respelt here]
      exact before

end RingOverlay
