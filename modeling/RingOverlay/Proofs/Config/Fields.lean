import Mathlib.Data.List.Forall2
import Mathlib.Logic.Function.Basic
import RingOverlay.Config.Shape
import RingOverlay.Proofs.Data.Spelling
/-!
Record types whose fields may all be left out. What is read is built from what is given for each field,
and it is read exactly if everything given has the form that its field asks for.
-/

set_option autoImplicit false
set_option relaxedAutoImplicit false

namespace RingOverlay

namespace Value

/-- The entries of a record that have one of the names; the items of a list, under the names that they
stand for. -/
def entriesFor (names : List String) : Value → List (String × Value)
  | .record entries => entries.filter (·.1 ∈ names)
  | .list items => names.zip items
  | _ => []

/-- What is given for a field. Of several entries the last one counts. -/
def given? (names : List String) (v : Value) (key : String) : Option Value :=
  (valuesOf key (v.entriesFor names)).getLast?

/-- That a value holds fields, each of which has the form that its name asks for. -/
def IsTable (forms : List (String × (Value → Prop))) (v : Value) : Prop :=
  (v.kind = .record ∨ v.kind = .list) ∧
    ∀ e ∈ v.entriesFor (forms.map (·.1)), ∀ p ∈ forms, p.1 = e.1 → p.2 e.2

end Value

theorem getLast?_valuesOf_concat (es : List (String × Value)) (e : String × Value) :
    (fun key => (valuesOf key (es ++ [e])).getLast?) =
      Function.update (fun key => (valuesOf key es).getLast?) e.1 (some e.2) := by
  funext key
  rw [Function.update_apply, valuesOf_append]
  split
  case isTrue same =>
    rw [same, valuesOf_cons_self, List.getLast?_append_cons]
    rfl
  case isFalse other =>
    rw [valuesOf_cons_of_ne (Ne.symm other)]
    simp [valuesOf]

theorem exists_of_forall₂ {α β : Type} {R : α → β → Prop} {as : List α} {bs : List β} {a : α}
    (related : List.Forall₂ R as bs) (member : a ∈ as) : ∃ b ∈ bs, R a b := by
  induction related with
  | nil => cases member
  | @cons _ b _ bs first _ ih =>
    rcases List.mem_cons.mp member with rfl | later
    · exact ⟨b, List.mem_cons_self, first⟩
    · obtain ⟨c, among, holds⟩ := ih later
      exact ⟨c, List.mem_cons_of_mem b among, holds⟩

/-- That a field has the name, may be left out, takes the values of the form, and is filled with what is
given for it in a record that is built from what is given. -/
structure RecordField.Fills {α : Type} (build : (String → Option Value) → α) (f : RecordField α)
    (p : String × (Value → Prop)) : Prop where
  name : f.name = p.1
  optional : f.required = false
  takes_iff : ∀ r v, (∃ r', f.store r v = .ok r') ↔ p.2 v
  stored : ∀ file v r, f.store (build file) v = .ok r → r = build (Function.update file f.name (some v))

theorem fills_optionalField {α β : Type} {build : (String → Option Value) → α} {name : String}
    {read : Value → Except ShapeError β} {put : α → β → α} {form : Value → Prop}
    (reads : ∀ v, (∃ x, read v = .ok x) ↔ form v)
    (puts : ∀ file v x, read v = .ok x →
      put (build file) x = build (Function.update file name (some v))) :
    (optionalField name read put).Fills build (name, form) where
  name := rfl
  optional := rfl
  takes_iff r v := by
    refine Iff.trans ?_ (reads v)
    simp only [optionalField, Except.map_eq_ok_iff]
    constructor
    · rintro ⟨_, x, here, -⟩
      exact ⟨x, here⟩
    · rintro ⟨x, here⟩
      exact ⟨put r x, x, here, rfl⟩
  stored file v r store := by
    obtain ⟨x, here, rfl⟩ := Except.map_eq_ok_iff.mp store
    exact puts file v x here

namespace RecordShape

variable {α : Type} {shape : RecordShape α} {forms : List (String × (Value → Prop))}
  {build : (String → Option Value) → α} {es : List (String × Value)} {items : List Value} {v : Value}
  {r r' : α} {f : RecordField α} {p : String × (Value → Prop)}

structure BuiltBy (shape : RecordShape α) (forms : List (String × (Value → Prop)))
    (build : (String → Option Value) → α) : Prop where
  names : (shape.fields.map (·.name)).Nodup
  surplus : shape.surplus = true
  blank : shape.blank = build fun _ => none
  fields : List.Forall₂ (RecordField.Fills build) shape.fields forms

theorem BuiltBy.map_name (built : shape.BuiltBy forms build) :
    shape.fields.map (·.name) = forms.map (·.1) := by
  obtain ⟨-, -, -, fields⟩ := built
  generalize shape.fields = fs at fields ⊢
  induction fields with
  | nil => rfl
  | cons first _ ih => rw [List.map_cons, List.map_cons, first.name, ih]

theorem BuiltBy.exists_form (built : shape.BuiltBy forms build) (member : f ∈ shape.fields) :
    ∃ p ∈ forms, f.Fills build p :=
  exists_of_forall₂ built.fields member

theorem BuiltBy.exists_field (built : shape.BuiltBy forms build) (member : p ∈ forms) :
    ∃ f ∈ shape.fields, f.Fills build p := by
  have sides : List.Forall₂ (fun p f => f.Fills build p) forms shape.fields := built.fields.flip
  exact exists_of_forall₂ sides member

theorem foldlM_filter (shape : RecordShape α) (es : List (String × Value)) (r : α) :
    (es.filter (·.1 ∈ shape.fields.map (·.name))).foldlM shape.storeEntry r =
      es.foldlM shape.storeEntry r := by
  induction es generalizing r with
  | nil => rfl
  | cons e es ih =>
    by_cases known : e.1 ∈ shape.fields.map (·.name)
    · rw [List.filter_cons, if_pos (decide_eq_true known)]
      simp only [List.foldlM_cons, ih]
    · have foreign : ∀ f ∈ shape.fields, f.name ≠ e.1 :=
        fun f member same => known (same ▸ List.mem_map_of_mem member)
      rw [List.filter_cons_of_neg (by simpa using known), List.foldlM_cons, storeEntry_foreign foreign]
      exact ih r

theorem exists_storeEntry {e : String × Value} (run : es.foldlM shape.storeEntry r = .ok r')
    (member : e ∈ es) : ∃ s s', shape.storeEntry s e = .ok s' := by
  induction es generalizing r with
  | nil => cases member
  | cons first es ih =>
    rw [List.foldlM_cons] at run
    obtain ⟨s, here, rest⟩ := Except.bind_eq_ok_iff.mp run
    rcases List.mem_cons.mp member with rfl | later
    · exact ⟨r, s, here⟩
    · exact ih rest later

theorem BuiltBy.eq_of_foldlM (built : shape.BuiltBy forms build) (known : ∀ e ∈ es, e.1 ∈ forms.map (·.1))
    (run : es.foldlM shape.storeEntry shape.blank = .ok r) :
    r = build fun key => (valuesOf key es).getLast? := by
  induction es using List.reverseRecOn generalizing r with
  | nil =>
    cases run
    exact built.blank
  | append_singleton es e ih =>
    obtain ⟨r₀, before, last⟩ := Except.foldlM_concat_eq_ok_iff.mp run
    obtain rfl := ih (fun e among => known e (List.mem_append_left _ among)) before
    obtain ⟨p, among, same⟩ := List.mem_map.mp (known e (List.mem_append_right _ List.mem_cons_self))
    obtain ⟨f, member, fills⟩ := built.exists_field among
    have named : e.1 = f.name := same.symm.trans fills.name.symm
    rw [storeEntry_eq built.names member named] at last
    rw [getLast?_valuesOf_concat, named]
    exact fills.stored _ _ _ last

theorem BuiltBy.foldlM_eq_ok_iff (built : shape.BuiltBy forms build)
    (known : ∀ e ∈ es, e.1 ∈ forms.map (·.1)) :
    es.foldlM shape.storeEntry shape.blank = .ok r ↔
      (∀ e ∈ es, ∀ p ∈ forms, p.1 = e.1 → p.2 e.2) ∧
        r = build fun key => (valuesOf key es).getLast? := by
  constructor
  · intro run
    refine ⟨fun e member p among same => ?_, built.eq_of_foldlM known run⟩
    obtain ⟨f, field, fills⟩ := built.exists_field among
    obtain ⟨s, s', stored⟩ := exists_storeEntry run member
    rw [storeEntry_eq built.names field (same.symm.trans fills.name.symm)] at stored
    exact (fills.takes_iff s e.2).mp ⟨s', stored⟩
  · rintro ⟨typed, rfl⟩
    have taken : ∀ f ∈ shape.fields, ∀ v ∈ valuesOf f.name es, f.Takes v := fun f field v given s => by
      obtain ⟨p, among, fills⟩ := built.exists_form field
      exact (fills.takes_iff s v).mpr
        (typed (f.name, v) (mem_valuesOf.mp given) p among fills.name.symm)
    obtain ⟨r, run⟩ := exists_stored built.names taken shape.blank
    rw [run, built.eq_of_foldlM known run]

theorem BuiltBy.optional (built : shape.BuiltBy forms build) (member : f ∈ shape.fields) :
    f.required = false := by
  obtain ⟨_, _, fills⟩ := built.exists_form member
  exact fills.optional

theorem BuiltBy.readEntries_eq (built : shape.BuiltBy forms build) (es : List (String × Value)) :
    shape.readEntries es =
      (es.filter (·.1 ∈ forms.map (·.1))).foldlM shape.storeEntry shape.blank := by
  have complete : (shape.fields.find? fun f => f.required && !es.any (·.1 == f.name)) = none := by
    rw [List.find?_eq_none]
    intro f member
    simp [built.optional member]
  unfold readEntries
  rw [complete, ← built.map_name, foldlM_filter]
  exact bind_pure _

theorem BuiltBy.readItems_eq (built : shape.BuiltBy forms build) (items : List Value) :
    shape.readItems items =
      ((forms.map (·.1)).zip items).foldlM shape.storeEntry shape.blank := by
  have complete : (shape.fields.drop items.length).findIdx? (·.required) = none := by
    rw [List.findIdx?_eq_none_iff]
    intro f member
    exact built.optional (List.mem_of_mem_drop member)
  have labelled : ((shape.fields.zip items).map fun p => (p.1.name, p.2)) =
      (forms.map (·.1)).zip items := by
    rw [← built.map_name, List.zip_map_left]
    rfl
  unfold readItems
  rw [complete, foldlM_zip built.names (List.Subset.refl _), labelled]
  simp only [built.surplus, or_true, if_true]
  exact bind_pure _

/-- A record is read from a value exactly if the value holds fields in the forms that are asked for. It
is then built from what is given for each field. -/
theorem BuiltBy.read_eq_ok_iff (built : shape.BuiltBy forms build) :
    shape.read v = .ok r ↔ v.IsTable forms ∧ r = build (v.given? (forms.map (·.1))) := by
  cases v with
  | record entries =>
    rw [read, built.readEntries_eq,
      built.foldlM_eq_ok_iff fun _ member => of_decide_eq_true (List.mem_filter.mp member).2]
    exact ⟨fun ⟨typed, same⟩ => ⟨⟨.inl rfl, typed⟩, same⟩, fun ⟨⟨_, typed⟩, same⟩ => ⟨typed, same⟩⟩
  | list items =>
    rw [read, built.readItems_eq,
      built.foldlM_eq_ok_iff fun _ member => (List.of_mem_zip member).1]
    exact ⟨fun ⟨typed, same⟩ => ⟨⟨.inr rfl, typed⟩, same⟩, fun ⟨⟨_, typed⟩, same⟩ => ⟨typed, same⟩⟩
  | _ => simp [read, Value.unexpected, Value.IsTable, Value.kind]

theorem BuiltBy.eq_of_read (built : shape.BuiltBy forms build) (here : shape.read v = .ok r) :
    r = build (v.given? (forms.map (·.1))) :=
  (built.read_eq_ok_iff.mp here).2

theorem BuiltBy.exists_read_iff (built : shape.BuiltBy forms build) (v : Value) :
    (∃ r, shape.read v = .ok r) ↔ v.IsTable forms := by
  simp only [built.read_eq_ok_iff, exists_and_left, exists_eq, and_true]

end RecordShape

end RingOverlay
