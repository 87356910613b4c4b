import Mathlib.Data.List.DropRight
import Mathlib.Data.List.Forall2
import RingOverlay.Config.Environment
/-!
The pieces of a text between commas. A list that the environment gives consists of exactly those pieces
that hold more than white space, without the white space at their ends and in their order.
-/

set_option autoImplicit false
set_option relaxedAutoImplicit false

namespace RingOverlay

namespace Text

variable {cs ts : List Char}

def Trims (cs ts : List Char) : Prop :=
  (∃ front back, cs = front ++ ts ++ back ∧ ∀ c ∈ front ++ back, isBlank c = true) ∧
    (∀ c ∈ ts.head?, isBlank c = false) ∧ ∀ c ∈ ts.getLast?, isBlank c = false

theorem trim_eq (cs : List Char) : trim cs = (cs.dropWhile isBlank).rdropWhile isBlank := rfl

theorem dropWhile_append {p : Char → Bool} (inside : ∀ c ∈ cs, p c = true)
    (boundary : ∀ c ∈ ts.head?, p c = false) : (cs ++ ts).dropWhile p = ts := by
  rw [List.dropWhile_append_of_pos inside]
  cases ts with
  | nil => rfl
  | cons c ts => rw [List.dropWhile_cons_of_neg (by simp [boundary c rfl])]

theorem trims_trim (cs : List Char) : Trims cs (trim cs) := by
  rw [trim_eq]
  have whole : (cs.dropWhile isBlank).rdropWhile isBlank ++ (cs.dropWhile isBlank).rtakeWhile isBlank =
      cs.dropWhile isBlank := List.rdropWhile_append_rtakeWhile
  refine ⟨⟨cs.takeWhile isBlank, (cs.dropWhile isBlank).rtakeWhile isBlank, ?_, fun c member => ?_⟩,
    fun c first => ?_, fun c last => ?_⟩
  · rw [List.append_assoc, whole, List.takeWhile_append_dropWhile]
  · rcases List.mem_append.mp member with front | back
    · exact List.mem_takeWhile_imp front
    · exact List.mem_rtakeWhile_imp back
  · obtain ⟨rest, kept⟩ := List.rdropWhile_prefix isBlank (l := cs.dropWhile isBlank)
    have head := List.head?_dropWhile_not isBlank cs
    rw [← kept, List.head?_append, first] at head
    exact head
  · have some_left : (cs.dropWhile isBlank).rdropWhile isBlank ≠ [] := by
      rintro nothing
      rw [nothing] at last
      cases last
    have kept := List.rdropWhile_last_not isBlank _ some_left
    rw [List.getLast?_eq_some_getLast some_left, Option.mem_some] at last
    rw [last] at kept
    exact Bool.eq_false_iff.mpr kept

theorem Trims.eq_trim (trims : Trims cs ts) : ts = trim cs := by
  obtain ⟨⟨front, back, rfl, blank⟩, first, last⟩ := trims
  rw [List.forall_mem_append] at blank
  cases ts with
  | nil =>
    have nothing : (front ++ [] ++ back).dropWhile isBlank = [] := by
      rw [List.append_nil, List.dropWhile_append_of_pos blank.1, List.dropWhile_eq_nil_iff.mpr blank.2]
    rw [trim_eq, nothing]
    rfl
  | cons c ts =>
    have front_off : (front ++ (c :: ts) ++ back).dropWhile isBlank = (c :: ts) ++ back := by
      rw [List.append_assoc]
      exact dropWhile_append blank.1 first
    have back_off : ((c :: ts) ++ back).reverse.dropWhile isBlank = (c :: ts).reverse := by
      rw [List.reverse_append]
      refine dropWhile_append (fun d member => blank.2 d (List.mem_reverse.mp member)) ?_
      rw [List.head?_reverse]
      exact last
    rw [trim_eq, front_off, List.rdropWhile, back_off, List.reverse_reverse]

theorem trims_iff : Trims cs ts ↔ ts = trim cs :=
  ⟨Trims.eq_trim, fun same => same ▸ trims_trim cs⟩

end Text

def SplitAtCommas (cs : List Char) (pieces : List (List Char)) : Prop :=
  pieces ≠ [] ∧ (∀ p ∈ pieces, ',' ∉ p) ∧ [','].intercalate pieces = cs

theorem splitCommas_eq_splitOn (cs : List Char) : splitCommas cs = cs.splitOn ',' := by
  induction cs with
  | nil => rfl
  | cons c cs ih =>
    rw [splitCommas, ih, List.splitOn_cons_eq_if_modifyHead]
    cases h : cs.splitOn ',' with
    | nil => exact absurd h (List.splitOn_ne_nil ',' cs)
    | cons p ps => by_cases comma : c = ',' <;> simp [comma]

theorem not_mem_of_mem_splitOn (cs : List Char) : ∀ p ∈ cs.splitOn ',', ',' ∉ p := by
  induction cs with
  | nil => simp
  | cons c cs ih =>
    rw [List.splitOn_cons_eq_if_modifyHead]
    cases pieces : cs.splitOn ',' with
    | nil => exact absurd pieces (List.splitOn_ne_nil ',' cs)
    | cons p ps =>
      rw [pieces, List.forall_mem_cons] at ih
      by_cases comma : c = ','
      · simpa [comma] using ih
      · simpa [comma, Ne.symm comma] using ih

theorem splitAtCommas_iff {cs : List Char} {pieces : List (List Char)} :
    SplitAtCommas cs pieces ↔ pieces = splitCommas cs := by
  rw [splitCommas_eq_splitOn]
  constructor
  · rintro ⟨some_piece, plain, rfl⟩
    exact (List.splitOn_intercalate ',' plain some_piece).symm
  · rintro rfl
    exact ⟨List.splitOn_ne_nil ',' cs, not_mem_of_mem_splitOn cs, List.intercalate_splitOn ','⟩

/-- That a list holds what a text lists: the pieces between its commas, without the white space at their
ends, in their order and without those of which nothing is left. -/
def Lists (s : String) (items : List String) : Prop :=
  ∃ pieces trimmed, SplitAtCommas s.toList pieces ∧ List.Forall₂ Text.Trims pieces trimmed ∧
    items = (trimmed.filter (· ≠ [])).map String.ofList

theorem splitList_eq (s : String) : splitList s =
    (((splitCommas s.toList).map Text.trim).filter (· ≠ [])).map String.ofList := by
  unfold splitList
  congr 2
  funext cs
  cases cs <;> rfl

theorem forall₂_trims_iff {ps ts : List (List Char)} :
    List.Forall₂ Text.Trims ps ts ↔ ps.map Text.trim = ts := by
  have same : Text.Trims = fun cs ts => Text.trim cs = ts := by
    funext cs ts
    exact propext (Text.trims_iff.trans eq_comm)
  rw [same, ← List.forall₂_map_left_iff, List.forall₂_eq_eq_eq]

theorem lists_iff {s : String} {items : List String} : Lists s items ↔ splitList s = items := by
  rw [splitList_eq]
  simp only [Lists, splitAtCommas_iff, forall₂_trims_iff]
  constructor
  · rintro ⟨_, _, rfl, rfl, rfl⟩
    rfl
  · rintro rfl
    exact ⟨_, _, rfl, rfl, rfl⟩

theorem splitList_append (a b : String) : splitList (a ++ "," ++ b) = splitList a ++ splitList b := by
  have chars : (a ++ "," ++ b).toList = a.toList ++ ',' :: b.toList := by
    simp
  simp only [splitList_eq, chars, splitCommas_eq_splitOn, List.splitOn_append_cons_self, List.map_append,
    List.filter_append]

end RingOverlay
