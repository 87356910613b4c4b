import RingOverlay.Proofs.Table.Arrangement
/-!
The order of links by their distance from a position. Sorting keeps the order of links that are
equally far away, so these stand in ascending order of position. Since there is one link at most to
each position, leaving out the links to one of them costs one place at most.
-/

set_option autoImplicit false
set_option relaxedAutoImplicit false

namespace RingOverlay

theorem take_filter_take {α : Type} {p : α → Bool} {l : List α}
    (once : l.Pairwise fun x y => p x ∨ p y) (n : Nat) :
    ((l.take (n + 1)).filter p).take n = (l.filter p).take n := by
  induction l generalizing n with
  | nil => simp
  | cons x l ih =>
    rw [List.pairwise_cons] at once
    rw [List.take_succ_cons]
    by_cases kept : p x
    · rw [List.filter_cons_of_pos kept, List.filter_cons_of_pos kept]
      cases n with
      | zero => rfl
      | succ n => rw [List.take_succ_cons, List.take_succ_cons, ih once.2 n]
    · have others : ∀ y ∈ l, p y = true := fun y member => (once.1 y member).resolve_left kept
      have near : ∀ y ∈ l.take n, p y = true := fun y member => others y (List.mem_of_mem_take member)
      rw [List.filter_cons_of_neg kept, List.filter_cons_of_neg kept, List.filter_eq_self.mpr others,
        List.filter_eq_self.mpr near, List.take_take, Nat.min_self]

namespace RingView

/-- One link stands before another around a position: it is nearer, or as near and at the smaller
position. -/
def Before (a : RingAddress) (c d : Connection) : Prop :=
  a.separation c.address < a.separation d.address ∨
    a.separation c.address = a.separation d.address ∧ c.address.value < d.address.value

section

variable {v : RingView} {a : RingAddress}

theorem byDistance_perm (v : RingView) (a : RingAddress) : (v.byDistance a).Perm v.connections :=
  List.mergeSort_perm ..

private theorem separation_trans (a : RingAddress) (c d e : Connection)
    (first : decide (a.separation c.address ≤ a.separation d.address) = true)
    (second : decide (a.separation d.address ≤ a.separation e.address) = true) :
    decide (a.separation c.address ≤ a.separation e.address) = true :=
  decide_eq_true (Nat.le_trans (of_decide_eq_true first) (of_decide_eq_true second))

private theorem separation_total (a : RingAddress) (c d : Connection) :
    (decide (a.separation c.address ≤ a.separation d.address) ||
      decide (a.separation d.address ≤ a.separation c.address)) = true := by
  rw [Bool.or_eq_true, decide_eq_true_eq, decide_eq_true_eq]
  exact Nat.le_total ..

private theorem filter_byDistance (v : RingView) (a : RingAddress) (far : Nat) :
    (v.byDistance a).filter (a.separation ·.address = far) =
      v.connections.filter (a.separation ·.address = far) := by
  have level : (v.connections.filter (a.separation ·.address = far)).Pairwise fun c d =>
      decide (a.separation c.address ≤ a.separation d.address) = true := by
    refine List.pairwise_of_forall_mem_list fun c left d right => ?_
    have here := (List.mem_filter.mp left).2
    have there := (List.mem_filter.mp right).2
    simp only [decide_eq_true_eq] at here there ⊢
    omega
  have kept : (v.connections.filter (a.separation ·.address = far)).Sublist (v.byDistance a) :=
    List.sublist_mergeSort (separation_trans a) (separation_total a) level List.filter_sublist
  have within := kept.filter (a.separation ·.address = far)
  rw [List.filter_filter] at within
  simp only [Bool.and_self] at within
  exact (within.eq_of_length ((byDistance_perm v a).filter _).length_eq.symm).symm

theorem Ascending.pairwise_byDistance (ascending : v.Ascending) (a : RingAddress) :
    (v.byDistance a).Pairwise (Before a) := by
  have sorted : (v.byDistance a).Pairwise fun c d =>
      decide (a.separation c.address ≤ a.separation d.address) = true :=
    List.pairwise_mergeSort (separation_trans a) (separation_total a) _
  refine List.pairwise_iff_forall_sublist.mpr fun {c d} pair => ?_
  have le := of_decide_eq_true (List.pairwise_iff_forall_sublist.mp sorted pair)
  rcases Nat.lt_or_eq_of_le le with lt | eq
  · exact Or.inl lt
  · have level := pair.filter (a.separation ·.address = a.separation d.address)
    rw [filter_byDistance] at level
    simp only [List.filter_cons, eq, decide_true, if_true, List.filter_nil] at level
    have inOrder := level.trans List.filter_sublist
    exact Or.inr ⟨eq, List.pairwise_iff_forall_sublist.mp ascending inOrder⟩

theorem Ascending.nodup_byDistance (ascending : v.Ascending) (a : RingAddress) :
    ((v.byDistance a).map (·.address)).Nodup := by
  rw [((byDistance_perm v a).map _).nodup_iff]
  refine List.pairwise_map.mpr (ascending.imp fun {c d} lt same => ?_)
  rw [same] at lt
  exact Nat.lt_irrefl _ lt

theorem Ascending.nearest_except (ascending : v.Ascending) (a b : RingAddress) (n : Nat) :
    ((v.nearest a (n + 1)).filter (·.address != b)).take n =
      ((v.byDistance a).filter (·.address != b)).take n := by
  refine take_filter_take ?_ n
  refine (List.pairwise_map.mp (ascending.nodup_byDistance a)).imp fun {c d} apart => ?_
  by_cases here : c.address = b
  · right
    rw [bne_iff_ne, ← here]
    exact Ne.symm apart
  · left
    exact bne_iff_ne.mpr here

end

end RingView

end RingOverlay
