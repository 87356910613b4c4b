import Mathlib.Data.Finset.Card
import Mathlib.Data.List.Induction
import Mathlib.Data.List.Sort
import Mathlib.Data.List.TakeWhile
import RingOverlay.Overlord.Discovery
/-!
What the discovery policy builds from replies: an ascending list of positions, and endpoints of which
each stands at its first appearance. Both depend on what came in and not on how it was divided.
-/

set_option autoImplicit false
set_option relaxedAutoImplicit false

namespace RingOverlay

section

variable {known : List Transport}

theorem mergeTransports_append (known ts us : List Transport) :
    mergeTransports (mergeTransports known ts) us = mergeTransports known (ts ++ us) :=
  List.foldl_append.symm

theorem mergeTransports_eq (known ts : List Transport) :
    mergeTransports known ts = known ++ (ts.filter (· ∉ known)).eraseDups := by
  induction ts using List.reverseRecOn with
  | nil => simp [mergeTransports]
  | append_singleton ts t ih =>
    rw [← mergeTransports_append, ih, List.filter_append, List.eraseDups_append, ← List.append_assoc]
    generalize hnew : ts.filter (· ∉ known) = new
    by_cases old : t ∈ known
    · simp [mergeTransports, old, List.removeAll]
    · by_cases again : t ∈ new <;>
        simp [mergeTransports, old, again, List.removeAll, List.eraseDups_cons]

theorem mergeTransports_nil (ts : List Transport) : mergeTransports [] ts = ts.eraseDups := by
  simp [mergeTransports_eq]

theorem nodup_mergeTransports (nodup : known.Nodup) (ts : List Transport) :
    (mergeTransports known ts).Nodup := by
  induction ts using List.reverseRecOn with
  | nil => exact nodup
  | append_singleton ts t ih =>
    rw [← mergeTransports_append]
    generalize mergeTransports known ts = merged at ih
    simp only [mergeTransports, List.foldl_cons, List.foldl_nil]
    split
    · exact ih
    · rename_i fresh
      exact List.nodup_append_comm.mp (List.nodup_cons.mpr ⟨fresh, ih⟩)

theorem nodup_eraseDups (ts : List Transport) : ts.eraseDups.Nodup := by
  rw [← mergeTransports_nil]
  exact nodup_mergeTransports List.nodup_nil ts

theorem length_mergeTransports (known ts : List Transport) :
    (mergeTransports known ts).length = known.length + (ts.toFinset \ known.toFinset).card := by
  have new : (ts.filter (· ∉ known)).eraseDups.toFinset = ts.toFinset \ known.toFinset := by
    ext t
    simp
  rw [mergeTransports_eq, List.length_append, ← new,
    List.toFinset_card_of_nodup (nodup_eraseDups _)]

end

namespace DiscoveryOverlord

def Ascending (as : List RingAddress) : Prop := as.Pairwise fun a b => a.value < b.value

section

variable {as bs : List RingAddress} {a b : RingAddress}

theorem mem_insertAddress : b ∈ insertAddress a as ↔ b = a ∨ b ∈ as := by
  unfold insertAddress
  split
  · rename_i known
    constructor
    · exact Or.inr
    · rintro (rfl | h)
      · exact known
      · exact h
  · rw [List.perm_middle.mem_iff, List.takeWhile_append_dropWhile, List.mem_cons]

theorem mem_foldl_insertAddress {rs : List DiscoveryReply} :
    b ∈ rs.foldl (fun as r => insertAddress r.address as) as ↔ b ∈ as ∨ ∃ r ∈ rs, r.address = b := by
  induction rs generalizing as with
  | nil => simp
  | cons r rs ih =>
    rw [List.foldl_cons, ih, mem_insertAddress]
    simp only [List.mem_cons, exists_eq_or_imp, eq_comm (a := b)]
    rw [or_comm (a := r.address = b), or_assoc]

theorem Ascending.le_of_mem_dropWhile (ascending : Ascending as) :
    ∀ b ∈ as.dropWhile (·.lt a), a.value ≤ b.value := by
  induction as with
  | nil => simp
  | cons c as ih =>
    obtain ⟨first, rest⟩ := List.pairwise_cons.mp ascending
    intro b hb
    by_cases before : c.lt a = true
    · rw [List.dropWhile_cons, if_pos before] at hb
      exact ih rest b hb
    · rw [List.dropWhile_cons, if_neg before] at hb
      have le : a.value ≤ c.value := by simpa [RingAddress.lt] using before
      rcases List.mem_cons.mp hb with rfl | hb
      · exact le
      · exact le.trans (Nat.le_of_lt (first b hb))

theorem Ascending.insertAddress (ascending : Ascending as) (a : RingAddress) :
    Ascending (insertAddress a as) := by
  unfold DiscoveryOverlord.insertAddress
  split
  · exact ascending
  · rename_i fresh
    have before : ∀ b ∈ as.takeWhile (·.lt a), b.value < a.value := by
      intro b hb
      simpa [RingAddress.lt] using List.mem_takeWhile_imp hb
    have after : ∀ b ∈ as.dropWhile (·.lt a), a.value < b.value := by
      intro b hb
      refine lt_of_le_of_ne (ascending.le_of_mem_dropWhile b hb) fun same => fresh ?_
      rw [RingAddress.value_injective same]
      exact List.dropWhile_subset _ hb
    refine List.pairwise_append.mpr ⟨ascending.sublist (List.takeWhile_sublist _),
      List.pairwise_cons.mpr ⟨after, ascending.sublist (List.dropWhile_sublist _)⟩, ?_⟩
    intro b hb c hc
    rcases List.mem_cons.mp hc with rfl | hc
    · exact before b hb
    · exact (before b hb).trans (after c hc)

theorem Ascending.foldl_insertAddress (ascending : Ascending as) (rs : List DiscoveryReply) :
    Ascending (rs.foldl (fun as r => DiscoveryOverlord.insertAddress r.address as) as) := by
  induction rs generalizing as with
  | nil => exact ascending
  | cons r rs ih => exact ih (ascending.insertAddress r.address)

theorem Ascending.eq_of_mem_iff (ha : Ascending as) (hb : Ascending bs)
    (same : ∀ a, a ∈ as ↔ a ∈ bs) : as = bs := by
  have nodup {as : List RingAddress} (h : Ascending as) : as.Nodup :=
    h.imp fun less eq => Nat.ne_of_lt less (congrArg RingAddress.value eq)
  refine List.Perm.eq_of_pairwise (fun a b _ _ less more => ?_) ha hb
    ((List.perm_ext_iff_of_nodup (nodup ha) (nodup hb)).mpr same)
  exact absurd (less.trans more) (Nat.lt_irrefl _)

end

end DiscoveryOverlord

end RingOverlay
