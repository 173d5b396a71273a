import Mathlib.Data.List.Sort

/-! Stable sorting by a numeric key. Elements of one key keep their order, and a
sorted list is the concatenation of its key classes. -/

namespace UdpOptions.Library

variable {α : Type} {key : α → Nat} {le : α → α → Prop} [DecidableRel le]

/-- A class of mutually comparable elements passes through a sort unchanged. -/
theorem filter_insertionSort (related : α → Bool) (within : ∀ first second, related first → related second →
    le first second) (items : List α) : (items.insertionSort le).filter related = items.filter related := by
  have sorted : (items.filter related).Pairwise le := by
    rw [List.pairwise_iff_forall_sublist]
    intro first second pair
    have members := pair.subset
    simp only [List.cons_subset, List.mem_filter] at members
    exact within first second members.1.2 members.2.1.2
  have inside := (List.sublist_insertionSort sorted List.filter_sublist).filter related
  rw [List.filter_filter] at inside
  simp only [Bool.and_self] at inside
  exact (inside.eq_of_length ((List.perm_insertionSort le items).filter related).length_eq.symm).symm

/-- The least class of a sorted list comes first. -/
theorem filter_split {items : List α} (sorted : items.Pairwise fun first second => key first ≤ key second)
    (least : Nat) : items.filter (fun item => least ≤ key item) =
      items.filter (fun item => key item = least) ++ items.filter (fun item => least + 1 ≤ key item) := by
  induction items with
  | nil => rfl
  | cons item rest ih =>
    obtain ⟨first, later⟩ := List.pairwise_cons.mp sorted
    simp only [List.filter_cons, decide_eq_true_eq]
    rcases Nat.lt_trichotomy (key item) least with below | same | above
    · rw [if_neg (by omega), if_neg (by omega), if_neg (by omega)]
      exact ih later
    · rw [if_pos (by omega), if_pos same, if_neg (by omega), ih later]
      rfl
    · have none : rest.filter (fun item => key item = least) = [] := by
        rw [List.filter_eq_nil_iff]
        intro other member
        have bound := first other member
        simp only [decide_eq_true_eq]
        omega
      have rest_eq := ih later
      rw [none, List.nil_append] at rest_eq
      rw [if_pos (by omega), if_neg (by omega), if_pos (by omega), none, rest_eq]
      rfl

/-- Sorting brings any arrangement of a list with increasing keys back to that list. -/
theorem insertionSort_of_perm {items sorted : List α} (perm : items.Perm sorted)
    (increasing : sorted.Pairwise fun first second => key first < key second) :
    items.insertionSort (fun first second => key first ≤ key second) = sorted := by
  have arranged := (List.perm_insertionSort (fun first second => key first ≤ key second) items).trans perm
  have distinct : (sorted.map key).Nodup := List.pairwise_map.mpr (increasing.imp Nat.ne_of_lt)
  apply arranged.eq_of_pairwise
  · intro first second placed member below above
    exact List.inj_on_of_nodup_map distinct (arranged.mem_iff.mp placed) member (Nat.le_antisymm below above)
  · exact List.pairwise_insertionSort _ _
  · exact increasing.imp Nat.le_of_lt

end UdpOptions.Library
