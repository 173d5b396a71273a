import Mathlib.Data.List.Nodup
import Mathlib.Data.List.Perm.Subperm
import Mathlib.Data.Multiset.AddSub

/-! Accounts by classes. What was taken out is covered by what was put in, as lists
without order, if every class is taken no more often than it was put in and the
members of a class are all of one value. -/

namespace UdpOptions.Library

section
variable {ε π κ ν : Type} [BEq κ] [LawfulBEq κ] {entries : List ε} {postings : List π} {classIn : π → κ}
  {valueOf : ε → ν} {valueIn : π → ν}

theorem subperm_map {α β : Type} {taken given : List α} (covered : taken.Subperm given) (f : α → β) :
    (taken.map f).Subperm (given.map f) := by
  obtain ⟨middle, permuted, inside⟩ := covered
  exact ⟨_, permuted.map f, inside.map f⟩

/-- The value of a class: that of its first posting. -/
private def classValue (postings : List π) (classIn : π → κ) (valueIn : π → ν) (default : ν) (label : κ) : ν :=
  ((postings.find? fun posting => classIn posting == label).map valueIn).getD default

private theorem classValue_eq (default : ν)
    (alike : ∀ first ∈ postings, ∀ second ∈ postings, classIn first = classIn second → valueIn first = valueIn second)
    {posting : π} (member : posting ∈ postings) :
    classValue postings classIn valueIn default (classIn posting) = valueIn posting := by
  unfold classValue
  cases found : postings.find? fun other => classIn other == classIn posting with
  | none => exact absurd (List.find?_eq_none.mp found posting member) (by simp)
  | some other =>
    have same : classIn other = classIn posting := by simpa using List.find?_some found
    exact alike other (List.mem_of_find?_eq_some found) posting member same

theorem subperm_of_classes (classOf : ε → κ) (classIn : π → κ)
    (origin : ∀ entry ∈ entries, ∃ posting ∈ postings, classIn posting = classOf entry ∧ valueIn posting = valueOf entry)
    (alike : ∀ first ∈ postings, ∀ second ∈ postings, classIn first = classIn second → valueIn first = valueIn second)
    (counted : ∀ entry ∈ entries, (entries.map classOf).count (classOf entry) ≤
      (postings.map classIn).count (classOf entry)) :
    (entries.map valueOf).Subperm (postings.map valueIn) := by
  cases entries with
  | nil => exact List.nil_subperm
  | cons head rest =>
    generalize default_eq : valueOf head = default
    have covered : ((head :: rest).map classOf).Subperm (postings.map classIn) := by
      apply List.subperm_ext_iff.mpr
      intro label listed
      obtain ⟨entry, member, rfl⟩ := List.mem_map.mp listed
      exact counted entry member
    have taken : ((head :: rest).map classOf).map (classValue postings classIn valueIn default) =
        (head :: rest).map valueOf := by
      rw [List.map_map]
      apply List.map_congr_left
      intro entry member
      obtain ⟨posting, posted, label, value⟩ := origin entry member
      rw [Function.comp_apply, ← label, classValue_eq default alike posted, value]
    have given : (postings.map classIn).map (classValue postings classIn valueIn default) = postings.map valueIn := by
      rw [List.map_map]
      exact List.map_congr_left fun posting posted => classValue_eq default alike posted
    rw [← taken, ← given]
    exact subperm_map covered _

/-- An item occurs in a concatenation of lists no more often than the one list that holds it. -/
theorem count_flatMap_le {α : Type} [BEq α] [LawfulBEq α] {parts : π → List α} {item : α} {whole : List α}
    (distinct : ∀ posting ∈ postings, (parts posting).Nodup)
    (only : ∀ posting ∈ postings, item ∈ parts posting → parts posting = whole) :
    (postings.flatMap parts).count item ≤ (postings.map parts).count whole := by
  induction postings with
  | nil => exact Nat.le_refl _
  | cons posting rest ih =>
    have later := ih (fun other listed => distinct other (List.mem_cons_of_mem _ listed))
      (fun other listed => only other (List.mem_cons_of_mem _ listed))
    rw [List.flatMap_cons, List.count_append, List.map_cons, List.count_cons]
    by_cases inside : item ∈ parts posting
    · have single := List.nodup_iff_count_le_one.mp (distinct posting List.mem_cons_self) item
      rw [only posting List.mem_cons_self inside] at single ⊢
      rw [if_pos (beq_self_eq_true _)]
      omega
    · rw [List.count_eq_zero_of_not_mem inside]
      omega

/-- An item occurs in a concatenation at least as often as a list that holds it. -/
theorem le_count_flatMap {α : Type} [BEq α] [LawfulBEq α] {parts : π → List α} {item : α} {whole : List α}
    (inside : item ∈ whole) (postings : List π) :
    (postings.map parts).count whole ≤ (postings.flatMap parts).count item := by
  induction postings with
  | nil => exact Nat.le_refl _
  | cons posting rest ih =>
    rw [List.flatMap_cons, List.count_append, List.map_cons, List.count_cons]
    split
    next same =>
      have held := List.count_pos_iff.mpr (eq_of_beq same ▸ inside)
      omega
    · omega

end

end UdpOptions.Library
