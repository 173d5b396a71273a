import Mathlib.Data.List.Infix

/-! The longest run of one value in a list, counted in one pass. -/

namespace UdpOptions.Library

variable {α : Type} {value : α}

private theorem run_front {count current : Nat} (short : count ≤ current) (rest : List α) :
    List.replicate count value <:+: List.replicate current value ++ rest := by
  refine ⟨[], List.replicate (current - count) value ++ rest, ?_⟩
  rw [List.nil_append, ← List.append_assoc, List.replicate_append_replicate, Nat.add_sub_cancel' short]

/-- A run does not reach across another value. -/
private theorem run_split {count current : Nat} {item : α} {rest : List α} (different : item ≠ value) :
    List.replicate count value <:+: List.replicate current value ++ item :: rest ↔
      count ≤ current ∨ List.replicate count value <:+: rest := by
  constructor
  · rintro ⟨front, back, same⟩
    rcases List.append_eq_append_iff.mp same with ⟨between, inside, _⟩ | ⟨between, reach, tail⟩
    · left
      have length := congrArg List.length inside
      simp only [List.length_replicate, List.length_append] at length
      omega
    cases between with
    | nil =>
      left
      have length := congrArg List.length reach
      simp only [List.length_replicate, List.length_append, List.length_nil] at length
      omega
    | cons head between =>
      obtain ⟨rfl, rfl⟩ := List.cons.inj tail
      right
      rw [List.append_cons] at reach
      rcases List.append_eq_append_iff.mp reach with ⟨cut, early, crossing⟩ | ⟨cut, _, later⟩
      · cases cut using List.reverseRecOn with
        | nil =>
          rw [List.nil_append] at crossing
          exact ⟨[], back, by rw [crossing]; rfl⟩
        | append_singleton cut last =>
          rw [← List.append_assoc] at early
          have ends : item = last := by simpa using (List.append_inj' early rfl).2
          have member : last ∈ List.replicate count value := by simp [crossing]
          exact absurd (ends.trans (List.eq_of_mem_replicate member)) different
      · exact ⟨cut, back, by rw [later]; rfl⟩
  · rintro (short | later)
    · exact run_front short _
    · obtain ⟨front, back, rfl⟩ := later
      exact ⟨List.replicate current value ++ item :: front, back, by simp⟩

variable [DecidableEq α]

variable (value) in
/-- The count after a list, with `current` copies of the value just before it and
`best` in the longest run so far. -/
def longestRunFrom : (current best : Nat) → List α → Nat
  | _, best, [] => best
  | current, best, item :: rest =>
    if item = value then longestRunFrom (current + 1) (max best (current + 1)) rest
    else longestRunFrom 0 best rest

/-- The count is the length of the longest run. -/
theorem le_longestRunFrom {count current best : Nat} {items : List α} (counted : current ≤ best) :
    count ≤ longestRunFrom value current best items ↔
      count ≤ best ∨ List.replicate count value <:+: List.replicate current value ++ items := by
  induction items generalizing current best with
  | nil =>
    rw [longestRunFrom, List.append_nil]
    refine ⟨.inl, fun either => either.elim id fun inside => ?_⟩
    have length := inside.length_le
    simp only [List.length_replicate] at length
    omega
  | cons item rest ih =>
    rw [longestRunFrom]
    by_cases same : item = value
    · subst same
      rw [if_pos rfl, ih (by omega), List.append_cons, ← List.replicate_succ']
      constructor
      · rintro (reached | inside)
        · rcases Nat.lt_or_ge best count with beyond | small
          · exact .inr (run_front (by omega) rest)
          · exact .inl small
        · exact .inr inside
      · exact fun either => either.imp_left (by omega)
    · rw [if_neg same, ih (Nat.zero_le best), run_split same, List.replicate_zero, List.nil_append]
      constructor
      · exact fun either => either.imp_right .inr
      · rintro (small | short | later)
        · exact .inl small
        · exact .inl (Nat.le_trans short counted)
        · exact .inr later

end UdpOptions.Library
