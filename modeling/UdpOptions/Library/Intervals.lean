import Mathlib.Data.List.Basic
import Mathlib.Algebra.BigOperators.Group.List.Basic
import Mathlib.Tactic.Ring

/-! Lists of half-open intervals of natural numbers, over any type with a start
and a stop. `Ordered` lists are non-empty, sorted, and disjoint; `Tiles` lists
leave no gap. On an ordered list the two notions of completeness agree: every
position is covered exactly when the intervals meet end to end. -/

namespace UdpOptions.Library.Intervals

variable {σ : Type} (start stop : σ → Nat)

structure Ordered (items : List σ) : Prop where
  nonempty : ∀ item ∈ items, start item < stop item
  sorted : items.Pairwise fun first second => stop first ≤ start second

/-- The intervals meet end to end from `low` to `high`. -/
def Tiles (low : Nat) : List σ → (high : Nat) → Prop
  | [], high => low = high
  | item :: rest, high => start item = low ∧ Tiles (stop item) rest high

def Covers (items : List σ) (low high : Nat) : Prop :=
  ∀ position, low ≤ position → position < high → ∃ item ∈ items, start item ≤ position ∧ position < stop item

/-- Two intervals share a position. -/
def Meets (first second : σ) : Prop := start first < stop second ∧ start second < stop first

variable {start stop}

theorem Ordered.nil : Ordered start stop [] := ⟨by simp, List.Pairwise.nil⟩

theorem Ordered.tail {item : σ} {rest : List σ} (ordered : Ordered start stop (item :: rest)) :
    Ordered start stop rest :=
  ⟨fun other member => ordered.nonempty other (List.mem_cons_of_mem _ member), (List.pairwise_cons.mp ordered.sorted).2⟩

theorem Ordered.head_le {item : σ} {rest : List σ} (ordered : Ordered start stop (item :: rest)) :
    ∀ other ∈ rest, stop item ≤ start other := (List.pairwise_cons.mp ordered.sorted).1

/-- An ordered list is determined by its members. -/
theorem Ordered.eq_of_perm {items others : List σ} (ordered : Ordered start stop items)
    (otherOrdered : Ordered start stop others) (same : items.Perm others) : items = others := by
  refine same.eq_of_pairwise ?_ ordered.sorted otherOrdered.sorted
  intro first second member otherMember before after
  have wide := ordered.nonempty first member
  have otherWide := otherOrdered.nonempty second otherMember
  omega

theorem tiles_map {τ : Type} {low high : Nat} (place : τ → σ) {items : List τ} :
    Tiles start stop low (items.map place) high ↔
      Tiles (fun item => start (place item)) (fun item => stop (place item)) low items high := by
  induction items generalizing low with
  | nil => exact Iff.rfl
  | cons item rest ih => exact and_congr_right fun _ => ih

theorem Tiles.append {low middle high : Nat} {first second : List σ} (one : Tiles start stop low first middle)
    (two : Tiles start stop middle second high) : Tiles start stop low (first ++ second) high := by
  induction first generalizing low with
  | nil =>
    obtain rfl : low = middle := one
    exact two
  | cons item rest ih => exact ⟨one.1, ih one.2⟩

theorem Tiles.bound {low high : Nat} {items : List σ} (ordered : Ordered start stop items)
    (tiles : Tiles start stop low items high) : low ≤ high := by
  induction items generalizing low with
  | nil => exact Nat.le_of_eq tiles
  | cons item rest ih =>
    have room := ordered.nonempty item (by simp)
    have later := ih ordered.tail tiles.2
    have same := tiles.1
    omega

theorem Tiles.covers {low high : Nat} {items : List σ} (tiles : Tiles start stop low items high) :
    Covers start stop items low high := by
  induction items generalizing low with
  | nil =>
    intro position lower upper
    have same : low = high := tiles
    omega
  | cons item rest ih =>
    intro position lower upper
    by_cases inside : position < stop item
    · exact ⟨item, by simp, by rw [tiles.1]; exact lower, inside⟩
    · obtain ⟨other, member, covered⟩ := ih tiles.2 position (by omega) upper
      exact ⟨other, List.mem_cons_of_mem _ member, covered⟩

theorem Covers.tiles {low high : Nat} {items : List σ} (ordered : Ordered start stop items)
    (above : ∀ item ∈ items, low ≤ start item) (below : ∀ item ∈ items, stop item ≤ high) (room : low ≤ high)
    (covers : Covers start stop items low high) : Tiles start stop low items high := by
  induction items generalizing low with
  | nil =>
    by_cases gap : low < high
    · obtain ⟨_, member, _⟩ := covers low (Nat.le_refl _) gap
      cases member
    · exact Nat.le_antisymm room (Nat.le_of_not_lt gap)
  | cons item rest ih =>
    have wide := ordered.nonempty item (by simp)
    have upper := below item (by simp)
    have lower := above item (by simp)
    have first : start item = low := by
      obtain ⟨other, member, reached, _⟩ := covers low (Nat.le_refl _) (by omega)
      rcases List.mem_cons.mp member with rfl | member
      · omega
      · have after := ordered.head_le other member
        omega
    refine ⟨first, ih ordered.tail ordered.head_le (fun other member => below other (by simp [member])) upper ?_⟩
    intro position lowerPosition upperPosition
    obtain ⟨other, member, covered⟩ := covers position (by omega) upperPosition
    rcases List.mem_cons.mp member with rfl | member
    · omega
    · exact ⟨other, member, covered⟩

/-- Disjoint intervals between two bounds are no longer than the bounds allow. -/
theorem Ordered.sum_le {low high : Nat} {items : List σ} (ordered : Ordered start stop items)
    (above : ∀ item ∈ items, low ≤ start item) (below : ∀ item ∈ items, stop item ≤ high) (room : low ≤ high) :
    low + (items.map fun item => stop item - start item).sum ≤ high := by
  induction items generalizing low with
  | nil => simpa using room
  | cons item rest ih =>
    have wide := ordered.nonempty item (by simp)
    have lower := above item (by simp)
    have later := ih ordered.tail ordered.head_le (fun other member => below other (by simp [member]))
      (below item (by simp))
    simp only [List.map_cons, List.sum_cons]
    omega

theorem perm_insert_takeWhile (test : σ → Bool) (items : List σ) (item : σ) :
    (items.takeWhile test ++ item :: items.dropWhile test).Perm (item :: items) := by
  conv_rhs => rw [← List.takeWhile_append_dropWhile (p := test) (l := items)]
  exact List.perm_middle

/-- Inserting in front of the first later start keeps the order when the new
interval meets no old one. -/
theorem Ordered.insert {items : List σ} {item : σ} (ordered : Ordered start stop items) (wide : start item < stop item)
    (apart : ∀ other ∈ items, ¬ Meets start stop item other) :
    Ordered start stop ((items.takeWhile fun other => start other < start item) ++
      item :: items.dropWhile fun other => start other < start item) := by
  induction items with
  | nil => exact ⟨by simpa using wide, by simp⟩
  | cons other rest ih =>
    have clear := apart other (by simp)
    have room := ordered.nonempty other (by simp)
    simp only [Meets, not_and_or, Nat.not_lt] at clear
    by_cases earlier : start other < start item
    · have later := ih ordered.tail (fun another member => apart another (by simp [member]))
      simp only [List.takeWhile_cons, List.dropWhile_cons, earlier, decide_true, if_true, List.cons_append]
      refine ⟨?_, List.pairwise_cons.mpr ⟨?_, later.sorted⟩⟩
      · intro another member
        rcases List.mem_cons.mp member with rfl | member
        · exact room
        · exact later.nonempty another member
      · intro another member
        rcases List.mem_append.mp member with member | member
        · exact ordered.head_le another (List.takeWhile_subset _ member)
        · rcases List.mem_cons.mp member with rfl | member
          · omega
          · exact ordered.head_le another ((List.dropWhile_sublist _).subset member)
    · simp only [List.takeWhile_cons, List.dropWhile_cons, earlier, decide_false, Bool.false_eq_true, if_false,
        List.nil_append]
      refine ⟨?_, List.pairwise_cons.mpr ⟨?_, ordered.sorted⟩⟩
      · intro another member
        rcases List.mem_cons.mp member with rfl | member
        · exact wide
        · exact ordered.nonempty another member
      · intro another member
        rcases List.mem_cons.mp member with rfl | member
        · omega
        · have after := ordered.head_le another member
          omega

/-- A further interval that meets no old one fits into what the bound leaves. -/
theorem Ordered.room {high : Nat} {items : List σ} {item : σ} (ordered : Ordered start stop items)
    (wide : start item < stop item) (apart : ∀ other ∈ items, ¬ Meets start stop item other)
    (below : ∀ other ∈ items, stop other ≤ high) (inside : stop item ≤ high) :
    (items.map fun other => stop other - start other).sum + (stop item - start item) ≤ high := by
  have permuted := perm_insert_takeWhile (fun other => decide (start other < start item)) items item
  have bounded := (ordered.insert wide apart).sum_le (fun _ _ => Nat.zero_le _) (fun other member => by
    rcases List.mem_cons.mp (permuted.mem_iff.mp member) with rfl | old
    · exact inside
    · exact below other old) (Nat.zero_le high)
  rw [(permuted.map _).sum_eq, List.map_cons, List.sum_cons] at bounded
  omega

/-- Pieces that tile a range and each agree with a text spell out that range of
the text. -/
theorem Tiles.flatMap_eq {α : Type} {low high : Nat} {items : List σ} (content : σ → List α) (text : List α)
    (ordered : Ordered start stop items) (tiles : Tiles start stop low items high)
    (agree : ∀ item ∈ items, content item = (text.take (stop item)).drop (start item)) :
    items.flatMap content = (text.take high).drop low := by
  induction items generalizing low with
  | nil =>
    have same : low = high := tiles
    subst same
    simp
  | cons item rest ih =>
    have wide := ordered.nonempty item (by simp)
    have later := Tiles.bound ordered.tail tiles.2
    rw [List.flatMap_cons, ih ordered.tail tiles.2 (fun other member => agree other (by simp [member])),
      agree item (by simp), ← tiles.1]
    have front : text.take (stop item) = (text.take high).take (stop item) := by
      rw [List.take_take, Nat.min_eq_left later]
    rw [front, List.drop_take]
    conv_rhs => rw [← List.take_append_drop (stop item - start item) (List.drop (start item) (List.take high text))]
    rw [List.drop_drop, Nat.add_sub_cancel' (Nat.le_of_lt wide)]

end UdpOptions.Library.Intervals
