import Mathlib.Data.List.Basic
import Mathlib.Order.Bounds.Defs

/-! Divisions of a list into pieces of bounded length, where the last piece has a
bound of its own. A division has the least number of pieces as soon as no smaller
number of full pieces could hold the list. -/

namespace UdpOptions.Library

variable {α : Type} {bound lastBound : Nat} {whole : List α} {pieces : List (List α)} {last : List α}

structure Division (bound lastBound : Nat) (whole : List α) (pieces : List (List α)) (last : List α) : Prop where
  joined : pieces.flatten ++ last = whole
  bounded : ∀ piece ∈ pieces, piece.length ≤ bound
  lastBounded : last.length ≤ lastBound

/-- The possible numbers of pieces, the last one included. -/
def pieceCounts (bound lastBound : Nat) (whole : List α) : Set Nat :=
  {count | ∃ pieces last, Division bound lastBound whole pieces last ∧ count = pieces.length + 1}

theorem division_last (small : whole.length ≤ lastBound) (bound : Nat) : Division bound lastBound whole [] whole :=
  ⟨rfl, by simp, small⟩

theorem Division.cons {piece : List α} (division : Division bound lastBound whole pieces last)
    (small : piece.length ≤ bound) : Division bound lastBound (piece ++ whole) (piece :: pieces) last where
  joined := by rw [List.flatten_cons, List.append_assoc, division.joined]
  bounded := List.forall_mem_cons.mpr ⟨small, division.bounded⟩
  lastBounded := division.lastBounded

private theorem flatten_length_le (bounded : ∀ piece ∈ pieces, piece.length ≤ bound) :
    pieces.flatten.length ≤ pieces.length * bound := by
  induction pieces with
  | nil => simp
  | cons piece rest ih =>
    obtain ⟨small, later⟩ := List.forall_mem_cons.mp bounded
    have tail := ih later
    rw [List.flatten_cons, List.length_append, List.length_cons, Nat.succ_mul]
    omega

theorem Division.length_le (division : Division bound lastBound whole pieces last) :
    whole.length ≤ pieces.length * bound + lastBound := by
  rw [← division.joined, List.length_append]
  exact Nat.add_le_add (flatten_length_le division.bounded) division.lastBounded

/-- A division is least when every number of pieces with enough room is at least its own. -/
theorem Division.isLeast (division : Division bound lastBound whole pieces last)
    (least : ∀ count, whole.length ≤ count * bound + lastBound → pieces.length ≤ count) :
    IsLeast (pieceCounts bound lastBound whole) (pieces.length + 1) := by
  refine ⟨⟨pieces, last, division, rfl⟩, ?_⟩
  rintro count ⟨others, final, other, rfl⟩
  exact Nat.succ_le_succ (least _ other.length_le)

end UdpOptions.Library
