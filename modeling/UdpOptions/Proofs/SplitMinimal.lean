import UdpOptions.Library.Divisions
import UdpOptions.Proofs.SplitShape

/-! Which sends the splitter accepts. The ranges it cuts are a division of the tail
with the least number of fragments, so a send is refused for too many segments only
if every division needs too many. -/

namespace UdpOptions.Proofs
open Library Model

variable {payload optionsBody : List UInt8} {config : SplitConfig} {ranges : List ChunkRange}

/-- The numbers of fragments a tail can be divided into under a surplus budget: a
non-terminal fragment leaves room for all but twelve bytes, the terminal one for all
but fourteen. -/
def fragmentCounts (payload optionsBody : List UInt8) (budget : Nat) : Set Nat :=
  pieceCounts (budget - 12) (budget - 14) (Split.reassembledTail payload optionsBody)

theorem Chunks.division {tail : List UInt8} {start bound lastBound : Nat} (chunks : Chunks tail.length start ranges)
    (fits : ∀ range ∈ ranges, range.2.1 ≤ range.1 + if range.2.2 then lastBound else bound) :
    ∃ pieces last, Division bound lastBound (tail.drop start) pieces last ∧ ranges.length = pieces.length + 1 := by
  generalize whole : tail.length = tailLen at chunks
  induction chunks with
  | @last first inside =>
    refine ⟨[], tail.drop first, division_last ?_ bound, rfl⟩
    have room : tailLen ≤ first + lastBound := fits (first, tailLen, true) (by simp)
    rw [List.length_drop]
    omega
  | @more first stop later wide rest ih =>
    obtain ⟨pieces, last, division, count⟩ := ih fun range member => fits range (List.mem_cons_of_mem _ member)
    have room : stop ≤ first + bound := fits (first, stop, false) (by simp)
    have below := rest.bound
    have reached : first ≤ (tail.take stop).length := by
      rw [List.length_take]
      omega
    refine ⟨(tail.take stop).drop first :: pieces, last, ?_, congrArg Nat.succ count⟩
    rw [← List.take_append_drop stop tail, List.drop_append_of_le_length reached, List.take_append_drop]
    refine division.cons ?_
    rw [List.length_drop, List.length_take]
    omega

theorem Splittable.isLeast (suitable : Splittable payload optionsBody config)
    (cut : CutInto payload optionsBody config ranges) :
    IsLeast (fragmentCounts payload optionsBody config.maxFragmentSurplusLen) ranges.length := by
  obtain ⟨others, again, cutting⟩ := suitable.cut
  obtain rfl : others = ranges := by
    rw [CutInto, again] at cut
    cases cut
    rfl
  obtain ⟨pieces, last, division, count⟩ := cutting.chunks.division cutting.fits
  rw [count]
  refine Division.isLeast division ?_
  intro other room
  have least := chunkRanges_least again room
  omega

theorem splitDatagram_refused_iff :
    (∃ error, Split.splitDatagram payload optionsBody config = .ok (.error error)) ↔
      ¬ (Splittable payload optionsBody config ∧
        ∃ count ∈ fragmentCounts payload optionsBody config.maxFragmentSurplusLen,
          count ≤ config.peer.maxSegments.toNat) := by
  have verdict := splitDatagram_verdict payload optionsBody config
  generalize Split.splitDatagram payload optionsBody config = outcome at verdict
  cases verdict with
  | unsuitable never other => exact iff_of_true ⟨_, rfl⟩ fun accepted => never accepted.1
  | crowded suitable cut many =>
    refine iff_of_true ⟨_, rfl⟩ ?_
    rintro ⟨_, count, possible, few⟩
    have fewest := (suitable.isLeast cut).2 possible
    omega
  | emitted suitable cut plan budgeted =>
    refine iff_of_false nofun ?_
    rw [not_not]
    exact ⟨suitable, _, (suitable.isLeast cut).1, plan.count⟩

/-- The splitter never faults. It accepts exactly the suitable sends whose least number
of fragments is within the peer's limit, it emits that number, and it never reports an
offset out of range. -/
theorem split_complete_and_least (payload optionsBody : List UInt8) (config : SplitConfig) :
    ∃ result, Split.splitDatagram payload optionsBody config = .ok result ∧
      ((∃ fragments, result = .ok fragments) ↔
        (optionsBody = [] ∨ 2 ≤ optionsBody.length) ∧
        (14 ≤ config.maxFragmentSurplusLen ∧ config.maxFragmentSurplusLen ≤ 65507) ∧
        8 + payload.length ≤ 65535 ∧
        8 + (Split.reassembledTail payload optionsBody).length ≤ config.peer.maxReassembledSize.toNat ∧
        ∃ least, IsLeast (fragmentCounts payload optionsBody config.maxFragmentSurplusLen) least ∧
          least ≤ config.peer.maxSegments.toNat) ∧
      (∀ fragments, result = .ok fragments →
        IsLeast (fragmentCounts payload optionsBody config.maxFragmentSurplusLen) fragments.length) ∧
      ∀ offset max, result ≠ .error (.fragmentOffsetTooLarge offset max) := by
  have verdict := splitDatagram_verdict payload optionsBody config
  generalize Split.splitDatagram payload optionsBody config = outcome at verdict
  cases verdict with
  | unsuitable never other =>
    refine ⟨_, rfl, iff_of_false nofun ?_, nofun, ?_⟩
    · rintro ⟨led, ⟨least, most⟩, announced, size, _⟩
      exact never ⟨led, least, most, announced, size⟩
    · intro offset max same
      cases same
      exact other offset max rfl
  | crowded suitable cut many =>
    refine ⟨_, rfl, iff_of_false nofun ?_, nofun, nofun⟩
    rintro ⟨_, _, _, _, least, isLeast, few⟩
    have fewest := (suitable.isLeast cut).2 isLeast.1
    omega
  | @emitted rdos ranges suitable cut plan budgeted =>
    have least := suitable.isLeast cut
    refine ⟨_, rfl, iff_of_true ⟨_, rfl⟩ ?_, ?_, nofun⟩
    · exact ⟨suitable.led, ⟨suitable.least, suitable.most⟩, suitable.announced, suitable.size, ranges.length, least,
        plan.count⟩
    · intro fragments same
      cases same
      rw [List.length_map]
      exact least

end UdpOptions.Proofs
