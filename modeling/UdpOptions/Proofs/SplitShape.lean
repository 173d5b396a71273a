import UdpOptions.Frag.Split
import UdpOptions.Library.Intervals
import UdpOptions.Proofs.TlvFraming

/-! What the splitter emits. The chunk loop cuts the tail into consecutive
ranges, of which only the last is terminal and only the last may be empty, and
each fragment carries one range behind a FRAG option that decodes back to it. -/

namespace UdpOptions.Proofs
open Library Library.Intervals Model

abbrev ChunkRange := Nat × Nat × Bool

inductive Chunks (tailLen : Nat) : Nat → List ChunkRange → Prop where
  | last {start : Nat} (inside : start ≤ tailLen) : Chunks tailLen start [(start, tailLen, true)]
  | more {start stop : Nat} {ranges : List ChunkRange} (wide : start < stop) (rest : Chunks tailLen stop ranges) :
      Chunks tailLen start ((start, stop, false) :: ranges)

/-- One range lies wholly before another; only non-terminal ranges have a successor. -/
def Precedes (first second : ChunkRange) : Prop :=
  first.2.2 = false ∧ first.1 < first.2.1 ∧ first.2.1 ≤ second.1

structure InTail (tailLen start : Nat) (range : ChunkRange) : Prop where
  above : start ≤ range.1
  ordered : range.1 ≤ range.2.1
  below : range.2.1 ≤ tailLen
  wide : range.2.2 = false → range.1 < range.2.1
  terminal : range.2.2 = true → range.2.1 = tailLen

variable {tailLen start : Nat} {ranges : List ChunkRange}

theorem Chunks.bound (chunks : Chunks tailLen start ranges) : start ≤ tailLen := by
  induction chunks with
  | last inside => exact inside
  | more wide _ ih => exact Nat.le_trans (Nat.le_of_lt wide) ih

theorem Chunks.inTail (chunks : Chunks tailLen start ranges) : ∀ range ∈ ranges, InTail tailLen start range := by
  induction chunks with
  | last inside =>
    intro range member
    obtain rfl := List.mem_singleton.mp member
    exact ⟨Nat.le_refl _, inside, Nat.le_refl _, by simp, fun _ => rfl⟩
  | more wide rest ih =>
    intro range member
    rcases List.mem_cons.mp member with rfl | later
    · exact ⟨Nat.le_refl _, Nat.le_of_lt wide, rest.bound, fun _ => wide, by simp⟩
    · have known := ih range later
      exact { known with above := Nat.le_trans (Nat.le_of_lt wide) known.above }

theorem Chunks.tiles (chunks : Chunks tailLen start ranges) :
    Tiles (fun range : ChunkRange => range.1) (fun range => range.2.1) start ranges tailLen := by
  induction chunks with
  | last inside => exact ⟨rfl, rfl⟩
  | more wide rest ih => exact ⟨rfl, ih⟩

theorem Chunks.pairwise (chunks : Chunks tailLen start ranges) : ranges.Pairwise Precedes := by
  induction chunks with
  | last inside => exact List.pairwise_singleton _ _
  | more wide rest ih =>
    refine List.pairwise_cons.mpr ⟨?_, ih⟩
    intro range later
    exact ⟨rfl, wide, (rest.inTail range later).above⟩

theorem Chunks.compare (chunks : Chunks tailLen start ranges) {first second : ChunkRange} (memberFirst : first ∈ ranges)
    (memberSecond : second ∈ ranges) : first = second ∨ Precedes first second ∨ Precedes second first := by
  induction chunks with
  | last inside =>
    obtain rfl := List.mem_singleton.mp memberFirst
    obtain rfl := List.mem_singleton.mp memberSecond
    exact .inl rfl
  | more wide rest ih =>
    rcases List.mem_cons.mp memberFirst with rfl | laterFirst
    · rcases List.mem_cons.mp memberSecond with rfl | laterSecond
      · exact .inl rfl
      · exact .inr (.inl ⟨rfl, wide, (rest.inTail second laterSecond).above⟩)
    · rcases List.mem_cons.mp memberSecond with rfl | laterSecond
      · exact .inr (.inr ⟨rfl, wide, (rest.inTail first laterFirst).above⟩)
      · exact ih laterFirst laterSecond

theorem Chunks.nodup (chunks : Chunks tailLen start ranges) : ranges.Nodup := by
  refine chunks.pairwise.imp ?_
  rintro first second ⟨_, wide, before⟩ rfl
  omega

theorem Chunks.exists_terminal (chunks : Chunks tailLen start ranges) : ∃ range ∈ ranges, range.2.2 = true := by
  induction chunks with
  | last inside => exact ⟨_, List.mem_singleton_self _, rfl⟩
  | more wide rest ih =>
    obtain ⟨range, member, terminal⟩ := ih
    exact ⟨range, List.mem_cons_of_mem _ member, terminal⟩

theorem Chunks.terminal_unique (chunks : Chunks tailLen start ranges) {first second : ChunkRange}
    (memberFirst : first ∈ ranges) (memberSecond : second ∈ ranges) (terminalFirst : first.2.2 = true)
    (terminalSecond : second.2.2 = true) : first = second := by
  rcases chunks.compare memberFirst memberSecond with same | before | before
  · exact same
  · rw [before.1] at terminalFirst
    cases terminalFirst
  · rw [before.1] at terminalSecond
    cases terminalSecond

/-- Consecutive ranges that keep to the room of their fragments. The terminal
fragment has less room, and a tail that exceeds it takes more than one. -/
structure Cutting (tailLen terminalCapacity nonTerminalCapacity start : Nat) (ranges : List ChunkRange) : Prop where
  chunks : Chunks tailLen start ranges
  fits : ∀ range ∈ ranges, range.2.1 ≤ range.1 + if range.2.2 then terminalCapacity else nonTerminalCapacity
  several : 1 < ranges.length ↔ start + terminalCapacity < tailLen

theorem Cutting.last {terminalCapacity : Nat} (inside : start ≤ tailLen) (small : tailLen ≤ start + terminalCapacity)
    (nonTerminalCapacity : Nat) :
    Cutting tailLen terminalCapacity nonTerminalCapacity start [(start, tailLen, true)] where
  chunks := .last inside
  fits := by
    intro range member
    obtain rfl := List.mem_singleton.mp member
    exact small
  several := iff_of_false (Nat.lt_irrefl 1) (Nat.not_lt.mpr small)

theorem Chunks.length_pos (chunks : Chunks tailLen start ranges) : 0 < ranges.length := by
  cases chunks <;> exact Nat.succ_pos _

/-- The loop cuts what remains when it has fuel for one range per byte. -/
theorem chunkLoop_cuts {nonTerminalCapacity remaining fuel : Nat} (capacity : 0 < nonTerminalCapacity)
    (cut : start + remaining = tailLen) (enough : remaining < fuel) (terminalCapacity : Nat) :
    ∃ ranges, Split.chunkLoop tailLen terminalCapacity nonTerminalCapacity fuel start remaining = .ok ranges ∧
      Cutting tailLen terminalCapacity nonTerminalCapacity start ranges := by
  induction fuel generalizing start remaining with
  | zero => omega
  | succ fuel ih =>
    unfold Split.chunkLoop
    by_cases large : terminalCapacity < remaining
    · rw [if_pos large]
      generalize took : min nonTerminalCapacity (remaining - terminalCapacity) = take
      obtain ⟨ranges, looped, cutting⟩ := ih (show start + take + (remaining - take) = tailLen by omega) (by omega)
      refine ⟨(start, start + take, false) :: ranges, ?_, .more (show start < start + take by omega) cutting.chunks,
        ?_, ?_⟩
      · simp only [looped, Checked.ok_bind, Checked.pure_eq]
      · intro range member
        rcases List.mem_cons.mp member with rfl | later
        · exact show start + take ≤ start + nonTerminalCapacity by omega
        · exact cutting.fits range later
      · exact iff_of_true (Nat.succ_lt_succ cutting.chunks.length_pos) (by omega)
    · refine ⟨[(start, tailLen, true)], ?_, .last (by omega) (by omega) _⟩
      rw [if_neg large]
      rfl

/-- The loop takes no more ranges than any number of full ones that could hold what remains. -/
theorem chunkLoop_least {terminalCapacity nonTerminalCapacity remaining fuel : Nat}
    (looped : Split.chunkLoop tailLen terminalCapacity nonTerminalCapacity fuel start remaining = .ok ranges)
    {count : Nat} (room : remaining ≤ count * nonTerminalCapacity + terminalCapacity) : ranges.length ≤ count + 1 := by
  induction fuel generalizing start remaining ranges count with
  | zero => cases looped
  | succ fuel ih =>
    unfold Split.chunkLoop at looped
    by_cases large : terminalCapacity < remaining
    · rw [if_pos large] at looped
      obtain ⟨later, next, done⟩ := Checked.bind_eq_ok.mp looped
      cases done
      cases count with
      | zero => omega
      | succ count =>
        rw [Nat.succ_mul] at room
        exact Nat.succ_le_succ (ih next (by omega))
    · rw [if_neg large] at looped
      cases looped
      exact Nat.succ_le_succ (Nat.zero_le count)

theorem chunkRanges_least {terminalCapacity nonTerminalCapacity nonTerminalBodyLen : Nat} {config : SplitConfig}
    (cut : Split.chunkRanges tailLen terminalCapacity nonTerminalCapacity nonTerminalBodyLen config = .ok (.ok ranges))
    {count : Nat} (room : tailLen ≤ count * nonTerminalCapacity + terminalCapacity) : ranges.length ≤ count + 1 := by
  unfold Split.chunkRanges at cut
  split at cut
  · cases cut
    exact Nat.succ_le_succ (Nat.zero_le count)
  split at cut
  · cases cut
  obtain ⟨looped, ran, done⟩ := Checked.bind_eq_ok.mp cut
  cases done
  exact chunkLoop_least ran room

def rangeOffset (atomic : Bool) (range : ChunkRange) : Nat := if atomic then 0 else Length.udpHeader + range.1

def rangeRdos (rdos : UInt16) (range : ChunkRange) : Option UInt16 := if range.2.2 then some rdos else none

def rangeData (tail : List UInt8) (range : ChunkRange) : List UInt8 := (tail.take range.2.1).drop range.1

def rangeFragment (tail : List UInt8) (atomic : Bool) (rdos : UInt16) (identification : UInt32) (range : ChunkRange) :
    Fragment where
  fragOffset := UInt16.ofNat (rangeOffset atomic range)
  terminal := range.2.2
  rdos := rangeRdos rdos range
  surplusBody := Split.fragmentOptionsBody identification (UInt16.ofNat (rangeOffset atomic range))
    (rangeRdos rdos range) ++ rangeData tail range

theorem rangeData_length {tail : List UInt8} {range : ChunkRange} (inside : InTail tail.length 0 range) :
    (rangeData tail range).length = range.2.1 - range.1 := by
  have below := inside.below
  rw [rangeData, List.length_drop, List.length_take, Nat.min_eq_left below]

theorem fragmentsFrom_eq {tail : List UInt8} {atomic : Bool} {rdos : UInt16} {identification : UInt32}
    (inside : ∀ range ∈ ranges, range.1 ≤ range.2.1 ∧ range.2.1 ≤ tail.length) (word : 8 + tail.length < 2 ^ 16) :
    Split.fragmentsFrom tail atomic rdos identification ranges =
      .ok (.ok (ranges.map (rangeFragment tail atomic rdos identification))) := by
  induction ranges with
  | nil => rfl
  | cons range rest ih =>
    obtain ⟨first, last, terminal⟩ := range
    obtain ⟨ordered, below⟩ := inside (first, last, terminal) (by simp)
    have offset : Split.checkedFragmentOffset (if atomic = true then 0 else Length.udpHeader + first) =
        .ok (UInt16.ofNat (rangeOffset atomic (first, last, terminal))) := by
      unfold Split.checkedFragmentOffset
      rw [tryU16_of_lt]
      · rfl
      · split
        · omega
        · show 8 + first < 2 ^ 16
          omega
    unfold Split.fragmentsFrom
    simp only [offset, Checked.slice_of_le ordered below, Checked.ok_bind,
      ih (fun other member => inside other (List.mem_cons_of_mem _ member))]
    rfl

/-- A successful split: the plan behind the emitted fragments. -/
structure SplitPlan (payload optionsBody : List UInt8) (config : SplitConfig) (rdos : UInt16)
    (ranges : List ChunkRange) : Prop where
  announced : rdos.toNat = 8 + payload.length
  fits : 8 + (Split.reassembledTail payload optionsBody).length ≤ config.peer.maxReassembledSize.toNat
  chunks : Chunks (Split.reassembledTail payload optionsBody).length 0 ranges
  count : ranges.length ≤ config.peer.maxSegments.toNat

theorem reassembledTail_eq (payload optionsBody : List UInt8) :
    Split.reassembledTail payload optionsBody =
      payload ++ (if optionsBody ≠ [] ∧ (8 + payload.length) % 2 = 1 then [0] else []) ++ optionsBody := by
  cases optionsBody with
  | nil => simp [Split.reassembledTail]
  | cons byte rest =>
    by_cases odd : (8 + payload.length) % 2 = 1
    · simp [Split.reassembledTail, Split.rdosNeedsOptionsPad, Length.udpHeader, odd]
    · simp [Split.reassembledTail, Split.rdosNeedsOptionsPad, Length.udpHeader, odd]

private theorem checkedRdos_cases (payloadLen : Nat) :
    (∃ rdos, Split.checkedRdos payloadLen = .ok rdos ∧ rdos.toNat = 8 + payloadLen) ∨
      ∃ len, Split.checkedRdos payloadLen = .error (.rdosTooLarge len 65535) ∧ 65535 < 8 + payloadLen := by
  unfold Split.checkedRdos
  by_cases small : 8 + payloadLen < 2 ^ 16
  · rw [checkedAdd_of_lt (show Length.udpHeader + payloadLen < 2 ^ 64 by change 8 + payloadLen < 2 ^ 64; omega)]
    refine .inl ⟨UInt16.ofNat (8 + payloadLen), ?_, UInt16.toNat_ofNat_of_lt' small⟩
    simp only [tryU16_of_lt (show Length.udpHeader + payloadLen < 2 ^ 16 from small)]
    rfl
  · have large : 65535 < 8 + payloadLen := by omega
    split
    · exact .inr ⟨_, rfl, large⟩
    next sum added =>
      obtain ⟨_, rfl⟩ := checkedAdd_eq_some.mp added
      rw [tryU16, if_neg (show ¬ Length.udpHeader + payloadLen < 2 ^ 16 from small)]
      exact .inr ⟨_, rfl, large⟩

/-- Each range with its FRAG option keeps to the surplus budget, and there are several
as soon as the tail and a terminal FRAG exceed it. -/
structure Budgeted (tailLen budget : Nat) (rdos : UInt16) (ranges : List ChunkRange) : Prop where
  fits : ∀ range ∈ ranges, Split.fragmentOptionsBodyLen (rangeRdos rdos range) + (range.2.1 - range.1) ≤ budget
  several : 1 < ranges.length ↔ budget < Split.fragTerminalBodyLen + tailLen

theorem Cutting.budgeted {tailLen budget : Nat} {rdos : UInt16} (terminal : Split.fragTerminalBodyLen ≤ budget)
    (cutting : Cutting tailLen (budget - Split.fragmentOptionsBodyLen (some rdos))
      (budget - Split.fragmentOptionsBodyLen none) 0 ranges) : Budgeted tailLen budget rdos ranges where
  fits := by
    rintro ⟨first, last, terminalRange⟩ member
    have room := cutting.fits _ member
    have body : Split.fragTerminalBodyLen = Split.fragNonTerminalBodyLen + 2 := rfl
    cases terminalRange with
    | true =>
      change last ≤ first + (budget - Split.fragTerminalBodyLen) at room
      show Split.fragTerminalBodyLen + (last - first) ≤ budget
      omega
    | false =>
      change last ≤ first + (budget - Split.fragNonTerminalBodyLen) at room
      show Split.fragNonTerminalBodyLen + (last - first) ≤ budget
      omega
  several := by
    rw [cutting.several]
    show 0 + (budget - Split.fragTerminalBodyLen) < tailLen ↔ _
    omega

/-- The conditions on the sizes alone, before the fragments are counted. -/
structure Splittable (payload optionsBody : List UInt8) (config : SplitConfig) : Prop where
  led : optionsBody = [] ∨ 2 ≤ optionsBody.length
  least : 14 ≤ config.maxFragmentSurplusLen
  most : config.maxFragmentSurplusLen ≤ 65507
  announced : 8 + payload.length ≤ 65535
  size : 8 + (Split.reassembledTail payload optionsBody).length ≤ config.peer.maxReassembledSize.toNat

def CutInto (payload optionsBody : List UInt8) (config : SplitConfig) (ranges : List ChunkRange) : Prop :=
  Split.chunkRanges (Split.reassembledTail payload optionsBody).length (config.maxFragmentSurplusLen - 14)
    (config.maxFragmentSurplusLen - 12) 12 config = .ok (.ok ranges)

/-- The splitter refuses unsuitable sizes, then too many fragments, or it follows a plan; it never faults. -/
inductive SplitVerdict (payload optionsBody : List UInt8) (config : SplitConfig) :
    Checked (Except SplitError (List Fragment)) → Prop where
  | unsuitable {error : SplitError} (never : ¬ Splittable payload optionsBody config)
      (other : ∀ offset max, error ≠ .fragmentOffsetTooLarge offset max) :
      SplitVerdict payload optionsBody config (.ok (.error error))
  | crowded {ranges : List ChunkRange} (suitable : Splittable payload optionsBody config)
      (cut : CutInto payload optionsBody config ranges) (many : config.peer.maxSegments.toNat < ranges.length) :
      SplitVerdict payload optionsBody config (.ok (.error (.segmentLimitExceeded ranges.length config.peer.maxSegments)))
  | emitted {rdos : UInt16} {ranges : List ChunkRange} (suitable : Splittable payload optionsBody config)
      (cut : CutInto payload optionsBody config ranges) (plan : SplitPlan payload optionsBody config rdos ranges)
      (budgeted : Budgeted (Split.reassembledTail payload optionsBody).length config.maxFragmentSurplusLen rdos ranges) :
      SplitVerdict payload optionsBody config
        (.ok (.ok (ranges.map (rangeFragment (Split.reassembledTail payload optionsBody) (ranges.length = 1) rdos
          config.identification))))

theorem Splittable.cut {payload optionsBody : List UInt8} {config : SplitConfig}
    (suitable : Splittable payload optionsBody config) :
    ∃ ranges, CutInto payload optionsBody config ranges ∧
      Cutting (Split.reassembledTail payload optionsBody).length (config.maxFragmentSurplusLen - 14)
        (config.maxFragmentSurplusLen - 12) 0 ranges := by
  have least := suitable.least
  unfold CutInto Split.chunkRanges
  by_cases small : (Split.reassembledTail payload optionsBody).length ≤ config.maxFragmentSurplusLen - 14
  · rw [if_pos small]
    exact ⟨_, rfl, .last (Nat.zero_le _) (by omega) _⟩
  · obtain ⟨ranges, looped, cutting⟩ := chunkLoop_cuts (show 0 < config.maxFragmentSurplusLen - 12 by omega)
      (Nat.zero_add (Split.reassembledTail payload optionsBody).length) (Nat.lt_succ_self _)
      (config.maxFragmentSurplusLen - 14)
    rw [if_neg small]
    refine ⟨ranges, ?_, cutting⟩
    simp only [if_neg (show ¬ config.maxFragmentSurplusLen - 12 = 0 by omega), looped, Checked.ok_bind]
    rfl

theorem splitDatagram_verdict (payload optionsBody : List UInt8) (config : SplitConfig) :
    SplitVerdict payload optionsBody config (Split.splitDatagram payload optionsBody config) := by
  unfold Split.splitDatagram
  split
  next short =>
    refine .unsuitable (fun suitable => ?_) nofun
    obtain ⟨some, few⟩ := Bool.and_eq_true_iff.mp short
    rcases suitable.led with rfl | led
    · cases some
    · exact Nat.not_lt.mpr led (of_decide_eq_true few)
  next led =>
  split
  next wide => exact .unsuitable (fun suitable => Nat.not_lt.mpr suitable.most wide) nofun
  next most =>
  rcases checkedRdos_cases payload.length with ⟨rdos, checked, announced⟩ | ⟨len, checked, large⟩
  · simp only [checked]
    split
    next large => exact .unsuitable (fun suitable => Nat.not_lt.mpr suitable.size large) nofun
    next size =>
    split
    next narrow => exact .unsuitable (fun suitable => Nat.not_lt.mpr suitable.least narrow) nofun
    next least =>
    have word := rdos.toNat_lt
    have suitable : Splittable payload optionsBody config :=
      { led := by
          by_cases empty : optionsBody = []
          · exact .inl empty
          · exact .inr (Nat.le_of_not_lt fun few => led (by simp [empty, show optionsBody.length < Length.ocs from few]))
        least := Nat.le_of_not_lt least
        most := Nat.le_of_not_lt most
        announced := by omega
        size := Nat.le_of_not_lt size }
    obtain ⟨ranges, cut, cutting⟩ := suitable.cut
    have same : Split.chunkRanges (Split.reassembledTail payload optionsBody).length
        (config.maxFragmentSurplusLen - Split.fragmentOptionsBodyLen (some rdos))
        (config.maxFragmentSurplusLen - Split.fragmentOptionsBodyLen none) (Split.fragmentOptionsBodyLen none) config =
          .ok (.ok ranges) := cut
    simp only [same, Checked.ok_bind]
    split
    next many => exact .crowded suitable cut many
    next few =>
    have bound := config.peer.maxReassembledSize.toNat_lt
    have fits := suitable.size
    rw [fragmentsFrom_eq (fun range member =>
      ⟨(cutting.chunks.inTail range member).ordered, (cutting.chunks.inTail range member).below⟩) (by omega)]
    exact .emitted suitable cut ⟨announced, fits, cutting.chunks, Nat.le_of_not_lt few⟩ (cutting.budgeted suitable.least)
  · rw [checked]
    exact .unsuitable (fun suitable => Nat.not_lt.mpr suitable.announced large) nofun

theorem splitDatagram_cases (payload optionsBody : List UInt8) (config : SplitConfig) :
    (∃ error, Split.splitDatagram payload optionsBody config = .ok (.error error)) ∨
    ∃ rdos ranges, SplitPlan payload optionsBody config rdos ranges ∧
      Budgeted (Split.reassembledTail payload optionsBody).length config.maxFragmentSurplusLen rdos ranges ∧
      Split.splitDatagram payload optionsBody config =
        .ok (.ok (ranges.map (rangeFragment (Split.reassembledTail payload optionsBody) (ranges.length = 1) rdos
          config.identification))) := by
  have verdict := splitDatagram_verdict payload optionsBody config
  generalize Split.splitDatagram payload optionsBody config = result at verdict
  cases verdict with
  | unsuitable never other => exact .inl ⟨_, rfl⟩
  | crowded suitable cut many => exact .inl ⟨_, rfl⟩
  | emitted suitable cut plan budgeted => exact .inr ⟨_, _, plan, budgeted, rfl⟩

theorem splitDatagram_budgeted {payload optionsBody : List UInt8} {config : SplitConfig} {fragments : List Fragment}
    (emitted : Split.splitDatagram payload optionsBody config = .ok (.ok fragments)) :
    ∃ rdos ranges, SplitPlan payload optionsBody config rdos ranges ∧
      Budgeted (Split.reassembledTail payload optionsBody).length config.maxFragmentSurplusLen rdos ranges ∧
      fragments = ranges.map (rangeFragment (Split.reassembledTail payload optionsBody) (ranges.length = 1) rdos
        config.identification) := by
  rcases splitDatagram_cases payload optionsBody config with ⟨error, failed⟩ | ⟨rdos, ranges, plan, budgeted, whole⟩
  · rw [failed] at emitted
    cases emitted
  · rw [whole] at emitted
    cases emitted
    exact ⟨rdos, ranges, plan, budgeted, rfl⟩

theorem splitDatagram_plan {payload optionsBody : List UInt8} {config : SplitConfig} {fragments : List Fragment}
    (emitted : Split.splitDatagram payload optionsBody config = .ok (.ok fragments)) :
    ∃ rdos ranges, SplitPlan payload optionsBody config rdos ranges ∧
      fragments = ranges.map (rangeFragment (Split.reassembledTail payload optionsBody) (ranges.length = 1) rdos
        config.identification) := by
  obtain ⟨rdos, ranges, plan, _, whole⟩ := splitDatagram_budgeted emitted
  exact ⟨rdos, ranges, plan, whole⟩

theorem decode_fragValue (fragStart : UInt16) (identification : UInt32) (fragOffset : UInt16) (rdos : Option UInt16) :
    Frag.decode (Split.fragValue fragStart identification fragOffset rdos) =
      .ok ⟨fragStart, identification, fragOffset, rdos⟩ := by
  cases rdos with
  | none =>
    simp only [Split.fragValue, u16Be, u32Be, List.cons_append, List.nil_append, Frag.decode, u16OfBe_split,
      u32OfBe_split]
  | some rdos =>
    simp only [Split.fragValue, u16Be, u32Be, List.cons_append, List.nil_append, Frag.decode, u16OfBe_split,
      u32OfBe_split]

theorem fragValue_length (fragStart : UInt16) (identification : UInt32) (fragOffset : UInt16) (rdos : Option UInt16) :
    (Split.fragValue fragStart identification fragOffset rdos).length + 4 = Split.fragmentOptionsBodyLen rdos := by
  cases rdos <;> rfl

/-- Where the data of a fragment starts, counted from the UDP header. -/
def fragStartOf (rdos : Option UInt16) : UInt16 := UInt16.ofNat (Length.udpHeader + Split.fragmentOptionsBodyLen rdos)

theorem fragStartOf_toNat (rdos : Option UInt16) :
    (fragStartOf rdos).toNat = 8 + Split.fragmentOptionsBodyLen rdos := by
  cases rdos <;> rfl

def fragLenByte (rdos : Option UInt16) : UInt8 :=
  UInt8.ofNat (if rdos.isSome then Length.fragTerminal else Length.fragNonTerminal)

private theorem fragmentOptionsBody_eq (identification : UInt32) (fragOffset : UInt16) (rdos : Option UInt16) :
    Split.fragmentOptionsBody identification fragOffset rdos =
      0 :: 0 :: Kind.frag :: fragLenByte rdos ::
        Split.fragValue (fragStartOf rdos) identification fragOffset rdos := rfl

theorem fragmentOptionsBody_length (identification : UInt32) (fragOffset : UInt16) (rdos : Option UInt16) :
    (Split.fragmentOptionsBody identification fragOffset rdos).length = Split.fragmentOptionsBodyLen rdos := by
  rw [← fragValue_length (fragStartOf rdos) identification fragOffset rdos, fragmentOptionsBody_eq]
  rfl

theorem fragLenByte_eq (fragStart : UInt16) (identification : UInt32) (fragOffset : UInt16) (rdos : Option UInt16) :
    fragLenByte rdos = UInt8.ofNat ((Split.fragValue fragStart identification fragOffset rdos).length + 2) := by
  cases rdos <;> rfl

private theorem isTlvKind_frag : IsTlvKind Kind.frag := ⟨by decide, by decide⟩

theorem framed_fragment (start : Nat) (fragStart : UInt16) (identification : UInt32) (fragOffset : UInt16)
    (rdos : Option UInt16) {data : List UInt8} {items : List OptionsIter.Item}
    (next : Framed (start + (fragLenByte rdos).toNat) data items) :
    Framed start (Kind.frag :: fragLenByte rdos ::
        (Split.fragValue fragStart identification fragOffset rdos ++ data))
      (.ok ⟨.frag, Split.fragValue fragStart identification fragOffset rdos, some (start + 2)⟩ :: items) := by
  have total : (fragLenByte rdos).toNat = (Split.fragValue fragStart identification fragOffset rdos).length + 2 := by
    cases rdos <;> rfl
  have short : fragLenByte rdos ≠ Kind.extendedLengthMarker := by
    cases rdos with
    | none => exact show UInt8.ofNat Length.fragNonTerminal ≠ Kind.extendedLengthMarker by decide
    | some rdos => exact show UInt8.ofNat Length.fragTerminal ≠ Kind.extendedLengthMarker by decide
  exact .tlv isTlvKind_frag short total next

/-- A receiver's view of a surplus body: the FRAG option behind the OCS field, and
the bytes from Frag.Start on. -/
def parsedFrag (surplusBody : List UInt8) : Checked (Option (Frag × List UInt8)) := do
  let (item, _) ← (OptionsIter.new (surplusBody.drop Length.ocs)).next
  match item with
  | some (.ok option) =>
    match Frag.decode option.value with
    | .ok frag => return some (frag, surplusBody.drop (frag.fragStart.toNat - Length.udpHeader))
    | .error _ => return none
  | _ => return none

def rangeFrag (atomic : Bool) (rdos : UInt16) (identification : UInt32) (range : ChunkRange) : Frag where
  fragStart := fragStartOf (rangeRdos rdos range)
  identification := identification
  fragOffset := UInt16.ofNat (rangeOffset atomic range)
  rdos := rangeRdos rdos range

theorem parsedFrag_rangeFragment (tail : List UInt8) (atomic : Bool) (rdos : UInt16) (identification : UInt32)
    (range : ChunkRange) :
    parsedFrag (rangeFragment tail atomic rdos identification range).surplusBody =
      .ok (some (rangeFrag atomic rdos identification range, rangeData tail range)) := by
  obtain ⟨items, next⟩ := framed_exists (rangeData tail range) (0 + (fragLenByte (rangeRdos rdos range)).toNat)
  obtain ⟨after, called⟩ := (framed_fragment 0 (fragStartOf (rangeRdos rdos range)) identification
    (UInt16.ofNat (rangeOffset atomic range)) (rangeRdos rdos range) next).first
  have area : (rangeFragment tail atomic rdos identification range).surplusBody.drop Length.ocs =
      Kind.frag :: fragLenByte (rangeRdos rdos range) :: (Split.fragValue (fragStartOf (rangeRdos rdos range))
        identification (UInt16.ofNat (rangeOffset atomic range)) (rangeRdos rdos range) ++ rangeData tail range) := rfl
  have data : (rangeFragment tail atomic rdos identification range).surplusBody.drop
      ((fragStartOf (rangeRdos rdos range)).toNat - Length.udpHeader) = rangeData tail range := by
    rw [fragStartOf_toNat, show 8 + Split.fragmentOptionsBodyLen (rangeRdos rdos range) - Length.udpHeader =
      Split.fragmentOptionsBodyLen (rangeRdos rdos range) from Nat.add_sub_cancel_left _ _,
      ← fragmentOptionsBody_length identification (UInt16.ofNat (rangeOffset atomic range)) (rangeRdos rdos range)]
    exact List.drop_left
  unfold parsedFrag
  simp only [area, called, Checked.ok_bind, decode_fragValue, data]
  rfl

/-- The bytes a fragment carries behind its OCS field and its FRAG option. -/
def dataPart (fragment : Fragment) : List UInt8 :=
  fragment.surplusBody.drop (Split.fragmentOptionsBodyLen fragment.rdos)

/-- A surplus body within the budget: a zero OCS field, one FRAG option that decodes
to the fields of the fragment, and the data from Frag.Start on. -/
structure Emitted (config : SplitConfig) (fragment : Fragment) : Prop where
  budget : fragment.surplusBody.length ≤ config.maxFragmentSurplusLen
  option : ∃ fragStart value,
    fragment.surplusBody = 0 :: 0 :: Kind.frag :: UInt8.ofNat (value.length + 2) :: (value ++ dataPart fragment) ∧
      Frag.decode value = .ok ⟨fragStart, config.identification, fragment.fragOffset, fragment.rdos⟩ ∧
      fragStart.toNat = 8 + (4 + value.length)

/-- Each fragment starts where the data of the fragment before it ends. -/
def OffsetsFrom (next : Nat) : List Fragment → Prop
  | [] => True
  | fragment :: rest => fragment.fragOffset.toNat = next ∧ OffsetsFrom (next + (dataPart fragment).length) rest

theorem dataPart_rangeFragment (tail : List UInt8) (atomic : Bool) (rdos : UInt16) (identification : UInt32)
    (range : ChunkRange) : dataPart (rangeFragment tail atomic rdos identification range) = rangeData tail range := by
  rw [dataPart, ← fragmentOptionsBody_length identification (UInt16.ofNat (rangeOffset atomic range))]
  exact List.drop_left

theorem Budgeted.emitted {tail : List UInt8} {config : SplitConfig} {rdos : UInt16}
    (budgeted : Budgeted tail.length config.maxFragmentSurplusLen rdos ranges) (atomic : Bool) {range : ChunkRange}
    (member : range ∈ ranges) (inside : InTail tail.length 0 range) :
    Emitted config (rangeFragment tail atomic rdos config.identification range) where
  budget := by
    have room := budgeted.fits range member
    rw [rangeFragment, List.length_append, fragmentOptionsBody_length, rangeData_length inside]
    exact room
  option := by
    refine ⟨fragStartOf (rangeRdos rdos range), Split.fragValue (fragStartOf (rangeRdos rdos range))
      config.identification (UInt16.ofNat (rangeOffset atomic range)) (rangeRdos rdos range), ?_,
      decode_fragValue _ _ _ _, ?_⟩
    · rw [dataPart_rangeFragment, rangeFragment, fragmentOptionsBody_eq, fragLenByte_eq (fragStartOf _)
        config.identification (UInt16.ofNat (rangeOffset atomic range))]
      rfl
    · rw [fragStartOf_toNat, ← fragValue_length (fragStartOf (rangeRdos rdos range)) config.identification
        (UInt16.ofNat (rangeOffset atomic range))]
      omega

theorem Chunks.offsets {tail : List UInt8} (chunks : Chunks tail.length start ranges)
    (inside : ∀ range ∈ ranges, InTail tail.length 0 range) (word : 8 + tail.length < 2 ^ 16) (rdos : UInt16)
    (identification : UInt32) :
    OffsetsFrom (8 + start) (ranges.map (rangeFragment tail false rdos identification)) := by
  generalize whole : tail.length = tailLen at chunks
  induction chunks with
  | last below =>
    refine ⟨?_, trivial⟩
    exact UInt16.toNat_ofNat_of_lt' (by change 8 + _ < 2 ^ 16; omega)
  | @more first stop later wide rest ih =>
    have bound := rest.bound
    have known := inside (first, stop, false) (by simp)
    have length : (rangeData tail (first, stop, false)).length = stop - first := rangeData_length known
    refine ⟨UInt16.toNat_ofNat_of_lt' (by change 8 + first < 2 ^ 16; omega), ?_⟩
    rw [dataPart_rangeFragment, length, show 8 + first + (stop - first) = 8 + stop by omega]
    exact ih (fun range member => inside range (List.mem_cons_of_mem _ member))

theorem Chunks.flatMap_rangeData {tail : List UInt8} (chunks : Chunks tail.length start ranges) :
    ranges.flatMap (rangeData tail) = tail.drop start := by
  generalize whole : tail.length = tailLen at chunks
  induction chunks with
  | last below =>
    subst whole
    simp [rangeData]
  | @more first stop later wide rest ih =>
    have bound := rest.bound
    have reached : first ≤ (tail.take stop).length := by
      rw [List.length_take]
      omega
    rw [List.flatMap_cons, ih, rangeData, ← List.drop_append_of_le_length reached, List.take_append_drop]

theorem Chunks.last_terminal (chunks : Chunks tailLen start ranges) :
    ∃ initial last, ranges = initial ++ [last] ∧ (∀ range ∈ initial, range.2.2 = false) ∧ last.2.2 = true := by
  induction chunks with
  | last inside => exact ⟨[], _, rfl, by simp, rfl⟩
  | more wide rest ih =>
    obtain ⟨initial, last, rfl, plain, terminal⟩ := ih
    refine ⟨_ :: initial, last, rfl, ?_, terminal⟩
    intro range member
    rcases List.mem_cons.mp member with rfl | later
    · rfl
    · exact plain range later

/-- What a successful split looks like. -/
theorem split_shape {payload optionsBody : List UInt8} {config : SplitConfig} {fragments : List Fragment}
    (emitted : Split.splitDatagram payload optionsBody config = .ok (.ok fragments)) :
    ∃ initial last rdos, fragments = initial ++ [last] ∧
      (∀ fragment ∈ initial, fragment.terminal = false ∧ fragment.rdos = none ∧ dataPart fragment ≠ []) ∧
      (last.terminal = true ∧ last.rdos = some rdos ∧ rdos.toNat = 8 + payload.length) ∧
      (∀ fragment ∈ fragments, Emitted config fragment) ∧
      (if initial = [] then last.fragOffset = 0 else OffsetsFrom 8 fragments) ∧
      fragments.flatMap dataPart =
        payload ++ (if optionsBody ≠ [] ∧ (8 + payload.length) % 2 = 1 then [0] else []) ++ optionsBody := by
  obtain ⟨rdos, ranges, plan, budgeted, rfl⟩ := splitDatagram_budgeted emitted
  obtain ⟨initial, last, rfl, plain, terminal⟩ := plan.chunks.last_terminal
  have inside := plan.chunks.inTail
  have bound := config.peer.maxReassembledSize.toNat_lt
  have fits := plan.fits
  refine ⟨initial.map _, rangeFragment _ _ rdos config.identification last, rdos, List.map_append, ?_,
    ⟨terminal, if_pos terminal, plan.announced⟩, ?_, ?_, ?_⟩
  · intro fragment member
    obtain ⟨range, listed, rfl⟩ := List.mem_map.mp member
    have known := inside range (List.mem_append_left _ listed)
    refine ⟨plain range listed, if_neg (by simp [plain range listed]), ?_⟩
    have wide := known.wide (plain range listed)
    rw [dataPart_rangeFragment, ← List.length_pos_iff, rangeData_length known]
    omega
  · intro fragment member
    obtain ⟨range, listed, rfl⟩ := List.mem_map.mp member
    exact budgeted.emitted _ listed (inside range listed)
  · cases initial with
    | nil => rfl
    | cons first others =>
      have several : decide ((first :: others ++ [last]).length = 1) = false := by simp
      rw [if_neg (by simp), several]
      exact plan.chunks.offsets inside (by omega) rdos config.identification
  · rw [← reassembledTail_eq, List.flatMap_map]
    simp only [dataPart_rangeFragment]
    rw [plan.chunks.flatMap_rangeData, List.drop_zero]

private def threeAndTwo : List Fragment :=
  [⟨8, false, none, [0, 0, 3, 10, 0, 20, 0, 0, 0, 7, 0, 8, 1, 2, 3]⟩,
    ⟨11, true, some 13, [0, 0, 3, 12, 0, 22, 0, 0, 0, 7, 0, 11, 0, 13, 4, 5]⟩]

/-- Five bytes under a budget of sixteen go out as three and two. -/
theorem split_shape_three_and_two :
    Split.splitDatagram [1, 2, 3, 4, 5] [] ⟨16, ⟨13, 2⟩, 7⟩ = .ok (.ok threeAndTwo) ∧
    ∃ initial last rdos, threeAndTwo = initial ++ [last] ∧
      (∀ fragment ∈ initial, fragment.terminal = false ∧ fragment.rdos = none ∧ dataPart fragment ≠ []) ∧
      (last.terminal = true ∧ last.rdos = some rdos ∧ rdos.toNat = 13) ∧
      (∀ fragment ∈ threeAndTwo, Emitted ⟨16, ⟨13, 2⟩, 7⟩ fragment) ∧
      (if initial = [] then last.fragOffset = 0 else OffsetsFrom 8 threeAndTwo) ∧
      threeAndTwo.flatMap dataPart = [1, 2, 3, 4, 5] :=
  ⟨rfl, @split_shape [1, 2, 3, 4, 5] [] ⟨16, ⟨13, 2⟩, 7⟩ threeAndTwo rfl⟩

end UdpOptions.Proofs
