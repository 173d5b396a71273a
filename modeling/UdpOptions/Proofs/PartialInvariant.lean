import UdpOptions.Frag.Reassembly
import UdpOptions.Library.Intervals

/-! One partial datagram under insertion. `Accepted` says once what a fragment
that passes every check does to the partial, and `Consistent` is what every
accepted fragment preserves. On a consistent partial the completion walk
succeeds exactly when the stored segments tile the announced range. -/

namespace UdpOptions.Proofs
open Library Library.Intervals Model

abbrev SegmentsOrdered (segments : List Segment) : Prop := Ordered Segment.start Segment.stop segments

abbrev SegmentsTile (low : Nat) (segments : List Segment) (high : Nat) : Prop :=
  Tiles Segment.start Segment.stop low segments high

def segmentBytes (segments : List Segment) : Nat :=
  (segments.map fun segment => segment.stop - segment.start).sum

private theorem takeWhile_split {α : Type} (test : α → Bool) (items : List α) :
    items.take (items.takeWhile test).length = items.takeWhile test ∧
      items.drop (items.takeWhile test).length = items.dropWhile test := by
  induction items with
  | nil => simp
  | cons item rest ih =>
    by_cases passes : test item
    · simp [passes, ih.1, ih.2]
    · simp [passes]

theorem insertSegment_eq (segments : List Segment) (segment : Segment) :
    Partial.insertSegment segments (Partial.searchByStart segments segment.start) segment =
      (segments.takeWhile fun other => other.start < segment.start) ++
        segment :: segments.dropWhile fun other => other.start < segment.start := by
  obtain ⟨front, back⟩ := takeWhile_split (fun other : Segment => decide (other.start < segment.start)) segments
  simp only [Partial.insertSegment, Partial.searchByStart, front, back]

theorem insertSegment_perm (segments : List Segment) (segment : Segment) :
    (Partial.insertSegment segments (Partial.searchByStart segments segment.start) segment).Perm
      (segment :: segments) := by
  rw [insertSegment_eq]
  exact perm_insert_takeWhile _ segments segment

inductive Noted (held : Partial) (fragment : NormalizedFragment) (data : List UInt8)
    (processing : FragmentProcessing) : Partial → Prop where
  | middle (plain : fragment.udpLength = none) : Noted held fragment data processing held
  | first {rdos : UInt16} (announced : fragment.udpLength = some rdos) (header : 8 ≤ rdos.toNat)
      (reach : rdos.toNat - 8 ≤ fragment.stop) (noEnd : held.terminalEnd = none) (noLength : held.udpLength = none)
      (below : ∀ segment ∈ held.segments, segment.stop ≤ fragment.stop) :
      Noted held fragment data processing { held with
        terminalEnd := some fragment.stop
        udpLength := some rdos
        emptyTerminalOptions := if data.isEmpty then some processing.options else held.emptyTerminalOptions
        emptyTerminalOptionFailures :=
          if data.isEmpty then some processing.optionFailures else held.emptyTerminalOptionFailures }
  | again {rdos : UInt16} (announced : fragment.udpLength = some rdos) (header : 8 ≤ rdos.toNat)
      (reach : rdos.toNat - 8 ≤ fragment.stop) (sameEnd : held.terminalEnd = some fragment.stop)
      (sameLength : held.udpLength = some rdos)
      (repeated : data.isEmpty → held.emptyTerminalOptions = some processing.options ∧
        held.emptyTerminalOptionFailures = some processing.optionFailures) :
      Noted held fragment data processing held

/-- Everything that holds when a fragment passes the checks of `insert`. -/
structure Accepted (held : Partial) (fragment : NormalizedFragment) (data : List UInt8)
    (processing : FragmentProcessing) (limits : ReassemblyLimits) (updated : Partial) : Prop where
  countWord : held.fragmentCount + 1 < 2 ^ 64
  count : held.fragmentCount + 1 ≤ limits.maxSegments
  totalWord : held.byteTotal + data.length + 8 < 2 ^ 64
  total : held.byteTotal + data.length + 8 ≤ limits.maxReassembledSize
  apart : held.overlaps fragment.start fragment.stop = false
  within : ∀ terminalEnd, held.terminalEnd = some terminalEnd → fragment.stop ≤ terminalEnd
  noted : ∃ noted, Noted held fragment data processing noted ∧
    updated = noted.record fragment data processing (held.fragmentCount + 1) (held.byteTotal + data.length)

theorem Noted.fields {held noted : Partial} {fragment : NormalizedFragment} {data : List UInt8}
    {processing : FragmentProcessing} (step : Noted held fragment data processing noted) :
    noted.segments = held.segments ∧ noted.fragmentCount = held.fragmentCount ∧ noted.byteTotal = held.byteTotal ∧
      noted.fragmentOptions = held.fragmentOptions ∧ noted.fragmentOptionFailures = held.fragmentOptionFailures ∧
      noted.fragmentOcsNonzero = held.fragmentOcsNonzero ∧ noted.receivedAt = held.receivedAt := by
  cases step <;> exact ⟨rfl, rfl, rfl, rfl, rfl, rfl, rfl⟩

private theorem noteTerminal_iff {held noted : Partial} {fragment : NormalizedFragment} {rdos : UInt16}
    {data : List UInt8} {processing : FragmentProcessing} (announced : fragment.udpLength = some rdos) :
    held.noteTerminal fragment rdos data processing.options processing.optionFailures = .ok noted ↔
      Noted held fragment data processing noted := by
  constructor
  · intro equal
    unfold Partial.noteTerminal at equal
    split at equal
    · cases equal
    next user taken =>
      obtain ⟨header, rfl⟩ := checkedSub_eq_some.mp taken
      split at equal
      · cases equal
      next reach =>
        have reach := Nat.le_of_not_lt reach
        split at equal
        next noEnd noLength =>
          split at equal
          · cases equal
          next beyond =>
            cases equal
            refine .first announced header reach noEnd noLength ?_
            intro segment member
            by_contra past
            exact beyond (List.any_eq_true.mpr ⟨segment, member, by simpa using past⟩)
        next oldEnd oldLength sameEnd sameLength =>
          split at equal
          next same =>
            split at equal
            · cases equal
            next repeated =>
              cases equal
              obtain ⟨rfl, rfl⟩ := same
              refine .again announced header reach sameEnd sameLength ?_
              intro empty
              by_contra different
              exact repeated ⟨empty, by tauto⟩
          · cases equal
        · cases equal
  · intro step
    unfold Partial.noteTerminal
    cases step with
    | middle plain => rw [plain] at announced; cases announced
    | first announced' header reach noEnd noLength below =>
      cases announced'.symm.trans announced
      have clear : ¬ held.segments.any (fun segment => fragment.stop < segment.stop) = true := by
        intro beyond
        obtain ⟨segment, member, past⟩ := List.any_eq_true.mp beyond
        exact Nat.not_le.mpr (by simpa using past) (below segment member)
      simp only [checkedSub_of_le (show Length.udpHeader ≤ rdos.toNat from header)]
      rw [if_neg (show ¬ fragment.stop < rdos.toNat - Length.udpHeader from Nat.not_lt.mpr reach), noEnd, noLength]
      simp only [if_neg clear]
    | again announced' header reach sameEnd sameLength repeated =>
      cases announced'.symm.trans announced
      simp only [checkedSub_of_le (show Length.udpHeader ≤ rdos.toNat from header)]
      rw [if_neg (show ¬ fragment.stop < rdos.toNat - Length.udpHeader from Nat.not_lt.mpr reach), sameEnd, sameLength]
      simp only [and_self, if_true]
      rw [if_neg]
      rintro ⟨empty, different⟩
      obtain ⟨sameOptions, sameFailures⟩ := repeated empty
      rcases different with different | different
      · exact different sameOptions
      · exact different sameFailures

private theorem noteFragment_iff {held noted : Partial} {fragment : NormalizedFragment} {data : List UInt8}
    {processing : FragmentProcessing} :
    held.noteFragment fragment data processing = .ok noted ↔ Noted held fragment data processing noted := by
  unfold Partial.noteFragment
  cases announced : fragment.udpLength with
  | some rdos => exact noteTerminal_iff announced
  | none =>
    constructor
    · intro equal
      cases equal
      exact .middle announced
    · intro step
      cases step with
      | middle _ => rfl
      | first impossible => cases announced.symm.trans impossible
      | again impossible => cases announced.symm.trans impossible

theorem accept_iff {held updated : Partial} {fragment : NormalizedFragment} {data : List UInt8}
    {processing : FragmentProcessing} {limits : ReassemblyLimits} :
    held.accept fragment data processing limits = .ok updated ↔
      Accepted held fragment data processing limits updated := by
  constructor
  · intro equal
    unfold Partial.accept at equal
    split at equal
    · cases equal
    next fragmentCount counted =>
    obtain ⟨countWord, rfl⟩ := checkedAdd_eq_some.mp counted
    split at equal
    · cases equal
    next count =>
    split at equal
    · cases equal
    next byteTotal summed =>
    obtain ⟨sumWord, rfl⟩ := checkedAdd_eq_some.mp summed
    split at equal
    · cases equal
    next total =>
    split at equal
    · cases equal
    next apart =>
    split at equal
    · cases equal
    next within =>
    split at equal
    · cases equal
    next noted recorded =>
    cases equal
    have totals : held.byteTotal + data.length + 8 < 2 ^ 64 ∧
        held.byteTotal + data.length + 8 ≤ limits.maxReassembledSize := by
      cases grown : checkedAdd (held.byteTotal + data.length) Length.udpHeader with
      | none => simp [grown] at total
      | some udpTotal =>
        obtain ⟨word, same⟩ := checkedAdd_eq_some.mp grown
        simp only [grown, Option.all_some, decide_eq_true_eq, Nat.not_lt] at total
        exact ⟨word, Nat.le_trans (Nat.le_of_eq same) total⟩
    refine ⟨countWord, Nat.le_of_not_lt count, totals.1, totals.2, by simpa using apart, ?_, noted, ?_, rfl⟩
    · intro terminalEnd known
      simpa [known] using within
    · exact noteFragment_iff.mp recorded
  · intro accepted
    obtain ⟨noted, step, rfl⟩ := accepted.noted
    have inside : ¬ held.terminalEnd.any (fun terminalEnd => terminalEnd < fragment.stop) = true := by
      intro beyond
      cases known : held.terminalEnd with
      | none => simp [known] at beyond
      | some terminalEnd =>
        have inside := accepted.within terminalEnd known
        simp only [known, Option.any_some, decide_eq_true_eq] at beyond
        omega
    have word := accepted.totalWord
    have total : held.byteTotal + data.length + Length.udpHeader ≤ limits.maxReassembledSize := accepted.total
    have apart := accepted.apart
    unfold Partial.accept
    simp only [checkedAdd_of_lt accepted.countWord]
    rw [if_neg (Nat.not_lt.mpr accepted.count)]
    simp only [checkedAdd_of_lt (show held.byteTotal + data.length < 2 ^ 64 by omega),
      checkedAdd_of_lt (show held.byteTotal + data.length + Length.udpHeader < 2 ^ 64 from word), Option.all_some]
    rw [if_neg (by simpa only [decide_eq_true_eq, Nat.not_lt] using total), if_neg (by simp [apart]), if_neg inside,
      noteFragment_iff.mpr step]

/-- What holds of a partial whatever fragments were accepted into it. -/
structure Consistent (limits : ReassemblyLimits) (held : Partial) : Prop where
  ordered : SegmentsOrdered held.segments
  lengths : ∀ segment ∈ held.segments, segment.data.length = segment.stop - segment.start
  inside : ∀ segment ∈ held.segments, 8 + segment.stop ≤ limits.maxReassembledSize
  total : held.byteTotal = segmentBytes held.segments
  totalInside : 0 < held.fragmentCount → 8 + held.byteTotal ≤ limits.maxReassembledSize
  count : 0 < held.fragmentCount → held.fragmentCount ≤ limits.maxSegments
  segmentCount : held.segments.length ≤ held.fragmentCount
  terminal : held.terminalEnd.isSome = held.udpLength.isSome
  reach : ∀ terminalEnd udpLength, held.terminalEnd = some terminalEnd → held.udpLength = some udpLength →
    8 ≤ udpLength.toNat ∧ udpLength.toNat - 8 ≤ terminalEnd
  terminalInside : ∀ terminalEnd, held.terminalEnd = some terminalEnd → 8 + terminalEnd ≤ limits.maxReassembledSize
  below : ∀ terminalEnd, held.terminalEnd = some terminalEnd →
    ∀ segment ∈ held.segments, segment.stop ≤ terminalEnd

/-- The range a fragment claims is the range of its data, inside the limit. -/
structure Ranged (limits : ReassemblyLimits) (fragment : NormalizedFragment) (data : List UInt8) : Prop where
  range : fragment.stop = fragment.start + data.length
  inside : 8 + fragment.stop ≤ limits.maxReassembledSize

theorem consistent_new (limits : ReassemblyLimits) (now : Nat) : Consistent limits (Partial.new now) where
  ordered := Ordered.nil
  lengths := by simp [Partial.new]
  inside := by simp [Partial.new]
  total := rfl
  totalInside := by simp [Partial.new]
  count := by simp [Partial.new]
  segmentCount := Nat.le_refl _
  terminal := rfl
  reach := by simp [Partial.new]
  terminalInside := by simp [Partial.new]
  below := by simp [Partial.new]

private theorem consistent_noted {limits : ReassemblyLimits} {held noted : Partial} {fragment : NormalizedFragment}
    {data : List UInt8} {processing : FragmentProcessing} (consistent : Consistent limits held)
    (ranged : Ranged limits fragment data) (step : Noted held fragment data processing noted) :
    Consistent limits noted := by
  cases step with
  | middle plain => exact consistent
  | again => exact consistent
  | first announced header reach noEnd noLength below =>
    refine { consistent with terminal := rfl, reach := ?_, terminalInside := ?_, below := ?_ }
    · intro terminalEnd udpLength sameEnd sameLength
      cases sameEnd
      cases sameLength
      exact ⟨header, reach⟩
    · intro terminalEnd same
      cases same
      exact ranged.inside
    · intro terminalEnd same
      cases same
      exact below

def segmentOf (fragment : NormalizedFragment) (data : List UInt8) (processing : FragmentProcessing) : Segment :=
  ⟨fragment.start, fragment.stop, data, processing.options, processing.optionFailures⟩

private theorem overlaps_false {held : Partial} {start stop : Nat} (apart : held.overlaps start stop = false)
    (wide : start < stop) : ∀ segment ∈ held.segments, ¬ (start < segment.stop ∧ segment.start < stop) := by
  intro segment member meets
  have clear : ¬ held.segments.any (fun segment => start < segment.stop ∧ segment.start < stop) = true := by
    simpa [Partial.overlaps, wide] using apart
  exact clear (List.any_eq_true.mpr ⟨segment, member, by simpa using meets⟩)

private theorem consistent_record {limits : ReassemblyLimits} {held : Partial} {fragment : NormalizedFragment}
    {data : List UInt8} {processing : FragmentProcessing} (consistent : Consistent limits held)
    (ranged : Ranged limits fragment data) (count : held.fragmentCount + 1 ≤ limits.maxSegments)
    (total : held.byteTotal + data.length + 8 ≤ limits.maxReassembledSize)
    (apart : held.overlaps fragment.start fragment.stop = false)
    (within : ∀ terminalEnd, held.terminalEnd = some terminalEnd → fragment.stop ≤ terminalEnd) :
    Consistent limits
      (held.record fragment data processing (held.fragmentCount + 1) (held.byteTotal + data.length)) := by
  have room : 8 + (held.byteTotal + data.length) ≤ limits.maxReassembledSize := by omega
  by_cases empty : data.isEmpty
  · have same : data.length = 0 := by simpa using empty
    refine { consistent with
      ordered := ?_
      lengths := ?_
      inside := ?_
      total := ?_
      totalInside := fun _ => room
      count := fun _ => count
      segmentCount := ?_
      below := ?_ }
    all_goals simp only [Partial.record, empty, if_true, same, Nat.add_zero]
    · exact consistent.ordered
    · exact consistent.lengths
    · exact consistent.inside
    · exact consistent.total
    · exact Nat.le_succ_of_le consistent.segmentCount
    · exact consistent.below
  · have wide : fragment.start < fragment.stop := by
      have positive : 0 < data.length := List.length_pos_of_ne_nil (by simpa using empty)
      have range := ranged.range
      omega
    have permuted := insertSegment_perm held.segments (segmentOf fragment data processing)
    have members : ∀ segment, segment ∈ Partial.insertSegment held.segments
        (Partial.searchByStart held.segments fragment.start) (segmentOf fragment data processing) →
        segment = segmentOf fragment data processing ∨ segment ∈ held.segments :=
      fun segment member => List.mem_cons.mp (permuted.mem_iff.mp member)
    have length : data.length = fragment.stop - fragment.start := by
      have range := ranged.range
      omega
    refine { consistent with
      ordered := ?_
      lengths := ?_
      inside := ?_
      total := ?_
      totalInside := fun _ => room
      count := fun _ => count
      segmentCount := ?_
      below := ?_ }
    all_goals simp only [Partial.record, empty, Bool.false_eq_true, if_false]
    · have wider : (segmentOf fragment data processing).start < (segmentOf fragment data processing).stop := wide
      have inserted := Ordered.insert consistent.ordered wider
        (fun other member meets => overlaps_false apart wide other member meets)
      rw [← insertSegment_eq] at inserted
      exact inserted
    · intro segment member
      rcases members segment member with rfl | old
      · exact length
      · exact consistent.lengths segment old
    · intro segment member
      rcases members segment member with rfl | old
      · exact ranged.inside
      · exact consistent.inside segment old
    · have sums := (permuted.map fun segment => segment.stop - segment.start).sum_eq
      have old := consistent.total
      simp only [List.map_cons, List.sum_cons, segmentOf] at sums
      simp only [segmentBytes] at old ⊢
      omega
    · have lengths := permuted.length_eq
      have old := consistent.segmentCount
      simp only [segmentOf, List.length_cons] at lengths
      omega
    · intro terminalEnd known segment member
      rcases members segment member with rfl | old
      · exact within terminalEnd known
      · exact consistent.below terminalEnd known segment old

theorem Accepted.consistent {limits : ReassemblyLimits} {held updated : Partial} {fragment : NormalizedFragment}
    {data : List UInt8} {processing : FragmentProcessing} (consistent : Consistent limits held)
    (ranged : Ranged limits fragment data) (accepted : Accepted held fragment data processing limits updated) :
    Consistent limits updated := by
  obtain ⟨noted, step, rfl⟩ := accepted.noted
  obtain ⟨segments, counted, total, _⟩ := step.fields
  rw [← counted, ← total]
  apply consistent_record (consistent_noted consistent ranged step) ranged
  · rw [counted]
    exact accepted.count
  · rw [total]
    exact accepted.total
  · rw [Partial.overlaps, segments]
    exact accepted.apart
  · intro terminalEnd known
    cases step with
    | middle => exact accepted.within terminalEnd known
    | again => exact accepted.within terminalEnd known
    | first => exact Nat.le_of_eq (Option.some.inj known)

private theorem walk_ok_iff {low high : Nat} {segments : List Segment} :
    Partial.walk low segments = .ok high ↔ SegmentsTile low segments high := by
  induction segments generalizing low with
  | nil => simp [Partial.walk, Tiles]
  | cons segment rest ih =>
    simp only [Partial.walk, Tiles]
    split
    next gap =>
      simp only [reduceCtorEq, false_iff, not_and]
      omega
    next met =>
      split
      next behind =>
        simp only [reduceCtorEq, false_iff, not_and]
        omega
      next reached => simp [ih, show segment.start = low by omega]

theorem walk_of_ordered {low : Nat} {segments : List Segment} (ordered : SegmentsOrdered segments)
    (above : ∀ segment ∈ segments, low ≤ segment.start) :
    (∃ high, Partial.walk low segments = .ok high) ∨ Partial.walk low segments = .error .incomplete := by
  induction segments generalizing low with
  | nil => exact .inl ⟨low, rfl⟩
  | cons segment rest ih =>
    have first := above segment (by simp)
    simp only [Partial.walk]
    split
    · exact .inr rfl
    · rw [if_neg (Nat.not_lt.mpr first)]
      exact ih ordered.tail ordered.head_le

/-- The segments reach without a gap from the start to a known terminal end. -/
def Filled (held : Partial) : Prop :=
  ∃ terminalEnd, held.terminalEnd = some terminalEnd ∧ SegmentsTile 0 held.segments terminalEnd

def reassembledOf (held : Partial) (udpLength : UInt16) : Reassembled where
  tail := held.segments.flatMap Segment.data
  udpLength := udpLength
  fragmentOptions := held.fragmentOptions.toRawOptions
  fragmentOptionFailures := held.fragmentOptionFailures
  fragmentOcsNonzero := held.fragmentOcsNonzero

theorem complete_of_filled {held : Partial} {udpLength : UInt16} (filled : Filled held)
    (known : held.udpLength = some udpLength) : held.complete = .complete (reassembledOf held udpLength) := by
  obtain ⟨terminalEnd, ending, tiles⟩ := filled
  simp [Partial.complete, ending, known, walk_ok_iff.mpr tiles, reassembledOf]

theorem complete_of_not_filled {held : Partial} (ordered : SegmentsOrdered held.segments) (gap : ¬ Filled held) :
    held.complete = .incomplete := by
  unfold Partial.complete
  split
  next terminalEnd udpLength ending known =>
    rcases walk_of_ordered ordered (fun _ _ => Nat.zero_le _) with ⟨high, walked⟩ | walked
    · simp only [walked]
      rw [if_pos]
      intro same
      exact gap ⟨terminalEnd, ending, walk_ok_iff.mp (same ▸ walked)⟩
    · simp only [walked]
  next => rfl

theorem Consistent.filled_iff {limits : ReassemblyLimits} {held : Partial} {terminalEnd : Nat}
    (consistent : Consistent limits held) (ending : held.terminalEnd = some terminalEnd) :
    Filled held ↔ Covers Segment.start Segment.stop held.segments 0 terminalEnd := by
  constructor
  · rintro ⟨other, same, tiles⟩
    cases ending.symm.trans same
    exact tiles.covers
  · intro covers
    exact ⟨terminalEnd, ending, covers.tiles consistent.ordered (fun _ _ => Nat.zero_le _)
      (consistent.below terminalEnd ending) (Nat.zero_le _)⟩

theorem Consistent.length_known {limits : ReassemblyLimits} {held : Partial} {terminalEnd : Nat}
    (consistent : Consistent limits held) (ending : held.terminalEnd = some terminalEnd) :
    ∃ udpLength, held.udpLength = some udpLength := by
  have same := consistent.terminal
  rw [ending] at same
  exact Option.isSome_iff_exists.mp same.symm

theorem Consistent.complete_cases {limits : ReassemblyLimits} {held : Partial} (consistent : Consistent limits held) :
    (∃ udpLength, Filled held ∧ held.udpLength = some udpLength ∧
      held.complete = .complete (reassembledOf held udpLength)) ∨ (¬ Filled held ∧ held.complete = .incomplete) := by
  by_cases filled : Filled held
  · obtain ⟨terminalEnd, ending, _⟩ := id filled
    obtain ⟨udpLength, known⟩ := consistent.length_known ending
    exact .inl ⟨udpLength, filled, known, complete_of_filled filled known⟩
  · exact .inr ⟨filled, complete_of_not_filled consistent.ordered filled⟩

inductive Fed (held : Partial) (fragment : NormalizedFragment) (data : List UInt8) (processing : FragmentProcessing)
    (limits : ReassemblyLimits) : ReassemblyOutcome × Partial → Prop where
  | duplicate (again : held.isExactDuplicate fragment data processing.options processing.optionFailures = true) :
      Fed held fragment data processing limits (.incomplete, held.observeFragmentOcs processing.ocsNonzero)
  | refused {reason : AbortReason}
      (fresh : held.isExactDuplicate fragment data processing.options processing.optionFailures = false)
      (rejected : held.accept fragment data processing limits = .error reason) :
      Fed held fragment data processing limits (.abort reason, held)
  | pending {updated : Partial}
      (fresh : held.isExactDuplicate fragment data processing.options processing.optionFailures = false)
      (accepted : Accepted held fragment data processing limits updated) (gap : ¬ Filled updated) :
      Fed held fragment data processing limits (.incomplete, updated)
  | finished {updated : Partial} {udpLength : UInt16}
      (fresh : held.isExactDuplicate fragment data processing.options processing.optionFailures = false)
      (accepted : Accepted held fragment data processing limits updated) (filled : Filled updated)
      (known : updated.udpLength = some udpLength) :
      Fed held fragment data processing limits (.complete (reassembledOf updated udpLength), updated)

theorem insert_fed {limits : ReassemblyLimits} {held : Partial} {fragment : NormalizedFragment} {data : List UInt8}
    (processing : FragmentProcessing) (consistent : Consistent limits held) (ranged : Ranged limits fragment data) :
    Fed held fragment data processing limits (held.insert fragment data processing limits) := by
  unfold Partial.insert
  split
  next again => exact .duplicate again
  next fresh =>
    have fresh := Bool.eq_false_iff.mpr fresh
    split
    next reason rejected => exact .refused fresh rejected
    next updated equal =>
      have accepted := accept_iff.mp equal
      rcases (accepted.consistent consistent ranged).complete_cases with ⟨udpLength, filled, known, done⟩ | ⟨gap, more⟩
      · rw [done]
        exact .finished fresh accepted filled known
      · rw [more]
        exact .pending fresh accepted gap

end UdpOptions.Proofs
