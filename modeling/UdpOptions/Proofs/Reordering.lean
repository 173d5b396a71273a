import UdpOptions.Proofs.CacheInvariant
import UdpOptions.Proofs.SplitShape

/-! The fragments of one split, in any order and with any repetition. `Gathered`
ties a partial to the set of ranges seen so far: its segments are exactly those
ranges of the tail. A repeated range is recognised as a duplicate, a new one is
accepted, and the set completes with the last missing range. -/

namespace UdpOptions.Proofs
open Library Library.Intervals Model

def rangeNormal (rdos : UInt16) (range : ChunkRange) : NormalizedFragment := ⟨range.1, range.2.1, rangeRdos rdos range⟩

def plainProcessing (ocs : Option Bool) : FragmentProcessing := ⟨[], [], ocs⟩

def rangeSegment (tail : List UInt8) (range : ChunkRange) : Segment :=
  ⟨range.1, range.2.1, rangeData tail range, [], []⟩

/-- A split whose whole tail a cache with these limits may hold. -/
structure Splitting (limits : ReassemblyLimits) (tail : List UInt8) (rdos : UInt16) (ranges : List ChunkRange) :
    Prop where
  chunks : Chunks tail.length 0 ranges
  header : 8 ≤ rdos.toNat
  reach : rdos.toNat - 8 ≤ tail.length
  word : 8 + tail.length < 2 ^ 16
  size : 8 + tail.length ≤ limits.maxReassembledSize
  count : ranges.length ≤ limits.maxSegments
  countWord : ranges.length < 2 ^ 16

/-- The partial after exactly these ranges have arrived. -/
structure Gathered (limits : ReassemblyLimits) (tail : List UInt8) (rdos : UInt16) (ranges : List ChunkRange)
    (ocs : Option Bool) (since : Nat) (seen : List ChunkRange) (held : Partial) : Prop where
  consistent : Consistent limits held
  nodup : seen.Nodup
  member : ∀ range ∈ seen, range ∈ ranges
  segments : ∀ segment, segment ∈ held.segments ↔ ∃ range ∈ seen, range.1 < range.2.1 ∧ segment = rangeSegment tail range
  count : held.fragmentCount = seen.length
  terminal : ∀ range ∈ seen, range.2.2 = true → held.terminalEnd = some tail.length ∧ held.udpLength = some rdos ∧
    (rangeData tail range = [] → held.emptyTerminalOptions = some [] ∧ held.emptyTerminalOptionFailures = some [])
  unknown : (∀ range ∈ seen, range.2.2 = false) → held.terminalEnd = none ∧ held.udpLength = none
  options : held.fragmentOptions = .default
  failures : held.fragmentOptionFailures = []
  observed : held.fragmentOcsNonzero = if seen = [] then some false else ocs
  since : held.receivedAt = since

variable {limits : ReassemblyLimits} {tail : List UInt8} {rdos : UInt16} {ranges seen : List ChunkRange}
  {ocs : Option Bool} {since : Nat} {held : Partial} {range : ChunkRange}

theorem Gathered.new (since : Nat) : Gathered limits tail rdos ranges ocs since [] (Partial.new since) where
  consistent := consistent_new limits since
  nodup := List.nodup_nil
  member := by simp
  segments := by simp [Partial.new]
  count := rfl
  terminal := by simp
  unknown := fun _ => ⟨rfl, rfl⟩
  options := rfl
  failures := rfl
  observed := rfl
  since := rfl

private theorem rangeData_eq_nil (inside : InTail tail.length 0 range) :
    rangeData tail range = [] ↔ ¬ range.1 < range.2.1 := by
  have ordered := inside.ordered
  rw [← List.length_eq_zero_iff, rangeData_length inside]
  omega

theorem Splitting.inTail (splitting : Splitting limits tail rdos ranges) (member : range ∈ ranges) :
    InTail tail.length 0 range := splitting.chunks.inTail range member

theorem Splitting.ranged (splitting : Splitting limits tail rdos ranges) (member : range ∈ ranges) :
    Ranged limits (rangeNormal rdos range) (rangeData tail range) := by
  have inside := splitting.inTail member
  have ordered := inside.ordered
  have below := inside.below
  have size := splitting.size
  constructor
  · rw [rangeData_length inside]
    simp only [rangeNormal]
    omega
  · simp only [rangeNormal]
    omega

theorem Splitting.screened (splitting : Splitting limits tail rdos ranges) (member : range ∈ ranges)
    (identification : UInt32) :
    screen limits (rangeFrag false rdos identification range) (rangeData tail range).length =
      .ok (rangeNormal rdos range) := by
  have inside := splitting.inTail member
  have ordered := inside.ordered
  have below := inside.below
  have word := splitting.word
  have size := splitting.size
  have reach := splitting.reach
  have offset : (UInt16.ofNat (8 + range.1)).toNat = 8 + range.1 := UInt16.toNat_ofNat_of_lt' (by change _ < 65536; omega)
  apply screen_ok_iff.mpr
  refine ⟨?_, ?_, ?_, splitting.ranged member⟩
  · have nonzero : ¬ (UInt16.ofNat (8 + range.1) = 0 ∧ (rangeRdos rdos range).isSome = true) := by
      rintro ⟨zero, _⟩
      rw [zero] at offset
      simp only [UInt16.toNat_zero] at offset
      omega
    have start : checkedSub (UInt16.ofNat (8 + range.1)).toNat Length.udpHeader = some range.1 := by
      rw [offset, checkedSub_of_le (show Length.udpHeader ≤ 8 + range.1 from Nat.le_add_right _ _)]
      exact congrArg some (Nat.add_sub_cancel_left 8 range.1)
    have stop : checkedAdd range.1 (rangeData tail range).length = some range.2.1 := by
      rw [rangeData_length inside, checkedAdd_of_lt (by omega)]
      exact congrArg some (by omega)
    simp only [NormalizedFragment.new, rangeFrag, rangeOffset, Length.udpHeader, Bool.false_eq_true, if_false, if_neg nonzero]
    simp only [Length.udpHeader] at start
    simp only [start, stop]
    rfl
  · simp only [rangeNormal, rangeRdos]
    split
    · show rdos.toNat ≤ _
      omega
    · exact Nat.zero_le _
  · simp only [rangeNormal]
    omega

theorem Gathered.duplicate (gathered : Gathered limits tail rdos ranges ocs since seen held)
    (splitting : Splitting limits tail rdos ranges) (again : range ∈ seen) :
    held.isExactDuplicate (rangeNormal rdos range) (rangeData tail range) [] [] = true := by
  have inside := splitting.inTail (gathered.member range again)
  have found : range.1 < range.2.1 → held.segments.any (fun segment =>
      segment.start = range.1 ∧ segment.stop = range.2.1 ∧ segment.data = rangeData tail range ∧
        segment.fragmentOptions = [] ∧ segment.fragmentOptionFailures = []) = true := by
    intro wide
    have stored : rangeSegment tail range ∈ held.segments := (gathered.segments _).mpr ⟨range, again, wide, rfl⟩
    exact List.any_eq_true.mpr ⟨_, stored, by simp [rangeSegment]⟩
  unfold Partial.isExactDuplicate rangeNormal rangeRdos
  cases terminal : range.2.2 with
  | false =>
    have wide := inside.wide terminal
    simpa using found wide
  | true =>
    obtain ⟨ending, length, empty⟩ := gathered.terminal range again terminal
    have reached := inside.terminal terminal
    simp only [if_true, length, ending, reached, ne_eq, not_true_eq_false, or_self, if_false]
    by_cases nothing : rangeData tail range = []
    · obtain ⟨options, failures⟩ := empty nothing
      simp [nothing, options, failures]
    · have wide : range.1 < range.2.1 := by
        by_contra narrow
        exact nothing ((rangeData_eq_nil inside).mpr narrow)
      have stored := found wide
      rw [reached] at stored
      simpa [nothing] using stored

theorem Gathered.fresh (gathered : Gathered limits tail rdos ranges ocs since seen held)
    (splitting : Splitting limits tail rdos ranges) (member : range ∈ ranges) (new : range ∉ seen) :
    held.isExactDuplicate (rangeNormal rdos range) (rangeData tail range) [] [] = false := by
  have inside := splitting.inTail member
  have unseenTerminal : range.2.2 = true → ∀ other ∈ seen, other.2.2 = false := by
    intro terminal other old
    by_contra otherTerminal
    have same := splitting.chunks.terminal_unique (gathered.member other old) member (by simpa using otherTerminal)
      terminal
    exact new (same ▸ old)
  unfold Partial.isExactDuplicate rangeNormal rangeRdos
  cases terminal : range.2.2 with
  | true =>
    obtain ⟨_, length⟩ := gathered.unknown (unseenTerminal terminal)
    simp [length]
  | false =>
    have wide := inside.wide terminal
    simp only [Bool.false_eq_true, if_false]
    apply Bool.eq_false_iff.mpr
    intro found
    obtain ⟨segment, stored, same⟩ := List.any_eq_true.mp found
    obtain ⟨other, old, otherWide, rfl⟩ := (gathered.segments segment).mp stored
    simp only [rangeSegment, decide_eq_true_eq] at same
    rcases splitting.chunks.compare (gathered.member other old) member with equal | before | after
    · exact new (equal ▸ old)
    · have := before.2.1
      have := before.2.2
      omega
    · have := after.2.1
      have := after.2.2
      omega

theorem Gathered.apart (gathered : Gathered limits tail rdos ranges ocs since seen held)
    (splitting : Splitting limits tail rdos ranges) (member : range ∈ ranges) (new : range ∉ seen) :
    ∀ segment ∈ held.segments, ¬ Meets Segment.start Segment.stop (rangeSegment tail range) segment := by
  intro segment stored meets
  obtain ⟨other, old, wide, rfl⟩ := (gathered.segments segment).mp stored
  obtain ⟨first, second⟩ := meets
  simp only [rangeSegment] at first second
  rcases splitting.chunks.compare (gathered.member other old) member with equal | before | after
  · exact new (equal ▸ old)
  · have := before.2.2
    omega
  · have := after.2.2
    omega

theorem Gathered.below (gathered : Gathered limits tail rdos ranges ocs since seen held)
    (splitting : Splitting limits tail rdos ranges) : ∀ segment ∈ held.segments, segment.stop ≤ tail.length := by
  intro segment stored
  obtain ⟨other, old, _, rfl⟩ := (gathered.segments segment).mp stored
  exact (splitting.inTail (gathered.member other old)).below

theorem Gathered.room (gathered : Gathered limits tail rdos ranges ocs since seen held)
    (splitting : Splitting limits tail rdos ranges) (member : range ∈ ranges) (new : range ∉ seen) :
    held.byteTotal + (rangeData tail range).length ≤ tail.length := by
  have inside := splitting.inTail member
  have ordered := inside.ordered
  rw [rangeData_length inside, gathered.consistent.total]
  by_cases wide : range.1 < range.2.1
  · exact Ordered.room gathered.consistent.ordered (show (rangeSegment tail range).start < _ from wide)
      (gathered.apart splitting member new) (gathered.below splitting) inside.below
  · have bounded := gathered.consistent.ordered.sum_le (fun _ _ => Nat.zero_le _) (gathered.below splitting)
      (Nat.zero_le tail.length)
    simp only [segmentBytes]
    omega

theorem Gathered.count_lt (gathered : Gathered limits tail rdos ranges ocs since seen held) (member : range ∈ ranges)
    (new : range ∉ seen) : held.fragmentCount + 1 ≤ ranges.length := by
  have nodup : (range :: seen).Nodup := List.nodup_cons.mpr ⟨new, gathered.nodup⟩
  have subset : range :: seen ⊆ ranges := by
    intro other old
    rcases List.mem_cons.mp old with rfl | old
    · exact member
    · exact gathered.member other old
  have bounded := (List.subperm_of_subset nodup subset).length_le
  rw [gathered.count]
  exact bounded

theorem Gathered.noted (gathered : Gathered limits tail rdos ranges ocs since seen held)
    (splitting : Splitting limits tail rdos ranges) (member : range ∈ ranges) (new : range ∉ seen) :
    ∃ noted, Noted held (rangeNormal rdos range) (rangeData tail range) (plainProcessing ocs) noted ∧
      (range.2.2 = false → noted = held) ∧
      (range.2.2 = true → noted.terminalEnd = some tail.length ∧ noted.udpLength = some rdos ∧
        (rangeData tail range = [] →
          noted.emptyTerminalOptions = some [] ∧ noted.emptyTerminalOptionFailures = some [])) := by
  have inside := splitting.inTail member
  cases terminal : range.2.2 with
  | false => exact ⟨held, .middle (by simp [rangeNormal, rangeRdos, terminal]), fun _ => rfl, by simp⟩
  | true =>
    have reached := inside.terminal terminal
    have unseen : ∀ other ∈ seen, other.2.2 = false := by
      intro other old
      by_contra otherTerminal
      have same := splitting.chunks.terminal_unique (gathered.member other old) member (by simpa using otherTerminal)
        terminal
      exact new (same ▸ old)
    obtain ⟨noEnd, noLength⟩ := gathered.unknown unseen
    have announced : (rangeNormal rdos range).udpLength = some rdos := by simp [rangeNormal, rangeRdos, terminal]
    have stop : (rangeNormal rdos range).stop = tail.length := reached
    have below := gathered.below splitting
    refine ⟨_, .first announced splitting.header (stop ▸ splitting.reach) noEnd noLength (stop ▸ below), by simp, ?_⟩
    intro _
    refine ⟨congrArg some stop, rfl, ?_⟩
    intro nothing
    simp [nothing, plainProcessing]

theorem Gathered.accepted (gathered : Gathered limits tail rdos ranges ocs since seen held)
    (splitting : Splitting limits tail rdos ranges) (member : range ∈ ranges) (new : range ∉ seen) {noted : Partial}
    (step : Noted held (rangeNormal rdos range) (rangeData tail range) (plainProcessing ocs) noted) :
    Accepted held (rangeNormal rdos range) (rangeData tail range) (plainProcessing ocs) limits
      (noted.record (rangeNormal rdos range) (rangeData tail range) (plainProcessing ocs) (held.fragmentCount + 1)
        (held.byteTotal + (rangeData tail range).length)) := by
  have room := gathered.room splitting member new
  have counted := gathered.count_lt member new
  have count := splitting.count
  have countWord := splitting.countWord
  have word := splitting.word
  have size := splitting.size
  refine ⟨by omega, by omega, by omega, by omega, ?_, ?_, noted, step, rfl⟩
  · apply Bool.eq_false_iff.mpr
    intro overlapping
    simp only [Partial.overlaps, Bool.and_eq_true, decide_eq_true_eq, List.any_eq_true] at overlapping
    obtain ⟨_, segment, stored, meets⟩ := overlapping
    exact gathered.apart splitting member new segment stored meets
  · intro terminalEnd known
    by_cases unseen : ∀ other ∈ seen, other.2.2 = false
    · rw [(gathered.unknown unseen).1] at known
      cases known
    · push Not at unseen
      obtain ⟨other, old, terminal⟩ := unseen
      rw [(gathered.terminal other old (by simpa using terminal)).1] at known
      cases known
      exact (splitting.inTail member).below

private theorem mem_record_range {noted : Partial} {count total : Nat} (inside : InTail tail.length 0 range)
    (stored : ∀ segment, segment ∈ noted.segments ↔
      ∃ other ∈ seen, other.1 < other.2.1 ∧ segment = rangeSegment tail other) (segment : Segment) :
    segment ∈ (noted.record (rangeNormal rdos range) (rangeData tail range) (plainProcessing ocs) count total).segments ↔
      ∃ other ∈ range :: seen, other.1 < other.2.1 ∧ segment = rangeSegment tail other := by
  simp only [Partial.record]
  by_cases nothing : rangeData tail range = []
  · have narrow := (rangeData_eq_nil inside).mp nothing
    simp only [nothing, List.isEmpty_nil, if_true, stored, List.mem_cons, exists_eq_or_imp, narrow, false_and, false_or]
  · have wide : range.1 < range.2.1 := by
      by_contra narrow
      exact nothing ((rangeData_eq_nil inside).mpr narrow)
    have permuted := insertSegment_perm noted.segments (rangeSegment tail range)
    rw [if_neg (by simpa using nothing)]
    refine (permuted.mem_iff.trans List.mem_cons).trans ?_
    simp only [stored, List.mem_cons, exists_eq_or_imp, wide, true_and]

theorem Gathered.accept (gathered : Gathered limits tail rdos ranges ocs since seen held)
    (splitting : Splitting limits tail rdos ranges) (member : range ∈ ranges) (new : range ∉ seen) :
    ∃ updated, Accepted held (rangeNormal rdos range) (rangeData tail range) (plainProcessing ocs) limits updated ∧
      Gathered limits tail rdos ranges ocs since (range :: seen) updated := by
  obtain ⟨noted, step, middle, ending⟩ := gathered.noted splitting member new
  obtain ⟨segments, fragmentCount, _, options, failures, observed, received⟩ := step.fields
  have accepted := gathered.accepted splitting member new step
  refine ⟨_, accepted, ?_⟩
  refine ⟨accepted.consistent gathered.consistent (splitting.ranged member), ?_, ?_, ?_, ?_, ?_, ?_, ?_, ?_, ?_, ?_⟩
  · exact List.nodup_cons.mpr ⟨new, gathered.nodup⟩
  · intro other old
    rcases List.mem_cons.mp old with rfl | old
    · exact member
    · exact gathered.member other old
  · apply mem_record_range (splitting.inTail member)
    rw [segments]
    exact gathered.segments
  · simp only [Partial.record, gathered.count, List.length_cons]
  · intro other old terminal
    rcases List.mem_cons.mp old with rfl | old
    · exact ending terminal
    · have plain : range.2.2 = false := by
        by_contra rangeTerminal
        have same := splitting.chunks.terminal_unique (gathered.member other old) member terminal
          (by simpa using rangeTerminal)
        exact new (same ▸ old)
      obtain rfl := middle plain
      exact gathered.terminal other old terminal
  · intro plain
    obtain rfl := middle (plain range (by simp))
    exact gathered.unknown fun other old => plain other (List.mem_cons_of_mem _ old)
  · simp only [Partial.record, plainProcessing, FragmentOptions.observe, List.foldl_nil, options, gathered.options]
  · simp only [Partial.record, plainProcessing, observeFailures, List.foldl_nil, failures, gathered.failures]
  · simp only [Partial.record, Partial.observeFragmentOcs, plainProcessing, observed, gathered.observed]
    cases ocs <;> by_cases none : seen = [] <;> simp [none]
  · exact received.trans gathered.since

/-- The partial is complete exactly when every range has arrived. -/
theorem Gathered.filled_iff (gathered : Gathered limits tail rdos ranges ocs since seen held)
    (splitting : Splitting limits tail rdos ranges) : Filled held ↔ ∀ other ∈ ranges, other ∈ seen := by
  constructor
  · intro filled other member
    obtain ⟨terminalEnd, ending, _⟩ := id filled
    have seenTerminal : ∃ last ∈ seen, last.2.2 = true := by
      by_contra unseen
      push Not at unseen
      rw [(gathered.unknown fun last old => by simpa using unseen last old).1] at ending
      cases ending
    obtain ⟨last, old, terminal⟩ := seenTerminal
    rw [(gathered.terminal last old terminal).1] at ending
    cases ending
    cases otherTerminal : other.2.2 with
    | true =>
      have same := splitting.chunks.terminal_unique (gathered.member last old) member terminal otherTerminal
      exact same ▸ old
    | false =>
      have inside := splitting.inTail member
      have wide := inside.wide otherTerminal
      have below := inside.below
      have covers := (gathered.consistent.filled_iff (gathered.terminal last old terminal).1).mp filled
      obtain ⟨segment, stored, lower, upper⟩ := covers other.1 (Nat.zero_le _) (by omega)
      obtain ⟨found, oldFound, foundWide, rfl⟩ := (gathered.segments segment).mp stored
      simp only [rangeSegment] at lower upper
      rcases splitting.chunks.compare (gathered.member found oldFound) member with same | before | after
      · exact same ▸ oldFound
      · have := before.2.2
        omega
      · have := after.2.1
        have := after.2.2
        omega
  · intro all
    obtain ⟨last, member, terminal⟩ := splitting.chunks.exists_terminal
    apply (gathered.consistent.filled_iff (gathered.terminal last (all last member) terminal).1).mpr
    intro position lower upper
    obtain ⟨found, foundMember, reached, inside⟩ := splitting.chunks.tiles.covers position lower upper
    have stored := (gathered.segments (rangeSegment tail found)).mpr
      ⟨found, all found foundMember, Nat.lt_of_le_of_lt reached inside, rfl⟩
    exact ⟨_, stored, reached, inside⟩

theorem Gathered.reassembled (gathered : Gathered limits tail rdos ranges ocs since seen held)
    (splitting : Splitting limits tail rdos ranges) (filled : Filled held) :
    held.udpLength = some rdos ∧ reassembledOf held rdos = ⟨tail, rdos, [], [], ocs⟩ := by
  have all := (gathered.filled_iff splitting).mp filled
  obtain ⟨last, member, terminal⟩ := splitting.chunks.exists_terminal
  obtain ⟨ending, length, _⟩ := gathered.terminal last (all last member) terminal
  obtain ⟨terminalEnd, same, tiles⟩ := filled
  cases ending.symm.trans same
  have nonempty : seen ≠ [] := List.ne_nil_of_mem (all last member)
  have spelled : held.segments.flatMap Segment.data = (tail.take tail.length).drop 0 := by
    apply tiles.flatMap_eq Segment.data tail gathered.consistent.ordered
    intro segment stored
    obtain ⟨found, _, _, rfl⟩ := (gathered.segments segment).mp stored
    rfl
  refine ⟨length, ?_⟩
  simp only [reassembledOf, spelled, List.take_length, List.drop_zero, gathered.options, gathered.failures,
    gathered.observed, if_neg nonempty]
  rfl

theorem Gathered.feed_incomplete (gathered : Gathered limits tail rdos ranges ocs since seen held)
    (splitting : Splitting limits tail rdos ranges) (member : range ∈ ranges)
    (missing : ∃ other ∈ ranges, other ∉ seen.insert range) :
    ∃ updated, feedHeld limits held (rangeNormal rdos range) (rangeData tail range) (plainProcessing ocs) =
        (.incomplete, some updated) ∧
      Gathered limits tail rdos ranges ocs since (seen.insert range) updated := by
  by_cases again : range ∈ seen
  · have duplicate := gathered.duplicate splitting again
    have nonempty : seen ≠ [] := List.ne_nil_of_mem again
    refine ⟨held.observeFragmentOcs ocs, ?_, ?_⟩
    · simp only [feedHeld, Partial.insert, plainProcessing, duplicate, if_true]
    · rw [List.insert_of_mem again]
      refine { gathered with consistent := { gathered.consistent with }, observed := ?_ }
      simp only [Partial.observeFragmentOcs, gathered.observed, if_neg nonempty]
      cases ocs <;> simp
  · have fresh := gathered.fresh splitting member again
    obtain ⟨updated, accepted, kept⟩ := gathered.accept splitting member again
    rw [List.insert_of_not_mem again] at missing ⊢
    refine ⟨updated, ?_, kept⟩
    have gap : ¬ Filled updated := by
      intro filled
      obtain ⟨other, otherMember, unseen⟩ := missing
      exact unseen ((kept.filled_iff splitting).mp filled other otherMember)
    have pending := complete_of_not_filled kept.consistent.ordered gap
    simp only [plainProcessing] at accepted
    simp only [feedHeld, Partial.insert, plainProcessing, fresh, Bool.false_eq_true, if_false,
      accept_iff.mpr accepted, pending]

theorem Gathered.feed_complete (gathered : Gathered limits tail rdos ranges ocs since seen held)
    (splitting : Splitting limits tail rdos ranges) (member : range ∈ ranges) (new : range ∉ seen)
    (all : ∀ other ∈ ranges, other ∈ range :: seen) :
    feedHeld limits held (rangeNormal rdos range) (rangeData tail range) (plainProcessing ocs) =
      (.complete ⟨tail, rdos, [], [], ocs⟩, none) := by
  have fresh := gathered.fresh splitting member new
  obtain ⟨updated, accepted, kept⟩ := gathered.accept splitting member new
  have filled := (kept.filled_iff splitting).mpr all
  obtain ⟨known, handed⟩ := kept.reassembled splitting filled
  have done := complete_of_filled filled known
  rw [handed] at done
  simp only [plainProcessing] at accepted
  simp only [feedHeld, Partial.insert, plainProcessing, fresh, Bool.false_eq_true, if_false,
    accept_iff.mpr accepted, done]

def arriveRange (key : FragKey) (identification : UInt32) (tail : List UInt8) (rdos : UInt16) (ocs : Option Bool)
    (arrival : ChunkRange × Nat) (cache : ReassemblyCache) : Checked (ReassemblyOutcome × ReassemblyCache) :=
  cache.insertWithOptionsAndFailures key (rangeFrag false rdos identification arrival.1)
    (rangeData tail arrival.1) (plainProcessing ocs) arrival.2

/-- The cache holds the partial of a split for the key. -/
structure Awaiting (limits : ReassemblyLimits) (tail : List UInt8) (rdos : UInt16) (ranges : List ChunkRange)
    (ocs : Option Bool) (since : Nat) (key : FragKey) (seen : List ChunkRange) (cache : ReassemblyCache) : Prop where
  same : cache.limits = limits
  held : ∃ held, cache.partials.lookup key = some held ∧ Gathered limits tail rdos ranges ocs since seen held

variable {key : FragKey} {identification : UInt32} {cache : ReassemblyCache} {now : Nat}

private theorem arriveRange_held (splitting : Splitting cache.limits tail rdos ranges) (member : range ∈ ranges)
    (found : (cache.gc now).partials.lookup key = some held) :
    arriveRange key identification tail rdos ocs (range, now) cache =
      .ok ((feedHeld cache.limits held (rangeNormal rdos range) (rangeData tail range) (plainProcessing ocs)).1,
        putCell (cache.gc now) key
          (feedHeld cache.limits held (rangeNormal rdos range) (rangeData tail range) (plainProcessing ocs)).2) := by
  rw [arriveRange, insertWithOptionsAndFailures_eq, found]
  simp only [feedCell, splitting.screened member]

private theorem arriveRange_new (splitting : Splitting cache.limits tail rdos ranges) (member : range ∈ ranges)
    (absent : (cache.gc now).partials.lookup key = none) (free : atCap (cache.gc now) = false) :
    arriveRange key identification tail rdos ocs (range, now) cache =
      .ok ((feedHeld cache.limits (Partial.new now) (rangeNormal rdos range) (rangeData tail range)
          (plainProcessing ocs)).1,
        putCell (cache.gc now) key (feedHeld cache.limits (Partial.new now) (rangeNormal rdos range)
          (rangeData tail range) (plainProcessing ocs)).2) := by
  rw [arriveRange, insertWithOptionsAndFailures_eq, absent, free]
  simp only [feedCell, splitting.screened member, Bool.false_eq_true, if_false]

theorem Awaiting.live (awaiting : Awaiting limits tail rdos ranges ocs since key seen cache)
    (timely : now - since < min limits.timeout Limits.reassemblyTimeoutMax) :
    ∃ held, (cache.gc now).partials.lookup key = some held ∧
      Gathered limits tail rdos ranges ocs since seen held := by
  obtain ⟨held, found, gathered⟩ := awaiting.held
  refine ⟨held, ?_, gathered⟩
  rw [lookup_gc, found, awaiting.same]
  have young : held.isExpired now limits.timeout = false := by
    apply decide_eq_false
    rw [gathered.since]
    exact Nat.not_le.mpr timely
  simp [Option.filter, young]

theorem Awaiting.more (awaiting : Awaiting limits tail rdos ranges ocs since key seen cache)
    (splitting : Splitting limits tail rdos ranges) (member : range ∈ ranges)
    (timely : now - since < min limits.timeout Limits.reassemblyTimeoutMax)
    (missing : ∃ other ∈ ranges, other ∉ seen.insert range) (identification : UInt32) :
    ∃ after, arriveRange key identification tail rdos ocs (range, now) cache = .ok (.incomplete, after) ∧
      Awaiting limits tail rdos ranges ocs since key (seen.insert range) after := by
  obtain ⟨held, found, gathered⟩ := awaiting.live timely
  obtain rfl := awaiting.same
  obtain ⟨updated, fed, kept⟩ := gathered.feed_incomplete splitting member missing
  refine ⟨putCell (cache.gc now) key (some updated), ?_, rfl, updated, lookup_putCell _ _ _, kept⟩
  rw [arriveRange_held splitting member found, fed]

theorem Awaiting.last (awaiting : Awaiting limits tail rdos ranges ocs since key seen cache)
    (splitting : Splitting limits tail rdos ranges) (member : range ∈ ranges)
    (timely : now - since < min limits.timeout Limits.reassemblyTimeoutMax) (new : range ∉ seen)
    (all : ∀ other ∈ ranges, other ∈ range :: seen) (identification : UInt32) :
    ∃ after, arriveRange key identification tail rdos ocs (range, now) cache = .ok (.complete ⟨tail, rdos, [], [], ocs⟩, after) ∧
      after.partials.lookup key = none := by
  obtain ⟨held, found, gathered⟩ := awaiting.live timely
  obtain rfl := awaiting.same
  have fed := gathered.feed_complete splitting member new all
  refine ⟨putCell (cache.gc now) key none, ?_, lookup_putCell _ _ _⟩
  rw [arriveRange_held splitting member found, fed]

theorem awaiting_first (ocs : Option Bool) (now : Nat) (splitting : Splitting cache.limits tail rdos ranges)
    (member : range ∈ ranges)
    (absent : cache.partials.lookup key = none) (free : cache.len < cache.limits.maxPendingPartials)
    (missing : ∃ other ∈ ranges, other ≠ range) (identification : UInt32) :
    ∃ after, arriveRange key identification tail rdos ocs (range, now) cache = .ok (.incomplete, after) ∧
      Awaiting cache.limits tail rdos ranges ocs now key [range] after := by
  have gone : (cache.gc now).partials.lookup key = none := by
    rw [lookup_gc, absent]
    rfl
  have room : atCap (cache.gc now) = false := by
    have shrunk : (cache.gc now).len ≤ cache.len := FiniteMap.size_retain_le _ _
    apply decide_eq_false
    rw [gc_limits]
    omega
  obtain ⟨other, otherMember, different⟩ := missing
  have start : Gathered cache.limits tail rdos ranges ocs now [] (Partial.new now) := .new now
  obtain ⟨updated, fed, kept⟩ := start.feed_incomplete splitting member ⟨other, otherMember, by simpa using different⟩
  refine ⟨putCell (cache.gc now) key (some updated), ?_, rfl, updated, lookup_putCell _ _ _, kept⟩
  rw [arriveRange_new splitting member gone room, fed]

/-- Any order and any repetition: incomplete until the last range, then complete. -/
theorem Awaiting.run {before : List (ChunkRange × Nat)} {last : ChunkRange × Nat}
    (awaiting : Awaiting limits tail rdos ranges ocs since key seen cache)
    (splitting : Splitting limits tail rdos ranges) (members : ∀ arrival ∈ before ++ [last], arrival.1 ∈ ranges)
    (timely : ∀ arrival ∈ before ++ [last], arrival.2 - since < min limits.timeout Limits.reassemblyTimeoutMax)
    (all : ∀ other ∈ ranges, other ∈ seen ∨ ∃ arrival ∈ before ++ [last], arrival.1 = other)
    (missing : ∃ other ∈ ranges, other ∉ seen ∧ ∀ arrival ∈ before, arrival.1 ≠ other) (identification : UInt32) :
    ∃ after, run (arriveRange key identification tail rdos ocs) (before ++ [last]) cache =
        .ok (before.map (fun _ => .incomplete) ++ [.complete ⟨tail, rdos, [], [], ocs⟩], after) ∧
      after.partials.lookup key = none := by
  induction before generalizing seen cache with
  | nil =>
    obtain ⟨other, otherMember, unseen, _⟩ := missing
    have isLast : last.1 = other := by
      rcases all other otherMember with old | ⟨arrival, only, same⟩
      · exact absurd old unseen
      · simp only [List.nil_append, List.mem_singleton] at only
        exact only ▸ same
    have rest : ∀ another ∈ ranges, another ∈ last.1 :: seen := by
      intro another anotherMember
      rcases all another anotherMember with old | ⟨arrival, only, same⟩
      · exact List.mem_cons_of_mem _ old
      · simp only [List.nil_append, List.mem_singleton] at only
        exact List.mem_cons.mpr (.inl (same.symm.trans (by rw [only])))
    obtain ⟨after, arrived, gone⟩ := awaiting.last splitting (members last (by simp)) (timely last (by simp))
      (isLast ▸ unseen) rest identification
    refine ⟨after, ?_, gone⟩
    simp [Library.run, arrived]
  | cons arrival before ih =>
    obtain ⟨other, otherMember, unseen, later⟩ := missing
    have different : other ≠ arrival.1 := fun same => later arrival (by simp) same.symm
    have unseenAfter : other ∉ seen.insert arrival.1 := by
      rw [List.mem_insert_iff]
      rintro (same | old)
      · exact different same
      · exact unseen old
    obtain ⟨after, arrived, kept⟩ := awaiting.more splitting (members arrival (by simp)) (timely arrival (by simp))
      ⟨other, otherMember, unseenAfter⟩ identification
    obtain ⟨final, executed, gone⟩ := ih kept (fun next listed => members next (List.mem_cons_of_mem _ listed))
      (fun next listed => timely next (List.mem_cons_of_mem _ listed))
      (fun another anotherMember => by
        rcases all another anotherMember with old | ⟨next, listed, same⟩
        · exact .inl (List.mem_insert_of_mem old)
        · rcases List.mem_cons.mp listed with rfl | listed
          · exact .inl (same ▸ List.mem_insert_self)
          · exact .inr ⟨next, listed, same⟩)
      ⟨other, otherMember, unseenAfter, fun next listed => later next (List.mem_cons_of_mem _ listed)⟩
    exact ⟨final, run_cons_eq_ok.mpr ⟨_, after, _, arrived, executed, rfl⟩, gone⟩

/-- Every arrival after the first comes before the partial expires. -/
def Timely (limits : ReassemblyLimits) (instants : List Nat) : Prop :=
  ∀ first ∈ instants.head?, ∀ later ∈ instants.tail, later - first < min limits.timeout Limits.reassemblyTimeoutMax

/-- The same from a cache that holds nothing for the key. -/
theorem gather_run {before : List (ChunkRange × Nat)} {last : ChunkRange × Nat} (ocs : Option Bool)
    (identification : UInt32) (splitting : Splitting cache.limits tail rdos ranges) (several : 2 ≤ ranges.length)
    (members : ∀ arrival ∈ before ++ [last], arrival.1 ∈ ranges)
    (timely : Timely cache.limits ((before ++ [last]).map Prod.snd))
    (all : ∀ other ∈ ranges, ∃ arrival ∈ before ++ [last], arrival.1 = other)
    (missing : ∃ other ∈ ranges, ∀ arrival ∈ before, arrival.1 ≠ other)
    (absent : cache.partials.lookup key = none) (free : cache.len < cache.limits.maxPendingPartials) :
    ∃ after, run (arriveRange key identification tail rdos ocs) (before ++ [last]) cache =
        .ok (before.map (fun _ => .incomplete) ++ [.complete ⟨tail, rdos, [], [], ocs⟩], after) ∧
      after.partials.lookup key = none := by
  cases before with
  | nil =>
    have single : ranges ⊆ [last.1] := by
      intro other member
      obtain ⟨arrival, only, rfl⟩ := all other member
      simp only [List.nil_append, List.mem_singleton] at only
      rw [only]
      exact List.mem_singleton_self _
    have bounded := (List.subperm_of_subset splitting.chunks.nodup single).length_le
    simp only [List.length_singleton] at bounded
    omega
  | cons first before =>
    obtain ⟨other, otherMember, later⟩ := missing
    have different : other ≠ first.1 := fun same => later first (by simp) same.symm
    obtain ⟨after, arrived, awaiting⟩ := awaiting_first ocs first.2 splitting (members first (by simp))
      absent free ⟨other, otherMember, different⟩ identification
    obtain ⟨final, executed, gone⟩ := awaiting.run splitting
      (fun next listed => members next (List.mem_cons_of_mem _ listed))
      (fun next listed => timely first.2 rfl next.2 (List.mem_map_of_mem listed))
      (fun another member => by
        obtain ⟨arrival, listed, same⟩ := all another member
        rcases List.mem_cons.mp listed with rfl | listed
        · exact .inl (same ▸ List.mem_singleton_self _)
        · exact .inr ⟨arrival, listed, same⟩)
      ⟨other, otherMember, by simpa using different, fun next listed => later next (List.mem_cons_of_mem _ listed)⟩
      identification
    exact ⟨final, run_cons_eq_ok.mpr ⟨_, after, _, arrived, executed, rfl⟩, gone⟩

/-- The receiver's step for one fragment: decode its FRAG option and insert the
bytes from Frag.Start on. -/
def insertFragment (key : FragKey) (arrival : Fragment × Nat) (cache : ReassemblyCache) :
    Checked (Option ReassemblyOutcome × ReassemblyCache) := do
  match ← parsedFrag arrival.1.surplusBody with
  | some (frag, data) =>
    let (outcome, cache) ← cache.insert key frag data arrival.2
    return (some outcome, cache)
  | none => return (none, cache)

private theorem insertFragment_range {outcome : ReassemblyOutcome} {after : ReassemblyCache}
    (arrived : arriveRange key identification tail rdos none (range, now) cache = .ok (outcome, after)) :
    insertFragment key (rangeFragment tail false rdos identification range, now) cache = .ok (some outcome, after) := by
  simp only [arriveRange, plainProcessing] at arrived
  simp only [insertFragment, parsedFrag_rangeFragment, Checked.ok_bind, ReassemblyCache.insert,
    ReassemblyCache.insertWithOptions, arrived, Checked.pure_eq]

theorem Splitting.of_plan {payload optionsBody : List UInt8} {config : SplitConfig}
    (plan : SplitPlan payload optionsBody config rdos ranges)
    (size : config.peer.maxReassembledSize.toNat ≤ limits.maxReassembledSize)
    (segments : config.peer.maxSegments.toNat ≤ limits.maxSegments) :
    Splitting limits (Split.reassembledTail payload optionsBody) rdos ranges := by
  have announced := plan.announced
  have fits := plan.fits
  have count := plan.count
  have sizeWord := config.peer.maxReassembledSize.toNat_lt
  have countWord := config.peer.maxSegments.toNat_lt
  have longer : payload.length ≤ (Split.reassembledTail payload optionsBody).length := by
    simp only [Split.reassembledTail, List.length_append]
    omega
  exact ⟨plan.chunks, by omega, by omega, by omega, by omega, by omega, by omega⟩

theorem Splitting.injective (splitting : Splitting limits tail rdos ranges) {first second : ChunkRange}
    (memberFirst : first ∈ ranges) (memberSecond : second ∈ ranges)
    (same : rangeFragment tail false rdos identification first = rangeFragment tail false rdos identification second) :
    first = second := by
  have word := splitting.word
  have insideFirst := splitting.inTail memberFirst
  have insideSecond := splitting.inTail memberSecond
  have ordered := insideFirst.ordered
  have orderedSecond := insideSecond.ordered
  have below := insideFirst.below
  have belowSecond := insideSecond.below
  have offsets : (UInt16.ofNat (8 + first.1)).toNat = (UInt16.ofNat (8 + second.1)).toNat :=
    congrArg (fun fragment : Fragment => fragment.fragOffset.toNat) same
  rw [UInt16.toNat_ofNat_of_lt' (show 8 + first.1 < 65536 by omega),
    UInt16.toNat_ofNat_of_lt' (show 8 + second.1 < 65536 by omega)] at offsets
  rcases splitting.chunks.compare memberFirst memberSecond with equal | before | after
  · exact equal
  · have := before.2.1
    have := before.2.2
    omega
  · have := after.2.1
    have := after.2.2
    omega

private theorem ranges_of_fragments {fragmentOf : ChunkRange → Fragment} {arrivals : List (Fragment × Nat)}
    (members : ∀ arrival ∈ arrivals, arrival.1 ∈ ranges.map fragmentOf) :
    ∃ origins : List (ChunkRange × Nat), arrivals = origins.map (fun origin => (fragmentOf origin.1, origin.2)) ∧
      ∀ origin ∈ origins, origin.1 ∈ ranges := by
  induction arrivals with
  | nil => exact ⟨[], rfl, by simp⟩
  | cons arrival rest ih =>
    obtain ⟨origins, rfl, inside⟩ := ih fun next listed => members next (List.mem_cons_of_mem _ listed)
    obtain ⟨origin, member, same⟩ := List.mem_map.mp (members arrival (by simp))
    refine ⟨(origin, arrival.2) :: origins, by simp [same], ?_⟩
    intro next listed
    rcases List.mem_cons.mp listed with rfl | listed
    · exact member
    · exact inside next listed

/-- Fragments of one split may arrive in any order and any number of times: every
arrival but the one that completes the set is incomplete, and that one returns
the whole tail and the original UDP length. -/
theorem reordering_tolerance (payload optionsBody : List UInt8) (config : SplitConfig) (fragments : List Fragment)
    (emitted : Split.splitDatagram payload optionsBody config = .ok (.ok fragments)) (several : 2 ≤ fragments.length)
    (before : List (Fragment × Nat)) (last : Fragment × Nat)
    (members : ∀ arrival ∈ before ++ [last], arrival.1 ∈ fragments)
    (all : ∀ fragment ∈ fragments, ∃ arrival ∈ before ++ [last], arrival.1 = fragment)
    (missing : ∃ fragment ∈ fragments, ∀ arrival ∈ before, arrival.1 ≠ fragment)
    (key : FragKey) (cache : ReassemblyCache)
    (size : config.peer.maxReassembledSize.toNat ≤ cache.limits.maxReassembledSize)
    (segments : config.peer.maxSegments.toNat ≤ cache.limits.maxSegments)
    (absent : cache.partials.lookup key = none) (free : cache.len < cache.limits.maxPendingPartials)
    (timely : Timely cache.limits ((before ++ [last]).map Prod.snd)) :
    ∃ reassembled after,
      run (insertFragment key) (before ++ [last]) cache =
        .ok (before.map (fun _ => some .incomplete) ++ [some (.complete reassembled)], after) ∧
      reassembled.tail =
        payload ++ (if optionsBody ≠ [] ∧ (8 + payload.length) % 2 = 1 then [0] else []) ++ optionsBody ∧
      reassembled.udpLength.toNat = 8 + payload.length := by
  obtain ⟨rdos, ranges, plan, rfl⟩ := splitDatagram_plan emitted
  have splitting := Splitting.of_plan plan size segments
  rw [List.length_map] at several
  have whole : decide (ranges.length = 1) = false := decide_eq_false (by omega)
  rw [whole] at members all missing
  generalize rest : Split.reassembledTail payload optionsBody = tail at *
  obtain ⟨early, rfl, earlyMembers⟩ :=
    ranges_of_fragments fun arrival listed => members arrival (List.mem_append_left _ listed)
  obtain ⟨final, instant⟩ := last
  obtain ⟨origin, member, rfl⟩ := List.mem_map.mp (members (final, instant) (by simp))
  have joined : (early ++ [(origin, instant)]).map (fun arrival =>
      (rangeFragment tail false rdos config.identification arrival.1, arrival.2)) =
      early.map (fun arrival => (rangeFragment tail false rdos config.identification arrival.1, arrival.2)) ++
        [(rangeFragment tail false rdos config.identification origin, instant)] := by simp
  have origins : ∀ arrival ∈ early ++ [(origin, instant)], arrival.1 ∈ ranges := by
    intro arrival listed
    rcases List.mem_append.mp listed with listed | listed
    · exact earlyMembers arrival listed
    · obtain rfl := List.mem_singleton.mp listed
      exact member
  rw [← joined] at members all timely ⊢
  obtain ⟨after, executed, _⟩ := gather_run none config.identification splitting several origins
    (by simpa [Function.comp_def] using timely)
    (fun other otherMember => by
      obtain ⟨arrival, listed, equal⟩ := all _ (List.mem_map_of_mem otherMember)
      obtain ⟨found, foundListed, rfl⟩ := List.mem_map.mp listed
      exact ⟨found, foundListed, splitting.injective (origins found foundListed) otherMember equal⟩)
    (by
      obtain ⟨fragment, listed, unseen⟩ := missing
      obtain ⟨other, otherMember, rfl⟩ := List.mem_map.mp listed
      refine ⟨other, otherMember, fun arrival arrived equal => ?_⟩
      exact unseen _ (List.mem_map_of_mem arrived) (by rw [equal]))
    absent free
  have inserted := run_map (insertFragment key)
    (fun arrival : ChunkRange × Nat => (rangeFragment tail false rdos config.identification arrival.1, arrival.2)) some
    (fun _ => True) (fun arrival _ state outcome next _ arrived => insertFragment_range arrived) executed
    (fun _ _ => trivial)
  refine ⟨⟨tail, rdos, [], [], none⟩, after, ?_, ?_, plan.announced⟩
  · rw [inserted]
    simp [Function.comp_def]
  · rw [← rest]
    exact reassembledTail_eq payload optionsBody

def smallSplit : SplitConfig := ⟨16, .defaultIpv4, 7⟩

def smallFragments : List Fragment :=
  [rangeFragment [1, 2, 3, 4] false 12 7 (0, 2, false), rangeFragment [1, 2, 3, 4] false 12 7 (2, 4, true)]

def smallArrivals : List (Fragment × Nat) :=
  [(rangeFragment [1, 2, 3, 4] false 12 7 (2, 4, true), 0), (rangeFragment [1, 2, 3, 4] false 12 7 (2, 4, true), 1)]

theorem reordering_tolerance_small :
    ∃ reassembled after,
      run (insertFragment ⟨⟨192, 0, 2, 1⟩, ⟨192, 0, 2, 2⟩, 1000, 2000, 7⟩)
        (smallArrivals ++ [(rangeFragment [1, 2, 3, 4] false 12 7 (0, 2, false), 2)]) (.withLimits .default) =
        .ok (smallArrivals.map (fun _ => some .incomplete) ++ [some (.complete reassembled)], after) ∧
      reassembled.tail = [1, 2, 3, 4] ++ (if ([] : List UInt8) ≠ [] ∧ (8 + 4) % 2 = 1 then [0] else []) ++ [] ∧
      reassembled.udpLength.toNat = 8 + 4 :=
  reordering_tolerance [1, 2, 3, 4] [] smallSplit smallFragments rfl (by decide) smallArrivals
    (rangeFragment [1, 2, 3, 4] false 12 7 (0, 2, false), 2) (by decide) (by decide) (by decide)
    ⟨⟨192, 0, 2, 1⟩, ⟨192, 0, 2, 2⟩, 1000, 2000, 7⟩ (.withLimits .default) (by decide) (by decide) rfl (by decide)
    (by unfold Timely; decide)

end UdpOptions.Proofs
