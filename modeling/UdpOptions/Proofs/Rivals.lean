import UdpOptions.Proofs.Duplicates

/-! Two fragments on offer to one partial. Nearly every check of the partial treats
the stored fragment and the arriving one alike. The exceptions are the copy of a
terminal fragment without its RDOS, which is a duplicate only when it comes second,
and an empty fragment behind the end or with an end that is known already, which is
refused only when it comes second. -/

namespace UdpOptions.Proofs
open Library Library.Intervals Model

/-- A fragment on offer to a partial. -/
structure Offer where
  range : NormalizedFragment
  data : List UInt8
  processing : FragmentProcessing

namespace Offer

def segment (offer : Offer) : Segment := segmentOf offer.range offer.data offer.processing

def Known (held : Partial) (offer : Offer) : Prop := Recognized held offer.range offer.data offer.processing

def Taken (limits : ReassemblyLimits) (held : Partial) (offer : Offer) (updated : Partial) : Prop :=
  Accepted held offer.range offer.data offer.processing limits updated

/-- The end the fragment announces, if any, agrees with what is known. -/
def Ends (held : Partial) (offer : Offer) : Prop :=
  (∀ terminalEnd, held.terminalEnd = some terminalEnd → offer.range.stop ≤ terminalEnd) ∧
    ∃ noted, Noted held offer.range offer.data offer.processing noted

def Fits (limits : ReassemblyLimits) (held : Partial) (offer : Offer) : Prop :=
  ∃ updated, offer.Taken limits held updated

def Refused (limits : ReassemblyLimits) (held : Partial) (offer : Offer) : Prop :=
  ¬ offer.Known held ∧ ¬ offer.Fits limits held

/-- Both have data, and their ranges have a position in common. -/
def Meets (first second : Offer) : Prop :=
  first.data ≠ [] ∧ second.data ≠ [] ∧ first.range.start < second.range.stop ∧ second.range.start < first.range.stop

def Same (first second : Offer) : Prop := first.data ≠ [] ∧ first.segment = second.segment

/-- The limits leave room for two more fragments of the given lengths. -/
def Room (limits : ReassemblyLimits) (held : Partial) (first second : Offer) : Prop :=
  (held.fragmentCount + 2 < 2 ^ 64 ∧ held.fragmentCount + 2 ≤ limits.maxSegments) ∧
    held.byteTotal + first.data.length + second.data.length + 8 < 2 ^ 64 ∧
    held.byteTotal + first.data.length + second.data.length + 8 ≤ limits.maxReassembledSize

end Offer

section
variable {limits : ReassemblyLimits} {held updated : Partial} {first second : Offer}

theorem Offer.Same.data (same : first.Same second) : first.data = second.data := congrArg Segment.data same.2

theorem Offer.Same.symm (same : first.Same second) : second.Same first :=
  ⟨same.data ▸ same.1, same.2.symm⟩

theorem Offer.same_comm : first.Same second ↔ second.Same first := ⟨Offer.Same.symm, Offer.Same.symm⟩

theorem Offer.Meets.symm (meets : first.Meets second) : second.Meets first :=
  ⟨meets.2.1, meets.1, meets.2.2.2, meets.2.2.1⟩

theorem Offer.meets_comm : first.Meets second ↔ second.Meets first := ⟨Offer.Meets.symm, Offer.Meets.symm⟩

theorem Offer.room_comm : first.Room limits held second ↔ second.Room limits held first := by
  unfold Offer.Room
  omega

private theorem overlaps_iff {start stop : Nat} : held.overlaps start stop = true ↔
    start < stop ∧ ∃ segment ∈ held.segments, start < segment.stop ∧ segment.start < stop := by
  simp [Partial.overlaps]

private theorem fits_iff : first.Fits limits held ↔
    (held.fragmentCount + 1 < 2 ^ 64 ∧ held.fragmentCount + 1 ≤ limits.maxSegments) ∧
    (held.byteTotal + first.data.length + 8 < 2 ^ 64 ∧
      held.byteTotal + first.data.length + 8 ≤ limits.maxReassembledSize) ∧
    held.overlaps first.range.start first.range.stop = false ∧ first.Ends held := by
  constructor
  · rintro ⟨updated, taken⟩
    obtain ⟨noted, step, _⟩ := taken.noted
    exact ⟨⟨taken.countWord, taken.count⟩, ⟨taken.totalWord, taken.total⟩, taken.apart, taken.within, noted, step⟩
  · rintro ⟨⟨countWord, count⟩, ⟨totalWord, total⟩, apart, within, noted, step⟩
    exact ⟨_, ⟨countWord, count, totalWord, total, apart, within, noted, step, rfl⟩⟩

theorem Offer.Taken.stored (taken : first.Taken limits held updated) :
    updated.fragmentCount = held.fragmentCount + 1 ∧ updated.byteTotal = held.byteTotal + first.data.length ∧
      ∀ segment, segment ∈ updated.segments ↔ (first.data ≠ [] ∧ segment = first.segment) ∨ segment ∈ held.segments := by
  obtain ⟨noted, step, rfl⟩ := taken.noted
  refine ⟨rfl, rfl, fun segment => ?_⟩
  rw [mem_record, step.fields.1]
  rfl

private theorem fits_second (ranged : Ranged limits second.range second.data) (taken : first.Taken limits held updated)
    (fits : second.Fits limits held) :
    second.Fits limits updated ↔ first.Room limits held second ∧ ¬ first.Meets second ∧ second.Ends updated := by
  obtain ⟨counts, total, segments⟩ := taken.stored
  obtain ⟨_, _, apart, _⟩ := fits_iff.mp fits
  have meets : updated.overlaps second.range.start second.range.stop = false ↔ ¬ first.Meets second := by
    rw [← Bool.not_eq_true, not_iff_not, overlaps_iff]
    constructor
    · rintro ⟨wide, segment, member, front, back⟩
      rcases (segments segment).mp member with ⟨nonempty, rfl⟩ | earlier
      · exact ⟨nonempty, fun empty => by simp [ranged.range, empty] at wide, back, front⟩
      · have overlapping := overlaps_iff.mpr ⟨wide, segment, earlier, front, back⟩
        rw [apart] at overlapping
        cases overlapping
    · rintro ⟨nonempty, other, front, back⟩
      have wide : second.range.start < second.range.stop := by
        have := List.length_pos_iff.mpr other
        have := ranged.range
        omega
      exact ⟨wide, first.segment, (segments _).mpr (.inl ⟨nonempty, rfl⟩), back, front⟩
  rw [fits_iff, meets, counts, total]
  unfold Offer.Room
  constructor
  · rintro ⟨count, bytes, disjoint, ends⟩
    exact ⟨by omega, disjoint, ends⟩
  · rintro ⟨room, disjoint, ends⟩
    exact ⟨by omega, by omega, disjoint, ends⟩

private theorem refused_second (ranged : Ranged limits second.range second.data)
    (taken : first.Taken limits held updated) (fits : second.Fits limits held) :
    second.Refused limits updated ↔ ¬ second.Known updated ∧
      ¬ (first.Room limits held second ∧ ¬ first.Meets second ∧ second.Ends updated) := by
  rw [Offer.Refused, fits_second ranged taken fits]

private theorem ends_plain (plain : first.range.udpLength = none) :
    first.Ends held ↔ ∀ terminalEnd, held.terminalEnd = some terminalEnd → first.range.stop ≤ terminalEnd :=
  ⟨fun ends => ends.1, fun within => ⟨within, held, .middle plain⟩⟩

private theorem ends_terminal {rdos : UInt16} (announced : first.range.udpLength = some rdos) :
    first.Ends held ↔ (8 ≤ rdos.toNat ∧ rdos.toNat - 8 ≤ first.range.stop) ∧
      ((held.terminalEnd = none ∧ held.udpLength = none ∧ ∀ segment ∈ held.segments, segment.stop ≤ first.range.stop) ∨
        (held.terminalEnd = some first.range.stop ∧ held.udpLength = some rdos ∧
          (first.data = [] → held.emptyTerminalOptions = some first.processing.options ∧
            held.emptyTerminalOptionFailures = some first.processing.optionFailures))) := by
  constructor
  · rintro ⟨_, noted, step⟩
    cases step with
    | middle plain => cases announced.symm.trans plain
    | first known header reach noEnd noLength below =>
      cases announced.symm.trans known
      exact ⟨⟨header, reach⟩, .inl ⟨noEnd, noLength, below⟩⟩
    | again known header reach sameEnd sameLength repeated =>
      cases announced.symm.trans known
      exact ⟨⟨header, reach⟩, .inr ⟨sameEnd, sameLength, fun empty => repeated (List.isEmpty_iff.mpr empty)⟩⟩
  · rintro ⟨⟨header, reach⟩, ⟨noEnd, noLength, below⟩ | ⟨sameEnd, sameLength, repeated⟩⟩
    · refine ⟨fun terminalEnd ending => ?_, _, .first announced header reach noEnd noLength below⟩
      cases noEnd.symm.trans ending
    · refine ⟨fun terminalEnd ending => ?_, _, .again announced header reach sameEnd sameLength fun empty =>
        repeated (List.isEmpty_iff.mp empty)⟩
      cases sameEnd.symm.trans ending
      exact Nat.le_refl _

private theorem known_plain (plain : first.range.udpLength = none) :
    first.Known held ↔ first.segment ∈ held.segments := by
  simp [Offer.Known, Recognized, plain, Offer.segment]

private theorem known_terminal {rdos : UInt16} (announced : first.range.udpLength = some rdos) :
    first.Known held ↔ (held.udpLength = some rdos ∧ held.terminalEnd = some first.range.stop) ∧
      if first.data = [] then
        held.emptyTerminalOptions = some first.processing.options ∧
          held.emptyTerminalOptionFailures = some first.processing.optionFailures
      else first.segment ∈ held.segments := by
  simp [Offer.Known, Recognized, announced, Offer.segment]

theorem Offer.Fits.not_stored (fits : first.Fits limits held) (ranged : Ranged limits first.range first.data)
    (nonempty : first.data ≠ []) : first.segment ∉ held.segments := by
  intro stored
  obtain ⟨_, _, apart, _⟩ := fits_iff.mp fits
  have wide : first.range.start < first.range.stop := by
    have := List.length_pos_iff.mpr nonempty
    have := ranged.range
    omega
  have overlapping := overlaps_iff.mpr ⟨wide, first.segment, stored, wide, wide⟩
  rw [apart] at overlapping
  cases overlapping

private theorem stored_second (taken : first.Taken limits held updated) (fresh : second.segment ∉ held.segments) :
    second.segment ∈ updated.segments ↔ first.Same second := by
  rw [taken.stored.2.2]
  constructor
  · rintro (⟨nonempty, same⟩ | earlier)
    · exact ⟨nonempty, same.symm⟩
    · exact absurd earlier fresh
  · rintro ⟨nonempty, same⟩
    exact .inl ⟨nonempty, same.symm⟩

theorem Offer.Taken.terminal_kept {terminalEnd : Nat} (taken : first.Taken limits held updated)
    (consistent : Consistent limits held) (ending : held.terminalEnd = some terminalEnd) :
    updated.terminalEnd = held.terminalEnd ∧ updated.udpLength = held.udpLength ∧
      updated.emptyTerminalOptions = held.emptyTerminalOptions ∧
      updated.emptyTerminalOptionFailures = held.emptyTerminalOptionFailures := by
  have extension := Accepted.extends taken
  obtain ⟨udpLength, known⟩ := consistent.length_known ending
  obtain ⟨same, options, failures⟩ := extension.terminal terminalEnd ending
  exact ⟨same.trans ending.symm, (extension.length udpLength known).trans known.symm, options, failures⟩

theorem Offer.Taken.plain_kept (taken : first.Taken limits held updated) (plain : first.range.udpLength = none) :
    updated.terminalEnd = held.terminalEnd ∧ updated.udpLength = held.udpLength ∧
      updated.emptyTerminalOptions = held.emptyTerminalOptions ∧
      updated.emptyTerminalOptionFailures = held.emptyTerminalOptionFailures := by
  obtain ⟨noted, step, rfl⟩ := taken.noted
  cases step with
  | middle => exact ⟨rfl, rfl, rfl, rfl⟩
  | first announced => cases plain.symm.trans announced
  | again announced => cases plain.symm.trans announced

theorem Offer.Taken.terminal_set {rdos : UInt16} (taken : first.Taken limits held updated)
    (announced : first.range.udpLength = some rdos) (noEnd : held.terminalEnd = none) :
    updated.terminalEnd = some first.range.stop ∧ updated.udpLength = some rdos ∧
      updated.emptyTerminalOptions =
        (if first.data = [] then some first.processing.options else held.emptyTerminalOptions) ∧
      updated.emptyTerminalOptionFailures =
        if first.data = [] then some first.processing.optionFailures else held.emptyTerminalOptionFailures := by
  obtain ⟨noted, step, rfl⟩ := taken.noted
  cases step with
  | middle plain => cases plain.symm.trans announced
  | first known =>
    cases announced.symm.trans known
    refine ⟨rfl, rfl, ?_, ?_⟩ <;> simp [Partial.record, Partial.observeFragmentOcs]
  | again _ _ _ sameEnd => cases noEnd.symm.trans sameEnd

end

/-- Two fragments that the partial does not know and would take, each on its own. -/
structure Rivals (limits : ReassemblyLimits) (held : Partial) (first second : Offer) (one two : Partial) : Prop where
  consistent : Consistent limits held
  firstRanged : Ranged limits first.range first.data
  secondRanged : Ranged limits second.range second.data
  firstTaken : first.Taken limits held one
  secondTaken : second.Taken limits held two
  firstFresh : ¬ first.Known held
  secondFresh : ¬ second.Known held

section
variable {limits : ReassemblyLimits} {held one two : Partial} {first second : Offer}

theorem Rivals.symm (rivals : Rivals limits held first second one two) : Rivals limits held second first two one :=
  ⟨rivals.consistent, rivals.secondRanged, rivals.firstRanged, rivals.secondTaken, rivals.firstTaken,
    rivals.secondFresh, rivals.firstFresh⟩

theorem Rivals.refused (rivals : Rivals limits held first second one two) :
    second.Refused limits one ↔ ¬ second.Known one ∧
      ¬ (first.Room limits held second ∧ ¬ first.Meets second ∧ second.Ends one) :=
  refused_second rivals.secondRanged rivals.firstTaken ⟨two, rivals.secondTaken⟩

/-- What is refused whichever of the two comes first. -/
def Clash (limits : ReassemblyLimits) (held : Partial) (first second : Offer) : Prop :=
  ¬ first.Same second ∧ ¬ (first.Room limits held second ∧ ¬ first.Meets second)

private theorem clash_comm : Clash limits held first second ↔ Clash limits held second first := by
  rw [Clash, Clash, Offer.same_comm, Offer.room_comm, Offer.meets_comm]

theorem Rivals.refused_ended {terminalEnd : Nat} (rivals : Rivals limits held first second one two)
    (ending : held.terminalEnd = some terminalEnd) :
    second.Refused limits one ↔ Clash limits held first second := by
  obtain ⟨sameEnd, sameLength, options, failures⟩ := rivals.firstTaken.terminal_kept rivals.consistent ending
  have fits : second.Fits limits held := ⟨two, rivals.secondTaken⟩
  have ends := (fits_iff.mp fits).2.2.2
  have fresh := rivals.secondFresh
  have still : second.Ends one := by
    cases announced : second.range.udpLength with
    | none =>
      rw [ends_plain announced] at ends ⊢
      rw [sameEnd]
      exact ends
    | some rdos =>
      rw [ends_terminal announced] at ends ⊢
      rw [sameEnd, sameLength, options, failures]
      refine ⟨ends.1, .inr (ends.2.resolve_left fun noEnd => ?_)⟩
      cases noEnd.1.symm.trans ending
  have known : second.Known one ↔ first.Same second := by
    cases announced : second.range.udpLength with
    | none =>
      rw [known_plain announced] at fresh ⊢
      exact stored_second rivals.firstTaken fresh
    | some rdos =>
      have agreed := ((ends_terminal announced).mp ends).2.resolve_left fun noEnd => by
        cases noEnd.1.symm.trans ending
      rw [known_terminal announced] at fresh ⊢
      rw [sameEnd, sameLength, options, failures, and_iff_right ⟨agreed.2.1, agreed.1⟩]
      by_cases empty : second.data = []
      · rw [if_pos empty]
        refine iff_of_false (fun same => fresh ⟨⟨agreed.2.1, agreed.1⟩, by rw [if_pos empty]; exact same⟩) ?_
        exact fun same => same.1 (same.data.trans empty)
      · rw [if_neg empty]
        exact stored_second rivals.firstTaken (fits.not_stored rivals.secondRanged empty)
  rw [rivals.refused, known, Clash, and_iff_left still]

theorem Rivals.refused_plain (rivals : Rivals limits held first second one two) (noEnd : held.terminalEnd = none)
    (firstPlain : first.range.udpLength = none) (secondPlain : second.range.udpLength = none) :
    second.Refused limits one ↔ Clash limits held first second := by
  have fresh := rivals.secondFresh
  have still : second.Ends one := by
    rw [ends_plain secondPlain, (rivals.firstTaken.plain_kept firstPlain).1, noEnd]
    exact nofun
  rw [known_plain secondPlain] at fresh
  rw [rivals.refused, known_plain secondPlain, stored_second rivals.firstTaken fresh, Clash, and_iff_left still]

theorem Rivals.refused_behind {rdos : UInt16} (rivals : Rivals limits held first second one two)
    (noEnd : held.terminalEnd = none) (announced : first.range.udpLength = some rdos)
    (plain : second.range.udpLength = none) :
    second.Refused limits one ↔ ¬ first.Same second ∧
      ¬ (first.Room limits held second ∧ ¬ first.Meets second ∧ second.range.stop ≤ first.range.stop) := by
  have fresh := rivals.secondFresh
  have ends : second.Ends one ↔ second.range.stop ≤ first.range.stop := by
    rw [ends_plain plain, (rivals.firstTaken.terminal_set announced noEnd).1]
    simp
  rw [known_plain plain] at fresh
  rw [rivals.refused, known_plain plain, stored_second rivals.firstTaken fresh, ends]

theorem Rivals.refused_end {rdos : UInt16} (rivals : Rivals limits held first second one two)
    (noEnd : held.terminalEnd = none) (announced : first.range.udpLength = some rdos)
    (plain : second.range.udpLength = none) :
    first.Refused limits two ↔
      ¬ (first.Room limits held second ∧ ¬ first.Meets second ∧
        (second.data ≠ [] → second.range.stop ≤ first.range.stop)) := by
  obtain ⟨sameEnd, sameLength, _⟩ := rivals.secondTaken.plain_kept plain
  have noLength : held.udpLength = none := by
    have known := rivals.consistent.terminal
    rw [noEnd] at known
    exact Option.not_isSome_iff_eq_none.mp (by rw [← known]; exact Bool.false_ne_true)
  have unknown : ¬ first.Known two := by
    rw [known_terminal announced, sameLength, noLength]
    rintro ⟨⟨⟨⟩, _⟩, _⟩
  have fits : first.Fits limits held := ⟨one, rivals.firstTaken⟩
  obtain ⟨reach, agreed⟩ := (ends_terminal announced).mp (fits_iff.mp fits).2.2.2
  have below := (agreed.resolve_right fun known => by cases noEnd.symm.trans known.1).2.2
  have ends : first.Ends two ↔ (second.data ≠ [] → second.range.stop ≤ first.range.stop) := by
    rw [ends_terminal announced, sameEnd, sameLength, noEnd, noLength]
    constructor
    · rintro ⟨_, ⟨_, _, inside⟩ | ⟨⟨⟩, _⟩⟩ nonempty
      exact inside second.segment ((rivals.secondTaken.stored.2.2 _).mpr (.inl ⟨nonempty, rfl⟩))
    · intro inside
      refine ⟨reach, .inl ⟨rfl, rfl, fun segment member => ?_⟩⟩
      rcases (rivals.secondTaken.stored.2.2 segment).mp member with ⟨nonempty, rfl⟩ | earlier
      · exact inside nonempty
      · exact below segment earlier
  rw [rivals.symm.refused, and_iff_right unknown, ends, Offer.room_comm, Offer.meets_comm]

def SameNotes (first second : Offer) : Prop :=
  first.processing.options = second.processing.options ∧
    first.processing.optionFailures = second.processing.optionFailures

theorem Rivals.refused_ends {rdos other : UInt16} (rivals : Rivals limits held first second one two)
    (noEnd : held.terminalEnd = none) (blank : held.emptyTerminalOptions = none)
    (announced : first.range.udpLength = some rdos) (again : second.range.udpLength = some other) :
    second.Refused limits one ↔
      ¬ ((first.range.stop = second.range.stop ∧ rdos = other) ∧
        if second.data = [] then first.data = [] ∧ SameNotes first second else first.Same second) ∧
      ¬ (first.Room limits held second ∧ ¬ first.Meets second ∧
        (first.range.stop = second.range.stop ∧ rdos = other) ∧
        (second.data = [] → first.data = [] ∧ SameNotes first second)) := by
  obtain ⟨setEnd, setLength, options, failures⟩ := rivals.firstTaken.terminal_set announced noEnd
  have fits : second.Fits limits held := ⟨two, rivals.secondTaken⟩
  have reach := ((ends_terminal again).mp (fits_iff.mp fits).2.2.2).1
  have notes : (one.emptyTerminalOptions = some second.processing.options ∧
      one.emptyTerminalOptionFailures = some second.processing.optionFailures) ↔
        first.data = [] ∧ SameNotes first second := by
    rw [options, failures, blank, SameNotes]
    by_cases empty : first.data = []
    · simp [empty]
    · simp [empty]
  have known : second.Known one ↔ (first.range.stop = second.range.stop ∧ rdos = other) ∧
      if second.data = [] then first.data = [] ∧ SameNotes first second else first.Same second := by
    rw [known_terminal again, setEnd, setLength, notes, Option.some.injEq, Option.some.injEq, and_comm (a := rdos = other)]
    refine and_congr_right fun _ => ?_
    by_cases empty : second.data = []
    · rw [if_pos empty, if_pos empty]
    · rw [if_neg empty, if_neg empty]
      exact stored_second rivals.firstTaken (fits.not_stored rivals.secondRanged empty)
  have ends : second.Ends one ↔ (first.range.stop = second.range.stop ∧ rdos = other) ∧
      (second.data = [] → first.data = [] ∧ SameNotes first second) := by
    rw [ends_terminal again, setEnd, setLength, notes, Option.some.injEq, Option.some.injEq, and_iff_right reach]
    constructor
    · rintro (⟨⟨⟩, _⟩ | ⟨sameEnd, sameLength, same⟩)
      exact ⟨⟨sameEnd, sameLength⟩, same⟩
    · rintro ⟨⟨sameEnd, sameLength⟩, same⟩
      exact .inr ⟨sameEnd, sameLength, same⟩
  rw [rivals.refused, known, ends]

/-- The order counts for a partial without an end when one of the two is terminal and
the other is its copy without RDOS, or is empty and either lies behind the end or
announces the same end. -/
def Lopsided (limits : ReassemblyLimits) (held : Partial) (last other : Offer) : Prop :=
  held.terminalEnd = none ∧ ∃ rdos, last.range.udpLength = some rdos ∧
    ((other.range.udpLength = none ∧ last.Same other) ∨
      (other.data = [] ∧ last.Room limits held other ∧
        ((other.range.udpLength = none ∧ last.range.stop < other.range.stop) ∨
          (other.range.udpLength = some rdos ∧ last.data ≠ [] ∧ last.range.stop = other.range.stop))))

private theorem not_lopsided (plain : first.range.udpLength = none) : ¬ Lopsided limits held first second := by
  rintro ⟨_, rdos, announced, _⟩
  cases plain.symm.trans announced

theorem Offer.Same.meets (same : first.Same second) (ranged : Ranged limits first.range first.data) :
    first.Meets second := by
  have wide := List.length_pos_iff.mpr same.1
  have range := ranged.range
  have start : first.range.start = second.range.start := congrArg Segment.start same.2
  have stop : first.range.stop = second.range.stop := congrArg Segment.stop same.2
  exact ⟨same.1, same.data ▸ same.1, by omega, by omega⟩

theorem Rivals.order_mixed {rdos : UInt16} (rivals : Rivals limits held first second one two)
    (noEnd : held.terminalEnd = none) (announced : first.range.udpLength = some rdos)
    (plain : second.range.udpLength = none) :
    (second.Refused limits one ↔ first.Refused limits two) ↔ ¬ Lopsided limits held first second := by
  rw [rivals.refused_behind noEnd announced plain, rivals.refused_end noEnd announced plain]
  have lopsided : Lopsided limits held first second ↔ first.Same second ∨
      (second.data = [] ∧ first.Room limits held second ∧ ¬ second.range.stop ≤ first.range.stop) := by
    simp [Lopsided, noEnd, announced, plain]
  rw [lopsided]
  by_cases same : first.Same second
  · have meets := same.meets rivals.firstRanged
    simp [same, meets]
  by_cases empty : second.data = []
  · have apart : ¬ first.Meets second := fun meets => meets.2.1 empty
    by_cases room : first.Room limits held second
    · simp [same, empty, apart, room]
    · simp [same, empty, apart, room]
  · simp [same, empty]

theorem Rivals.order_ends {rdos other : UInt16} (rivals : Rivals limits held first second one two)
    (noEnd : held.terminalEnd = none) (blank : held.emptyTerminalOptions = none)
    (announced : first.range.udpLength = some rdos) (again : second.range.udpLength = some other) :
    (second.Refused limits one ↔ first.Refused limits two) ↔
      ¬ (Lopsided limits held first second ∨ Lopsided limits held second first) := by
  rw [rivals.refused_ends noEnd blank announced again, rivals.symm.refused_ends noEnd blank again announced]
  have lopsided : Lopsided limits held first second ↔ second.data = [] ∧ first.Room limits held second ∧
      first.data ≠ [] ∧ (first.range.stop = second.range.stop ∧ rdos = other) := by
    simp only [Lopsided, noEnd, announced, again, Option.some.injEq]
    grind
  have reversed : Lopsided limits held second first ↔ first.data = [] ∧ first.Room limits held second ∧
      second.data ≠ [] ∧ (first.range.stop = second.range.stop ∧ rdos = other) := by
    simp only [Lopsided, noEnd, announced, again, Option.some.injEq, @Offer.room_comm limits held second first]
    grind
  rw [lopsided, reversed, @Offer.room_comm limits held second first, @Offer.same_comm second first,
    @Offer.meets_comm second first, eq_comm (a := second.range.stop), eq_comm (a := other)]
  by_cases agreed : first.range.stop = second.range.stop ∧ rdos = other
  swap
  · simp [agreed]
  by_cases empty : first.data = [] <;> by_cases otherEmpty : second.data = []
  · have notes : SameNotes second first ↔ SameNotes first second := by
      rw [SameNotes, SameNotes, eq_comm, eq_comm (a := second.processing.optionFailures)]
    simp [agreed, empty, otherEmpty, notes]
  · have apart : ¬ first.Meets second := fun meets => meets.1 empty
    have different : ¬ first.Same second := fun same => same.1 empty
    simp [agreed, empty, otherEmpty, apart, different]
  · have apart : ¬ first.Meets second := fun meets => meets.2.1 otherEmpty
    have different : ¬ first.Same second := fun same => same.1 (same.data.trans otherEmpty)
    simp [agreed, empty, otherEmpty, apart, different]
  · simp [agreed, empty, otherEmpty]

/-- What a partial keeps for an empty terminal fragment it keeps with the terminal end. -/
def Blank (held : Partial) : Prop := held.terminalEnd = none → held.emptyTerminalOptions = none

theorem Grows.blank {later : Partial} (grows : Grows limits held later) (blank : Blank held) : Blank later := by
  cases grows with
  | same => exact blank
  | observed => exact blank
  | accepted accepted =>
    intro noEnd
    obtain ⟨noted, step, rfl⟩ := accepted.noted
    cases step with
    | middle => exact blank noEnd
    | first => cases noEnd
    | again _ _ _ ending => cases ending.symm.trans noEnd

theorem Rivals.order (rivals : Rivals limits held first second one two) (blank : Blank held) :
    (second.Refused limits one ↔ first.Refused limits two) ↔
      ¬ (Lopsided limits held first second ∨ Lopsided limits held second first) := by
  cases ending : held.terminalEnd with
  | some terminalEnd =>
    rw [rivals.refused_ended ending, rivals.symm.refused_ended ending, clash_comm]
    simp [Lopsided, ending]
  | none =>
    cases announced : first.range.udpLength with
    | none =>
      rw [or_iff_right (not_lopsided announced)]
      cases again : second.range.udpLength with
      | none =>
        rw [rivals.refused_plain ending announced again, rivals.symm.refused_plain ending again announced, clash_comm]
        exact iff_of_true Iff.rfl (not_lopsided again)
      | some other => exact iff_comm.trans (rivals.symm.order_mixed ending again announced)
    | some rdos =>
      cases again : second.range.udpLength with
      | none =>
        rw [or_iff_left (not_lopsided again)]
        exact rivals.order_mixed ending announced again
      | some other => exact rivals.order_ends ending (blank ending) announced again

def Offer.Kept (limits : ReassemblyLimits) (held : Partial) (offer : Offer) (later : Partial) : Prop :=
  feedHeld limits held offer.range offer.data offer.processing = (.incomplete, some later)

theorem Offer.Kept.cases {later : Partial} (kept : first.Kept limits held later) (consistent : Consistent limits held)
    (ranged : Ranged limits first.range first.data) :
    (first.Known held ∧ later = held.observeFragmentOcs first.processing.ocsNonzero) ∨
      (¬ first.Known held ∧ first.Taken limits held later) :=
  feedHeld_kept consistent ranged kept

/-- An insertion aborts exactly when the fragment is refused. -/
theorem feedHeld_abort_iff (consistent : Consistent limits held) (ranged : Ranged limits first.range first.data) :
    (∃ reason, (feedHeld limits held first.range first.data first.processing).1 = .abort reason) ↔
      first.Refused limits held := by
  have step := insert_fed first.processing consistent ranged
  rw [feedHeld]
  generalize held.insert first.range first.data first.processing limits = result at step
  cases step with
  | duplicate again =>
    refine iff_of_false ?_ fun refused => refused.1 (exactDuplicate_iff.mp again)
    rintro ⟨reason, ⟨⟩⟩
  | refused fresh rejected =>
    refine iff_of_true ⟨_, rfl⟩ ⟨not_recognized fresh, ?_⟩
    rintro ⟨updated, taken⟩
    cases rejected.symm.trans (accept_iff.mpr taken)
  | pending _ accepted =>
    refine iff_of_false ?_ fun refused => refused.2 ⟨_, accepted⟩
    rintro ⟨reason, ⟨⟩⟩
  | finished _ accepted =>
    refine iff_of_false ?_ fun refused => refused.2 ⟨_, accepted⟩
    rintro ⟨reason, ⟨⟩⟩

theorem Offer.Kept.not_refused {later : Partial} (kept : first.Kept limits held later)
    (consistent : Consistent limits held) (ranged : Ranged limits first.range first.data) :
    ¬ first.Refused limits held := by
  rw [← feedHeld_abort_iff consistent ranged, kept]
  rintro ⟨reason, ⟨⟩⟩

/-- The OCS observation has no part in whether a fragment is refused. -/
theorem refused_observed (ocsNonzero : Option Bool) :
    first.Refused limits (held.observeFragmentOcs ocsNonzero) ↔ first.Refused limits held := by
  have ends : first.Ends (held.observeFragmentOcs ocsNonzero) ↔ first.Ends held := by
    cases announced : first.range.udpLength with
    | none => exact (ends_plain announced).trans (@ends_plain held first announced).symm
    | some rdos => exact (ends_terminal announced).trans (@ends_terminal held first rdos announced).symm
  rw [Offer.Refused, Offer.Refused, fits_iff, fits_iff, ends]
  exact Iff.rfl

/-- A fragment the partial knows already is never refused, and makes no other one refused. -/
theorem order_known (consistent : Consistent limits held) (firstRanged : Ranged limits first.range first.data)
    (secondRanged : Ranged limits second.range second.data) (known : first.Known held)
    (firstKept : first.Kept limits held one) (secondKept : second.Kept limits held two) :
    ¬ second.Refused limits one ∧ ¬ first.Refused limits two ∧
      ¬ (Lopsided limits held first second ∨ Lopsided limits held second first) := by
  have welcome := secondKept.not_refused consistent secondRanged
  refine ⟨?_, fun refused => refused.1 ?_, ?_⟩
  · rcases firstKept.cases consistent firstRanged with ⟨_, rfl⟩ | ⟨fresh, _⟩
    · rwa [refused_observed]
    · exact absurd known fresh
  · exact Recognized.extend known (feedHeld_grows consistent secondRanged secondKept).extends
  · have ended : ∀ {offer : Offer} {rdos}, offer.range.udpLength = some rdos → held.terminalEnd = none →
        ¬ offer.Known held := by
      intro offer rdos announced noEnd known
      cases noEnd.symm.trans ((known_terminal announced).mp known).1.2
    rintro (⟨noEnd, rdos, announced, _⟩ | ⟨noEnd, rdos, announced, copy | ⟨empty, _, other⟩⟩)
    · exact ended announced noEnd known
    · obtain ⟨plain, same⟩ := copy
      rw [known_plain plain, ← same.2] at known
      refine welcome ⟨ended announced noEnd, fun fits => ?_⟩
      exact fits.not_stored secondRanged same.1 known
    · rcases other with ⟨plain, _⟩ | ⟨again, _⟩
      · rw [known_plain plain] at known
        have wide := consistent.ordered.nonempty _ known
        have range := firstRanged.range
        rw [empty] at range
        exact absurd wide (by simp [Offer.segment, segmentOf, range])
      · exact ended again noEnd known

/-- Two fragments that each leave the partial incomplete: whether the later one is
refused depends on the order exactly in the lopsided cases. -/
theorem order_iff (consistent : Consistent limits held) (blank : Blank held)
    (firstRanged : Ranged limits first.range first.data) (secondRanged : Ranged limits second.range second.data)
    (firstKept : first.Kept limits held one) (secondKept : second.Kept limits held two) :
    (second.Refused limits one ↔ first.Refused limits two) ↔
      ¬ (Lopsided limits held first second ∨ Lopsided limits held second first) := by
  rcases firstKept.cases consistent firstRanged with ⟨known, _⟩ | ⟨firstFresh, firstTaken⟩
  · obtain ⟨later, earlier, even⟩ := order_known consistent firstRanged secondRanged known firstKept secondKept
    exact iff_of_true (iff_of_false later earlier) even
  rcases secondKept.cases consistent secondRanged with ⟨known, _⟩ | ⟨secondFresh, secondTaken⟩
  · obtain ⟨earlier, later, even⟩ := order_known consistent secondRanged firstRanged known secondKept firstKept
    exact iff_of_true (iff_of_false later earlier) (by rwa [or_comm])
  · have rivals : Rivals limits held first second one two :=
      ⟨consistent, firstRanged, secondRanged, firstTaken, secondTaken, firstFresh, secondFresh⟩
    exact rivals.order blank

end

end UdpOptions.Proofs
