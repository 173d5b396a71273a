import UdpOptions.Proofs.Provenance

/-! Soundness of reassembled delivery. A payload with a fragment-set report comes
from one complete set of fragments of one key, received by calls of the run that
nothing has ended since, and its data is the front of their bytes in offset order. -/

namespace UdpOptions.Proofs
open Library Library.Intervals Model

/-- The calls behind a reassembly of a key: distinct calls whose ranges meet end to
end from zero to the only terminal coverage end. -/
structure Assembled (arrivals : List (List UInt8 × Nat)) (key : FragKey) (current : Nat → Prop) (rdos : UInt16)
    (contributions : List Contribution) (stop : Nat) : Prop where
  contributed : ∀ contribution ∈ contributions, Contributed arrivals key contribution
  distinct : (contributions.map Contribution.index).Nodup
  partition : Tiles Contribution.start Contribution.stop 0 contributions stop
  terminal : ∃ contribution ∈ contributions, contribution.frag.rdos = some rdos
  announced : ∀ contribution ∈ contributions, ∀ other, contribution.frag.rdos = some other →
    other = rdos ∧ contribution.stop = stop
  current : ∀ contribution ∈ contributions, current contribution.index

section
variable {crc32c : List UInt8 → UInt32} {limits : ReassemblyLimits} {arrivals : List (List UInt8 × Nat)}
  {last : List UInt8 × Nat} {key : FragKey} {current : Nat → Prop} {held : Partial} {stored : List Contribution}
  {final : Option Contribution}

theorem Traced.final_tiles (traced : Traced arrivals key current held stored final) {terminalEnd : Nat}
    (ending : held.terminalEnd = some terminalEnd) :
    Tiles Contribution.start Contribution.stop terminalEnd final.toList terminalEnd := by
  cases last : final with
  | none => exact rfl
  | some contribution =>
    subst last
    obtain ⟨none, carries⟩ := traced.empty contribution rfl
    obtain ⟨rdos, same⟩ := Option.isSome_iff_exists.mp carries
    have stop := (traced.announced contribution (by simp) rdos same).2
    have range := (NormalizedFragment.new_range (traced.contributed contribution (by simp)).range).1
    rw [none, List.length_nil, Nat.add_zero] at range
    cases ending.symm.trans stop
    exact ⟨range.symm, rfl⟩

theorem Traced.assembled (traced : Traced arrivals key current held stored final) {terminalEnd : Nat}
    {rdos : UInt16} (ending : held.terminalEnd = some terminalEnd) (known : held.udpLength = some rdos)
    (tiles : SegmentsTile 0 held.segments terminalEnd) :
    Assembled arrivals key current rdos (stored ++ final.toList) terminalEnd ∧
      held.segments.flatMap Segment.data = (stored ++ final.toList).flatMap Contribution.data := by
  constructor
  · refine ⟨traced.contributed, traced.distinct, ?_, ?_, ?_, traced.current⟩
    · apply Tiles.append _ (traced.final_tiles ending)
      have placed := (@tiles_map _ Prod.fst (fun content : Nat × Nat × List UInt8 => content.2.1) _ _ _ segmentContent _).mpr tiles
      rw [traced.segments] at placed
      exact (tiles_map Contribution.content).mp placed
    · obtain ⟨contribution, member, carries⟩ := traced.known (by rw [ending]; rfl)
      obtain ⟨other, same⟩ := Option.isSome_iff_exists.mp carries
      cases known.symm.trans (traced.announced contribution member other same).1
      exact ⟨contribution, member, same⟩
    · intro contribution member other same
      obtain ⟨length, stop⟩ := traced.announced contribution member other same
      exact ⟨Option.some.inj (length.symm.trans known), Option.some.inj (stop.symm.trans ending)⟩
  · have bytes : held.segments.flatMap Segment.data = stored.flatMap Contribution.data := by
      have contents := congrArg (List.flatMap fun content => content.2.2) traced.segments
      rw [List.flatMap_map, List.flatMap_map] at contents
      exact contents
    have nothing : final.toList.flatMap Contribution.data = [] := by
      rw [List.flatMap_eq_nil_iff]
      intro contribution member
      exact (traced.empty contribution (Option.mem_toList.mp member)).1
    rw [List.flatMap_append, nothing, List.append_nil]
    exact bytes

variable {cache : ReassemblyCache} {opened : Opened} {frag : Frag} {options : List RawOption}
  {reports : List OptionReport} {status : OcsStatus}

/-- A call is current at a completing call when nothing ended the key in between,
expiry at the completing call included. -/
def Current (crc32c : List UInt8 → UInt32) (limits : ReassemblyLimits) (before : List (List UInt8 × Nat))
    (last : List UInt8 × Nat) (cache : ReassemblyCache) (key : FragKey) (index : Nat) : Prop :=
  Unbroken crc32c limits before key index ∧
    (index < before.length →
      ∃ held, cache.partials.lookup key = some held ∧ held.isExpired last.2 limits.timeout = false)

/-- A completed reassembly consists of the present call and calls that are current. -/
theorem AllTraced.finished {reassembled : Reassembled} (traced : AllTraced crc32c cache.limits arrivals cache)
    (valid : CacheValid cache) (opening : openDatagram last.1 = .ok (.ok opened))
    (fragmentary : Fragmentary opened frag status)
    (outcome : ((insertionOf opened frag options reports status last.2).fed cache).1 = .complete reassembled) :
    ∃ contributions stop,
      Assembled (arrivals ++ [last]) (fragKey opened.ip opened.udp frag)
        (Current crc32c cache.limits arrivals last cache (fragKey opened.ip opened.udp frag)) reassembled.udpLength
        contributions stop ∧
      reassembled.tail = contributions.flatMap Contribution.data ∧
      ∃ contribution ∈ contributions, contribution.index = arrivals.length ∧ contribution.opened = opened := by
  have before := (valid.gc last.2).retained (fragKey opened.ip opened.udp frag)
  have step := valid.cellFed (insertionOf opened frag options reports status last.2)
  generalize (insertionOf opened frag options reports status last.2).fed cache = fed at step outcome
  cases step with
  | aborted => cases outcome
  | again => cases outcome
  | pending => cases outcome
  | @finished fragment updated udpLength screened accepted filled known =>
    cases outcome
    obtain ⟨stored, final, trace, earlier⟩ := @AllTraced.start crc32c cache.limits arrivals cache
      (Current crc32c cache.limits arrivals last cache (fragKey opened.ip opened.udp frag)) traced
      (fragKey opened.ip opened.udp frag) last
      (fun old present young index unbroken => ⟨unbroken, fun _ => ⟨old, present, young⟩⟩)
    have unfilled : ¬ Filled (((cache.gc last.2).partials.lookup (fragKey opened.ip opened.udp frag)).getD
        (Partial.new last.2)) := by
      rcases feedable_start before last.2 with retained | ⟨now, new⟩
      · exact retained.gap
      · rw [new]
        rintro ⟨_, impossible, _⟩
        cases impossible
    obtain ⟨stored, final, trace, present⟩ := trace.accept
      (contributed_last opening fragmentary screened.normal arrivals)
      ⟨unbroken_past (Nat.le_succ _), fun past => absurd past (Nat.lt_irrefl _)⟩
      (fun old member => Nat.ne_of_lt (earlier old member)) accepted
    obtain ⟨terminalEnd, ending, tiles⟩ := filled
    obtain ⟨assembled, bytes⟩ := trace.assembled ending known tiles
    refine ⟨stored ++ final.toList, terminalEnd, assembled, bytes, ?_⟩
    rcases present with member | ⟨sameSegments, sameEnd⟩
    · exact ⟨_, member, rfl, rfl⟩
    · refine absurd ⟨terminalEnd, sameEnd ▸ ending, ?_⟩ unfilled
      rw [← sameSegments]
      exact tiles

theorem disposeParsed_shape {status : OcsStatus} {parsed : ParsedOptions} {payload : Payload}
    (disposed : disposeParsed opened status parsed = .deliver payload) :
    payload.ocsReports = [⟨status, .datagram⟩] ∧ (payload.data = [] ∨ payload.data = opened.userData) := by
  unfold disposeParsed at disposed
  split at disposed
  · cases disposed
    exact ⟨rfl, .inr rfl⟩
  · dsimp only at disposed
    split at disposed
    · cases disposed
    · split at disposed
      · cases disposed
        exact ⟨rfl, .inl rfl⟩
      · split at disposed
        · cases disposed
        · cases disposed
          exact ⟨rfl, .inr rfl⟩

private theorem deliver_shape {payload : Payload} (well : WellOpened opened)
    (disposed : dispositionOf crc32c opened = .deliver payload) :
    (∃ status, payload.ocsReports = [⟨status, .datagram⟩]) ∧ (payload.data = [] ∨ payload.data = opened.userData) := by
  have outcome := (disposeOpened_eq crc32c well).2
  rw [disposed] at outcome
  generalize target : Disposition.deliver payload = disposition at outcome
  cases outcome with
  | plain =>
    cases target
    exact ⟨⟨_, rfl⟩, .inr rfl⟩
  | malformed =>
    cases target
    exact ⟨⟨_, rfl⟩, .inr rfl⟩
  | parsed =>
    obtain ⟨only, data⟩ := disposeParsed_shape target.symm
    exact ⟨⟨_, only⟩, data⟩

private theorem deliver_data {payload : Payload} (well : WellOpened opened)
    (disposed : dispositionOf crc32c opened = .deliver payload) :
    (Withheld opened → payload.data = []) ∧ (¬ Withheld opened → payload.data = opened.userData) := by
  by_cases empty : opened.userData = []
  · have none : payload.data = [] := by
      rcases (deliver_shape well disposed).2 with none | same
      · exact none
      · exact same.trans empty
    exact ⟨fun _ => none, fun _ => none.trans empty.symm⟩
  · obtain ⟨other, same, withheld, plain, _⟩ := dispositionOf_userData crc32c well empty
    cases disposed.symm.trans same
    exact ⟨fun bad => (withheld bad).1, plain⟩

/-- A payload with a fragment-set report is the re-feed of a completed reassembly. -/
theorem Handling.reassembled {delivered : Payload} {after : ReassemblyCache} {now : Nat} (well : WellOpened opened)
    (handling : Handling crc32c opened cache now (.payload delivered) after)
    (set : ∃ report ∈ delivered.ocsReports, report.source = .fragmentSet) :
    ∃ frag options reports status reassembled inner, Fragmentary opened frag status ∧
      ((insertionOf opened frag options reports status now).fed cache).1 = .complete reassembled ∧
      Rebuildable reassembled ∧ dispositionOf crc32c (rebuiltOpened opened reassembled) = .deliver inner ∧
      delivered = mergeReassembled reassembled inner := by
  generalize target : Delivery.payload delivered = delivery at handling
  cases handling with
  | failed => cases target
  | buffered => cases target
  | aborted => cases target
  | delivered disposed =>
    cases target
    obtain ⟨report, member, source⟩ := set
    obtain ⟨status, only⟩ := (deliver_shape well disposed).1
    rw [only, List.mem_singleton] at member
    rw [member] at source
    cases source
  | @completed frag options reports status reassembled fragmentary disposed outcome =>
    rw [handOn] at target
    split at target
    next fits =>
      cases inside : dispositionOf crc32c (rebuiltOpened opened reassembled) with
      | deliver inner =>
        rw [inside] at target
        cases target
        exact ⟨frag, options, reports, status, reassembled, inner, fragmentary, outcome, fits, inside, rfl⟩
      | fail key =>
        rw [inside] at target
        cases key <;> cases target
      | fragment =>
        rw [inside] at target
        cases target
    · cases target

/-- Whenever a call of a run returns a payload with a fragment-set report, the
payload is assembled from calls of the run: trusted fragments of one key without
user data, whose ranges partition the tail, and which nothing has ended since. Its
data is the part in front of the RDOS, unless the rebuilt options area withholds it. -/
theorem reassembled_delivery_sound (crc32c : List UInt8 → UInt32) (limits : ReassemblyLimits)
    {before : List (List UInt8 × Nat)} {last : List UInt8 × Nat} {outputs : List (Except RecvError Delivery)}
    {cache after : ReassemblyCache} {delivered : Payload}
    (executed : run (receive crc32c) before (.withLimits limits) = .ok (outputs, cache))
    (received : receive crc32c last cache = .ok (.ok (.payload delivered), after))
    (set : ∃ report ∈ delivered.ocsReports, report.source = .fragmentSet) :
    ∃ key rdos contributions stop opened rebuilt inner,
      Assembled (before ++ [last]) key (Current crc32c limits before last cache key) rdos contributions stop ∧
      (∃ contribution ∈ contributions, contribution.index = before.length ∧ contribution.opened = opened) ∧
      reassembledDatagram opened.ip opened.udp rdos (contributions.flatMap Contribution.data) = .ok (some rebuilt) ∧
      openDatagram rebuilt = .ok (.ok inner) ∧
      (Withheld inner → delivered.data = []) ∧
      (¬ Withheld inner →
        delivered.data = (contributions.flatMap Contribution.data).take (rdos.toNat - 8)) := by
  obtain ⟨valid, rfl, traced⟩ := run_traced executed
  rcases processDatagram_cases crc32c last.1 cache last.2 with ⟨error, _, processed⟩ |
    ⟨opened, delivery, final, opening, processed, handling⟩
  · cases processed.symm.trans received
  · cases processed.symm.trans received
    obtain ⟨well, _⟩ := openDatagram_well opening
    obtain ⟨frag, options, reports, status, reassembled, inner, fragmentary, outcome, fits, disposed, rfl⟩ :=
      handling.reassembled well set
    obtain ⟨contributions, stop, assembled, bytes, present⟩ := traced.finished valid opening fragmentary outcome
    have reopened := open_rebuilt opened fits
    obtain ⟨withheld, plain⟩ := deliver_data (openDatagram_well reopened).1 disposed
    refine ⟨_, _, contributions, stop, opened, _, _, assembled, present, ?_, reopened, withheld, ?_⟩
    · rw [← bytes, reassembled_rebuilt, if_pos fits]
    · intro safe
      rw [← bytes]
      exact plain safe

end

private def firstHalf : List UInt8 :=
  datagramBytes ⟨10, 0, 0, 1⟩ ⟨10, 0, 0, 2⟩ ⟨1000, 2000, 8, 0⟩ [0, 0, 3, 10, 0, 20, 0, 0, 0, 5, 0, 8, 0xaa]

private def secondHalf : List UInt8 :=
  datagramBytes ⟨10, 0, 0, 1⟩ ⟨10, 0, 0, 2⟩ ⟨1000, 2000, 8, 0⟩ [0, 0, 3, 12, 0, 22, 0, 0, 0, 5, 0, 9, 0, 10, 0xbb]

theorem reassembled_delivery_sound_halves :
    ∃ cache after delivered key rdos contributions stop,
      run (receive fun _ => 0) [(firstHalf, 0)] (.withLimits .default) = .ok ([.ok .buffered], cache) ∧
      receive (fun _ => 0) (secondHalf, 1) cache = .ok (.ok (.payload delivered), after) ∧
      delivered.data = [0xaa, 0xbb] ∧
      Assembled [(firstHalf, 0), (secondHalf, 1)] key
        (Current (fun _ => 0) .default [(firstHalf, 0)] (secondHalf, 1) cache key) rdos contributions stop := by
  have completes : ∃ cache after delivered,
      run (receive fun _ => 0) [(firstHalf, 0)] (.withLimits .default) = .ok ([.ok .buffered], cache) ∧
      receive (fun _ => 0) (secondHalf, 1) cache = .ok (.ok (.payload delivered), after) ∧
      delivered.data = [0xaa, 0xbb] ∧ delivered.ocsReports = [⟨.unused, .fragmentSet⟩, ⟨.absent, .datagram⟩] :=
    ⟨_, _, _, rfl, rfl, rfl, rfl⟩
  obtain ⟨cache, after, delivered, executed, received, data, set⟩ := completes
  obtain ⟨key, rdos, contributions, stop, _, _, _, assembled, _⟩ :=
    reassembled_delivery_sound (fun _ => 0) .default executed received
      ⟨⟨.unused, .fragmentSet⟩, by rw [set]; simp, rfl⟩
  exact ⟨cache, after, delivered, key, rdos, contributions, stop, executed, received, data, assembled⟩

end UdpOptions.Proofs
