import UdpOptions.Proofs.FragmentedRoundTrip
import UdpOptions.Proofs.PipelineRuns

/-! Completed reassemblies and the datagram rebuilt from them. The cache bounds a
set by its UDP size, while the rebuilt datagram also needs room for an IPv4
header. A set whose coverage ends above 65507 completes and is then dropped. -/

namespace UdpOptions.Proofs
open Library Library.Intervals Model

/-- Where the fragment set of a key ends once this fragment is in: the end of the
fragment itself when it carries an RDOS, else the end the pending partial knows. -/
def coverageEnd (cache : ReassemblyCache) (key : FragKey) (frag : Frag) (data : List UInt8) : Option Nat :=
  match frag.rdos with
  | some _ => (NormalizedFragment.new frag data.length).map NormalizedFragment.stop
  | none => (cache.partials.lookup key).bind Partial.terminalEnd

private theorem tail_length {low high : Nat} {segments : List Segment} (tiles : SegmentsTile low segments high)
    (lengths : ∀ segment ∈ segments, segment.data.length = segment.stop - segment.start)
    (nonempty : ∀ segment ∈ segments, segment.start < segment.stop) :
    low + (segments.flatMap Segment.data).length = high := by
  induction segments generalizing low with
  | nil => exact tiles
  | cons segment rest ih =>
    obtain ⟨first, later⟩ := tiles
    have next := ih later (fun other member => lengths other (List.mem_cons_of_mem _ member))
      (fun other member => nonempty other (List.mem_cons_of_mem _ member))
    have length := lengths segment (by simp)
    have wide := nonempty segment (by simp)
    rw [List.flatMap_cons, List.length_append]
    omega

/-- A finished partial is rebuilt exactly when an IPv4 header still fits. -/
theorem rebuildable_iff {limits : ReassemblyLimits} {held : Partial} {udpLength : UInt16} {terminalEnd : Nat}
    (consistent : Consistent limits held) (ending : held.terminalEnd = some terminalEnd)
    (tiles : SegmentsTile 0 held.segments terminalEnd) (known : held.udpLength = some udpLength) :
    Rebuildable (reassembledOf held udpLength) ↔ terminalEnd ≤ 65507 := by
  obtain ⟨header, reach⟩ := consistent.reach terminalEnd udpLength ending known
  have length := tail_length tiles consistent.lengths consistent.ordered.nonempty
  have tail : (reassembledOf held udpLength).tail.length = terminalEnd := by
    rw [Nat.zero_add] at length
    exact length
  rw [Rebuildable, tail]
  constructor
  · rintro ⟨_, _, small⟩
    omega
  · intro small
    exact ⟨header, reach, by omega⟩

private theorem coverageEnd_finished {cache : ReassemblyCache} {key : FragKey} {frag : Frag} {data : List UInt8}
    {processing : FragmentProcessing} {now terminalEnd : Nat} {fragment : NormalizedFragment} {updated : Partial}
    (normal : NormalizedFragment.new frag data.length = some fragment)
    (accepted : Accepted (((cache.gc now).partials.lookup key).getD (Partial.new now)) fragment data processing
      cache.limits updated)
    (ending : updated.terminalEnd = some terminalEnd) : coverageEnd cache key frag data = some terminalEnd := by
  obtain ⟨_, announces⟩ := NormalizedFragment.new_range normal
  obtain ⟨noted, step, rfl⟩ := accepted.noted
  have ending : noted.terminalEnd = some terminalEnd := ending
  rw [coverageEnd, ← announces]
  cases step with
  | middle plain =>
    rw [plain]
    dsimp only
    cases found : (cache.gc now).partials.lookup key with
    | none =>
      rw [found] at ending
      cases ending
    | some held =>
      rw [found] at ending
      rw [lookup_gc, Option.filter_eq_some_iff] at found
      rw [found.1]
      exact ending
  | first announced =>
    rw [announced, normal]
    exact ending
  | again announced _ _ sameEnd =>
    rw [announced, normal]
    exact sameEnd.symm.trans ending

variable {crc32c : List UInt8 → UInt32}

/-- In every reachable state a completed set is handed on exactly when its coverage
ends at 65507 or below, the longest tail an IPv4 datagram has room for. -/
theorem handed_on_iff {limits : ReassemblyLimits} {cache after : ReassemblyCache}
    (reachable : Reachable crc32c limits cache) {arrival : List UInt8 × Nat} {opened : Opened} {frag : Frag}
    {key : FragKey} {data : List UInt8} {reassembled : Reassembled}
    (inserts : Inserts crc32c arrival cache opened frag key data (.complete reassembled) after) :
    (∃ rebuilt, reassembledDatagram opened.ip opened.udp reassembled.udpLength reassembled.tail = .ok (some rebuilt)) ↔
      ∃ stop, coverageEnd cache key frag data = some stop ∧ stop ≤ 65507 := by
  obtain ⟨valid, _⟩ := reachable.valid
  obtain ⟨options, reports, status, _, _, _, rfl, rfl, outcome, _⟩ := inserts.made_by
  have before := (valid.gc arrival.2).retained (fragKey opened.ip opened.udp frag)
  have step := valid.cellFed (insertionOf opened frag options reports status arrival.2)
  generalize (insertionOf opened frag options reports status arrival.2).fed cache = fed at step outcome
  cases step with
  | aborted => cases outcome
  | again => cases outcome
  | pending => cases outcome
  | finished screened accepted filled known =>
    cases outcome
    obtain ⟨terminalEnd, ending, tiles⟩ := filled
    have consistent := accepted.consistent (feedable_start before arrival.2).consistent screened.ranged
    have fits := rebuildable_iff consistent ending tiles known
    have covered : coverageEnd cache (fragKey opened.ip opened.udp frag) frag (fragmentData opened frag) =
        some terminalEnd := coverageEnd_finished screened.normal accepted ending
    rw [reassembled_rebuilt, covered]
    constructor
    · rintro ⟨rebuilt, rebuilding⟩
      split at rebuilding
      next small => exact ⟨terminalEnd, rfl, fits.mp small⟩
      · cases rebuilding
    · rintro ⟨stop, same, small⟩
      cases same
      rw [if_pos (fits.mpr small)]
      exact ⟨_, rfl⟩

/-- An atomic fragment of Identification 9 with two bytes of data. -/
private def atomicFragment : List UInt8 :=
  datagramBytes ⟨10, 0, 0, 1⟩ ⟨10, 0, 0, 2⟩ ⟨1000, 2000, 8, 0⟩ [0, 0, 3, 12, 0, 22, 0, 0, 0, 9, 0, 0, 0, 10, 0xaa, 0xbb]

theorem handed_on_iff_atomic :
    ∃ opened frag reassembled after,
      Inserts (fun _ => 0) (atomicFragment, 0) (.withLimits .default) opened frag
        ⟨⟨10, 0, 0, 1⟩, ⟨10, 0, 0, 2⟩, 1000, 2000, 9⟩ [0xaa, 0xbb] (.complete reassembled) after ∧
      ∃ rebuilt,
        reassembledDatagram opened.ip opened.udp reassembled.udpLength reassembled.tail = .ok (some rebuilt) := by
  have inserts : ∃ opened frag reassembled after,
      Inserts (fun _ => 0) (atomicFragment, 0) (.withLimits .default) opened frag
        ⟨⟨10, 0, 0, 1⟩, ⟨10, 0, 0, 2⟩, 1000, 2000, 9⟩ [0xaa, 0xbb] (.complete reassembled) after ∧
      coverageEnd (.withLimits .default) ⟨⟨10, 0, 0, 1⟩, ⟨10, 0, 0, 2⟩, 1000, 2000, 9⟩ frag [0xaa, 0xbb] = some 2 :=
    ⟨_, _, _, _, ⟨_, _, _, rfl, rfl, rfl⟩, rfl⟩
  obtain ⟨opened, frag, reassembled, after, inserts, ending⟩ := inserts
  exact ⟨opened, frag, reassembled, after, inserts, (handed_on_iff .empty inserts).mpr ⟨2, ending, by decide⟩⟩

private theorem inserts_range {opened : Opened} {src dst : Ipv4Addr} {srcPort dstPort : UInt16} {tail : List UInt8}
    {rdos : UInt16} {identification : UInt32} {range : ChunkRange}
    (sent : Sent opened src dst srcPort dstPort [] (rangeFragment tail false rdos identification range).surplusBody)
    {cache after : ReassemblyCache} {now : Nat} {outcome : ReassemblyOutcome}
    (arrived : arriveRange ⟨src, dst, srcPort, dstPort, identification⟩ identification tail rdos (some true)
      (range, now) cache = .ok (outcome, after)) :
    Inserts crc32c (opened.datagram, now) cache opened (rangeFrag false rdos identification range)
      ⟨src, dst, srcPort, dstPort, identification⟩ (rangeData tail range) outcome after := by
  obtain ⟨well, _⟩ := openDatagram_well sent.opening
  have disposition := dispositionOf_range crc32c sent
  have disposed := (disposeOpened_eq crc32c well).2
  rw [disposition] at disposed
  have inside := (disposed.fragment well).2.2
  refine ⟨[], [], .valid, ?_, ?_, arrived⟩
  · rw [← disposition]
    exact examine_opened crc32c sent.opening well
  · rw [← fragmentData_range sent]
    exact slice_fragmentData well inside

section Oversized

/-- One byte more than a single IPv4 datagram can carry, to a peer that accepts
65535 bytes in two segments. -/
private def oversizedSend : Api.SendConfig := ⟨65535, ⟨65535, 2⟩, .auto, some 7⟩

private def oversizedAddrs : Api.DatagramAddrs := ⟨⟨10, 0, 0, 1⟩, ⟨10, 0, 0, 2⟩, 1000, 2000⟩

private def oversizedLimits : ReassemblyLimits := ⟨65535, 2, 1, Limits.reassemblyTimeoutMax⟩

private def oversizedRanges : List ChunkRange := [(0, 15, false), (15, 65508, true)]

variable {payload : List UInt8}

private theorem split_oversized (length : payload.length = 65508) :
    Split.splitDatagram payload [] ⟨65507, ⟨65535, 2⟩, 7⟩ =
      .ok (.ok (oversizedRanges.map (rangeFragment payload false 65516 7))) := by
  have tail : Split.reassembledTail payload [] = payload := by simp [Split.reassembledTail]
  have announced : Split.checkedRdos 65508 = .ok 65516 := rfl
  have cut : Split.chunkRanges 65508 (65507 - Split.fragmentOptionsBodyLen (some 65516))
      (65507 - Split.fragmentOptionsBodyLen none) (Split.fragmentOptionsBodyLen none) ⟨65507, ⟨65535, 2⟩, 7⟩ =
      .ok (.ok oversizedRanges) := rfl
  have all := @fragmentsFrom_eq oversizedRanges payload false 65516 7 (by rw [length]; decide) (by omega)
  unfold Split.splitDatagram
  simp only [length, tail, announced, cut, Checked.ok_bind]
  exact all

private theorem build_oversized (crc32c : List UInt8 → UInt32) (length : payload.length = 65508) :
    ∃ datagrams, Api.buildOutgoingDatagrams crc32c oversizedAddrs payload ⟨[], false⟩ oversizedSend =
        .ok (.ok datagrams) ∧
      Api.assembleFragments oversizedAddrs 65535 (oversizedRanges.map (rangeFragment payload false 65516 7)) =
        .ok (.ok datagrams) := by
  have fit : ∀ fragment ∈ oversizedRanges.map (rangeFragment payload false 65516 7),
      2 ≤ fragment.surplusBody.length ∧ sentLen 0 fragment.surplusBody.length ≤ 65535 := by
    intro fragment member
    obtain ⟨range, listed, rfl⟩ := List.mem_map.mp member
    have data : (rangeData payload range).length ≤ 65493 := by
      simp only [oversizedRanges, List.mem_cons, List.not_mem_nil, or_false] at listed
      rcases listed with rfl | rfl <;> simp [rangeData, length]
    have header : (Split.fragmentOptionsBody 7 (UInt16.ofNat (rangeOffset false range)) (rangeRdos 65516 range)).length ≤
        14 := by
      rw [fragmentOptionsBody_length]
      cases rangeRdos 65516 range with
      | none => exact show 12 ≤ 14 by decide
      | some rdos => exact Nat.le_refl 14
    refine ⟨rangeFragment_led _ _ _ _ _, ?_⟩
    rw [rangeFragment, List.length_append, sentLen]
    split <;> omega
  obtain ⟨datagrams, assembled⟩ := assembleFragments_fit oversizedAddrs (Nat.le_refl 65535) fit
  refine ⟨datagrams, ?_, assembled⟩
  unfold Api.buildOutgoingDatagrams
  simp only [length]
  exact (congrArg (· >>= _) (split_oversized length)).trans assembled

private theorem dropped_oversized (length : payload.length = 65508) :
    ∃ first second middle after final opened frag reassembled,
      Api.buildOutgoingDatagrams (fun _ => 0) oversizedAddrs payload ⟨[], false⟩ oversizedSend =
        .ok (.ok [first, second]) ∧
      run (receive fun _ => 0) [(first, 0)] (.withLimits oversizedLimits) = .ok ([.ok .buffered], middle) ∧
      Inserts (fun _ => 0) (second, 0) middle opened frag ⟨⟨10, 0, 0, 1⟩, ⟨10, 0, 0, 2⟩, 1000, 2000, 7⟩
        (fragmentData opened frag) (.complete reassembled) after ∧
      8 + reassembled.tail.length ≤ oversizedLimits.maxReassembledSize ∧
      reassembledDatagram opened.ip opened.udp reassembled.udpLength reassembled.tail = .ok none ∧
      run (receive fun _ => 0) [(first, 0), (second, 0)] (.withLimits oversizedLimits) =
        .ok ([.ok .buffered, .ok .dropped], final) := by
  obtain ⟨datagrams, built, assembled⟩ := build_oversized (fun _ => 0) length
  obtain ⟨openedOf, rfl, sent⟩ := assembleFragments_sent assembled
  have splitting : Splitting oversizedLimits payload 65516 oversizedRanges := by
    refine ⟨?_, by decide, ?_, ?_, ?_, by decide, by decide⟩
    · rw [length]
      exact .more (by decide) (.last (by decide))
    · rw [length]
      decide
    · rw [length]
      decide
    · rw [length]
      decide
  obtain ⟨middle, arrivedFirst, awaiting⟩ := @awaiting_first payload 65516 oversizedRanges (0, 15, false)
    ⟨⟨10, 0, 0, 1⟩, ⟨10, 0, 0, 2⟩, 1000, 2000, 7⟩ (.withLimits oversizedLimits) (some true) 0 splitting (by decide) rfl
    (by decide) (by decide) 7
  obtain ⟨after, arrivedLast, _⟩ := @Awaiting.last oversizedLimits payload 65516 oversizedRanges [(0, 15, false)]
    (some true) 0 (15, 65508, true) _ middle 0 awaiting splitting (by decide) (by decide) (by decide) (by decide) 7
  have receivedFirst := receive_range (fun _ => 0) (sent (0, 15, false) (by decide)) arrivedFirst
  have receivedLast := receive_range (fun _ => 0) (sent (15, 65508, true) (by decide)) arrivedLast
  have large : ¬ Rebuildable ⟨payload, 65516, [], [], some true⟩ := by
    rintro ⟨_, _, small⟩
    have small : 28 + payload.length < 2 ^ 16 := small
    omega
  refine ⟨_, _, middle, after, after, openedOf (15, 65508, true), rangeFrag false 65516 7 (15, 65508, true),
    ⟨payload, 65516, [], [], some true⟩, built, ?_, ?_, ?_, ?_, ?_⟩
  · simp only [run, receivedFirst, settled, Checked.ok_bind, Checked.pure_eq]
  · rw [fragmentData_range (sent (15, 65508, true) (by decide))]
    exact inserts_range (sent (15, 65508, true) (by decide)) arrivedLast
  · show 8 + payload.length ≤ 65535
    omega
  · rw [reassembled_rebuilt, if_neg large]
  · simp only [run, receivedFirst, receivedLast, settled, handOn, if_neg large, Checked.ok_bind, Checked.pure_eq]

/-- The cache completes the set of a successful send, within the size it accepts,
and the completed datagram is dropped. -/
theorem oversized_set_dropped :
    ∃ first second middle after final opened frag reassembled,
      Api.buildOutgoingDatagrams (fun _ => 0) oversizedAddrs (List.replicate 65508 0) ⟨[], false⟩ oversizedSend =
        .ok (.ok [first, second]) ∧
      run (receive fun _ => 0) [(first, 0)] (.withLimits oversizedLimits) = .ok ([.ok .buffered], middle) ∧
      Inserts (fun _ => 0) (second, 0) middle opened frag ⟨⟨10, 0, 0, 1⟩, ⟨10, 0, 0, 2⟩, 1000, 2000, 7⟩
        (fragmentData opened frag) (.complete reassembled) after ∧
      8 + reassembled.tail.length ≤ oversizedLimits.maxReassembledSize ∧
      reassembledDatagram opened.ip opened.udp reassembled.udpLength reassembled.tail = .ok none ∧
      run (receive fun _ => 0) [(first, 0), (second, 0)] (.withLimits oversizedLimits) =
        .ok ([.ok .buffered, .ok .dropped], final) :=
  dropped_oversized List.length_replicate

end Oversized

end UdpOptions.Proofs
