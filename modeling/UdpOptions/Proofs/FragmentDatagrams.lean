import UdpOptions.Proofs.Assembly
import UdpOptions.Proofs.Reordering

/-! Fragment datagrams on the receive path. An assembled fragment is recognized as
the fragment it was cut as, its options area ends at Frag.Start, and feeding it to
the pipeline is one insertion into the cache. -/

namespace UdpOptions.Proofs
open Library Model

theorem rangeFragment_area (tail : List UInt8) (atomic : Bool) (rdos : UInt16) (identification : UInt32)
    (range : ChunkRange) :
    (rangeFragment tail atomic rdos identification range).surplusBody.drop 2 =
      Kind.frag :: fragLenByte (rangeRdos rdos range) ::
        (Split.fragValue (fragStartOf (rangeRdos rdos range)) identification
          (UInt16.ofNat (rangeOffset atomic range)) (rangeRdos rdos range) ++ rangeData tail range) := rfl

theorem fragment_limit (rdos : Option UInt16) (identification : UInt32) (fragOffset : UInt16) (data : List UInt8) :
    let value := Split.fragValue (fragStartOf rdos) identification fragOffset rdos
    let area := Kind.frag :: fragLenByte rdos :: (value ++ data)
    limitOf area.length 10 (itemsOf area) = .upTo (value.length + 2) := by
  intro value area
  obtain ⟨items, next⟩ := framed_exists data (0 + (fragLenByte rdos).toNat)
  have framed := framed_fragment 0 (fragStartOf rdos) identification fragOffset rdos next
  have length : value.length + 4 = Split.fragmentOptionsBodyLen rdos := fragValue_length _ _ _ _
  have starts := fragStartOf_toNat rdos
  have size : area.length = value.length + data.length + 2 := by simp [area]
  rw [framed.itemsOf_eq, limitOf]
  simp only [scanFrag, if_true, limitAt]
  rw [decode_fragValue]
  dsimp only
  rw [checkedSub_of_le (by omega)]
  dsimp only
  rw [if_neg]
  · congr 1
    omega
  · rw [not_or, Nat.not_lt, Nat.not_lt]
    refine ⟨by omega, ?_⟩
    show 2 + value.length ≤ _
    omega

private theorem fragment_parsed (crc32c : List UInt8 → UInt32) (rdos : Option UInt16) (identification : UInt32)
    (fragOffset : UInt16) (data : List UInt8) :
    parseArea crc32c (Kind.frag :: fragLenByte rdos ::
        (Split.fragValue (fragStartOf rdos) identification fragOffset rdos ++ data)) [] 10 =
      .ok ⟨[], [], some ⟨fragStartOf rdos, identification, fragOffset, rdos⟩, false, false⟩ := by
  have framed := framed_fragment 0 (fragStartOf rdos) identification fragOffset rdos (Framed.done)
  rw [parseArea, if_pos List.isEmpty_nil, fragment_limit]
  dsimp only
  rw [List.take_succ_cons, List.take_succ_cons, List.take_left]
  rw [List.append_nil] at framed
  rw [framed.itemsOf_eq]
  have proper : rejectSubMinimum ⟨.frag, Split.fragValue (fragStartOf rdos) identification fragOffset rdos, some 2⟩ =
      .ok () := by cases rdos <;> rfl
  simp [optionLoop, optionStep, proper, OptionState.initial, decode_fragValue, OptionState.markSeen,
    OptionState.finished]

theorem fragmentData_sent {opened : Opened} {src dst : Ipv4Addr} {srcPort dstPort : UInt16} {body data : List UInt8}
    {frag : Frag} (sent : Sent opened src dst srcPort dstPort [] (body ++ data)) (led : 2 ≤ body.length)
    (stop : frag.fragStart.toNat = 8 + body.length) : fragmentData opened frag = data := by
  have long : 2 ≤ (body ++ data).length := by
    rw [List.length_append]
    omega
  have position : opened.udpAt + frag.fragStart.toNat = 28 + (2 + (body.drop 2).length) := by
    rw [sent.offset, stop, List.length_drop]
    omega
  have behind : (sentBody [] (body ++ data)).drop 2 = body.drop 2 ++ data := by
    rw [sentBody, sentSurplus_full _ long, ← List.drop_append_of_le_length led]
    rfl
  rw [fragmentData, position, ← List.drop_drop, sent.datagram, ← List.drop_drop, behind]
  exact List.drop_left

/-- The options area of an assembled datagram without user data starts ten bytes behind
its UDP header. -/
theorem Sent.area_behind {opened : Opened} {src dst : Ipv4Addr} {srcPort dstPort : UInt16} {body data : List UInt8}
    (sent : Sent opened src dst srcPort dstPort [] (body ++ data)) (led : 2 ≤ body.length) :
    optionsArea opened = body.drop 2 ++ data ∧ ocsStart opened + 2 - opened.udpAt = 10 := by
  constructor
  · rw [sent.area, List.drop_append_of_le_length led]
  · rw [ocsStart, surplusPad, sent.start, sent.offset]
    rfl

def settled (crc32c : List UInt8 → UInt32) (opened : Opened) (outcome : ReassemblyOutcome) (after : ReassemblyCache) :
    Delivery × ReassemblyCache :=
  match outcome with
  | .incomplete => (.buffered, after)
  | .abort _ => (.dropped, after)
  | .complete reassembled => handOn crc32c opened reassembled after

theorem processDatagram_settled {crc32c : List UInt8 → UInt32} {opened : Opened} {frag : Frag} {key : Option FragKey}
    {options : List RawOption} {reports : List OptionReport} {status : OcsStatus}
    (opening : openDatagram opened.datagram = .ok (.ok opened))
    (disposed : dispositionOf crc32c opened = .fragment frag key options reports status) (cache : ReassemblyCache)
    (now : Nat) :
    let insertion := insertionOf opened frag options reports status now
    let result := settled crc32c opened (insertion.fed cache).1 (insertion.after cache)
    processDatagram crc32c opened.datagram cache now = .ok (.ok result.1, result.2) := by
  intro insertion result
  rw [processDatagram_opened crc32c opening, handled, disposed]
  rfl

section
variable {opened : Opened} {src dst : Ipv4Addr} {srcPort dstPort : UInt16} {tail : List UInt8} {atomic : Bool}
  {rdos : UInt16} {identification : UInt32} {range : ChunkRange}

theorem rangeFragment_led (tail : List UInt8) (atomic : Bool) (rdos : UInt16) (identification : UInt32)
    (range : ChunkRange) : 2 ≤ (rangeFragment tail atomic rdos identification range).surplusBody.length := by
  exact Nat.le_add_left 2 _

theorem fragmentData_range
    (sent : Sent opened src dst srcPort dstPort [] (rangeFragment tail atomic rdos identification range).surplusBody) :
    fragmentData opened (rangeFrag atomic rdos identification range) = rangeData tail range := by
  apply fragmentData_sent sent
  · exact Nat.le_add_left 2 _
  · rw [fragmentOptionsBody_length, rangeFrag, fragStartOf_toNat]

/-- An assembled fragment is taken as the fragment it was cut as. -/
theorem dispositionOf_range (crc32c : List UInt8 → UInt32)
    (sent : Sent opened src dst srcPort dstPort [] (rangeFragment tail atomic rdos identification range).surplusBody) :
    dispositionOf crc32c opened =
      .fragment (rangeFrag atomic rdos identification range) (some ⟨src, dst, srcPort, dstPort, identification⟩) [] []
        .valid := by
  obtain ⟨well, _⟩ := openDatagram_well sent.opening
  have trusted := sent.trusted (rangeFragment_led tail atomic rdos identification range)
  obtain ⟨_, offset⟩ := sent.area_behind (Nat.le_add_left 2 _)
  have parsed : parsedArea crc32c opened =
      .ok ⟨[], [], some (rangeFrag atomic rdos identification range), false, false⟩ := by
    rw [parsedArea, offset, sent.userData, sent.area, rangeFragment_area]
    exact fragment_parsed crc32c _ _ _ _
  rw [dispositionOf_trusted crc32c well trusted, parsed]
  simp only [disposeParsed, sent.userData]
  rw [← sent.source, ← sent.destination, ← sent.srcPort, ← sent.dstPort]
  rfl

/-- Receiving an assembled fragment is the arrival of its range at the cache. -/
theorem receive_range (crc32c : List UInt8 → UInt32)
    (sent : Sent opened src dst srcPort dstPort [] (rangeFragment tail false rdos identification range).surplusBody)
    {cache after : ReassemblyCache} {now : Nat} {outcome : ReassemblyOutcome}
    (arrived : arriveRange ⟨src, dst, srcPort, dstPort, identification⟩ identification tail rdos (some true)
      (range, now) cache = .ok (outcome, after)) :
    receive crc32c (opened.datagram, now) cache =
      .ok (.ok (settled crc32c opened outcome after).1, (settled crc32c opened outcome after).2) := by
  have inserted : arriveRange ⟨src, dst, srcPort, dstPort, identification⟩ identification tail rdos (some true)
      (range, now) cache =
        .ok (((insertionOf opened (rangeFrag false rdos identification range) [] [] .valid now).fed cache).1,
          (insertionOf opened (rangeFrag false rdos identification range) [] [] .valid now).after cache) := by
    rw [arriveRange, insertWithOptionsAndFailures_eq, ← fragmentData_range sent, ← sent.source, ← sent.destination,
      ← sent.srcPort, ← sent.dstPort]
    rfl
  rw [inserted, Except.ok.injEq, Prod.mk.injEq] at arrived
  have settles := processDatagram_settled sent.opening (dispositionOf_range crc32c sent) cache now
  dsimp only at settles
  rw [arrived.1, arrived.2] at settles
  exact settles

end

/-- The fragments of a split sent as datagrams: every call buffers its fragment
until the last missing one, whose call hands on the whole tail. -/
theorem fragment_run (crc32c : List UInt8 → UInt32) {tail : List UInt8} {rdos : UInt16} {identification : UInt32}
    {ranges : List ChunkRange} {cache : ReassemblyCache} {src dst : Ipv4Addr} {srcPort dstPort : UInt16}
    {openedOf : ChunkRange → Opened} {before : List (ChunkRange × Nat)} {last : ChunkRange × Nat}
    (sent : ∀ range ∈ ranges, Sent (openedOf range) src dst srcPort dstPort []
      (rangeFragment tail false rdos identification range).surplusBody)
    (splitting : Splitting cache.limits tail rdos ranges) (several : 2 ≤ ranges.length)
    (arrivals : ((before ++ [last]).map Prod.fst).Perm ranges)
    (timely : Timely cache.limits ((before ++ [last]).map Prod.snd))
    (absent : cache.partials.lookup ⟨src, dst, srcPort, dstPort, identification⟩ = none)
    (free : cache.len < cache.limits.maxPendingPartials) :
    ∃ after, after.partials.lookup ⟨src, dst, srcPort, dstPort, identification⟩ = none ∧
      run (receive crc32c) ((before ++ [last]).map fun arrival => ((openedOf arrival.1).datagram, arrival.2)) cache =
        .ok (before.map (fun _ => .ok .buffered) ++
            [.ok (handOn crc32c (openedOf last.1) ⟨tail, rdos, [], [], some true⟩ after).1],
          (handOn crc32c (openedOf last.1) ⟨tail, rdos, [], [], some true⟩ after).2) := by
  have members : ∀ arrival ∈ before ++ [last], arrival.1 ∈ ranges :=
    fun arrival listed => arrivals.subset (List.mem_map_of_mem listed)
  have all : ∀ other ∈ ranges, ∃ arrival ∈ before ++ [last], arrival.1 = other := by
    intro other member
    obtain ⟨arrival, listed, same⟩ := List.mem_map.mp (arrivals.symm.subset member)
    exact ⟨arrival, listed, same⟩
  have distinct : ((before ++ [last]).map Prod.fst).Nodup := arrivals.nodup_iff.mpr splitting.chunks.nodup
  have missing : ∃ other ∈ ranges, ∀ arrival ∈ before, arrival.1 ≠ other := by
    refine ⟨last.1, members last (by simp), fun arrival listed same => ?_⟩
    rw [List.map_append] at distinct
    exact List.disjoint_of_nodup_append distinct (List.mem_map_of_mem listed) (by simp [same])
  obtain ⟨after, executed, gone⟩ :=
    gather_run (some true) identification splitting several members timely all missing absent free
  rw [run_concat] at executed
  obtain ⟨⟨outcomes, middle⟩, gathered, executed⟩ := Checked.bind_eq_ok.mp executed
  obtain ⟨⟨outcome, final⟩, arrived, executed⟩ := Checked.bind_eq_ok.mp executed
  have results := Except.ok.inj executed
  rw [Prod.mk.injEq] at results
  obtain ⟨outputs, rfl⟩ := results
  obtain ⟨rfl, completed⟩ := List.append_inj' outputs rfl
  obtain rfl := List.singleton_inj.mp completed
  have buffered := run_map (receive crc32c)
    (fun arrival : ChunkRange × Nat => ((openedOf arrival.1).datagram, arrival.2))
    (fun _ => .ok .buffered) (fun outcome => outcome = .incomplete)
    (fun arrival listed state outcome next incomplete arrived => by
      rw [incomplete] at arrived
      exact receive_range crc32c (sent arrival.1 (members arrival (List.mem_append_left _ listed))) arrived)
    gathered (by simp)
  refine ⟨final, gone, ?_⟩
  rw [List.map_append, List.map_singleton, run_concat, buffered]
  simp only [Checked.ok_bind, receive_range crc32c (sent last.1 (members last (by simp))) arrived, List.map_map]
  rfl

end UdpOptions.Proofs
