import UdpOptions.Proofs.SendPath

/-! The round trip of a fragmented send. The datagrams of one logical send may
arrive in any order; the last of them delivers the payload with its options, and
the rebuilt datagram carries no checksum and an unused OCS. -/

namespace UdpOptions.Proofs
open Library Model

private theorem reassembledTail_full (payload : List UInt8) {body : List UInt8} (nonempty : body ≠ []) :
    Split.reassembledTail payload body = payload ++ (List.replicate (payload.length % 2) 0 ++ body) := by
  rw [reassembledTail_eq, List.append_assoc]
  rcases Nat.mod_two_eq_zero_or_one payload.length with even | odd
  · rw [if_neg (fun both => by omega), even]
    rfl
  · rw [if_pos ⟨nonempty, by omega⟩, odd]
    rfl

section
variable (crc32c : List UInt8 → UInt32) (opened : Opened) {payload : List UInt8} {reassembled : Reassembled}

theorem dispositionOf_rebuilt_bare (whole : reassembled.tail = payload)
    (announced : reassembled.udpLength.toNat = 8 + payload.length) (small : 28 + payload.length < 2 ^ 16) :
    dispositionOf crc32c (rebuiltOpened opened reassembled) =
      .deliver (deliverWithoutOptions payload false .absent) := by
  have fits : Rebuildable reassembled := ⟨by omega, by rw [whole]; omega, by rw [whole]; exact small⟩
  obtain ⟨well, _⟩ := openDatagram_well (open_rebuilt opened fits)
  have userData : (rebuiltOpened opened reassembled).userData = payload := by
    show reassembled.tail.take (reassembled.udpLength.toNat - 8) = payload
    rw [whole]
    exact List.take_of_length_le (by omega)
  rw [dispositionOf_absent crc32c well, userData]
  show 28 + reassembled.tail.length < 20 + reassembled.udpLength.toNat + _ + 2
  rw [whole]
  omega

theorem dispositionOf_rebuilt_serialized {sent : List RawOption} {body : List UInt8} (noFrag : NoFrag sent)
    (finished : Serialize.finish sent = .ok body) (whole : reassembled.tail = Split.reassembledTail payload body)
    (announced : reassembled.udpLength.toNat = 8 + payload.length)
    (small : sentLen payload.length body.length < 2 ^ 16) :
    dispositionOf crc32c (rebuiltOpened opened reassembled) =
      .deliver ⟨payload, deliveredOptions crc32c payload sent, true, deliveredReports crc32c payload sent,
        [⟨.unused, .datagram⟩]⟩ := by
  obtain ⟨sendable, emitted⟩ := finish_emits noFrag finished
  obtain ⟨area, items, rfl, _, _⟩ := emitFrom_framed
    (fun option member => sendable option ((List.mem_insertionSort _).mp member)) emitted 0
  rw [← reassembledTail_length, ← whole] at small
  rw [reassembledTail_full payload (show [0, 0] ++ area ≠ [] by simp)] at whole
  have length : reassembled.tail.length = payload.length + (payload.length % 2 + (2 + area.length)) := by
    rw [whole]
    simp
    omega
  have fits : Rebuildable reassembled := ⟨by omega, by omega, small⟩
  obtain ⟨well, _⟩ := openDatagram_well (open_rebuilt opened fits)
  have start : surplusStart (rebuiltOpened opened reassembled) = 28 + payload.length := by
    show 20 + reassembled.udpLength.toNat = _
    omega
  have behind : (rebuiltOpened opened reassembled).datagram.drop (28 + payload.length) =
      List.replicate (payload.length % 2) 0 ++ ([0, 0] ++ area) := by
    rw [← List.drop_drop]
    show reassembled.tail.drop payload.length = _
    rw [whole]
    exact List.drop_left
  have position : ocsStart (rebuiltOpened opened reassembled) = 28 + payload.length + payload.length % 2 := by
    rw [ocsStart, surplusPad, start]
    omega
  have body : surplusBody (rebuiltOpened opened reassembled) = [0, 0] ++ area := by
    rw [surplusBody, position, ← List.drop_drop, behind]
    exact List.drop_left' List.length_replicate
  have trusted : Trusted (rebuiltOpened opened reassembled) .unused := by
    refine ⟨?_, ?_, .inr ⟨rfl, ?_⟩⟩
    · rw [position]
      show _ ≤ 28 + reassembled.tail.length
      omega
    · intro odd
      rw [surplusPad, start] at odd
      rw [start, ← Nat.add_zero (28 + payload.length), ← List.getElem?_drop, behind,
        show payload.length % 2 = 1 by omega]
      rfl
    · rw [ocsVerdict, body]
      rfl
  have userData : (rebuiltOpened opened reassembled).userData = payload := by
    show reassembled.tail.take (reassembled.udpLength.toNat - 8) = payload
    rw [whole, announced, Nat.add_sub_cancel_left, List.take_left]
  obtain ⟨_, parsed⟩ := parseArea_serialized crc32c noFrag finished payload
    (ocsStart (rebuiltOpened opened reassembled) + 2 - (rebuiltOpened opened reassembled).udpAt)
  rw [dispositionOf_trusted crc32c well trusted, parsedArea, optionsArea, body, userData, parsed]
  simp [disposeParsed, userData]

theorem handOn_deliver {delivered : Payload} (fits : Rebuildable reassembled)
    (disposed : dispositionOf crc32c (rebuiltOpened opened reassembled) = .deliver delivered)
    (cache : ReassemblyCache) :
    handOn crc32c opened reassembled cache = (.payload (mergeReassembled reassembled delivered), cache) := by
  rw [handOn, if_pos fits, disposed, refed]

private theorem handOn_sent {options : Api.SendOptions} {body : List UInt8}
    (accepted : Api.validateSendOptions options = .ok ())
    (serialized : Api.optionsBody crc32c payload options = .ok body)
    (whole : reassembled.tail = Split.reassembledTail payload body)
    (announced : reassembled.udpLength.toNat = 8 + payload.length)
    (small : sentLen payload.length body.length < 2 ^ 16) (plain : reassembled.fragmentOptions = [])
    (sound : reassembled.fragmentOptionFailures = []) (cache : ReassemblyCache) :
    ∃ delivered, handOn crc32c opened reassembled cache = (.payload delivered, cache) ∧ delivered.data = payload ∧
      delivered.options = reportableOptions crc32c payload (Api.sentOptions crc32c payload options) ∧
      delivered.ocsReports = [⟨fragmentSetStatus reassembled.fragmentOcsNonzero, .fragmentSet⟩,
        ⟨if Api.sentOptions crc32c payload options = [] then .absent else .unused, .datagram⟩] := by
  obtain ⟨noFrag, unrepeated⟩ := validateSendOptions_sent crc32c payload accepted
  have length := @reassembledTail_length payload body
  rw [← whole] at length
  have longer : payload.length ≤ reassembled.tail.length := by
    unfold sentLen at length
    omega
  have fits : Rebuildable reassembled := ⟨by omega, by omega, by omega⟩
  rcases optionsBody_cases serialized with ⟨empty, rfl⟩ | ⟨nonempty, finished⟩
  · rw [show Split.reassembledTail payload [] = payload by simp [Split.reassembledTail]] at whole
    refine ⟨_, handOn_deliver crc32c opened fits
      (dispositionOf_rebuilt_bare crc32c opened whole announced (by rw [← whole]; omega)) cache, ?_⟩
    rw [empty, mergeReassembled, plain, sound]
    exact ⟨rfl, rfl, rfl⟩
  · refine ⟨_, handOn_deliver crc32c opened fits
      (dispositionOf_rebuilt_serialized crc32c opened noFrag finished whole announced small) cache, ?_⟩
    rw [mergeReassembled, plain, sound, if_neg nonempty, deliveredOptions_unrepeated crc32c payload noFrag unrepeated]
    exact ⟨rfl, rfl, rfl⟩

/-- A send that takes several datagrams is split, and each fragment is assembled. -/
theorem buildOutgoingDatagrams_split {addrs : Api.DatagramAddrs} {options : Api.SendOptions} {config : Api.SendConfig}
    {datagrams : List (List UInt8)} {body : List UInt8} {identification : UInt32}
    (built : Api.buildOutgoingDatagrams crc32c addrs payload options config = .ok (.ok datagrams))
    (several : 2 ≤ datagrams.length) (serialized : Api.optionsBody crc32c payload options = .ok body)
    (named : config.identification = some identification) :
    Api.validateSendOptions options = .ok () ∧
      ∃ budget fragments, Split.splitDatagram payload body ⟨budget, config.peer, identification⟩ = .ok (.ok fragments) ∧
        Api.assembleFragments addrs config.maxDatagramLen fragments = .ok (.ok datagrams) := by
  cases buildOutgoingDatagrams_built built with
  | whole _ _ _ => exact absurd several (by simp)
  | split accepted own given cut assembled =>
    cases serialized.symm.trans own
    cases named.symm.trans given
    exact ⟨accepted, _, _, cut, assembled⟩

end

private theorem ranges_of_datagrams {ranges : List ChunkRange} {datagramOf : ChunkRange → List UInt8}
    {before : List (List UInt8 × Nat)} {last : List UInt8 × Nat}
    (arrivals : ((before ++ [last]).map Prod.fst).Perm (ranges.map datagramOf)) :
    ∃ (early : List (ChunkRange × Nat)) (final : ChunkRange × Nat),
      ((early ++ [final]).map Prod.fst).Perm ranges ∧
      before = early.map (fun origin => (datagramOf origin.1, origin.2)) ∧ last = (datagramOf final.1, final.2) := by
  obtain ⟨order, same, shuffled⟩ : Relation.Comp (· = List.map datagramOf ·) List.Perm
      ((before ++ [last]).map Prod.fst) ranges := by
    rw [List.eq_map_comp_perm]
    exact arrivals
  have length : order.length = (before ++ [last]).length := by
    rw [← List.length_map datagramOf, ← same, List.length_map]
  have rebuilt : before ++ [last] = (order.zip ((before ++ [last]).map Prod.snd)).map
      fun origin => (datagramOf origin.1, origin.2) := by
    conv_lhs => rw [← List.zip_unzip (before ++ [last]), List.unzip_eq_map, same]
    exact List.zip_map_left
  generalize paired : order.zip ((before ++ [last]).map Prod.snd) = origins at rebuilt
  have firsts : origins.map Prod.fst = order := by
    rw [← paired]
    exact List.map_fst_zip (by simp [length])
  obtain ⟨early, rest, rfl, front, back⟩ := List.map_eq_append_iff.mp rebuilt.symm
  obtain ⟨final, rfl, only⟩ := List.map_eq_singleton_iff.mp back
  exact ⟨early, final, firsts ▸ shuffled, front.symm, only.symm⟩

/-- The datagrams of one fragmented send, received in any order, are buffered until
the last one, which delivers the payload with the reportable options that were
sent; no partial is left behind. -/
theorem fragmented_round_trip (crc32c : List UInt8 → UInt32) {addrs : Api.DatagramAddrs} {payload body : List UInt8}
    {options : Api.SendOptions} {config : Api.SendConfig} {identification : UInt32} {datagrams : List (List UInt8)}
    (named : config.identification = some identification)
    (built : Api.buildOutgoingDatagrams crc32c addrs payload options config = .ok (.ok datagrams))
    (several : 2 ≤ datagrams.length) (serialized : Api.optionsBody crc32c payload options = .ok body)
    (small : sentLen payload.length body.length ≤ 65535)
    {before : List (List UInt8 × Nat)} {last : List UInt8 × Nat}
    (arrivals : ((before ++ [last]).map Prod.fst).Perm datagrams) {cache : ReassemblyCache}
    (size : config.peer.maxReassembledSize.toNat ≤ cache.limits.maxReassembledSize)
    (segments : config.peer.maxSegments.toNat ≤ cache.limits.maxSegments)
    (absent : cache.partials.lookup ⟨addrs.src, addrs.dst, addrs.srcPort, addrs.dstPort, identification⟩ = none)
    (free : cache.len < cache.limits.maxPendingPartials)
    (timely : Timely cache.limits ((before ++ [last]).map Prod.snd)) :
    ∃ delivered after,
      run (receive crc32c) (before ++ [last]) cache =
        .ok (before.map (fun _ => .ok .buffered) ++ [.ok (.payload delivered)], after) ∧
      delivered.data = payload ∧
      delivered.options = reportableOptions crc32c payload (Api.sentOptions crc32c payload options) ∧
      delivered.ocsReports = [⟨.valid, .fragmentSet⟩,
        ⟨if Api.sentOptions crc32c payload options = [] then .absent else .unused, .datagram⟩] ∧
      after.partials.lookup ⟨addrs.src, addrs.dst, addrs.srcPort, addrs.dstPort, identification⟩ = none := by
  obtain ⟨accepted, budget, fragments, emitted, assembled⟩ :=
    buildOutgoingDatagrams_split crc32c built several serialized named
  obtain ⟨rdos, ranges, plan, rfl⟩ := splitDatagram_plan emitted
  obtain ⟨openedOf, rfl, sent⟩ := assembleFragments_sent assembled
  have splitting := Splitting.of_plan plan size segments
  rw [List.length_map] at several
  have whole : decide (ranges.length = 1) = false := decide_eq_false (by omega)
  rw [whole] at sent
  obtain ⟨early, final, shuffled, rfl, rfl⟩ := ranges_of_datagrams arrivals
  have joined : early.map (fun origin => ((openedOf origin.1).datagram, origin.2)) ++
      [((openedOf final.1).datagram, final.2)] =
      (early ++ [final]).map fun origin => ((openedOf origin.1).datagram, origin.2) := by simp
  rw [joined] at timely ⊢
  obtain ⟨after, gone, executed⟩ := fragment_run crc32c sent splitting several shuffled
    (by simpa [Function.comp_def] using timely) absent free
  obtain ⟨delivered, handed, data, visible, confirmed⟩ := @handOn_sent crc32c (openedOf final.1) payload
    ⟨Split.reassembledTail payload body, rdos, [], [], some true⟩ options body accepted serialized rfl plan.announced
    (Nat.lt_succ_of_le small) rfl rfl after
  refine ⟨delivered, after, ?_, data, visible, confirmed, gone⟩
  rw [executed, handed, List.map_map]
  rfl

private def splitAddrs : Api.DatagramAddrs := ⟨⟨10, 0, 0, 1⟩, ⟨10, 0, 0, 2⟩, 1000, 2000⟩

private def splitPayload : List UInt8 := List.replicate 15 1

/-- An automatic APC and an MDS, sent in datagrams of at most 56 bytes. -/
private def splitOptions : Api.SendOptions := ⟨[⟨.mds, [5, 220]⟩], true⟩

private def splitSend : Api.SendConfig := ⟨56, .defaultIpv4, .auto, some 7⟩

/-- Two datagrams that arrive in reverse order. -/
theorem fragmented_round_trip_reversed :
    ∃ first second delivered after,
      Api.buildOutgoingDatagrams (fun _ => 0) splitAddrs splitPayload splitOptions splitSend =
        .ok (.ok [first, second]) ∧
      run (receive fun _ => 0) [(second, 0), (first, 5)] (.withLimits .default) =
        .ok ([.ok .buffered, .ok (.payload delivered)], after) ∧
      delivered.data = splitPayload ∧
      delivered.options = [⟨.apc, [0, 0, 0, 0]⟩, ⟨.mds, [5, 220]⟩] ∧
      delivered.ocsReports = [⟨.valid, .fragmentSet⟩, ⟨.unused, .datagram⟩] := by
  have builds : (Api.buildOutgoingDatagrams (fun _ => 0) splitAddrs splitPayload splitOptions
      splitSend).toOption.any (fun result => result.toOption.any fun datagrams => datagrams.length = 2) = true := by
    decide +kernel
  match built : Api.buildOutgoingDatagrams (fun _ => 0) splitAddrs splitPayload splitOptions splitSend with
  | .error fault => simp [built, Except.toOption] at builds
  | .ok (.error error) => simp [built, Except.toOption] at builds
  | .ok (.ok datagrams) =>
    have two : datagrams.length = 2 := by simpa [built, Except.toOption] using builds
    obtain ⟨first, second, rfl⟩ := List.length_eq_two.mp two
    have serialized : ∃ body, Api.optionsBody (fun _ => 0) splitPayload splitOptions = .ok body ∧
        sentLen 15 body.length ≤ 65535 := ⟨_, rfl, by decide⟩
    obtain ⟨body, serialized, small⟩ := serialized
    obtain ⟨delivered, after, executed, data, options, confirmed, _⟩ :=
      @fragmented_round_trip (fun _ => 0) splitAddrs splitPayload body splitOptions splitSend 7
        [first, second] rfl built (Nat.le_refl 2) serialized small [(second, 0)] (first, 5) (List.Perm.swap _ _ _)
        (.withLimits .default) (by decide) (by decide) rfl (by decide)
        (show Timely .default [0, 5] by unfold Timely; decide)
    exact ⟨first, second, delivered, after, rfl, executed, data, options.trans (by decide +kernel), confirmed⟩

end UdpOptions.Proofs
