import UdpOptions.Library.StableSort
import UdpOptions.Proofs.CheckedPackets

/-! The fragments of one send as the checker sees them. In any order of capture they are
sorted back into the order of the split, and they tile the tail of the split. The tail
ends with the per-datagram options, so that its end is the announced RDOS exactly when
no options were sent. -/

namespace UdpOptions.Proofs
open Library Model EvalCheck

section
variable {tail : List UInt8} {rdos : UInt16} {identification : UInt32} {ranges : List ChunkRange}

private theorem rangeRecord_offset (rdos : UInt16) (identification : UInt32) {range : ChunkRange}
    (inside : InTail tail.length 0 range) (word : 8 + tail.length < 2 ^ 16) :
    (rangeRecord tail false rdos identification range).offset = 8 + range.1 := by
  have ordered := inside.ordered
  have below := inside.below
  exact UInt16.toNat_ofNat_of_lt' (show 8 + range.1 < 2 ^ 16 by omega)

theorem Chunks.tiled {start : Nat} (chunks : Chunks tail.length start ranges)
    (inside : ∀ range ∈ ranges, InTail tail.length 0 range) (word : 8 + tail.length < 2 ^ 16) (port : Nat) :
    tileFrom port (8 + start) (ranges.map (rangeRecord tail false rdos identification)) =
      .ok (8 + tail.length) := by
  induction chunks with
  | @last start bound =>
    have here := inside _ (List.mem_singleton_self _)
    have length : (rangeRecord tail false rdos identification (start, tail.length, true)).data.length =
      tail.length - start := rangeData_length here
    rw [List.map_singleton, tileFrom, if_neg (not_not.mpr (rangeRecord_offset rdos identification here word)),
      tileFrom, length]
    congr 1
    omega
  | @more start stop ranges wide rest ih =>
    obtain ⟨here, later⟩ := List.forall_mem_cons.mp inside
    have length : (rangeRecord tail false rdos identification (start, stop, false)).data.length = stop - start :=
      rangeData_length here
    have next : 8 + start + (stop - start) = 8 + stop := by omega
    rw [List.map_cons, tileFrom, if_neg (not_not.mpr (rangeRecord_offset rdos identification here word)),
      length, next]
    exact ih later

theorem Chunks.increasing (chunks : Chunks tail.length 0 ranges) (word : 8 + tail.length < 2 ^ 16) :
    (ranges.map (rangeRecord tail false rdos identification)).Pairwise
      fun first second => first.offset < second.offset := by
  rw [List.pairwise_map]
  refine chunks.pairwise.imp_of_mem ?_
  intro first second memberFirst memberSecond precedes
  rw [rangeRecord_offset rdos identification (chunks.inTail first memberFirst) word,
    rangeRecord_offset rdos identification (chunks.inTail second memberSecond) word]
  have wide := precedes.2.1
  have below := precedes.2.2
  omega

/-- The checker finds one Identification in the fragments of a split, and compares the
announced RDOS with the end of the tail. -/
theorem checkSequence_chunks (chunks : Chunks tail.length 0 ranges) (several : 2 ≤ ranges.length)
    (word : 8 + tail.length < 2 ^ 16) {order : List ChunkRange} (shuffled : order.Perm ranges) (port : Nat) :
    checkSequence port (order.map (rangeRecord tail false rdos identification)) =
      if rdos.toNat ≠ 8 + tail.length then .error (.rdosMismatch port) else .ok identification.toNat := by
  have single : ((order.map (rangeRecord tail false rdos identification)).map
      fun fragment => fragment.identification).dedup = [identification.toNat] := by
    have constant : (order.map (rangeRecord tail false rdos identification)).map
        (fun fragment => fragment.identification) = List.replicate order.length identification.toNat := by
      rw [List.map_map]
      exact (List.map_congr_left fun _ _ => rfl).trans List.map_const'
    rw [constant, List.replicate_dedup]
    rw [shuffled.length_eq]
    omega
  have ordered : (order.map (rangeRecord tail false rdos identification)).insertionSort
      (fun first second => first.offset ≤ second.offset) = ranges.map (rangeRecord tail false rdos identification) :=
    insertionSort_of_perm (shuffled.map _) (chunks.increasing word)
  obtain ⟨initial, last, whole, others, terminal⟩ := chunks.last_terminal
  have terminals : (ranges.map (rangeRecord tail false rdos identification)).filter
      (fun fragment => fragment.rdos.isSome) = [rangeRecord tail false rdos identification last] := by
    have none : (initial.map (rangeRecord tail false rdos identification)).filter
        (fun fragment => fragment.rdos.isSome) = [] := by
      rw [List.filter_eq_nil_iff, List.forall_mem_map]
      intro range member
      simp [rangeRecord, fragmentRecord, rangeRdos, others range member]
    rw [whole, List.map_append, List.filter_append, none]
    simp [rangeRecord, fragmentRecord, rangeRdos, terminal]
  have announced : (ranges.map (rangeRecord tail false rdos identification)).getLast?.bind (fun last => last.rdos) =
      some rdos.toNat := by
    rw [whole, List.map_append]
    simp [rangeRecord, fragmentRecord, rangeRdos, terminal]
  have tiled : tileFrom port 8 (ranges.map (rangeRecord tail false rdos identification)) = .ok (8 + tail.length) :=
    chunks.tiled chunks.inTail word port
  unfold checkSequence
  rw [single]
  dsimp only
  rw [ordered, terminals, if_neg (not_not.mpr List.length_singleton), announced]
  dsimp only
  split
  next only same =>
    have length := congrArg List.length same
    rw [List.length_map, List.length_singleton] at length
    omega
  · rw [tiled]

end

section
variable {crc32c : List UInt8 → UInt32} {packetOf : ChunkRange → Packet}

private theorem parsePackets_map {readOf : ChunkRange → List ParsedOption × Option FragRecord} {order : List ChunkRange}
    (each : ∀ range ∈ order, (packetOf range).surplus ≠ [] ∧
      validateSurplus crc32c (packetOf range) = .ok (.ok (readOf range))) (port index : Nat) :
    parsePackets crc32c port index (order.map packetOf) = .ok (.ok (order.map readOf)) := by
  induction order generalizing index with
  | nil => rfl
  | cons range rest ih =>
    obtain ⟨⟨filled, validated⟩, later⟩ := List.forall_mem_cons.mp each
    rw [List.map_cons, parsePackets, if_neg (by simpa using filled), validated, Checked.ok_bind]
    dsimp only
    rw [ih later, Checked.ok_bind]
    rfl

private theorem validateSenderGroups_chunks {tail : List UInt8} {rdos : UInt16} {identification : UInt32}
    {ranges order : List ChunkRange} (chunks : Chunks tail.length 0 ranges) (several : 2 ≤ ranges.length)
    (word : 8 + tail.length < 2 ^ 16) (shuffled : order.Perm ranges) {optionsOf : ChunkRange → List ParsedOption}
    (each : ∀ range ∈ order, (packetOf range).surplus ≠ [] ∧ validateSurplus crc32c (packetOf range) =
      .ok (.ok (optionsOf range, some (rangeRecord tail false rdos identification range))))
    (port : Nat) (expectSurplusPorts : List Nat) :
    validateSenderGroups crc32c expectSurplusPorts [] [(port, order.map packetOf)] =
      if rdos.toNat ≠ 8 + tail.length then .ok (.error (.rdosMismatch port))
      else .ok (.ok [(port, identification.toNat)]) := by
  have fragments : (order.map fun range =>
      (optionsOf range, some (rangeRecord tail false rdos identification range))).filterMap Prod.snd =
      order.map (rangeRecord tail false rdos identification) := by
    rw [List.filterMap_map]
    exact List.filterMap_eq_map_iff_forall_eq_some.mpr fun _ _ => rfl
  have filled : ¬ ((port ∈ expectSurplusPorts : Bool) ∧
      (order.map packetOf).any (fun packet => packet.surplus = []) = true) := by
    rintro ⟨_, found⟩
    obtain ⟨packet, member, bare⟩ := List.any_eq_true.mp found
    obtain ⟨range, listed, rfl⟩ := List.mem_map.mp member
    exact (each range listed).1 (of_decide_eq_true bare)
  have nonempty : ¬ (order.map (rangeRecord tail false rdos identification)).isEmpty = true := by
    rw [List.isEmpty_iff, List.map_eq_nil_iff]
    intro empty
    rw [← shuffled.length_eq, empty] at several
    exact Nat.not_succ_le_zero _ several
  have paired : (order.map (rangeRecord tail false rdos identification)).length = (order.map packetOf).length := by
    rw [List.length_map, List.length_map]
  unfold validateSenderGroups validatePort
  rw [parsePackets_map each, Checked.ok_bind]
  dsimp only [List.lookup_nil]
  rw [fragments, if_neg filled, if_neg nonempty, if_neg (not_not.mpr paired),
    checkSequence_chunks chunks several word shuffled port]
  by_cases mismatch : rdos.toNat ≠ 8 + tail.length
  · rw [if_pos mismatch, if_pos mismatch]
    rfl
  · rw [if_neg mismatch, if_neg mismatch]
    rfl

end

def PacketsOf (datagrams : List (List UInt8)) (packets : List Packet) : Prop :=
  List.Forall₂ (fun datagram packet => Packet.new datagram = .ok (.ok packet)) datagrams packets

theorem PacketsOf.unique {datagrams : List (List UInt8)} {packets others : List Packet}
    (first : PacketsOf datagrams packets) (second : PacketsOf datagrams others) : packets = others := by
  refine List.right_unique_forall₂' ?_ first second
  intro datagram packet other read again
  rw [read] at again
  cases again
  rfl

/-- The checker takes datagrams in any order as the packets of one port, and finds the
Identification. -/
def SequenceAccepted (crc32c : List UInt8 → UInt32) (identification : UInt32) (datagrams : List (List UInt8)) : Prop :=
  ∀ (order : List (List UInt8)) (port : Nat) (expectSurplusPorts : List Nat), order.Perm datagrams →
    ∃ packets, PacketsOf order packets ∧
      validateSenderGroups crc32c expectSurplusPorts [] [(port, packets)] = .ok (.ok [(port, identification.toNat)])

/-- What the checker says to the datagrams of a split, in any order. -/
theorem split_judged (crc32c : List UInt8 → UInt32) {addrs : Api.DatagramAddrs} {maxDatagramLen : Nat}
    {tail : List UInt8} {rdos : UInt16} {identification : UInt32} {ranges : List ChunkRange}
    {datagrams order : List (List UInt8)} (chunks : Chunks tail.length 0 ranges) (several : 2 ≤ ranges.length)
    (word : 8 + tail.length < 2 ^ 16)
    (assembled : Api.assembleFragments addrs maxDatagramLen
      (ranges.map (rangeFragment tail false rdos identification)) = .ok (.ok datagrams))
    (arrivals : order.Perm datagrams) (port : Nat) (expectSurplusPorts : List Nat) :
    ∃ packets, PacketsOf order packets ∧
      validateSenderGroups crc32c expectSurplusPorts [] [(port, packets)] =
        if rdos.toNat ≠ 8 + tail.length then .ok (.error (.rdosMismatch port))
        else .ok (.ok [(port, identification.toNat)]) := by
  obtain ⟨rfl, each⟩ := assembleFragments_eq assembled
  have validated := fun range (member : range ∈ ranges) =>
    fragment_validated crc32c (each _ (List.mem_map_of_mem member))
  choose! packetOf read filled passed using validated
  rw [List.map_map] at arrivals
  obtain ⟨captured, rfl, shuffled⟩ : Relation.Comp (· = List.map _ ·) List.Perm order ranges := by
    rw [List.eq_map_comp_perm]
    exact arrivals
  refine ⟨captured.map packetOf, ?_, ?_⟩
  · rw [PacketsOf, List.forall₂_map_left_iff, List.forall₂_map_right_iff, List.forall₂_same]
    intro range member
    exact read range (shuffled.mem_iff.mp member)
  · have checked := fun range (member : range ∈ captured) =>
      And.intro (filled range (shuffled.mem_iff.mp member)) (passed range (shuffled.mem_iff.mp member))
    exact validateSenderGroups_chunks chunks several word shuffled checked port expectSurplusPorts

private theorem reassembledTail_payload_iff {crc32c : List UInt8 → UInt32} {payload body : List UInt8}
    {options : Api.SendOptions} (serialized : Api.optionsBody crc32c payload options = .ok body) :
    (Split.reassembledTail payload body).length = payload.length ↔
      options.includeApc = false ∧ options.rawOptions = [] := by
  have total := @reassembledTail_length payload body
  have none : Api.sentOptions crc32c payload options = [] ↔
      options.includeApc = false ∧ options.rawOptions = [] := by
    rw [Api.sentOptions, List.append_eq_nil_iff]
    cases options.includeApc <;> simp
  rw [← none]
  cases optionsBody_cases serialized with
  | inl bare =>
    obtain ⟨unsent, rfl⟩ := bare
    simp only [sentLen, List.length_nil, if_pos] at total
    exact iff_of_true (by omega) unsent
  | inr led =>
    have long := finish_led led.2
    refine iff_of_false ?_ led.1
    rw [sentLen, if_neg (by omega)] at total
    omega

/-- The checker accepts the fragments of a send exactly when no options were sent with it. -/
theorem sequence_accepted_iff (crc32c : List UInt8 → UInt32) {addrs : Api.DatagramAddrs} {payload : List UInt8}
    {options : Api.SendOptions} {config : Api.SendConfig} {datagrams : List (List UInt8)}
    (built : Api.buildOutgoingDatagrams crc32c addrs payload options config = .ok (.ok datagrams))
    (several : 2 ≤ datagrams.length) :
    (∃ identification, config.identification = some identification ∧
      SequenceAccepted crc32c identification datagrams) ↔
      options.includeApc = false ∧ options.rawOptions = [] := by
  cases buildOutgoingDatagrams_built built with
  | whole _ _ _ => exact absurd several (by simp)
  | @split body identification fragments datagrams accepted serialized named cut assembled =>
    obtain ⟨rdos, ranges, plan, rfl⟩ := splitDatagram_plan cut
    have many : 2 ≤ ranges.length := by
      rw [(assembleFragments_eq assembled).1, List.length_map, List.length_map] at several
      exact several
    have divided : decide (ranges.length = 1) = false := decide_eq_false (by omega)
    have word : 8 + (Split.reassembledTail payload body).length < 2 ^ 16 :=
      Nat.lt_of_le_of_lt plan.fits (UInt16.toNat_lt _)
    rw [divided] at assembled
    have judged := fun (order : List (List UInt8)) (arrivals : order.Perm datagrams) =>
      split_judged crc32c plan.chunks many word assembled arrivals
    rw [← reassembledTail_payload_iff serialized]
    constructor
    · rintro ⟨other, given, passes⟩
      obtain ⟨packets, read, verdict⟩ := judged datagrams (List.Perm.refl _) 0 []
      obtain ⟨others, again, passed⟩ := passes datagrams 0 [] (List.Perm.refl _)
      rw [again.unique read, verdict] at passed
      by_contra longer
      have mismatch : rdos.toNat ≠ 8 + (Split.reassembledTail payload body).length := by
        rw [plan.announced]
        omega
      rw [if_pos mismatch] at passed
      cases passed
    · intro bare
      refine ⟨identification, named, ?_⟩
      intro order port expectSurplusPorts arrivals
      obtain ⟨packets, read, verdict⟩ := judged order arrivals port expectSurplusPorts
      have announced : rdos.toNat = 8 + (Split.reassembledTail payload body).length := by
        rw [plan.announced, bare]
      rw [if_neg (not_not.mpr announced)] at verdict
      exact ⟨packets, read, verdict⟩

private def sequenceConfig : Api.SendConfig := ⟨58, ⟨2000, 9⟩, .auto, some 7⟩

/-- The IPv4 and UDP headers of a fragment whose datagram is `total` bytes long. -/
private def sequenceHeaders (total headerChecksum : UInt8) : List UInt8 :=
  [0x45, 0, 0, total, 0, 0, 0, 0, 0x40, 0x11, 0x66, headerChecksum, 10, 0, 0, 1, 10, 0, 0, 2,
    3, 0xe8, 7, 0xd0, 0, 8, 0xe0, 0x23]

private def sequencePacket (totalLen : Nat) (headers surplus : List UInt8) : Packet :=
  ⟨20, totalLen, headers ++ surplus, "10.0.0.1", "10.0.0.2", 1000, 2000, 8, 57379, [], surplus⟩

/-- A payload of 34 bytes, cut into two datagrams, is accepted in the reverse order. -/
theorem sequence_without_options_accepted :
    ∃ first second packets, Api.buildOutgoingDatagrams (fun _ => 0) checkedAddrs (List.replicate 34 1) ⟨[], false⟩
        sequenceConfig = .ok (.ok [first, second]) ∧
      PacketsOf [second, first] packets ∧
      validateSenderGroups (fun _ => 0) [] [] [(2000, packets)] = .ok (.ok [(2000, 7)]) := by
  have built : Api.buildOutgoingDatagrams (fun _ => 0) checkedAddrs (List.replicate 34 1) ⟨[], false⟩
      sequenceConfig = .ok (.ok [sequenceHeaders 0x3a 0xb1 ++ [0xf3, 0xab, 3, 10, 0, 20, 0, 0, 0, 7, 0, 8] ++
          List.replicate 18 1,
        sequenceHeaders 0x3a 0xb1 ++ [0xf4, 0x6c, 3, 12, 0, 22, 0, 0, 0, 7, 0, 26, 0, 42] ++
          List.replicate 16 1]) := by decide +kernel
  obtain ⟨identification, named, passes⟩ := (sequence_accepted_iff (fun _ => 0) built (by decide)).mpr ⟨rfl, rfl⟩
  cases named
  obtain ⟨packets, read, passed⟩ := passes _ 2000 [] (List.Perm.swap _ _ [])
  exact ⟨_, _, packets, built, read, passed⟩

private def firstCut : List UInt8 :=
  [0xf4, 0xae, 3, 10, 0, 20, 0, 0, 0, 7, 0, 8] ++ List.replicate 16 1

/-- The last eight payload bytes, RDOS 32, and behind them the sent MDS. -/
private def lastCut : List UInt8 :=
  [0xee, 0x9c, 3, 12, 0, 22, 0, 0, 0, 7, 0, 24, 0, 32] ++ List.replicate 8 1 ++ [0, 0, 4, 4, 5, 0xdc, 0, 0]

/-- A payload of 24 bytes sent with an MDS in two datagrams. The fragments end at 40, and the
checker expects them to end at the RDOS. -/
theorem sequence_with_mds_rejected :
    Api.buildOutgoingDatagrams (fun _ => 0) checkedAddrs (List.replicate 24 1) ⟨[⟨.mds, [5, 0xdc]⟩], false⟩
        sequenceConfig = .ok (.ok [sequenceHeaders 56 0xb3 ++ firstCut, sequenceHeaders 58 0xb1 ++ lastCut]) ∧
      PacketsOf [sequenceHeaders 56 0xb3 ++ firstCut, sequenceHeaders 58 0xb1 ++ lastCut]
        [sequencePacket 56 (sequenceHeaders 56 0xb3) firstCut, sequencePacket 58 (sequenceHeaders 58 0xb1) lastCut] ∧
      validateSenderGroups (fun _ => 0) [] [] [(2000, [sequencePacket 56 (sequenceHeaders 56 0xb3) firstCut,
        sequencePacket 58 (sequenceHeaders 58 0xb1) lastCut])] = .ok (.error (.rdosMismatch 2000)) := by
  refine ⟨by decide +kernel, ?_, by decide +kernel⟩
  exact .cons (by decide +kernel) (.cons (by decide +kernel) .nil)

end UdpOptions.Proofs
