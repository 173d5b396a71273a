import UdpOptions.Proofs.AlteredData
import UdpOptions.Proofs.CheckedPackets

/-! Packets that the checker accepts. A capture record that the checker takes for a packet
opens in the receive pipeline, with the same lengths, the same user data and the same
surplus area. -/

namespace UdpOptions.Proofs
open Library Model EvalCheck

/-- What the constructor has tested before it comes to the UDP header. -/
structure Constructed (raw : List UInt8) (packet : Packet) (first : UInt8) (ihl totalLen : Nat) : Prop where
  byte : raw[0]? = some first
  version : first >>> 4 = 4
  header : ihl = (first &&& 0x0f).toNat * 4
  least : 20 ≤ ihl
  announced : totalLen = intFromBytes (slice raw 2 4)
  inside : totalLen ≤ raw.length
  checksum : fold16 (raw.take ihl) [] = 0xffff
  protocol : raw[9]? = some 17
  room : ihl + 8 ≤ totalLen
  built : Packet.ofUdp (raw.take totalLen) ihl totalLen = .ok packet

theorem index_eq_ok {items : List UInt8} {position : Nat} {item : UInt8} :
    Checked.index items position = .ok item ↔ items[position]? = some item := by
  unfold Checked.index
  split
  next found => simp [found]
  next missing => simp [missing]

private theorem new_constructed {raw : List UInt8} {packet : Packet} (built : Packet.new raw = .ok (.ok packet)) :
    ∃ first ihl totalLen, Constructed raw packet first ihl totalLen := by
  unfold Packet.new at built
  split at built
  · cases built
  obtain ⟨first, byte, built⟩ := Checked.bind_eq_ok.mp built
  split at built
  · cases built
  next version =>
  split at built
  · cases built
  next long =>
  dsimp only at built
  split at built
  · cases built
  next proper =>
  split at built
  · cases built
  next lengths =>
  split at built
  · cases built
  next checksum =>
  obtain ⟨protocol, number, built⟩ := Checked.bind_eq_ok.mp built
  split at built
  · cases built
  next udp =>
  split at built
  · cases built
  next room =>
  split at built
  · cases built
  push Not at proper lengths
  have front : (raw.take (intFromBytes (slice raw 2 4))).take ((first &&& 0x0f).toNat * 4) =
      raw.take ((first &&& 0x0f).toNat * 4) := by
    rw [List.take_take, Nat.min_eq_left lengths.1]
  rw [front] at checksum
  rw [index_eq_ok, List.getElem?_take_of_lt (by omega), not_not.mp udp] at number
  exact ⟨first, _, _, index_eq_ok.mp byte, not_not.mp version, rfl, proper.1, rfl, lengths.2, not_not.mp checksum, number,
    Nat.le_of_not_lt room, Except.ok.inj built⟩

theorem Constructed.ipParsed {raw : List UInt8} {packet : Packet} {first : UInt8} {ihl totalLen : Nat}
    (taken : Constructed raw packet first ihl totalLen) :
    ∃ ip, IpRepr.parse raw = .ok (ip, ihl) ∧ ip.totalLen.toNat = totalLen ∧
      slice raw 12 20 = ip.src.toList ++ ip.dst.toList := by
  obtain ⟨byte, version, header, least, announced, inside, checksum, protocol, room, _⟩ := taken
  have summed : internetChecksum (raw.take ihl) = 0 := by
    rw [fold16_eq, List.sum_nil, Nat.add_zero] at checksum
    apply UInt16.toNat_inj.mp
    rw [internetChecksum_toNat, checksum]
    rfl
  rcases raw with _ | ⟨b0, _ | ⟨b1, _ | ⟨b2, _ | ⟨b3, _ | ⟨b4, _ | ⟨b5, _ | ⟨b6, _ | ⟨b7, _ | ⟨b8, _ | ⟨b9, _ | ⟨b10,
    _ | ⟨b11, _ | ⟨b12, _ | ⟨b13, _ | ⟨b14, _ | ⟨b15, _ | ⟨b16, _ | ⟨b17, _ | ⟨b18, _ | ⟨b19, rest⟩⟩⟩⟩⟩⟩⟩⟩⟩⟩⟩⟩⟩⟩⟩⟩⟩⟩⟩⟩
  rotate_right
  · cases byte
    cases protocol
    have total : intFromBytes (slice (first :: b1 :: b2 :: b3 :: b4 :: b5 :: b6 :: b7 :: b8 :: 17 :: b10 :: b11 :: b12 ::
        b13 :: b14 :: b15 :: b16 :: b17 :: b18 :: b19 :: rest) 2 4) = (u16OfBe b2 b3).toNat := intFromBytes_pair b2 b3
    refine ⟨⟨⟨b12, b13, b14, b15⟩, ⟨b16, b17, b18, b19⟩, first &&& 0x0f, u16OfBe b2 b3⟩, ?_, ?_, rfl⟩
    · rw [total] at announced
      have five : ¬ first &&& 0x0f < 5 := by
        rw [UInt8.lt_iff_toNat_lt]
        intro below
        have : (5 : UInt8).toNat = 5 := rfl
        omega
      rw [IpRepr.parse, if_pos version, IpRepr.parseV4]
      dsimp only
      rw [if_neg five, ← header, if_neg (by omega), if_neg (by omega), if_neg (by decide),
        if_neg (not_not.mpr summed)]
    · exact total.symm.trans announced.symm
  all_goals
    simp only [List.length_cons, List.length_nil] at inside
    omega

private theorem ofUdp_read {raw : List UInt8} {packet : Packet} {ip : IpRepr} {ihl totalLen : Nat}
    (built : Packet.ofUdp (raw.take totalLen) ihl totalLen = .ok packet) (inside : totalLen ≤ raw.length)
    (room : ihl + 8 ≤ totalLen) (addresses : slice raw 12 20 = ip.src.toList ++ ip.dst.toList) (least : 20 ≤ ihl) :
    ∃ udp, UdpHeader.parse ((raw.take totalLen).drop ihl) = .ok udp ∧ ihl + udp.length.toNat ≤ totalLen ∧
      (udp.checksum ≠ 0 → { udp with checksum := 0 : UdpHeader }.computeChecksum ip
        ((raw.take (ihl + udp.length.toNat)).drop (ihl + 8)) = .ok udp.checksum) ∧
      packet.ihl = ihl ∧ packet.udpLen = udp.length.toNat ∧ packet.udpChecksum = udp.checksum.toNat ∧
      packet.userData = (raw.take (ihl + udp.length.toNat)).drop (ihl + 8) ∧
      packet.surplus = (raw.take totalLen).drop (ihl + udp.length.toNat) := by
  have length : ((raw.take totalLen).drop ihl).length = totalLen - ihl := by
    rw [List.length_drop, List.length_take, Nat.min_eq_left inside]
  unfold Packet.ofUdp at built
  dsimp only at built
  generalize segment : (raw.take totalLen).drop ihl = udpBytes at built length
  rcases udpBytes with _ | ⟨s0, _ | ⟨s1, _ | ⟨d0, _ | ⟨d1, _ | ⟨l0, _ | ⟨l1, _ | ⟨c0, _ | ⟨c1, data⟩⟩⟩⟩⟩⟩⟩⟩
  rotate_right
  · have udpLen : intFromBytes (slice (s0 :: s1 :: d0 :: d1 :: l0 :: l1 :: c0 :: c1 :: data) 4 6) =
        (u16OfBe l0 l1).toNat := intFromBytes_pair l0 l1
    have udpChecksum : intFromBytes (slice (s0 :: s1 :: d0 :: d1 :: l0 :: l1 :: c0 :: c1 :: data) 6 8) =
        (u16OfBe c0 c1).toNat := intFromBytes_pair c0 c1
    rw [udpLen, udpChecksum] at built
    split at built
    · cases built
    next lengths =>
    split at built
    · cases built
    next checked =>
    have lengths := not_not.mp lengths
    have fits : ihl + (u16OfBe l0 l1).toNat ≤ totalLen := by omega
    have dataLength : data.length + 8 = totalLen - ihl := by simpa using length
    have userData : (raw.take (ihl + (u16OfBe l0 l1).toNat)).drop (ihl + 8) = data.take ((u16OfBe l0 l1).toNat - 8) := by
      have front : raw.take (ihl + (u16OfBe l0 l1).toNat) = (raw.take totalLen).take (ihl + (u16OfBe l0 l1).toNat) := by
        rw [List.take_take, Nat.min_eq_left fits]
      rw [front, ← List.drop_drop, List.drop_take, segment, Nat.add_sub_cancel_left, List.drop_take]
      rfl
    have covered : (s0 :: s1 :: d0 :: d1 :: l0 :: l1 :: c0 :: c1 :: data).take (u16OfBe l0 l1).toNat =
        UdpHeader.bytes ⟨u16OfBe s0 s1, u16OfBe d0 d1, u16OfBe l0 l1, u16OfBe c0 c1⟩ ++
          data.take ((u16OfBe l0 l1).toNat - 8) := by
      rw [← take_udp _ lengths.1]
      simp only [UdpHeader.bytes, u16Be_u16OfBe]
      rfl
    refine ⟨⟨u16OfBe s0 s1, u16OfBe d0 d1, u16OfBe l0 l1, u16OfBe c0 c1⟩, if_neg (Nat.not_lt.mpr lengths.1), fits, ?_, ?_⟩
    · intro used
      rw [userData]
      have stored : (u16OfBe c0 c1).toNat ≠ 0 := fun zero => used (UInt16.toNat_inj.mp zero)
      have summed : fold16 (slice (raw.take totalLen) 12 20 ++ [0, 17] ++ u16Be (UInt16.ofNat (u16OfBe l0 l1).toNat) ++
          (s0 :: s1 :: d0 :: d1 :: l0 :: l1 :: c0 :: c1 :: data).take (u16OfBe l0 l1).toNat) [] = 65535 := by
        by_contra wrong
        exact checked ⟨stored, wrong⟩
      have header : slice (raw.take totalLen) 12 20 = ip.src.toList ++ ip.dst.toList := by
        rw [slice, List.take_take, Nat.min_eq_left (by omega)]
        exact addresses
      rw [fold16_eq, List.sum_nil, Nat.add_zero, covered, header, UInt16.ofNat_toNat, ← List.append_assoc] at summed
      apply (computeChecksum_completes used ?_).mpr summed
      rw [List.length_take]
      change (u16OfBe l0 l1).toNat = _
      omega
    · cases built
      refine ⟨rfl, rfl, rfl, ?_, ?_⟩
      · rw [userData]
        change slice _ 8 _ = _
        rw [slice, List.drop_take]
        rfl
      · rw [← List.drop_drop, segment]
  all_goals
    simp only [List.length_cons, List.length_nil] at length
    omega

/-- A packet of the checker and the datagram the pipeline opens, with the same contents. -/
structure Opens (packet : Packet) (opened : Opened) : Prop where
  ihl : packet.ihl = opened.udpAt
  udpLen : packet.udpLen = opened.udp.length.toNat
  udpChecksum : packet.udpChecksum = opened.udp.checksum.toNat
  userData : packet.userData = opened.userData
  surplus : packet.surplus = opened.datagram.drop (surplusStart opened)

/-- What the checker takes for a packet opens in the pipeline. -/
theorem packet_opens {raw : List UInt8} {packet : Packet} (built : Packet.new raw = .ok (.ok packet)) :
    ∃ opened, openDatagram raw = .ok (.ok opened) ∧ Opens packet opened := by
  obtain ⟨first, ihl, totalLen, taken⟩ := new_constructed built
  obtain ⟨ip, ipParsed, total, addresses⟩ := taken.ipParsed
  have inside := taken.inside
  have room := taken.room
  have headerLen : ihl = ip.headerLen := (parse_accepted ipParsed).offset
  obtain ⟨udp, udpParsed, fits, verified, sameIhl, udpLen, udpChecksum, userData, surplus⟩ :=
    ofUdp_read taken.built inside room addresses taken.least
  rw [← total] at udpParsed
  rcases openDatagram_total raw with ⟨error, _, fault⟩ | ⟨opened, opening, well, _⟩
  · exfalso
    cases fault with
    | ip refused => cases refused.symm.trans ipParsed
    | udp parsed refused =>
      cases parsed.symm.trans ipParsed
      cases refused.symm.trans udpParsed
    | length parsed header exceeds =>
      cases parsed.symm.trans ipParsed
      cases header.symm.trans udpParsed
      rw [IpRepr.transportPayloadLen, total, ← IpRepr.headerLen, ← headerLen] at exceeds
      omega
    | checksum parsed header used computed wrong =>
      cases parsed.symm.trans ipParsed
      cases header.symm.trans udpParsed
      exact wrong (Except.ok.inj (computed.symm.trans (verified used)))
  refine ⟨opened, opening, ?_⟩
  obtain ⟨sameIp, sameUdp⟩ := openDatagram_headers opening
  have headers := Except.ok.inj (ipParsed.symm.trans sameIp)
  have ipSame : opened.ip = ip := (congrArg Prod.fst headers).symm
  have offset : opened.udpAt = ihl := (congrArg Prod.snd headers).symm
  have reach : ip.headerLen + ip.transportPayloadLen = totalLen := by
    rw [← total]
    exact Nat.add_sub_cancel' (parse_accepted ipParsed).total
  have stop : opened.ipEnd = totalLen := by rw [well.stop, ipSame, reach]
  rw [ipSame, reach, offset, ← total] at sameUdp
  have udpSame : opened.udp = udp := Except.ok.inj (sameUdp.symm.trans udpParsed)
  have datagram := openDatagram_datagram opening
  refine ⟨by rw [sameIhl, offset], by rw [udpLen, udpSame], by rw [udpChecksum, udpSame], ?_, ?_⟩
  · rw [userData, well.userData, datagram, stop, offset, udpSame, List.take_take, Nat.min_eq_left fits]
  · rw [surplus, datagram, stop, surplusStart, offset, udpSame]

end UdpOptions.Proofs
