import UdpOptions.Api
import UdpOptions.Proofs.ReceivePath

/-! The datagrams the send path assembles. An assembled datagram is the written
form of its headers, payload, pad, and OCS-led body, it opens to its payload, and
its options area is trusted. -/

namespace UdpOptions.Proofs
open Library Model

def filledBody (payloadLen : Nat) (body : List UInt8) : List UInt8 :=
  u16Be (Ocs.fieldValue (0 :: 0 :: body.drop 2) (UInt16.ofNat (payloadLen % 2 + body.length))) ++ body.drop 2

/-- What is sent behind the payload: nothing, or a pad to an even offset and the body. -/
def sentSurplus (payloadLen : Nat) (body : List UInt8) : List UInt8 :=
  if body.isEmpty then [] else List.replicate (payloadLen % 2) 0 ++ filledBody payloadLen body

def sentLen (payloadLen bodyLen : Nat) : Nat :=
  28 + payloadLen + (if bodyLen = 0 then 0 else payloadLen % 2 + bodyLen)

theorem filledBody_length {payloadLen : Nat} {body : List UInt8} (led : 2 ≤ body.length) :
    (filledBody payloadLen body).length = body.length := by
  rw [filledBody, List.length_append, u16Be_length, List.length_drop]
  omega

theorem sentSurplus_full (payloadLen : Nat) {body : List UInt8} (led : 2 ≤ body.length) :
    sentSurplus payloadLen body = List.replicate (payloadLen % 2) 0 ++ filledBody payloadLen body := by
  rw [sentSurplus, if_neg]
  simpa using List.ne_nil_of_length_pos (by omega)

theorem sentSurplus_length {payloadLen : Nat} {body : List UInt8} (led : body = [] ∨ 2 ≤ body.length) :
    28 + (payloadLen + (sentSurplus payloadLen body).length) = sentLen payloadLen body.length := by
  unfold sentLen
  rcases led with rfl | led
  · rfl
  · rw [sentSurplus_full payloadLen led, if_neg (by omega), List.length_append, List.length_replicate,
      filledBody_length led]
    omega

theorem datagramLen_eq {payloadLen bodyLen len : Nat} (known : Api.datagramLen payloadLen bodyLen = some len) :
    len = sentLen payloadLen bodyLen := by
  unfold Api.datagramLen at known
  split at known
  · cases known
  next udpLen summed =>
    obtain ⟨_, rfl⟩ := checkedAdd_eq_some.mp summed
    split at known
    · cases known
    next naturalStart started =>
      obtain ⟨_, same⟩ := checkedAdd_eq_some.mp started
      have natural : naturalStart = 28 + payloadLen := by
        rw [← same]
        exact (Nat.add_assoc 20 8 payloadLen).symm
      unfold sentLen
      split at known
      next empty =>
        cases known
        rw [if_pos empty, natural, Nat.add_zero]
      next full =>
        split at known
        · cases known
        next aligned padded =>
          obtain ⟨_, rfl⟩ := checkedAdd_eq_some.mp padded
          obtain ⟨_, rfl⟩ := checkedAdd_eq_some.mp known
          rw [if_neg full, oddBit_toNat]
          omega

theorem datagramLen_of_lt {payloadLen bodyLen : Nat} (word : sentLen payloadLen bodyLen < 2 ^ 64) :
    Api.datagramLen payloadLen bodyLen = some (sentLen payloadLen bodyLen) := by
  unfold sentLen at word
  have udp : checkedAdd Api.udpHeaderLen payloadLen = some (8 + payloadLen) :=
    checkedAdd_of_lt (show 8 + payloadLen < 2 ^ 64 by omega)
  have natural : checkedAdd Api.ipv4HeaderLen (8 + payloadLen) = some (28 + payloadLen) := by
    rw [show 28 + payloadLen = Api.ipv4HeaderLen + (8 + payloadLen) from Nat.add_assoc 20 8 payloadLen]
    exact checkedAdd_of_lt (show 20 + (8 + payloadLen) < 2 ^ 64 by omega)
  rw [Api.datagramLen, udp]
  dsimp only
  rw [natural]
  dsimp only
  rw [oddBit_toNat, sentLen]
  by_cases empty : bodyLen = 0
  · rw [if_pos empty, if_pos empty, Nat.add_zero]
  · rw [if_neg empty] at word
    rw [if_neg empty, if_neg empty, checkedAdd_of_lt (by omega)]
    dsimp only
    rw [checkedAdd_of_lt (by omega)]
    congr 1
    omega

private theorem compute_filledBody {body : List UInt8} (led : 2 ≤ body.length) (payloadLen : Nat) :
    Ocs.compute body (UInt16.ofNat (payloadLen % 2 + body.length)) = .ok (filledBody payloadLen body) :=
  compute_led led _

def sentUdp (srcPort dstPort : UInt16) (payloadLen : Nat) (checksum : UInt16) : UdpHeader :=
  ⟨srcPort, dstPort, UInt16.ofNat (8 + payloadLen), checksum⟩

/-- The body of the written form: payload, pad, and filled options body. -/
def sentBody (payload body : List UInt8) : List UInt8 := payload ++ sentSurplus payload.length body

theorem sentUdp_length (srcPort dstPort checksum : UInt16) {payloadLen : Nat} (small : 8 + payloadLen < 2 ^ 16) :
    (sentUdp srcPort dstPort payloadLen checksum).length.toNat = 8 + payloadLen := UInt16.toNat_ofNat_of_lt' small

theorem sentBody_length (payload body : List UInt8) :
    (sentBody payload body).length = payload.length + (sentSurplus payload.length body).length := List.length_append

private theorem write_front (src dst : Ipv4Addr) (totalLen : UInt16) (udp : UdpHeader) (payload : List UInt8)
    (surplusLen : Nat) :
    let header := IpRepr.headerBytes ⟨src, dst, 5, totalLen⟩ (internetChecksum
      (IpRepr.headerBytes ⟨src, dst, 5, totalLen⟩ 0))
    let behind := List.replicate payload.length (0 : UInt8) ++ List.replicate surplusLen 0
    let zeros := List.replicate (28 + payload.length + surplusLen) (0 : UInt8)
    Checked.slice zeros 0 20 = .ok (List.replicate 20 0) ∧
    Checked.copyInto zeros 0 20 header = .ok (header ++ (List.replicate 8 0 ++ behind)) ∧
    Checked.slice (header ++ (List.replicate 8 0 ++ behind)) 20 (20 + UdpHeader.headerLen) =
      .ok (List.replicate 8 0) ∧
    Checked.copyInto (header ++ (List.replicate 8 0 ++ behind)) 20 (20 + UdpHeader.headerLen) udp.bytes =
      .ok (header ++ (udp.bytes ++ behind)) ∧
    Checked.copyInto (header ++ (udp.bytes ++ behind)) (20 + UdpHeader.headerLen)
      (20 + UdpHeader.headerLen + payload.length) payload =
      .ok ((header ++ udp.bytes) ++ (payload ++ List.replicate surplusLen 0)) := by
  intro header behind zeros
  have headerLength : header.length = 20 := headerBytes_length _ _
  have split : zeros = List.replicate 20 0 ++ (List.replicate 8 0 ++ behind) := by
    simp only [zeros, behind, List.replicate_append_replicate]
    congr 1
    omega
  have udpStops : 20 + UdpHeader.headerLen = header.length + (List.replicate 8 (0 : UInt8)).length := by
    rw [headerLength]
    rfl
  have payloadStarts : 20 + UdpHeader.headerLen = (header ++ udp.bytes).length := by
    rw [List.length_append, headerLength]
    rfl
  rw [split]
  refine ⟨Checked.slice_front rfl, Checked.copyInto_front rfl headerLength, Checked.slice_middle headerLength.symm
    udpStops, Checked.copyInto_middle headerLength.symm udpStops rfl, ?_⟩
  rw [← List.append_assoc]
  apply Checked.copyInto_middle payloadStarts
  · rw [← payloadStarts, List.length_replicate]
  · exact List.length_replicate.symm

private theorem padBit_eq (payload : List UInt8) :
    (decide ((Length.udpHeader + 20 + payload.length) % 2 = 1)).toNat = payload.length % 2 := by
  rw [oddBit_toNat]
  show (28 + payload.length) % 2 = payload.length % 2
  omega

private theorem totalLen_eq {payload : List UInt8} {surplusLen : Nat}
    (small : 28 + payload.length + surplusLen < 2 ^ 16) :
    (checkedAdd 20 (8 + payload.length)).bind (checkedAdd · surplusLen) = some (28 + payload.length + surplusLen) := by
  rw [checkedAdd_of_lt (by omega), Option.bind_some, checkedAdd_of_lt (by omega)]
  congr 1
  omega

private theorem announced_lengths (src dst : Ipv4Addr) {payloadLen surplusLen : Nat}
    (small : 28 + payloadLen + surplusLen < 2 ^ 16) :
    (UInt16.ofNat (28 + payloadLen + surplusLen)).toNat = 28 + payloadLen + surplusLen ∧
    (⟨src, dst, 5, UInt16.ofNat (28 + payloadLen + surplusLen)⟩ : IpRepr).transportPayloadLen =
      8 + payloadLen + surplusLen := by
  have whole := UInt16.toNat_ofNat_of_lt' small
  refine ⟨whole, ?_⟩
  show (UInt16.ofNat (28 + payloadLen + surplusLen)).toNat - 20 = _
  omega

private theorem write_body {front payload body : List UInt8} (led : 2 ≤ body.length) (ocsAt : Nat)
    (position : ocsAt = front.length + payload.length + payload.length % 2) :
    let zeros := List.replicate (payload.length % 2) (0 : UInt8)
    Checked.copyInto (front ++ (payload ++ List.replicate (payload.length % 2 + body.length) 0)) ocsAt
        (ocsAt + body.length) body = .ok ((front ++ (payload ++ zeros)) ++ body) ∧
    Checked.slice ((front ++ (payload ++ zeros)) ++ body) ocsAt (ocsAt + body.length) = .ok body ∧
    Checked.copyInto ((front ++ (payload ++ zeros)) ++ body) ocsAt (ocsAt + body.length)
        (filledBody payload.length body) =
      .ok (front ++ (payload ++ (zeros ++ filledBody payload.length body))) := by
  intro zeros
  have starts : ocsAt = (front ++ (payload ++ zeros)).length := by
    simp only [zeros, List.length_append, List.length_replicate]
    omega
  have stops : ocsAt + body.length = (front ++ (payload ++ zeros)).length + body.length := by rw [← starts]
  have split : front ++ (payload ++ List.replicate (payload.length % 2 + body.length) (0 : UInt8)) =
      (front ++ (payload ++ zeros)) ++ List.replicate body.length 0 := by
    simp only [zeros, List.append_assoc, List.replicate_append_replicate]
  refine ⟨?_, ?_, ?_⟩
  · rw [split]
    exact Checked.copyInto_back starts (by rw [List.length_replicate]; exact stops) List.length_replicate.symm
  · have middle := @Checked.slice_middle _ (front ++ (payload ++ zeros)) body [] _ _ starts stops
    rwa [List.append_nil] at middle
  · rw [Checked.copyInto_back starts stops (filledBody_length led)]
    simp only [List.append_assoc]

theorem assembleDatagram_eq (src dst : Ipv4Addr) (srcPort dstPort : UInt16) {payload body : List UInt8}
    (led : body = [] ∨ 2 ≤ body.length) (small : sentLen payload.length body.length < 2 ^ 16) :
    ∃ checksum, (sentUdp srcPort dstPort payload.length 0).computeChecksum
        (writtenIp src dst (sentBody payload body).length) payload = .ok checksum ∧ checksum ≠ 0 ∧
      assembleDatagram src dst srcPort dstPort payload body =
        .ok (datagramBytes src dst (sentUdp srcPort dstPort payload.length checksum) (sentBody payload body)) := by
  have total := @sentSurplus_length payload.length body led
  have bodyLength := sentBody_length payload body
  have udpSmall : 8 + payload.length < 2 ^ 16 := by omega
  have udpLength : (UInt16.ofNat (8 + payload.length)).toNat = 8 + payload.length :=
    UInt16.toNat_ofNat_of_lt' udpSmall
  obtain ⟨checksum, computed, nonzero⟩ := computeChecksum_eq (sentUdp srcPort dstPort payload.length 0)
    (writtenIp src dst (sentBody payload body).length) (show (UInt16.ofNat (8 + payload.length)).toNat = _ from udpLength)
  refine ⟨checksum, computed, nonzero, ?_⟩
  have proper : body.isEmpty = true ∨ Length.ocs ≤ body.length := led.imp List.isEmpty_iff.mpr id
  unfold assembleDatagram
  simp only [Checked.require_of proper, Checked.ok_bind, checkedAdd_of_lt (show UdpHeader.headerLen + payload.length <
      2 ^ 64 by show 8 + _ < _; omega), Checked.expect, show UdpHeader.headerLen + payload.length = 8 + payload.length
      from rfl, tryU16_of_lt udpSmall, udpLength]
  rcases led with rfl | led
  · have written : 28 + (sentBody payload []).length = 28 + payload.length + 0 := by
      rw [bodyLength]
      rfl
    obtain ⟨front, headerPut, udpSlice, udpPut, payloadPut⟩ := write_front src dst
      (UInt16.ofNat (28 + payload.length + 0)) (sentUdp srcPort dstPort payload.length checksum) payload 0
    simp only [writtenIp, written, sentUdp] at computed
    simp only [List.isEmpty_nil, if_true, Checked.pure_eq, Checked.ok_bind, tryU16_of_lt (show 0 < 2 ^ 16 by decide),
      totalLen_eq (show 28 + payload.length + 0 < 2 ^ 16 by omega),
      tryU16_of_lt (show 28 + payload.length + 0 < 2 ^ 16 by omega), front, writeIp_eq src dst _ List.length_replicate,
      headerPut, computed, udpSlice, writeUdp_eq _ List.length_replicate]
    simp only [sentUdp] at udpPut payloadPut
    simp only [udpPut, Checked.ok_bind, payloadPut]
    obtain ⟨whole, transport⟩ := announced_lengths src dst (show 28 + payload.length + 0 < 2 ^ 16 by omega)
    rw [Checked.require_of, Checked.ok_bind, Checked.require_of transport, Checked.ok_bind,
      Checked.require_of (show 8 + payload.length = _ from transport.symm), Checked.ok_bind, datagramBytes, writtenIp,
      written, List.append_assoc]
    · rfl
    · simp only [whole, List.length_append, headerBytes_length, bytes_length, List.length_replicate]
      omega
  · have full : body.isEmpty = false := by simpa using List.ne_nil_of_length_pos (by omega)
    have surplus := sentSurplus_full payload.length led
    have written : 28 + (sentBody payload body).length = 28 + payload.length + (payload.length % 2 + body.length) := by
      rw [bodyLength, surplus, List.length_append, List.length_replicate, filledBody_length led, Nat.add_assoc]
    have fits : 28 + payload.length + (payload.length % 2 + body.length) < 2 ^ 16 := by omega
    obtain ⟨front, headerPut, udpSlice, udpPut, payloadPut⟩ := write_front src dst
      (UInt16.ofNat (28 + payload.length + (payload.length % 2 + body.length)))
      (sentUdp srcPort dstPort payload.length checksum) payload (payload.length % 2 + body.length)
    simp only [writtenIp, written, sentUdp] at computed
    simp only [full, Bool.false_eq_true, if_false, Bool.not_false, Bool.true_and, padBit_eq, Checked.ok_bind,
      checkedAdd_of_lt (show payload.length % 2 + body.length < 2 ^ 64 by omega),
      tryU16_of_lt (show payload.length % 2 + body.length < 2 ^ 16 by omega), totalLen_eq fits, tryU16_of_lt fits,
      front, writeIp_eq src dst _ List.length_replicate, headerPut, computed, udpSlice,
      writeUdp_eq _ List.length_replicate]
    simp only [sentUdp] at udpPut payloadPut
    simp only [udpPut, Checked.ok_bind, payloadPut]
    generalize headerBytes : IpRepr.headerBytes _ _ ++ UdpHeader.bytes _ = headers
    obtain ⟨bodyPut, bodySlice, ocsPut⟩ := @write_body headers payload body led
      (Length.udpHeader + 20 + payload.length + payload.length % 2) (by
        rw [← headerBytes, List.length_append]
        rfl)
    simp only [bodyPut, Checked.ok_bind, bodySlice, compute_filledBody led, ocsPut]
    obtain ⟨whole, transport⟩ := announced_lengths src dst fits
    rw [Checked.require_of, Checked.ok_bind, Checked.require_of transport, Checked.ok_bind, Checked.require_of,
      Checked.ok_bind, datagramBytes, writtenIp, written, ← headerBytes, List.append_assoc, sentBody, surplus]
    · rfl
    · rw [transport]
      omega
    · simp only [whole, ← headerBytes, List.length_append, headerBytes_length, bytes_length, List.length_replicate,
        filledBody_length led]
      omega

def sentOpened (src dst : Ipv4Addr) (srcPort dstPort : UInt16) (payload body : List UInt8) (checksum : UInt16) :
    Opened :=
  writtenOpened src dst (sentUdp srcPort dstPort payload.length checksum) (sentBody payload body)

/-- An assembled datagram: how it opens, and where its options area lies. -/
structure Sent (opened : Opened) (src dst : Ipv4Addr) (srcPort dstPort : UInt16) (payload body : List UInt8) : Prop where
  opening : openDatagram opened.datagram = .ok (.ok opened)
  source : opened.ip.src = src
  destination : opened.ip.dst = dst
  srcPort : opened.udp.srcPort = srcPort
  dstPort : opened.udp.dstPort = dstPort
  offset : opened.udpAt = 20
  start : surplusStart opened = 28 + payload.length
  userData : opened.userData = payload
  datagram : opened.datagram.drop 28 = sentBody payload body
  length : opened.ipEnd = sentLen payload.length body.length
  bare : body = [] → opened.ipEnd < ocsStart opened + 2
  trusted : 2 ≤ body.length → Trusted opened .valid
  area : optionsArea opened = body.drop 2

/-- Every datagram that is assembled opens to what was sent. -/
theorem assembleDatagram_sent (src dst : Ipv4Addr) (srcPort dstPort : UInt16) {payload body : List UInt8}
    (led : body = [] ∨ 2 ≤ body.length) (small : sentLen payload.length body.length < 2 ^ 16) :
    ∃ opened, assembleDatagram src dst srcPort dstPort payload body = .ok opened.datagram ∧
      Sent opened src dst srcPort dstPort payload body := by
  obtain ⟨checksum, computed, nonzero, assembled⟩ := assembleDatagram_eq src dst srcPort dstPort led small
  have total := @sentSurplus_length payload.length body led
  have bodyLength := sentBody_length payload body
  have udpLength := sentUdp_length srcPort dstPort checksum (show 8 + payload.length < 2 ^ 16 by omega)
  have userData : (sentOpened src dst srcPort dstPort payload body checksum).userData = payload := by
    show (payload ++ sentSurplus payload.length body).take
      ((sentUdp srcPort dstPort payload.length checksum).length.toNat - 8) = payload
    rw [udpLength, Nat.add_sub_cancel_left, List.take_left]
  have opening : openDatagram (datagramBytes src dst (sentUdp srcPort dstPort payload.length checksum)
      (sentBody payload body)) = .ok (.ok (sentOpened src dst srcPort dstPort payload body checksum)) := by
    apply open_datagramBytes (by omega) (by omega) (by omega)
    right
    show (sentUdp srcPort dstPort payload.length 0).computeChecksum _
      (sentOpened src dst srcPort dstPort payload body checksum).userData = .ok checksum
    rw [userData]
    exact computed
  have start : surplusStart (sentOpened src dst srcPort dstPort payload body checksum) = 28 + payload.length := by
    show 20 + (sentUdp srcPort dstPort payload.length checksum).length.toNat = _
    omega
  have length : (sentOpened src dst srcPort dstPort payload body checksum).ipEnd =
      sentLen payload.length body.length := by
    show 28 + (sentBody payload body).length = _
    omega
  have behind : (sentOpened src dst srcPort dstPort payload body checksum).datagram.drop (28 + payload.length) =
      sentSurplus payload.length body := by
    rw [← List.drop_drop]
    exact List.drop_left
  have position : ocsStart (sentOpened src dst srcPort dstPort payload body checksum) =
      28 + payload.length + payload.length % 2 := by
    rw [ocsStart, surplusPad, start]
    omega
  have body_eq : 2 ≤ body.length → surplusBody (sentOpened src dst srcPort dstPort payload body checksum) =
      filledBody payload.length body := by
    intro led
    rw [surplusBody, position, ← List.drop_drop, behind, sentSurplus_full payload.length led]
    exact List.drop_left' List.length_replicate
  refine ⟨sentOpened src dst srcPort dstPort payload body checksum, assembled, opening, rfl, rfl, rfl, rfl, rfl, start,
    userData, rfl, length, ?_, ?_, ?_⟩
  · rintro rfl
    rw [length, position]
    exact Nat.lt_of_le_of_lt (Nat.le_add_right _ _) (Nat.lt_add_of_pos_right (by decide))
  · intro led
    have surplus := sentSurplus_full payload.length led
    have size : sentLen payload.length body.length = 28 + payload.length + (payload.length % 2 + body.length) :=
      congrArg (28 + payload.length + ·) (if_neg (by omega))
    refine ⟨by rw [length, position]; omega, ?_, .inl ⟨rfl, ?_⟩⟩
    · intro odd
      rw [surplusPad, start] at odd
      rw [start, ← Nat.add_zero (28 + payload.length), ← List.getElem?_drop, behind, surplus,
        show payload.length % 2 = 1 by omega]
      rfl
    · rw [ocsVerdict, body_eq led, length, start, size, Nat.add_sub_cancel_left]
      exact validate_fieldValue _ _ _
  · rw [optionsArea]
    rcases led with rfl | led
    · rw [surplusBody, position, ← List.drop_drop, behind, show sentSurplus payload.length [] = [] from rfl,
        List.drop_nil]
    · rw [body_eq led]
      rfl

end UdpOptions.Proofs
