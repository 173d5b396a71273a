import UdpOptions.Proofs.Assembly

/-! An assembled datagram read back by the header parsers and the surplus locator.
The UDP checksum sees the body only through the IP header, of which it uses the
addresses alone. -/

namespace UdpOptions.Proofs
open Library Model

private theorem writtenIp_addresses (src dst : Ipv4Addr) (bodyLen : Nat) :
    (writtenIp src dst bodyLen).src = src ∧ (writtenIp src dst bodyLen).dst = dst := ⟨rfl, rfl⟩

private theorem computeChecksum_addresses (udp : UdpHeader) {ip other : IpRepr} (data : List UInt8) {src dst : Ipv4Addr}
    (here : ip.src = src ∧ ip.dst = dst) (there : other.src = src ∧ other.dst = dst) :
    udp.computeChecksum ip data = udp.computeChecksum other data := by
  have pseudo : ip.pseudoHeaderSum udp.length = other.pseudoHeaderSum udp.length := by
    rw [IpRepr.pseudoHeaderSum, IpRepr.pseudoHeaderSum, here.1, here.2, there.1, there.2]
  rw [UdpHeader.computeChecksum, UdpHeader.computeChecksum, pseudo]

structure CarriesBody (datagram userData body : List UInt8) (layout : SurplusLayout) : Prop where
  stop : layout.startsAt + layout.len = datagram.length
  padded : layout.needsPad = true ↔ userData.length % 2 = 1
  zero : layout.needsPad = true → datagram[layout.startsAt]? = some 0
  body : datagram.drop layout.ocsAt =
    u16Be (Ocs.fieldValue (0 :: 0 :: body.drop 2) (UInt16.ofNat layout.len)) ++ body.drop 2

structure Decodes (datagram : List UInt8) (src dst : Ipv4Addr) (srcPort dstPort : UInt16)
    (userData body : List UInt8) (ip : IpRepr) (udp : UdpHeader) : Prop where
  ipParsed : IpRepr.parse datagram = .ok (ip, 20)
  udpParsed : UdpHeader.parse (datagram.drop 20) = .ok udp
  addresses : ip.src = src ∧ ip.dst = dst
  ports : udp.srcPort = srcPort ∧ udp.dstPort = dstPort
  ihl : ip.ihl = 5
  total : ip.totalLen.toNat = datagram.length
  length : udp.length.toNat = 8 + userData.length
  data : (datagram.take (20 + udp.length.toNat)).drop 28 = userData
  bare : locateSurplus ip udp = none ↔ body = []
  surplus : ∀ layout, locateSurplus ip udp = some layout → CarriesBody datagram userData body layout

private theorem locateSurplus_sent (src dst : Ipv4Addr) (srcPort dstPort checksum : UInt16) {payload body : List UInt8}
    (led : body = [] ∨ 2 ≤ body.length) (small : sentLen payload.length body.length < 2 ^ 16) :
    locateSurplus (writtenIp src dst (sentBody payload body).length) (sentUdp srcPort dstPort payload.length checksum) =
      if body = [] then none
      else some ⟨28 + payload.length, decide (payload.length % 2 = 1), payload.length % 2 + body.length⟩ := by
  have total := @sentSurplus_length payload.length body led
  have bodyLength := sentBody_length payload body
  have udpLength := sentUdp_length srcPort dstPort checksum (show 8 + payload.length < 2 ^ 16 by omega)
  have transport : (writtenIp src dst (sentBody payload body).length).transportPayloadLen =
      8 + payload.length + (sentSurplus payload.length body).length := by
    rw [IpRepr.transportPayloadLen, writtenIp_totalLen src dst (by omega), bodyLength,
      show (writtenIp src dst (payload.length + (sentSurplus payload.length body).length)).ihl.toNat = 5 from rfl]
    omega
  have natural : (writtenIp src dst (sentBody payload body).length).headerLen + (8 + payload.length) =
      28 + payload.length := by
    rw [show (writtenIp src dst (sentBody payload body).length).headerLen = 20 from rfl]
    omega
  unfold locateSurplus
  rw [udpLength, checkedSub_of_le (by omega)]
  dsimp only
  rw [natural]
  rcases led with rfl | led
  · have none : (sentSurplus payload.length []).length = 0 := rfl
    rw [if_pos (by omega), if_pos rfl]
  · have size : (sentSurplus payload.length body).length = payload.length % 2 + body.length := by
      rw [sentSurplus_full payload.length led, List.length_append, List.length_replicate, filledBody_length led]
    have filled : body ≠ [] := List.ne_nil_of_length_pos (by omega)
    have parity : decide ((28 + payload.length) % 2 = 1) = decide (payload.length % 2 = 1) := by
      rw [decide_eq_decide]
      omega
    have pad : (decide (payload.length % 2 = 1)).toNat = payload.length % 2 := oddBit_toNat _
    rw [if_neg (by omega), parity, pad, if_neg (by rw [transport, size, show Length.ocs = 2 from rfl]; omega),
      if_neg filled, transport, Nat.add_sub_cancel_left, size]

private theorem carriesBody_sent (src dst : Ipv4Addr) (udp : UdpHeader) {payload body : List UInt8}
    (led : 2 ≤ body.length) :
    CarriesBody (datagramBytes src dst udp (sentBody payload body)) payload body
      ⟨28 + payload.length, decide (payload.length % 2 = 1), payload.length % 2 + body.length⟩ := by
  have surplus := sentSurplus_full payload.length led
  have behind : (datagramBytes src dst udp (sentBody payload body)).drop (28 + payload.length) =
      List.replicate (payload.length % 2) 0 ++ filledBody payload.length body := by
    rw [← List.drop_drop, ← surplus]
    exact List.drop_left
  refine ⟨?_, decide_eq_true_iff, ?_, ?_⟩
  · rw [datagramBytes_length, sentBody, List.length_append, surplus, List.length_append, List.length_replicate,
      filledBody_length led, Nat.add_assoc]
  · intro odd
    rw [← Nat.add_zero (28 + payload.length), ← List.getElem?_drop, behind, of_decide_eq_true odd]
    rfl
  · change List.drop (28 + payload.length + (decide (payload.length % 2 = 1)).toNat) _ = _
    rw [oddBit_toNat, ← List.drop_drop, behind]
    exact List.drop_left' List.length_replicate

private theorem decodes_sent (src dst : Ipv4Addr) (srcPort dstPort checksum : UInt16) {payload body : List UInt8}
    (led : body = [] ∨ 2 ≤ body.length) (small : sentLen payload.length body.length < 2 ^ 16) :
    Decodes (datagramBytes src dst (sentUdp srcPort dstPort payload.length checksum) (sentBody payload body))
      src dst srcPort dstPort payload body (writtenIp src dst (sentBody payload body).length)
      (sentUdp srcPort dstPort payload.length checksum) := by
  have total := @sentSurplus_length payload.length body led
  have bodyLength := sentBody_length payload body
  have udpLength := sentUdp_length srcPort dstPort checksum (show 8 + payload.length < 2 ^ 16 by omega)
  have announced := writtenIp_totalLen src dst (show 28 + (sentBody payload body).length < 2 ^ 16 by omega)
  have located := locateSurplus_sent src dst srcPort dstPort checksum led small
  refine ⟨?_, ?_, writtenIp_addresses src dst _, ⟨rfl, rfl⟩, rfl, ?_, udpLength, ?_, ?_, ?_⟩
  · apply parse_headerBytes
    refine announced.trans ?_
    rw [List.length_append, bytes_length]
    omega
  · exact udp_parse_bytes _ _ (by omega)
  · rw [announced, datagramBytes_length]
  · rw [udpLength, List.drop_take]
    change List.take _ (payload ++ sentSurplus payload.length body) = payload
    exact List.take_left' (by omega)
  · rw [located]
    split
    next empty => exact iff_of_true rfl empty
    next filled => exact iff_of_false (Option.some_ne_none _) filled
  · intro layout
    rw [located]
    split
    next =>
      intro found
      cases found
    next filled =>
      intro found
      cases found
      exact carriesBody_sent src dst _ (led.resolve_left filled)

/-- For given addresses, ports, and user data there is one non-zero UDP checksum,
and with every body that fits the assembled datagram decodes to its inputs and
stores that checksum. -/
theorem assembled_datagram_decodes (src dst : Ipv4Addr) (srcPort dstPort : UInt16) (userData : List UInt8) :
    ∃ checksum : UInt16, checksum ≠ 0 ∧
      ∀ body : List UInt8, body = [] ∨ 2 ≤ body.length → sentLen userData.length body.length ≤ 65535 →
        ∃ datagram ip udp, assembleDatagram src dst srcPort dstPort userData body = .ok datagram ∧
          Decodes datagram src dst srcPort dstPort userData body ip udp ∧ udp.checksum = checksum := by
  by_cases short : 28 + userData.length < 2 ^ 16
  · obtain ⟨checksum, computed, nonzero, _⟩ := assembleDatagram_eq src dst srcPort dstPort (.inl rfl) short
    refine ⟨checksum, nonzero, ?_⟩
    intro body led fits
    have small : sentLen userData.length body.length < 2 ^ 16 := Nat.lt_succ_of_le fits
    obtain ⟨own, recomputed, _, assembled⟩ := assembleDatagram_eq src dst srcPort dstPort led small
    have same : own = checksum := by
      apply Except.ok.inj
      rw [← recomputed, ← computed]
      exact computeChecksum_addresses _ _ (writtenIp_addresses src dst _) (writtenIp_addresses src dst _)
    subst own
    exact ⟨_, _, _, assembled, decodes_sent src dst srcPort dstPort checksum led small, rfl⟩
  · refine ⟨1, by decide, ?_⟩
    intro body _ fits
    have least : 28 + userData.length ≤ sentLen userData.length body.length := Nat.le_add_right _ _
    omega

end UdpOptions.Proofs
