import UdpOptions.Proofs.Headers

/-! Accepted datagrams. Opening a datagram never faults, and an opened one has
the lengths by which the pipeline slices it. A datagram written header by header
opens to exactly what was written. -/

namespace UdpOptions.Proofs
open Library Model

/-- The lengths of a datagram whose headers were accepted. -/
structure WellOpened (opened : Opened) : Prop where
  offset : opened.udpAt = opened.ip.headerLen
  header : 20 ≤ opened.udpAt
  even : opened.udpAt % 2 = 0
  stop : opened.ipEnd = opened.ip.headerLen + opened.ip.transportPayloadLen
  length : opened.datagram.length = opened.ipEnd
  word : opened.ipEnd < 2 ^ 16
  minimal : 8 ≤ opened.udp.length.toNat
  room : opened.udpAt + opened.udp.length.toNat ≤ opened.ipEnd
  userData : opened.userData =
    (opened.datagram.take (opened.udpAt + opened.udp.length.toNat)).drop (opened.udpAt + 8)

def ChecksumHolds (opened : Opened) : Prop :=
  opened.udp.checksum = 0 ∨
    { opened.udp with checksum := 0 : UdpHeader }.computeChecksum opened.ip opened.userData = .ok opened.udp.checksum

theorem WellOpened.userData_length {opened : Opened} (well : WellOpened opened) :
    opened.userData.length + 8 = opened.udp.length.toNat := by
  have minimal := well.minimal
  have room := well.room
  rw [well.userData, List.length_drop, List.length_take, well.length]
  omega

theorem computeChecksum_eq (udp : UdpHeader) (ip : IpRepr) {data : List UInt8}
    (lengths : udp.length.toNat = 8 + data.length) :
    ∃ checksum, udp.computeChecksum ip data = .ok checksum ∧ checksum ≠ 0 := by
  unfold UdpHeader.computeChecksum
  simp only [Checked.require_of (show udp.length.toNat = UdpHeader.headerLen + data.length from lengths),
    Checked.ok_bind, Checked.pure_eq]
  refine ⟨_, rfl, ?_⟩
  split
  · decide
  next nonzero => exact nonzero

/-- A fault in the headers, the UDP Length or the UDP checksum of the bytes themselves. -/
inductive WireFault (bytes : List UInt8) : RecvError → Prop where
  | ip {error : HeaderError} (refused : IpRepr.parse bytes = .error error) : WireFault bytes (.header error)
  | udp {ip : IpRepr} {udpAt : Nat} {error : HeaderError} (parsed : IpRepr.parse bytes = .ok (ip, udpAt))
      (refused : UdpHeader.parse ((bytes.take ip.totalLen.toNat).drop udpAt) = .error error) :
      WireFault bytes (.header error)
  | length {ip : IpRepr} {udpAt : Nat} {udp : UdpHeader} (parsed : IpRepr.parse bytes = .ok (ip, udpAt))
      (udpParsed : UdpHeader.parse ((bytes.take ip.totalLen.toNat).drop udpAt) = .ok udp)
      (exceeds : ip.transportPayloadLen < udp.length.toNat) :
      WireFault bytes (.udpLengthExceedsIpPayload udp.length ip.transportPayloadLen)
  | checksum {ip : IpRepr} {udpAt : Nat} {udp : UdpHeader} {expected : UInt16}
      (parsed : IpRepr.parse bytes = .ok (ip, udpAt))
      (udpParsed : UdpHeader.parse ((bytes.take ip.totalLen.toNat).drop udpAt) = .ok udp)
      (used : udp.checksum ≠ 0)
      (computed : { udp with checksum := 0 : UdpHeader }.computeChecksum ip
        ((bytes.take (udpAt + udp.length.toNat)).drop (udpAt + UdpHeader.headerLen)) = .ok expected)
      (wrong : expected ≠ udp.checksum) : WireFault bytes (.udpChecksumMismatch expected udp.checksum)

/-- Opening never faults; what it refuses has a fault on the wire, and what it
accepts is well formed and has a good checksum. -/
theorem openDatagram_total (bytes : List UInt8) :
    (∃ error, openDatagram bytes = .ok (.error error) ∧ WireFault bytes error) ∨
      ∃ opened, openDatagram bytes = .ok (.ok opened) ∧ WellOpened opened ∧ ChecksumHolds opened := by
  unfold openDatagram
  cases parsed : IpRepr.parse bytes with
  | error error => exact .inl ⟨_, rfl, .ip parsed⟩
  | ok result =>
    obtain ⟨ip, udpAt⟩ := result
    obtain ⟨offset, header, total, inside⟩ := parse_accepted parsed
    have stop : ip.headerLen + ip.transportPayloadLen = ip.totalLen.toNat := Nat.add_sub_cancel' total
    have word := ip.totalLen.toNat_lt
    have even : udpAt % 2 = 0 := by
      rw [offset, IpRepr.headerLen]
      omega
    dsimp only
    rw [stop, Checked.slice_of_le (Nat.zero_le _) inside, Checked.ok_bind, List.drop_zero]
    have length : (bytes.take ip.totalLen.toNat).length = ip.totalLen.toNat := by
      rw [List.length_take, Nat.min_eq_left inside]
    rw [Checked.slice_of_le (by rw [length, offset]; exact total) (Nat.le_refl _), Checked.ok_bind, List.take_length]
    cases udpParsed : UdpHeader.parse ((bytes.take ip.totalLen.toNat).drop udpAt) with
    | error error => exact .inl ⟨_, rfl, .udp parsed udpParsed⟩
    | ok udp =>
      obtain ⟨_, minimal⟩ := udp_parse_accepted udpParsed
      dsimp only
      by_cases exceeds : ip.transportPayloadLen < udp.length.toNat
      · rw [if_pos exceeds]
        exact .inl ⟨_, rfl, .length parsed udpParsed exceeds⟩
      rw [if_neg exceeds]
      have room : udpAt + udp.length.toNat ≤ ip.totalLen.toNat := by omega
      rw [Checked.slice_of_le (show udpAt + UdpHeader.headerLen ≤ udpAt + udp.length.toNat from
        Nat.add_le_add_left minimal udpAt) (by rw [length]; exact room), Checked.ok_bind]
      have well : WellOpened ⟨ip, udpAt, ip.totalLen.toNat, bytes.take ip.totalLen.toNat, udp,
          ((bytes.take ip.totalLen.toNat).take (udpAt + udp.length.toNat)).drop (udpAt + UdpHeader.headerLen)⟩ :=
        ⟨offset, by rw [offset]; exact header, even, stop.symm, length, word, minimal, room, rfl⟩
      by_cases unchecked : udp.checksum = 0
      · rw [if_pos unchecked]
        exact .inr ⟨_, rfl, well, .inl unchecked⟩
      rw [if_neg unchecked]
      have dataLength := well.userData_length
      obtain ⟨expected, computed, _⟩ := computeChecksum_eq { udp with checksum := 0 } ip
        (show udp.length.toNat = 8 + _ from dataLength.symm.trans (Nat.add_comm _ _))
      rw [computed, Checked.ok_bind]
      by_cases wrong : expected ≠ udp.checksum
      · rw [if_pos wrong]
        rw [List.take_take, Nat.min_eq_left room] at computed
        exact .inl ⟨_, rfl, .checksum parsed udpParsed unchecked computed wrong⟩
      · rw [if_neg wrong]
        refine .inr ⟨_, rfl, well, .inr ?_⟩
        exact computed.trans (congrArg Except.ok (not_not.mp wrong))

theorem openDatagram_parsed {bytes : List UInt8} {opened : Opened} (opening : openDatagram bytes = .ok (.ok opened)) :
    IpRepr.parse bytes = .ok (opened.ip, opened.udpAt) := by
  unfold openDatagram at opening
  split at opening
  · cases opening
  next ip udpAt parsed =>
    obtain ⟨datagram, _, opening⟩ := Checked.bind_eq_ok.mp opening
    obtain ⟨segment, _, opening⟩ := Checked.bind_eq_ok.mp opening
    split at opening
    · cases opening
    next udp _ =>
      dsimp only at opening
      split at opening
      · cases opening
      obtain ⟨userData, _, opening⟩ := Checked.bind_eq_ok.mp opening
      split at opening
      · cases opening
        exact parsed
      obtain ⟨expected, _, opening⟩ := Checked.bind_eq_ok.mp opening
      split at opening
      · cases opening
      · cases opening
        exact parsed

/-- The IPv4 header of a datagram with this much behind its UDP header. -/
def writtenIp (src dst : Ipv4Addr) (bodyLen : Nat) : IpRepr := ⟨src, dst, 5, UInt16.ofNat (28 + bodyLen)⟩

/-- A datagram as the send path and the re-feed write it. -/
def datagramBytes (src dst : Ipv4Addr) (udp : UdpHeader) (body : List UInt8) : List UInt8 :=
  (writtenIp src dst body.length).headerBytes (internetChecksum ((writtenIp src dst body.length).headerBytes 0)) ++
    (udp.bytes ++ body)

theorem writtenIp_totalLen (src dst : Ipv4Addr) {bodyLen : Nat} (small : 28 + bodyLen < 2 ^ 16) :
    (writtenIp src dst bodyLen).totalLen.toNat = 28 + bodyLen := UInt16.toNat_ofNat_of_lt' small

theorem datagramBytes_length (src dst : Ipv4Addr) (udp : UdpHeader) (body : List UInt8) :
    (datagramBytes src dst udp body).length = 28 + body.length := by
  simp only [datagramBytes, List.length_append, headerBytes_length, bytes_length]
  omega

def writtenOpened (src dst : Ipv4Addr) (udp : UdpHeader) (body : List UInt8) : Opened where
  ip := writtenIp src dst body.length
  udpAt := 20
  ipEnd := 28 + body.length
  datagram := datagramBytes src dst udp body
  udp := udp
  userData := body.take (udp.length.toNat - 8)

theorem open_datagramBytes {src dst : Ipv4Addr} {udp : UdpHeader} {body : List UInt8}
    (small : 28 + body.length < 2 ^ 16) (proper : 8 ≤ udp.length.toNat) (inside : udp.length.toNat ≤ 8 + body.length)
    (checked : ChecksumHolds (writtenOpened src dst udp body)) :
    openDatagram (datagramBytes src dst udp body) = .ok (.ok (writtenOpened src dst udp body)) := by
  have total := writtenIp_totalLen src dst small
  have parsed : IpRepr.parse (datagramBytes src dst udp body) = .ok (writtenIp src dst body.length, 20) := by
    apply parse_headerBytes
    rw [List.length_append, bytes_length]
    exact total.trans (Nat.add_assoc 20 8 body.length)
  have headerLen : (writtenIp src dst body.length).headerLen = 20 := rfl
  have payloadLen : (writtenIp src dst body.length).transportPayloadLen = 8 + body.length := by
    show (writtenIp src dst body.length).totalLen.toNat - 20 = _
    omega
  have length := datagramBytes_length src dst udp body
  have behind : (datagramBytes src dst udp body).drop 20 = udp.bytes ++ body := rfl
  have data : ((datagramBytes src dst udp body).take (20 + udp.length.toNat)).drop (20 + UdpHeader.headerLen) =
      body.take (udp.length.toNat - 8) := by
    rw [List.drop_take, ← List.drop_drop, behind, show 20 + udp.length.toNat - (20 + UdpHeader.headerLen) =
      udp.length.toNat - 8 from Nat.add_sub_add_left _ _ _]
    rfl
  unfold openDatagram
  simp only [parsed, headerLen, payloadLen]
  rw [Checked.slice_of_le (Nat.zero_le _) (by omega), Checked.ok_bind, List.drop_zero,
    List.take_of_length_le (by omega), Checked.slice_of_le (by omega) (Nat.le_refl _), Checked.ok_bind,
    List.take_length, behind, udp_parse_bytes udp body proper]
  dsimp only
  rw [if_neg (Nat.not_lt.mpr inside), Checked.slice_of_le (show 20 + UdpHeader.headerLen ≤ 20 + udp.length.toNat from
    Nat.add_le_add_left proper 20) (by omega), Checked.ok_bind, data]
  by_cases unchecked : udp.checksum = 0
  · rw [if_pos unchecked, ← Nat.add_assoc]
    rfl
  · have same : { udp with checksum := 0 : UdpHeader }.computeChecksum (writtenIp src dst body.length)
      (body.take (udp.length.toNat - 8)) = .ok udp.checksum := checked.resolve_left unchecked
    rw [if_neg unchecked, same, Checked.ok_bind, if_neg (by simp), ← Nat.add_assoc]
    rfl

theorem writeIp_eq (src dst : Ipv4Addr) (totalLen : UInt16) {out : List UInt8} (length : out.length = 20) :
    IpRepr.write ⟨src, dst, 5, totalLen⟩ out =
      .ok (IpRepr.headerBytes ⟨src, dst, 5, totalLen⟩
        (internetChecksum (IpRepr.headerBytes ⟨src, dst, 5, totalLen⟩ 0))) := by
  have rest : out.drop ipv4MinHeaderLen = [] := List.drop_eq_nil_of_le (Nat.le_of_eq length)
  unfold IpRepr.write
  rw [Checked.require_of rfl, Checked.ok_bind,
    Checked.slice_of_le (Nat.zero_le _) (show ipv4MinHeaderLen ≤ out.length from Nat.le_of_eq length.symm),
    Checked.ok_bind, rest]
  simp only [List.append_nil, Checked.pure_eq]

theorem writeUdp_eq (udp : UdpHeader) {out : List UInt8} (length : out.length = 8) :
    udp.write out = .ok udp.bytes := by
  have exactly : UdpHeader.headerLen ≤ out.length := Nat.le_of_eq length.symm
  have rest : out.drop UdpHeader.headerLen = [] := List.drop_eq_nil_of_le (Nat.le_of_eq length)
  rw [UdpHeader.write, Checked.copyInto_of_le (Nat.zero_le _) exactly rfl, rest]
  simp

theorem reassembledDatagram_eq (ip : IpRepr) (udp : UdpHeader) (udpLength : UInt16) (tail : List UInt8) :
    reassembledDatagram ip udp udpLength tail =
      .ok (if 8 ≤ udpLength.toNat ∧ udpLength.toNat - 8 ≤ tail.length ∧ 28 + tail.length < 2 ^ 16 then
        some (datagramBytes ip.src ip.dst ⟨udp.srcPort, udp.dstPort, udpLength, 0⟩ tail)
      else none) := by
  unfold reassembledDatagram
  by_cases proper : 8 ≤ udpLength.toNat
  · rw [checkedSub_of_le (show UdpHeader.headerLen ≤ udpLength.toNat from proper)]
    dsimp only
    by_cases short : tail.length < udpLength.toNat - UdpHeader.headerLen
    · rw [if_pos short, if_neg (fun fits => Nat.not_le.mpr short fits.2.1)]
      rfl
    rw [if_neg short]
    by_cases small : 28 + tail.length < 2 ^ 16
    · have sum : (checkedAdd 20 UdpHeader.headerLen).bind (checkedAdd · tail.length) = some (28 + tail.length) := by
        rw [checkedAdd_of_lt (by decide), Option.bind_some, checkedAdd_of_lt]
        · rfl
        · show 28 + tail.length < 2 ^ 64
          omega
      have total : (UInt16.ofNat (28 + tail.length)).toNat = 28 + tail.length := UInt16.toNat_ofNat_of_lt' small
      have zeros : List.replicate (28 + tail.length) (0 : UInt8) =
          List.replicate 20 0 ++ (List.replicate 8 0 ++ List.replicate tail.length 0) := by
        rw [List.replicate_append_replicate, List.replicate_append_replicate, ← Nat.add_assoc]
      rw [sum]
      dsimp only
      rw [tryU16_of_lt small, if_pos ⟨proper, Nat.le_of_not_lt short, small⟩]
      dsimp only
      rw [total, zeros]
      simp only [Checked.slice_front (show 20 = (List.replicate 20 (0 : UInt8)).length from rfl), Checked.ok_bind,
        writeIp_eq ip.src ip.dst (UInt16.ofNat (28 + tail.length)) List.length_replicate,
        Checked.copyInto_front (show 20 = (List.replicate 20 (0 : UInt8)).length from rfl)
          (headerBytes_length ⟨ip.src, ip.dst, 5, UInt16.ofNat (28 + tail.length)⟩ _)]
      have header := headerBytes_length ⟨ip.src, ip.dst, 5, UInt16.ofNat (28 + tail.length)⟩ (internetChecksum
        (IpRepr.headerBytes ⟨ip.src, ip.dst, 5, UInt16.ofNat (28 + tail.length)⟩ 0))
      simp only [datagramBytes, writtenIp]
      generalize IpRepr.headerBytes ⟨ip.src, ip.dst, 5, UInt16.ofNat (28 + tail.length)⟩ (internetChecksum
        (IpRepr.headerBytes ⟨ip.src, ip.dst, 5, UInt16.ofNat (28 + tail.length)⟩ 0)) = written at header ⊢
      have udpStops : 20 + UdpHeader.headerLen = written.length + (List.replicate 8 (0 : UInt8)).length := by
        rw [header]
        rfl
      simp only [Checked.slice_middle header.symm udpStops, Checked.ok_bind,
        writeUdp_eq ⟨udp.srcPort, udp.dstPort, udpLength, 0⟩ List.length_replicate,
        Checked.copyInto_middle header.symm udpStops (bytes_length ⟨udp.srcPort, udp.dstPort, udpLength, 0⟩)]
      rw [← List.append_assoc, Checked.copyInto_back, Checked.ok_bind, List.append_assoc]
      · rfl
      · rw [List.length_append, header, bytes_length]
        rfl
      · exact List.length_append
      · exact List.length_replicate.symm
    · have large : tryU16 (28 + tail.length) = none := if_neg small
      rw [if_neg (fun fits => small fits.2.2), checkedAdd_of_lt (by decide), Option.bind_some]
      cases sum : checkedAdd (20 + UdpHeader.headerLen) tail.length with
      | none => rfl
      | some total =>
        obtain ⟨_, rfl⟩ := checkedAdd_eq_some.mp sum
        dsimp only
        rw [show 20 + UdpHeader.headerLen + tail.length = 28 + tail.length from rfl, large]
        rfl
  · have none : checkedSub udpLength.toNat UdpHeader.headerLen = none := if_neg proper
    rw [none, if_neg (fun fits => proper fits.1)]
    rfl

end UdpOptions.Proofs
