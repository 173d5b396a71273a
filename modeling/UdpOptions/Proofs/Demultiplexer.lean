import UdpOptions.Socket
import UdpOptions.Proofs.Datagrams

/-! The demultiplexer of the raw receive path. The header parsers look at a front
part of the buffer only, so what it admits is settled by the bytes of the IPv4 Total
Length, as long as the whole UDP header lies among them. -/

namespace UdpOptions.Proofs
open Library Model

section
variable {data : List UInt8} {dstPort : UInt16} {srcPort : Option UInt16} {ownSrc : Option Ipv4Addr} {len : Nat}
  {ip : IpRepr} {udpAt : Nat} {udp : UdpHeader}

/-- The headers the filters are applied to, and what the filters ask of them. -/
structure Admits (data : List UInt8) (dstPort : UInt16) (srcPort : Option UInt16) (ownSrc : Option Ipv4Addr)
    (ip : IpRepr) (udpAt : Nat) (udp : UdpHeader) : Prop where
  ipParsed : IpRepr.parse data = .ok (ip, udpAt)
  udpParsed : UdpHeader.parse (data.drop udpAt) = .ok udp
  foreign : ownSrc ≠ some ip.src
  dstPort : udp.dstPort = dstPort
  srcPort : ∀ port, srcPort = some port → udp.srcPort = port

theorem slice_behind (parsed : IpRepr.parse data = .ok (ip, udpAt)) :
    Checked.slice data udpAt data.length = .ok (data.drop udpAt) := by
  have accepted := parse_accepted parsed
  have inside : udpAt ≤ data.length := by
    have offset := accepted.offset
    have total := accepted.total
    have bound := accepted.inside
    omega
  rw [Checked.slice_of_le inside (Nat.le_refl _), List.take_length]

theorem Admits.delivers (admits : Admits data dstPort srcPort ownSrc ip udpAt udp) :
    filterDatagram data dstPort srcPort ownSrc = .ok (.deliver ip.totalLen.toNat) := by
  have port : (srcPort.any fun srcPort => udp.srcPort ≠ srcPort) = false := by
    cases known : srcPort with
    | none => rfl
    | some port => simp [admits.srcPort port known]
  simp only [filterDatagram, admits.ipParsed, slice_behind admits.ipParsed, Checked.ok_bind, admits.udpParsed]
  rw [if_neg admits.foreign, if_neg (not_not.mpr admits.dstPort), port]
  rfl

theorem filterDatagram_delivers (delivered : filterDatagram data dstPort srcPort ownSrc = .ok (.deliver len)) :
    ∃ ip udpAt udp, Admits data dstPort srcPort ownSrc ip udpAt udp ∧ len = ip.totalLen.toNat := by
  unfold filterDatagram at delivered
  split at delivered
  · cases delivered
  next ip udpAt parsed =>
  rw [slice_behind parsed, Checked.ok_bind] at delivered
  split at delivered
  · cases delivered
  next udp header =>
  split at delivered
  · cases delivered
  next foreign =>
  split at delivered
  · cases delivered
  next sameDst =>
  split at delivered
  · cases delivered
  next sameSrc =>
  cases delivered
  refine ⟨ip, udpAt, udp, ⟨parsed, header, foreign, not_not.mp sameDst, ?_⟩, rfl⟩
  intro port known
  simpa [known] using sameSrc

private theorem parseV4_front (parsed : IpRepr.parseV4 data = .ok (ip, udpAt)) (tail : List UInt8) :
    IpRepr.parseV4 (data.take ip.totalLen.toNat ++ tail) = .ok (ip, udpAt) := by
  have accepted := parseV4_accepted parsed
  obtain ⟨more, size⟩ := Nat.exists_eq_add_of_le' (Nat.le_trans accepted.header accepted.total)
  have front : ∀ count, count ≤ ip.totalLen.toNat →
      (data.take ip.totalLen.toNat ++ tail).take count = data.take count := by
    intro count within
    have inside := accepted.inside
    rw [List.take_append_of_le_length (by rw [List.length_take]; omega), List.take_take, Nat.min_eq_left within]
  have length : (data.take ip.totalLen.toNat ++ tail).length = ip.totalLen.toNat + tail.length := by
    rw [List.length_append, List.length_take, Nat.min_eq_left accepted.inside]
  unfold IpRepr.parseV4 at parsed
  split at parsed
  · dsimp only at parsed
    split at parsed
    · cases parsed
    next proper =>
    split at parsed
    · cases parsed
    split at parsed
    · cases parsed
    next lengths =>
    split at parsed
    · cases parsed
    next protocol =>
    split at parsed
    · cases parsed
    next checksum =>
    cases parsed
    push Not at lengths
    have same := front _ lengths.1
    dsimp only at size
    rw [size] at same length lengths ⊢
    simp only [List.take_succ_cons, List.cons_append] at same length ⊢
    rw [IpRepr.parseV4]
    simp only [length, same]
    rw [if_neg proper, if_neg (by omega), if_neg (by omega), if_neg protocol, if_neg checksum]
  · cases parsed

theorem parse_front (parsed : IpRepr.parse data = .ok (ip, udpAt)) (tail : List UInt8) :
    IpRepr.parse (data.take ip.totalLen.toNat ++ tail) = .ok (ip, udpAt) := by
  have accepted := parse_accepted parsed
  obtain ⟨more, size⟩ := Nat.exists_eq_add_of_le' (Nat.le_trans accepted.header accepted.total)
  unfold IpRepr.parse at parsed
  split at parsed
  · cases parsed
  · split at parsed
    next version =>
      have whole := parseV4_front parsed tail
      rw [size, List.take_succ_cons, List.cons_append] at whole ⊢
      rw [IpRepr.parse, if_pos version]
      exact whole
    · cases parsed

theorem udp_parse_front {bytes : List UInt8} {size : Nat} (parsed : UdpHeader.parse bytes = .ok udp) (room : 8 ≤ size)
    (tail : List UInt8) : UdpHeader.parse (bytes.take size ++ tail) = .ok udp := by
  obtain ⟨more, rfl⟩ := Nat.exists_eq_add_of_le' room
  unfold UdpHeader.parse at parsed
  split at parsed
  · exact parsed
  · cases parsed

end

/-- What the demultiplexer hands on to the pipeline: both headers of the first `len`
bytes parse, the UDP header within the IPv4 Total Length, with the ports and the source
that were asked for, and nothing behind these bytes changes the verdict. -/
structure HandedOn (data : List UInt8) (dstPort : UInt16) (srcPort : Option UInt16) (ownSrc : Option Ipv4Addr)
    (len : Nat) : Prop where
  inside : len ≤ data.length
  parsed : ∃ ip udpAt udp, IpRepr.parse (data.take len) = .ok (ip, udpAt) ∧
    UdpHeader.parse (((data.take len).take (ip.headerLen + ip.transportPayloadLen)).drop udpAt) = .ok udp ∧
    udp.dstPort = dstPort ∧ (∀ port, srcPort = some port → udp.srcPort = port) ∧ ownSrc ≠ some ip.src
  settled : ∀ tail, filterDatagram (data.take len ++ tail) dstPort srcPort ownSrc = .ok (.deliver len)

section
variable {data : List UInt8} {dstPort : UInt16} {srcPort : Option UInt16} {ownSrc : Option Ipv4Addr} {len : Nat}

/-- A delivered datagram is handed on as asked exactly when its Total Length leaves
room for a UDP header behind the IPv4 header. -/
theorem delivered_handed_on_iff (delivered : filterDatagram data dstPort srcPort ownSrc = .ok (.deliver len)) :
    HandedOn data dstPort srcPort ownSrc len ↔
      ∃ ip udpAt, IpRepr.parse data = .ok (ip, udpAt) ∧ udpAt + 8 ≤ ip.totalLen.toNat := by
  obtain ⟨ip, udpAt, udp, admits, rfl⟩ := filterDatagram_delivers delivered
  have accepted := parse_accepted admits.ipParsed
  have total : ip.headerLen + ip.transportPayloadLen = ip.totalLen.toNat := Nat.add_sub_cancel' accepted.total
  have front := parse_front admits.ipParsed
  have alone := front []
  rw [List.append_nil] at alone
  constructor
  · intro handed
    obtain ⟨other, at_, header, ipParsed, udpParsed, _⟩ := handed.parsed
    cases alone.symm.trans ipParsed
    refine ⟨ip, udpAt, admits.ipParsed, ?_⟩
    have room := (udp_parse_accepted udpParsed).1
    rw [total, List.take_take, Nat.min_self, List.length_drop, List.length_take] at room
    omega
  · intro ⟨other, at_, parsed, room⟩
    cases admits.ipParsed.symm.trans parsed
    have behind : ∀ tail, UdpHeader.parse ((data.take ip.totalLen.toNat ++ tail).drop udpAt) = .ok udp := by
      intro tail
      have short : udpAt ≤ (data.take ip.totalLen.toNat).length := by
        rw [List.length_take, Nat.min_eq_left accepted.inside]
        omega
      rw [List.drop_append_of_le_length short, List.drop_take]
      exact udp_parse_front admits.udpParsed (by omega) tail
    refine ⟨accepted.inside, ⟨ip, udpAt, udp, alone, ?_, admits.dstPort, admits.srcPort, admits.foreign⟩, ?_⟩
    · have header := behind []
      rw [List.append_nil] at header
      rw [total, List.take_take, Nat.min_self]
      exact header
    · intro tail
      exact Admits.delivers ⟨front tail, behind tail, admits.foreign, admits.dstPort, admits.srcPort⟩

end

/-- An empty datagram to port 2000, with two bytes of the buffer behind it. -/
private def emptyDatagram : List UInt8 :=
  [0x45, 0, 0, 28, 0, 0, 0, 0, 64, 17, 0x66, 0xcf, 10, 0, 0, 1, 10, 0, 0, 2, 0x03, 0xe8, 0x07, 0xd0, 0, 8, 0, 0, 7, 7]

theorem empty_datagram_handed_on :
    filterDatagram emptyDatagram 2000 (some 1000) (some ⟨10, 0, 0, 9⟩) = .ok (.deliver 28) ∧
      HandedOn emptyDatagram 2000 (some 1000) (some ⟨10, 0, 0, 9⟩) 28 := by
  have delivered : filterDatagram emptyDatagram 2000 (some 1000) (some ⟨10, 0, 0, 9⟩) = .ok (.deliver 28) := by
    decide +kernel
  have parsed : IpRepr.parse emptyDatagram = .ok (⟨⟨10, 0, 0, 1⟩, ⟨10, 0, 0, 2⟩, 5, 28⟩, 20) := by decide +kernel
  exact ⟨delivered, (delivered_handed_on_iff delivered).mpr ⟨_, _, parsed, by decide⟩⟩

/-- A Total Length of 24 leaves four bytes for the UDP header; four more follow it in
the buffer. -/
private def cutHeader : List UInt8 :=
  [0x45, 0, 0, 24, 0, 0, 0, 0, 64, 17, 0x66, 0xd3, 10, 0, 0, 1, 10, 0, 0, 2, 0x03, 0xe8, 0x07, 0xd0, 0, 8, 0, 0]

theorem cut_header_delivered :
    filterDatagram cutHeader 2000 none none = .ok (.deliver 24) ∧
      UdpHeader.parse ((cutHeader.take 24).drop 20) = .error (.udpTruncated 4) ∧
      openDatagram (cutHeader.take 24) = .ok (.error (.header (.udpTruncated 4))) ∧
      ¬ HandedOn cutHeader 2000 none none 24 := by
  have ipParsed : IpRepr.parse (cutHeader.take 24) = .ok (⟨⟨10, 0, 0, 1⟩, ⟨10, 0, 0, 2⟩, 5, 24⟩, 20) := by decide +kernel
  have refused : UdpHeader.parse ((cutHeader.take 24).drop 20) = .error (.udpTruncated 4) := by decide +kernel
  refine ⟨by decide +kernel, refused, by decide +kernel, ?_⟩
  intro handed
  obtain ⟨ip, udpAt, udp, parsed, header, _⟩ := handed.parsed
  cases ipParsed.symm.trans parsed
  cases refused.symm.trans header

end UdpOptions.Proofs
