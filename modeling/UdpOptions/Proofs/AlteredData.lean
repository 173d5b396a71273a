import UdpOptions.Proofs.Link

/-! Datagrams with other user data. The headers and the surplus area are read without a
look at the user data, so a datagram whose user data are replaced by as many other bytes
is refused for its UDP checksum, or it opens to the other data with the same options area. -/

namespace UdpOptions.Proofs
open Library Model

section
variable {bytes other : List UInt8} {ip : IpRepr} {udpAt : Nat}

private theorem parseV4_header (parsed : IpRepr.parseV4 bytes = .ok (ip, udpAt))
    (same : other.take udpAt = bytes.take udpAt)
    (inside : ip.totalLen.toNat ≤ other.length) : IpRepr.parseV4 other = .ok (ip, udpAt) := by
  have accepted := parseV4_accepted parsed
  have header := accepted.header
  have offset := accepted.offset
  have front : other.take 20 = bytes.take 20 := by
    have shorter := congrArg (List.take 20) same
    rwa [List.take_take, List.take_take, Nat.min_eq_left (by omega)] at shorter
  obtain ⟨rest, split⟩ : ∃ rest, other = bytes.take 20 ++ rest := ⟨other.drop 20, by rw [← front, List.take_append_drop]⟩
  unfold IpRepr.parseV4 at parsed
  split at parsed
  · dsimp only at parsed
    split at parsed
    · cases parsed
    next proper =>
    split at parsed
    · cases parsed
    split at parsed
    · cases parsed
    next lengths =>
    split at parsed
    · cases parsed
    next protocol =>
    split at parsed
    · cases parsed
    next checksum =>
    cases parsed
    push Not at lengths
    dsimp only at inside
    simp only [List.take_succ_cons, List.take_zero, List.cons_append, List.nil_append] at split
    rw [← same] at checksum
    subst split
    rw [IpRepr.parseV4]
    rw [if_neg proper, if_neg (by omega), if_neg (by omega), if_neg protocol, if_neg checksum]
  · cases parsed

private theorem parse_header (parsed : IpRepr.parse bytes = .ok (ip, udpAt))
    (same : other.take udpAt = bytes.take udpAt)
    (inside : ip.totalLen.toNat ≤ other.length) : IpRepr.parse other = .ok (ip, udpAt) := by
  have accepted := parse_accepted parsed
  obtain ⟨more, size⟩ : ∃ more, udpAt = more + 1 :=
    Nat.exists_eq_succ_of_ne_zero (by have := accepted.header; have := accepted.offset; omega)
  unfold IpRepr.parse at parsed
  split at parsed
  · cases parsed
  next versionOctet rest =>
    split at parsed
    next version =>
      have whole := parseV4_header parsed same inside
      cases other with
      | nil =>
        rw [size, List.take_nil, List.take_succ_cons] at same
        cases same
      | cons first others =>
        rw [size, List.take_succ_cons, List.take_succ_cons] at same
        cases (List.cons.inj same).1
        rw [IpRepr.parse, if_pos version]
        exact whole
    · cases parsed

private theorem udp_parse_header {udp : UdpHeader} (parsed : UdpHeader.parse bytes = .ok udp)
    (same : other.take 8 = bytes.take 8) : UdpHeader.parse other = .ok udp := by
  rw [← List.take_append_drop 8 other, same]
  exact udp_parse_front parsed (Nat.le_refl 8) _

end

def withUserData (opened : Opened) (data : List UInt8) : List UInt8 :=
  opened.datagram.take (opened.udpAt + 8) ++ (data ++ opened.datagram.drop (surplusStart opened))

structure Altered (opened altered : Opened) (data : List UInt8) : Prop where
  ip : altered.ip = opened.ip
  udpAt : altered.udpAt = opened.udpAt
  udp : altered.udp = opened.udp
  ipEnd : altered.ipEnd = opened.ipEnd
  userData : altered.userData = data
  surplus : altered.datagram.drop (surplusStart opened) = opened.datagram.drop (surplusStart opened)

private theorem withUserData_length {opened : Opened} (well : WellOpened opened) {data : List UInt8}
    (same : data.length = opened.userData.length) : (withUserData opened data).length = opened.ipEnd := by
  have length := well.length
  have room := well.room
  have userData := well.userData_length
  simp only [withUserData, List.length_append, List.length_take, List.length_drop, surplusStart]
  omega

/-- With as many other bytes of user data a datagram is refused, or opens with the same
headers and the same surplus area. -/
theorem openDatagram_altered {opened : Opened} (opening : openDatagram opened.datagram = .ok (.ok opened))
    {data : List UInt8} (same : data.length = opened.userData.length) :
    (∃ error, openDatagram (withUserData opened data) = .ok (.error error)) ∨
      ∃ altered, openDatagram (withUserData opened data) = .ok (.ok altered) ∧ Altered opened altered data := by
  rcases openDatagram_total (withUserData opened data) with ⟨error, refused, _⟩ | ⟨altered, accepted, alteredWell, _⟩
  · exact .inl ⟨error, refused⟩
  refine .inr ⟨altered, accepted, ?_⟩
  obtain ⟨well, _⟩ := openDatagram_well opening
  obtain ⟨ipParsed, udpParsed⟩ := openDatagram_headers opening
  obtain ⟨alteredIp, alteredUdp⟩ := openDatagram_headers accepted
  have length := well.length
  have room := well.room
  have minimal := well.minimal
  have whole := withUserData_length well same
  have dataLength := well.userData_length
  have total := (parse_accepted ipParsed).inside
  have front : (withUserData opened data).take (opened.udpAt + 8) = opened.datagram.take (opened.udpAt + 8) := by
    apply List.take_left'
    rw [List.length_take]
    omega
  have ipSame : (withUserData opened data).take opened.udpAt = opened.datagram.take opened.udpAt := by
    have shorter := congrArg (List.take opened.udpAt) front
    rwa [List.take_take, List.take_take, Nat.min_eq_left (Nat.le_add_right _ 8)] at shorter
  have headers := (parse_header ipParsed ipSame (by omega)).symm.trans alteredIp
  have ip : altered.ip = opened.ip := (congrArg Prod.fst (Except.ok.inj headers)).symm
  have udpAt : altered.udpAt = opened.udpAt := (congrArg Prod.snd (Except.ok.inj headers)).symm
  have ipEnd : altered.ipEnd = opened.ipEnd := by rw [alteredWell.stop, ip, well.stop]
  have stop := well.stop
  rw [ip, udpAt, ← stop, List.take_of_length_le (Nat.le_of_eq whole)] at alteredUdp
  rw [← stop, List.take_of_length_le (Nat.le_of_eq length)] at udpParsed
  have udpSame : ((withUserData opened data).drop opened.udpAt).take 8 = (opened.datagram.drop opened.udpAt).take 8 := by
    have later := congrArg (List.drop opened.udpAt) front
    rwa [List.drop_take, List.drop_take, Nat.add_sub_cancel_left] at later
  have udp : altered.udp = opened.udp := (Except.ok.inj ((udp_parse_header udpParsed udpSame).symm.trans alteredUdp)).symm
  have datagram : altered.datagram = withUserData opened data := by
    rw [openDatagram_datagram accepted, ipEnd, ← whole, List.take_length]
  have headersLength : (opened.datagram.take (opened.udpAt + 8)).length = opened.udpAt + 8 := by
    rw [List.length_take]
    omega
  have behind : (withUserData opened data).drop (opened.udpAt + 8) = data ++ opened.datagram.drop (surplusStart opened) :=
    List.drop_left' headersLength
  have starts : surplusStart opened = opened.udpAt + 8 + data.length := by
    rw [surplusStart]
    omega
  refine ⟨ip, udpAt, udp, ipEnd, ?_, ?_⟩
  · rw [alteredWell.userData, datagram, udpAt, udp, ← surplusStart, List.drop_take, behind, starts,
      Nat.add_sub_cancel_left, List.take_left]
  · rw [datagram, starts, ← List.drop_drop, behind, List.drop_left, starts]

namespace Altered
variable {opened altered : Opened} {data : List UInt8} (same : Altered opened altered data)
include same

private theorem surplusStart_eq : surplusStart altered = surplusStart opened := by
  rw [surplusStart, surplusStart, same.udpAt, same.udp]

private theorem ocsStart_eq : ocsStart altered = ocsStart opened := by
  rw [ocsStart, ocsStart, surplusPad, surplusPad, same.surplusStart_eq]

private theorem surplusBody_eq : surplusBody altered = surplusBody opened := by
  rw [surplusBody, surplusBody, same.ocsStart_eq, ocsStart, ← List.drop_drop, ← List.drop_drop, same.surplus]

theorem optionsArea_eq : optionsArea altered = optionsArea opened := by
  rw [optionsArea, optionsArea, same.surplusBody_eq]

theorem trusted {status : OcsStatus} (trusted : Trusted opened status) : Trusted altered status := by
  have verdict : ocsVerdict altered = ocsVerdict opened := by
    rw [ocsVerdict, ocsVerdict, same.surplusBody_eq, same.ipEnd, same.surplusStart_eq, same.udp]
  have first : altered.datagram[surplusStart opened]? = opened.datagram[surplusStart opened]? := by
    have pads := congrArg (fun area => area[0]?) same.surplus
    simpa using pads
  refine ⟨?_, ?_, ?_⟩
  · rw [same.ocsStart_eq, same.ipEnd]
    exact trusted.room
  · rw [surplusPad, same.surplusStart_eq, first]
    exact trusted.pad
  · rw [verdict]
    exact trusted.ocs

end Altered

end UdpOptions.Proofs
