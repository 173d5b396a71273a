import UdpOptions.Proofs.Demultiplexer
import UdpOptions.Proofs.ReceivePath

/-! What a datagram keeps on its way. The kernel fills in fields of the IPv4 header
that a raw socket hands it, and every router rewrites some of them. The receive path
reads none of these fields except to verify the header checksum over them, so it takes
a rewritten datagram whose checksum verifies for the one that was written. -/

namespace UdpOptions.Proofs
open Library Model

/-- A datagram without the IPv4 fields that change on the way: type of service,
Identification, flags and fragment offset, time to live, and header checksum. -/
def imprint : List UInt8 → List UInt8
  | version :: _ :: len0 :: len1 :: _ :: _ :: _ :: _ :: _ :: protocol :: _ :: _ :: rest =>
    version :: 0 :: len0 :: len1 :: 0 :: 0 :: 0 :: 0 :: 0 :: protocol :: 0 :: 0 :: rest
  | bytes => bytes

/-- The IPv4 header is well formed and its checksum verifies. -/
def Headed (bytes : List UInt8) : Prop := ∃ found, IpRepr.parse bytes = .ok found

/-- A datagram that the way may have made of another one, with an intact header. -/
structure Relays (written received : List UInt8) : Prop where
  same : imprint received = imprint written
  headed : Headed received

private theorem imprint_length (bytes : List UInt8) : (imprint bytes).length = bytes.length := by
  unfold imprint
  split <;> rfl

private theorem drop_imprint (bytes : List UInt8) (more : Nat) :
    (imprint bytes).drop (12 + more) = bytes.drop (12 + more) := by
  rw [← List.drop_drop, ← List.drop_drop]
  unfold imprint
  split <;> rfl

private def headerFields (bytes : List UInt8) : IpRepr × Nat :=
  (⟨⟨bytes.getD 12 0, bytes.getD 13 0, bytes.getD 14 0, bytes.getD 15 0⟩,
    ⟨bytes.getD 16 0, bytes.getD 17 0, bytes.getD 18 0, bytes.getD 19 0⟩,
    bytes.getD 0 0 &&& 0x0f, u16OfBe (bytes.getD 2 0) (bytes.getD 3 0)⟩, (bytes.getD 0 0 &&& 0x0f).toNat * 4)

private theorem headerFields_imprint (bytes : List UInt8) : headerFields (imprint bytes) = headerFields bytes := by
  unfold imprint
  split <;> rfl

private theorem parseV4_fields {bytes : List UInt8} {found : IpRepr × Nat} (parsed : IpRepr.parseV4 bytes = .ok found) :
    found = headerFields bytes := by
  unfold IpRepr.parseV4 at parsed
  split at parsed
  · dsimp only at parsed
    split at parsed
    · cases parsed
    split at parsed
    · cases parsed
    split at parsed
    · cases parsed
    split at parsed
    · cases parsed
    split at parsed
    · cases parsed
    · cases parsed
      rfl
  · cases parsed

private theorem parse_fields {bytes : List UInt8} {found : IpRepr × Nat} (parsed : IpRepr.parse bytes = .ok found) :
    found = headerFields bytes := by
  unfold IpRepr.parse at parsed
  split at parsed
  · cases parsed
  · split at parsed
    · exact parseV4_fields parsed
    · cases parsed

theorem openDatagram_headers {bytes : List UInt8} {opened : Opened} (opening : openDatagram bytes = .ok (.ok opened)) :
    IpRepr.parse bytes = .ok (opened.ip, opened.udpAt) ∧
      UdpHeader.parse ((bytes.take (opened.ip.headerLen + opened.ip.transportPayloadLen)).drop opened.udpAt) =
        .ok opened.udp := by
  refine ⟨openDatagram_parsed opening, ?_⟩
  have parsed := openDatagram_parsed opening
  have accepted := parse_accepted parsed
  have total : opened.ip.headerLen + opened.ip.transportPayloadLen = opened.ip.totalLen.toNat :=
    Nat.add_sub_cancel' accepted.total
  have offset := accepted.offset
  have inside := accepted.inside
  have header := accepted.total
  unfold openDatagram at opening
  rw [parsed] at opening
  dsimp only at opening
  rw [total] at opening ⊢
  rw [Checked.slice_of_le (Nat.zero_le _) inside, Checked.ok_bind, List.drop_zero,
    Checked.slice_of_le (by rw [List.length_take]; omega) (Nat.le_refl _), Checked.ok_bind, List.take_length] at opening
  cases udpParsed : UdpHeader.parse ((bytes.take opened.ip.totalLen.toNat).drop opened.udpAt) with
  | error error =>
    rw [udpParsed] at opening
    cases opening
  | ok udp =>
    rw [udpParsed] at opening
    dsimp only at opening
    split at opening
    · cases opening
    · obtain ⟨userData, _, opening⟩ := Checked.bind_eq_ok.mp opening
      split at opening
      · exact congrArg (fun found => Except.ok found.udp) (Except.ok.inj (Except.ok.inj opening))
      · obtain ⟨expected, _, opening⟩ := Checked.bind_eq_ok.mp opening
        split at opening
        · cases opening
        · exact congrArg (fun found => Except.ok found.udp) (Except.ok.inj (Except.ok.inj opening))

theorem openDatagram_datagram {bytes : List UInt8} {opened : Opened} (opening : openDatagram bytes = .ok (.ok opened)) :
    opened.datagram = bytes.take opened.ipEnd := by
  unfold openDatagram at opening
  split at opening
  · cases opening
  next ip udpAt parsed =>
    have accepted := parse_accepted parsed
    have total : ip.headerLen + ip.transportPayloadLen = ip.totalLen.toNat := Nat.add_sub_cancel' accepted.total
    dsimp only at opening
    rw [Checked.slice_of_le (Nat.zero_le _) (by rw [total]; exact accepted.inside), Checked.ok_bind] at opening
    obtain ⟨segment, _, opening⟩ := Checked.bind_eq_ok.mp opening
    split at opening
    · cases opening
    split at opening
    · cases opening
    obtain ⟨userData, _, opening⟩ := Checked.bind_eq_ok.mp opening
    split at opening
    · cases opening
      rfl
    obtain ⟨expected, _, opening⟩ := Checked.bind_eq_ok.mp opening
    split at opening
    · cases opening
    · cases opening
      rfl

theorem headed_of_opens {bytes : List UInt8} {opened : Opened} (opening : openDatagram bytes = .ok (.ok opened)) :
    Headed bytes := ⟨_, openDatagram_parsed opening⟩

/-- Two opened datagrams that are alike behind the first twelve bytes of their headers. -/
structure Alike (opened other : Opened) : Prop where
  ip : other.ip = opened.ip
  udpAt : other.udpAt = opened.udpAt
  ipEnd : other.ipEnd = opened.ipEnd
  udp : other.udp = opened.udp
  userData : other.userData = opened.userData
  behind : ∀ start, 12 ≤ start → other.datagram.drop start = opened.datagram.drop start

namespace Relays
variable {written received : List UInt8} {opened : Opened}

theorem length (relays : Relays written received) : received.length = written.length := by
  rw [← imprint_length received, relays.same, imprint_length]

private theorem behind (relays : Relays written received) {start : Nat} (inner : 12 ≤ start) :
    received.drop start = written.drop start := by
  obtain ⟨more, rfl⟩ := Nat.exists_eq_add_of_le inner
  rw [← drop_imprint received, relays.same, drop_imprint]

private theorem within (relays : Relays written received) {start : Nat} (inner : 12 ≤ start) (stop : Nat) :
    (received.take stop).drop start = (written.take stop).drop start := by
  rw [List.drop_take, List.drop_take, relays.behind inner]

theorem parsed (relays : Relays written received) {found : IpRepr × Nat} (parsed : IpRepr.parse written = .ok found) :
    IpRepr.parse received = .ok found := by
  obtain ⟨again, reparsed⟩ := relays.headed
  rw [reparsed, parse_fields reparsed, parse_fields parsed, ← headerFields_imprint received, relays.same,
    headerFields_imprint]

/-- The rewritten datagram opens, to the same headers and the same data. -/
theorem opens (relays : Relays written received) (opening : openDatagram written = .ok (.ok opened)) :
    ∃ again, openDatagram received = .ok (.ok again) ∧ Alike opened again := by
  obtain ⟨well, checked⟩ := openDatagram_well opening
  obtain ⟨ipParsed, udpParsed⟩ := openDatagram_headers opening
  have header := well.header
  have ipAgain := relays.parsed ipParsed
  have total : opened.ip.totalLen.toNat = opened.ipEnd :=
    (Nat.add_sub_cancel' (parse_accepted ipParsed).total).symm.trans well.stop.symm
  rw [← well.stop, ← relays.within (by omega) opened.ipEnd] at udpParsed
  have datagram := openDatagram_datagram opening
  rcases openDatagram_total received with ⟨error, _, fault⟩ | ⟨again, reopening, againWell, _⟩
  · -- a fault of the rewritten datagram would be one of the written datagram
    exfalso
    cases fault with
    | ip refused => cases refused.symm.trans ipAgain
    | udp parsed refused =>
      cases parsed.symm.trans ipAgain
      rw [total] at refused
      cases refused.symm.trans udpParsed
    | length parsed parsedUdp exceeds =>
      cases parsed.symm.trans ipAgain
      rw [total] at parsedUdp
      cases parsedUdp.symm.trans udpParsed
      have room := well.room
      have stop := well.stop
      have offset := well.offset
      omega
    | @checksum ip udpAt udp expected parsed parsedUdp used computed wrong =>
      cases parsed.symm.trans ipAgain
      rw [total] at parsedUdp
      cases parsedUdp.symm.trans udpParsed
      have data : (received.take (opened.udpAt + opened.udp.length.toNat)).drop (opened.udpAt + UdpHeader.headerLen) =
          opened.userData := by
        rw [relays.within (by omega), well.userData, datagram, List.take_take, Nat.min_eq_left well.room]
        rfl
      rw [data] at computed
      exact wrong (Except.ok.inj (computed.symm.trans (checked.resolve_left used)))
  · obtain ⟨againIp, againUdp⟩ := openDatagram_headers reopening
    have headers := Except.ok.inj (againIp.symm.trans ipAgain)
    have ip : again.ip = opened.ip := congrArg Prod.fst headers
    have udpAt : again.udpAt = opened.udpAt := congrArg Prod.snd headers
    have ipEnd : again.ipEnd = opened.ipEnd := by rw [againWell.stop, ip, ← well.stop]
    rw [ip, udpAt, ← well.stop] at againUdp
    have udp : again.udp = opened.udp := Except.ok.inj (againUdp.symm.trans udpParsed)
    have behind : ∀ start, 12 ≤ start → again.datagram.drop start = opened.datagram.drop start := by
      intro start inner
      rw [openDatagram_datagram reopening, datagram, ipEnd, relays.within inner]
    refine ⟨again, reopening, ip, udpAt, ipEnd, udp, ?_, behind⟩
    rw [againWell.userData, well.userData, udpAt, udp, List.drop_take, List.drop_take, behind _ (by omega)]

end Relays

namespace Alike
variable {opened other : Opened} (alike : Alike opened other) (well : WellOpened opened)
include alike well

private theorem lengths : other.datagram.length = opened.datagram.length := by
  have sizes := congrArg List.length (alike.behind 12 (Nat.le_refl _))
  have length := well.length
  have header := well.header
  have room := well.room
  rw [List.length_drop, List.length_drop] at sizes
  omega

private theorem judged : judgeSurplus other = judgeSurplus opened := by
  have header := well.header
  have start : surplusStart opened = opened.udpAt + opened.udp.length.toNat := rfl
  have length := alike.lengths well
  have pad : ∀ position, 12 ≤ position →
      Checked.index other.datagram position = Checked.index opened.datagram position := by
    intro position inner
    have heads := congrArg (fun area => area[0]?) (alike.behind position inner)
    simp only [List.getElem?_drop, Nat.add_zero] at heads
    unfold Checked.index
    rw [heads]
  have body : ∀ front stop, 12 ≤ front →
      Checked.slice other.datagram front stop = Checked.slice opened.datagram front stop := by
    intro front stop inner
    unfold Checked.slice
    rw [length, List.drop_take, List.drop_take, alike.behind front inner]
  unfold judgeSurplus
  rw [alike.ip, alike.udp, alike.ipEnd, well.locate]
  split_ifs with room
  · dsimp only
    rw [pad _ (by omega), body _ _ (by simp only [SurplusLayout.ocsAt]; omega)]
  · rfl

variable (crc32c : List UInt8 → UInt32)

theorem disposed : dispositionOf crc32c other = dispositionOf crc32c opened := by
  unfold dispositionOf disposeOpened
  rw [alike.judged well, alike.udpAt, alike.userData]
  have parsed : ∀ status found, disposeParsed other status found = disposeParsed opened status found := by
    intro status found
    unfold disposeParsed
    rw [alike.userData, alike.ip, alike.udp]
  simp only [parsed]

private theorem handles (cache : ReassemblyCache) (now : Nat) :
    handled crc32c other cache now = handled crc32c opened cache now := by
  have header := well.header
  have inserted : ∀ frag options reports status,
      insertionOf other frag options reports status now = insertionOf opened frag options reports status now := by
    intro frag options reports status
    unfold insertionOf fragmentData
    rw [alike.ip, alike.udp, alike.udpAt, alike.behind _ (by omega)]
  have rebuilt : ∀ reassembled, handOn crc32c other reassembled = handOn crc32c opened reassembled := by
    intro reassembled
    funext after
    unfold handOn rebuiltOpened
    rw [alike.ip, alike.udp]
  unfold handled
  rw [alike.disposed well crc32c]
  simp only [inserted, rebuilt]

end Alike

/-- The pipeline takes a rewritten datagram for the one that was written. -/
theorem Relays.processed {written received : List UInt8} {opened : Opened} (relays : Relays written received)
    (opening : openDatagram written = .ok (.ok opened)) (crc32c : List UInt8 → UInt32) (cache : ReassemblyCache)
    (now : Nat) : processDatagram crc32c received cache now = processDatagram crc32c written cache now := by
  obtain ⟨again, reopening, alike⟩ := relays.opens opening
  rw [processDatagram_opened crc32c reopening, processDatagram_opened crc32c opening,
    alike.handles (openDatagram_well opening).1]

end UdpOptions.Proofs
