import UdpOptions.EvalCheck
import UdpOptions.Proofs.CanonicalForm
import UdpOptions.Proofs.Checksums
import UdpOptions.Proofs.SendPath

/-! What the independent checker makes of sent datagrams. Its packet constructor takes
every datagram that the sender assembles, and its option scan reads in the surplus area
what the iterator of the library reads. -/

namespace UdpOptions.Proofs
open Library Model EvalCheck

theorem intFromBytes_u16Be (value : UInt16) : intFromBytes (u16Be value) = value.toNat := by
  have bound := value.toNat_lt
  simp only [intFromBytes, u16Be, List.foldl_cons, List.foldl_nil, UInt8.toNat_ofNat']
  omega

theorem intFromBytes_u32Be (value : UInt32) : intFromBytes (u32Be value) = value.toNat := by
  have bound := value.toNat_lt
  simp only [intFromBytes, u32Be, List.foldl_cons, List.foldl_nil, UInt8.toNat_ofNat']
  omega

theorem intFromBytes_pair (high low : UInt8) : intFromBytes [high, low] = (u16OfBe high low).toNat := by
  rw [← u16Be_u16OfBe, intFromBytes_u16Be]

private theorem pairTotal_pair (high low : UInt8) (rest : List UInt8) :
    pairTotal (high :: low :: rest) = high.toNat * 256 + low.toNat + pairTotal rest := by
  rw [pairTotal, ← Nat.shiftLeft_add_eq_or_of_lt low.toNat_lt, Nat.shiftLeft_eq]

private theorem pairTotal_padded (data : List UInt8) :
    pairTotal (if data.length % 2 = 1 then data ++ [0] else data) = wordSum data := by
  induction data using wordSum.induct with
  | case1 => rfl
  | case2 last =>
    change pairTotal (last :: 0 :: []) = last.toNat * 256
    rw [pairTotal_pair]
    simp [pairTotal]
  | case3 high low rest ih =>
    have parity : (high :: low :: rest).length % 2 = rest.length % 2 := by
      rw [List.length_cons, List.length_cons]
      omega
    rw [parity, wordSum, ← ih]
    split <;> exact pairTotal_pair high low _

/-- The checker folds the same exact sum as the accumulator of the library. -/
theorem fold16_eq (data : List UInt8) (extraWords : List Nat) :
    fold16 data extraWords = onesResidue (wordSum data + extraWords.sum) := by
  rw [fold16, foldCarries_eq (Nat.le_refl _), pairTotal_padded]

structure Captured (packet : Packet) (udp : UdpHeader) (body : List UInt8) : Prop where
  ihl : packet.ihl = 20
  udpLen : packet.udpLen = udp.length.toNat
  userData : packet.userData = body.take (udp.length.toNat - 8)
  surplus : packet.surplus = body.drop (udp.length.toNat - 8)

section
variable {src dst : Ipv4Addr} {udp : UdpHeader} {body : List UInt8}

theorem take_udp (stop : Nat) (proper : 8 ≤ stop) :
    (udp.bytes ++ body).take stop = udp.bytes ++ body.take (stop - 8) := by
  rw [List.take_append, bytes_length, List.take_of_length_le (by rw [bytes_length]; exact proper)]

private theorem ofUdp_written (ip : IpRepr) (field : UInt16) (totalLen : Nat) (proper : 8 ≤ udp.length.toNat)
    (inside : udp.length.toNat ≤ 8 + body.length)
    (checked : udp.checksum = 0 ∨ { udp with checksum := 0 : UdpHeader }.computeChecksum ip
      (body.take (udp.length.toNat - 8)) = .ok udp.checksum) :
    ∃ packet, Packet.ofUdp (ip.headerBytes field ++ (udp.bytes ++ body)) 20 totalLen = .ok packet ∧
      Captured packet udp body := by
  have udpLen : intFromBytes (slice (udp.bytes ++ body) 4 6) = udp.length.toNat := intFromBytes_u16Be _
  have udpChecksum : intFromBytes (slice (udp.bytes ++ body) 6 8) = udp.checksum.toNat := intFromBytes_u16Be _
  have behind : (ip.headerBytes field ++ (udp.bytes ++ body)).drop 20 = udp.bytes ++ body := rfl
  have addresses : slice (ip.headerBytes field ++ (udp.bytes ++ body)) 12 20 = ip.src.toList ++ ip.dst.toList := rfl
  have room : udp.length.toNat ≤ (udp.bytes ++ body).length := by
    rw [List.length_append, bytes_length]
    exact inside
  have valid : ¬ (udp.checksum.toNat ≠ 0 ∧ fold16 (ip.src.toList ++ ip.dst.toList ++ [0x00, 0x11] ++
      u16Be udp.length ++ (udp.bytes ++ body.take (udp.length.toNat - 8))) [] ≠ 0xffff) := by
    rintro ⟨used, wrong⟩
    have nonzero : udp.checksum ≠ 0 := fun zero => used (congrArg UInt16.toNat zero)
    have lengths : udp.length.toNat = 8 + (body.take (udp.length.toNat - 8)).length := by
      rw [List.length_take]
      omega
    apply wrong
    rw [fold16_eq, List.sum_nil, Nat.add_zero, ← List.append_assoc]
    exact (computeChecksum_completes nonzero lengths).mp (checked.resolve_left nonzero)
  unfold Packet.ofUdp
  dsimp only
  rw [behind, addresses, udpLen, udpChecksum, UInt16.ofNat_toNat, take_udp _ proper,
    if_neg (not_not.mpr ⟨proper, room⟩), if_neg valid]
  refine ⟨_, rfl, rfl, rfl, ?_, ?_⟩
  · change slice (udp.bytes ++ body) 8 udp.length.toNat = _
    rw [slice, take_udp _ proper]
    rfl
  · change (udp.bytes ++ body).drop udp.length.toNat = _
    rw [List.drop_append, bytes_length, List.drop_of_length_le (by rw [bytes_length]; exact proper)]
    rfl

private theorem new_datagramBytes (small : 28 + body.length < 2 ^ 16) (proper : 8 ≤ udp.length.toNat)
    (inside : udp.length.toNat ≤ 8 + body.length) (checked : ChecksumHolds (writtenOpened src dst udp body)) :
    ∃ packet, Packet.new (datagramBytes src dst udp body) = .ok (.ok packet) ∧ Captured packet udp body := by
  have length := datagramBytes_length src dst udp body
  have announced := writtenIp_totalLen src dst small
  have totalLen : intFromBytes (slice (datagramBytes src dst udp body) 2 4) = 28 + body.length :=
    (intFromBytes_u16Be _).trans announced
  have whole : (datagramBytes src dst udp body).take (28 + body.length) = datagramBytes src dst udp body :=
    List.take_of_length_le (Nat.le_of_eq length)
  have header : fold16 ((datagramBytes src dst udp body).take 20) [] = 0xffff := by
    have verifies := congrArg UInt16.toNat (headerBytes_verifies (writtenIp src dst body.length))
    rw [internetChecksum_toNat] at verifies
    have bound := onesResidue_le (wordSum ((writtenIp src dst body.length).headerBytes
      (internetChecksum ((writtenIp src dst body.length).headerBytes 0))))
    have front : (datagramBytes src dst udp body).take 20 = (writtenIp src dst body.length).headerBytes
      (internetChecksum ((writtenIp src dst body.length).headerBytes 0)) := rfl
    have zero : (0 : UInt16).toNat = 0 := rfl
    rw [fold16_eq, List.sum_nil, Nat.add_zero, front]
    omega
  obtain ⟨packet, built, captured⟩ := @ofUdp_written udp body (writtenIp src dst body.length)
    (internetChecksum ((writtenIp src dst body.length).headerBytes 0)) (28 + body.length) proper inside checked
  refine ⟨packet, ?_, captured⟩
  have version : Checked.index (datagramBytes src dst udp body) 0 = .ok 0x45 := rfl
  have protocol : Checked.index (datagramBytes src dst udp body) 9 = .ok 17 := rfl
  have flags : intFromBytes (slice (datagramBytes src dst udp body) 6 8) = 0 := rfl
  have ihl : ((0x45 : UInt8) &&& 0x0f).toNat * 4 = 20 := rfl
  have filled : (datagramBytes src dst udp body).isEmpty = false := rfl
  unfold Packet.new
  simp only [filled, version, Checked.ok_bind, ihl, totalLen, whole, header, protocol, flags, length]
  rw [if_neg Bool.false_ne_true, if_neg (by decide), if_neg (by omega), if_neg (by omega), if_neg (by omega),
    if_neg (not_not.mpr rfl), if_neg (not_not.mpr rfl), if_neg (by omega),
    if_neg (by decide)]
  exact congrArg Except.ok built

end

structure Carries (packet : Packet) (payload body : List UInt8) : Prop where
  ihl : packet.ihl = 20
  udpLen : packet.udpLen = 8 + payload.length
  userData : packet.userData = payload
  surplus : packet.surplus = sentSurplus payload.length body

private theorem assembleDatagram_carries {src dst : Ipv4Addr} {srcPort dstPort : UInt16}
    {payload body datagram : List UInt8}
    (led : body = [] ∨ 2 ≤ body.length) (small : sentLen payload.length body.length < 2 ^ 16)
    (assembled : assembleDatagram src dst srcPort dstPort payload body = .ok datagram) :
    ∃ packet, Packet.new datagram = .ok (.ok packet) ∧ Carries packet payload body := by
  obtain ⟨checksum, computed, _, whole⟩ := assembleDatagram_eq src dst srcPort dstPort led small
  cases assembled.symm.trans whole
  have total := @sentSurplus_length payload.length body led
  have bodyLength := sentBody_length payload body
  have udpLength := sentUdp_length srcPort dstPort checksum (show 8 + payload.length < 2 ^ 16 by omega)
  have front : (sentBody payload body).take (8 + payload.length - 8) = payload := by
    rw [Nat.add_sub_cancel_left]
    exact List.take_left
  have back : (sentBody payload body).drop (8 + payload.length - 8) = sentSurplus payload.length body := by
    rw [Nat.add_sub_cancel_left]
    exact List.drop_left
  have checked : ChecksumHolds (writtenOpened src dst (sentUdp srcPort dstPort payload.length checksum)
      (sentBody payload body)) := by
    refine .inr ?_
    change UdpHeader.computeChecksum (sentUdp srcPort dstPort payload.length 0) _ ((sentBody payload body).take _) = _
    rw [udpLength, front]
    exact computed
  obtain ⟨packet, built, captured⟩ := @new_datagramBytes src dst (sentUdp srcPort dstPort payload.length checksum)
    (sentBody payload body) (by omega) (by omega) (by omega) checked
  refine ⟨packet, built, captured.ihl, captured.udpLen.trans udpLength, ?_, ?_⟩
  · rw [captured.userData, udpLength, front]
  · rw [captured.surplus, udpLength, back]

theorem fieldValue_toNat (zeroed : List UInt8) (surplusLen : UInt16) :
    (Ocs.fieldValue zeroed surplusLen).toNat =
      if 0xffff - onesResidue (wordSum zeroed + surplusLen.toNat) = 0 then 0xffff
      else 0xffff - onesResidue (wordSum zeroed + surplusLen.toNat) := by
  have finished := ((sums_new.addSlice zeroed).addU16 surplusLen).finish
  rw [Nat.zero_add] at finished
  rw [← finished]
  unfold Ocs.fieldValue
  dsimp only
  split
  next zero => rw [zero, if_pos (show (0 : UInt16).toNat = 0 from rfl)]; rfl
  next nonzero =>
    rw [if_neg]
    exact fun vanished => nonzero (UInt16.toNat_inj.mp vanished)

/-- The tests in front of the options pass on a filled surplus area. -/
theorem validateSurplus_sent (crc32c : List UInt8 → UInt32) {packet : Packet} {payload body : List UInt8}
    (carries : Carries packet payload body) (led : 2 ≤ body.length) (small : sentLen payload.length body.length < 2 ^ 16) :
    validateSurplus crc32c packet = validateRegion crc32c packet (payload.length % 2) (body.drop 2) := by
  have surplus := carries.surplus.trans (sentSurplus_full payload.length led)
  have filled := @filledBody_length payload.length body led
  have length : packet.surplus.length = payload.length % 2 + body.length := by
    rw [surplus, List.length_append, List.length_replicate, filled]
  have short : payload.length % 2 + body.length < 2 ^ 16 := by
    unfold sentLen at small
    rw [if_neg (by omega)] at small
    omega
  have padLen : (if (packet.ihl + packet.udpLen) % 2 = 1 then 1 else 0) = payload.length % 2 := by
    rw [carries.ihl, carries.udpLen]
    split <;> omega
  have behind : packet.surplus.drop (payload.length % 2) = filledBody payload.length body := by
    rw [surplus]
    exact List.drop_left' List.length_replicate
  have zeroPad : ∃ first, Checked.index packet.surplus 0 = .ok first ∧ ¬ (payload.length % 2 ≠ 0 ∧ first ≠ 0) := by
    rcases Nat.mod_two_eq_zero_or_one payload.length with even | odd
    · exact ⟨_, Checked.index_of_lt (by omega), fun both => both.1 even⟩
    · refine ⟨0, ?_, fun both => both.2 rfl⟩
      rw [surplus, odd]
      rfl
  have stored : intFromBytes ((filledBody payload.length body).take 2) =
      (Ocs.fieldValue (0 :: 0 :: body.drop 2) (UInt16.ofNat (payload.length % 2 + body.length))).toNat :=
    intFromBytes_u16Be _
  have derived : fold16 ([0, 0] ++ (filledBody payload.length body).drop 2) [packet.surplus.length] =
      onesResidue (wordSum (0 :: 0 :: body.drop 2) + (UInt16.ofNat (payload.length % 2 + body.length)).toNat) := by
    rw [fold16_eq, length, UInt16.toNat_ofNat_of_lt' short, List.sum_singleton]
    rfl
  have nonzero := fieldValue_ne_zero (0 :: 0 :: body.drop 2) (UInt16.ofNat (payload.length % 2 + body.length))
  obtain ⟨first, indexed, padded⟩ := zeroPad
  unfold validateSurplus
  simp only [padLen, length, indexed, behind, Checked.ok_bind]
  rw [length] at derived
  rw [if_neg (by omega), if_neg padded, stored, derived, if_neg, if_neg]
  · rfl
  · rw [← fieldValue_toNat]
    exact fun both => both.2 rfl
  · exact fun both => nonzero (UInt16.toNat_inj.mp both.1)

def parsedToken : Token → ParsedOption
  | .nop => ⟨1, 1, []⟩
  | .short kind value => ⟨kind, value.length + 2, value⟩
  | .extended kind value => ⟨kind, value.length + 4, value⟩

theorem parsedToken_totalLen (token : Token) : (parsedToken token).totalLen = token.bytes.length := by
  cases token with
  | nop => rfl
  | short kind value => rfl
  | extended kind value =>
    simp only [parsedToken, Token.bytes, List.length_cons, List.length_append, u16Be_length]
    omega

theorem Token.bytes_pos (token : Token) : 0 < token.bytes.length := by cases token <;> exact Nat.succ_pos _

private theorem index_behind (front back : List UInt8) (position : Nat) :
    Checked.index (front ++ back) (front.length + position) = Checked.index back position := by
  rw [Checked.index, List.getElem?_append_right (Nat.le_add_right _ _), Nat.add_sub_cancel_left]
  rfl

private theorem slice_behind_front (front back : List UInt8) (start stop : Nat) :
    slice (front ++ back) (front.length + start) (front.length + stop) = slice back start stop := by
  rw [slice, List.take_length_add_append, List.drop_length_add_append]
  rfl

theorem parseOption_behind (front back : List UInt8) (limit : Nat) :
    parseOption (front ++ back) front.length (front.length + limit) = parseOption back 0 limit := by
  have kindByte := index_behind front back 0
  unfold parseOption
  simp only [Nat.add_zero] at kindByte
  simp only [kindByte, index_behind, slice_behind_front, Nat.add_lt_add_iff_left, Nat.zero_add]

private theorem parseOption_token {token : Token} (proper : token.Proper) (rest : List UInt8) {limit : Nat}
    (inside : token.bytes.length ≤ limit) :
    parseOption (token.bytes ++ rest) 0 limit = .ok (.ok (parsedToken token)) := by
  cases token with
  | nop => rfl
  | short kind value =>
    have other : ¬ (kind = 0 ∨ kind = 1) := not_or.mpr (isTlvKind_iff.mpr proper.1)
    have kindByte : Checked.index ((Token.short kind value).bytes ++ rest) 0 = .ok kind := rfl
    have lengthByte : Checked.index ((Token.short kind value).bytes ++ rest) (0 + 1) =
      .ok (UInt8.ofNat (value.length + 2)) := rfl
    have length : (Token.short kind value).bytes.length = value.length + 2 := rfl
    have unmarked : UInt8.ofNat (value.length + 2) ≠ 255 := proper.unmarked
    have read : slice ((Token.short kind value).bytes ++ rest) (0 + 2) (0 + (value.length + 2)) = value := by
      simp [slice, Token.bytes]
    unfold parseOption
    simp only [kindByte, lengthByte, Checked.ok_bind, proper.length_byte, read]
    rw [if_neg other, if_neg (by omega), if_neg unmarked, if_neg (by omega), if_neg (by omega)]
    rfl
  | extended kind value =>
    have other : ¬ (kind = 0 ∨ kind = 1) := not_or.mpr (isTlvKind_iff.mpr proper.1)
    obtain ⟨high, low, bytes, word⟩ := proper.extended_bytes
    have length : (kind :: Kind.extendedLengthMarker :: high :: low :: value).length = value.length + 4 := rfl
    rw [bytes] at inside ⊢
    have kindByte : Checked.index (kind :: Kind.extendedLengthMarker :: high :: low :: value ++ rest) 0 = .ok kind := rfl
    have marker : Checked.index (kind :: Kind.extendedLengthMarker :: high :: low :: value ++ rest) (0 + 1) = .ok 255 := rfl
    have total : intFromBytes (slice (kind :: Kind.extendedLengthMarker :: high :: low :: value ++ rest) (0 + 2) (0 + 4)) =
      value.length + 4 := (intFromBytes_pair high low).trans word
    have read : slice (kind :: Kind.extendedLengthMarker :: high :: low :: value ++ rest) (0 + 4)
        (0 + (value.length + 4)) = value := by
      simp [slice]
    have long := proper.2.1
    unfold parseOption
    simp only [kindByte, marker, Checked.ok_bind, total, read]
    rw [if_neg other, if_neg (by omega), if_pos trivial, if_neg (by omega), if_neg (by omega), if_neg (by omega)]
    rfl

def checkedOption (option : RawOption) : ParsedOption := parsedToken (tokenOf option)

private theorem checkedOption_kind (option : RawOption) : (checkedOption option).kind = option.kind.toByte := by
  unfold checkedOption tokenOf
  split <;> rfl

private theorem checkedOption_value (option : RawOption) : (checkedOption option).value = option.value := by
  unfold checkedOption tokenOf
  split <;> rfl

private theorem lookup_unlisted {α : Type} {table : List (UInt8 × α)} {kind : UInt8}
    (unlisted : kind ∉ table.map Prod.fst) :
    table.lookup kind = none := by
  apply List.lookup_eq_none_iff.mpr
  intro entry member
  rw [bne_iff_ne]
  intro same
  exact unlisted (same ▸ List.mem_map_of_mem member)

theorem lookup_fixed (kind : UInt8) :
    fixedTotalLengths.lookup kind = if Serialize.fixedValueLens kind = [] then none
      else some ((Serialize.fixedValueLens kind).map (· + 2)) := by
  by_cases listed : kind ∈ fixedTotalLengths.map Prod.fst
  · have table : (fixedTotalLengths.map Prod.fst).all (fun kind => fixedTotalLengths.lookup kind =
        if Serialize.fixedValueLens kind = [] then none else some ((Serialize.fixedValueLens kind).map (· + 2))) := by
      decide
    exact of_decide_eq_true (List.all_eq_true.mp table kind listed)
  · have absent := lookup_unlisted listed
    have free : Serialize.fixedValueLens kind = [] := by
      simp only [fixedTotalLengths, List.map_cons, List.map_nil, List.mem_cons, List.not_mem_nil, or_false,
        not_or] at listed
      simp [Serialize.fixedValueLens, Kind.apc, Kind.frag, Kind.mds, Kind.mrds, Kind.req, Kind.res, listed]
    rw [absent, if_pos free]

/-- A scan that has gone on over bytes with the given options. -/
def advance (scan : Scan) (options : List ParsedOption) (consecutiveNops size : Nat) : Scan :=
  { scan with options := scan.options ++ options, consecutiveNops, offset := scan.offset + size }

def ended (scan : Scan) : Scan := { scan with eolEnd := some (scan.offset + 1) }

private theorem advance_advance (scan : Scan) (first second : List ParsedOption) (nops last size next : Nat) :
    advance (advance scan first nops size) second last next = advance scan (first ++ second) last (size + next) := by
  simp [advance, Nat.add_assoc]

section
variable {packet : Packet} {padLen : Nat} {region : List UInt8} {scan : Scan}

theorem Sendable.total_fixed {option : RawOption} (sendable : Sendable option) :
    ¬ ((fixedTotalLengths.lookup (checkedOption option).kind).any
      fun lengths => (checkedOption option).totalLen ∉ lengths) = true := by
  rw [checkedOption_kind, lookup_fixed]
  split
  · exact Bool.false_ne_true
  next fixed =>
    have listed := sendable.fixed.resolve_left fixed
    have short : option.value.length ≤ Serialize.defaultValueLenMax :=
      Nat.le_trans (fixedValueLens_small listed) (by decide)
    have total : (checkedOption option).totalLen = option.value.length + 2 := by
      rw [checkedOption, tokenOf, if_pos short]
      rfl
    have member : option.value.length + 2 ∈ (Serialize.fixedValueLens option.kind.toByte).map (· + 2) :=
      List.mem_map_of_mem listed
    rw [total, Option.any_some, decide_eq_true_iff]
    exact not_not.mpr member

private theorem scanLoop_token {front rest : List UInt8} {token : Token} {after : Scan} (fuel : Nat)
    (proper : token.Proper) (split : region = front ++ (token.bytes ++ rest)) (position : scan.offset = front.length)
    (inside : scan.limit = region.length) (visible : (parsedToken token).kind ≠ 0)
    (taken : takeOption packet padLen region scan (parsedToken token) = .ok after) :
    scanLoop packet padLen region (fuel + 1) scan =
      scanLoop packet padLen region fuel { after with offset := after.offset + token.bytes.length } := by
  have positive := token.bytes_pos
  have limit : scan.limit = front.length + (token.bytes.length + rest.length) := by
    rw [inside, split, List.length_append, List.length_append]
  have parsed : parseOption region scan.offset scan.limit = .ok (.ok (parsedToken token)) := by
    rw [limit, split, position, parseOption_behind]
    exact parseOption_token proper rest (Nat.le_add_right _ _)
  rw [scanLoop, if_neg (by omega), parsed, Checked.ok_bind]
  dsimp only
  rw [if_neg visible, taken, ← parsedToken_totalLen]

private theorem scanLoop_eol {front rest : List UInt8} (fuel : Nat) (split : region = front ++ Kind.eol :: rest)
    (position : scan.offset = front.length) (inside : scan.limit = region.length) :
    scanLoop packet padLen region (fuel + 1) scan = .ok (.ok (ended scan)) := by
  have limit : scan.limit = front.length + (rest.length + 1) := by
    rw [inside, split, List.length_append, List.length_cons]
  have parsed : parseOption region scan.offset scan.limit = .ok (.ok ⟨0, 1, []⟩) := by
    rw [limit, split, position, parseOption_behind]
    rfl
  rw [scanLoop, if_neg (by omega), parsed, Checked.ok_bind]
  rfl

private theorem scanLoop_nop {front rest : List UInt8} (fuel : Nat)
    (split : region = front ++ (Token.nop.bytes ++ rest))
    (position : scan.offset = front.length) (inside : scan.limit = region.length) (reset : scan.consecutiveNops = 0) :
    scanLoop packet padLen region (fuel + 1) scan = scanLoop packet padLen region fuel (advance scan [] 1 1) := by
  have proper : Token.nop.Proper := trivial
  have one : (parsedToken .nop).kind = 1 := rfl
  have taken : takeOption packet padLen region scan (parsedToken .nop) = .ok { scan with consecutiveNops := 1 } := by
    rw [takeOption, if_pos one, reset]
    rfl
  rw [scanLoop_token fuel proper split position inside (by decide) taken, advance, List.append_nil]
  rfl

private theorem scanLoop_sendable {front rest : List UInt8} {option : RawOption} (fuel : Nat)
    (sendable : Sendable option)
    (plain : option.kind.toByte ≠ Kind.frag) (split : region = front ++ ((tokenOf option).bytes ++ rest))
    (position : scan.offset = front.length) (inside : scan.limit = region.length) :
    scanLoop packet padLen region (fuel + 1) scan =
      scanLoop packet padLen region fuel (advance scan [checkedOption option] 0 (tokenOf option).bytes.length) := by
  have kind := checkedOption_kind option
  have taken : takeOption packet padLen region scan (checkedOption option) =
      .ok { scan with consecutiveNops := 0, options := scan.options ++ [checkedOption option] } := by
    unfold takeOption
    rw [if_neg (by rw [kind]; exact sendable.tlvKind.2), if_neg sendable.total_fixed, if_neg (by rw [kind]; exact plain)]
  refine scanLoop_token fuel sendable.token_proper split position inside ?_ taken
  exact fun zero => sendable.tlvKind.1 (kind.symm.trans zero)

theorem Aligned.scanned {offset : Nat} {options : List RawOption} {tokens : List Token}
    (aligned : Aligned offset options tokens) (sendable : ∀ option ∈ options, Sendable option) (noFrag : NoFrag options)
    {front fill : List UInt8} {fuel : Nat} (enough : tokens.length < fuel)
    (split : region = front ++ (tokens.flatMap Token.bytes ++ Kind.eol :: fill)) (position : scan.offset = front.length)
    (inside : scan.limit = region.length) (reset : scan.consecutiveNops = 0) :
    scanLoop packet padLen region fuel scan =
      .ok (.ok (ended (advance scan (options.map checkedOption) 0 (tokens.flatMap Token.bytes).length))) := by
  obtain ⟨fuel, rfl⟩ := Nat.exists_eq_add_of_lt enough
  clear enough
  induction aligned generalizing front scan fuel with
  | done =>
    rw [scanLoop_eol _ split position inside]
    simp [advance, reset, ended]
  | @even offset option options tokens even next ih =>
    obtain ⟨first, later⟩ := List.forall_mem_cons.mp sendable
    obtain ⟨plain, others⟩ := List.forall_mem_cons.mp noFrag
    rw [List.flatMap_cons, List.append_assoc] at split
    have behind := @ih (advance scan [checkedOption option] 0 (tokenOf option).bytes.length) later others
      (front ++ (tokenOf option).bytes) (by rw [split, List.append_assoc]) (by simp [advance, position]) inside rfl fuel
    have count : (tokenOf option :: tokens).length + fuel = tokens.length + fuel + 1 := by simp only [List.length_cons]; omega
    rw [scanLoop_sendable _ first plain split position inside, count, behind, advance_advance, List.flatMap_cons,
      List.length_append]
    rfl
  | @odd offset option options tokens odd next ih =>
    obtain ⟨first, later⟩ := List.forall_mem_cons.mp sendable
    obtain ⟨plain, others⟩ := List.forall_mem_cons.mp noFrag
    rw [List.flatMap_cons, List.flatMap_cons, List.append_assoc, List.append_assoc] at split
    have padded : region = (front ++ Token.nop.bytes) ++ ((tokenOf option).bytes ++
        (tokens.flatMap Token.bytes ++ Kind.eol :: fill)) := by
      rw [split, List.append_assoc]
    have aligned : (advance scan [] 1 1).offset = (front ++ Token.nop.bytes).length := by
      simp [advance, position, Token.bytes]
    have behind := @ih (advance (advance scan [] 1 1) [checkedOption option] 0 (tokenOf option).bytes.length) later others
      ((front ++ Token.nop.bytes) ++ (tokenOf option).bytes) (by simp only [padded, List.append_assoc])
      (by rw [List.length_append, ← aligned]; rfl) inside rfl fuel
    have count : (.nop :: tokenOf option :: tokens).length + fuel = tokens.length + fuel + 1 + 1 := by
      simp only [List.length_cons]
      omega
    rw [scanLoop_nop _ split position inside reset, count, scanLoop_sendable _ first plain padded aligned inside, behind,
      advance_advance, advance_advance, List.flatMap_cons, List.flatMap_cons, List.length_append, List.length_append]
    rfl

end

/-- The rank of the serializer is the checker's for the listed kinds, and otherwise
larger by a constant. -/
theorem canonicalRank_cases (kind : UInt8) :
    ((Serialize.canonicalRank kind).1 = EvalCheck.canonicalRank kind ∧ EvalCheck.canonicalRank kind ≤ 5) ∨
      ((Serialize.canonicalRank kind).1 = 994 + EvalCheck.canonicalRank kind ∧ 6 ≤ EvalCheck.canonicalRank kind) := by
  by_cases listed : kind ∈ canonicalRanks.map Prod.fst
  · have table : (canonicalRanks.map Prod.fst).all (fun kind =>
        (Serialize.canonicalRank kind).1 = EvalCheck.canonicalRank kind ∧ EvalCheck.canonicalRank kind ≤ 5) := by
      decide
    exact .inl (of_decide_eq_true (List.all_eq_true.mp table kind listed))
  · have absent := lookup_unlisted listed
    have rank : EvalCheck.canonicalRank kind = 6 + kind.toNat := by rw [EvalCheck.canonicalRank, absent, Option.getD_none]
    have large : (Serialize.canonicalRank kind).1 = 1000 + kind.toNat := by
      simp only [canonicalRanks, List.map_cons, List.map_nil, List.mem_cons, List.not_mem_nil, or_false,
        not_or] at listed
      simp [Serialize.canonicalRank, Kind.apc, Kind.frag, Kind.mds, Kind.mrds, Kind.req, Kind.res, listed]
    exact .inr ⟨by omega, by omega⟩

private theorem rankLe_checked {first second : RawOption} (ordered : Serialize.rankLe first second) :
    EvalCheck.canonicalRank first.kind.toByte ≤ EvalCheck.canonicalRank second.kind.toByte := by
  have left := canonicalRank_cases first.kind.toByte
  have right := canonicalRank_cases second.kind.toByte
  have below : (Serialize.canonicalRank first.kind.toByte).1 ≤ (Serialize.canonicalRank second.kind.toByte).1 :=
    ordered.elim Nat.le_of_lt fun same => Nat.le_of_eq same.1
  omega

private theorem count_checked {options : List RawOption} (noFrag : NoFrag options) (unrepeated : Unrepeated options) :
    ∀ kind ∈ fixedTotalLengths.map Prod.fst, (options.map fun option => option.kind.toByte).count kind ≤ 1 := by
  have count : ∀ kind : OptionKind,
      (options.map fun option => option.kind.toByte).count kind.toByte = (instances options kind).length := by
    intro kind
    rw [List.count_eq_countP, List.countP_map, List.countP_eq_length_filter]
    rfl
  intro kind listed
  have table : (fixedTotalLengths.map Prod.fst).all (fun kind =>
      kind = OptionKind.frag.toByte ∨ ∃ named ∈ reportableKinds, kind = named.toByte) := by decide
  have known := of_decide_eq_true (List.all_eq_true.mp table kind listed)
  obtain rfl | ⟨named, reportable, rfl⟩ := known
  · have none : instances options .frag = [] := by
      rw [instances, List.filter_eq_nil_iff]
      exact fun option member same => noFrag option member (of_decide_eq_true same)
    rw [count, none]
    exact Nat.zero_le 1
  · rw [count]
    exact unrepeated named reportable

private theorem checkOptions_sorted {crc32c : List UInt8 → UInt32} {packet : Packet} {options : List RawOption}
    (noFrag : NoFrag options) (unrepeated : Unrepeated options)
    (verified : ∀ option ∈ options, option.kind.toByte = Kind.apc → option.value = u32Be (crc32c packet.userData)) :
    checkOptions packet crc32c ((Serialize.sortByRank options).map checkedOption) = .ok () := by
  have kinds : ((Serialize.sortByRank options).map checkedOption).map ParsedOption.kind =
      (Serialize.sortByRank options).map fun option => option.kind.toByte := by
    rw [List.map_map]
    exact List.map_congr_left fun option _ => checkedOption_kind option
  have ordered : (((Serialize.sortByRank options).map fun option => option.kind.toByte).map
      EvalCheck.canonicalRank).Pairwise (· ≤ ·) := by
    rw [List.map_map]
    exact List.Pairwise.map _ (fun _ _ => rankLe_checked) (sortByRank_stable options).ordered
  have single : (fixedTotalLengths.map Prod.fst).find? (fun kind =>
      1 < ((Serialize.sortByRank options).map fun option => option.kind.toByte).count kind) = none := by
    apply List.find?_eq_none.mpr
    intro kind listed repeated
    have bound := count_checked noFrag unrepeated kind listed
    rw [((sortByRank_stable options).perm.map fun option => option.kind.toByte).count_eq] at repeated
    have several := of_decide_eq_true repeated
    omega
  have honest : ((Serialize.sortByRank options).map checkedOption).any (fun option =>
      option.kind = 2 ∧ intFromBytes option.value ≠ (crc32c packet.userData).toNat) = false := by
    rw [List.any_eq_false]
    intro parsed member wrong
    obtain ⟨option, sorted, rfl⟩ := List.mem_map.mp member
    obtain ⟨apc, mismatch⟩ := of_decide_eq_true wrong
    apply mismatch
    rw [checkedOption_kind] at apc
    rw [checkedOption_value, verified option ((sortByRank_stable options).perm.mem_iff.mp sorted) apc, intFromBytes_u32Be]
  unfold checkOptions
  dsimp only
  rw [kinds, List.Pairwise.insertionSort_eq ordered, if_neg (not_not.mpr rfl), single]
  dsimp only
  rw [honest, if_neg Bool.false_ne_true]

private theorem tokens_length (tokens : List Token) : tokens.length ≤ (tokens.flatMap Token.bytes).length := by
  induction tokens with
  | nil => exact Nat.le_refl 0
  | cons token rest ih =>
    have positive := token.bytes_pos
    rw [List.flatMap_cons, List.length_append, List.length_cons]
    omega

/-- The checker reads a serialized body as the sender's options in canonical order. -/
theorem validateRegion_emitted {crc32c : List UInt8 → UInt32} {packet : Packet} (padLen : Nat)
    {options : List RawOption} {body fill : List UInt8} {tokens : List Token} {items : List OptionsIter.Item}
    (sendable : ∀ option ∈ options, Sendable option) (noFrag : NoFrag options) (unrepeated : Unrepeated options)
    (verified : ∀ option ∈ options, option.kind.toByte = Kind.apc → option.value = u32Be (crc32c packet.userData))
    (emission : EmittedBody (Serialize.sortByRank options) body tokens fill items) :
    validateRegion crc32c packet padLen (body.drop 2) =
      .ok (.ok ((Serialize.sortByRank options).map checkedOption, none)) := by
  have member : ∀ option ∈ Serialize.sortByRank options, option ∈ options :=
    fun option => (sortByRank_stable options).perm.mem_iff.mp
  have area : body.drop 2 = [] ++ (tokens.flatMap Token.bytes ++ Kind.eol :: fill) := by
    rw [emission.whole]
    rfl
  have enough : tokens.length < (body.drop 2).length + 1 := by
    have fewer := tokens_length tokens
    rw [area, List.nil_append, List.length_append]
    omega
  have scanned := @Aligned.scanned packet padLen (body.drop 2) (.start (body.drop 2)) _ _ _ emission.aligned
    (fun option sorted => sendable option (member option sorted))
    (fun option sorted => noFrag option (member option sorted)) _ _ _ enough area rfl rfl rfl
  have rest : slice (body.drop 2) (0 + (tokens.flatMap Token.bytes).length + 1) (body.drop 2).length = fill := by
    rw [slice, List.take_length, area, List.nil_append, Nat.zero_add, List.drop_length_add_append]
    rfl
  have zero : fill.any (· ≠ 0) = false := by
    apply List.any_eq_false.mpr
    exact fun byte member nonzero => of_decide_eq_true nonzero (emission.zero byte member)
  have closed : closeArea (body.drop 2) (ended (advance (.start (body.drop 2))
      ((Serialize.sortByRank options).map checkedOption) 0 (tokens.flatMap Token.bytes).length)) = .ok () := by
    change (if (slice (body.drop 2) (0 + (tokens.flatMap Token.bytes).length + 1) (body.drop 2).length).any (· ≠ 0)
      then _ else _) = _
    rw [rest, zero]
    rfl
  have read : (ended (advance (.start (body.drop 2)) ((Serialize.sortByRank options).map checkedOption) 0
      (tokens.flatMap Token.bytes).length)).options = (Serialize.sortByRank options).map checkedOption := rfl
  unfold validateRegion
  rw [if_neg, scanned, Checked.ok_bind]
  · dsimp only
    rw [closed, read, checkOptions_sorted noFrag unrepeated verified]
    rfl
  · rw [area]
    simp

section
variable (rdos : Option UInt16) (identification : UInt32) (fragOffset : UInt16)

def fragmentValue : List UInt8 := Split.fragValue (fragStartOf rdos) identification fragOffset rdos

/-- The FRAG option of a fragment as the checker parses it. -/
def fragmentOption : ParsedOption :=
  ⟨Kind.frag, (fragmentValue rdos identification fragOffset).length + 2, fragmentValue rdos identification fragOffset⟩

def fragmentRecord (data : List UInt8) : FragRecord where
  identification := identification.toNat
  offset := fragOffset.toNat
  rdos := rdos.map UInt16.toNat
  dataStart := (fragmentValue rdos identification fragOffset).length + 2
  data := data

private theorem fragmentValue_length :
    (fragmentValue rdos identification fragOffset).length = if rdos.isSome then 10 else 8 := by
  cases rdos <;> rfl

private theorem fragmentValue_start : intFromBytes ((fragmentValue rdos identification fragOffset).take 2) =
    12 + (fragmentValue rdos identification fragOffset).length := by
  rw [show (fragmentValue rdos identification fragOffset).take 2 = u16Be (fragStartOf rdos) from rfl, intFromBytes_u16Be,
    fragStartOf_toNat, fragmentValue_length]
  cases rdos <;> rfl

private theorem fragmentValue_fields :
    intFromBytes (slice (fragmentValue rdos identification fragOffset) 2 6) = identification.toNat ∧
    intFromBytes (slice (fragmentValue rdos identification fragOffset) 6 8) = fragOffset.toNat ∧
    (if (fragmentValue rdos identification fragOffset).length + 2 = 12 then
      some (intFromBytes (slice (fragmentValue rdos identification fragOffset) 8 10)) else none) =
      rdos.map UInt16.toNat := by
  cases rdos with
  | none => exact ⟨intFromBytes_u32Be _, intFromBytes_u16Be _, rfl⟩
  | some rdos => exact ⟨intFromBytes_u32Be _, intFromBytes_u16Be _, congrArg some (intFromBytes_u16Be rdos)⟩

private theorem takeOption_fragment {packet : Packet} (udpLen : packet.udpLen = 8) {region : List UInt8}
    (room : (fragmentValue rdos identification fragOffset).length + 2 ≤ region.length) :
    takeOption packet 0 region (.start region) (fragmentOption rdos identification fragOffset) =
      .ok ⟨(fragmentValue rdos identification fragOffset).length + 2, 0, none,
        [fragmentOption rdos identification fragOffset],
        some (fragmentRecord rdos identification fragOffset []).toFragFields, 0⟩ := by
  have fixed : ¬ ((fixedTotalLengths.lookup (fragmentOption rdos identification fragOffset).kind).any
      fun lengths => (fragmentOption rdos identification fragOffset).totalLen ∉ lengths) = true := by
    have table : fixedTotalLengths.lookup (fragmentOption rdos identification fragOffset).kind = some [10, 12] := rfl
    rw [table, fragmentOption, fragmentValue_length]
    cases rdos <;> simp
  obtain ⟨idField, offsetField, rdosField⟩ := fragmentValue_fields rdos identification fragOffset
  have dataStart : ((intFromBytes ((fragmentValue rdos identification fragOffset).take 2) : Nat) : Int) - packet.udpLen -
      (0 : Nat) - 2 = ((fragmentValue rdos identification fragOffset).length + 2 : Nat) := by
    rw [fragmentValue_start, udpLen]
    omega
  have other : ¬ (fragmentOption rdos identification fragOffset).kind = 1 := by
    change ¬ Kind.frag = 1
    decide
  have isFrag : (fragmentOption rdos identification fragOffset).kind = 3 := rfl
  unfold takeOption takeFrag
  rw [if_neg other, if_neg fixed, if_pos isFrag]
  simp only [Scan.start, fragmentOption, dataStart, idField, offsetField, Option.isSome_none, Bool.false_eq_true, if_false,
    Int.toNat_natCast, List.nil_append]
  rw [if_neg (by omega), fragmentRecord, ← rdosField]
  rfl

end

private theorem scanLoop_done {packet : Packet} {padLen fuel : Nat} {region : List UInt8} {scan : Scan}
    (finished : scan.limit ≤ scan.offset) : scanLoop packet padLen region (fuel + 1) scan = .ok (.ok scan) := by
  rw [scanLoop, if_pos finished]
  rfl

/-- The checker reads a fragment as its FRAG alone, with the data behind it. -/
theorem validateRegion_fragment (crc32c : List UInt8 → UInt32) {packet : Packet} (udpLen : packet.udpLen = 8)
    (bare : packet.userData = []) (rdos : Option UInt16) (identification : UInt32) (fragOffset : UInt16)
    (data : List UInt8) :
    validateRegion crc32c packet 0
        (Kind.frag :: fragLenByte rdos :: (fragmentValue rdos identification fragOffset ++ data)) =
      .ok (.ok ([fragmentOption rdos identification fragOffset],
        some (fragmentRecord rdos identification fragOffset data))) := by
  have length := fragmentValue_length rdos identification fragOffset
  have split : Kind.frag :: fragLenByte rdos :: (fragmentValue rdos identification fragOffset ++ data) =
      [] ++ ((Token.short Kind.frag (fragmentValue rdos identification fragOffset)).bytes ++ data) := by
    rw [fragLenByte_eq (fragStartOf rdos) identification fragOffset]
    rfl
  have proper : (Token.short Kind.frag (fragmentValue rdos identification fragOffset)).Proper := by
    refine ⟨by decide, ?_⟩
    rw [length]
    split <;> omega
  generalize whole : Kind.frag :: fragLenByte rdos :: (fragmentValue rdos identification fragOffset ++ data) = region
  rw [whole] at split
  have regionLength : region.length = (fragmentValue rdos identification fragOffset).length + 2 + data.length := by
    rw [split, List.nil_append, List.length_append]
    rfl
  have taken := @takeOption_fragment rdos identification fragOffset packet udpLen region (by omega)
  have visible : Kind.frag ≠ 0 := by decide
  generalize scan : (⟨(fragmentValue rdos identification fragOffset).length + 2,
    0 + ((fragmentValue rdos identification fragOffset).length + 2), none, [fragmentOption rdos identification fragOffset],
    some (fragmentRecord rdos identification fragOffset []).toFragFields, 0⟩ : Scan) = final
  have scanned : scanLoop packet 0 region (region.length + 1) (.start region) = .ok (.ok final) := by
    obtain ⟨fuel, positive⟩ : ∃ fuel, region.length = fuel + 1 := ⟨region.length - 1, by omega⟩
    rw [scanLoop_token region.length proper split rfl rfl visible taken, positive, ← scan]
    exact scanLoop_done (by simp [Token.bytes])
  have closed : closeArea region final = .ok () := by
    rw [← scan, closeArea, Nat.zero_add]
    exact if_neg (not_not.mpr rfl)
  have checked : checkOptions packet crc32c [fragmentOption rdos identification fragOffset] = .ok () := rfl
  have kept : closeFrag packet region [fragmentOption rdos identification fragOffset]
      (fragmentRecord rdos identification fragOffset []).toFragFields =
      .ok (fragmentRecord rdos identification fragOffset data) := by
    have behind : region.drop ((fragmentValue rdos identification fragOffset).length + 2) = data := by
      rw [split, List.nil_append]
      exact List.drop_left
    have first : ([fragmentOption rdos identification fragOffset].map ParsedOption.kind).head? = some 3 := rfl
    rw [closeFrag, if_neg (by simp [udpLen, bare]), if_neg (not_not.mpr first)]
    exact congrArg (fun data => Except.ok (fragmentRecord rdos identification fragOffset data)) behind
  unfold validateRegion
  rw [if_neg, scanned, Checked.ok_bind]
  · dsimp only
    rw [closed, ← scan]
    dsimp only
    rw [checked]
    dsimp only
    rw [kept]
    rfl
  · rw [split]
    simp [Token.bytes]

/-- The bytes of an opened datagram that the receiver reads options from: the options
area, cut in front of the data of a fragment. -/
def readArea (opened : Opened) : List UInt8 :=
  match (if opened.userData.isEmpty then limitOf (optionsArea opened).length (ocsStart opened + 2 - opened.udpAt)
    (itemsOf (optionsArea opened)) else .full) with
  | .upTo stop => (optionsArea opened).take stop
  | .full | .malformedFrag _ => optionsArea opened

/-- The checker passes a surplus area, and reads the kinds and values that the iterator
reads without NOP and EOL. -/
structure ReadsAlike (crc32c : List UInt8 → UInt32) (datagram : List UInt8) (packet : Packet)
    (options : List ParsedOption) (frag : Option FragRecord) : Prop where
  validated : validateSurplus crc32c packet = .ok (.ok (options, frag))
  same : ∃ opened items, openDatagram datagram = .ok (.ok opened) ∧ OptionsIter.items (readArea opened) = .ok items ∧
    (∀ item ∈ items, ∃ option, item = .ok option) ∧
    options.map (fun option => (option.kind, option.value)) =
      (optionsRead items).map fun option => (option.kind.toByte, option.value)

/-- The checker takes the datagram of a fragment, and reads its FRAG alone with the
fields and the data of the fragment. -/
def CheckedFragment (crc32c : List UInt8 → UInt32) (identification : UInt32) (fragment : Fragment)
    (datagram : List UInt8) : Prop :=
  ∃ packet option dataStart, Packet.new datagram = .ok (.ok packet) ∧ packet.surplus ≠ [] ∧ option.kind = Kind.frag ∧
    ReadsAlike crc32c datagram packet [option] (some {
      identification := identification.toNat
      offset := fragment.fragOffset.toNat
      rdos := fragment.rdos.map UInt16.toNat
      dataStart := dataStart
      data := dataPart fragment })

private theorem assembleChecked_assembles {addrs : Api.DatagramAddrs} {payload body datagram : List UInt8}
    {maxDatagramLen : Nat} (assembled : Api.assembleChecked addrs payload body maxDatagramLen = .ok (.ok datagram)) :
    assembleDatagram addrs.src addrs.dst addrs.srcPort addrs.dstPort payload body = .ok datagram ∧
      sentLen payload.length body.length < 2 ^ 16 := by
  unfold Api.assembleChecked at assembled
  split at assembled
  · cases assembled
  next len known =>
    split at assembled
    · cases assembled
    · split at assembled
      · cases assembled
      next small =>
        obtain ⟨whole, built, same⟩ := Checked.bind_eq_ok.mp assembled
        cases same
        rw [datagramLen_eq known] at small
        exact ⟨built, Nat.lt_succ_of_le (Nat.le_of_not_lt small)⟩

private theorem readArea_sent {opened : Opened} {src dst : Ipv4Addr} {srcPort dstPort : UInt16}
    {payload body : List UInt8}
    {options : List RawOption} (sent : Sent opened src dst srcPort dstPort payload body) (noFrag : NoFrag options)
    (sendable : ∀ option ∈ options, Sendable option) (emitted : Serialize.emitFrom [0, 0] options = .ok body) :
    readArea opened = body.drop 2 := by
  obtain ⟨area, items, rfl, framed, emits⟩ := emitFrom_framed sendable emitted 0
  have limit : limitOf (optionsArea opened).length (ocsStart opened + 2 - opened.udpAt)
      (itemsOf (optionsArea opened)) = .full := by
    have behind : optionsArea opened = area := sent.area
    rw [behind, framed.itemsOf_eq, limitOf, emits_scanFrag emits noFrag]
  unfold readArea
  rw [limit, ite_self]
  exact sent.area

/-- The checker passes a datagram that is sent whole. -/
theorem checked_whole {crc32c : List UInt8 → UInt32} {addrs : Api.DatagramAddrs} {payload body datagram : List UInt8}
    {options : Api.SendOptions} {maxDatagramLen : Nat} (accepted : Api.validateSendOptions options = .ok ())
    (serialized : Api.optionsBody crc32c payload options = .ok body)
    (assembled : Api.assembleChecked addrs payload body maxDatagramLen = .ok (.ok datagram))
    (verified : ∀ option ∈ options.rawOptions, option.kind.toByte = Kind.apc → option.value = u32Be (crc32c payload)) :
    ∃ packet, Packet.new datagram = .ok (.ok packet) ∧
      (packet.surplus ≠ [] → ∃ read, ReadsAlike crc32c datagram packet read none) := by
  have led := optionsBody_led serialized
  obtain ⟨built, small⟩ := assembleChecked_assembles assembled
  obtain ⟨packet, taken, carries⟩ := assembleDatagram_carries led small built
  refine ⟨packet, taken, ?_⟩
  intro filled
  rcases optionsBody_cases serialized with ⟨_, rfl⟩ | ⟨_, finished⟩
  · exact absurd carries.surplus filled
  · obtain ⟨noFrag, unrepeated⟩ := validateSendOptions_sent crc32c payload accepted
    obtain ⟨sendable, emitted⟩ := finish_emits noFrag finished
    have member : ∀ option ∈ Serialize.sortByRank (Api.sentOptions crc32c payload options),
        option ∈ Api.sentOptions crc32c payload options := fun option => (sortByRank_stable _).perm.mem_iff.mp
    have sortedSendable := fun option sorted => sendable option (member option sorted)
    obtain ⟨tokens, fill, items, emission⟩ := emitFrom_body sortedSendable emitted
    obtain ⟨opened, rfl, sent⟩ := assembleChecked_sent led assembled
    have matching : ∀ option ∈ Api.sentOptions crc32c payload options, option.kind.toByte = Kind.apc →
        option.value = u32Be (crc32c packet.userData) := by
      rw [carries.userData]
      intro option given apc
      rcases List.mem_append.mp given with automatic | raw
      · split at automatic
        · rw [List.mem_singleton.mp automatic]
        · exact absurd automatic List.not_mem_nil
      · exact verified option raw apc
    refine ⟨(Serialize.sortByRank (Api.sentOptions crc32c payload options)).map checkedOption, ?_, ?_⟩
    · rw [validateSurplus_sent crc32c carries (finish_led finished) small]
      exact validateRegion_emitted _ sendable noFrag unrepeated matching emission
    · refine ⟨opened, items, sent.opening, ?_, emission.sound, ?_⟩
      · rw [readArea_sent sent (fun option sorted => noFrag option (member option sorted)) sortedSendable emitted]
        exact emission.read
      · rw [emission.back, List.map_map, List.map_map]
        apply List.map_congr_left
        intro option _
        simp [checkedOption_kind, checkedOption_value, asParsed, OptionKind.toByte_fromByte]

section
variable {opened : Opened} {src dst : Ipv4Addr} {srcPort dstPort : UInt16} {tail : List UInt8} {atomic : Bool}
  {rdos : UInt16} {identification : UInt32} {range : ChunkRange}

private theorem readArea_fragment
    (sent : Sent opened src dst srcPort dstPort [] (rangeFragment tail atomic rdos identification range).surplusBody) :
    readArea opened = Kind.frag :: fragLenByte (rangeRdos rdos range) ::
      fragmentValue (rangeRdos rdos range) identification (UInt16.ofNat (rangeOffset atomic range)) := by
  obtain ⟨_, start⟩ := sent.area_behind (Nat.le_add_left 2 _)
  have area := sent.area.trans (rangeFragment_area tail atomic rdos identification range)
  unfold readArea
  rw [sent.userData, if_pos List.isEmpty_nil, area, start, fragment_limit]
  dsimp only
  rw [List.take_succ_cons, List.take_succ_cons, List.take_left]
  rfl

def rangeRecord (tail : List UInt8) (atomic : Bool) (rdos : UInt16) (identification : UInt32) (range : ChunkRange) :
    FragRecord :=
  fragmentRecord (rangeRdos rdos range) identification (UInt16.ofNat (rangeOffset atomic range)) (rangeData tail range)

theorem fragment_validated (crc32c : List UInt8 → UInt32) {addrs : Api.DatagramAddrs} {datagram : List UInt8}
    {maxDatagramLen : Nat} (assembled : Api.assembleChecked addrs []
      (rangeFragment tail atomic rdos identification range).surplusBody maxDatagramLen = .ok (.ok datagram)) :
    ∃ packet, Packet.new datagram = .ok (.ok packet) ∧ packet.surplus ≠ [] ∧
      validateSurplus crc32c packet = .ok (.ok
        ([fragmentOption (rangeRdos rdos range) identification (UInt16.ofNat (rangeOffset atomic range))],
          some (rangeRecord tail atomic rdos identification range))) := by
  have led := rangeFragment_led tail atomic rdos identification range
  obtain ⟨built, small⟩ := assembleChecked_assembles assembled
  obtain ⟨packet, taken, carries⟩ := assembleDatagram_carries (.inr led) small built
  refine ⟨packet, taken, ?_, ?_⟩
  · rw [carries.surplus, sentSurplus_full _ led]
    exact List.cons_ne_nil _ _
  · rw [validateSurplus_sent crc32c carries led small, rangeFragment_area]
    exact validateRegion_fragment crc32c carries.udpLen carries.userData _ _ _ _

private theorem checked_fragment (crc32c : List UInt8 → UInt32) {addrs : Api.DatagramAddrs} {datagram : List UInt8}
    {maxDatagramLen : Nat} (assembled : Api.assembleChecked addrs []
      (rangeFragment tail atomic rdos identification range).surplusBody maxDatagramLen = .ok (.ok datagram)) :
    CheckedFragment crc32c identification (rangeFragment tail atomic rdos identification range) datagram := by
  obtain ⟨packet, taken, filled, validated⟩ := fragment_validated crc32c assembled
  obtain ⟨opened, rfl, sent⟩ := assembleChecked_sent (.inr (rangeFragment_led _ _ _ _ _)) assembled
  have framed := framed_fragment 0 (fragStartOf (rangeRdos rdos range)) identification
    (UInt16.ofNat (rangeOffset atomic range)) (rangeRdos rdos range) Framed.done
  rw [List.append_nil] at framed
  refine ⟨packet, fragmentOption (rangeRdos rdos range) identification (UInt16.ofNat (rangeOffset atomic range)),
    (rangeRecord tail atomic rdos identification range).dataStart, taken, filled, rfl, ?_, opened, _, sent.opening,
    (congrArg _ (readArea_fragment sent)).trans framed.items, ?_, rfl⟩
  · rw [dataPart_rangeFragment]
    exact validated
  · intro item member
    exact ⟨_, List.mem_singleton.mp member⟩

end

/-- The independent checker accepts every datagram of a send. -/
theorem checker_accepts_sender (crc32c : List UInt8 → UInt32) {addrs : Api.DatagramAddrs} {payload : List UInt8}
    {options : Api.SendOptions} {config : Api.SendConfig} {datagrams : List (List UInt8)}
    (built : Api.buildOutgoingDatagrams crc32c addrs payload options config = .ok (.ok datagrams))
    (verified : ∀ option ∈ options.rawOptions, option.kind.toByte = Kind.apc → option.value = u32Be (crc32c payload)) :
    (∃ datagram packet, datagrams = [datagram] ∧ Packet.new datagram = .ok (.ok packet) ∧
      (packet.surplus ≠ [] → ∃ read, ReadsAlike crc32c datagram packet read none)) ∨
    ∃ identification body fragments, config.identification = some identification ∧
      Api.optionsBody crc32c payload options = .ok body ∧
      Split.splitDatagram payload body ⟨config.maxDatagramLen - 28, config.peer, identification⟩ = .ok (.ok fragments) ∧
      List.Forall₂ (CheckedFragment crc32c identification) fragments datagrams := by
  cases buildOutgoingDatagrams_built built with
  | whole accepted serialized assembled =>
    obtain ⟨packet, taken, alike⟩ := checked_whole accepted serialized assembled verified
    exact .inl ⟨_, packet, rfl, taken, alike⟩
  | split accepted serialized named cut assembled =>
    refine .inr ⟨_, _, _, named, serialized, cut, ?_⟩
    obtain ⟨rdos, ranges, plan, rfl⟩ := splitDatagram_plan cut
    obtain ⟨rfl, each⟩ := assembleFragments_eq assembled
    rw [List.forall₂_map_right_iff, List.forall₂_same]
    rw [List.forall_mem_map] at each ⊢
    exact fun range member => checked_fragment crc32c (each range member)

def checkedAddrs : Api.DatagramAddrs := ⟨⟨10, 0, 0, 1⟩, ⟨10, 0, 0, 2⟩, 1000, 2000⟩

private def oddMds : List UInt8 :=
  [0x45, 0, 0, 0x28, 0, 0, 0, 0, 0x40, 0x11, 0x66, 0xc3, 10, 0, 0, 1, 10, 0, 0, 2, 3, 0xe8, 7, 0xd0, 0, 0x0b, 0xdc, 0x1b,
    1, 2, 3, 0, 0xf6, 0x16, 4, 4, 5, 0xdc, 0, 0]

/-- Three bytes with an MDS behind a pad. -/
theorem checker_accepts_odd_mds :
    Api.buildOutgoingDatagrams (fun _ => 0) checkedAddrs [1, 2, 3] ⟨[⟨.mds, [5, 220]⟩], false⟩ .default =
        .ok (.ok [oddMds]) ∧
      ∃ packet read, Packet.new oddMds = .ok (.ok packet) ∧ ReadsAlike (fun _ => 0) oddMds packet read none := by
  have built : Api.buildOutgoingDatagrams (fun _ => 0) checkedAddrs [1, 2, 3] ⟨[⟨.mds, [5, 220]⟩], false⟩ .default =
      .ok (.ok [oddMds]) := by decide +kernel
  refine ⟨built, ?_⟩
  obtain ⟨datagram, packet, same, taken, alike⟩ | ⟨identification, _, _, named, _⟩ :=
    checker_accepts_sender (fun _ => 0) built (by decide)
  · cases same
    have filled : (Packet.new oddMds).toOption.any (fun outcome => outcome.toOption.any fun packet => packet.surplus ≠ []) := by
      decide +kernel
    rw [taken] at filled
    obtain ⟨read, agreed⟩ := alike (of_decide_eq_true filled)
    exact ⟨packet, read, taken, agreed⟩
  · cases named

end UdpOptions.Proofs
