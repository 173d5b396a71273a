import UdpOptions.Api
import UdpOptions.Proofs.ReceivePath

/-! No input makes the receive path fault, and the re-feed of a reassembled
datagram ends after one level and without an error. -/

namespace UdpOptions.Proofs
open Library Model

private theorem wireOptionBearing_eq (bytes : List UInt8) :
    Api.wireOptionBearing bytes =
      (openDatagram bytes).map fun result => result.map fun opened => (locateSurplus opened.ip opened.udp).isSome := by
  unfold Api.wireOptionBearing openDatagram
  cases parsed : IpRepr.parse bytes with
  | error error => rfl
  | ok result =>
    obtain ⟨ip, udpAt⟩ := result
    obtain ⟨offset, header, total, inside⟩ := parse_accepted parsed
    have stop : ip.headerLen + ip.transportPayloadLen = ip.totalLen.toNat := Nat.add_sub_cancel' total
    have length : (bytes.take ip.totalLen.toNat).length = ip.totalLen.toNat := by
      rw [List.length_take, Nat.min_eq_left inside]
    have behind : udpAt ≤ ip.totalLen.toNat := by
      rw [offset]
      exact total
    dsimp only
    rw [stop, Checked.slice_of_le behind inside, Checked.slice_of_le (Nat.zero_le _) inside, Checked.ok_bind,
      Checked.ok_bind, List.drop_zero, Checked.slice_of_le (by rw [length]; exact behind) (Nat.le_refl _),
      Checked.ok_bind, List.take_length]
    cases udpParsed : UdpHeader.parse ((bytes.take ip.totalLen.toNat).drop udpAt) with
    | error error => rfl
    | ok udp =>
      obtain ⟨_, minimal⟩ := udp_parse_accepted udpParsed
      dsimp only
      by_cases exceeds : ip.transportPayloadLen < udp.length.toNat
      · rw [if_pos exceeds, if_pos exceeds]
        rfl
      rw [if_neg exceeds, if_neg exceeds]
      have room : udpAt + udp.length.toNat ≤ ip.totalLen.toNat := by omega
      have ordered : udpAt + UdpHeader.headerLen ≤ udpAt + udp.length.toNat := Nat.add_le_add_left minimal udpAt
      rw [show Api.udpHeaderLen = UdpHeader.headerLen from rfl,
        Checked.slice_of_le ordered (Nat.le_trans room inside), Checked.ok_bind,
        Checked.slice_of_le ordered (by rw [length]; exact room), Checked.ok_bind, List.take_take,
        Nat.min_eq_left room]
      by_cases unchecked : udp.checksum = 0
      · rw [if_pos unchecked, if_pos unchecked]
        rfl
      rw [if_neg unchecked, if_neg unchecked]
      cases { udp with checksum := 0 : UdpHeader }.computeChecksum ip
          ((bytes.take (udpAt + udp.length.toNat)).drop (udpAt + UdpHeader.headerLen)) with
      | error fault => rfl
      | ok expected =>
        rw [Checked.ok_bind, Checked.ok_bind]
        by_cases wrong : expected ≠ udp.checksum
        · rw [if_pos wrong, if_pos wrong]
          rfl
        · rw [if_neg wrong, if_neg wrong]
          rfl

section
variable (crc32c : List UInt8 → UInt32)

private theorem processDatagram_total (bytes : List UInt8) (cache : ReassemblyCache) (now : Nat) :
    ∃ result, processDatagram crc32c bytes cache now = .ok result := by
  rcases openDatagram_total bytes with ⟨error, opening, _⟩ | ⟨opened, opening, _⟩
  · exact ⟨_, processDatagram_refused crc32c opening cache now⟩
  · exact ⟨_, processDatagram_opened crc32c opening cache now⟩

theorem decodeProcessed_cache {bytes : List UInt8} {cache final : ReassemblyCache} {now : Nat}
    {policy : Api.ReceivePolicy} {result : Except RecvError Api.ApiDelivery}
    (decoded : Api.decodeProcessed crc32c bytes cache now policy = .ok (result, final)) :
    ∃ delivery, processDatagram crc32c bytes cache now = .ok (delivery, final) := by
  obtain ⟨⟨delivery, after⟩, processed⟩ := processDatagram_total crc32c bytes cache now
  rw [Api.decodeProcessed, processed, Checked.ok_bind] at decoded
  refine ⟨delivery, processed.trans ?_⟩
  rcases delivery with error | payload | _ | _ <;> cases decoded <;> rfl

private theorem decodeProcessed_total (bytes : List UInt8) (cache : ReassemblyCache) (now : Nat)
    (policy : Api.ReceivePolicy) : ∃ result, Api.decodeProcessed crc32c bytes cache now policy = .ok result := by
  obtain ⟨⟨delivery, final⟩, processed⟩ := processDatagram_total crc32c bytes cache now
  rw [Api.decodeProcessed, processed, Checked.ok_bind]
  rcases delivery with error | payload | _ | _ <;> exact ⟨_, rfl⟩

theorem decodeProcessed_refused {bytes : List UInt8} {error : RecvError}
    (opening : openDatagram bytes = .ok (.error error)) (cache : ReassemblyCache) (now : Nat)
    (policy : Api.ReceivePolicy) :
    Api.decodeProcessed crc32c bytes cache now policy = .ok (.error error, cache) := by
  rw [Api.decodeProcessed, processDatagram_refused crc32c opening, Checked.ok_bind]
  rfl

/-- The prefilter drops an accepted datagram with a usable surplus area, or the
pipeline decides. -/
theorem decodeDatagram_cases (bytes : List UInt8) (cache : ReassemblyCache) (now : Nat) (policy : Api.ReceivePolicy) :
    (∃ opened, openDatagram bytes = .ok (.ok opened) ∧ policy.dropAllOptionBearing = true ∧
      (locateSurplus opened.ip opened.udp).isSome = true ∧
      Api.decodeDatagram crc32c bytes cache now policy = .ok (.ok .filtered, cache)) ∨
    ((∀ opened, openDatagram bytes = .ok (.ok opened) → policy.dropAllOptionBearing = true →
        locateSurplus opened.ip opened.udp = none) ∧
      Api.decodeDatagram crc32c bytes cache now policy = Api.decodeProcessed crc32c bytes cache now policy) := by
  rw [Api.decodeDatagram, wireOptionBearing_eq]
  split
  next drops =>
    rcases openDatagram_total bytes with ⟨error, opening, _⟩ | ⟨opened, opening, _⟩
    · rw [opening, decodeProcessed_refused crc32c opening]
      exact .inr ⟨nofun, rfl⟩
    · rw [opening]
      cases located : locateSurplus opened.ip opened.udp with
      | some layout => exact .inl ⟨opened, rfl, drops, by rw [located]; rfl, by simp [Except.map, located]⟩
      | none =>
        refine .inr ⟨?_, by simp [Except.map, located]⟩
        rintro other ⟨⟩ _
        exact located
  next kept => exact .inr ⟨fun _ _ drops => absurd drops kept, rfl⟩

theorem decodeDatagram_total (bytes : List UInt8) (cache : ReassemblyCache) (now : Nat) (policy : Api.ReceivePolicy) :
    ∃ result, Api.decodeDatagram crc32c bytes cache now policy = .ok result := by
  rcases decodeDatagram_cases crc32c bytes cache now policy with ⟨_, _, _, _, filtered⟩ | ⟨_, processed⟩
  · exact ⟨_, filtered⟩
  · rw [processed]
    exact decodeProcessed_total crc32c bytes cache now policy

/-- A received datagram is a payload of the pipeline that the policy lets pass. -/
theorem decodeDatagram_received {bytes : List UInt8} {cache final : ReassemblyCache} {now : Nat}
    {policy : Api.ReceivePolicy} {received : Api.ReceivedDatagram}
    (decoded : Api.decodeDatagram crc32c bytes cache now policy = .ok (.ok (.received received), final)) :
    ∃ payload, processDatagram crc32c bytes cache now = .ok (.ok (.payload payload), final) ∧
      Api.applyPolicy policy payload = .received received := by
  rcases decodeDatagram_cases crc32c bytes cache now policy with ⟨_, _, _, _, filtered⟩ | ⟨_, processed⟩
  · cases filtered.symm.trans decoded
  · obtain ⟨⟨delivery, after⟩, known⟩ := processDatagram_total crc32c bytes cache now
    rw [processed, Api.decodeProcessed, known, Checked.ok_bind] at decoded
    rcases delivery with error | payload | _ | _
    · cases decoded
    · have results := Except.ok.inj decoded
      refine ⟨payload, ?_, Except.ok.inj (congrArg Prod.fst results)⟩
      rw [known, show after = final from congrArg Prod.snd results]
    · cases decoded
    · cases decoded

theorem applyPolicy_received {policy : Api.ReceivePolicy} {payload : Payload} {received : Api.ReceivedDatagram}
    (passed : Api.applyPolicy policy payload = .received received) :
    received = ⟨payload.data, payload.options, payload.reports, payload.ocsReports⟩ ∧
      Api.missingRequiredOption policy payload.reports = none ∧
      (policy.ocsRequired = true → Api.ocsRequirementSatisfied payload.ocsReports = true) := by
  unfold Api.applyPolicy at passed
  split at passed
  · cases passed
  · split at passed
    · cases passed
    next present =>
      split at passed
      · cases passed
      next confirmed =>
        cases passed
        refine ⟨rfl, by simpa using present, ?_⟩
        intro required
        by_contra unsatisfied
        exact confirmed ⟨required, unsatisfied⟩

/-- On every input and every cache the receive path returns: its slices, indices,
assertions, expectations, subtractions, and casts never fault. An accepted
datagram satisfies the length assertion of its checksum and has a surplus length
of 16 bits, a fragment about to be inserted has a key and its data range, and the
re-feed of a reassembled datagram succeeds without recursing again. -/
theorem receive_path_never_faults (bytes : List UInt8) (cache : ReassemblyCache) (now : Nat) :
    (∃ result, processDatagram crc32c bytes cache now = .ok result) ∧
    (∀ policy, ∃ result, Api.decodeDatagram crc32c bytes cache now policy = .ok result) ∧
    (∀ opened, openDatagram bytes = .ok (.ok opened) →
      opened.udp.length.toNat = UdpHeader.headerLen + opened.userData.length ∧
      ∀ layout, locateSurplus opened.ip opened.udp = some layout → layout.len < 2 ^ 16) ∧
    (∀ opened frag key options reports status,
      examine crc32c bytes = .ok (.ok (opened, .fragment frag key options reports status)) →
      key.isSome ∧ opened.udpAt + frag.fragStart.toNat ≤ opened.ipEnd ∧ opened.ipEnd ≤ opened.datagram.length ∧
      ∀ udpLength tail rebuilt final,
        reassembledDatagram opened.ip opened.udp udpLength tail = .ok (some rebuilt) →
        ∃ delivery last, processDatagramInner crc32c 1 rebuilt final now false = .ok (.ok delivery, last)) := by
  refine ⟨processDatagram_total crc32c bytes cache now, decodeDatagram_total crc32c bytes cache now, ?_, ?_⟩
  · intro opened opening
    obtain ⟨well, _⟩ := openDatagram_well opening
    refine ⟨well.userData_length.symm.trans (Nat.add_comm _ _), ?_⟩
    intro layout located
    rw [well.locate] at located
    split at located
    · cases located
      exact Nat.lt_of_le_of_lt (Nat.sub_le _ _) well.word
    · cases located
  · intro opened frag key options reports status examined
    rcases openDatagram_total bytes with ⟨error, opening, _⟩ | ⟨other, opening, well, _⟩
    · rw [examine, opening] at examined
      cases examined
    · rw [examine_opened crc32c opening well] at examined
      have disposed := (disposeOpened_eq crc32c well).2
      cases same : dispositionOf crc32c other with
      | deliver payload => rw [same] at examined; cases examined
      | fail key => rw [same] at examined; cases examined
      | fragment otherFrag otherKey otherOptions otherReports otherStatus =>
        rw [same] at examined disposed
        cases examined
        obtain ⟨_, rfl, inside⟩ := disposed.fragment well
        refine ⟨rfl, inside, Nat.le_of_eq well.length.symm, ?_⟩
        intro udpLength tail rebuilt final rebuilding
        have eq := reassembled_rebuilt opened ⟨tail, udpLength, [], [], none⟩
        rw [rebuilding] at eq
        split at eq
        next fits =>
          cases eq
          have again := open_rebuilt opened fits
          exact ⟨_, _, processInner_refed crc32c again (openDatagram_well again).1 0 final now⟩
        · cases eq

end

end UdpOptions.Proofs
