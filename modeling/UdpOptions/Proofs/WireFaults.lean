import UdpOptions.Cli.Send
import UdpOptions.Proofs.Assembly
import UdpOptions.Proofs.OcsDetection

/-! Deliberate wire faults. The sending tool can overwrite the OCS, the pad byte and the
UDP checksum of a datagram it has assembled. Whatever it overwrites, the headers stay
readable and the user data is the same; the faults decide only whether the receiver
trusts the surplus area, and with which status. -/

namespace UdpOptions.Proofs
open Library Model

/-- A datagram cut into its parts: user data, pad, OCS field, and the option bytes. -/
structure Dissected (opened : Opened) (payload pad : List UInt8) (field : UInt16) (rest : List UInt8) : Prop where
  opening : openDatagram opened.datagram = .ok (.ok opened)
  userData : opened.userData = payload
  offset : opened.udpAt = 20
  start : surplusStart opened = 28 + payload.length
  padded : pad.length = payload.length % 2
  length : opened.ipEnd = 28 + payload.length + (pad.length + (2 + rest.length))
  surplus : opened.datagram.drop (28 + payload.length) = pad ++ (u16Be field ++ rest)

def dissectedBody (payload pad : List UInt8) (field : UInt16) (rest : List UInt8) : List UInt8 :=
  payload ++ (pad ++ (u16Be field ++ rest))

private theorem dissectedBody_length (payload pad : List UInt8) (field : UInt16) (rest : List UInt8) :
    (dissectedBody payload pad field rest).length = payload.length + (pad.length + (2 + rest.length)) := by
  simp [dissectedBody, u16Be_length]

def computedField (payloadLen : Nat) (body : List UInt8) : UInt16 :=
  Ocs.fieldValue (0 :: 0 :: body.drop 2) (UInt16.ofNat (payloadLen % 2 + body.length))

private theorem sentBody_dissected (payload : List UInt8) {body : List UInt8} (led : 2 ≤ body.length) :
    sentBody payload body = dissectedBody payload (List.replicate (payload.length % 2) 0)
      (computedField payload.length body) (body.drop 2) := by
  rw [sentBody, sentSurplus_full payload.length led]
  rfl

section
variable {src dst : Ipv4Addr} {srcPort dstPort : UInt16} {payload pad rest : List UInt8} {field checksum : UInt16}

private theorem dissected_written (padded : pad.length = payload.length % 2)
    (small : 28 + (dissectedBody payload pad field rest).length < 2 ^ 16)
    (checked : checksum = 0 ∨ (sentUdp srcPort dstPort payload.length 0).computeChecksum
      (writtenIp src dst (dissectedBody payload pad field rest).length) payload = .ok checksum) :
    Dissected (writtenOpened src dst (sentUdp srcPort dstPort payload.length checksum)
      (dissectedBody payload pad field rest)) payload pad field rest := by
  have total := dissectedBody_length payload pad field rest
  have udpLength := sentUdp_length srcPort dstPort checksum (show 8 + payload.length < 2 ^ 16 by omega)
  have userData : (writtenOpened src dst (sentUdp srcPort dstPort payload.length checksum)
      (dissectedBody payload pad field rest)).userData = payload := by
    change (dissectedBody payload pad field rest).take _ = payload
    rw [udpLength, Nat.add_sub_cancel_left]
    exact List.take_left
  refine ⟨?_, userData, rfl, ?_, padded, ?_, ?_⟩
  · apply open_datagramBytes small (by omega) (by omega)
    rcases checked with unchecked | computed
    · exact .inl unchecked
    · refine .inr ?_
      rw [userData]
      exact computed
  · change 20 + (sentUdp srcPort dstPort payload.length checksum).length.toNat = _
    omega
  · change 28 + (dissectedBody payload pad field rest).length = _
    omega
  · rw [← List.drop_drop]
    exact List.drop_left

end

theorem validate_word (field : UInt16) (rest : List UInt8) (surplusLen udpChecksum : UInt16) :
    Ocs.validate (u16Be field ++ rest) surplusLen udpChecksum =
      if field = 0 then if udpChecksum = 0 then .unused else .ignoreOptions
      else if field = Ocs.fieldValue (0 :: 0 :: rest) surplusLen then .valid
      else .error .ocsMismatch := by
  have unfolded : Ocs.validate (u16Be field ++ rest) surplusLen udpChecksum =
      if u16OfBe (UInt8.ofNat (field.toNat / 256)) (UInt8.ofNat field.toNat) = 0 then
        if udpChecksum = 0 then .unused else .ignoreOptions
      else if ((Checksum.new.addSlice (u16Be field ++ rest)).addU16 surplusLen).folded = 0xffff then .valid
      else .error .ocsMismatch := rfl
  have valid := @validate_iff_fieldValue field rest surplusLen udpChecksum
  rw [u16OfBe_split] at unfolded
  rw [unfolded] at valid ⊢
  by_cases zero : field = 0
  · rw [if_pos zero, if_pos zero]
  · rw [if_neg zero] at valid ⊢
    rw [if_neg zero]
    by_cases right : field = Ocs.fieldValue (0 :: 0 :: rest) surplusLen
    · rw [if_pos right]
      exact valid.mpr right
    · rw [if_neg right]
      split at valid
      · exact absurd (valid.mp rfl) right
      · next wrong => exact if_neg wrong

def dissectedStatus (pad : List UInt8) (field : UInt16) (rest : List UInt8) (checksum : UInt16) : OcsStatus :=
  if pad.any (· ≠ 0) then .failed
  else if field = 0 then if checksum = 0 then .unused else .invalidZero
  else if field = Ocs.fieldValue (0 :: 0 :: rest) (UInt16.ofNat (pad.length + (2 + rest.length))) then .valid
  else .failed

namespace Dissected
variable {opened : Opened} {payload pad rest : List UInt8} {field : UInt16}

private theorem well (cut : Dissected opened payload pad field rest) : WellOpened opened :=
  (openDatagram_well cut.opening).1

private theorem ocsStart_eq (cut : Dissected opened payload pad field rest) :
    ocsStart opened = 28 + payload.length + pad.length := by
  have start := cut.start
  have padded := cut.padded
  unfold ocsStart surplusPad
  omega

private theorem surplusBody_eq (cut : Dissected opened payload pad field rest) :
    surplusBody opened = u16Be field ++ rest := by
  rw [surplusBody, cut.ocsStart_eq, ← List.drop_drop, cut.surplus, List.drop_left]

private theorem ocsVerdict_eq (cut : Dissected opened payload pad field rest) :
    ocsVerdict opened =
      Ocs.validate (u16Be field ++ rest) (UInt16.ofNat (pad.length + (2 + rest.length))) opened.udp.checksum := by
  have start := cut.start
  have length := cut.length
  rw [ocsVerdict, cut.surplusBody_eq,
    show opened.ipEnd - surplusStart opened = pad.length + (2 + rest.length) by omega]

private theorem pad_wrong_iff (cut : Dissected opened payload pad field rest)
    (inside : surplusStart opened < opened.datagram.length) :
    (decide (surplusStart opened % 2 = 1) = true ∧ opened.datagram[surplusStart opened] ≠ 0) ↔
      pad.any (· ≠ 0) = true := by
  have start := cut.start
  have padded := cut.padded
  have first : (pad ++ (u16Be field ++ rest))[0]? = opened.datagram[surplusStart opened]? := by
    rw [← cut.surplus, List.getElem?_drop, start]
    rfl
  rw [List.getElem?_eq_getElem inside] at first
  cases pad with
  | nil =>
    have even : ¬ surplusStart opened % 2 = 1 := by
      rw [List.length_nil] at padded
      omega
    simp [even]
  | cons byte more =>
    obtain rfl : more = [] := by
      rw [List.length_cons] at padded
      exact List.length_eq_zero_iff.mp (by omega)
    have odd : surplusStart opened % 2 = 1 := by
      rw [List.length_singleton] at padded
      omega
    have same : byte = opened.datagram[surplusStart opened] := Option.some.inj first
    simp [odd, ← same]

private theorem judged (cut : Dissected opened payload pad field rest) :
    judgeSurplus opened = .ok (
      if dissectedStatus pad field rest opened.udp.checksum = .valid ∨
          dissectedStatus pad field rest opened.udp.checksum = .unused then
        .trusted (dissectedStatus pad field rest opened.udp.checksum)
          ⟨surplusStart opened, decide (surplusStart opened % 2 = 1), opened.ipEnd - surplusStart opened⟩
          (surplusBody opened)
      else .untrusted (dissectedStatus pad field rest opened.udp.checksum)) := by
  have well := cut.well
  have length := well.length
  have word := well.word
  have start := cut.start
  have total := cut.length
  have ocs := cut.ocsStart_eq
  have inside : surplusStart opened < opened.datagram.length := by omega
  unfold judgeSurplus
  rw [well.locate, if_pos (by omega)]
  dsimp only
  rw [Checked.index_of_lt inside, Checked.ok_bind]
  unfold Ocs.checkPad dissectedStatus
  by_cases wrong : pad.any (· ≠ 0) = true
  · rw [if_pos ((cut.pad_wrong_iff inside).mpr wrong), if_pos wrong]
    rfl
  rw [if_neg (fun found => wrong ((cut.pad_wrong_iff inside).mp found)), if_neg wrong]
  dsimp only
  have position : SurplusLayout.ocsAt ⟨surplusStart opened, decide (surplusStart opened % 2 = 1),
      opened.ipEnd - surplusStart opened⟩ = ocsStart opened :=
    congrArg (surplusStart opened + ·) (oddBit_toNat (surplusStart opened))
  have body : (opened.datagram.take opened.ipEnd).drop (ocsStart opened) = surplusBody opened := by
    rw [List.take_of_length_le (Nat.le_of_eq length)]
    rfl
  rw [position, Checked.slice_of_le (by omega) (Nat.le_of_eq length.symm), Checked.ok_bind, body,
    Checked.castU16_of_lt (by omega), Checked.ok_bind, ← ocsVerdict, cut.ocsVerdict_eq]
  rw [validate_word]
  by_cases zero : field = 0
  · rw [if_pos zero, if_pos zero]
    by_cases unchecked : opened.udp.checksum = 0
    · rw [if_pos unchecked, if_pos unchecked]
      rfl
    · rw [if_neg unchecked, if_neg unchecked]
      rfl
  · rw [if_neg zero, if_neg zero]
    by_cases right : field = Ocs.fieldValue (0 :: 0 :: rest) (UInt16.ofNat (pad.length + (2 + rest.length)))
    · rw [if_pos right, if_pos right]
      rfl
    · rw [if_neg right, if_neg right]
      rfl

end Dissected

def restated (status : OcsStatus) : Disposition → Disposition
  | .deliver payload => .deliver { payload with ocsReports := [⟨status, .datagram⟩] }
  | .fail key => .fail key
  | .fragment frag key options reports _ => .fragment frag key options reports status

/-- The status of the surplus area decides nothing but the status that is reported. -/
theorem disposeParsed_restated {opened altered : Opened} (status other : OcsStatus) (parsed : ParsedOptions)
    (sameData : altered.userData = opened.userData)
    (sameKey : fragKey altered.ip altered.udp = fragKey opened.ip opened.udp) :
    disposeParsed altered status parsed = restated status (disposeParsed opened other parsed) := by
  unfold disposeParsed
  rw [sameData, sameKey]
  split
  · rfl
  · dsimp only
    split
    · rfl
    split
    · rfl
    split <;> rfl

section
variable (crc32c : List UInt8 → UInt32) {opened altered : Opened} {payload pad otherPad rest : List UInt8}
  {field otherField : UInt16}

theorem Dissected.trusted (cut : Dissected opened payload pad field rest) {status : OcsStatus}
    (reported : dissectedStatus pad field rest opened.udp.checksum = status)
    (good : status = .valid ∨ status = .unused) : Trusted opened status := by
  have judged := cut.judged
  rw [reported, if_pos good] at judged
  rcases judgeSurplus_cases cut.well with ⟨absent, _⟩ | ⟨_, untrusted, _⟩ | ⟨_, _, found, trusted, _⟩
  · cases absent.symm.trans judged
  · cases untrusted.symm.trans judged
  · cases found.symm.trans judged
    exact trusted

theorem Dissected.untrusted (cut : Dissected opened payload pad field rest) {status : OcsStatus}
    (reported : dissectedStatus pad field rest opened.udp.checksum = status)
    (bad : ¬ (status = .valid ∨ status = .unused)) :
    dispositionOf crc32c opened = .deliver (deliverWithoutOptions payload true status) := by
  have judged := cut.judged
  rw [reported, if_neg bad] at judged
  unfold dispositionOf disposeOpened
  rw [judged, Checked.ok_bind, cut.userData]
  rfl

theorem Dissected.parsedArea_eq (cut : Dissected opened payload pad field rest) :
    parsedArea crc32c opened = parseArea crc32c rest payload (10 + payload.length + payload.length % 2) := by
  have start := cut.ocsStart_eq
  have padded := cut.padded
  have offset := cut.offset
  rw [parsedArea, optionsArea, cut.surplusBody_eq, cut.userData,
    show ocsStart opened + 2 - opened.udpAt = 10 + payload.length + payload.length % 2 by omega]
  rfl

/-- Two datagrams that differ only in pad, OCS and checksum: the second is decided like
the first if its area is trusted, and delivered without options otherwise. -/
theorem Dissected.decided (cut : Dissected opened payload pad field rest)
    (other : Dissected altered payload otherPad otherField rest)
    (valid : dissectedStatus pad field rest opened.udp.checksum = .valid)
    (sameKey : fragKey altered.ip altered.udp = fragKey opened.ip opened.udp) :
    dispositionOf crc32c altered =
      if dissectedStatus otherPad otherField rest altered.udp.checksum = .valid ∨
          dissectedStatus otherPad otherField rest altered.udp.checksum = .unused then
        restated (dissectedStatus otherPad otherField rest altered.udp.checksum) (dispositionOf crc32c opened)
      else .deliver (deliverWithoutOptions payload true
        (dissectedStatus otherPad otherField rest altered.udp.checksum)) := by
  split
  next good =>
    have sameData : altered.userData = opened.userData := other.userData.trans cut.userData.symm
    rw [dispositionOf_trusted crc32c other.well (other.trusted rfl good),
      dispositionOf_trusted crc32c cut.well (cut.trusted valid (.inl rfl)), other.parsedArea_eq, cut.parsedArea_eq]
    cases parseArea crc32c rest payload (10 + payload.length + payload.length % 2) with
    | error error =>
      rw [sameData]
      rfl
    | ok parsed => exact disposeParsed_restated _ _ parsed sameData sameKey
  next bad => exact other.untrusted crc32c rfl bad

end

section
variable {crc32c : List UInt8 → UInt32} {opened altered : Opened} {payload pad otherPad rest : List UInt8}
  {field otherField : UInt16}

theorem Dissected.fragmentData_eq (cut : Dissected opened payload pad field rest) {frag : Frag} {key : Option FragKey}
    {options : List RawOption} {reports : List OptionReport} {status : OcsStatus}
    (disposed : dispositionOf crc32c opened = .fragment frag key options reports status) :
    fragmentData opened frag = rest.drop (frag.fragStart.toNat - (10 + payload.length + payload.length % 2)) := by
  have decided := (disposeOpened_eq crc32c cut.well).2
  rw [disposed] at decided
  have fragmentary := (decided.fragment cut.well).1
  rw [dispositionOf_trusted crc32c cut.well fragmentary.trusted] at disposed
  have starts := cut.ocsStart_eq
  have offset := cut.offset
  have padded := cut.padded
  cases parsing : parsedArea crc32c opened with
  | error error =>
    rw [parsing] at disposed
    cases disposed
  | ok parsed =>
    rw [parsing] at disposed
    rcases disposeParsed_cases status parsing with ⟨_, same⟩ | ⟨_, same, _⟩ | ⟨found, same, reported, empty, sound⟩
    · cases same.symm.trans disposed
    · cases same.symm.trans disposed
    · cases same.symm.trans disposed
      have none : payload = [] := cut.userData.symm.trans empty
      rw [cut.parsedArea_eq, none] at parsing
      obtain ⟨stop, _, begins⟩ := (parseArea_frag parsing reported).2 sound
      rw [none] at starts padded ⊢
      have position : opened.udpAt + frag.fragStart.toNat = ocsStart opened + (2 + stop) := by
        rw [begins, offset, starts, padded]
        simp only [List.length_nil]
        omega
      rw [fragmentData, position, ← List.drop_drop, ← List.drop_drop, ← surplusBody, cut.surplusBody_eq, begins,
        Nat.add_sub_cancel_left]
      rfl

def enacted (crc32c : List UInt8 → UInt32) (opened : Opened) (disposition : Disposition) (cache : ReassemblyCache)
    (now : Nat) : Delivery × ReassemblyCache :=
  match disposition with
  | .deliver payload => (.payload payload, cache)
  | .fail none => (.dropped, cache)
  | .fail (some key) => (.dropped, cache.discard key)
  | .fragment frag _ options reports status =>
    let insertion := insertionOf opened frag options reports status now
    match (insertion.fed cache).1 with
    | .incomplete => (.buffered, insertion.after cache)
    | .abort _ => (.dropped, insertion.after cache)
    | .complete reassembled => handOn crc32c opened reassembled (insertion.after cache)

/-- Datagrams of one flow that carry the same fragment are handled alike. -/
theorem enacted_alike (sameSrc : altered.ip.src = opened.ip.src) (sameDst : altered.ip.dst = opened.ip.dst)
    (sameSrcPort : altered.udp.srcPort = opened.udp.srcPort) (sameDstPort : altered.udp.dstPort = opened.udp.dstPort)
    {disposition : Disposition}
    (sameData : ∀ frag key options reports status, disposition = .fragment frag key options reports status →
      fragmentData altered frag = fragmentData opened frag) (cache : ReassemblyCache) (now : Nat) :
    enacted crc32c altered disposition cache now = enacted crc32c opened disposition cache now := by
  cases disposition with
  | deliver payload => rfl
  | fail key => cases key <;> rfl
  | fragment frag key options reports status =>
    have insertion : insertionOf altered frag options reports status now =
        insertionOf opened frag options reports status now := by
      rw [insertionOf, insertionOf, sameData frag key options reports status rfl, fragKey, fragKey, sameSrc, sameDst,
        sameSrcPort, sameDstPort]
    have rebuilt : rebuiltOpened altered = rebuiltOpened opened := by
      funext reassembled
      rw [rebuiltOpened, rebuiltOpened, rebuiltUdp, rebuiltUdp, sameSrc, sameDst, sameSrcPort, sameDstPort]
    have handed : handOn crc32c altered = handOn crc32c opened := by
      funext reassembled cache
      unfold handOn
      rw [rebuilt]
    unfold enacted
    dsimp only
    rw [insertion, handed]

end

/-! What the tool writes over. -/

def faultedPad (faults : Cli.WireFaults) (pad : List UInt8) : List UInt8 :=
  match faults.pad with
  | some byte => pad.map fun _ => byte
  | none => pad

def faultedField (faults : Cli.WireFaults) (field : UInt16) : UInt16 :=
  match faults.ocs with
  | some (high, low) => u16OfBe high low
  | none => field

def faultedChecksum (faults : Cli.WireFaults) (checksum : UInt16) : UInt16 :=
  if faults.zeroUdpChecksum then 0 else checksum

private theorem faultedPad_length (faults : Cli.WireFaults) (pad : List UInt8) :
    (faultedPad faults pad).length = pad.length := by
  unfold faultedPad
  split
  · exact List.length_map _
  · rfl

section
variable (src dst : Ipv4Addr) (udp : UdpHeader)

private theorem datagramBytes_front {body other : List UInt8} (same : other.length = body.length) :
    datagramBytes src dst udp other = (datagramBytes src dst udp body).take 28 ++ other := by
  have front : (datagramBytes src dst udp body).take 28 =
      (writtenIp src dst body.length).headerBytes
        (internetChecksum ((writtenIp src dst body.length).headerBytes 0)) ++ udp.bytes := by
    rw [datagramBytes, ← List.append_assoc]
    exact List.take_left' rfl
  rw [front, datagramBytes, same, List.append_assoc]

private theorem zero_checksum (body : List UInt8) :
    Checked.copyInto (datagramBytes src dst udp body) Cli.udpChecksumAt (Cli.udpChecksumAt + 2) [0, 0] =
      .ok (datagramBytes src dst { udp with checksum := 0 } body) := by
  have cut (checksum : UInt16) : datagramBytes src dst { udp with checksum := checksum } body =
      ((writtenIp src dst body.length).headerBytes
        (internetChecksum ((writtenIp src dst body.length).headerBytes 0)) ++
        (u16Be udp.srcPort ++ u16Be udp.dstPort ++ u16Be udp.length)) ++ (u16Be checksum ++ body) := by
    simp only [datagramBytes, UdpHeader.bytes, List.append_assoc]
  rw [show datagramBytes src dst udp body = _ from cut udp.checksum, cut 0]
  exact Checked.copyInto_middle rfl rfl rfl

private theorem surplusLayout_written (body : List UInt8) (checked : 20 + udp.length.toNat < 2 ^ 64) :
    Cli.surplusLayout (datagramBytes src dst udp body) =
      .ok (if 20 + udp.length.toNat < 28 + body.length then
        some ⟨20 + udp.length.toNat, (20 + udp.length.toNat) % 2 ≠ 0⟩ else none) := by
  have length := datagramBytes_length src dst udp body
  have high : Checked.index (datagramBytes src dst udp body) Cli.udpLengthAt =
      .ok (UInt8.ofNat (udp.length.toNat / 256)) := rfl
  have low : Checked.index (datagramBytes src dst udp body) (Cli.udpLengthAt + 1) =
      .ok (UInt8.ofNat udp.length.toNat) := rfl
  have added : checkedAdd Cli.ipv4HeaderLen udp.length.toNat = some (20 + udp.length.toNat) := checkedAdd_of_lt checked
  unfold Cli.surplusLayout
  rw [if_neg (by rw [length]; exact Nat.not_lt.mpr (Nat.le_add_right _ _)), high, Checked.ok_bind, low, Checked.ok_bind,
    u16OfBe_split]
  dsimp only
  rw [added, length]
  rfl

private theorem overwrite_body {before old new after : List UInt8} (same : new.length = old.length) {start stop : Nat}
    (starts : start = 28 + before.length) (stops : stop = 28 + before.length + old.length) :
    Checked.copyInto (datagramBytes src dst udp (before ++ (old ++ after))) start stop new =
      .ok (datagramBytes src dst udp (before ++ (new ++ after))) := by
  have front : ((datagramBytes src dst udp (before ++ (old ++ after))).take 28).length = 28 := by
    rw [List.length_take, datagramBytes_length]
    exact Nat.min_eq_left (Nat.le_add_right _ _)
  have lengths : (before ++ (new ++ after)).length = (before ++ (old ++ after)).length := by
    simp only [List.length_append, same]
  have unchanged : datagramBytes src dst udp (before ++ (old ++ after)) =
      ((datagramBytes src dst udp (before ++ (old ++ after))).take 28 ++ before) ++ (old ++ after) := by
    rw [List.append_assoc]
    exact datagramBytes_front src dst udp rfl
  have changed : datagramBytes src dst udp (before ++ (new ++ after)) =
      ((datagramBytes src dst udp (before ++ (old ++ after))).take 28 ++ before) ++ (new ++ after) := by
    rw [List.append_assoc]
    exact datagramBytes_front src dst udp lengths
  rw [changed]
  nth_rewrite 1 [unchanged]
  apply Checked.copyInto_middle
  · rw [List.length_append, front]
    exact starts
  · rw [List.length_append, front]
    exact stops
  · exact same

end

section
variable (src dst : Ipv4Addr) (srcPort dstPort checksum : UInt16)

private theorem clearChecksum_written (faults : Cli.WireFaults) (payloadLen : Nat) (body : List UInt8) :
    faults.clearChecksum (datagramBytes src dst (sentUdp srcPort dstPort payloadLen checksum) body) =
      .ok (datagramBytes src dst (sentUdp srcPort dstPort payloadLen (faultedChecksum faults checksum)) body) := by
  unfold Cli.WireFaults.clearChecksum faultedChecksum
  split
  · exact zero_checksum src dst _ body
  · rfl

private theorem overwritePad_dissected (faults : Cli.WireFaults) {payload pad rest : List UInt8} (udp : UdpHeader)
    (field : UInt16) (padded : pad.length = payload.length % 2)
    (given : faults.pad.isSome = true → payload.length % 2 = 1) (needsPad : Bool) :
    faults.overwritePad ⟨28 + payload.length, needsPad⟩
        (datagramBytes src dst udp (dissectedBody payload pad field rest)) =
      .ok (datagramBytes src dst udp (dissectedBody payload (faultedPad faults pad) field rest)) := by
  unfold Cli.WireFaults.overwritePad faultedPad
  cases asked : faults.pad with
  | none => rfl
  | some byte =>
    rw [given (by rw [asked]; rfl)] at padded
    obtain ⟨old, rfl⟩ := List.length_eq_one_iff.mp padded
    exact @overwrite_body src dst udp payload [old] [byte] (u16Be field ++ rest) rfl _ _ rfl rfl

private theorem overwriteOcs_dissected (faults : Cli.WireFaults) {payload pad rest : List UInt8} (udp : UdpHeader)
    (field : UInt16) (padded : pad.length = payload.length % 2) :
    faults.overwriteOcs ⟨28 + payload.length, decide ((28 + payload.length) % 2 ≠ 0)⟩
        (datagramBytes src dst udp (dissectedBody payload pad field rest)) =
      .ok (datagramBytes src dst udp (dissectedBody payload pad (faultedField faults field) rest)) := by
  have position : Cli.SurplusLayout.ocsAt ⟨28 + payload.length, decide ((28 + payload.length) % 2 ≠ 0)⟩ =
      28 + (payload ++ pad).length := by
    rw [List.length_append, padded, Cli.SurplusLayout.ocsAt]
    rcases Nat.mod_two_eq_zero_or_one payload.length with even | odd
    · simp [Nat.add_mod, even]
    · simp [Nat.add_mod, odd, Nat.add_assoc]
  unfold Cli.WireFaults.overwriteOcs faultedField
  cases faults.ocs with
  | none => rfl
  | some bytes =>
    obtain ⟨high, low⟩ := bytes
    have cut (value : UInt16) : dissectedBody payload pad value rest = (payload ++ pad) ++ (u16Be value ++ rest) :=
      (List.append_assoc _ _ _).symm
    dsimp only
    rw [position, cut, cut, u16Be_u16OfBe]
    have same : [high, low].length = (u16Be field).length := rfl
    exact overwrite_body src dst udp same rfl rfl

private theorem apply_dissected (faults : Cli.WireFaults) {payload pad rest : List UInt8} (field : UInt16)
    (small : 8 + payload.length < 2 ^ 16) (padded : pad.length = payload.length % 2) :
    faults.apply (datagramBytes src dst (sentUdp srcPort dstPort payload.length checksum)
        (dissectedBody payload pad field rest)) =
      .ok (if faults.pad.isSome = true ∧ payload.length % 2 = 0 then
        .error (.message "--pad-hex needs an alignment pad, which only an odd payload length creates")
      else .ok (datagramBytes src dst (sentUdp srcPort dstPort payload.length (faultedChecksum faults checksum))
        (dissectedBody payload (faultedPad faults pad) (faultedField faults field) rest))) := by
  have udpLength := sentUdp_length srcPort dstPort (faultedChecksum faults checksum) small
  have total := dissectedBody_length payload pad field rest
  unfold Cli.WireFaults.apply
  rw [clearChecksum_written, Checked.ok_bind]
  by_cases harmless : (faults.ocs.isNone && faults.pad.isNone) = true
  · rw [if_pos harmless]
    rw [Bool.and_eq_true, Option.isNone_iff_eq_none, Option.isNone_iff_eq_none] at harmless
    simp [faultedPad, faultedField, harmless.1, harmless.2]
  rw [if_neg harmless, surplusLayout_written _ _ _ _ (by omega), udpLength, if_pos (by omega), Checked.ok_bind,
    ← Nat.add_assoc]
  dsimp only
  rcases Nat.mod_two_eq_zero_or_one payload.length with even | odd
  · have aligned : decide ((20 + 8 + payload.length) % 2 ≠ 0) = false := by
      rw [decide_eq_false_iff_not]
      omega
    by_cases asked : faults.pad.isSome = true
    · rw [aligned, if_pos (by rw [asked]; rfl), if_pos ⟨asked, even⟩]
      rfl
    · rw [if_neg (by rw [Bool.and_eq_true]; exact fun both => asked both.1), if_neg (fun both => asked both.1),
        overwritePad_dissected src dst faults _ field padded (fun given => absurd given asked), Checked.ok_bind,
        overwriteOcs_dissected src dst faults _ field ((faultedPad_length faults pad).trans padded)]
      rfl
  · have shifted : decide ((20 + 8 + payload.length) % 2 ≠ 0) = true := by
      rw [decide_eq_true_iff]
      omega
    rw [if_neg (by rw [shifted, Bool.not_true, Bool.and_false]; exact Bool.false_ne_true),
      if_neg (by rw [odd]; exact fun both => absurd both.2 Nat.one_ne_zero),
      overwritePad_dissected src dst faults _ field padded (fun _ => odd), Checked.ok_bind,
      overwriteOcs_dissected src dst faults _ field ((faultedPad_length faults pad).trans padded)]
    rfl

end

/-- The status that a receiver gives to the surplus area of a faulted datagram. -/
def faultStatus (faults : Cli.WireFaults) (payloadLen : Nat) (body : List UInt8) : OcsStatus :=
  if payloadLen % 2 = 1 ∧ faults.pad.any (· ≠ 0) = true then .failed
  else
    match faults.ocs with
    | none => .valid
    | some (high, low) =>
      if high = 0 ∧ low = 0 then if faults.zeroUdpChecksum then .unused else .invalidZero
      else if [high, low] = (filledBody payloadLen body).take 2 then .valid
      else .failed

/-- The decision on a faulted datagram, from the decision on the datagram before the faults. -/
def faultedDecision (faults : Cli.WireFaults) (payload body : List UInt8) (before : Disposition) : Disposition :=
  if faultStatus faults payload.length body = .valid ∨ faultStatus faults payload.length body = .unused then
    restated (faultStatus faults payload.length body) before
  else .deliver (deliverWithoutOptions payload true (faultStatus faults payload.length body))

private theorem faultedPad_wrong (faults : Cli.WireFaults) (payloadLen : Nat) :
    (faultedPad faults (List.replicate (payloadLen % 2) 0)).any (· ≠ 0) = true ↔
      payloadLen % 2 = 1 ∧ faults.pad.any (· ≠ 0) = true := by
  unfold faultedPad
  rcases Nat.mod_two_eq_zero_or_one payloadLen with even | odd
  · cases faults.pad <;> simp [even]
  · cases faults.pad <;> simp [odd]

private theorem u16OfBe_eq_zero {high low : UInt8} : u16OfBe high low = 0 ↔ high = 0 ∧ low = 0 := by
  rw [← UInt16.toNat_inj, u16OfBe_toNat, ← UInt8.toNat_inj, ← UInt8.toNat_inj]
  simp only [UInt16.toNat_zero, UInt8.toNat_zero]
  omega

private theorem faultStatus_dissected (faults : Cli.WireFaults) {payload body : List UInt8} (led : 2 ≤ body.length)
    {checksum : UInt16} (used : checksum ≠ 0) :
    dissectedStatus (faultedPad faults (List.replicate (payload.length % 2) 0))
        (faultedField faults (computedField payload.length body)) (body.drop 2) (faultedChecksum faults checksum) =
      faultStatus faults payload.length body := by
  have length : (faultedPad faults (List.replicate (payload.length % 2) 0)).length + (2 + (body.drop 2).length) =
      payload.length % 2 + body.length := by
    rw [faultedPad_length, List.length_replicate, List.length_drop]
    omega
  have cleared : faultedChecksum faults checksum = 0 ↔ faults.zeroUdpChecksum = true := by
    unfold faultedChecksum
    split
    next asked => exact iff_of_true rfl asked
    next kept => exact iff_of_false used kept
  unfold dissectedStatus faultStatus
  rw [length, ← computedField, if_congr (faultedPad_wrong faults payload.length) rfl rfl]
  congr 1
  cases asked : faults.ocs with
  | none =>
    have field : faultedField faults (computedField payload.length body) = computedField payload.length body := by
      rw [faultedField, asked]
    have nonzero : computedField payload.length body ≠ 0 := fieldValue_ne_zero _ _
    rw [field, if_neg nonzero, if_pos rfl]
  | some bytes =>
    obtain ⟨high, low⟩ := bytes
    have field : faultedField faults (computedField payload.length body) = u16OfBe high low := by
      rw [faultedField, asked]
    have right : u16OfBe high low = computedField payload.length body ↔
        [high, low] = (filledBody payload.length body).take 2 := by
      rw [← u16Be_u16OfBe, show (filledBody payload.length body).take 2 = u16Be (computedField payload.length body) from
        rfl]
      exact ⟨congrArg u16Be, fun same => u16Be_injective same⟩
    rw [field, if_congr u16OfBe_eq_zero (if_congr cleared rfl rfl) (if_congr right rfl rfl)]

section
variable (crc32c : List UInt8 → UInt32) {src dst : Ipv4Addr} {srcPort dstPort : UInt16}
  {payload body datagram faulted : List UInt8} {faults : Cli.WireFaults}

/-- An assembled datagram and what the faults make of it, taken apart. -/
theorem faulted_dissected (led : 2 ≤ body.length) (small : sentLen payload.length body.length ≤ 65535)
    (assembled : assembleDatagram src dst srcPort dstPort payload body = .ok datagram)
    (applied : faults.apply datagram = .ok (.ok faulted)) :
    ∃ checksum opened altered, checksum ≠ 0 ∧ opened.datagram = datagram ∧ altered.datagram = faulted ∧
      opened.udp = sentUdp srcPort dstPort payload.length checksum ∧
      altered.udp = sentUdp srcPort dstPort payload.length (faultedChecksum faults checksum) ∧
      (altered.ip.src = opened.ip.src ∧ altered.ip.dst = opened.ip.dst) ∧
      Dissected opened payload (List.replicate (payload.length % 2) 0) (computedField payload.length body)
        (body.drop 2) ∧
      Dissected altered payload (faultedPad faults (List.replicate (payload.length % 2) 0))
        (faultedField faults (computedField payload.length body)) (body.drop 2) := by
  obtain ⟨checksum, computed, used, written⟩ :=
    assembleDatagram_eq src dst srcPort dstPort (.inr led) (Nat.lt_succ_of_le small)
  cases written.symm.trans assembled
  have total := @sentSurplus_length payload.length body (.inr led)
  have bodyLength := sentBody_length payload body
  rw [sentBody_dissected payload led] at computed applied bodyLength
  have padded : (List.replicate (payload.length % 2) (0 : UInt8)).length = payload.length % 2 := List.length_replicate
  rw [apply_dissected src dst srcPort dstPort checksum faults _ (by omega) padded, Except.ok.injEq] at applied
  split at applied
  · cases applied
  cases applied
  have changed : (dissectedBody payload (faultedPad faults (List.replicate (payload.length % 2) 0))
      (faultedField faults (computedField payload.length body)) (body.drop 2)).length =
        (dissectedBody payload (List.replicate (payload.length % 2) 0) (computedField payload.length body)
          (body.drop 2)).length := by
    rw [dissectedBody_length, dissectedBody_length, faultedPad_length]
  have checked : faultedChecksum faults checksum = 0 ∨ (sentUdp srcPort dstPort payload.length 0).computeChecksum
      (writtenIp src dst (dissectedBody payload (faultedPad faults (List.replicate (payload.length % 2) 0))
        (faultedField faults (computedField payload.length body)) (body.drop 2)).length) payload =
          .ok (faultedChecksum faults checksum) := by
    rw [changed]
    unfold faultedChecksum
    split
    · exact .inl rfl
    · exact .inr computed
  refine ⟨checksum, _, _, used, ?_, ?_, ?_, ?_, ?_, dissected_written padded (by omega) (.inr computed),
    dissected_written ((faultedPad_length _ _).trans padded) (by omega) checked⟩
  · rw [sentBody_dissected payload led]
    rfl
  · rfl
  · rfl
  · rfl
  · exact ⟨rfl, rfl⟩

/-- Wire faults decide only whether the options are trusted: the receiver does with a
faulted datagram what it does with the assembled one, under the status of the faulted
area, or it delivers the same user data without options and leaves the cache alone. -/
theorem faults_decide_only_trust (led : 2 ≤ body.length) (small : sentLen payload.length body.length ≤ 65535)
    (assembled : assembleDatagram src dst srcPort dstPort payload body = .ok datagram)
    (applied : faults.apply datagram = .ok (.ok faulted)) :
    ∃ opened before, examine crc32c datagram = .ok (.ok (opened, before)) ∧ opened.userData = payload ∧
      ∀ cache now, processDatagram crc32c faulted cache now =
        .ok (.ok (enacted crc32c opened (faultedDecision faults payload body before) cache now).1,
          (enacted crc32c opened (faultedDecision faults payload body before) cache now).2) := by
  obtain ⟨checksum, opened, altered, used, rfl, rfl, udp, alteredUdp, ⟨sameSrc, sameDst⟩, cut, other⟩ :=
    faulted_dissected led small assembled applied
  have sameSrcPort : altered.udp.srcPort = opened.udp.srcPort := by rw [udp, alteredUdp]; rfl
  have sameDstPort : altered.udp.dstPort = opened.udp.dstPort := by rw [udp, alteredUdp]; rfl
  have sameKey : fragKey altered.ip altered.udp = fragKey opened.ip opened.udp := by
    funext frag
    rw [fragKey, fragKey, sameSrc, sameDst, sameSrcPort, sameDstPort]
  have valid : dissectedStatus (List.replicate (payload.length % 2) 0) (computedField payload.length body)
      (body.drop 2) opened.udp.checksum = .valid := by
    have unfaulted := @faultStatus_dissected ⟨none, none, false⟩ payload body led checksum used
    rw [show faultStatus ⟨none, none, false⟩ payload.length body = .valid from if_neg (by simp)] at unfaulted
    rw [udp]
    exact unfaulted
  have decided := cut.decided crc32c other valid sameKey
  rw [alteredUdp, show (sentUdp srcPort dstPort payload.length (faultedChecksum faults checksum)).checksum =
    faultedChecksum faults checksum from rfl, faultStatus_dissected faults led used] at decided
  refine ⟨opened, dispositionOf crc32c opened, examine_opened crc32c cut.opening cut.well, cut.userData, ?_⟩
  intro cache now
  rw [processDatagram_opened crc32c other.opening, faultedDecision, ← decided]
  have alike := @enacted_alike crc32c opened altered sameSrc sameDst sameSrcPort sameDstPort
    (dispositionOf crc32c altered) ?_ cache now
  · rw [← alike]
    rfl
  · intro frag key options reports status disposed
    rw [other.fragmentData_eq disposed]
    rw [decided] at disposed
    split at disposed
    · cases before : dispositionOf crc32c opened with
      | deliver payload =>
        rw [before] at disposed
        cases disposed
      | fail key =>
        rw [before] at disposed
        cases disposed
      | fragment first key options reports status =>
        rw [before] at disposed
        cases disposed
        exact (cut.fragmentData_eq before).symm
    · cases disposed

end

/-- An MDS behind an odd payload, and the same datagram with a zero OCS and a zero UDP checksum. -/
private def checkedDatagram : List UInt8 :=
  [69, 0, 0, 38, 0, 0, 0, 0, 64, 17, 102, 197, 10, 0, 0, 1, 10, 0, 0, 2, 3, 232, 7, 208, 0, 11, 220, 27, 1, 2, 3, 0,
    246, 24, 4, 4, 5, 220]

private def uncheckedDatagram : List UInt8 :=
  [69, 0, 0, 38, 0, 0, 0, 0, 64, 17, 102, 197, 10, 0, 0, 1, 10, 0, 0, 2, 3, 232, 7, 208, 0, 11, 0, 0, 1, 2, 3, 0, 0, 0,
    4, 4, 5, 220]

/-- The options are still processed, with an OCS reported as unused. -/
theorem zero_fields_keep_options :
    faultStatus ⟨some (0, 0), none, true⟩ 3 [0, 0, 4, 4, 5, 220] = .unused ∧
      ∃ opened before, examine (fun _ => 0) checkedDatagram = .ok (.ok (opened, before)) ∧
        opened.userData = [1, 2, 3] ∧
        ∀ cache now, processDatagram (fun _ => 0) uncheckedDatagram cache now =
          .ok (.ok (enacted (fun _ => 0) opened
              (faultedDecision ⟨some (0, 0), none, true⟩ [1, 2, 3] [0, 0, 4, 4, 5, 220] before) cache now).1,
            (enacted (fun _ => 0) opened
              (faultedDecision ⟨some (0, 0), none, true⟩ [1, 2, 3] [0, 0, 4, 4, 5, 220] before) cache now).2) := by
  have assembled : assembleDatagram ⟨10, 0, 0, 1⟩ ⟨10, 0, 0, 2⟩ 1000 2000 [1, 2, 3] [0, 0, 4, 4, 5, 220] =
      .ok checkedDatagram := by decide +kernel
  have applied : Cli.WireFaults.apply ⟨some (0, 0), none, true⟩ checkedDatagram = .ok (.ok uncheckedDatagram) := by
    decide +kernel
  exact ⟨by decide, faults_decide_only_trust (fun _ => 0) (by decide) (by decide) assembled applied⟩

end UdpOptions.Proofs
