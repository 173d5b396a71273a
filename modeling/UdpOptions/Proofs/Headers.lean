import UdpOptions.Pipeline

/-! Checksums and headers. An accumulator is determined by the exact sum of the
words it has seen, so a header with its own checksum, and an options body with its
own OCS, verify. What the parsers accept has the lengths that the rest of the
pipeline slices by. -/

namespace UdpOptions.Proofs
open Library Model

/-- The exact sum of the big-endian words of a byte string, padded to even length. -/
def wordSum : List UInt8 → Nat
  | [] => 0
  | [last] => last.toNat * 256
  | high :: low :: rest => high.toNat * 256 + low.toNat + wordSum rest

def Sums (checksum : Checksum) (total : Nat) : Prop := checksum.sum = onesResidue total

theorem sums_new : Sums Checksum.new 0 := rfl

theorem Sums.addU16 {checksum : Checksum} {total : Nat} (sums : Sums checksum total) (value : UInt16) :
    Sums (checksum.addU16 value) (total + value.toNat) := by
  have word := value.toNat_lt
  have folded := endAround_residue_add total value.toNat (by omega)
  rw [← sums] at folded
  exact folded

theorem Sums.addSlice {checksum : Checksum} {total : Nat} (sums : Sums checksum total) (bytes : List UInt8) :
    Sums (checksum.addSlice bytes) (total + wordSum bytes) := by
  induction bytes using wordSum.induct generalizing checksum total with
  | case1 => exact sums
  | case2 last =>
    have added := sums.addU16 (u16OfBe last 0)
    rw [u16OfBe_toNat] at added
    simpa only [wordSum, Checksum.addSlice, UInt8.toNat_zero, Nat.add_zero] using added
  | case3 high low rest ih =>
    have added := sums.addU16 (u16OfBe high low)
    rw [u16OfBe_toNat] at added
    have further := ih added
    rw [Nat.add_assoc] at further
    exact further

theorem Sums.folded {checksum : Checksum} {total : Nat} (sums : Sums checksum total) :
    checksum.folded.toNat = onesResidue total := by
  have small := onesResidue_le total
  unfold Checksum.folded
  rw [sums, foldCarries_of_le _ small]
  exact UInt16.toNat_ofNat_of_lt' (by change _ < 65536; omega)

theorem Sums.finish {checksum : Checksum} {total : Nat} (sums : Sums checksum total) :
    checksum.finish.toNat = 65535 - onesResidue total := by
  rw [← sums.folded]
  exact UInt16.toNat_not _

theorem internetChecksum_toNat (bytes : List UInt8) :
    (internetChecksum bytes).toNat = 65535 - onesResidue (wordSum bytes) := by
  have total := (sums_new.addSlice bytes).finish
  rw [Nat.zero_add] at total
  exact total

theorem wordSum_append {first : List UInt8} (even : first.length % 2 = 0) (second : List UInt8) :
    wordSum (first ++ second) = wordSum first + wordSum second := by
  induction first using wordSum.induct with
  | case1 => simp [wordSum]
  | case2 last => simp at even
  | case3 high low rest ih =>
    have shorter : rest.length % 2 = 0 := by
      simp only [List.length_cons] at even
      omega
    simp only [List.cons_append, wordSum, ih shorter]
    omega

private theorem wordSum_u16Be (value : UInt16) : wordSum (u16Be value) = value.toNat := by
  have round := congrArg UInt16.toNat (u16OfBe_split value)
  rw [u16OfBe_toNat] at round
  simpa [u16Be, wordSum] using round

theorem wordSum_word_append (value : UInt16) (rest : List UInt8) :
    wordSum (u16Be value ++ rest) = value.toNat + wordSum rest := by
  rw [wordSum_append (by simp), wordSum_u16Be]

theorem headerBytes_verifies (ip : IpRepr) :
    internetChecksum (ip.headerBytes (internetChecksum (ip.headerBytes 0))) = 0 := by
  have split : ∀ checksum : UInt16, wordSum (ip.headerBytes checksum) =
      wordSum ([0x45, 0] ++ u16Be ip.totalLen ++ [0, 0, 0, 0, defaultTtl, ipprotoUdp]) + checksum.toNat +
        wordSum (ip.src.toList ++ ip.dst.toList) := by
    intro checksum
    rw [IpRepr.headerBytes, List.append_assoc, wordSum_append (by simp), wordSum_append (by simp), wordSum_u16Be]
  apply UInt16.toNat_inj.mp
  rw [internetChecksum_toNat, split, internetChecksum_toNat, split]
  generalize wordSum ([0x45, 0] ++ u16Be ip.totalLen ++ [0, 0, 0, 0, defaultTtl, ipprotoUdp]) = first
  generalize wordSum (ip.src.toList ++ ip.dst.toList) = second
  have verified := onesResidue_add_complement (first + second)
  rw [UInt16.toNat_zero, Nat.add_zero, Nat.add_right_comm, verified]

structure IpAccepted (bytes : List UInt8) (ip : IpRepr) (udpAt : Nat) : Prop where
  offset : udpAt = ip.headerLen
  header : 20 ≤ ip.headerLen
  total : ip.headerLen ≤ ip.totalLen.toNat
  inside : ip.totalLen.toNat ≤ bytes.length

theorem parseV4_accepted {bytes : List UInt8} {ip : IpRepr} {udpAt : Nat}
    (parsed : IpRepr.parseV4 bytes = .ok (ip, udpAt)) : IpAccepted bytes ip udpAt := by
  unfold IpRepr.parseV4 at parsed
  split at parsed
  next =>
    dsimp only at parsed
    split at parsed
    · cases parsed
    next proper =>
    split at parsed
    · cases parsed
    next long =>
    split at parsed
    · cases parsed
    next lengths =>
    split at parsed
    · cases parsed
    split at parsed
    · cases parsed
    cases parsed
    push Not at lengths
    have ihl := UInt8.le_iff_toNat_le.mp (UInt8.not_lt.mp proper)
    exact ⟨rfl, Nat.mul_le_mul_right 4 ihl, lengths.1, lengths.2⟩
  · cases parsed

theorem parse_accepted {bytes : List UInt8} {ip : IpRepr} {udpAt : Nat}
    (parsed : IpRepr.parse bytes = .ok (ip, udpAt)) : IpAccepted bytes ip udpAt := by
  unfold IpRepr.parse at parsed
  split at parsed
  · cases parsed
  · split at parsed
    · exact parseV4_accepted parsed
    · cases parsed

theorem udp_parse_accepted {bytes : List UInt8} {udp : UdpHeader} (parsed : UdpHeader.parse bytes = .ok udp) :
    8 ≤ bytes.length ∧ 8 ≤ udp.length.toNat := by
  unfold UdpHeader.parse at parsed
  split at parsed
  · dsimp only at parsed
    split at parsed
    · cases parsed
    next proper =>
      cases parsed
      refine ⟨?_, Nat.le_of_not_lt proper⟩
      simp only [List.length_cons]
      omega
  · cases parsed

/-- A written IPv4 header in front of any payload of the announced length parses
back to itself. -/
theorem parse_headerBytes (src dst : Ipv4Addr) (totalLen : UInt16) (rest : List UInt8)
    (announced : totalLen.toNat = 20 + rest.length) :
    IpRepr.parse (IpRepr.headerBytes ⟨src, dst, 5, totalLen⟩
        (internetChecksum (IpRepr.headerBytes ⟨src, dst, 5, totalLen⟩ 0)) ++ rest) =
      .ok (⟨src, dst, 5, totalLen⟩, 20) := by
  have verified := headerBytes_verifies ⟨src, dst, 5, totalLen⟩
  generalize internetChecksum (IpRepr.headerBytes ⟨src, dst, 5, totalLen⟩ 0) = checksum at verified ⊢
  have version : (0x45 : UInt8) >>> 4 = 4 := by decide
  have ihl : (0x45 : UInt8) &&& 0x0f = 5 := by decide
  have twenty : UInt8.toNat 5 * 4 = 20 := rfl
  have front : (IpRepr.headerBytes ⟨src, dst, 5, totalLen⟩ checksum ++ rest).take 20 =
      IpRepr.headerBytes ⟨src, dst, 5, totalLen⟩ checksum := rfl
  have length : (IpRepr.headerBytes ⟨src, dst, 5, totalLen⟩ checksum ++ rest).length = 20 + rest.length :=
    List.length_append
  rw [← front] at verified
  simp only [IpRepr.headerBytes, u16Be, Octets.toList, List.cons_append, List.nil_append] at verified length ⊢
  rw [IpRepr.parse, if_pos version, IpRepr.parseV4]
  simp only [ihl, u16OfBe_split, length, twenty]
  rw [if_neg (by decide), if_neg (by omega), if_neg (by omega), if_neg (by simp), if_neg (not_not.mpr verified)]

theorem udp_parse_bytes (udp : UdpHeader) (rest : List UInt8) (proper : 8 ≤ udp.length.toNat) :
    UdpHeader.parse (udp.bytes ++ rest) = .ok udp := by
  simp only [UdpHeader.bytes, u16Be, List.cons_append, List.nil_append, UdpHeader.parse, u16OfBe_split]
  exact if_neg (show ¬ udp.length.toNat < UdpHeader.headerLen from Nat.not_lt.mpr proper)

theorem bytes_length (udp : UdpHeader) : udp.bytes.length = 8 := rfl

theorem headerBytes_length (ip : IpRepr) (checksum : UInt16) : (ip.headerBytes checksum).length = 20 := rfl

theorem fieldValue_ne_zero (zeroed : List UInt8) (surplusLen : UInt16) : Ocs.fieldValue zeroed surplusLen ≠ 0 := by
  unfold Ocs.fieldValue
  dsimp only
  split
  · decide
  next nonzero => exact nonzero

theorem compute_led {body : List UInt8} (led : 2 ≤ body.length) (surplusLen : UInt16) :
    Ocs.compute body surplusLen = .ok (u16Be (Ocs.fieldValue (0 :: 0 :: body.drop 2) surplusLen) ++ body.drop 2) := by
  have zeroed : Checked.copyInto body 0 Length.ocs [0, 0] = .ok (0 :: 0 :: body.drop 2) :=
    Checked.copyInto_of_le (Nat.zero_le _) led rfl
  have placed : ∀ field : UInt16, Checked.copyInto (0 :: 0 :: body.drop 2) 0 Length.ocs (u16Be field) =
      .ok (u16Be field ++ body.drop 2) := fun field =>
    Checked.copyInto_of_le (Nat.zero_le _) (by simp [Length.ocs]) rfl
  rw [Ocs.compute, Checked.require_of (show Length.ocs ≤ body.length from led), Checked.ok_bind, zeroed,
    Checked.ok_bind, placed]

theorem validate_valid_iff {field : UInt16} {rest : List UInt8} {surplusLen udpChecksum : UInt16} :
    Ocs.validate (u16Be field ++ rest) surplusLen udpChecksum = .valid ↔
      field ≠ 0 ∧ onesResidue (wordSum rest + surplusLen.toNat + field.toNat) = 65535 := by
  have folded := ((sums_new.addSlice (u16Be field ++ rest)).addU16 surplusLen).folded
  rw [wordSum_word_append, Nat.zero_add, Nat.add_assoc, Nat.add_comm] at folded
  have unfolded : Ocs.validate (u16Be field ++ rest) surplusLen udpChecksum =
      if u16OfBe (UInt8.ofNat (field.toNat / 256)) (UInt8.ofNat field.toNat) = 0 then
        if udpChecksum = 0 then .unused else .ignoreOptions
      else if ((Checksum.new.addSlice (u16Be field ++ rest)).addU16 surplusLen).folded = 0xffff then .valid
      else .error .ocsMismatch := rfl
  rw [← folded, show (65535 : Nat) = UInt16.toNat 0xffff from rfl, UInt16.toNat_inj, unfolded, u16OfBe_split]
  split
  next zero =>
    refine iff_of_false ?_ fun full => full.1 zero
    split <;> exact nofun
  next nonzero =>
    rw [and_iff_right nonzero]
    split
    next full => exact iff_of_true rfl full
    next other => exact iff_of_false nofun other

theorem fieldValue_full (rest : List UInt8) (surplusLen : UInt16) :
    onesResidue (wordSum rest + surplusLen.toNat + (Ocs.fieldValue (0 :: 0 :: rest) surplusLen).toNat) = 65535 := by
  have zeroed := ((sums_new.addSlice (0 :: 0 :: rest)).addU16 surplusLen).finish
  simp only [wordSum, UInt8.toNat_zero, Nat.zero_mul, Nat.zero_add] at zeroed
  have small := onesResidue_le (wordSum rest + surplusLen.toNat)
  unfold Ocs.fieldValue
  dsimp only
  split
  next zero =>
    rw [zero, UInt16.toNat_zero] at zeroed
    exact onesResidue_add_ones (by omega)
  next => rw [zeroed, onesResidue_add_complement]

/-- An options body that carries its own OCS verifies. -/
theorem validate_fieldValue (rest : List UInt8) (surplusLen udpChecksum : UInt16) :
    Ocs.validate (u16Be (Ocs.fieldValue (0 :: 0 :: rest) surplusLen) ++ rest) surplusLen udpChecksum = .valid :=
  validate_valid_iff.mpr ⟨fieldValue_ne_zero _ _, fieldValue_full rest surplusLen⟩

end UdpOptions.Proofs
