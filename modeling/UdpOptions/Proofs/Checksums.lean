import UdpOptions.Proofs.Datagrams

/-! The checksum accumulator as a whole. A sequence of calls is determined by the
words it feeds in, and these by their exact sum, so neither the order of the calls
nor an even cut of a slice can be seen in the folded result. The UDP test of the
pipeline, which compares a recomputed field with the stored one, is then the rule
of the receiver that sums the stored field with everything else. -/

namespace UdpOptions.Proofs
open Library Model

inductive SumCall where
  | addU16 (value : UInt16)
  | addSlice (bytes : List UInt8)
  deriving DecidableEq, Repr

/-- The words a slice is cut into, an odd tail with a zero low byte. -/
def sliceWords : List UInt8 → List UInt16
  | [] => []
  | [last] => [u16OfBe last 0]
  | high :: low :: rest => u16OfBe high low :: sliceWords rest

namespace SumCall

def apply (checksum : Checksum) : SumCall → Checksum
  | .addU16 value => checksum.addU16 value
  | .addSlice bytes => checksum.addSlice bytes

def words : SumCall → List UInt16
  | .addU16 value => [value]
  | .addSlice bytes => sliceWords bytes

def total : SumCall → Nat
  | .addU16 value => value.toNat
  | .addSlice bytes => wordSum bytes

end SumCall

def runCalls (calls : List SumCall) : Checksum := calls.foldl SumCall.apply .new

def callsTotal (calls : List SumCall) : Nat := (calls.map SumCall.total).sum

def sumWords (words : List UInt16) : Checksum := words.foldl Checksum.addU16 .new

private theorem addSlice_words (checksum : Checksum) (bytes : List UInt8) :
    checksum.addSlice bytes = (sliceWords bytes).foldl Checksum.addU16 checksum := by
  induction bytes using sliceWords.induct generalizing checksum with
  | case1 => rfl
  | case2 last => rfl
  | case3 high low rest ih => exact ih _

private theorem apply_words (checksum : Checksum) (call : SumCall) :
    call.apply checksum = call.words.foldl Checksum.addU16 checksum := by
  cases call with
  | addU16 value => rfl
  | addSlice bytes => exact addSlice_words checksum bytes

private theorem runCalls_words (calls : List SumCall) : runCalls calls = sumWords (calls.flatMap SumCall.words) := by
  have general : ∀ checksum : Checksum, calls.foldl SumCall.apply checksum =
      (calls.flatMap SumCall.words).foldl Checksum.addU16 checksum := by
    induction calls with
    | nil => exact fun _ => rfl
    | cons call rest ih =>
      intro checksum
      rw [List.foldl_cons, List.flatMap_cons, List.foldl_append, apply_words, ih]
  exact general .new

theorem Sums.apply {checksum : Checksum} {total : Nat} (sums : Sums checksum total) (call : SumCall) :
    Sums (call.apply checksum) (total + call.total) := by
  cases call with
  | addU16 value => exact sums.addU16 value
  | addSlice bytes => exact sums.addSlice bytes

private theorem sums_runCalls (calls : List SumCall) : Sums (runCalls calls) (callsTotal calls) := by
  have general : ∀ (checksum : Checksum) (total : Nat), Sums checksum total →
      Sums (calls.foldl SumCall.apply checksum) (total + callsTotal calls) := by
    induction calls with
    | nil => exact fun _ _ sums => sums
    | cons call rest ih =>
      intro checksum total sums
      have further := ih _ _ (sums.apply call)
      rw [Nat.add_assoc] at further
      exact further
  have whole := general .new 0 sums_new
  rw [Nat.zero_add] at whole
  exact whole

/-- The accumulator between two words is folded, whatever came before. -/
theorem sumWords_le (words : List UInt16) : (sumWords words).sum ≤ 65535 := by
  have held := sums_runCalls (words.map SumCall.addU16)
  rw [runCalls_words, List.flatMap_map] at held
  simp only [SumCall.words, List.flatMap_singleton'] at held
  rw [held]
  exact onesResidue_le _

/-- Calls with one exact sum cannot be told apart by the folded result. -/
theorem folded_of_total {calls others : List SumCall} (same : callsTotal others = callsTotal calls) :
    (runCalls others).folded = (runCalls calls).folded := by
  apply UInt16.toNat_inj.mp
  rw [(sums_runCalls others).folded, (sums_runCalls calls).folded, same]

private theorem callsTotal_append (calls others : List SumCall) :
    callsTotal (calls ++ others) = callsTotal calls + callsTotal others := by
  simp [callsTotal]

/-- What a sequence of calls on a fresh accumulator amounts to. -/
structure Accumulates (calls : List SumCall) : Prop where
  /-- The folded sum is a function of the exact one. -/
  closed : (runCalls calls).folded.toNat =
    if callsTotal calls = 0 then 0 else (callsTotal calls - 1) % 65535 + 1
  reordered : ∀ others : List SumCall, others.Perm calls → (runCalls others).folded = (runCalls calls).folded
  cut : ∀ (before after : List SumCall) (front back : List UInt8), front.length % 2 = 0 →
    calls = before ++ .addSlice (front ++ back) :: after →
    (runCalls (before ++ .addSlice front :: .addSlice back :: after)).folded = (runCalls calls).folded
  /-- Every word of every call is added below the width of the accumulator. -/
  single : runCalls calls = sumWords (calls.flatMap SumCall.words)
  fits : ∀ (done rest : List UInt16) (word : UInt16), calls.flatMap SumCall.words = done ++ word :: rest →
    (sumWords done).sum + word.toNat < 2 ^ 32
  complemented : (runCalls (calls ++ [.addU16 (runCalls calls).finish])).folded = 0xffff

theorem accumulates_exact_sum (calls : List SumCall) : Accumulates calls where
  closed := (sums_runCalls calls).folded
  reordered others reordering := by
    apply folded_of_total
    exact (reordering.map SumCall.total).sum_eq
  cut before after front back even shape := by
    apply folded_of_total
    subst calls
    simp only [callsTotal, List.map_append, List.map_cons, List.sum_append, List.sum_cons, SumCall.total,
      wordSum_append even, Nat.add_assoc]
  single := runCalls_words calls
  fits done rest word _ := by
    have small := sumWords_le done
    have bound := word.toNat_lt
    omega
  complemented := by
    have total : callsTotal (calls ++ [.addU16 (runCalls calls).finish]) =
        callsTotal calls + (65535 - onesResidue (callsTotal calls)) := by
      rw [callsTotal_append, ← (sums_runCalls calls).finish]
      rfl
    apply UInt16.toNat_inj.mp
    rw [(sums_runCalls _).folded, total, onesResidue_add_complement]
    rfl

/-- The bytes the receiver of RFC 768 sums: the pseudo-header, the UDP header with
its stored checksum, and the user data. -/
def receiverBytes (ip : IpRepr) (udp : UdpHeader) (data : List UInt8) : List UInt8 :=
  ip.src.toList ++ ip.dst.toList ++ [0, ipprotoUdp] ++ u16Be udp.length ++ udp.bytes ++ data

/-- The exact sum with a zero in place of the checksum field. -/
def senderTotal (ip : IpRepr) (udp : UdpHeader) (data : List UInt8) : Nat :=
  wordSum ip.src.toList + wordSum ip.dst.toList + ipprotoUdp.toUInt16.toNat + udp.length.toNat +
    udp.srcPort.toNat + udp.dstPort.toNat + udp.length.toNat + wordSum data

private theorem wordSum_receiverBytes (ip : IpRepr) (udp : UdpHeader) (data : List UInt8) :
    wordSum (receiverBytes ip udp data) = senderTotal ip udp data + udp.checksum.toNat := by
  have even : ∀ octets : Octets, octets.toList.length % 2 = 0 := by simp [Octets.toList]
  have protocol : wordSum [0, ipprotoUdp] = ipprotoUdp.toUInt16.toNat := rfl
  simp only [receiverBytes, senderTotal, UdpHeader.bytes, List.append_assoc]
  rw [wordSum_append (even ip.src), wordSum_append (even ip.dst), wordSum_append (by simp), protocol]
  simp only [wordSum_word_append]
  omega

private theorem computeChecksum_total (ip : IpRepr) (udp : UdpHeader) {data : List UInt8}
    (lengths : udp.length.toNat = 8 + data.length) :
    ∃ computed, udp.computeChecksum ip data = .ok computed ∧
      computed.toNat = if onesResidue (senderTotal ip udp data) = 65535 then 65535
        else 65535 - onesResidue (senderTotal ip udp data) := by
  have sums := ((((((((sums_new.addSlice ip.src.toList).addSlice ip.dst.toList).addU16 ipprotoUdp.toUInt16).addU16
    udp.length).addU16 udp.srcPort).addU16 udp.dstPort).addU16 udp.length).addSlice data).finish
  rw [Nat.zero_add] at sums
  have required : udp.length.toNat = UdpHeader.headerLen + data.length := lengths
  rw [UdpHeader.computeChecksum, Checked.require_of required, Checked.ok_bind]
  refine ⟨_, rfl, ?_⟩
  have bound := onesResidue_le (senderTotal ip udp data)
  split
  next zero =>
    have full : onesResidue (senderTotal ip udp data) = 65535 := by
      have vanished := congrArg UInt16.toNat zero
      have complement : 65535 - onesResidue (senderTotal ip udp data) = 0 := sums.symm.trans vanished
      omega
    rw [if_pos full]
    rfl
  next nonzero =>
    have partly : onesResidue (senderTotal ip udp data) ≠ 65535 := by
      intro full
      apply nonzero
      apply UInt16.toNat_inj.mp
      exact sums.trans (by change 65535 - onesResidue (senderTotal ip udp data) = 0; omega)
    rw [if_neg partly]
    exact sums

/-- A recomputed field is the stored one exactly when the stored one completes the
sum to all ones. Both zeros of the one's complement are excluded: the computed
field is never zero, and a stored zero means that no checksum is used. -/
private theorem completes_iff {total computed stored : Nat} (word : stored ≤ 65535) (used : stored ≠ 0)
    (value : computed = if onesResidue total = 65535 then 65535 else 65535 - onesResidue total) :
    computed = stored ↔ onesResidue (total + stored) = 65535 := by
  unfold onesResidue at *
  split at value <;> split <;> split at value <;> omega

private theorem computeChecksum_required {ip : IpRepr} {udp : UdpHeader} {data : List UInt8} {computed : UInt16}
    (done : udp.computeChecksum ip data = .ok computed) : udp.length.toNat = 8 + data.length := by
  by_contra mismatch
  change ¬ udp.length.toNat = UdpHeader.headerLen + data.length at mismatch
  rw [UdpHeader.computeChecksum, Checked.require, if_neg mismatch] at done
  cases done

/-- A recomputed field is the stored one exactly when the receiver's sum is all ones. -/
theorem computeChecksum_completes {ip : IpRepr} {udp : UdpHeader} {data : List UInt8} (used : udp.checksum ≠ 0)
    (lengths : udp.length.toNat = 8 + data.length) :
    { udp with checksum := 0 : UdpHeader }.computeChecksum ip data = .ok udp.checksum ↔
      onesResidue (wordSum (receiverBytes ip udp data)) = 65535 := by
  obtain ⟨computed, done, value⟩ := computeChecksum_total ip { udp with checksum := 0 } lengths
  have word := udp.checksum.toNat_lt
  have nonzero : udp.checksum.toNat ≠ 0 := fun zero => used (UInt16.toNat_inj.mp zero)
  rw [wordSum_receiverBytes, done, Except.ok.injEq, ← UInt16.toNat_inj]
  exact completes_iff (by omega) nonzero value

/-- The test of the pipeline is the receiver's rule, and the computed field is
never zero. -/
theorem checksum_test_iff_receiver_rule :
    (∀ (ip : IpRepr) (udp : UdpHeader) (data : List UInt8), udp.checksum ≠ 0 → udp.length.toNat = 8 + data.length →
      ({ udp with checksum := 0 : UdpHeader }.computeChecksum ip data = .ok udp.checksum ↔
        foldCarries (wordSum (receiverBytes ip udp data)) (wordSum (receiverBytes ip udp data)) = 0xffff)) ∧
    ∀ (ip : IpRepr) (udp : UdpHeader) (data : List UInt8), udp.computeChecksum ip data ≠ .ok 0 := by
  refine ⟨?_, ?_⟩
  · intro ip udp data used lengths
    rw [foldCarries_eq (Nat.le_refl _)]
    exact computeChecksum_completes used lengths
  · intro ip udp data zero
    obtain ⟨computed, done, nonzero⟩ := computeChecksum_eq udp ip (computeChecksum_required zero)
    rw [zero] at done
    cases done
    exact nonzero rfl

/-- The header of the repository's `hello` datagram carries the field it tests against. -/
theorem hello_meets_receiver_rule :
    let ip : IpRepr := ⟨⟨192, 0, 2, 1⟩, ⟨198, 51, 100, 2⟩, 5, 33⟩
    let udp : UdpHeader := ⟨12345, 53, 13, 0x9f5c⟩
    let hello : List UInt8 := [0x68, 0x65, 0x6c, 0x6c, 0x6f]
    udp.checksum ≠ 0 ∧ udp.length.toNat = 8 + hello.length ∧
      { udp with checksum := 0 : UdpHeader }.computeChecksum ip hello = .ok 0x9f5c :=
  ⟨by decide, by decide, (checksum_test_iff_receiver_rule.1 _ ⟨12345, 53, 13, 0x9f5c⟩ _ (by decide) (by decide)).mpr
    (by decide +kernel)⟩

end UdpOptions.Proofs
