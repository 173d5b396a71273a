import UdpOptions.Cli
import UdpOptions.Proofs.Identifications
import UdpOptions.Proofs.SplitMinimal

/-! Which sends consume an Identification. The value is taken before the splitter
checks the peer's limits, so a send that those limits refuse has used one up. This
is the only case: what goes out as one datagram, and every other refusal, leaves the
generator alone. -/

namespace UdpOptions.Proofs
open Library Model

def Unfragmented (result : Except SendError (List (List UInt8))) : Prop :=
  ∀ datagrams, result = .ok datagrams → datagrams.length = 1

/-- No division of the tail fits into what the datagram limit and the peer allow. -/
def Unsplittable (payload body : List UInt8) (config : Api.SendConfig) : Prop :=
  config.maxDatagramLen < 42 ∨
    config.peer.maxReassembledSize.toNat < 8 + (Split.reassembledTail payload body).length ∨
    ∀ count ∈ fragmentCounts payload body (config.maxDatagramLen - 28), config.peer.maxSegments.toNat < count

section
variable (crc32c : List UInt8 → UInt32)

/-- Neither the peer socket nor the sending tool moves the generator on without emitting fragments. -/
def SparesIdentifications (send : PeerSend) (identifications : IdentificationGenerator) : Prop :=
  (∃ result after,
    Api.buildPeerOutgoingDatagrams crc32c send.addrs send.payload send.options send.config identifications =
        .ok (result, after) ∧
      (Unfragmented result → after = identifications)) ∧
  ∃ result after,
    Cli.buildDatagramsForSend crc32c send.addrs send.payload send.options send.config identifications =
        .ok (result, after) ∧
      (Unfragmented (result.map Prod.fst) → after = identifications)

variable {crc32c}
variable {payload body : List UInt8} {options : Api.SendOptions} {config : Api.SendConfig} {len : Nat}
  {send : PeerSend} {identifications after : IdentificationGenerator} {entry : Dispatch}

theorem Fragments.unsplittable_iff (known : Fragments crc32c payload options config body len) (id : UInt32) :
    (∃ error, Split.splitDatagram payload body ⟨config.maxDatagramLen - 28, config.peer, id⟩ = .ok (.error error)) ↔
      Unsplittable payload body config := by
  obtain ⟨least, most⟩ := validateSendConfig_ok known.limits
  have bound := config.peer.maxReassembledSize.toNat_lt
  have tail : payload.length ≤ (Split.reassembledTail payload body).length := by
    rw [reassembledTail_eq, List.length_append, List.length_append]
    omega
  rw [splitDatagram_refused_iff]
  constructor
  · intro refused
    by_contra fits
    obtain ⟨room, fits⟩ := not_or.mp fits
    obtain ⟨size, few⟩ := not_or.mp fits
    push Not at few
    exact refused ⟨⟨optionsBody_led known.single.serialized, show 14 ≤ config.maxDatagramLen - 28 by omega,
      show config.maxDatagramLen - 28 ≤ 65507 by omega, by omega, Nat.le_of_not_lt size⟩, few⟩
  · rintro (narrow | large | many) ⟨suitable, count, possible, few⟩
    · have room : 14 ≤ config.maxDatagramLen - 28 := suitable.least
      omega
    · exact Nat.not_lt.mpr suitable.size large
    · exact Nat.not_lt.mpr few (many count possible)

/-- With an Identification at hand, a fragmented send fails exactly if nothing fits, and otherwise emits several
fragments. -/
theorem PeerSend.named_unfragmented {id : UInt32} {result : Except SendError (List (List UInt8))}
    (known : Fragments crc32c send.payload send.options send.config body len)
    (named : send.named crc32c id = .ok result) :
    Unfragmented result ↔ Unsplittable send.payload body send.config := by
  rw [PeerSend.named] at named
  have same : Fragments crc32c send.payload send.options { send.config with identification := some id } body len :=
    ⟨known.limits, known.accepted, known.single, known.large, known.enabled⟩
  have ends := buildOutgoingDatagrams_case crc32c send.addrs send.payload send.options
    { send.config with identification := some id }
  generalize Api.buildOutgoingDatagrams crc32c send.addrs send.payload send.options _ = outcome at named ends
  cases ends with
  | refused other never => exact absurd same (never body len)
  | single single fits sent =>
    obtain ⟨_, rfl⟩ := single.unique known.single
    exact absurd known.large (Nat.not_lt.mpr fits)
  | @fragments other otherLen again =>
    obtain ⟨rfl, rfl⟩ := again.single.unique known.single
    rcases sendFragments_cases send.addrs send.payload other again.limits with
      ⟨error, failed, refused⟩ | ⟨identification, rdos, ranges, openedOf, given, plan, budgeted, whole, sent⟩
    · cases failed.symm.trans named
      apply iff_of_true
      · intro datagrams built
        cases built
      · exact (known.unsplittable_iff id).mp (refused id rfl)
    · cases whole.symm.trans named
      cases given
      apply iff_of_false
      · intro unfragmented
        have one := unfragmented _ rfl
        have several := again.several budgeted
        rw [List.length_map] at one
        omega
      · rw [← known.unsplittable_iff id]
        intro unsplit
        obtain ⟨error, failed⟩ := unsplit
        simp only [sendFragments, failed] at whole
        cases whole

/-- The tool's wrapper does what the peer socket does and names the Identification. -/
theorem DispatchCase.buildDatagramsForSend (taken : DispatchCase crc32c send identifications entry after) :
    Cli.buildDatagramsForSend crc32c send.addrs send.payload send.options send.config identifications =
      .ok (entry.result.map fun datagrams => (datagrams, entry.handed), after) := by
  have alone := send.alone_cases crc32c
  unfold PeerSend.alone at alone
  rw [Cli.buildDatagramsForSend, Checked.require_of send.unnamed, Checked.ok_bind]
  cases taken with
  | @whole _ result never building =>
    obtain ⟨_, same, built, other⟩ | ⟨needed, _⟩ := alone
    · cases building.symm.trans built
      rw [built, Checked.ok_bind]
      cases result with
      | ok datagrams => rfl
      | error error =>
        split
        next required => exact absurd required other
        next different same =>
          cases same
          rfl
        next same => cases same
    · exact absurd needed never
  | exhausted needed =>
    obtain ⟨never, _⟩ | ⟨_, built⟩ := alone
    · exact absurd needed never
    · rw [built, Checked.ok_bind]
      rfl
  | @fragmented id result needed named =>
    obtain ⟨never, _⟩ | ⟨_, built⟩ := alone
    · exact absurd needed never
    · rw [PeerSend.named] at named
      rw [built, Checked.ok_bind]
      simp only [IdentificationGenerator.nextId, named, Checked.ok_bind]
      cases result <;> rfl

theorem dispatch_peer (ran : dispatch crc32c send identifications = .ok (entry, after)) :
    Api.buildPeerOutgoingDatagrams crc32c send.addrs send.payload send.options send.config identifications =
      .ok (entry.result, after) := by
  obtain ⟨⟨result, final⟩, built, done⟩ := Checked.bind_eq_ok.mp ran
  cases done
  exact built

private theorem advanced_ne (id : UInt32) :
    (⟨if id.toNat + 1 < 2 ^ 32 then some (id + 1) else none⟩ : IdentificationGenerator) ≠ ⟨some id⟩ := by
  intro same
  have least := handsFrom_advanced id
  rw [same] at least
  have := least id rfl
  omega

/-- The generator is spared exactly by the sends that need no fragments, that find it
exhausted, or that the splitter accepts. -/
theorem spares_identifications_iff (crc32c : List UInt8 → UInt32) (send : PeerSend)
    (identifications : IdentificationGenerator) :
    SparesIdentifications crc32c send identifications ↔
      ¬ ∃ body len id, Fragments crc32c send.payload send.options send.config body len ∧
        identifications.next = some id ∧ Unsplittable send.payload body send.config := by
  obtain ⟨entry, after, ran, taken⟩ := dispatch_case crc32c send identifications
  have both : SparesIdentifications crc32c send identifications ↔
      (Unfragmented entry.result → after = identifications) := by
    have named : (entry.result.map fun datagrams => (datagrams, entry.handed)).map Prod.fst = entry.result := by
      cases entry.result <;> rfl
    constructor
    · intro ⟨⟨result, final, built, spared⟩, _⟩
      cases (dispatch_peer ran).symm.trans built
      exact spared
    · intro spared
      refine ⟨⟨_, _, dispatch_peer ran, spared⟩, _, _, taken.buildDatagramsForSend, ?_⟩
      rw [named]
      exact spared
  rw [both]
  cases taken with
  | whole never alone =>
    apply iff_of_true (fun _ => rfl)
    intro ⟨body, len, id, known, _⟩
    exact never ⟨body, len, known⟩
  | exhausted needed =>
    apply iff_of_true (fun _ => rfl)
    intro ⟨body, len, id, _, available, _⟩
    cases available
  | @fragmented id result needed named =>
    obtain ⟨body, len, known⟩ := needed
    have unfragmented := PeerSend.named_unfragmented known named
    constructor
    · intro spared ⟨other, otherLen, _, again, _, refused⟩
      obtain ⟨rfl, rfl⟩ := again.single.unique known.single
      exact advanced_ne id (spared (unfragmented.mpr refused))
    · intro accepted single
      exact absurd ⟨body, len, id, known, rfl, unfragmented.mp single⟩ accepted

end

private def overlongSend : PeerSend where
  addrs := ⟨⟨10, 0, 0, 1⟩, ⟨10, 0, 0, 2⟩, 1000, 2000⟩
  payload := List.replicate 20 0
  options := ⟨[], false⟩
  config := ⟨42, ⟨10, 2⟩, .auto, none⟩
  unnamed := rfl

/-- The peer reassembles ten bytes at most: the send fails, and the Identification 7 is gone. -/
theorem refused_send_takes_identification :
    Api.buildPeerOutgoingDatagrams (fun _ => 0) overlongSend.addrs overlongSend.payload overlongSend.options
        overlongSend.config ⟨some 7⟩ = .ok (.error (.split (.reassembledDatagramTooLarge 28 10)), ⟨some 8⟩) ∧
      Cli.buildDatagramsForSend (fun _ => 0) overlongSend.addrs overlongSend.payload overlongSend.options
        overlongSend.config ⟨some 7⟩ = .ok (.error (.split (.reassembledDatagramTooLarge 28 10)), ⟨some 8⟩) ∧
      ¬ SparesIdentifications (fun _ => 0) overlongSend ⟨some 7⟩ := by
  have peer : Api.buildPeerOutgoingDatagrams (fun _ => 0) overlongSend.addrs overlongSend.payload
      overlongSend.options overlongSend.config ⟨some 7⟩ =
        .ok (.error (.split (.reassembledDatagramTooLarge 28 10)), ⟨some 8⟩) := rfl
  refine ⟨peer, rfl, ?_⟩
  intro ⟨⟨result, after, built, spared⟩, _⟩
  cases peer.symm.trans built
  cases spared nofun

end UdpOptions.Proofs
