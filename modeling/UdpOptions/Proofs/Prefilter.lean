import UdpOptions.Proofs.ReceiveSafety

/-! The policy that drops every option-bearing datagram. It decides on the wire,
in front of the pipeline, so that no fragment reaches the cache, and otherwise
agrees with the pipeline. -/

namespace UdpOptions.Proofs
open Library Model

section
variable (crc32c : List UInt8 → UInt32)

def droppingAll (policy : Api.ReceivePolicy) (drop : Bool) : Api.ReceivePolicy :=
  { policy with dropAllOptionBearing := drop }

/-- The pipeline refuses nothing once the datagram itself is opened. -/
theorem decodeProcessed_opened {bytes : List UInt8} {opened : Opened}
    (opening : openDatagram bytes = .ok (.ok opened)) (cache : ReassemblyCache) (now : Nat)
    (policy : Api.ReceivePolicy) :
    ∃ delivery final, Api.decodeProcessed crc32c bytes cache now policy = .ok (.ok delivery, final) := by
  rw [Api.decodeProcessed, processDatagram_opened crc32c opening, Checked.ok_bind]
  rcases handled crc32c opened cache now with ⟨payload | _ | _, final⟩
  · exact ⟨_, _, rfl⟩
  · exact ⟨_, _, rfl⟩
  · exact ⟨_, _, rfl⟩

private theorem applyPolicy_droppingAll (policy : Api.ReceivePolicy) (drop : Bool) {payload : Payload}
    (bare : payload.optionBearing = false) :
    Api.applyPolicy (droppingAll policy drop) payload = Api.applyPolicy policy payload := by
  simp only [Api.applyPolicy, bare, Bool.false_eq_true, and_false]
  rfl

theorem decodeProcessed_bare {bytes : List UInt8} {opened : Opened} (opening : openDatagram bytes = .ok (.ok opened))
    (bare : locateSurplus opened.ip opened.udp = none) (cache : ReassemblyCache) (now : Nat)
    (policy : Api.ReceivePolicy) (drop : Bool) :
    Api.decodeProcessed crc32c bytes cache now (droppingAll policy drop) =
      .ok (.ok (Api.applyPolicy policy (deliverWithoutOptions opened.userData false .absent)), cache) := by
  obtain ⟨well, _⟩ := openDatagram_well opening
  have small : opened.ipEnd < ocsStart opened + 2 := by
    rw [well.locate] at bare
    split at bare
    · cases bare
    · omega
  rw [Api.decodeProcessed, processDatagram_opened crc32c opening, Checked.ok_bind, handled,
    dispositionOf_absent crc32c well small]
  have same := @applyPolicy_droppingAll policy drop (deliverWithoutOptions opened.userData false .absent) rfl
  exact congrArg (fun delivery => Except.ok (Except.ok delivery, cache)) same

/-- With the prefilter an error is the same error, from a fault of the bytes
themselves. Any other outcome becomes Filtered when the datagram has a usable
surplus area and stays what it is when it has none. The cache is never changed. -/
theorem prefilter_agrees (bytes : List UInt8) (cache : ReassemblyCache) (now : Nat) (policy : Api.ReceivePolicy) :
    ∃ outcome final,
      Api.decodeDatagram crc32c bytes cache now (droppingAll policy false) = .ok (outcome, final) ∧
      (∀ error, outcome = .error error →
        Api.decodeDatagram crc32c bytes cache now (droppingAll policy true) = .ok (.error error, cache) ∧
        WireFault bytes error) ∧
      ∀ delivery, outcome = .ok delivery →
        ∃ opened, openDatagram bytes = .ok (.ok opened) ∧
          Api.decodeDatagram crc32c bytes cache now (droppingAll policy true) =
            .ok (.ok (if (locateSurplus opened.ip opened.udp).isSome then .filtered else delivery), cache) := by
  have without : Api.decodeDatagram crc32c bytes cache now (droppingAll policy false) =
      Api.decodeProcessed crc32c bytes cache now (droppingAll policy false) := rfl
  rw [without]
  rcases openDatagram_total bytes with ⟨error, opening, fault⟩ | ⟨opened, opening, _⟩
  · refine ⟨_, _, decodeProcessed_refused crc32c opening cache now _, ?_, nofun⟩
    rintro other ⟨⟩
    rcases decodeDatagram_cases crc32c bytes cache now (droppingAll policy true) with ⟨_, accepted, _⟩ | ⟨_, processed⟩
    · cases opening.symm.trans accepted
    · rw [processed]
      exact ⟨decodeProcessed_refused crc32c opening cache now _, fault⟩
  · obtain ⟨delivery, final, decoded⟩ := decodeProcessed_opened crc32c opening cache now (droppingAll policy false)
    refine ⟨_, _, decoded, nofun, ?_⟩
    rintro other ⟨⟩
    refine ⟨opened, opening, ?_⟩
    rcases decodeDatagram_cases crc32c bytes cache now (droppingAll policy true) with
      ⟨again, reopened, _, located, filtered⟩ | ⟨bare, processed⟩
    · cases opening.symm.trans reopened
      rw [if_pos located]
      exact filtered
    · have absent := bare opened opening rfl
      have same := decodeProcessed_bare crc32c opening absent cache now policy
      cases decoded.symm.trans (same false)
      rw [processed, if_neg (by simp [absent])]
      exact same true

end

end UdpOptions.Proofs
