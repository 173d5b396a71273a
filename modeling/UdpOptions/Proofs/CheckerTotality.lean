import UdpOptions.EvalCheck

/-! The checker returns on every input. An index outside its bytes would raise an error
that the checker does not catch; its tests of lengths leave none. The option scan stops,
since every option moves the offset on and keeps it within the region. -/

namespace UdpOptions.Proofs
open Library Checked EvalCheck

/-- A parsed option is not empty, and ends at the limit or before. -/
def Bounded (offset limit : Nat) (outcome : Except CheckError ParsedOption) : Prop :=
  ∀ option, outcome = .ok option → 0 < option.totalLen ∧ offset + option.totalLen ≤ limit

private theorem bounded_error {offset limit : Nat} (error : CheckError) : Bounded offset limit (.error error) := by
  intro option parsed
  cases parsed

private theorem bounded_ok {offset limit : Nat} {option : ParsedOption} (positive : 0 < option.totalLen)
    (fits : offset + option.totalLen ≤ limit) : Bounded offset limit (.ok option) := by
  intro other parsed
  cases parsed
  exact ⟨positive, fits⟩

section
variable {packet : Packet} {padLen : Nat} {region : List UInt8} {scan after : Scan} {option : ParsedOption}

theorem parseOption_returns {offset limit : Nat} (before : offset < limit) (inside : limit ≤ region.length) :
    Returns (parseOption region offset limit) (Bounded offset limit) := by
  unfold parseOption
  apply (Returns.index (Nat.lt_of_lt_of_le before inside)).bind
  intro kind _
  apply Returns.guard
  · intro _
    exact bounded_ok Nat.one_pos before
  intro _
  apply Returns.guard (fun _ => bounded_error _)
  intro room
  apply (Returns.index (show offset + 1 < region.length by omega)).bind
  intro length _
  -- the extended and the default length, each with its own tests
  split
  · apply Returns.guard (fun _ => bounded_error _)
    intro _
    apply Returns.guard (fun _ => bounded_error _)
    intro long
    apply Returns.guard (fun _ => bounded_error _)
    intro fits
    exact .ok (bounded_ok (show 0 < intFromBytes _ by omega) (Nat.le_of_not_lt fits))
  · apply Returns.guard (fun _ => bounded_error _)
    intro proper
    apply Returns.guard (fun _ => bounded_error _)
    intro fits
    exact .ok (bounded_ok (show 0 < length.toNat by omega) (Nat.le_of_not_lt fits))

/-- Taking an option leaves the offset, and moves the limit, if at all, to a place
behind the option. -/
theorem takeOption_bounds (taken : takeOption packet padLen region scan option = .ok after)
    (inside : scan.limit ≤ region.length) (fits : scan.offset + option.totalLen ≤ scan.limit) :
    after.offset = scan.offset ∧ scan.offset + option.totalLen ≤ after.limit ∧ after.limit ≤ region.length := by
  unfold takeOption at taken
  split at taken
  · split at taken
    · cases taken
    · cases taken
      exact ⟨rfl, fits, inside⟩
  split at taken
  · cases taken
  dsimp only at taken
  split at taken
  · unfold takeFrag at taken
    split at taken
    · cases taken
    dsimp only at taken
    split at taken
    · cases taken
    next located =>
      cases taken
      dsimp only
      omega
  · cases taken
    exact ⟨rfl, fits, inside⟩

private theorem scanLoop_returns {fuel : Nat} (started : scan.offset ≤ scan.limit) (inside : scan.limit ≤ region.length)
    (enough : region.length < scan.offset + fuel) :
    Returns (scanLoop packet padLen region fuel scan) fun _ => True := by
  induction fuel generalizing scan with
  | zero => omega
  | succ fuel ih =>
    rw [scanLoop]
    apply Returns.guard (fun _ => trivial)
    intro before
    apply (parseOption_returns (Nat.lt_of_not_le before) inside).bind
    intro outcome bounded
    cases outcome with
    | error error => exact .ok trivial
    | ok option =>
      obtain ⟨positive, fits⟩ := bounded option rfl
      apply Returns.guard (fun _ => trivial)
      intro _
      cases taken : takeOption packet padLen region scan option with
      | error error => exact .ok trivial
      | ok after =>
        obtain ⟨same, behind, within⟩ := takeOption_bounds taken inside fits
        apply ih
        · dsimp only
          omega
        · exact within
        · dsimp only
          omega

end

private theorem packetNew_returns (raw : List UInt8) : Returns (Packet.new raw) fun _ => True := by
  unfold Packet.new
  apply Returns.guard (fun _ => trivial)
  intro filled
  have positive : 0 < raw.length := List.length_pos_iff.mpr (by simpa using filled)
  apply (Returns.index positive).bind
  intro first _
  apply Returns.guard (fun _ => trivial)
  intro _
  apply Returns.guard (fun _ => trivial)
  intro whole
  apply Returns.guard (fun _ => trivial)
  intro header
  apply Returns.guard (fun _ => trivial)
  intro total
  apply Returns.guard (fun _ => trivial)
  intro _
  have protocol : 9 < (raw.take (intFromBytes (EvalCheck.slice raw 2 4))).length := by
    rw [List.length_take]
    omega
  apply (Returns.index protocol).bind
  intro _ _
  apply Returns.guard (fun _ => trivial)
  intro _
  apply Returns.guard (fun _ => trivial)
  intro _
  apply Returns.guard (fun _ => trivial)
  intro _
  exact .ok trivial

section
variable (crc32c : List UInt8 → UInt32)

private theorem validateRegion_returns (packet : Packet) (padLen : Nat) (region : List UInt8) :
    Returns (validateRegion crc32c packet padLen region) fun _ => True := by
  unfold validateRegion
  apply Returns.guard (fun _ => trivial)
  intro _
  have enough : region.length < (Scan.start region).offset + (region.length + 1) := by simp [Scan.start]
  apply (scanLoop_returns (Nat.zero_le _) (Nat.le_refl _) enough).bind
  intro outcome _
  repeat' split
  all_goals exact .ok trivial

private theorem validateSurplus_returns (packet : Packet) : Returns (validateSurplus crc32c packet) fun _ => True := by
  unfold validateSurplus
  apply Returns.guard (fun _ => trivial)
  intro room
  apply (Returns.index (show 0 < packet.surplus.length by omega)).bind
  intro first _
  apply Returns.guard (fun _ => trivial)
  intro _
  apply Returns.guard (fun _ => trivial)
  intro _
  apply Returns.guard (fun _ => trivial)
  intro _
  exact validateRegion_returns crc32c _ _ _

private theorem parsePackets_returns (port index : Nat) (packets : List Packet) :
    Returns (parsePackets crc32c port index packets) fun _ => True := by
  induction packets generalizing index with
  | nil => exact .ok trivial
  | cons packet rest ih =>
    have behind := ih (index + 1)
    rw [parsePackets]
    split
    · apply behind.bind
      intro later _
      cases later <;> exact .ok trivial
    · apply (validateSurplus_returns crc32c packet).bind
      intro first _
      cases first with
      | error error => exact .ok trivial
      | ok read =>
        apply behind.bind
        intro later _
        cases later <;> exact .ok trivial

private theorem validatePort_returns (port : Nat) (packets : List Packet) (expectSurplus : Bool)
    (scenario : Option Scenario) :
    Returns (validatePort crc32c port packets expectSurplus scenario) fun _ => True := by
  unfold validatePort
  apply (parsePackets_returns crc32c port 1 packets).bind
  intro outcome _
  cases outcome with
  | error error => exact .ok trivial
  | ok read =>
    cases scenario <;> dsimp only <;> repeat' split
    all_goals exact .ok trivial

/-- The packet constructor returns on every capture record, and the checks of the sender
on every grouping of packets. -/
theorem checker_total :
    (∀ raw, ∃ outcome, Packet.new raw = .ok outcome) ∧
    ∀ (expectSurplusPorts : List Nat) (scenarioByPort : List (Nat × Scenario)) (grouped : List (Nat × List Packet)),
      ∃ outcome, validateSenderGroups crc32c expectSurplusPorts scenarioByPort grouped = .ok outcome := by
  constructor
  · intro raw
    obtain ⟨outcome, built, _⟩ := packetNew_returns raw
    exact ⟨outcome, built⟩
  · intro expectSurplusPorts scenarioByPort grouped
    induction grouped with
    | nil => exact ⟨_, rfl⟩
    | cons group rest ih =>
      obtain ⟨port, packets⟩ := group
      obtain ⟨outcome, judged, _⟩ := validatePort_returns crc32c port packets (port ∈ expectSurplusPorts)
        (scenarioByPort.lookup port)
      obtain ⟨later, known⟩ := ih
      rw [validateSenderGroups, judged, ok_bind, known]
      cases outcome <;> cases later <;> exact ⟨_, rfl⟩

end

end UdpOptions.Proofs
