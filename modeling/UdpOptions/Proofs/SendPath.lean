import UdpOptions.Proofs.FragmentDatagrams
import UdpOptions.Proofs.RoundTrip

/-! The cases of a send. A send is refused before anything is built, goes out as one
datagram, or is split into fragments that each fit; no case faults. -/

namespace UdpOptions.Proofs
open Library Model

/-- The tail of a split is what a single datagram carries behind its headers. -/
theorem reassembledTail_length {payload body : List UInt8} :
    28 + (Split.reassembledTail payload body).length = sentLen payload.length body.length := by
  cases body with
  | nil => simp [Split.reassembledTail, sentLen]
  | cons byte rest =>
    rw [sentLen, if_neg (by simp), reassembledTail_eq, List.length_append, List.length_append]
    by_cases odd : (8 + payload.length) % 2 = 1
    · rw [if_pos ⟨List.cons_ne_nil _ _, odd⟩]
      simp only [List.length_cons, List.length_nil]
      omega
    · rw [if_neg (fun both => odd both.2)]
      simp only [List.length_nil, List.length_cons]
      omega

def fragmentDatagram (addrs : Api.DatagramAddrs) (maxDatagramLen : Nat) (fragment : Fragment) : List UInt8 :=
  match Api.assembleChecked addrs [] fragment.surplusBody maxDatagramLen with
  | .ok (.ok datagram) => datagram
  | _ => []

theorem assembleFragments_eq {addrs : Api.DatagramAddrs} {maxDatagramLen : Nat} {fragments : List Fragment}
    {datagrams : List (List UInt8)}
    (assembled : Api.assembleFragments addrs maxDatagramLen fragments = .ok (.ok datagrams)) :
    datagrams = fragments.map (fragmentDatagram addrs maxDatagramLen) ∧
      ∀ fragment ∈ fragments, Api.assembleChecked addrs [] fragment.surplusBody maxDatagramLen =
        .ok (.ok (fragmentDatagram addrs maxDatagramLen fragment)) := by
  induction fragments generalizing datagrams with
  | nil =>
    cases assembled
    exact ⟨rfl, nofun⟩
  | cons fragment rest ih =>
    unfold Api.assembleFragments at assembled
    obtain ⟨first, one, assembled⟩ := Checked.bind_eq_ok.mp assembled
    cases first with
    | error error => cases assembled
    | ok datagram =>
      obtain ⟨others, more, assembled⟩ := Checked.bind_eq_ok.mp assembled
      cases others with
      | error error => cases assembled
      | ok others =>
        cases assembled
        obtain ⟨rfl, each⟩ := ih more
        have same : fragmentDatagram addrs maxDatagramLen fragment = datagram := by rw [fragmentDatagram, one]
        refine ⟨by rw [List.map_cons, same], ?_⟩
        intro other member
        rcases List.mem_cons.mp member with rfl | member
        · rw [same]
          exact one
        · exact each other member

/-- Every fragment of a split is sent as a datagram of its own. -/
theorem assembleFragments_sent {addrs : Api.DatagramAddrs} {maxDatagramLen : Nat} {tail : List UInt8} {atomic : Bool}
    {rdos : UInt16} {identification : UInt32} {ranges : List ChunkRange} {datagrams : List (List UInt8)}
    (assembled : Api.assembleFragments addrs maxDatagramLen
      (ranges.map (rangeFragment tail atomic rdos identification)) = .ok (.ok datagrams)) :
    ∃ openedOf : ChunkRange → Opened, datagrams = ranges.map (fun range => (openedOf range).datagram) ∧
      ∀ range ∈ ranges, Sent (openedOf range) addrs.src addrs.dst addrs.srcPort addrs.dstPort []
        (rangeFragment tail atomic rdos identification range).surplusBody := by
  obtain ⟨rfl, each⟩ := assembleFragments_eq assembled
  have sent : ∀ range ∈ ranges, ∃ opened : Opened,
      fragmentDatagram addrs maxDatagramLen (rangeFragment tail atomic rdos identification range) = opened.datagram ∧
      Sent opened addrs.src addrs.dst addrs.srcPort addrs.dstPort []
        (rangeFragment tail atomic rdos identification range).surplusBody :=
    fun range member => assembleChecked_sent (.inr (rangeFragment_led tail atomic rdos identification range))
      (each _ (List.mem_map_of_mem member))
  have : Nonempty Opened := ⟨writtenOpened addrs.src addrs.dst ⟨addrs.srcPort, addrs.dstPort, 8, 0⟩ []⟩
  choose! openedOf same opens using sent
  refine ⟨openedOf, ?_, opens⟩
  rw [List.map_map]
  exact List.map_congr_left same

theorem assembleFragments_fit (addrs : Api.DatagramAddrs) {maxDatagramLen : Nat} (bound : maxDatagramLen ≤ 65535)
    {fragments : List Fragment} (fit : ∀ fragment ∈ fragments,
      2 ≤ fragment.surplusBody.length ∧ sentLen 0 fragment.surplusBody.length ≤ maxDatagramLen) :
    ∃ datagrams, Api.assembleFragments addrs maxDatagramLen fragments = .ok (.ok datagrams) := by
  induction fragments with
  | nil => exact ⟨[], rfl⟩
  | cons fragment rest ih =>
    obtain ⟨led, fits⟩ := fit fragment (by simp)
    obtain ⟨datagram, first⟩ := @assembleChecked_fits addrs [] fragment.surplusBody maxDatagramLen (.inr led) fits
      (Nat.le_trans fits bound)
    obtain ⟨datagrams, later⟩ := ih fun other member => fit other (List.mem_cons_of_mem _ member)
    refine ⟨datagram :: datagrams, ?_⟩
    rw [Api.assembleFragments, first, Checked.ok_bind]
    dsimp only
    rw [later]
    rfl

private theorem serializeBody_finish {options : List RawOption} {body : List UInt8}
    (serialized : Api.serializeBody options = .ok body) : Serialize.finish options = .ok body := by
  unfold Api.serializeBody at serialized
  split at serialized
  · cases serialized
  next finished =>
    cases serialized
    exact finished

theorem rawOptionsBody_led {options : List RawOption} {body : List UInt8}
    (serialized : Api.rawOptionsBody options = .ok body) : body = [] ∨ 2 ≤ body.length := by
  unfold Api.rawOptionsBody at serialized
  split at serialized
  · cases serialized
    exact .inl rfl
  · exact .inr (finish_led (serializeBody_finish serialized))

section
variable (crc32c : List UInt8 → UInt32) (addrs : Api.DatagramAddrs) (payload : List UInt8) (options : Api.SendOptions)
  (config : Api.SendConfig)

section
variable {crc32c payload options} {body : List UInt8}

theorem optionsBody_cases (serialized : Api.optionsBody crc32c payload options = .ok body) :
    (Api.sentOptions crc32c payload options = [] ∧ body = []) ∨
      (Api.sentOptions crc32c payload options ≠ [] ∧
        Serialize.finish (Api.sentOptions crc32c payload options) = .ok body) := by
  unfold Api.optionsBody at serialized
  split at serialized
  next none =>
    cases serialized
    simp only [Bool.and_eq_true, Bool.not_eq_true', List.isEmpty_iff] at none
    refine .inl ⟨?_, rfl⟩
    rw [Api.sentOptions, none.1, none.2]
    rfl
  next some =>
    refine .inr ⟨?_, serializeBody_finish serialized⟩
    intro empty
    rw [Api.sentOptions, List.append_eq_nil_iff] at empty
    apply some
    rw [empty.2]
    cases automatic : options.includeApc with
    | false => rfl
    | true => simp [automatic] at empty

theorem optionsBody_led (serialized : Api.optionsBody crc32c payload options = .ok body) :
    body = [] ∨ 2 ≤ body.length :=
  (optionsBody_cases serialized).imp And.right fun filled => finish_led filled.2

end

/-- The options body of a send, and the length of the send as one datagram. -/
structure Single (body : List UInt8) (len : Nat) : Prop where
  serialized : Api.optionsBody crc32c payload options = .ok body
  sized : Api.datagramLen payload.length body.length = some len

/-- A valid send that is too large for one datagram and may be fragmented. -/
structure Fragments (body : List UInt8) (len : Nat) : Prop where
  limits : Api.validateSendConfig config = .ok ()
  accepted : Api.validateSendOptions options = .ok ()
  single : Single crc32c payload options body len
  large : config.maxDatagramLen < len
  enabled : config.fragmentation = .auto

/-- The send of a datagram that is too large, from the Identification on. -/
def sendFragments (body : List UInt8) : Checked (Except SendError (List (List UInt8))) := do
  match config.identification with
  | none => return .error .fragmentIdentificationRequired
  | some identification =>
    match ← Split.splitDatagram payload body ⟨config.maxDatagramLen - 28, config.peer, identification⟩ with
    | .error error => return .error (.split error)
    | .ok fragments => Api.assembleFragments addrs config.maxDatagramLen fragments

inductive SendCase : Checked (Except SendError (List (List UInt8))) → Prop where
  | refused {error : SendError} (other : error ≠ .fragmentIdentificationRequired)
      (never : ∀ body len, ¬ Fragments crc32c payload options config body len) : SendCase (.ok (.error error))
  | single {body : List UInt8} {len : Nat} {opened : Opened} (known : Single crc32c payload options body len)
      (fits : len ≤ config.maxDatagramLen)
      (sent : Sent opened addrs.src addrs.dst addrs.srcPort addrs.dstPort payload body) :
      SendCase (.ok (.ok [opened.datagram]))
  | fragments {body : List UInt8} {len : Nat} (known : Fragments crc32c payload options config body len) :
      SendCase (sendFragments addrs payload config body)

variable {crc32c payload options config}

theorem Single.unique {body other : List UInt8} {len otherLen : Nat} (first : Single crc32c payload options body len)
    (second : Single crc32c payload options other otherLen) : body = other ∧ len = otherLen := by
  cases first.serialized.symm.trans second.serialized
  cases first.sized.symm.trans second.sized
  exact ⟨rfl, rfl⟩

theorem validateSendConfig_ok (valid : Api.validateSendConfig config = .ok ()) :
    28 ≤ config.maxDatagramLen ∧ config.maxDatagramLen ≤ 65535 := by
  unfold Api.validateSendConfig at valid
  split at valid
  · cases valid
  next small =>
    split at valid
    · cases valid
    next large => exact ⟨Nat.le_of_not_lt large, Nat.le_of_not_lt small⟩

private theorem validateSendConfig_error {error : SendError} (invalid : Api.validateSendConfig config = .error error) :
    error ≠ .fragmentIdentificationRequired := by
  unfold Api.validateSendConfig at invalid
  rintro rfl
  split at invalid
  · cases invalid
  · split at invalid <;> cases invalid

private theorem validateSendOptions_error {error : SendError}
    (invalid : Api.validateSendOptions options = .error error) :
    error ≠ .fragmentIdentificationRequired := by
  unfold Api.validateSendOptions at invalid
  rintro rfl
  split at invalid
  · cases invalid
  · split at invalid
    · cases invalid
    · split at invalid <;> cases invalid

private theorem optionsBody_error {error : SendError} (failed : Api.optionsBody crc32c payload options = .error error) :
    error ≠ .fragmentIdentificationRequired := by
  unfold Api.optionsBody at failed
  rintro rfl
  split at failed
  · cases failed
  · unfold Api.serializeBody at failed
    split at failed <;> cases failed

variable (crc32c payload options config)

theorem buildOutgoingDatagrams_case :
    SendCase crc32c addrs payload options config (Api.buildOutgoingDatagrams crc32c addrs payload options config) := by
  unfold Api.buildOutgoingDatagrams
  split
  next invalid =>
    refine .refused (validateSendConfig_error invalid) ?_
    intro body len fragments
    cases invalid.symm.trans fragments.limits
  next limits =>
    obtain ⟨least, most⟩ := validateSendConfig_ok limits
    split
    next invalid =>
      refine .refused (validateSendOptions_error invalid) ?_
      intro body len fragments
      cases invalid.symm.trans fragments.accepted
    next accepted =>
      split
      next failed =>
        refine .refused (optionsBody_error failed) ?_
        intro body len fragments
        cases failed.symm.trans fragments.single.serialized
      next body serialized =>
        split
        next overflow =>
          refine .refused nofun ?_
          intro other len fragments
          cases serialized.symm.trans fragments.single.serialized
          cases overflow.symm.trans fragments.single.sized
        next len sized =>
          have known : Single crc32c payload options body len := ⟨serialized, sized⟩
          split
          next fits =>
            have length := datagramLen_eq sized
            have led := optionsBody_led serialized
            obtain ⟨datagram, assembled⟩ := @assembleChecked_fits addrs payload body config.maxDatagramLen led
              (length ▸ fits) (length ▸ Nat.le_trans fits most)
            obtain ⟨opened, rfl, sent⟩ := assembleChecked_sent led assembled
            rw [assembled]
            exact .single known fits sent
          next large =>
            split
            next disabled =>
              refine .refused nofun ?_
              intro other otherLen fragments
              cases disabled.symm.trans fragments.enabled
            next enabled =>
              have auto : config.fragmentation = .auto := by
                cases mode : config.fragmentation with
                | auto => rfl
                | disabled => exact absurd mode enabled
              have budget : Api.fragmentSurplusBudget config = .ok (config.maxDatagramLen - 28) := by
                unfold Api.fragmentSurplusBudget
                rw [show checkedSub config.maxDatagramLen (Api.ipv4HeaderLen + Api.udpHeaderLen) =
                  some (config.maxDatagramLen - 28) from checkedSub_of_le least]
              have whole := @SendCase.fragments crc32c addrs payload options config body len
                ⟨limits, accepted, known, Nat.lt_of_not_le large, auto⟩
              unfold sendFragments at whole
              rw [budget]
              exact whole

end

theorem Budgeted.datagram_fits {tail : List UInt8} {limit : Nat} {rdos : UInt16} {ranges : List ChunkRange}
    (budgeted : Budgeted tail.length (limit - 28) rdos ranges) (least : 28 ≤ limit) (atomic : Bool)
    (identification : UInt32) {range : ChunkRange} (member : range ∈ ranges) (inside : InTail tail.length 0 range) :
    sentLen 0 (rangeFragment tail atomic rdos identification range).surplusBody.length ≤ limit := by
  have fits := budgeted.fits range member
  rw [rangeFragment, List.length_append, fragmentOptionsBody_length, rangeData_length inside, sentLen]
  split <;> omega

/-- What exceeds the limit as one datagram takes several fragments. -/
theorem Fragments.several {crc32c : List UInt8 → UInt32} {payload : List UInt8} {options : Api.SendOptions}
    {config : Api.SendConfig} {body : List UInt8} {len : Nat} (known : Fragments crc32c payload options config body len)
    {rdos : UInt16} {ranges : List ChunkRange}
    (budgeted : Budgeted (Split.reassembledTail payload body).length (config.maxDatagramLen - 28) rdos ranges) :
    1 < ranges.length := by
  rw [budgeted.several]
  have large := known.large
  have terminal : Split.fragTerminalBodyLen = 14 := rfl
  have length := @reassembledTail_length payload body
  rw [← datagramLen_eq known.single.sized] at length
  omega

/-- A fragmented send refuses, or sends every range of its plan inside the limit. -/
theorem sendFragments_cases (addrs : Api.DatagramAddrs) (payload body : List UInt8) {config : Api.SendConfig}
    (limits : Api.validateSendConfig config = .ok ()) :
    (∃ error, sendFragments addrs payload config body = .ok (.error error) ∧
      ∀ identification, config.identification = some identification → ∃ refusal,
        Split.splitDatagram payload body ⟨config.maxDatagramLen - 28, config.peer, identification⟩ =
          .ok (.error refusal)) ∨
    ∃ identification rdos ranges, ∃ openedOf : ChunkRange → Opened,
      config.identification = some identification ∧
      SplitPlan payload body ⟨config.maxDatagramLen - 28, config.peer, identification⟩ rdos ranges ∧
      Budgeted (Split.reassembledTail payload body).length (config.maxDatagramLen - 28) rdos ranges ∧
      sendFragments addrs payload config body = .ok (.ok (ranges.map fun range => (openedOf range).datagram)) ∧
      ∀ range ∈ ranges, Sent (openedOf range) addrs.src addrs.dst addrs.srcPort addrs.dstPort []
        (rangeFragment (Split.reassembledTail payload body) (ranges.length = 1) rdos identification range).surplusBody ∧
        (openedOf range).ipEnd ≤ config.maxDatagramLen := by
  obtain ⟨least, most⟩ := validateSendConfig_ok limits
  unfold sendFragments
  cases named : config.identification with
  | none => exact .inl ⟨_, rfl, nofun⟩
  | some identification =>
    rcases splitDatagram_cases payload body ⟨config.maxDatagramLen - 28, config.peer, identification⟩ with
      ⟨error, failed⟩ | ⟨rdos, ranges, plan, budgeted, cut⟩
    · dsimp only
      refine .inl ⟨.split error, by rw [failed]; rfl, ?_⟩
      intro other same
      cases same
      exact ⟨error, failed⟩
    · have fits : ∀ range ∈ ranges, sentLen 0 (rangeFragment (Split.reassembledTail payload body) (ranges.length = 1)
          rdos identification range).surplusBody.length ≤ config.maxDatagramLen := by
        intro range member
        exact budgeted.datagram_fits least _ identification member (plan.chunks.inTail range member)
      have fit : ∀ fragment ∈ ranges.map (rangeFragment (Split.reassembledTail payload body) (ranges.length = 1) rdos
          identification), 2 ≤ fragment.surplusBody.length ∧
            sentLen 0 fragment.surplusBody.length ≤ config.maxDatagramLen := by
        rw [List.forall_mem_map]
        intro range member
        exact ⟨rangeFragment_led _ _ _ _ _, fits range member⟩
      obtain ⟨datagrams, assembled⟩ := assembleFragments_fit addrs most fit
      obtain ⟨openedOf, rfl, sent⟩ := assembleFragments_sent assembled
      dsimp only
      rw [cut]
      refine .inr ⟨identification, rdos, ranges, openedOf, rfl, plan, budgeted, assembled, ?_⟩
      intro range member
      refine ⟨sent range member, ?_⟩
      rw [(sent range member).length]
      exact fits range member

/-- No send faults. -/
theorem buildOutgoingDatagrams_total (crc32c : List UInt8 → UInt32) (addrs : Api.DatagramAddrs) (payload : List UInt8)
    (options : Api.SendOptions) (config : Api.SendConfig) :
    ∃ result, Api.buildOutgoingDatagrams crc32c addrs payload options config = .ok result := by
  have ends := buildOutgoingDatagrams_case crc32c addrs payload options config
  generalize Api.buildOutgoingDatagrams crc32c addrs payload options config = outcome at ends
  cases ends with
  | refused => exact ⟨_, rfl⟩
  | single => exact ⟨_, rfl⟩
  | @fragments body len known =>
    rcases sendFragments_cases addrs payload body known.limits with ⟨error, failed, _⟩ | ⟨_, _, _, _, _, _, _, whole, _⟩
    · exact ⟨_, failed⟩
    · exact ⟨_, whole⟩

private theorem fragmentSurplusBudget_eq {config : Api.SendConfig} {budget : Nat}
    (known : Api.fragmentSurplusBudget config = .ok budget) : config.maxDatagramLen - 28 = budget := by
  unfold Api.fragmentSurplusBudget at known
  split at known
  · cases known
  next difference =>
    cases known
    exact (checkedSub_eq_some.mp difference).2

inductive Built (crc32c : List UInt8 → UInt32) (addrs : Api.DatagramAddrs) (payload : List UInt8)
    (options : Api.SendOptions) (config : Api.SendConfig) : List (List UInt8) → Prop where
  | whole {body datagram : List UInt8} (accepted : Api.validateSendOptions options = .ok ())
      (serialized : Api.optionsBody crc32c payload options = .ok body)
      (assembled : Api.assembleChecked addrs payload body config.maxDatagramLen = .ok (.ok datagram)) :
      Built crc32c addrs payload options config [datagram]
  | split {body : List UInt8} {identification : UInt32} {fragments : List Fragment} {datagrams : List (List UInt8)}
      (accepted : Api.validateSendOptions options = .ok ())
      (serialized : Api.optionsBody crc32c payload options = .ok body)
      (named : config.identification = some identification)
      (cut : Split.splitDatagram payload body ⟨config.maxDatagramLen - 28, config.peer, identification⟩ =
        .ok (.ok fragments))
      (assembled : Api.assembleFragments addrs config.maxDatagramLen fragments = .ok (.ok datagrams)) :
      Built crc32c addrs payload options config datagrams

theorem buildOutgoingDatagrams_built {crc32c : List UInt8 → UInt32} {addrs : Api.DatagramAddrs} {payload : List UInt8}
    {options : Api.SendOptions} {config : Api.SendConfig} {datagrams : List (List UInt8)}
    (built : Api.buildOutgoingDatagrams crc32c addrs payload options config = .ok (.ok datagrams)) :
    Built crc32c addrs payload options config datagrams := by
  unfold Api.buildOutgoingDatagrams at built
  split at built
  · cases built
  next limits =>
    split at built
    · cases built
    next accepted =>
      split at built
      · cases built
      next body serialized =>
        split at built
        · cases built
        next len sized =>
          split at built
          · obtain ⟨result, assembled, built⟩ := Checked.bind_eq_ok.mp built
            cases result with
            | error error => cases built
            | ok datagram =>
              cases built
              exact .whole accepted serialized assembled
          · split at built
            · cases built
            · split at built
              · cases built
              next identification named =>
                split at built
                · cases built
                next budget known =>
                  obtain ⟨result, cut, assembled⟩ := Checked.bind_eq_ok.mp built
                  cases result with
                  | error error => cases assembled
                  | ok fragments =>
                    obtain rfl := fragmentSurplusBudget_eq known
                    exact .split accepted serialized named cut assembled

end UdpOptions.Proofs
