import UdpOptions.Proofs.AlteredData
import UdpOptions.Proofs.Crc32c
import UdpOptions.Proofs.ReportedOptions
import UdpOptions.Proofs.RoundTrip

/-! A required APC. The option loop exposes an APC only with the checksum of the user
data, no APC survives from the options of single fragments, and what an UNSAFE option
withholds is delivered without any data. So data that are received under a policy that
requires an APC are those the APC vouches for, and with CRC-32C no change within 32
consecutive bits goes unnoticed. -/

namespace UdpOptions.Proofs
open Library Model

section
variable (crc32c : List UInt8 → UInt32)

/-- Every APC among the options is the checksum of the data. -/
def Vouched (data : List UInt8) (options : List RawOption) : Prop :=
  ∀ option ∈ options, option.kind = .apc → option.value = u32Be (crc32c data)

variable {crc32c}

private theorem acceptsApc_success {option : OptionRef} {userData : List UInt8}
    (accepted : acceptsApc crc32c option userData = .success) : option.value = u32Be (crc32c userData) := by
  have four : option.value.length = 4 := by
    unfold acceptsApc Apc.decode at accepted
    split at accepted
    next decoded =>
      split at decoded
      next value =>
        rw [value]
        rfl
      · cases decoded
    · cases accepted
  obtain ⟨kind, value, valueAt⟩ := option
  rw [acceptsApc_iff crc32c userData four] at accepted
  by_contra other
  rw [if_pos other] at accepted
  cases accepted

private theorem recordOnce_vouched {userData : List UInt8} {state : OptionState} {option : OptionRef}
    {status : OptionStatus}
    (decided : knownStatus crc32c userData option = some status) (vouched : Vouched crc32c userData state.options) :
    Vouched crc32c userData (state.recordOnce option status).options := by
  unfold OptionState.recordOnce
  split
  · exact vouched
  · dsimp only
    split
    next success =>
      intro other member apc
      rcases List.mem_append.mp member with held | added
      · exact vouched other held apc
      · cases List.mem_singleton.mp added
        have kind : option.kind = .apc := apc
        rw [knownStatus, kind] at decided
        exact acceptsApc_success ((Option.some.inj decided).trans success)
    · exact vouched

/-- What one turn of the option loop leaves vouches for the data. -/
def StepVouched (crc32c : List UInt8 → UInt32) (userData : List UInt8) : LoopStep → Prop
  | .next state | .broken state => Vouched crc32c userData state.options
  | .left (.ok parsed) => Vouched crc32c userData parsed.options
  | .left (.error _) => True

private theorem vouched_nil (data : List UInt8) : Vouched crc32c data [] :=
  fun _ member => absurd member List.not_mem_nil

private theorem optionStep_vouched {fragmentContext : Bool} {userData : List UInt8} {state : OptionState}
    (option : OptionRef) (vouched : Vouched crc32c userData state.options) :
    StepVouched crc32c userData (optionStep crc32c fragmentContext userData state option) := by
  have outcome := optionStep_case crc32c fragmentContext userData state option
  generalize optionStep crc32c fragmentContext userData state option = step at outcome
  cases outcome with
  | short | fragAgain =>
    unfold leaveWith
    split
    · exact vouched_nil userData
    · trivial
  | filler | fragFirst | fragWrong | apcIgnored | unknown | unsupported => exact vouched
  | known _ _ decided => exact recordOnce_vouched decided vouched

private theorem optionLoop_vouched {fragmentContext : Bool} {userData : List UInt8} {state : OptionState}
    {items : List OptionsIter.Item} {parsed : ParsedOptions} (vouched : Vouched crc32c userData state.options)
    (parsing : optionLoop crc32c fragmentContext userData state items = .ok parsed) :
    Vouched crc32c userData parsed.options := by
  induction items generalizing state with
  | nil =>
    cases parsing
    exact vouched
  | cons item rest ih =>
    cases item with
    | error error =>
      simp only [optionLoop] at parsing
      split at parsing
      · cases parsing
        exact vouched_nil userData
      · cases parsing
    | ok option =>
      have step := @optionStep_vouched crc32c fragmentContext userData state option vouched
      simp only [optionLoop] at parsing
      split at parsing
      next after stepped =>
        rw [stepped] at step
        exact ih step parsing
      next after stepped =>
        rw [stepped] at step
        cases parsing
        exact step
      next result stepped =>
        rw [stepped, parsing] at step
        exact step

private theorem parsedArea_vouched {opened : Opened} {parsed : ParsedOptions}
    (parsing : parsedArea crc32c opened = .ok parsed) :
    Vouched crc32c opened.userData parsed.options := by
  have start : Vouched crc32c opened.userData OptionState.initial.options := vouched_nil opened.userData
  unfold parsedArea parseArea at parsing
  split at parsing
  · exact optionLoop_vouched start parsing
  · exact optionLoop_vouched start parsing
  · cases parsing
    exact vouched_nil opened.userData

/-- A payload whose APC, if it is reported, vouches for its data, or which has none. -/
structure Attested (crc32c : List UInt8 → UInt32) (payload : Payload) : Prop where
  vouched : Vouched crc32c payload.data payload.options
  matched : payload.data ≠ [] → Matched payload.options payload.reports

private theorem disposeParsed_attested {opened : Opened} {status : OcsStatus} {parsed : ParsedOptions}
    {payload : Payload} (parsing : parsedArea crc32c opened = .ok parsed)
    (disposed : disposeParsed opened status parsed = .deliver payload) : Attested crc32c payload := by
  unfold disposeParsed at disposed
  split at disposed
  · cases disposed
    exact ⟨vouched_nil _, fun _ => rfl⟩
  · dsimp only at disposed
    split at disposed
    · cases disposed
    · split at disposed
      · cases disposed
        exact ⟨vouched_nil _, fun present => absurd rfl present⟩
      · split at disposed
        · cases disposed
        · cases disposed
          exact ⟨parsedArea_vouched parsing, fun _ => parsedArea_matched parsing⟩

private theorem deliver_attested {opened : Opened} {payload : Payload} (well : WellOpened opened)
    (disposed : dispositionOf crc32c opened = .deliver payload) : Attested crc32c payload := by
  have outcome := (disposeOpened_eq crc32c well).2
  rw [disposed] at outcome
  generalize target : Disposition.deliver payload = disposition at outcome
  cases outcome with
  | plain | malformed =>
    cases target
    exact ⟨vouched_nil _, fun _ => rfl⟩
  | parsed _ parsing => exact disposeParsed_attested parsing target.symm

private theorem mergeReassembled_attested (held : Partial) (udpLength : UInt16) {payload : Payload}
    (attested : Attested crc32c payload) :
    Attested crc32c (mergeReassembled (reassembledOf held udpLength) payload) := by
  refine ⟨?_, fun present => (mergeReassembled_matched held udpLength payload).mpr (attested.matched present)⟩
  intro option member apc
  rcases List.mem_append.mp member with merged | own
  · have kind := (toRawOptions_kinds held.fragmentOptions).subset
      (List.mem_map_of_mem (List.mem_of_mem_filter merged))
    rw [apc] at kind
    exact absurd kind (by decide)
  · exact attested.vouched option own apc

private theorem handOn_attested {opened : Opened} {reassembled : Reassembled} {cache : ReassemblyCache}
    {payload : Payload} {held : Partial} {udpLength : UInt16} (merged : reassembled = reassembledOf held udpLength)
    (delivered : (handOn crc32c opened reassembled cache).1 = .payload payload) : Attested crc32c payload := by
  unfold handOn at delivered
  split at delivered
  next fits =>
    obtain ⟨well, _⟩ := openDatagram_well (open_rebuilt opened fits)
    cases disposed : dispositionOf crc32c (rebuiltOpened opened reassembled) with
    | deliver inner =>
      rw [disposed] at delivered
      cases delivered
      rw [merged]
      exact mergeReassembled_attested held udpLength (deliver_attested well disposed)
    | fail key =>
      rw [disposed] at delivered
      cases key <;> cases delivered
    | fragment =>
      rw [disposed] at delivered
      cases delivered
  · cases delivered

private theorem processDatagram_attested {bytes : List UInt8} {cache final : ReassemblyCache} {now : Nat}
    {payload : Payload} (processed : processDatagram crc32c bytes cache now = .ok (.ok (.payload payload), final)) :
    Attested crc32c payload := by
  rcases processDatagram_cases crc32c bytes cache now with ⟨error, _, refused⟩ |
    ⟨opened, delivery, last, opening, known, handling⟩
  · cases refused.symm.trans processed
  cases known.symm.trans processed
  obtain ⟨well, _⟩ := openDatagram_well opening
  generalize target : Delivery.payload payload = delivery at handling
  cases handling with
  | delivered disposed =>
    cases target
    exact deliver_attested well disposed
  | failed | buffered | aborted => cases target
  | completed _ _ outcome =>
    obtain ⟨held, udpLength, merged⟩ := fed_complete outcome
    exact handOn_attested merged target.symm

/-- Data received under a policy that requires an APC come with the APC of just these
data, whatever the cache held. -/
theorem required_apc_vouches {bytes : List UInt8} {cache final : ReassemblyCache} {now : Nat}
    {policy : Api.ReceivePolicy} {received : Api.ReceivedDatagram} (required : .apc ∈ policy.requiredOptions)
    (decoded : Api.decodeDatagram crc32c bytes cache now policy = .ok (.ok (.received received), final))
    (present : received.data ≠ []) :
    (∃ option ∈ received.options, option.kind = .apc) ∧ Vouched crc32c received.data received.options := by
  obtain ⟨payload, processed, passed⟩ := decodeDatagram_received crc32c decoded
  obtain ⟨rfl, satisfied, _⟩ := applyPolicy_received passed
  have attested := processDatagram_attested processed
  have reported := missingRequired_none satisfied required
  rw [← attested.matched present] at reported
  obtain ⟨option, member, kind⟩ := List.mem_map.mp reported
  exact ⟨⟨option, member, kind⟩, attested.vouched⟩

end

/-- Two halves of a two-byte payload and its APC, and the policy that requires one. -/
private def apcFirst : List UInt8 :=
  datagramBytes ⟨10, 0, 0, 1⟩ ⟨10, 0, 0, 2⟩ ⟨1000, 2000, 8, 0⟩
    [0, 0, 3, 10, 0, 20, 0, 0, 0, 5, 0, 8, 0xaa, 0xbb, 0, 0, 2]

private def apcLast : List UInt8 :=
  datagramBytes ⟨10, 0, 0, 1⟩ ⟨10, 0, 0, 2⟩ ⟨1000, 2000, 8, 0⟩
    [0, 0, 3, 12, 0, 22, 0, 0, 0, 5, 0, 13, 0, 10, 6, 0xe4, 0xe4, 0x44, 0x8d]

private def requiringApc : Api.ReceivePolicy := ⟨[.apc], false, false⟩

theorem required_apc_vouches_halves :
    ∃ cache received final,
      Api.decodeDatagram EvalCheck.crc32c apcFirst (.withLimits .default) 0 requiringApc = .ok (.ok .buffered, cache) ∧
      Api.decodeDatagram EvalCheck.crc32c apcLast cache 1 requiringApc = .ok (.ok (.received received), final) ∧
      received.data = [0xaa, 0xbb] ∧ Vouched EvalCheck.crc32c received.data received.options := by
  have decodes : ∃ cache received final,
      Api.decodeDatagram EvalCheck.crc32c apcFirst (.withLimits .default) 0 requiringApc = .ok (.ok .buffered, cache) ∧
      Api.decodeDatagram EvalCheck.crc32c apcLast cache 1 requiringApc = .ok (.ok (.received received), final) ∧
      received.data = [0xaa, 0xbb] := ⟨_, _, _, rfl, rfl, rfl⟩
  obtain ⟨cache, received, final, first, last, data⟩ := decodes
  refine ⟨cache, received, final, first, last, data, ?_⟩
  exact (required_apc_vouches (by decide) last (by rw [data]; decide)).2

private theorem buildOutgoingDatagrams_alone {crc32c : List UInt8 → UInt32} {addrs : Api.DatagramAddrs}
    {payload : List UInt8} {options : Api.SendOptions} {config : Api.SendConfig} {datagram : List UInt8}
    (built : Api.buildOutgoingDatagrams crc32c addrs payload options config = .ok (.ok [datagram])) :
    ∃ opened body, Api.validateSendOptions options = .ok () ∧ Api.optionsBody crc32c payload options = .ok body ∧
      Sent opened addrs.src addrs.dst addrs.srcPort addrs.dstPort payload body ∧ opened.datagram = datagram := by
  have accepted : Api.validateSendOptions options = .ok () := by
    cases buildOutgoingDatagrams_built built with
    | whole accepted => exact accepted
    | split accepted => exact accepted
  have ends := buildOutgoingDatagrams_case crc32c addrs payload options config
  generalize outcome : Api.buildOutgoingDatagrams crc32c addrs payload options config = result at ends
  rw [built] at outcome
  cases ends with
  | refused => cases outcome
  | single known _ sent =>
    cases outcome
    exact ⟨_, _, accepted, known.serialized, sent, rfl⟩
  | @fragments body len known =>
    rcases sendFragments_cases addrs payload body known.limits with ⟨error, failed, _⟩ |
      ⟨_, _, ranges, _, _, _, budgeted, whole, _⟩
    · cases failed.symm.trans outcome.symm
    · have several := known.several budgeted
      have only := congrArg List.length (Except.ok.inj (Except.ok.inj (whole.symm.trans outcome.symm)))
      rw [List.length_map, List.length_singleton] at only
      omega

section
variable {crc32c : List UInt8 → UInt32} {payload other : List UInt8} {options : Api.SendOptions}

private theorem instances_automatic (accepted : Api.validateSendOptions options = .ok ())
    (automatic : options.includeApc = true) :
    instances (Api.sentOptions crc32c payload options) .apc = [⟨.apc, u32Be (crc32c payload)⟩] := by
  have single := (validateSendOptions_sent crc32c payload accepted).2 .apc (by decide)
  have first : instances (Api.sentOptions crc32c payload options) .apc =
      ⟨.apc, u32Be (crc32c payload)⟩ :: instances options.rawOptions .apc := by
    rw [Api.sentOptions, if_pos automatic]
    rfl
  rw [first, List.length_cons] at single
  rw [first, List.length_eq_zero_iff.mp (Nat.le_zero.mp (Nat.le_of_succ_le_succ single))]

private theorem exposed_kind {userData : List UInt8} {kind : OptionKind} {group : List RawOption} {option : RawOption}
    (member : option ∈ exposed crc32c userData kind group) : option.kind = kind := by
  cases group with
  | nil => cases member
  | cons first later =>
    rw [exposed] at member
    split at member
    · cases List.mem_singleton.mp member
      rfl
    · cases member

private theorem groupReports_kind {userData : List UInt8} {kind : OptionKind} {group : List RawOption}
    {entry : OptionReport} (member : entry ∈ groupReports crc32c userData kind group) : entry.kind = kind := by
  cases group with
  | nil => cases member
  | cons first later =>
    rcases List.mem_cons.mp member with rfl | later
    · rfl
    · obtain ⟨_, _, rfl⟩ := List.mem_map.mp later
      rfl

private theorem delivered_other (accepted : Api.validateSendOptions options = .ok ())
    (automatic : options.includeApc = true) (different : crc32c payload ≠ crc32c other) :
    report .apc .failed ∈ deliveredReports crc32c other (Api.sentOptions crc32c payload options) ∧
      .apc ∉ successKinds (deliveredReports crc32c other (Api.sentOptions crc32c payload options)) ∧
      ∀ option ∈ deliveredOptions crc32c other (Api.sentOptions crc32c payload options), option.kind ≠ .apc := by
  have only := @instances_automatic crc32c payload options accepted automatic
  have failed : firstStatus crc32c other .apc ⟨.apc, u32Be (crc32c payload)⟩ = .failed :=
    if_pos ⟨rfl, fun same => different (u32Be_injective same)⟩
  refine ⟨?_, ?_, ?_⟩
  · apply List.mem_append_left
    refine List.mem_flatMap.mpr ⟨.apc, by decide, ?_⟩
    rw [only, groupReports, failed]
    exact List.mem_cons_self
  · intro succeeded
    obtain ⟨entry, member, kind, success⟩ := mem_successKinds.mp succeeded
    rcases List.mem_append.mp member with known | unknown
    · obtain ⟨group, _, grouped⟩ := List.mem_flatMap.mp known
      cases (groupReports_kind grouped).symm.trans kind
      rw [only, groupReports, failed, List.map_nil, List.mem_singleton] at grouped
      rw [grouped] at success
      cases success
    · obtain ⟨_, _, rfl⟩ := List.mem_map.mp unknown
      cases success
  · intro option member apc
    obtain ⟨kind, _, shown⟩ := List.mem_flatMap.mp member
    cases (exposed_kind shown).symm.trans apc
    rw [only, exposed, failed] at shown
    cases shown

/-- A sent datagram with other user data is delivered with its options as they fare over
these data. -/
theorem Sent.altered {opened altered : Opened} {src dst : Ipv4Addr} {srcPort dstPort : UInt16}
    {sentOptions : List RawOption}
    {body : List UInt8} (noFrag : NoFrag sentOptions) (finished : Serialize.finish sentOptions = .ok body)
    (sent : Sent opened src dst srcPort dstPort payload body) (well : WellOpened altered)
    (same : Altered opened altered other) :
    dispositionOf crc32c altered =
      .deliver ⟨other, deliveredOptions crc32c other sentOptions, true, deliveredReports crc32c other sentOptions,
        [⟨.valid, .datagram⟩]⟩ := by
  obtain ⟨led, parsed⟩ := parseArea_serialized crc32c noFrag finished other (ocsStart altered + 2 - altered.udpAt)
  rw [dispositionOf_trusted crc32c well (same.trusted (sent.trusted led)), parsedArea, same.optionsArea_eq, sent.area,
    same.userData, parsed]
  simp [disposeParsed, same.userData]

end

private theorem applyPolicy_missing {policy : Api.ReceivePolicy} {payload : Payload} {kind : OptionKind}
    (required : kind ∈ policy.requiredOptions) (unreported : kind ∉ successKinds payload.reports) :
    Api.applyPolicy policy payload = .filtered := by
  have missing : Api.missingRequiredOption policy payload.reports ≠ none :=
    fun satisfied => unreported (missingRequired_none satisfied required)
  unfold Api.applyPolicy
  split
  · rfl
  · rw [if_pos (Option.isSome_iff_ne_none.mpr missing)]

/-- A single datagram that is sent with an automatic APC, and whose user data change on
the way within 32 consecutive bits, is refused, or delivered with a failed APC and without
an APC among its options; a policy that requires the APC filters it. The bits of each byte
are taken from the least significant on: in network order the change may go unnoticed. -/
theorem burst_fails_apc {addrs : Api.DatagramAddrs} {payload other : List UInt8} {options : Api.SendOptions}
    {config : Api.SendConfig} {datagram : List UInt8} (automatic : options.includeApc = true)
    (built : Api.buildOutgoingDatagrams EvalCheck.crc32c addrs payload options config = .ok (.ok [datagram]))
    (near : Crc.Burst 32 payload other) (changed : other ≠ payload) (cache : ReassemblyCache) (now : Nat) :
    let damaged := datagram.take 28 ++ (other ++ datagram.drop (28 + payload.length))
    (∃ error, processDatagram EvalCheck.crc32c damaged cache now = .ok (.error error, cache)) ∨
      ∃ delivered, processDatagram EvalCheck.crc32c damaged cache now = .ok (.ok (.payload delivered), cache) ∧
        delivered.data = other ∧ report .apc .failed ∈ delivered.reports ∧
        (∀ option ∈ delivered.options, option.kind ≠ .apc) ∧
        ∀ policy : Api.ReceivePolicy, .apc ∈ policy.requiredOptions →
          Api.decodeDatagram EvalCheck.crc32c damaged cache now policy = .ok (.ok .filtered, cache) := by
  intro damaged
  obtain ⟨opened, body, accepted, serialized, sent, rfl⟩ := buildOutgoingDatagrams_alone built
  have different : EvalCheck.crc32c payload ≠ EvalCheck.crc32c other :=
    fun same => changed (crc32c_burst near same).symm
  have rewritten : damaged = withUserData opened other := by
    rw [withUserData, sent.offset, sent.start]
  have size : other.length = opened.userData.length := by rw [sent.userData, near.length]
  rw [rewritten]
  rcases openDatagram_altered sent.opening size with ⟨error, refused⟩ | ⟨altered, opening, same⟩
  · exact .inl ⟨error, processDatagram_refused EvalCheck.crc32c refused cache now⟩
  right
  obtain ⟨noFrag, _⟩ := validateSendOptions_sent EvalCheck.crc32c payload accepted
  have finished : Serialize.finish (Api.sentOptions EvalCheck.crc32c payload options) = .ok body := by
    rcases optionsBody_cases serialized with ⟨none, _⟩ | ⟨_, finished⟩
    · rw [Api.sentOptions, if_pos automatic] at none
      cases none
    · exact finished
  obtain ⟨well, _⟩ := openDatagram_well opening
  obtain ⟨failed, unreported, unexposed⟩ :=
    @delivered_other EvalCheck.crc32c payload other options accepted automatic different
  have processed := processDatagram_opened EvalCheck.crc32c opening cache now
  rw [handled, sent.altered noFrag finished well same] at processed
  refine ⟨_, processed, rfl, failed, unexposed, ?_⟩
  intro policy required
  rcases decodeDatagram_cases EvalCheck.crc32c (withUserData opened other) cache now policy with
    ⟨_, _, _, _, filtered⟩ | ⟨_, through⟩
  · exact filtered
  · rw [through, Api.decodeProcessed, processed, Checked.ok_bind]
    dsimp only
    rw [applyPolicy_missing required unreported]
    rfl

private def apcAddrs : Api.DatagramAddrs := ⟨⟨10, 0, 0, 1⟩, ⟨10, 0, 0, 2⟩, 1000, 2000⟩

private def apcDatagram : List UInt8 :=
  [69, 0, 0, 42, 0, 0, 0, 0, 64, 17, 102, 193, 10, 0, 0, 1, 10, 0, 0, 2, 3, 232, 7, 208, 0, 12, 220, 21, 1, 2, 3, 4, 71,
    203, 2, 6, 41, 48, 140, 244, 0, 0]

/-- The same with the two words of the payload in the other order. -/
private def exchangedDatagram : List UInt8 := apcDatagram.take 28 ++ ([3, 4, 1, 2] ++ apcDatagram.drop 32)

/-- The UDP checksum does not see the exchange, the APC does. -/
theorem exchanged_words_fail_apc :
    Api.buildOutgoingDatagrams EvalCheck.crc32c apcAddrs [1, 2, 3, 4] ⟨[], true⟩ .default = .ok (.ok [apcDatagram]) ∧
    ∃ delivered,
      processDatagram EvalCheck.crc32c exchangedDatagram (.withLimits .default) 0 =
        .ok (.ok (.payload delivered), .withLimits .default) ∧
      delivered.data = [3, 4, 1, 2] ∧ report .apc .failed ∈ delivered.reports ∧
      Api.decodeDatagram EvalCheck.crc32c exchangedDatagram (.withLimits .default) 0 requiringApc =
        .ok (.ok .filtered, .withLimits .default) := by
  have built : Api.buildOutgoingDatagrams EvalCheck.crc32c apcAddrs [1, 2, 3, 4] ⟨[], true⟩ .default =
      .ok (.ok [apcDatagram]) := by decide +kernel
  have near : Crc.Burst 32 [1, 2, 3, 4] [3, 4, 1, 2] :=
    ⟨[], Crc.bitsOf [1, 2, 3, 4], Crc.bitsOf [3, 4, 1, 2], [], rfl, rfl, rfl, by decide⟩
  have opens : ((openDatagram exchangedDatagram).toOption.any fun result => result.isOk) = true := by decide +kernel
  refine ⟨built, ?_⟩
  rcases burst_fails_apc rfl built near (by decide) (.withLimits .default) 0 with
    ⟨error, refused⟩ | ⟨delivered, processed, data, failed, _, filtered⟩
  · rcases openDatagram_total exchangedDatagram with ⟨_, closed, _⟩ | ⟨opened, opening, _⟩
    · rw [closed] at opens
      cases opens
    · cases (processDatagram_opened EvalCheck.crc32c opening (.withLimits .default) 0).symm.trans refused
  · exact ⟨delivered, processed, data, failed, filtered requiringApc (by decide)⟩

end UdpOptions.Proofs
