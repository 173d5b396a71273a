import UdpOptions.Proofs.FragmentedRoundTrip

/-! One fragmented send on its way. A shipment is the plan of a split with the
datagram of each range. Whatever the limits of the cache are, the cell of its key
either holds exactly the ranges that arrived since it was opened or nothing at all,
and it hands the original tail on when the last of them arrives. -/

namespace UdpOptions.Proofs
open Library Model

def roomy (limits : ReassemblyLimits) : ReassemblyLimits :=
  { limits with
    maxReassembledSize := max limits.maxReassembledSize (2 ^ 16)
    maxSegments := max limits.maxSegments (2 ^ 8) }

section
variable (limits : ReassemblyLimits) (held : Partial) (fragment : NormalizedFragment) (data : List UInt8)
  (processing : FragmentProcessing)

/-- Smaller limits refuse more, and change nothing about what they accept. -/
theorem accept_roomy :
    held.accept fragment data processing limits = .error .limitExceeded ∨
      held.accept fragment data processing limits = held.accept fragment data processing (roomy limits) := by
  unfold Partial.accept
  cases checkedAdd held.fragmentCount 1 with
  | none => exact .inl rfl
  | some fragmentCount =>
    by_cases crowded : limits.maxSegments < fragmentCount
    · exact .inl (if_pos crowded)
    cases checkedAdd held.byteTotal data.length with
    | none => exact .inl (if_neg crowded)
    | some byteTotal =>
      by_cases large : (checkedAdd byteTotal Length.udpHeader).all fun udpTotal => limits.maxReassembledSize < udpTotal
      · exact .inl ((if_neg crowded).trans (if_pos large))
      · have few : ¬ (roomy limits).maxSegments < fragmentCount :=
          fun exceeds => crowded (Nat.lt_of_le_of_lt (Nat.le_max_left _ _) exceeds)
        have small : ¬ (checkedAdd byteTotal Length.udpHeader).all
            fun udpTotal => (roomy limits).maxReassembledSize < udpTotal := by
          intro exceeds
          apply large
          cases total : checkedAdd byteTotal Length.udpHeader with
          | none => rfl
          | some udpTotal =>
            rw [total, Option.all_some, decide_eq_true_eq] at exceeds
            rw [Option.all_some, decide_eq_true_eq]
            exact Nat.lt_of_le_of_lt (Nat.le_max_left _ _) exceeds
        refine .inr ?_
        simp only [if_neg crowded, if_neg large, if_neg few, if_neg small]

private theorem feedHeld_roomy :
    feedHeld limits held fragment data processing = (.abort .limitExceeded, none) ∨
      feedHeld limits held fragment data processing = feedHeld (roomy limits) held fragment data processing := by
  unfold feedHeld Partial.insert
  cases held.isExactDuplicate fragment data processing.options processing.optionFailures with
  | true => exact .inr rfl
  | false =>
    rcases accept_roomy limits held fragment data processing with refused | same
    · simp only [refused]
      exact .inl rfl
    · rw [same]
      exact .inr rfl

end

private theorem screen_roomy (limits : ReassemblyLimits) {frag : Frag} {data : List UInt8}
    {fragment : NormalizedFragment} (passed : screen (roomy limits) frag data.length = .ok fragment) :
    screen limits frag data.length = .error .limitExceeded ∨ screen limits frag data.length = .ok fragment := by
  have screened := screen_ok_iff.mp passed
  unfold screen
  simp only [screened.normal]
  by_cases long : limits.maxReassembledSize < (fragment.udpLength.getD 0).toNat
  · exact .inl (if_pos long)
  · rw [if_neg long]
    split
    · exact .inl rfl
    · exact .inr rfl

/-- A fragmented send: the plan of its split, and the datagram of each range. -/
structure Shipment (crc32c : List UInt8 → UInt32) (addrs : Api.DatagramAddrs) where
  payload : List UInt8
  options : Api.SendOptions
  body : List UInt8
  identification : UInt32
  peer : PeerFragmentLimits
  rdos : UInt16
  ranges : List ChunkRange
  openedOf : ChunkRange → Opened
  accepted : Api.validateSendOptions options = .ok ()
  serialized : Api.optionsBody crc32c payload options = .ok body
  announced : rdos.toNat = 8 + payload.length
  chunks : Chunks (Split.reassembledTail payload body).length 0 ranges
  size : 8 + (Split.reassembledTail payload body).length ≤ peer.maxReassembledSize.toNat
  count : ranges.length ≤ peer.maxSegments.toNat
  several : 1 < ranges.length
  sent : ∀ range ∈ ranges, Sent (openedOf range) addrs.src addrs.dst addrs.srcPort addrs.dstPort []
    (rangeFragment (Split.reassembledTail payload body) false rdos identification range).surplusBody

def flowKey (addrs : Api.DatagramAddrs) (identification : UInt32) : FragKey :=
  ⟨addrs.src, addrs.dst, addrs.srcPort, addrs.dstPort, identification⟩

section
variable {crc32c : List UInt8 → UInt32} {addrs : Api.DatagramAddrs}

namespace Shipment
variable (shipment : Shipment crc32c addrs)

def tail : List UInt8 := Split.reassembledTail shipment.payload shipment.body

def key : FragKey := flowKey addrs shipment.identification

def datagramOf (range : ChunkRange) : List UInt8 := (shipment.openedOf range).datagram

def datagrams : List (List UInt8) := shipment.ranges.map shipment.datagramOf

/-- A cache with at least the limits the sender assumed takes every range. -/
theorem splitting_of_le {limits : ReassemblyLimits}
    (size : shipment.peer.maxReassembledSize.toNat ≤ limits.maxReassembledSize)
    (segments : shipment.peer.maxSegments.toNat ≤ limits.maxSegments) :
    Splitting limits shipment.tail shipment.rdos shipment.ranges := by
  have plan : SplitPlan shipment.payload shipment.body ⟨0, shipment.peer, shipment.identification⟩ shipment.rdos
      shipment.ranges := ⟨shipment.announced, shipment.size, shipment.chunks, shipment.count⟩
  exact .of_plan plan size segments

theorem splitting (limits : ReassemblyLimits) :
    Splitting (roomy limits) shipment.tail shipment.rdos shipment.ranges :=
  shipment.splitting_of_le (Nat.le_trans (Nat.le_of_lt (UInt16.toNat_lt _)) (Nat.le_max_right _ _))
    (Nat.le_trans (Nat.le_of_lt (UInt8.toNat_lt _)) (Nat.le_max_right _ _))

theorem another (range : ChunkRange) : ∃ other ∈ shipment.ranges, other ≠ range := by
  by_contra all
  have only : ∀ other ∈ shipment.ranges, other = range := by simpa using all
  have alike := List.eq_replicate_of_mem only
  have distinct := shipment.chunks.nodup
  rw [alike, List.nodup_replicate] at distinct
  have several := shipment.several
  omega

/-- The cell of the key holds exactly these ranges, and some range is missing. -/
structure Holds (limits : ReassemblyLimits) (seen : List ChunkRange) (cell : Option Partial) : Prop where
  missing : ∃ other ∈ shipment.ranges, other ∉ seen
  empty : cell = none → seen = []
  gathered : ∀ held, cell = some held → ∃ since,
    Gathered (roomy limits) shipment.tail shipment.rdos shipment.ranges (some true) since seen held

variable {shipment} {limits : ReassemblyLimits} {seen : List ChunkRange} {cell : Option Partial} {range : ChunkRange}

theorem holds_none : shipment.Holds limits [] none where
  missing := by
    obtain ⟨other, member, _⟩ := shipment.another (0, 0, false)
    exact ⟨other, member, List.not_mem_nil⟩
  empty := fun _ => rfl
  gathered := by
    intro held same
    cases same

theorem Holds.filter (holds : shipment.Holds limits seen cell) (test : Partial → Bool) :
    shipment.Holds limits seen (cell.filter test) ∨ shipment.Holds limits [] (cell.filter test) := by
  cases cell with
  | none => exact .inl holds
  | some held =>
    cases kept : test held with
    | true =>
      rw [Option.filter_some, kept]
      exact .inl holds
    | false =>
      rw [Option.filter_some, kept]
      exact .inr holds_none

/-- What the arrival of one more range does to the cell. -/
inductive Fed (shipment : Shipment crc32c addrs) (limits : ReassemblyLimits) (seen : List ChunkRange)
    (range : ChunkRange) : ReassemblyOutcome × Option Partial → Prop where
  | aborted (reason : AbortReason) : Fed shipment limits seen range (.abort reason, none)
  | kept {updated : Partial} (holds : shipment.Holds limits (seen.insert range) (some updated)) :
      Fed shipment limits seen range (.incomplete, some updated)
  | finished (all : ∀ other ∈ shipment.ranges, other ∈ range :: seen) :
      Fed shipment limits seen range (.complete ⟨shipment.tail, shipment.rdos, [], [], some true⟩, none)

private theorem feedHeld_fed {since : Nat} {held : Partial} (member : range ∈ shipment.ranges)
    (gathered : Gathered (roomy limits) shipment.tail shipment.rdos shipment.ranges (some true) since seen held)
    (missing : ∃ other ∈ shipment.ranges, other ∉ seen) :
    Fed shipment limits seen range (feedHeld limits held (rangeNormal shipment.rdos range)
      (rangeData shipment.tail range) (plainProcessing (some true))) := by
  rcases feedHeld_roomy limits held (rangeNormal shipment.rdos range) (rangeData shipment.tail range)
    (plainProcessing (some true)) with refused | same
  · rw [refused]
    exact .aborted _
  rw [same]
  by_cases short : ∃ other ∈ shipment.ranges, other ∉ seen.insert range
  · obtain ⟨updated, fed, more⟩ := gathered.feed_incomplete (shipment.splitting limits) member short
    rw [fed]
    refine .kept ⟨short, nofun, ?_⟩
    intro other same
    cases same
    exact ⟨since, more⟩
  · -- the cell lacked a range before, so this arrival is the one it lacked
    have all : ∀ other ∈ shipment.ranges, other = range ∨ other ∈ seen := by
      intro other listed
      by_contra absent
      exact short ⟨other, listed, by simpa [List.mem_insert_iff] using absent⟩
    obtain ⟨lacking, lackingMember, unseen⟩ := missing
    obtain rfl := (all lacking lackingMember).resolve_right unseen
    have covered : ∀ other ∈ shipment.ranges, other ∈ lacking :: seen := fun other listed =>
      List.mem_cons.mpr (all other listed)
    rw [gathered.feed_complete (shipment.splitting limits) member unseen covered]
    exact .finished covered

private theorem feedCell_fed (holds : shipment.Holds limits seen cell) (member : range ∈ shipment.ranges) (full : Bool)
    (now : Nat) :
    Fed shipment limits seen range (feedCell limits full cell
      (rangeFrag false shipment.rdos shipment.identification range) (rangeData shipment.tail range)
      (plainProcessing (some true)) now) := by
  have screened := (shipment.splitting limits).screened member shipment.identification
  unfold feedCell
  rcases screen_roomy limits screened with refused | passed
  · rw [refused]
    exact .aborted _
  · rw [passed]
    cases cell with
    | some held =>
      obtain ⟨since, gathered⟩ := holds.gathered held rfl
      exact feedHeld_fed member gathered holds.missing
    | none =>
      obtain rfl := holds.empty rfl
      have fed : Fed shipment limits [] range (feedHeld limits (Partial.new now) (rangeNormal shipment.rdos range)
          (rangeData shipment.tail range) (plainProcessing (some true))) :=
        feedHeld_fed member (Gathered.new now) holds.missing
      cases full with
      | false => exact fed
      | true =>
        simp only [feedAlone, if_true]
        generalize feedHeld limits (Partial.new now) (rangeNormal shipment.rdos range) (rangeData shipment.tail range)
          (plainProcessing (some true)) = result at fed
        cases fed with
        | aborted reason => exact .aborted reason
        | kept => exact .aborted _
        | finished all => exact .finished all

end Shipment

/-- What the receiver hands up for a send: the payload, its reportable options, and
the reports on them. -/
structure Faithful (crc32c : List UInt8 → UInt32) (payload : List UInt8) (options : Api.SendOptions)
    (delivered : Payload) : Prop where
  data : delivered.data = payload
  visible : delivered.options = reportableOptions crc32c payload (Api.sentOptions crc32c payload options)
  reported : delivered.reports = deliveredReports crc32c payload (Api.sentOptions crc32c payload options)

section
variable {payload body : List UInt8} {options : Api.SendOptions}

private theorem faithful_bare (status : OcsStatus) (none : Api.sentOptions crc32c payload options = []) :
    Faithful crc32c payload options (deliverWithoutOptions payload false status) := by
  refine ⟨rfl, ?_, ?_⟩ <;> rw [none] <;> rfl

private theorem faithful_serialized (accepted : Api.validateSendOptions options = .ok ()) (optionBearing : Bool)
    (ocsReports : List OcsReport) :
    Faithful crc32c payload options
      ⟨payload, deliveredOptions crc32c payload (Api.sentOptions crc32c payload options), optionBearing,
        deliveredReports crc32c payload (Api.sentOptions crc32c payload options), ocsReports⟩ := by
  obtain ⟨noFrag, unrepeated⟩ := validateSendOptions_sent crc32c payload accepted
  exact ⟨rfl, deliveredOptions_unrepeated crc32c payload noFrag unrepeated, rfl⟩

/-- A send that fits one datagram is handed up as it was sent. -/
theorem Sent.disposed_faithful {opened : Opened} (sent : Sent opened addrs.src addrs.dst addrs.srcPort addrs.dstPort
      payload body) (accepted : Api.validateSendOptions options = .ok ())
    (serialized : Api.optionsBody crc32c payload options = .ok body) :
    ∃ delivered, dispositionOf crc32c opened = .deliver delivered ∧ Faithful crc32c payload options delivered := by
  obtain ⟨well, _⟩ := openDatagram_well sent.opening
  rcases optionsBody_cases serialized with ⟨none, rfl⟩ | ⟨_, finished⟩
  · rw [dispositionOf_absent crc32c well (sent.bare rfl), sent.userData]
    exact ⟨_, rfl, faithful_bare .absent none⟩
  · obtain ⟨noFrag, _⟩ := validateSendOptions_sent crc32c payload accepted
    rw [dispositionOf_serialized crc32c noFrag finished sent]
    exact ⟨_, rfl, faithful_serialized accepted true _⟩

theorem Sent.processed_faithful {opened : Opened} (sent : Sent opened addrs.src addrs.dst addrs.srcPort addrs.dstPort
      payload body) (accepted : Api.validateSendOptions options = .ok ())
    (serialized : Api.optionsBody crc32c payload options = .ok body) :
    ∃ delivered, Faithful crc32c payload options delivered ∧ ∀ cache now,
      processDatagram crc32c opened.datagram cache now = .ok (.ok (.payload delivered), cache) := by
  obtain ⟨delivered, disposed, faithful⟩ := sent.disposed_faithful accepted serialized
  refine ⟨delivered, faithful, ?_⟩
  intro cache now
  rw [processDatagram_opened crc32c sent.opening, handled, disposed]

end

namespace Shipment
variable {shipment : Shipment crc32c addrs} {cache : ReassemblyCache} {now : Nat} {seen : List ChunkRange}
  {range : ChunkRange}

theorem announcedLen : 28 + shipment.tail.length = sentLen shipment.payload.length shipment.body.length :=
  reassembledTail_length

private theorem faithful_merged {options : Api.SendOptions} {payload : List UInt8} {reassembled : Reassembled}
    {delivered : Payload} (faithful : Faithful crc32c payload options delivered)
    (plain : reassembled.fragmentOptions = []) (sound : reassembled.fragmentOptionFailures = []) :
    Faithful crc32c payload options (mergeReassembled reassembled delivered) := by
  rw [mergeReassembled, plain, sound]
  exact ⟨faithful.data, faithful.visible, faithful.reported⟩

def confirmations (shipment : Shipment crc32c addrs) : List OcsReport :=
  [⟨.valid, .fragmentSet⟩,
    ⟨if Api.sentOptions crc32c shipment.payload shipment.options = [] then .absent else .unused, .datagram⟩]

/-- The complete tail is delivered as it was sent if an IPv4 datagram can hold it. -/
theorem handOn_tail (shipment : Shipment crc32c addrs) (opened : Opened) (cache : ReassemblyCache)
    (fits : 28 + shipment.tail.length < 2 ^ 16) :
    ∃ delivered, handOn crc32c opened ⟨shipment.tail, shipment.rdos, [], [], some true⟩ cache =
        (.payload delivered, cache) ∧
      Faithful crc32c shipment.payload shipment.options delivered ∧ delivered.ocsReports = shipment.confirmations := by
  have announced := shipment.announced
  have reach := (shipment.splitting .default).reach
  have rebuildable : Rebuildable ⟨shipment.tail, shipment.rdos, [], [], some true⟩ :=
    ⟨(shipment.splitting .default).header, reach, fits⟩
  have small : sentLen shipment.payload.length shipment.body.length < 2 ^ 16 := announcedLen ▸ fits
  rcases optionsBody_cases shipment.serialized with ⟨empty, bare⟩ | ⟨nonempty, finished⟩
  · have whole : shipment.tail = shipment.payload := by simp [tail, bare, Split.reassembledTail]
    refine ⟨_, handOn_deliver crc32c opened rebuildable
      (dispositionOf_rebuilt_bare crc32c opened whole announced (whole ▸ fits)) cache,
      faithful_merged (faithful_bare .absent empty) rfl rfl, ?_⟩
    rw [confirmations, if_pos empty]
    rfl
  · obtain ⟨noFrag, _⟩ := validateSendOptions_sent crc32c shipment.payload shipment.accepted
    refine ⟨_, handOn_deliver crc32c opened rebuildable
      (dispositionOf_rebuilt_serialized crc32c opened noFrag finished rfl announced small) cache,
      faithful_merged (faithful_serialized shipment.accepted true _) rfl rfl, ?_⟩
    rw [confirmations, if_neg nonempty]
    rfl

inductive Arrives (shipment : Shipment crc32c addrs) (cache : ReassemblyCache) (now : Nat) (seen : List ChunkRange)
    (range : ChunkRange) : Delivery → ReassemblyCache → Prop where
  | dropped : Arrives shipment cache now seen range .dropped (putCell (cache.gc now) shipment.key none)
  | buffered {updated : Partial} (holds : shipment.Holds cache.limits (seen.insert range) (some updated)) :
      Arrives shipment cache now seen range .buffered (putCell (cache.gc now) shipment.key (some updated))
  | delivered {payload : Payload} (all : ∀ other ∈ shipment.ranges, other ∈ range :: seen)
      (faithful : Faithful crc32c shipment.payload shipment.options payload) :
      Arrives shipment cache now seen range (.payload payload) (putCell (cache.gc now) shipment.key none)

theorem Arrives.besides {delivery : Delivery} {after : ReassemblyCache}
    (arrives : shipment.Arrives cache now seen range delivery after) {other : FragKey} (apart : other ≠ shipment.key) :
    after.partials.lookup other = (cache.gc now).partials.lookup other := by
  cases arrives <;> exact lookup_putCell_ne _ _ apart

theorem Arrives.elsewhere {delivery : Delivery} {after : ReassemblyCache}
    (arrives : shipment.Arrives cache now seen range delivery after) {other : UInt32}
    (different : other ≠ shipment.identification) :
    after.partials.lookup (flowKey addrs other) = (cache.gc now).partials.lookup (flowKey addrs other) := by
  apply arrives.besides
  intro same
  rw [key, flowKey, flowKey, FragKey.mk.injEq] at same
  exact different same.2.2.2.2

/-- A datagram of the shipment feeds the cell of its key and is settled by the outcome. -/
theorem receive_settled (member : range ∈ shipment.ranges) (cache : ReassemblyCache) (now : Nat) :
    let fed := feedCell cache.limits (atCap (cache.gc now)) ((cache.gc now).partials.lookup shipment.key)
      (rangeFrag false shipment.rdos shipment.identification range) (rangeData shipment.tail range)
      (plainProcessing (some true)) now
    let final := settled crc32c (shipment.openedOf range) fed.1 (putCell (cache.gc now) shipment.key fed.2)
    processDatagram crc32c (shipment.datagramOf range) cache now = .ok (.ok final.1, final.2) :=
  receive_range crc32c (shipment.sent range member) (insertWithOptionsAndFailures_eq ..)

theorem receive_arrives (member : range ∈ shipment.ranges)
    (holds : shipment.Holds cache.limits seen ((cache.gc now).partials.lookup shipment.key)) :
    ∃ delivery after, processDatagram crc32c (shipment.datagramOf range) cache now = .ok (.ok delivery, after) ∧
      Arrives shipment cache now seen range delivery after := by
  have fed := feedCell_fed holds member (atCap (cache.gc now)) now
  have received := receive_settled member cache now
  dsimp only at received
  generalize feedCell cache.limits (atCap (cache.gc now)) ((cache.gc now).partials.lookup shipment.key)
    (rangeFrag false shipment.rdos shipment.identification range) (rangeData shipment.tail range)
    (plainProcessing (some true)) now = result at fed received
  refine ⟨_, _, received, ?_⟩
  cases fed with
  | aborted => exact .dropped
  | kept more => exact .buffered more
  | finished all =>
    by_cases fits : 28 + shipment.tail.length < 2 ^ 16
    · obtain ⟨delivered, handed, faithful, _⟩ := shipment.handOn_tail (shipment.openedOf range)
        (putCell (cache.gc now) shipment.key none) fits
      simp only [settled, handed]
      exact .delivered all faithful
    · have large : ¬ Rebuildable ⟨shipment.tail, shipment.rdos, [], [], some true⟩ := fun rebuildable =>
        fits rebuildable.2.2
      simp only [settled, handOn, if_neg large]
      exact .dropped

end Shipment

def InFlow (addrs : Api.DatagramAddrs) (opened : Opened) : Prop :=
  opened.ip.src = addrs.src ∧ opened.ip.dst = addrs.dst ∧ opened.udp.srcPort = addrs.srcPort ∧
    opened.udp.dstPort = addrs.dstPort

instance (addrs : Api.DatagramAddrs) (opened : Opened) : Decidable (InFlow addrs opened) :=
  inferInstanceAs (Decidable (_ ∧ _ ∧ _ ∧ _))

private theorem flowKey_ne {opened : Opened} (apart : ¬ InFlow addrs opened) (frag : Frag) (identification : UInt32) :
    flowKey addrs identification ≠ fragKey opened.ip opened.udp frag := by
  intro same
  rw [flowKey, fragKey, FragKey.mk.injEq] at same
  exact apart ⟨same.1.symm, same.2.1.symm, same.2.2.1.symm, same.2.2.2.1.symm⟩

/-- A datagram of another flow only lets time pass for the keys of this one. -/
theorem processDatagram_elsewhere {bytes : List UInt8} {cache final : ReassemblyCache} {now : Nat}
    {result : Except RecvError Delivery} (processed : processDatagram crc32c bytes cache now = .ok (result, final))
    (apart : ∀ opened, openDatagram bytes = .ok (.ok opened) → ¬ InFlow addrs opened) (identification : UInt32) :
    final.partials.lookup (flowKey addrs identification) = cache.partials.lookup (flowKey addrs identification) ∨
      final.partials.lookup (flowKey addrs identification) =
        (cache.gc now).partials.lookup (flowKey addrs identification) := by
  rcases processDatagram_cases crc32c bytes cache now with ⟨error, _, refused⟩ |
    ⟨opened, delivery, after, opening, known, handling⟩
  · cases refused.symm.trans processed
    exact .inl rfl
  cases known.symm.trans processed
  have different := flowKey_ne (apart opened opening)
  cases handling with
  | delivered => exact .inl rfl
  | failed => exact .inl (lookup_putCell_ne cache none (different _ identification))
  | buffered | aborted => exact .inr (lookup_putCell_ne (cache.gc now) _ (different _ identification))
  | @completed frag options reports status reassembled =>
    have kept : ((insertionOf opened frag options reports status now).after cache).partials.lookup
        (flowKey addrs identification) = (cache.gc now).partials.lookup (flowKey addrs identification) :=
      lookup_putCell_ne (cache.gc now) _ (different frag identification)
    rcases handOn_cache crc32c opened reassembled ((insertionOf opened frag options reports status now).after cache)
      with same | ⟨key, fits, failed, same⟩
    · rw [same]
      exact .inr kept
    · -- the rebuilt datagram belongs to the flow of the fragments
      obtain ⟨well, _⟩ := openDatagram_well (open_rebuilt opened fits)
      obtain ⟨inner, _, _, named⟩ := (failed ▸ (disposeOpened_eq crc32c well).2).fail
      cases named
      rw [same]
      exact .inr ((lookup_putCell_ne _ none (different inner identification)).trans kept)

end

end UdpOptions.Proofs
