import UdpOptions.Proofs.LinkSafety

/-! Delivery over a link. If the first datagram of a fragmented send finds room in the
receiver's cache, and the others arrive before the partial expires, the payload is
delivered, in whatever order and however often they arrive and whatever other traffic
comes between them. -/

namespace UdpOptions.Proofs
open Library Model

def LinkEvent.instant? : LinkEvent → Option Nat
  | .send .. => none
  | .recv _ now => some now
  | .gc now => some now

section
variable {crc32c : List UInt8 → UInt32} {addrs : Api.DatagramAddrs}

namespace Shipment
variable {shipment : Shipment crc32c addrs}

theorem imprint_injective {range other : ChunkRange} (member : range ∈ shipment.ranges)
    (otherMember : other ∈ shipment.ranges)
    (same : imprint (shipment.datagramOf range) = imprint (shipment.datagramOf other)) : range = other := by
  have sent := shipment.sent range member
  have otherSent := shipment.sent other otherMember
  have relays : Relays (shipment.openedOf other).datagram (shipment.openedOf range).datagram :=
    ⟨same, headed_datagramOf member⟩
  obtain ⟨again, reopening, alike⟩ := relays.opens otherSent.opening
  have opened := reopening.symm.trans sent.opening
  rw [Except.ok.injEq, Except.ok.injEq] at opened
  have disposed := dispositionOf_range crc32c sent
  rw [← opened, alike.disposed (openDatagram_well otherSent.opening).1, dispositionOf_range crc32c otherSent] at disposed
  have offsets := (congrArg Frag.fragOffset (Disposition.fragment.inj disposed).1).symm
  have inside := shipment.chunks.inTail range member
  have otherInside := shipment.chunks.inTail other otherMember
  have word := (shipment.splitting .default).word
  have starts : range.1 = other.1 := by
    have numbers := congrArg UInt16.toNat offsets
    have below := inside.below
    have ordered := inside.ordered
    have otherBelow := otherInside.below
    have otherOrdered := otherInside.ordered
    have tail : shipment.tail.length = (Split.reassembledTail shipment.payload shipment.body).length := rfl
    simp only [rangeFrag, rangeOffset, Bool.false_eq_true, if_false] at numbers
    have fits : Length.udpHeader + range.1 < 2 ^ 16 := by
      change 8 + range.1 < 2 ^ 16
      omega
    have otherFits : Length.udpHeader + other.1 < 2 ^ 16 := by
      change 8 + other.1 < 2 ^ 16
      omega
    rw [UInt16.toNat_ofNat_of_lt' fits, UInt16.toNat_ofNat_of_lt' otherFits] at numbers
    omega
  rcases shipment.chunks.compare member otherMember with equal | before | after
  · exact equal
  · have := before.2
    omega
  · have := after.2
    omega

end Shipment

/-- The receiver's limits and policy let the payload of a shipment through. -/
structure Willing (shipment : Shipment crc32c addrs) (link : Link) : Prop where
  splitting : Splitting link.receiver.cache.limits shipment.tail shipment.rdos shipment.ranges
  fits : 28 + shipment.tail.length < 2 ^ 16
  undropped : link.receiver.policy.dropAllOptionBearing = false
  unrequired : link.receiver.policy.requiredOptions = []

/-- The cache waits for the rest of a shipment, and has noticed all that arrived of it. -/
structure Underway (shipment : Shipment crc32c addrs) (since : Nat) (seen : List ChunkRange) (link : Link) : Prop where
  awaiting : Awaiting link.receiver.cache.limits shipment.tail shipment.rdos shipment.ranges (some true) since
    shipment.key seen link.receiver.cache
  missing : ∃ other ∈ shipment.ranges, other ∉ seen
  noticed : ∀ range ∈ shipment.ranges, imprint (shipment.datagramOf range) ∈ link.arrivals → range ∈ seen

variable {shipment : Shipment crc32c addrs} {since : Nat} {seen : List ChunkRange} {link final : Link}
  {fleet : Fleet crc32c addrs}

private theorem applyPolicy_confirmed {policy : Api.ReceivePolicy} (undropped : policy.dropAllOptionBearing = false)
    (unrequired : policy.requiredOptions = []) {payload : Payload}
    (confirmed : payload.ocsReports = shipment.confirmations) :
    Api.applyPolicy policy payload =
      .received ⟨payload.data, payload.options, payload.reports, payload.ocsReports⟩ := by
  have satisfied : Api.ocsRequirementSatisfied payload.ocsReports = true := by
    rw [confirmed, Shipment.confirmations]
    split <;> rfl
  unfold Api.applyPolicy
  rw [undropped, Api.missingRequiredOption, unrequired, satisfied]
  simp

def passedOn (policy : Api.ReceivePolicy) : Delivery → Api.ApiDelivery
  | .payload payload => Api.applyPolicy policy payload
  | .buffered => .buffered
  | .dropped => .dropped

theorem decodeDatagram_undropped {datagram : List UInt8} {cache after : ReassemblyCache} {now : Nat}
    {policy : Api.ReceivePolicy} (undropped : policy.dropAllOptionBearing = false) {delivery : Delivery}
    (processed : processDatagram crc32c datagram cache now = .ok (.ok delivery, after)) :
    Api.decodeDatagram crc32c datagram cache now policy = .ok (.ok (passedOn policy delivery), after) := by
  unfold Api.decodeDatagram Api.decodeProcessed
  rw [undropped, processed]
  cases delivery <;> rfl

theorem LinkMove.settings {event : LinkEvent} {unnamed : link.sender.config.identification = none}
    (valid : CacheValid link.receiver.cache) (moved : LinkMove crc32c link unnamed event final) :
    final.receiver.cache.limits = link.receiver.cache.limits ∧ final.receiver.policy = link.receiver.policy := by
  cases moved with
  | posted => exact ⟨rfl, rfl⟩
  | idle => exact ⟨rfl, rfl⟩
  | collected => exact ⟨rfl, rfl⟩
  | @took _ now _ _ data len _ _ _ _ _ decoding =>
    refine ⟨?_, rfl⟩
    rcases decode_effect decoding with ⟨rfl, _⟩ | ⟨result, processed, _⟩
    · rfl
    · exact (@receive_valid crc32c (data.take len, now) _ _ _ processed valid).2

theorem Willing.moved (willing : Willing shipment link)
    (settings : final.receiver.cache.limits = link.receiver.cache.limits ∧
      final.receiver.policy = link.receiver.policy) : Willing shipment final := by
  refine ⟨?_, willing.fits, ?_, ?_⟩
  · rw [settings.1]
    exact willing.splitting
  · rw [settings.2]
    exact willing.undropped
  · rw [settings.2]
    exact willing.unrequired

theorem Awaiting.besides {limits : ReassemblyLimits} {cache after : ReassemblyCache} {now : Nat}
    (awaiting : Awaiting limits shipment.tail shipment.rdos shipment.ranges (some true) since shipment.key seen cache)
    (same : after.limits = limits) (timely : now - since < min limits.timeout Limits.reassemblyTimeoutMax)
    (cell : after.partials.lookup shipment.key = cache.partials.lookup shipment.key ∨
      after.partials.lookup shipment.key = (cache.gc now).partials.lookup shipment.key) :
    Awaiting limits shipment.tail shipment.rdos shipment.ranges (some true) since shipment.key seen after := by
  refine ⟨same, ?_⟩
  rcases cell with kept | swept
  · rw [kept]
    exact awaiting.held
  · rw [swept]
    exact awaiting.live timely

theorem Kept.cell_besides (kept : Kept fleet link) {id : UInt32} (known : fleet id = some shipment)
    {datagram : List UInt8} {now : Nat} (headed : Headed datagram)
    (arrival : Apart addrs datagram ∨ ∃ posting ∈ link.ledger, imprint datagram ∈ posting.imprints)
    {decoded : Except RecvError Api.ApiDelivery} {cache : ReassemblyCache}
    (decoding : Api.decodeDatagram crc32c datagram link.receiver.cache now link.receiver.policy =
      .ok (decoded, cache)) (other : imprint datagram ∉ shipment.imprints) :
    cache.partials.lookup shipment.key = link.receiver.cache.partials.lookup shipment.key ∨
      cache.partials.lookup shipment.key = (link.receiver.cache.gc now).partials.lookup shipment.key := by
  rcases decode_effect decoding with ⟨rfl, _⟩ | ⟨result, processed, _⟩
  · exact .inl rfl
  rcases arrival with apart | ⟨posting, posted, member⟩
  · exact processDatagram_elsewhere processed apart.other shipment.identification
  · cases (kept.logged posting posted).imprinted member with
    | @whole opened _ accepted serialized sent _ same =>
      have relays : Relays opened.datagram datagram := ⟨same, headed⟩
      obtain ⟨delivered, _, handles⟩ := sent.processed_faithful accepted serialized
      rw [relays.processed sent.opening, handles] at processed
      cases processed
      exact .inl rfl
    | @split rivalId rival rivalKnown _ _ _ range listed same =>
      have relays : Relays (rival.datagramOf range) datagram := ⟨same, headed⟩
      rw [relays.processed (rival.sent range listed).opening] at processed
      obtain ⟨left, remaining⟩ := kept.tallied_gc now rivalKnown
      rw [← kept.named rivalId rival rivalKnown] at remaining
      obtain ⟨delivery, after, executed, arrives⟩ := Shipment.receive_arrives listed remaining.holds
      cases executed.symm.trans processed
      have apart : shipment.identification ≠ rival.identification := by
        intro equal
        rw [kept.named id shipment known, kept.named rivalId rival rivalKnown] at equal
        rw [equal, rivalKnown, Option.some.injEq] at known
        rw [same, ← known] at other
        exact other (Shipment.imprint_mem listed)
      exact .inr (arrives.elsewhere apart)

theorem Kept.absent (kept : Kept fleet link) {id : UInt32} (known : fleet id = some shipment)
    (unseen : ∀ print ∈ shipment.imprints, print ∉ link.arrivals) :
    link.receiver.cache.partials.lookup (flowKey addrs id) = none := by
  obtain ⟨seen, tallied⟩ := kept.tallied id shipment known
  cases cell : link.receiver.cache.partials.lookup (flowKey addrs id) with
  | none => rfl
  | some held =>
    obtain ⟨begun, gathered⟩ := tallied.holds.gathered held cell
    have counted := (kept.valid.retained _ held cell).counted
    rw [gathered.count] at counted
    obtain ⟨first, listed⟩ := List.exists_mem_of_length_pos counted
    have ranged := gathered.member first listed
    have paid := tallied.counted first ranged
    rw [if_pos listed, List.count_eq_zero.mpr (unseen _ (Shipment.imprint_mem ranged))] at paid
    omega

theorem Kept.opened (kept : Kept fleet link) {id : UInt32} (known : fleet id = some shipment)
    (willing : Willing shipment link) (unseen : ∀ print ∈ shipment.imprints, print ∉ link.arrivals)
    (room : link.receiver.cache.len < link.receiver.cache.limits.maxPendingPartials) {range : ChunkRange}
    (member : range ∈ shipment.ranges) (now : Nat) :
    ∃ after, processDatagram crc32c (shipment.datagramOf range) link.receiver.cache now =
        .ok (.ok .buffered, after) ∧
      Awaiting link.receiver.cache.limits shipment.tail shipment.rdos shipment.ranges (some true) now shipment.key
        [range] after := by
  have absent : link.receiver.cache.partials.lookup shipment.key = none := by
    rw [Shipment.key, kept.named id shipment known]
    exact kept.absent known unseen
  obtain ⟨after, arrived, awaiting⟩ := awaiting_first (some true) now willing.splitting member absent room
    (shipment.another range) shipment.identification
  have received := receive_range crc32c (shipment.sent range member) arrived
  exact ⟨after, received, awaiting⟩

/-- With its first arrival a shipment is underway. -/
theorem Kept.begins (kept : Kept fleet link) {id : UInt32} (known : fleet id = some shipment)
    (willing : Willing shipment link) (unseen : ∀ print ∈ shipment.imprints, print ∉ link.arrivals)
    (room : link.receiver.cache.len < link.receiver.cache.limits.maxPendingPartials) {call : ReceiveCall} {now : Nat}
    (moved : LinkMove crc32c link kept.unnamed (.recv call now) final) {first : List UInt8}
    (opens : final.arrived = link.arrived ++ [first]) (own : imprint first ∈ shipment.imprints) :
    ∃ seen, Underway shipment now seen final := by
  have limits := (moved.settings kept.valid).1
  cases moved with
  | idle =>
    have lengths := congrArg List.length opens
    simp at lengths
  | took _ _ passes decoding =>
    have taken := List.append_cancel_left opens
    rw [List.cons.injEq] at taken
    obtain ⟨range, ranged, same⟩ := Shipment.mem_imprints.mp own
    have headed := passes.headed
    rw [taken.1] at decoding headed
    have relays : Relays (shipment.datagramOf range) first := ⟨same.symm, headed⟩
    obtain ⟨opened, processed, awaiting⟩ := kept.opened known willing unseen room ranged now
    rw [← relays.processed (shipment.sent range ranged).opening] at processed
    cases (decodeDatagram_undropped willing.undropped processed).symm.trans decoding
    obtain ⟨other, otherMember, different⟩ := shipment.another range
    refine ⟨[range], by rw [limits]; exact awaiting, ⟨other, otherMember, by simpa using different⟩, ?_⟩
    intro other listed arrived
    rw [Link.arrivals, opens, List.map_append] at arrived
    rcases List.mem_append.mp arrived with earlier | new
    · exact absurd earlier (unseen _ (Shipment.imprint_mem listed))
    · rw [List.map_singleton, List.mem_singleton, ← same] at new
      rw [Shipment.imprint_injective listed ranged new]
      exact List.mem_singleton_self _

theorem Underway.incomplete (underway : Underway shipment since seen link) :
    ¬ ∀ print ∈ shipment.imprints, print ∈ link.arrivals := by
  intro all
  obtain ⟨other, member, absent⟩ := underway.missing
  exact absent (underway.noticed other member (all _ (Shipment.imprint_mem member)))

/-- A further arrival of a shipment is noticed, and the last one delivers the payload. -/
theorem Underway.arrive (underway : Underway shipment since seen link) (willing : Willing shipment link) {now : Nat}
    (timely : now - since < min link.receiver.cache.limits.timeout Limits.reassemblyTimeoutMax) {range : ChunkRange}
    (member : range ∈ shipment.ranges) {datagram : List UInt8} (relays : Relays (shipment.datagramOf range) datagram)
    {decoded : Except RecvError Api.ApiDelivery} {cache : ReassemblyCache}
    (decoding : Api.decodeDatagram crc32c datagram link.receiver.cache now link.receiver.policy =
      .ok (decoded, cache)) :
    0 < deliveries (deliveredOf datagram decoded) shipment.imprints ∨
      (Awaiting link.receiver.cache.limits shipment.tail shipment.rdos shipment.ranges (some true) since shipment.key
          (seen.insert range) cache ∧ ∃ other ∈ shipment.ranges, other ∉ seen.insert range) := by
  have same := relays.processed (shipment.sent range member).opening crc32c link.receiver.cache now
  by_cases short : ∃ other ∈ shipment.ranges, other ∉ seen.insert range
  · obtain ⟨after, arrived, awaiting⟩ := underway.awaiting.more willing.splitting member timely short
      shipment.identification
    have received := same.trans (receive_range crc32c (shipment.sent range member) arrived)
    cases (decodeDatagram_undropped willing.undropped received).symm.trans decoding
    exact .inr ⟨awaiting, short⟩
  · have all : ∀ other ∈ shipment.ranges, other = range ∨ other ∈ seen := by
      intro other listed
      by_contra absent
      exact short ⟨other, listed, by simpa [List.mem_insert_iff] using absent⟩
    obtain ⟨lacking, lackingMember, unseen⟩ := underway.missing
    obtain rfl := (all lacking lackingMember).resolve_right unseen
    obtain ⟨after, arrived, _⟩ := underway.awaiting.last willing.splitting member timely unseen
      (fun other listed => List.mem_cons.mpr (all other listed)) shipment.identification
    have received := same.trans (receive_range crc32c (shipment.sent lacking member) arrived)
    obtain ⟨delivered, handed, _, confirmed⟩ := shipment.handOn_tail (shipment.openedOf lacking) after willing.fits
    simp only [settled, handed] at received
    cases (decodeDatagram_undropped willing.undropped received).symm.trans decoding
    rw [passedOn, applyPolicy_confirmed willing.undropped willing.unrequired confirmed]
    have inside : imprint datagram ∈ shipment.imprints := relays.same ▸ Shipment.imprint_mem member
    exact .inl (by simp [deliveredOf, deliveries, inside])

/-- Until the payload is delivered, every event leaves the shipment underway. -/
theorem Underway.step (underway : Underway shipment since seen link) (kept : Kept fleet link) {id : UInt32}
    (known : fleet id = some shipment) (willing : Willing shipment link) {event : LinkEvent}
    (possible : event.Possible link) (moved : LinkMove crc32c link kept.unnamed event final)
    (timely : ∀ now, event.instant? = some now →
      now - since < min link.receiver.cache.limits.timeout Limits.reassemblyTimeoutMax) :
    0 < deliveries final.delivered shipment.imprints ∨ ∃ later, Underway shipment since later final := by
  have limits := (moved.settings kept.valid).1
  cases moved with
  | posted => exact .inr ⟨seen, underway.awaiting, underway.missing, underway.noticed⟩
  | idle => exact .inr ⟨seen, underway.awaiting, underway.missing, underway.noticed⟩
  | collected =>
    exact .inr ⟨seen, underway.awaiting.besides rfl (timely _ rfl) (.inr rfl), underway.missing, underway.noticed⟩
  | @took _ now _ turn data len decoded cache member read passes decoding =>
    by_cases own : imprint (data.take len) ∈ shipment.imprints
    · obtain ⟨range, ranged, same⟩ := Shipment.mem_imprints.mp own
      rcases underway.arrive willing (timely now rfl) ranged ⟨same.symm, passes.headed⟩ decoding with
        delivered | ⟨awaiting, missing⟩
      · refine .inl ?_
        dsimp only
        rw [deliveries_append]
        omega
      · refine .inr ⟨seen.insert range, by rw [limits]; exact awaiting, missing, ?_⟩
        intro other listed arrived
        rw [Link.arrivals, List.map_append] at arrived
        rcases List.mem_append.mp arrived with before | new
        · exact List.mem_insert_of_mem (underway.noticed other listed before)
        · rw [List.map_singleton, List.mem_singleton, ← same] at new
          rw [Shipment.imprint_injective listed ranged new]
          exact List.mem_insert_self
    · have cell := kept.cell_besides known passes.headed (kept.arrival (possible turn member data read) passes)
        decoding own
      refine .inr ⟨seen, by rw [limits]; exact underway.awaiting.besides limits (timely now rfl) cell,
        underway.missing, ?_⟩
      intro other listed arrived
      rw [Link.arrivals, List.map_append] at arrived
      rcases List.mem_append.mp arrived with before | new
      · exact underway.noticed other listed before
      · rw [List.map_singleton, List.mem_singleton] at new
        exact absurd (new ▸ Shipment.imprint_mem listed) own

theorem LinkMove.deliveries_le {event : LinkEvent} {unnamed : link.sender.config.identification = none}
    (moved : LinkMove crc32c link unnamed event final) (imprints : List (List UInt8)) :
    deliveries link.delivered imprints ≤ deliveries final.delivered imprints := by
  cases moved with
  | posted => exact Nat.le_refl _
  | idle => exact Nat.le_refl _
  | collected => exact Nat.le_refl _
  | took =>
    dsimp only
    rw [deliveries_append]
    exact Nat.le_add_right _ _

/-- Along a timely run the shipment stays underway until its payload is delivered. -/
theorem Underway.run {events : List LinkEvent} (runs : Link.Runs crc32c events link final) (kept : Kept fleet link)
    {id : UInt32} (known : fleet id = some shipment) (willing : Willing shipment link)
    (timely : ∀ event ∈ events, ∀ now, event.instant? = some now →
      now - since < min link.receiver.cache.limits.timeout Limits.reassemblyTimeoutMax)
    (progress : 0 < deliveries link.delivered shipment.imprints ∨ ∃ seen, Underway shipment since seen link) :
    ∃ grown : Fleet crc32c addrs, fleet.Within grown ∧ Kept grown final ∧
      (0 < deliveries final.delivered shipment.imprints ∨ ∃ seen, Underway shipment since seen final) := by
  induction runs generalizing fleet with
  | done => exact ⟨fleet, fun _ _ same => same, kept, progress⟩
  | @next event events link middle final possible stepped rest ih =>
    obtain ⟨after, executed, moved⟩ := step_moved crc32c link kept.unnamed event
    cases executed.symm.trans stepped
    obtain ⟨grown, within, next⟩ := kept.moved possible moved
    have settings := moved.settings kept.valid
    have advanced : 0 < deliveries middle.delivered shipment.imprints ∨
        ∃ seen, Underway shipment since seen middle := by
      rcases progress with delivered | ⟨seen, underway⟩
      · exact .inl (Nat.lt_of_lt_of_le delivered (moved.deliveries_le _))
      · exact underway.step kept known willing possible moved (timely event List.mem_cons_self)
    obtain ⟨last, beyond, lastKept, finished⟩ := ih next (within _ _ known) (willing.moved settings) (by
      intro later listed
      rw [settings.1]
      exact timely later (List.mem_cons_of_mem _ listed)) advanced
    exact ⟨last, fun id other found => beyond id other (within id other found), lastKept, finished⟩

theorem Logged.shipped {posting : Posting} (logged : Logged fleet posting) (several : 2 ≤ posting.datagrams.length) :
    ∃ id shipment, fleet id = some shipment ∧ shipment.payload = posting.payload ∧
      shipment.options = posting.options ∧ posting.datagrams = shipment.datagrams := by
  cases logged with
  | nothing none =>
    rw [none] at several
    exact absurd several (by simp)
  | whole _ _ _ single =>
    rw [single] at several
    exact absurd several (by simp)
  | split named payload options datagrams => exact ⟨_, _, named, payload, options, datagrams⟩

theorem Kept.conveyed (kept : Kept fleet link) {id : UInt32} (known : fleet id = some shipment)
    (delivered : 0 < deliveries link.delivered shipment.imprints) :
    ∃ datagram received, (datagram, received) ∈ link.delivered ∧ imprint datagram ∈ shipment.imprints ∧
      received.data = shipment.payload ∧
      received.options =
        reportableOptions crc32c shipment.payload (Api.sentOptions crc32c shipment.payload shipment.options) := by
  obtain ⟨⟨datagram, received⟩, listed, caused⟩ := List.countP_pos_iff.mp delivered
  have inside : imprint datagram ∈ shipment.imprints := List.contains_iff_mem.mp caused
  refine ⟨datagram, received, listed, inside, ?_⟩
  rcases kept.origin _ listed with apart | ⟨posting, posted, member, payload, faithful, rfl⟩
  · exact absurd inside (Shipment.not_mem_apart apart)
  · cases (kept.logged posting posted).imprinted member with
    | whole accepted serialized sent _ same =>
      rw [same] at inside
      exact absurd inside (Shipment.not_mem_whole sent accepted serialized)
    | @split otherId other otherKnown samePayload sameOptions imprints _ _ _ =>
      rw [imprints] at member
      have same := Shipment.same_identification inside member
      rw [kept.named id shipment known, kept.named otherId other otherKnown] at same
      rw [same, otherKnown, Option.some.injEq] at known
      rw [← samePayload, ← sameOptions, known] at faithful
      exact ⟨faithful.data, faithful.visible⟩

/-- A fragmented send whose datagrams all arrive is delivered. The first of them finds
room in the cache; the others arrive in any order, any number of times, before the
partial expires, with any other events of the link between them. -/
theorem link_delivers_complete_send {before events : List LinkEvent} {start link middle final : Link}
    (fresh : Fresh start) (reached : Link.Runs crc32c before start link)
    {posting : Posting} (posted : posting ∈ link.ledger) (several : 2 ≤ posting.datagrams.length)
    {body : List UInt8} (serialized : Api.optionsBody crc32c posting.payload posting.options = .ok body)
    (small : sentLen posting.payload.length body.length ≤ 65535)
    (size : link.sender.config.peer.maxReassembledSize.toNat ≤ link.receiver.cache.limits.maxReassembledSize)
    (segments : link.sender.config.peer.maxSegments.toNat ≤ link.receiver.cache.limits.maxSegments)
    (undropped : link.receiver.policy.dropAllOptionBearing = false)
    (unrequired : link.receiver.policy.requiredOptions = [])
    (unseen : ∀ print ∈ posting.imprints, print ∉ link.arrivals)
    (room : link.receiver.cache.len < link.receiver.cache.limits.maxPendingPartials)
    {call : ReceiveCall} {since : Nat} {first : List UInt8} (possible : (LinkEvent.recv call since).Possible link)
    (stepped : link.step crc32c (.recv call since) = .ok middle) (opens : middle.arrived = link.arrived ++ [first])
    (own : imprint first ∈ posting.imprints) (runs : Link.Runs crc32c events middle final)
    (timely : ∀ event ∈ events, ∀ now, event.instant? = some now →
      now - since < min link.receiver.cache.limits.timeout Limits.reassemblyTimeoutMax)
    (all : ∀ print ∈ posting.imprints, print ∈ final.arrivals) :
    ∃ datagram received, (datagram, received) ∈ final.delivered ∧ imprint datagram ∈ posting.imprints ∧
      received.data = posting.payload ∧
      received.options =
        reportableOptions crc32c posting.payload (Api.sentOptions crc32c posting.payload posting.options) := by
  obtain ⟨fleet, kept⟩ := (Fresh.kept fresh).run reached
  obtain ⟨id, shipment, known, samePayload, sameOptions, sameDatagrams⟩ := (kept.logged posting posted).shipped several
  have sameImprints : posting.imprints = shipment.imprints := congrArg (List.map imprint) sameDatagrams
  rw [sameImprints] at own all unseen ⊢
  rw [← samePayload, ← sameOptions] at serialized ⊢
  rw [← samePayload] at small
  cases serialized.symm.trans shipment.serialized
  rw [← kept.assumed id shipment known] at size segments
  have willing : Willing shipment link := ⟨shipment.splitting_of_le size segments,
    Nat.lt_succ_of_le (Shipment.announcedLen ▸ small), undropped, unrequired⟩
  obtain ⟨after, executed, moved⟩ := step_moved crc32c link kept.unnamed (.recv call since)
  cases executed.symm.trans stepped
  have settings := moved.settings kept.valid
  obtain ⟨grown, within, next⟩ := kept.moved possible moved
  have underway := kept.begins known willing unseen room moved opens own
  obtain ⟨last, beyond, lastKept, finished⟩ := Underway.run runs next (within _ _ known) (willing.moved settings) (by
    rw [settings.1]
    exact timely) (.inr underway)
  apply lastKept.conveyed (beyond _ _ (within _ _ known))
  rcases finished with delivered | ⟨seen, stuck⟩
  · exact delivered
  · exact absurd all stuck.incomplete

end

/-- The last fragment arrives first; the others follow, the last one again among them. -/
private def lateFirst : List UInt8 := hop (linkDatagrams.getLastD [])

private def lateRest : List LinkEvent :=
  (lateFirst :: linkDatagrams.map hop).map fun datagram => .recv (readingOf datagram) 9

private theorem lateArrival_replayed :
    ((openLink.replay (fun _ => 0) [.send linkPayload linkOptions fun _ => .ok 56]).any fun link =>
      (link.replay (fun _ => 0) [.recv (readingOf lateFirst) 5]).any fun middle =>
        (middle.replay (fun _ => 0) lateRest).any fun final =>
          decide (link.ledger.map (fun posting => (posting.payload, posting.options, posting.datagrams)) =
            [(linkPayload, linkOptions, linkDatagrams)]) &&
          decide (link.sender.config.peer = .defaultIpv4 ∧ link.receiver.cache.limits = .default ∧
            link.receiver.policy = ⟨[], false, true⟩ ∧ link.arrived = [] ∧ link.receiver.cache.len = 0 ∧
            middle.arrived = [lateFirst]) &&
          (linkDatagrams.map imprint).all fun print => decide (print ∈ final.arrivals)) = true := by
  decide +kernel

/-- The payload is delivered although its last fragment came first and came twice, all with rewritten headers. -/
theorem link_delivers_late_arrival :
    ∃ link middle final posting body,
      Link.Runs (fun _ => 0) [.send linkPayload linkOptions fun _ => .ok 56] openLink link ∧
      posting ∈ link.ledger ∧ posting.datagrams = linkDatagrams ∧
      Api.optionsBody (fun _ => 0) posting.payload posting.options = .ok body ∧
      link.step (fun _ => 0) (.recv (readingOf lateFirst) 5) = .ok middle ∧
      Link.Runs (fun _ => 0) lateRest middle final ∧
      ∃ datagram received, (datagram, received) ∈ final.delivered ∧ imprint datagram ∈ posting.imprints ∧
        received.data = posting.payload ∧
        received.options = reportableOptions (fun _ => 0) posting.payload
          (Api.sentOptions (fun _ => 0) posting.payload posting.options) := by
  obtain ⟨link, sent, replayed⟩ := (Option.any_eq_true _ _).mp lateArrival_replayed
  obtain ⟨middle, opening, replayed⟩ := (Option.any_eq_true _ _).mp replayed
  obtain ⟨final, rest, replayed⟩ := (Option.any_eq_true _ _).mp replayed
  rw [Bool.and_eq_true, Bool.and_eq_true, decide_eq_true_eq, decide_eq_true_eq] at replayed
  obtain ⟨⟨logged, peer, limits, policy, arrived, empty, opens⟩, all⟩ := replayed
  obtain ⟨posting, _, ledger, same, nil⟩ := List.map_eq_cons_iff.mp logged
  rw [Prod.mk.injEq, Prod.mk.injEq] at same
  obtain ⟨payload, options, datagrams⟩ := same
  have posted : posting ∈ link.ledger := by simp [ledger]
  obtain ⟨body, serialized, small⟩ : ∃ body, Api.optionsBody (fun _ => 0) linkPayload linkOptions = .ok body ∧
      sentLen linkPayload.length body.length ≤ 65535 := ⟨_, rfl, by decide⟩
  rw [← payload, ← options] at serialized
  rw [← payload] at small
  have reached := Link.replay_runs _ sent
  obtain ⟨possible, stepped⟩ : (LinkEvent.recv (readingOf lateFirst) 5).Possible link ∧
      link.step (fun _ => 0) (.recv (readingOf lateFirst) 5) = .ok middle := by
    cases Link.replay_runs _ opening with
    | next possible stepped rest =>
      cases rest
      exact ⟨possible, stepped⟩
  have runs := Link.replay_runs _ rest
  refine ⟨link, middle, final, posting, body, reached, posted, datagrams, serialized, stepped, runs, ?_⟩
  apply link_delivers_complete_send openLink_fresh reached posted (by rw [datagrams]; decide) serialized small
    (by rw [peer, limits]; decide) (by rw [peer, limits]; decide) (by rw [policy]) (by rw [policy])
    (by simp [Link.arrivals, arrived]) (by rw [empty, limits]; decide) possible stepped (by rw [opens, arrived]; rfl)
    (by rw [Posting.imprints, datagrams]; decide +kernel) runs
  · intro event listed now instant
    obtain ⟨datagram, _, rfl⟩ := List.mem_map.mp listed
    cases instant
    rw [limits]
    decide
  · rw [Posting.imprints, datagrams]
    exact fun print member => of_decide_eq_true (List.all_eq_true.mp all print member)

end UdpOptions.Proofs
