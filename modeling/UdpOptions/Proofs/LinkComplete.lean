import UdpOptions.Proofs.LinkAccounts

/-! Complete delivery. Between two peers whose limits agree, a network that loses and
repeats nothing delivers every send exactly once, in whatever order the datagrams
arrive and whatever the way makes of their headers, as long as they arrive within the
lifetime of a partial and the receiver may hold a partial for each send. -/

namespace UdpOptions.Proofs
open Library Model

section
variable {crc32c : List UInt8 → UInt32} {addrs : Api.DatagramAddrs} {fleet : Fleet crc32c addrs} {link final : Link}

/-- The receiver takes whatever the sender may build for it. -/
structure Accepting (link : Link) : Prop where
  size : link.sender.config.peer.maxReassembledSize.toNat ≤ link.receiver.cache.limits.maxReassembledSize
  packet : link.sender.config.peer.maxReassembledSize.toNat ≤ 65515
  segments : link.sender.config.peer.maxSegments.toNat ≤ link.receiver.cache.limits.maxSegments
  policy : link.receiver.policy = ⟨[], false, false⟩

theorem Accepting.willing (accepting : Accepting link) (kept : Kept fleet link) {id : UInt32}
    {shipment : Shipment crc32c addrs} (known : fleet id = some shipment) : Willing shipment link := by
  have assumed := kept.assumed id shipment known
  have size := shipment.size
  have packet := accepting.packet
  have tail : shipment.tail.length = (Split.reassembledTail shipment.payload shipment.body).length := rfl
  refine ⟨shipment.splitting_of_le ?_ ?_, ?_, ?_, ?_⟩
  · rw [assumed]
    exact accepting.size
  · rw [assumed]
    exact accepting.segments
  · rw [assumed] at size
    omega
  · rw [accepting.policy]
  · rw [accepting.policy]

theorem LinkMove.sender_config {event : LinkEvent} {unnamed : link.sender.config.identification = none}
    (moved : LinkMove crc32c link unnamed event final) : final.sender.config = link.sender.config := by
  cases moved <;> rfl

theorem Accepting.moved (accepting : Accepting link) (valid : CacheValid link.receiver.cache) {event : LinkEvent}
    {unnamed : link.sender.config.identification = none} (moved : LinkMove crc32c link unnamed event final) :
    Accepting final := by
  obtain ⟨limits, policy⟩ := moved.settings valid
  have config := moved.sender_config
  refine ⟨?_, ?_, ?_, policy.trans accepting.policy⟩
  · rw [config, limits]
    exact accepting.size
  · rw [config]
    exact accepting.packet
  · rw [config, limits]
    exact accepting.segments

/-- Every partial belongs to a fragmented send. -/
def Homely (fleet : Fleet crc32c addrs) (cache : ReassemblyCache) : Prop :=
  ∀ key held, cache.partials.lookup key = some held → ∃ id shipment, fleet id = some shipment ∧ key = flowKey addrs id

theorem Homely.gc {cache : ReassemblyCache} (homely : Homely fleet cache) (now : Nat) :
    Homely fleet (cache.gc now) := by
  intro key held found
  rw [lookup_gc, Option.filter_eq_some_iff] at found
  exact homely key held found.1

def Fleet.shippedAt (fleet : Fleet crc32c addrs) (key : FragKey) : List (List UInt8) :=
  ((fleet key.identification).map Shipment.imprints).getD []

theorem Kept.posted_once (kept : Kept fleet link) {id : UInt32} {shipment : Shipment crc32c addrs}
    (known : fleet id = some shipment) : shipment.imprints ∈ link.ledger.map Posting.imprints := by
  apply List.count_pos_iff.mp
  rw [kept.single id shipment known]
  exact Nat.zero_lt_one

theorem Kept.same_id (kept : Kept fleet link) {id other : UInt32} {shipment rival : Shipment crc32c addrs}
    (known : fleet id = some shipment) (rivalKnown : fleet other = some rival)
    (same : shipment.imprints = rival.imprints) : id = other := by
  obtain ⟨print, member⟩ := shipment.exists_imprint
  have named := Shipment.same_identification member (same ▸ member)
  rwa [kept.named id shipment known, kept.named other rival rivalKnown] at named

theorem Kept.room (kept : Kept fleet link) (homely : Homely fleet link.receiver.cache) {id : UInt32}
    {shipment : Shipment crc32c addrs} (known : fleet id = some shipment)
    (unseen : ∀ print ∈ shipment.imprints, print ∉ link.arrivals) :
    link.receiver.cache.len < link.ledger.length := by
  have absent := kept.absent known unseen
  generalize keysOf : link.receiver.cache.partials.keys = keys
  have owned : ∀ key ∈ keys, ∃ id shipment, fleet id = some shipment ∧ key = flowKey addrs id ∧
      fleet.shippedAt key = shipment.imprints := by
    intro key listed
    rw [← keysOf] at listed
    obtain ⟨held, found⟩ := Option.isSome_iff_exists.mp (AList.lookup_isSome.mpr listed)
    obtain ⟨owner, shipped, owns, rfl⟩ := homely key held found
    refine ⟨owner, shipped, owns, rfl, ?_⟩
    rw [Fleet.shippedAt, flowKey, owns]
    rfl
  have distinct : (keys.map fleet.shippedAt).Nodup := by
    apply List.Nodup.map_on _ (keysOf ▸ AList.keys_nodup _)
    intro key listed other otherListed same
    obtain ⟨_, _, owns, rfl, imprints⟩ := owned key listed
    obtain ⟨_, _, otherOwns, rfl, otherImprints⟩ := owned other otherListed
    rw [imprints, otherImprints] at same
    rw [kept.same_id owns otherOwns same]
  have fresh : shipment.imprints ∉ keys.map fleet.shippedAt := by
    intro listed
    obtain ⟨key, keyListed, same⟩ := List.mem_map.mp listed
    obtain ⟨owner, _, owns, rfl, imprints⟩ := owned key keyListed
    rw [← kept.same_id known owns (same.symm.trans imprints), ← keysOf] at keyListed
    have found := AList.lookup_isSome.mpr keyListed
    rw [absent] at found
    cases found
  have covered : shipment.imprints :: keys.map fleet.shippedAt ⊆ link.ledger.map Posting.imprints := by
    intro imprints listed
    rcases List.mem_cons.mp listed with rfl | shipped
    · exact kept.posted_once known
    · obtain ⟨key, keyListed, rfl⟩ := List.mem_map.mp shipped
      obtain ⟨_, _, owns, _, same⟩ := owned key keyListed
      rw [same]
      exact kept.posted_once owns
  have bounded := (List.subperm_of_subset (List.nodup_cons.mpr ⟨fresh, distinct⟩) covered).length_le
  rw [List.length_cons, List.length_map, List.length_map, ← keysOf, ← FiniteMap.size_eq_keys] at bounded
  exact bounded

def Whole (crc32c : List UInt8 → UInt32) (addrs : Api.DatagramAddrs) (opened : Opened) : Prop :=
  ∃ payload options body, Api.validateSendOptions options = .ok () ∧
    Api.optionsBody crc32c payload options = .ok body ∧
    Sent opened addrs.src addrs.dst addrs.srcPort addrs.dstPort payload body

inductive Served (shipment : Shipment crc32c addrs) (opening : Nat) (link : Link) : Prop where
  | delivered (handed : 0 < deliveries link.delivered shipment.imprints)
  | awaited (unseen : ∀ print ∈ shipment.imprints, print ∉ link.arrivals)
  | underway {since : Nat} {seen : List ChunkRange} (begun : opening ≤ since)
      (waits : Underway shipment since seen link)

structure Serving (fleet : Fleet crc32c addrs) (opening : Nat) (link : Link) : Prop where
  accepting : Accepting link
  homely : Homely fleet link.receiver.cache
  served : ∀ id shipment, fleet id = some shipment → Served shipment opening link
  wholes : ∀ opened, Whole crc32c addrs opened →
    link.arrivals.count (imprint opened.datagram) ≤ deliveries link.delivered [imprint opened.datagram]

theorem Homely.took {cache : ReassemblyCache} (homely : Homely fleet link.receiver.cache) (kept : Kept fleet link)
    {datagram : List UInt8} {now : Nat} (headed : Headed datagram) {posting : Posting} (posted : posting ∈ link.ledger)
    (member : imprint datagram ∈ posting.imprints) {decoded : Except RecvError Api.ApiDelivery}
    (decoding : Api.decodeDatagram crc32c datagram link.receiver.cache now link.receiver.policy =
      .ok (decoded, cache)) : Homely fleet cache := by
  rcases decode_effect decoding with ⟨rfl, _⟩ | ⟨result, processed, _⟩
  · exact homely
  cases (kept.logged posting posted).imprinted member with
  | @whole opened _ accepted serialized sent _ same =>
    have relays : Relays opened.datagram datagram := ⟨same, headed⟩
    obtain ⟨delivered, _, handles⟩ := sent.processed_faithful accepted serialized
    rw [relays.processed sent.opening, handles] at processed
    cases processed
    exact homely
  | @split id shipment known _ _ _ range listed same =>
    have relays : Relays (shipment.datagramOf range) datagram := ⟨same, headed⟩
    rw [relays.processed (shipment.sent range listed).opening] at processed
    obtain ⟨left, remaining⟩ := kept.tallied_gc now known
    rw [← kept.named id shipment known] at remaining
    obtain ⟨delivery, after, executed, arrives⟩ := Shipment.receive_arrives listed remaining.holds
    cases executed.symm.trans processed
    intro key held found
    by_cases here : key = shipment.key
    · exact ⟨id, shipment, known, here.trans (congrArg (flowKey addrs) (kept.named id shipment known))⟩
    · rw [arrives.besides here] at found
      exact homely.gc now key held found

theorem Whole.handed {opened : Opened} (whole : Whole crc32c addrs opened) {datagram : List UInt8}
    (relays : Relays opened.datagram datagram) {cache after : ReassemblyCache} {now : Nat}
    {decoded : Except RecvError Api.ApiDelivery}
    (decoding : Api.decodeDatagram crc32c datagram cache now ⟨[], false, false⟩ = .ok (decoded, after)) :
    deliveries (deliveredOf datagram decoded) [imprint opened.datagram] = 1 := by
  obtain ⟨payload, options, body, accepted, serialized, sent⟩ := whole
  obtain ⟨delivered, _, handles⟩ := sent.processed_faithful accepted serialized
  have processed := (relays.processed sent.opening crc32c cache now).trans (handles cache now)
  cases (decodeDatagram_undropped rfl processed).symm.trans decoding
  simp [passedOn, Api.applyPolicy, Api.missingRequiredOption, deliveredOf, deliveries, relays.same]

/-- An event brings a send forward or leaves it where it is. -/
theorem Served.moved {shipment : Shipment crc32c addrs} {opening : Nat} (served : Served shipment opening link)
    (kept : Kept fleet link) {id : UInt32} (known : fleet id = some shipment) (willing : Willing shipment link)
    (room : (∀ print ∈ shipment.imprints, print ∉ link.arrivals) →
      link.receiver.cache.len < link.receiver.cache.limits.maxPendingPartials)
    {event : LinkEvent} (possible : event.Possible link) (moved : LinkMove crc32c link kept.unnamed event final)
    (timely : ∀ now, event.instant? = some now → opening ≤ now ∧
      now < opening + min link.receiver.cache.limits.timeout Limits.reassemblyTimeoutMax) :
    Served shipment opening final := by
  cases served with
  | delivered handed => exact .delivered (Nat.lt_of_lt_of_le handed (moved.deliveries_le _))
  | awaited unseen =>
    have move := moved
    cases moved with
    | posted => exact .awaited unseen
    | idle => exact .awaited unseen
    | collected => exact .awaited unseen
    | @took _ now _ _ data len _ _ _ _ _ _ =>
      by_cases own : imprint (data.take len) ∈ shipment.imprints
      · obtain ⟨seen, waits⟩ := kept.begins known willing unseen (room unseen) move rfl own
        exact .underway (timely now rfl).1 waits
      · refine .awaited ?_
        intro print member arrived
        rw [Link.arrivals, List.map_append] at arrived
        rcases List.mem_append.mp arrived with before | new
        · exact unseen print member before
        · exact own (List.mem_singleton.mp new ▸ member)
  | @underway since seen begun waits =>
    have lively : ∀ now, event.instant? = some now →
        now - since < min link.receiver.cache.limits.timeout Limits.reassemblyTimeoutMax := by
      intro now instant
      have bounds := timely now instant
      omega
    rcases waits.step kept known willing possible moved lively with handed | ⟨later, still⟩
    · exact .delivered handed
    · exact .underway begun still

theorem LinkMove.grows {event : LinkEvent} {unnamed : link.sender.config.identification = none}
    (moved : LinkMove crc32c link unnamed event final) :
    link.arrived ⊆ final.arrived ∧ link.ledger.length ≤ final.ledger.length := by
  cases moved with
  | posted => exact ⟨List.Subset.refl _, by simp⟩
  | idle => exact ⟨List.Subset.refl _, Nat.le_refl _⟩
  | took => exact ⟨List.subset_append_left _ _, Nat.le_refl _⟩
  | collected => exact ⟨List.Subset.refl _, Nat.le_refl _⟩

theorem Link.Runs.grows {events : List LinkEvent} (runs : Link.Runs crc32c events link final)
    (unnamed : link.sender.config.identification = none) :
    link.arrived ⊆ final.arrived ∧ link.ledger.length ≤ final.ledger.length := by
  induction runs with
  | done => exact ⟨List.Subset.refl _, Nat.le_refl _⟩
  | @next event events link middle final possible stepped rest ih =>
    obtain ⟨after, executed, moved⟩ := step_moved crc32c link unnamed event
    cases executed.symm.trans stepped
    have step := moved.grows
    have further := ih (moved.sender_config ▸ unnamed)
    exact ⟨List.Subset.trans step.1 further.1, Nat.le_trans step.2 further.2⟩

theorem Serving.moved {opening : Nat} (serving : Serving fleet opening link) (kept : Kept fleet link)
    {grown : Fleet crc32c addrs} (within : fleet.Within grown) (next : Kept grown final) {event : LinkEvent}
    (possible : event.Possible link) (moved : LinkMove crc32c link kept.unnamed event final)
    (own : ∀ datagram ∈ final.arrived, ¬ Apart addrs datagram)
    (capacity : link.ledger.length ≤ link.receiver.cache.limits.maxPendingPartials)
    (timely : ∀ now, event.instant? = some now → opening ≤ now ∧
      now < opening + min link.receiver.cache.limits.timeout Limits.reassemblyTimeoutMax) :
    Serving grown opening final := by
  have grows := moved.grows
  refine ⟨serving.accepting.moved kept.valid moved, ?_, ?_, ?_⟩
  · have same : Homely fleet final.receiver.cache := by
      cases moved with
      | posted => exact serving.homely
      | idle => exact serving.homely
      | collected => exact serving.homely.gc _
      | @took _ now _ turn data len _ _ member read passes decoding =>
        obtain ⟨posting, posted, built⟩ := (kept.arrival (possible turn member data read) passes).resolve_left
          (own _ (List.mem_append_right _ (List.mem_singleton_self _)))
        exact serving.homely.took kept passes.headed posted built decoding
    intro key held found
    obtain ⟨id, shipment, known, here⟩ := same key held found
    exact ⟨id, shipment, within id shipment known, here⟩
  · intro id shipment known
    cases before : fleet id with
    | none =>
      have fresh : fleet shipment.identification = none := (next.named id shipment known).symm ▸ before
      refine .awaited ?_
      intro print member arrived
      cases moved with
      | posted => exact kept.unarrived fresh print arrived member
      | idle => exact kept.unarrived fresh print arrived member
      | collected => exact kept.unarrived fresh print arrived member
      | @took _ _ _ turn data _ _ _ listed read passes _ =>
        rw [Link.arrivals, List.map_append] at arrived
        rcases List.mem_append.mp arrived with before | new
        · exact kept.unarrived fresh print before member
        · rw [List.mem_singleton.mp new] at member
          rcases kept.arrival (possible turn listed data read) passes with apart | ⟨posting, posted, inside⟩
          · exact Shipment.not_mem_apart apart member
          · exact kept.unposted fresh posted inside member
    | some earlier =>
      cases (within id earlier before).symm.trans known
      refine (serving.served id shipment before).moved kept before (serving.accepting.willing kept before) ?_ possible
        moved timely
      intro unseen
      exact Nat.lt_of_lt_of_le (kept.room serving.homely before unseen) capacity
  · intro opened whole
    have earlier := serving.wholes opened whole
    cases moved with
    | posted => exact earlier
    | idle => exact earlier
    | collected => exact earlier
    | @took _ now _ _ data len decoded _ _ _ passes decoding =>
      rw [Link.arrivals, List.map_append, List.count_append, deliveries_append, List.map_singleton]
      by_cases same : imprint (data.take len) = imprint opened.datagram
      · rw [serving.accepting.policy] at decoding
        rw [whole.handed ⟨same, passes.headed⟩ decoding, same, List.count_singleton_self]
        exact Nat.succ_le_succ earlier
      · have other : [imprint (data.take len)].count (imprint opened.datagram) = 0 :=
          List.count_eq_zero.mpr (by simpa using Ne.symm same)
        exact Nat.le_trans (Nat.le_of_eq (by rw [other]; rfl)) (Nat.le_trans earlier (Nat.le_add_right _ _))

/-- Along a run on which only the flow's own datagrams arrive, in time, every send is served. -/
theorem Serving.run {opening : Nat} {events : List LinkEvent} (runs : Link.Runs crc32c events link final)
    (kept : Kept fleet link) (serving : Serving fleet opening link)
    (own : ∀ datagram ∈ final.arrived, ¬ Apart addrs datagram)
    (capacity : final.ledger.length ≤ link.receiver.cache.limits.maxPendingPartials)
    (timely : ∀ event ∈ events, ∀ now, event.instant? = some now → opening ≤ now ∧
      now < opening + min link.receiver.cache.limits.timeout Limits.reassemblyTimeoutMax) :
    ∃ grown : Fleet crc32c addrs, Kept grown final ∧ Serving grown opening final := by
  induction runs generalizing fleet with
  | done => exact ⟨fleet, kept, serving⟩
  | @next event events link middle final possible stepped rest ih =>
    obtain ⟨after, executed, moved⟩ := step_moved crc32c link kept.unnamed event
    cases executed.symm.trans stepped
    obtain ⟨grown, within, next⟩ := kept.moved possible moved
    have limits := (moved.settings kept.valid).1
    have later := rest.grows next.unnamed
    have advanced := serving.moved kept within next possible moved (fun datagram listed => own datagram (later.1 listed))
      (Nat.le_trans moved.grows.2 (Nat.le_trans later.2 capacity)) (timely event List.mem_cons_self)
    apply ih next advanced own
    · rw [limits]
      exact capacity
    · intro other listed
      rw [limits]
      exact timely other (List.mem_cons_of_mem _ listed)

/-- A send whose datagrams were all written and all arrived was delivered as often as it was made. -/
theorem Serving.counted {opening : Nat} (serving : Serving fleet opening link) (kept : Kept fleet link)
    (written : link.wire = link.ledger.flatMap Posting.datagrams) (complete : link.arrivals.Perm link.imprints)
    {posting : Posting} (posted : posting ∈ link.ledger) {print : List UInt8} (member : print ∈ posting.imprints) :
    (link.ledger.map Posting.imprints).count posting.imprints ≤ deliveries link.delivered posting.imprints := by
  have printed : link.imprints = link.ledger.flatMap Posting.imprints := by
    rw [Link.imprints, written, List.map_flatMap]
    rfl
  have arrived : ∀ print ∈ posting.imprints, print ∈ link.arrivals := by
    intro print inside
    rw [complete.mem_iff, printed]
    exact List.mem_flatMap_of_mem posted inside
  cases (kept.logged posting posted).imprinted member with
  | @whole opened body accepted serialized sent single _ =>
    rw [single]
    calc (link.ledger.map Posting.imprints).count [imprint opened.datagram]
        ≤ (link.ledger.flatMap Posting.imprints).count (imprint opened.datagram) :=
          le_count_flatMap (List.mem_singleton_self _) link.ledger
      _ = link.arrivals.count (imprint opened.datagram) := by rw [← printed, complete.count_eq]
      _ ≤ deliveries link.delivered [imprint opened.datagram] :=
          serving.wholes opened ⟨posting.payload, posting.options, body, accepted, serialized, sent⟩
  | @split id shipment known _ _ imprints _ _ _ =>
    rw [imprints] at arrived ⊢
    rw [kept.single id shipment known]
    cases serving.served id shipment known with
    | delivered handed => exact handed
    | awaited unseen =>
      obtain ⟨print, inside⟩ := shipment.exists_imprint
      exact absurd (arrived print inside) (unseen print inside)
    | underway _ waits => exact absurd arrived waits.incomplete

theorem Kept.delivered_arrived (kept : Kept fleet link) {entry : List UInt8 × Api.ReceivedDatagram}
    (listed : entry ∈ link.delivered) : imprint entry.1 ∈ link.arrivals := by
  have caused : 0 < deliveries link.delivered [imprint entry.1] := List.countP_pos_iff.mpr ⟨entry, listed, by simp⟩
  exact List.count_pos_iff.mp (Nat.lt_of_lt_of_le caused (kept.once (imprint entry.1)))

theorem Kept.own_all (kept : Kept fleet link) (complete : ∀ print ∈ link.arrivals, print ∈ link.imprints) :
    link.ownDeliveries = link.delivered := by
  apply List.filter_eq_self.mpr
  intro entry listed
  exact List.contains_iff_mem.mpr (complete _ (kept.delivered_arrived listed))

theorem Fresh.serving {start : Link} (fresh : Fresh start) (accepting : Accepting start) (opening : Nat) :
    Serving (fun _ => none : Fleet crc32c start.sender.addrs) opening start := by
  obtain ⟨limits, empty⟩ := fresh.empty
  refine ⟨accepting, ?_, ?_, ?_⟩
  · intro key held found
    rw [empty] at found
    cases found
  · intro id shipment known
    cases known
  · intro opened _
    rw [Link.arrivals, fresh.arrived]
    exact Nat.zero_le _

theorem Fresh.serves {events : List LinkEvent} {start : Link} (fresh : Fresh start) (accepting : Accepting start)
    (runs : Link.Runs crc32c events start final) (complete : final.arrivals.Perm final.imprints)
    (capacity : final.ledger.length ≤ start.receiver.cache.limits.maxPendingPartials) {opening : Nat}
    (timely : ∀ event ∈ events, ∀ now, event.instant? = some now → opening ≤ now ∧
      now < opening + min start.receiver.cache.limits.timeout Limits.reassemblyTimeoutMax) :
    ∃ fleet : Fleet crc32c start.sender.addrs, Kept fleet final ∧ Serving fleet opening final := by
  refine (fresh.serving accepting opening).run runs fresh.kept ?_ capacity timely
  intro datagram listed apart
  obtain ⟨fleet, kept⟩ := (@Fresh.kept crc32c _ fresh).run runs
  obtain ⟨posting, posted, member⟩ := kept.carried (complete.mem_iff.mp (List.mem_map_of_mem listed))
  exact kept.not_apart posted member apart

/-- Every send that put something on the wire is handed up, and nothing else. -/
theorem Serving.exchange {opening : Nat} (serving : Serving fleet opening link) (kept : Kept fleet link)
    (written : link.wire = link.ledger.flatMap Posting.datagrams) (complete : link.arrivals.Perm link.imprints) :
    (link.delivered.map fun entry => entry.2.data).Perm (link.filled.map Posting.payload) := by
  have within : link.wire.Sublist (link.ledger.flatMap Posting.datagrams) := written ▸ List.Sublist.refl _
  have covered := kept.own_covered within fun print _ => Nat.le_of_eq (complete.count_eq print)
  rw [kept.own_all fun print => complete.mem_iff.mp] at covered
  have served : (link.filled.map Posting.imprints).Subperm (link.delivered.map fun entry => link.sendOf entry.1) := by
    apply List.subperm_ext_iff.mpr
    intro imprints listed
    obtain ⟨posting, filled, rfl⟩ := List.mem_map.mp listed
    have posted := (List.mem_filter.mp filled).1
    obtain ⟨print, member⟩ := Link.filled_imprint filled
    calc (link.filled.map Posting.imprints).count posting.imprints
        ≤ (link.ledger.map Posting.imprints).count posting.imprints := (List.filter_sublist.map _).count_le _
      _ ≤ deliveries link.delivered posting.imprints := serving.counted kept written complete posted member
      _ ≤ (link.delivered.map fun entry => link.sendOf entry.1).count posting.imprints := by
          rw [List.count, List.countP_map]
          apply List.countP_mono_left
          intro entry _ inside
          exact beq_iff_eq.mpr (kept.sendOf_eq posted (List.contains_iff_mem.mp inside))
  apply covered.perm_of_length_le
  simpa using served.length_le

/-- If everything that was built is written, and arrives once and in time, then a receiver
that takes whatever the sender may build hands up exactly the payloads of the sends that
succeeded. -/
theorem link_delivers_everything {events : List LinkEvent} {start final : Link} (fresh : Fresh start)
    (accepting : Accepting start) (runs : Link.Runs crc32c events start final)
    (written : final.wire = final.ledger.flatMap Posting.datagrams) (complete : final.arrivals.Perm final.imprints)
    (capacity : final.ledger.length ≤ start.receiver.cache.limits.maxPendingPartials) {opening : Nat}
    (timely : ∀ event ∈ events, ∀ now, event.instant? = some now → opening ≤ now ∧
      now < opening + min start.receiver.cache.limits.timeout Limits.reassemblyTimeoutMax) :
    (final.delivered.map fun entry => entry.2.data).Perm (final.filled.map Posting.payload) := by
  obtain ⟨fleet, kept, serving⟩ := fresh.serves accepting runs complete capacity timely
  exact serving.exchange kept written complete

end

/-- The sample peers with a receiver that asks for no options and no OCS. -/
private def lenientLink : Link :=
  { openLink with receiver := { openLink.receiver with policy := ⟨[], false, false⟩ } }

private theorem lenientLink_fresh : Fresh lenientLink := { openLink_fresh with }

private theorem lenientLink_accepting : Accepting lenientLink := ⟨by decide, by decide, by decide, rfl⟩

private def shortDatagrams : List (List UInt8) :=
  match Api.buildOutgoingDatagrams (fun _ => 0) linkAddrs [9] ⟨[], false⟩ ⟨56, .defaultIpv4, .auto, none⟩ with
  | .ok (.ok datagrams) => datagrams
  | _ => []

/-- A short send is made and arrives between the fragments of a long one, which arrive in reverse order. -/
private def mixedEvents : List LinkEvent :=
  .send linkPayload linkOptions (fun _ => .ok 56) ::
    (linkDatagrams.drop 1).reverse.map (fun datagram => .recv (readingOf (hop datagram)) 5) ++
    .send [9] ⟨[], false⟩ (fun _ => .ok 29) ::
    (shortDatagrams ++ linkDatagrams.take 1).map fun datagram => .recv (readingOf (hop datagram)) 9

private theorem mixedEvents_replayed :
    ((lenientLink.replay (fun _ => 0) mixedEvents).any fun link =>
      decide (link.wire = link.ledger.flatMap Posting.datagrams) && decide (link.arrivals.isPerm link.imprints) &&
        decide (link.ledger.length ≤ 2) && decide (link.filled.map Posting.payload = [linkPayload, [9]])) = true := by
  decide +kernel

/-- Both payloads are handed up, each once. -/
theorem link_delivers_mixed_sends :
    ∃ final, Link.Runs (fun _ => 0) mixedEvents lenientLink final ∧
      (final.delivered.map fun entry => entry.2.data).Perm [linkPayload, [9]] := by
  have replayed := mixedEvents_replayed
  cases known : lenientLink.replay (fun _ => 0) mixedEvents with
  | none =>
    rw [known] at replayed
    cases replayed
  | some final =>
    rw [known, Option.any_some] at replayed
    simp only [Bool.and_eq_true, decide_eq_true_eq] at replayed
    obtain ⟨⟨⟨written, complete⟩, few⟩, sent⟩ := replayed
    have runs := Link.replay_runs _ known
    have capacity : final.ledger.length ≤ lenientLink.receiver.cache.limits.maxPendingPartials :=
      Nat.le_trans few (by decide)
    have timely : ∀ event ∈ mixedEvents, ∀ now, event.instant? = some now → 5 ≤ now ∧
        now < 5 + min lenientLink.receiver.cache.limits.timeout Limits.reassemblyTimeoutMax := by
      decide +kernel
    have handed := link_delivers_everything lenientLink_fresh lenientLink_accepting runs written
      (List.isPerm_iff.mp complete) capacity timely
    rw [sent] at handed
    exact ⟨final, runs, handed⟩

end UdpOptions.Proofs
