import UdpOptions.Proofs.Link
import UdpOptions.Proofs.PipelineRuns

/-! The invariant of a link. The fragmented sends of the flow form a fleet, one
shipment for each Identification. In every reachable state the cell of a shipment
holds ranges of that shipment only, every delivery of the flow conveys a logged send,
and each delivery and each held range is paid for by an arrival of its own. -/

namespace UdpOptions.Proofs
open Library Model

/-- The datagram has an intact IPv4 header and does not open as one of the flow. -/
structure Apart (addrs : Api.DatagramAddrs) (datagram : List UInt8) : Prop where
  headed : Headed datagram
  other : ∀ opened, openDatagram datagram = .ok (.ok opened) → ¬ InFlow addrs opened

/-- How often datagrams with one of these imprints caused a delivery. -/
def deliveries (delivered : List (List UInt8 × Api.ReceivedDatagram)) (imprints : List (List UInt8)) : Nat :=
  delivered.countP fun entry => imprints.contains (imprint entry.1)

theorem deliveries_append (delivered more : List (List UInt8 × Api.ReceivedDatagram)) (imprints : List (List UInt8)) :
    deliveries (delivered ++ more) imprints = deliveries delivered imprints + deliveries more imprints :=
  List.countP_append

private theorem deliveries_eq_zero {delivered : List (List UInt8 × Api.ReceivedDatagram)} {imprints : List (List UInt8)}
    (none : ∀ entry ∈ delivered, imprint entry.1 ∉ imprints) : deliveries delivered imprints = 0 := by
  rw [deliveries, List.countP_eq_zero]
  intro entry listed
  simpa using none entry listed

private theorem deliveries_le_length (delivered : List (List UInt8 × Api.ReceivedDatagram))
    (imprints : List (List UInt8)) :
    deliveries delivered imprints ≤ delivered.length := List.countP_le_length

section
variable {crc32c : List UInt8 → UInt32} {addrs : Api.DatagramAddrs}

namespace Shipment
variable {shipment : Shipment crc32c addrs}

def imprints (shipment : Shipment crc32c addrs) : List (List UInt8) := shipment.datagrams.map imprint

theorem mem_imprints {print : List UInt8} :
    print ∈ shipment.imprints ↔ ∃ range ∈ shipment.ranges, imprint (shipment.datagramOf range) = print := by
  rw [imprints, datagrams, List.map_map, List.mem_map]
  rfl

theorem imprint_mem {range : ChunkRange} (member : range ∈ shipment.ranges) :
    imprint (shipment.datagramOf range) ∈ shipment.imprints := mem_imprints.mpr ⟨range, member, rfl⟩

private theorem mem_opened {datagram : List UInt8} (member : imprint datagram ∈ shipment.imprints)
    (headed : Headed datagram) :
    ∃ opened range, openDatagram datagram = .ok (.ok opened) ∧ InFlow addrs opened ∧ range ∈ shipment.ranges ∧
      dispositionOf crc32c opened = .fragment (rangeFrag false shipment.rdos shipment.identification range)
        (some shipment.key) [] [] .valid := by
  obtain ⟨range, listed, same⟩ := mem_imprints.mp member
  have sent := shipment.sent range listed
  have relays : Relays (shipment.openedOf range).datagram datagram := ⟨same.symm, headed⟩
  obtain ⟨again, reopening, alike⟩ := relays.opens sent.opening
  refine ⟨again, range, reopening, ?_, listed, ?_⟩
  · rw [InFlow, alike.ip, alike.udp]
    exact ⟨sent.source, sent.destination, sent.srcPort, sent.dstPort⟩
  · rw [alike.disposed (openDatagram_well sent.opening).1]
    exact dispositionOf_range crc32c sent

theorem headed_datagramOf {range : ChunkRange} (member : range ∈ shipment.ranges) :
    Headed (shipment.datagramOf range) := headed_of_opens (shipment.sent range member).opening

theorem same_identification {other : Shipment crc32c addrs} {print : List UInt8}
    (member : print ∈ shipment.imprints) (otherMember : print ∈ other.imprints) :
    shipment.identification = other.identification := by
  obtain ⟨range, listed, rfl⟩ := mem_imprints.mp member
  obtain ⟨opened, _, opening, _, _, disposed⟩ := mem_opened member (headed_datagramOf listed)
  obtain ⟨again, _, reopening, _, _, redisposed⟩ := mem_opened otherMember (headed_datagramOf listed)
  cases opening.symm.trans reopening
  have same := disposed.symm.trans redisposed
  simp only [Disposition.fragment.injEq, Option.some.injEq, key, flowKey, FragKey.mk.injEq] at same
  exact same.2.1.2.2.2.2

theorem not_mem_whole {opened : Opened} {payload body : List UInt8} {options : Api.SendOptions}
    (sent : Sent opened addrs.src addrs.dst addrs.srcPort addrs.dstPort payload body)
    (accepted : Api.validateSendOptions options = .ok ())
    (serialized : Api.optionsBody crc32c payload options = .ok body) :
    imprint opened.datagram ∉ shipment.imprints := by
  intro member
  obtain ⟨again, _, opening, _, _, disposed⟩ := mem_opened member (headed_of_opens sent.opening)
  cases sent.opening.symm.trans opening
  obtain ⟨delivered, handed, _⟩ := sent.disposed_faithful accepted serialized
  cases handed.symm.trans disposed

theorem not_mem_apart {datagram : List UInt8} (apart : Apart addrs datagram) :
    imprint datagram ∉ shipment.imprints := by
  intro member
  obtain ⟨opened, _, opening, inFlow, _⟩ := mem_opened member apart.headed
  exact apart.other opened opening inFlow

theorem exists_imprint : ∃ print, print ∈ shipment.imprints := by
  obtain ⟨range, member⟩ := List.exists_mem_of_length_pos (Nat.lt_of_lt_of_le Nat.zero_lt_two shipment.several)
  exact ⟨_, imprint_mem member⟩

/-- The cell of a shipment with the tally of its datagrams: each delivery and each
range it holds is paid for by arrivals of their own. -/
structure Tallied (shipment : Shipment crc32c addrs) (limits : ReassemblyLimits) (cell : Option Partial)
    (arrivals : List (List UInt8)) (delivered : List (List UInt8 × Api.ReceivedDatagram)) (seen : List ChunkRange) :
    Prop where
  holds : shipment.Holds limits seen cell
  counted : ∀ range ∈ shipment.ranges,
    deliveries delivered shipment.imprints + (if range ∈ seen then 1 else 0) ≤
      arrivals.count (imprint (shipment.datagramOf range))

variable {limits : ReassemblyLimits} {cell : Option Partial} {arrivals : List (List UInt8)}
  {delivered : List (List UInt8 × Api.ReceivedDatagram)} {seen : List ChunkRange}

theorem Tallied.expire (tallied : shipment.Tallied limits cell arrivals delivered seen) (test : Partial → Bool) :
    ∃ left, shipment.Tallied limits (cell.filter test) arrivals delivered left := by
  rcases tallied.holds.filter test with same | emptied
  · exact ⟨seen, same, tallied.counted⟩
  · refine ⟨[], emptied, ?_⟩
    intro range member
    have counted := tallied.counted range member
    rw [if_neg List.not_mem_nil]
    omega

theorem Tallied.besides (tallied : shipment.Tallied limits cell arrivals delivered seen) (more : List (List UInt8))
    {others : List (List UInt8 × Api.ReceivedDatagram)} (apart : ∀ entry ∈ others, imprint entry.1 ∉ shipment.imprints) :
    shipment.Tallied limits cell (arrivals ++ more) (delivered ++ others) seen := by
  refine ⟨tallied.holds, ?_⟩
  intro range member
  have counted := tallied.counted range member
  rw [deliveries_append, deliveries_eq_zero apart, List.count_append]
  omega

theorem Tallied.arrive {cache after : ReassemblyCache} {now : Nat} {range : ChunkRange} {delivery : Delivery}
    (tallied : shipment.Tallied cache.limits ((cache.gc now).partials.lookup shipment.key) arrivals delivered seen)
    (arrives : shipment.Arrives cache now seen range delivery after)
    {entries : List (List UInt8 × Api.ReceivedDatagram)} (single : entries.length ≤ 1)
    (caused : entries ≠ [] → ∃ payload, delivery = .payload payload) :
    ∃ left, shipment.Tallied cache.limits (after.partials.lookup shipment.key)
      (arrivals ++ [imprint (shipment.datagramOf range)]) (delivered ++ entries) left := by
  have silent : (∀ payload, delivery ≠ .payload payload) → entries = [] := by
    intro undelivered
    by_contra handed
    obtain ⟨payload, same⟩ := caused handed
    exact undelivered payload same
  cases arrives with
  | dropped =>
    rw [silent nofun, List.append_nil]
    refine ⟨[], by rw [lookup_putCell]; exact holds_none, ?_⟩
    intro other member
    have counted := tallied.counted other member
    rw [if_neg List.not_mem_nil, List.count_append]
    omega
  | buffered holds =>
    rw [silent nofun, List.append_nil]
    refine ⟨seen.insert range, by rw [lookup_putCell]; exact holds, ?_⟩
    intro other member
    have counted := tallied.counted other member
    rw [List.count_append]
    by_cases same : other = range
    · subst same
      rw [List.count_singleton_self]
      split at counted <;> split <;> omega
    · have still : other ∈ seen.insert range ↔ other ∈ seen := by simp [List.mem_insert_iff, same]
      simp only [still]
      omega
  | delivered all _ =>
    refine ⟨[], by rw [lookup_putCell]; exact holds_none, ?_⟩
    intro other member
    have counted := tallied.counted other member
    have bounded := Nat.le_trans (deliveries_le_length entries shipment.imprints) single
    rw [if_neg List.not_mem_nil, List.count_append, deliveries_append]
    -- the range that just arrived pays with this arrival, any other with the one the cell held
    rcases List.mem_cons.mp (all other member) with rfl | held
    · rw [List.count_singleton_self]
      omega
    · rw [if_pos held] at counted
      omega

end Shipment

/-- What a successful send put on the wire: one datagram, or a shipment. -/
theorem DispatchCase.shipped {send : PeerSend} {identifications after : IdentificationGenerator} {entry : Dispatch}
    (taken : DispatchCase crc32c send identifications entry after) {datagrams : List (List UInt8)}
    (succeeded : entry.result = .ok datagrams) :
    (∃ opened body, Api.validateSendOptions send.options = .ok () ∧
      Api.optionsBody crc32c send.payload send.options = .ok body ∧
      Sent opened send.addrs.src send.addrs.dst send.addrs.srcPort send.addrs.dstPort send.payload body ∧
      datagrams = [opened.datagram]) ∨
    ∃ shipment : Shipment crc32c send.addrs, shipment.payload = send.payload ∧ shipment.options = send.options ∧
      shipment.datagrams = datagrams ∧ shipment.peer = send.config.peer ∧
      identifications = ⟨some shipment.identification⟩ ∧ HandsFrom (shipment.identification.toNat + 1) after := by
  cases taken with
  | whole _ alone =>
    cases succeeded
    cases buildOutgoingDatagrams_built alone with
    | whole accepted serialized assembled =>
      obtain ⟨opened, rfl, sent⟩ := assembleChecked_sent (optionsBody_led serialized) assembled
      exact .inl ⟨opened, _, accepted, serialized, sent, rfl⟩
    | split _ _ named => cases send.unnamed.symm.trans named
  | exhausted => cases succeeded
  | @fragmented id result needed named =>
    cases succeeded
    cases buildOutgoingDatagrams_built named with
    | whole accepted serialized assembled =>
      obtain ⟨opened, rfl, sent⟩ := assembleChecked_sent (optionsBody_led serialized) assembled
      exact .inl ⟨opened, _, accepted, serialized, sent, rfl⟩
    | @split body _ _ _ accepted serialized same cut assembled =>
      cases same
      obtain ⟨other, len, known⟩ := needed
      cases serialized.symm.trans known.single.serialized
      obtain ⟨rdos, ranges, plan, budgeted, rfl⟩ := splitDatagram_budgeted cut
      have several := known.several budgeted
      obtain ⟨openedOf, rfl, sent⟩ := assembleFragments_sent assembled
      rw [show decide (ranges.length = 1) = false from decide_eq_false (by omega)] at sent
      exact .inr ⟨⟨send.payload, send.options, body, id, send.config.peer, rdos, ranges, openedOf, accepted, serialized,
        plan.announced, plan.chunks, plan.fits, plan.count, several, sent⟩, rfl, rfl, rfl, rfl, rfl,
        handsFrom_advanced id⟩

/-- The fragmented sends of a flow by their Identification. -/
abbrev Fleet (crc32c : List UInt8 → UInt32) (addrs : Api.DatagramAddrs) : Type := UInt32 → Option (Shipment crc32c addrs)

inductive Logged (fleet : Fleet crc32c addrs) (posting : Posting) : Prop where
  | nothing (none : posting.datagrams = [])
  | whole {opened : Opened} {body : List UInt8} (accepted : Api.validateSendOptions posting.options = .ok ())
      (serialized : Api.optionsBody crc32c posting.payload posting.options = .ok body)
      (sent : Sent opened addrs.src addrs.dst addrs.srcPort addrs.dstPort posting.payload body)
      (single : posting.datagrams = [opened.datagram])
  | split {identification : UInt32} {shipment : Shipment crc32c addrs} (named : fleet identification = some shipment)
      (payload : shipment.payload = posting.payload) (options : shipment.options = posting.options)
      (datagrams : posting.datagrams = shipment.datagrams)

inductive Imprinted (fleet : Fleet crc32c addrs) (posting : Posting) (print : List UInt8) : Prop where
  | whole {opened : Opened} {body : List UInt8} (accepted : Api.validateSendOptions posting.options = .ok ())
      (serialized : Api.optionsBody crc32c posting.payload posting.options = .ok body)
      (sent : Sent opened addrs.src addrs.dst addrs.srcPort addrs.dstPort posting.payload body)
      (single : posting.imprints = [imprint opened.datagram]) (same : print = imprint opened.datagram)
  | split {identification : UInt32} {shipment : Shipment crc32c addrs} (named : fleet identification = some shipment)
      (payload : shipment.payload = posting.payload) (options : shipment.options = posting.options)
      (imprints : posting.imprints = shipment.imprints) {range : ChunkRange} (listed : range ∈ shipment.ranges)
      (same : print = imprint (shipment.datagramOf range))

theorem Logged.imprinted {fleet : Fleet crc32c addrs} {posting : Posting} (logged : Logged fleet posting)
    {print : List UInt8} (member : print ∈ posting.imprints) : Imprinted fleet posting print := by
  cases logged with
  | nothing none =>
    rw [Posting.imprints, none] at member
    cases member
  | whole accepted serialized sent single =>
    have imprints : posting.imprints = [imprint _] := congrArg (List.map imprint) single
    rw [imprints, List.mem_singleton] at member
    exact .whole accepted serialized sent imprints member
  | split named payload options datagrams =>
    have imprints : posting.imprints = Shipment.imprints _ := congrArg (List.map imprint) datagrams
    rw [imprints] at member
    obtain ⟨range, listed, same⟩ := Shipment.mem_imprints.mp member
    exact .split named payload options imprints listed same.symm

/-- The receiver handed up what the send was given. -/
def Conveys (crc32c : List UInt8 → UInt32) (posting : Posting) (received : Api.ReceivedDatagram) : Prop :=
  ∃ payload, Faithful crc32c posting.payload posting.options payload ∧
    received = ⟨payload.data, payload.options, payload.reports, payload.ocsReports⟩

/-- What holds of a link in every state it reaches. -/
structure Kept (fleet : Fleet crc32c addrs) (link : Link) : Prop where
  flow : link.sender.addrs = addrs
  unnamed : link.sender.config.identification = none
  ahead : ∀ id shipment, fleet id = some shipment → HandsFrom (id.toNat + 1) link.sender.identifications
  named : ∀ id shipment, fleet id = some shipment → shipment.identification = id
  assumed : ∀ id shipment, fleet id = some shipment → shipment.peer = link.sender.config.peer
  logged : ∀ posting ∈ link.ledger, Logged fleet posting
  wired : ∀ datagram ∈ link.wire, ∃ posting ∈ link.ledger, datagram ∈ posting.datagrams
  valid : CacheValid link.receiver.cache
  strangers : ∀ id, fleet id = none → link.receiver.cache.partials.lookup (flowKey addrs id) = none
  tallied : ∀ id shipment, fleet id = some shipment → ∃ seen,
    shipment.Tallied link.receiver.cache.limits (link.receiver.cache.partials.lookup (flowKey addrs id))
      link.arrivals link.delivered seen
  origin : ∀ entry ∈ link.delivered, Apart addrs entry.1 ∨
    ∃ posting ∈ link.ledger, imprint entry.1 ∈ posting.imprints ∧ Conveys crc32c posting entry.2
  once : ∀ print, deliveries link.delivered [print] ≤ link.arrivals.count print
  arrivals : ∀ datagram ∈ link.arrived, Apart addrs datagram ∨
    ∃ posting ∈ link.ledger, imprint datagram ∈ posting.imprints
  single : ∀ id shipment, fleet id = some shipment →
    (link.ledger.map Posting.imprints).count shipment.imprints = 1

variable {fleet : Fleet crc32c addrs} {link : Link}

theorem Kept.unposted (kept : Kept fleet link) {shipment : Shipment crc32c addrs}
    (fresh : fleet shipment.identification = none) {posting : Posting} (posted : posting ∈ link.ledger)
    {print : List UInt8} (member : print ∈ posting.imprints) : print ∉ shipment.imprints := by
  cases (kept.logged posting posted).imprinted member with
  | whole accepted serialized sent _ same =>
    rw [same]
    exact Shipment.not_mem_whole sent accepted serialized
  | @split id other named _ _ imprints _ _ _ =>
    intro inside
    rw [imprints] at member
    have same := Shipment.same_identification inside member
    rw [same, kept.named id other named, named] at fresh
    cases fresh

theorem Kept.unshipped (kept : Kept fleet link) {shipment : Shipment crc32c addrs}
    (fresh : fleet shipment.identification = none) :
    ∀ entry ∈ link.delivered, imprint entry.1 ∉ shipment.imprints := by
  intro entry listed
  rcases kept.origin entry listed with apart | ⟨posting, posted, caused, _⟩
  · exact Shipment.not_mem_apart apart
  · exact kept.unposted fresh posted caused

theorem Kept.unarrived (kept : Kept fleet link) {shipment : Shipment crc32c addrs}
    (fresh : fleet shipment.identification = none) : ∀ print ∈ link.arrivals, print ∉ shipment.imprints := by
  intro print listed
  obtain ⟨datagram, arrived, rfl⟩ := List.mem_map.mp listed
  rcases kept.arrivals datagram arrived with apart | ⟨posting, posted, caused⟩
  · exact Shipment.not_mem_apart apart
  · exact kept.unposted fresh posted caused

def Fleet.launch (fleet : Fleet crc32c addrs) (shipment : Shipment crc32c addrs) : Fleet crc32c addrs :=
  Function.update fleet shipment.identification (some shipment)

theorem Fleet.launch_some {shipment other : Shipment crc32c addrs} {id : UInt32}
    (known : Fleet.launch fleet shipment id = some other) :
    (id = shipment.identification ∧ other = shipment) ∨ fleet id = some other := by
  rw [launch, Function.update_apply] at known
  split at known
  next same =>
    cases known
    exact .inl ⟨same, rfl⟩
  · exact .inr known

theorem Fleet.launch_none {shipment : Shipment crc32c addrs} {id : UInt32}
    (unknown : Fleet.launch fleet shipment id = none) : fleet id = none := by
  rw [launch, Function.update_apply] at unknown
  split at unknown
  · cases unknown
  · exact unknown

/-- Every shipment of the first fleet is one of the second. -/
def Fleet.Within (fleet grown : Fleet crc32c addrs) : Prop :=
  ∀ id shipment, fleet id = some shipment → grown id = some shipment

theorem Fleet.within_launch {shipment : Shipment crc32c addrs} (fresh : fleet shipment.identification = none) :
    Fleet.Within fleet (fleet.launch shipment) := by
  intro id other known
  have different : id ≠ shipment.identification := by
    intro same
    rw [same] at known
    cases fresh.symm.trans known
  exact (Function.update_of_ne different _ _).trans known

theorem Logged.launch {posting : Posting} (logged : Logged fleet posting) {shipment : Shipment crc32c addrs}
    (fresh : fleet shipment.identification = none) : Logged (fleet.launch shipment) posting := by
  cases logged with
  | nothing none => exact .nothing none
  | whole accepted serialized sent single => exact .whole accepted serialized sent single
  | split named payload options datagrams =>
    exact .split (Fleet.within_launch fresh _ _ named) payload options datagrams

/-- A send with other imprints leaves the shipments the only ones with theirs. -/
theorem Kept.single_besides (kept : Kept fleet link) {posting : Posting}
    (other : ∀ id shipment, fleet id = some shipment → posting.imprints ≠ shipment.imprints) :
    ∀ id shipment, fleet id = some shipment →
      ((link.ledger ++ [posting]).map Posting.imprints).count shipment.imprints = 1 := by
  intro id shipment known
  rw [List.map_append, List.count_append, kept.single id shipment known, List.map_singleton,
    List.count_eq_zero.mpr (by simpa using (other id shipment known).symm)]

/-- A send adds to the ledger, and to the fleet if it was fragmented. -/
theorem Kept.posted (kept : Kept fleet link) {payload : List UInt8} {options : Api.SendOptions} {entry : Dispatch}
    {after : IdentificationGenerator} {sent : List (List UInt8)}
    (dispatched : DispatchCase crc32c ⟨link.sender.addrs, payload, options, link.sender.config, kept.unnamed⟩
      link.sender.identifications entry after) (written : sent <+: entry.result.toOption.getD []) :
    ∃ grown : Fleet crc32c addrs, fleet.Within grown ∧ Kept grown { link with
      sender := { link.sender with
        sender := ⟨link.sender.sender.written ++ sent.map fun datagram => (link.sender.addrs.dst, datagram)⟩
        identifications := after }
      ledger := link.ledger ++ [⟨payload, options, entry.result.toOption.getD []⟩] } := by
  have ahead : ∀ id shipment, fleet id = some shipment → HandsFrom (id.toNat + 1) after := fun id shipment known =>
    dispatched.forward (kept.ahead id shipment known)
  have wired : ∀ datagram ∈ (link.sender.sender.written ++
        sent.map fun datagram => (link.sender.addrs.dst, datagram)).map Prod.snd,
      ∃ posting ∈ link.ledger ++ [⟨payload, options, entry.result.toOption.getD []⟩],
        datagram ∈ posting.datagrams := by
    intro datagram listed
    rw [List.map_append, List.mem_append] at listed
    rcases listed with old | new
    · obtain ⟨posting, member, caused⟩ := kept.wired datagram old
      exact ⟨posting, List.mem_append_left _ member, caused⟩
    · refine ⟨_, List.mem_append_right _ (List.mem_singleton_self _), written.subset ?_⟩
      simpa using new
  have origin : ∀ posting : Posting, ∀ handed ∈ link.delivered, Apart addrs handed.1 ∨
      ∃ known ∈ link.ledger ++ [posting], imprint handed.1 ∈ known.imprints ∧ Conveys crc32c known handed.2 := by
    intro posting handed listed
    rcases kept.origin handed listed with apart | ⟨known, member, caused, conveys⟩
    · exact .inl apart
    · exact .inr ⟨known, List.mem_append_left _ member, caused, conveys⟩
  have arrivals : ∀ posting : Posting, ∀ datagram ∈ link.arrived, Apart addrs datagram ∨
      ∃ known ∈ link.ledger ++ [posting], imprint datagram ∈ known.imprints := by
    intro posting datagram listed
    rcases kept.arrivals datagram listed with apart | ⟨known, member, caused⟩
    · exact .inl apart
    · exact .inr ⟨known, List.mem_append_left _ member, caused⟩
  have unchanged : ∀ posting : Posting, Logged fleet posting →
      ∀ known ∈ link.ledger ++ [posting], Logged fleet known := by
    intro posting logged known member
    rcases List.mem_append.mp member with old | new
    · exact kept.logged known old
    · rw [List.mem_singleton.mp new]
      exact logged
  cases result : entry.result with
  | error error =>
    rw [result] at wired
    refine ⟨fleet, fun _ _ => id, { kept with
      ahead := ahead, logged := unchanged _ (.nothing rfl), wired := wired, origin := origin _, arrivals := arrivals _
      single := kept.single_besides ?_ }⟩
    intro id shipment _ same
    obtain ⟨print, member⟩ := shipment.exists_imprint
    rw [← same] at member
    cases member
  | ok datagrams =>
    rw [result] at wired
    obtain rfl := kept.flow
    rcases dispatched.shipped result with ⟨opened, body, accepted, serialized, sent, rfl⟩ |
      ⟨shipment, samePayload, sameOptions, rfl, assumed, generator, passed⟩
    · refine ⟨fleet, fun _ _ => id, { kept with
        ahead := ahead, logged := unchanged _ (.whole accepted serialized sent rfl), wired := wired, origin := origin _
        arrivals := arrivals _, single := kept.single_besides ?_ }⟩
      intro id shipment _ same
      have member : imprint opened.datagram ∈ shipment.imprints := same ▸ List.mem_singleton_self _
      exact Shipment.not_mem_whole sent accepted serialized member
    · have fresh : fleet shipment.identification = none := by
        cases known : fleet shipment.identification with
        | none => rfl
        | some other =>
          have beyond := kept.ahead _ other known shipment.identification (by rw [generator])
          omega
      refine ⟨fleet.launch shipment, Fleet.within_launch fresh, rfl, kept.unnamed, ?_, ?_, ?_, ?_, wired, kept.valid,
        ?_, ?_, origin _, kept.once, arrivals _, ?_⟩
      · intro id other known
        rcases Fleet.launch_some known with ⟨rfl, rfl⟩ | old
        · exact passed
        · exact ahead id other old
      · intro id other known
        rcases Fleet.launch_some known with ⟨rfl, rfl⟩ | old
        · rfl
        · exact kept.named id other old
      · intro id other known
        rcases Fleet.launch_some known with ⟨rfl, rfl⟩ | old
        · exact assumed
        · exact kept.assumed id other old
      · intro posting member
        rcases List.mem_append.mp member with old | new
        · exact (kept.logged posting old).launch fresh
        · rw [List.mem_singleton.mp new]
          exact .split (Function.update_self ..) samePayload sameOptions rfl
      · intro id unknown
        exact kept.strangers id (Fleet.launch_none unknown)
      · intro id other known
        rcases Fleet.launch_some known with ⟨rfl, rfl⟩ | old
        · refine ⟨[], by rw [kept.strangers _ fresh]; exact Shipment.holds_none, ?_⟩
          intro range member
          dsimp only
          rw [deliveries_eq_zero (kept.unshipped fresh), if_neg List.not_mem_nil]
          exact Nat.zero_le _
        · exact kept.tallied id other old
      · obtain ⟨print, inside⟩ := shipment.exists_imprint
        intro id other known
        rcases Fleet.launch_some known with ⟨rfl, rfl⟩ | old
        · have absent : other.imprints ∉ link.ledger.map Posting.imprints := by
            intro listed
            obtain ⟨posting, posted, same⟩ := List.mem_map.mp listed
            exact kept.unposted fresh posted (same ▸ inside) inside
          rw [List.map_append, List.count_append, List.count_eq_zero.mpr absent]
          simp [Except.toOption, Posting.imprints, Shipment.imprints]
        · refine kept.single_besides ?_ id other old
          intro rivalId rival rivalKnown same
          have clash := Shipment.same_identification inside (same ▸ inside : print ∈ rival.imprints)
          rw [clash, kept.named rivalId rival rivalKnown, rivalKnown] at fresh
          cases fresh

theorem Kept.strangers_gc (kept : Kept fleet link) (now : Nat) (id : UInt32) (unknown : fleet id = none) :
    (link.receiver.cache.gc now).partials.lookup (flowKey addrs id) = none := by
  rw [lookup_gc, kept.strangers id unknown]
  rfl

theorem Kept.tallied_gc (kept : Kept fleet link) (now : Nat) {id : UInt32} {shipment : Shipment crc32c addrs}
    (known : fleet id = some shipment) :
    ∃ seen, shipment.Tallied link.receiver.cache.limits
      ((link.receiver.cache.gc now).partials.lookup (flowKey addrs id)) link.arrivals link.delivered seen := by
  obtain ⟨seen, tallied⟩ := kept.tallied id shipment known
  rw [lookup_gc]
  exact tallied.expire _

/-- A decoded datagram was filtered out, or it went through the pipeline and the
policy passed on at most what the pipeline delivered. -/
theorem decode_effect {datagram : List UInt8} {cache final : ReassemblyCache} {now : Nat} {policy : Api.ReceivePolicy}
    {decoded : Except RecvError Api.ApiDelivery}
    (decoding : Api.decodeDatagram crc32c datagram cache now policy = .ok (decoded, final)) :
    (final = cache ∧ deliveredOf datagram decoded = []) ∨
    ∃ result, processDatagram crc32c datagram cache now = .ok (result, final) ∧
      (deliveredOf datagram decoded = [] ∨ ∃ payload, result = .ok (.payload payload) ∧
        deliveredOf datagram decoded =
          [(datagram, ⟨payload.data, payload.options, payload.reports, payload.ocsReports⟩)]) := by
  by_cases handed : ∃ received, decoded = .ok (.received received)
  · obtain ⟨received, rfl⟩ := handed
    obtain ⟨payload, processed, passed⟩ := decodeDatagram_received crc32c decoding
    obtain ⟨rfl, _⟩ := applyPolicy_received passed
    exact .inr ⟨_, processed, .inr ⟨payload, rfl, rfl⟩⟩
  · have silent : deliveredOf datagram decoded = [] := by
      rcases decoded with error | received | _ | _ | _
      · rfl
      · exact absurd ⟨received, rfl⟩ handed
      all_goals rfl
    rcases decodeDatagram_cases crc32c datagram cache now policy with ⟨_, _, _, _, filtered⟩ | ⟨_, processed⟩
    · cases filtered.symm.trans decoding
      exact .inl ⟨rfl, silent⟩
    · rw [processed] at decoding
      obtain ⟨delivery, known⟩ := decodeProcessed_cache crc32c decoding
      exact .inr ⟨delivery, known, .inl silent⟩

private theorem deliveredOf_once {datagram print : List UInt8} (decoded : Except RecvError Api.ApiDelivery) :
    deliveries (deliveredOf datagram decoded) [print] ≤ [imprint datagram].count print := by
  rcases decoded with error | received | _ | _ | _
  · exact Nat.zero_le _
  · by_cases same : imprint datagram = print
    · subst same
      simp [deliveredOf, deliveries]
    · simp [deliveredOf, deliveries, same]
  all_goals exact Nat.zero_le _

/-- The cells of the flow after a datagram arrived, and what it delivered. -/
structure Settles (fleet : Fleet crc32c addrs) (link : Link) (datagram : List UInt8)
    (entries : List (List UInt8 × Api.ReceivedDatagram)) (cache : ReassemblyCache) : Prop where
  valid : CacheValid cache
  strangers : ∀ id, fleet id = none → cache.partials.lookup (flowKey addrs id) = none
  tallied : ∀ id shipment, fleet id = some shipment → ∃ seen,
    shipment.Tallied cache.limits (cache.partials.lookup (flowKey addrs id)) (link.arrivals ++ [imprint datagram])
      (link.delivered ++ entries) seen
  origin : ∀ entry ∈ entries, Apart addrs entry.1 ∨
    ∃ posting ∈ link.ledger, imprint entry.1 ∈ posting.imprints ∧ Conveys crc32c posting entry.2

/-- A datagram that no shipment contains leaves the cells as they are or lets them expire. -/
theorem Kept.settles_besides (kept : Kept fleet link) {datagram : List UInt8} {cache : ReassemblyCache} {now : Nat}
    {entries : List (List UInt8 × Api.ReceivedDatagram)} (valid : CacheValid cache)
    (limits : cache.limits = link.receiver.cache.limits)
    (cells : ∀ id, cache.partials.lookup (flowKey addrs id) =
        link.receiver.cache.partials.lookup (flowKey addrs id) ∨
      cache.partials.lookup (flowKey addrs id) = (link.receiver.cache.gc now).partials.lookup (flowKey addrs id))
    (apart : ∀ id shipment, fleet id = some shipment → ∀ entry ∈ entries, imprint entry.1 ∉ shipment.imprints)
    (origin : ∀ entry ∈ entries, Apart addrs entry.1 ∨
      ∃ posting ∈ link.ledger, imprint entry.1 ∈ posting.imprints ∧ Conveys crc32c posting entry.2) :
    Settles fleet link datagram entries cache := by
  refine ⟨valid, ?_, ?_, origin⟩
  · intro id unknown
    rcases cells id with same | expired
    · rw [same, kept.strangers id unknown]
    · rw [expired, kept.strangers_gc now id unknown]
  · intro id shipment known
    rw [limits]
    rcases cells id with same | expired
    · obtain ⟨seen, tallied⟩ := kept.tallied id shipment known
      rw [same]
      exact ⟨seen, tallied.besides [imprint datagram] (apart id shipment known)⟩
    · obtain ⟨left, remaining⟩ := kept.tallied_gc now known
      rw [expired]
      exact ⟨left, remaining.besides [imprint datagram] (apart id shipment known)⟩

/-- A datagram of a shipment feeds one cell; the others can only expire. -/
theorem Kept.settles_shipped (kept : Kept fleet link) {posting : Posting} (posted : posting ∈ link.ledger)
    {id : UInt32} {shipment : Shipment crc32c addrs} (known : fleet id = some shipment)
    (samePayload : shipment.payload = posting.payload) (sameOptions : shipment.options = posting.options)
    (sameImprints : posting.imprints = shipment.imprints) {range : ChunkRange} (member : range ∈ shipment.ranges)
    {datagram : List UInt8} (carried : imprint datagram = imprint (shipment.datagramOf range)) {now : Nat}
    {result : Except RecvError Delivery} {cache : ReassemblyCache}
    {entries : List (List UInt8 × Api.ReceivedDatagram)}
    (processed : processDatagram crc32c (shipment.datagramOf range) link.receiver.cache now = .ok (result, cache))
    (handed : entries = [] ∨ ∃ payload, result = .ok (.payload payload) ∧
      entries = [(datagram, ⟨payload.data, payload.options, payload.reports, payload.ocsReports⟩)]) :
    Settles fleet link datagram entries cache := by
  have named := kept.named id shipment known
  have own : shipment.key = flowKey addrs id := congrArg (flowKey addrs) named
  have inside : imprint datagram ∈ shipment.imprints := carried ▸ Shipment.imprint_mem member
  obtain ⟨valid, limits⟩ := @receive_valid crc32c (shipment.datagramOf range, now) _ _ _ processed kept.valid
  obtain ⟨left, remaining⟩ := kept.tallied_gc now known
  rw [← own] at remaining
  obtain ⟨delivery, after, executed, arrives⟩ := Shipment.receive_arrives member remaining.holds
  cases executed.symm.trans processed
  have others : ∀ other, other ≠ id → cache.partials.lookup (flowKey addrs other) =
      (link.receiver.cache.gc now).partials.lookup (flowKey addrs other) := by
    intro other different
    exact arrives.elsewhere (named ▸ different)
  refine ⟨valid, ?_, ?_, ?_⟩
  · intro other unknown
    have different : other ≠ id := by
      rintro rfl
      cases unknown.symm.trans known
    rw [others other different, kept.strangers_gc now other unknown]
  · intro other rival rivalKnown
    rw [limits]
    by_cases same : other = id
    · subst same
      cases known.symm.trans rivalKnown
      rw [← own, carried]
      apply remaining.arrive arrives
      · rcases handed with rfl | ⟨payload, _, rfl⟩ <;> simp
      · intro nonempty
        rcases handed with rfl | ⟨payload, same, _⟩
        · exact absurd rfl nonempty
        · cases same
          exact ⟨payload, rfl⟩
    · obtain ⟨rivalLeft, rivalRemaining⟩ := kept.tallied_gc now rivalKnown
      rw [others other same]
      refine ⟨rivalLeft, rivalRemaining.besides _ ?_⟩
      intro entry listed shipped
      rcases handed with rfl | ⟨payload, _, rfl⟩
      · cases listed
      · rw [List.mem_singleton.mp listed] at shipped
        have clash := Shipment.same_identification inside shipped
        rw [named, kept.named other rival rivalKnown] at clash
        exact same clash.symm
  · intro entry listed
    rcases handed with rfl | ⟨payload, same, rfl⟩
    · cases listed
    · cases same
      obtain rfl := List.mem_singleton.mp listed
      cases arrives with
      | delivered _ faithful =>
        rw [samePayload, sameOptions] at faithful
        exact .inr ⟨posting, posted, sameImprints ▸ inside, payload, faithful, rfl⟩

theorem Kept.posted_inFlow (kept : Kept fleet link) {posting : Posting} (posted : posting ∈ link.ledger)
    {datagram : List UInt8} (member : datagram ∈ posting.datagrams) :
    ∃ opened, opened.datagram = datagram ∧ openDatagram datagram = .ok (.ok opened) ∧ InFlow addrs opened := by
  cases kept.logged posting posted with
  | nothing none =>
    rw [none] at member
    cases member
  | whole _ _ sent single =>
    rw [single, List.mem_singleton] at member
    subst member
    exact ⟨_, rfl, sent.opening, sent.source, sent.destination, sent.srcPort, sent.dstPort⟩
  | @split _ shipment _ _ _ datagrams =>
    rw [datagrams] at member
    obtain ⟨range, listed, rfl⟩ := List.mem_map.mp member
    have sent := shipment.sent range listed
    exact ⟨_, rfl, sent.opening, sent.source, sent.destination, sent.srcPort, sent.dstPort⟩

/-- What the receiver takes comes from a datagram of a logged send, or is no part of the flow. -/
theorem Kept.arrival (kept : Kept fleet link) {data : List UInt8} {len : Nat}
    (source : imprint data ∈ link.imprints ∨ Foreign link.sender.addrs data)
    (passes : Passes link.receiver.receiver data len) :
    Apart addrs (data.take len) ∨ ∃ posting ∈ link.ledger, imprint (data.take len) ∈ posting.imprints := by
  rcases source with carried | foreign
  · obtain ⟨written, sent, same⟩ := List.mem_map.mp carried
    obtain ⟨posting, posted, member⟩ := kept.wired written sent
    obtain ⟨opened, rfl, opening, _⟩ := kept.posted_inFlow posted member
    refine .inr ⟨posting, posted, ?_⟩
    rw [(passes.relays same.symm opening).same]
    exact List.mem_map_of_mem member
  · left
    refine ⟨passes.headed, ?_⟩
    intro opened opening
    rw [← kept.flow]
    exact foreign.apart passes opening

theorem Kept.not_apart (kept : Kept fleet link) {posting : Posting} (posted : posting ∈ link.ledger)
    {datagram : List UInt8} (member : imprint datagram ∈ posting.imprints) : ¬ Apart addrs datagram := by
  intro apart
  obtain ⟨written, built, same⟩ := List.mem_map.mp member
  obtain ⟨opened, _, opening, inFlow⟩ := kept.posted_inFlow posted built
  have relays : Relays written datagram := ⟨same.symm, apart.headed⟩
  obtain ⟨again, reopening, alike⟩ := relays.opens opening
  apply apart.other again reopening
  rw [InFlow, alike.ip, alike.udp]
  exact inFlow

/-- Every datagram the receiver takes settles. -/
theorem Kept.settles (kept : Kept fleet link) {datagram : List UInt8} {now : Nat} (headed : Headed datagram)
    (arrival : Apart addrs datagram ∨ ∃ posting ∈ link.ledger, imprint datagram ∈ posting.imprints)
    {decoded : Except RecvError Api.ApiDelivery} {cache : ReassemblyCache}
    (decoding : Api.decodeDatagram crc32c datagram link.receiver.cache now link.receiver.policy =
      .ok (decoded, cache)) :
    Settles fleet link datagram (deliveredOf datagram decoded) cache := by
  rcases decode_effect decoding with ⟨rfl, silent⟩ | ⟨result, processed, handed⟩
  · rw [silent]
    exact @Kept.settles_besides _ _ _ _ kept _ _ now _ kept.valid rfl (fun _ => .inl rfl) (by simp) (by simp)
  have entry : ∀ entry ∈ deliveredOf datagram decoded, ∃ payload, result = .ok (.payload payload) ∧
      entry = (datagram, ⟨payload.data, payload.options, payload.reports, payload.ocsReports⟩) := by
    intro entry listed
    rcases handed with none | ⟨payload, same, single⟩
    · rw [none] at listed
      cases listed
    · rw [single] at listed
      exact ⟨payload, same, List.mem_singleton.mp listed⟩
  rcases arrival with apart | ⟨posting, posted, member⟩
  · obtain ⟨valid, limits⟩ := @receive_valid crc32c (datagram, now) _ _ _ processed kept.valid
    refine kept.settles_besides valid limits (processDatagram_elsewhere processed apart.other) ?_ ?_
    · intro id shipment _ handedUp listed
      obtain ⟨_, _, rfl⟩ := entry handedUp listed
      exact Shipment.not_mem_apart apart
    · intro handedUp listed
      obtain ⟨_, _, rfl⟩ := entry handedUp listed
      exact .inl apart
  · cases (kept.logged posting posted).imprinted member with
    | @whole opened _ accepted serialized sent single same =>
      have relays : Relays opened.datagram datagram := ⟨same, headed⟩
      obtain ⟨delivered, faithful, handles⟩ := sent.processed_faithful accepted serialized
      rw [relays.processed sent.opening, handles] at processed
      cases processed
      refine @Kept.settles_besides _ _ _ _ kept _ _ now _ kept.valid rfl (fun _ => .inl rfl) ?_ ?_
      · intro id shipment _ handedUp listed
        obtain ⟨_, _, rfl⟩ := entry handedUp listed
        rw [same]
        exact Shipment.not_mem_whole sent accepted serialized
      · intro handedUp listed
        obtain ⟨_, same, rfl⟩ := entry handedUp listed
        cases same
        exact .inr ⟨posting, posted, member, delivered, faithful, rfl⟩
    | @split id shipment known samePayload sameOptions sameImprints range listed same =>
      have relays : Relays (shipment.datagramOf range) datagram := ⟨same, headed⟩
      rw [relays.processed (shipment.sent range listed).opening] at processed
      exact kept.settles_shipped posted known samePayload sameOptions sameImprints listed same processed handed

/-- Every event keeps the invariant; only sends enlarge the fleet. -/
theorem Kept.moved (kept : Kept fleet link) {event : LinkEvent} {final : Link} (possible : event.Possible link)
    (moved : LinkMove crc32c link kept.unnamed event final) :
    ∃ grown : Fleet crc32c addrs, fleet.Within grown ∧ Kept grown final := by
  cases moved with
  | posted dispatched written => exact kept.posted dispatched written
  | idle =>
    exact ⟨fleet, fun _ _ => id, { kept with }⟩
  | @took _ _ _ turn data len decoded cache member read passes decoding =>
    have arrival := kept.arrival (possible turn member data read) passes
    have settles := kept.settles passes.headed arrival decoding
    refine ⟨fleet, fun _ _ => id, { kept with
      valid := settles.valid, strangers := settles.strangers, tallied := ?_, origin := ?_, once := ?_
      arrivals := ?_ }⟩
    · rw [Link.arrivals, List.map_append]
      exact settles.tallied
    · intro entry listed
      rcases List.mem_append.mp listed with old | new
      · exact kept.origin entry old
      · exact settles.origin entry new
    · intro print
      rw [deliveries_append, Link.arrivals, List.map_append, List.count_append]
      exact Nat.add_le_add (kept.once print) (deliveredOf_once decoded)
    · intro datagram listed
      rcases List.mem_append.mp listed with old | new
      · exact kept.arrivals datagram old
      · rw [List.mem_singleton.mp new]
        exact arrival
  | @collected now =>
    refine ⟨fleet, fun _ _ => id, { kept with
      valid := kept.valid.gc now, strangers := kept.strangers_gc now, tallied := ?_ }⟩
    intro id shipment known
    obtain ⟨left, remaining⟩ := kept.tallied_gc now known
    exact ⟨left, remaining⟩

/-- Two peers with nothing between them yet. -/
structure Fresh (link : Link) : Prop where
  unnamed : link.sender.config.identification = none
  unwritten : link.sender.sender.written = []
  empty : ∃ limits, link.receiver.cache = .withLimits limits
  ledger : link.ledger = []
  arrived : link.arrived = []
  delivered : link.delivered = []

theorem Fresh.kept (fresh : Fresh link) : Kept (fun _ => none : Fleet crc32c link.sender.addrs) link where
  flow := rfl
  unnamed := fresh.unnamed
  ahead := nofun
  named := nofun
  assumed := nofun
  logged := by simp [fresh.ledger]
  wired := by simp [Link.wire, fresh.unwritten]
  valid := by
    obtain ⟨limits, empty⟩ := fresh.empty
    rw [empty]
    exact cacheValid_empty limits
  strangers := by
    obtain ⟨limits, empty⟩ := fresh.empty
    intro id _
    rw [empty]
    rfl
  tallied := nofun
  origin := by simp [fresh.delivered]
  once := by simp [fresh.delivered, deliveries]
  arrivals := by simp [fresh.arrived]
  single := nofun

theorem Kept.run {events : List LinkEvent} {final : Link} (runs : Link.Runs crc32c events link final)
    (kept : Kept fleet link) : ∃ grown : Fleet crc32c addrs, Kept grown final := by
  induction runs generalizing fleet with
  | done => exact ⟨fleet, kept⟩
  | @next event events link middle final possible stepped rest ih =>
    obtain ⟨after, executed, moved⟩ := step_moved crc32c link kept.unnamed event
    cases executed.symm.trans stepped
    obtain ⟨grown, _, next⟩ := kept.moved possible moved
    exact ih next

theorem bind_fresh {config other : Api.PeerConfig} {answers others : Api.BindAnswers} {sender receiver : Api.Peer}
    (bound : Api.Peer.bind config answers = .ok sender) (opened : Api.Peer.bind other others = .ok receiver) :
    Fresh ⟨sender, receiver, [], [], []⟩ := by
  have opens : ∀ {config answers peer}, Api.Peer.bind config answers = .ok peer →
      peer.config.identification = none ∧ peer.sender.written = [] ∧ peer.cache = .withLimits .default := by
    intro config answers peer bound
    unfold Api.Peer.bind at bound
    split at bound
    · cases bound
    split at bound
    · cases bound
    split at bound
    · cases bound
    split at bound
    · cases bound
    next generator send taken =>
      cases bound
      refine ⟨?_, rfl, rfl⟩
      unfold Api.takePeerIdentificationGenerator at taken
      dsimp only at taken
      split at taken
      · cases taken
        rfl
      · split at taken
        · cases taken
          rfl
        · cases taken
  obtain ⟨unnamed, unwritten, _⟩ := opens bound
  obtain ⟨_, _, empty⟩ := opens opened
  exact ⟨unnamed, unwritten, ⟨_, empty⟩, rfl, rfl, rfl⟩

end

end UdpOptions.Proofs
