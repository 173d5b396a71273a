import UdpOptions.Proofs.Artifacts
import UdpOptions.Proofs.IdentificationUse
import UdpOptions.Proofs.LinkComplete

/-! Runs of the two tools as runs of a link. A run of the sending tool without wire
faults makes the sends of a peer; the receiving tool takes datagrams as a peer whose
policy filters nothing. -/

namespace UdpOptions.Proofs
open Library Model Cli

section
variable {crc32c : List UInt8 → UInt32} {args : SendArgs} {answers : SendAnswers}

/-- One send of a plain run: what was built, written and recorded. -/
structure PlainSend (crc32c : List UInt8 → UInt32) (args : SendArgs) (answers : Nat → Except IoError Nat)
    (state final : SendState) (payload : List UInt8) (options : Api.SendOptions) (datagrams : List (List UInt8))
    (row : ManifestRow) : Prop where
  built : buildDatagramsForSend crc32c (addrs args) payload options (baseConfig args) state.identifications =
    .ok (.ok (datagrams, row.identification), final.identifications)
  transmitted : Api.transmit answers args.dst datagrams 0 0 state.sender = (.ok row.bytes, final.sender)
  recorded : final.manifest = state.manifest ++ [row]
  len : row.payloadLen = payload.length
  crc : row.payloadCrc32c = crc32c payload
  count : row.datagrams = datagrams.length

def sendingPeer (args : SendArgs) (sender : RawSender) (identifications : IdentificationGenerator) : Api.Peer where
  sender := sender
  receiver := .bind args.srcPort (some args.dstPort) none
  cache := .withLimits .default
  addrs := addrs args
  config := baseConfig args
  policy := ⟨[], false, false⟩
  identifications := identifications

structure SendMatch (crc32c : List UInt8 → UInt32) (args : SendArgs) (state : SendState) (link : Link) : Prop where
  sender : link.sender = sendingPeer args state.sender state.identifications
  wire : link.wire = link.ledger.flatMap Posting.datagrams
  filled : ∀ posting ∈ link.ledger, posting.datagrams ≠ []
  rows : state.manifest.map declaredKey = link.ledger.map fun posting => keyOf crc32c posting.payload

def Link.sent (link : Link) (args : SendArgs) (state : SendState) (posting : Posting) : Link :=
  { link with
    sender := sendingPeer args state.sender state.identifications
    ledger := link.ledger ++ [posting] }

private theorem transmit_all {answers : Nat → Except IoError Nat} {dst : Ipv4Addr} {datagrams : List (List UInt8)}
    {index bytes total : Nat} {sender after : RawSender}
    (transmitted : Api.transmit answers dst datagrams index bytes sender = (.ok total, after)) :
    after.written = sender.written ++ datagrams.map fun datagram => (dst, datagram) := by
  induction datagrams generalizing index bytes sender with
  | nil =>
    cases transmitted
    simp
  | cons datagram rest ih =>
    unfold Api.transmit RawSender.send at transmitted
    cases answered : answers index with
    | error error =>
      rw [answered] at transmitted
      cases transmitted
    | ok count =>
      rw [answered] at transmitted
      dsimp only at transmitted
      cases added : checkedAdd bytes count with
      | none =>
        rw [added] at transmitted
        cases transmitted
      | some sum =>
        rw [added] at transmitted
        rw [ih transmitted]
        simp

theorem PlainSend.peer {answers : Nat → Except IoError Nat} {state final : SendState} {payload : List UInt8}
    {options : Api.SendOptions} {datagrams : List (List UInt8)} {row : ManifestRow}
    (sent : PlainSend crc32c args answers state final payload options datagrams row) :
    Api.buildPeerOutgoingDatagrams crc32c (addrs args) payload options (baseConfig args) state.identifications =
        .ok (.ok datagrams, final.identifications) ∧ datagrams ≠ [] := by
  obtain ⟨entry, after, executed, taken⟩ := dispatch_case crc32c ⟨addrs args, payload, options, baseConfig args, rfl⟩
    state.identifications
  have wrapped := taken.buildDatagramsForSend
  have built := sent.built
  cases result : entry.result with
  | error error =>
    rw [result] at wrapped
    cases wrapped.symm.trans built
  | ok found =>
    rw [result, built] at wrapped
    simp only [Except.map, Except.ok.injEq, Prod.mk.injEq] at wrapped
    obtain ⟨⟨rfl, _⟩, rfl⟩ := wrapped
    have peer := dispatch_peer executed
    rw [result] at peer
    refine ⟨peer, ?_⟩
    rcases taken.shipped result with ⟨opened, _, _, _, _, rfl⟩ | ⟨shipment, _, _, rfl, _⟩
    · simp
    · intro empty
      obtain ⟨print, member⟩ := shipment.exists_imprint
      rw [Shipment.imprints, empty] at member
      cases member

/-- The send of the tool is the send of the peer. -/
theorem SendMatch.step {state final : SendState} {link : Link} (same : SendMatch crc32c args state link)
    {answers : Nat → Except IoError Nat} {payload : List UInt8} {options : Api.SendOptions}
    {datagrams : List (List UInt8)} {row : ManifestRow}
    (sent : PlainSend crc32c args answers state final payload options datagrams row) :
    link.step crc32c (.send payload options answers) = .ok (link.sent args final ⟨payload, options, datagrams⟩) ∧
      SendMatch crc32c args final (link.sent args final ⟨payload, options, datagrams⟩) := by
  obtain ⟨built, nonempty⟩ := sent.peer
  constructor
  · have transmitted := sent.transmitted
    unfold Link.step Api.Peer.send
    dsimp only
    rw [same.sender]
    dsimp only [sendingPeer]
    rw [built, Checked.ok_bind, Checked.ok_bind]
    dsimp only
    rw [show (addrs args).dst = args.dst from rfl, transmitted]
    rfl
  · refine ⟨rfl, ?_, ?_, ?_⟩
    · have wire := same.wire
      rw [Link.wire, same.sender] at wire
      rw [Link.wire, Link.sent]
      dsimp only [sendingPeer] at wire ⊢
      rw [transmit_all sent.transmitted, List.map_append, wire, List.flatMap_append]
      simp
    · intro posting listed
      rcases List.mem_append.mp listed with old | new
      · exact same.filled posting old
      · rw [List.mem_singleton.mp new]
        exact nonempty
    · rw [sent.recorded, Link.sent, List.map_append, List.map_append, same.rows]
      simp [declaredKey, keyOf, sent.len, sent.crc]

theorem Link.Runs.append {before after : List LinkEvent} {start middle final : Link}
    (first : Link.Runs crc32c before start middle) (second : Link.Runs crc32c after middle final) :
    Link.Runs crc32c (before ++ after) start final := by
  induction first with
  | done => exact second
  | next possible stepped _ ih => exact .next possible stepped (ih second)

def receivingPeer (args : SendArgs) (receiver : RawReceiver) (cache : ReassemblyCache) : Api.Peer where
  sender := ⟨[]⟩
  receiver := receiver
  cache := cache
  addrs := addrs args
  config := baseConfig args
  policy := ⟨[], false, false⟩
  identifications := .new 0

def handedUp (row : RecvRow) : Option (List UInt8 × Api.ReceivedDatagram) :=
  match row.delivery with
  | .ok (.payload payload) =>
    some (row.datagram, ⟨payload.data, payload.options, payload.reports, payload.ocsReports⟩)
  | _ => none

theorem handedUp_data (rows : List RecvRow) :
    (rows.filterMap handedUp).map (fun entry => entry.2.data) = rows.filterMap payloadOf := by
  rw [List.map_filterMap]
  apply List.filterMap_congr
  intro row _
  rcases row with ⟨_, _, _, error | payload | _ | _⟩ <;> rfl

structure RecvMatch (args : SendArgs) (state : RecvState) (link : Link) : Prop where
  receiver : link.receiver = receivingPeer args state.receiver state.cache
  arrived : link.arrived = state.rows.map RecvRow.datagram
  delivered : link.delivered = state.rows.filterMap handedUp
  sound : ∀ row ∈ state.rows, imprint row.datagram ∈ link.imprints → row.fails = false

private theorem decodeDatagram_lenient {datagram : List UInt8} {cache after : ReassemblyCache} {now : Nat}
    {result : Except RecvError Delivery}
    (processed : processDatagram crc32c datagram cache now = .ok (result, after)) :
    Api.decodeDatagram crc32c datagram cache now ⟨[], false, false⟩ =
      .ok (result.map (passedOn ⟨[], false, false⟩), after) := by
  unfold Api.decodeDatagram Api.decodeProcessed
  rw [processed]
  rcases result with error | payload | _ | _ <;> rfl

variable {fleet : Fleet crc32c (addrs args)} {link : Link}

theorem Kept.summarized (kept : Kept fleet link) {datagram : List UInt8} (carried : imprint datagram ∈ link.imprints)
    (headed : Headed datagram) : ∃ summary, summarize datagram = .ok (.ok summary) := by
  obtain ⟨written, wired, same⟩ := List.mem_map.mp carried
  obtain ⟨posting, posted, member⟩ := kept.wired written wired
  obtain ⟨opened, rfl, opening, _⟩ := kept.posted_inFlow posted member
  have relays : Relays opened.datagram datagram := ⟨same.symm, headed⟩
  obtain ⟨again, reopening, alike⟩ := relays.opens opening
  obtain ⟨parsed, udp⟩ := openDatagram_headers reopening
  obtain ⟨well, _⟩ := openDatagram_well opening
  obtain ⟨againWell, _⟩ := openDatagram_well reopening
  have whole : datagram.length = again.ipEnd := by rw [relays.length, well.length, alike.ipEnd]
  rw [← againWell.stop, ← whole, List.take_length] at udp
  have inside : again.udpAt ≤ datagram.length := by
    have room := againWell.room
    omega
  unfold summarize
  rw [parsed]
  dsimp only
  rw [Checked.slice_of_le inside (Nat.le_refl _), Checked.ok_bind, List.take_length, udp]
  exact ⟨_, rfl⟩

theorem Kept.processed (kept : Kept fleet link) {datagram : List UInt8} (carried : imprint datagram ∈ link.imprints)
    (headed : Headed datagram) (now : Nat) :
    ∃ delivery after, processDatagram crc32c datagram link.receiver.cache now = .ok (.ok delivery, after) := by
  obtain ⟨posting, posted, member⟩ := kept.carried carried
  cases (kept.logged posting posted).imprinted member with
  | @whole opened _ accepted serialized sent _ same =>
    have relays : Relays opened.datagram datagram := ⟨same, headed⟩
    obtain ⟨delivered, _, handles⟩ := sent.processed_faithful accepted serialized
    exact ⟨_, _, (relays.processed sent.opening crc32c _ now).trans (handles _ now)⟩
  | @split id shipment known _ _ _ range listed same =>
    have relays : Relays (shipment.datagramOf range) datagram := ⟨same, headed⟩
    obtain ⟨left, remaining⟩ := kept.tallied_gc now known
    rw [← kept.named id shipment known] at remaining
    obtain ⟨delivery, after, executed, _⟩ := Shipment.receive_arrives listed remaining.holds
    exact ⟨delivery, after, (relays.processed (shipment.sent range listed).opening crc32c _ now).trans executed⟩

theorem RecvMatch.idle {state : RecvState} (same : RecvMatch args state link) {call : ReceiveCall} (now : Nat)
    {result : Option (Except SocketError (Option (List UInt8)))} {receiver : RawReceiver}
    (raw : state.receiver.recv call = .ok (result, receiver)) (nothing : handedOver result = none) :
    ∃ after, link.step crc32c (.recv call now) = .ok after ∧
      RecvMatch args { state with receiver := receiver } after ∧ after.sender = link.sender ∧
      after.ledger = link.ledger := by
  refine ⟨{ link with receiver := receivingPeer args receiver state.cache }, ?_,
    ⟨rfl, same.arrived, same.delivered, same.sound⟩, rfl, rfl⟩
  unfold Link.step Api.Peer.recv
  dsimp only
  rw [same.receiver]
  dsimp only [receivingPeer]
  rw [raw, Checked.ok_bind, Checked.ok_bind]
  rcases result with _ | error | _ | datagram
  · simp [handedOver]
  · simp [handedOver]
  · simp [handedOver]
  · cases nothing

/-- The tool takes a datagram as the peer does. -/
theorem RecvMatch.take {state final : RecvState} (same : RecvMatch args state link) (kept : Kept fleet link)
    {call : ReceiveCall} {now : Nat} {datagram : List UInt8} {receiver : RawReceiver}
    (raw : state.receiver.recv call = .ok (some (.ok (some datagram)), receiver))
    (taken : takeDatagram crc32c datagram now { state with receiver := receiver } = .ok final) :
    ∃ after, link.step crc32c (.recv call now) = .ok after ∧ RecvMatch args final after ∧
      after.sender = link.sender ∧ after.ledger = link.ledger := by
  obtain ⟨summary, summarized, taken⟩ := Checked.bind_eq_ok.mp taken
  obtain ⟨⟨delivery, cache⟩, processed, taken⟩ := Checked.bind_eq_ok.mp taken
  cases taken
  dsimp only at processed
  generalize fresh : (⟨state.rows.length + 1, datagram, summary, delivery⟩ : RecvRow) = row
  refine ⟨{ link with
    receiver := receivingPeer args receiver cache
    arrived := link.arrived ++ [datagram]
    delivered := link.delivered ++ (handedUp row).toList }, ?_, ⟨rfl, ?_, ?_, ?_⟩, rfl, rfl⟩
  · unfold Link.step Api.Peer.recv Api.Peer.decode
    dsimp only
    rw [same.receiver]
    dsimp only [receivingPeer]
    rw [raw, Checked.ok_bind, Checked.ok_bind]
    dsimp only
    rw [decodeDatagram_lenient processed, Checked.ok_bind]
    subst fresh
    rcases delivery with error | payload | _ | _ <;> rfl
  · rw [same.arrived, ← fresh, List.map_append, List.map_singleton]
  · rw [same.delivered, List.filterMap_append]
    cases found : handedUp row <;> simp [found]
  · intro listed member carried
    rcases List.mem_append.mp member with old | new
    · exact same.sound listed old carried
    · obtain rfl := List.mem_singleton.mp new
      subst fresh
      have headed : Headed datagram := by
        obtain ⟨result, after, executed, passed⟩ := recv_taken state.receiver call
        cases executed.symm.trans raw
        obtain ⟨_, _, _, _, _, passes, rfl⟩ := passed datagram rfl
        exact passes.headed
      obtain ⟨wire, known⟩ := kept.summarized carried headed
      obtain ⟨handed, after, executed⟩ := kept.processed carried headed now
      cases known.symm.trans summarized
      rw [same.receiver] at executed
      cases executed.symm.trans processed
      rfl

end

end UdpOptions.Proofs
