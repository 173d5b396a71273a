import UdpOptions.Peer
import UdpOptions.Proofs.Identifications
import UdpOptions.Proofs.Imprints
import UdpOptions.Proofs.RawReceive
import UdpOptions.Proofs.ReceiveSafety
import UdpOptions.Proofs.Shipments

/-! Two peers and the network between them. The network may lose, repeat, delay and
reorder the datagrams one peer writes, and rewrite all of their IPv4 headers that is not
in their imprints; traffic of other flows may reach the other peer at any time. What was
posted, what arrived and what was delivered is kept as a history that no step reads. -/

namespace UdpOptions.Proofs
open Library Model

/-- One logical send, with the datagrams built for it. -/
structure Posting where
  payload : List UInt8
  options : Api.SendOptions
  datagrams : List (List UInt8)

structure Link where
  sender : Api.Peer
  receiver : Api.Peer
  ledger : List Posting
  arrived : List (List UInt8)
  delivered : List (List UInt8 × Api.ReceivedDatagram)

/-- A call on one of the peers, with the answers of its operating system. -/
inductive LinkEvent where
  | send (payload : List UInt8) (options : Api.SendOptions) (answers : Nat → Except IoError Nat)
  | recv (call : ReceiveCall) (now : Nat)
  | gc (now : Nat)

def Posting.imprints (posting : Posting) : List (List UInt8) := posting.datagrams.map imprint

def Link.wire (link : Link) : List (List UInt8) := link.sender.sender.written.map Prod.snd

/-- What the network can hand over of the datagrams that were written. -/
def Link.imprints (link : Link) : List (List UInt8) := link.wire.map imprint

def Link.arrivals (link : Link) : List (List UInt8) := link.arrived.map imprint

/-- The headers of the datagram name another flow. -/
def Foreign (addrs : Api.DatagramAddrs) (data : List UInt8) : Prop :=
  ∀ ip udpAt udp, IpRepr.parse data = .ok (ip, udpAt) → UdpHeader.parse (data.drop udpAt) = .ok udp →
    ¬ (ip.src = addrs.src ∧ ip.dst = addrs.dst ∧ udp.srcPort = addrs.srcPort ∧ udp.dstPort = addrs.dstPort)

/-- The receiver reads what the network made of a written datagram, or what belongs to
another flow. Nothing is said about the header fields outside the imprint, so the header
checksum need not verify. -/
def LinkEvent.Possible (link : Link) : LinkEvent → Prop
  | .send .. => True
  | .recv call _ => ∀ turn ∈ call.turns, ∀ data, turn.read = .ok data →
      imprint data ∈ link.imprints ∨ Foreign link.sender.addrs data
  | .gc _ => True

def handedOver : Option (Except SocketError (Option (List UInt8))) → Option (List UInt8)
  | some (.ok (some datagram)) => some datagram
  | _ => none

def receivedOf : Option (Except SocketError (Option Api.ReceivedDatagram)) → Option Api.ReceivedDatagram
  | some (.ok (some received)) => some received
  | _ => none

section
variable (crc32c : List UInt8 → UInt32)

def Link.step (link : Link) : LinkEvent → Checked Link
  | .send payload options answers => do
    let (built, _) ← Api.buildPeerOutgoingDatagrams crc32c link.sender.addrs payload options link.sender.config
      link.sender.identifications
    let (_, sender) ← link.sender.send crc32c payload options answers
    return { link with
      sender := sender
      ledger := link.ledger ++ [⟨payload, options, built.toOption.getD []⟩] }
  | .recv call now => do
    let (raw, _) ← link.receiver.receiver.recv call
    let (result, receiver) ← link.receiver.recv crc32c call now
    let arrival := (handedOver raw).toList
    return { link with
      receiver := receiver
      arrived := link.arrived ++ arrival
      delivered := link.delivered ++ arrival.flatMap fun datagram =>
        ((receivedOf result).map fun received => (datagram, received)).toList }
  | .gc now => return { link with receiver := link.receiver.gc now }

/-- The runs of a link: every event is possible where it happens. -/
inductive Link.Runs : List LinkEvent → Link → Link → Prop where
  | done {link : Link} : Runs [] link link
  | next {event : LinkEvent} {events : List LinkEvent} {link middle final : Link} (possible : event.Possible link)
      (stepped : link.step crc32c event = .ok middle) (rest : Runs events middle final) :
      Runs (event :: events) link final

def LinkEvent.onWire (link : Link) : LinkEvent → Bool
  | .send .. => true
  | .recv call _ => call.turns.all fun turn =>
    match turn.read with
    | .ok data => link.imprints.contains (imprint data)
    | .error _ => true
  | .gc _ => true

def Link.replay (link : Link) : List LinkEvent → Option Link
  | [] => some link
  | event :: rest =>
    if event.onWire link then
      match link.step crc32c event with
      | .ok next => next.replay rest
      | .error _ => none
    else none

theorem LinkEvent.onWire_possible {event : LinkEvent} {link : Link} (wired : event.onWire link = true) :
    event.Possible link := by
  cases event with
  | send => trivial
  | gc => trivial
  | recv call now =>
    intro turn member data read
    have checked := List.all_eq_true.mp wired turn member
    rw [read] at checked
    exact .inl (List.contains_iff_mem.mp checked)

theorem Link.replay_runs {events : List LinkEvent} {link final : Link}
    (replayed : link.replay crc32c events = some final) : Link.Runs crc32c events link final := by
  induction events generalizing link with
  | nil =>
    cases replayed
    exact .done
  | cons event rest ih =>
    unfold Link.replay at replayed
    split at replayed
    next wired =>
      split at replayed
      next next stepped => exact .next (LinkEvent.onWire_possible wired) stepped (ih replayed)
      · cases replayed
    · cases replayed

def deliveredOf (datagram : List UInt8) : Except RecvError Api.ApiDelivery → List (List UInt8 × Api.ReceivedDatagram)
  | .ok (.received received) => [(datagram, received)]
  | _ => []

inductive LinkMove (link : Link) (unnamed : link.sender.config.identification = none) : LinkEvent → Link → Prop where
  | posted {payload : List UInt8} {options : Api.SendOptions} {answers : Nat → Except IoError Nat} {entry : Dispatch}
      {after : IdentificationGenerator} {sent : List (List UInt8)}
      (dispatched : DispatchCase crc32c ⟨link.sender.addrs, payload, options, link.sender.config, unnamed⟩
        link.sender.identifications entry after)
      (written : sent <+: entry.result.toOption.getD []) :
      LinkMove link unnamed (.send payload options answers)
        { link with
          sender := { link.sender with
            sender := ⟨link.sender.sender.written ++ sent.map fun datagram => (link.sender.addrs.dst, datagram)⟩
            identifications := after }
          ledger := link.ledger ++ [⟨payload, options, entry.result.toOption.getD []⟩] }
  | idle {call : ReceiveCall} {now : Nat} {raw : RawReceiver} :
      LinkMove link unnamed (.recv call now) { link with receiver := { link.receiver with receiver := raw } }
  | took {call : ReceiveCall} {now : Nat} {raw : RawReceiver} {turn : ReadTurn} {data : List UInt8} {len : Nat}
      {decoded : Except RecvError Api.ApiDelivery} {cache : ReassemblyCache} (member : turn ∈ call.turns)
      (read : turn.read = .ok data) (passes : Passes link.receiver.receiver data len)
      (decoding : Api.decodeDatagram crc32c (data.take len) link.receiver.cache now link.receiver.policy =
        .ok (decoded, cache)) :
      LinkMove link unnamed (.recv call now)
        { link with
          receiver := { link.receiver with receiver := raw, cache := cache }
          arrived := link.arrived ++ [data.take len]
          delivered := link.delivered ++ deliveredOf (data.take len) decoded }
  | collected {now : Nat} : LinkMove link unnamed (.gc now) { link with receiver := link.receiver.gc now }

private theorem transmit_written (answers : Nat → Except IoError Nat) (dst : Ipv4Addr) (datagrams : List (List UInt8))
    (index bytes : Nat) (sender : RawSender) :
    ∃ sent, sent <+: datagrams ∧
      (Api.transmit answers dst datagrams index bytes sender).2 =
        ⟨sender.written ++ sent.map fun datagram => (dst, datagram)⟩ := by
  induction datagrams generalizing index bytes sender with
  | nil => exact ⟨[], List.prefix_rfl, by simp [Api.transmit]⟩
  | cons datagram rest ih =>
    unfold Api.transmit RawSender.send
    cases answers index with
    | error error => exact ⟨[], List.nil_prefix, by simp⟩
    | ok count =>
      dsimp only
      cases checkedAdd bytes count with
      | none => exact ⟨[datagram], ⟨rest, rfl⟩, by simp⟩
      | some total =>
        obtain ⟨sent, front, written⟩ := ih (index + 1) total ⟨sender.written ++ [(dst, datagram)]⟩
        refine ⟨datagram :: sent, List.cons_prefix_cons.mpr ⟨rfl, front⟩, ?_⟩
        dsimp only
        rw [written]
        simp

private theorem step_posted (link : Link) (unnamed : link.sender.config.identification = none) (payload : List UInt8)
    (options : Api.SendOptions) (answers : Nat → Except IoError Nat) :
    ∃ final, link.step crc32c (.send payload options answers) = .ok final ∧
      LinkMove crc32c link unnamed (.send payload options answers) final := by
  obtain ⟨entry, after, executed, dispatched⟩ := dispatch_case crc32c
    ⟨link.sender.addrs, payload, options, link.sender.config, unnamed⟩ link.sender.identifications
  obtain ⟨⟨result, generator⟩, built, recorded⟩ := Checked.bind_eq_ok.mp executed
  cases recorded
  dsimp only at built
  unfold Link.step Api.Peer.send
  dsimp only
  rw [built, Checked.ok_bind, Checked.ok_bind]
  cases result with
  | error error =>
    refine ⟨_, rfl, ?_⟩
    have moved := @LinkMove.posted crc32c link unnamed payload options answers _ _ [] dispatched List.nil_prefix
    simpa using moved
  | ok datagrams =>
    dsimp only
    obtain ⟨sent, front, written⟩ := transmit_written answers link.sender.addrs.dst datagrams 0 0 link.sender.sender
    generalize Api.transmit answers link.sender.addrs.dst datagrams 0 0 link.sender.sender = transmitted at written
    obtain ⟨outcome, sender⟩ := transmitted
    cases written
    have moved := @LinkMove.posted crc32c link unnamed payload options answers _ _ sent dispatched front
    cases outcome with
    | error error => exact ⟨_, rfl, moved⟩
    | ok bytes => exact ⟨_, rfl, moved⟩

private theorem step_received (link : Link) (unnamed : link.sender.config.identification = none) (call : ReceiveCall)
    (now : Nat) :
    ∃ final, link.step crc32c (.recv call now) = .ok final ∧ LinkMove crc32c link unnamed (.recv call now) final := by
  obtain ⟨result, raw, executed, taken⟩ := recv_taken link.receiver.receiver call
  unfold Link.step Api.Peer.recv
  dsimp only
  rw [executed, Checked.ok_bind, Checked.ok_bind]
  have nothing : LinkMove crc32c link unnamed (.recv call now)
      { link with receiver := { link.receiver with receiver := raw }, arrived := link.arrived ++ []
                  delivered := link.delivered ++ [] } := by
    rw [List.append_nil, List.append_nil]
    exact .idle
  rcases result with _ | error | _ | datagram
  · exact ⟨_, rfl, nothing⟩
  · exact ⟨_, rfl, nothing⟩
  · exact ⟨_, rfl, nothing⟩
  · obtain ⟨turn, member, data, len, read, passes, rfl⟩ := taken datagram rfl
    obtain ⟨⟨decoded, cache⟩, decoding⟩ :=
      decodeDatagram_total crc32c (data.take len) link.receiver.cache now link.receiver.policy
    have moved := @LinkMove.took crc32c link unnamed call now raw turn data len decoded cache member read passes decoding
    unfold Api.Peer.decode
    dsimp only
    rw [decoding, Checked.ok_bind]
    rcases decoded with error | received | _ | _ | _
    all_goals exact ⟨_, rfl, moved⟩

theorem Foreign.apart {addrs : Api.DatagramAddrs} {receiver : RawReceiver} {data : List UInt8} {len : Nat}
    (foreign : Foreign addrs data) (passes : Passes receiver data len) {opened : Opened}
    (opening : openDatagram (data.take len) = .ok (.ok opened)) : ¬ InFlow addrs opened := by
  obtain ⟨ip, udpAt, udp, admits, rfl⟩ := filterDatagram_delivers passes
  have front := parse_front admits.ipParsed []
  rw [List.append_nil] at front
  obtain ⟨ipParsed, udpParsed⟩ := openDatagram_headers opening
  have same := front.symm.trans ipParsed
  rw [Except.ok.injEq, Prod.mk.injEq] at same
  obtain ⟨rfl, rfl⟩ := same
  have room := (udp_parse_accepted udpParsed).1
  rw [List.take_take, List.drop_take] at udpParsed room
  have again := udp_parse_front admits.udpParsed (Nat.le_trans room (List.length_take_le _ _)) []
  rw [List.append_nil] at again
  cases again.symm.trans udpParsed
  exact foreign opened.ip opened.udpAt opened.udp admits.ipParsed admits.udpParsed

theorem Passes.headed {receiver : RawReceiver} {data : List UInt8} {len : Nat} (passes : Passes receiver data len) :
    Headed (data.take len) := by
  obtain ⟨ip, udpAt, udp, admits, rfl⟩ := filterDatagram_delivers passes
  have front := parse_front admits.ipParsed []
  rw [List.append_nil] at front
  exact ⟨_, front⟩

/-- What the network made of a datagram is handed over whole. -/
theorem Passes.relays {receiver : RawReceiver} {opened : Opened} {data : List UInt8} {len : Nat}
    (passes : Passes receiver data len) (same : imprint data = imprint opened.datagram)
    (opening : openDatagram opened.datagram = .ok (.ok opened)) : Relays opened.datagram (data.take len) := by
  obtain ⟨ip, udpAt, udp, admits, rfl⟩ := filterDatagram_delivers passes
  have relays : Relays opened.datagram data := ⟨same, _, admits.ipParsed⟩
  have parsed := admits.ipParsed.symm.trans (relays.parsed (openDatagram_parsed opening))
  rw [Except.ok.injEq, Prod.mk.injEq] at parsed
  obtain ⟨rfl, rfl⟩ := parsed
  have total : opened.ip.headerLen + opened.ip.transportPayloadLen = opened.ip.totalLen.toNat :=
    Nat.add_sub_cancel' (parse_accepted admits.ipParsed).total
  obtain ⟨well, _⟩ := openDatagram_well opening
  rw [List.take_of_length_le (by rw [relays.length, well.length, well.stop, total])]
  exact relays

/-- No event faults, and each does what `LinkMove` says. -/
theorem step_moved (link : Link) (unnamed : link.sender.config.identification = none) (event : LinkEvent) :
    ∃ final, link.step crc32c event = .ok final ∧ LinkMove crc32c link unnamed event final := by
  cases event with
  | send payload options answers => exact step_posted crc32c link unnamed payload options answers
  | recv call now => exact step_received crc32c link unnamed call now
  | gc now => exact ⟨_, rfl, .collected⟩

end

end UdpOptions.Proofs
