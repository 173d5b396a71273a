import UdpOptions.Proofs.LinkInvariant

/-! What a link delivers. Over every run, whatever the network does to the datagrams
of one peer short of changing their imprints, the other peer hands up nothing that was
not sent: every delivery of the flow has the payload and the options of one logical send,
and no send is delivered more often than each of its datagrams arrived. -/

namespace UdpOptions.Proofs
open Library Model

section
variable {crc32c : List UInt8 → UInt32} {addrs : Api.DatagramAddrs}

/-- Whatever the network does, the receiver hands up only what the sender sent: a
delivery that a datagram of the flow caused has the payload, the reportable options
and the reports of the logical send that datagram was built for. -/
theorem link_delivers_what_was_sent {events : List LinkEvent} {start final : Link} (fresh : Fresh start)
    (runs : Link.Runs crc32c events start final) {datagram : List UInt8} {received : Api.ReceivedDatagram}
    (handedUp : (datagram, received) ∈ final.delivered) {opened : Opened}
    (opening : openDatagram datagram = .ok (.ok opened)) (inFlow : InFlow start.sender.addrs opened) :
    ∃ posting ∈ final.ledger, imprint datagram ∈ posting.imprints ∧ received.data = posting.payload ∧
      received.options =
        reportableOptions crc32c posting.payload (Api.sentOptions crc32c posting.payload posting.options) ∧
      received.reports =
        deliveredReports crc32c posting.payload (Api.sentOptions crc32c posting.payload posting.options) := by
  obtain ⟨fleet, kept⟩ := (Fresh.kept fresh).run runs
  rcases kept.origin _ handedUp with apart | ⟨posting, posted, caused, payload, faithful, rfl⟩
  · exact absurd inFlow (apart.other opened opening)
  · exact ⟨posting, posted, caused, faithful.data, faithful.visible, faithful.reported⟩

theorem Kept.deliveries_le {fleet : Fleet crc32c addrs} {link : Link} (kept : Kept fleet link) {posting : Posting}
    (posted : posting ∈ link.ledger) {print : List UInt8} (member : print ∈ posting.imprints) :
    deliveries link.delivered posting.imprints ≤ link.arrivals.count print := by
  cases (kept.logged posting posted).imprinted member with
  | whole _ _ _ single same =>
    rw [single, ← same]
    exact kept.once _
  | @split id shipment known _ _ imprints range listed same =>
    obtain ⟨seen, tallied⟩ := kept.tallied id shipment known
    rw [imprints, same]
    exact Nat.le_trans (Nat.le_add_right _ _) (tallied.counted range listed)

/-- No send is delivered more often than each of its datagrams arrived: neither a
repeated nor an interleaved fragment completes a payload a second time. -/
theorem link_delivers_no_more_than_arrived {events : List LinkEvent} {start final : Link} (fresh : Fresh start)
    (runs : Link.Runs crc32c events start final) {posting : Posting} (posted : posting ∈ final.ledger)
    {datagram : List UInt8} (member : datagram ∈ posting.datagrams) :
    deliveries final.delivered posting.imprints ≤ final.arrivals.count (imprint datagram) := by
  obtain ⟨fleet, kept⟩ := (Fresh.kept fresh).run runs
  exact kept.deliveries_le posted (List.mem_map_of_mem member)

end

def linkAddrs : Api.DatagramAddrs := ⟨⟨10, 0, 0, 1⟩, ⟨10, 0, 0, 2⟩, 1000, 2000⟩

def linkConfig (addrs : Api.DatagramAddrs) : Api.PeerConfig :=
  ⟨addrs, ⟨56, .defaultIpv4, .auto, some 7⟩, ⟨[], false, true⟩, none⟩

def linkAnswers : Api.BindAnswers := ⟨.ok (), .ok (), .ok (), .ok 0⟩

def linkPeer (addrs : Api.DatagramAddrs) : Api.Peer :=
  ⟨⟨[]⟩, .bind addrs.srcPort (some addrs.dstPort) none, .withLimits .default, addrs, ⟨56, .defaultIpv4, .auto, none⟩,
    ⟨[], false, true⟩, .new 7⟩

def openLink : Link := ⟨linkPeer linkAddrs, linkPeer ⟨linkAddrs.dst, linkAddrs.src, 2000, 1000⟩, [], [], []⟩

theorem openLink_fresh : Fresh openLink :=
  @bind_fresh (linkConfig linkAddrs) (linkConfig ⟨linkAddrs.dst, linkAddrs.src, 2000, 1000⟩) linkAnswers linkAnswers
    _ _ rfl rfl

/-- An automatic APC and an MDS, with a payload that takes two datagrams. -/
def linkOptions : Api.SendOptions := ⟨[⟨.mds, [5, 220]⟩], true⟩

def linkPayload : List UInt8 := List.replicate 15 1

def linkDatagrams : List (List UInt8) :=
  match Api.buildOutgoingDatagrams (fun _ => 0) linkAddrs linkPayload linkOptions ⟨56, .defaultIpv4, .auto, some 7⟩ with
  | .ok (.ok datagrams) => datagrams
  | _ => []

def readingOf (datagram : List UInt8) : ReceiveCall := ⟨.ok (), 0, [⟨0, .ok (), .ok datagram⟩], .ok ()⟩

/-- The sender's kernel has filled in an Identification, and a router has counted the
time to live down and computed the header checksum anew. -/
def hop (datagram : List UInt8) : List UInt8 :=
  let header := datagram.take 4 ++ [0x12, 0x34, 0, 0, 63, ipprotoUdp, 0, 0] ++ (datagram.take 20).drop 12
  header.take 10 ++ u16Be (internetChecksum header) ++ datagram.drop 12

/-- The fragments arrive in reverse order, and then the first of them once more. -/
private def linkEvents : List LinkEvent :=
  .send linkPayload linkOptions (fun _ => .ok 56) ::
    (linkDatagrams.reverse ++ linkDatagrams.take 1).map fun datagram => .recv (readingOf (hop datagram)) 5

private theorem linkEvents_run :
    ∃ final first received posting, Link.Runs (fun _ => 0) linkEvents openLink final ∧
      final.delivered = [(first, received)] ∧ final.ledger = [posting] ∧ posting.datagrams = linkDatagrams ∧
      first ∈ linkDatagrams.map hop := by
  have replayed : ((openLink.replay (fun _ => 0) linkEvents).any fun link =>
      decide (link.delivered.length = 1) && decide (link.ledger.map Posting.datagrams = [linkDatagrams]) &&
        link.delivered.all fun entry => decide (entry.1 ∈ linkDatagrams.map hop)) = true := by decide +kernel
  cases known : openLink.replay (fun _ => 0) linkEvents with
  | none =>
    rw [known] at replayed
    cases replayed
  | some final =>
    rw [known, Option.any_some, Bool.and_eq_true, Bool.and_eq_true, decide_eq_true_eq, decide_eq_true_eq] at replayed
    obtain ⟨⟨single, logged⟩, inside⟩ := replayed
    obtain ⟨⟨first, received⟩, handed⟩ := List.length_eq_one_iff.mp single
    obtain ⟨posting, _, ledger, datagrams, nil⟩ := List.map_eq_cons_iff.mp logged
    rw [List.map_eq_nil_iff.mp nil] at ledger
    refine ⟨final, first, received, posting, Link.replay_runs _ known, handed, ledger, datagrams, ?_⟩
    exact of_decide_eq_true (List.all_eq_true.mp inside (first, received) (by simp [handed]))

private theorem linkDatagrams_opened {datagram : List UInt8} (member : datagram ∈ linkDatagrams.map hop) :
    ∃ opened, openDatagram datagram = .ok (.ok opened) ∧ InFlow linkAddrs opened := by
  have opened : ((linkDatagrams.map hop).all fun datagram =>
      ((openDatagram datagram).toOption.bind Except.toOption).any fun opened => InFlow linkAddrs opened) = true := by
    decide +kernel
  have found := List.all_eq_true.mp opened datagram member
  cases opening : openDatagram datagram with
  | error fault =>
    rw [opening] at found
    cases found
  | ok result =>
    cases result with
    | error error =>
      rw [opening] at found
      cases found
    | ok opened =>
      rw [opening] at found
      exact ⟨opened, rfl, of_decide_eq_true found⟩

/-- The payload reassembled from the rewritten fragments is the one that was sent. -/
theorem link_delivers_reversed_fragments :
    ∃ final datagram received, Link.Runs (fun _ => 0) linkEvents openLink final ∧
      final.delivered = [(datagram, received)] ∧
      ∃ posting ∈ final.ledger, imprint datagram ∈ posting.imprints ∧ received.data = posting.payload ∧
        received.options = reportableOptions (fun _ => 0) posting.payload
          (Api.sentOptions (fun _ => 0) posting.payload posting.options) ∧
        received.reports = deliveredReports (fun _ => 0) posting.payload
          (Api.sentOptions (fun _ => 0) posting.payload posting.options) := by
  obtain ⟨final, datagram, received, _, runs, delivered, _, _, member⟩ := linkEvents_run
  obtain ⟨opened, opening, inFlow⟩ := linkDatagrams_opened member
  exact ⟨final, datagram, received, runs, delivered,
    link_delivers_what_was_sent openLink_fresh runs (delivered ▸ List.mem_singleton_self _) opening inFlow⟩

/-- The third arrival repeats a datagram and delivers nothing. -/
theorem link_delivers_once :
    ∃ final posting, Link.Runs (fun _ => 0) linkEvents openLink final ∧ final.ledger = [posting] ∧
      ∀ datagram ∈ posting.datagrams,
        deliveries final.delivered posting.imprints ≤ final.arrivals.count (imprint datagram) := by
  obtain ⟨final, _, _, posting, runs, _, ledger, _, _⟩ := linkEvents_run
  exact ⟨final, posting, runs, ledger, fun datagram member =>
    link_delivers_no_more_than_arrived openLink_fresh runs (ledger ▸ List.mem_singleton_self _) member⟩

end UdpOptions.Proofs
