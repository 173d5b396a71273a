import UdpOptions.Proofs.ToolRuns

/-! The evaluation as a whole: a run of the sending tool, a network, a run of the
receiving tool, and the comparison of what the two recorded. -/

namespace UdpOptions.Proofs
open Library Model Cli EvalCheck

section
variable {crc32c : List UInt8 → UInt32} {args : SendArgs} {answers : SendAnswers}

/-- A run of both tools and of the network between them. -/
structure Exchange (crc32c : List UInt8 → UInt32) (args : SendArgs) (recvArgs : RecvArgs) (clock : Nat → Nat)
    (sent : SendState) (received : RecvState) (events : List LinkEvent) (start final : Link) : Prop where
  fresh : Fresh start
  addrs : start.sender.addrs = addrs args
  config : start.sender.config = baseConfig args
  limits : start.receiver.cache.limits = recvLimits recvArgs
  policy : start.receiver.policy = ⟨[], false, false⟩
  runs : Link.Runs crc32c events start final
  sends : SendMatch crc32c args sent final
  receives : RecvMatch args received final
  count : final.ledger.length = args.count
  nonempty : 0 < args.count
  timed : ∀ event ∈ events, ∀ now, event.instant? = some now → ∃ turn < recvArgs.count, now = clock turn

def wroteImprints (sent : SendState) : List (List UInt8) := (sent.sender.written.map Prod.snd).map imprint

def tookImprints (received : RecvState) : List (List UInt8) := (received.rows.map RecvRow.datagram).map imprint

theorem Kept.payload_short {flow : Api.DatagramAddrs} {fleet : Fleet crc32c flow} {link : Link}
    (kept : Kept fleet link) {posting : Posting} (posted : posting ∈ link.ledger) (filled : posting.datagrams ≠ []) :
    posting.payload.length ≤ uintMax := by
  have bound : posting.payload.length < 2 ^ 16 := by
    cases kept.logged posting posted with
    | nothing none => exact absurd none filled
    | @whole opened _ _ _ sent _ =>
      obtain ⟨well, _⟩ := openDatagram_well sent.opening
      have total := well.userData_length
      have word := opened.udp.length.toNat_lt
      rw [sent.userData] at total
      omega
    | @split _ shipment _ payload _ _ =>
      have announced := shipment.announced
      have word := shipment.rdos.toNat_lt
      rw [payload] at announced
      omega
  exact Nat.le_of_lt (Nat.lt_of_lt_of_le bound (by decide))

section
variable {recvArgs : RecvArgs} {clock : Nat → Nat} {sent : SendState} {received : RecvState} {events : List LinkEvent}
  {start final : Link}

theorem Exchange.imprints (exchange : Exchange crc32c args recvArgs clock sent received events start final) :
    final.imprints = wroteImprints sent := by
  rw [Link.imprints, Link.wire, exchange.sends.sender]
  rfl

theorem Exchange.arrivals (exchange : Exchange crc32c args recvArgs clock sent received events start final) :
    final.arrivals = tookImprints received := congrArg (List.map imprint) exchange.receives.arrived

theorem Exchange.manifest_length (exchange : Exchange crc32c args recvArgs clock sent received events start final) :
    sent.manifest.length = args.count := by
  have lengths := congrArg List.length exchange.sends.rows
  rwa [List.length_map, List.length_map, exchange.count] at lengths

/-- The comparison accepts what the tools recorded if the payloads agree. -/
theorem Exchange.accepts (exchange : Exchange crc32c args recvArgs clock sent received events start final)
    {fleet : Fleet crc32c start.sender.addrs} (kept : Kept fleet final) (requireDelivery : Bool)
    (own : ∀ print ∈ final.arrivals, print ∈ final.imprints)
    (covered : (final.delivered.map fun entry => entry.2.data).Subperm (final.ledger.map Posting.payload))
    (complete : requireDelivery = true →
      (final.delivered.map fun entry => entry.2.data).Perm (final.ledger.map Posting.payload)) :
    Accepts crc32c ⟨requireDelivery, false, none, none, none⟩ sent.manifest received.rows := by
  have rows : final.ledger.map (fun posting => keyOf crc32c posting.payload) =
      (final.ledger.map Posting.payload).map (keyOf crc32c) := by rw [List.map_map]; rfl
  have short : ∀ data ∈ final.ledger.map Posting.payload, data.length ≤ uintMax := by
    intro data listed
    obtain ⟨posting, posted, rfl⟩ := List.mem_map.mp listed
    exact kept.payload_short posted (exchange.sends.filled posting posted)
  have handed : (final.delivered.map fun entry => entry.2.data) = received.rows.filterMap payloadOf := by
    rw [exchange.receives.delivered, handedUp_data]
  rw [handed] at covered complete
  refine ⟨?_, fun given => absurd rfl given, ?_, nofun, ?_, ?_, ?_, ?_⟩
  · intro empty
    have length := exchange.manifest_length
    have positive := exchange.nonempty
    rw [empty, List.length_nil] at length
    omega
  · intro row listed
    have key : declaredKey row ∈ sent.manifest.map declaredKey := List.mem_map_of_mem listed
    rw [exchange.sends.rows, rows] at key
    obtain ⟨data, member, same⟩ := List.mem_map.mp key
    have len : data.length = row.payloadLen := congrArg Prod.fst same
    exact ⟨len ▸ short data member, nofun, nofun, fun given => absurd rfl given⟩
  · intro row listed
    apply exchange.receives.sound row listed
    apply own
    rw [exchange.arrivals]
    exact List.mem_map_of_mem (List.mem_map_of_mem listed)
  · intro data listed
    exact short data (covered.subset listed)
  · rw [exchange.sends.rows, rows]
    exact subperm_map covered _
  · intro required
    rw [exchange.sends.rows, rows]
    exact (complete required).map _

end

end

end UdpOptions.Proofs
