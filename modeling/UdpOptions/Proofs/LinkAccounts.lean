import UdpOptions.Library.Accounts
import UdpOptions.Proofs.LinkProgress

/-! The accounts of a link. On a network that repeats nothing, the payloads that are
handed up are covered by the payloads that were sent, each as often as it was sent. Two
datagrams with one imprint are copies of each other. -/

namespace UdpOptions.Proofs
open Library Model

section
variable {crc32c : List UInt8 → UInt32} {addrs : Api.DatagramAddrs} {fleet : Fleet crc32c addrs} {link : Link}

/-- An imprint names the send it was built for: its payload and all its imprints. -/
theorem Kept.one_posting (kept : Kept fleet link) {posting other : Posting} (posted : posting ∈ link.ledger)
    (otherPosted : other ∈ link.ledger) {print : List UInt8} (member : print ∈ posting.imprints)
    (otherMember : print ∈ other.imprints) :
    posting.imprints = other.imprints ∧ posting.payload = other.payload := by
  cases (kept.logged posting posted).imprinted member with
  | whole accepted serialized sent single same =>
    cases (kept.logged other otherPosted).imprinted otherMember with
    | whole _ _ otherSent otherSingle otherSame =>
      have relays : Relays _ _ := ⟨same.symm.trans otherSame, headed_of_opens sent.opening⟩
      obtain ⟨again, reopening, alike⟩ := relays.opens otherSent.opening
      cases reopening.symm.trans sent.opening
      refine ⟨?_, ?_⟩
      · rw [single, otherSingle, ← same, otherSame]
      · rw [← sent.userData, alike.userData, otherSent.userData]
    | split _ _ _ imprints =>
      rw [imprints, same] at otherMember
      exact absurd otherMember (Shipment.not_mem_whole sent accepted serialized)
  | @split id shipment known payload _ imprints =>
    cases (kept.logged other otherPosted).imprinted otherMember with
    | whole accepted serialized sent _ same =>
      rw [imprints, same] at member
      exact absurd member (Shipment.not_mem_whole sent accepted serialized)
    | @split otherId otherShipment otherKnown otherPayload _ otherImprints =>
      rw [imprints] at member
      rw [otherImprints] at otherMember
      have same := Shipment.same_identification member otherMember
      rw [kept.named id shipment known, kept.named otherId otherShipment otherKnown] at same
      rw [same, otherKnown, Option.some.injEq] at known
      rw [imprints, otherImprints, ← payload, ← otherPayload, known]
      exact ⟨rfl, rfl⟩

theorem Kept.imprints_nodup (kept : Kept fleet link) {posting : Posting} (posted : posting ∈ link.ledger) :
    posting.imprints.Nodup := by
  rw [Posting.imprints]
  cases kept.logged posting posted with
  | nothing none =>
    rw [none]
    exact List.nodup_nil
  | whole _ _ _ single =>
    rw [single]
    exact List.nodup_singleton _
  | @split _ shipment _ _ _ datagrams =>
    rw [datagrams, Shipment.datagrams, List.map_map]
    apply List.Nodup.map_on _ shipment.chunks.nodup
    intro range member other otherMember same
    exact Shipment.imprint_injective member otherMember same

def Link.ownDeliveries (link : Link) : List (List UInt8 × Api.ReceivedDatagram) :=
  link.delivered.filter fun entry => link.imprints.contains (imprint entry.1)

/-- All the imprints of the send that a datagram was built for. -/
def Link.sendOf (link : Link) (datagram : List UInt8) : List (List UInt8) :=
  ((link.ledger.find? fun posting => posting.imprints.contains (imprint datagram)).map Posting.imprints).getD []

theorem Kept.sendOf_eq (kept : Kept fleet link) {posting : Posting} (posted : posting ∈ link.ledger)
    {datagram : List UInt8} (member : imprint datagram ∈ posting.imprints) :
    link.sendOf datagram = posting.imprints := by
  unfold Link.sendOf
  cases found : link.ledger.find? fun posting => posting.imprints.contains (imprint datagram) with
  | none =>
    have absent := List.find?_eq_none.mp found posting posted
    exact absurd (List.contains_iff_mem.mpr member) absent
  | some other =>
    have inside : imprint datagram ∈ other.imprints := by simpa using List.find?_some found
    exact (kept.one_posting (List.mem_of_find?_eq_some found) posted inside member).1

theorem Kept.carried (kept : Kept fleet link) {print : List UInt8} (listed : print ∈ link.imprints) :
    ∃ posting ∈ link.ledger, print ∈ posting.imprints := by
  obtain ⟨written, wired, rfl⟩ := List.mem_map.mp listed
  obtain ⟨posting, posted, member⟩ := kept.wired written wired
  exact ⟨posting, posted, List.mem_map_of_mem member⟩

theorem Kept.own_origin (kept : Kept fleet link) {entry : List UInt8 × Api.ReceivedDatagram}
    (listed : entry ∈ link.ownDeliveries) :
    ∃ posting ∈ link.ledger, posting.imprints = link.sendOf entry.1 ∧ imprint entry.1 ∈ posting.imprints ∧
      posting.payload = entry.2.data := by
  obtain ⟨delivered, own⟩ := List.mem_filter.mp listed
  obtain ⟨posting, posted, member⟩ := kept.carried (List.contains_iff_mem.mp own)
  have named := kept.sendOf_eq posted member
  rcases kept.origin entry delivered with apart | ⟨other, otherPosted, otherMember, payload, faithful, same⟩
  · exact absurd apart (kept.not_apart posted member)
  · refine ⟨posting, posted, named.symm, member, ?_⟩
    rw [(kept.one_posting posted otherPosted member otherMember).2, same]
    exact faithful.data.symm

def Link.filled (link : Link) : List Posting := link.ledger.filter fun posting => !posting.datagrams.isEmpty

theorem Link.mem_filled {posting : Posting} (posted : posting ∈ link.ledger) {print : List UInt8}
    (member : print ∈ posting.imprints) : posting ∈ link.filled := by
  apply List.mem_filter.mpr ⟨posted, ?_⟩
  cases nonempty : posting.datagrams with
  | nil =>
    rw [Posting.imprints, nonempty] at member
    cases member
  | cons => rfl

theorem Link.filled_imprint {posting : Posting} (listed : posting ∈ link.filled) :
    ∃ print, print ∈ posting.imprints := by
  obtain ⟨_, nonempty⟩ := List.mem_filter.mp listed
  obtain ⟨datagram, member⟩ : ∃ datagram, datagram ∈ posting.datagrams :=
    List.exists_mem_of_ne_nil _ (by simpa using nonempty)
  exact ⟨_, List.mem_map_of_mem member⟩

/-- A send is delivered no more often than it was made, if nothing arrives more often than it was written. -/
theorem Kept.own_counted (kept : Kept fleet link)
    (within : link.wire.Sublist (link.ledger.flatMap Posting.datagrams))
    (unrepeated : ∀ print ∈ link.imprints, link.arrivals.count print ≤ link.imprints.count print) {posting : Posting}
    (posted : posting ∈ link.ledger) {print : List UInt8} (member : print ∈ posting.imprints)
    (written : print ∈ link.imprints) :
    (link.ownDeliveries.map fun entry => link.sendOf entry.1).count posting.imprints ≤
      (link.filled.map Posting.imprints).count posting.imprints := by
  have taken : (link.ownDeliveries.map fun entry => link.sendOf entry.1).count posting.imprints ≤
      deliveries link.ownDeliveries posting.imprints := by
    rw [List.count, List.countP_map]
    apply List.countP_mono_left
    intro entry listed same
    obtain ⟨other, _, named, inside, _⟩ := kept.own_origin listed
    rw [Function.comp_apply, beq_iff_eq, ← named] at same
    rw [same] at inside
    exact List.contains_iff_mem.mpr inside
  have own : deliveries link.ownDeliveries posting.imprints ≤ deliveries link.delivered posting.imprints :=
    List.filter_sublist.countP_le
  have once : (link.ledger.flatMap Posting.imprints).count print ≤
      (link.ledger.map Posting.imprints).count posting.imprints := by
    apply count_flatMap_le
    · exact fun other listed => kept.imprints_nodup listed
    · exact fun other listed inside => (kept.one_posting listed posted inside member).1
  have filled : (link.ledger.map Posting.imprints).count posting.imprints ≤
      (link.filled.map Posting.imprints).count posting.imprints := by
    rw [List.count, List.countP_map, List.countP_map, Link.filled, List.countP_filter]
    apply List.countP_mono_left
    intro other listed same
    have inside : print ∈ other.imprints := by
      rw [Function.comp_apply, beq_iff_eq] at same
      rw [same]
      exact member
    rw [same, Bool.true_and]
    exact (List.mem_filter.mp (Link.mem_filled listed inside)).2
  have printed : link.imprints.Sublist (link.ledger.flatMap Posting.imprints) := by
    have mapped := within.map imprint
    rwa [List.map_flatMap] at mapped
  calc (link.ownDeliveries.map fun entry => link.sendOf entry.1).count posting.imprints
      ≤ deliveries link.delivered posting.imprints := Nat.le_trans taken own
    _ ≤ link.arrivals.count print := kept.deliveries_le posted member
    _ ≤ link.imprints.count print := unrepeated print written
    _ ≤ (link.ledger.flatMap Posting.imprints).count print := printed.count_le print
    _ ≤ (link.filled.map Posting.imprints).count posting.imprints := Nat.le_trans once filled

theorem Kept.own_covered (kept : Kept fleet link)
    (within : link.wire.Sublist (link.ledger.flatMap Posting.datagrams))
    (unrepeated : ∀ print ∈ link.imprints, link.arrivals.count print ≤ link.imprints.count print) :
    (link.ownDeliveries.map fun entry => entry.2.data).Subperm (link.filled.map Posting.payload) := by
  apply subperm_of_classes (fun entry => link.sendOf entry.1) Posting.imprints
  · intro entry listed
    obtain ⟨posting, posted, named, member, payload⟩ := kept.own_origin listed
    exact ⟨posting, Link.mem_filled posted member, named, payload⟩
  · intro posting listed other otherListed same
    obtain ⟨print, member⟩ := Link.filled_imprint listed
    exact (kept.one_posting (List.mem_filter.mp listed).1 (List.mem_filter.mp otherListed).1 member (same ▸ member)).2
  · intro entry listed
    obtain ⟨posting, posted, named, member, _⟩ := kept.own_origin listed
    rw [← named]
    exact kept.own_counted within unrepeated posted member (List.contains_iff_mem.mp (List.mem_filter.mp listed).2)

end

end UdpOptions.Proofs
