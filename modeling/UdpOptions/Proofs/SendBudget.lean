import UdpOptions.Proofs.SendPath

/-! The size budget of the send path. Whatever is sent, nothing on the way faults,
each datagram is as long as its IPv4 Total Length and keeps to the limit, and a
send takes several datagrams exactly when one would exceed the limit. -/

namespace UdpOptions.Proofs
open Library Model

/-- A datagram inside a limit, as long as its IPv4 Total Length. -/
structure Sized (limit : Nat) (datagram : List UInt8) : Prop where
  announced : ∃ ip udpAt, IpRepr.parse datagram = .ok (ip, udpAt) ∧ ip.totalLen.toNat = datagram.length
  within : datagram.length ≤ limit

theorem Sent.sized {opened : Opened} {src dst : Ipv4Addr} {srcPort dstPort : UInt16} {payload body : List UInt8}
    (sent : Sent opened src dst srcPort dstPort payload body) {limit : Nat} (within : opened.ipEnd ≤ limit) :
    Sized limit opened.datagram := by
  obtain ⟨well, _⟩ := openDatagram_well sent.opening
  have parsed := openDatagram_parsed sent.opening
  have stop : opened.ip.headerLen + opened.ip.transportPayloadLen = opened.ip.totalLen.toNat :=
    Nat.add_sub_cancel' (parse_accepted parsed).total
  refine ⟨⟨opened.ip, opened.udpAt, parsed, ?_⟩, ?_⟩
  · rw [well.length, well.stop, stop]
  · rw [well.length]
    exact within

private theorem buildDatagram_sized (addrs : Api.DatagramAddrs) (payload : List UInt8) (rawOptions : List RawOption) :
    ∃ result, Api.buildDatagram addrs payload rawOptions = .ok result ∧
      ∀ datagram, result = .ok datagram → Sized 65535 datagram := by
  unfold Api.buildDatagram
  split
  · exact ⟨_, rfl, nofun⟩
  split
  · exact ⟨_, rfl, nofun⟩
  next body serialized =>
    rcases assembleChecked_cases addrs (rawOptionsBody_led serialized) Api.ipv4DatagramLenMax with
      ⟨error, failed⟩ | ⟨opened, whole, sent, within⟩
    · exact ⟨_, failed, nofun⟩
    · refine ⟨_, whole, ?_⟩
      intro datagram same
      cases same
      exact sent.sized (sent.length ▸ within)

/-- The send path never faults. Each datagram it returns has the length of its IPv4
Total Length and keeps to the limit, and a send that succeeds takes several
datagrams, at most as many as the peer accepts, exactly when a single one would
exceed the limit. -/
theorem send_path_sized (crc32c : List UInt8 → UInt32) (addrs : Api.DatagramAddrs) (payload : List UInt8)
    (rawOptions : List RawOption) (options : Api.SendOptions) (config : Api.SendConfig) :
    (∃ result, Api.buildDatagram addrs payload rawOptions = .ok result ∧
      ∀ datagram, result = .ok datagram → Sized 65535 datagram) ∧
    ∃ result, Api.buildOutgoingDatagrams crc32c addrs payload options config = .ok result ∧
      ∀ datagrams, result = .ok datagrams →
        (∀ datagram ∈ datagrams, Sized config.maxDatagramLen datagram) ∧
        (1 < datagrams.length ↔
          ∃ body len, Single crc32c payload options body len ∧ config.maxDatagramLen < len) ∧
        (1 < datagrams.length → datagrams.length ≤ config.peer.maxSegments.toNat) := by
  refine ⟨buildDatagram_sized addrs payload rawOptions, ?_⟩
  have ends := buildOutgoingDatagrams_case crc32c addrs payload options config
  generalize Api.buildOutgoingDatagrams crc32c addrs payload options config = outcome at ends
  cases ends with
  | refused => exact ⟨_, rfl, nofun⟩
  | @single body len opened known fits sent =>
    refine ⟨_, rfl, ?_⟩
    intro datagrams same
    cases same
    refine ⟨?_, iff_of_false (Nat.lt_irrefl 1) ?_, fun several => absurd several (Nat.lt_irrefl 1)⟩
    · intro datagram member
      obtain rfl := List.mem_singleton.mp member
      apply sent.sized
      rw [sent.length, ← datagramLen_eq known.sized]
      exact fits
    · rintro ⟨other, otherLen, single, large⟩
      obtain ⟨_, rfl⟩ := known.unique single
      exact Nat.not_lt.mpr fits large
  | @fragments body len known =>
    rcases sendFragments_cases addrs payload body known.limits with
      ⟨error, failed, _⟩ | ⟨identification, rdos, ranges, openedOf, _, plan, budgeted, whole, sent⟩
    · exact ⟨_, failed, nofun⟩
    · refine ⟨_, whole, ?_⟩
      intro datagrams same
      cases same
      rw [List.length_map]
      refine ⟨?_, iff_of_true (known.several budgeted) ⟨body, len, known.single, known.large⟩, fun _ => plan.count⟩
      rw [List.forall_mem_map]
      intro range member
      exact (sent range member).1.sized (sent range member).2

end UdpOptions.Proofs
