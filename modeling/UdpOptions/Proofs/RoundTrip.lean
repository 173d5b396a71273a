import UdpOptions.Proofs.Assembly
import UdpOptions.Proofs.CanonicalOptions

/-! The round trip of an unfragmented datagram. What `buildDatagram` puts on the
wire is delivered as its payload with the options of its list, whatever the cache
holds. -/

namespace UdpOptions.Proofs
open Library Model

theorem assembleChecked_cases (addrs : Api.DatagramAddrs) {payload body : List UInt8}
    (led : body = [] ∨ 2 ≤ body.length) (maxDatagramLen : Nat) :
    (∃ error, Api.assembleChecked addrs payload body maxDatagramLen = .ok (.error error)) ∨
    ∃ opened, Api.assembleChecked addrs payload body maxDatagramLen = .ok (.ok opened.datagram) ∧
      Sent opened addrs.src addrs.dst addrs.srcPort addrs.dstPort payload body ∧
      sentLen payload.length body.length ≤ maxDatagramLen := by
  unfold Api.assembleChecked
  split
  · exact .inl ⟨_, rfl⟩
  next len known =>
    split
    · exact .inl ⟨_, rfl⟩
    next fits =>
      split
      · exact .inl ⟨_, rfl⟩
      next small =>
        rw [datagramLen_eq known] at fits small
        obtain ⟨opened, whole, sent⟩ := assembleDatagram_sent addrs.src addrs.dst addrs.srcPort addrs.dstPort led
          (Nat.lt_succ_of_le (Nat.le_of_not_lt small))
        rw [whole]
        exact .inr ⟨opened, rfl, sent, Nat.le_of_not_lt fits⟩

theorem assembleChecked_sent {addrs : Api.DatagramAddrs} {payload body datagram : List UInt8} {maxDatagramLen : Nat}
    (led : body = [] ∨ 2 ≤ body.length)
    (assembled : Api.assembleChecked addrs payload body maxDatagramLen = .ok (.ok datagram)) :
    ∃ opened, datagram = opened.datagram ∧
      Sent opened addrs.src addrs.dst addrs.srcPort addrs.dstPort payload body := by
  rcases assembleChecked_cases addrs led maxDatagramLen with ⟨error, failed⟩ | ⟨opened, whole, sent, _⟩
  · rw [failed] at assembled
    cases assembled
  · rw [whole] at assembled
    cases assembled
    exact ⟨opened, rfl, sent⟩

theorem assembleChecked_fits (addrs : Api.DatagramAddrs) {payload body : List UInt8} {maxDatagramLen : Nat}
    (led : body = [] ∨ 2 ≤ body.length) (fits : sentLen payload.length body.length ≤ maxDatagramLen)
    (small : sentLen payload.length body.length ≤ Api.ipv4DatagramLenMax) :
    ∃ datagram, Api.assembleChecked addrs payload body maxDatagramLen = .ok (.ok datagram) := by
  obtain ⟨opened, whole, _⟩ := assembleDatagram_sent addrs.src addrs.dst addrs.srcPort addrs.dstPort led
    (Nat.lt_succ_of_le small)
  refine ⟨opened.datagram, ?_⟩
  rw [Api.assembleChecked, datagramLen_of_lt (Nat.lt_of_le_of_lt small (by decide))]
  dsimp only
  rw [if_neg (Nat.not_lt.mpr fits), if_neg (Nat.not_lt.mpr small), whole]
  rfl

theorem emits_scanFrag {options : List RawOption} {items : List OptionsIter.Item} (emits : Emits options items)
    (noFrag : NoFrag options) : scanFrag items = none := by
  induction emits with
  | done => rfl
  | nop next ih => exact ih noFrag
  | @option option rest items valueAt next ih =>
    have later := ih fun other member => noFrag other (List.mem_cons_of_mem _ member)
    have notFrag : (refOf option (some valueAt)).kind ≠ .frag := by
      intro kind
      apply noFrag option (by simp)
      rw [← OptionKind.toByte_fromByte option.kind.toByte, show OptionKind.fromByte option.kind.toByte = .frag from kind]
      rfl
    rw [scanFrag, if_neg notFrag, later]
    split <;> rfl

section
variable (crc32c : List UInt8 → UInt32)

theorem parseArea_serialized {options : List RawOption} {body : List UInt8} (noFrag : NoFrag options)
    (finished : Serialize.finish options = .ok body) (userData : List UInt8) (optionsOffset : Nat) :
    2 ≤ body.length ∧ parseArea crc32c (body.drop 2) userData optionsOffset =
      .ok ⟨deliveredOptions crc32c userData options, deliveredReports crc32c userData options, none, false, false⟩ := by
  obtain ⟨sendable, emitted⟩ := finish_emits noFrag finished
  have members : ∀ option ∈ Serialize.sortByRank options, option ∈ options :=
    fun option member => (List.mem_insertionSort _).mp member
  obtain ⟨area, items, rfl, framed, emits⟩ := emitFrom_framed
    (fun option member => sendable option (members option member)) emitted 0
  have full : (if userData.isEmpty then limitOf area.length optionsOffset items else .full) =
      FragmentOptionLimit.full := by
    split
    · rw [limitOf, emits_scanFrag emits fun option member => noFrag option (members option member)]
    · rfl
  refine ⟨Nat.le_add_left 2 area.length, ?_⟩
  show parseArea crc32c area userData optionsOffset = _
  rw [parseArea, framed.itemsOf_eq, full]
  exact optionLoop_serialized crc32c userData emits sendable noFrag

/-- What is delivered of an assembled datagram with a serialized list of options. -/
theorem dispositionOf_serialized {opened : Opened} {src dst : Ipv4Addr} {srcPort dstPort : UInt16}
    {options : List RawOption} {payload body : List UInt8} (noFrag : NoFrag options)
    (finished : Serialize.finish options = .ok body) (sent : Sent opened src dst srcPort dstPort payload body) :
    dispositionOf crc32c opened =
      .deliver ⟨payload, deliveredOptions crc32c payload options, true, deliveredReports crc32c payload options,
        [⟨.valid, .datagram⟩]⟩ := by
  obtain ⟨well, _⟩ := openDatagram_well sent.opening
  obtain ⟨led, parsed⟩ := parseArea_serialized crc32c noFrag finished payload (ocsStart opened + 2 - opened.udpAt)
  rw [dispositionOf_trusted crc32c well (sent.trusted led), parsedArea, sent.area, sent.userData, parsed]
  simp [disposeParsed, sent.userData]

/-- A datagram built from a list without FRAG is delivered with its payload. Without
options it is a plain datagram; with options its OCS is valid, its options are the
first instance of each reportable kind in canonical order, an APC only with the
right checksum, and every other option is reported as ignored. -/
theorem unfragmented_round_trip {addrs : Api.DatagramAddrs} {payload datagram : List UInt8}
    {rawOptions : List RawOption} (noFrag : ∀ option ∈ rawOptions, option.kind.toByte ≠ Kind.frag)
    (built : Api.buildDatagram addrs payload rawOptions = .ok (.ok datagram)) (cache : ReassemblyCache) (now : Nat) :
    (rawOptions = [] → processDatagram crc32c datagram cache now =
      .ok (.ok (.payload ⟨payload, [], false, [], [⟨.absent, .datagram⟩]⟩), cache)) ∧
    (rawOptions ≠ [] → processDatagram crc32c datagram cache now =
      .ok (.ok (.payload ⟨payload, deliveredOptions crc32c payload rawOptions, true,
        deliveredReports crc32c payload rawOptions, [⟨.valid, .datagram⟩]⟩), cache)) := by
  unfold Api.buildDatagram Api.rawOptionsBody at built
  split at built
  · cases built
  · by_cases empty : rawOptions = []
    · subst empty
      obtain ⟨opened, rfl, sent⟩ := assembleChecked_sent (.inl rfl) built
      obtain ⟨well, _⟩ := openDatagram_well sent.opening
      refine ⟨fun _ => ?_, fun nonempty => absurd rfl nonempty⟩
      rw [processDatagram_opened crc32c sent.opening, handled, dispositionOf_absent crc32c well (sent.bare rfl),
        sent.userData]
      rfl
    · rw [if_neg (by simpa using empty), Api.serializeBody] at built
      cases finished : Serialize.finish rawOptions with
      | error error =>
        rw [finished] at built
        cases built
      | ok body =>
        rw [finished] at built
        have led := (parseArea_serialized crc32c noFrag finished payload 0).1
        obtain ⟨opened, rfl, sent⟩ := assembleChecked_sent (.inr led) built
        refine ⟨fun same => absurd same empty, fun _ => ?_⟩
        rw [processDatagram_opened crc32c sent.opening, handled, dispositionOf_serialized crc32c noFrag finished sent]

end

private def exampleAddrs : Api.DatagramAddrs := ⟨⟨10, 0, 0, 1⟩, ⟨10, 0, 0, 2⟩, 1000, 2000⟩

/-- An MDS given by its byte behind an unknown option, and a second MDS. -/
private def mixedOptions : List RawOption := [⟨.other 20, [7]⟩, ⟨.other 4, [5, 220]⟩, ⟨.mds, [9, 9]⟩]

theorem unfragmented_round_trip_mixed :
    ∃ datagram, Api.buildDatagram exampleAddrs [0x68, 0x69, 0x21] mixedOptions = .ok (.ok datagram) ∧
      processDatagram (fun _ => 0) datagram (.withLimits .default) 0 =
        .ok (.ok (.payload ⟨[0x68, 0x69, 0x21], [⟨.mds, [5, 220]⟩], true,
          [report .mds .success, report .mds .ignored, report (.other 20) .ignored], [⟨.valid, .datagram⟩]⟩),
          .withLimits .default) := by
  have noFrag : ∀ option ∈ mixedOptions, option.kind.toByte ≠ Kind.frag := by decide
  have builds : (Api.buildDatagram exampleAddrs [0x68, 0x69, 0x21] mixedOptions).toOption.any
      (fun result => result.isOk) = true := by decide +kernel
  cases built : Api.buildDatagram exampleAddrs [0x68, 0x69, 0x21] mixedOptions with
  | error fault => simp [built, Except.toOption] at builds
  | ok result =>
    cases result with
    | error error => simp [built, Except.toOption, Except.isOk, Except.toBool] at builds
    | ok datagram =>
      have options : deliveredOptions (fun _ => 0) [0x68, 0x69, 0x21] mixedOptions = [⟨.mds, [5, 220]⟩] := by
        decide +kernel
      have reports : deliveredReports (fun _ => 0) [0x68, 0x69, 0x21] mixedOptions =
          [report .mds .success, report .mds .ignored, report (.other 20) .ignored] := by decide +kernel
      rw [← options, ← reports]
      exact ⟨datagram, rfl,
        (unfragmented_round_trip (fun _ => 0) noFrag built (.withLimits .default) 0).2 (by decide)⟩

end UdpOptions.Proofs
