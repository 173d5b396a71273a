import UdpOptions.Proofs.Footprint
import UdpOptions.Proofs.LegacyData

/-! Options that end processing in front of the first FRAG. Nothing of the area
should reach the cache then. The option loop keeps to that, but the pre-scan for
the FRAG walks over an option below its minimum length and fails the fragment
behind it when the Frag. Start there is out of range. -/

namespace UdpOptions.Proofs
open Library Model

/-- In-order processing meets a framing error, a known option other than APC below
its minimum length, or an UNSAFE kind before any FRAG. -/
def fatalFirst : List OptionsIter.Item → Bool
  | [] => false
  | .error _ :: _ => true
  | .ok option :: rest =>
    if option.kind = .frag ∨ option.kind = .eol then false
    else (option.kind ≠ .apc && belowMinimum option) || option.kind.isUnsafe || fatalFirst rest

/-- The first FRAG of the area is decodable, and its data starts inside the
options or behind the datagram. -/
def FragStartOutside (opened : Opened) : Prop :=
  ∃ option frag, scanFrag (itemsOf (optionsArea opened)) = some option ∧ Frag.decode option.value = .ok frag ∧
    (opened.udpAt + frag.fragStart.toNat < ocsStart opened + 2 + endOffset option ∨
      opened.ipEnd < opened.udpAt + frag.fragStart.toNat)

theorem passes_safe {kind : OptionKind} (passing : passes kind = true) : kind ≠ .eol ∧ kind.isUnsafe = false := by
  cases kind with
  | eol => cases passing
  | frag => cases passing
  | other byte => exact ⟨OptionKind.noConfusion, by simpa [passes] using passing⟩
  | nop => exact ⟨OptionKind.noConfusion, rfl⟩
  | apc => exact ⟨OptionKind.noConfusion, rfl⟩
  | mds => exact ⟨OptionKind.noConfusion, rfl⟩
  | mrds => exact ⟨OptionKind.noConfusion, rfl⟩
  | req => exact ⟨OptionKind.noConfusion, rfl⟩
  | res => exact ⟨OptionKind.noConfusion, rfl⟩

private theorem fatalFirst_leading {items : List OptionsIter.Item} {option : OptionRef}
    (found : scanFrag items = some option) :
    fatalFirst items = (leading items).any fun other => other.kind ≠ .apc && belowMinimum other := by
  induction items with
  | nil => cases found
  | cons item rest ih =>
    cases item with
    | error error => cases found
    | ok first =>
      rcases scanFrag_cons found with ⟨isFrag, _⟩ | ⟨notFrag, passing, later⟩
      · rw [fatalFirst, if_pos (.inl isFrag), leading, isFrag]
        rfl
      · obtain ⟨notEol, safe⟩ := passes_safe passing
        rw [fatalFirst, if_neg (by simp [notFrag, notEol]), leading, if_pos passing, List.any_cons, ih later, safe,
          Bool.or_false]

/-- Whatever the context is, the loop passes over a known option only if it is long enough. -/
theorem proper_not_fatal {fragmentContext : Bool} {option : OptionRef}
    (proper : lengthTest fragmentContext option = .ok ()) : (option.kind ≠ .apc && belowMinimum option) = false := by
  by_cases apc : option.kind = .apc
  · simp [apc]
  · have outside : lengthTest fragmentContext option = lengthTest false option := by simp [lengthTest, apc]
    rw [belowMinimum_proper (outside.symm.trans proper), Bool.and_false]

section
variable {crc32c : List UInt8 → UInt32}

/-- The loop stops at the fatal option before it has seen a FRAG. -/
theorem optionLoop_fatal {fragmentContext : Bool} {userData : List UInt8} {state : OptionState}
    {items : List OptionsIter.Item} (fatal : fatalFirst items = true) (absent : state.frag = none) :
    (∃ error, optionLoop crc32c fragmentContext userData state items = .error error) ∨
    ∃ after, after.frag = none ∧
      optionLoop crc32c fragmentContext userData state items = .ok (OptionState.finished after true) := by
  induction items generalizing state with
  | nil => cases fatal
  | cons item rest ih =>
    cases item with
    | error error =>
      refine .inl ⟨error, ?_⟩
      simp only [optionLoop, absent, Option.isSome_none, Bool.false_eq_true, false_and, if_false]
    | ok option =>
      rw [fatalFirst] at fatal
      split at fatal
      · cases fatal
      next passed =>
        rw [optionLoop]
        split
        next after stepped =>
          obtain ⟨proper, ⟨same, _, eol | passing⟩ | ⟨_, kind, _⟩⟩ := optionStep_next stepped
          · exact absurd (.inr eol) passed
          · rw [proper_not_fatal proper, (passes_safe passing).2] at fatal
            exact ih fatal (same.frag.trans absent)
          · exact absurd (.inl kind) passed
        next after stepped => exact .inr ⟨after, (optionStep_broken stepped).1.trans absent, rfl⟩
        next result stepped =>
          obtain ⟨error, rfl⟩ := optionStep_left absent stepped
          exact .inl ⟨error, rfl⟩

private theorem limitOf_outside {opened : Opened} {status : OcsStatus} (well : WellOpened opened)
    (trusted : Trusted opened status) :
    (∃ frag, limitOf (optionsArea opened).length (ocsStart opened + 2 - opened.udpAt)
      (itemsOf (optionsArea opened)) = .malformedFrag frag) ↔ FragStartOutside opened := by
  have length := trusted.area_length well
  have before := udpAt_le_ocsStart opened
  simp only [limitOf_malformed, FragStartOutside]
  constructor
  · rintro ⟨frag, option, found, decoded, misplaced⟩
    exact ⟨option, frag, found, decoded, by omega⟩
  · rintro ⟨option, frag, found, decoded, misplaced⟩
    exact ⟨frag, option, found, decoded, by omega⟩

private theorem parsedArea_fatal {opened : Opened} (empty : opened.userData = [])
    (fatal : fatalFirst (itemsOf (optionsArea opened)) = true)
    (spared : ∀ frag, limitOf (optionsArea opened).length (ocsStart opened + 2 - opened.udpAt)
      (itemsOf (optionsArea opened)) ≠ .malformedFrag frag) :
    (∃ error, parsedArea crc32c opened = .error error) ∨
      ∃ after, after.frag = none ∧ parsedArea crc32c opened = .ok (OptionState.finished after true) := by
  rw [parsedArea, parseArea, empty, if_pos List.isEmpty_nil]
  split
  · exact optionLoop_fatal fatal rfl
  next stop cut =>
    obtain ⟨option, other, found, decoded, starts, inside, behind⟩ := limitOf_upTo cut
    obtain ⟨valueAt, addressed, _⟩ := (framed_itemsOf (optionsArea opened)).scanFrag_at found
    obtain ⟨kept, framed, first, front⟩ := (framed_itemsOf (optionsArea opened)).take found addressed
      (show valueAt + option.value.length ≤ 0 + stop by
        simpa only [endOffset, addressed, Option.getD_some, Nat.zero_add] using behind)
    rw [framed.itemsOf_eq]
    refine optionLoop_fatal ?_ rfl
    rw [fatalFirst_leading first, front, ← fatalFirst_leading found]
    exact fatal
  next frag malformed => exact absurd malformed (spared frag)

/-- A datagram without user data whose trusted area has a fatal option in front of
any FRAG delivers an empty payload and leaves the cache alone, except when the
pre-scan finds a FRAG whose data starts outside. -/
theorem fatal_option_harmless_iff (crc32c : List UInt8 → UInt32) {bytes : List UInt8} {opened : Opened}
    {status : OcsStatus} (opening : openDatagram bytes = .ok (.ok opened)) (empty : opened.userData = [])
    (trusted : Trusted opened status) (fatal : fatalFirst (itemsOf (optionsArea opened)) = true)
    (cache : ReassemblyCache) (now : Nat) :
    (∃ payload, processDatagram crc32c bytes cache now = .ok (.ok (.payload payload), cache) ∧ payload.data = []) ↔
      ¬ FragStartOutside opened := by
  obtain ⟨well, _⟩ := openDatagram_well opening
  have disposed := dispositionOf_trusted crc32c well trusted
  rw [processDatagram_opened crc32c opening, handled, ← limitOf_outside well trusted]
  constructor
  · rintro ⟨payload, delivered, _⟩ ⟨frag, malformed⟩
    have failed : parsedArea crc32c opened = .ok ⟨[], [], some frag, true, true⟩ := by
      rw [parsedArea, parseArea, empty, if_pos List.isEmpty_nil, malformed]
    rw [failed] at disposed
    simp only [disposed, disposeParsed, empty] at delivered
    cases delivered
  · intro spared
    push Not at spared
    rcases @parsedArea_fatal crc32c opened empty fatal spared with ⟨error, failed⟩ | ⟨after, absent, parsed⟩
    · rw [failed] at disposed
      rw [disposed]
      exact ⟨_, rfl, empty⟩
    · rw [parsed] at disposed
      rw [disposed]
      simp only [disposeParsed, OptionState.finished, absent]
      exact ⟨_, rfl, rfl⟩

end

/-- No user data, the given options behind an unused OCS, checksum unused. -/
private def bareOpened (options : List UInt8) : Opened :=
  writtenOpened ⟨10, 0, 0, 1⟩ ⟨10, 0, 0, 2⟩ ⟨1000, 2000, 8, 0⟩ (0 :: 0 :: options)

theorem fatal_option_harmless_unsafe :
    openDatagram (bareOpened [200, 2, 3, 10, 0, 0, 0, 0, 0, 5, 0, 8]).datagram =
        .ok (.ok (bareOpened [200, 2, 3, 10, 0, 0, 0, 0, 0, 5, 0, 8])) ∧
      ∃ payload, processDatagram (fun _ => 0) (bareOpened [200, 2, 3, 10, 0, 0, 0, 0, 0, 5, 0, 8]).datagram
        (.withLimits .default) 0 = .ok (.ok (.payload payload), .withLimits .default) ∧ payload.data = [] := by
  generalize known : bareOpened [200, 2, 3, 10, 0, 0, 0, 0, 0, 5, 0, 8] = opened
  have opening : openDatagram opened.datagram = .ok (.ok opened) := by
    rw [← known]
    rfl
  have trusted : Trusted opened .unused := by
    rw [← known]
    exact ⟨by decide +kernel, by decide +kernel, .inr ⟨rfl, rfl⟩⟩
  refine ⟨opening, (fatal_option_harmless_iff (fun _ => 0) opening (known ▸ rfl) trusted (known ▸ rfl)
    (.withLimits .default) 0).mpr ?_⟩
  rintro ⟨option, frag, found, _⟩
  rw [← known] at found
  cases found

/-- An MDS without a value in front of a FRAG whose Frag. Start is 0: the datagram
is dropped, and the pending fragment of the same Identification is discarded. -/
theorem short_mds_discards_partial :
    ∃ opened cache held final,
      opened = bareOpened [4, 2, 3, 10, 0, 0, 0, 0, 0, 5, 0, 8] ∧
      openDatagram opened.datagram = .ok (.ok opened) ∧ opened.userData = [] ∧ Trusted opened .unused ∧
      fatalFirst (itemsOf (optionsArea opened)) = true ∧
      processDatagram (fun _ => 0) pendingFragment (.withLimits .default) 0 = .ok (.ok .buffered, cache) ∧
      processDatagram (fun _ => 0) opened.datagram cache 0 = .ok (.ok .dropped, final) ∧
      cache.partials.lookup ⟨⟨10, 0, 0, 1⟩, ⟨10, 0, 0, 2⟩, 1000, 2000, 5⟩ = some held ∧
      final.partials.lookup ⟨⟨10, 0, 0, 1⟩, ⟨10, 0, 0, 2⟩, 1000, 2000, 5⟩ = none := by
  refine ⟨_, _, _, _, rfl, rfl, rfl, ⟨?_, ?_, .inr ⟨rfl, rfl⟩⟩, rfl, rfl, rfl, rfl, rfl⟩
  · decide +kernel
  · decide +kernel

end UdpOptions.Proofs
