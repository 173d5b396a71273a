import UdpOptions.Proofs.ReceivePath

/-! What a datagram with user data delivers. Whatever stands behind the user
data, a receiver hands the data on unchanged and leaves the cache alone; only an
option it must not ignore, met in a trusted area, withholds data and options. -/

namespace UdpOptions.Proofs
open Library Model

inductive AreaEnd where
  | finished
  | malformed
  | validFrag
  | unsupported
  deriving DecidableEq, Repr

def belowMinimum (option : OptionRef) : Bool :=
  (minimumKnownTlvLen option.kind).any fun minLen => option.value.length + 2 < minLen

/-- The first item that ends processing: EOL or the end of the area, a framing
error or a below-minimum option, a FRAG of a valid length, or an UNSAFE kind or a
FRAG of another length. -/
def areaEnd : List OptionsIter.Item → AreaEnd
  | [] => .finished
  | .error _ :: _ => .malformed
  | .ok option :: rest =>
    if belowMinimum option then .malformed
    else
      match option.kind with
      | .eol => .finished
      | .frag => if option.value.length + 2 = 10 ∨ option.value.length + 2 = 12 then .validFrag else .unsupported
      | .other byte => if (OptionKind.other byte).isUnsafe then .unsupported else areaEnd rest
      | .nop | .apc | .mds | .mrds | .req | .res => areaEnd rest

theorem belowMinimum_short {option : OptionRef} {error : ParseError} (below : lengthTest false option = .error error) :
    belowMinimum option = true := by
  unfold lengthTest rejectSubMinimum at below
  unfold belowMinimum
  cases known : minimumKnownTlvLen option.kind with
  | none => simp [known] at below
  | some minLen =>
    simp only [known, Bool.false_eq_true, false_and, if_false] at below
    split at below
    next short => exact decide_eq_true short
    · cases below

theorem belowMinimum_proper {option : OptionRef} (proper : lengthTest false option = .ok ()) :
    belowMinimum option = false := by
  unfold lengthTest rejectSubMinimum at proper
  unfold belowMinimum
  cases known : minimumKnownTlvLen option.kind with
  | none => rfl
  | some minLen =>
    simp only [known, Bool.false_eq_true, false_and, if_false] at proper
    split at proper
    · cases proper
    next long => exact decide_eq_false long

theorem areaEnd_passing {option : OptionRef} (proper : lengthTest false option = .ok ())
    (passing : passes option.kind = true) (rest : List OptionsIter.Item) :
    areaEnd (.ok option :: rest) = areaEnd rest := by
  rw [areaEnd, belowMinimum_proper proper, if_neg Bool.false_ne_true]
  cases kind : option.kind <;> simp_all [passes]

theorem fragDecode_length {value : List UInt8} {frag : Frag} (decoded : Frag.decode value = .ok frag) :
    value.length + 2 = 10 ∨ value.length + 2 = 12 := by
  unfold Frag.decode at decoded
  split at decoded
  · exact .inl rfl
  · exact .inr rfl
  · cases decoded

theorem fragDecode_fails {value : List UInt8} {error : ParseError} (failed : Frag.decode value = .error error) :
    ¬ (value.length + 2 = 10 ∨ value.length + 2 = 12) := by
  rintro (eight | ten)
  · match value, eight with
    | [_, _, _, _, _, _, _, _], _ => cases failed
  · match value, ten with
    | [_, _, _, _, _, _, _, _, _, _], _ => cases failed

/-- What the option loop returns on an area that ends so. -/
inductive EndedBy : AreaEnd → Except ParseError ParsedOptions → Prop where
  | finished {state : OptionState} (absent : state.frag = none) : EndedBy .finished (.ok (state.finished false))
  | malformed {error : ParseError} : EndedBy .malformed (.error error)
  | fragMalformed {error : ParseError} : EndedBy .validFrag (.error error)
  | frag {parsed : ParsedOptions} (held : parsed.frag.isSome) : EndedBy .validFrag (.ok parsed)
  | unsupported {state : OptionState} (absent : state.frag = none) : EndedBy .unsupported (.ok (state.finished true))

section
variable {crc32c : List UInt8 → UInt32}

theorem optionLoop_endedBy {userData : List UInt8} {state : OptionState}
    {items : List OptionsIter.Item} (ends : EndsOnce items) (absent : state.frag = none)
    (unseen : state.seen Kind.frag = false) :
    EndedBy (areaEnd items) (optionLoop crc32c false userData state items) := by
  induction items generalizing state with
  | nil => exact .finished absent
  | cons item rest ih =>
    cases item with
    | error error =>
      simp only [optionLoop, absent, Option.isSome_none, Bool.false_eq_true, false_and, if_false]
      exact .malformed
    | ok option =>
      have outcome := optionStep_case crc32c false userData state option
      rw [optionLoop]
      generalize optionStep crc32c false userData state option = step at outcome
      cases outcome with
      | short below =>
        rw [leaveWith_absent absent, areaEnd, if_pos (belowMinimum_short below)]
        exact .malformed
      | filler proper kind =>
        rcases kind with eol | nop
        · rw [areaEnd, belowMinimum_proper proper, if_neg Bool.false_ne_true, eol, ends.1 eol]
          exact .finished absent
        · rw [areaEnd_passing proper (by rw [nop]; rfl)]
          exact ih ends.2 absent unseen
      | fragAgain proper kind seen =>
        rw [unseen] at seen
        cases seen
      | fragFirst proper kind _ decoded =>
        rw [areaEnd, belowMinimum_proper proper, if_neg Bool.false_ne_true, kind]
        dsimp only
        rw [if_pos (fragDecode_length decoded)]
        cases parsing : optionLoop crc32c false userData { state.markSeen Kind.frag with frag := some _ } rest with
        | error error => exact .fragMalformed
        | ok parsed =>
          have kept := optionLoop_keeps (by simp [OptionState.markSeen]) parsing
          exact .frag (by rw [kept.frag]; rfl)
      | fragWrong proper kind _ failed =>
        rw [areaEnd, belowMinimum_proper proper, if_neg Bool.false_ne_true, kind]
        dsimp only
        rw [if_neg (fragDecode_fails failed)]
        exact .unsupported absent
      | apcIgnored context => cases context
      | @known status proper outside decided =>
        obtain ⟨other, _, _, passing⟩ := knownStatus_kind decided
        have same := sameFrag_recordOnce state status other
        rw [areaEnd_passing proper passing]
        exact ih ends.2 (same.frag.trans absent) (same.seen.trans unseen)
      | unknown proper kind safe =>
        rw [areaEnd_passing proper (by simp [kind, passes, OptionKind.isUnsafe, safe])]
        exact ih ends.2 absent unseen
      | unsupported proper kind dangerous =>
        rw [areaEnd, belowMinimum_proper proper, if_neg Bool.false_ne_true, kind]
        dsimp only
        rw [if_pos (by simp [OptionKind.isUnsafe, dangerous])]
        exact .unsupported absent

private theorem parsedArea_endedBy {opened : Opened} (nonempty : opened.userData ≠ []) :
    EndedBy (areaEnd (itemsOf (optionsArea opened))) (parsedArea crc32c opened) := by
  rw [parsedArea, parseArea, if_neg (by simpa using nonempty)]
  exact optionLoop_endedBy (endsOnce_itemsOf _) rfl rfl

private theorem disposeParsed_endedBy {opened : Opened} (nonempty : opened.userData ≠ []) {status : OcsStatus}
    {ending : AreaEnd} {parsed : ParsedOptions} (ended : EndedBy ending (.ok parsed)) :
    ∃ payload, disposeParsed opened status parsed = .deliver payload ∧
      (ending = .unsupported → payload.data = [] ∧ payload.options = []) ∧
      (ending ≠ .unsupported → payload.data = opened.userData) ∧ (payload.options ≠ [] → ending = .finished) := by
  unfold disposeParsed
  generalize result : Except.ok parsed = outcome at ended
  cases ended with
  | malformed => cases result
  | fragMalformed => cases result
  | finished absent =>
    cases result
    simp [OptionState.finished, absent]
  | frag held =>
    cases result
    simp [held, nonempty, deliverWithoutOptions]
  | unsupported absent =>
    cases result
    simp [OptionState.finished, absent]

/-- A trusted area whose processing meets an option that must not be ignored. -/
def Withheld (opened : Opened) : Prop :=
  (∃ status, Trusted opened status) ∧ areaEnd (itemsOf (optionsArea opened)) = .unsupported

theorem dispositionOf_userData (crc32c : List UInt8 → UInt32) {opened : Opened} (well : WellOpened opened)
    (nonempty : opened.userData ≠ []) :
    ∃ payload, dispositionOf crc32c opened = .deliver payload ∧
      (Withheld opened → payload.data = [] ∧ payload.options = []) ∧
      (¬ Withheld opened → payload.data = opened.userData) ∧
      (payload.options ≠ [] →
        (∃ status, Trusted opened status) ∧ areaEnd (itemsOf (optionsArea opened)) = .finished) := by
  have disposed := (disposeOpened_eq crc32c well).2
  have ended := @parsedArea_endedBy crc32c opened nonempty
  generalize dispositionOf crc32c opened = disposition at disposed
  cases disposed with
  | plain untrusted =>
    refine ⟨_, rfl, fun withheld => ?_, fun _ => rfl, fun options => absurd rfl options⟩
    obtain ⟨status, trusted⟩ := withheld.1
    exact absurd trusted (untrusted status)
  | malformed trusted parsing =>
    rw [parsing] at ended
    refine ⟨_, rfl, fun withheld => ?_, fun _ => rfl, fun options => absurd rfl options⟩
    rw [withheld.2] at ended
    cases ended
  | parsed trusted parsing =>
    rw [parsing] at ended
    obtain ⟨payload, same, dangerous, plain, options⟩ := disposeParsed_endedBy nonempty ended
    refine ⟨payload, same, fun withheld => dangerous withheld.2, fun safe => plain ?_, fun some => ?_⟩
    · exact fun unsupported => safe ⟨⟨_, trusted⟩, unsupported⟩
    · exact ⟨⟨_, trusted⟩, options some⟩

/-- A datagram with user data is delivered and leaves the cache unchanged. Its data
is the user data unless a trusted area withholds it, and it carries options only
when a trusted area was processed to its end. -/
theorem user_data_delivered (crc32c : List UInt8 → UInt32) {bytes : List UInt8} {opened : Opened}
    (opening : openDatagram bytes = .ok (.ok opened)) (nonempty : opened.userData ≠ []) (cache : ReassemblyCache)
    (now : Nat) :
    ∃ payload, processDatagram crc32c bytes cache now = .ok (.ok (.payload payload), cache) ∧
      (Withheld opened → payload.data = [] ∧ payload.options = []) ∧
      (¬ Withheld opened → payload.data = opened.userData) ∧
      (payload.options ≠ [] →
        (∃ status, Trusted opened status) ∧ areaEnd (itemsOf (optionsArea opened)) = .finished) := by
  obtain ⟨well, _⟩ := openDatagram_well opening
  obtain ⟨payload, same, effect⟩ := dispositionOf_userData crc32c well nonempty
  refine ⟨payload, ?_, effect⟩
  rw [processDatagram_opened crc32c opening, handled, same]

/-- Two bytes of user data and one UNSAFE option, with OCS and checksum unused. -/
private def unsafeOpened : Opened :=
  writtenOpened ⟨10, 0, 0, 1⟩ ⟨10, 0, 0, 2⟩ ⟨1000, 2000, 10, 0⟩ [0x68, 0x69, 0, 0, 192, 2]

theorem user_data_delivered_unsafe :
    openDatagram unsafeOpened.datagram = .ok (.ok unsafeOpened) ∧ unsafeOpened.userData = [0x68, 0x69] ∧
      ∃ payload, processDatagram (fun _ => 0) unsafeOpened.datagram (.withLimits .default) 0 =
        .ok (.ok (.payload payload), .withLimits .default) ∧ payload.data = [] ∧ payload.options = [] := by
  have opening : openDatagram unsafeOpened.datagram = .ok (.ok unsafeOpened) := rfl
  have trusted : Trusted unsafeOpened .unused := ⟨by decide +kernel, by decide +kernel, .inr ⟨rfl, rfl⟩⟩
  obtain ⟨payload, processed, withheld, _⟩ :=
    user_data_delivered (fun _ => 0) opening (by decide +kernel) (.withLimits .default) 0
  exact ⟨opening, rfl, payload, processed, withheld ⟨⟨.unused, trusted⟩, rfl⟩⟩

end

end UdpOptions.Proofs
