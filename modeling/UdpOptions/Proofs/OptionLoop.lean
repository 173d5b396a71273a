import UdpOptions.Proofs.OptionScan

/-! The option loop. One iteration has nine outcomes, and every result about the
loop is an induction over the items with a case analysis of one iteration. -/

namespace UdpOptions.Proofs
open Library Model

section
variable (crc32c : List UInt8 → UInt32)

def parseArea (optionsBytes userData : List UInt8) (optionsOffset : Nat) : Except ParseError ParsedOptions :=
  match (if userData.isEmpty then limitOf optionsBytes.length optionsOffset (itemsOf optionsBytes) else .full) with
  | .full => optionLoop crc32c false userData .initial (itemsOf optionsBytes)
  | .upTo stop => optionLoop crc32c true userData .initial (itemsOf (optionsBytes.take stop))
  | .malformedFrag frag => .ok ⟨[], [], some frag, true, true⟩

theorem parseOptions_eq (optionsBytes userData : List UInt8) (optionsOffset : Nat) :
    parseOptions crc32c optionsBytes userData optionsOffset =
      .ok (parseArea crc32c optionsBytes userData optionsOffset) := by
  unfold parseOptions parseArea
  rw [fragmentOptionLimit_eq, Checked.ok_bind]
  cases limit : (if userData.isEmpty = true then limitOf optionsBytes.length optionsOffset (itemsOf optionsBytes)
      else .full) with
  | full => simp [items_eq]
  | malformedFrag frag => rfl
  | upTo stop =>
    have inside : stop ≤ optionsBytes.length := by
      split at limit
      · obtain ⟨_, _, _, _, _, inside, _⟩ := limitOf_upTo limit
        exact inside
      · cases limit
    simp [items_eq, Checked.slice_of_le (Nat.zero_le stop) inside]

/-- The length test of one option; APC is exempt inside a fragment. -/
def lengthTest (fragmentContext : Bool) (option : OptionRef) : Except ParseError Unit :=
  if fragmentContext ∧ option.kind = .apc then .ok () else rejectSubMinimum option

def knownStatus (userData : List UInt8) (option : OptionRef) : Option OptionStatus :=
  match option.kind with
  | .apc => some (acceptsApc crc32c option userData)
  | .mds => some (decodeStatus (Mds.decode option.value))
  | .mrds => some (decodeStatus (Mrds.decode option.value))
  | .req => some (decodeStatus (Req.decode option.value))
  | .res => some (decodeStatus (Res.decode option.value))
  | .eol | .nop | .frag | .other _ => none

/-- What one iteration of the option loop can do. -/
inductive StepCase (fragmentContext : Bool) (userData : List UInt8) (state : OptionState) (option : OptionRef) :
    LoopStep → Prop where
  | short {error : ParseError} (below : lengthTest fragmentContext option = .error error) :
      StepCase fragmentContext userData state option (leaveWith state userData error)
  | filler (proper : lengthTest fragmentContext option = .ok ()) (kind : option.kind = .eol ∨ option.kind = .nop) :
      StepCase fragmentContext userData state option (.next state)
  | fragAgain (proper : lengthTest fragmentContext option = .ok ()) (kind : option.kind = .frag)
      (seen : state.seen Kind.frag = true) :
      StepCase fragmentContext userData state option (leaveWith state userData .duplicateFrag)
  | fragFirst {frag : Frag} (proper : lengthTest fragmentContext option = .ok ()) (kind : option.kind = .frag)
      (unseen : state.seen Kind.frag = false) (decoded : Frag.decode option.value = .ok frag) :
      StepCase fragmentContext userData state option (.next { state.markSeen Kind.frag with frag := some frag })
  | fragWrong {error : ParseError} (proper : lengthTest fragmentContext option = .ok ()) (kind : option.kind = .frag)
      (unseen : state.seen Kind.frag = false) (failed : Frag.decode option.value = .error error) :
      StepCase fragmentContext userData state option (.broken (state.markSeen Kind.frag))
  | apcIgnored (context : fragmentContext = true) (kind : option.kind = .apc) :
      StepCase fragmentContext userData state option (.next (state.pushReport option.kind .ignored))
  | known {status : OptionStatus} (proper : lengthTest fragmentContext option = .ok ())
      (outside : ¬ (fragmentContext = true ∧ option.kind = .apc))
      (decided : knownStatus crc32c userData option = some status) :
      StepCase fragmentContext userData state option (.next (state.recordOnce option status))
  | unknown {byte : UInt8} (proper : lengthTest fragmentContext option = .ok ()) (kind : option.kind = .other byte)
      (safe : (OptionKind.other byte).isSafe = true) :
      StepCase fragmentContext userData state option (.next (state.pushReport option.kind .ignored))
  | unsupported {byte : UInt8} (proper : lengthTest fragmentContext option = .ok ()) (kind : option.kind = .other byte)
      (dangerous : (OptionKind.other byte).isSafe = false) :
      StepCase fragmentContext userData state option (.broken (state.pushReport option.kind .failed))

theorem optionStep_case (fragmentContext : Bool) (userData : List UInt8) (state : OptionState) (option : OptionRef) :
    StepCase crc32c fragmentContext userData state option
      (optionStep crc32c fragmentContext userData state option) := by
  unfold optionStep
  dsimp only
  rw [← lengthTest]
  cases proper : lengthTest fragmentContext option with
  | error error => exact .short proper
  | ok =>
    dsimp only
    cases kind : option.kind with
    | eol => exact .filler proper (.inl kind)
    | nop => exact .filler proper (.inr kind)
    | frag =>
      dsimp only
      split
      next seen => exact .fragAgain proper kind seen
      next unseen =>
        have unseen : state.seen Kind.frag = false := Bool.eq_false_iff.mpr unseen
        cases decoded : Frag.decode option.value with
        | error error => exact .fragWrong proper kind unseen decoded
        | ok frag => exact .fragFirst proper kind unseen decoded
    | apc =>
      dsimp only
      split
      next context => rw [← kind]; exact .apcIgnored context kind
      next outside => exact .known proper (fun both => outside both.1) (by simp [knownStatus, kind])
    | mds => exact .known proper (fun both => by simp [kind] at both) (by simp [knownStatus, kind])
    | mrds => exact .known proper (fun both => by simp [kind] at both) (by simp [knownStatus, kind])
    | req => exact .known proper (fun both => by simp [kind] at both) (by simp [knownStatus, kind])
    | res => exact .known proper (fun both => by simp [kind] at both) (by simp [knownStatus, kind])
    | other byte =>
      dsimp only
      rw [← kind]
      split
      next safe => rw [kind] at safe; exact .unknown proper kind safe
      next dangerous => rw [kind] at dangerous; exact .unsupported proper kind (Bool.eq_false_iff.mpr dangerous)

variable {crc32c}

theorem knownStatus_kind {userData : List UInt8} {option : OptionRef} {status : OptionStatus}
    (decided : knownStatus crc32c userData option = some status) :
    option.kind.toByte ≠ Kind.frag ∧ option.kind ≠ .eol ∧ option.kind ≠ .frag ∧ passes option.kind = true := by
  cases kind : option.kind <;> simp_all [knownStatus, passes, OptionKind.toByte] <;> decide

structure SameFrag (before after : OptionState) : Prop where
  frag : after.frag = before.frag
  seen : after.seen Kind.frag = before.seen Kind.frag

theorem sameFrag_recordOnce (state : OptionState) {option : OptionRef} (status : OptionStatus)
    (other : option.kind.toByte ≠ Kind.frag) : SameFrag state (state.recordOnce option status) := by
  have marked : SameFrag state (state.markSeen option.kind.toByte) := ⟨rfl, Function.update_of_ne other.symm _ _⟩
  unfold OptionState.recordOnce
  split
  · exact ⟨rfl, rfl⟩
  · dsimp only
    split <;> exact ⟨marked.frag, marked.seen⟩

/-- An iteration that goes on either leaves FRAG alone or has decoded the first one. -/
theorem optionStep_next {fragmentContext : Bool} {userData : List UInt8} {state after : OptionState}
    {option : OptionRef} (stepped : optionStep crc32c fragmentContext userData state option = .next after) :
    lengthTest fragmentContext option = .ok () ∧
    ((SameFrag state after ∧ option.kind ≠ .frag ∧ (option.kind = .eol ∨ passes option.kind = true)) ∨
    (∃ frag, option.kind = .frag ∧ state.seen Kind.frag = false ∧ Frag.decode option.value = .ok frag ∧
      after = { state.markSeen Kind.frag with frag := some frag })) := by
  have outcome := optionStep_case crc32c fragmentContext userData state option
  rw [stepped] at outcome
  generalize target : LoopStep.next after = step at outcome
  cases outcome with
  | short => unfold leaveWith at target; split at target <;> cases target
  | filler proper kind =>
    cases target
    rcases kind with kind | kind
    · exact ⟨proper, .inl ⟨⟨rfl, rfl⟩, by rw [kind]; decide, .inl kind⟩⟩
    · exact ⟨proper, .inl ⟨⟨rfl, rfl⟩, by rw [kind]; decide, .inr (by rw [kind]; rfl)⟩⟩
  | fragAgain => unfold leaveWith at target; split at target <;> cases target
  | fragFirst proper kind unseen decoded =>
    cases target
    exact ⟨proper, .inr ⟨_, kind, unseen, decoded, rfl⟩⟩
  | fragWrong => cases target
  | apcIgnored context kind =>
    cases target
    exact ⟨by rw [lengthTest, if_pos ⟨context, kind⟩], .inl ⟨⟨rfl, rfl⟩, by rw [kind]; decide, .inr (by rw [kind]; rfl)⟩⟩
  | known proper outside decided =>
    cases target
    obtain ⟨other, _, notFrag, passing⟩ := knownStatus_kind decided
    exact ⟨proper, .inl ⟨sameFrag_recordOnce state _ other, notFrag, .inr passing⟩⟩
  | unknown proper kind safe =>
    cases target
    exact ⟨proper, .inl ⟨⟨rfl, rfl⟩, by rw [kind]; simp, .inr (by simp [kind, passes, OptionKind.isUnsafe, safe])⟩⟩
  | unsupported => cases target

/-- An iteration breaks off at a FRAG that does not decode or at an option that must not be ignored. -/
theorem optionStep_broken {fragmentContext : Bool} {userData : List UInt8} {state after : OptionState}
    {option : OptionRef} (stepped : optionStep crc32c fragmentContext userData state option = .broken after) :
    after.frag = state.frag ∧ passes option.kind = false ∧ ∀ frag, Frag.decode option.value = .ok frag →
      option.kind ≠ .frag := by
  have outcome := optionStep_case crc32c fragmentContext userData state option
  rw [stepped] at outcome
  generalize target : LoopStep.broken after = step at outcome
  cases outcome with
  | short | fragAgain => unfold leaveWith at target; split at target <;> cases target
  | filler | fragFirst | apcIgnored | known | unknown => cases target
  | fragWrong _ kind _ failed =>
    cases target
    refine ⟨rfl, by rw [kind]; rfl, fun frag decoded => ?_⟩
    cases failed.symm.trans decoded
  | unsupported _ kind dangerous =>
    cases target
    exact ⟨rfl, by simp [kind, passes, OptionKind.isUnsafe, dangerous], fun _ _ => by rw [kind]; exact OptionKind.noConfusion⟩

theorem optionStep_frag {fragmentContext : Bool} {userData : List UInt8} {state : OptionState} {option : OptionRef}
    {frag : Frag} (proper : lengthTest fragmentContext option = .ok ()) (kind : option.kind = .frag)
    (unseen : state.seen Kind.frag = false) (decoded : Frag.decode option.value = .ok frag) :
    optionStep crc32c fragmentContext userData state option =
      .next { state.markSeen Kind.frag with frag := some frag } := by
  have byte : OptionKind.frag.toByte = Kind.frag := rfl
  rw [lengthTest, kind] at proper
  simp only [optionStep, proper, kind, byte, unseen, decoded, Bool.false_eq_true, if_false]

theorem leaveWith_absent {state : OptionState} (absent : state.frag = none) (userData : List UInt8)
    (error : ParseError) : leaveWith state userData error = .left (.error error) := by
  rw [leaveWith, if_neg]
  rintro ⟨known, _⟩
  rw [absent] at known
  cases known

theorem optionStep_left {fragmentContext : Bool} {userData : List UInt8} {state : OptionState} {option : OptionRef}
    {result : Except ParseError ParsedOptions} (absent : state.frag = none)
    (stepped : optionStep crc32c fragmentContext userData state option = .left result) :
    ∃ error, result = .error error := by
  have outcome := optionStep_case crc32c fragmentContext userData state option
  rw [stepped] at outcome
  generalize target : LoopStep.left result = step at outcome
  cases outcome with
  | short | fragAgain =>
    rw [leaveWith_absent absent] at target
    cases target
    exact ⟨_, rfl⟩
  | filler | fragFirst | fragWrong | apcIgnored | known | unknown | unsupported => cases target

def EndsOnce : List OptionsIter.Item → Prop
  | [] => True
  | .error _ :: rest => rest = []
  | .ok option :: rest => (option.kind = .eol → rest = []) ∧ EndsOnce rest

theorem fromByte_ne_eol {kind : UInt8} (tlvKind : IsTlvKind kind) : OptionKind.fromByte kind ≠ .eol := by
  intro same
  have byte := OptionKind.toByte_fromByte kind
  rw [same] at byte
  exact tlvKind.1 byte.symm

theorem Framed.endsOnce {start : Nat} {bytes : List UInt8} {items : List OptionsIter.Item}
    (framed : Framed start bytes items) : EndsOnce items := by
  induction framed with
  | done => trivial
  | eol => exact ⟨fun _ => rfl, trivial⟩
  | nop next ih => exact ⟨nofun, ih⟩
  | tlv tlvKind short total next ih => exact ⟨fun eol => absurd eol (fromByte_ne_eol tlvKind), ih⟩
  | extended tlvKind total long next ih => exact ⟨fun eol => absurd eol (fromByte_ne_eol tlvKind), ih⟩
  | bare | shortLength | overrun | extendedBare | extendedShort | extendedOverrun => rfl

theorem endsOnce_itemsOf (bytes : List UInt8) : EndsOnce (itemsOf bytes) := (framed_itemsOf bytes).endsOnce

/-- What a loop that has ended says about the FRAG it was holding. -/
structure Reported (userData : List UInt8) (held : Option Frag) (parsed : ParsedOptions) : Prop where
  frag : parsed.frag = held
  failed : parsed.fragmentFailed = true → held.isSome ∧ userData = []

private theorem reported_failed {state : OptionState} {userData : List UInt8}
    (failing : state.frag.isSome ∧ userData.isEmpty) : Reported userData state.frag state.failedFragment :=
  ⟨rfl, fun _ => ⟨failing.1, List.isEmpty_iff.mp failing.2⟩⟩

private theorem optionStep_reported {fragmentContext : Bool} {userData : List UInt8} {state : OptionState}
    {option : OptionRef}
    {parsed : ParsedOptions} (stepped : optionStep crc32c fragmentContext userData state option = .left (.ok parsed)) :
    Reported userData state.frag parsed := by
  have outcome := optionStep_case crc32c fragmentContext userData state option
  rw [stepped] at outcome
  generalize target : LoopStep.left (.ok parsed) = step at outcome
  cases outcome with
  | short | fragAgain =>
    unfold leaveWith at target
    split at target
    next failing =>
      cases target
      exact reported_failed failing
    · cases target
  | filler | fragFirst | fragWrong | apcIgnored | known | unknown | unsupported => cases target

theorem optionLoop_keeps {fragmentContext : Bool} {userData : List UInt8} {state : OptionState}
    {items : List OptionsIter.Item} {parsed : ParsedOptions} (seen : state.seen Kind.frag = true)
    (parsing : optionLoop crc32c fragmentContext userData state items = .ok parsed) :
    Reported userData state.frag parsed := by
  induction items generalizing state with
  | nil =>
    cases parsing
    exact ⟨rfl, nofun⟩
  | cons item rest ih =>
    cases item with
    | error error =>
      simp only [optionLoop] at parsing
      split at parsing
      next failing =>
        cases parsing
        exact reported_failed failing
      · cases parsing
    | ok option =>
      simp only [optionLoop] at parsing
      split at parsing
      next after stepped =>
        obtain ⟨_, ⟨same, _⟩ | ⟨_, _, unseen, _⟩⟩ := optionStep_next stepped
        · exact same.frag ▸ ih (same.seen.trans seen) parsing
        · rw [seen] at unseen
          cases unseen
      next after stepped =>
        cases parsing
        exact ⟨(optionStep_broken stepped).1, nofun⟩
      next result stepped =>
        subst parsing
        exact optionStep_reported stepped

/-- The FRAG a loop reports is the one the pre-scan stops at, and only a loop
without user data fails after a FRAG. -/
theorem optionLoop_frag {fragmentContext : Bool} {userData : List UInt8} {state : OptionState}
    {items : List OptionsIter.Item} {parsed : ParsedOptions} (ends : EndsOnce items) (absent : state.frag = none)
    (parsing : optionLoop crc32c fragmentContext userData state items = .ok parsed) :
    Reported userData none parsed ∨
      ∃ option frag, scanFrag items = some option ∧ Frag.decode option.value = .ok frag ∧
        Reported userData (some frag) parsed := by
  induction items generalizing state with
  | nil =>
    cases parsing
    exact .inl ⟨absent, Bool.noConfusion⟩
  | cons item rest ih =>
    cases item with
    | error error =>
      simp only [optionLoop, absent, Option.isSome_none, Bool.false_eq_true, false_and, if_false] at parsing
      cases parsing
    | ok option =>
      simp only [optionLoop] at parsing
      split at parsing
      next after stepped =>
        obtain ⟨_, ⟨same, notFrag, eol | passing⟩ | ⟨first, kind, unseen, decoded, rfl⟩⟩ := optionStep_next stepped
        · rw [ends.1 eol] at parsing
          cases parsing
          exact .inl ⟨same.frag.trans absent, Bool.noConfusion⟩
        · rcases ih ends.2 (same.frag.trans absent) parsing with none | ⟨found, frag, scanned, rest⟩
          · exact .inl none
          · exact .inr ⟨found, frag, by rw [scanFrag, if_neg notFrag, if_pos passing, scanned], rest⟩
        · have kept := optionLoop_keeps (by simp [OptionState.markSeen]) parsing
          exact .inr ⟨option, first, by rw [scanFrag, if_pos kind], decoded, kept⟩
      next after stepped =>
        cases parsing
        exact .inl ⟨(optionStep_broken stepped).1.trans absent, Bool.noConfusion⟩
      next result stepped =>
        subst parsing
        obtain ⟨_, ⟨⟩⟩ := optionStep_left absent stepped

/-- Only an area without user data fails as a fragment, and then it has a FRAG. -/
theorem parseArea_failed {optionsBytes userData : List UInt8} {optionsOffset : Nat} {parsed : ParsedOptions}
    (parsing : parseArea crc32c optionsBytes userData optionsOffset = .ok parsed)
    (failed : parsed.fragmentFailed = true) : parsed.frag.isSome ∧ userData = [] := by
  have looped : ∀ {fragmentContext bytes},
      optionLoop crc32c fragmentContext userData .initial (itemsOf bytes) = .ok parsed →
      parsed.frag.isSome ∧ userData = [] := by
    intro fragmentContext bytes loop
    rcases optionLoop_frag (endsOnce_itemsOf bytes) rfl loop with none | ⟨_, frag, _, _, some⟩
    · cases (none.failed failed).1
    · exact ⟨by rw [some.frag]; rfl, (some.failed failed).2⟩
  unfold parseArea at parsing
  split at parsing
  · exact looped parsing
  · exact looped parsing
  next other malformed =>
    cases parsing
    refine ⟨rfl, ?_⟩
    by_contra nonempty
    rw [if_neg (by simpa using nonempty)] at malformed
    cases malformed

/-- Without user data the reported FRAG is the first one of the area, and unless
the fragment failed it starts its data inside the area. -/
theorem parseArea_frag {optionsBytes : List UInt8} {optionsOffset : Nat} {parsed : ParsedOptions} {frag : Frag}
    (parsing : parseArea crc32c optionsBytes [] optionsOffset = .ok parsed) (reported : parsed.frag = some frag) :
    (∃ option, scanFrag (itemsOf optionsBytes) = some option ∧ Frag.decode option.value = .ok frag) ∧
    (parsed.fragmentFailed = false →
      ∃ stop, stop ≤ optionsBytes.length ∧ frag.fragStart.toNat = optionsOffset + stop) := by
  have looped : ∀ {fragmentContext bytes},
      optionLoop crc32c fragmentContext [] .initial (itemsOf bytes) = .ok parsed →
      ∃ option, scanFrag (itemsOf bytes) = some option ∧ Frag.decode option.value = .ok frag := by
    intro fragmentContext bytes loop
    rcases optionLoop_frag (endsOnce_itemsOf bytes) rfl loop with none | ⟨option, other, found, decoded, some⟩
    · cases none.frag.symm.trans reported
    · cases some.frag.symm.trans reported
      exact ⟨option, found, decoded⟩
  unfold parseArea at parsing
  rw [if_pos List.isEmpty_nil] at parsing
  split at parsing
  next full =>
    obtain ⟨option, found, decoded⟩ := looped parsing
    obtain ⟨error, failed⟩ := limitOf_full full found
    cases failed.symm.trans decoded
  next stop cut =>
    obtain ⟨option, other, found, decoded, starts, inside, behind⟩ := limitOf_upTo cut
    obtain ⟨valueAt, addressed, _⟩ := (framed_itemsOf optionsBytes).scanFrag_at found
    obtain ⟨kept, framed, first, _⟩ := (framed_itemsOf optionsBytes).take found addressed
      (show valueAt + option.value.length ≤ 0 + stop by
        simpa only [endOffset, addressed, Option.getD_some, Nat.zero_add] using behind)
    obtain ⟨again, rescanned, redecoded⟩ := looped parsing
    rw [framed.itemsOf_eq, first] at rescanned
    cases rescanned
    cases decoded.symm.trans redecoded
    exact ⟨⟨option, found, decoded⟩, fun _ => ⟨stop, inside, starts⟩⟩
  next other malformed =>
    cases parsing
    cases reported
    obtain ⟨option, found, decoded, _⟩ := limitOf_malformed.mp malformed
    exact ⟨⟨option, found, decoded⟩, Bool.noConfusion⟩

end

end UdpOptions.Proofs
