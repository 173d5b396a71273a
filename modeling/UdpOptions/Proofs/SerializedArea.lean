import UdpOptions.Library.StableSort
import UdpOptions.Options.Serialize
import UdpOptions.Proofs.OptionGrammar
import UdpOptions.Proofs.OptionLoop

/-! What the receiver reads of a serialized options body. The serializer emits a
body whose items are the sorted options, with NOP between them and EOL behind
them, and the option loop absorbs those items one option at a time. -/

namespace UdpOptions.Proofs
open Library Model

/-- An option the serializer accepts. -/
structure Sendable (option : RawOption) : Prop where
  tlvKind : IsTlvKind option.kind.toByte
  safe : option.kind.toByte < Kind.unsafeMin
  scope : Serialize.isOutOfScopeAssignedSafeKind option.kind.toByte = false
  short : option.value.length ≤ Serialize.extendedValueLenMax
  fixed : Serialize.fixedValueLens option.kind.toByte = [] ∨
    option.value.length ∈ Serialize.fixedValueLens option.kind.toByte

theorem validateOption_iff {option : RawOption} : Serialize.validateOption option = .ok () ↔ Sendable option := by
  unfold Serialize.validateOption
  dsimp only
  constructor
  · intro passed
    split at passed
    · cases passed
    next reserved =>
      split at passed
      · cases passed
      next safe =>
        split at passed
        · cases passed
        next scope =>
          split at passed
          · cases passed
          next short =>
            unfold Serialize.validateFixedValueLen at passed
            dsimp only at passed
            split at passed
            next fixed =>
              rw [not_or] at reserved
              exact ⟨⟨reserved.1, reserved.2⟩, UInt8.not_le.mp safe, Bool.eq_false_iff.mpr scope,
                Nat.le_of_not_lt short, fixed.imp_left List.isEmpty_iff.mp⟩
            · cases passed
  · intro sendable
    rw [if_neg (not_or.mpr sendable.tlvKind), if_neg (UInt8.not_le.mpr sendable.safe),
      if_neg (Bool.eq_false_iff.mp sendable.scope), if_neg (Nat.not_lt.mpr sendable.short),
      Serialize.validateFixedValueLen]
    exact if_pos (sendable.fixed.imp_left List.isEmpty_iff.mpr)

def isFrag (option : RawOption) : Bool := option.kind.toByte = Kind.frag

theorem validateFrom_iff {seenFrag : Bool} {options : List RawOption} :
    Serialize.validateFrom seenFrag options = .ok () ↔
      (∀ option ∈ options, Sendable option) ∧ seenFrag.toNat + options.countP isFrag ≤ 1 := by
  induction options generalizing seenFrag with
  | nil =>
    refine iff_of_true rfl ⟨by simp, ?_⟩
    cases seenFrag <;> decide
  | cons option rest ih =>
    rw [Serialize.validateFrom, List.forall_mem_cons, List.countP_cons]
    cases valid : Serialize.validateOption option with
    | error error =>
      have refused : ¬ Sendable option := fun sendable => by cases valid.symm.trans (validateOption_iff.mpr sendable)
      exact iff_of_false nofun fun passed => refused passed.1.1
    | ok =>
      dsimp only
      rw [and_iff_right (validateOption_iff.mp valid)]
      by_cases frag : option.kind.toByte = Kind.frag
      · rw [if_pos frag, if_pos (show isFrag option = true from decide_eq_true frag)]
        cases seenFrag with
        | true => exact iff_of_false nofun fun passed => absurd passed.2 (by rw [Bool.toNat_true]; omega)
        | false =>
          rw [if_neg Bool.false_ne_true, ih, Bool.toNat_true, Bool.toNat_false, Nat.zero_add, Nat.add_comm 1]
      · rw [if_neg frag, ih, if_neg (by simpa [isFrag] using frag), Nat.add_zero]

/-- An option that is not FRAG, by its byte. -/
def NoFrag (options : List RawOption) : Prop := ∀ option ∈ options, option.kind.toByte ≠ Kind.frag

def patched (start : UInt16) (option : RawOption) : RawOption :=
  if option.kind.toByte = Kind.frag then { option with value := u16Be start ++ option.value.drop 2 } else option

section
variable {start : UInt16} {option : RawOption}

theorem Sendable.patched_length (sendable : Sendable option) :
    (patched start option).value.length = option.value.length := by
  unfold patched
  split
  next frag =>
    have lengths := sendable.fixed
    rw [frag, show Serialize.fixedValueLens Kind.frag = [8, 10] from rfl] at lengths
    have known : option.value.length = 8 ∨ option.value.length = 10 := by simpa using lengths
    simp only [List.length_append, u16Be_length, List.length_drop]
    omega
  · rfl

/-- Validation reads the byte of the kind and the length of the value. -/
theorem Sendable.keep {other : RawOption} (sendable : Sendable option)
    (kind : other.kind.toByte = option.kind.toByte) (length : other.value.length = option.value.length) :
    Sendable other := by
  obtain ⟨tlvKind, safe, scope, short, fixed⟩ := sendable
  rw [← kind] at tlvKind safe scope fixed
  rw [← length] at short fixed
  exact ⟨tlvKind, safe, scope, short, fixed⟩

theorem Sendable.patched (sendable : Sendable option) : Sendable (patched start option) := by
  refine sendable.keep ?_ sendable.patched_length
  unfold Proofs.patched
  split <;> rfl

theorem patched_sendable {options : List RawOption} (sendable : ∀ option ∈ options, Sendable option) :
    ∀ option ∈ (Serialize.sortByRank options).map (patched start), Sendable option := by
  rw [List.forall_mem_map]
  intro option member
  exact (sendable option ((List.mem_insertionSort _).mp member)).patched

end

theorem finish_iff {options : List RawOption} {body : List UInt8} :
    Serialize.finish options = .ok body ↔
      ((∀ option ∈ options, Sendable option) ∧ options.countP isFrag ≤ 1) ∧
      ∃ bodyLen start, Serialize.serializedBodyLen (Serialize.sortByRank options) = .ok bodyLen ∧
        8 + bodyLen = start.toNat ∧
        Serialize.emitFrom [0, 0] ((Serialize.sortByRank options).map (patched start)) = .ok body := by
  have valid := @validateFrom_iff false options
  rw [Bool.toNat_false, Nat.zero_add] at valid
  rw [← valid]
  unfold Serialize.finish Serialize.validatedOptions
  cases Serialize.validateFrom false options with
  | error error => exact iff_of_false nofun fun passed => by cases passed.1
  | ok =>
    rw [and_iff_right rfl]
    change (Serialize.serializedBodyLen (Serialize.sortByRank options) >>= fun bodyLen =>
      Serialize.patchFragStart (Serialize.sortByRank options) bodyLen >>= Serialize.emitFrom [0, 0]) = .ok body ↔ _
    cases Serialize.serializedBodyLen (Serialize.sortByRank options) with
    | error error => exact iff_of_false nofun (by rintro ⟨_, _, ⟨⟩, _⟩)
    | ok bodyLen =>
      change (Serialize.patchFragStart (Serialize.sortByRank options) bodyLen >>= Serialize.emitFrom [0, 0]) = .ok body ↔ _
      unfold Serialize.patchFragStart
      dsimp only
      cases word : tryU16 (Length.udpHeader + bodyLen) with
      | none =>
        refine iff_of_false nofun ?_
        rintro ⟨_, start, ⟨⟩, fits, _⟩
        cases word.symm.trans (tryU16_eq_some.mpr fits)
      | some start =>
        constructor
        · intro emitted
          exact ⟨bodyLen, start, rfl, tryU16_eq_some.mp word, emitted⟩
        · rintro ⟨_, other, ⟨⟩, fits, emitted⟩
          cases word.symm.trans (tryU16_eq_some.mpr fits)
          exact emitted

theorem finish_emits {options : List RawOption} {body : List UInt8} (noFrag : NoFrag options)
    (finished : Serialize.finish options = .ok body) :
    (∀ option ∈ options, Sendable option) ∧
      Serialize.emitFrom [0, 0] (Serialize.sortByRank options) = .ok body := by
  obtain ⟨⟨sendable, _⟩, bodyLen, start, _, _, emitted⟩ := finish_iff.mp finished
  have unpatched : (Serialize.sortByRank options).map (patched start) = Serialize.sortByRank options := by
    conv_rhs => rw [← List.map_id (Serialize.sortByRank options)]
    apply List.map_congr_left
    intro option member
    exact if_neg (noFrag option ((List.mem_insertionSort _).mp member))
  rw [unpatched] at emitted
  exact ⟨sendable, emitted⟩

def refOf (option : RawOption) (valueAt : Option Nat) : OptionRef :=
  ⟨.fromByte option.kind.toByte, option.value, valueAt⟩

/-- The items of a serialized area: the options in order, NOP anywhere, and EOL. -/
inductive Emits : List RawOption → List OptionsIter.Item → Prop where
  | done : Emits [] [.ok ⟨.eol, [], none⟩]
  | nop {options : List RawOption} {items : List OptionsIter.Item} (next : Emits options items) :
      Emits options (.ok ⟨.nop, [], none⟩ :: items)
  | option {option : RawOption} {options : List RawOption} {items : List OptionsIter.Item} (valueAt : Nat)
      (next : Emits options items) : Emits (option :: options) (.ok (refOf option (some valueAt)) :: items)

def tokenOf (option : RawOption) : Token :=
  if option.value.length ≤ Serialize.defaultValueLenMax then .short option.kind.toByte option.value
  else .extended option.kind.toByte option.value

theorem Sendable.token_proper {option : RawOption} (sendable : Sendable option) : (tokenOf option).Proper := by
  have kind := isTlvKind_iff.mp sendable.tlvKind
  have short : option.value.length ≤ 65531 := sendable.short
  unfold tokenOf
  split
  next small =>
    have limit : option.value.length ≤ 252 := small
    exact ⟨kind, by omega⟩
  next large =>
    have limit : ¬ option.value.length ≤ 252 := large
    exact ⟨kind, by omega, by omega⟩

theorem encodeOption_token {option : RawOption} (short : option.value.length ≤ Serialize.extendedValueLenMax) :
    Serialize.encodeOption option = .ok (tokenOf option).bytes := by
  have limit : option.value.length ≤ 65531 := short
  unfold Serialize.encodeOption tokenOf
  dsimp only
  split
  · rfl
  · rw [if_neg (by omega)]
    rfl

theorem Sendable.framed {option : RawOption} (sendable : Sendable option) :
    ∃ headerLen, ∀ (start : Nat) (rest : List UInt8) (items : List OptionsIter.Item),
      Framed (start + (tokenOf option).bytes.length) rest items →
      Framed start ((tokenOf option).bytes ++ rest) (.ok (refOf option (some (start + headerLen))) :: items) := by
  have proper := sendable.token_proper
  unfold tokenOf at proper ⊢
  by_cases small : option.value.length ≤ Serialize.defaultValueLenMax
  · rw [if_pos small] at proper ⊢
    exact ⟨2, fun _ _ _ => proper.short_framed⟩
  · rw [if_neg small] at proper ⊢
    exact ⟨4, fun _ _ _ => proper.extended_framed⟩

/-- What the serializer appends is framed as the options it was given. -/
theorem emitFrom_framed {out body : List UInt8} {options : List RawOption}
    (sendable : ∀ option ∈ options, Sendable option) (emitted : Serialize.emitFrom out options = .ok body)
    (start : Nat) : ∃ area items, body = out ++ area ∧ Framed start area items ∧ Emits options items := by
  induction options generalizing out start with
  | nil =>
    simp only [Serialize.emitFrom] at emitted
    cases emitted
    split
    · exact ⟨[Kind.eol, 0], _, by simp, .eol, .done⟩
    · exact ⟨[Kind.eol], _, rfl, .eol, .done⟩
  | cons option rest ih =>
    obtain ⟨first, later⟩ := List.forall_mem_cons.mp sendable
    obtain ⟨headerLen, framing⟩ := first.framed
    rw [Serialize.emitFrom, encodeOption_token first.short] at emitted
    generalize (tokenOf option).bytes = encoded at emitted framing
    change Serialize.emitFrom ((if out.length % 2 = 1 then out ++ [Kind.nop] else out) ++ encoded) rest = .ok body
      at emitted
    split at emitted
    · obtain ⟨area, items, same, framed, emits⟩ := ih later emitted (start + 1 + encoded.length)
      refine ⟨Kind.nop :: (encoded ++ area), _, ?_, .nop (framing _ _ _ framed), .nop (.option _ emits)⟩
      rw [same]
      simp
    · obtain ⟨area, items, same, framed, emits⟩ := ih later emitted (start + encoded.length)
      refine ⟨encoded ++ area, _, ?_, framing _ _ _ framed, .option _ emits⟩
      rw [same, List.append_assoc]

theorem finish_led {options : List RawOption} {body : List UInt8} (finished : Serialize.finish options = .ok body) :
    2 ≤ body.length := by
  obtain ⟨⟨sendable, _⟩, _, _, _, _, emitted⟩ := finish_iff.mp finished
  obtain ⟨area, _, rfl, _, _⟩ := emitFrom_framed (patched_sendable sendable) emitted 0
  exact Nat.le_add_left 2 area.length

theorem fixedValueLens_small {byte : UInt8} {len : Nat} (listed : len ∈ Serialize.fixedValueLens byte) : len ≤ 10 := by
  unfold Serialize.fixedValueLens at listed
  repeat' (split at listed)
  all_goals simp [Length.apc, Length.fragNonTerminal, Length.fragTerminal, Length.mds, Length.mrds, Length.req,
    Length.res] at listed
  all_goals omega

/-- Sender and receiver agree on the fixed lengths. -/
theorem fixedTlvLengths_eq (kind : OptionKind) :
    kind.fixedTlvLengths = (Serialize.fixedValueLens kind.toByte).map (· + 2) := by
  unfold OptionKind.fixedTlvLengths Serialize.fixedValueLens
  dsimp only
  repeat' (split; · rfl)
  rfl

theorem lengthTest_sendable {option : RawOption} (sendable : Sendable option) (fragmentContext : Bool)
    (valueAt : Option Nat) : lengthTest fragmentContext (refOf option valueAt) = .ok () := by
  have byte : (refOf option valueAt).kind.toByte = option.kind.toByte := OptionKind.toByte_fromByte _
  have scope := sendable.scope
  have known : ∀ minLen, minimumKnownTlvLen (refOf option valueAt).kind = some minLen →
      minLen ≤ option.value.length + 2 := by
    intro minLen found
    unfold minimumKnownTlvLen at found
    rw [byte] at found
    split at found
    next time => simp [Serialize.isOutOfScopeAssignedSafeKind, time] at scope
    · split at found
      next exp => simp [Serialize.isOutOfScopeAssignedSafeKind, exp] at scope
      · rw [fixedTlvLengths_eq, byte] at found
        rcases sendable.fixed with free | listed
        · rw [free] at found
          cases found
        · exact (List.min?_eq_some_iff.mp found).2 _ (List.mem_map.mpr ⟨_, listed, rfl⟩)
  unfold lengthTest rejectSubMinimum
  split
  · rfl
  · cases found : minimumKnownTlvLen (refOf option valueAt).kind with
    | none => rfl
    | some minLen => exact if_neg (Nat.not_lt.mpr (known minLen found))

section
variable (crc32c : List UInt8 → UInt32) (userData : List UInt8)

/-- One option of a serialized area as the loop takes it in. -/
def absorb (state : OptionState) (option : RawOption) : OptionState :=
  match knownStatus crc32c userData (refOf option none) with
  | some status => state.recordOnce (refOf option none) status
  | none => state.pushReport (.fromByte option.kind.toByte) .ignored

/-- The same in the options of a fragment, where APC is ignored. -/
def absorbIn (fragmentContext : Bool) (state : OptionState) (option : RawOption) : OptionState :=
  if fragmentContext = true ∧ option.kind.toByte = Kind.apc then state.pushReport .apc .ignored
  else absorb crc32c userData state option

@[simp] theorem absorbIn_false : absorbIn crc32c userData false = absorb crc32c userData := by
  funext state option
  exact if_neg (by simp)

theorem optionStep_absorb {option : RawOption} (sendable : Sendable option)
    (notFrag : option.kind.toByte ≠ Kind.frag) (fragmentContext : Bool) (state : OptionState)
    (valueAt : Option Nat) :
    optionStep crc32c fragmentContext userData state (refOf option valueAt) =
      .next (absorbIn crc32c userData fragmentContext state option) := by
  have byte : (refOf option valueAt).kind.toByte = option.kind.toByte := OptionKind.toByte_fromByte _
  have other : (refOf option valueAt).kind ≠ .frag := fun kind => notFrag (byte.symm.trans (by rw [kind]; rfl))
  have outcome := optionStep_case crc32c fragmentContext userData state (refOf option valueAt)
  generalize optionStep crc32c fragmentContext userData state (refOf option valueAt) = step at outcome
  have status : knownStatus crc32c userData (refOf option none) =
      knownStatus crc32c userData (refOf option valueAt) := rfl
  cases outcome with
  | short below => cases (lengthTest_sendable sendable fragmentContext valueAt).symm.trans below
  | filler proper kind =>
    rcases kind with kind | kind
    · exact absurd (byte.symm.trans (by rw [kind]; rfl)) sendable.tlvKind.1
    · exact absurd (byte.symm.trans (by rw [kind]; rfl)) sendable.tlvKind.2
  | fragAgain proper kind => exact absurd kind other
  | fragFirst proper kind => exact absurd kind other
  | fragWrong proper kind => exact absurd kind other
  | apcIgnored context kind =>
    have apc : option.kind.toByte = Kind.apc := byte.symm.trans (by rw [kind]; rfl)
    rw [absorbIn, if_pos ⟨context, apc⟩, kind]
  | known proper outside decided =>
    have counted : ¬ (fragmentContext = true ∧ option.kind.toByte = Kind.apc) := by
      intro inside
      exact outside ⟨inside.1, by rw [refOf, inside.2]; rfl⟩
    rw [absorbIn, if_neg counted, absorb, status, decided]
    rfl
  | @unknown raw proper kind safe =>
    have none : knownStatus crc32c userData (refOf option valueAt) = none := by rw [knownStatus, kind]
    have counted : ¬ (fragmentContext = true ∧ option.kind.toByte = Kind.apc) := by
      intro inside
      rw [refOf, inside.2] at kind
      cases kind
    rw [absorbIn, if_neg counted, absorb, status, none]
    rfl
  | unsupported proper kind dangerous =>
    rw [← kind, OptionKind.isSafe, byte] at dangerous
    exact absurd sendable.safe (of_decide_eq_false dangerous)

theorem optionLoop_emits {options : List RawOption} {items : List OptionsIter.Item} (emits : Emits options items)
    (sendable : ∀ option ∈ options, Sendable option) (noFrag : NoFrag options) (fragmentContext : Bool)
    (state : OptionState) :
    optionLoop crc32c fragmentContext userData state items =
      .ok ((options.foldl (absorbIn crc32c userData fragmentContext) state).finished false) := by
  induction emits generalizing state with
  | done => cases fragmentContext <;> rfl
  | nop next ih =>
    have looped := ih sendable noFrag state
    cases fragmentContext <;> exact looped
  | @option option rest items valueAt next ih =>
    rw [optionLoop, optionStep_absorb crc32c userData (sendable option (by simp)) (noFrag option (by simp))]
    exact ih (fun other member => sendable other (List.mem_cons_of_mem _ member))
      (fun other member => noFrag other (List.mem_cons_of_mem _ member)) _

end

end UdpOptions.Proofs
