import UdpOptions.Proofs.CanonicalForm

/-! Which options the serializer accepts. The length is summed up under one limit,
and the patch of the fragment start has another limit, a few bytes lower, that it
applies to every list. A list without FRAG whose body is between the two limits is
refused for the start of a fragment that it does not have. -/

namespace UdpOptions.Proofs
open Library Model

/-- An option that may be sent: a kind the serializer emits, with a value that its kind and the wire allow. -/
structure Acceptable (option : RawOption) : Prop where
  kind : 2 ≤ option.kind.toByte ∧ option.kind.toByte ≤ 7 ∨ 10 ≤ option.kind.toByte ∧ option.kind.toByte ≤ 126
  short : option.value.length ≤ 65531
  fixed : Serialize.fixedValueLens option.kind.toByte = [] ∨
    option.value.length ∈ Serialize.fixedValueLens option.kind.toByte

private theorem acceptedKind_iff (byte : UInt8) :
    (2 ≤ byte ∧ byte ≤ 7 ∨ 10 ≤ byte ∧ byte ≤ 126) ↔
      IsTlvKind byte ∧ byte < Kind.unsafeMin ∧ Serialize.isOutOfScopeAssignedSafeKind byte = false := by
  have scope : Serialize.isOutOfScopeAssignedSafeKind byte = false ↔
      ¬ (byte = 8 ∨ byte = 9 ∨ byte = 127 ∨ 128 ≤ byte ∧ byte ≤ 191) := decide_eq_false_iff_not
  rw [scope, isTlvKind_iff, show Kind.unsafeMin = 192 from rfl]
  simp only [UInt8.le_iff_toNat_le, UInt8.lt_iff_toNat_lt, ← UInt8.toNat_inj, UInt8.reduceToNat]
  omega

theorem sendable_iff {option : RawOption} : Sendable option ↔ Acceptable option := by
  constructor
  · intro sendable
    exact ⟨(acceptedKind_iff _).mpr ⟨sendable.tlvKind, sendable.safe, sendable.scope⟩, sendable.short, sendable.fixed⟩
  · intro acceptable
    obtain ⟨tlvKind, safe, scope⟩ := (acceptedKind_iff _).mp acceptable.kind
    exact ⟨tlvKind, safe, scope, acceptable.short, acceptable.fixed⟩

/-- The length of the layout from an offset on, whatever the limits are: an option starts
at an even offset, and EOL and fill bring the end to one. -/
def layoutLen (len : Nat) : List RawOption → Nat
  | [] => len + 1 + (len + 1) % 2
  | option :: rest => layoutLen (len + len % 2 + Serialize.encodedLen option.value.length) rest

def canonicalLen (options : List RawOption) : Nat := layoutLen Length.ocs (Serialize.sortByRank options)

private theorem lt_layoutLen (len : Nat) (options : List RawOption) : len < layoutLen len options := by
  induction options generalizing len with
  | nil =>
    unfold layoutLen
    omega
  | cons option rest ih =>
    have further := ih (len + len % 2 + Serialize.encodedLen option.value.length)
    unfold layoutLen
    omega

/-- A length computed under the limit: the length itself, or a refusal of a longer one. -/
def SumsTo (computed : Except SerializeError Nat) (len : Nat) : Prop :=
  len ≤ Serialize.bodyLenMax ∧ computed = .ok len ∨
    Serialize.bodyLenMax < len ∧ ∃ reported, computed = .error (.bodyTooLong reported Serialize.bodyLenMax)

private theorem checkedBodyAdd_sum (current add : Nat) :
    SumsTo (Serialize.checkedBodyAdd current add) (current + add) := by
  by_cases fits : current + add ≤ Serialize.bodyLenMax
  · exact .inl ⟨fits, checkedBodyAdd_eq_ok.mpr ⟨rfl, fits⟩⟩
  · refine .inr ⟨Nat.lt_of_not_le fits, ?_⟩
    unfold Serialize.checkedBodyAdd
    cases sum : checkedAdd current add with
    | none => exact ⟨_, rfl⟩
    | some len =>
      have same : len = current + add := by
        unfold checkedAdd at sum
        split at sum <;> cases sum
        rfl
      exact ⟨len, if_pos (by omega)⟩

private theorem alignLen_sum {len : Nat} (fits : len ≤ Serialize.bodyLenMax) :
    SumsTo (Serialize.alignLen len) (len + len % 2) := by
  unfold Serialize.alignLen
  split
  next odd =>
    rw [odd]
    exact checkedBodyAdd_sum len 1
  next even =>
    rw [show len % 2 = 0 by omega]
    exact .inl ⟨fits, rfl⟩

theorem SumsTo.bind {computed : Except SerializeError Nat} {next : Nat → Except SerializeError Nat} {len final : Nat}
    (sized : SumsTo computed len) (grows : len ≤ final) (later : len ≤ Serialize.bodyLenMax → SumsTo (next len) final) :
    SumsTo (computed >>= next) final := by
  rcases sized with ⟨fits, rfl⟩ | ⟨long, reported, rfl⟩
  · exact later fits
  · exact .inr ⟨Nat.lt_of_lt_of_le long grows, reported, rfl⟩

private theorem bodyLenFrom_sum {len : Nat} (fits : len ≤ Serialize.bodyLenMax) (options : List RawOption) :
    SumsTo (Serialize.bodyLenFrom len options) (layoutLen len options) := by
  induction options generalizing len with
  | nil =>
    apply (checkedBodyAdd_sum len 1).bind
    · unfold layoutLen
      omega
    · exact alignLen_sum
  | cons option rest ih =>
    have longer := lt_layoutLen (len + len % 2 + Serialize.encodedLen option.value.length) rest
    apply (alignLen_sum fits).bind
    · unfold layoutLen
      omega
    · intro _
      apply (checkedBodyAdd_sum _ _).bind
      · exact Nat.le_of_lt longer
      · exact ih

private theorem serializedBodyLen_sum (options : List RawOption) :
    SumsTo (Serialize.serializedBodyLen (Serialize.sortByRank options)) (canonicalLen options) :=
  bodyLenFrom_sum (by decide) _

private theorem emitFrom_total {options : List RawOption} (sendable : ∀ option ∈ options, Sendable option)
    (out : List UInt8) :
    ∃ body, Serialize.emitFrom out options = .ok body := by
  induction options generalizing out with
  | nil => exact ⟨_, rfl⟩
  | cons option rest ih =>
    obtain ⟨first, later⟩ := List.forall_mem_cons.mp sendable
    rw [Serialize.emitFrom, encodeOption_token first.short]
    exact ih later _

private theorem validateOption_error {option : RawOption} {error : SerializeError}
    (refused : Serialize.validateOption option = .error error) (start max : Nat) :
    error ≠ .fragmentStartTooLarge start max := by
  unfold Serialize.validateOption Serialize.validateFixedValueLen at refused
  dsimp only at refused
  split_ifs at refused <;> cases refused <;> exact nofun

private theorem validateFrom_error {seenFrag : Bool} {options : List RawOption} {error : SerializeError}
    (refused : Serialize.validateFrom seenFrag options = .error error) (start max : Nat) :
    error ≠ .fragmentStartTooLarge start max := by
  induction options generalizing seenFrag with
  | nil => cases refused
  | cons option rest ih =>
    rw [Serialize.validateFrom] at refused
    cases valid : Serialize.validateOption option with
    | error first =>
      rw [valid] at refused
      cases refused
      exact validateOption_error valid start max
    | ok =>
      rw [valid] at refused
      dsimp only at refused
      split_ifs at refused
      · cases refused
        exact SerializeError.noConfusion
      · exact ih refused
      · exact ih refused

/-- Options that pass validation: each may be sent, and at most one is FRAG. -/
def Validated (options : List RawOption) : Prop :=
  (∀ option ∈ options, Acceptable option) ∧ options.countP isFrag ≤ 1

private theorem validated_iff {options : List RawOption} :
    Validated options ↔ Serialize.validateFrom false options = .ok () := by
  rw [validateFrom_iff, Bool.toNat_false, Nat.zero_add]
  simp only [Validated, sendable_iff]

/-- What the serializer does with a list, by the canonical length. -/
inductive FinishVerdict (options : List RawOption) : Except SerializeError (List UInt8) → Prop where
  | invalid (error : SerializeError) (refused : ¬ Validated options)
      (named : ∀ start max, error ≠ .fragmentStartTooLarge start max) : FinishVerdict options (.error error)
  | tooLong (reported : Nat) (valid : Validated options) (long : Serialize.bodyLenMax < canonicalLen options) :
      FinishVerdict options (.error (.bodyTooLong reported Serialize.bodyLenMax))
  | startTooLarge (valid : Validated options) (fits : canonicalLen options ≤ Serialize.bodyLenMax)
      (large : 65535 < 8 + canonicalLen options) :
      FinishVerdict options (.error (.fragmentStartTooLarge (8 + canonicalLen options) 65535))
  | body (body : List UInt8) (valid : Validated options) (fits : 8 + canonicalLen options ≤ 65535) :
      FinishVerdict options (.ok body)

private theorem finish_verdict (options : List RawOption) : FinishVerdict options (Serialize.finish options) := by
  unfold Serialize.finish Serialize.validatedOptions
  cases validated : Serialize.validateFrom false options with
  | error error =>
    refine .invalid error ?_ (validateFrom_error validated)
    intro valid
    cases validated.symm.trans (validated_iff.mp valid)
  | ok =>
    have valid := validated_iff.mpr validated
    change FinishVerdict options (Serialize.serializedBodyLen (Serialize.sortByRank options) >>= fun bodyLen =>
      Serialize.patchFragStart (Serialize.sortByRank options) bodyLen >>= Serialize.emitFrom [0, 0])
    rcases serializedBodyLen_sum options with ⟨fits, sized⟩ | ⟨long, reported, sized⟩
    · rw [sized]
      change FinishVerdict options
        (Serialize.patchFragStart (Serialize.sortByRank options) (canonicalLen options) >>= Serialize.emitFrom [0, 0])
      unfold Serialize.patchFragStart
      dsimp only
      cases word : tryU16 (Length.udpHeader + canonicalLen options) with
      | none =>
        refine .startTooLarge valid fits (Nat.lt_of_not_le fun small => ?_)
        cases word.symm.trans (tryU16_of_lt (Nat.lt_succ_of_le small))
      | some start =>
        have sendable : ∀ option ∈ options, Sendable option := fun option member => sendable_iff.mpr (valid.1 option member)
        obtain ⟨body, emitted⟩ := emitFrom_total (@patched_sendable start options sendable) [0, 0]
        change FinishVerdict options (Serialize.emitFrom [0, 0] ((Serialize.sortByRank options).map (patched start)))
        rw [emitted]
        have same := tryU16_eq_some.mp word
        have bound := start.toNat_lt
        exact .body body valid (by change 8 + canonicalLen options = _ at same; omega)
    · rw [sized]
      exact .tooLong reported valid long

/-- The options the serializer is to accept: the body has to fit its own limit, and the
limit of the fragment start is there for a list with a FRAG only. -/
structure Serializable (options : List RawOption) : Prop where
  acceptable : ∀ option ∈ options, Acceptable option
  single : options.countP isFrag ≤ 1
  fits : canonicalLen options ≤ Serialize.bodyLenMax
  startFits : ∀ option ∈ options, option.kind.toByte = Kind.frag → 8 + canonicalLen options ≤ 65535

/-- The serializer accepts exactly these, and blames a fragment start only where a FRAG is. -/
def AcceptsAsStated (options : List RawOption) : Prop :=
  ((∃ body, Serialize.finish options = .ok body) ↔ Serializable options) ∧
    ∀ start max, Serialize.finish options = .error (.fragmentStartTooLarge start max) →
      ∃ option ∈ options, option.kind.toByte = Kind.frag

/-- A list without FRAG whose body fits its limit but not the one of a fragment start. -/
structure BlamedStart (options : List RawOption) : Prop where
  acceptable : ∀ option ∈ options, Acceptable option
  noFrag : NoFrag options
  fits : canonicalLen options ≤ Serialize.bodyLenMax
  large : 65535 < 8 + canonicalLen options

theorem BlamedStart.validated {options : List RawOption} (blamed : BlamedStart options) : Validated options := by
  refine ⟨blamed.acceptable, ?_⟩
  rw [List.countP_eq_zero.mpr]
  · exact Nat.zero_le 1
  · intro option member frag
    exact blamed.noFrag option member (of_decide_eq_true frag)

theorem BlamedStart.finish {options : List RawOption} (blamed : BlamedStart options) :
    Serialize.finish options = .error (.fragmentStartTooLarge (8 + canonicalLen options) 65535) := by
  have fits := blamed.fits
  have large := blamed.large
  have verdict := finish_verdict options
  generalize Serialize.finish options = outcome at verdict ⊢
  cases verdict with
  | invalid _ refused => exact absurd blamed.validated refused
  | tooLong _ _ long => omega
  | startTooLarge => rfl
  | body _ _ small => omega

theorem BlamedStart.diverges {options : List RawOption} (blamed : BlamedStart options) : ¬ AcceptsAsStated options := by
  intro ⟨_, named⟩
  obtain ⟨option, member, frag⟩ := named _ _ blamed.finish
  exact blamed.noFrag option member frag

/-- The serializer accepts what it is to accept, but for the lists it blames a fragment start for. -/
theorem accepts_as_stated_iff (options : List RawOption) : AcceptsAsStated options ↔ ¬ BlamedStart options := by
  constructor
  · intro stated blamed
    exact blamed.diverges stated
  · intro unblamed
    have fragment (acceptable : ∀ option ∈ options, Acceptable option)
        (fits : canonicalLen options ≤ Serialize.bodyLenMax) (large : 65535 < 8 + canonicalLen options) :
        ∃ option ∈ options, option.kind.toByte = Kind.frag := by
      by_contra absent
      exact unblamed ⟨acceptable, fun option member frag => absent ⟨option, member, frag⟩, fits, large⟩
    have verdict := finish_verdict options
    unfold AcceptsAsStated
    generalize Serialize.finish options = outcome at verdict ⊢
    cases verdict with
    | invalid error refused named =>
      refine ⟨iff_of_false nofun ?_, ?_⟩
      · intro serializable
        exact refused ⟨serializable.acceptable, serializable.single⟩
      · intro start max blamed
        exact absurd (Except.error.inj blamed) (named start max)
    | tooLong reported _ long =>
      refine ⟨iff_of_false nofun ?_, nofun⟩
      intro serializable
      exact absurd serializable.fits (Nat.not_le_of_lt long)
    | startTooLarge valid fits large =>
      obtain ⟨option, member, frag⟩ := fragment valid.1 fits large
      refine ⟨iff_of_false nofun ?_, fun _ _ _ => ⟨option, member, frag⟩⟩
      intro serializable
      exact absurd (serializable.startFits option member frag) (Nat.not_le_of_lt large)
    | body body valid fits =>
      refine ⟨iff_of_true ⟨body, rfl⟩ ⟨valid.1, valid.2, ?_, fun _ _ _ => fits⟩, nofun⟩
      rw [show Serialize.bodyLenMax = 65534 from rfl]
      omega

section
variable {value : List UInt8}

private theorem longUnknown_len (length : value.length = 65520) : canonicalLen [⟨.other 10, value⟩] = 65528 := by
  have single : canonicalLen [⟨.other 10, value⟩] =
      2 + Serialize.encodedLen value.length + 1 + (2 + Serialize.encodedLen value.length + 1) % 2 := rfl
  rw [single, length]
  rfl

private theorem longUnknown_blamed (length : value.length = 65520) : BlamedStart [⟨.other 10, value⟩] where
  acceptable := by
    intro option listed
    cases List.mem_singleton.mp listed
    have kind : (10 : UInt8) ≤ 10 ∧ (10 : UInt8) ≤ 126 := by decide
    exact ⟨.inr kind, by rw [length]; decide, .inl rfl⟩
  noFrag := by
    intro option listed
    cases List.mem_singleton.mp listed
    exact nofun
  fits := by
    rw [longUnknown_len length]
    decide
  large := by
    rw [longUnknown_len length]
    decide

end

private def longUnknown : List RawOption := [⟨.other 10, List.replicate 65520 0⟩]

/-- One unknown option of 65520 bytes makes a body of 65528 bytes, and the serializer blames its fragment start. -/
theorem unknown_option_blamed_for_fragment_start :
    Serializable longUnknown ∧ Serialize.finish longUnknown = .error (.fragmentStartTooLarge 65536 65535) ∧
      ¬ AcceptsAsStated longUnknown := by
  have length : (List.replicate 65520 (0 : UInt8)).length = 65520 := List.length_replicate
  have blamed := longUnknown_blamed length
  refine ⟨⟨blamed.acceptable, blamed.validated.2, blamed.fits, ?_⟩, ?_, blamed.diverges⟩
  · intro option member frag
    exact absurd frag (blamed.noFrag option member)
  · have finished := blamed.finish
    rw [longUnknown_len length] at finished
    exact finished

end UdpOptions.Proofs
