import UdpOptions.Proofs.AcceptedAreas
import UdpOptions.Proofs.CanonicalOptions
import UdpOptions.Proofs.Transparency
import UdpOptions.Proofs.TypedCodecs

/-! The options of a packet that the checker accepts. The receiver reads the same ones: it
hands them to the application and reports them, or it takes the packet for a fragment with
the same fields and the same data. -/

namespace UdpOptions.Proofs
open Library Model EvalCheck

/-- What the receiver asks of an option and the checker does not test. -/
structure Supported (option : ParsedOption) : Prop where
  safe : option.kind < Kind.unsafeMin
  time : option.kind = Kind.time → Length.time ≤ option.totalLen
  exp : option.kind = Kind.exp → Length.expMin ≤ option.totalLen

def receivedOption (option : ParsedOption) : RawOption := ⟨.fromByte option.kind, option.value⟩

/-- The kinds that reach the application. The APC of a fragment covers no user data. -/
def handsOver (inFragment : Bool) (kind : UInt8) : Bool :=
  [Kind.apc, Kind.mds, Kind.mrds, Kind.req, Kind.res].contains kind && !(inFragment && kind == Kind.apc)

def receivedOptions (inFragment : Bool) (options : List ParsedOption) : List RawOption :=
  (options.filter fun option => handsOver inFragment option.kind).map receivedOption

/-- One report for each option but FRAG. -/
def receivedReports (inFragment : Bool) (options : List ParsedOption) : List OptionReport :=
  (options.filter fun option => option.kind != Kind.frag).map fun option =>
    report (.fromByte option.kind) (if handsOver inFragment option.kind then .success else .ignored)

/-- What is left of the items behind the options: nothing, or an EOL. -/
private def Ended (ending : List OptionsIter.Item) : Prop := ending = [] ∨ ending = [.ok ⟨.eol, [], none⟩]

private theorem token_byte (token : Token) : token.option.kind.toByte = (parsedToken token).kind := by
  cases token with
  | nop => rfl
  | short kind value => exact OptionKind.toByte_fromByte kind
  | extended kind value => exact OptionKind.toByte_fromByte kind

private theorem read_parsed {ref : OptionRef} {token : Token} (visible : token ≠ .nop)
    (shown : ref.toRaw = token.option) :
    ref = ⟨.fromByte (parsedToken token).kind, (parsedToken token).value, ref.valueAt⟩ := by
  obtain ⟨kind, value, valueAt⟩ := ref
  cases token with
  | nop => exact absurd rfl visible
  | short byte bytes =>
    obtain ⟨rfl, rfl⟩ := RawOption.mk.injEq .. ▸ shown
    rfl
  | extended byte bytes =>
    obtain ⟨rfl, rfl⟩ := RawOption.mk.injEq .. ▸ shown
    rfl

section
variable {packet : Packet} {padLen : Nat} {region : List UInt8} {scan : Scan} {tokens : List Token}

private theorem Scanned.framed (scanned : Scanned packet padLen region scan tokens) (ends : ScanEnds region scan) :
    ∃ (refs : List OptionRef) (ending behind : List OptionsIter.Item), Ended ending ∧
      refs.map OptionRef.toRaw = tokens.map Token.option ∧
      Framed 0 (region.take scan.limit) (refs.map .ok ++ ending) ∧ Framed 0 region (refs.map .ok ++ behind) := by
  have split : region.take scan.limit =
      tokens.flatMap Token.bytes ++ (region.drop scan.offset).take (scan.limit - scan.offset) := by
    rw [← scanned.consumed, ← List.take_add, Nat.add_sub_cancel' scanned.ordered]
  obtain ⟨refs, same, framing⟩ := framed_front scanned.proper 0
  obtain ⟨behind, framed⟩ := framed_exists (region.drop scan.offset) (0 + (tokens.flatMap Token.bytes).length)
  have whole := framing _ _ framed
  rw [← scanned.consumed, List.take_append_drop] at whole
  rw [split]
  rcases ends.ending with ⟨_, stopped⟩ | ⟨_, before, eol⟩
  · refine ⟨refs, [], behind, .inl rfl, same, framing _ _ ?_, whole⟩
    rw [stopped, Nat.sub_self]
    exact .done
  · obtain ⟨inside, byte⟩ := List.getElem?_eq_some_iff.mp eol
    obtain ⟨gap, room⟩ := Nat.exists_eq_add_of_lt before
    refine ⟨refs, [.ok ⟨.eol, [], none⟩], behind, .inr rfl, same, framing _ _ ?_, whole⟩
    rw [List.drop_eq_getElem_cons inside, byte, show scan.limit - scan.offset = gap + 1 by omega, List.take_succ_cons]
    exact .eol

end

section
variable {crc32c : List UInt8 → UInt32} {userData : List UInt8} {inFragment : Bool} {state : OptionState}

/-- What the checker has tested on an option, and what it leaves to the receiver. -/
private structure Settled (crc32c : List UInt8 → UInt32) (userData : List UInt8) (option : ParsedOption) : Prop where
  supported : Supported option
  fixed : FixedLength option
  apc : option.kind = Kind.apc → intFromBytes option.value = (crc32c userData).toNat

private theorem Token.Proper.sized {token : Token} (proper : token.Proper) (fixed : FixedLength (parsedToken token))
    (listed : Serialize.fixedValueLens (parsedToken token).kind ≠ []) :
    (parsedToken token).value.length ∈ Serialize.fixedValueLens (parsedToken token).kind ∧
      (parsedToken token).totalLen = (parsedToken token).value.length + 2 := by
  have member := fixed _ (by rw [lookup_fixed, if_neg listed])
  obtain ⟨length, known, total⟩ := List.mem_map.mp member
  have small := fixedValueLens_small known
  cases token with
  | nop => exact absurd rfl listed
  | short kind value =>
    cases Nat.add_right_cancel total
    exact ⟨known, rfl⟩
  | extended kind value =>
    have long := proper.2.1
    change length + 2 = value.length + 4 at total
    omega

private theorem handsOver_cases {kind : UInt8} (handed : handsOver inFragment kind = true) :
    (kind = Kind.apc ∨ kind = Kind.mds ∨ kind = Kind.mrds ∨ kind = Kind.req ∨ kind = Kind.res) ∧
      ¬ (inFragment = true ∧ kind = Kind.apc) := by
  simpa [handsOver, imp_iff_not_or] using handed

private theorem Settled.sendable {token : Token} (settled : Settled crc32c userData (parsedToken token))
    (proper : token.Proper) (handed : handsOver inFragment (parsedToken token).kind = true) :
    Sendable (receivedOption (parsedToken token)) ∧
      OptionKind.fromByte (parsedToken token).kind ∈ reportableKinds := by
  have byte : (receivedOption (parsedToken token)).kind.toByte = (parsedToken token).kind :=
    OptionKind.toByte_fromByte _
  have sized := Token.Proper.sized proper settled.fixed
  obtain ⟨known, _⟩ := handsOver_cases handed
  have built : ∀ kind, (parsedToken token).kind = kind → IsTlvKind kind → kind < Kind.unsafeMin →
      Serialize.isOutOfScopeAssignedSafeKind kind = false → Serialize.fixedValueLens kind ≠ [] →
      OptionKind.fromByte kind ∈ reportableKinds →
      Sendable (receivedOption (parsedToken token)) ∧
        OptionKind.fromByte (parsedToken token).kind ∈ reportableKinds := by
    rintro _ rfl tlvKind safe scope listed reportable
    have value := (sized listed).1
    have small := fixedValueLens_small value
    refine ⟨⟨byte ▸ tlvKind, byte ▸ safe, byte ▸ scope, ?_, .inr (byte ▸ value)⟩, reportable⟩
    exact Nat.le_trans small (by decide)
  rcases known with kind | kind | kind | kind | kind <;>
    exact built _ kind ⟨by decide, by decide⟩ (by decide) (by decide) (by decide) (by decide)

private theorem Settled.handed {token : Token} (settled : Settled crc32c userData (parsedToken token))
    (proper : token.Proper) (handed : handsOver inFragment (parsedToken token).kind = true)
    (unseen : state.seen (parsedToken token).kind = false) (valueAt : Option Nat) :
    optionStep crc32c inFragment userData state
        ⟨.fromByte (parsedToken token).kind, (parsedToken token).value, valueAt⟩ =
      .next ⟨state.options ++ [receivedOption (parsedToken token)],
        state.reports ++ [report (.fromByte (parsedToken token).kind) .success],
        Function.update state.seen (parsedToken token).kind true, state.frag⟩ := by
  obtain ⟨sendable, reportable⟩ := settled.sendable proper handed
  obtain ⟨known, outside⟩ := handsOver_cases handed
  have notFrag : (parsedToken token).kind ≠ Kind.frag := by
    intro frag
    rw [frag] at known
    revert known
    decide
  generalize parsedToken token = option at *
  have byte : (receivedOption option).kind.toByte = option.kind := OptionKind.toByte_fromByte _
  have same : (⟨.fromByte option.kind, option.value, valueAt⟩ : OptionRef) =
      refOf (receivedOption option) valueAt := by
    rw [refOf, byte]
    rfl
  have success : firstStatus crc32c userData (.fromByte option.kind) (receivedOption option) = .success := by
    apply if_neg
    rintro ⟨apc, wrong⟩
    have kind : option.kind = Kind.apc := by rw [← OptionKind.toByte_fromByte option.kind, apc]; rfl
    apply wrong
    obtain ⟨a, b, c, d, value⟩ := List.length_eq_four.mp (sendable.length (byte.trans kind) rfl)
    have stored := settled.apc kind
    change option.value = _ at value
    rw [value, ← u32Be_ofBe, intFromBytes_u32Be, UInt32.toNat_inj] at stored
    change option.value = _
    rw [value, ← u32Be_ofBe, stored]
  rw [same, optionStep_absorb crc32c userData sendable (byte ▸ notFrag), absorbIn, if_neg (byte ▸ outside),
    absorb_first crc32c userData sendable reportable rfl (by rw [OptionKind.toByte_fromByte]; exact unseen),
    success, exposed, if_pos success, OptionKind.toByte_fromByte]
  rfl

private theorem Settled.length_tested {token : Token} (settled : Settled crc32c userData (parsedToken token))
    (proper : token.Proper) (visible : token ≠ .nop) (valueAt : Option Nat) :
    rejectSubMinimum ⟨.fromByte (parsedToken token).kind, (parsedToken token).value, valueAt⟩ = .ok () := by
  have byte := OptionKind.toByte_fromByte (parsedToken token).kind
  have total : (parsedToken token).totalLen ≤ (parsedToken token).value.length + 2 ∨
      10 ≤ (parsedToken token).value.length + 2 := by
    cases token with
    | nop => exact absurd rfl visible
    | short kind value => exact .inl (Nat.le_refl _)
    | extended kind value =>
      have long := proper.2.1
      change _ ∨ 10 ≤ value.length + 2
      omega
  have enough : ∀ minLen, minimumKnownTlvLen (.fromByte (parsedToken token).kind) = some minLen →
      minLen ≤ (parsedToken token).value.length + 2 := by
    intro minLen found
    unfold minimumKnownTlvLen at found
    rw [byte] at found
    split at found
    next time =>
      have least := settled.supported.time time
      cases found
      change 10 ≤ _ at least ⊢
      omega
    split at found
    next exp =>
      have least := settled.supported.exp exp
      cases found
      change 4 ≤ _ at least ⊢
      omega
    rw [fixedTlvLengths_eq, byte] at found
    by_cases listed : Serialize.fixedValueLens (parsedToken token).kind = []
    · rw [listed] at found
      cases found
    · have member := (Token.Proper.sized proper settled.fixed listed).1
      exact (List.min?_eq_some_iff.mp found).2 _ (List.mem_map.mpr ⟨_, member, rfl⟩)
  unfold rejectSubMinimum
  cases found : minimumKnownTlvLen (.fromByte (parsedToken token).kind) with
  | none => rfl
  | some minLen => exact if_neg (Nat.not_lt.mpr (enough minLen found))

private theorem handsOver_known {option : OptionRef} {status : OptionStatus}
    (decided : knownStatus crc32c userData option = some status)
    (outside : ¬ (inFragment = true ∧ option.kind = .apc)) : handsOver inFragment option.kind.toByte = true := by
  unfold knownStatus at decided
  split at decided
  next kind =>
    have whole : inFragment = false := by simpa [kind] using outside
    rw [kind, whole]
    rfl
  next kind => rw [kind]; cases inFragment <;> rfl
  next kind => rw [kind]; cases inFragment <;> rfl
  next kind => rw [kind]; cases inFragment <;> rfl
  next kind => rw [kind]; cases inFragment <;> rfl
  all_goals cases decided

private theorem Settled.ignored {token : Token} (settled : Settled crc32c userData (parsedToken token))
    (proper : token.Proper) (visible : token ≠ .nop) (other : handsOver inFragment (parsedToken token).kind = false)
    (notFrag : (parsedToken token).kind ≠ Kind.frag) (valueAt : Option Nat) :
    optionStep crc32c inFragment userData state
        ⟨.fromByte (parsedToken token).kind, (parsedToken token).value, valueAt⟩ =
      .next (state.pushReport (.fromByte (parsedToken token).kind) .ignored) := by
  have byte := OptionKind.toByte_fromByte (parsedToken token).kind
  have tlvKind : IsTlvKind (parsedToken token).kind := by
    cases token with
    | nop => exact absurd rfl visible
    | short kind value => exact isTlvKind_iff.mpr proper.1
    | extended kind value => exact isTlvKind_iff.mpr proper.1
  have tested := settled.length_tested proper visible valueAt
  have outcome := optionStep_case crc32c inFragment userData state
    ⟨.fromByte (parsedToken token).kind, (parsedToken token).value, valueAt⟩
  generalize optionStep crc32c inFragment userData state
    ⟨.fromByte (parsedToken token).kind, (parsedToken token).value, valueAt⟩ = step at outcome
  cases outcome with
  | short below =>
    unfold lengthTest at below
    split at below
    · cases below
    · cases tested.symm.trans below
  | filler _ kind =>
    rcases kind with kind | kind
    · exact absurd (byte.symm.trans (congrArg OptionKind.toByte kind)) tlvKind.1
    · exact absurd (byte.symm.trans (congrArg OptionKind.toByte kind)) tlvKind.2
  | fragAgain _ kind => exact absurd (byte.symm.trans (congrArg OptionKind.toByte kind)) notFrag
  | fragFirst _ kind => exact absurd (byte.symm.trans (congrArg OptionKind.toByte kind)) notFrag
  | fragWrong _ kind => exact absurd (byte.symm.trans (congrArg OptionKind.toByte kind)) notFrag
  | apcIgnored context kind => rfl
  | known _ outside decided =>
    have handed := handsOver_known decided outside
    rw [byte, other] at handed
    cases handed
  | unknown _ kind safe => rfl
  | unsupported _ kind dangerous =>
    rw [← kind, OptionKind.isSafe, byte] at dangerous
    exact absurd settled.supported.safe (of_decide_eq_false dangerous)

private theorem substantive_visible {token : Token} (visible : token ≠ .nop) (tokens : List Token) :
    substantive (token :: tokens) = token :: substantive tokens := List.filter_cons_of_pos (by simpa using visible)

private theorem receivedOptions_cons (option : ParsedOption) (options : List ParsedOption) :
    receivedOptions inFragment (option :: options) =
      (if handsOver inFragment option.kind then [receivedOption option] else []) ++
        receivedOptions inFragment options := by
  unfold receivedOptions
  rw [List.filter_cons]
  split <;> rfl

private theorem receivedReports_cons {option : ParsedOption} (notFrag : option.kind ≠ Kind.frag)
    (options : List ParsedOption) :
    receivedReports inFragment (option :: options) =
      report (.fromByte option.kind) (if handsOver inFragment option.kind then .success else .ignored) ::
        receivedReports inFragment options := by
  unfold receivedReports
  rw [List.filter_cons_of_pos (by simpa using notFrag), List.map_cons]

private theorem optionStep_filler {ref : OptionRef} (filler : ref.kind = .nop) :
    optionStep crc32c inFragment userData state ref = .next state := by
  obtain ⟨kind, value, valueAt⟩ := ref
  cases filler
  cases inFragment <;> rfl

private theorem optionLoop_tokens {refs : List OptionRef} {tokens : List Token} {ending : List OptionsIter.Item}
    (same : refs.map OptionRef.toRaw = tokens.map Token.option) (ended : Ended ending)
    (proper : ∀ token ∈ tokens, token.Proper) (plain : ∀ token ∈ tokens, (parsedToken token).kind ≠ Kind.frag)
    (settled : ∀ option ∈ (substantive tokens).map parsedToken, Settled crc32c userData option)
    (once : ((substantive tokens).map parsedToken).Pairwise fun first second =>
      handsOver inFragment first.kind = true → first.kind ≠ second.kind)
    (unseen : ∀ option ∈ (substantive tokens).map parsedToken, handsOver inFragment option.kind = true →
      state.seen option.kind = false) :
    optionLoop crc32c inFragment userData state (refs.map .ok ++ ending) =
      .ok ⟨state.options ++ receivedOptions inFragment ((substantive tokens).map parsedToken),
        state.reports ++ receivedReports inFragment ((substantive tokens).map parsedToken),
        state.frag, false, false⟩ := by
  induction tokens generalizing refs state with
  | nil =>
    cases List.map_eq_nil_iff.mp same
    rw [show receivedOptions inFragment ((substantive []).map parsedToken) = [] from rfl,
      show receivedReports inFragment ((substantive []).map parsedToken) = [] from rfl, List.append_nil,
      List.append_nil]
    rcases ended with rfl | rfl
    · rfl
    · cases inFragment <;> rfl
  | cons token tokens ih =>
    obtain ⟨properFirst, properRest⟩ := List.forall_mem_cons.mp proper
    obtain ⟨plainFirst, plainRest⟩ := List.forall_mem_cons.mp plain
    obtain ⟨ref, refs, rfl, shown, later⟩ := List.map_eq_cons_iff.mp same
    rw [List.map_cons, List.cons_append, optionLoop]
    by_cases filler : token = .nop
    · cases filler
      rw [optionStep_filler (congrArg RawOption.kind shown)]
      exact ih later properRest plainRest settled once unseen
    rw [substantive_visible filler, List.map_cons] at settled once unseen ⊢
    obtain ⟨settledFirst, settledRest⟩ := List.forall_mem_cons.mp settled
    obtain ⟨unseenFirst, unseenRest⟩ := List.forall_mem_cons.mp unseen
    obtain ⟨onceFirst, onceRest⟩ := List.pairwise_cons.mp once
    rw [read_parsed filler shown, receivedOptions_cons, receivedReports_cons plainFirst]
    by_cases handed : handsOver inFragment (parsedToken token).kind = true
    · rw [settledFirst.handed properFirst handed (unseenFirst handed)]
      dsimp only
      rw [ih later properRest plainRest settledRest onceRest, if_pos handed, if_pos handed, List.append_assoc,
        List.append_assoc]
      · rfl
      · intro option member again
        exact (Function.update_of_ne (onceFirst option member handed).symm ..).trans (unseenRest option member again)
    · rw [settledFirst.ignored properFirst filler (Bool.eq_false_iff.mpr handed) plainFirst]
      dsimp only
      rw [ih later properRest plainRest settledRest onceRest, if_neg handed, if_neg handed, List.nil_append]
      · simp [OptionState.pushReport]
      · exact unseenRest

end

private theorem pairwise_of_count {kinds : List UInt8} {options : List ParsedOption}
    (few : ∀ kind ∈ kinds, (options.map ParsedOption.kind).count kind ≤ 1) :
    options.Pairwise fun first second => first.kind ∈ kinds → first.kind ≠ second.kind := by
  induction options with
  | nil => exact .nil
  | cons first rest ih =>
    refine .cons ?_ (ih fun kind listed => ?_)
    · intro second member listed same
      have count := few first.kind listed
      rw [List.map_cons, List.count_cons_self] at count
      have none : (rest.map ParsedOption.kind).count first.kind = 0 := by omega
      exact List.count_eq_zero.mp none (same ▸ List.mem_map_of_mem member)
    · exact Nat.le_trans (List.count_le_count_cons ..) (few kind listed)

section
variable {crc32c : List UInt8 → UInt32} {packet : Packet} {padLen : Nat} {region : List UInt8}
  {options : List ParsedOption} {frag : Option FragRecord}

private theorem checkOptions_ok (checked : checkOptions packet crc32c options = .ok ()) :
    (∀ inFragment, options.Pairwise fun first second =>
      handsOver inFragment first.kind = true → first.kind ≠ second.kind) ∧
    ∀ option ∈ options, option.kind = Kind.apc → intFromBytes option.value = (crc32c packet.userData).toNat := by
  unfold checkOptions at checked
  dsimp only at checked
  split at checked
  · cases checked
  split at checked
  · cases checked
  next unrepeated =>
  split at checked
  · cases checked
  next verified =>
  constructor
  · intro inFragment
    have few : ∀ kind ∈ fixedTotalLengths.map Prod.fst, (options.map ParsedOption.kind).count kind ≤ 1 := by
      simpa using List.find?_eq_none.mp unrepeated
    apply (pairwise_of_count few).imp
    intro first second apart handed
    apply apart
    obtain ⟨known, _⟩ := handsOver_cases handed
    rcases known with kind | kind | kind | kind | kind <;> rw [kind] <;> decide
  · intro option member kind
    by_contra wrong
    exact verified (List.any_eq_true.mpr ⟨option, member, decide_eq_true ⟨kind, wrong⟩⟩)

private theorem validateRegion_scanned
    (valid : validateRegion crc32c packet padLen region = .ok (.ok (options, frag))) :
    ∃ scan tokens, Scanned packet padLen region scan tokens ∧ ScanEnds region scan ∧ scan.options = options ∧
      checkOptions packet crc32c options = .ok () ∧
      ((scan.frag = none ∧ frag = none) ∨ ∃ fields record, scan.frag = some fields ∧ frag = some record ∧
        closeFrag packet region options fields = .ok record) := by
  unfold validateRegion at valid
  split at valid
  next empty =>
    cases List.isEmpty_iff.mp empty
    cases valid
    exact ⟨.start [], [], scanned_start, ⟨.inl ⟨rfl, rfl⟩⟩, rfl, rfl, .inl ⟨rfl, rfl⟩⟩
  obtain ⟨outcome, scans, valid⟩ := Checked.bind_eq_ok.mp valid
  split at valid
  · cases valid
  next scan =>
  obtain ⟨tokens, scanned, ends⟩ := scanned_start.run rfl scans
  split at valid
  · cases valid
  split at valid
  · cases valid
  next checked =>
  split at valid
  next absent =>
    cases valid
    exact ⟨scan, tokens, scanned, ends, rfl, checked, .inl ⟨absent, rfl⟩⟩
  next fields found =>
    split at valid
    · cases valid
    next record closed =>
      cases valid
      exact ⟨scan, tokens, scanned, ends, rfl, checked, .inr ⟨fields, record, found, rfl, closed⟩⟩

private theorem ReadsFrag.decoded {option : ParsedOption} {fields : FragFields}
    (reads : ReadsFrag packet padLen option fields) (sized : option.value.length ∈ Serialize.fixedValueLens Kind.frag)
    (total : option.totalLen = option.value.length + 2) :
    ∃ found : Frag, Frag.decode option.value = .ok found ∧
      found.fragStart.toNat = packet.udpLen + padLen + 2 + fields.dataStart ∧
      found.identification.toNat = fields.identification ∧ found.fragOffset.toNat = fields.offset ∧
      found.rdos.map UInt16.toNat = fields.rdos := by
  obtain ⟨found, decoded⟩ := frag_provides.total option.value sized
  refine ⟨found, decoded, ?_⟩
  rw [← reads.start, reads.identification, reads.offset, reads.rdos, total]
  change Frag.decode option.value = .ok found at decoded
  generalize option.value = value at decoded
  unfold Frag.decode at decoded
  split at decoded
  · cases decoded
    refine ⟨(intFromBytes_pair ..).symm, ?_, (intFromBytes_pair ..).symm, rfl⟩
    rw [← intFromBytes_u32Be, u32Be_ofBe]
    rfl
  · cases decoded
    refine ⟨(intFromBytes_pair ..).symm, ?_, (intFromBytes_pair ..).symm, congrArg some (intFromBytes_pair ..).symm⟩
    rw [← intFromBytes_u32Be, u32Be_ofBe]
    rfl
  · cases decoded

private theorem HasFrag.leads {tokens : List Token} {fields : FragFields} (has : HasFrag packet padLen tokens fields)
    (first : (((substantive tokens).map parsedToken).map ParsedOption.kind).head? = some 3) :
    ∃ nops token after, tokens = nops ++ token :: after ∧ (∀ filler ∈ nops, filler = .nop) ∧
      (parsedToken token).kind = 3 ∧ (∀ other ∈ after, (parsedToken other).kind ≠ 3) ∧
      ReadsFrag packet padLen (parsedToken token) fields := by
  obtain ⟨before, token, after, rfl, kind, alone, reads⟩ := has.found
  refine ⟨before, token, after, rfl, ?_, kind, fun other member => alone other (List.mem_append_right _ member), reads⟩
  intro filler member
  by_contra visible
  cases shown : substantive before with
  | nil => exact List.filter_eq_nil_iff.mp shown filler member (decide_eq_true visible)
  | cons other rest =>
    rw [substantive_append, shown] at first
    have among : other ∈ before := List.mem_of_mem_filter (shown ▸ List.mem_cons_self)
    exact alone other (List.mem_append_left _ among) (Option.some.inj first)

end

section
variable {crc32c : List UInt8 → UInt32} {userData : List UInt8} {inFragment : Bool} {state : OptionState}

private theorem optionLoop_fillers {refs : List OptionRef} (fillers : ∀ ref ∈ refs, ref.kind = .nop)
    (items : List OptionsIter.Item) :
    optionLoop crc32c inFragment userData state (refs.map .ok ++ items) =
      optionLoop crc32c inFragment userData state items := by
  induction refs with
  | nil => rfl
  | cons ref refs ih =>
    obtain ⟨first, later⟩ := List.forall_mem_cons.mp fillers
    rw [List.map_cons, List.cons_append, optionLoop, optionStep_filler first]
    exact ih later

private theorem refs_fragment {refs : List OptionRef} {nops after : List Token} {token : Token}
    (same : refs.map OptionRef.toRaw = (nops ++ token :: after).map Token.option)
    (fillers : ∀ filler ∈ nops, filler = .nop) :
    ∃ front ref back, refs = front ++ ref :: back ∧ (∀ filler ∈ front, filler.kind = .nop) ∧
      ref.toRaw = token.option ∧ back.map OptionRef.toRaw = after.map Token.option := by
  rw [List.map_append, List.map_cons] at same
  obtain ⟨front, rest, rfl, before, behind⟩ := List.map_eq_append_iff.mp same
  obtain ⟨ref, back, rfl, shown, later⟩ := List.map_eq_cons_iff.mp behind
  refine ⟨front, ref, back, rfl, ?_, shown, later⟩
  intro filler member
  have listed : filler.toRaw ∈ nops.map Token.option := before ▸ List.mem_map_of_mem member
  obtain ⟨known, among, equal⟩ := List.mem_map.mp listed
  rw [fillers known among] at equal
  exact (congrArg RawOption.kind equal).symm

private theorem optionLoop_fragment {front back : List OptionRef} {ref : OptionRef} {token : Token} {after : List Token}
    {ending : List OptionsIter.Item} {found : Frag} (fillers : ∀ filler ∈ front, filler.kind = .nop)
    (shown : ref.toRaw = token.option) (same : back.map OptionRef.toRaw = after.map Token.option) (ended : Ended ending)
    (proper : ∀ other ∈ token :: after, other.Proper) (kind : (parsedToken token).kind = Kind.frag)
    (plain : ∀ other ∈ after, (parsedToken other).kind ≠ Kind.frag)
    (settled : ∀ option ∈ (substantive (token :: after)).map parsedToken, Settled crc32c userData option)
    (once : ((substantive (token :: after)).map parsedToken).Pairwise fun first second =>
      handsOver true first.kind = true → first.kind ≠ second.kind)
    (decoded : Frag.decode (parsedToken token).value = .ok found) :
    optionLoop crc32c true userData .initial ((front ++ ref :: back).map .ok ++ ending) =
      .ok ⟨receivedOptions true ((substantive (token :: after)).map parsedToken),
        receivedReports true ((substantive (token :: after)).map parsedToken), some found, false, false⟩ := by
  have visible : token ≠ .nop := by
    rintro rfl
    cases kind
  obtain ⟨properFirst, properRest⟩ := List.forall_mem_cons.mp proper
  rw [substantive_visible visible, List.map_cons] at settled once ⊢
  obtain ⟨settledFirst, settledRest⟩ := List.forall_mem_cons.mp settled
  have read := read_parsed visible shown
  have named : ref.kind = .frag := by
    rw [read, kind]
    rfl
  have tested : lengthTest true ref = .ok () := by
    unfold lengthTest
    split
    · rfl
    · rw [read]
      exact settledFirst.length_tested properFirst visible _
  have value : ref.value = (parsedToken token).value := congrArg OptionRef.value read
  have step := @optionStep_frag crc32c true userData .initial ref found tested named rfl (value ▸ decoded)
  rw [List.map_append, List.append_assoc, optionLoop_fillers fillers, List.map_cons, List.cons_append, optionLoop, step]
  dsimp only
  rw [optionLoop_tokens same ended properRest plain settledRest (List.pairwise_cons.mp once).2]
  · have unhanded : handsOver true (parsedToken token).kind = false := by rw [kind]; rfl
    have unreported : receivedReports true (parsedToken token :: (substantive after).map parsedToken) =
        receivedReports true ((substantive after).map parsedToken) := by
      unfold receivedReports
      rw [List.filter_cons_of_neg (by simp [kind])]
    rw [receivedOptions_cons, unhanded, unreported]
    rfl
  · intro option member handed
    apply Function.update_of_ne
    intro frag
    rw [frag] at handed
    cases handed

private theorem limitOf_fragment {front back : List OptionRef} {ref : OptionRef} {ending behind : List OptionsIter.Item}
    {area : List UInt8} {found : Frag} {optionsOffset stop : Nat} (fillers : ∀ filler ∈ front, filler.kind = .nop)
    (kind : ref.kind = .frag) (decoded : Frag.decode ref.value = .ok found)
    (starts : found.fragStart.toNat = optionsOffset + stop) (inside : stop ≤ area.length)
    (cut : Framed 0 (area.take stop) ((front ++ ref :: back).map .ok ++ ending))
    (whole : Framed 0 area ((front ++ ref :: back).map .ok ++ behind)) :
    limitOf area.length optionsOffset (itemsOf area) = .upTo stop := by
  have scan : ∀ items, scanFrag ((front ++ ref :: back).map .ok ++ items) = some ref := by
    intro items
    rw [List.map_append, List.append_assoc, scanFrag_append]
    · exact if_pos kind
    · intro filler member
      rw [fillers filler member]
      rfl
  have room := cut.scanFrag_inside (scan ending)
  rw [List.length_take, Nat.min_eq_left inside, Nat.zero_add] at room
  rw [whole.itemsOf_eq, limitOf, scan behind]
  dsimp only
  rw [limitAt, decoded]
  dsimp only
  rw [starts, checkedSub_of_le (Nat.le_add_right ..), Nat.add_sub_cancel_left]
  exact if_neg (by omega)

end

section
variable {crc32c : List UInt8 → UInt32} {packet : Packet} {opened : Opened} {status : OcsStatus} {scan : Scan}
  {tokens : List Token}

private theorem Scanned.delivered (scanned : Scanned packet (surplusPad opened) (optionsArea opened) scan tokens)
    (ends : ScanEnds (optionsArea opened) scan) (opens : Opens packet opened) (well : WellOpened opened)
    (trusted : Trusted opened status) (absent : scan.frag = none)
    (settled : ∀ option ∈ scan.options, Settled crc32c packet.userData option)
    (once : scan.options.Pairwise fun first second => handsOver false first.kind = true → first.kind ≠ second.kind) :
    dispositionOf crc32c opened = .deliver ⟨packet.userData, receivedOptions false scan.options, true,
      receivedReports false scan.options, [⟨status, .datagram⟩]⟩ := by
  obtain ⟨refs, ending, behind, ended, same, cut, _⟩ := scanned.framed ends
  obtain ⟨limit, plain⟩ := scanned.whole absent
  rw [limit, List.take_length] at cut
  have passing : ∀ ref ∈ refs, passes ref.kind = true := by
    intro ref member
    have listed : ref.toRaw ∈ tokens.map Token.option := same ▸ List.mem_map_of_mem member
    obtain ⟨token, among, shown⟩ := List.mem_map.mp listed
    change passes ref.toRaw.kind = true
    rw [← shown]
    by_cases filler : token = .nop
    · rw [filler]
      rfl
    have option : parsedToken token ∈ scan.options := by
      rw [scanned.options]
      exact List.mem_map_of_mem (List.mem_filter.mpr ⟨among, decide_eq_true filler⟩)
    apply passes_of_safe
    · rw [OptionKind.isSafe, token_byte]
      exact decide_eq_true (settled _ option).supported.safe
    · exact (scanned.proper token among).not_eol
    · intro frag
      exact plain token among ((token_byte token).symm.trans (congrArg OptionKind.toByte frag))
  have noFrag : scanFrag (itemsOf (optionsArea opened)) = none := by
    rw [cut.itemsOf_eq, scanFrag_append passing]
    rcases ended with rfl | rfl <;> rfl
  rw [dispositionOf_trusted crc32c well trusted, parsedArea, parseArea_full noFrag, cut.itemsOf_eq]
  rw [scanned.options] at settled once ⊢
  rw [opens.userData] at settled ⊢
  rw [optionLoop_tokens same ended scanned.proper plain settled once fun _ _ _ => rfl]
  rfl

private theorem Scanned.fragmented {fields : FragFields} {record : FragRecord}
    (scanned : Scanned packet (surplusPad opened) (optionsArea opened) scan tokens)
    (ends : ScanEnds (optionsArea opened) scan) (opens : Opens packet opened) (well : WellOpened opened)
    (trusted : Trusted opened status) (fragment : scan.frag = some fields)
    (closed : closeFrag packet (optionsArea opened) scan.options fields = .ok record)
    (settled : ∀ option ∈ scan.options, Settled crc32c packet.userData option)
    (once : scan.options.Pairwise fun first second => handsOver true first.kind = true → first.kind ≠ second.kind) :
    packet.userData = [] ∧ ∃ found : Frag,
      dispositionOf crc32c opened = .fragment found (some (fragKey opened.ip opened.udp found))
        (receivedOptions true scan.options) (receivedReports true scan.options) status ∧
      found.identification.toNat = record.identification ∧ found.fragOffset.toNat = record.offset ∧
      found.rdos.map UInt16.toNat = record.rdos ∧ fragmentData opened found = record.data := by
  unfold closeFrag at closed
  split at closed
  · cases closed
  next bare =>
  split at closed
  · cases closed
  next leading =>
  cases closed
  push Not at bare leading
  obtain ⟨announced, empty⟩ := bare
  obtain ⟨refs, ending, behind, ended, same, cut, whole⟩ := scanned.framed ends
  obtain ⟨limit, has⟩ := scanned.frag fields fragment
  rw [scanned.options] at leading settled once ⊢
  obtain ⟨nops, token, after, rfl, fillers, kind, plain, reads⟩ := has.leads leading
  obtain ⟨front, ref, back, rfl, fillerRefs, shown, later⟩ := refs_fragment same fillers
  have visible : token ≠ .nop := by
    rintro rfl
    cases kind
  have hidden : substantive (nops ++ token :: after) = substantive (token :: after) := by
    rw [substantive_append, substantive, List.filter_eq_nil_iff.mpr]
    · rfl
    · intro filler member
      rw [fillers filler member]
      decide
  rw [hidden] at settled once ⊢
  have proper : ∀ other ∈ token :: after, other.Proper := fun other member =>
    scanned.proper other (List.mem_append_right _ member)
  have read := read_parsed visible shown
  have first := settled (parsedToken token) (by rw [substantive_visible visible]; exact List.mem_cons_self)
  obtain ⟨sized, total⟩ := Token.Proper.sized (proper token List.mem_cons_self) first.fixed (by rw [kind]; decide)
  rw [kind] at sized
  obtain ⟨found, decoded, starts, identification, offset, rdos⟩ := reads.decoded sized total
  have placed : found.fragStart.toNat = ocsStart opened + 2 - opened.udpAt + fields.dataStart := by
    rw [starts, opens.udpLen, ocsStart, surplusStart]
    omega
  have bounded := scanned.inside
  rw [limit] at bounded cut
  have stops : limitOf (optionsArea opened).length (ocsStart opened + 2 - opened.udpAt) (itemsOf (optionsArea opened)) =
      .upTo fields.dataStart := by
    refine limitOf_fragment fillerRefs ?_ ?_ placed bounded cut whole
    · rw [read, kind]
      rfl
    · rw [read]
      exact decoded
  have parsing : parsedArea crc32c opened =
      .ok ⟨receivedOptions true ((substantive (token :: after)).map parsedToken),
        receivedReports true ((substantive (token :: after)).map parsedToken), some found, false, false⟩ := by
    rw [parsedArea, parseArea, ← opens.userData, empty, if_pos List.isEmpty_nil, stops]
    dsimp only
    rw [cut.itemsOf_eq]
    rw [empty] at settled
    exact optionLoop_fragment fillerRefs shown later ended proper kind plain settled once decoded
  refine ⟨empty, found, ?_, identification, offset, rdos, ?_⟩
  · rw [dispositionOf_trusted crc32c well trusted, parsing]
    dsimp only
    rw [disposeParsed, ← opens.userData, empty]
    rfl
  · have position : opened.udpAt + found.fragStart.toNat = ocsStart opened + (2 + fields.dataStart) := by
      have above := udpAt_le_ocsStart opened
      omega
    rw [fragmentData, position, ← List.drop_drop, ← List.drop_drop]
    rfl

end

section
variable {crc32c : List UInt8 → UInt32} {raw : List UInt8} {packet : Packet} {options : List ParsedOption}
  {frag : Option FragRecord}

/-- The receiver reads a packet that the checker accepts as the checker does. -/
theorem accepted_packets_read_alike (constructed : Packet.new raw = .ok (.ok packet))
    (valid : validateSurplus crc32c packet = .ok (.ok (options, frag)))
    (supported : ∀ option ∈ options, Supported option) :
    ∃ opened status, (status = .valid ∨ status = .unused) ∧
      (frag = none → examine crc32c raw = .ok (.ok (opened, .deliver ⟨packet.userData, receivedOptions false options,
        true, receivedReports false options, [⟨status, .datagram⟩]⟩))) ∧
      ∀ record, frag = some record → packet.userData = [] ∧ ∃ found : Frag,
        examine crc32c raw = .ok (.ok (opened, .fragment found (some (fragKey opened.ip opened.udp found))
          (receivedOptions true options) (receivedReports true options) status)) ∧
        found.identification.toNat = record.identification ∧ found.fragOffset.toNat = record.offset ∧
        found.rdos.map UInt16.toNat = record.rdos ∧ fragmentData opened found = record.data := by
  obtain ⟨opened, opening, opens⟩ := packet_opens constructed
  obtain ⟨well, _⟩ := openDatagram_well opening
  obtain ⟨⟨status, trusted⟩, region⟩ := validateSurplus_trusted opens well valid
  obtain ⟨scan, tokens, scanned, ends, rfl, checked, close⟩ := validateRegion_scanned region
  obtain ⟨once, verified⟩ := checkOptions_ok checked
  have settled : ∀ option ∈ scan.options, Settled crc32c packet.userData option := fun option member =>
    ⟨supported option member, scanned.fixed option member, verified option member⟩
  have accepted : status = .valid ∨ status = .unused := trusted.ocs.imp And.left And.left
  rw [examine_opened crc32c opening well]
  refine ⟨opened, status, accepted, ?_, ?_⟩
  · intro absent
    rcases close with ⟨none, _⟩ | ⟨fields, record, _, found, _⟩
    · rw [scanned.delivered ends opens well trusted none settled (once false)]
    · cases absent.symm.trans found
  · rintro record found
    rcases close with ⟨_, none⟩ | ⟨fields, other, fragment, same, closed⟩
    · cases none.symm.trans found
    · cases same.symm.trans found
      obtain ⟨empty, frag, disposed, fields⟩ :=
        scanned.fragmented ends opens well trusted fragment closed settled (once true)
      rw [disposed]
      exact ⟨empty, frag, rfl, fields⟩

private def fragmentWithMds : List UInt8 :=
  [0x45, 0, 0, 0x35, 0, 0, 0, 0, 0x40, 0x11, 0x66, 0xb6, 10, 0, 0, 1, 10, 0, 0, 2, 3, 0xe8, 7, 0xd0, 0, 8, 0xe0, 0x23,
    0x25, 0x2d, 1, 3, 10, 0, 31, 0, 0, 0, 7, 0, 8, 2, 6, 0, 0, 0, 0, 4, 4, 5, 0xdc, 0xaa, 0xbb]

private def readWithMds : List ParsedOption :=
  [⟨3, 10, [0, 31, 0, 0, 0, 7, 0, 8]⟩, ⟨2, 6, [0, 0, 0, 0]⟩, ⟨4, 4, [5, 0xdc]⟩]

/-- A fragment with an APC and an MDS of its own, behind a NOP. -/
theorem fragment_with_mds_read_alike :
    ∃ packet, Packet.new fragmentWithMds = .ok (.ok packet) ∧
      validateSurplus (fun _ => 0) packet = .ok (.ok (readWithMds, some ⟨⟨7, 8, none, 21⟩, [0xaa, 0xbb]⟩)) ∧
      ∃ opened found key status, examine (fun _ => 0) fragmentWithMds =
          .ok (.ok (opened,
            .fragment found key [⟨.mds, [5, 0xdc]⟩] [report .apc .ignored, report .mds .success] status)) ∧
        found.identification.toNat = 7 ∧ found.fragOffset.toNat = 8 ∧ fragmentData opened found = [0xaa, 0xbb] := by
  have read : (Packet.new fragmentWithMds).toOption.any (fun outcome => outcome.toOption.any fun packet =>
      validateSurplus (fun _ => 0) packet = .ok (.ok (readWithMds, some ⟨⟨7, 8, none, 21⟩, [0xaa, 0xbb]⟩))) := by
    decide +kernel
  obtain ⟨packet, constructed, valid⟩ : ∃ packet, Packet.new fragmentWithMds = .ok (.ok packet) ∧
      validateSurplus (fun _ => 0) packet = .ok (.ok (readWithMds, some ⟨⟨7, 8, none, 21⟩, [0xaa, 0xbb]⟩)) := by
    rcases built : Packet.new fragmentWithMds with fault | error | packet
    · rw [built] at read
      cases read
    · rw [built] at read
      cases read
    · rw [built] at read
      exact ⟨packet, rfl, of_decide_eq_true read⟩
  have supported : ∀ option ∈ readWithMds, Supported option := by
    intro option member
    simp only [readWithMds, List.mem_cons, List.not_mem_nil, or_false] at member
    rcases member with rfl | rfl | rfl <;> exact ⟨by decide, by decide, by decide⟩
  obtain ⟨opened, status, _, _, fragment⟩ := accepted_packets_read_alike constructed valid supported
  obtain ⟨_, found, examined, identification, offset, _, data⟩ := fragment _ rfl
  exact ⟨packet, constructed, valid, opened, found, _, status, examined, identification, offset, data⟩

end

end UdpOptions.Proofs
