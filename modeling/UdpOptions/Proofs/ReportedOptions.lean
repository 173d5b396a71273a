import UdpOptions.Proofs.LegacyData
import UdpOptions.Proofs.PipelineRuns
import UdpOptions.Proofs.ReceiveSafety

/-! Success reports and exposed options. The option loop records both together,
and the merge of a fragment set keeps them together. The exit for an option that
must not be ignored drops the options and keeps the reports, so that a Success
recorded in front of it stands alone. -/

namespace UdpOptions.Proofs
open Library Model

/-- The kinds reported as processed, in the order of the reports. -/
def successKinds (reports : List OptionReport) : List OptionKind :=
  (reports.filter fun report => report.status = .success).map OptionReport.kind

def Matched (options : List RawOption) (reports : List OptionReport) : Prop :=
  options.map RawOption.kind = successKinds reports

private theorem successKinds_append (first second : List OptionReport) :
    successKinds (first ++ second) = successKinds first ++ successKinds second := by
  simp [successKinds]

private theorem successKinds_push {status : OptionStatus} (other : status ≠ .success) (reports : List OptionReport)
    (kind : OptionKind) (source : OptionSource) :
    successKinds (reports ++ [⟨kind, status, source⟩]) = successKinds reports := by
  simp [successKinds, other]

private theorem successKinds_success (reports : List OptionReport) (kind : OptionKind) (source : OptionSource) :
    successKinds (reports ++ [⟨kind, .success, source⟩]) = successKinds reports ++ [kind] := by
  simp [successKinds]

theorem mem_successKinds {reports : List OptionReport} {kind : OptionKind} :
    kind ∈ successKinds reports ↔ ∃ report ∈ reports, report.kind = kind ∧ report.status = .success := by
  simp only [successKinds, List.mem_map, List.mem_filter, decide_eq_true_eq]
  constructor
  · rintro ⟨report, ⟨member, succeeded⟩, same⟩
    exact ⟨report, member, same, succeeded⟩
  · rintro ⟨report, member, same, succeeded⟩
    exact ⟨report, ⟨member, succeeded⟩, same⟩

section
variable {crc32c : List UInt8 → UInt32}

private theorem pushReport_matched {state : OptionState} (kind : OptionKind) {status : OptionStatus}
    (other : status ≠ .success) (matched : Matched state.options state.reports) :
    Matched (state.pushReport kind status).options (state.pushReport kind status).reports :=
  matched.trans (successKinds_push other state.reports kind .datagram).symm

private theorem recordOnce_matched {state : OptionState} (option : OptionRef) (status : OptionStatus)
    (matched : Matched state.options state.reports) :
    Matched (state.recordOnce option status).options (state.recordOnce option status).reports := by
  unfold OptionState.recordOnce
  split
  · exact pushReport_matched option.kind nofun matched
  · dsimp only
    split
    next succeeded =>
      subst succeeded
      have both := successKinds_success state.reports option.kind .datagram
      rw [← matched] at both
      exact List.map_append.trans both.symm
    next other => exact @pushReport_matched (state.markSeen _) option.kind status other matched

def StepMatched : LoopStep → Prop
  | .next state => Matched state.options state.reports
  | .broken state => Matched state.options state.reports
  | .left (.ok parsed) => Matched parsed.options parsed.reports
  | .left (.error _) => True

private theorem optionStep_matched {fragmentContext : Bool} {userData : List UInt8} {state : OptionState}
    (option : OptionRef) (matched : Matched state.options state.reports) :
    StepMatched (optionStep crc32c fragmentContext userData state option) := by
  have outcome := optionStep_case crc32c fragmentContext userData state option
  generalize optionStep crc32c fragmentContext userData state option = step at outcome
  cases outcome with
  | short | fragAgain =>
    unfold leaveWith
    split
    · exact rfl
    · trivial
  | filler | fragFirst | fragWrong => exact matched
  | apcIgnored | unknown | unsupported => exact pushReport_matched option.kind nofun matched
  | @known status => exact recordOnce_matched option status matched

private theorem optionLoop_matched {fragmentContext : Bool} {userData : List UInt8} {state : OptionState}
    {items : List OptionsIter.Item} {parsed : ParsedOptions} (matched : Matched state.options state.reports)
    (parsing : optionLoop crc32c fragmentContext userData state items = .ok parsed) :
    Matched parsed.options parsed.reports := by
  induction items generalizing state with
  | nil =>
    cases parsing
    exact matched
  | cons item rest ih =>
    cases item with
    | error error =>
      simp only [optionLoop] at parsing
      split at parsing
      · cases parsing
        rfl
      · cases parsing
    | ok option =>
      have step := @optionStep_matched crc32c fragmentContext userData state option matched
      simp only [optionLoop] at parsing
      split at parsing
      next after stepped =>
        rw [stepped] at step
        exact ih step parsing
      next after stepped =>
        rw [stepped] at step
        cases parsing
        exact step
      next result stepped =>
        rw [stepped, parsing] at step
        exact step

theorem parsedArea_matched {opened : Opened} {parsed : ParsedOptions}
    (parsing : parsedArea crc32c opened = .ok parsed) :
    Matched parsed.options parsed.reports := by
  have start : Matched OptionState.initial.options OptionState.initial.reports := rfl
  unfold parsedArea parseArea at parsing
  split at parsing
  · exact optionLoop_matched start parsing
  · exact optionLoop_matched start parsing
  · cases parsing
    rfl

theorem recordOnce_seen (state : OptionState) (option : OptionRef) (status : OptionStatus) :
    (state.recordOnce option status).seen = Function.update state.seen option.kind.toByte true := by
  unfold OptionState.recordOnce
  split
  next seen => exact (Function.update_eq_self_iff.mpr seen.symm).symm
  · dsimp only
    split <;> rfl

private theorem recordOnce_successKinds (state : OptionState) (option : OptionRef) (status : OptionStatus) :
    successKinds (state.recordOnce option status).reports = successKinds state.reports ++
      if state.seen option.kind.toByte = false ∧ status = .success then [option.kind] else [] := by
  unfold OptionState.recordOnce
  split
  next seen =>
    rw [if_neg (by simp [seen]), List.append_nil]
    exact @successKinds_push .ignored nofun state.reports option.kind .datagram
  next unseen =>
    dsimp only
    split
    next succeeded =>
      rw [if_pos ⟨Bool.eq_false_iff.mpr unseen, succeeded⟩, succeeded]
      exact successKinds_success state.reports option.kind .datagram
    next other =>
      rw [if_neg (fun both => other both.2), List.append_nil]
      exact successKinds_push other state.reports option.kind .datagram

variable (crc32c)

def FirstSucceeds (userData : List UInt8) (front : List OptionRef) (kind : OptionKind) : Prop :=
  ∃ option, front.find? (fun other => other.kind = kind) = some option ∧
    knownStatus crc32c userData option = some .success

/-- A Success of the kind is recorded, or the options ahead bring one. -/
def Gains (userData : List UInt8) (state : OptionState) (front : List OptionRef) (kind : OptionKind) : Prop :=
  kind ∈ successKinds state.reports ∨ (state.seen kind.toByte = false ∧ FirstSucceeds crc32c userData front kind)

variable {crc32c}

private theorem knownStatus_none {userData : List UInt8} {option other : OptionRef} (same : other.kind = option.kind)
    (unknown : knownStatus crc32c userData option = none) : knownStatus crc32c userData other = none := by
  unfold knownStatus at unknown ⊢
  rw [same]
  cases kind : option.kind <;> simp_all

theorem knownStatus_normal {userData : List UInt8} {option : OptionRef} {status : OptionStatus}
    (decided : knownStatus crc32c userData option = some status) :
    OptionKind.fromByte option.kind.toByte = option.kind := by
  unfold knownStatus at decided
  cases kind : option.kind <;> first | rfl | simp [kind] at decided

theorem FirstSucceeds.normal {userData : List UInt8} {front : List OptionRef} {kind : OptionKind}
    (succeeds : FirstSucceeds crc32c userData front kind) : OptionKind.fromByte kind.toByte = kind := by
  obtain ⟨option, found, decided⟩ := succeeds
  have same : option.kind = kind := by simpa using List.find?_some found
  exact same ▸ knownStatus_normal decided

private theorem firstSucceeds_cons_ne {userData : List UInt8} {option : OptionRef} {front : List OptionRef}
    {kind : OptionKind} (different : option.kind ≠ kind) :
    FirstSucceeds crc32c userData (option :: front) kind ↔ FirstSucceeds crc32c userData front kind := by
  rw [FirstSucceeds, List.find?_cons_of_neg (by simpa using different), ← FirstSucceeds]

private theorem firstSucceeds_cons {userData : List UInt8} {option : OptionRef} {front : List OptionRef} :
    FirstSucceeds crc32c userData (option :: front) option.kind ↔
      knownStatus crc32c userData option = some .success := by
  rw [FirstSucceeds, List.find?_cons_of_pos (by simp)]
  simp

private theorem gains_skip {userData : List UInt8} {state after : OptionState} {option : OptionRef}
    {front : List OptionRef}
    {kind : OptionKind} (unknown : knownStatus crc32c userData option = none) (seen : after.seen = state.seen)
    (reports : successKinds after.reports = successKinds state.reports) :
    Gains crc32c userData after front kind ↔ Gains crc32c userData state (option :: front) kind := by
  rw [Gains, Gains, seen, reports]
  refine or_congr_right (and_congr_right fun _ => ?_)
  by_cases same : option.kind = kind
  · subst same
    rw [firstSucceeds_cons, unknown]
    constructor
    · rintro ⟨other, found, succeeds⟩
      have same : other.kind = option.kind := by simpa using List.find?_some found
      cases (knownStatus_none same unknown).symm.trans succeeds
    · rintro ⟨⟩
  · exact (firstSucceeds_cons_ne same).symm

private theorem gains_record {userData : List UInt8} {state : OptionState} {option : OptionRef} {front : List OptionRef}
    {kind : OptionKind} {status : OptionStatus} (decided : knownStatus crc32c userData option = some status) :
    Gains crc32c userData (state.recordOnce option status) front kind ↔
      Gains crc32c userData state (option :: front) kind := by
  rw [Gains, Gains, recordOnce_seen, recordOnce_successKinds, List.mem_append]
  by_cases same : option.kind = kind
  · subst same
    rw [firstSucceeds_cons, decided, Function.update_self]
    by_cases first : state.seen option.kind.toByte = false ∧ status = .success
    · simp [first]
    · rw [if_neg first]
      simpa using fun unseen succeeded => absurd ⟨unseen, succeeded⟩ first
  · have absent : kind ∉ (if state.seen option.kind.toByte = false ∧ status = .success then [option.kind] else []) := by
      split
      · simpa using Ne.symm same
      · simp
    rw [firstSucceeds_cons_ne same, or_iff_left absent]
    refine or_congr_right (and_congr_left fun succeeds => ?_)
    have other : kind.toByte ≠ option.kind.toByte := by
      intro bytes
      rw [← succeeds.normal, bytes, knownStatus_normal decided] at same
      exact same rfl
    rw [Function.update_of_ne other]

private theorem gains_nil {userData : List UInt8} {state : OptionState} {kind : OptionKind} :
    Gains crc32c userData state [] kind ↔ kind ∈ successKinds state.reports := by
  refine or_iff_left ?_
  rintro ⟨_, _, found, _⟩
  cases found

/-- On an area that must not be ignored the loop stops without a FRAG, and its
successes are those of the options in front. -/
theorem optionLoop_withheld {userData : List UInt8} {state : OptionState} {items : List OptionsIter.Item}
    (withheld : areaEnd items = .unsupported) (absent : state.frag = none) (unseen : state.seen Kind.frag = false) :
    ∃ after, after.frag = none ∧ optionLoop crc32c false userData state items = .ok (OptionState.finished after true) ∧
      ∀ kind, kind ∈ successKinds after.reports ↔ Gains crc32c userData state (leading items) kind := by
  induction items generalizing state with
  | nil => cases withheld
  | cons item rest ih =>
    cases item with
    | error error => cases withheld
    | ok option =>
      have outcome := optionStep_case crc32c false userData state option
      rw [optionLoop]
      generalize optionStep crc32c false userData state option = step at outcome
      -- an option the loop passes over, with what it leaves behind
      have passed : ∀ after : OptionState, lengthTest false option = .ok () → passes option.kind = true →
          SameFrag state after →
          (∀ kind, Gains crc32c userData after (leading rest) kind ↔
            Gains crc32c userData state (option :: leading rest) kind) →
          ∃ final, final.frag = none ∧
            optionLoop crc32c false userData after rest = .ok (OptionState.finished final true) ∧
            ∀ kind, kind ∈ successKinds final.reports ↔
              Gains crc32c userData state (leading (.ok option :: rest)) kind := by
        intro after proper passing same gains
        rw [areaEnd_passing proper passing] at withheld
        obtain ⟨final, none, looped, recorded⟩ := ih withheld (same.frag.trans absent) (same.seen.trans unseen)
        refine ⟨final, none, looped, fun kind => ?_⟩
        rw [leading, if_pos passing, recorded kind]
        exact gains kind
      cases outcome with
      | short below =>
        rw [areaEnd, if_pos (belowMinimum_short below)] at withheld
        cases withheld
      | filler proper kind =>
        rcases kind with eol | nop
        · rw [areaEnd, belowMinimum_proper proper, if_neg Bool.false_ne_true, eol] at withheld
          cases withheld
        · refine passed state proper (by rw [nop]; rfl) ⟨rfl, rfl⟩ fun kind => ?_
          exact gains_skip (by rw [knownStatus, nop]) rfl rfl
      | fragAgain _ _ seen =>
        rw [unseen] at seen
        cases seen
      | fragFirst proper kind _ decoded =>
        rw [areaEnd, belowMinimum_proper proper, if_neg Bool.false_ne_true, kind] at withheld
        dsimp only at withheld
        rw [if_pos (fragDecode_length decoded)] at withheld
        cases withheld
      | fragWrong _ kind =>
        refine ⟨state.markSeen Kind.frag, absent, rfl, fun other => ?_⟩
        rw [leading, if_neg (by rw [kind]; exact Bool.noConfusion), gains_nil]
        rfl
      | apcIgnored context => cases context
      | @known status proper outside decided =>
        obtain ⟨other, _, _, passing⟩ := knownStatus_kind decided
        exact passed _ proper passing (sameFrag_recordOnce state status other) fun kind =>
          gains_record decided
      | unknown proper kind safe =>
        refine passed (state.pushReport option.kind .ignored) proper
          (by simp [kind, passes, OptionKind.isUnsafe, safe]) ⟨rfl, rfl⟩ fun other => ?_
        exact gains_skip (by rw [knownStatus, kind]) rfl (@successKinds_push .ignored OptionStatus.noConfusion ..)
      | unsupported proper kind dangerous =>
        refine ⟨state.pushReport option.kind .failed, absent, rfl, fun other => ?_⟩
        rw [leading, if_neg (by simp [kind, passes, OptionKind.isUnsafe, dangerous]), gains_nil]
        exact iff_of_eq (congrArg _ (@successKinds_push .failed OptionStatus.noConfusion state.reports option.kind .datagram))

private theorem areaEnd_scanFrag {items : List OptionsIter.Item} {option : OptionRef} {frag : Frag}
    (found : scanFrag items = some option) (decoded : Frag.decode option.value = .ok frag) :
    areaEnd items ≠ .unsupported := by
  induction items with
  | nil => cases found
  | cons item rest ih =>
    cases item with
    | error error => cases found
    | ok first =>
      rw [areaEnd]
      split
      · exact AreaEnd.noConfusion
      · rcases scanFrag_cons found with ⟨isFrag, rfl⟩ | ⟨notFrag, passing, later⟩
        · rw [isFrag]
          dsimp only
          rw [if_pos (fragDecode_length decoded)]
          exact AreaEnd.noConfusion
        · cases kind : first.kind <;> simp_all [passes]

private theorem optionLoop_reaches {fragmentContext : Bool} {userData : List UInt8} {state : OptionState}
    {items : List OptionsIter.Item} {option : OptionRef} {frag : Frag} {parsed : ParsedOptions}
    (found : scanFrag items = some option) (decoded : Frag.decode option.value = .ok frag)
    (absent : state.frag = none)
    (parsing : optionLoop crc32c fragmentContext userData state items = .ok parsed) : parsed.frag.isSome := by
  induction items generalizing state with
  | nil => cases found
  | cons item rest ih =>
    cases item with
    | error error => cases found
    | ok first =>
      have ahead := scanFrag_cons found
      simp only [optionLoop] at parsing
      split at parsing
      next after stepped =>
        obtain ⟨_, ⟨same, notFrag, _⟩ | ⟨_, _, _, _, rfl⟩⟩ := optionStep_next stepped
        · rcases ahead with ⟨isFrag, _⟩ | ⟨_, _, later⟩
          · exact absurd isFrag notFrag
          · exact ih later (same.frag.trans absent) parsing
        · have kept := optionLoop_keeps (by simp [OptionState.markSeen]) parsing
          rw [kept.frag]
          rfl
      next after stepped =>
        obtain ⟨_, blocked, undecodable⟩ := optionStep_broken stepped
        rcases ahead with ⟨isFrag, rfl⟩ | ⟨_, passing, _⟩
        · exact absurd isFrag (undecodable frag decoded)
        · cases blocked.symm.trans passing
      next result stepped =>
        obtain ⟨error, rfl⟩ := optionStep_left absent stepped
        cases parsing

private theorem parsedArea_unsupported {opened : Opened} {parsed : ParsedOptions}
    (parsing : parsedArea crc32c opened = .ok parsed) (unsupported : parsed.unsupportedUnsafeSeen = true)
    (absent : parsed.frag = none) : areaEnd (itemsOf (optionsArea opened)) = .unsupported := by
  unfold parsedArea parseArea at parsing
  split at parsing
  · have ended := @optionLoop_endedBy crc32c opened.userData .initial _ (endsOnce_itemsOf (optionsArea opened)) rfl rfl
    rw [parsing] at ended
    generalize areaEnd (itemsOf (optionsArea opened)) = ending at ended
    generalize result : Except.ok parsed = outcome at ended
    cases ended with
    | finished => cases result; cases unsupported
    | malformed => cases result
    | fragMalformed => cases result
    | frag held => cases result; rw [absent] at held; cases held
    | unsupported => rfl
  next stop limit =>
    split at limit
    · obtain ⟨option, frag, found, decoded, _, inside, behind⟩ := limitOf_upTo limit
      obtain ⟨valueAt, addressed, _⟩ := (framed_itemsOf (optionsArea opened)).scanFrag_at found
      obtain ⟨kept, framed, first, _⟩ := (framed_itemsOf (optionsArea opened)).take found addressed
        (show valueAt + option.value.length ≤ 0 + stop by
          simpa only [endOffset, addressed, Option.getD_some, Nat.zero_add] using behind)
      rw [framed.itemsOf_eq] at parsing
      have reached := optionLoop_reaches first decoded rfl parsing
      rw [absent] at reached
      cases reached
    · cases limit
  · cases parsing
    cases absent

private theorem parsedArea_withheld {opened : Opened}
    (withheld : areaEnd (itemsOf (optionsArea opened)) = .unsupported) :
    ∃ after, after.frag = none ∧ parsedArea crc32c opened = .ok (OptionState.finished after true) ∧
      (successKinds after.reports = [] ↔
        ¬ ∃ kind, FirstSucceeds crc32c opened.userData (leading (itemsOf (optionsArea opened))) kind) := by
  have full : (if opened.userData.isEmpty then limitOf (optionsArea opened).length (ocsStart opened + 2 - opened.udpAt)
      (itemsOf (optionsArea opened)) else .full) = .full := by
    split
    · rw [limitOf]
      split
      · rfl
      next option found =>
        rw [limitAt]
        split
        · rfl
        next frag decoded => exact absurd withheld (areaEnd_scanFrag found decoded)
    · rfl
  obtain ⟨after, absent, looped, recorded⟩ :=
    @optionLoop_withheld crc32c opened.userData .initial _ withheld rfl rfl
  refine ⟨after, absent, ?_, ?_⟩
  · rw [parsedArea, parseArea, full]
    exact looped
  · rw [List.eq_nil_iff_forall_not_mem, not_exists]
    refine forall_congr' fun kind => not_congr ((recorded kind).trans ?_)
    constructor
    · rintro (⟨⟨⟩⟩ | ⟨_, succeeds⟩)
      exact succeeds
    · exact fun succeeds => .inr ⟨rfl, succeeds⟩

variable (crc32c)

/-- A trusted area reports a success and then meets an option that must not be ignored. -/
def Misreported (opened : Opened) : Prop :=
  Withheld opened ∧ ∃ kind, FirstSucceeds crc32c opened.userData (leading (itemsOf (optionsArea opened))) kind

variable {crc32c}

private theorem dispositionOf_withheld {opened : Opened} (well : WellOpened opened) (withheld : Withheld opened) :
    ∃ payload, dispositionOf crc32c opened = .deliver payload ∧
      (Matched payload.options payload.reports ↔ ¬ Misreported crc32c opened) := by
  obtain ⟨⟨status, trusted⟩, ending⟩ := withheld
  obtain ⟨after, absent, parsing, recorded⟩ := @parsedArea_withheld crc32c opened ending
  refine ⟨⟨[], [], true, after.reports, [⟨status, .datagram⟩]⟩, ?_, ?_⟩
  · rw [dispositionOf_trusted crc32c well trusted, parsing]
    simp [disposeParsed, OptionState.finished, absent]
  · rw [Misreported, and_iff_right ⟨⟨status, trusted⟩, ending⟩, ← recorded]
    exact eq_comm

private theorem deliver_matched {opened : Opened} {payload : Payload} (well : WellOpened opened)
    (disposed : dispositionOf crc32c opened = .deliver payload) :
    Matched payload.options payload.reports ↔ ¬ Misreported crc32c opened := by
  by_cases withheld : Withheld opened
  · obtain ⟨other, same, matched⟩ := @dispositionOf_withheld crc32c opened well withheld
    cases disposed.symm.trans same
    exact matched
  · refine iff_of_true ?_ fun misreported => withheld misreported.1
    have outcome := (disposeOpened_eq crc32c well).2
    rw [disposed] at outcome
    generalize target : Disposition.deliver payload = disposition at outcome
    cases outcome with
    | plain => cases target; rfl
    | malformed => cases target; rfl
    | @parsed status parsed trusted parsing =>
      unfold disposeParsed at target
      split at target
      · cases target; rfl
      next apart =>
        dsimp only at target
        split at target
        · cases target
        next sound =>
          split at target
          next unsupported =>
            have absent : parsed.frag = none := by
              by_contra held
              have known := Option.isSome_iff_ne_none.mpr held
              simp_all
            exact absurd ⟨⟨status, trusted⟩, parsedArea_unsupported parsing unsupported absent⟩ withheld
          · split at target
            · cases target
            · cases target
              exact parsedArea_matched parsing

private theorem successKinds_foldl {options : List RawOption} (distinct : (options.map RawOption.kind).Nodup)
    (reports : List OptionReport) :
    successKinds (options.foldl (fun reports option =>
        if reports.any fun report => report.kind = option.kind then reports
        else reports ++ [⟨option.kind, .success, .fragmentSet⟩]) reports) =
      successKinds reports ++
        (options.filter fun option => option.kind ∉ reports.map OptionReport.kind).map RawOption.kind := by
  induction options generalizing reports with
  | nil => simp
  | cons option rest ih =>
    rw [List.map_cons, List.nodup_cons] at distinct
    have known : (reports.any fun report => report.kind = option.kind) = true ↔
        option.kind ∈ reports.map OptionReport.kind := by simp
    rw [List.foldl_cons, ih distinct.2]
    by_cases present : option.kind ∈ reports.map OptionReport.kind
    · rw [if_pos (known.mpr present), List.filter_cons_of_neg (by simpa using present)]
    · rw [if_neg (known.not.mpr present), List.filter_cons_of_pos (by simpa using present), successKinds_success,
        List.map_cons, List.append_assoc, List.singleton_append]
      congr 3
      refine List.filter_congr fun other member => ?_
      have different : other.kind ≠ option.kind := by
        intro same
        exact distinct.1 (same ▸ List.mem_map_of_mem member)
      simp [different]

theorem toRawOptions_kinds (merged : FragmentOptions) :
    (merged.toRawOptions.map RawOption.kind).Sublist [.mds, .mrds, .req, .res] := by
  simp only [FragmentOptions.toRawOptions, List.map_append]
  show List.Sublist _ ([OptionKind.mds] ++ [.mrds] ++ [.req] ++ [.res])
  refine ((List.Sublist.append ?_ ?_).append ?_).append ?_
  · cases merged.mds <;> simp
  · cases merged.mrdsSize <;> cases merged.mrdsSegments <;> simp
  · cases merged.req <;> simp
  · cases merged.res <;> simp

/-- The merge of a fragment set leaves it to the rebuilt datagram whether options
and reports match. -/
theorem mergeReassembled_matched (held : Partial) (udpLength : UInt16) (payload : Payload) :
    Matched (mergeReassembled (reassembledOf held udpLength) payload).options
        (mergeReassembled (reassembledOf held udpLength) payload).reports ↔
      Matched payload.options payload.reports := by
  have distinct := (toRawOptions_kinds held.fragmentOptions).nodup (by decide)
  have failed : successKinds (held.fragmentOptionFailures.map fun kind => ⟨kind, .failed, .fragmentSet⟩) = [] := by
    simp [successKinds]
  have named : (held.fragmentOptionFailures.map fun kind => (⟨kind, .failed, .fragmentSet⟩ : OptionReport)).map
      OptionReport.kind = held.fragmentOptionFailures := by
    simp [Function.comp_def]
  simp only [Matched, mergeReassembled, mergeFragmentOptions, mergeFragmentReports, reassembledOf,
    successKinds_append, successKinds_foldl distinct, failed, named, List.map_append, List.nil_append]
  exact List.append_right_inj _

private theorem walk_not_complete (low : Nat) (segments : List Segment) (reassembled : Reassembled) :
    Partial.walk low segments ≠ .error (.complete reassembled) := by
  intro walked
  induction segments generalizing low with
  | nil =>
    rw [Partial.walk] at walked
    cases walked
  | cons segment rest ih =>
    rw [Partial.walk] at walked
    split at walked
    · cases walked
    · split at walked
      · cases walked
      · exact ih _ walked

private theorem complete_reassembled {held : Partial} {reassembled : Reassembled}
    (outcome : held.complete = .complete reassembled) : ∃ udpLength, reassembled = reassembledOf held udpLength := by
  unfold Partial.complete at outcome
  split at outcome
  next terminalEnd udpLength _ _ =>
    split at outcome
    next failed =>
      rw [outcome] at failed
      exact absurd failed (walk_not_complete _ _ _)
    · split at outcome
      · cases outcome
      · cases outcome
        exact ⟨udpLength, rfl⟩
  · cases outcome

private theorem feedHeld_complete {limits : ReassemblyLimits} {held : Partial} {fragment : NormalizedFragment}
    {data : List UInt8} {processing : FragmentProcessing} {reassembled : Reassembled}
    (outcome : (feedHeld limits held fragment data processing).1 = .complete reassembled) :
    ∃ held udpLength, reassembled = reassembledOf held udpLength := by
  unfold feedHeld Partial.insert at outcome
  split at outcome
  · cases outcome
  next result _ _ inserted =>
    subst outcome
    split at inserted
    · cases inserted
    · split at inserted
      · cases inserted
      next updated _ =>
        obtain ⟨udpLength, same⟩ := complete_reassembled (congrArg Prod.fst inserted)
        exact ⟨updated, udpLength, same⟩

theorem fed_complete {insertion : Insertion} {cache : ReassemblyCache} {reassembled : Reassembled}
    (outcome : (insertion.fed cache).1 = .complete reassembled) :
    ∃ held udpLength, reassembled = reassembledOf held udpLength := by
  unfold Insertion.fed feedCell at outcome
  split at outcome
  · cases outcome
  · split at outcome
    · exact feedHeld_complete outcome
    · split at outcome
      · dsimp only [feedAlone] at outcome
        split at outcome
        · cases outcome
        · exact feedHeld_complete outcome
      · exact feedHeld_complete outcome

variable (crc32c)

/-- Delivered options and Success reports have the same kinds in the same order,
so that a policy that requires a kind is met by an option of that kind. -/
structure ReportsMatch (bytes : List UInt8) (cache : ReassemblyCache) (now : Nat) : Prop where
  kinds : ∀ payload final, processDatagram crc32c bytes cache now = .ok (.ok (.payload payload), final) →
    payload.options.map RawOption.kind = successKinds payload.reports
  required : ∀ policy received final kind,
    Api.decodeDatagram crc32c bytes cache now policy = .ok (.ok (.received received), final) →
    kind ∈ policy.requiredOptions → ∃ option ∈ received.options, option.kind = kind

/-- The datagram, or the one rebuilt from the set it completes, is misreported. -/
def DeliversMisreported (bytes : List UInt8) (cache : ReassemblyCache) (now : Nat) : Prop :=
  ∃ opened, openDatagram bytes = .ok (.ok opened) ∧
    (Misreported crc32c opened ∨
      ∃ frag key data reassembled after rebuilt inner,
        Inserts crc32c (bytes, now) cache opened frag key data (.complete reassembled) after ∧
        reassembledDatagram opened.ip opened.udp reassembled.udpLength reassembled.tail = .ok (some rebuilt) ∧
        openDatagram rebuilt = .ok (.ok inner) ∧ Misreported crc32c inner)

variable {crc32c}

theorem missingRequired_none {policy : Api.ReceivePolicy} {reports : List OptionReport} {kind : OptionKind}
    (present : Api.missingRequiredOption policy reports = none) (required : kind ∈ policy.requiredOptions) :
    kind ∈ successKinds reports := by
  have found := List.find?_eq_none.mp present kind required
  simp only [Bool.or_eq_true, not_or, Bool.not_eq_true', Bool.not_eq_false, List.any_eq_true,
    decide_eq_true_eq] at found
  exact mem_successKinds.mpr found.2

/-- What a completed set delivers matches when the rebuilt datagram is not misreported. -/
theorem handOn_matched {opened : Opened} {reassembled : Reassembled} {cache : ReassemblyCache} {payload : Payload}
    {held : Partial} {udpLength : UInt16} (merged : reassembled = reassembledOf held udpLength)
    (delivered : (handOn crc32c opened reassembled cache).1 = .payload payload) :
    Rebuildable reassembled ∧
      (Matched payload.options payload.reports ↔ ¬ Misreported crc32c (rebuiltOpened opened reassembled)) := by
  unfold handOn at delivered
  split at delivered
  next fits =>
    obtain ⟨well, _⟩ := openDatagram_well (open_rebuilt opened fits)
    cases disposed : dispositionOf crc32c (rebuiltOpened opened reassembled) with
    | deliver inner =>
      rw [disposed] at delivered
      cases delivered
      rw [← deliver_matched well disposed, merged]
      exact ⟨merged ▸ fits, mergeReassembled_matched held udpLength inner⟩
    | fail key =>
      rw [disposed] at delivered
      cases key <;> cases delivered
    | fragment =>
      rw [disposed] at delivered
      cases delivered
  · cases delivered

variable (crc32c)

/-- Options and Success reports match exactly when neither the datagram nor the one
it completes reports a success in front of an option that must not be ignored. -/
theorem reports_match_iff (bytes : List UInt8) (cache : ReassemblyCache) (now : Nat) :
    ReportsMatch crc32c bytes cache now ↔ ¬ DeliversMisreported crc32c bytes cache now := by
  constructor
  · rintro ⟨kinds, _⟩ ⟨opened, opening, misreported | ⟨frag, key, data, reassembled, after, rebuilt, inner, inserts,
      rebuilding, reopening, misreported⟩⟩
    · obtain ⟨well, _⟩ := openDatagram_well opening
      obtain ⟨payload, disposed, matched⟩ := @dispositionOf_withheld crc32c opened well misreported.1
      have processed := processDatagram_opened crc32c opening cache now
      rw [handled, disposed] at processed
      exact matched.mp (kinds payload cache processed) misreported
    · obtain ⟨options, reports, status, _, disposed, _, _, _, outcome, _⟩ := inserts.made_by
      rw [reassembled_rebuilt] at rebuilding
      split at rebuilding
      next fits =>
        cases rebuilding
        cases (open_rebuilt opened fits).symm.trans reopening
        obtain ⟨well, _⟩ := openDatagram_well reopening
        obtain ⟨payload, redisposed, _⟩ := @dispositionOf_withheld crc32c _ well misreported.1
        obtain ⟨held, udpLength, merged⟩ := fed_complete outcome
        have processed := processDatagram_opened crc32c opening cache now
        simp only [handled, disposed, outcome] at processed
        have delivered : (handOn crc32c opened reassembled
            ((insertionOf opened frag options reports status now).after cache)).1 =
              .payload (mergeReassembled reassembled payload) := by
          rw [handOn, if_pos fits, redisposed]
          rfl
        rw [delivered] at processed
        exact (handOn_matched merged delivered).2.mp (kinds _ _ processed) misreported
      · cases rebuilding
  · intro sound
    have kinds : ∀ payload final, processDatagram crc32c bytes cache now = .ok (.ok (.payload payload), final) →
        payload.options.map RawOption.kind = successKinds payload.reports := by
      intro payload final processed
      rcases processDatagram_cases crc32c bytes cache now with ⟨error, _, refused⟩ |
        ⟨opened, delivery, after, opening, known, handling⟩
      · cases refused.symm.trans processed
      · obtain ⟨well, _⟩ := openDatagram_well opening
        have results := Except.ok.inj (known.symm.trans processed)
        have delivered := Except.ok.inj (congrArg Prod.fst results)
        cases handling with
        | delivered disposed =>
          cases delivered
          exact (deliver_matched well disposed).mpr fun misreported => sound ⟨opened, opening, .inl misreported⟩
        | failed => cases delivered
        | buffered => cases delivered
        | aborted => cases delivered
        | @completed frag options reports status reassembled _ disposed outcome =>
          obtain ⟨held, udpLength, merged⟩ := fed_complete outcome
          obtain ⟨fits, matched⟩ := handOn_matched merged delivered
          refine matched.mpr fun misreported => sound ⟨opened, opening, .inr ?_⟩
          exact ⟨_, _, _, reassembled, _, _, _, outcome ▸ inserts_disposed opening disposed cache now,
            (reassembled_rebuilt opened reassembled).trans (congrArg Except.ok (if_pos fits)),
            open_rebuilt opened fits, misreported⟩
    refine ⟨kinds, ?_⟩
    intro policy received final kind decoded required
    obtain ⟨payload, processed, passed⟩ := decodeDatagram_received crc32c decoded
    obtain ⟨rfl, present, _⟩ := applyPolicy_received passed
    have member := missingRequired_none present required
    rw [← kinds payload final processed] at member
    obtain ⟨option, listed, same⟩ := List.mem_map.mp member
    exact ⟨option, listed, same⟩

end

/-- Two bytes of user data, an MDS and an UNSAFE option, with OCS and checksum unused. -/
def mdsBeforeUnsafe : List UInt8 :=
  datagramBytes ⟨10, 0, 0, 1⟩ ⟨10, 0, 0, 2⟩ ⟨1000, 2000, 10, 0⟩ [0x68, 0x69, 0, 0, 4, 4, 5, 220, 200, 2]

/-- The MDS is reported as processed and not exposed, and a policy that requires it passes. -/
theorem unsafe_hides_reported_mds :
    ∃ payload received,
      processDatagram (fun _ => 0) mdsBeforeUnsafe (.withLimits .default) 0 =
        .ok (.ok (.payload payload), .withLimits .default) ∧
      payload.options = [] ∧ successKinds payload.reports = [.mds] ∧
      Api.decodeDatagram (fun _ => 0) mdsBeforeUnsafe (.withLimits .default) 0 ⟨[.mds], false, false⟩ =
        .ok (.ok (.received received), .withLimits .default) ∧
      received.options = [] ∧ ¬ ReportsMatch (fun _ => 0) mdsBeforeUnsafe (.withLimits .default) 0 := by
  refine ⟨_, _, rfl, rfl, rfl, rfl, rfl, ?_⟩
  rintro ⟨kinds, _⟩
  cases kinds _ _ rfl

end UdpOptions.Proofs
