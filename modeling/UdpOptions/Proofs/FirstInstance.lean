import UdpOptions.Proofs.FatalOptions
import UdpOptions.Proofs.ReportedOptions
import UdpOptions.Proofs.TypedCodecs

/-! The first-instance rule. A run of the option loop that ends without a failure is a
run over the options in front of its end, one recording step for each. What such a run
leaves of one kind is decided by the first option of that kind. -/

namespace UdpOptions.Proofs
open Library Model

/-- Reading stops behind EOL, behind an UNSAFE option, and behind a FRAG of a length
that is not supported. -/
def endsArea (option : OptionRef) : Bool :=
  option.kind = .eol ∨ option.kind.isUnsafe ∨
    (option.kind = .frag ∧ ¬ (option.value.length + 2 = 10 ∨ option.value.length + 2 = 12))

/-- The options met in order until reading stops, the last one included. -/
def met : List OptionsIter.Item → List OptionRef
  | [] => []
  | .error _ :: _ => []
  | .ok option :: rest => option :: (if endsArea option then [] else met rest)

section
variable (crc32c : List UInt8 → UInt32) (context : Bool) (userData : List UInt8)

/-- What one option leaves in the state of a loop that does not fail. -/
inductive Records (state : OptionState) (option : OptionRef) : OptionState → Prop where
  | filler (kind : option.kind = .eol ∨ option.kind = .nop) : Records state option state
  | frag (held : Option Frag) (kind : option.kind = .frag) :
      Records state option { state.markSeen Kind.frag with frag := held }
  | apcIgnored (inside : context = true) (kind : option.kind = .apc) :
      Records state option (state.pushReport option.kind .ignored)
  | known {status : OptionStatus} (outside : ¬ (context = true ∧ option.kind = .apc))
      (decided : knownStatus crc32c userData option = some status) :
      Records state option (state.recordOnce option status)
  | other {byte : UInt8} {status : OptionStatus} (kind : option.kind = .other byte) :
      Records state option (state.pushReport option.kind status)

/-- A run over the options met, with the state before and after it. -/
inductive Examined : OptionState → List OptionRef → OptionState → Prop where
  | done {state : OptionState} : Examined state [] state
  | option {state after final : OptionState} {option : OptionRef} {rest : List OptionRef}
      (records : Records crc32c context userData state option after) (later : Examined after rest final) :
      Examined state (option :: rest) final

end

section
variable {crc32c : List UInt8 → UInt32} {context : Bool} {userData : List UInt8} {state : OptionState}

private theorem endsArea_iff {option : OptionRef} :
    endsArea option = true ↔ option.kind = .eol ∨ option.kind.isUnsafe = true ∨
      (option.kind = .frag ∧ ¬ (option.value.length + 2 = 10 ∨ option.value.length + 2 = 12)) := decide_eq_true_iff

private theorem endsArea_passing {option : OptionRef} (passing : passes option.kind = true) :
    endsArea option = false := by
  obtain ⟨notEol, safe⟩ := passes_safe passing
  rw [Bool.eq_false_iff, Ne, endsArea_iff]
  rintro (eol | dangerous | ⟨frag, _⟩)
  · exact notEol eol
  · rw [safe] at dangerous
    cases dangerous
  · rw [frag] at passing
    cases passing

/-- How one iteration on an option ends: it records and goes on, it records and stops
at an ending option, or it leaves with a failure. -/
inductive StepOutcome (crc32c : List UInt8 → UInt32) (context : Bool) (userData : List UInt8) (state : OptionState)
    (option : OptionRef) : LoopStep → Prop where
  | next {after : OptionState} (proper : lengthTest context option = .ok ())
      (records : Records crc32c context userData state option after)
      (goesOn : option.kind = .eol ∨ endsArea option = false) : StepOutcome crc32c context userData state option (.next after)
  | broken {after : OptionState} (proper : lengthTest context option = .ok ())
      (records : Records crc32c context userData state option after) (ends : endsArea option = true) :
      StepOutcome crc32c context userData state option (.broken after)
  | left {result : Except ParseError ParsedOptions}
      (fails : (∃ error, result = .error error) ∨ ∃ parsed, result = .ok parsed ∧ parsed.fragmentFailed = true) :
      StepOutcome crc32c context userData state option (.left result)

private theorem leaveWith_outcome (option : OptionRef) (error : ParseError) :
    StepOutcome crc32c context userData state option (leaveWith state userData error) := by
  unfold leaveWith
  split
  · exact .left (.inr ⟨_, rfl, rfl⟩)
  · exact .left (.inl ⟨_, rfl⟩)

private theorem optionStep_outcome (option : OptionRef) :
    StepOutcome crc32c context userData state option (optionStep crc32c context userData state option) := by
  have step := optionStep_case crc32c context userData state option
  generalize optionStep crc32c context userData state option = taken at step ⊢
  cases step with
  | short below => exact leaveWith_outcome option _
  | filler proper kind =>
    refine .next proper (.filler kind) (kind.imp_right ?_)
    intro nop
    apply endsArea_passing
    rw [nop]
    rfl
  | fragAgain proper kind seen => exact leaveWith_outcome option _
  | fragFirst proper kind unseen decoded =>
    refine .next proper (.frag _ kind) (.inr ?_)
    rw [Bool.eq_false_iff, Ne, endsArea_iff, kind]
    rintro (eol | dangerous | ⟨_, wrong⟩)
    · cases eol
    · cases dangerous
    · exact wrong (fragDecode_length decoded)
  | fragWrong proper kind unseen failed =>
    refine .broken proper (.frag state.frag kind) ?_
    exact endsArea_iff.mpr (.inr (.inr ⟨kind, fragDecode_fails failed⟩))
  | apcIgnored inside kind =>
    refine .next (if_pos ⟨inside, kind⟩) (.apcIgnored inside kind) (.inr (endsArea_passing ?_))
    rw [kind]
    rfl
  | known proper outside decided =>
    exact .next proper (.known outside decided) (.inr (endsArea_passing (knownStatus_kind decided).2.2.2))
  | unknown proper kind safe =>
    refine .next proper (.other kind) (.inr (endsArea_passing ?_))
    rw [kind, passes, OptionKind.isUnsafe, safe]
    rfl
  | unsupported proper kind dangerous =>
    refine .broken proper (.other kind) (endsArea_iff.mpr (.inr (.inl ?_)))
    rw [kind, OptionKind.isUnsafe, dangerous]
    rfl

private theorem optionLoop_examined {items : List OptionsIter.Item} {parsed : ParsedOptions} (ends : EndsOnce items)
    (parsing : optionLoop crc32c context userData state items = .ok parsed) (sound : parsed.fragmentFailed = false) :
    ∃ final unsupported, parsed = OptionState.finished final unsupported ∧
      Examined crc32c context userData state (met items) final := by
  induction items generalizing state with
  | nil =>
    cases parsing
    exact ⟨state, false, rfl, .done⟩
  | cons item rest ih =>
    cases item with
    | error error =>
      simp only [optionLoop] at parsing
      split at parsing
      · cases parsing
        cases sound
      · cases parsing
    | ok option =>
      have step := @optionStep_outcome crc32c context userData state option
      simp only [optionLoop] at parsing
      generalize optionStep crc32c context userData state option = taken at step parsing
      cases step with
      | next proper records goesOn =>
        obtain ⟨final, unsupported, shape, later⟩ := ih ends.2 parsing
        refine ⟨final, unsupported, shape, ?_⟩
        rcases goesOn with eol | within
        · obtain rfl : rest = [] := ends.1 eol
          rw [met, met, ite_self]
          exact .option records later
        · rw [met, within]
          exact .option records later
      | broken proper records stops =>
        cases parsing
        refine ⟨_, true, rfl, ?_⟩
        rw [met, stops]
        exact .option records .done
      | left fails =>
        obtain ⟨error, refused⟩ | ⟨other, failed, fatal⟩ := fails
        · cases refused.symm.trans parsing
        · cases failed.symm.trans parsing
          cases fatal.symm.trans sound

private theorem optionLoop_below {items : List OptionsIter.Item} {option : OptionRef} {error : ParseError}
    (ends : EndsOnce items) (member : option ∈ met items) (below : lengthTest context option = .error error) :
    (∃ error, optionLoop crc32c context userData state items = .error error) ∨
      ∃ parsed, optionLoop crc32c context userData state items = .ok parsed ∧ parsed.fragmentFailed = true := by
  induction items generalizing state with
  | nil => cases member
  | cons item rest ih =>
    cases item with
    | error error => cases member
    | ok first =>
      have step := @optionStep_outcome crc32c context userData state first
      simp only [optionLoop]
      generalize optionStep crc32c context userData state first = taken at step ⊢
      cases step with
      | next proper records goesOn =>
        obtain rfl | later := List.mem_cons.mp member
        · cases proper.symm.trans below
        · apply ih ends.2
          split at later
          · cases later
          · exact later
      | broken proper records stops =>
        rw [met, stops] at member
        obtain rfl := List.mem_singleton.mp member
        cases proper.symm.trans below
      | left fails => exact fails

end

section
variable (crc32c : List UInt8 → UInt32) (userData : List UInt8)

/-- The value has the fixed length of its kind, and an APC is the checksum of the data. -/
def Succeeds (option : OptionRef) : Prop :=
  option.value.length + 2 ∈ option.kind.fixedTlvLengths ∧ (option.kind = .apc → option.value = u32Be (crc32c userData))

instance (option : OptionRef) : Decidable (Succeeds crc32c userData option) :=
  inferInstanceAs (Decidable (_ ∧ (_ → _)))

def decidedStatus (option : OptionRef) : OptionStatus :=
  if Succeeds crc32c userData option then .success else .failed

/-- The reports of the options of one kind, of which one may have been seen before. -/
def kindReports (kind : OptionKind) (seen : Bool) : List OptionRef → List OptionReport
  | [] => []
  | first :: later =>
    report kind (if seen then .ignored else decidedStatus crc32c userData first) ::
      later.map fun _ => report kind .ignored

/-- The options of one kind that are handed to the application. -/
def kindOptions (kind : OptionKind) (seen : Bool) : List OptionRef → List RawOption
  | [] => []
  | first :: _ => if ¬ seen ∧ Succeeds crc32c userData first then [⟨kind, first.value⟩] else []

end

section
variable {crc32c : List UInt8 → UInt32} {context : Bool} {userData : List UInt8}

private theorem decodeStatus_provides {α : Type} [TypedOption α] {byte : UInt8} (provides : Provides α byte)
    (value : List UInt8) :
    decodeStatus (TypedOption.decode value : Except ParseError α) =
      if value.length ∈ Serialize.fixedValueLens byte then .success else .failed := by
  cases decoded : (TypedOption.decode value : Except ParseError α) with
  | ok typed => rw [if_pos ((provides.sized value).mp ⟨typed, decoded⟩), decodeStatus]
  | error error =>
    have unlisted : value.length ∉ Serialize.fixedValueLens byte := by
      intro listed
      obtain ⟨typed, found⟩ := (provides.sized value).mpr listed
      cases decoded.symm.trans found
    rw [if_neg unlisted, decodeStatus]

private theorem succeeds_iff {option : OptionRef} :
    Succeeds crc32c userData option ↔ option.value.length ∈ Serialize.fixedValueLens option.kind.toByte ∧
      (option.kind = .apc → option.value = u32Be (crc32c userData)) := by
  rw [Succeeds, fixedTlvLengths_eq]
  simp

private theorem decidedStatus_plain {α : Type} [TypedOption α] {option : OptionRef}
    (provides : Provides α option.kind.toByte) (plain : option.kind ≠ .apc) :
    decodeStatus (TypedOption.decode option.value : Except ParseError α) = decidedStatus crc32c userData option := by
  have same : Succeeds crc32c userData option ↔ option.value.length ∈ Serialize.fixedValueLens option.kind.toByte := by
    rw [succeeds_iff]
    exact and_iff_left fun apc => absurd apc plain
  rw [decodeStatus_provides provides, decidedStatus]
  simp only [same]

private theorem acceptsApc_decided (value : List UInt8) (valueAt : Option Nat) :
    acceptsApc crc32c ⟨.apc, value, valueAt⟩ userData = decidedStatus crc32c userData ⟨.apc, value, valueAt⟩ := by
  by_cases four : value.length = 4
  · have same : Succeeds crc32c userData ⟨.apc, value, valueAt⟩ ↔ value = u32Be (crc32c userData) := by
      rw [succeeds_iff]
      exact ⟨fun both => both.2 rfl, fun equal => ⟨List.mem_singleton.mpr four, fun _ => equal⟩⟩
    rw [acceptsApc_iff crc32c userData four, decidedStatus]
    by_cases equal : value = u32Be (crc32c userData)
    · rw [if_neg (not_not.mpr equal), if_pos (same.mpr equal)]
    · rw [if_pos equal, if_neg fun succeeds => equal (same.mp succeeds)]
  · have fails : ¬ Succeeds crc32c userData ⟨.apc, value, valueAt⟩ := by
      rw [succeeds_iff]
      exact fun both => four (List.mem_singleton.mp both.1)
    rw [decidedStatus, if_neg fails, acceptsApc]
    cases decoded : Apc.decode value with
    | ok typed => exact absurd (List.mem_singleton.mp (apc_provides.sound value typed decoded).1) four
    | error error => rfl

private theorem knownStatus_decided {option : OptionRef} (reportable : option.kind ∈ reportableKinds) :
    knownStatus crc32c userData option = some (decidedStatus crc32c userData option) := by
  obtain ⟨kind, value, valueAt⟩ := option
  simp only [reportableKinds, List.mem_cons, List.not_mem_nil, or_false] at reportable
  rcases reportable with rfl | rfl | rfl | rfl | rfl
  · exact congrArg some (acceptsApc_decided value valueAt)
  · exact congrArg some (@decidedStatus_plain crc32c userData Mds _ _ mds_provides OptionKind.noConfusion)
  · exact congrArg some (@decidedStatus_plain crc32c userData Mrds _ _ mrds_provides OptionKind.noConfusion)
  · exact congrArg some (@decidedStatus_plain crc32c userData Req _ _ req_provides OptionKind.noConfusion)
  · exact congrArg some (@decidedStatus_plain crc32c userData Res _ _ res_provides OptionKind.noConfusion)

private theorem recordOnce_reports (state : OptionState) (option : OptionRef) (status : OptionStatus) :
    (state.recordOnce option status).reports =
      state.reports ++ [report option.kind (if state.seen option.kind.toByte then .ignored else status)] := by
  unfold OptionState.recordOnce
  split
  · rfl
  · dsimp only
    split <;> rfl

private theorem recordOnce_options (state : OptionState) (option : OptionRef) (status : OptionStatus) :
    (state.recordOnce option status).options =
      state.options ++ if ¬ state.seen option.kind.toByte ∧ status = .success then [option.toRaw] else [] := by
  unfold OptionState.recordOnce
  split
  next seen => rw [if_neg fun both => both.1 seen, List.append_nil]; rfl
  next unseen =>
    dsimp only
    split
    next success => rw [if_pos ⟨unseen, success⟩]; rfl
    next other => rw [if_neg fun both => other both.2, List.append_nil]; rfl

private theorem decidedStatus_success {option : OptionRef} :
    decidedStatus crc32c userData option = .success ↔ Succeeds crc32c userData option := by
  unfold decidedStatus
  split
  next succeeds => exact iff_of_true rfl succeeds
  next fails => exact iff_of_false OptionStatus.noConfusion fails

private theorem kindReports_seen (kind : OptionKind) (options : List OptionRef) :
    kindReports crc32c userData kind true options = options.map fun _ => report kind .ignored := by
  cases options <;> rfl

private theorem kindOptions_seen (kind : OptionKind) (options : List OptionRef) :
    kindOptions crc32c userData kind true options = [] := by
  cases options with
  | nil => rfl
  | cons first later =>
    rw [kindOptions, if_neg]
    exact fun both => both.1 rfl

section
variable {state after final : OptionState} {option : OptionRef} {options : List OptionRef} {kind : OptionKind}

private theorem filter_push_other {items : List OptionReport} {added : OptionReport} (different : added.kind ≠ kind) :
    (items ++ [added]).filter (fun report => report.kind = kind) = items.filter fun report => report.kind = kind := by
  simp [different]

theorem Records.elsewhere (records : Records crc32c context userData state option after)
    (reportable : kind ∈ reportableKinds) (different : option.kind ≠ kind) :
    after.seen kind.toByte = state.seen kind.toByte ∧
      (after.reports.filter fun report => report.kind = kind) = (state.reports.filter fun report => report.kind = kind) ∧
      (after.options.filter fun option => option.kind = kind) = state.options.filter fun option => option.kind = kind := by
  cases records with
  | filler _ => exact ⟨rfl, rfl, rfl⟩
  | frag held _ =>
    have byte : ∀ kind ∈ reportableKinds, kind.toByte ≠ Kind.frag := by decide
    exact ⟨Function.update_of_ne (byte kind reportable) _ _, rfl, rfl⟩
  | apcIgnored _ _ => exact ⟨rfl, filter_push_other different, rfl⟩
  | other _ => exact ⟨rfl, filter_push_other different, rfl⟩
  | known outside decided =>
    have byte : kind.toByte ≠ option.kind.toByte := by
      intro same
      apply different
      rw [← knownStatus_normal decided, ← same, fromByte_reportable reportable]
    refine ⟨?_, ?_, ?_⟩
    · rw [recordOnce_seen]
      exact Function.update_of_ne byte _ _
    · rw [recordOnce_reports]
      exact filter_push_other different
    · rw [recordOnce_options]
      split
      · simp [OptionRef.toRaw, different]
      · rw [List.append_nil]

theorem Records.here (records : Records crc32c context userData state option after)
    (reportable : option.kind ∈ reportableKinds) (outside : ¬ (context = true ∧ option.kind = .apc)) :
    after = state.recordOnce option (decidedStatus crc32c userData option) := by
  have unlisted : ∀ byte, OptionKind.other byte ∉ reportableKinds := by simp [reportableKinds]
  cases records with
  | filler kind => rcases kind with same | same <;> exact absurd (same ▸ reportable) (by decide)
  | frag held same => exact absurd (same ▸ reportable) (by decide)
  | apcIgnored inside same => exact absurd ⟨inside, same⟩ outside
  | other same => exact absurd (same ▸ reportable) (unlisted _)
  | known _ decided => rw [Option.some.inj ((knownStatus_decided reportable).symm.trans decided)]

theorem Examined.ofKind (examined : Examined crc32c context userData state options final)
    (reportable : kind ∈ reportableKinds) (outside : ¬ (context = true ∧ kind = .apc)) :
    (final.reports.filter fun report => report.kind = kind) = (state.reports.filter fun report => report.kind = kind) ++
        kindReports crc32c userData kind (state.seen kind.toByte) (options.filter fun option => option.kind = kind) ∧
      (final.options.filter fun option => option.kind = kind) = (state.options.filter fun option => option.kind = kind) ++
        kindOptions crc32c userData kind (state.seen kind.toByte) (options.filter fun option => option.kind = kind) := by
  induction examined with
  | done => simp [kindReports, kindOptions]
  | @option state after final option rest records later ih =>
    by_cases same : option.kind = kind
    · subst same
      obtain rfl := records.here reportable outside
      have marked : (state.recordOnce option (decidedStatus crc32c userData option)).seen option.kind.toByte = true := by
        rw [recordOnce_seen]
        exact Function.update_self _ _ _
      rw [marked, kindReports_seen, kindOptions_seen, recordOnce_reports, recordOnce_options] at ih
      rw [List.filter_cons_of_pos (by simp), ih.1, ih.2]
      constructor
      · rw [List.filter_append, List.filter_cons_of_pos (by simp [report]), List.append_assoc]
        rfl
      · rw [List.append_nil, List.filter_append, kindOptions]
        simp only [decidedStatus_success]
        split
        · rw [List.filter_cons_of_pos (by simp [OptionRef.toRaw])]
          rfl
        · rfl
    · obtain ⟨seen, reports, options⟩ := records.elsewhere reportable same
      rw [seen, reports, options] at ih
      rw [List.filter_cons_of_neg (by simpa using same)]
      exact ih

private theorem knownStatus_reportableKind {status : OptionStatus}
    (decided : knownStatus crc32c userData option = some status) :
    option.kind ∈ reportableKinds := by
  unfold knownStatus at decided
  split at decided
  all_goals first
    | exact absurd decided (Option.some_ne_none _).symm
    | simp [*, reportableKinds]

private theorem substantial_reportable : ∀ kind ∈ reportableKinds, kind ≠ .frag ∧ kind ≠ .nop ∧ kind ≠ .eol := by decide

theorem Records.adds (records : Records crc32c context userData state option after) :
    (after.options = state.options ∨ after.options = state.options ++ [option.toRaw] ∧ option.kind ∈ reportableKinds ∧
      ¬ (context = true ∧ option.kind = .apc)) ∧
    (after.reports = state.reports ∨ ∃ status, after.reports = state.reports ++ [report option.kind status] ∧
      option.kind ≠ .frag ∧ option.kind ≠ .nop ∧ option.kind ≠ .eol) := by
  cases records with
  | filler _ => exact ⟨.inl rfl, .inl rfl⟩
  | frag held _ => exact ⟨.inl rfl, .inl rfl⟩
  | apcIgnored _ kind =>
    refine ⟨.inl rfl, .inr ⟨_, rfl, ?_⟩⟩
    rw [kind]
    decide
  | other kind =>
    refine ⟨.inl rfl, .inr ⟨_, rfl, ?_⟩⟩
    rw [kind]
    exact ⟨OptionKind.noConfusion, OptionKind.noConfusion, OptionKind.noConfusion⟩
  | known outside decided =>
    have reportable := knownStatus_reportableKind decided
    refine ⟨?_, .inr ⟨_, recordOnce_reports _ _ _, substantial_reportable _ reportable⟩⟩
    rw [recordOnce_options]
    split
    · exact .inr ⟨rfl, reportable, outside⟩
    · exact .inl (List.append_nil _)

/-- A run appends options of reportable kinds, in the order they were met. -/
theorem Examined.exposes (examined : Examined crc32c context userData state options final) :
    ∃ added, final.options = state.options ++ added ∧ added.Sublist (options.map OptionRef.toRaw) ∧
      ∀ option ∈ added, option.kind ∈ reportableKinds ∧ ¬ (context = true ∧ option.kind = .apc) := by
  induction examined with
  | done => exact ⟨[], (List.append_nil _).symm, .slnil, List.forall_mem_nil _⟩
  | option records later ih =>
    obtain ⟨added, whole, ordered, kinds⟩ := ih
    obtain ⟨same | ⟨pushed, reportable, outside⟩, _⟩ := records.adds
    · exact ⟨added, by rw [whole, same], ordered.cons _, kinds⟩
    · refine ⟨_ :: added, by rw [whole, pushed, List.append_assoc]; rfl, ordered.cons_cons _, ?_⟩
      exact List.forall_mem_cons.mpr ⟨⟨reportable, outside⟩, kinds⟩

theorem Examined.reports (examined : Examined crc32c context userData state options final)
    (substantial : ∀ report ∈ state.reports, report.kind ≠ .frag ∧ report.kind ≠ .nop ∧ report.kind ≠ .eol) :
    ∀ report ∈ final.reports, report.kind ≠ .frag ∧ report.kind ≠ .nop ∧ report.kind ≠ .eol := by
  induction examined with
  | done => exact substantial
  | option records later ih =>
    apply ih
    obtain ⟨_, same | ⟨status, pushed, kind⟩⟩ := records.adds
    · rw [same]
      exact substantial
    · rw [pushed]
      intro report member
      rcases List.mem_append.mp member with old | new
      · exact substantial report old
      · obtain rfl := List.mem_singleton.mp new
        exact kind

end

/-- Whether an options area is read in fragment context, and the options met in it
before reading stops. -/
def reading (area userData : List UInt8) (optionsOffset : Nat) : Bool × List OptionRef :=
  match (if userData.isEmpty then limitOf area.length optionsOffset (itemsOf area) else .full) with
  | .upTo stop => (true, met (itemsOf (area.take stop)))
  | .full | .malformedFrag _ => (false, met (itemsOf area))

/-- The outcome that the first options of each kind among `options` decide. -/
structure FirstInstances (crc32c : List UInt8 → UInt32) (context : Bool) (userData : List UInt8)
    (options : List OptionRef) (parsed : ParsedOptions) : Prop where
  decided : ∀ kind ∈ reportableKinds, ¬ (context = true ∧ kind = .apc) → ∀ first later,
    options.filter (fun option => option.kind = kind) = first :: later →
    parsed.reports.filter (fun report => report.kind = kind) =
        report kind (if Succeeds crc32c userData first then .success else .failed) ::
          later.map (fun _ => report kind .ignored) ∧
      parsed.options.filter (fun option => option.kind = kind) =
        if Succeeds crc32c userData first then [⟨kind, first.value⟩] else []
  wireOrder : parsed.options.Sublist (options.map OptionRef.toRaw)
  single : (parsed.options.map RawOption.kind).Nodup
  exposedKinds : ∀ option ∈ parsed.options, option.kind ≠ .frag ∧ option.kind ≠ .nop ∧ option.kind ≠ .eol
  reportedKinds : ∀ report ∈ parsed.reports, report.kind ≠ .frag ∧ report.kind ≠ .nop ∧ report.kind ≠ .eol

private theorem kindOptions_length (kind : OptionKind) (seen : Bool) (options : List OptionRef) :
    (kindOptions crc32c userData kind seen options).length ≤ 1 := by
  cases options with
  | nil => exact Nat.zero_le 1
  | cons first later =>
    rw [kindOptions]
    split
    · exact Nat.le_refl 1
    · exact Nat.zero_le 1

/-- A run from the start obeys the rule. -/
theorem Examined.firstInstances {options : List OptionRef} {final : OptionState}
    (examined : Examined crc32c context userData .initial options final) (unsupported : Bool) :
    FirstInstances crc32c context userData options (final.finished unsupported) := by
  obtain ⟨added, whole, ordered, kinds⟩ := examined.exposes
  obtain rfl : final.options = added := whole
  constructor
  · intro kind reportable outside first later found
    have ofKind := examined.ofKind reportable outside
    rw [found] at ofKind
    refine ⟨ofKind.1, ofKind.2.trans ?_⟩
    simp [OptionState.initial, kindOptions]
  · exact ordered
  · apply List.nodup_iff_count_le_one.mpr
    intro kind
    by_cases member : kind ∈ final.options.map RawOption.kind
    · obtain ⟨option, exposed, rfl⟩ := List.mem_map.mp member
      obtain ⟨reportable, outside⟩ := kinds option exposed
      have only := (examined.ofKind reportable outside).2
      rw [List.count_eq_countP, List.countP_map, List.countP_eq_length_filter]
      exact (congrArg List.length only).trans_le (kindOptions_length _ _ _)
    · exact (List.count_eq_zero.mpr member).trans_le (Nat.zero_le 1)
  · exact fun option exposed => substantial_reportable _ (kinds option exposed).1
  · exact examined.reports (List.forall_mem_nil _)

/-- What the loop makes of a list of items. -/
theorem optionLoop_firstInstances {items : List OptionsIter.Item} (ends : EndsOnce items) :
    (∀ parsed, optionLoop crc32c context userData .initial items = .ok parsed → parsed.fragmentFailed = false →
      FirstInstances crc32c context userData (met items) parsed) ∧
    (∀ option ∈ met items, belowMinimum option = true → ¬ (context = true ∧ option.kind = .apc) →
      (∃ error, optionLoop crc32c context userData .initial items = .error error) ∨
        ∃ parsed, optionLoop crc32c context userData .initial items = .ok parsed ∧ parsed.fragmentFailed = true) := by
  constructor
  · intro parsed parsing sound
    obtain ⟨final, unsupported, rfl, examined⟩ := optionLoop_examined ends parsing sound
    exact examined.firstInstances unsupported
  · intro option member below outside
    cases test : lengthTest context option with
    | error error => exact optionLoop_below ends member test
    | ok _ =>
      have proper : lengthTest false option = .ok () := by
        rw [lengthTest, if_neg (by simp)]
        rw [lengthTest, if_neg outside] at test
        exact test
      cases below.symm.trans (belowMinimum_proper proper)

/-- An area that is parsed without a failure obeys the first-instance rule, and one with
a known option below its minimum length fails. -/
theorem first_instance_rule (crc32c : List UInt8 → UInt32) (area userData : List UInt8) (optionsOffset : Nat) :
    ∃ outcome, parseOptions crc32c area userData optionsOffset = .ok outcome ∧
      (∀ parsed, outcome = .ok parsed → parsed.fragmentFailed = false →
        FirstInstances crc32c (reading area userData optionsOffset).1 userData
          (reading area userData optionsOffset).2 parsed) ∧
      (∀ option ∈ (reading area userData optionsOffset).2, belowMinimum option = true →
        ¬ ((reading area userData optionsOffset).1 = true ∧ option.kind = .apc) →
        (∃ error, outcome = .error error) ∨ ∃ parsed, outcome = .ok parsed ∧ parsed.fragmentFailed = true) := by
  refine ⟨_, parseOptions_eq crc32c area userData optionsOffset, ?_⟩
  unfold reading parseArea
  generalize (if userData.isEmpty then limitOf area.length optionsOffset (itemsOf area) else .full) = limit
  cases limit with
  | full => exact optionLoop_firstInstances (endsOnce_itemsOf area)
  | upTo stop => exact optionLoop_firstInstances (endsOnce_itemsOf (area.take stop))
  | malformedFrag frag =>
    refine ⟨?_, fun _ _ _ _ => .inr ⟨_, rfl, rfl⟩⟩
    intro parsed parsing sound
    cases parsing
    cases sound

end

end UdpOptions.Proofs
