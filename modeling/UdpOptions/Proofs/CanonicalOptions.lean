import UdpOptions.Api
import UdpOptions.Proofs.SerializedArea

/-! What a receiver delivers of a serialized list of options, stated on the list
the sender was given: the first instance of each reportable kind in canonical
order, and one report for each option. -/

namespace UdpOptions.Proofs
open Library Model

/-- The kinds whose options are handed to the application, in canonical order. -/
def reportableKinds : List OptionKind := [.apc, .mds, .mrds, .req, .res]

/-- The options of one kind, in the order they were given. -/
def instances (options : List RawOption) (kind : OptionKind) : List RawOption :=
  options.filter fun option => option.kind.toByte = kind.toByte

def unknownOptions (options : List RawOption) : List RawOption :=
  (Serialize.sortByRank options).filter fun option => !Api.isHighLevelUniqueKind option.kind.toByte

section
variable (crc32c : List UInt8 → UInt32) (userData : List UInt8)

/-- The first instance of a kind succeeds unless it is an APC with a wrong value. -/
def firstStatus (kind : OptionKind) (first : RawOption) : OptionStatus :=
  if kind = .apc ∧ first.value ≠ u32Be (crc32c userData) then .failed else .success

def exposed (kind : OptionKind) : List RawOption → List RawOption
  | [] => []
  | first :: _ => if firstStatus crc32c userData kind first = .success then [⟨kind, first.value⟩] else []

def groupReports (kind : OptionKind) : List RawOption → List OptionReport
  | [] => []
  | first :: later => report kind (firstStatus crc32c userData kind first) :: later.map fun _ => report kind .ignored

def deliveredOptions (options : List RawOption) : List RawOption :=
  reportableKinds.flatMap fun kind => exposed crc32c userData kind (instances options kind)

def deliveredReports (options : List RawOption) : List OptionReport :=
  (reportableKinds.flatMap fun kind => groupReports crc32c userData kind (instances options kind)) ++
    (unknownOptions options).map fun option => report (.fromByte option.kind.toByte) .ignored

end

def rankOf (option : RawOption) : Nat := (Serialize.canonicalRank option.kind.toByte).1

private theorem rankOf_frag (option : RawOption) : rankOf option = 0 ↔ option.kind.toByte = Kind.frag := by
  unfold rankOf Serialize.canonicalRank
  generalize option.kind.toByte = byte
  split_ifs <;> simp_all

private theorem rankOf_reportable (option : RawOption) :
    (rankOf option = 1 ↔ option.kind.toByte = Kind.apc) ∧ (rankOf option = 2 ↔ option.kind.toByte = Kind.mds) ∧
    (rankOf option = 3 ↔ option.kind.toByte = Kind.mrds) ∧ (rankOf option = 4 ↔ option.kind.toByte = Kind.req) ∧
    (rankOf option = 5 ↔ option.kind.toByte = Kind.res) := by
  unfold rankOf Serialize.canonicalRank
  generalize option.kind.toByte = byte
  split_ifs <;> simp_all <;> first | decide | omega

private theorem unknown_iff {option : RawOption} (notFrag : option.kind.toByte ≠ Kind.frag) :
    6 ≤ rankOf option ↔ Api.isHighLevelUniqueKind option.kind.toByte = false := by
  have frag := rankOf_frag option
  obtain ⟨apc, mds, mrds, req, res⟩ := rankOf_reportable option
  simp only [Api.isHighLevelUniqueKind, decide_eq_false_iff_not, not_or, ← apc, ← mds, ← mrds, ← req, ← res]
  have positive := frag.not.mpr notFrag
  omega

instance : Std.Total Serialize.rankLe where
  total first second := by
    unfold Serialize.rankLe
    dsimp only
    omega

instance : IsTrans RawOption Serialize.rankLe where
  trans first second third := by
    unfold Serialize.rankLe
    dsimp only
    omega

private theorem sortByRank_sorted (options : List RawOption) :
    (Serialize.sortByRank options).Pairwise fun first second => rankOf first ≤ rankOf second := by
  apply (List.pairwise_insertionSort Serialize.rankLe options).imp
  intro first second ordered
  rcases ordered with below | ⟨same, _⟩
  · exact Nat.le_of_lt below
  · exact Nat.le_of_eq same

theorem sortByRank_instances (options : List RawOption) (kind : OptionKind) :
    instances (Serialize.sortByRank options) kind = instances options kind := by
  apply filter_insertionSort
  intro first second one two
  right
  rw [of_decide_eq_true one, of_decide_eq_true two]
  exact ⟨rfl, Nat.le_refl _⟩

/-- The options behind every kind that has a place in the canonical order. -/
def laterOptions (options : List RawOption) : List RawOption :=
  (Serialize.sortByRank options).filter fun option => 6 ≤ rankOf option

/-- The sorted list is FRAG, the reportable kinds one after the other, then the rest. -/
theorem sortByRank_classes (options : List RawOption) :
    Serialize.sortByRank options =
      instances options .frag ++ (reportableKinds.flatMap (instances options) ++ laterOptions options) := by
  have sorted := sortByRank_sorted options
  have group : ∀ (kind : OptionKind) (rank : Nat),
      (∀ option : RawOption, rankOf option = rank ↔ option.kind.toByte = kind.toByte) →
      (Serialize.sortByRank options).filter (fun option => rankOf option = rank) = instances options kind := by
    intro kind rank same
    rw [← sortByRank_instances]
    apply List.filter_congr
    intro option _
    exact decide_eq_decide.mpr (same option)
  have all : (Serialize.sortByRank options).filter (fun option => 0 ≤ rankOf option) =
      Serialize.sortByRank options := by
    rw [List.filter_eq_self]
    intro option _
    exact decide_eq_true (Nat.zero_le _)
  conv_lhs => rw [← all]
  rw [filter_split sorted 0, filter_split sorted 1, filter_split sorted 2, filter_split sorted 3, filter_split sorted 4,
    filter_split sorted 5, group .frag 0 rankOf_frag, group .apc 1 fun option => (rankOf_reportable option).1,
    group .mds 2 fun option => (rankOf_reportable option).2.1,
    group .mrds 3 fun option => (rankOf_reportable option).2.2.1,
    group .req 4 fun option => (rankOf_reportable option).2.2.2.1,
    group .res 5 fun option => (rankOf_reportable option).2.2.2.2]
  simp [reportableKinds, laterOptions]

theorem laterOptions_unknown {options : List RawOption} {option : RawOption} (member : option ∈ laterOptions options) :
    option.kind.toByte ≠ Kind.frag ∧ Api.isHighLevelUniqueKind option.kind.toByte = false := by
  have large : 6 ≤ rankOf option := of_decide_eq_true (List.mem_filter.mp member).2
  have notFrag : option.kind.toByte ≠ Kind.frag := by
    rw [ne_eq, ← rankOf_frag]
    omega
  exact ⟨notFrag, (unknown_iff notFrag).mp large⟩

private theorem sortByRank_groups {options : List RawOption} (noFrag : NoFrag options) :
    Serialize.sortByRank options = reportableKinds.flatMap (instances options) ++ unknownOptions options := by
  have none : instances options .frag = [] := by
    rw [instances, List.filter_eq_nil_iff]
    intro option member same
    exact noFrag option member (of_decide_eq_true same)
  have rest : laterOptions options = unknownOptions options := by
    apply List.filter_congr
    intro option member
    have notFrag := noFrag option ((List.mem_insertionSort _).mp member)
    rw [Bool.eq_iff_iff, decide_eq_true_iff, unknown_iff notFrag, Bool.not_eq_true_eq_eq_false]
  rw [← rest, sortByRank_classes, none, List.nil_append]

section
variable (crc32c : List UInt8 → UInt32) (userData : List UInt8)

theorem fromByte_reportable {kind : OptionKind} (reportable : kind ∈ reportableKinds) :
    OptionKind.fromByte kind.toByte = kind := by
  simp only [reportableKinds, List.mem_cons, List.not_mem_nil, or_false] at reportable
  rcases reportable with rfl | rfl | rfl | rfl | rfl <;> rfl

theorem acceptsApc_iff {value : List UInt8} (four : value.length = 4) (kind : OptionKind) (valueAt : Option Nat) :
    acceptsApc crc32c ⟨kind, value, valueAt⟩ userData =
      if value ≠ u32Be (crc32c userData) then .failed else .success := by
  obtain ⟨a, b, c, d, rfl⟩ := List.length_eq_four.mp four
  unfold acceptsApc Apc.decode
  by_cases same : [a, b, c, d] = u32Be (crc32c userData)
  · rw [← u32Be_ofBe] at same
    simp [u32Be_injective same, ← u32Be_ofBe a b c d]
  · have other : u32OfBe a b c d ≠ crc32c userData := by
      intro equal
      exact same (by rw [← equal, u32Be_ofBe])
    simp [same, other]

theorem Sendable.length {option : RawOption} (sendable : Sendable option) {byte : UInt8} {len : Nat}
    (same : option.kind.toByte = byte) (only : Serialize.fixedValueLens byte = [len]) : option.value.length = len := by
  have fixed := sendable.fixed
  rw [same, only] at fixed
  simpa using fixed

private theorem knownStatus_reportable {option : RawOption} {kind : OptionKind} (sendable : Sendable option)
    (reportable : kind ∈ reportableKinds) (same : option.kind.toByte = kind.toByte) :
    knownStatus crc32c userData (refOf option none) = some (firstStatus crc32c userData kind option) := by
  simp only [refOf, same, fromByte_reportable reportable]
  simp only [reportableKinds, List.mem_cons, List.not_mem_nil, or_false] at reportable
  rcases reportable with rfl | rfl | rfl | rfl | rfl
  · have four : option.value.length = 4 := sendable.length same rfl
    simp [knownStatus, firstStatus, acceptsApc_iff crc32c userData four]
  · obtain ⟨_, _, value⟩ := List.length_eq_two.mp (sendable.length same rfl)
    simp [knownStatus, firstStatus, value, Mds.decode, decodeStatus]
  · obtain ⟨_, _, _, value⟩ := List.length_eq_three.mp (sendable.length same rfl)
    simp [knownStatus, firstStatus, value, Mrds.decode, decodeStatus]
  · obtain ⟨_, _, _, _, value⟩ := List.length_eq_four.mp (sendable.length same rfl)
    simp [knownStatus, firstStatus, value, Req.decode, decodeStatus]
  · obtain ⟨_, _, _, _, value⟩ := List.length_eq_four.mp (sendable.length same rfl)
    simp [knownStatus, firstStatus, value, Res.decode, decodeStatus]

theorem absorb_first {option : RawOption} {kind : OptionKind} (sendable : Sendable option)
    (reportable : kind ∈ reportableKinds) (same : option.kind.toByte = kind.toByte) {state : OptionState}
    (unseen : state.seen kind.toByte = false) :
    absorb crc32c userData state option =
      ⟨state.options ++ exposed crc32c userData kind [option],
        state.reports ++ [report kind (firstStatus crc32c userData kind option)],
        Function.update state.seen kind.toByte true, state.frag⟩ := by
  have named : (refOf option none).kind = kind := by rw [refOf, same, fromByte_reportable reportable]
  rw [absorb, knownStatus_reportable crc32c userData sendable reportable same]
  dsimp only
  rw [OptionState.recordOnce, named, unseen, if_neg Bool.false_ne_true]
  dsimp only
  by_cases success : firstStatus crc32c userData kind option = .success
  · rw [if_pos success, exposed, if_pos success, OptionRef.toRaw, named]
    rfl
  · rw [if_neg success, exposed, if_neg success, List.append_nil]
    rfl

theorem foldl_ignored {take : OptionState → RawOption → OptionState} {name : RawOption → OptionKind}
    {options : List RawOption} {state : OptionState}
    (ignored : ∀ option ∈ options, ∀ current : OptionState, current.seen = state.seen →
      take current option = current.pushReport (name option) .ignored) :
    options.foldl take state =
      { state with reports := state.reports ++ options.map fun option => report (name option) .ignored } := by
  induction options generalizing state with
  | nil => simp
  | cons option rest ih =>
    obtain ⟨first, later⟩ := List.forall_mem_cons.mp ignored
    have folded := @ih (state.pushReport (name option) .ignored) later
    rw [List.foldl_cons, first state rfl, folded]
    simp [OptionState.pushReport]

private theorem foldl_absorb_again {kind : OptionKind} (reportable : kind ∈ reportableKinds) {later : List RawOption}
    (sendable : ∀ option ∈ later, Sendable option) (same : ∀ option ∈ later, option.kind.toByte = kind.toByte)
    {state : OptionState} (seen : state.seen kind.toByte = true) :
    later.foldl (absorb crc32c userData) state =
      { state with reports := state.reports ++ later.map fun _ => report kind .ignored } := by
  apply foldl_ignored
  intro option member current marked
  have named : (refOf option none).kind = kind := by
    rw [refOf, same option member, fromByte_reportable reportable]
  rw [absorb, knownStatus_reportable crc32c userData (sendable option member) reportable (same option member)]
  dsimp only
  rw [OptionState.recordOnce, named, marked, seen, if_pos rfl]

/-- All options of one kind: the first is recorded and the others are ignored. -/
theorem foldl_absorb_group {kind : OptionKind} (reportable : kind ∈ reportableKinds) {group : List RawOption}
    (sendable : ∀ option ∈ group, Sendable option) (same : ∀ option ∈ group, option.kind.toByte = kind.toByte)
    {state : OptionState} (unseen : state.seen kind.toByte = false) :
    ∃ seen, (∀ byte, byte ≠ kind.toByte → seen byte = state.seen byte) ∧
      group.foldl (absorb crc32c userData) state =
        ⟨state.options ++ exposed crc32c userData kind group, state.reports ++ groupReports crc32c userData kind group,
          seen, state.frag⟩ := by
  cases group with
  | nil => exact ⟨state.seen, fun _ _ => rfl, by simp [exposed, groupReports]⟩
  | cons first later =>
    refine ⟨Function.update state.seen kind.toByte true, fun byte other => Function.update_of_ne other _ _, ?_⟩
    rw [List.foldl_cons, absorb_first crc32c userData (sendable first (by simp)) reportable (same first (by simp))
      unseen, foldl_absorb_again crc32c userData reportable
        (fun option member => sendable option (List.mem_cons_of_mem _ member))
        (fun option member => same option (List.mem_cons_of_mem _ member)) (by simp)]
    simp [exposed, groupReports]

theorem foldl_absorb_kinds {options : List RawOption} (sendable : ∀ option ∈ options, Sendable option)
    {kinds : List OptionKind} (reportable : ∀ kind ∈ kinds, kind ∈ reportableKinds)
    (distinct : (kinds.map OptionKind.toByte).Nodup) {state : OptionState}
    (unseen : ∀ kind ∈ kinds, state.seen kind.toByte = false) :
    ∃ seen, (kinds.flatMap (instances options)).foldl (absorb crc32c userData) state =
      ⟨state.options ++ kinds.flatMap fun kind => exposed crc32c userData kind (instances options kind),
        state.reports ++ kinds.flatMap fun kind => groupReports crc32c userData kind (instances options kind),
        seen, state.frag⟩ := by
  induction kinds generalizing state with
  | nil => exact ⟨state.seen, by simp⟩
  | cons kind rest ih =>
    obtain ⟨fresh, later⟩ := List.nodup_cons.mp distinct
    obtain ⟨seen, others, grouped⟩ := @foldl_absorb_group crc32c userData kind (reportable kind (by simp))
      (instances options kind) (fun option member => sendable option (List.mem_of_mem_filter member))
      (fun option member => of_decide_eq_true (List.mem_filter.mp member).2) state (unseen kind (by simp))
    have unseenLater : ∀ other ∈ rest, seen other.toByte = false := by
      intro other member
      rw [others other.toByte fun same => fresh (by rw [← same]; exact List.mem_map.mpr ⟨other, member, rfl⟩)]
      exact unseen other (List.mem_cons_of_mem _ member)
    obtain ⟨last, folded⟩ := @ih (fun other member => reportable other (List.mem_cons_of_mem _ member)) later
      ⟨state.options ++ exposed crc32c userData kind (instances options kind),
        state.reports ++ groupReports crc32c userData kind (instances options kind), seen, state.frag⟩ unseenLater
    refine ⟨last, ?_⟩
    rw [List.flatMap_cons, List.foldl_append, grouped, folded]
    simp only [List.flatMap_cons, List.append_assoc]

private theorem knownStatus_unknown {option : RawOption}
    (unknown : Api.isHighLevelUniqueKind option.kind.toByte = false) :
    knownStatus crc32c userData (refOf option none) = none := by
  have byte := OptionKind.toByte_fromByte option.kind.toByte
  simp only [Api.isHighLevelUniqueKind, decide_eq_false_iff_not, not_or] at unknown
  obtain ⟨apc, mds, mrds, req, res⟩ := unknown
  simp only [knownStatus, refOf]
  cases kind : OptionKind.fromByte option.kind.toByte with
  | apc => exact absurd (by rw [← byte, kind]; rfl) apc
  | mds => exact absurd (by rw [← byte, kind]; rfl) mds
  | mrds => exact absurd (by rw [← byte, kind]; rfl) mrds
  | req => exact absurd (by rw [← byte, kind]; rfl) req
  | res => exact absurd (by rw [← byte, kind]; rfl) res
  | eol | nop | frag | other => rfl

theorem foldl_absorb_unknown {options : List RawOption}
    (unknown : ∀ option ∈ options, Api.isHighLevelUniqueKind option.kind.toByte = false) (state : OptionState) :
    options.foldl (absorb crc32c userData) state =
      { state with
        reports := state.reports ++ options.map fun option => report (.fromByte option.kind.toByte) .ignored } := by
  apply foldl_ignored
  intro option member current _
  rw [absorb, knownStatus_unknown crc32c userData (unknown option member)]

theorem optionLoop_serialized {options : List RawOption} {items : List OptionsIter.Item}
    (emits : Emits (Serialize.sortByRank options) items) (sendable : ∀ option ∈ options, Sendable option)
    (noFrag : NoFrag options) :
    optionLoop crc32c false userData .initial items =
      .ok ⟨deliveredOptions crc32c userData options, deliveredReports crc32c userData options, none, false, false⟩ := by
  have members : ∀ option ∈ Serialize.sortByRank options, option ∈ options :=
    fun option member => (List.mem_insertionSort _).mp member
  obtain ⟨seen, folded⟩ := @foldl_absorb_kinds crc32c userData options sendable reportableKinds (fun _ => id)
    (by decide) .initial (fun _ _ => rfl)
  rw [optionLoop_emits crc32c userData emits (fun option member => sendable option (members option member))
    (fun option member => noFrag option (members option member)), absorbIn_false, sortByRank_groups noFrag,
    List.foldl_append, folded, foldl_absorb_unknown]
  · rfl
  · intro option member
    have unknown := (List.mem_filter.mp member).2
    simpa using unknown

/-- An option the application sees: of a reportable kind, and an APC only with the
checksum of the data. -/
def reportable (option : RawOption) : Bool :=
  Api.isHighLevelUniqueKind option.kind.toByte &&
    (option.kind.toByte ≠ Kind.apc || option.value = u32Be (crc32c userData))

def asParsed (option : RawOption) : RawOption := ⟨.fromByte option.kind.toByte, option.value⟩

def reportableOptions (options : List RawOption) : List RawOption :=
  ((Serialize.sortByRank options).filter (reportable crc32c userData)).map asParsed

def Unrepeated (options : List RawOption) : Prop := ∀ kind ∈ reportableKinds, (instances options kind).length ≤ 1

private theorem unique_reportable {kind : OptionKind} (listed : kind ∈ reportableKinds) :
    Api.isHighLevelUniqueKind kind.toByte = true := by
  simp only [reportableKinds, List.mem_cons, List.not_mem_nil, or_false] at listed
  rcases listed with rfl | rfl | rfl | rfl | rfl <;> rfl

private theorem exposed_single {kind : OptionKind} (listed : kind ∈ reportableKinds) {option : RawOption}
    (same : option.kind.toByte = kind.toByte) :
    exposed crc32c userData kind [option] = ([option].filter (reportable crc32c userData)).map asParsed := by
  have parsed : asParsed option = ⟨kind, option.value⟩ := by rw [asParsed, same, fromByte_reportable listed]
  have apc : option.kind.toByte = Kind.apc ↔ kind = .apc := by
    rw [same]
    simp only [reportableKinds, List.mem_cons, List.not_mem_nil, or_false] at listed
    rcases listed with rfl | rfl | rfl | rfl | rfl <;> decide
  have seen : reportable crc32c userData option = true ↔ firstStatus crc32c userData kind option = .success := by
    rw [reportable, same, unique_reportable listed, ← same, firstStatus]
    by_cases checked : kind = .apc ∧ option.value ≠ u32Be (crc32c userData)
    · simp [apc, checked]
    · rw [if_neg checked]
      simp only [not_and_or, not_not, ← apc] at checked
      simpa using checked
  by_cases success : firstStatus crc32c userData kind option = .success
  · rw [exposed, if_pos success, List.filter_cons_of_pos (seen.mpr success), List.filter_nil, List.map_singleton, parsed]
  · rw [exposed, if_neg success, List.filter_cons_of_neg (seen.not.mpr success)]
    rfl

theorem deliveredOptions_unrepeated {options : List RawOption} (noFrag : NoFrag options)
    (unrepeated : Unrepeated options) :
    deliveredOptions crc32c userData options = reportableOptions crc32c userData options := by
  have unknown : (unknownOptions options).filter (reportable crc32c userData) = [] := by
    rw [List.filter_eq_nil_iff]
    intro option member visible
    have unknown := (List.mem_filter.mp member).2
    rw [reportable, Bool.and_eq_true] at visible
    rw [visible.1] at unknown
    cases unknown
  have single : ∀ kind ∈ reportableKinds, exposed crc32c userData kind (instances options kind) =
      ((instances options kind).filter (reportable crc32c userData)).map asParsed := by
    intro kind listed
    have few := unrepeated kind listed
    have same : ∀ option ∈ instances options kind, option.kind.toByte = kind.toByte :=
      fun option member => of_decide_eq_true (List.mem_filter.mp member).2
    match given : instances options kind, few with
    | [], _ => rfl
    | [option], _ => exact exposed_single crc32c userData listed (same option (by simp [given]))
  rw [reportableOptions, sortByRank_groups noFrag, List.filter_append, unknown, List.append_nil, List.filter_flatMap,
    List.map_flatMap, deliveredOptions]
  exact List.flatMap_congr single

end

/-- The check for duplicates finds every repeated reportable kind. -/
theorem duplicateReportableFrom_false {options : List RawOption} {seen : UInt8 → Bool}
    (passed : Api.duplicateReportableFrom seen options = false) {kind : OptionKind} (listed : kind ∈ reportableKinds) :
    (instances options kind).length + (seen kind.toByte).toNat ≤ 1 := by
  induction options generalizing seen with
  | nil =>
    have := Bool.toNat_le (seen kind.toByte)
    simpa [instances] using this
  | cons option rest ih =>
    rw [Api.duplicateReportableFrom] at passed
    by_cases same : option.kind.toByte = kind.toByte
    · rw [same, unique_reportable listed] at passed
      cases marked : seen kind.toByte with
      | true => simp [marked] at passed
      | false =>
        simp only [Bool.not_true, Bool.false_eq_true, if_false, marked] at passed
        have later := ih passed
        rw [Function.update_self] at later
        simp only [instances, List.filter_cons, same, decide_true, if_true, List.length_cons] at later ⊢
        exact later
    · have others : instances (option :: rest) kind = instances rest kind := by
        simp [instances, same]
      rw [others]
      split at passed
      · exact ih passed
      · split at passed
        · cases passed
        · have later := ih passed
          rwa [Function.update_of_ne (Ne.symm same)] at later

private theorem unrepeated_cons {option : RawOption} {rest : List RawOption} (single : Unrepeated rest)
    (absent : ∀ other ∈ rest, other.kind.toByte ≠ option.kind.toByte) : Unrepeated (option :: rest) := by
  intro kind listed
  by_cases same : option.kind.toByte = kind.toByte
  · have none : instances rest kind = [] := by
      rw [instances, List.filter_eq_nil_iff]
      intro other member equal
      exact absent other member ((of_decide_eq_true equal).trans same.symm)
    rw [instances, List.filter_cons_of_pos (by simpa using same), ← instances, none]
    exact Nat.le_refl 1
  · rw [instances, List.filter_cons_of_neg (by simpa using same)]
    exact single kind listed

/-- The high-level API accepts no FRAG and no reportable kind twice, counting the
automatic APC. -/
theorem validateSendOptions_sent (crc32c : List UInt8 → UInt32) (payload : List UInt8) {options : Api.SendOptions}
    (accepted : Api.validateSendOptions options = .ok ()) :
    NoFrag (Api.sentOptions crc32c payload options) ∧ Unrepeated (Api.sentOptions crc32c payload options) := by
  unfold Api.validateSendOptions at accepted
  split at accepted
  · cases accepted
  next noFrag =>
    split at accepted
    · cases accepted
    next noApc =>
      split at accepted
      · cases accepted
      next unrepeated =>
        have raw : NoFrag options.rawOptions := by
          intro option member same
          exact noFrag (List.any_eq_true.mpr ⟨option, member, decide_eq_true same⟩)
        have single : Unrepeated options.rawOptions := by
          intro kind listed
          have bound := duplicateReportableFrom_false (Bool.eq_false_of_not_eq_true unrepeated) listed
          exact Nat.le_trans (Nat.le_add_right _ _) bound
        by_cases automatic : options.includeApc = true
        · have absent : ∀ option ∈ options.rawOptions, option.kind.toByte ≠ Kind.apc := by
            intro option member same
            exact noApc ⟨automatic, List.any_eq_true.mpr ⟨option, member, decide_eq_true same⟩⟩
          rw [Api.sentOptions, if_pos automatic]
          refine ⟨?_, ?_⟩
          · intro option member
            rcases List.mem_cons.mp member with rfl | member
            · exact show Kind.apc ≠ Kind.frag by decide
            · exact raw option member
          · exact unrepeated_cons single absent
        · rw [Api.sentOptions, if_neg automatic]
          exact ⟨raw, single⟩

end UdpOptions.Proofs
