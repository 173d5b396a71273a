import UdpOptions.Proofs.CanonicalForm
import UdpOptions.Proofs.FragmentDatagrams
import UdpOptions.Proofs.TrailingBytes

/-! Where the options of a fragment end. The serializer writes the end of its body
into Frag.Start, and the receiver, which counts from the options area, cuts there:
it parses the body and takes everything behind it as fragment data, whatever those
bytes look like. -/

namespace UdpOptions.Proofs
open Library Model

/-- The kinds a fragment hands to the cache, in canonical order. -/
def fragmentKinds : List OptionKind := [.mds, .mrds, .req, .res]

/-- The first option of each of these kinds among the options of a body. -/
def firstInstances (body : List UInt8) : List RawOption :=
  fragmentKinds.filterMap fun kind => (instances (optionsRead (itemsOf (body.drop 2))) kind).head?

private theorem reportableKinds_eq : reportableKinds = .apc :: fragmentKinds := rfl

private theorem fragmentKinds_reportable {kind : OptionKind} (listed : kind ∈ fragmentKinds) : kind ∈ reportableKinds :=
  List.mem_cons_of_mem _ listed

private theorem fragmentKinds_other {kind : OptionKind} (listed : kind ∈ fragmentKinds) :
    kind ≠ .apc ∧ kind.toByte ≠ Kind.apc ∧ kind.toByte ≠ Kind.frag := by
  simp only [fragmentKinds, List.mem_cons, List.not_mem_nil, or_false] at listed
  rcases listed with rfl | rfl | rfl | rfl <;> decide

section
variable {options : List RawOption} {items : List OptionsIter.Item}

theorem Emits.eol (emits : Emits options items) : .ok ⟨.eol, [], none⟩ ∈ items := by
  induction emits with
  | done => exact List.mem_singleton_self _
  | nop next ih => exact List.mem_cons_of_mem _ ih
  | option valueAt next ih => exact List.mem_cons_of_mem _ ih

theorem Emits.read (emits : Emits options items) : ∀ item ∈ items, ∃ option, item = .ok option := by
  induction emits with
  | done =>
    rw [List.forall_mem_singleton]
    exact ⟨_, rfl⟩
  | nop next ih =>
    rw [List.forall_mem_cons]
    exact ⟨⟨_, rfl⟩, ih⟩
  | option valueAt next ih =>
    rw [List.forall_mem_cons]
    exact ⟨⟨_, rfl⟩, ih⟩

theorem Emits.optionsRead (emits : Emits options items) (sendable : ∀ option ∈ options, Sendable option) :
    optionsRead items = options.map asParsed := by
  induction emits with
  | done => rfl
  | nop next ih => exact ih sendable
  | @option option rest items valueAt next ih =>
    obtain ⟨first, later⟩ := List.forall_mem_cons.mp sendable
    have byte : (asParsed option).kind.toByte = option.kind.toByte := OptionKind.toByte_fromByte _
    have kept : ¬ ((asParsed option).kind = .nop ∨ (asParsed option).kind = .eol) := by
      intro filler
      rcases filler with kind | kind
      · exact first.tlvKind.2 (byte.symm.trans (by rw [kind]; rfl))
      · exact first.tlvKind.1 (byte.symm.trans (by rw [kind]; rfl))
    rw [List.map_cons, ← ih later]
    exact List.filterMap_cons_some (if_neg kept)

theorem Emits.first {option : RawOption} (emits : Emits (option :: options) items) :
    ∃ valueAt later, Emits options later ∧
      scanFrag items = scanFrag (.ok (refOf option (some valueAt)) :: later) ∧
      ∀ crc32c fragmentContext userData state,
        optionLoop crc32c fragmentContext userData state items =
          optionLoop crc32c fragmentContext userData state (.ok (refOf option (some valueAt)) :: later) := by
  generalize given : option :: options = all at emits
  induction emits with
  | done => cases given
  | nop next ih =>
    obtain ⟨valueAt, later, emits, scanned, looped⟩ := ih given
    refine ⟨valueAt, later, emits, scanned, ?_⟩
    intro crc32c fragmentContext userData state
    rw [← looped]
    cases fragmentContext <;> rfl
  | option valueAt next ih =>
    cases given
    exact ⟨valueAt, _, next, rfl, fun _ _ _ _ => rfl⟩

end

private theorem decode_middle {value : List UInt8} (eight : value.length = 8) (start : UInt16) :
    ∃ given, Frag.decode value = .ok given ∧
      Frag.decode (u16Be start ++ value.drop 2) = .ok { given with fragStart := start } := by
  match value, eight with
  | [_, _, _, _, _, _, _, _], _ =>
    refine ⟨_, rfl, ?_⟩
    simp only [Frag.decode, u16Be, List.cons_append, List.nil_append, List.drop_succ_cons, List.drop_zero, u16OfBe_split]

private theorem decode_terminal {value : List UInt8} (ten : value.length = 10) (start : UInt16) :
    ∃ given, Frag.decode value = .ok given ∧
      Frag.decode (u16Be start ++ value.drop 2) = .ok { given with fragStart := start } := by
  match value, ten with
  | [_, _, _, _, _, _, _, _, _, _], _ =>
    refine ⟨_, rfl, ?_⟩
    simp only [Frag.decode, u16Be, List.cons_append, List.nil_append, List.drop_succ_cons, List.drop_zero, u16OfBe_split]

/-- A FRAG of the list is decoded with the fragment start that was written into it. -/
theorem decode_patched {option : RawOption} (sendable : Sendable option) (isFrag : option.kind.toByte = Kind.frag)
    (start : UInt16) :
    ∃ given, Frag.decode option.value = .ok given ∧
      Frag.decode (patched start option).value = .ok { given with fragStart := start } := by
  have lengths := sendable.fixed
  rw [isFrag, show Serialize.fixedValueLens Kind.frag = [8, 10] from rfl] at lengths
  have known : option.value.length = 8 ∨ option.value.length = 10 := by simpa using lengths
  rw [patched, if_pos isFrag]
  rcases known with eight | ten
  · exact decode_middle eight start
  · exact decode_terminal ten start

section
variable {options : List RawOption}

def behindFrag (options : List RawOption) : List RawOption :=
  reportableKinds.flatMap (instances options) ++ laterOptions options

private theorem mem_instances {kind : OptionKind} {option : RawOption} :
    option ∈ instances options kind ↔ option ∈ options ∧ option.kind.toByte = kind.toByte := by
  rw [instances, List.mem_filter, decide_eq_true_iff]

private theorem behindFrag_noFrag (options : List RawOption) : NoFrag (behindFrag options) := by
  intro option member
  rcases List.mem_append.mp member with known | later
  · obtain ⟨kind, listed, inside⟩ := List.mem_flatMap.mp known
    rw [(mem_instances.mp inside).2]
    simp only [reportableKinds, List.mem_cons, List.not_mem_nil, or_false] at listed
    rcases listed with rfl | rfl | rfl | rfl | rfl <;> decide
  · exact (laterOptions_unknown later).1

private theorem behindFrag_mem {option : RawOption} (member : option ∈ behindFrag options) : option ∈ options := by
  rcases List.mem_append.mp member with known | later
  · obtain ⟨kind, _, inside⟩ := List.mem_flatMap.mp known
    exact (mem_instances.mp inside).1
  · exact (List.mem_insertionSort _).mp (List.mem_of_mem_filter later)

private theorem instances_frag {option : RawOption} (member : option ∈ options)
    (isFrag : option.kind.toByte = Kind.frag)
    (single : options.countP Proofs.isFrag ≤ 1) : instances options .frag = [option] := by
  have inside : option ∈ instances options .frag := mem_instances.mpr ⟨member, isFrag⟩
  have short : (instances options .frag).length ≤ 1 := by
    rw [List.countP_eq_length_filter] at single
    exact single
  match given : instances options .frag, short with
  | [], _ =>
    rw [given] at inside
    cases inside
  | [only], _ =>
    rw [given] at inside
    rw [List.mem_singleton.mp inside]

private theorem patched_frag {first : RawOption} (member : first ∈ options) (isFrag : first.kind.toByte = Kind.frag)
    (single : options.countP Proofs.isFrag ≤ 1) (start : UInt16) :
    (Serialize.sortByRank options).map (patched start) = patched start first :: behindFrag options := by
  have unpatched : (behindFrag options).map (patched start) = behindFrag options := by
    conv_rhs => rw [← List.map_id (behindFrag options)]
    apply List.map_congr_left
    intro option member
    exact if_neg (behindFrag_noFrag options option member)
  rw [sortByRank_classes, instances_frag member isFrag single, ← behindFrag, List.singleton_append, List.map_cons,
    unpatched]

private theorem instances_readBack {kind : OptionKind} (other : kind.toByte ≠ Kind.frag) (start : UInt16) :
    instances ((Serialize.sortByRank options).map (readBack start)) kind = (instances options kind).map asParsed := by
  have same : ((fun option : RawOption => decide (option.kind.toByte = kind.toByte)) ∘ readBack start) =
      fun option => decide (option.kind.toByte = kind.toByte) := by
    funext option
    rw [Function.comp_apply, readBack_kind]
  rw [instances, List.filter_map, same, ← instances, sortByRank_instances]
  apply List.map_congr_left
  intro option member
  have notFrag : option.kind.toByte ≠ Kind.frag := (mem_instances.mp member).2 ▸ other
  rw [readBack, patched, if_neg notFrag]

/-- A serialized body with the fragment start that was written into a FRAG of its list. -/
structure Serialized (options : List RawOption) (body : List UInt8) (start : UInt16) (items : List OptionsIter.Item) :
    Prop where
  sendable : ∀ option ∈ options, Sendable option
  single : options.countP isFrag ≤ 1
  stop : start.toNat = 8 + body.length
  led : 2 ≤ body.length
  framed : Framed 0 (body.drop 2) items
  emits : Emits ((Serialize.sortByRank options).map (patched start)) items

private theorem finish_serialized {body : List UInt8} (finished : Serialize.finish options = .ok body) :
    ∃ start items, Serialized options body start items := by
  obtain ⟨⟨sendable, single⟩, bodyLen, start, sized, word, emitted⟩ := finish_iff.mp finished
  have patchedSendable := @patched_sendable start options sendable
  have patchedSized : Serialize.bodyLenFrom [0, 0].length ((Serialize.sortByRank options).map (patched start)) =
      .ok bodyLen := by
    rw [bodyLenFrom_map]
    · exact sized
    · exact fun option member => (sendable option ((List.mem_insertionSort _).mp member)).patched_length
  obtain ⟨length, _⟩ := emitFrom_length patchedSendable emitted patchedSized
  obtain ⟨area, items, whole, framed, emits⟩ := emitFrom_framed patchedSendable emitted 0
  have behind : body.drop 2 = area := by rw [whole]; rfl
  exact ⟨start, items, sendable, single, by omega, finish_led finished, behind ▸ framed, emits⟩

end

section
variable (crc32c : List UInt8 → UInt32) {options : List RawOption}

def fragmentReports (options : List RawOption) : List OptionReport :=
  (instances options .apc).map (fun _ => report .apc .ignored) ++
    (fragmentKinds.flatMap fun kind => groupReports crc32c [] kind (instances options kind)) ++
    (laterOptions options).map fun option => report (.fromByte option.kind.toByte) .ignored

/-- The options behind a FRAG: each APC is ignored, and the others are absorbed as usual. -/
theorem foldl_behindFrag (sendable : ∀ option ∈ options, Sendable option) {state : OptionState}
    (unseen : ∀ kind ∈ fragmentKinds, state.seen kind.toByte = false) :
    ∃ seen, (behindFrag options).foldl (absorbIn crc32c [] true) state =
      ⟨state.options ++ fragmentKinds.flatMap fun kind => exposed crc32c [] kind (instances options kind),
        state.reports ++ fragmentReports crc32c options, seen, state.frag⟩ := by
  have apc : (instances options .apc).foldl (absorbIn crc32c [] true) state =
      { state with
        reports := state.reports ++ (instances options .apc).map fun _ => report .apc .ignored } := by
    apply foldl_ignored
    intro option member current _
    exact if_pos ⟨rfl, (mem_instances.mp member).2⟩
  have others : ∀ current, ∀ option ∈ fragmentKinds.flatMap (instances options) ++ laterOptions options,
      absorbIn crc32c [] true current option = absorb crc32c [] current option := by
    intro current option member
    apply if_neg
    intro ignored
    rcases List.mem_append.mp member with known | later
    · obtain ⟨kind, listed, inside⟩ := List.mem_flatMap.mp known
      exact (fragmentKinds_other listed).2.1 ((mem_instances.mp inside).2.symm.trans ignored.2)
    · have unknown := (laterOptions_unknown later).2
      rw [ignored.2] at unknown
      cases unknown
  obtain ⟨seen, folded⟩ := @foldl_absorb_kinds crc32c [] options sendable fragmentKinds
    (fun _ => fragmentKinds_reportable) (by decide)
    { state with reports := state.reports ++ (instances options .apc).map fun _ => report .apc .ignored } unseen
  refine ⟨seen, ?_⟩
  rw [behindFrag, reportableKinds_eq, List.flatMap_cons, List.append_assoc, List.foldl_append, apc,
    List.foldl_ext _ _ _ others, List.foldl_append, folded,
    foldl_absorb_unknown crc32c [] fun option later => (laterOptions_unknown later).2]
  simp only [fragmentReports, List.append_assoc]

private theorem exposed_first {kind : OptionKind} (listed : kind ∈ fragmentKinds) :
    exposed crc32c [] kind (instances options kind) = ((instances options kind).head?.map asParsed).toList := by
  cases given : instances options kind with
  | nil => rfl
  | cons first later =>
    have same : first.kind.toByte = kind.toByte := (mem_instances.mp (by rw [given]; simp)).2
    have success : firstStatus crc32c [] kind first = .success := if_neg fun apc => (fragmentKinds_other listed).1 apc.1
    have named : asParsed first = ⟨kind, first.value⟩ := by
      rw [asParsed, same, fromByte_reportable (fragmentKinds_reportable listed)]
    rw [exposed, if_pos success, List.head?_cons, Option.map_some, named]
    rfl

/-- What the options of a body expose is the first instance of each kind in it. -/
theorem firstInstances_eq {body : List UInt8} {start : UInt16} {items : List OptionsIter.Item}
    (serialized : Serialized options body start items) :
    (fragmentKinds.flatMap fun kind => exposed crc32c [] kind (instances options kind)) = firstInstances body := by
  have read : optionsRead (itemsOf (body.drop 2)) = (Serialize.sortByRank options).map (readBack start) := by
    rw [serialized.framed.itemsOf_eq, serialized.emits.optionsRead (patched_sendable serialized.sendable), List.map_map]
    rfl
  rw [firstInstances, List.filterMap_eq_flatMap_toList, read]
  apply List.flatMap_congr
  intro kind listed
  rw [exposed_first crc32c listed, instances_readBack (fragmentKinds_other listed).2.2, List.head?_map]

private theorem fragmentReports_sound (options : List RawOption) :
    ∀ report ∈ fragmentReports crc32c options, report.status ≠ .failed := by
  intro reported member
  rw [fragmentReports, List.mem_append, List.mem_append, List.mem_map, List.mem_flatMap, List.mem_map] at member
  rcases member with (⟨option, _, rfl⟩ | ⟨kind, listed, inside⟩) | ⟨option, _, rfl⟩
  · exact OptionStatus.noConfusion
  · cases given : instances options kind with
    | nil =>
      rw [given] at inside
      cases inside
    | cons first later =>
      have success : firstStatus crc32c [] kind first = .success := if_neg fun apc => (fragmentKinds_other listed).1 apc.1
      rw [given, groupReports, success, List.mem_cons, List.mem_map] at inside
      rcases inside with rfl | ⟨_, _, rfl⟩ <;> exact OptionStatus.noConfusion
  · exact OptionStatus.noConfusion

private theorem fragmentOptionFailures_sound {reports : List OptionReport}
    (sound : ∀ report ∈ reports, report.status ≠ .failed) : fragmentOptionFailures reports = [] := by
  unfold fragmentOptionFailures
  generalize kept : ([] : List OptionKind) = failures
  clear kept
  induction reports with
  | nil => rfl
  | cons report rest ih =>
    obtain ⟨first, later⟩ := List.forall_mem_cons.mp sound
    rw [List.foldl_cons, if_neg fun failed => first failed.1]
    exact ih later

section
variable {body : List UInt8} {start : UInt16} {items : List OptionsIter.Item} {first : RawOption} {given : Frag}

theorem Serialized.scanned (serialized : Serialized options body start items) (member : first ∈ options)
    (isFrag : first.kind.toByte = Kind.frag) :
    ∃ valueAt, scanFrag items = some (refOf (patched start first) (some valueAt)) := by
  have emits := serialized.emits
  rw [patched_frag member isFrag serialized.single] at emits
  obtain ⟨valueAt, later, _, scanned, _⟩ := emits.first
  have kind : (refOf (patched start first) (some valueAt)).kind = .frag := by
    rw [refOf, patched, if_pos isFrag, isFrag]
    rfl
  exact ⟨valueAt, scanned.trans (if_pos kind)⟩

theorem Serialized.itemsOf (serialized : Serialized options body start items) (data : List UInt8) :
    itemsOf (body.drop 2 ++ data) = items := by
  obtain ⟨more, framed, hidden⟩ := serialized.framed.append serialized.emits.read data
  rw [hidden _ serialized.emits.eol rfl, List.append_nil] at framed
  exact framed.itemsOf_eq

theorem Serialized.limit (serialized : Serialized options body start items) (member : first ∈ options)
    (isFrag : first.kind.toByte = Kind.frag) (data : List UInt8) :
    limitOf (body.drop 2 ++ data).length 10 (Proofs.itemsOf (body.drop 2 ++ data)) = .upTo (body.drop 2).length := by
  obtain ⟨valueAt, scanned⟩ := serialized.scanned member isFrag
  obtain ⟨given, _, decoded⟩ := decode_patched (serialized.sendable first member) isFrag start
  have inside := serialized.framed.scanFrag_inside scanned
  have stop := serialized.stop
  have led := serialized.led
  have length : (body.drop 2).length = start.toNat - 10 := by
    rw [List.length_drop]
    omega
  have value : (refOf (patched start first) (some valueAt)).value = (patched start first).value := rfl
  rw [serialized.itemsOf, limitOf, scanned]
  dsimp only
  rw [limitAt, value, decoded]
  dsimp only
  rw [checkedSub_of_le (by omega)]
  dsimp only
  rw [List.length_append, length, if_neg]
  omega

/-- The parse of a serialized body with a FRAG and any bytes behind it. -/
theorem Serialized.parsed (serialized : Serialized options body start items) (member : first ∈ options)
    (isFrag : first.kind.toByte = Kind.frag) (decoded : Frag.decode first.value = .ok given) (data : List UInt8) :
    parseArea crc32c (body.drop 2 ++ data) [] 10 =
      .ok ⟨firstInstances body, fragmentReports crc32c options, some { given with fragStart := start }, false,
        false⟩ := by
  have emits := serialized.emits
  rw [patched_frag member isFrag serialized.single] at emits
  obtain ⟨valueAt, later, behind, _, looped⟩ := emits.first
  obtain ⟨other, same, patchedDecoded⟩ := decode_patched (serialized.sendable first member) isFrag start
  cases decoded.symm.trans same
  have kind : (refOf (patched start first) (some valueAt)).kind = .frag := by
    rw [refOf, patched, if_pos isFrag, isFrag]
    rfl
  have stepped : optionStep crc32c true [] .initial (refOf (patched start first) (some valueAt)) =
      .next { OptionState.initial.markSeen Kind.frag with frag := some { given with fragStart := start } } :=
    optionStep_frag (lengthTest_sendable (serialized.sendable first member).patched true _) kind rfl
      patchedDecoded
  obtain ⟨seen, folded⟩ := @foldl_behindFrag crc32c options serialized.sendable
    { OptionState.initial.markSeen Kind.frag with frag := some { given with fragStart := start } } (by
      intro kind listed
      exact Function.update_of_ne (fragmentKinds_other listed).2.2 _ _)
  rw [parseArea, if_pos List.isEmpty_nil, serialized.limit member isFrag]
  dsimp only
  rw [List.take_left, serialized.framed.itemsOf_eq, looped, optionLoop, stepped]
  dsimp only
  rw [optionLoop_emits crc32c [] behind (fun option inside => serialized.sendable option (behindFrag_mem inside))
    (behindFrag_noFrag options), folded, firstInstances_eq crc32c serialized]
  rfl

end

end

/-- The receiver takes the datagram as a fragment with exactly this data: the options
area is cut at the end of the body, only the body is parsed, and its options reach the
cache together with the bytes behind it. -/
structure HandsOver (crc32c : List UInt8 → UInt32) (opened : Opened) (body data : List UInt8) (frag : Frag)
    (key : FragKey) (reports : List OptionReport) : Prop where
  area : optionsArea opened = body.drop 2 ++ data
  limit : fragmentOptionLimit (optionsArea opened) opened.userData.isEmpty (ocsStart opened + 2 - opened.udpAt) =
    .ok (.upTo (body.drop 2).length)
  parsed : parseOptions crc32c (optionsArea opened) opened.userData (ocsStart opened + 2 - opened.udpAt) =
    parseOptions crc32c (body.drop 2) [] 10
  examined : examine crc32c opened.datagram =
    .ok (.ok (opened, .fragment frag (some key) (firstInstances body) reports .valid))
  sliced : Checked.slice? opened.datagram (opened.udpAt + frag.fragStart.toNat) opened.ipEnd = some data
  inserted : ∀ cache now, ∃ outcome after,
    cache.insertWithOptionsAndFailures key frag data ⟨firstInstances body, [], some true⟩ now = .ok (outcome, after) ∧
    processDatagram crc32c opened.datagram cache now =
      .ok (.ok (settled crc32c opened outcome after).1, (settled crc32c opened outcome after).2)

section
variable {crc32c : List UInt8 → UInt32} {options : List RawOption} {body data : List UInt8} {start : UInt16}
  {items : List OptionsIter.Item} {first : RawOption} {given : Frag} {opened : Opened} {src dst : Ipv4Addr}
  {srcPort dstPort : UInt16}

/-- An assembled fragment is taken with the options of its body. -/
theorem Serialized.disposed (serialized : Serialized options body start items) (member : first ∈ options)
    (isFrag : first.kind.toByte = Kind.frag) (decoded : Frag.decode first.value = .ok given)
    (sent : Sent opened src dst srcPort dstPort [] (body ++ data)) :
    dispositionOf crc32c opened = .fragment { given with fragStart := start }
      (some ⟨src, dst, srcPort, dstPort, given.identification⟩) (firstInstances body) (fragmentReports crc32c options)
      .valid := by
  obtain ⟨well, _⟩ := openDatagram_well sent.opening
  obtain ⟨area, offset⟩ := sent.area_behind serialized.led
  have trusted : Trusted opened .valid := sent.trusted (by
    rw [List.length_append]
    exact Nat.le_add_right_of_le serialized.led)
  rw [dispositionOf_trusted crc32c well trusted, parsedArea, offset, sent.userData, area,
    serialized.parsed crc32c member isFrag decoded]
  simp only [disposeParsed, sent.userData]
  rw [← sent.source, ← sent.destination, ← sent.srcPort, ← sent.dstPort]
  rfl

theorem Serialized.insertion (serialized : Serialized options body start items)
    (sent : Sent opened src dst srcPort dstPort [] (body ++ data)) (now : Nat) :
    insertionOf opened { given with fragStart := start } (firstInstances body) (fragmentReports crc32c options) .valid
        now =
      ⟨⟨src, dst, srcPort, dstPort, given.identification⟩, { given with fragStart := start }, data,
        ⟨firstInstances body, [], some true⟩, now⟩ := by
  rw [insertionOf, fragmentData_sent sent serialized.led serialized.stop,
    fragmentOptionFailures_sound (fragmentReports_sound crc32c options), fragKey, sent.source, sent.destination,
    sent.srcPort, sent.dstPort]
  rfl

theorem Serialized.handsOver (serialized : Serialized options body start items) (member : first ∈ options)
    (isFrag : first.kind.toByte = Kind.frag) (decoded : Frag.decode first.value = .ok given)
    (sent : Sent opened src dst srcPort dstPort [] (body ++ data)) :
    HandsOver crc32c opened body data { given with fragStart := start }
      ⟨src, dst, srcPort, dstPort, given.identification⟩ (fragmentReports crc32c options) := by
  obtain ⟨well, _⟩ := openDatagram_well sent.opening
  obtain ⟨area, offset⟩ := sent.area_behind serialized.led
  have disposed := @Serialized.disposed crc32c _ _ _ _ _ _ _ _ _ _ _ _ serialized member isFrag decoded sent
  have parsed := serialized.parsed crc32c member isFrag decoded
  constructor
  · exact area
  · rw [fragmentOptionLimit_eq, offset, area, sent.userData, if_pos List.isEmpty_nil, serialized.limit member isFrag]
  · have alone := parsed []
    rw [List.append_nil] at alone
    rw [parseOptions_eq, parseOptions_eq, offset, sent.userData, area, parsed, alone]
  · rw [examine_opened crc32c sent.opening well, disposed]
  · obtain ⟨_, _, inside⟩ := (disposed ▸ (disposeOpened_eq crc32c well).2).fragment well
    rw [slice_fragmentData well inside, fragmentData_sent sent serialized.led serialized.stop]
  · intro cache now
    have settles := processDatagram_settled sent.opening disposed cache now
    rw [serialized.insertion sent now] at settles
    exact ⟨_, _, insertWithOptionsAndFailures_eq _ _ _ _ _ _, settles⟩

end

/-- Sender and receiver agree on where the options of a fragment end, whatever its data. -/
theorem fragment_boundary (crc32c : List UInt8 → UInt32) {options : List RawOption} {body : List UInt8}
    {first : RawOption} (finished : Serialize.finish options = .ok body) (listed : first ∈ options)
    (isFrag : first.kind.toByte = Kind.frag) :
    ∃ given reports, Frag.decode first.value = .ok given ∧ fragmentOptionFailures reports = [] ∧
      ∀ (src dst : Ipv4Addr) (srcPort dstPort : UInt16) (data : List UInt8), sentLen 0 (body ++ data).length < 2 ^ 16 →
        ∃ opened, assembleDatagram src dst srcPort dstPort [] (body ++ data) = .ok opened.datagram ∧
          HandsOver crc32c opened body data { given with fragStart := UInt16.ofNat (8 + body.length) }
            ⟨src, dst, srcPort, dstPort, given.identification⟩ reports := by
  obtain ⟨start, items, serialized⟩ := finish_serialized finished
  obtain ⟨given, decoded, _⟩ := decode_patched (serialized.sendable first listed) isFrag start
  have failures := fragmentOptionFailures_sound (fragmentReports_sound crc32c options)
  refine ⟨given, fragmentReports crc32c options, decoded, failures, ?_⟩
  intro src dst srcPort dstPort data fits
  have led : 2 ≤ (body ++ data).length := by
    rw [List.length_append]
    exact Nat.le_add_right_of_le serialized.led
  obtain ⟨opened, assembled, sent⟩ := @assembleDatagram_sent src dst srcPort dstPort [] (body ++ data) (.inr led) fits
  rw [← serialized.stop, UInt16.ofNat_toNat]
  exact ⟨opened, assembled, serialized.handsOver listed isFrag decoded sent⟩

private def fragWithApc : List RawOption :=
  [⟨.req, [1, 2, 3, 4]⟩, ⟨.frag, [0, 0, 0, 0, 0, 5, 0, 8]⟩, ⟨.apc, [9, 9, 9, 9]⟩, ⟨.req, [5, 6, 7, 8]⟩]

private def fragWithApcBody : List UInt8 :=
  [0, 0, 3, 10, 0, 40, 0, 0, 0, 5, 0, 8, 2, 6, 9, 9, 9, 9, 6, 6, 1, 2, 3, 4, 6, 6, 5, 6, 7, 8, 0, 0]

/-- Data that starts like an UNSAFE option and a FRAG stays data. -/
theorem fragment_boundary_apc :
    ∃ opened reports, Serialize.finish fragWithApc = .ok fragWithApcBody ∧
      firstInstances fragWithApcBody = [⟨.req, [1, 2, 3, 4]⟩] ∧ fragmentOptionFailures reports = [] ∧
      assembleDatagram ⟨10, 0, 0, 1⟩ ⟨10, 0, 0, 2⟩ 7 9 [] (fragWithApcBody ++ [192, 2, 3, 10]) = .ok opened.datagram ∧
      HandsOver (fun _ => 0) opened fragWithApcBody [192, 2, 3, 10] ⟨40, 5, 8, none⟩
        ⟨⟨10, 0, 0, 1⟩, ⟨10, 0, 0, 2⟩, 7, 9, 5⟩ reports := by
  have finished : Serialize.finish fragWithApc = .ok fragWithApcBody := by decide
  obtain ⟨given, reports, decoded, sound, sent⟩ := @fragment_boundary (fun _ => 0) _ _
    ⟨.frag, [0, 0, 0, 0, 0, 5, 0, 8]⟩ finished (by decide) rfl
  obtain rfl := Except.ok.inj decoded
  obtain ⟨opened, assembled, handed⟩ := sent ⟨10, 0, 0, 1⟩ ⟨10, 0, 0, 2⟩ 7 9 [192, 2, 3, 10] (by decide)
  exact ⟨opened, reports, finished, by decide, sound, assembled, handed⟩

end UdpOptions.Proofs
