import UdpOptions.Proofs.CacheInvariant
import UdpOptions.Proofs.Datagrams
import UdpOptions.Proofs.OptionLoop

/-! The receive path as one total function. An accepted datagram has at most one
effect on the cache before its re-feed, and the bytes rebuilt from a complete
fragment set open again, so that nothing on the path can fault. -/

namespace UdpOptions.Proofs
open Library Model

def surplusStart (opened : Opened) : Nat := opened.udpAt + opened.udp.length.toNat

/-- The pad byte that puts the OCS on a 16-bit boundary. -/
def surplusPad (opened : Opened) : Nat := surplusStart opened % 2

def ocsStart (opened : Opened) : Nat := surplusStart opened + surplusPad opened

def surplusBody (opened : Opened) : List UInt8 := opened.datagram.drop (ocsStart opened)

/-- The option bytes behind the OCS. -/
def optionsArea (opened : Opened) : List UInt8 := (surplusBody opened).drop 2

def ocsVerdict (opened : Opened) : OcsCheck :=
  Ocs.validate (surplusBody opened) (UInt16.ofNat (opened.ipEnd - surplusStart opened)) opened.udp.checksum

/-- A usable layout, a zero pad, and an OCS that is valid or unused. -/
structure Trusted (opened : Opened) (status : OcsStatus) : Prop where
  room : ocsStart opened + 2 ≤ opened.ipEnd
  pad : surplusPad opened = 1 → opened.datagram[surplusStart opened]? = some 0
  ocs : (status = .valid ∧ ocsVerdict opened = .valid) ∨ (status = .unused ∧ ocsVerdict opened = .unused)

theorem WellOpened.natural {opened : Opened} (well : WellOpened opened) :
    opened.ip.headerLen + opened.udp.length.toNat = surplusStart opened := by rw [surplusStart, well.offset]

theorem udpAt_le_ocsStart (opened : Opened) : opened.udpAt ≤ ocsStart opened := by
  rw [ocsStart, surplusStart]
  omega

theorem oddBit_toNat (value : Nat) : (decide (value % 2 = 1)).toNat = value % 2 := by
  rcases Nat.mod_two_eq_zero_or_one value with even | odd
  · simp [even]
  · simp [odd]

/-- The surplus area is located exactly when it holds the pad and the OCS. -/
theorem WellOpened.locate {opened : Opened} (well : WellOpened opened) :
    locateSurplus opened.ip opened.udp =
      if ocsStart opened + 2 ≤ opened.ipEnd then
        some ⟨surplusStart opened, decide (surplusStart opened % 2 = 1), opened.ipEnd - surplusStart opened⟩
      else none := by
  have room := well.room
  have stop := well.stop
  have natural := well.natural
  have start : surplusStart opened = opened.udpAt + opened.udp.length.toNat := rfl
  have offset := well.offset
  have inside : opened.udp.length.toNat ≤ opened.ip.transportPayloadLen := by omega
  unfold locateSurplus
  rw [checkedSub_of_le inside]
  dsimp only
  rw [natural, oddBit_toNat, show Length.ocs = 2 from rfl]
  have position : ocsStart opened = surplusStart opened + surplusStart opened % 2 := rfl
  by_cases fits : ocsStart opened + 2 ≤ opened.ipEnd
  · rw [if_pos fits, if_neg (by omega), if_neg (by omega),
      show opened.ip.transportPayloadLen - opened.udp.length.toNat = opened.ipEnd - surplusStart opened by omega]
  · rw [if_neg fits]
    split
    · rfl
    · rw [if_pos (by omega)]

theorem judgeSurplus_cases {opened : Opened} (well : WellOpened opened) :
    (judgeSurplus opened = .ok .absent ∧ opened.ipEnd < ocsStart opened + 2) ∨
    (∃ status, judgeSurplus opened = .ok (.untrusted status) ∧ (status = .failed ∨ status = .invalidZero) ∧
      ∀ other, ¬ Trusted opened other) ∨
    (∃ status layout, judgeSurplus opened = .ok (.trusted status layout (surplusBody opened)) ∧
      Trusted opened status ∧ layout.ocsAt = ocsStart opened) := by
  have length := well.length
  have word := well.word
  unfold judgeSurplus
  rw [well.locate]
  by_cases fits : ocsStart opened + 2 ≤ opened.ipEnd
  · have inside : surplusStart opened < opened.datagram.length := by
      rw [length]
      exact Nat.lt_of_le_of_lt (Nat.le_add_right _ _) (Nat.lt_of_lt_of_le (Nat.lt_add_of_pos_right (by decide)) fits)
    rw [if_pos fits]
    dsimp only
    rw [Checked.index_of_lt inside, Checked.ok_bind]
    unfold Ocs.checkPad
    by_cases wrong : decide (surplusStart opened % 2 = 1) = true ∧ opened.datagram[surplusStart opened] ≠ 0
    · rw [if_pos wrong]
      refine .inr (.inl ⟨_, rfl, .inl rfl, fun other trusted => wrong.2 ?_⟩)
      have zero := trusted.pad (of_decide_eq_true wrong.1)
      rw [List.getElem?_eq_getElem inside] at zero
      exact Option.some.inj zero
    rw [if_neg wrong]
    dsimp only
    have position : SurplusLayout.ocsAt ⟨surplusStart opened, decide (surplusStart opened % 2 = 1),
        opened.ipEnd - surplusStart opened⟩ = ocsStart opened :=
      congrArg (surplusStart opened + ·) (oddBit_toNat (surplusStart opened))
    have body : (opened.datagram.take opened.ipEnd).drop (ocsStart opened) = surplusBody opened := by
      rw [List.take_of_length_le (Nat.le_of_eq length)]
      rfl
    rw [position, Checked.slice_of_le (by omega) (Nat.le_of_eq length.symm), Checked.ok_bind, body,
      Checked.castU16_of_lt (by omega), Checked.ok_bind, ← ocsVerdict]
    have pad : surplusPad opened = 1 → opened.datagram[surplusStart opened]? = some 0 := by
      intro odd
      rw [List.getElem?_eq_getElem inside]
      by_contra nonzero
      exact wrong ⟨decide_eq_true odd, fun zero => nonzero (congrArg some zero)⟩
    cases verdict : ocsVerdict opened with
    | valid => exact .inr (.inr ⟨_, _, rfl, ⟨fits, pad, .inl ⟨rfl, verdict⟩⟩, position⟩)
    | unused => exact .inr (.inr ⟨_, _, rfl, ⟨fits, pad, .inr ⟨rfl, verdict⟩⟩, position⟩)
    | ignoreOptions =>
      refine .inr (.inl ⟨_, rfl, .inr rfl, fun other trusted => ?_⟩)
      rcases trusted.ocs with ⟨_, same⟩ | ⟨_, same⟩ <;> cases verdict.symm.trans same
    | error error =>
      refine .inr (.inl ⟨_, rfl, .inl rfl, fun other trusted => ?_⟩)
      rcases trusted.ocs with ⟨_, same⟩ | ⟨_, same⟩ <;> cases verdict.symm.trans same
  · rw [if_neg fits]
    exact .inl ⟨rfl, Nat.lt_of_not_le fits⟩

section
variable (crc32c : List UInt8 → UInt32)

/-- The parse of a trusted options area; FRAG offsets count from the UDP header. -/
def parsedArea (opened : Opened) : Except ParseError ParsedOptions :=
  parseArea crc32c (optionsArea opened) opened.userData (ocsStart opened + 2 - opened.udpAt)

/-- What is done with an accepted datagram, by the verdict on its surplus area. -/
inductive Disposed (opened : Opened) : Disposition → Prop where
  | plain {optionBearing : Bool} {status : OcsStatus} (untrusted : ∀ other, ¬ Trusted opened other) :
      Disposed opened (.deliver (deliverWithoutOptions opened.userData optionBearing status))
  | malformed {status : OcsStatus} {error : ParseError} (trusted : Trusted opened status)
      (parsing : parsedArea crc32c opened = .error error) :
      Disposed opened (.deliver (deliverWithoutOptions opened.userData true status))
  | parsed {status : OcsStatus} {parsed : ParsedOptions} (trusted : Trusted opened status)
      (parsing : parsedArea crc32c opened = .ok parsed) : Disposed opened (disposeParsed opened status parsed)

theorem Trusted.area_length {opened : Opened} {status : OcsStatus} (trusted : Trusted opened status)
    (well : WellOpened opened) : ocsStart opened + 2 + (optionsArea opened).length = opened.ipEnd := by
  have room := trusted.room
  rw [optionsArea, surplusBody, List.drop_drop, List.length_drop, well.length]
  omega

private theorem disposeOpened_total {opened : Opened} (well : WellOpened opened) :
    ∃ disposition, disposeOpened crc32c opened = .ok disposition ∧ Disposed crc32c opened disposition := by
  unfold disposeOpened
  rcases judgeSurplus_cases well with ⟨judged, small⟩ | ⟨status, judged, _, untrusted⟩ |
    ⟨status, layout, judged, trusted, position⟩
  · rw [judged]
    refine ⟨_, rfl, .plain fun other trusted => ?_⟩
    exact absurd trusted.room (Nat.not_le.mpr small)
  · rw [judged]
    exact ⟨_, rfl, .plain untrusted⟩
  · have length := trusted.area_length well
    have body : 2 ≤ (surplusBody opened).length := by
      have room := trusted.room
      rw [surplusBody, List.length_drop, well.length]
      omega
    have above : opened.udpAt ≤ ocsStart opened + 2 := Nat.le_trans (udpAt_le_ocsStart opened) (Nat.le_add_right _ _)
    rw [judged, Checked.ok_bind]
    dsimp only
    rw [position, show Length.ocs = 2 from rfl, Checked.sub_of_le above, Checked.ok_bind,
      Checked.slice_of_le body (Nat.le_refl _), Checked.ok_bind, List.take_length, ← optionsArea, parseOptions_eq,
      Checked.ok_bind, ← parsedArea]
    cases parsing : parsedArea crc32c opened with
    | error error => exact ⟨_, rfl, .malformed trusted parsing⟩
    | ok parsed => exact ⟨_, rfl, .parsed trusted parsing⟩

variable {crc32c}

/-- A datagram treated as a fragment has no user data, and its first FRAG places
the fragment data inside the datagram. -/
structure Fragmentary (opened : Opened) (frag : Frag) (status : OcsStatus) : Prop where
  empty : opened.userData = []
  trusted : Trusted opened status
  first : ∃ option, scanFrag (itemsOf (optionsArea opened)) = some option ∧ Frag.decode option.value = .ok frag

private theorem parsed_frag {opened : Opened} {parsed : ParsedOptions} {frag : Frag} (empty : opened.userData = [])
    (parsing : parsedArea crc32c opened = .ok parsed) (reported : parsed.frag = some frag) :
    (∃ option, scanFrag (itemsOf (optionsArea opened)) = some option ∧ Frag.decode option.value = .ok frag) ∧
    (parsed.fragmentFailed = false → ∃ stop, stop ≤ (optionsArea opened).length ∧
      frag.fragStart.toNat = ocsStart opened + 2 - opened.udpAt + stop) := by
  rw [parsedArea, empty] at parsing
  exact parseArea_frag parsing reported

theorem disposeParsed_cases {opened : Opened} (status : OcsStatus) {parsed : ParsedOptions}
    (parsing : parsedArea crc32c opened = .ok parsed) :
    (∃ payload, disposeParsed opened status parsed = .deliver payload) ∨
    (∃ frag, disposeParsed opened status parsed = .fail (some (fragKey opened.ip opened.udp frag)) ∧
      parsed.frag = some frag ∧ opened.userData = []) ∨
    (∃ frag, disposeParsed opened status parsed = .fragment frag (some (fragKey opened.ip opened.udp frag))
        parsed.options parsed.reports status ∧
      parsed.frag = some frag ∧ opened.userData = [] ∧ parsed.fragmentFailed = false) := by
  unfold disposeParsed
  cases held : parsed.frag with
  | none =>
    have sound : parsed.fragmentFailed = false := by
      by_contra failed
      have present := (parseArea_failed parsing (Bool.eq_true_of_not_eq_false failed)).1
      rw [held] at present
      cases present
    by_cases dangerous : parsed.unsupportedUnsafeSeen = true
    · exact .inl (by simp [sound, dangerous])
    · exact .inl (by simp [sound, dangerous])
  | some frag =>
    by_cases empty : opened.userData = []
    · by_cases failing : parsed.fragmentFailed = true ∨ parsed.unsupportedUnsafeSeen = true
      · exact .inr (.inl ⟨frag, by simp [empty, failing], rfl, empty⟩)
      · simp only [not_or, Bool.not_eq_true] at failing
        exact .inr (.inr ⟨frag, by simp [empty, failing, Option.filter_some], rfl, empty, failing.1⟩)
    · exact .inl (by simp [empty])

/-- A failed datagram names the key of its first FRAG. -/
theorem Disposed.fail {opened : Opened} {key : Option FragKey} (disposed : Disposed crc32c opened (.fail key)) :
    ∃ frag status, Fragmentary opened frag status ∧ key = some (fragKey opened.ip opened.udp frag) := by
  generalize target : Disposition.fail key = disposition at disposed
  cases disposed with
  | plain => cases target
  | malformed => cases target
  | @parsed status parsed trusted parsing =>
    rcases disposeParsed_cases status parsing with ⟨payload, same⟩ | ⟨frag, same, reported, empty⟩ | ⟨frag, same, _⟩
    · cases target.trans same
    · cases target.trans same
      exact ⟨frag, status, ⟨empty, trusted, (parsed_frag empty parsing reported).1⟩, rfl⟩
    · cases target.trans same

/-- A fragment to insert has a key, and its data range lies in the datagram. -/
theorem Disposed.fragment {opened : Opened} {frag : Frag} {key : Option FragKey} {options : List RawOption}
    {reports : List OptionReport} {status : OcsStatus} (well : WellOpened opened)
    (disposed : Disposed crc32c opened (.fragment frag key options reports status)) :
    Fragmentary opened frag status ∧ key = some (fragKey opened.ip opened.udp frag) ∧
      opened.udpAt + frag.fragStart.toNat ≤ opened.ipEnd := by
  generalize target : Disposition.fragment frag key options reports status = disposition at disposed
  cases disposed with
  | plain => cases target
  | malformed => cases target
  | @parsed status parsed trusted parsing =>
    rcases disposeParsed_cases status parsing with ⟨payload, same⟩ | ⟨_, same, _⟩ |
      ⟨frag, same, reported, empty, sound⟩
    · cases target.trans same
    · cases target.trans same
    · cases target.trans same
      obtain ⟨first, placed⟩ := parsed_frag empty parsing reported
      obtain ⟨stop, inside, starts⟩ := placed sound
      have length := trusted.area_length well
      have above := udpAt_le_ocsStart opened
      exact ⟨⟨empty, trusted, first⟩, rfl, by omega⟩

/-- The data a fragment contributes: everything from Frag.Start on. -/
def fragmentData (opened : Opened) (frag : Frag) : List UInt8 :=
  opened.datagram.drop (opened.udpAt + frag.fragStart.toNat)

def insertionOf (opened : Opened) (frag : Frag) (options : List RawOption) (reports : List OptionReport)
    (status : OcsStatus) (now : Nat) : Insertion where
  key := fragKey opened.ip opened.udp frag
  frag := frag
  data := fragmentData opened frag
  processing := ⟨options, fragmentOptionFailures reports, some (status = .valid)⟩
  now := now

def Rebuildable (reassembled : Reassembled) : Prop :=
  8 ≤ reassembled.udpLength.toNat ∧ reassembled.udpLength.toNat - 8 ≤ reassembled.tail.length ∧
    28 + reassembled.tail.length < 2 ^ 16

instance (reassembled : Reassembled) : Decidable (Rebuildable reassembled) :=
  inferInstanceAs (Decidable (_ ∧ _ ∧ _))

def rebuiltUdp (udp : UdpHeader) (reassembled : Reassembled) : UdpHeader :=
  ⟨udp.srcPort, udp.dstPort, reassembled.udpLength, 0⟩

def rebuiltOpened (opened : Opened) (reassembled : Reassembled) : Opened :=
  writtenOpened opened.ip.src opened.ip.dst (rebuiltUdp opened.udp reassembled) reassembled.tail

variable (crc32c)

def dispositionOf (opened : Opened) : Disposition :=
  match disposeOpened crc32c opened with
  | .ok disposition => disposition
  | .error _ => .fail none

def refed (disposition : Disposition) (cache : ReassemblyCache) : Delivery × ReassemblyCache :=
  match disposition with
  | .deliver payload => (.payload payload, cache)
  | .fail none => (.dropped, cache)
  | .fail (some key) => (.dropped, cache.discard key)
  | .fragment .. => (.dropped, cache)

def handOn (opened : Opened) (reassembled : Reassembled) (cache : ReassemblyCache) : Delivery × ReassemblyCache :=
  if Rebuildable reassembled then
    match refed (dispositionOf crc32c (rebuiltOpened opened reassembled)) cache with
    | (.payload payload, cache) => (.payload (mergeReassembled reassembled payload), cache)
    | other => other
  else (.dropped, cache)

def handled (opened : Opened) (cache : ReassemblyCache) (now : Nat) : Delivery × ReassemblyCache :=
  match dispositionOf crc32c opened with
  | .deliver payload => (.payload payload, cache)
  | .fail none => (.dropped, cache)
  | .fail (some key) => (.dropped, cache.discard key)
  | .fragment frag _ options reports status =>
    let insertion := insertionOf opened frag options reports status now
    match (insertion.fed cache).1 with
    | .incomplete => (.buffered, insertion.after cache)
    | .abort _ => (.dropped, insertion.after cache)
    | .complete reassembled => handOn crc32c opened reassembled (insertion.after cache)

theorem disposeOpened_eq {opened : Opened} (well : WellOpened opened) :
    disposeOpened crc32c opened = .ok (dispositionOf crc32c opened) ∧
      Disposed crc32c opened (dispositionOf crc32c opened) := by
  obtain ⟨disposition, disposing, disposed⟩ := disposeOpened_total crc32c well
  rw [dispositionOf, disposing]
  exact ⟨rfl, disposed⟩

theorem Trusted.unique {opened : Opened} {first second : OcsStatus} (one : Trusted opened first)
    (two : Trusted opened second) : first = second := by
  rcases one.ocs with ⟨rfl, verdict⟩ | ⟨rfl, verdict⟩ <;> rcases two.ocs with ⟨rfl, again⟩ | ⟨rfl, again⟩
  · rfl
  · cases verdict.symm.trans again
  · cases verdict.symm.trans again
  · rfl

theorem dispositionOf_absent {opened : Opened} (well : WellOpened opened) (small : opened.ipEnd < ocsStart opened + 2) :
    dispositionOf crc32c opened = .deliver (deliverWithoutOptions opened.userData false .absent) := by
  have judged : judgeSurplus opened = .ok .absent := by
    rw [judgeSurplus, well.locate, if_neg (Nat.not_le.mpr small)]
    rfl
  rw [dispositionOf, disposeOpened, judged]
  rfl

theorem dispositionOf_untrusted {opened : Opened} (well : WellOpened opened)
    (room : ocsStart opened + 2 ≤ opened.ipEnd) (untrusted : ∀ status, ¬ Trusted opened status) :
    ∃ status, (status = .failed ∨ status = .invalidZero) ∧
      dispositionOf crc32c opened = .deliver (deliverWithoutOptions opened.userData true status) := by
  rcases judgeSurplus_cases well with ⟨_, small⟩ | ⟨status, judged, failed, _⟩ | ⟨status, _, _, trusted, _⟩
  · exact absurd room (Nat.not_le.mpr small)
  · refine ⟨status, failed, ?_⟩
    rw [dispositionOf, disposeOpened, judged]
    rfl
  · exact absurd trusted (untrusted status)

theorem dispositionOf_trusted {opened : Opened} {status : OcsStatus} (well : WellOpened opened)
    (trusted : Trusted opened status) :
    dispositionOf crc32c opened =
      match parsedArea crc32c opened with
      | .error _ => .deliver (deliverWithoutOptions opened.userData true status)
      | .ok parsed => disposeParsed opened status parsed := by
  have disposed := (disposeOpened_eq crc32c well).2
  generalize dispositionOf crc32c opened = disposition at disposed
  cases disposed with
  | plain untrusted => exact absurd trusted (untrusted status)
  | malformed other parsing => rw [parsing, other.unique trusted]
  | parsed other parsing => rw [parsing, other.unique trusted]

theorem examine_opened {bytes : List UInt8} {opened : Opened} (opening : openDatagram bytes = .ok (.ok opened))
    (well : WellOpened opened) :
    examine crc32c bytes = .ok (.ok (opened, dispositionOf crc32c opened)) := by
  rw [examine, opening, Checked.ok_bind]
  simp only [(disposeOpened_eq crc32c well).1, Checked.ok_bind, Checked.pure_eq]

/-- With reassembly disallowed one level of the recursion is enough. -/
theorem processInner_refed {bytes : List UInt8} {opened : Opened} (opening : openDatagram bytes = .ok (.ok opened))
    (well : WellOpened opened) (depth : Nat) (cache : ReassemblyCache) (now : Nat) :
    processDatagramInner crc32c (depth + 1) bytes cache now false =
      .ok (.ok (refed (dispositionOf crc32c opened) cache).1, (refed (dispositionOf crc32c opened) cache).2) := by
  rw [processDatagramInner, examine_opened crc32c opening well, Checked.ok_bind]
  cases dispositionOf crc32c opened with
  | deliver payload => rfl
  | fail key => cases key <;> rfl
  | fragment => rfl

theorem openDatagram_well {bytes : List UInt8} {opened : Opened} (opening : openDatagram bytes = .ok (.ok opened)) :
    WellOpened opened ∧ ChecksumHolds opened := by
  rcases openDatagram_total bytes with ⟨error, failed, _⟩ | ⟨other, succeeded, well, checked⟩
  · cases opening.symm.trans failed
  · cases opening.symm.trans succeeded
    exact ⟨well, checked⟩

theorem reassembled_rebuilt (opened : Opened) (reassembled : Reassembled) :
    reassembledDatagram opened.ip opened.udp reassembled.udpLength reassembled.tail =
      .ok (if Rebuildable reassembled then
        some (datagramBytes opened.ip.src opened.ip.dst (rebuiltUdp opened.udp reassembled) reassembled.tail)
      else none) :=
  reassembledDatagram_eq opened.ip opened.udp reassembled.udpLength reassembled.tail

theorem open_rebuilt (opened : Opened) {reassembled : Reassembled} (fits : Rebuildable reassembled) :
    openDatagram (datagramBytes opened.ip.src opened.ip.dst (rebuiltUdp opened.udp reassembled) reassembled.tail) =
      .ok (.ok (rebuiltOpened opened reassembled)) := by
  obtain ⟨proper, inside, small⟩ := fits
  exact open_datagramBytes small proper (by show reassembled.udpLength.toNat ≤ _; omega) (.inl rfl)

theorem slice_fragmentData {opened : Opened} {frag : Frag} (well : WellOpened opened)
    (inside : opened.udpAt + frag.fragStart.toNat ≤ opened.ipEnd) :
    Checked.slice? opened.datagram (opened.udpAt + frag.fragStart.toNat) opened.ipEnd =
      some (fragmentData opened frag) := by
  rw [Checked.slice?_of_le inside (Nat.le_of_eq well.length.symm), List.take_of_length_le (Nat.le_of_eq well.length)]
  rfl

theorem processDatagram_opened {bytes : List UInt8} {opened : Opened}
    (opening : openDatagram bytes = .ok (.ok opened)) (cache : ReassemblyCache) (now : Nat) :
    processDatagram crc32c bytes cache now =
      .ok (.ok (handled crc32c opened cache now).1, (handled crc32c opened cache now).2) := by
  obtain ⟨well, _⟩ := openDatagram_well opening
  have disposed := (disposeOpened_eq crc32c well).2
  rw [processDatagram, processDatagramInner, examine_opened crc32c opening well, Checked.ok_bind, handled]
  generalize dispositionOf crc32c opened = disposition at disposed
  cases disposition with
  | deliver payload => rfl
  | fail key => cases key <;> rfl
  | fragment frag key options reports status =>
    obtain ⟨_, rfl, inside⟩ := disposed.fragment well
    simp only [Bool.not_true, Bool.false_eq_true, if_false, Checked.expect, Checked.ok_bind,
      slice_fragmentData well inside, insertWithOptionsAndFailures_eq]
    generalize inserted : insertionOf opened frag options reports status now = insertion
    have outcome : (feedCell cache.limits (atCap (cache.gc now)) ((cache.gc now).partials.lookup
        (fragKey opened.ip opened.udp frag)) frag (fragmentData opened frag)
        ⟨options, fragmentOptionFailures reports, some (decide (status = .valid))⟩ now) = insertion.fed cache := by
      rw [← inserted]
      rfl
    have after : putCell (cache.gc now) (fragKey opened.ip opened.udp frag) (insertion.fed cache).2 =
        insertion.after cache := by
      rw [← inserted]
      rfl
    rw [outcome, after]
    cases (insertion.fed cache).1 with
    | incomplete => rfl
    | abort reason => rfl
    | complete reassembled =>
      simp only [reassembled_rebuilt, Checked.ok_bind, handOn]
      by_cases fits : Rebuildable reassembled
      · simp only [if_pos fits, processInner_refed crc32c (open_rebuilt opened fits)
          (openDatagram_well (open_rebuilt opened fits)).1, Checked.ok_bind]
        rcases refed (dispositionOf crc32c (rebuiltOpened opened reassembled)) (insertion.after cache) with
          ⟨delivery, final⟩
        cases delivery <;> rfl
      · simp only [if_neg fits]
        rfl

theorem processDatagram_refused {bytes : List UInt8} {error : RecvError}
    (opening : openDatagram bytes = .ok (.error error)) (cache : ReassemblyCache) (now : Nat) :
    processDatagram crc32c bytes cache now = .ok (.error error, cache) := by
  rw [processDatagram, processDatagramInner, examine, opening]
  rfl

/-- After a completion the re-feed leaves the cache alone or discards one key. -/
theorem handOn_cache (opened : Opened) (reassembled : Reassembled) (cache : ReassemblyCache) :
    (handOn crc32c opened reassembled cache).2 = cache ∨
    ∃ key, Rebuildable reassembled ∧
      dispositionOf crc32c (rebuiltOpened opened reassembled) = .fail (some key) ∧
      (handOn crc32c opened reassembled cache).2 = putCell cache key none := by
  rw [handOn]
  split
  next fits =>
    cases dispositionOf crc32c (rebuiltOpened opened reassembled) with
    | deliver payload => exact .inl rfl
    | fail key =>
      cases key with
      | none => exact .inl rfl
      | some key => exact .inr ⟨key, fits, rfl, rfl⟩
    | fragment => exact .inl rfl
  · exact .inl rfl

variable {crc32c}

theorem examine_ok {bytes : List UInt8} {opened : Opened} {disposition : Disposition}
    (examined : examine crc32c bytes = .ok (.ok (opened, disposition))) :
    openDatagram bytes = .ok (.ok opened) ∧ dispositionOf crc32c opened = disposition := by
  rcases openDatagram_total bytes with ⟨error, opening, _⟩ | ⟨other, opening, well, _⟩
  · rw [examine, opening] at examined
    cases examined
  · rw [examine_opened crc32c opening well] at examined
    cases examined
    exact ⟨opening, rfl⟩

theorem insertion_made {bytes data : List UInt8} {opened : Opened} {frag : Frag} {key : FragKey}
    {options : List RawOption} {reports : List OptionReport} {status : OcsStatus} {cache after : ReassemblyCache}
    {now : Nat} {outcome : ReassemblyOutcome}
    (examined : examine crc32c bytes = .ok (.ok (opened, .fragment frag (some key) options reports status)))
    (sliced : Checked.slice? opened.datagram (opened.udpAt + frag.fragStart.toNat) opened.ipEnd = some data)
    (inserted : cache.insertWithOptionsAndFailures key frag data
      ⟨options, fragmentOptionFailures reports, some (status = .valid)⟩ now = .ok (outcome, after)) :
    openDatagram bytes = .ok (.ok opened) ∧
      dispositionOf crc32c opened = .fragment frag (some key) options reports status ∧ Fragmentary opened frag status ∧
      key = fragKey opened.ip opened.udp frag ∧ data = fragmentData opened frag ∧
      ((insertionOf opened frag options reports status now).fed cache).1 = outcome ∧
      (insertionOf opened frag options reports status now).after cache = after := by
  obtain ⟨opening, disposition⟩ := examine_ok examined
  obtain ⟨well, _⟩ := openDatagram_well opening
  have disposed := (disposeOpened_eq crc32c well).2
  rw [disposition] at disposed
  obtain ⟨fragmentary, sameKey, inside⟩ := disposed.fragment well
  obtain rfl := Option.some.inj sameKey
  rw [slice_fragmentData well inside] at sliced
  obtain rfl := Option.some.inj sliced
  rw [insertWithOptionsAndFailures_eq] at inserted
  have results := Except.ok.inj inserted
  exact ⟨opening, disposition, fragmentary, rfl, rfl, congrArg Prod.fst results, congrArg Prod.snd results⟩

variable (crc32c)

/-- One call of the pipeline as a step of a run: the datagram and its instant. -/
def receive (arrival : List UInt8 × Nat) (cache : ReassemblyCache) :
    Checked (Except RecvError Delivery × ReassemblyCache) := processDatagram crc32c arrival.1 cache arrival.2

/-- What an accepted datagram can do: the result of the call and the final cache. -/
inductive Handling (opened : Opened) (cache : ReassemblyCache) (now : Nat) : Delivery → ReassemblyCache → Prop where
  | delivered {payload : Payload} (disposed : dispositionOf crc32c opened = .deliver payload) :
      Handling opened cache now (.payload payload) cache
  | failed {frag : Frag} {status : OcsStatus} (fragmentary : Fragmentary opened frag status)
      (disposed : dispositionOf crc32c opened = .fail (some (fragKey opened.ip opened.udp frag))) :
      Handling opened cache now .dropped (cache.discard (fragKey opened.ip opened.udp frag))
  | buffered {frag : Frag} {options : List RawOption} {reports : List OptionReport} {status : OcsStatus}
      (fragmentary : Fragmentary opened frag status)
      (disposed : dispositionOf crc32c opened =
        .fragment frag (some (fragKey opened.ip opened.udp frag)) options reports status)
      (outcome : ((insertionOf opened frag options reports status now).fed cache).1 = .incomplete) :
      Handling opened cache now .buffered ((insertionOf opened frag options reports status now).after cache)
  | aborted {frag : Frag} {options : List RawOption} {reports : List OptionReport} {status : OcsStatus}
      {reason : AbortReason} (fragmentary : Fragmentary opened frag status)
      (disposed : dispositionOf crc32c opened =
        .fragment frag (some (fragKey opened.ip opened.udp frag)) options reports status)
      (outcome : ((insertionOf opened frag options reports status now).fed cache).1 = .abort reason) :
      Handling opened cache now .dropped ((insertionOf opened frag options reports status now).after cache)
  | completed {frag : Frag} {options : List RawOption} {reports : List OptionReport} {status : OcsStatus}
      {reassembled : Reassembled} (fragmentary : Fragmentary opened frag status)
      (disposed : dispositionOf crc32c opened =
        .fragment frag (some (fragKey opened.ip opened.udp frag)) options reports status)
      (outcome : ((insertionOf opened frag options reports status now).fed cache).1 = .complete reassembled) :
      Handling opened cache now
        (handOn crc32c opened reassembled ((insertionOf opened frag options reports status now).after cache)).1
        (handOn crc32c opened reassembled ((insertionOf opened frag options reports status now).after cache)).2

private theorem handled_handling {opened : Opened} (well : WellOpened opened) (cache : ReassemblyCache) (now : Nat) :
    Handling crc32c opened cache now (handled crc32c opened cache now).1 (handled crc32c opened cache now).2 := by
  have disposed := (disposeOpened_eq crc32c well).2
  rw [handled]
  cases same : dispositionOf crc32c opened with
  | deliver payload => exact .delivered same
  | fail key =>
    rw [same] at disposed
    obtain ⟨frag, status, fragmentary, rfl⟩ := disposed.fail
    exact .failed fragmentary same
  | fragment frag key options reports status =>
    rw [same] at disposed
    obtain ⟨fragmentary, rfl, _⟩ := disposed.fragment well
    dsimp only
    cases outcome : ((insertionOf opened frag options reports status now).fed cache).1 with
    | incomplete => exact .buffered fragmentary same outcome
    | abort reason => exact .aborted fragmentary same outcome
    | complete reassembled => exact .completed fragmentary same outcome

/-- Every call refuses the datagram or handles it. -/
theorem processDatagram_cases (bytes : List UInt8) (cache : ReassemblyCache) (now : Nat) :
    (∃ error, openDatagram bytes = .ok (.error error) ∧
      processDatagram crc32c bytes cache now = .ok (.error error, cache)) ∨
    (∃ opened delivery final, openDatagram bytes = .ok (.ok opened) ∧
      processDatagram crc32c bytes cache now = .ok (.ok delivery, final) ∧
      Handling crc32c opened cache now delivery final) := by
  rcases openDatagram_total bytes with ⟨error, opening, _⟩ | ⟨opened, opening, well, _⟩
  · exact .inl ⟨error, opening, processDatagram_refused crc32c opening cache now⟩
  · exact .inr ⟨opened, _, _, opening, processDatagram_opened crc32c opening cache now,
      handled_handling crc32c well cache now⟩

end

end UdpOptions.Proofs
