import UdpOptions.Proofs.Duplicates
import UdpOptions.Proofs.ReassembledDelivery

/-! A required OCS. The flag a partial keeps of its OCS observations is lost for good
with the first fragment that does not come through the pipeline, and a reassembly
without it is reported as unobserved. What is received under a policy that requires
an OCS therefore rests on checked surplus areas only. -/

namespace UdpOptions.Proofs
open Library Model

section
variable {crc32c : List UInt8 → UInt32}

private theorem deliver_status {opened : Opened} {payload : Payload} (well : WellOpened opened)
    (disposed : dispositionOf crc32c opened = .deliver payload) :
    ∃ status, payload.ocsReports = [⟨status, .datagram⟩] ∧
      (Trusted opened status ∨ (status = .absent ∧ locateSurplus opened.ip opened.udp = none) ∨
        status = .failed ∨ status = .invalidZero) := by
  by_cases room : ocsStart opened + 2 ≤ opened.ipEnd
  · by_cases judged : ∃ status, Trusted opened status
    · obtain ⟨status, trusted⟩ := judged
      rw [dispositionOf_trusted crc32c well trusted] at disposed
      split at disposed
      · cases disposed
        exact ⟨status, rfl, .inl trusted⟩
      · exact ⟨status, (disposeParsed_shape disposed).1, .inl trusted⟩
    · obtain ⟨status, failed, same⟩ := dispositionOf_untrusted crc32c well room (not_exists.mp judged)
      cases same.symm.trans disposed
      exact ⟨status, rfl, .inr (.inr failed)⟩
  · rw [dispositionOf_absent crc32c well (Nat.lt_of_not_le room)] at disposed
    cases disposed
    refine ⟨.absent, rfl, .inr (.inl ⟨rfl, ?_⟩)⟩
    rw [well.locate, if_neg room]

private theorem ocsRequirementSatisfied_iff {reports : List OcsReport} :
    Api.ocsRequirementSatisfied reports = true ↔
      (∀ report ∈ reports, report.status ≠ .failed ∧ report.status ≠ .invalidZero ∧ report.status ≠ .unobserved) ∧
        ∃ report ∈ reports, report.status = .valid ∨ report.status = .unused := by
  simp [Api.ocsRequirementSatisfied]

theorem Grows.unobserved {limits : ReassemblyLimits} {held later : Partial} (grows : Grows limits held later)
    (missing : held.fragmentOcsNonzero = none) : later.fragmentOcsNonzero = none := by
  cases grows with
  | same => exact missing
  | observed ocsNonzero =>
    rw [observeFragmentOcs_eq, missing]
    rfl
  | accepted accepted =>
    rw [accepted.observed, missing]
    rfl

private theorem ocsMerged_none (merged : Option Bool) : ocsMerged merged none = none := by
  cases merged <;> rfl

private theorem fed_unobserved {cache : ReassemblyCache} {insertion : Insertion} {held : Partial}
    (valid : CacheValid cache)
    (silent : insertion.processing.ocsNonzero = none) (left : (insertion.fed cache).2 = some held) :
    held.fragmentOcsNonzero = none := by
  have step := valid.cellFed insertion
  generalize insertion.fed cache = fed at step left
  cases step with
  | aborted => cases left
  | finished => cases left
  | again =>
    cases left
    rw [observeFragmentOcs_eq, silent]
    exact ocsMerged_none _
  | pending _ _ accepted =>
    cases left
    rw [accepted.observed, silent]
    exact ocsMerged_none _

private theorem complete_unobserved {cache : ReassemblyCache} {insertion : Insertion} {held : Partial}
    {reassembled : Reassembled} (valid : CacheValid cache) (present : cache.partials.lookup insertion.key = some held)
    (young : held.isExpired insertion.now cache.limits.timeout = false) (missing : held.fragmentOcsNonzero = none)
    (outcome : (insertion.fed cache).1 = .complete reassembled) : reassembled.fragmentOcsNonzero = none := by
  have step := valid.cellFed insertion
  rw [lookup_gc, present, Option.filter_some, young] at step
  generalize insertion.fed cache = fed at step outcome
  cases step with
  | aborted => cases outcome
  | again => cases outcome
  | pending => cases outcome
  | finished _ accepted =>
    cases outcome
    exact Grows.unobserved (.accepted accepted) missing

end

/-- The calls a user of the cache can make; the insertion that takes failures and an
OCS observation is internal. -/
def CacheEvent.Public : CacheEvent → Prop
  | .operate (.insert ..) | .operate (.insertWithOptions ..) | .operate (.discard _) | .operate (.gc _) => True
  | .operate (.insertWithOptionsAndFailures ..) => False
  | .receive .. | .decode .. => True

/-- A call of the pipeline, with a datagram whose surplus area has a zero pad and an
acceptable OCS. -/
structure PipelineChecked (event : CacheEvent) : Prop where
  checked : ∃ bytes now opened status,
    (event = .receive bytes now ∨ ∃ policy, event = .decode bytes policy now) ∧
      openDatagram bytes = .ok (.ok opened) ∧ Trusted opened status

section
variable (crc32c : List UInt8 → UInt32)

abbrev runEvents : List CacheEvent → ReassemblyCache → Checked (List EventResult × ReassemblyCache) :=
  run (CacheEvent.apply crc32c)

/-- A call of the run inserted under the key and left a partial there, which has been
in its place ever since and is not expired at the instant. -/
structure Contributes (limits : ReassemblyLimits) (events : List CacheEvent) (key : FragKey) (now : Nat)
    (event : CacheEvent) : Prop where
  made : ∃ before since results result start middle last insertion held current,
    events = before ++ event :: since ∧ runEvents crc32c before (.withLimits limits) = .ok (results, start) ∧
      event.apply crc32c start = .ok (result, middle) ∧ event.insertion? crc32c = some insertion ∧
      insertion.key = key ∧ middle.partials.lookup key = some held ∧ Lives crc32c key since middle last ∧
      last.partials.lookup key = some current ∧ current.isExpired now limits.timeout = false

variable {crc32c}

theorem runEvents_valid {limits : ReassemblyLimits} {events : List CacheEvent} {results : List EventResult}
    {cache : ReassemblyCache} (ran : runEvents crc32c events (.withLimits limits) = .ok (results, cache)) :
    CacheValid cache ∧ cache.limits = limits := by
  refine run_invariant (fun cache => CacheValid cache ∧ cache.limits = limits) ?_ ran ⟨cacheValid_empty limits, rfl⟩
  intro event before result after applied kept
  obtain ⟨valid, same⟩ := (CacheEvent.effect applied).valid kept.1
  exact ⟨valid, same.trans kept.2⟩

theorem Lives.run {key : FragKey} {events : List CacheEvent} {cache last : ReassemblyCache}
    (lives : Lives crc32c key events cache last) : ∃ results, runEvents crc32c events cache = .ok (results, last) := by
  induction events generalizing cache with
  | nil =>
    cases lives
    exact ⟨[], rfl⟩
  | cons event rest ih =>
    obtain ⟨result, after, applied, _, lives⟩ := lives
    obtain ⟨results, ran⟩ := ih lives
    exact ⟨result :: results, run_cons_eq_ok.mpr ⟨result, after, results, applied, ran, rfl⟩⟩

/-- A public call inserts a checked fragment or brings no OCS observation. -/
theorem CacheEvent.Public.insertion {event : CacheEvent} {insertion : Insertion} (callable : event.Public)
    (made : event.insertion? crc32c = some insertion) :
    PipelineChecked event ∨ insertion.processing.ocsNonzero = none := by
  have piped : ∀ {bytes now}, datagramInsertion crc32c bytes now = some insertion →
      (event = .receive bytes now ∨ ∃ policy, event = .decode bytes policy now) → PipelineChecked event := by
    intro bytes now through shape
    obtain ⟨opened, frag, status, opening, fragmentary, _⟩ := datagramInsertion_fragmentary through
    exact ⟨bytes, now, opened, status, shape, opening, fragmentary.trusted⟩
  cases event with
  | operate op =>
    cases op with
    | insert | insertWithOptions =>
      cases made
      exact .inr rfl
    | insertWithOptionsAndFailures => cases callable
    | discard | gc => cases made
  | receive datagram now => exact .inl (piped made (.inl rfl))
  | decode datagram policy now =>
    rw [CacheEvent.insertion?] at made
    split at made
    · cases made
    · exact .inl (piped made (.inr ⟨policy, rfl⟩))

/-- What contributed to a reassembly that kept the flag came through the pipeline. -/
theorem Contributes.checked {limits : ReassemblyLimits} {events : List CacheEvent} {results : List EventResult}
    {cache : ReassemblyCache} {event : CacheEvent} {insertion : Insertion} {reassembled : Reassembled}
    (contributes : Contributes crc32c limits events insertion.key insertion.now event)
    (callable : ∀ event ∈ events, event.Public)
    (ran : runEvents crc32c events (.withLimits limits) = .ok (results, cache))
    (outcome : (insertion.fed cache).1 = .complete reassembled) (observed : reassembled.fragmentOcsNonzero ≠ none) :
    PipelineChecked event := by
  obtain ⟨before, since, _, result, start, middle, last, made, held, current, rfl, began, applied, inserted, same, left,
    lives, present, young⟩ := contributes.made
  obtain ⟨startValid, limited⟩ := runEvents_valid began
  have effect := CacheEvent.effect applied
  obtain ⟨middleValid, kept⟩ := effect.valid startValid
  obtain rfl : last = cache := by
    obtain ⟨others, continued⟩ := lives.run
    simp only [run_append, began, Checked.ok_bind, run, applied, continued] at ran
    cases ran
    rfl
  have member : event ∈ before ++ event :: since := List.mem_append_right _ List.mem_cons_self
  rcases (callable event member).insertion inserted with checked | silent
  · exact checked
  · rw [← same] at left
    have missing := fed_unobserved startValid silent (effect.fed startValid inserted left)
    rw [same] at left
    obtain ⟨later, found, flagless, finalValid, final⟩ := lives.carries middleValid left
      (fun held => held.fragmentOcsNonzero = none) (fun _ _ grows => grows.unobserved) missing
    cases present.symm.trans found
    rw [← limited, ← kept, ← final] at young
    exact absurd (complete_unobserved finalValid present young flagless outcome) observed

private theorem deliver_required {opened : Opened} {payload : Payload} (well : WellOpened opened)
    (disposed : dispositionOf crc32c opened = .deliver payload)
    (satisfied : Api.ocsRequirementSatisfied payload.ocsReports = true) : ∃ status, Trusted opened status := by
  obtain ⟨status, only, judged⟩ := deliver_status well disposed
  rw [only, ocsRequirementSatisfied_iff] at satisfied
  obtain ⟨sound, confirmed⟩ := satisfied
  rcases judged with trusted | ⟨rfl, _⟩ | rfl | rfl
  · exact ⟨status, trusted⟩
  · simp at confirmed
  · simp at sound
  · simp at sound

private theorem handOn_required {opened : Opened} {reassembled : Reassembled} {cache : ReassemblyCache}
    {payload : Payload} (delivered : (handOn crc32c opened reassembled cache).1 = .payload payload)
    (satisfied : Api.ocsRequirementSatisfied payload.ocsReports = true) :
    reassembled.fragmentOcsNonzero ≠ none ∧ Rebuildable reassembled ∧
      (locateSurplus (rebuiltOpened opened reassembled).ip (rebuiltOpened opened reassembled).udp ≠ none →
        ∃ status, Trusted (rebuiltOpened opened reassembled) status) := by
  unfold handOn at delivered
  split at delivered
  next fits =>
    obtain ⟨well, _⟩ := openDatagram_well (open_rebuilt opened fits)
    cases disposed : dispositionOf crc32c (rebuiltOpened opened reassembled) with
    | deliver inner =>
      rw [disposed] at delivered
      cases delivered
      obtain ⟨status, only, judged⟩ := deliver_status well disposed
      rw [ocsRequirementSatisfied_iff] at satisfied
      simp only [mergeReassembled, only, List.mem_cons, List.not_mem_nil, or_false, forall_eq_or_imp, forall_eq]
        at satisfied
      obtain ⟨⟨⟨_, _, observed⟩, own⟩, _⟩ := satisfied
      refine ⟨fun missing => ?_, fits, fun usable => ?_⟩
      · rw [missing] at observed
        exact observed rfl
      · rcases judged with trusted | ⟨_, absent⟩ | failed | zero
        · exact ⟨status, trusted⟩
        · exact absurd absent usable
        · exact absurd failed own.1
        · exact absurd zero own.2.1
    | fail key =>
      rw [disposed] at delivered
      cases key <;> cases delivered
    | fragment =>
      rw [disposed] at delivered
      cases delivered
  next => cases delivered

/-- Under a policy that requires an OCS, a received datagram has a usable surplus area
with a zero pad and an acceptable OCS. If it completes a reassembly, so has every
datagram that contributed to it, and so has the rebuilt datagram if its surplus area
is usable. -/
theorem required_ocs_checked {limits : ReassemblyLimits} {events : List CacheEvent} {results : List EventResult}
    {cache final : ReassemblyCache} {bytes : List UInt8} {now : Nat} {policy : Api.ReceivePolicy}
    {received : Api.ReceivedDatagram} (callable : ∀ event ∈ events, event.Public)
    (ran : runEvents crc32c events (.withLimits limits) = .ok (results, cache)) (required : policy.ocsRequired = true)
    (decoded : Api.decodeDatagram crc32c bytes cache now policy = .ok (.ok (.received received), final)) :
    ∃ opened status, openDatagram bytes = .ok (.ok opened) ∧ Trusted opened status ∧
      ∀ frag key data reassembled after,
        Inserts crc32c (bytes, now) cache opened frag key data (.complete reassembled) after →
        (∀ event, Contributes crc32c limits events key now event → PipelineChecked event) ∧
        ∃ rebuilt inner,
          reassembledDatagram opened.ip opened.udp reassembled.udpLength reassembled.tail = .ok (some rebuilt) ∧
          openDatagram rebuilt = .ok (.ok inner) ∧
          (locateSurplus inner.ip inner.udp ≠ none → ∃ status, Trusted inner status) := by
  obtain ⟨payload, processed, passed⟩ := decodeDatagram_received crc32c decoded
  have satisfied := (applyPolicy_received passed).2.2 required
  rcases processDatagram_cases crc32c bytes cache now with ⟨error, _, refused⟩ |
    ⟨opened, delivery, last, opening, known, handling⟩
  · cases refused.symm.trans processed
  cases known.symm.trans processed
  obtain ⟨well, _⟩ := openDatagram_well opening
  generalize target : Delivery.payload payload = delivery at handling
  cases handling with
  | delivered disposed =>
    cases target
    obtain ⟨status, trusted⟩ := deliver_required well disposed satisfied
    refine ⟨opened, status, opening, trusted, fun frag key data reassembled after inserts => ?_⟩
    obtain ⟨_, _, _, _, fragmented, _⟩ := inserts.made_by
    cases fragmented.symm.trans disposed
  | failed => cases target
  | buffered => cases target
  | aborted => cases target
  | @completed frag options reports status reassembled fragmentary disposed outcome =>
    obtain ⟨observed, fits, inner⟩ := handOn_required target.symm satisfied
    refine ⟨opened, status, opening, fragmentary.trusted, fun frag' key data other after inserts => ?_⟩
    obtain ⟨_, _, _, _, same, _, rfl, _, finished, _⟩ := inserts.made_by
    cases disposed.symm.trans same
    cases outcome.symm.trans finished
    refine ⟨fun event contributes => ?_, _, _, ?_, open_rebuilt opened fits, inner⟩
    · exact @Contributes.checked crc32c limits events results cache event
        (insertionOf opened frag options reports status now) reassembled contributes callable ran outcome observed
    · rw [reassembled_rebuilt, if_pos fits]

end

/-- Two halves of a two-byte payload with unused OCS, and the policy that requires one. -/
private def checkedFirst : List UInt8 :=
  datagramBytes ⟨10, 0, 0, 1⟩ ⟨10, 0, 0, 2⟩ ⟨1000, 2000, 8, 0⟩ [0, 0, 3, 10, 0, 20, 0, 0, 0, 5, 0, 8, 0xaa]

private def checkedLast : List UInt8 :=
  datagramBytes ⟨10, 0, 0, 1⟩ ⟨10, 0, 0, 2⟩ ⟨1000, 2000, 8, 0⟩ [0, 0, 3, 12, 0, 22, 0, 0, 0, 5, 0, 9, 0, 10, 0xbb]

private def requiringOcs : Api.ReceivePolicy := ⟨[], false, true⟩

theorem required_ocs_checked_halves :
    ∃ results cache received final opened status,
      runEvents (fun _ => 0) [.decode checkedFirst requiringOcs 0] (.withLimits .default) = .ok (results, cache) ∧
      Api.decodeDatagram (fun _ => 0) checkedLast cache 1 requiringOcs = .ok (.ok (.received received), final) ∧
      received.data = [0xaa, 0xbb] ∧ openDatagram checkedLast = .ok (.ok opened) ∧ Trusted opened status := by
  have decodes : ∃ results cache received final,
      runEvents (fun _ => 0) [.decode checkedFirst requiringOcs 0] (.withLimits .default) = .ok (results, cache) ∧
      Api.decodeDatagram (fun _ => 0) checkedLast cache 1 requiringOcs = .ok (.ok (.received received), final) ∧
      received.data = [0xaa, 0xbb] := ⟨_, _, _, _, rfl, rfl, rfl⟩
  obtain ⟨results, cache, received, final, ran, decoded, data⟩ := decodes
  obtain ⟨opened, status, opening, trusted, _⟩ := required_ocs_checked (by simp [CacheEvent.Public]) ran rfl decoded
  exact ⟨results, cache, received, final, opened, status, ran, decoded, data, opening, trusted⟩

end UdpOptions.Proofs
