import UdpOptions.Proofs.PartialLife

/-! Repeated insertions. A partial that has taken a fragment in recognizes the
same fragment for as long as it lives, and the repetition changes nothing. Only an
empty fragment without RDOS leaves no trace by which it could be recognized. -/

namespace UdpOptions.Proofs
open Library Library.Intervals Model

structure Extends (held later : Partial) : Prop where
  segments : ∀ segment ∈ held.segments, segment ∈ later.segments
  terminal : ∀ terminalEnd, held.terminalEnd = some terminalEnd → later.terminalEnd = some terminalEnd ∧
    later.emptyTerminalOptions = held.emptyTerminalOptions ∧
    later.emptyTerminalOptionFailures = held.emptyTerminalOptionFailures
  length : ∀ udpLength, held.udpLength = some udpLength → later.udpLength = some udpLength
  merged : later.fragmentOcsNonzero = held.fragmentOcsNonzero ∨
    ∃ ocsNonzero, later.fragmentOcsNonzero = (held.observeFragmentOcs ocsNonzero).fragmentOcsNonzero
  since : later.receivedAt = held.receivedAt

theorem Noted.kept {held noted : Partial} {fragment : NormalizedFragment} {data : List UInt8}
    {processing : FragmentProcessing} (step : Noted held fragment data processing noted) :
    (∀ terminalEnd, held.terminalEnd = some terminalEnd → noted.terminalEnd = some terminalEnd ∧
      noted.emptyTerminalOptions = held.emptyTerminalOptions ∧
      noted.emptyTerminalOptionFailures = held.emptyTerminalOptionFailures) ∧
    ∀ udpLength, held.udpLength = some udpLength → noted.udpLength = some udpLength := by
  cases step with
  | middle => exact ⟨fun _ known => ⟨known, rfl, rfl⟩, fun _ known => known⟩
  | first _ _ _ noEnd noLength =>
    refine ⟨fun _ known => ?_, fun _ known => ?_⟩
    · cases noEnd.symm.trans known
    · cases noLength.symm.trans known
  | again => exact ⟨fun _ known => ⟨known, rfl, rfl⟩, fun _ known => known⟩

theorem mem_record {held : Partial} {fragment : NormalizedFragment} {data : List UInt8}
    {processing : FragmentProcessing} {count total : Nat} {segment : Segment} :
    segment ∈ (held.record fragment data processing count total).segments ↔
      (data ≠ [] ∧ segment = segmentOf fragment data processing) ∨ segment ∈ held.segments := by
  cases data with
  | nil => simp [Partial.record]
  | cons byte rest =>
    have members := (insertSegment_perm held.segments (segmentOf fragment (byte :: rest) processing)).mem_iff
      (a := segment)
    simpa [Partial.record, segmentOf] using members

theorem Accepted.extends {limits : ReassemblyLimits} {held updated : Partial} {fragment : NormalizedFragment}
    {data : List UInt8} {processing : FragmentProcessing}
    (accepted : Accepted held fragment data processing limits updated) : Extends held updated := by
  obtain ⟨noted, step, rfl⟩ := accepted.noted
  obtain ⟨segments, _, _, _, _, ocs, received⟩ := step.fields
  obtain ⟨terminal, length⟩ := step.kept
  refine ⟨?_, terminal, length, .inr ⟨processing.ocsNonzero, ?_⟩, received⟩
  · intro segment member
    exact mem_record.mpr (.inr (segments ▸ member))
  · simp only [Partial.record, Partial.observeFragmentOcs, ocs]

theorem Grows.extends {limits : ReassemblyLimits} {held later : Partial} (grows : Grows limits held later) :
    Extends held later := by
  cases grows with
  | same => exact ⟨fun _ member => member, fun _ known => ⟨known, rfl, rfl⟩, fun _ known => known, .inl rfl, rfl⟩
  | observed ocsNonzero =>
    exact ⟨fun _ member => member, fun _ known => ⟨known, rfl, rfl⟩, fun _ known => known, .inr ⟨ocsNonzero, rfl⟩, rfl⟩
  | accepted accepted => exact accepted.extends

/-- By what a stored fragment is recognized: its segment, or for an empty terminal
fragment the options kept with the terminal end. -/
def Recognized (held : Partial) (fragment : NormalizedFragment) (data : List UInt8)
    (processing : FragmentProcessing) : Prop :=
  (∀ rdos, fragment.udpLength = some rdos → held.udpLength = some rdos ∧ held.terminalEnd = some fragment.stop) ∧
    if fragment.udpLength.isSome ∧ data = [] then
      held.emptyTerminalOptions = some processing.options ∧
        held.emptyTerminalOptionFailures = some processing.optionFailures
    else segmentOf fragment data processing ∈ held.segments

private theorem stored_iff {held : Partial} {fragment : NormalizedFragment} {data : List UInt8}
    {processing : FragmentProcessing} :
    (held.segments.any fun segment =>
      segment.start = fragment.start ∧ segment.stop = fragment.stop ∧ segment.data = data ∧
        segment.fragmentOptions = processing.options ∧
        segment.fragmentOptionFailures = processing.optionFailures) = true ↔
      segmentOf fragment data processing ∈ held.segments := by
  rw [List.any_eq_true]
  constructor
  · rintro ⟨segment, member, same⟩
    obtain ⟨start, stop, bytes, options, failures⟩ := of_decide_eq_true same
    have equal : segment = segmentOf fragment data processing := by
      cases segment
      simp_all [segmentOf]
    exact equal ▸ member
  · intro member
    exact ⟨_, member, decide_eq_true ⟨rfl, rfl, rfl, rfl, rfl⟩⟩

theorem exactDuplicate_iff {held : Partial} {fragment : NormalizedFragment} {data : List UInt8}
    {processing : FragmentProcessing} :
    held.isExactDuplicate fragment data processing.options processing.optionFailures = true ↔
      Recognized held fragment data processing := by
  unfold Partial.isExactDuplicate Recognized
  dsimp only
  cases announced : fragment.udpLength with
  | none => simpa using stored_iff
  | some rdos =>
    dsimp only
    by_cases same : held.udpLength = some rdos ∧ held.terminalEnd = some fragment.stop
    · rw [if_neg (by simp [same])]
      by_cases empty : data = []
      · simp [empty, same]
      · simpa [empty, same] using stored_iff
    · rw [if_pos (by tauto)]
      simpa using fun length ending => absurd ⟨length, ending⟩ same

theorem not_recognized {held : Partial} {fragment : NormalizedFragment} {data : List UInt8}
    {processing : FragmentProcessing}
    (fresh : held.isExactDuplicate fragment data processing.options processing.optionFailures = false) :
    ¬ Recognized held fragment data processing := by
  intro recognized
  cases fresh.symm.trans (exactDuplicate_iff.mpr recognized)

theorem Recognized.extend {held later : Partial} {fragment : NormalizedFragment} {data : List UInt8}
    {processing : FragmentProcessing} (recognized : Recognized held fragment data processing)
    (extension : Extends held later) : Recognized later fragment data processing := by
  obtain ⟨terminal, stored⟩ := recognized
  refine ⟨fun rdos announced => ?_, ?_⟩
  · obtain ⟨length, ending⟩ := terminal rdos announced
    exact ⟨extension.length rdos length, (extension.terminal _ ending).1⟩
  · split at stored
    next empty =>
      obtain ⟨rdos, announced⟩ := Option.isSome_iff_exists.mp empty.1
      obtain ⟨_, options, failures⟩ := extension.terminal _ (terminal rdos announced).2
      rw [if_pos empty, options, failures]
      exact stored
    next other =>
      rw [if_neg other]
      exact extension.segments _ stored

/-- An accepted fragment is recognized afterwards, unless it is empty and not terminal. -/
theorem Accepted.recognized {limits : ReassemblyLimits} {held updated : Partial} {fragment : NormalizedFragment}
    {data : List UInt8} {processing : FragmentProcessing}
    (accepted : Accepted held fragment data processing limits updated)
    (visible : ¬ (data = [] ∧ fragment.udpLength = none)) : Recognized updated fragment data processing := by
  obtain ⟨noted, step, rfl⟩ := accepted.noted
  cases step with
  | middle plain =>
    refine ⟨fun rdos announced => absurd (plain.symm.trans announced) nofun, ?_⟩
    rw [if_neg (by simp [plain])]
    exact mem_record.mpr (.inl ⟨fun empty => visible ⟨empty, plain⟩, rfl⟩)
  | first announced =>
    refine ⟨fun rdos same => ?_, ?_⟩
    · cases announced.symm.trans same
      exact ⟨rfl, rfl⟩
    · split
      next empty => simp [Partial.record, Partial.observeFragmentOcs, empty.2]
      next other => exact mem_record.mpr (.inl ⟨fun empty => other ⟨by simp [announced], empty⟩, rfl⟩)
  | again announced _ _ sameEnd sameLength repeated =>
    refine ⟨fun rdos same => ?_, ?_⟩
    · cases announced.symm.trans same
      exact ⟨sameLength, sameEnd⟩
    · split
      next empty => exact repeated (by simp [empty.2])
      next other => exact mem_record.mpr (.inl ⟨fun empty => other ⟨by simp [announced], empty⟩, rfl⟩)

def ocsMerged (merged ocsNonzero : Option Bool) : Option Bool :=
  match merged, ocsNonzero with
  | some accumulated, some current => some (accumulated || current)
  | some _, none => none
  | none, _ => none

theorem observeFragmentOcs_eq (held : Partial) (ocsNonzero : Option Bool) :
    held.observeFragmentOcs ocsNonzero =
      { held with fragmentOcsNonzero := ocsMerged held.fragmentOcsNonzero ocsNonzero } := by
  unfold Partial.observeFragmentOcs ocsMerged
  cases held.fragmentOcsNonzero <;> cases ocsNonzero <;> rfl

private theorem ocsMerged_again (merged ocsNonzero : Option Bool) :
    ocsMerged (ocsMerged merged ocsNonzero) ocsNonzero = ocsMerged merged ocsNonzero := by
  rcases merged with _ | accumulated <;> rcases ocsNonzero with _ | current <;> simp [ocsMerged]

private theorem ocsMerged_later {merged ocsNonzero : Option Bool} (later : Option Bool)
    (absorbed : ocsMerged merged ocsNonzero = merged) :
    ocsMerged (ocsMerged merged later) ocsNonzero = ocsMerged merged later := by
  rcases merged with _ | accumulated <;> rcases ocsNonzero with _ | current <;> rcases later with _ | next <;>
    simp_all [ocsMerged]

theorem Accepted.observed {limits : ReassemblyLimits} {held updated : Partial} {fragment : NormalizedFragment}
    {data : List UInt8} {processing : FragmentProcessing}
    (accepted : Accepted held fragment data processing limits updated) :
    updated.fragmentOcsNonzero = ocsMerged held.fragmentOcsNonzero processing.ocsNonzero := by
  obtain ⟨noted, step, rfl⟩ := accepted.noted
  rw [← step.fields.2.2.2.2.2.1]
  simp only [Partial.record, observeFragmentOcs_eq]

/-- The partial recognizes the fragment, and its OCS observation adds nothing. -/
structure Knows (held : Partial) (fragment : NormalizedFragment) (data : List UInt8)
    (processing : FragmentProcessing) : Prop where
  recognized : Recognized held fragment data processing
  observed : ocsMerged held.fragmentOcsNonzero processing.ocsNonzero = held.fragmentOcsNonzero

theorem Knows.extend {held later : Partial} {fragment : NormalizedFragment} {data : List UInt8}
    {processing : FragmentProcessing} (knows : Knows held fragment data processing) (extension : Extends held later) :
    Knows later fragment data processing := by
  refine ⟨knows.recognized.extend extension, ?_⟩
  rcases extension.merged with same | ⟨ocsNonzero, merged⟩
  · rw [same]
    exact knows.observed
  · rw [merged, observeFragmentOcs_eq]
    exact ocsMerged_later ocsNonzero knows.observed

/-- A known fragment leaves the partial exactly as it is. -/
theorem Knows.insert {held : Partial} {fragment : NormalizedFragment} {data : List UInt8}
    {processing : FragmentProcessing} (knows : Knows held fragment data processing) (limits : ReassemblyLimits) :
    feedHeld limits held fragment data processing = (.incomplete, some held) := by
  have unchanged : held.observeFragmentOcs processing.ocsNonzero = held := by
    rw [observeFragmentOcs_eq, knows.observed]
  rw [feedHeld, Partial.insert, if_pos (exactDuplicate_iff.mpr knows.recognized), unchanged]

section
variable {limits : ReassemblyLimits} {held later : Partial} {fragment : NormalizedFragment} {data : List UInt8}
  {processing : FragmentProcessing}

private theorem insert_accepted (new : ¬ Recognized held fragment data processing)
    (accepted : Accepted held fragment data processing limits later) :
    held.insert fragment data processing limits = (later.complete, later) := by
  rw [Partial.insert, if_neg fun again => new (exactDuplicate_iff.mp again), accept_iff.mpr accepted]

theorem feedHeld_pending (new : ¬ Recognized held fragment data processing)
    (accepted : Accepted held fragment data processing limits later) (retained : Retained limits later) :
    feedHeld limits held fragment data processing = (.incomplete, some later) := by
  rw [feedHeld, insert_accepted new accepted, complete_of_not_filled retained.consistent.ordered retained.gap]

theorem feedHeld_finished {udpLength : UInt16} (new : ¬ Recognized held fragment data processing)
    (accepted : Accepted held fragment data processing limits later) (filled : Filled later)
    (known : later.udpLength = some udpLength) :
    feedHeld limits held fragment data processing = (.complete (reassembledOf later udpLength), none) := by
  rw [feedHeld, insert_accepted new accepted, complete_of_filled filled known]

theorem feedHeld_kept (consistent : Consistent limits held) (ranged : Ranged limits fragment data)
    (fed : feedHeld limits held fragment data processing = (.incomplete, some later)) :
    (Recognized held fragment data processing ∧ later = held.observeFragmentOcs processing.ocsNonzero) ∨
      (¬ Recognized held fragment data processing ∧ Accepted held fragment data processing limits later) := by
  have step := insert_fed processing consistent ranged
  rw [feedHeld] at fed
  generalize held.insert fragment data processing limits = result at step fed
  cases step with
  | duplicate again =>
    cases fed
    exact .inl ⟨exactDuplicate_iff.mp again, rfl⟩
  | refused => cases fed
  | pending fresh accepted =>
    cases fed
    exact .inr ⟨not_recognized fresh, accepted⟩
  | finished => cases fed

theorem feedHeld_grows (consistent : Consistent limits held) (ranged : Ranged limits fragment data)
    (fed : feedHeld limits held fragment data processing = (.incomplete, some later)) : Grows limits held later := by
  rcases feedHeld_kept consistent ranged fed with ⟨_, rfl⟩ | ⟨_, accepted⟩
  · exact .observed _
  · exact .accepted accepted

/-- A fragment that leaves the partial incomplete is known afterwards, unless it is
empty and not terminal. -/
theorem feedHeld_knows (consistent : Consistent limits held) (ranged : Ranged limits fragment data)
    (fed : feedHeld limits held fragment data processing = (.incomplete, some later))
    (visible : ¬ (data = [] ∧ fragment.udpLength = none)) : Knows later fragment data processing := by
  rcases feedHeld_kept consistent ranged fed with ⟨recognized, rfl⟩ | ⟨_, accepted⟩
  · refine ⟨recognized.extend (@Grows.observed limits held _).extends, ?_⟩
    rw [observeFragmentOcs_eq]
    exact ocsMerged_again _ _
  · refine ⟨accepted.recognized visible, ?_⟩
    rw [accepted.observed]
    exact ocsMerged_again _ _

/-- An empty fragment without RDOS is counted every time. -/
theorem feedHeld_empty (consistent : Consistent limits held) (ranged : Ranged limits fragment [])
    (plain : fragment.udpLength = none)
    (fed : feedHeld limits held fragment [] processing = (.incomplete, some later)) :
    later.fragmentCount = held.fragmentCount + 1 := by
  rcases feedHeld_kept consistent ranged fed with ⟨recognized, _⟩ | ⟨_, accepted⟩
  · have stored := recognized.2
    rw [if_neg (by simp [plain])] at stored
    have wide := consistent.ordered.nonempty _ stored
    have empty := ranged.range
    simp only [segmentOf, List.length_nil, Nat.add_zero] at wide empty
    omega
  · obtain ⟨noted, _, rfl⟩ := accepted.noted
    rfl

end

theorem fed_incomplete {cache : ReassemblyCache} {insertion : Insertion}
    (outcome : (insertion.fed cache).1 = .incomplete) :
    ∃ fragment later, Screened cache.limits insertion.frag insertion.data fragment ∧
      insertion.fed cache = (.incomplete, some later) ∧
      feedHeld cache.limits (((cache.gc insertion.now).partials.lookup insertion.key).getD (Partial.new insertion.now))
        fragment insertion.data insertion.processing = (.incomplete, some later) := by
  have left : ∀ {held : Partial} {fragment : NormalizedFragment},
      (feedHeld cache.limits held fragment insertion.data insertion.processing).1 = .incomplete →
      ∃ later, feedHeld cache.limits held fragment insertion.data insertion.processing = (.incomplete, some later) := by
    intro held fragment same
    unfold feedHeld at same ⊢
    split at same
    next later _ => exact ⟨later, rfl⟩
    next other _ => exact absurd same other
  rw [Insertion.fed] at outcome ⊢
  unfold feedCell at outcome ⊢
  split at outcome
  · cases outcome
  next fragment screening =>
    split at outcome
    next held found =>
      obtain ⟨later, fed⟩ := left outcome
      refine ⟨fragment, later, screen_ok_iff.mp screening, fed, ?_⟩
      rw [found]
      exact fed
    next found =>
      split at outcome
      · dsimp only [feedAlone] at outcome
        split at outcome
        · cases outcome
        next other => exact absurd outcome other
      next free =>
        obtain ⟨later, fed⟩ := left outcome
        refine ⟨fragment, later, screen_ok_iff.mp screening, (if_neg free).trans fed, ?_⟩
        rw [found]
        exact fed

/-- Repeating a known insertion at any instants before expiry. -/
theorem repeated_run {key : FragKey} {frag : Frag} {data : List UInt8} {processing : FragmentProcessing}
    {fragment : NormalizedFragment} {held : Partial} (knows : Knows held fragment data processing)
    (instants : List Nat) {cache : ReassemblyCache} (screened : Screened cache.limits frag data fragment)
    (present : cache.partials.lookup key = some held)
    (young : ∀ now ∈ instants, held.isExpired now cache.limits.timeout = false) :
    ∃ final, runOps (instants.map (.insertWithOptionsAndFailures key frag data processing)) cache =
        .ok (instants.map fun _ => some (key, .incomplete), final) ∧ final.partials.lookup key = some held := by
  induction instants generalizing cache with
  | nil => exact ⟨cache, rfl, present⟩
  | cons now rest ih =>
    generalize made : (⟨key, frag, data, processing, now⟩ : Insertion) = insertion
    have fed : insertion.fed cache = (.incomplete, some held) := by
      subst made
      simp only [Insertion.fed, feedCell, screen_ok_iff.mpr screened, lookup_gc, present, Option.filter_some,
        young now (by simp)]
      exact knows.insert cache.limits
    have kept : (insertion.after cache).partials.lookup key = some held := by
      rw [show key = insertion.key by rw [← made], lookup_after, fed]
    have limits := after_limits insertion cache
    obtain ⟨final, ran, found⟩ := @ih (insertion.after cache) (limits ▸ screened) kept
      (fun later member => limits ▸ young later (List.mem_cons_of_mem now member))
    refine ⟨final, ?_, found⟩
    rw [List.map_cons, runOps, run, apply_eq, Checked.ok_bind]
    simp only [CacheOp.step, CacheStep.effect, made, fed, ran, Checked.ok_bind]
    subst made
    rfl

variable (crc32c : List UInt8 → UInt32)

/-- As long as the partial of the key lives and is not expired, the insertion can be
repeated any number of times: each time it is incomplete and the partial stays
exactly as it is. -/
def RepeatsAreNoOps (key : FragKey) (frag : Frag) (data : List UInt8) (processing : FragmentProcessing)
    (cache : ReassemblyCache) : Prop :=
  ∀ events later held (instants : List Nat), Lives crc32c key events cache later → later.partials.lookup key = some held →
    (∀ now ∈ instants, held.isExpired now later.limits.timeout = false) →
    ∃ final, runOps (instants.map (.insertWithOptionsAndFailures key frag data processing)) later =
        .ok (instants.map fun _ => some (key, .incomplete), final) ∧ final.partials.lookup key = some held

variable {crc32c}

theorem start_young {cache : ReassemblyCache} {key : FragKey} {now : Nat} (lasting : 0 < cache.limits.timeout) :
    (((cache.gc now).partials.lookup key).getD (Partial.new now)).isExpired now cache.limits.timeout = false := by
  rw [lookup_gc]
  cases found : (cache.partials.lookup key).filter fun held => !held.isExpired now cache.limits.timeout with
  | none =>
    have positive : cache.limits.timeout ≠ 0 := Nat.pos_iff_ne_zero.mp lasting
    simp [Partial.isExpired, Partial.new, positive, Limits.reassemblyTimeoutMax]
  | some held =>
    have young := (Option.filter_eq_some_iff.mp found).2
    simpa using young

theorem expired_at_once (held : Partial) (now : Nat) : held.isExpired now 0 = true := by
  simp [Partial.isExpired]

section Repeat
variable {cache : ReassemblyCache} {insertion : Insertion} {fragment : NormalizedFragment} {held : Partial}

private theorem repeats_visible (valid : CacheValid cache)
    (screened : Screened cache.limits insertion.frag insertion.data fragment)
    (knows : Knows held fragment insertion.data insertion.processing)
    (present : (insertion.after cache).partials.lookup insertion.key = some held) :
    RepeatsAreNoOps crc32c insertion.key insertion.frag insertion.data insertion.processing
      (insertion.after cache) := by
  intro events later current instants lives found young
  obtain ⟨last, lastFound, lastKnows, _, same⟩ := lives.carries (valid.after insertion) present
    (Knows · fragment insertion.data insertion.processing) (fun _ _ grows before => before.extend grows.extends) knows
  cases found.symm.trans lastFound
  refine repeated_run lastKnows instants ?_ found young
  rw [same, after_limits]
  exact screened

private theorem repeats_empty (valid : CacheValid cache)
    (fed : insertion.fed cache = (.incomplete, some held))
    (young : held.isExpired insertion.now cache.limits.timeout = false) (empty : insertion.data = [])
    (plain : insertion.frag.rdos = none) :
    ¬ RepeatsAreNoOps crc32c insertion.key insertion.frag insertion.data insertion.processing
      (insertion.after cache) := by
  intro noOps
  have present : (insertion.after cache).partials.lookup insertion.key = some held := by
    rw [lookup_after, fed]
  obtain ⟨final, ran, kept⟩ := noOps [] _ held [insertion.now] rfl present (by simpa using young)
  rw [runOps_eq] at ran
  have results := Except.ok.inj ran
  have outcome : (insertion.fed (insertion.after cache)).1 = .incomplete := by
    have first := congrArg Prod.fst results
    simpa [trace, CacheOp.step, CacheStep.effect] using first
  obtain rfl : insertion.after (insertion.after cache) = final := congrArg Prod.snd results
  obtain ⟨again, later, rescreened, refed, feeding⟩ := fed_incomplete outcome
  have cell : ((insertion.after cache).gc insertion.now).partials.lookup insertion.key = some held := by
    rw [lookup_gc, present, Option.filter_some, after_limits, young]
    rfl
  rw [lookup_after, refed] at kept
  cases kept
  rw [cell, empty] at feeding
  have afterValid := valid.after insertion
  have counted := feedHeld_empty (afterValid.retained _ held present).consistent (empty ▸ rescreened.ranged)
    ((NormalizedFragment.new_range rescreened.normal).2.trans plain) feeding
  exact Nat.succ_ne_self _ counted.symm

private theorem repeats_timeless (valid : CacheValid cache) (still : cache.limits.timeout = 0)
    (present : (insertion.after cache).partials.lookup insertion.key = some held) :
    RepeatsAreNoOps crc32c insertion.key insertion.frag insertion.data insertion.processing
      (insertion.after cache) := by
  intro events later current instants lives found young
  obtain ⟨_, _, _, _, same⟩ := lives.carries (valid.after _) present (fun _ => True) (fun _ _ _ _ => trivial) trivial
  cases instants with
  | nil => exact ⟨later, rfl, found⟩
  | cons instant rest =>
    have unexpired := young instant (by simp)
    rw [same, after_limits, still, expired_at_once] at unexpired
    cases unexpired

end Repeat

/-- An insertion that returned incomplete is a no-op when it is repeated, unless it is
empty and without RDOS in a cache whose partials last. -/
theorem repeat_no_op_iff {limits : ReassemblyLimits} {cache after : ReassemblyCache} {key : FragKey} {frag : Frag}
    {data : List UInt8} {processing : FragmentProcessing} {now : Nat} (reachable : Reachable crc32c limits cache)
    (returned : cache.insertWithOptionsAndFailures key frag data processing now = .ok (.incomplete, after)) :
    RepeatsAreNoOps crc32c key frag data processing after ↔
      ¬ (data = [] ∧ frag.rdos = none ∧ 0 < limits.timeout) := by
  obtain ⟨valid, rfl⟩ := reachable.valid
  rw [insertWithOptionsAndFailures_eq] at returned
  have results := Except.ok.inj returned
  obtain ⟨fragment, held, screened, fed, feeding⟩ :=
    @fed_incomplete cache ⟨key, frag, data, processing, now⟩ (congrArg Prod.fst results)
  obtain rfl : (⟨key, frag, data, processing, now⟩ : Insertion).after cache = after := congrArg Prod.snd results
  have start := (feedable_start ((valid.gc now).retained key) now).consistent
  have rdos := (NormalizedFragment.new_range screened.normal).2
  have present := (lookup_after ⟨key, frag, data, processing, now⟩ cache).trans (congrArg Prod.snd fed)
  constructor
  · rintro noOps ⟨empty, plain, lasting⟩
    refine repeats_empty valid fed ?_ empty plain noOps
    have young := @start_young cache key now lasting
    rw [Partial.isExpired, ← (feedHeld_grows start screened.ranged feeding).extends.since] at young
    exact young
  · intro visible
    by_cases hidden : data = [] ∧ frag.rdos = none
    · refine @repeats_timeless crc32c cache ⟨key, frag, data, processing, now⟩ held valid ?_ present
      by_contra lasting
      exact visible ⟨hidden.1, hidden.2, Nat.pos_of_ne_zero lasting⟩
    · have knows := feedHeld_knows start screened.ranged feeding (by rw [rdos]; exact hidden)
      exact @repeats_visible crc32c cache ⟨key, frag, data, processing, now⟩ fragment held valid screened knows present

private def repeatedKey : FragKey := ⟨⟨192, 0, 2, 1⟩, ⟨192, 0, 2, 2⟩, 1000, 2000, 1⟩

theorem repeat_no_op_two_bytes :
    ∃ after,
      (ReassemblyCache.withLimits .default).insertWithOptionsAndFailures repeatedKey ⟨20, 1, 8, none⟩ [1, 2]
        ⟨[], [], some true⟩ 0 = .ok (.incomplete, after) ∧
      RepeatsAreNoOps (fun _ => 0) repeatedKey ⟨20, 1, 8, none⟩ [1, 2] ⟨[], [], some true⟩ after := by
  refine ⟨_, rfl, (repeat_no_op_iff (.empty : Reachable (fun _ => 0) .default _) rfl).mpr ?_⟩
  rintro ⟨⟨⟩, _⟩

/-- An empty fragment without RDOS is counted again when it is repeated, and the third
time it exceeds the segment limit. -/
theorem empty_fragment_counted_again :
    ∃ first second final held changed,
      runOps [.insert repeatedKey ⟨20, 1, 8, none⟩ [] 0] (.withLimits .default) =
        .ok ([some (repeatedKey, .incomplete)], first) ∧
      first.partials.lookup repeatedKey = some held ∧ held.isExpired 0 first.limits.timeout = false ∧
      runOps [.insert repeatedKey ⟨20, 1, 8, none⟩ [] 0] first = .ok ([some (repeatedKey, .incomplete)], second) ∧
      second.partials.lookup repeatedKey = some changed ∧ changed ≠ held ∧
      runOps [.insert repeatedKey ⟨20, 1, 8, none⟩ [] 0] second =
        .ok ([some (repeatedKey, .abort .limitExceeded)], final) ∧
      final.partials.lookup repeatedKey = none := by
  refine ⟨_, _, _, _, _, rfl, rfl, by decide +kernel, rfl, rfl, by decide +kernel, rfl, rfl⟩

end UdpOptions.Proofs
