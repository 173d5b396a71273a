import UdpOptions.Proofs.CacheIsolation
import UdpOptions.Proofs.Coalescing

/-! Runs that fill one partial. The set of fragments that a partial accepts decides what
it completes to, in every respect but the tokens, which follow the order of arrival.
Copies of accepted fragments only add their OCS observations, unless they are copies of
an empty fragment without RDOS, which no partial recognizes. -/

namespace UdpOptions.Proofs
open Library Library.Intervals Model

/-- The fragment is no duplicate for the partial of the key. -/
def Arrival.New (arrival : Arrival) (key : FragKey) (now : Nat) (cache : ReassemblyCache) : Prop :=
  ∀ held range, liveCell cache key now = some held →
    NormalizedFragment.new arrival.frag arrival.data.length = some range →
    held.isExactDuplicate range arrival.data arrival.processing.options arrival.processing.optionFailures = false

/-- Each arrival is accepted as a new fragment by the partial under the key, which stays
there until the last arrival completes it. -/
inductive Fills (key : FragKey) : ReassemblyCache → List (Arrival × Nat) → Reassembled → Prop where
  | last {cache after : ReassemblyCache} {arrival : Arrival} {now : Nat} {reassembled : Reassembled}
      (new : arrival.New key now cache)
      (applied : (arrival.op key now).apply cache = .ok (some (key, .complete reassembled), after)) :
      Fills key cache [(arrival, now)] reassembled
  | more {cache after : ReassemblyCache} {arrival : Arrival} {now : Nat} {next : Arrival × Nat}
      {rest : List (Arrival × Nat)} {reassembled : Reassembled} (new : arrival.New key now cache)
      (applied : (arrival.op key now).apply cache = .ok (some (key, .incomplete), after))
      (lives : liveCell after key next.2 ≠ none) (later : Fills key after (next :: rest) reassembled) :
      Fills key cache ((arrival, now) :: next :: rest) reassembled

/-- The arrivals are all the fragments of one partial, from its creation to its completion. -/
structure Assembles (key : FragKey) (cache : ReassemblyCache) (arrivals : List (Arrival × Nat))
    (reassembled : Reassembled) : Prop where
  fresh : ∀ first ∈ arrivals.head?, liveCell cache key first.2 = none
  fills : Fills key cache arrivals reassembled

section
variable {key : FragKey} {now : Nat} {cache after : ReassemblyCache} {arrival : Arrival} {held updated : Partial}
  {range : NormalizedFragment} {reassembled : Reassembled}

theorem Arrival.apply_iff {outcome : ReassemblyOutcome} :
    (arrival.op key now).apply cache = .ok (some (key, outcome), after) ↔
      ((arrival.insertion key now).fed cache).1 = outcome ∧ (arrival.insertion key now).after cache = after := by
  rw [apply_eq]
  change Except.ok (some (key, ((arrival.insertion key now).fed cache).1), (arrival.insertion key now).after cache) = _ ↔ _
  simp only [Except.ok.injEq, Prod.mk.injEq, Option.some.injEq, true_and]

private theorem foundPartial_live (live : liveCell cache key now = some held) : foundPartial cache key now = held := by
  rw [foundPartial, show (cache.gc now).partials.lookup key = some held from live]
  rfl

/-- The partial of the key, if there is one, satisfies the invariant of the cache. -/
def CellRetained (key : FragKey) (now : Nat) (cache : ReassemblyCache) : Prop :=
  ∀ held, liveCell cache key now = some held → Retained cache.limits held

theorem CellRetained.consistent (retained : CellRetained key now cache) :
    Consistent cache.limits (foundPartial cache key now) :=
  (feedable_start retained now).consistent

theorem Arrival.New.not_recognized (new : arrival.New key now cache)
    (normal : NormalizedFragment.new arrival.frag arrival.data.length = some range) :
    ¬ Recognized (foundPartial cache key now) range arrival.data arrival.processing := by
  apply Proofs.not_recognized
  cases live : liveCell cache key now with
  | none =>
    rw [foundPartial, show (cache.gc now).partials.lookup key = none from live]
    exact new_fresh now range _ _ _
  | some held =>
    rw [foundPartial_live live]
    exact new held range live normal

theorem Arrival.New.pending (new : arrival.New key now cache) (retained : CellRetained key now cache)
    (applied : (arrival.op key now).apply cache = .ok (some (key, .incomplete), after)) :
    ∃ range updated, Screened cache.limits arrival.frag arrival.data range ∧
      Accepted (foundPartial cache key now) range arrival.data arrival.processing cache.limits updated ∧
      Retained cache.limits updated ∧ after.partials.lookup key = some updated ∧ after.limits = cache.limits := by
  obtain ⟨outcome, rfl⟩ := Arrival.apply_iff.mp applied
  obtain ⟨range, updated, screened, fed, feeds⟩ := fed_incomplete outcome
  have left : ((arrival.insertion key now).fed cache).2 = some updated := by rw [fed]
  have stays := (feedCell_retained retained left).1
  refine ⟨range, updated, screened, ?_, stays, ?_, after_limits _ cache⟩
  · rcases feedHeld_kept retained.consistent screened.ranged feeds with ⟨recognized, _⟩ | ⟨_, accepted⟩
    · exact absurd recognized (new.not_recognized screened.normal)
    · exact accepted
  · exact (lookup_after (arrival.insertion key now) cache).trans left

theorem Arrival.finishing (retained : CellRetained key now cache)
    (applied : (arrival.op key now).apply cache = .ok (some (key, .complete reassembled), after)) :
    ∃ range updated udpLength, Screened cache.limits arrival.frag arrival.data range ∧
      Accepted (foundPartial cache key now) range arrival.data arrival.processing cache.limits updated ∧
      Filled updated ∧ updated.udpLength = some udpLength ∧ reassembled = reassembledOf updated udpLength := by
  obtain ⟨outcome, _⟩ := Arrival.apply_iff.mp applied
  have step := @feedCell_fed cache.limits (atCap (cache.gc now)) (liveCell cache key now) arrival.frag arrival.data
    arrival.processing now retained
  change CellFed _ _ _ _ _ _ _ ((arrival.insertion key now).fed cache) at step
  generalize (arrival.insertion key now).fed cache = fed at step outcome
  cases step with
  | aborted => cases outcome
  | again => cases outcome
  | pending => cases outcome
  | finished screened accepted filled known =>
    cases outcome
    exact ⟨_, _, _, screened, accepted, filled, known, rfl⟩

private theorem lives_updated {next : Nat} (stored : after.partials.lookup key = some updated)
    (lives : liveCell after key next ≠ none) : liveCell after key next = some updated := by
  obtain ⟨current, live⟩ := Option.ne_none_iff_exists'.mp lives
  cases (liveCell_eq_some.mp live).1.symm.trans stored
  exact live

private theorem cellRetained_some {limits : ReassemblyLimits} (same : cache.limits = limits)
    (retained : Retained limits held) (live : liveCell cache key now = some held) : CellRetained key now cache := by
  intro current found
  cases live.symm.trans found
  rw [same]
  exact retained

end

/-- A run that fills a partial completes it to what the partial keeps of all its fragments. -/
theorem Fills.keeps {key : FragKey} {cache : ReassemblyCache} {arrivals : List (Arrival × Nat)}
    {reassembled : Reassembled} (fills : Fills key cache arrivals reassembled) {earlier : List Arrival}
    (start : ∀ first ∈ arrivals.head?, CellRetained key first.2 cache ∧ Keeps earlier (foundPartial cache key first.2)) :
    ∃ held udpLength, Keeps (earlier ++ arrivals.map Prod.fst) held ∧ SegmentsOrdered held.segments ∧
      held.udpLength = some udpLength ∧ reassembled = reassembledOf held udpLength := by
  induction fills generalizing earlier with
  | last new applied =>
    obtain ⟨retained, keeps⟩ := start _ rfl
    obtain ⟨range, updated, udpLength, screened, accepted, _, known, same⟩ := Arrival.finishing retained applied
    have consistent := accepted.consistent retained.consistent screened.ranged
    exact ⟨updated, udpLength, keeps.accept screened.normal accepted, consistent.ordered, known, same⟩
  | @more cache after arrival now next rest _ new applied lives _ ih =>
    obtain ⟨retained, keeps⟩ := start _ rfl
    obtain ⟨range, updated, screened, accepted, stays, stored, limits⟩ := new.pending retained applied
    have live := lives_updated stored lives
    have further := keeps.accept screened.normal accepted
    rw [List.map_cons, List.append_cons]
    apply ih
    intro first head
    cases head
    rw [foundPartial_live live]
    exact ⟨cellRetained_some limits stays live, further⟩

theorem Assembles.keeps {key : FragKey} {cache : ReassemblyCache} {arrivals : List (Arrival × Nat)}
    {reassembled : Reassembled} (assembles : Assembles key cache arrivals reassembled) :
    ∃ held udpLength, Keeps (arrivals.map Prod.fst) held ∧ SegmentsOrdered held.segments ∧
      held.udpLength = some udpLength ∧ reassembled = reassembledOf held udpLength := by
  refine @Fills.keeps key cache arrivals reassembled assembles.fills [] ?_
  intro first head
  have absent := assembles.fresh first head
  refine ⟨fun held live => ?_, ?_⟩
  · cases absent.symm.trans live
  · rw [foundPartial, show (cache.gc first.2).partials.lookup key = none from absent]
    exact keeps_new first.2

/-- A run returns Incomplete for every arrival but the last, which it completes with. -/
def CompletesLast (key : FragKey) (cache : ReassemblyCache) (arrivals : List (Arrival × Nat))
    (reassembled : Reassembled) : Prop :=
  ∃ final, runOps (arrivals.map fun (arrival, now) => arrival.op key now) cache =
    .ok (arrivals.dropLast.map (fun _ => some (key, .incomplete)) ++ [some (key, .complete reassembled)], final)

section
variable {key : FragKey} {cache : ReassemblyCache} {reassembled : Reassembled}

private theorem completesLast_singleton {arrival : Arrival} {now : Nat} :
    CompletesLast key cache [(arrival, now)] reassembled ↔
      ∃ after, (arrival.op key now).apply cache = .ok (some (key, .complete reassembled), after) := by
  constructor
  · intro ⟨final, ran⟩
    obtain ⟨report, after, remaining, applied, _, same⟩ := run_cons_eq_ok.mp ran
    cases same
    exact ⟨after, applied⟩
  · intro ⟨after, applied⟩
    exact ⟨after, run_cons_eq_ok.mpr ⟨_, after, [], applied, rfl, rfl⟩⟩

private theorem completesLast_cons {arrival : Arrival} {now : Nat} {rest : List (Arrival × Nat)} (more : rest ≠ []) :
    CompletesLast key cache ((arrival, now) :: rest) reassembled ↔
      ∃ after, (arrival.op key now).apply cache = .ok (some (key, .incomplete), after) ∧
        CompletesLast key after rest reassembled := by
  constructor
  · intro ⟨final, ran⟩
    obtain ⟨report, after, remaining, applied, later, same⟩ := run_cons_eq_ok.mp ran
    rw [List.dropLast_cons_of_ne_nil more, List.map_cons, List.cons_append] at same
    obtain ⟨rfl, rfl⟩ := List.cons.inj same
    exact ⟨after, applied, final, later⟩
  · intro ⟨after, applied, final, later⟩
    refine ⟨final, run_cons_eq_ok.mpr ⟨_, after, _, applied, later, ?_⟩⟩
    rw [List.dropLast_cons_of_ne_nil more]
    rfl

end

/-- The same fragment once more, with an OCS observation of its own. -/
structure Arrival.Copies (copy original : Arrival) : Prop where
  frag : copy.frag = original.frag
  data : copy.data = original.data
  options : copy.processing.options = original.processing.options
  failures : copy.processing.optionFailures = original.processing.optionFailures

/-- The second list of arrivals is the first with copies in between, each after its
original and not later than an instant; the copied arrivals may also come before both lists. -/
inductive Interspersed (latest : Nat) : List Arrival → List (Arrival × Nat) → List (Arrival × Nat) → Prop where
  | last (earlier : List Arrival) (final : Arrival × Nat) : Interspersed latest earlier [final] [final]
  | next {earlier : List Arrival} {first : Arrival × Nat} {arrivals extended : List (Arrival × Nat)}
      (later : Interspersed latest (earlier ++ [first.1]) arrivals extended) :
      Interspersed latest earlier (first :: arrivals) (first :: extended)
  | copy {earlier : List Arrival} {arrivals extended : List (Arrival × Nat)} {original copy : Arrival} {now : Nat}
      (known : original ∈ earlier) (copies : copy.Copies original) (timely : now ≤ latest)
      (later : Interspersed latest earlier arrivals extended) :
      Interspersed latest earlier arrivals ((copy, now) :: extended)

theorem Interspersed.ne_nil {latest : Nat} {earlier : List Arrival} {arrivals extended : List (Arrival × Nat)}
    (interspersed : Interspersed latest earlier arrivals extended) : arrivals ≠ [] ∧ extended ≠ [] := by
  induction interspersed with
  | last => exact ⟨nofun, nofun⟩
  | next => exact ⟨nofun, nofun⟩
  | copy _ _ _ _ ih => exact ⟨ih.1, nofun⟩

def flagged (flag : Option Bool) (held : Partial) : Partial := { held with fragmentOcsNonzero := flag }

section
variable {limits : ReassemblyLimits} {held updated : Partial} {range : NormalizedFragment} {data : List UInt8}
  {processing : FragmentProcessing}

/-- The checks of an insertion do not look at the OCS flag. -/
theorem Accepted.flagged (accepted : Accepted held range data processing limits updated) (flag : Option Bool) :
    Accepted (flagged flag held) range data processing limits
      (flagged (ocsMerged flag processing.ocsNonzero) updated) := by
  obtain ⟨noted, step, rfl⟩ := accepted.noted
  refine { accepted with noted := ⟨Proofs.flagged flag noted, ?_, ?_⟩ }
  · cases step with
    | middle plain => exact .middle plain
    | first announced header reach noEnd noLength below => exact .first announced header reach noEnd noLength below
    | again announced header reach sameEnd sameLength repeated =>
      exact .again announced header reach sameEnd sameLength repeated
  · simp only [Partial.record, observeFragmentOcs_eq, Proofs.flagged]

private theorem feedHeld_recognized (recognized : Recognized held range data processing) :
    feedHeld limits held range data processing =
      (.incomplete, some (flagged (ocsMerged held.fragmentOcsNonzero processing.ocsNonzero) held)) := by
  rw [feedHeld, Partial.insert, if_pos (exactDuplicate_iff.mpr recognized), observeFragmentOcs_eq]
  rfl

theorem Retained.flagged (retained : Retained limits held) (flag : Option Bool) :
    Retained limits (flagged flag held) := ⟨{ retained.consistent with }, retained.counted, retained.gap⟩

end

section
variable {key : FragKey} {cache : ReassemblyCache} {held : Partial} {range : NormalizedFragment} {latest now : Nat}

private theorem feedCell_present {limits : ReassemblyLimits} {frag : Frag} {data : List UInt8}
    (screened : Screened limits frag data range) (full : Bool) (processing : FragmentProcessing) (now : Nat) :
    feedCell limits full (some held) frag data processing now = feedHeld limits held range data processing := by
  rw [feedCell, screen_ok_iff.mpr screened]

theorem Arrival.apply_live {arrival : Arrival} {outcome : ReassemblyOutcome} {cell : Option Partial}
    (live : liveCell cache key now = some held) (screened : Screened cache.limits arrival.frag arrival.data range)
    (fed : feedHeld cache.limits held range arrival.data arrival.processing = (outcome, cell)) :
    ∃ after, (arrival.op key now).apply cache = .ok (some (key, outcome), after) ∧
      after.partials.lookup key = cell ∧ after.limits = cache.limits := by
  have same : (arrival.insertion key now).fed cache = (outcome, cell) := by
    change feedCell cache.limits _ (liveCell cache key now) arrival.frag arrival.data arrival.processing now = _
    rw [live, feedCell_present screened, fed]
  refine ⟨_, Arrival.apply_iff.mpr ⟨by rw [same], rfl⟩, ?_, after_limits _ cache⟩
  rw [← show ((arrival.insertion key now).fed cache).2 = cell by rw [same]]
  exact lookup_after (arrival.insertion key now) cache

theorem Arrival.Copies.recognized {copy original : Arrival} (copies : copy.Copies original)
    (recognized : Recognized held range original.data original.processing) :
    Recognized held range copy.data copy.processing := by
  unfold Recognized segmentOf at recognized ⊢
  rw [copies.data, copies.options, copies.failures]
  exact recognized

theorem Arrival.Copies.screened {limits : ReassemblyLimits} {copy original : Arrival} (copies : copy.Copies original)
    (screened : Screened limits original.frag original.data range) : Screened limits copy.frag copy.data range := by
  rw [copies.frag, copies.data]
  exact screened

private theorem not_expired_before {timeout : Nat} (young : held.isExpired latest timeout = false)
    (timely : now ≤ latest) :
    held.isExpired now timeout = false := by
  cases expired : held.isExpired now timeout with
  | false => rfl
  | true => exact absurd (isExpired_mono timely expired) (by rw [young]; exact Bool.false_ne_true)

private theorem flagged_live {other : ReassemblyCache} {flag : Option Bool} (limits : other.limits = cache.limits)
    (stored : other.partials.lookup key = some (flagged flag held))
    (young : held.isExpired now cache.limits.timeout = false) : liveCell other key now = some (flagged flag held) := by
  apply liveCell_eq_some.mpr
  rw [limits]
  exact ⟨stored, young⟩

def AllKnown (earlier : List Arrival) (limits : ReassemblyLimits) (held : Partial) : Prop :=
  ∀ arrival ∈ earlier, ∃ range, Screened limits arrival.frag arrival.data range ∧
    Recognized held range arrival.data arrival.processing

theorem AllKnown.accept {earlier : List Arrival} {limits : ReassemblyLimits} {arrival : Arrival} {updated : Partial}
    (known : AllKnown earlier limits held) (screened : Screened limits arrival.frag arrival.data range)
    (accepted : Accepted held range arrival.data arrival.processing limits updated)
    (visible : ¬ (arrival.data = [] ∧ arrival.frag.rdos = none)) : AllKnown (earlier ++ [arrival]) limits updated := by
  intro other member
  rcases List.mem_append.mp member with old | new
  · obtain ⟨otherRange, otherScreened, recognized⟩ := known other old
    exact ⟨otherRange, otherScreened, recognized.extend accepted.extends⟩
  · cases List.mem_singleton.mp new
    refine ⟨range, screened, accepted.recognized ?_⟩
    rw [(NormalizedFragment.new_range screened.normal).2]
    exact visible

/-- The other cache holds the same partial for the key, but for its OCS flag. -/
structure Reflagged (key : FragKey) (cache other : ReassemblyCache) (held : Partial) (seen : List (Option Bool)) :
    Prop where
  limits : other.limits = cache.limits
  stored : other.partials.lookup key = some (flagged (mergedOcs seen) held)

section
variable {other : ReassemblyCache} {seen : List (Option Bool)} {arrival : Arrival} {reassembled : Reassembled}
  {after : ReassemblyCache}

theorem Reflagged.live (reflagged : Reflagged key cache other held seen)
    (young : held.isExpired now cache.limits.timeout = false) :
    liveCell other key now = some (flagged (mergedOcs seen) held) :=
  flagged_live reflagged.limits reflagged.stored young

theorem Arrival.New.flagged_unknown (new : arrival.New key now cache) (current : liveCell cache key now = some held)
    (screened : Screened cache.limits arrival.frag arrival.data range) (flag : Option Bool) :
    ¬ Recognized (flagged flag held) range arrival.data arrival.processing := by
  have unknown := new.not_recognized screened.normal
  rw [foundPartial_live current] at unknown
  exact unknown

theorem Reflagged.finishing (reflagged : Reflagged key cache other held seen) (new : arrival.New key now cache)
    (retained : Retained cache.limits held) (current : liveCell cache key now = some held)
    (applied : (arrival.op key now).apply cache = .ok (some (key, .complete reassembled), after)) :
    ∃ otherAfter, (arrival.op key now).apply other =
      .ok (some (key, .complete
        { reassembled with fragmentOcsNonzero := mergedOcs (seen ++ [arrival.processing.ocsNonzero]) }), otherAfter) := by
  obtain ⟨range, updated, udpLength, screened, accepted, filled, announced, same⟩ :=
    Arrival.finishing (cellRetained_some rfl retained current) applied
  rw [foundPartial_live current] at accepted
  have fed := feedHeld_finished (new.flagged_unknown current screened _) (accepted.flagged (mergedOcs seen)) filled
    announced
  rw [← reflagged.limits] at screened fed
  obtain ⟨otherAfter, finished, _⟩ :=
    Arrival.apply_live (reflagged.live (liveCell_eq_some.mp current).2) screened fed
  refine ⟨otherAfter, ?_⟩
  rw [same, mergedOcs_concat]
  exact finished

theorem Reflagged.pending (reflagged : Reflagged key cache other held seen) (new : arrival.New key now cache)
    (retained : Retained cache.limits held) (current : liveCell cache key now = some held)
    (applied : (arrival.op key now).apply cache = .ok (some (key, .incomplete), after)) :
    ∃ range updated otherAfter, Screened cache.limits arrival.frag arrival.data range ∧
      Accepted held range arrival.data arrival.processing cache.limits updated ∧ Retained cache.limits updated ∧
      after.partials.lookup key = some updated ∧ after.limits = cache.limits ∧
      (arrival.op key now).apply other = .ok (some (key, .incomplete), otherAfter) ∧
      Reflagged key after otherAfter updated (seen ++ [arrival.processing.ocsNonzero]) := by
  obtain ⟨range, updated, screened, accepted, stays, kept, sameLimits⟩ :=
    new.pending (cellRetained_some rfl retained current) applied
  rw [foundPartial_live current] at accepted
  have fed := feedHeld_pending (new.flagged_unknown current screened _) (accepted.flagged (mergedOcs seen))
    (stays.flagged _)
  have otherScreened := screened
  rw [← reflagged.limits] at otherScreened fed
  obtain ⟨otherAfter, otherApplied, otherStored, otherLimits⟩ :=
    Arrival.apply_live (reflagged.live (liveCell_eq_some.mp current).2) otherScreened fed
  rw [← mergedOcs_concat] at otherStored
  exact ⟨range, updated, otherAfter, screened, accepted, stays, kept, sameLimits, otherApplied,
    otherLimits.trans (reflagged.limits.trans sameLimits.symm), otherStored⟩

theorem Reflagged.copy {copy original : Arrival} (reflagged : Reflagged key cache other held seen)
    (copies : copy.Copies original) (young : held.isExpired now cache.limits.timeout = false)
    (screened : Screened cache.limits original.frag original.data range)
    (recognized : Recognized held range original.data original.processing) :
    ∃ otherAfter, (copy.op key now).apply other = .ok (some (key, .incomplete), otherAfter) ∧
      Reflagged key cache otherAfter held (seen ++ [copy.processing.ocsNonzero]) := by
  have known : Recognized (flagged (mergedOcs seen) held) range copy.data copy.processing := copies.recognized recognized
  have otherScreened := copies.screened screened
  rw [← reflagged.limits] at otherScreened
  obtain ⟨otherAfter, otherApplied, otherStored, otherLimits⟩ :=
    Arrival.apply_live (reflagged.live young) otherScreened (feedHeld_recognized known)
  refine ⟨otherAfter, otherApplied, otherLimits.trans reflagged.limits, ?_⟩
  rw [mergedOcs_concat]
  exact otherStored

end

/-- A run with copies goes side by side with the run without them: the partials differ
in the OCS flag only, and each copy is recognized. -/
theorem Interspersed.completes {earlier : List Arrival} {arrivals extended : List (Arrival × Nat)}
    (interspersed : Interspersed latest earlier arrivals extended) {other : ReassemblyCache}
    {seen : List (Option Bool)} {reassembled : Reassembled} (fills : Fills key cache arrivals reassembled)
    (live : ∀ first ∈ arrivals.head?, liveCell cache key first.2 = some held) (retained : Retained cache.limits held)
    (reflagged : Reflagged key cache other held seen) (young : held.isExpired latest cache.limits.timeout = false)
    (known : AllKnown earlier cache.limits held)
    (visible : ∀ arrival ∈ arrivals.dropLast, ¬ (arrival.1.data = [] ∧ arrival.1.frag.rdos = none)) :
    CompletesLast key other extended
      { reassembled with fragmentOcsNonzero := mergedOcs (seen ++ observationsOf (extended.map Prod.fst)) } := by
  induction interspersed generalizing cache other held seen with
  | last earlier final =>
    cases fills with
    | last new applied =>
      have alive := live _ rfl
      exact completesLast_singleton.mpr (reflagged.finishing new retained alive applied)
  | @next earlier first rest extended later ih =>
    cases fills with
    | last => exact absurd rfl later.ne_nil.1
    | @more _ after arrival now next rest _ new applied lives fills =>
      have alive := live _ rfl
      obtain ⟨range, updated, otherAfter, screened, accepted, stays, kept, sameLimits, otherApplied, further⟩ :=
        reflagged.pending new retained alive applied
      rw [completesLast_cons later.ne_nil.2]
      refine ⟨otherAfter, otherApplied, ?_⟩
      rw [List.map_cons, observationsOf, List.map_cons, List.append_cons]
      have same : held.receivedAt = updated.receivedAt := accepted.extends.since.symm
      refine ih fills ?_ (sameLimits ▸ stays) further ?_ ?_ ?_
      · intro first head
        cases head
        exact lives_updated kept lives
      · rw [sameLimits, Partial.isExpired, ← same]
        exact young
      · rw [sameLimits]
        exact known.accept screened accepted (visible (arrival, now) (by simp))
      · intro other member
        exact visible other (by simpa using .inr member)
  | @copy earlier rest extended original copy now member copies timely later ih =>
    obtain ⟨range, screened, recognized⟩ := known original member
    obtain ⟨otherAfter, otherApplied, further⟩ :=
      reflagged.copy copies (not_expired_before young timely) screened recognized
    rw [completesLast_cons later.ne_nil.2]
    refine ⟨otherAfter, otherApplied, ?_⟩
    rw [List.map_cons, observationsOf, List.map_cons, List.append_cons]
    exact ih fills live retained further young known visible

end

theorem Fills.young {key : FragKey} {cache : ReassemblyCache} {arrivals : List (Arrival × Nat)} {held : Partial}
    {reassembled : Reassembled} (fills : Fills key cache arrivals reassembled)
    (live : ∀ first ∈ arrivals.head?, liveCell cache key first.2 = some held) (retained : Retained cache.limits held) :
    ∀ final ∈ arrivals.getLast?, held.isExpired final.2 cache.limits.timeout = false := by
  induction fills generalizing held with
  | last new applied =>
    intro final ends
    cases ends
    exact (liveCell_eq_some.mp (live _ rfl)).2
  | @more cache after arrival now next rest _ new applied lives later ih =>
    have current := live _ rfl
    obtain ⟨range, updated, screened, accepted, stays, kept, sameLimits⟩ :=
      new.pending (cellRetained_some rfl retained current) applied
    rw [foundPartial_live current] at accepted
    intro final ends
    have young := ih (by intro first head; cases head; exact lives_updated kept lives) (sameLimits ▸ stays) final
      (by simpa using ends)
    rw [sameLimits, Partial.isExpired, accepted.extends.since] at young
    exact young

theorem Assembles.first {key : FragKey} {cache : ReassemblyCache} {arrival : Arrival} {now : Nat}
    {next : Arrival × Nat} {rest : List (Arrival × Nat)} {reassembled : Reassembled}
    (assembles : Assembles key cache ((arrival, now) :: next :: rest) reassembled) :
    ∃ after range held, (arrival.op key now).apply cache = .ok (some (key, .incomplete), after) ∧
      Fills key after (next :: rest) reassembled ∧ after.limits = cache.limits ∧ Retained after.limits held ∧
      (∀ first ∈ (next :: rest).head?, liveCell after key first.2 = some held) ∧
      Screened cache.limits arrival.frag arrival.data range ∧
      Accepted (Partial.new now) range arrival.data arrival.processing cache.limits held := by
  have absent := assembles.fresh _ rfl
  have retained : CellRetained key now cache := fun held live => by cases absent.symm.trans live
  cases assembles.fills with
  | @more _ after _ _ _ _ _ new applied lives later =>
    obtain ⟨range, updated, screened, accepted, stays, kept, sameLimits⟩ := new.pending retained applied
    rw [foundPartial, show (cache.gc now).partials.lookup key = none from absent] at accepted
    refine ⟨after, range, updated, applied, later, sameLimits, sameLimits ▸ stays, ?_, screened, accepted⟩
    intro first head
    cases head
    exact lives_updated kept lives

/-- Copies in between leave everything as it is, but for the OCS flag, which covers them as well. -/
def UndisturbedByCopies (key : FragKey) (cache : ReassemblyCache) (arrivals : List (Arrival × Nat))
    (reassembled : Reassembled) : Prop :=
  ∀ final ∈ arrivals.getLast?, ∀ extended, Interspersed final.2 [] arrivals extended →
    CompletesLast key cache extended
      { reassembled with fragmentOcsNonzero := mergedOcs (observationsOf (extended.map Prod.fst)) }

section
variable {key : FragKey} {cache : ReassemblyCache} {arrivals : List (Arrival × Nat)} {reassembled : Reassembled}

theorem Assembles.undisturbed (assembles : Assembles key cache arrivals reassembled)
    (visible : ∀ arrival ∈ arrivals.dropLast, ¬ (arrival.1.data = [] ∧ arrival.1.frag.rdos = none)) :
    UndisturbedByCopies key cache arrivals reassembled := by
  intro final ends extended interspersed
  cases interspersed with
  | last _ only =>
    obtain ⟨arrival, now⟩ := only
    obtain ⟨held, udpLength, keeps, _, _, same⟩ := assembles.keeps
    have flag : reassembled.fragmentOcsNonzero = mergedOcs (observationsOf ([(arrival, now)].map Prod.fst)) := by
      rw [same]
      exact keeps.observed
    rw [← flag]
    cases assembles.fills with
    | last _ applied => exact completesLast_singleton.mpr ⟨_, applied⟩
  | copy known => cases known
  | @next _ first rest extended later =>
    obtain ⟨arrival, now⟩ := first
    cases rest with
    | nil => exact absurd rfl later.ne_nil.1
    | cons next rest =>
      obtain ⟨after, range, held, applied, fills, sameLimits, retained, live, screened, accepted⟩ := assembles.first
      have flag : held.fragmentOcsNonzero = mergedOcs [arrival.processing.ocsNonzero] := by
        rw [accepted.observed]
        exact (mergedOcs_concat [] _).symm
      have stored : after.partials.lookup key = some (flagged (mergedOcs [arrival.processing.ocsNonzero]) held) := by
        rw [← flag]
        exact (liveCell_eq_some.mp (live _ rfl)).1
      have known : AllKnown [arrival] after.limits held := by
        rw [sameLimits]
        have nothing : AllKnown [] cache.limits (Partial.new now) := nofun
        exact nothing.accept screened accepted (visible (arrival, now) (by simp))
      refine (completesLast_cons later.ne_nil.2).mpr ⟨after, applied, ?_⟩
      refine later.completes fills live retained ⟨rfl, stored⟩ ?_ known ?_
      · exact fills.young live retained final (by simpa using ends)
      · intro other member
        exact visible other (by simpa using .inr member)

end

theorem Interspersed.refl {latest : Nat} {earlier : List Arrival} {arrivals : List (Arrival × Nat)}
    (some : arrivals ≠ []) : Interspersed latest earlier arrivals arrivals := by
  induction arrivals generalizing earlier with
  | nil => exact absurd rfl some
  | cons first rest ih =>
    cases rest with
    | nil => exact .last earlier first
    | cons next rest => exact .next (ih nofun)

theorem Interspersed.repeat {latest now : Nat} {earlier : List Arrival} {arrivals extended : List (Arrival × Nat)}
    {arrival : Arrival} (known : arrival ∈ earlier) (timely : now ≤ latest)
    (later : Interspersed latest earlier arrivals extended) (count : Nat) :
    Interspersed latest earlier arrivals (List.replicate count (arrival, now) ++ extended) := by
  induction count with
  | zero => exact later
  | succ count ih => exact .copy known ⟨rfl, rfl, rfl, rfl⟩ timely ih

theorem Interspersed.after {latest : Nat} (before : List (Arrival × Nat)) {earlier : List Arrival}
    {arrivals extended : List (Arrival × Nat)}
    (later : Interspersed latest (earlier ++ before.map Prod.fst) arrivals extended) :
    Interspersed latest earlier (before ++ arrivals) (before ++ extended) := by
  induction before generalizing earlier with
  | nil => simpa using later
  | cons first rest ih =>
    apply Interspersed.next
    apply ih
    rw [List.map_cons, List.append_cons] at later
    exact later

section
variable {key : FragKey} {cache : ReassemblyCache} {arrival : Arrival} {reassembled : Reassembled} {held : Partial}

theorem Fills.through {before rest : List (Arrival × Nat)} {now : Nat}
    (fills : Fills key cache (before ++ (arrival, now) :: rest) reassembled) (more : rest ≠ [])
    (retained : ∀ first ∈ (before ++ (arrival, now) :: rest).head?, CellRetained key first.2 cache) :
    ∃ after held, (∀ extended outcome, extended ≠ [] →
        CompletesLast key cache (before ++ (arrival, now) :: extended) outcome → CompletesLast key after extended outcome) ∧
      after.limits = cache.limits ∧ after.partials.lookup key = some held ∧ Retained after.limits held ∧
      ∀ final ∈ rest.getLast?, held.isExpired final.2 after.limits.timeout = false := by
  induction before generalizing cache with
  | nil =>
    cases fills with
    | last => exact absurd rfl more
    | @more _ after _ _ next rest _ new applied lives later =>
      have current := retained _ rfl
      obtain ⟨range, updated, _, accepted, stays, kept, sameLimits⟩ := new.pending current applied
      rw [← sameLimits] at stays
      refine ⟨after, updated, ?_, sameLimits, kept, stays, ?_⟩
      · intro extended outcome some completes
        obtain ⟨other, otherApplied, completes⟩ := (completesLast_cons some).mp completes
        cases applied.symm.trans otherApplied
        exact completes
      · exact later.young (by intro first head; cases head; exact lives_updated kept lives) stays
  | cons first before ih =>
    rw [List.cons_append] at fills retained
    generalize shape : before ++ (arrival, now) :: rest = tail at fills retained ih
    cases fills with
    | last => simp at shape
    | @more _ after earlier _ next _ _ new applied lives later =>
      have current := retained _ rfl
      obtain ⟨range, updated, _, accepted, stays, kept, sameLimits⟩ := new.pending current applied
      obtain ⟨final, held, completes, limits, found⟩ := ih later (by
        intro first head
        cases head
        exact cellRetained_some sameLimits stays (lives_updated kept lives))
      refine ⟨final, held, ?_, limits.trans sameLimits, found⟩
      intro extended outcome some ran
      obtain ⟨other, otherApplied, ran⟩ := (completesLast_cons (by simp)).mp ran
      cases applied.symm.trans otherApplied
      exact completes extended outcome some ran

private theorem copies_counted {now : Nat} {rest : List (Arrival × Nat)} (empty : arrival.data = [])
    (plain : arrival.frag.rdos = none) (more : rest ≠ []) (count : Nat) (stored : cache.partials.lookup key = some held)
    (retained : Retained cache.limits held) (young : held.isExpired now cache.limits.timeout = false)
    (completes : CompletesLast key cache (List.replicate count (arrival, now) ++ rest) reassembled) :
    held.fragmentCount + count ≤ cache.limits.maxSegments := by
  induction count generalizing cache held with
  | zero => exact retained.consistent.count retained.counted
  | succ count ih =>
    obtain ⟨after, applied, completes⟩ := (completesLast_cons (by simp [more])).mp completes
    have live := liveCell_eq_some.mpr ⟨stored, young⟩
    obtain ⟨outcome, rfl⟩ := Arrival.apply_iff.mp applied
    obtain ⟨range, updated, screened, fed, feeds⟩ := fed_incomplete outcome
    have left : ((arrival.insertion key now).fed cache).2 = some updated := by rw [fed]
    have kept := (lookup_after (arrival.insertion key now) cache).trans left
    have stays := (feedCell_retained (cellRetained_some rfl retained live) left).1
    have unannounced := (NormalizedFragment.new_range screened.normal).2.trans plain
    change feedHeld cache.limits (foundPartial cache key now) range arrival.data arrival.processing = _ at feeds
    change Screened cache.limits arrival.frag arrival.data range at screened
    rw [foundPartial_live live, empty] at feeds
    have ranged := screened.ranged
    rw [empty] at ranged
    have counted := feedHeld_empty retained.consistent ranged unannounced feeds
    have since := (feedHeld_grows retained.consistent ranged feeds).extends.since
    have limits := after_limits (arrival.insertion key now) cache
    have further := ih kept (limits ▸ stays) (by rw [limits, Partial.isExpired, since]; exact young) completes
    rw [limits] at further
    omega

end

/-- Two reassemblies of the same fragments agree in all but the tokens. -/
structure AgreeButTokens (arrivals others : List (Arrival × Nat)) (reassembled other : Reassembled) : Prop where
  tail : other.tail = reassembled.tail
  udpLength : other.udpLength = reassembled.udpLength
  observed : other.fragmentOcsNonzero = reassembled.fragmentOcsNonzero
  failedOnce : other.fragmentOptionFailures.Nodup
  failed : ∀ kind, kind ∈ other.fragmentOptionFailures ↔ kind ∈ reassembled.fragmentOptionFailures
  options : other.fragmentOptions = (coalesced (optionsOf (others.map Prod.fst))).toRawOptions
  mds : (coalesced (optionsOf (others.map Prod.fst))).mds = (coalesced (optionsOf (arrivals.map Prod.fst))).mds
  mrdsSize : (coalesced (optionsOf (others.map Prod.fst))).mrdsSize =
    (coalesced (optionsOf (arrivals.map Prod.fst))).mrdsSize
  mrdsSegments : (coalesced (optionsOf (others.map Prod.fst))).mrdsSegments =
    (coalesced (optionsOf (arrivals.map Prod.fst))).mrdsSegments

/-- A reassembly has the coalesced observations of its fragments. The same fragments in
another order give the same result but for the tokens, and copies change the OCS flag only. -/
structure CoalescesAsStated (key : FragKey) (cache : ReassemblyCache) (arrivals : List (Arrival × Nat))
    (reassembled : Reassembled) : Prop where
  options : reassembled.fragmentOptions = (coalesced (optionsOf (arrivals.map Prod.fst))).toRawOptions
  failedOnce : reassembled.fragmentOptionFailures.Nodup
  failed : ∀ kind, kind ∈ reassembled.fragmentOptionFailures ↔
    ∃ arrival ∈ arrivals.map Prod.fst, kind ∈ arrival.processing.optionFailures
  observed : reassembled.fragmentOcsNonzero = mergedOcs (observationsOf (arrivals.map Prod.fst))
  anyOrder : ∀ otherCache others other, Assembles key otherCache others other →
    (others.map Prod.fst).Perm (arrivals.map Prod.fst) → AgreeButTokens arrivals others reassembled other
  copies : UndisturbedByCopies key cache arrivals reassembled

section
variable {key : FragKey} {cache otherCache : ReassemblyCache} {arrivals others : List (Arrival × Nat)}
  {reassembled other : Reassembled}

theorem Assembles.agree (assembles : Assembles key cache arrivals reassembled)
    (otherAssembles : Assembles key otherCache others other)
    (same : (others.map Prod.fst).Perm (arrivals.map Prod.fst)) :
    AgreeButTokens arrivals others reassembled other := by
  obtain ⟨held, udpLength, keeps, ordered, known, rfl⟩ := assembles.keeps
  obtain ⟨otherHeld, otherLength, otherKeeps, otherOrdered, otherKnown, rfl⟩ := otherAssembles.keeps
  obtain ⟨mds, mrdsSize, mrdsSegments⟩ := coalesced_perm (same.flatMap_right fun arrival => arrival.processing.options)
  refine ⟨?_, keeps.length_eq otherKeeps same known otherKnown, ?_, otherKeeps.failedOnce, ?_, ?_, mds, mrdsSize,
    mrdsSegments⟩
  · simp only [reassembledOf, keeps.segments_eq otherKeeps same ordered otherOrdered]
  · simp only [reassembledOf, keeps.observed, otherKeeps.observed]
    exact mergedOcs_perm (same.map _)
  · intro kind
    simp only [reassembledOf, keeps.failed, otherKeeps.failed, same.mem_iff]
  · simp only [reassembledOf, otherKeeps.options]

/-- If copies do not disturb a run, then all its fragments but the last leave a trace. -/
theorem Assembles.visible (assembles : Assembles key cache arrivals reassembled)
    (undisturbed : UndisturbedByCopies key cache arrivals reassembled) :
    ∀ arrival ∈ arrivals.dropLast, ¬ (arrival.1.data = [] ∧ arrival.1.frag.rdos = none) := by
  intro ⟨arrival, now⟩ member ⟨empty, plain⟩
  have some : arrivals ≠ [] := by
    intro none
    rw [none] at member
    cases member
  obtain ⟨before, between, split⟩ := List.append_of_mem member
  have whole := List.dropLast_append_getLast some
  generalize arrivals.getLast some = final at whole
  rw [split, List.append_assoc, List.cons_append] at whole
  subst whole
  -- so many copies that the segment limit is passed
  have interspersed : Interspersed final.2 [] (before ++ (arrival, now) :: (between ++ [final]))
      (before ++ (arrival, now) :: (List.replicate cache.limits.maxSegments (arrival, final.2) ++ (between ++ [final]))) :=
    .after before (.next (.repeat (by simp) (Nat.le_refl _) (.refl (by simp)) _))
  have ends : final ∈ (before ++ (arrival, now) :: (between ++ [final])).getLast? := by
    rw [← List.cons_append, ← List.append_assoc, List.getLast?_concat]
    rfl
  have completes := undisturbed final ends _ interspersed
  obtain ⟨after, held, through, limits, stored, retained, young⟩ := assembles.fills.through (by simp) (by
    intro first head held live
    cases (assembles.fresh first head).symm.trans live)
  have counted := copies_counted empty plain (by simp) _ stored retained (young final (by simp))
    (through _ _ (by simp) completes)
  have positive := retained.counted
  rw [limits] at counted
  omega

/-- Coalescing is as stated exactly for the runs in which every fragment but the last has
data or an RDOS. -/
theorem coalesces_iff (assembles : Assembles key cache arrivals reassembled) :
    CoalescesAsStated key cache arrivals reassembled ↔
      ∀ arrival ∈ arrivals.dropLast, ¬ (arrival.1.data = [] ∧ arrival.1.frag.rdos = none) := by
  constructor
  · intro stated
    exact assembles.visible stated.copies
  · intro visible
    have undisturbed := assembles.undisturbed visible
    have anyOrder : ∀ otherCache others other, Assembles key otherCache others other →
        (others.map Prod.fst).Perm (arrivals.map Prod.fst) → AgreeButTokens arrivals others reassembled other := by
      intro otherCache others other otherAssembles same
      exact assembles.agree otherAssembles same
    obtain ⟨held, udpLength, keeps, _, _, rfl⟩ := assembles.keeps
    exact ⟨congrArg FragmentOptions.toRawOptions keeps.options, keeps.failedOnce, keeps.failed, keeps.observed, anyOrder,
      undisturbed⟩

end

private def pairedKey : FragKey := ⟨⟨192, 0, 2, 1⟩, ⟨192, 0, 2, 2⟩, 1000, 2000, 1⟩

/-- The two halves of a tail of two bytes, with an MDS each. -/
private def leadingHalf : Arrival := ⟨⟨20, 1, 8, none⟩, [1], ⟨[⟨.mds, [5, 220]⟩], [], some true⟩⟩

private def closingHalf : Arrival := ⟨⟨22, 1, 9, some 10⟩, [2], ⟨[⟨.mds, [4, 0]⟩], [], some false⟩⟩

private theorem pair_assembles {first last : Arrival} {now : Nat} {after final : ReassemblyCache}
    {reassembled : Reassembled}
    (applied : (first.op pairedKey 0).apply (.withLimits .default) = .ok (some (pairedKey, .incomplete), after))
    (lives : liveCell after pairedKey now ≠ none) (new : last.New pairedKey now after)
    (finished : (last.op pairedKey now).apply after = .ok (some (pairedKey, .complete reassembled), final)) :
    Assembles pairedKey (.withLimits .default) [(first, 0), (last, now)] reassembled where
  fresh := by
    intro first head
    cases head
    rfl
  fills := by
    refine .more ?_ applied lives (.last new finished)
    intro held range live
    cases live

private theorem halves_assemble : Assembles pairedKey (.withLimits .default) [(leadingHalf, 0), (closingHalf, 1)]
    ⟨[1, 2], 10, [⟨.mds, [4, 0]⟩], [], some true⟩ := by
  refine pair_assembles rfl (by decide) ?_ rfl
  intro held range live normal
  cases normal
  rw [← foundPartial_live live]
  rfl

theorem coalesces_halves :
    Assembles pairedKey (.withLimits .default) [(leadingHalf, 0), (closingHalf, 1)]
        ⟨[1, 2], 10, [⟨.mds, [4, 0]⟩], [], some true⟩ ∧
      CoalescesAsStated pairedKey (.withLimits .default) [(leadingHalf, 0), (closingHalf, 1)]
        ⟨[1, 2], 10, [⟨.mds, [4, 0]⟩], [], some true⟩ :=
  ⟨halves_assemble, (coalesces_iff halves_assemble).mpr (by simp [leadingHalf])⟩

/-- An empty fragment without RDOS, and a terminal one with the whole tail. -/
private def emptyPiece : Arrival := ⟨⟨20, 1, 8, none⟩, [], ⟨[], [], some true⟩⟩

private def wholeTail : Arrival := ⟨⟨22, 1, 8, some 10⟩, [1, 2], ⟨[], [], some true⟩⟩

private theorem empty_assembles : Assembles pairedKey (.withLimits .default) [(emptyPiece, 0), (wholeTail, 0)]
    ⟨[1, 2], 10, [], [], some true⟩ := by
  refine pair_assembles rfl (by decide) ?_ rfl
  intro held range live normal
  cases normal
  rw [← foundPartial_live live]
  rfl

/-- A copy of the empty fragment is counted again, and the set is over the segment limit. -/
theorem empty_copy_aborts_set :
    Assembles pairedKey (.withLimits .default) [(emptyPiece, 0), (wholeTail, 0)] ⟨[1, 2], 10, [], [], some true⟩ ∧
      (∃ final, runOps [emptyPiece.op pairedKey 0, emptyPiece.op pairedKey 0, wholeTail.op pairedKey 0]
          (.withLimits .default) =
        .ok ([some (pairedKey, .incomplete), some (pairedKey, .incomplete), some (pairedKey, .abort .limitExceeded)],
          final)) ∧
      ¬ CoalescesAsStated pairedKey (.withLimits .default) [(emptyPiece, 0), (wholeTail, 0)]
        ⟨[1, 2], 10, [], [], some true⟩ := by
  refine ⟨empty_assembles, ⟨_, rfl⟩, fun stated => ?_⟩
  exact empty_assembles.visible stated.copies (emptyPiece, 0) (by simp) ⟨rfl, rfl⟩

end UdpOptions.Proofs
