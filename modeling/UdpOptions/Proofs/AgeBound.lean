import UdpOptions.Proofs.CacheIsolation
import UdpOptions.Proofs.Coalescing
import UdpOptions.Proofs.RequiredOcs

/-! The age of a partial. It counts from the creation of the partial and no fragment
moves it, so that everything a partial has taken in is younger than the timeout when
the partial completes. -/

namespace UdpOptions.Proofs
open Library Model

/-- The age at which a partial is expired: the timeout, and at most two minutes. -/
def maxAge (limits : ReassemblyLimits) : Nat := min limits.timeout Limits.reassemblyTimeoutMax

private theorem isExpired_iff {limits : ReassemblyLimits} {held : Partial} {now : Nat} :
    held.isExpired now limits.timeout = false ↔ now - held.receivedAt < maxAge limits := by
  rw [Partial.isExpired, decide_eq_false_iff_not, Nat.not_le]
  rfl

def Insertion.arrival (insertion : Insertion) : Arrival := ⟨insertion.frag, insertion.data, insertion.processing⟩

def CacheEvent.instant? : CacheEvent → Option Nat
  | .operate op => op.instant?
  | .receive _ now => some now
  | .decode _ _ now => some now

def instantsOf (events : List CacheEvent) : List Nat := events.filterMap CacheEvent.instant?

section
variable {crc32c : List UInt8 → UInt32}

private theorem datagramInsertion_now {bytes : List UInt8} {now : Nat} {insertion : Insertion}
    (made : datagramInsertion crc32c bytes now = some insertion) : insertion.now = now := by
  unfold datagramInsertion at made
  split at made
  next opened _ =>
    cases disposed : dispositionOf crc32c opened with
    | deliver => rw [disposed] at made; cases made
    | fail => rw [disposed] at made; cases made
    | fragment =>
      rw [disposed] at made
      cases made
      rfl
  · cases made
  · cases made

theorem CacheEvent.insertion_instant {event : CacheEvent} {insertion : Insertion}
    (made : event.insertion? crc32c = some insertion) : event.instant? = some insertion.now := by
  cases event with
  | operate op =>
    cases op with
    | insert | insertWithOptions | insertWithOptionsAndFailures =>
      cases made
      rfl
    | discard | gc => cases made
  | receive datagram now => exact congrArg some (datagramInsertion_now made).symm
  | decode datagram policy now =>
    rw [CacheEvent.insertion?] at made
    split at made
    · cases made
    · exact congrArg some (datagramInsertion_now made).symm

variable (crc32c)

/-- Where a partial that a call leaves comes from: it was there, or the call fed it. -/
inductive LeftBy (key : FragKey) (event : CacheEvent) (cache after : ReassemblyCache) (later : Partial) : Prop where
  | kept (found : cache.partials.lookup key = some later) (spared : Spared crc32c key event cache after) :
      LeftBy key event cache after later
  | fed {insertion : Insertion} (made : event.insertion? crc32c = some insertion) (own : insertion.key = key)
      (left : (insertion.fed cache).2 = some later) : LeftBy key event cache after later

variable {crc32c}

theorem EventEffect.leftBy {event : CacheEvent} {cache after : ReassemblyCache} {key : FragKey} {later : Partial}
    (effect : EventEffect crc32c event cache after) (valid : CacheValid cache)
    (left : after.partials.lookup key = some later) : LeftBy crc32c key event cache after later := by
  have idle (silent : event.insertion? crc32c = none) (found : cache.partials.lookup key = some later) :
      LeftBy crc32c key event cache after later := by
    refine .kept found ⟨⟨later, found, ?_⟩, later, left⟩
    intro insertion made
    cases silent.symm.trans made
  have other {insertion : Insertion} (made : event.insertion? crc32c = some insertion) (different : key ≠ insertion.key)
      (found : (insertion.after cache).partials.lookup key = some later) :
      LeftBy crc32c key event cache after later := by
    have before := lookup_after_other different found
    refine .kept before ⟨⟨later, before, ?_⟩, later, left⟩
    intro same again own
    cases made.symm.trans again
    exact absurd own.symm different
  cases effect with
  | untouched silent => exact idle silent left
  | cleared _ silent => exact idle silent (lookup_erased left)
  | expired _ silent => exact idle silent (lookup_unexpired left)
  | @inserted insertion made =>
    by_cases own : key = insertion.key
    · subst own
      exact .fed made rfl ((lookup_after insertion cache).symm.trans left)
    · exact other made own left
  | @refed insertion _ made done =>
    have found := lookup_erased left
    by_cases own : key = insertion.key
    · subst own
      cases (valid.gone done).symm.trans found
    · exact other made own found

def Insertion.found (insertion : Insertion) (cache : ReassemblyCache) : Partial :=
  (liveCell cache insertion.key insertion.now).getD (Partial.new insertion.now)

theorem Accepted.segments_from {limits : ReassemblyLimits} {insertion : Insertion} {held updated : Partial}
    {range : NormalizedFragment} (screened : Screened limits insertion.frag insertion.data range)
    (accepted : Accepted held range insertion.data insertion.processing limits updated) :
    ∀ segment ∈ updated.segments, segment ∈ held.segments ∨ insertion.arrival.segment? = some segment := by
  obtain ⟨noted, noting, rfl⟩ := accepted.noted
  intro segment member
  rcases mem_record.mp member with ⟨carries, rfl⟩ | old
  · exact .inr (@Arrival.segment?_eq insertion.arrival _ carries screened.normal)
  · rw [noting.fields.1] at old
    exact .inl old

section
variable {cache : ReassemblyCache} {insertion : Insertion}

/-- What feeding leaves: the partial keeps its creation and its segments, and takes in at
most the segment of the fragment. -/
theorem fed_left {later : Partial} (valid : CacheValid cache) (left : (insertion.fed cache).2 = some later) :
    later.receivedAt = (insertion.found cache).receivedAt ∧
      ∀ segment ∈ later.segments, segment ∈ (insertion.found cache).segments ∨
        insertion.arrival.segment? = some segment := by
  have step := valid.cellFed insertion
  have grows := fed_start valid left
  refine ⟨grows.extends.since, ?_⟩
  change CellFed _ _ (liveCell cache insertion.key insertion.now) _ _ _ _ _ at step
  rw [Insertion.found]
  generalize liveCell cache insertion.key insertion.now = cell at step
  generalize insertion.fed cache = fed at step left
  cases step with
  | aborted => cases left
  | finished => cases left
  | again present =>
    cases left
    rw [present]
    exact fun segment member => .inl member
  | pending _ screened accepted =>
    cases left
    exact accepted.segments_from screened

private theorem fed_completed {reassembled : Reassembled} (valid : CacheValid cache)
    (outcome : (insertion.fed cache).1 = .complete reassembled) :
    ∃ segments : List Segment, reassembled.tail = segments.flatMap Segment.data ∧
      ∀ segment ∈ segments, segment ∈ (insertion.found cache).segments ∨
        insertion.arrival.segment? = some segment := by
  have step := valid.cellFed insertion
  change CellFed _ _ (liveCell cache insertion.key insertion.now) _ _ _ _ _ at step
  rw [Insertion.found]
  generalize liveCell cache insertion.key insertion.now = cell at step
  generalize insertion.fed cache = fed at step outcome
  cases step with
  | aborted => cases outcome
  | again => cases outcome
  | pending => cases outcome
  | @finished _ updated _ screened accepted =>
    cases outcome
    exact ⟨updated.segments, rfl, accepted.segments_from screened⟩

private theorem found_live {held : Partial} (live : liveCell cache insertion.key insertion.now = some held) :
    insertion.found cache = held := by
  rw [Insertion.found, live, Option.getD_some]

private theorem found_new (absent : liveCell cache insertion.key insertion.now = none) :
    insertion.found cache = Partial.new insertion.now := by
  rw [Insertion.found, absent, Option.getD_none]

end

variable (crc32c)

/-- A call of the run put the segment into the partial under the key, which has stayed
there to the end of the run. -/
structure Stored (limits : ReassemblyLimits) (events : List CacheEvent) (cache : ReassemblyCache) (key : FragKey)
    (segment : Segment) : Prop where
  made : ∃ before event since results result start middle insertion first,
    events = before ++ event :: since ∧ runEvents crc32c before (.withLimits limits) = .ok (results, start) ∧
      event.apply crc32c start = .ok (result, middle) ∧ event.insertion? crc32c = some insertion ∧
      insertion.key = key ∧ insertion.arrival.segment? = some segment ∧ middle.partials.lookup key = some first ∧
      Lives crc32c key since middle cache

/-- Each partial was created at an instant of the run, and each of its segments was put
there by a call of the run. -/
structure Documented (limits : ReassemblyLimits) (events : List CacheEvent) (cache : ReassemblyCache) : Prop where
  born : ∀ key held, cache.partials.lookup key = some held → held.receivedAt ∈ instantsOf events
  stored : ∀ key held, cache.partials.lookup key = some held →
    ∀ segment ∈ held.segments, Stored crc32c limits events cache key segment

variable {crc32c}

theorem Lives.concat {key : FragKey} {events : List CacheEvent} {event : CacheEvent}
    {cache last after : ReassemblyCache} {result : EventResult} (lives : Lives crc32c key events cache last)
    (applied : event.apply crc32c last = .ok (result, after)) (spared : Spared crc32c key event last after) :
    Lives crc32c key (events ++ [event]) cache after := by
  induction events generalizing cache with
  | nil =>
    cases lives
    exact ⟨result, after, applied, spared, rfl⟩
  | cons first rest ih =>
    obtain ⟨firstResult, middle, firstApplied, firstSpared, later⟩ := lives
    exact ⟨firstResult, middle, firstApplied, firstSpared, ih later⟩

theorem Stored.later {limits : ReassemblyLimits} {events : List CacheEvent} {event : CacheEvent}
    {cache after : ReassemblyCache} {result : EventResult} {key : FragKey} {segment : Segment}
    (stored : Stored crc32c limits events cache key segment)
    (applied : event.apply crc32c cache = .ok (result, after)) (spared : Spared crc32c key event cache after) :
    Stored crc32c limits (events ++ [event]) after key segment := by
  obtain ⟨before, writer, since, results, written, start, middle, insertion, first, rfl, began, wrote, made, own, places,
    found, lives⟩ := stored.made
  exact ⟨before, writer, since ++ [event], results, written, start, middle, insertion, first, by simp, began, wrote, made,
    own, places, found, lives.concat applied spared⟩

theorem Documented.step {limits : ReassemblyLimits} {events : List CacheEvent} {event : CacheEvent}
    {results : List EventResult} {cache after : ReassemblyCache} {result : EventResult}
    (documented : Documented crc32c limits events cache) (valid : CacheValid cache)
    (ran : runEvents crc32c events (.withLimits limits) = .ok (results, cache))
    (applied : event.apply crc32c cache = .ok (result, after)) :
    Documented crc32c limits (events ++ [event]) after := by
  have effect := CacheEvent.effect applied
  have instants : instantsOf (events ++ [event]) = instantsOf events ++ event.instant?.toList := filterMap_concat _ _ _
  constructor
  · intro key later left
    rw [instants, List.mem_append]
    cases effect.leftBy valid left with
    | kept found => exact .inl (documented.born key later found)
    | @fed insertion made own fed =>
      have since := (fed_left valid fed).1
      cases live : liveCell cache insertion.key insertion.now with
      | some held =>
        rw [since, found_live live]
        exact .inl (documented.born _ held (liveCell_eq_some.mp live).1)
      | none =>
        rw [since, found_new live, CacheEvent.insertion_instant made]
        exact .inr (by simp [Partial.new])
  · intro key later left segment member
    cases effect.leftBy valid left with
    | kept found spared => exact (documented.stored key later found segment member).later applied spared
    | @fed insertion made own fed =>
      subst own
      rcases (fed_left valid fed).2 segment member with old | new
      · cases live : liveCell cache insertion.key insertion.now with
        | none =>
          rw [found_new live] at old
          cases old
        | some held =>
          rw [found_live live] at old
          obtain ⟨found, young⟩ := liveCell_eq_some.mp live
          refine (documented.stored _ held found segment old).later applied ⟨⟨held, found, ?_⟩, later, left⟩
          intro same again _
          cases made.symm.trans again
          exact young
      · exact ⟨events, event, [], results, result, cache, after, insertion, later, rfl, ran, applied, made, rfl, new, left,
          rfl⟩

private theorem runEvents_documented {limits : ReassemblyLimits} {events : List CacheEvent} {results : List EventResult}
    {cache : ReassemblyCache} (ran : runEvents crc32c events (.withLimits limits) = .ok (results, cache)) :
    Documented crc32c limits events cache := by
  induction events using List.reverseRecOn generalizing results cache with
  | nil =>
    cases ran
    exact ⟨by simp [ReassemblyCache.withLimits], by simp [ReassemblyCache.withLimits]⟩
  | append_singleton events event ih =>
    rw [runEvents, run_concat] at ran
    obtain ⟨⟨outputs, middle⟩, began, rest⟩ := Checked.bind_eq_ok.mp ran
    obtain ⟨⟨output, final⟩, applied, done⟩ := Checked.bind_eq_ok.mp rest
    cases done
    exact (ih began).step (runEvents_valid began).1 began applied

/-- What was put into the partial that an insertion finds has contributed to it. -/
theorem Stored.contributes {limits : ReassemblyLimits} {events : List CacheEvent} {cache : ReassemblyCache}
    {key : FragKey} {segment : Segment} {held : Partial} {now : Nat}
    (stored : Stored crc32c limits events cache key segment) (limited : cache.limits = limits)
    (live : liveCell cache key now = some held) :
    ∃ earlier made, Contributes crc32c limits events key now earlier ∧ earlier.insertion? crc32c = some made ∧
      made.arrival.segment? = some segment := by
  obtain ⟨before, earlier, since, results, result, start, middle, made, first, split, began, applied, inserted, own, places,
    left, lives⟩ := stored.made
  obtain ⟨found, young⟩ := liveCell_eq_some.mp live
  rw [limited] at young
  exact ⟨earlier, made, ⟨before, since, results, result, start, middle, cache, made, first, held, split, began, applied,
    inserted, own, left, lives, found, young⟩, inserted, places⟩

/-- What contributes to a partial is younger than the partial's age limit. -/
theorem Contributes.young {limits : ReassemblyLimits} {events : List CacheEvent} {earlier : CacheEvent}
    {made : Insertion} {key : FragKey} {now : Nat} (contributes : Contributes crc32c limits events key now earlier)
    (inserted : earlier.insertion? crc32c = some made) (ordered : (instantsOf events).Pairwise (· ≤ ·)) :
    now - made.now < maxAge limits := by
  obtain ⟨before, since, results, result, start, middle, last, insertion, held, current, rfl, began, applied, again, own,
    left, lives, found, young⟩ := contributes.made
  cases inserted.symm.trans again
  have instants : instantsOf (before ++ earlier :: since) =
      instantsOf before ++ made.now :: instantsOf since := by
    rw [instantsOf, List.filterMap_append, List.filterMap_cons, CacheEvent.insertion_instant inserted]
    rfl
  obtain ⟨startValid, _⟩ := runEvents_valid began
  obtain ⟨middleValid, _⟩ := (CacheEvent.effect applied).valid startValid
  -- the partial was created by this call or by an earlier one
  have born := ((runEvents_documented began).step startValid began applied).born key held left
  have early : held.receivedAt ≤ made.now := by
    rw [instantsOf, filterMap_concat, CacheEvent.insertion_instant inserted, List.mem_append] at born
    rcases born with before | now
    · rw [instants, List.pairwise_append] at ordered
      exact ordered.2.2 _ before _ List.mem_cons_self
    · exact Nat.le_of_eq (List.mem_singleton.mp now)
  obtain ⟨later, same, kept, _⟩ := lives.carries middleValid left (fun later => later.receivedAt = held.receivedAt)
    (fun _ _ grows before => grows.extends.since.trans before) rfl
  cases found.symm.trans same
  have age := isExpired_iff.mp young
  omega

theorem EventEffect.left_after {event : CacheEvent} {cache after : ReassemblyCache} {insertion : Insertion}
    {key : FragKey} {later : Partial} (effect : EventEffect crc32c event cache after)
    (made : event.insertion? crc32c = some insertion) (left : after.partials.lookup key = some later) :
    (insertion.after cache).partials.lookup key = some later := by
  cases effect with
  | untouched idle | cleared _ idle | expired _ idle => cases idle.symm.trans made
  | inserted known =>
    cases known.symm.trans made
    exact left
  | refed _ known =>
    cases known.symm.trans made
    exact lookup_erased left

private theorem after_young {cache : ReassemblyCache} {insertion : Insertion} {key : FragKey} {later : Partial}
    (valid : CacheValid cache) (left : (insertion.after cache).partials.lookup key = some later) :
    insertion.now - later.receivedAt < maxAge cache.limits ∨
      (insertion.key = key ∧ liveCell cache key insertion.now = none ∧ later.receivedAt = insertion.now) := by
  by_cases own : key = insertion.key
  · subst own
    rw [lookup_after] at left
    have since := (fed_left valid left).1
    cases live : liveCell cache insertion.key insertion.now with
    | some held =>
      rw [found_live live] at since
      rw [since]
      exact .inl (isExpired_iff.mp (liveCell_eq_some.mp live).2)
    | none =>
      rw [found_new live] at since
      exact .inr ⟨rfl, rfl, since⟩
  · rw [lookup_after_ne cache own, Option.filter_eq_some_iff, Bool.not_eq_true'] at left
    exact .inl (isExpired_iff.mp left.2)

/-- Whatever completes is made of fragments younger than the age limit; no fragment moves
the expiry of its partial; and expiry leaves no partial of that age. -/
theorem reassembly_age_bound {limits : ReassemblyLimits} {events : List CacheEvent} {event : CacheEvent}
    {results : List EventResult} {result : EventResult} {cache after : ReassemblyCache}
    (ran : runEvents crc32c events (.withLimits limits) = .ok (results, cache))
    (applied : event.apply crc32c cache = .ok (result, after))
    (ordered : (instantsOf (events ++ [event])).Pairwise (· ≤ ·)) :
    (∀ insertion reassembled next, event.insertion? crc32c = some insertion →
      cache.insertWithOptionsAndFailures insertion.key insertion.frag insertion.data insertion.processing insertion.now =
        .ok (.complete reassembled, next) →
      (∀ earlier made, Contributes crc32c limits events insertion.key insertion.now earlier →
        earlier.insertion? crc32c = some made → insertion.now - made.now < maxAge limits) ∧
      ∃ segments : List Segment, reassembled.tail = segments.flatMap Segment.data ∧ ∀ segment ∈ segments,
        insertion.arrival.segment? = some segment ∨
        ∃ earlier made, Contributes crc32c limits events insertion.key insertion.now earlier ∧
          earlier.insertion? crc32c = some made ∧ made.arrival.segment? = some segment) ∧
    (∀ insertion held later, event.insertion? crc32c = some insertion →
      liveCell cache insertion.key insertion.now = some held → after.partials.lookup insertion.key = some later →
      later.receivedAt = held.receivedAt ∧
        ∀ instant, later.isExpired instant limits.timeout = held.isExpired instant limits.timeout) ∧
    (∀ now, (event = .operate (.gc now) ∨ ∃ insertion, event.insertion? crc32c = some insertion ∧ insertion.now = now) →
      ∀ key later, after.partials.lookup key = some later →
        now - later.receivedAt < maxAge limits ∨
          ((∃ insertion, event.insertion? crc32c = some insertion ∧ insertion.key = key) ∧
            liveCell cache key now = none ∧ later.receivedAt = now)) := by
  obtain ⟨valid, limited⟩ := runEvents_valid ran
  have effect := CacheEvent.effect applied
  refine ⟨?_, ?_, ?_⟩
  · intro insertion reassembled next made completed
    rw [insertWithOptionsAndFailures_eq] at completed
    have outcome : (insertion.fed cache).1 = .complete reassembled := (Prod.mk.inj (Except.ok.inj completed)).1
    constructor
    · intro earlier madeEarlier contributes inserted
      rw [instantsOf, List.filterMap_append, List.pairwise_append] at ordered
      exact contributes.young inserted ordered.1
    · obtain ⟨segments, tail, origin⟩ := fed_completed valid outcome
      refine ⟨segments, tail, ?_⟩
      intro segment member
      rcases origin segment member with old | own
      · right
        cases live : liveCell cache insertion.key insertion.now with
        | none =>
          rw [found_new live] at old
          cases old
        | some held =>
          rw [found_live live] at old
          have found := (liveCell_eq_some.mp live).1
          exact ((runEvents_documented ran).stored _ held found segment old).contributes limited live
      · exact .inl own
  · intro insertion held later made live left
    have since := (fed_left valid (effect.fed valid made left)).1
    rw [found_live live] at since
    refine ⟨since, fun instant => ?_⟩
    rw [Partial.isExpired, Partial.isExpired, since]
  · intro now timed key later left
    rw [← limited]
    rcases timed with rfl | ⟨insertion, made, rfl⟩
    · cases applied
      have live : liveCell cache key now = some later := left
      exact .inl (isExpired_iff.mp (liveCell_eq_some.mp live).2)
    · rcases after_young valid (effect.left_after made left) with young | ⟨own, absent, created⟩
      · exact .inl young
      · exact .inr ⟨⟨insertion, made, own⟩, absent, created⟩

end

private def agingKey : FragKey := ⟨⟨192, 0, 2, 1⟩, ⟨192, 0, 2, 2⟩, 1000, 2000, 1⟩

private def agingStart : CacheOp := .insert agingKey ⟨20, 1, 8, none⟩ [1, 2] 0

/-- A fragment that comes just before the age limit completes the set. -/
private def agingEnd : CacheOp := .insert agingKey ⟨22, 1, 10, some 11⟩ [3] (Limits.reassemblyTimeoutMax - 1)

theorem reassembly_age_bound_last_moment :
    ∃ results cache result after,
      runEvents (fun _ => 0) [.operate agingStart] (.withLimits .default) = .ok (results, cache) ∧
      CacheEvent.apply (fun _ => 0) (.operate agingEnd) cache = .ok (result, after) ∧
      ∀ earlier made, Contributes (fun _ => 0) .default [.operate agingStart] agingKey (Limits.reassemblyTimeoutMax - 1)
          earlier → earlier.insertion? (fun _ => 0) = some made →
        Limits.reassemblyTimeoutMax - 1 - made.now < maxAge .default := by
  have runs : ∃ results cache result after reassembled next,
      runEvents (fun _ => 0) [.operate agingStart] (.withLimits .default) = .ok (results, cache) ∧
      CacheEvent.apply (fun _ => 0) (.operate agingEnd) cache = .ok (result, after) ∧
      cache.insertWithOptionsAndFailures agingKey ⟨22, 1, 10, some 11⟩ [3] ⟨[], [], none⟩
        (Limits.reassemblyTimeoutMax - 1) = .ok (.complete reassembled, next) := ⟨_, _, _, _, _, _, rfl, rfl, rfl⟩
  obtain ⟨results, cache, result, after, reassembled, next, ran, applied, completed⟩ := runs
  have bound := (reassembly_age_bound ran applied (by decide)).1 _ reassembled next rfl completed
  exact ⟨results, cache, result, after, ran, applied, bound.1⟩

end UdpOptions.Proofs
