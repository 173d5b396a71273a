import UdpOptions.Library.Runs
import UdpOptions.Proofs.PartialInvariant

/-! The cache as one independent cell for each key. An insertion expires old
cells, feeds the cell of its key, and writes the result back; nothing else
changes. The representation invariant is preserved by every operation and so
holds after every run from an empty cache. -/

namespace UdpOptions.Proofs
open Library Library.Intervals Model

/-- The range and size checks made before the partials are consulted. -/
def screen (limits : ReassemblyLimits) (frag : Frag) (dataLen : Nat) : Except AbortReason NormalizedFragment :=
  match NormalizedFragment.new frag dataLen with
  | none => .error .overlap
  | some fragment =>
    if limits.maxReassembledSize < (fragment.udpLength.getD 0).toNat then .error .limitExceeded
    else if (checkedAdd Length.udpHeader fragment.stop).all fun len => limits.maxReassembledSize < len then
      .error .limitExceeded
    else .ok fragment

def feedHeld (limits : ReassemblyLimits) (held : Partial) (fragment : NormalizedFragment) (data : List UInt8)
    (processing : FragmentProcessing) : ReassemblyOutcome × Option Partial :=
  match held.insert fragment data processing limits with
  | (.incomplete, held) => (.incomplete, some held)
  | (outcome, _) => (outcome, none)

/-- At the pending cap a fragment that cannot complete alone is refused. -/
def feedAlone (limits : ReassemblyLimits) (fragment : NormalizedFragment) (data : List UInt8)
    (processing : FragmentProcessing) (now : Nat) : ReassemblyOutcome :=
  match (feedHeld limits (Partial.new now) fragment data processing).1 with
  | .incomplete => .abort .limitExceeded
  | outcome => outcome

def feedCell (limits : ReassemblyLimits) (full : Bool) (cell : Option Partial) (frag : Frag) (data : List UInt8)
    (processing : FragmentProcessing) (now : Nat) : ReassemblyOutcome × Option Partial :=
  match screen limits frag data.length with
  | .error reason => (.abort reason, none)
  | .ok fragment =>
    match cell with
    | some held => feedHeld limits held fragment data processing
    | none =>
      if full then (feedAlone limits fragment data processing now, none)
      else feedHeld limits (Partial.new now) fragment data processing

def putCell (cache : ReassemblyCache) (key : FragKey) : Option Partial → ReassemblyCache
  | some held => { cache with partials := cache.partials.insert key held }
  | none => { cache with partials := cache.partials.erase key }

def atCap (cache : ReassemblyCache) : Bool := decide (cache.limits.maxPendingPartials ≤ cache.len)

@[simp] theorem gc_limits (cache : ReassemblyCache) (now : Nat) : (cache.gc now).limits = cache.limits := rfl

@[simp] theorem putCell_limits (cache : ReassemblyCache) (key : FragKey) (cell : Option Partial) :
    (putCell cache key cell).limits = cache.limits := by cases cell <;> rfl

theorem lookup_gc (cache : ReassemblyCache) (now : Nat) (key : FragKey) :
    (cache.gc now).partials.lookup key =
      (cache.partials.lookup key).filter fun held => !held.isExpired now cache.limits.timeout :=
  FiniteMap.lookup_retain _ _ _

@[simp] theorem lookup_putCell (cache : ReassemblyCache) (key : FragKey) (cell : Option Partial) :
    (putCell cache key cell).partials.lookup key = cell := by
  cases cell with
  | some held => exact AList.lookup_insert _
  | none => exact AList.lookup_erase _ _

theorem lookup_putCell_ne {key other : FragKey} (cache : ReassemblyCache) (cell : Option Partial)
    (different : other ≠ key) : (putCell cache key cell).partials.lookup other = cache.partials.lookup other := by
  cases cell with
  | some held => exact AList.lookup_insert_ne different
  | none => exact AList.lookup_erase_ne different

theorem putCell_none_absent {cache : ReassemblyCache} {key : FragKey} (absent : cache.partials.lookup key = none) :
    putCell cache key none = cache := by
  have missing : key ∉ cache.partials.keys := fun member => AList.lookup_eq_none.mp absent (AList.mem_keys.mpr member)
  have same : cache.partials.erase key = cache.partials := AList.ext (List.kerase_of_notMem_keys missing)
  simp only [putCell, same]

private theorem erase_insert (cache : ReassemblyCache) (key : FragKey) (held : Partial) :
    (cache.partials.insert key held).erase key = cache.partials.erase key := by
  apply AList.ext
  change (cache.partials.insert key held).entries.kerase key = cache.partials.entries.kerase key
  rw [AList.entries_insert]
  exact List.kerase_cons_eq rfl

private theorem insertPresent_eq {cache : ReassemblyCache} {key : FragKey} {held : Partial}
    (present : cache.partials.lookup key = some held) (fragment : NormalizedFragment) (data : List UInt8)
    (processing : FragmentProcessing) :
    cache.insertPresent key fragment data processing =
      .ok ((feedHeld cache.limits held fragment data processing).1,
        putCell cache key (feedHeld cache.limits held fragment data processing).2) := by
  simp only [ReassemblyCache.insertPresent, present, Checked.expect, Checked.ok_bind, feedHeld]
  rcases held.insert fragment data processing cache.limits with ⟨outcome, updated⟩
  cases outcome <;> rfl

private theorem insertWithoutRetaining_eq (cache : ReassemblyCache) (fragment : NormalizedFragment)
    (data : List UInt8) (processing : FragmentProcessing) (now : Nat) :
    cache.insertWithoutRetaining fragment data processing now = feedAlone cache.limits fragment data processing now := by
  simp only [ReassemblyCache.insertWithoutRetaining, feedAlone, feedHeld]
  rcases (Partial.new now).insert fragment data processing cache.limits with ⟨outcome, updated⟩
  cases outcome <;> rfl

/-- An insertion is total: it feeds the cell of its key in the expired cache. -/
theorem insertWithOptionsAndFailures_eq (cache : ReassemblyCache) (key : FragKey) (frag : Frag) (data : List UInt8)
    (processing : FragmentProcessing) (now : Nat) :
    cache.insertWithOptionsAndFailures key frag data processing now =
      .ok ((feedCell cache.limits (atCap (cache.gc now)) ((cache.gc now).partials.lookup key) frag data processing
          now).1,
        putCell (cache.gc now) key (feedCell cache.limits (atCap (cache.gc now))
          ((cache.gc now).partials.lookup key) frag data processing now).2) := by
  unfold ReassemblyCache.insertWithOptionsAndFailures feedCell screen
  generalize expired : cache.gc now = current
  have limits : cache.limits = current.limits := by rw [← expired, gc_limits]
  rw [limits]
  cases normal : NormalizedFragment.new frag data.length with
  | none => rfl
  | some fragment =>
    simp only []
    by_cases long : current.limits.maxReassembledSize < (fragment.udpLength.getD 0).toNat
    · simp only [if_pos long]
      rfl
    simp only [if_neg long]
    by_cases large : (checkedAdd Length.udpHeader fragment.stop).all
        fun len => current.limits.maxReassembledSize < len
    · simp only [if_pos large]
      rfl
    simp only [if_neg large]
    cases found : current.partials.lookup key with
    | some held => simpa using insertPresent_eq found fragment data processing
    | none =>
      by_cases full : current.limits.maxPendingPartials ≤ current.len
      · simp [full, atCap, insertWithoutRetaining_eq, putCell_none_absent found]
      · have present : (current.partials.insert key (Partial.new now)).lookup key = some (Partial.new now) :=
          AList.lookup_insert _
        have free : atCap current = false := by simp [atCap, full]
        simp only [Option.isNone_none, if_true, if_neg full, free, Bool.false_eq_true, if_false]
        rw [insertPresent_eq present]
        simp only [Except.ok.injEq, Prod.mk.injEq, true_and]
        cases (feedHeld current.limits (Partial.new now) fragment data processing).2 with
        | some updated => simp [putCell]
        | none => simp only [putCell, erase_insert]

theorem NormalizedFragment.new_range {frag : Frag} {dataLen : Nat} {fragment : NormalizedFragment}
    (normal : NormalizedFragment.new frag dataLen = some fragment) :
    fragment.stop = fragment.start + dataLen ∧ fragment.udpLength = frag.rdos := by
  simp only [NormalizedFragment.new] at normal
  split at normal
  · cases normal
  · split at normal
    · cases normal
    next stop reached =>
      cases normal
      exact ⟨(checkedAdd_eq_some.mp reached).2.symm, rfl⟩

structure Screened (limits : ReassemblyLimits) (frag : Frag) (data : List UInt8) (fragment : NormalizedFragment) :
    Prop where
  normal : NormalizedFragment.new frag data.length = some fragment
  announced : (fragment.udpLength.getD 0).toNat ≤ limits.maxReassembledSize
  word : 8 + fragment.stop < 2 ^ 64
  ranged : Ranged limits fragment data

theorem screen_ok_iff {limits : ReassemblyLimits} {frag : Frag} {data : List UInt8}
    {fragment : NormalizedFragment} :
    screen limits frag data.length = .ok fragment ↔ Screened limits frag data fragment := by
  unfold screen
  constructor
  · intro passed
    split at passed
    · cases passed
    next fragment normal =>
      split at passed
      · cases passed
      next short =>
        split at passed
        · cases passed
        next small =>
          cases passed
          cases reached : checkedAdd Length.udpHeader fragment.stop with
          | none => simp [reached] at small
          | some len =>
            obtain ⟨word, rfl⟩ := checkedAdd_eq_some.mp reached
            simp only [reached, Option.all_some, decide_eq_true_eq, Nat.not_lt] at small
            exact ⟨normal, Nat.le_of_not_lt short, word, (NormalizedFragment.new_range normal).1, small⟩
  · intro screened
    have inside : Length.udpHeader + fragment.stop ≤ limits.maxReassembledSize := screened.ranged.inside
    simp only [screened.normal]
    rw [if_neg (Nat.not_lt.mpr screened.announced),
      checkedAdd_of_lt (show Length.udpHeader + fragment.stop < 2 ^ 64 from screened.word), if_neg]
    simpa using inside

/-- What a cell holds between operations. -/
structure Retained (limits : ReassemblyLimits) (held : Partial) : Prop where
  consistent : Consistent limits held
  counted : 0 < held.fragmentCount
  gap : ¬ Filled held

theorem Retained.observe {limits : ReassemblyLimits} {held : Partial} (retained : Retained limits held)
    (ocsNonzero : Option Bool) : Retained limits (held.observeFragmentOcs ocsNonzero) :=
  ⟨{ retained.consistent with }, retained.counted, retained.gap⟩

theorem new_fresh (now : Nat) (fragment : NormalizedFragment) (data : List UInt8) (options : List RawOption)
    (failures : List OptionKind) : (Partial.new now).isExactDuplicate fragment data options failures = false := by
  unfold Partial.isExactDuplicate
  cases fragment.udpLength <;> simp [Partial.new]

/-- A partial an insertion may start from: one just created, or a retained one. -/
def Feedable (limits : ReassemblyLimits) (held : Partial) : Prop :=
  Retained limits held ∨ ∃ now, held = Partial.new now

theorem Feedable.consistent {limits : ReassemblyLimits} {held : Partial} (feedable : Feedable limits held) :
    Consistent limits held := by
  rcases feedable with retained | ⟨now, rfl⟩
  · exact retained.consistent
  · exact consistent_new limits now

/-- What feeding a cell can do, from the partial it starts with. -/
inductive CellFed (limits : ReassemblyLimits) (full : Bool) (cell : Option Partial) (frag : Frag) (data : List UInt8)
    (processing : FragmentProcessing) (now : Nat) : ReassemblyOutcome × Option Partial → Prop where
  | aborted {reason : AbortReason} : CellFed limits full cell frag data processing now (.abort reason, none)
  | again {held : Partial} (present : cell = some held) :
      CellFed limits full cell frag data processing now
        (.incomplete, some (held.observeFragmentOcs processing.ocsNonzero))
  | pending {fragment : NormalizedFragment} {updated : Partial} (room : cell = none → full = false)
      (screened : Screened limits frag data fragment)
      (accepted : Accepted (cell.getD (Partial.new now)) fragment data processing limits updated)
      (gap : ¬ Filled updated) : CellFed limits full cell frag data processing now (.incomplete, some updated)
  | finished {fragment : NormalizedFragment} {updated : Partial} {udpLength : UInt16}
      (screened : Screened limits frag data fragment)
      (accepted : Accepted (cell.getD (Partial.new now)) fragment data processing limits updated)
      (filled : Filled updated) (known : updated.udpLength = some udpLength) :
      CellFed limits full cell frag data processing now (.complete (reassembledOf updated udpLength), none)

theorem feedable_start {limits : ReassemblyLimits} {cell : Option Partial}
    (before : ∀ held, cell = some held → Retained limits held) (now : Nat) :
    Feedable limits (cell.getD (Partial.new now)) := by
  cases cell with
  | none => exact .inr ⟨now, rfl⟩
  | some held => exact .inl (before held rfl)

theorem feedCell_fed {limits : ReassemblyLimits} {full : Bool} {cell : Option Partial} (frag : Frag)
    (data : List UInt8) (processing : FragmentProcessing) (now : Nat)
    (before : ∀ held, cell = some held → Retained limits held) :
    CellFed limits full cell frag data processing now (feedCell limits full cell frag data processing now) := by
  have feedable := feedable_start before now
  unfold feedCell
  split
  · exact .aborted
  next fragment passed =>
    have screened := screen_ok_iff.mp passed
    have step := insert_fed processing feedable.consistent screened.ranged
    cases cell with
    | some held =>
      rw [Option.getD_some] at step
      dsimp only [feedHeld]
      generalize held.insert fragment data processing limits = result at step
      cases step with
      | duplicate => exact .again rfl
      | refused => exact .aborted
      | pending _ accepted gap => exact .pending nofun screened accepted gap
      | finished _ accepted filled known => exact .finished screened accepted filled known
    | none =>
      rw [Option.getD_none] at step
      dsimp only [feedAlone, feedHeld]
      generalize (Partial.new now).insert fragment data processing limits = result at step
      cases step with
      | duplicate again =>
        rw [new_fresh] at again
        cases again
      | refused => cases full <;> exact .aborted
      | pending _ accepted gap =>
        cases full with
        | true => exact .aborted
        | false => exact .pending (fun _ => rfl) screened accepted gap
      | finished _ accepted filled known => cases full <;> exact .finished screened accepted filled known

theorem feedCell_retained {limits : ReassemblyLimits} {full : Bool} {cell : Option Partial} {updated : Partial}
    {frag : Frag} {data : List UInt8} {processing : FragmentProcessing} {now : Nat}
    (before : ∀ held, cell = some held → Retained limits held)
    (fed : (feedCell limits full cell frag data processing now).2 = some updated) :
    Retained limits updated ∧ (cell = none → full = false) := by
  have step := @feedCell_fed limits full cell frag data processing now before
  generalize feedCell limits full cell frag data processing now = result at step fed
  cases step with
  | aborted => cases fed
  | finished => cases fed
  | again present =>
    cases fed
    exact ⟨(before _ present).observe _, fun absent => by rw [present] at absent; cases absent⟩
  | pending room screened accepted gap =>
    cases fed
    refine ⟨⟨accepted.consistent (feedable_start before now).consistent screened.ranged, ?_, gap⟩, room⟩
    obtain ⟨noted, _, rfl⟩ := accepted.noted
    exact Nat.succ_pos _

/-- The representation invariant of the cache. -/
structure CacheValid (cache : ReassemblyCache) : Prop where
  pending : cache.len ≤ cache.limits.maxPendingPartials
  retained : ∀ key held, cache.partials.lookup key = some held → Retained cache.limits held

theorem cacheValid_empty (limits : ReassemblyLimits) : CacheValid (.withLimits limits) :=
  ⟨Nat.zero_le _, by simp [ReassemblyCache.withLimits]⟩

theorem CacheValid.gc {cache : ReassemblyCache} (valid : CacheValid cache) (now : Nat) :
    CacheValid (cache.gc now) := by
  refine ⟨Nat.le_trans (FiniteMap.size_retain_le _ _) valid.pending, ?_⟩
  intro key held present
  rw [lookup_gc, Option.filter_eq_some_iff] at present
  exact valid.retained key held present.1

theorem CacheValid.erase {cache : ReassemblyCache} (valid : CacheValid cache) (key : FragKey) :
    CacheValid (putCell cache key none) := by
  refine ⟨Nat.le_trans (FiniteMap.size_erase_le _ _) valid.pending, ?_⟩
  intro other held present
  by_cases same : other = key
  · subst same
    rw [lookup_putCell] at present
    cases present
  · rw [lookup_putCell_ne cache none same] at present
    exact valid.retained other held present

theorem CacheValid.put {cache : ReassemblyCache} {key : FragKey} {held : Partial} (valid : CacheValid cache)
    (retained : Retained cache.limits held)
    (room : cache.partials.lookup key = none → cache.len < cache.limits.maxPendingPartials) :
    CacheValid (putCell cache key (some held)) := by
  constructor
  · show FiniteMap.size (cache.partials.insert key held) ≤ cache.limits.maxPendingPartials
    cases found : cache.partials.lookup key with
    | none =>
      rw [FiniteMap.size_insert_absent found]
      exact room found
    | some old =>
      rw [FiniteMap.size_insert_present found]
      exact valid.pending
  · intro other value present
    by_cases same : other = key
    · subst same
      rw [lookup_putCell] at present
      cases present
      exact retained
    · rw [lookup_putCell_ne cache _ same] at present
      exact valid.retained other value present

/-- One insertion keeps the representation invariant. -/
theorem CacheValid.feed {cache : ReassemblyCache} (valid : CacheValid cache) (key : FragKey) (frag : Frag)
    (data : List UInt8) (processing : FragmentProcessing) (now : Nat) :
    CacheValid (putCell (cache.gc now) key (feedCell cache.limits (atCap (cache.gc now))
      ((cache.gc now).partials.lookup key) frag data processing now).2) := by
  have expired := valid.gc now
  cases fed : (feedCell cache.limits (atCap (cache.gc now)) ((cache.gc now).partials.lookup key) frag data processing
      now).2 with
  | none => exact expired.erase key
  | some updated =>
    obtain ⟨retained, free⟩ := feedCell_retained (expired.retained key) fed
    apply expired.put retained
    intro absent
    exact Nat.lt_of_not_le (of_decide_eq_false (free absent))

inductive CacheOp where
  | insert (key : FragKey) (frag : Frag) (data : List UInt8) (now : Nat)
  | insertWithOptions (key : FragKey) (frag : Frag) (data : List UInt8) (options : List RawOption) (now : Nat)
  | insertWithOptionsAndFailures (key : FragKey) (frag : Frag) (data : List UInt8) (processing : FragmentProcessing)
      (now : Nat)
  | discard (key : FragKey)
  | gc (now : Nat)
  deriving DecidableEq, Repr

/-- What an operation reports: the key and outcome of an insertion. -/
abbrev CacheReport := Option (FragKey × ReassemblyOutcome)

def CacheOp.apply : CacheOp → ReassemblyCache → Checked (CacheReport × ReassemblyCache)
  | .insert key frag data now, cache => do
    let (outcome, cache) ← cache.insert key frag data now
    return (some (key, outcome), cache)
  | .insertWithOptions key frag data options now, cache => do
    let (outcome, cache) ← cache.insertWithOptions key frag data options now
    return (some (key, outcome), cache)
  | .insertWithOptionsAndFailures key frag data processing now, cache => do
    let (outcome, cache) ← cache.insertWithOptionsAndFailures key frag data processing now
    return (some (key, outcome), cache)
  | .discard key, cache => return (none, cache.discard key)
  | .gc now, cache => return (none, cache.gc now)

abbrev runOps : List CacheOp → ReassemblyCache → Checked (List CacheReport × ReassemblyCache) := run CacheOp.apply

structure Insertion where
  key : FragKey
  frag : Frag
  data : List UInt8
  processing : FragmentProcessing
  now : Nat

def Insertion.fed (insertion : Insertion) (cache : ReassemblyCache) : ReassemblyOutcome × Option Partial :=
  feedCell cache.limits (atCap (cache.gc insertion.now)) ((cache.gc insertion.now).partials.lookup insertion.key)
    insertion.frag insertion.data insertion.processing insertion.now

def Insertion.after (insertion : Insertion) (cache : ReassemblyCache) : ReassemblyCache :=
  putCell (cache.gc insertion.now) insertion.key (insertion.fed cache).2

@[simp] theorem lookup_after (insertion : Insertion) (cache : ReassemblyCache) :
    (insertion.after cache).partials.lookup insertion.key = (insertion.fed cache).2 := lookup_putCell _ _ _

/-- An insertion does to other keys what expiry does. -/
theorem lookup_after_ne {insertion : Insertion} {key : FragKey} (cache : ReassemblyCache)
    (different : key ≠ insertion.key) :
    (insertion.after cache).partials.lookup key =
      (cache.partials.lookup key).filter fun held => !held.isExpired insertion.now cache.limits.timeout := by
  rw [Insertion.after, lookup_putCell_ne _ _ different, lookup_gc]

inductive CacheStep where
  | feed (insertion : Insertion)
  | discard (key : FragKey)
  | gc (now : Nat)

def CacheOp.step : CacheOp → CacheStep
  | .insert key frag data now => .feed ⟨key, frag, data, ⟨[], [], none⟩, now⟩
  | .insertWithOptions key frag data options now => .feed ⟨key, frag, data, ⟨options, [], none⟩, now⟩
  | .insertWithOptionsAndFailures key frag data processing now => .feed ⟨key, frag, data, processing, now⟩
  | .discard key => .discard key
  | .gc now => .gc now

def CacheStep.effect : CacheStep → ReassemblyCache → CacheReport × ReassemblyCache
  | .feed insertion, cache => (some (insertion.key, (insertion.fed cache).1), insertion.after cache)
  | .discard key, cache => (none, putCell cache key none)
  | .gc now, cache => (none, cache.gc now)

theorem apply_eq (op : CacheOp) (cache : ReassemblyCache) : op.apply cache = .ok (op.step.effect cache) := by
  cases op with
  | insert key frag data now =>
    simp [CacheOp.apply, ReassemblyCache.insert, ReassemblyCache.insertWithOptions, insertWithOptionsAndFailures_eq,
      CacheOp.step, CacheStep.effect, Insertion.fed, Insertion.after]
  | insertWithOptions key frag data options now =>
    simp [CacheOp.apply, ReassemblyCache.insertWithOptions, insertWithOptionsAndFailures_eq,
      CacheOp.step, CacheStep.effect, Insertion.fed, Insertion.after]
  | insertWithOptionsAndFailures key frag data processing now =>
    simp [CacheOp.apply, insertWithOptionsAndFailures_eq, CacheOp.step, CacheStep.effect, Insertion.fed,
      Insertion.after]
  | discard key => rfl
  | gc now => rfl

theorem CacheValid.effect {cache : ReassemblyCache} (valid : CacheValid cache) (step : CacheStep) :
    CacheValid (step.effect cache).2 := by
  cases step with
  | feed insertion => exact valid.feed _ _ _ _ _
  | discard key => exact valid.erase key
  | gc now => exact valid.gc now

@[simp] theorem effect_limits (step : CacheStep) (cache : ReassemblyCache) :
    (step.effect cache).2.limits = cache.limits := by
  cases step <;> simp [CacheStep.effect, Insertion.after]

theorem runOps_eq (ops : List CacheOp) (cache : ReassemblyCache) :
    runOps ops cache = .ok (trace (fun op => op.step.effect) ops cache) :=
  run_eq_trace apply_eq ops cache

/-- Every run from an empty cache ends in a valid cache with the same limits. -/
theorem run_valid (limits : ReassemblyLimits) (ops : List CacheOp) :
    ∃ reports cache, runOps ops (.withLimits limits) = .ok (reports, cache) ∧ CacheValid cache ∧
      cache.limits = limits := by
  have kept := trace_invariant (fun cache => CacheValid cache ∧ cache.limits = limits)
    (fun (op : CacheOp) cache before => ⟨before.1.effect op.step, (effect_limits op.step cache).trans before.2⟩) ops
    ⟨cacheValid_empty limits, rfl⟩
  exact ⟨_, _, runOps_eq ops _, kept⟩

/-- The documented shape of a retained partial datagram. -/
structure Representation (limits : ReassemblyLimits) (held : Partial) : Prop where
  segmentNonempty : ∀ segment ∈ held.segments, segment.start < segment.stop
  sortedByStart : held.segments.Pairwise fun first second => first.start < second.start
  disjoint : held.segments.Pairwise fun first second => first.stop ≤ second.start
  dataLength : ∀ segment ∈ held.segments, segment.data.length = segment.stop - segment.start
  segmentInside : ∀ segment ∈ held.segments, 8 + segment.stop ≤ limits.maxReassembledSize
  byteTotal : held.byteTotal = (held.segments.map fun segment => segment.stop - segment.start).sum
  byteTotalInside : 8 + held.byteTotal ≤ limits.maxReassembledSize
  counted : 1 ≤ held.fragmentCount
  countInside : held.fragmentCount ≤ limits.maxSegments
  segmentsCounted : held.segments.length ≤ held.fragmentCount
  terminal : held.terminalEnd.isSome = held.udpLength.isSome
  terminalReach : ∀ terminalEnd udpLength, held.terminalEnd = some terminalEnd → held.udpLength = some udpLength →
    8 ≤ udpLength.toNat ∧ udpLength.toNat - 8 ≤ terminalEnd
  terminalLast : ∀ terminalEnd, held.terminalEnd = some terminalEnd →
    ∀ segment ∈ held.segments, segment.stop ≤ terminalEnd
  incomplete : ∀ terminalEnd, held.terminalEnd = some terminalEnd →
    ¬ ∀ position < terminalEnd, ∃ segment ∈ held.segments, segment.start ≤ position ∧ position < segment.stop

theorem Retained.representation {limits : ReassemblyLimits} {held : Partial} (retained : Retained limits held) :
    Representation limits held := by
  obtain ⟨consistent, counted, gap⟩ := retained
  have ordered := consistent.ordered
  refine ⟨ordered.nonempty, ?_, ordered.sorted, consistent.lengths, consistent.inside, consistent.total,
    consistent.totalInside counted, counted, consistent.count counted, consistent.segmentCount, consistent.terminal,
    consistent.reach, consistent.below, ?_⟩
  · apply List.Pairwise.imp_of_mem _ ordered.sorted
    intro first second member _ apart
    exact Nat.lt_of_lt_of_le (ordered.nonempty first member) apart
  · intro terminalEnd ending covered
    apply gap
    apply (consistent.filled_iff ending).mpr
    intro position _ upper
    exact covered position upper

/-- After any sequence of operations from an empty cache every retained partial
has the documented shape, the pending cap holds, and no later insertion makes the
completion walk meet a segment behind its cursor. -/
theorem cache_representation (limits : ReassemblyLimits) (ops : List CacheOp) :
    ∃ reports cache, runOps ops (.withLimits limits) = .ok (reports, cache) ∧
      cache.len ≤ limits.maxPendingPartials ∧
      (∀ key held, cache.partials.lookup key = some held → Representation limits held) ∧
      ∀ key frag data processing now fragment updated,
        NormalizedFragment.new frag data.length = some fragment → 8 + fragment.stop ≤ limits.maxReassembledSize →
        (((cache.gc now).partials.lookup key).getD (Partial.new now)).accept fragment data processing limits =
          .ok updated →
        Partial.walk 0 updated.segments ≠ .error (.abort .overlap) ∧ updated.complete ≠ .abort .overlap := by
  obtain ⟨reports, cache, executed, valid, rfl⟩ := run_valid limits ops
  refine ⟨reports, cache, executed, valid.pending, fun key held present => ?_, ?_⟩
  · exact (valid.retained key held present).representation
  · intro key frag data processing now fragment updated normal inside equal
    have feedable : Feedable cache.limits (((cache.gc now).partials.lookup key).getD (Partial.new now)) := by
      cases found : (cache.gc now).partials.lookup key with
      | none => exact .inr ⟨now, rfl⟩
      | some held => exact .inl ((valid.gc now).retained key held found)
    have ranged : Ranged cache.limits fragment data := ⟨(NormalizedFragment.new_range normal).1, inside⟩
    have kept := (accept_iff.mp equal).consistent feedable.consistent ranged
    constructor
    · intro behind
      rcases walk_of_ordered kept.ordered (fun _ _ => Nat.zero_le _) with ⟨high, walked⟩ | walked
      · cases walked.symm.trans behind
      · cases walked.symm.trans behind
    · intro behind
      rcases kept.complete_cases with ⟨udpLength, _, _, finished⟩ | ⟨_, unfinished⟩
      · cases finished.symm.trans behind
      · cases unfinished.symm.trans behind

end UdpOptions.Proofs
