import UdpOptions.Proofs.CacheInvariant

/-! Keys do not see each other. Operations on other keys and garbage collection
only expire the cell of a key, and only when the next insertion for that key
would have expired it as well. The full run and the run of one key alone are
therefore related by equality of live cells. -/

namespace UdpOptions.Proofs
open Library Model

def CacheStep.instant? : CacheStep → Option Nat
  | .feed insertion => some insertion.now
  | .discard _ => none
  | .gc now => some now

/-- The key a step is about; garbage collection is about none. -/
def CacheStep.key? : CacheStep → Option FragKey
  | .feed insertion => some insertion.key
  | .discard key => some key
  | .gc _ => none

def CacheOp.instant? (op : CacheOp) : Option Nat := op.step.instant?

def CacheOp.key? (op : CacheOp) : Option FragKey := op.step.key?

/-- The cap turns a fragment that would have opened a partial into an abort. -/
def Insertion.Refused (insertion : Insertion) (cache : ReassemblyCache) : Prop :=
  (cache.gc insertion.now).partials.lookup insertion.key = none ∧
    cache.limits.maxPendingPartials ≤ (cache.gc insertion.now).len ∧
    ∃ fragment, screen cache.limits insertion.frag insertion.data.length = .ok fragment ∧
      ((Partial.new insertion.now).insert fragment insertion.data insertion.processing cache.limits).1 = .incomplete

/-- The operation is not an insertion for the key that the cap refuses. -/
def CacheStep.Admitted (key : FragKey) : CacheStep → ReassemblyCache → Prop
  | .feed insertion, cache => insertion.key = key → ¬ insertion.Refused cache
  | .discard _, _ => True
  | .gc _, _ => True

def CacheOp.Admitted (key : FragKey) (op : CacheOp) (cache : ReassemblyCache) : Prop := op.step.Admitted key cache

def outcomesFor (key : FragKey) (reports : List CacheReport) : List ReassemblyOutcome :=
  reports.filterMap fun report => report.bind fun (owner, outcome) => if owner = key then some outcome else none

/-- The cell that an insertion for the key at this instant would find. -/
def liveCell (cache : ReassemblyCache) (key : FragKey) (now : Nat) : Option Partial :=
  (cache.gc now).partials.lookup key

theorem isExpired_mono {held : Partial} {before after timeout : Nat} (later : before ≤ after)
    (expired : held.isExpired before timeout = true) : held.isExpired after timeout = true := by
  simp only [Partial.isExpired, decide_eq_true_eq] at expired ⊢
  omega

theorem liveCell_eq_some {cache : ReassemblyCache} {key : FragKey} {now : Nat} {held : Partial} :
    liveCell cache key now = some held ↔
      cache.partials.lookup key = some held ∧ held.isExpired now cache.limits.timeout = false := by
  rw [liveCell, lookup_gc, Option.filter_eq_some_iff, Bool.not_eq_true']

private theorem liveCell_later (cache : ReassemblyCache) (key : FragKey) {before after : Nat} (later : before ≤ after) :
    liveCell cache key after =
      (liveCell cache key before).filter fun held => !held.isExpired after cache.limits.timeout := by
  simp only [liveCell, lookup_gc, Option.filter_filter]
  congr 1
  funext held
  cases early : held.isExpired before cache.limits.timeout with
  | false => simp
  | true => simp [isExpired_mono later early]

private theorem liveCell_gc (cache : ReassemblyCache) (key : FragKey) (now : Nat) :
    liveCell (cache.gc now) key now = liveCell cache key now := by
  simp only [liveCell, lookup_gc, gc_limits, Option.filter_filter, Bool.and_self]

private theorem liveCell_putCell_ne {key other : FragKey} (cache : ReassemblyCache) (cell : Option Partial) (now : Nat)
    (different : other ≠ key) : liveCell (putCell cache key cell) other now = liveCell cache other now := by
  simp only [liveCell, lookup_gc, putCell_limits, lookup_putCell_ne cache cell different]

/-- The run of one key alone agrees with the full run on what the key finds from
this instant on, and holds nothing else. -/
structure Shadows (key : FragKey) (clock : Nat) (full alone : ReassemblyCache) : Prop where
  limits : alone.limits = full.limits
  live : liveCell alone key clock = liveCell full key clock
  solitary : ∀ other, other ≠ key → alone.partials.lookup other = none

theorem Shadows.later {key : FragKey} {clock now : Nat} {full alone : ReassemblyCache}
    (shadows : Shadows key clock full alone) (later : clock ≤ now) : Shadows key now full alone := by
  refine ⟨shadows.limits, ?_, shadows.solitary⟩
  rw [liveCell_later alone key later, liveCell_later full key later, shadows.live, shadows.limits]

theorem Shadows.gc {key : FragKey} {now : Nat} {full alone : ReassemblyCache}
    (shadows : Shadows key now full alone) : Shadows key now (full.gc now) alone :=
  ⟨shadows.limits, by rw [liveCell_gc, shadows.live], shadows.solitary⟩

theorem Shadows.other {key other : FragKey} {clock : Nat} {full alone : ReassemblyCache}
    (shadows : Shadows key clock full alone) (cell : Option Partial) (different : other ≠ key) :
    Shadows key clock (putCell full other cell) alone :=
  ⟨by rw [putCell_limits, shadows.limits],
    by rw [liveCell_putCell_ne full cell clock different.symm, shadows.live], shadows.solitary⟩

theorem Shadows.put {key : FragKey} {clock : Nat} {full alone : ReassemblyCache}
    (shadows : Shadows key clock full alone) (cell : Option Partial) :
    Shadows key clock (putCell full key cell) (putCell alone key cell) := by
  refine ⟨by rw [putCell_limits, putCell_limits, shadows.limits], ?_, ?_⟩
  · simp only [liveCell, lookup_gc, lookup_putCell, putCell_limits, shadows.limits]
  · intro other different
    rw [lookup_putCell_ne alone cell different]
    exact shadows.solitary other different

private theorem len_zero_of_absent {cache : ReassemblyCache} (absent : ∀ key, cache.partials.lookup key = none) :
    cache.len = 0 := by
  rw [ReassemblyCache.len, FiniteMap.size_eq_keys, List.length_eq_zero_iff]
  apply List.eq_nil_iff_forall_not_mem.mpr
  intro key member
  exact AList.lookup_eq_none.mp (absent key) (AList.mem_keys.mpr member)

theorem Shadows.empty {key : FragKey} {now : Nat} {full alone : ReassemblyCache}
    (shadows : Shadows key now full alone) (absent : liveCell full key now = none) : (alone.gc now).len = 0 := by
  apply len_zero_of_absent
  intro other
  by_cases same : other = key
  · subst same
    exact shadows.live.trans absent
  · rw [lookup_gc, shadows.solitary other same]
    rfl

private theorem feedCell_uncapped {limits : ReassemblyLimits} {full : Bool} {cell : Option Partial} {frag : Frag}
    {data : List UInt8} {processing : FragmentProcessing} {now : Nat}
    (admitted : cell = none → full = true → ∀ fragment, screen limits frag data.length = .ok fragment →
      ((Partial.new now).insert fragment data processing limits).1 ≠ .incomplete) :
    feedCell limits full cell frag data processing now = feedCell limits false cell frag data processing now := by
  cases full with
  | false => rfl
  | true =>
    unfold feedCell
    split
    · rfl
    next fragment passed =>
      cases cell with
      | some held => rfl
      | none =>
        have settled := admitted rfl rfl fragment passed
        simp only [if_true, Bool.false_eq_true, if_false, feedAlone, feedHeld]

theorem Shadows.fed {full alone : ReassemblyCache} {insertion : Insertion}
    (shadows : Shadows insertion.key insertion.now full alone) (admitted : ¬ insertion.Refused full) :
    insertion.fed alone = insertion.fed full := by
  have same : (alone.gc insertion.now).partials.lookup insertion.key =
      (full.gc insertion.now).partials.lookup insertion.key := shadows.live
  unfold Insertion.fed
  rw [same, shadows.limits]
  refine (feedCell_uncapped ?_).trans (feedCell_uncapped ?_).symm
  · intro absent capped fragment passed opened
    have none : (alone.gc insertion.now).len = 0 := shadows.empty absent
    have cap : full.limits.maxPendingPartials = 0 := by
      have bound := of_decide_eq_true capped
      rw [none, gc_limits, shadows.limits] at bound
      exact Nat.le_zero.mp bound
    exact admitted ⟨absent, by rw [cap]; exact Nat.zero_le _, fragment, passed, opened⟩
  · intro absent capped fragment passed opened
    exact admitted ⟨absent, of_decide_eq_true capped, fragment, passed, opened⟩

theorem Shadows.after {full alone : ReassemblyCache} {insertion : Insertion}
    (shadows : Shadows insertion.key insertion.now full alone) (admitted : ¬ insertion.Refused full) :
    Shadows insertion.key insertion.now (insertion.after full) (insertion.after alone) := by
  unfold Insertion.after
  rw [shadows.fed admitted]
  apply Shadows.put
  refine ⟨shadows.limits, ?_, ?_⟩
  · rw [liveCell_gc, liveCell_gc, shadows.live]
  · intro other different
    rw [lookup_gc, shadows.solitary other different]
    rfl

private theorem outcomesFor_cons (key : FragKey) (report : CacheReport) (reports : List CacheReport) :
    outcomesFor key (report :: reports) = outcomesFor key [report] ++ outcomesFor key reports := by
  simp only [outcomesFor, ← List.filterMap_append, List.singleton_append]

/-- A step about another key, or about none, leaves the shadow in place. -/
theorem Shadows.unrelated {key : FragKey} {clock : Nat} {full alone : ReassemblyCache} {step : CacheStep}
    (shadows : Shadows key clock full alone) (other : step.key? ≠ some key)
    (later : ∀ now, step.instant? = some now → clock ≤ now) :
    Shadows key (step.instant?.getD clock) (step.effect full).2 alone ∧
      outcomesFor key [(step.effect full).1] = [] := by
  cases step with
  | feed insertion =>
    have different : insertion.key ≠ key := fun same => other (congrArg some same)
    refine ⟨((shadows.later (later insertion.now rfl)).gc).other _ different, ?_⟩
    simp [outcomesFor, CacheStep.effect, different]
  | discard owner =>
    have different : owner ≠ key := fun same => other (congrArg some same)
    exact ⟨shadows.other none different, rfl⟩
  | gc now => exact ⟨(shadows.later (later now rfl)).gc, rfl⟩

/-- A step about the key reports the same in both runs. -/
theorem Shadows.related {key : FragKey} {clock : Nat} {full alone : ReassemblyCache} {step : CacheStep}
    (shadows : Shadows key clock full alone) (own : step.key? = some key)
    (later : ∀ now, step.instant? = some now → clock ≤ now) (admitted : step.Admitted key full) :
    Shadows key (step.instant?.getD clock) (step.effect full).2 (step.effect alone).2 ∧
      (step.effect alone).1 = (step.effect full).1 := by
  cases step with
  | feed insertion =>
    obtain rfl := Option.some.inj own
    have reached := shadows.later (later insertion.now rfl)
    have allowed := admitted rfl
    refine ⟨reached.after allowed, ?_⟩
    simp only [CacheStep.effect, reached.fed allowed]
  | discard owner =>
    obtain rfl := Option.some.inj own
    exact ⟨shadows.put none, rfl⟩
  | gc now => cases own

/-- Along a run with non-decreasing instants the shadow persists, and the key's
insertions report the same outcomes. -/
theorem Shadows.run {key : FragKey} (ops : List CacheOp) {clock : Nat} {full alone : ReassemblyCache}
    (shadows : Shadows key clock full alone) (ordered : (ops.filterMap CacheOp.instant?).Pairwise (· ≤ ·))
    (later : ∀ now ∈ ops.filterMap CacheOp.instant?, clock ≤ now)
    (admitted : Throughout (fun op : CacheOp => op.step.effect) (CacheOp.Admitted key) ops full) :
    outcomesFor key (trace (fun op : CacheOp => op.step.effect) ops full).1 =
      outcomesFor key (trace (fun op : CacheOp => op.step.effect)
        (ops.filter fun op => op.key? = some key) alone).1 := by
  induction ops generalizing clock full alone with
  | nil => rfl
  | cons op rest ih =>
    have now : ∀ now, op.step.instant? = some now → clock ≤ now := by
      intro now known
      exact later now (List.mem_filterMap.mpr ⟨op, by simp, known⟩)
    have restOrdered : (rest.filterMap CacheOp.instant?).Pairwise (· ≤ ·) :=
      ordered.sublist (List.Sublist.filterMap _ (List.sublist_cons_self op rest))
    have restLater : ∀ next ∈ rest.filterMap CacheOp.instant?, op.instant?.getD clock ≤ next := by
      intro next member
      cases known : op.instant? with
      | none => exact later next (by rw [List.filterMap_cons, known]; exact member)
      | some current =>
        rw [List.filterMap_cons, known] at ordered
        exact (List.pairwise_cons.mp ordered).1 next member
    by_cases own : op.key? = some key
    · obtain ⟨kept, same⟩ := shadows.related own now admitted.1
      rw [List.filter_cons_of_pos (by simpa using own), trace_cons, trace_cons, outcomesFor_cons,
        outcomesFor_cons key (op.step.effect alone).1, same, ih kept restOrdered restLater admitted.2]
    · obtain ⟨kept, silent⟩ := shadows.unrelated own now
      rw [List.filter_cons_of_neg (by simpa using own), trace_cons, outcomesFor_cons, silent, List.nil_append]
      exact ih kept restOrdered restLater admitted.2

/-- Deleting every operation on other keys and every garbage collection from a
run leaves the outcomes of a key's insertions unchanged, as long as the pending
cap refuses none of them. -/
theorem key_isolation (limits : ReassemblyLimits) (key : FragKey) (ops : List CacheOp)
    (ordered : (ops.filterMap CacheOp.instant?).Pairwise (· ≤ ·))
    (admitted : Throughout (fun op : CacheOp => op.step.effect) (CacheOp.Admitted key) ops (.withLimits limits)) :
    ∃ full alone fullCache aloneCache,
      runOps ops (.withLimits limits) = .ok (full, fullCache) ∧
      runOps (ops.filter fun op => op.key? = some key) (.withLimits limits) = .ok (alone, aloneCache) ∧
      outcomesFor key alone = outcomesFor key full := by
  refine ⟨_, _, _, _, runOps_eq _ _, runOps_eq _ _, ?_⟩
  have start : Shadows key 0 (.withLimits limits) (.withLimits limits) := ⟨rfl, rfl, fun _ _ => rfl⟩
  exact (start.run ops ordered (fun _ _ => Nat.zero_le _) admitted).symm

def interleavedKey (identification : UInt32) : FragKey :=
  ⟨⟨192, 0, 2, 1⟩, ⟨192, 0, 2, 2⟩, 1000, 2000, identification⟩

def interleavedOps : List CacheOp :=
  [.insert (interleavedKey 1) ⟨20, 1, 8, none⟩ [1, 2] 0, .insert (interleavedKey 2) ⟨20, 2, 8, none⟩ [7] 1, .gc 2,
    .discard (interleavedKey 2), .insert (interleavedKey 1) ⟨22, 1, 10, some 11⟩ [3] 3]

theorem key_isolation_interleaved :
    ∃ full alone fullCache aloneCache,
      runOps interleavedOps (.withLimits .default) = .ok (full, fullCache) ∧
      runOps (interleavedOps.filter fun op => op.key? = some (interleavedKey 1)) (.withLimits .default) =
        .ok (alone, aloneCache) ∧
      outcomesFor (interleavedKey 1) alone = outcomesFor (interleavedKey 1) full :=
  key_isolation .default (interleavedKey 1) interleavedOps (by decide)
    ⟨fun _ refused => absurd refused.2.1 (by decide +kernel), fun other => absurd other (by decide), trivial, trivial,
      fun _ refused => absurd refused.2.1 (by decide +kernel), trivial⟩

end UdpOptions.Proofs
