import UdpOptions.Proofs.Duplicates

/-! The pending cap. At the cap a fragment under a new key is fed to a partial that is
thrown away. It has the outcome it would have with one more slot, except that there is
nothing to wait in, and the partials in the cache are left alone. -/

namespace UdpOptions.Proofs
open Library Library.Intervals Model

def oneMoreSlot (cache : ReassemblyCache) : ReassemblyCache :=
  { cache with limits := { cache.limits with maxPendingPartials := cache.limits.maxPendingPartials + 1 } }

/-- The outcome of a fragment that has nothing to wait in. -/
def unlessPending : ReassemblyOutcome → ReassemblyOutcome
  | .incomplete => .abort .limitExceeded
  | .complete reassembled => .complete reassembled
  | .abort reason => .abort reason

section
variable {limits : ReassemblyLimits} {full : Bool} {cell : Option Partial} {frag : Frag} {data : List UInt8}
  {processing : FragmentProcessing} {now : Nat}

private theorem feedHeld_aborted {held : Partial} {fragment : NormalizedFragment} {reason : AbortReason}
    (outcome : (feedHeld limits held fragment data processing).1 = .abort reason) :
    (feedHeld limits held fragment data processing).2 = none := by
  unfold feedHeld at outcome ⊢
  split at outcome
  · cases outcome
  · rfl

private theorem feedCell_aborted {reason : AbortReason}
    (outcome : (feedCell limits full cell frag data processing now).1 = .abort reason) :
    (feedCell limits full cell frag data processing now).2 = none := by
  unfold feedCell at outcome ⊢
  split at outcome
  · rfl
  · split at outcome
    · exact feedHeld_aborted outcome
    · split at outcome
      next capped => rw [if_pos capped]
      next free =>
        rw [if_neg free]
        exact feedHeld_aborted outcome

private theorem feedCell_capped :
    feedCell limits true none frag data processing now =
      (unlessPending (feedCell limits false none frag data processing now).1, none) := by
  unfold feedCell
  split
  · rfl
  · simp only [if_true, Bool.false_eq_true, if_false, feedAlone]
    cases (feedHeld limits (Partial.new now) _ data processing).1 <;> rfl

end

/-- An atomic fragment: it starts at the front and announces the length, and it is alone
within the limits. -/
structure AtomicWithin (limits : ReassemblyLimits) (frag : Frag) (data : List UInt8) (rdos : UInt16) : Prop where
  offset : frag.fragOffset = 0
  announced : frag.rdos = some rdos
  segments : 1 ≤ limits.maxSegments
  size : 8 + data.length ≤ limits.maxReassembledSize
  length : rdos.toNat ≤ limits.maxReassembledSize
  word : 8 + data.length < 2 ^ 64

section
variable {limits : ReassemblyLimits} {frag : Frag} {data : List UInt8} {rdos : UInt16} {now : Nat}
  {processing : FragmentProcessing}

theorem AtomicWithin.screened (atomic : AtomicWithin limits frag data rdos) :
    Screened limits frag data ⟨0, data.length, some rdos⟩ := by
  have word := atomic.word
  refine ⟨?_, atomic.length, word, (Nat.zero_add _).symm, atomic.size⟩
  have reached : checkedAdd 0 data.length = some data.length := by
    rw [checkedAdd_of_lt (by omega), Nat.zero_add]
  simp [NormalizedFragment.new, atomic.offset, atomic.announced, reached]

def atomicPartial (data : List UInt8) (processing : FragmentProcessing) (rdos : UInt16) (now : Nat) : Partial :=
  Partial.record { Partial.new now with
    terminalEnd := some data.length
    udpLength := some rdos
    emptyTerminalOptions := if data.isEmpty then some processing.options else none
    emptyTerminalOptionFailures := if data.isEmpty then some processing.optionFailures else none }
    ⟨0, data.length, some rdos⟩ data processing 1 data.length

theorem AtomicWithin.accepted (atomic : AtomicWithin limits frag data rdos) (header : 8 ≤ rdos.toNat)
    (reach : rdos.toNat ≤ 8 + data.length) :
    Accepted (Partial.new now) ⟨0, data.length, some rdos⟩ data processing limits
      (atomicPartial data processing rdos now) where
  countWord := show 0 + 1 < 2 ^ 64 by decide
  count := atomic.segments
  totalWord := by
    have word := atomic.word
    simp only [Partial.new]
    omega
  total := by
    have size := atomic.size
    simp only [Partial.new]
    omega
  apart := by simp [Partial.overlaps, Partial.new]
  within := by
    intro terminalEnd known
    cases known
  noted := by
    have inside : rdos.toNat - 8 ≤ data.length := by omega
    refine ⟨_, .first rfl header inside rfl rfl (List.forall_mem_nil _), ?_⟩
    simp [atomicPartial, Partial.new]

private theorem atomicPartial_filled : Filled (atomicPartial data processing rdos now) ∧
    (atomicPartial data processing rdos now).segments.flatMap Segment.data = data := by
  cases data with
  | nil => exact ⟨⟨0, rfl, rfl⟩, rfl⟩
  | cons byte rest =>
    refine ⟨⟨_, rfl, rfl, rfl⟩, ?_⟩
    exact List.append_nil _

/-- Alone under a new key, an atomic fragment completes exactly when its RDOS lies between
the UDP header and the end of its data. -/
theorem AtomicWithin.completes_iff (atomic : AtomicWithin limits frag data rdos) (full : Bool) :
    (∃ reassembled, (feedCell limits full none frag data processing now).1 = .complete reassembled ∧
        reassembled.tail = data ∧ reassembled.udpLength = rdos) ↔
      8 ≤ rdos.toNat ∧ rdos.toNat ≤ 8 + data.length := by
  constructor
  · intro ⟨reassembled, outcome, _⟩
    have nothing : ∀ held, none = some held → Retained limits held := by
      intro held impossible
      cases impossible
    have step := @feedCell_fed limits full none frag data processing now nothing
    generalize feedCell limits full none frag data processing now = fed at step outcome
    cases step with
    | aborted => cases outcome
    | again present => cases present
    | pending => cases outcome
    | finished screened accepted =>
      cases screened.normal.symm.trans atomic.screened.normal
      obtain ⟨noted, noting, _⟩ := accepted.noted
      cases noting with
      | middle plain => cases plain
      | first announced header reach =>
        cases announced
        exact ⟨header, by dsimp only at reach; omega⟩
      | again _ _ _ ending => cases ending
  · intro ⟨header, reach⟩
    obtain ⟨filled, tail⟩ := @atomicPartial_filled data rdos now processing
    have new : ¬ Recognized (Partial.new now) ⟨0, data.length, some rdos⟩ data processing :=
      not_recognized (new_fresh now _ _ _ _)
    have fed := feedHeld_finished new (atomic.accepted header reach) filled rfl
    refine ⟨reassembledOf (atomicPartial data processing rdos now) rdos, ?_, tail, rfl⟩
    rw [feedCell, screen_ok_iff.mpr atomic.screened]
    cases full with
    | true => simp only [feedAlone, fed, if_true]
    | false => simp only [fed, Bool.false_eq_true, if_false]

end

section
variable {cache : ReassemblyCache} {key : FragKey} {now : Nat}

/-- At the cap the cell of a new key is fed as with one more slot, but nothing is kept. -/
theorem insert_at_cap (full : (cache.gc now).len = cache.limits.maxPendingPartials)
    (new : (cache.gc now).partials.lookup key = none) (frag : Frag) (data : List UInt8)
    (processing : FragmentProcessing) :
    ∃ roomy after, (oneMoreSlot cache).insertWithOptionsAndFailures key frag data processing now = .ok (roomy, after) ∧
      cache.insertWithOptionsAndFailures key frag data processing now = .ok (unlessPending roomy, cache.gc now) := by
  have atCapacity : atCap (cache.gc now) = true := decide_eq_true (Nat.le_of_eq full.symm)
  have withRoom : atCap ((oneMoreSlot cache).gc now) = false := by
    apply decide_eq_false
    change ¬ cache.limits.maxPendingPartials + 1 ≤ (cache.gc now).len
    omega
  have newThere : ((oneMoreSlot cache).gc now).partials.lookup key = none := new
  refine ⟨_, _, insertWithOptionsAndFailures_eq _ key frag data processing now, ?_⟩
  rw [insertWithOptionsAndFailures_eq, atCapacity, new, withRoom, newThere, feedCell_capped]
  simp only [putCell_none_absent new]
  rfl

/-- An abort leaves no partial under the key. At the cap a fragment under a new key has the
outcome it would have with one more slot, unless it would be pending, and the unexpired
partials stay as they are. An atomic fragment within the limits completes under a new key,
whatever the cache holds. -/
theorem pending_cap (cache : ReassemblyCache) (key : FragKey) (frag : Frag) (data : List UInt8)
    (processing : FragmentProcessing) (now : Nat) :
    (∀ reason after, cache.insertWithOptionsAndFailures key frag data processing now = .ok (.abort reason, after) →
      after.partials.lookup key = none) ∧
    ((cache.gc now).len = cache.limits.maxPendingPartials → (cache.gc now).partials.lookup key = none →
      ∃ roomy roomyAfter after,
        (oneMoreSlot cache).insertWithOptionsAndFailures key frag data processing now = .ok (roomy, roomyAfter) ∧
        cache.insertWithOptionsAndFailures key frag data processing now = .ok (unlessPending roomy, after) ∧
        ∀ other held, after.partials.lookup other = some held ↔
          cache.partials.lookup other = some held ∧ held.isExpired now cache.limits.timeout = false) ∧
    (∀ rdos, AtomicWithin cache.limits frag data rdos → (cache.gc now).partials.lookup key = none →
      ((∃ reassembled after,
          cache.insertWithOptionsAndFailures key frag data processing now = .ok (.complete reassembled, after) ∧
          reassembled.tail = data ∧ reassembled.udpLength = rdos) ↔
        8 ≤ rdos.toNat ∧ rdos.toNat ≤ 8 + data.length)) := by
  refine ⟨?_, ?_, ?_⟩
  · intro reason after inserted
    rw [insertWithOptionsAndFailures_eq] at inserted
    obtain ⟨outcome, rfl⟩ := Prod.mk.inj (Except.ok.inj inserted)
    rw [lookup_putCell, feedCell_aborted outcome]
  · intro full new
    obtain ⟨roomy, roomyAfter, withRoom, inserted⟩ := insert_at_cap full new frag data processing
    refine ⟨roomy, roomyAfter, cache.gc now, withRoom, inserted, ?_⟩
    intro other held
    rw [lookup_gc, Option.filter_eq_some_iff, Bool.not_eq_true']
  · intro rdos atomic new
    rw [← @AtomicWithin.completes_iff cache.limits frag data rdos now processing atomic (atCap (cache.gc now)),
      insertWithOptionsAndFailures_eq, new]
    constructor
    · intro ⟨reassembled, after, inserted, shape⟩
      exact ⟨reassembled, (Prod.mk.inj (Except.ok.inj inserted)).1, shape⟩
    · intro ⟨reassembled, outcome, shape⟩
      exact ⟨reassembled, _, by rw [outcome], shape⟩

end

private def crowdedKey (identification : UInt32) : FragKey :=
  ⟨⟨192, 0, 2, 1⟩, ⟨192, 0, 2, 2⟩, 1000, 2000, identification⟩

private def crowdedCache : ReassemblyCache :=
  Insertion.after ⟨crowdedKey 1, ⟨20, 1, 8, none⟩, [7], ⟨[], [], none⟩, 0⟩
    (.withLimits { ReassemblyLimits.default with maxPendingPartials := 1 })

theorem pending_cap_crowded :
    (crowdedCache.gc 0).len = crowdedCache.limits.maxPendingPartials ∧
      ∃ reassembled after,
        crowdedCache.insertWithOptionsAndFailures (crowdedKey 2) ⟨22, 2, 0, some 10⟩ [1, 2] ⟨[], [], none⟩ 0 =
          .ok (.complete reassembled, after) ∧
        reassembled.tail = [1, 2] ∧ reassembled.udpLength = 10 := by
  have atomic : AtomicWithin crowdedCache.limits ⟨22, 2, 0, some 10⟩ [1, 2] 10 :=
    ⟨rfl, rfl, by decide, by decide, by decide, by decide⟩
  have completes := (pending_cap crowdedCache (crowdedKey 2) ⟨22, 2, 0, some 10⟩ [1, 2] ⟨[], [], none⟩ 0).2.2 10 atomic rfl
  exact ⟨rfl, completes.mpr ⟨by decide, by decide⟩⟩

end UdpOptions.Proofs
