import UdpOptions.Proofs.Rivals

/-! Two insertions in either order. The second one feeds the partial that the first
one left, so whether it aborts is decided between the two fragments and the partial
that the first one found. -/

namespace UdpOptions.Proofs
open Library Library.Intervals Model

structure Arrival where
  frag : Frag
  data : List UInt8
  processing : FragmentProcessing

namespace Arrival

def insertion (arrival : Arrival) (key : FragKey) (now : Nat) : Insertion :=
  ⟨key, arrival.frag, arrival.data, arrival.processing, now⟩

def op (arrival : Arrival) (key : FragKey) (now : Nat) : CacheOp :=
  .insertWithOptionsAndFailures key arrival.frag arrival.data arrival.processing now

def offer (arrival : Arrival) (range : NormalizedFragment) : Offer := ⟨range, arrival.data, arrival.processing⟩

end Arrival

/-- The lopsided cases, for two fragments that arrive at a partial. -/
def OrderCounts (limits : ReassemblyLimits) (held : Partial) (last other : Arrival) : Prop :=
  ∃ range otherRange, NormalizedFragment.new last.frag last.data.length = some range ∧
    NormalizedFragment.new other.frag other.data.length = some otherRange ∧
    Lopsided limits held (last.offer range) (other.offer otherRange)

/-- The partial that an insertion finds, or the one it starts with. -/
def foundPartial (cache : ReassemblyCache) (key : FragKey) (now : Nat) : Partial :=
  ((cache.gc now).partials.lookup key).getD (Partial.new now)

section
variable {cache : ReassemblyCache} {key : FragKey} {now : Nat} {first second : Arrival}

private theorem gc_timeless (still : cache.limits.timeout = 0) : cache.gc now = .withLimits cache.limits := by
  have nothing : FiniteMap.retain (fun held => !held.isExpired now cache.limits.timeout) cache.partials = ∅ := by
    apply AList.ext
    simp [FiniteMap.retain, still, expired_at_once]
  rw [ReassemblyCache.gc, nothing]
  rfl

private theorem fed_timeless {other : ReassemblyCache} (still : cache.limits.timeout = 0)
    (same : other.limits = cache.limits) (insertion : Insertion) : insertion.fed other = insertion.fed cache := by
  rw [Insertion.fed, Insertion.fed, gc_timeless still, gc_timeless (by rw [same]; exact still), same]

private theorem two_outcomes {one latter : ReassemblyOutcome} {final : ReassemblyCache}
    (ran : runOps [first.op key now, second.op key now] cache = .ok ([some (key, one), some (key, latter)], final)) :
    ((first.insertion key now).fed cache).1 = one ∧
      ((second.insertion key now).fed ((first.insertion key now).after cache)).1 = latter := by
  rw [runOps_eq] at ran
  have reports := congrArg Prod.fst (Except.ok.inj ran)
  simp only [trace, Arrival.op, CacheOp.step, CacheStep.effect, List.cons.injEq, Option.some.injEq, Prod.mk.injEq,
    true_and, and_true] at reports
  exact reports

private theorem second_fed {one : Partial} {range : NormalizedFragment} (lasting : 0 < cache.limits.timeout)
    (left : (first.insertion key now).fed cache = (.incomplete, some one))
    (since : one.receivedAt = (foundPartial cache key now).receivedAt)
    (screened : Screened cache.limits second.frag second.data range) :
    (second.insertion key now).fed ((first.insertion key now).after cache) =
      feedHeld cache.limits one range second.data second.processing := by
  have young : one.isExpired now cache.limits.timeout = false := by
    have start := @start_young cache key now lasting
    rw [Partial.isExpired] at start ⊢
    rw [since]
    exact start
  have present : ((first.insertion key now).after cache).partials.lookup key = some one :=
    (lookup_after (first.insertion key now) cache).trans (congrArg Prod.snd left)
  have cell : (((first.insertion key now).after cache).gc now).partials.lookup key = some one := by
    rw [lookup_gc, present, Option.filter_some, after_limits, young]
    rfl
  rw [Insertion.fed, feedCell, after_limits]
  simp only [Arrival.insertion, screen_ok_iff.mpr screened]
  rw [Arrival.insertion] at cell
  rw [cell]

private theorem second_aborts {one : Partial} {range : NormalizedFragment} (valid : CacheValid cache)
    (lasting : 0 < cache.limits.timeout) (left : (first.insertion key now).fed cache = (.incomplete, some one))
    (screened : Screened cache.limits second.frag second.data range) :
    (∃ reason, ((second.insertion key now).fed ((first.insertion key now).after cache)).1 = .abort reason) ↔
      (second.offer range).Refused cache.limits one := by
  have grows : Grows cache.limits (foundPartial cache key now) one :=
    @fed_start cache (first.insertion key now) one valid (congrArg Prod.snd left)
  have retained := (valid.after (first.insertion key now)).retained key one
    ((lookup_after (first.insertion key now) cache).trans (congrArg Prod.snd left))
  rw [after_limits] at retained
  rw [second_fed lasting left grows.extends.since screened]
  exact @feedHeld_abort_iff _ one (second.offer range) retained.consistent screened.ranged

end

section
variable {crc32c : List UInt8 → UInt32}

/-- Whether the second of two insertions aborts depends on their order exactly where
partials last and one of the fragments is terminal for a partial without an end, in
the lopsided cases. -/
theorem abort_order_iff {limits : ReassemblyLimits} {cache final final' : ReassemblyCache} {key : FragKey} {now : Nat}
    {first second : Arrival} {latter latter' : ReassemblyOutcome} (reachable : Reachable crc32c limits cache)
    (forward : runOps [first.op key now, second.op key now] cache =
      .ok ([some (key, .incomplete), some (key, latter)], final))
    (backward : runOps [second.op key now, first.op key now] cache =
      .ok ([some (key, .incomplete), some (key, latter')], final')) :
    ((∃ reason, latter = .abort reason) ↔ ∃ reason, latter' = .abort reason) ↔
      ¬ (0 < limits.timeout ∧
        (OrderCounts limits (foundPartial cache key now) first second ∨
          OrderCounts limits (foundPartial cache key now) second first)) := by
  obtain ⟨valid, rfl⟩ := reachable.valid
  obtain ⟨firstLeft, outcome⟩ := two_outcomes forward
  obtain ⟨secondLeft, outcome'⟩ := two_outcomes backward
  obtain ⟨range, one, screened, fed, firstKept⟩ := fed_incomplete firstLeft
  obtain ⟨range', two, screened', fed', secondKept⟩ := fed_incomplete secondLeft
  rcases Nat.eq_zero_or_pos cache.limits.timeout with still | lasting
  · rw [fed_timeless still (after_limits _ cache), secondLeft] at outcome
    rw [fed_timeless still (after_limits _ cache), firstLeft] at outcome'
    subst outcome outcome'
    refine iff_of_true (iff_of_false ?_ ?_) fun counts => absurd counts.1 (by omega)
    · rintro ⟨reason, ⟨⟩⟩
    · rintro ⟨reason, ⟨⟩⟩
  · have consistent : Consistent cache.limits (foundPartial cache key now) :=
      (feedable_start ((valid.gc now).retained key) now).consistent
    have blank : Blank (foundPartial cache key now) := by
      rw [foundPartial]
      cases found : (cache.gc now).partials.lookup key with
      | none => exact fun _ => rfl
      | some held =>
        exact reachable.every Blank (fun _ _ => rfl) (fun _ _ grows => grows.blank) key held (lookup_unexpired found)
    have counts : ∀ {last other : Arrival} {lastRange otherRange : NormalizedFragment},
        Screened cache.limits last.frag last.data lastRange → Screened cache.limits other.frag other.data otherRange →
        (OrderCounts cache.limits (foundPartial cache key now) last other ↔
          Lopsided cache.limits (foundPartial cache key now) (last.offer lastRange) (other.offer otherRange)) := by
      intro last other lastRange otherRange lastScreened otherScreened
      simp [OrderCounts, lastScreened.normal, otherScreened.normal]
    rw [← outcome, ← outcome', and_iff_right lasting, counts screened screened', counts screened' screened,
      second_aborts valid lasting fed screened', second_aborts valid lasting fed' screened]
    exact order_iff consistent blank screened.ranged screened'.ranged firstKept secondKept

end

private def contestedKey : FragKey := ⟨⟨192, 0, 2, 1⟩, ⟨192, 0, 2, 2⟩, 1000, 2000, 1⟩

private def contestedTail (rdos : Option UInt16) (data : List UInt8) : Arrival :=
  ⟨⟨20, 1, 12, rdos⟩, data, ⟨[], [], some true⟩⟩

theorem abort_order_conflict :
    ∃ final final',
      runOps [(contestedTail (some 14) [1, 2]).op contestedKey 0, (contestedTail none [3, 4]).op contestedKey 0]
        (.withLimits .default) =
          .ok ([some (contestedKey, .incomplete), some (contestedKey, .abort .overlap)], final) ∧
      runOps [(contestedTail none [3, 4]).op contestedKey 0, (contestedTail (some 14) [1, 2]).op contestedKey 0]
        (.withLimits .default) =
          .ok ([some (contestedKey, .incomplete), some (contestedKey, .abort .overlap)], final') ∧
      ¬ (0 < ReassemblyLimits.default.timeout ∧
        (OrderCounts .default (foundPartial (.withLimits .default) contestedKey 0)
            (contestedTail (some 14) [1, 2]) (contestedTail none [3, 4]) ∨
          OrderCounts .default (foundPartial (.withLimits .default) contestedKey 0)
            (contestedTail none [3, 4]) (contestedTail (some 14) [1, 2]))) := by
  refine ⟨_, _, rfl, rfl, (abort_order_iff (.empty : Reachable (fun _ => 0) .default _) rfl rfl).mp ?_⟩
  exact iff_of_true ⟨_, rfl⟩ ⟨_, rfl⟩

/-- The copy of a terminal fragment without its RDOS: a duplicate after it, an overlap before it. -/
theorem terminal_copy_order :
    ∃ final final',
      runOps [(contestedTail (some 14) [1, 2]).op contestedKey 0, (contestedTail none [1, 2]).op contestedKey 0]
        (.withLimits .default) =
          .ok ([some (contestedKey, .incomplete), some (contestedKey, .incomplete)], final) ∧
      runOps [(contestedTail none [1, 2]).op contestedKey 0, (contestedTail (some 14) [1, 2]).op contestedKey 0]
        (.withLimits .default) =
          .ok ([some (contestedKey, .incomplete), some (contestedKey, .abort .overlap)], final') :=
  ⟨_, _, rfl, rfl⟩

end UdpOptions.Proofs
