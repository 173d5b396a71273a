import UdpOptions.Proofs.PipelineRuns
import UdpOptions.Proofs.Prefilter

/-! The life of one partial. Cache operations, received datagrams and decoded ones
act on the cache through at most one insertion. As long as none of them removes
the partial of a key or puts a new one in its place, the partial only grows. -/

namespace UdpOptions.Proofs
open Library Model

inductive CacheEvent where
  | operate (op : CacheOp)
  | receive (datagram : List UInt8) (now : Nat)
  | decode (datagram : List UInt8) (policy : Api.ReceivePolicy) (now : Nat)

inductive EventResult where
  | operated (report : CacheReport)
  | received (result : Except RecvError Delivery)
  | decoded (result : Except RecvError Api.ApiDelivery)

section
variable (crc32c : List UInt8 → UInt32)

def CacheEvent.apply : CacheEvent → ReassemblyCache → Checked (EventResult × ReassemblyCache)
  | .operate op, cache => do
    let (report, cache) ← op.apply cache
    return (.operated report, cache)
  | .receive datagram now, cache => do
    let (result, cache) ← processDatagram crc32c datagram cache now
    return (.received result, cache)
  | .decode datagram policy now, cache => do
    let (result, cache) ← Api.decodeDatagram crc32c datagram cache now policy
    return (.decoded result, cache)

def Disposition.insertion? (opened : Opened) (now : Nat) : Disposition → Option Insertion
  | .deliver _ => none
  | .fail _ => none
  | .fragment frag _ options reports status => some (insertionOf opened frag options reports status now)

def datagramInsertion (datagram : List UInt8) (now : Nat) : Option Insertion :=
  match openDatagram datagram with
  | .ok (.ok opened) => Disposition.insertion? opened now (dispositionOf crc32c opened)
  | .ok (.error _) => none
  | .error _ => none

/-- The insertion a call makes; the drop-all policy lets no fragment reach the cache. -/
def CacheEvent.insertion? : CacheEvent → Option Insertion
  | .operate op =>
    match op.step with
    | .feed insertion => some insertion
    | .discard _ | .gc _ => none
  | .receive datagram now => datagramInsertion crc32c datagram now
  | .decode datagram policy now =>
    if policy.dropAllOptionBearing then none else datagramInsertion crc32c datagram now

/-- What a call does to the cache: it makes its insertion, and it may then clear one key. -/
inductive EventEffect (event : CacheEvent) (cache : ReassemblyCache) : ReassemblyCache → Prop where
  | untouched (idle : event.insertion? crc32c = none) : EventEffect event cache cache
  | cleared (key : FragKey) (idle : event.insertion? crc32c = none) : EventEffect event cache (putCell cache key none)
  | expired (now : Nat) (idle : event.insertion? crc32c = none) : EventEffect event cache (cache.gc now)
  | inserted {insertion : Insertion} (made : event.insertion? crc32c = some insertion) :
      EventEffect event cache (insertion.after cache)
  | refed {insertion : Insertion} (key : FragKey) (made : event.insertion? crc32c = some insertion)
      (done : (insertion.fed cache).1 ≠ .incomplete) : EventEffect event cache (putCell (insertion.after cache) key none)

variable {crc32c}

private theorem datagramInsertion_opened {bytes : List UInt8} {opened : Opened}
    (opening : openDatagram bytes = .ok (.ok opened)) (now : Nat) :
    datagramInsertion crc32c bytes now = Disposition.insertion? opened now (dispositionOf crc32c opened) := by
  rw [datagramInsertion, opening]

theorem datagramInsertion_fragmentary {bytes : List UInt8} {now : Nat} {insertion : Insertion}
    (made : datagramInsertion crc32c bytes now = some insertion) :
    ∃ opened frag status, openDatagram bytes = .ok (.ok opened) ∧ Fragmentary opened frag status ∧
      insertion.key = fragKey opened.ip opened.udp frag := by
  rcases openDatagram_total bytes with ⟨error, opening, _⟩ | ⟨opened, opening, well, _⟩
  · rw [datagramInsertion, opening] at made
    cases made
  · have outcome := (disposeOpened_eq crc32c well).2
    rw [datagramInsertion_opened opening] at made
    cases disposed : dispositionOf crc32c opened with
    | deliver => rw [disposed] at made; cases made
    | fail => rw [disposed] at made; cases made
    | fragment frag key options reports status =>
      rw [disposed] at made outcome
      cases made
      exact ⟨opened, frag, status, opening, (outcome.fragment well).1, rfl⟩

/-- The pipeline changes the cache through the insertion of its datagram. -/
theorem processDatagram_effect {event : CacheEvent} {bytes : List UInt8} {cache final : ReassemblyCache} {now : Nat}
    {result : Except RecvError Delivery} (made : event.insertion? crc32c = datagramInsertion crc32c bytes now)
    (processed : processDatagram crc32c bytes cache now = .ok (result, final)) :
    EventEffect crc32c event cache final := by
  rcases processDatagram_cases crc32c bytes cache now with ⟨error, opening, refused⟩ |
    ⟨opened, delivery, after, opening, known, handling⟩
  · cases refused.symm.trans processed
    rw [datagramInsertion, opening] at made
    exact .untouched made
  · cases known.symm.trans processed
    rw [datagramInsertion_opened opening] at made
    cases handling with
    | delivered disposed =>
      rw [disposed] at made
      exact .untouched made
    | failed _ disposed =>
      rw [disposed] at made
      exact .cleared _ made
    | buffered _ disposed | aborted _ disposed =>
      rw [disposed] at made
      exact .inserted made
    | @completed frag options reports status reassembled _ disposed outcome =>
      rw [disposed] at made
      rcases handOn_cache crc32c opened reassembled ((insertionOf opened frag options reports status now).after cache)
        with same | ⟨key, _, _, same⟩
      · rw [same]
        exact .inserted made
      · rw [same]
        exact .refed key made (by rw [outcome]; exact nofun)

theorem CacheEvent.effect {event : CacheEvent} {cache after : ReassemblyCache} {result : EventResult}
    (applied : event.apply crc32c cache = .ok (result, after)) : EventEffect crc32c event cache after := by
  cases event with
  | operate op =>
    rw [CacheEvent.apply, apply_eq, Checked.ok_bind] at applied
    cases applied
    cases step : op.step with
    | feed insertion => exact .inserted (by rw [CacheEvent.insertion?, step])
    | discard key => exact .cleared key (by rw [CacheEvent.insertion?, step])
    | gc now => exact .expired now (by rw [CacheEvent.insertion?, step])
  | receive datagram now =>
    obtain ⟨⟨delivery, final⟩, processed, done⟩ := Checked.bind_eq_ok.mp applied
    cases done
    exact processDatagram_effect rfl processed
  | decode datagram policy now =>
    obtain ⟨⟨delivery, final⟩, decoded, done⟩ := Checked.bind_eq_ok.mp applied
    cases done
    rcases decodeDatagram_cases crc32c datagram cache now policy with ⟨_, _, drops, _, filtered⟩ | ⟨bare, processed⟩
    · cases filtered.symm.trans decoded
      exact .untouched (if_pos drops)
    · rw [processed] at decoded
      cases drops : policy.dropAllOptionBearing with
      | false =>
        obtain ⟨delivery, known⟩ := decodeProcessed_cache crc32c decoded
        exact processDatagram_effect (if_neg (by rw [drops]; exact Bool.false_ne_true)) known
      | true =>
        have idle : CacheEvent.insertion? crc32c (.decode datagram policy now) = none := if_pos drops
        rcases openDatagram_total datagram with ⟨error, opening, _⟩ | ⟨opened, opening, _⟩
        · cases (decodeProcessed_refused crc32c opening cache now policy).symm.trans decoded
          exact .untouched idle
        · have same := decodeProcessed_bare crc32c opening (bare opened opening drops) cache now policy true
          rw [droppingAll, ← drops] at same
          cases same.symm.trans decoded
          exact .untouched idle

theorem EventEffect.valid {event : CacheEvent} {cache after : ReassemblyCache}
    (effect : EventEffect crc32c event cache after) (valid : CacheValid cache) :
    CacheValid after ∧ after.limits = cache.limits := by
  cases effect with
  | untouched => exact ⟨valid, rfl⟩
  | cleared key => exact ⟨valid.erase key, putCell_limits cache key none⟩
  | expired now => exact ⟨valid.gc now, rfl⟩
  | @inserted insertion => exact ⟨valid.after insertion, after_limits insertion cache⟩
  | @refed insertion key =>
    exact ⟨(valid.after insertion).erase key, (putCell_limits _ key none).trans (after_limits insertion cache)⟩

variable (crc32c)

/-- The call finds a partial under the key, not expired where it inserts there, and
leaves a partial under the key. -/
structure Spared (key : FragKey) (event : CacheEvent) (cache after : ReassemblyCache) : Prop where
  present : ∃ held, cache.partials.lookup key = some held ∧
    ∀ insertion, event.insertion? crc32c = some insertion → insertion.key = key →
      held.isExpired insertion.now cache.limits.timeout = false
  kept : ∃ later, after.partials.lookup key = some later

/-- A run of calls that all leave the partial of the key in its place. -/
def Lives (key : FragKey) : List CacheEvent → ReassemblyCache → ReassemblyCache → Prop
  | [], cache, final => cache = final
  | event :: rest, cache, final =>
    ∃ result after, event.apply crc32c cache = .ok (result, after) ∧ Spared crc32c key event cache after ∧
      Lives key rest after final

/-- What a call can do to a partial that it leaves in its place. -/
inductive Grows (limits : ReassemblyLimits) (held : Partial) : Partial → Prop where
  | same : Grows limits held held
  | observed (ocsNonzero : Option Bool) : Grows limits held (held.observeFragmentOcs ocsNonzero)
  | accepted {fragment : NormalizedFragment} {data : List UInt8} {processing : FragmentProcessing} {updated : Partial}
      (accepted : Accepted held fragment data processing limits updated) : Grows limits held updated

variable {crc32c}

/-- The partial an insertion leaves has grown from the one it found, or from a new one. -/
theorem fed_start {cache : ReassemblyCache} {insertion : Insertion} {later : Partial} (valid : CacheValid cache)
    (kept : (insertion.fed cache).2 = some later) :
    Grows cache.limits (((cache.gc insertion.now).partials.lookup insertion.key).getD (Partial.new insertion.now))
      later := by
  have step := valid.cellFed insertion
  generalize insertion.fed cache = fed at step kept
  cases step with
  | aborted => cases kept
  | finished => cases kept
  | again same =>
    rw [same]
    cases kept
    exact .observed _
  | pending _ _ accepted =>
    cases kept
    exact .accepted accepted

/-- An insertion under the key of an unexpired partial feeds that partial. -/
theorem fed_grows {cache : ReassemblyCache} {insertion : Insertion} {held later : Partial} (valid : CacheValid cache)
    (present : cache.partials.lookup insertion.key = some held)
    (young : held.isExpired insertion.now cache.limits.timeout = false)
    (kept : (insertion.fed cache).2 = some later) : Grows cache.limits held later := by
  have grows := fed_start valid kept
  rw [lookup_gc, present, Option.filter_some, young] at grows
  exact grows

theorem lookup_after_other {cache : ReassemblyCache} {insertion : Insertion} {key : FragKey} {later : Partial}
    (different : key ≠ insertion.key) (kept : (insertion.after cache).partials.lookup key = some later) :
    cache.partials.lookup key = some later := by
  rw [lookup_after_ne cache different] at kept
  exact (Option.filter_eq_some_iff.mp kept).1

theorem lookup_erased {cache : ReassemblyCache} {key other : FragKey} {held : Partial}
    (left : (putCell cache other none).partials.lookup key = some held) : cache.partials.lookup key = some held := by
  by_cases hit : key = other
  · rw [hit, lookup_putCell] at left
    cases left
  · rw [lookup_putCell_ne cache none hit] at left
    exact left

theorem lookup_unexpired {cache : ReassemblyCache} {key : FragKey} {now : Nat} {held : Partial}
    (left : (cache.gc now).partials.lookup key = some held) : cache.partials.lookup key = some held := by
  rw [lookup_gc] at left
  exact (Option.filter_eq_some_iff.mp left).1

theorem EventEffect.fed {event : CacheEvent} {cache after : ReassemblyCache} {insertion : Insertion} {held : Partial}
    (effect : EventEffect crc32c event cache after) (valid : CacheValid cache)
    (made : event.insertion? crc32c = some insertion) (left : after.partials.lookup insertion.key = some held) :
    (insertion.fed cache).2 = some held := by
  cases effect with
  | untouched idle | cleared _ idle | expired _ idle => cases idle.symm.trans made
  | inserted known =>
    cases known.symm.trans made
    exact (lookup_after insertion cache).symm.trans left
  | refed _ known done =>
    cases known.symm.trans made
    cases (valid.gone done).symm.trans (lookup_erased left)

theorem Spared.grows {key : FragKey} {event : CacheEvent} {cache after : ReassemblyCache} {held : Partial}
    (spared : Spared crc32c key event cache after) (effect : EventEffect crc32c event cache after)
    (valid : CacheValid cache) (present : cache.partials.lookup key = some held) :
    ∃ later, after.partials.lookup key = some later ∧ Grows cache.limits held later := by
  obtain ⟨later, kept⟩ := spared.kept
  obtain ⟨same, found, young⟩ := spared.present
  cases present.symm.trans found
  refine ⟨later, kept, ?_⟩
  have unchanged : cache.partials.lookup key = some later → Grows cache.limits held later := by
    intro stays
    cases present.symm.trans stays
    exact .same
  cases effect with
  | untouched => exact unchanged kept
  | cleared other => exact unchanged (lookup_erased kept)
  | expired now => exact unchanged (lookup_unexpired kept)
  | @inserted insertion made =>
    by_cases own : key = insertion.key
    · subst own
      rw [lookup_after] at kept
      exact fed_grows valid present (young insertion made rfl) kept
    · exact unchanged (lookup_after_other own kept)
  | @refed insertion other made done =>
    have left := lookup_erased kept
    by_cases own : key = insertion.key
    · subst own
      rw [valid.gone done] at left
      cases left
    · exact unchanged (lookup_after_other own left)

theorem EventEffect.every {event : CacheEvent} {cache after : ReassemblyCache}
    (effect : EventEffect crc32c event cache after) (valid : CacheValid cache) (invariant : Partial → Prop)
    (fresh : ∀ now, invariant (Partial.new now))
    (preserved : ∀ before after, Grows cache.limits before after → invariant before → invariant after)
    (before : ∀ key held, cache.partials.lookup key = some held → invariant held) :
    ∀ key held, after.partials.lookup key = some held → invariant held := by
  have inserted : ∀ (insertion : Insertion) key held,
      (insertion.after cache).partials.lookup key = some held → invariant held := by
    intro insertion key held left
    by_cases own : key = insertion.key
    · subst own
      rw [lookup_after] at left
      refine preserved _ held (fed_start valid left) ?_
      cases found : (cache.gc insertion.now).partials.lookup insertion.key with
      | none => exact fresh insertion.now
      | some current => exact before _ current (lookup_unexpired found)
    · exact before key held (lookup_after_other own left)
  intro key held left
  cases effect with
  | untouched => exact before key held left
  | cleared => exact before key held (lookup_erased left)
  | expired => exact before key held (lookup_unexpired left)
  | @inserted insertion => exact inserted insertion key held left
  | @refed insertion => exact inserted insertion key held (lookup_erased left)

theorem Reachable.every {limits : ReassemblyLimits} {cache : ReassemblyCache}
    (reachable : Reachable crc32c limits cache) (invariant : Partial → Prop)
    (fresh : ∀ now, invariant (Partial.new now))
    (preserved : ∀ before after, Grows limits before after → invariant before → invariant after) :
    ∀ key held, cache.partials.lookup key = some held → invariant held := by
  induction reachable with
  | empty => simp [ReassemblyCache.withLimits]
  | @operate cache after _ before op applied ih =>
    have effect : EventEffect crc32c (.operate op) cache after :=
      CacheEvent.effect (by rw [CacheEvent.apply, applied]; rfl)
    exact effect.every before.valid.1 invariant fresh (before.valid.2 ▸ preserved) ih
  | @receive cache after _ before arrival received ih =>
    have processed : processDatagram crc32c arrival.1 cache arrival.2 = .ok (_, after) := received
    have effect : EventEffect crc32c (.receive arrival.1 arrival.2) cache after := processDatagram_effect rfl processed
    exact effect.every before.valid.1 invariant fresh (before.valid.2 ▸ preserved) ih

/-- What every way of growing keeps holds as long as the partial lives. -/
theorem Lives.carries {key : FragKey} {events : List CacheEvent} {cache final : ReassemblyCache} {held : Partial}
    (lives : Lives crc32c key events cache final) (valid : CacheValid cache)
    (present : cache.partials.lookup key = some held) (invariant : Partial → Prop)
    (preserved : ∀ before after, Grows cache.limits before after → invariant before → invariant after)
    (initially : invariant held) :
    ∃ later, final.partials.lookup key = some later ∧ invariant later ∧ CacheValid final ∧
      final.limits = cache.limits := by
  induction events generalizing cache held with
  | nil =>
    cases lives
    exact ⟨held, present, initially, valid, rfl⟩
  | cons event rest ih =>
    obtain ⟨result, after, applied, spared, lives⟩ := lives
    have effect := CacheEvent.effect applied
    obtain ⟨later, kept, grows⟩ := spared.grows effect valid present
    obtain ⟨stillValid, limits⟩ := effect.valid valid
    obtain ⟨last, found, holds, lastValid, same⟩ :=
      ih lives stillValid kept (by rw [limits]; exact preserved) (preserved held later grows initially)
    exact ⟨last, found, holds, lastValid, same.trans limits⟩

end

end UdpOptions.Proofs
