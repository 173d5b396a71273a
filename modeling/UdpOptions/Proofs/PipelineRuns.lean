import UdpOptions.Proofs.ReceivePath

/-! Runs of the pipeline over one cache. A received datagram keeps the
representation invariant, so it holds in every state that received datagrams and
cache operations can reach. -/

namespace UdpOptions.Proofs
open Library Model

/-- The call inserts fragment data under a key, with this outcome. -/
structure Inserts (crc32c : List UInt8 → UInt32) (arrival : List UInt8 × Nat) (cache : ReassemblyCache)
    (opened : Opened) (frag : Frag) (key : FragKey) (data : List UInt8) (outcome : ReassemblyOutcome)
    (after : ReassemblyCache) : Prop where
  made : ∃ options reports status,
    examine crc32c arrival.1 = .ok (.ok (opened, .fragment frag (some key) options reports status)) ∧
    Checked.slice? opened.datagram (opened.udpAt + frag.fragStart.toNat) opened.ipEnd = some data ∧
    cache.insertWithOptionsAndFailures key frag data
      ⟨options, fragmentOptionFailures reports, some (status = .valid)⟩ arrival.2 = .ok (outcome, after)

variable {crc32c : List UInt8 → UInt32}

theorem Inserts.made_by {arrival : List UInt8 × Nat} {cache after : ReassemblyCache} {opened : Opened} {frag : Frag}
    {key : FragKey} {data : List UInt8} {outcome : ReassemblyOutcome}
    (inserts : Inserts crc32c arrival cache opened frag key data outcome after) :
    ∃ options reports status, openDatagram arrival.1 = .ok (.ok opened) ∧
      dispositionOf crc32c opened = .fragment frag (some key) options reports status ∧ Fragmentary opened frag status ∧
      key = fragKey opened.ip opened.udp frag ∧ data = fragmentData opened frag ∧
      ((insertionOf opened frag options reports status arrival.2).fed cache).1 = outcome ∧
      (insertionOf opened frag options reports status arrival.2).after cache = after := by
  obtain ⟨options, reports, status, examined, sliced, inserted⟩ := inserts.made
  exact ⟨options, reports, status, insertion_made examined sliced inserted⟩

theorem inserts_disposed {bytes : List UInt8} {opened : Opened} (opening : openDatagram bytes = .ok (.ok opened))
    {frag : Frag} {options : List RawOption} {reports : List OptionReport} {status : OcsStatus}
    (disposed : dispositionOf crc32c opened =
      .fragment frag (some (fragKey opened.ip opened.udp frag)) options reports status)
    (cache : ReassemblyCache) (now : Nat) :
    Inserts crc32c (bytes, now) cache opened frag (fragKey opened.ip opened.udp frag) (fragmentData opened frag)
      ((insertionOf opened frag options reports status now).fed cache).1
      ((insertionOf opened frag options reports status now).after cache) := by
  obtain ⟨well, _⟩ := openDatagram_well opening
  have inside := ((disposed ▸ (disposeOpened_eq crc32c well).2).fragment well).2.2
  exact ⟨options, reports, status, disposed ▸ examine_opened crc32c opening well, slice_fragmentData well inside,
    insertWithOptionsAndFailures_eq ..⟩

theorem CacheValid.after {cache : ReassemblyCache} (valid : CacheValid cache) (insertion : Insertion) :
    CacheValid (insertion.after cache) := valid.feed _ _ _ _ _

theorem CacheValid.cellFed {cache : ReassemblyCache} (valid : CacheValid cache) (insertion : Insertion) :
    CellFed cache.limits (atCap (cache.gc insertion.now)) ((cache.gc insertion.now).partials.lookup insertion.key)
      insertion.frag insertion.data insertion.processing insertion.now (insertion.fed cache) :=
  feedCell_fed _ _ _ _ ((valid.gc insertion.now).retained insertion.key)

theorem CacheValid.gone {cache : ReassemblyCache} (valid : CacheValid cache) {insertion : Insertion}
    (done : (insertion.fed cache).1 ≠ .incomplete) : (insertion.after cache).partials.lookup insertion.key = none := by
  have step := valid.cellFed insertion
  rw [lookup_after]
  generalize insertion.fed cache = fed at step done
  cases step with
  | aborted => rfl
  | finished => rfl
  | again => exact absurd rfl done
  | pending => exact absurd rfl done

@[simp] theorem after_limits (insertion : Insertion) (cache : ReassemblyCache) :
    (insertion.after cache).limits = cache.limits := by simp [Insertion.after]

theorem Handling.valid {opened : Opened} {cache final : ReassemblyCache} {now : Nat} {delivery : Delivery}
    (handling : Handling crc32c opened cache now delivery final) (valid : CacheValid cache) :
    CacheValid final ∧ final.limits = cache.limits := by
  cases handling with
  | delivered => exact ⟨valid, rfl⟩
  | failed => exact ⟨valid.erase _, rfl⟩
  | buffered | aborted => exact ⟨valid.after _, after_limits _ _⟩
  | @completed frag options reports status reassembled =>
    have kept := valid.after (insertionOf opened frag options reports status now)
    rcases handOn_cache crc32c opened reassembled ((insertionOf opened frag options reports status now).after cache)
      with same | ⟨key, _, _, same⟩
    · rw [same]
      exact ⟨kept, after_limits _ _⟩
    · rw [same]
      exact ⟨kept.erase key, (putCell_limits _ _ _).trans (after_limits _ _)⟩

theorem receive_valid {arrival : List UInt8 × Nat} {cache final : ReassemblyCache} {result : Except RecvError Delivery}
    (received : receive crc32c arrival cache = .ok (result, final)) (valid : CacheValid cache) :
    CacheValid final ∧ final.limits = cache.limits := by
  rcases processDatagram_cases crc32c arrival.1 cache arrival.2 with ⟨error, _, processed⟩ |
    ⟨opened, delivery, after, _, processed, handling⟩
  · cases processed.symm.trans received
    exact ⟨valid, rfl⟩
  · cases processed.symm.trans received
    exact handling.valid valid

variable (crc32c)

/-- The states of a cache under received datagrams and direct cache operations. -/
inductive Reachable (limits : ReassemblyLimits) : ReassemblyCache → Prop where
  | empty : Reachable limits (.withLimits limits)
  | operate {cache after : ReassemblyCache} {report : CacheReport} (before : Reachable limits cache) (op : CacheOp)
      (applied : op.apply cache = .ok (report, after)) : Reachable limits after
  | receive {cache after : ReassemblyCache} {result : Except RecvError Delivery} (before : Reachable limits cache)
      (arrival : List UInt8 × Nat) (received : receive crc32c arrival cache = .ok (result, after)) :
      Reachable limits after

variable {crc32c}

theorem Reachable.valid {limits : ReassemblyLimits} {cache : ReassemblyCache}
    (reachable : Reachable crc32c limits cache) :
    CacheValid cache ∧ cache.limits = limits := by
  induction reachable with
  | empty => exact ⟨cacheValid_empty limits, rfl⟩
  | operate _ op applied ih =>
    rw [apply_eq] at applied
    obtain rfl : (op.step.effect _).2 = _ := congrArg Prod.snd (Except.ok.inj applied)
    exact ⟨ih.1.effect op.step, (effect_limits op.step _).trans ih.2⟩
  | receive _ arrival received ih =>
    obtain ⟨valid, same⟩ := receive_valid received ih.1
    exact ⟨valid, same.trans ih.2⟩

end UdpOptions.Proofs
