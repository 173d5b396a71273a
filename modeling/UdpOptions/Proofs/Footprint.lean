import UdpOptions.Proofs.ReceivePath

/-! The part of the cache one received datagram may touch. Only a fragment
reaches the cache, and then only its own partial changes, up to expiry. The
re-feed breaks this: when the reassembled datagram is itself a failing fragment,
the partial named by the inner FRAG is discarded. -/

namespace UdpOptions.Proofs
open Library Model

/-- A partial is left exactly as it was, or removed because it is expired. -/
def KeptOrExpired (cache final : ReassemblyCache) (now : Nat) (key : FragKey) : Prop :=
  final.partials.lookup key = cache.partials.lookup key ∨
    (final.partials.lookup key = none ∧
      ∃ held, cache.partials.lookup key = some held ∧ held.isExpired now cache.limits.timeout = true)

private theorem after_keptOrExpired (insertion : Insertion) (cache : ReassemblyCache) {key : FragKey}
    (different : key ≠ insertion.key) : KeptOrExpired cache (insertion.after cache) insertion.now key := by
  have found := lookup_after_ne cache different
  cases held : cache.partials.lookup key with
  | none =>
    rw [held] at found
    exact .inl (found.trans held.symm)
  | some old =>
    rw [held, Option.filter_some] at found
    cases expired : old.isExpired insertion.now cache.limits.timeout with
    | false => exact .inl (by rw [found, expired, held]; rfl)
    | true => exact .inr ⟨by rw [found, expired]; rfl, old, held, expired⟩

section
variable (crc32c : List UInt8 → UInt32)

/-- The cache is left alone, or the datagram is a fragment with a trusted options
area and a decodable FRAG and no partial but its own is touched before expiry. -/
def Footprint (bytes : List UInt8) (cache : ReassemblyCache) (now : Nat) : Prop :=
  ∃ result final, processDatagram crc32c bytes cache now = .ok (result, final) ∧
    (final = cache ∨ ∃ opened frag status, openDatagram bytes = .ok (.ok opened) ∧ ChecksumHolds opened ∧
      Fragmentary opened frag status ∧
      ∀ key, key ≠ fragKey opened.ip opened.udp frag → KeptOrExpired cache final now key)

/-- The fragment completes a datagram that is itself a failing fragment of another
Identification, under which an unexpired partial is pending. -/
def DiscardsForeign (bytes : List UInt8) (cache : ReassemblyCache) (now : Nat) : Prop :=
  ∃ opened frag key options reports status data reassembled after rebuilt inner innerKey held,
    examine crc32c bytes = .ok (.ok (opened, .fragment frag (some key) options reports status)) ∧
    Checked.slice? opened.datagram (opened.udpAt + frag.fragStart.toNat) opened.ipEnd = some data ∧
    cache.insertWithOptionsAndFailures key frag data
      ⟨options, fragmentOptionFailures reports, some (status = .valid)⟩ now = .ok (.complete reassembled, after) ∧
    reassembledDatagram opened.ip opened.udp reassembled.udpLength reassembled.tail = .ok (some rebuilt) ∧
    examine crc32c rebuilt = .ok (.ok (inner, .fail (some innerKey))) ∧ innerKey ≠ key ∧
    cache.partials.lookup innerKey = some held ∧ held.isExpired now cache.limits.timeout = false

private theorem examine_rebuilt (opened : Opened) {reassembled : Reassembled} (fits : Rebuildable reassembled) :
    examine crc32c (datagramBytes opened.ip.src opened.ip.dst (rebuiltUdp opened.udp reassembled) reassembled.tail) =
      .ok (.ok (rebuiltOpened opened reassembled, dispositionOf crc32c (rebuiltOpened opened reassembled))) := by
  have again := open_rebuilt opened fits
  exact examine_opened crc32c again (openDatagram_well again).1

variable {crc32c}

theorem Fragmentary.unique {opened : Opened} {first second : Frag} {status other : OcsStatus}
    (one : Fragmentary opened first status) (two : Fragmentary opened second other) : first = second := by
  obtain ⟨option, found, decoded⟩ := one.first
  obtain ⟨again, refound, redecoded⟩ := two.first
  cases found.symm.trans refound
  exact Except.ok.inj (decoded.symm.trans redecoded)

/-- A completion whose re-feed fails for another key leaves that key empty. -/
theorem DiscardsForeign.violates {bytes : List UInt8} {cache : ReassemblyCache} {now : Nat}
    (discards : DiscardsForeign crc32c bytes cache now) : ¬ Footprint crc32c bytes cache now := by
  obtain ⟨opened, frag, key, options, reports, status, data, reassembled, after, rebuilt, inner, innerKey, held,
    examined, sliced, inserted, rebuilding, reexamined, foreign, present, fresh⟩ := discards
  obtain ⟨opening, disposition, fragmentary, rfl, rfl, outcome, _⟩ := insertion_made examined sliced inserted
  rw [reassembled_rebuilt] at rebuilding
  split at rebuilding
  next fits =>
    cases rebuilding
    rw [examine_rebuilt crc32c opened fits] at reexamined
    have failing : dispositionOf crc32c (rebuiltOpened opened reassembled) = .fail (some innerKey) :=
      congrArg Prod.snd (Except.ok.inj (Except.ok.inj reexamined))
    have emptied : (handled crc32c opened cache now).2.partials.lookup innerKey = none := by
      simp only [handled, disposition, outcome, handOn, if_pos fits, failing, refed]
      exact lookup_putCell _ innerKey none
    rintro ⟨result, final, processed, footprint⟩
    rw [processDatagram_opened crc32c opening] at processed
    cases processed
    rcases footprint with same | ⟨other, otherFrag, otherStatus, reopened, _, again, kept⟩
    · rw [same, present] at emptied
      cases emptied
    · cases opening.symm.trans reopened
      rw [again.unique fragmentary] at kept
      rcases kept innerKey foreign with same | ⟨_, old, present', expired⟩
      · rw [emptied, present] at same
        cases same
      · cases present.symm.trans present'
        rw [fresh] at expired
        cases expired
  · cases rebuilding

variable (crc32c)

/-- The footprint of a datagram holds exactly when its re-feed does not discard an
unexpired partial of another key. -/
theorem footprint_iff_no_foreign_discard (bytes : List UInt8) (cache : ReassemblyCache) (now : Nat) :
    Footprint crc32c bytes cache now ↔ ¬ DiscardsForeign crc32c bytes cache now := by
  refine ⟨fun footprint discards => discards.violates footprint, fun safe => ?_⟩
  rcases processDatagram_cases crc32c bytes cache now with ⟨error, _, processed⟩ |
    ⟨opened, delivery, final, opening, processed, handling⟩
  · exact ⟨_, _, processed, .inl rfl⟩
  refine ⟨_, _, processed, ?_⟩
  obtain ⟨well, checked⟩ := openDatagram_well opening
  cases handling with
  | delivered => exact .inl rfl
  | failed fragmentary =>
    refine .inr ⟨opened, _, _, opening, checked, fragmentary, fun key different => .inl ?_⟩
    exact lookup_putCell_ne cache none different
  | buffered fragmentary | aborted fragmentary =>
    refine .inr ⟨opened, _, _, opening, checked, fragmentary, fun key different => ?_⟩
    exact after_keptOrExpired (insertionOf opened _ _ _ _ now) cache different
  | @completed frag options reports status reassembled fragmentary disposed outcome =>
    refine .inr ⟨opened, _, _, opening, checked, fragmentary, fun key different => ?_⟩
    have before := after_keptOrExpired (insertionOf opened frag options reports status now) cache different
    rcases handOn_cache crc32c opened reassembled ((insertionOf opened frag options reports status now).after cache)
      with same | ⟨inner, fits, failing, same⟩
    · rw [same]
      exact before
    · rw [same]
      by_cases hit : key = inner
      · subst hit
        cases held : cache.partials.lookup key with
        | none => exact .inl ((lookup_putCell _ key none).trans held.symm)
        | some old =>
          refine .inr ⟨lookup_putCell _ key none, old, held, ?_⟩
          by_contra unexpired
          have inside := ((disposed ▸ (disposeOpened_eq crc32c well).2).fragment well).2.2
          exact safe ⟨opened, frag, _, options, reports, status, _, reassembled, _, _, _, key, old,
            disposed ▸ examine_opened crc32c opening well, slice_fragmentData well inside,
            (insertWithOptionsAndFailures_eq ..).trans (congrArg Except.ok (Prod.ext outcome rfl)),
            (reassembled_rebuilt opened reassembled).trans (congrArg Except.ok (if_pos fits)),
            failing ▸ examine_rebuilt crc32c opened fits, different, held, Bool.eq_false_iff.mpr unexpired⟩
      · rw [KeptOrExpired, lookup_putCell_ne _ none hit]
        exact before

end

private def bareUdp : UdpHeader := ⟨1000, 2000, 8, 0⟩

def pendingFragment : List UInt8 :=
  datagramBytes ⟨10, 0, 0, 1⟩ ⟨10, 0, 0, 2⟩ bareUdp [0, 0, 3, 10, 0, 20, 0, 0, 0, 5, 0, 8, 0xaa]

/-- An atomic fragment of Identification 9 whose datagram carries a FRAG of
Identification 5 with a Frag.Start in front of its options area. -/
def nestingFragment : List UInt8 :=
  datagramBytes ⟨10, 0, 0, 1⟩ ⟨10, 0, 0, 2⟩ bareUdp
    [0, 0, 3, 12, 0, 22, 0, 0, 0, 9, 0, 0, 0, 8, 0, 0, 3, 10, 0, 0, 0, 0, 0, 5, 0, 8]

/-- The atomic fragment is dropped together with the unexpired partial of
Identification 5, which it does not belong to. -/
theorem nesting_fragment_discards_foreign :
    ∃ cache held final,
      processDatagram (fun _ => 0) pendingFragment (.withLimits .default) 0 = .ok (.ok .buffered, cache) ∧
      processDatagram (fun _ => 0) nestingFragment cache 0 = .ok (.ok .dropped, final) ∧
      cache.partials.lookup ⟨⟨10, 0, 0, 1⟩, ⟨10, 0, 0, 2⟩, 1000, 2000, 5⟩ = some held ∧
      held.isExpired 0 cache.limits.timeout = false ∧
      final.partials.lookup ⟨⟨10, 0, 0, 1⟩, ⟨10, 0, 0, 2⟩, 1000, 2000, 5⟩ = none ∧
      ¬ Footprint (fun _ => 0) nestingFragment cache 0 := by
  refine ⟨_, _, _, rfl, rfl, rfl, by decide +kernel, rfl, ?_⟩
  apply DiscardsForeign.violates
  exact ⟨_, _, _, _, _, _, _, _, _, _, _, _, _, rfl, rfl, rfl, rfl, rfl, by decide, rfl, by decide +kernel⟩

end UdpOptions.Proofs
