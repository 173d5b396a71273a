import UdpOptions.Library.LongestRun
import UdpOptions.Options.Parse

/-! The TLV grammar behind the iterator. `Framed start bytes items` derives the
items of an options area whose first byte stands at offset `start`, one rule for
each way an option can begin. The iterator follows the grammar: on every input it
ends without a fault and yields exactly the derived items. -/

namespace UdpOptions.Proofs
open Library Model

/-- A kind byte that is followed by a length byte. -/
def IsTlvKind (kind : UInt8) : Prop := kind ≠ Kind.eol ∧ kind ≠ Kind.nop

inductive Framed : Nat → List UInt8 → List OptionsIter.Item → Prop where
  | done {start : Nat} : Framed start [] []
  | eol {start : Nat} {rest : List UInt8} : Framed start (Kind.eol :: rest) [.ok ⟨.eol, [], none⟩]
  | nop {start : Nat} {rest : List UInt8} {items : List OptionsIter.Item} (next : Framed (start + 1) rest items) :
      Framed start (Kind.nop :: rest) (.ok ⟨.nop, [], none⟩ :: items)
  | tlv {start : Nat} {kind len : UInt8} {value rest : List UInt8} {items : List OptionsIter.Item}
      (tlvKind : IsTlvKind kind) (short : len ≠ Kind.extendedLengthMarker) (total : len.toNat = value.length + 2)
      (next : Framed (start + len.toNat) rest items) :
      Framed start (kind :: len :: (value ++ rest)) (.ok ⟨.fromByte kind, value, some (start + 2)⟩ :: items)
  | extended {start : Nat} {kind high low : UInt8} {value rest : List UInt8} {items : List OptionsIter.Item}
      (tlvKind : IsTlvKind kind) (total : (u16OfBe high low).toNat = value.length + 4)
      (long : Kind.extendedLengthMarker.toNat ≤ (u16OfBe high low).toNat)
      (next : Framed (start + (u16OfBe high low).toNat) rest items) :
      Framed start (kind :: Kind.extendedLengthMarker :: high :: low :: (value ++ rest))
        (.ok ⟨.fromByte kind, value, some (start + 4)⟩ :: items)
  | bare {start : Nat} {kind : UInt8} (tlvKind : IsTlvKind kind) : Framed start [kind] [.error (.overrun start)]
  | shortLength {start : Nat} {kind len : UInt8} {rest : List UInt8} (tlvKind : IsTlvKind kind)
      (short : len.toNat < 2) : Framed start (kind :: len :: rest) [.error (.invalidLength kind len.toNat)]
  | overrun {start : Nat} {kind len : UInt8} {rest : List UInt8} (tlvKind : IsTlvKind kind)
      (short : len ≠ Kind.extendedLengthMarker) (proper : 2 ≤ len.toNat) (beyond : rest.length + 2 < len.toNat) :
      Framed start (kind :: len :: rest) [.error (.overrun start)]
  | extendedBare {start : Nat} {kind : UInt8} {rest : List UInt8} (tlvKind : IsTlvKind kind)
      (bare : rest.length < 2) :
      Framed start (kind :: Kind.extendedLengthMarker :: rest) [.error (.overrun start)]
  | extendedShort {start : Nat} {kind high low : UInt8} {rest : List UInt8} (tlvKind : IsTlvKind kind)
      (short : (u16OfBe high low).toNat < Kind.extendedLengthMarker.toNat) :
      Framed start (kind :: Kind.extendedLengthMarker :: high :: low :: rest)
        [.error (.invalidLength kind (u16OfBe high low).toNat)]
  | extendedOverrun {start : Nat} {kind high low : UInt8} {rest : List UInt8} (tlvKind : IsTlvKind kind)
      (long : Kind.extendedLengthMarker.toNat ≤ (u16OfBe high low).toNat)
      (beyond : rest.length + 4 < (u16OfBe high low).toNat) :
      Framed start (kind :: Kind.extendedLengthMarker :: high :: low :: rest) [.error (.overrun start)]

structure At (iter : OptionsIter) (rest : List UInt8) : Prop where
  running : iter.done = false
  bytes : iter.bytes.drop iter.pos = rest

theorem At.length {iter : OptionsIter} {rest : List UInt8} (position : At iter rest) :
    rest.length = iter.bytes.length - iter.pos := by
  rw [← position.bytes, List.length_drop]

theorem At.index {iter : OptionsIter} {rest : List UInt8} (position : At iter rest) (offset : Nat) :
    iter.bytes[iter.pos + offset]? = rest[offset]? := by
  rw [← position.bytes, List.getElem?_drop]

theorem At.checked {iter : OptionsIter} {rest : List UInt8} {byte : UInt8} {offset : Nat} (position : At iter rest)
    (known : rest[offset]? = some byte) : Checked.index iter.bytes (iter.pos + offset) = .ok byte := by
  simp only [Checked.index, position.index, known]

theorem At.inside {iter : OptionsIter} {rest : List UInt8} (position : At iter rest) (nonempty : rest ≠ []) :
    ¬ (iter.done = true ∨ iter.bytes.length ≤ iter.pos) := by
  have positive := List.length_pos_of_ne_nil nonempty
  rw [position.length] at positive
  rw [position.running]
  simp only [Bool.false_eq_true, false_or]
  omega

theorem At.yieldTlv {iter : OptionsIter} {header value rest : List UInt8}
    (position : At iter (header ++ (value ++ rest))) (framing : header ≠ []) (total : Nat)
    (exactly : total = header.length + value.length) (kind : OptionKind) :
    iter.yieldTlv iter.pos header.length total kind =
      .ok (some (.ok ⟨kind, value, some (iter.pos + header.length)⟩),
        { iter with pos := iter.pos + total, currentNopRun := 0 }) ∧
    At { iter with pos := iter.pos + total, currentNopRun := 0 } rest := by
  have length := position.length
  have positive := List.length_pos_of_ne_nil framing
  simp only [List.length_append] at length
  have cut : (iter.bytes.take (iter.pos + total)).drop (iter.pos + header.length) = value := by
    rw [List.drop_take, ← List.drop_drop, position.bytes, List.drop_left,
      show iter.pos + total - (iter.pos + header.length) = value.length by omega, List.take_left]
  constructor
  · simp only [OptionsIter.yieldTlv, OptionsIter.valueSlice,
      Checked.slice_of_le (show iter.pos + header.length ≤ iter.pos + total by omega)
        (show iter.pos + total ≤ iter.bytes.length by omega), cut]
    rfl
  · refine ⟨position.running, ?_⟩
    show iter.bytes.drop (iter.pos + total) = rest
    rw [← List.drop_drop, position.bytes, exactly, ← List.append_assoc, ← List.length_append, List.drop_left]

/-- Every area has a derivation. -/
theorem framed_exists (bytes : List UInt8) (start : Nat) : ∃ items, Framed start bytes items := by
  induction length : bytes.length using Nat.strong_induction_on generalizing bytes start with
  | _ size ih =>
    subst length
    cases bytes with
    | nil => exact ⟨[], .done⟩
    | cons kind tail =>
    by_cases eol : kind = Kind.eol
    · subst eol
      exact ⟨_, .eol⟩
    by_cases nop : kind = Kind.nop
    · subst nop
      obtain ⟨items, next⟩ := ih tail.length (by simp) tail (start + 1) rfl
      exact ⟨_, .nop next⟩
    have tlvKind : IsTlvKind kind := ⟨eol, nop⟩
    cases tail with
    | nil => exact ⟨_, .bare tlvKind⟩
    | cons len tail =>
    by_cases extended : len = Kind.extendedLengthMarker
    · subst extended
      by_cases bare : tail.length < 2
      · exact ⟨_, .extendedBare tlvKind bare⟩
      obtain ⟨high, tail, rfl⟩ := List.exists_cons_of_length_pos (show 0 < tail.length by omega)
      obtain ⟨low, tail, rfl⟩ := List.exists_cons_of_length_pos (show 0 < tail.length by
        rw [List.length_cons] at bare; omega)
      by_cases improper : (u16OfBe high low).toNat < Kind.extendedLengthMarker.toNat
      · exact ⟨_, .extendedShort tlvKind improper⟩
      have long := Nat.le_of_not_lt improper
      by_cases beyond : tail.length + 4 < (u16OfBe high low).toNat
      · exact ⟨_, .extendedOverrun tlvKind long beyond⟩
      have marker : Kind.extendedLengthMarker.toNat = 255 := rfl
      obtain ⟨items, next⟩ := ih (tail.drop ((u16OfBe high low).toNat - 4)).length
        (by simp only [List.length_drop, List.length_cons]; omega) _ (start + (u16OfBe high low).toNat) rfl
      rw [← List.take_append_drop ((u16OfBe high low).toNat - 4) tail]
      exact ⟨_, .extended tlvKind (by rw [List.length_take]; omega) long next⟩
    · by_cases improper : len.toNat < 2
      · exact ⟨_, .shortLength tlvKind improper⟩
      by_cases beyond : tail.length + 2 < len.toNat
      · exact ⟨_, .overrun tlvKind extended (Nat.le_of_not_lt improper) beyond⟩
      obtain ⟨items, next⟩ := ih (tail.drop (len.toNat - 2)).length
        (by simp only [List.length_drop, List.length_cons]; omega) _ (start + len.toNat) rfl
      rw [← List.take_append_drop (len.toNat - 2) tail]
      exact ⟨_, .tlv tlvKind extended (by rw [List.length_take]; omega) next⟩

/-- What one call of the iterator does at the head of a derivation. -/
inductive Called (iter : OptionsIter) : List UInt8 → List OptionsIter.Item → Prop where
  | exhausted (called : iter.next = .ok (none, iter)) : Called iter [] []
  | last {rest : List UInt8} {item : OptionsIter.Item} (after : OptionsIter) (stopped : after.done = true)
      (called : iter.next = .ok (some item, after)) : Called iter rest [item]
  | more {rest remaining : List UInt8} {item : OptionsIter.Item} {items : List OptionsIter.Item} (after : OptionsIter)
      (position : At after remaining) (shorter : remaining.length < rest.length)
      (called : iter.next = .ok (some item, after)) (framed : Framed after.pos remaining items) :
      Called iter rest (item :: items)

private theorem next_stopped {iter : OptionsIter} (stopped : iter.done = true ∨ iter.bytes.length ≤ iter.pos) :
    iter.next = .ok (none, iter) := by
  unfold OptionsIter.next
  rw [if_pos stopped]
  rfl

section
variable {iter : OptionsIter} {kind : UInt8} {tail : List UInt8}

theorem At.kindByte (position : At iter (kind :: tail)) : Checked.index iter.bytes iter.pos = .ok kind :=
  position.checked (show (kind :: tail)[0]? = _ from rfl)

private theorem next_eol (position : At iter (Kind.eol :: tail)) :
    iter.next = .ok (some (.ok ⟨.eol, [], none⟩), { iter with pos := iter.pos + 1, currentNopRun := 0, done := true }) := by
  unfold OptionsIter.next
  rw [if_neg (position.inside (by simp))]
  simp only [position.kindByte, Checked.ok_bind, if_true, Checked.pure_eq]
  rfl

private theorem next_nop (position : At iter (Kind.nop :: tail)) :
    iter.next = .ok (some (.ok ⟨.nop, [], none⟩), { iter with
      pos := iter.pos + 1
      currentNopRun := iter.currentNopRun + 1
      maxNopRun := max iter.maxNopRun (iter.currentNopRun + 1) }) := by
  unfold OptionsIter.next
  rw [if_neg (position.inside (by simp))]
  simp only [position.kindByte, Checked.ok_bind, if_true, Checked.pure_eq]
  rfl

private theorem next_bare (position : At iter [kind]) (tlvKind : IsTlvKind kind) :
    iter.next = .ok (iter.fail (.overrun iter.pos)) := by
  have lenByte : iter.bytes[iter.pos + 1]? = none := position.index 1
  unfold OptionsIter.next
  rw [if_neg (position.inside (by simp))]
  simp only [position.kindByte, Checked.ok_bind, if_neg tlvKind.1, if_neg tlvKind.2, lenByte, Checked.pure_eq]

private theorem next_short {len : UInt8} (position : At iter (kind :: len :: tail)) (tlvKind : IsTlvKind kind)
    (short : len ≠ Kind.extendedLengthMarker) :
    iter.next =
      if len.toNat < 2 then .ok (iter.fail (.invalidLength kind len.toNat))
      else if iter.bytes.length < iter.pos + len.toNat then .ok (iter.fail (.overrun iter.pos))
      else iter.yieldTlv iter.pos 2 len.toNat (.fromByte kind) := by
  have lenByte : iter.bytes[iter.pos + 1]? = some len := position.index 1
  unfold OptionsIter.next
  rw [if_neg (position.inside (by simp))]
  simp only [position.kindByte, Checked.ok_bind, if_neg tlvKind.1, if_neg tlvKind.2, lenByte, if_neg short,
    Checked.pure_eq]

private theorem next_extendedBare (position : At iter (kind :: Kind.extendedLengthMarker :: tail))
    (tlvKind : IsTlvKind kind) (bare : tail.length < 2) : iter.next = .ok (iter.fail (.overrun iter.pos)) := by
  have lenByte : iter.bytes[iter.pos + 1]? = some Kind.extendedLengthMarker := position.index 1
  have length := position.length
  simp only [List.length_cons] at length
  unfold OptionsIter.next
  rw [if_neg (position.inside (by simp))]
  simp only [position.kindByte, Checked.ok_bind, if_neg tlvKind.1, if_neg tlvKind.2, lenByte, if_true,
    if_pos (show iter.bytes.length < iter.pos + 4 by omega), Checked.pure_eq]

private theorem next_extended {high low : UInt8}
    (position : At iter (kind :: Kind.extendedLengthMarker :: high :: low :: tail)) (tlvKind : IsTlvKind kind) :
    iter.next =
      if (u16OfBe high low).toNat < Kind.extendedLengthMarker.toNat then
        .ok (iter.fail (.invalidLength kind (u16OfBe high low).toNat))
      else if iter.bytes.length < iter.pos + (u16OfBe high low).toNat then .ok (iter.fail (.overrun iter.pos))
      else iter.yieldTlv iter.pos 4 (u16OfBe high low).toNat (.fromByte kind) := by
  have lenByte : iter.bytes[iter.pos + 1]? = some Kind.extendedLengthMarker := position.index 1
  have highByte : Checked.index iter.bytes (iter.pos + 2) = .ok high := position.checked rfl
  have lowByte : Checked.index iter.bytes (iter.pos + 3) = .ok low := position.checked rfl
  have length := position.length
  simp only [List.length_cons] at length
  unfold OptionsIter.next
  rw [if_neg (position.inside (by simp))]
  simp only [position.kindByte, Checked.ok_bind, if_neg tlvKind.1, if_neg tlvKind.2, lenByte, if_true,
    if_neg (show ¬ iter.bytes.length < iter.pos + 4 by omega), highByte, lowByte, Checked.pure_eq]

private theorem called_tlv {header value rest : List UInt8} {items : List OptionsIter.Item} {total : Nat}
    (position : At iter (header ++ (value ++ rest))) (framing : header ≠ [])
    (exactly : total = header.length + value.length) {option : OptionKind}
    (called : iter.next = iter.yieldTlv iter.pos header.length total option)
    (next : Framed (iter.pos + total) rest items) :
    Called iter (header ++ (value ++ rest)) (.ok ⟨option, value, some (iter.pos + header.length)⟩ :: items) := by
  obtain ⟨yielded, after⟩ := position.yieldTlv framing total exactly option
  have positive := List.length_pos_of_ne_nil framing
  refine .more _ after ?_ (called.trans yielded) next
  rw [List.length_append, List.length_append]
  omega

end

/-- One call of the iterator follows the first rule of the derivation. -/
theorem Framed.called {iter : OptionsIter} {rest : List UInt8} {items : List OptionsIter.Item} {start : Nat}
    (framed : Framed start rest items) (position : At iter rest) (here : iter.pos = start) :
    Called iter rest items := by
  subst here
  have length := position.length
  have marker : Kind.extendedLengthMarker.toNat = 255 := rfl
  cases framed with
  | done =>
    simp only [List.length_nil] at length
    exact .exhausted (next_stopped (.inr (by omega)))
  | eol => exact .last _ rfl (next_eol position)
  | @nop _ rest items next =>
    have moved : iter.bytes.drop (iter.pos + 1) = rest := by
      rw [← List.drop_drop, position.bytes]
      rfl
    refine .more _ ?_ (Nat.lt_succ_self rest.length) (next_nop position) next
    exact ⟨position.running, moved⟩
  | @tlv _ kind len value rest items tlvKind short total next =>
    simp only [List.length_cons, List.length_append] at length
    have called := next_short position tlvKind short
    rw [if_neg (by omega), if_neg (by omega)] at called
    exact @called_tlv iter [kind, len] value rest items _ position nofun (total.trans (Nat.add_comm _ _)) _ called next
  | @extended _ kind high low value rest items tlvKind total long next =>
    simp only [List.length_cons, List.length_append] at length
    have called := next_extended position tlvKind
    rw [if_neg (by omega), if_neg (by omega)] at called
    exact @called_tlv iter [kind, Kind.extendedLengthMarker, high, low] value rest items _ position nofun
      (total.trans (Nat.add_comm _ _)) _ called next
  | bare tlvKind => exact .last _ rfl (next_bare position tlvKind)
  | @shortLength _ kind len rest tlvKind short =>
    have unmarked : len ≠ Kind.extendedLengthMarker := by
      rintro rfl
      omega
    have called := next_short position tlvKind unmarked
    rw [if_pos short] at called
    exact .last _ rfl called
  | overrun tlvKind short proper beyond =>
    simp only [List.length_cons] at length
    have called := next_short position tlvKind short
    rw [if_neg (Nat.not_lt.mpr proper), if_pos (by omega)] at called
    exact .last _ rfl called
  | extendedBare tlvKind bare => exact .last _ rfl (next_extendedBare position tlvKind bare)
  | extendedShort tlvKind short =>
    have called := next_extended position tlvKind
    rw [if_pos short] at called
    exact .last _ rfl called
  | extendedOverrun tlvKind long beyond =>
    simp only [List.length_cons] at length
    have called := next_extended position tlvKind
    rw [if_neg (Nat.not_lt.mpr long), if_pos (by omega)] at called
    exact .last _ rfl called

def nopItem : OptionsIter.Item := .ok ⟨.nop, [], none⟩

private theorem fail_counts {iter after : OptionsIter} {item : OptionsIter.Item} {error : ParseError}
    (failed : iter.fail error = (some item, after)) :
    item ≠ nopItem ∧ after.maxNopRun = iter.maxNopRun ∧ (after.currentNopRun = 0 ∨ after.done = true) := by
  cases failed
  exact ⟨nofun, rfl, .inr rfl⟩

private theorem yieldTlv_counts {iter after : OptionsIter} {item : OptionsIter.Item} {start headerLen totalLen : Nat}
    {kind : OptionKind} (called : iter.yieldTlv start headerLen totalLen kind = .ok (some item, after)) :
    item ≠ nopItem ∧ after.maxNopRun = iter.maxNopRun ∧ (after.currentNopRun = 0 ∨ after.done = true) := by
  obtain ⟨⟨value, middle⟩, sliced, yielded⟩ := Checked.bind_eq_ok.mp called
  obtain ⟨bytes, _, moved⟩ := Checked.bind_eq_ok.mp sliced
  cases moved
  cases yielded
  refine ⟨fun same => ?_, rfl, .inl rfl⟩
  cases (Except.ok.inj same)

/-- How one call counts: a NOP lengthens the current run, and every other option ends it. -/
theorem next_counts {iter after : OptionsIter} {item : OptionsIter.Item}
    (called : iter.next = .ok (some item, after)) :
    (item = nopItem ∧ after.currentNopRun = iter.currentNopRun + 1 ∧
      after.maxNopRun = max iter.maxNopRun (iter.currentNopRun + 1)) ∨
    (item ≠ nopItem ∧ after.maxNopRun = iter.maxNopRun ∧ (after.currentNopRun = 0 ∨ after.done = true)) := by
  unfold OptionsIter.next at called
  split at called
  · cases called
  obtain ⟨rawKind, _, called⟩ := Checked.bind_eq_ok.mp called
  dsimp only at called
  split at called
  next eol =>
    subst eol
    cases called
    exact .inr ⟨nofun, rfl, .inl rfl⟩
  split at called
  next nop =>
    subst nop
    cases called
    exact .inl ⟨rfl, rfl, rfl⟩
  right
  split at called
  · exact fail_counts (Except.ok.inj called)
  split at called
  · split at called
    · exact fail_counts (Except.ok.inj called)
    obtain ⟨high, _, called⟩ := Checked.bind_eq_ok.mp called
    obtain ⟨low, _, called⟩ := Checked.bind_eq_ok.mp called
    split at called
    · exact fail_counts (Except.ok.inj called)
    split at called
    · exact fail_counts (Except.ok.inj called)
    · exact yieldTlv_counts called
  · split at called
    · exact fail_counts (Except.ok.inj called)
    split at called
    · exact fail_counts (Except.ok.inj called)
    · exact yieldTlv_counts called

/-- With one unit of fuel for each remaining byte and one more, the iterator runs
to its end, yields the derived items and keeps the longest run of NOP. -/
theorem Framed.drain {iter : OptionsIter} {rest : List UInt8} {items : List OptionsIter.Item}
    (framed : Framed iter.pos rest items) (position : At iter rest) :
    ∃ after, (∀ fuel, rest.length < fuel → iter.drain fuel = .ok (items, after)) ∧ after.next = .ok (none, after) ∧
      after.maxNopRun = longestRunFrom nopItem iter.currentNopRun iter.maxNopRun items := by
  induction length : rest.length using Nat.strong_induction_on generalizing iter rest items with
  | _ size ih =>
    subst length
    have fueled : ∀ fuel, rest.length < fuel → ∃ less, fuel = less + 1 := fun fuel enough => ⟨fuel - 1, by omega⟩
    cases framed.called position rfl with
    | exhausted called =>
      refine ⟨iter, fun fuel enough => ?_, called, rfl⟩
      obtain ⟨less, rfl⟩ := fueled fuel enough
      simp only [OptionsIter.drain, called, Checked.ok_bind]
      rfl
    | @last _ item after stopped called =>
      have nonempty : rest ≠ [] := by
        rintro rfl
        cases framed
      refine ⟨after, fun fuel enough => ?_, next_stopped (.inl stopped), ?_⟩
      · have positive := List.length_pos_of_ne_nil nonempty
        obtain ⟨less, rfl⟩ : ∃ less, fuel = less + 1 + 1 := ⟨fuel - 2, by omega⟩
        simp only [OptionsIter.drain, called, Checked.ok_bind, next_stopped (.inl stopped)]
        rfl
      · rw [longestRunFrom]
        rcases next_counts called with ⟨rfl, _, most⟩ | ⟨different, most, _⟩
        · rw [if_pos rfl]
          exact most
        · rw [if_neg different]
          exact most
    | @more _ remaining item items after moved shorter called next =>
      obtain ⟨final, drained, exhausted, most⟩ := ih remaining.length shorter next moved rfl
      refine ⟨final, fun fuel enough => ?_, exhausted, ?_⟩
      · obtain ⟨less, rfl⟩ := fueled fuel enough
        simp only [OptionsIter.drain, called, Checked.ok_bind, drained less (by omega)]
        rfl
      · rw [longestRunFrom, most]
        rcases next_counts called with ⟨rfl, run, longest⟩ | ⟨different, longest, ended | stopped⟩
        · rw [if_pos rfl, run, longest]
        · rw [if_neg different, ended, longest]
        · cases moved.running.symm.trans stopped

theorem Framed.items {bytes : List UInt8} {items : List OptionsIter.Item} (framed : Framed 0 bytes items) :
    OptionsIter.items bytes = .ok items := by
  have position : At (OptionsIter.new bytes) bytes := ⟨rfl, rfl⟩
  obtain ⟨after, drained, _⟩ := framed.drain position
  simp only [OptionsIter.items, drained (bytes.length + 1) (Nat.lt_succ_self bytes.length), Checked.ok_bind]
  rfl

/-- The iterator ends on every input, without a fault, with derived items. -/
theorem items_framed (bytes : List UInt8) : ∃ items, OptionsIter.items bytes = .ok items ∧ Framed 0 bytes items := by
  obtain ⟨items, framed⟩ := framed_exists bytes 0
  exact ⟨items, framed.items, framed⟩

theorem Framed.first {bytes : List UInt8} {item : OptionsIter.Item} {items : List OptionsIter.Item}
    (framed : Framed 0 bytes (item :: items)) : ∃ after, (OptionsIter.new bytes).next = .ok (some item, after) := by
  cases framed.called (show At (OptionsIter.new bytes) bytes from ⟨rfl, rfl⟩) rfl with
  | last after _ called => exact ⟨after, called⟩
  | more after _ _ called => exact ⟨after, called⟩

end UdpOptions.Proofs
