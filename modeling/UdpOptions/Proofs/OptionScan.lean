import UdpOptions.Pipeline
import UdpOptions.Proofs.TlvFraming

/-! The two passes over an options area. The pre-scan looks for the first FRAG
and cuts the area at Frag.Start; the option loop then interprets what is left.
Cutting behind a FRAG keeps it the first one, so both passes agree on it. -/

namespace UdpOptions.Proofs
open Library Model

/-- The items of an area; the iterator never faults. -/
def itemsOf (bytes : List UInt8) : List OptionsIter.Item :=
  match OptionsIter.items bytes with
  | .ok items => items
  | .error _ => []

theorem framed_itemsOf (bytes : List UInt8) : Framed 0 bytes (itemsOf bytes) := by
  obtain ⟨items, drained, framed⟩ := items_framed bytes
  simpa only [itemsOf, drained] using framed

theorem items_eq (bytes : List UInt8) : OptionsIter.items bytes = .ok (itemsOf bytes) := (framed_itemsOf bytes).items

theorem Framed.itemsOf_eq {bytes : List UInt8} {items : List OptionsIter.Item} (framed : Framed 0 bytes items) :
    itemsOf bytes = items := by
  have same := (items_eq bytes).symm.trans framed.items
  exact Except.ok.inj same

/-- The pre-scan passes over this kind; FRAG, EOL, and UNSAFE kinds end it. -/
def passes (kind : OptionKind) : Bool :=
  match kind with
  | .frag => false
  | .other byte => !(OptionKind.other byte).isUnsafe
  | .eol => false
  | .nop | .apc | .mds | .mrds | .req | .res => true

def scanFrag : List OptionsIter.Item → Option OptionRef
  | [] => none
  | .error _ :: _ => none
  | .ok option :: rest =>
    if option.kind = .frag then some option else if passes option.kind then scanFrag rest else none

def leading : List OptionsIter.Item → List OptionRef
  | [] => []
  | .error _ :: _ => []
  | .ok option :: rest => if passes option.kind then option :: leading rest else []

/-- What the pre-scan makes of a FRAG whose value ends at `stop`. -/
def limitAt (optionsLen optionsOffset : Nat) (value : List UInt8) (stop : Nat) : FragmentOptionLimit :=
  match Frag.decode value with
  | .error _ => .full
  | .ok frag =>
    match checkedSub frag.fragStart.toNat optionsOffset with
    | none => .malformedFrag frag
    | some limit => if optionsLen < limit ∨ limit < stop then .malformedFrag frag else .upTo limit

theorem scanFrag_cons {first option : OptionRef} {rest : List OptionsIter.Item}
    (found : scanFrag (.ok first :: rest) = some option) :
    (first.kind = .frag ∧ first = option) ∨
      (first.kind ≠ .frag ∧ passes first.kind = true ∧ scanFrag rest = some option) := by
  unfold scanFrag at found
  split at found
  next isFrag => exact .inl ⟨isFrag, Option.some.inj found⟩
  next notFrag =>
    split at found
    next passing => exact .inr ⟨notFrag, passing, found⟩
    · cases found

theorem Framed.scanFrag_at {start : Nat} {bytes : List UInt8} {items : List OptionsIter.Item}
    (framed : Framed start bytes items) {option : OptionRef} (found : scanFrag items = some option) :
    ∃ valueAt, option.valueAt = some valueAt ∧ start + 2 ≤ valueAt := by
  induction framed with
  | done => cases found
  | eol => cases found
  | nop next ih =>
    obtain ⟨valueAt, same, above⟩ := ih found
    exact ⟨valueAt, same, by omega⟩
  | tlv tlvKind short total next ih =>
    rcases scanFrag_cons found with ⟨_, rfl⟩ | ⟨_, _, later⟩
    · exact ⟨_, rfl, Nat.le_refl _⟩
    · obtain ⟨valueAt, same, above⟩ := ih later
      exact ⟨valueAt, same, by omega⟩
  | extended tlvKind total long next ih =>
    rcases scanFrag_cons found with ⟨_, rfl⟩ | ⟨_, _, later⟩
    · exact ⟨_, rfl, by omega⟩
    · obtain ⟨valueAt, same, above⟩ := ih later
      exact ⟨valueAt, same, by omega⟩
  | bare => cases found
  | shortLength => cases found
  | overrun => cases found
  | extendedBare => cases found
  | extendedShort => cases found
  | extendedOverrun => cases found

private theorem take_framed {start total size : Nat} {header rest : List UInt8} {items : List OptionsIter.Item}
    {first option : OptionRef} {valueAt : Nat}
    (rule : ∀ {rest : List UInt8} {items : List OptionsIter.Item}, Framed (start + total) rest items →
      Framed start (header ++ (first.value ++ rest)) (.ok first :: items))
    (exactly : total = header.length + first.value.length) (placed : first.valueAt = some (start + header.length))
    (next : Framed (start + total) rest items)
    (later : ∀ {size : Nat}, scanFrag items = some option → valueAt + option.value.length ≤ start + total + size →
      ∃ kept, Framed (start + total) (rest.take size) kept ∧ scanFrag kept = some option ∧
        leading kept = leading items)
    (found : scanFrag (.ok first :: items) = some option) (addressed : option.valueAt = some valueAt)
    (inside : valueAt + option.value.length ≤ start + size) :
    ∃ kept, Framed start ((header ++ (first.value ++ rest)).take size) kept ∧ scanFrag kept = some option ∧
      leading kept = leading (.ok first :: items) := by
  have cut : total ≤ size →
      (header ++ (first.value ++ rest)).take size = header ++ (first.value ++ rest.take (size - total)) := by
    intro fits
    obtain ⟨extra, rfl⟩ : ∃ extra, size = header.length + (first.value.length + extra) := ⟨size - total, by omega⟩
    rw [List.take_length_add_append, List.take_length_add_append, exactly, ← Nat.add_assoc, Nat.add_sub_cancel_left]
  rcases scanFrag_cons found with ⟨isFrag, rfl⟩ | ⟨notFrag, passing, behind⟩
  · cases placed.symm.trans addressed
    obtain ⟨remaining, again⟩ := framed_exists (rest.take (size - total)) (start + total)
    rw [cut (by omega)]
    refine ⟨_, rule again, by rw [scanFrag, if_pos isFrag], ?_⟩
    simp only [leading, isFrag, passes]
    rfl
  · obtain ⟨other, same, above⟩ := next.scanFrag_at behind
    cases addressed.symm.trans same
    obtain ⟨kept, again, first, front⟩ := later behind (show _ ≤ start + total + (size - total) by omega)
    rw [cut (by omega)]
    exact ⟨_, rule again, by rw [scanFrag, if_neg notFrag, if_pos passing, first], by rw [leading, front, leading]⟩

/-- Cutting the area behind its first FRAG keeps that FRAG and what leads up to it. -/
theorem Framed.take {start : Nat} {bytes : List UInt8} {items : List OptionsIter.Item}
    (framed : Framed start bytes items) {option : OptionRef} {valueAt size : Nat}
    (found : scanFrag items = some option) (addressed : option.valueAt = some valueAt)
    (inside : valueAt + option.value.length ≤ start + size) :
    ∃ kept, Framed start (bytes.take size) kept ∧ scanFrag kept = some option ∧ leading kept = leading items := by
  induction framed generalizing size with
  | done => cases found
  | eol => cases found
  | @nop start rest items next ih =>
    obtain ⟨other, same, above⟩ := next.scanFrag_at found
    cases addressed.symm.trans same
    obtain ⟨smaller, rfl⟩ : ∃ smaller, size = smaller + 1 := ⟨size - 1, by omega⟩
    obtain ⟨kept, again, first, front⟩ := ih found (show _ ≤ start + 1 + smaller by omega)
    exact ⟨_, .nop again, first, congrArg (List.cons _) front⟩
  | @tlv start kind len value rest items tlvKind short total next ih =>
    have exactly : len.toNat = [kind, len].length + value.length := total.trans (Nat.add_comm _ _)
    exact take_framed (.tlv tlvKind short total) exactly rfl next ih found addressed inside
  | @extended start kind high low value rest items tlvKind total long next ih =>
    have exactly : (u16OfBe high low).toNat = [kind, Kind.extendedLengthMarker, high, low].length + value.length :=
      total.trans (Nat.add_comm _ _)
    exact take_framed (.extended tlvKind total long) exactly rfl next ih found addressed inside
  | bare => cases found
  | shortLength => cases found
  | overrun => cases found
  | extendedBare => cases found
  | extendedShort => cases found
  | extendedOverrun => cases found

def endOffset (option : OptionRef) : Nat := option.valueAt.getD 0 + option.value.length

theorem Framed.scanFrag_inside {start : Nat} {bytes : List UInt8} {items : List OptionsIter.Item}
    (framed : Framed start bytes items) {option : OptionRef} (found : scanFrag items = some option) :
    endOffset option ≤ start + bytes.length := by
  induction framed with
  | done => cases found
  | eol => cases found
  | nop next ih =>
    have inside := ih found
    rw [List.length_cons]
    omega
  | tlv tlvKind short total next ih =>
    simp only [List.length_cons, List.length_append]
    rcases scanFrag_cons found with ⟨_, rfl⟩ | ⟨_, _, later⟩
    · simp only [endOffset, Option.getD_some]
      omega
    · have inside := ih later
      omega
  | extended tlvKind total long next ih =>
    simp only [List.length_cons, List.length_append]
    rcases scanFrag_cons found with ⟨_, rfl⟩ | ⟨_, _, later⟩
    · simp only [endOffset, Option.getD_some]
      omega
    · have inside := ih later
      omega
  | bare => cases found
  | shortLength => cases found
  | overrun => cases found
  | extendedBare => cases found
  | extendedShort => cases found
  | extendedOverrun => cases found

def limitOf (optionsLen optionsOffset : Nat) (items : List OptionsIter.Item) : FragmentOptionLimit :=
  match scanFrag items with
  | none => .full
  | some option => limitAt optionsLen optionsOffset option.value (endOffset option)

private theorem limitFrom_eq (optionsLen optionsOffset : Nat) {items : List OptionsIter.Item}
    (addressed : ∀ option, scanFrag items = some option → ∃ valueAt, option.valueAt = some valueAt) :
    limitFrom optionsLen optionsOffset items = .ok (limitOf optionsLen optionsOffset items) := by
  induction items with
  | nil => rfl
  | cons item rest ih =>
    cases item with
    | error error => rfl
    | ok option =>
      by_cases isFrag : option.kind = .frag
      · have found : scanFrag (.ok option :: rest) = some option := by rw [scanFrag, if_pos isFrag]
        obtain ⟨valueAt, known⟩ := addressed option found
        have stop : optionEndOffset option = .ok (endOffset option) := by
          simp only [optionEndOffset, endOffset, known, Checked.expect, Option.getD_some, Checked.ok_bind,
            Checked.pure_eq]
        simp only [limitFrom, limitOf, found, limitAt, isFrag, stop, Checked.ok_bind, Checked.pure_eq]
        cases Frag.decode option.value with
        | error error => rfl
        | ok frag =>
          dsimp only
          cases checkedSub frag.fragStart.toNat optionsOffset with
          | none => rfl
          | some limit =>
            dsimp only
            by_cases beyond : optionsLen < limit
            · rw [if_pos beyond, if_pos (.inl beyond)]
            · by_cases inside : limit < endOffset option
              · rw [if_neg beyond, if_pos inside, if_pos (.inr inside)]
              · rw [if_neg beyond, if_neg inside, if_neg (by tauto)]
      · by_cases passing : passes option.kind
        · have same : scanFrag (.ok option :: rest) = scanFrag rest := by
            rw [scanFrag, if_neg isFrag, if_pos passing]
          have later := ih fun other found => addressed other (same.trans found)
          rw [limitOf, same, ← limitOf, ← later, limitFrom]
          cases kind : option.kind <;> simp_all [passes]
        · have none : scanFrag (.ok option :: rest) = none := by
            rw [scanFrag, if_neg isFrag, if_neg passing]
          rw [limitOf, none, limitFrom]
          cases kind : option.kind <;> simp_all [passes]

theorem fragmentOptionLimit_eq (optionsBytes : List UInt8) (userDataEmpty : Bool) (optionsOffset : Nat) :
    fragmentOptionLimit optionsBytes userDataEmpty optionsOffset =
      .ok (if userDataEmpty then limitOf optionsBytes.length optionsOffset (itemsOf optionsBytes) else .full) := by
  have scanned := limitFrom_eq optionsBytes.length optionsOffset (fun option found => by
    obtain ⟨valueAt, known, _⟩ := (framed_itemsOf optionsBytes).scanFrag_at found
    exact ⟨valueAt, known⟩)
  cases userDataEmpty with
  | false => rfl
  | true => simp [fragmentOptionLimit, items_eq, scanned]

theorem limitOf_upTo {optionsLen optionsOffset stop : Nat} {items : List OptionsIter.Item}
    (cut : limitOf optionsLen optionsOffset items = .upTo stop) :
    ∃ option frag, scanFrag items = some option ∧ Frag.decode option.value = .ok frag ∧
      frag.fragStart.toNat = optionsOffset + stop ∧ stop ≤ optionsLen ∧ endOffset option ≤ stop := by
  unfold limitOf at cut
  split at cut
  · cases cut
  next option found =>
    unfold limitAt at cut
    split at cut
    · cases cut
    next frag decoded =>
      split at cut
      · cases cut
      next limit reached =>
        split at cut
        · cases cut
        next fits =>
          cases cut
          obtain ⟨above, same⟩ := checkedSub_eq_some.mp reached
          push Not at fits
          exact ⟨option, frag, found, decoded, by omega, fits.1, fits.2⟩

/-- A pre-scan that fails the fragment has found a FRAG whose data starts in front
of the end of that FRAG or behind the area. -/
theorem limitOf_malformed {optionsLen optionsOffset : Nat} {items : List OptionsIter.Item} {frag : Frag} :
    limitOf optionsLen optionsOffset items = .malformedFrag frag ↔
      ∃ option, scanFrag items = some option ∧ Frag.decode option.value = .ok frag ∧
        (frag.fragStart.toNat < optionsOffset + endOffset option ∨
          optionsOffset + optionsLen < frag.fragStart.toNat) := by
  constructor
  · intro malformed
    unfold limitOf at malformed
    split at malformed
    · cases malformed
    next option found =>
      unfold limitAt at malformed
      split at malformed
      · cases malformed
      next decodedFrag decoded =>
        split at malformed
        next unreached =>
          cases malformed
          have short := checkedSub_eq_none.mp unreached
          exact ⟨option, found, decoded, .inl (by omega)⟩
        next limit reached =>
          obtain ⟨above, same⟩ := checkedSub_eq_some.mp reached
          split at malformed
          next misplaced =>
            cases malformed
            exact ⟨option, found, decoded, by omega⟩
          · cases malformed
  · rintro ⟨option, found, decoded, misplaced⟩
    simp only [limitOf, found, limitAt, decoded]
    cases reached : checkedSub frag.fragStart.toNat optionsOffset with
    | none => rfl
    | some limit =>
      obtain ⟨above, same⟩ := checkedSub_eq_some.mp reached
      exact if_pos (by omega)

theorem limitOf_full {optionsLen optionsOffset : Nat} {items : List OptionsIter.Item}
    (full : limitOf optionsLen optionsOffset items = .full) {option : OptionRef}
    (found : scanFrag items = some option) : ∃ error, Frag.decode option.value = .error error := by
  unfold limitOf limitAt at full
  rw [found] at full
  dsimp only at full
  split at full
  next error failed => exact ⟨error, failed⟩
  · split at full
    · cases full
    · split at full <;> cases full

end UdpOptions.Proofs
