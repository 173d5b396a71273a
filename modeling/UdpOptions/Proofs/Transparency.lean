import UdpOptions.Proofs.FatalOptions
import UdpOptions.Proofs.OptionGrammar

/-! Unknown SAFE options and NOPs are transparent. An insertion moves the bytes behind
it, which changes addresses and error offsets and nothing else, and the loop carries
one more Ignored report, which no later step looks at. -/

namespace UdpOptions.Proofs
open Library Model

inductive Moved : OptionsIter.Item → OptionsIter.Item → Prop where
  | option {kind : OptionKind} {value : List UInt8} (here there : Option Nat) :
      Moved (.ok ⟨kind, value, here⟩) (.ok ⟨kind, value, there⟩)
  | error (here there : ParseError) : Moved (.error here) (.error there)

theorem Framed.moved {start : Nat} {bytes : List UInt8} {items : List OptionsIter.Item}
    (framed : Framed start bytes items) (other : Nat) :
    ∃ moved, Framed other bytes moved ∧ List.Forall₂ Moved items moved := by
  induction framed generalizing other with
  | done => exact ⟨[], .done, .nil⟩
  | eol => exact ⟨_, .eol, .cons (.option _ _) .nil⟩
  | nop next ih =>
    obtain ⟨moved, again, alike⟩ := ih (other + 1)
    exact ⟨_, .nop again, .cons (.option _ _) alike⟩
  | tlv tlvKind short total next ih =>
    obtain ⟨moved, again, alike⟩ := ih _
    exact ⟨_, .tlv tlvKind short total again, .cons (.option _ _) alike⟩
  | extended tlvKind total long next ih =>
    obtain ⟨moved, again, alike⟩ := ih _
    exact ⟨_, .extended tlvKind total long again, .cons (.option _ _) alike⟩
  | bare tlvKind => exact ⟨_, .bare tlvKind, .cons (.error _ _) .nil⟩
  | shortLength tlvKind short => exact ⟨_, .shortLength tlvKind short, .cons (.error _ _) .nil⟩
  | overrun tlvKind short proper beyond => exact ⟨_, .overrun tlvKind short proper beyond, .cons (.error _ _) .nil⟩
  | extendedBare tlvKind bare => exact ⟨_, .extendedBare tlvKind bare, .cons (.error _ _) .nil⟩
  | extendedShort tlvKind short => exact ⟨_, .extendedShort tlvKind short, .cons (.error _ _) .nil⟩
  | extendedOverrun tlvKind long beyond => exact ⟨_, .extendedOverrun tlvKind long beyond, .cons (.error _ _) .nil⟩

theorem Token.Proper.framed {token : Token} (proper : token.Proper) (start : Nat) :
    ∃ valueAt, ∀ (rest : List UInt8) (items : List OptionsIter.Item),
      Framed (start + token.bytes.length) rest items →
      Framed start (token.bytes ++ rest) (.ok ⟨token.option.kind, token.option.value, valueAt⟩ :: items) := by
  cases token with
  | nop => exact ⟨none, fun _ _ next => .nop next⟩
  | short kind value => exact ⟨some (start + 2), fun _ _ => proper.short_framed⟩
  | extended kind value => exact ⟨some (start + 4), fun _ _ => proper.extended_framed⟩

/-- The second state has the extra reports somewhere among those of the first; no FRAG
has been recognized. -/
inductive Beside (extra : List OptionReport) : OptionState → OptionState → Prop where
  | reports (options : List RawOption) (seen : UInt8 → Bool) (before after : List OptionReport) :
      Beside extra ⟨options, before ++ after, seen, none⟩ ⟨options, before ++ (extra ++ after), seen, none⟩

section
variable {extra : List OptionReport} {state other : OptionState}

theorem Beside.pushReport (beside : Beside extra state other) (kind : OptionKind) (status : OptionStatus) :
    Beside extra (state.pushReport kind status) (other.pushReport kind status) := by
  cases beside with
  | reports options seen before after =>
    have pushed := @Beside.reports extra options seen before (after ++ [report kind status])
    simp only [OptionState.pushReport, List.append_assoc] at pushed ⊢
    exact pushed

theorem Beside.markSeen (beside : Beside extra state other) (kind : UInt8) :
    Beside extra (state.markSeen kind) (other.markSeen kind) := by
  cases beside with
  | reports options seen before after => exact .reports _ _ _ _

theorem Beside.expose (beside : Beside extra state other) (option : RawOption) :
    Beside extra { state with options := state.options ++ [option] } { other with options := other.options ++ [option] } := by
  cases beside with
  | reports options seen before after => exact .reports _ _ _ _

theorem Beside.seen (beside : Beside extra state other) : other.seen = state.seen := by
  cases beside with
  | reports options seen before after => rfl

theorem Beside.absent (beside : Beside extra state other) : state.frag = none ∧ other.frag = none := by
  cases beside with
  | reports options seen before after => exact ⟨rfl, rfl⟩

theorem Beside.recordOnce (beside : Beside extra state other) (option : OptionRef) (status : OptionStatus) :
    Beside extra (state.recordOnce option status) (other.recordOnce option status) := by
  unfold OptionState.recordOnce
  rw [beside.seen]
  dsimp only
  split
  · exact beside.pushReport _ _
  split
  · exact ((beside.markSeen _).pushReport _ _).expose _
  · exact (beside.markSeen _).pushReport _ _

end

inductive Together (extra : List OptionReport) : LoopStep → LoopStep → Prop where
  | next {state other : OptionState} (beside : Beside extra state other) : Together extra (.next state) (.next other)
  | broken {state other : OptionState} (beside : Beside extra state other) : Together extra (.broken state) (.broken other)
  | left (here there : ParseError) : Together extra (.left (.error here)) (.left (.error there))

inductive Agrees (extra : List OptionReport) : Except ParseError ParsedOptions → Except ParseError ParsedOptions → Prop where
  | refused (here there : ParseError) : Agrees extra (.error here) (.error there)
  | parsed (options : List RawOption) (frag : Option Frag) (unsupported failed : Bool) (before after : List OptionReport) :
      Agrees extra (.ok ⟨options, before ++ after, frag, unsupported, failed⟩)
        (.ok ⟨options, before ++ (extra ++ after), frag, unsupported, failed⟩)

theorem Beside.finished {extra : List OptionReport} {state other : OptionState} (beside : Beside extra state other)
    (unsupported : Bool) : Agrees extra (.ok (state.finished unsupported)) (.ok (other.finished unsupported)) := by
  cases beside with
  | reports options seen before after => exact .parsed _ _ _ _ _ _

section
variable {crc32c : List UInt8 → UInt32} {userData : List UInt8} {extra : List OptionReport} {state other : OptionState}

theorem Beside.leaveWith (beside : Beside extra state other) (error : ParseError) :
    Together extra (leaveWith state userData error) (leaveWith other userData error) := by
  obtain ⟨here, there⟩ := beside.absent
  rw [leaveWith_absent here, leaveWith_absent there]
  exact .left error error

theorem Beside.optionStep (beside : Beside extra state other) {option : OptionRef} (notFrag : option.kind ≠ .frag) :
    Together extra (optionStep crc32c false userData state option) (optionStep crc32c false userData other option) := by
  unfold UdpOptions.optionStep
  dsimp only
  split
  · exact beside.leaveWith _
  split
  · exact .next beside
  · exact .next beside
  next kind => exact absurd kind notFrag
  · exact .next (beside.recordOnce _ _)
  · exact .next (beside.recordOnce _ _)
  · exact .next (beside.recordOnce _ _)
  · exact .next (beside.recordOnce _ _)
  · exact .next (beside.recordOnce _ _)
  · split
    · exact .next (beside.pushReport _ _)
    · exact .broken (beside.pushReport _ _)

private theorem optionLoop_error {state : OptionState} (absent : state.frag = none) (error : ParseError)
    (rest : List OptionsIter.Item) :
    optionLoop crc32c false userData state (.error error :: rest) = .error error := by
  rw [UdpOptions.optionLoop, absent]
  exact if_neg fun held => Bool.false_ne_true held.1

private theorem scanFrag_next {option : OptionRef} {items : List OptionsIter.Item} {after : OptionState}
    (ends : EndsOnce (.ok option :: items)) (noFrag : scanFrag (.ok option :: items) = none)
    (stepped : UdpOptions.optionStep crc32c false userData state option = .next after) : scanFrag items = none := by
  obtain ⟨_, ⟨_, notFrag, eol | passing⟩ | ⟨_, kind, _⟩⟩ := optionStep_next stepped
  · rw [ends.1 eol]
    rfl
  · rw [scanFrag, if_neg notFrag, if_pos passing] at noFrag
    exact noFrag
  · rw [scanFrag, if_pos kind] at noFrag
    cases noFrag

private theorem scanFrag_kind {option : OptionRef} {items : List OptionsIter.Item}
    (noFrag : scanFrag (.ok option :: items) = none) : option.kind ≠ .frag := by
  intro kind
  rw [scanFrag, if_pos kind] at noFrag
  cases noFrag

theorem Beside.optionLoop {items moved : List OptionsIter.Item} (alike : List.Forall₂ Moved items moved)
    (ends : EndsOnce items) (noFrag : scanFrag items = none) (beside : Beside extra state other) :
    Agrees extra (optionLoop crc32c false userData state items) (optionLoop crc32c false userData other moved) := by
  induction alike generalizing state other with
  | nil => exact beside.finished false
  | @cons item _ rest _ same later ih =>
    cases same with
    | error here there =>
      rw [optionLoop_error beside.absent.1, optionLoop_error beside.absent.2]
      exact .refused here there
    | @option kind value here there =>
      -- the address of the value plays no part in a step
      have step := @Beside.optionStep crc32c userData extra state other beside ⟨kind, value, here⟩ (scanFrag_kind noFrag)
      change Together extra _ (UdpOptions.optionStep crc32c false userData other ⟨kind, value, there⟩) at step
      rw [UdpOptions.optionLoop, UdpOptions.optionLoop]
      generalize first : UdpOptions.optionStep crc32c false userData state ⟨kind, value, here⟩ = taken at step ⊢
      generalize UdpOptions.optionStep crc32c false userData other ⟨kind, value, there⟩ = parallel at step ⊢
      cases step with
      | next after => exact ih ends.2 (scanFrag_next ends noFrag first) after
      | broken after => exact after.finished true
      | left here there => exact .refused here there

/-- Two areas with a common front of passing options agree if they agree behind it. -/
theorem optionLoop_behind {refs : List OptionRef} {tail inserted : List OptionsIter.Item}
    (passing : ∀ ref ∈ refs, passes ref.kind = true) (absent : state.frag = none)
    (behind : ∀ after : OptionState, after.frag = none →
      Agrees extra (optionLoop crc32c false userData after tail) (optionLoop crc32c false userData after inserted)) :
    Agrees extra (optionLoop crc32c false userData state (refs.map .ok ++ tail))
      (optionLoop crc32c false userData state (refs.map .ok ++ inserted)) := by
  induction refs generalizing state with
  | nil => exact behind state absent
  | cons ref refs ih =>
    obtain ⟨first, later⟩ := List.forall_mem_cons.mp passing
    simp only [List.map_cons, List.cons_append, UdpOptions.optionLoop]
    cases stepped : UdpOptions.optionStep crc32c false userData state ref with
    | next after =>
      apply ih later
      obtain ⟨_, ⟨same, _⟩ | ⟨_, kind, _⟩⟩ := optionStep_next stepped
      · exact same.frag.trans absent
      · rw [kind] at first
        cases first
    | broken after =>
      have stopped := (optionStep_broken stepped).2.1
      exact absurd first (Bool.eq_false_iff.mp stopped)
    | left result =>
      obtain ⟨error, rfl⟩ := optionStep_left absent stepped
      exact .refused error error

end

theorem passes_of_safe {kind : OptionKind} (safe : kind.isSafe = true) (notEol : kind ≠ .eol) (notFrag : kind ≠ .frag) :
    passes kind = true := by
  cases kind with
  | eol => exact absurd rfl notEol
  | frag => exact absurd rfl notFrag
  | other byte => simp [passes, OptionKind.isUnsafe, safe]
  | nop => rfl
  | apc => rfl
  | mds => rfl
  | mrds => rfl
  | req => rfl
  | res => rfl

private theorem scanFrag_front {refs : List OptionRef} {tail : List OptionsIter.Item}
    (safe : ∀ ref ∈ refs, ref.kind.isSafe = true ∧ ref.kind ≠ .eol)
    (noFrag : scanFrag (refs.map .ok ++ tail) = none) :
    (∀ ref ∈ refs, passes ref.kind = true) ∧ scanFrag tail = none := by
  induction refs with
  | nil => exact ⟨List.forall_mem_nil _, noFrag⟩
  | cons ref refs ih =>
    obtain ⟨first, later⟩ := List.forall_mem_cons.mp safe
    have notFrag := scanFrag_kind noFrag
    have passing := passes_of_safe first.1 first.2 notFrag
    simp only [List.map_cons, List.cons_append, scanFrag, if_neg notFrag, if_pos passing] at noFrag
    obtain ⟨others, rest⟩ := ih later noFrag
    exact ⟨List.forall_mem_cons.mpr ⟨passing, others⟩, rest⟩

theorem scanFrag_append {refs : List OptionRef} (passing : ∀ ref ∈ refs, passes ref.kind = true)
    (tail : List OptionsIter.Item) : scanFrag (refs.map .ok ++ tail) = scanFrag tail := by
  induction refs with
  | nil => rfl
  | cons ref refs ih =>
    obtain ⟨first, later⟩ := List.forall_mem_cons.mp passing
    have notFrag : ref.kind ≠ .frag := by
      intro kind
      rw [kind] at first
      cases first
    simp only [List.map_cons, List.cons_append, scanFrag, if_neg notFrag, if_pos first]
    exact ih later

private theorem scanFrag_moved {items moved : List OptionsIter.Item} (alike : List.Forall₂ Moved items moved)
    (noFrag : scanFrag items = none) : scanFrag moved = none := by
  induction alike with
  | nil => rfl
  | cons same later ih =>
    cases same with
    | error here there => rfl
    | @option kind value here there =>
      have notFrag := scanFrag_kind noFrag
      simp only [scanFrag, if_neg notFrag] at noFrag ⊢
      split
      next passing =>
        rw [if_pos passing] at noFrag
        exact ih noFrag
      · rfl

/-- An option boundary at or before the first EOL, UNSAFE option, or framing error:
complete SAFE options and NOPs in front of it. -/
structure Boundary (area : List UInt8) (front : List Token) (rest : List UInt8) : Prop where
  cut : Cut area front rest
  safe : ∀ token ∈ front, token.option.kind.isSafe = true

/-- What may be inserted: a NOP, or a SAFE option of a kind from 8 to 191 that is not
below the minimum of TIME or EXP. -/
def Token.Transparent : Token → Prop
  | .nop => True
  | .short kind value =>
    8 ≤ kind ∧ kind ≤ 191 ∧ (kind = Kind.time → 10 ≤ value.length + 2) ∧ (kind = Kind.exp → 4 ≤ value.length + 2)
  | .extended kind _ => 8 ≤ kind ∧ kind ≤ 191

def Token.ignoredReports : Token → List OptionReport
  | .nop => []
  | .short kind _ => [⟨.other kind, .ignored, .datagram⟩]
  | .extended kind _ => [⟨.other kind, .ignored, .datagram⟩]

private theorem ne_named {kind : UInt8} (unnamed : 8 ≤ kind) {named : UInt8} (small : named ≤ 7) : kind ≠ named := by
  intro same
  subst same
  exact absurd (UInt8.le_trans unnamed small) (by decide)

private theorem fromByte_unnamed {kind : UInt8} (unnamed : 8 ≤ kind) : OptionKind.fromByte kind = .other kind := by
  have other : ∀ named : UInt8, named ≤ 7 → kind ≠ named := fun _ => ne_named unnamed
  unfold OptionKind.fromByte
  rw [if_neg (other _ (by decide)), if_neg (other _ (by decide)), if_neg (other _ (by decide)),
    if_neg (other _ (by decide)), if_neg (other _ (by decide)), if_neg (other _ (by decide)),
    if_neg (other _ (by decide)), if_neg (other _ (by decide))]

private theorem fixedTlvLengths_unnamed {kind : UInt8} (unnamed : 8 ≤ kind) :
    (OptionKind.other kind).fixedTlvLengths = [] := by
  have other : ∀ named : UInt8, named ≤ 7 → ¬ (OptionKind.other kind).toByte = named := fun _ => ne_named unnamed
  unfold OptionKind.fixedTlvLengths
  dsimp only
  rw [if_neg (other _ (by decide)), if_neg (other _ (by decide)), if_neg (other _ (by decide)),
    if_neg (other _ (by decide)), if_neg (other _ (by decide)), if_neg (other _ (by decide))]

private theorem rejectSubMinimum_unnamed {kind : UInt8} {value : List UInt8} (unnamed : 8 ≤ kind)
    (time : kind = Kind.time → 10 ≤ value.length + 2) (exp : kind = Kind.exp → 4 ≤ value.length + 2)
    (valueAt : Option Nat) : rejectSubMinimum ⟨.other kind, value, valueAt⟩ = .ok () := by
  unfold rejectSubMinimum minimumKnownTlvLen
  dsimp only
  by_cases isTime : (OptionKind.other kind).toByte = Kind.time
  · rw [if_pos isTime]
    exact if_neg (Nat.not_lt.mpr (time isTime))
  by_cases isExp : (OptionKind.other kind).toByte = Kind.exp
  · rw [if_neg isTime, if_pos isExp]
    exact if_neg (Nat.not_lt.mpr (exp isExp))
  · rw [if_neg isTime, if_neg isExp, fixedTlvLengths_unnamed unnamed]
    rfl

section
variable {crc32c : List UInt8 → UInt32} {userData : List UInt8} {state : OptionState}

private theorem optionStep_unnamed {kind : UInt8} {value : List UInt8} (unnamed : 8 ≤ kind) (safe : kind ≤ 191)
    (time : kind = Kind.time → 10 ≤ value.length + 2) (exp : kind = Kind.exp → 4 ≤ value.length + 2)
    (valueAt : Option Nat) :
    optionStep crc32c false userData state ⟨.fromByte kind, value, valueAt⟩ =
      .next (state.pushReport (.other kind) .ignored) := by
  have isSafe : (OptionKind.other kind).isSafe = true :=
    decide_eq_true (UInt8.lt_of_le_of_lt safe (by decide))
  rw [fromByte_unnamed unnamed]
  simp only [optionStep, rejectSubMinimum_unnamed unnamed time exp valueAt, isSafe]
  rfl

theorem Beside.pushed (absent : state.frag = none) (kind : OptionKind) :
    Beside [⟨kind, .ignored, .datagram⟩] state (state.pushReport kind .ignored) := by
  obtain ⟨options, reports, seen, frag⟩ := state
  cases absent
  have added := @Beside.reports [⟨kind, .ignored, .datagram⟩] options seen reports []
  rw [List.append_nil, List.append_nil] at added
  exact added

theorem Beside.same (absent : state.frag = none) : Beside [] state state := by
  obtain ⟨options, reports, seen, frag⟩ := state
  cases absent
  exact .reports options seen [] reports

theorem Token.Transparent.step {token : Token} (transparent : token.Transparent) (proper : token.Proper)
    (valueAt : Option Nat) (absent : state.frag = none) :
    ∃ after, Beside token.ignoredReports state after ∧
      optionStep crc32c false userData state ⟨token.option.kind, token.option.value, valueAt⟩ = .next after := by
  cases token with
  | nop => exact ⟨state, .same absent, rfl⟩
  | short kind value =>
    obtain ⟨unnamed, safe, time, exp⟩ := transparent
    exact ⟨_, .pushed absent (.other kind), optionStep_unnamed unnamed safe time exp valueAt⟩
  | extended kind value =>
    have long : 255 ≤ value.length + 4 := proper.2.1
    have time : 10 ≤ value.length + 2 := by omega
    have exp : 4 ≤ value.length + 2 := by omega
    exact ⟨_, .pushed absent (.other kind),
      optionStep_unnamed transparent.1 transparent.2 (fun _ => time) (fun _ => exp) valueAt⟩

end

private theorem passes_unnamed {kind : UInt8} (unnamed : 8 ≤ kind) (safe : kind ≤ 191) :
    passes (OptionKind.fromByte kind) = true := by
  have isSafe : (OptionKind.other kind).isSafe = true :=
    decide_eq_true (UInt8.lt_of_le_of_lt safe (by decide))
  rw [fromByte_unnamed unnamed]
  exact passes_of_safe isSafe OptionKind.noConfusion OptionKind.noConfusion

theorem Token.Transparent.passes {token : Token} (transparent : token.Transparent) :
    passes token.option.kind = true := by
  cases token with
  | nop => rfl
  | short kind value => exact passes_unnamed transparent.1 transparent.2.1
  | extended kind value => exact passes_unnamed transparent.1 transparent.2

theorem Token.Proper.not_eol {token : Token} (proper : token.Proper) : token.option.kind ≠ .eol := by
  cases token with
  | nop => exact OptionKind.noConfusion
  | short kind value => exact fromByte_ne_eol (isTlvKind_iff.mpr proper.1)
  | extended kind value => exact fromByte_ne_eol (isTlvKind_iff.mpr proper.1)

theorem framed_front {front : List Token} (proper : ∀ token ∈ front, token.Proper) (start : Nat) :
    ∃ refs : List OptionRef, refs.map OptionRef.toRaw = front.map Token.option ∧
      ∀ (rest : List UInt8) (items : List OptionsIter.Item),
        Framed (start + (front.flatMap Token.bytes).length) rest items →
        Framed start (front.flatMap Token.bytes ++ rest) (refs.map .ok ++ items) := by
  induction front generalizing start with
  | nil => exact ⟨[], rfl, fun _ _ next => next⟩
  | cons token front ih =>
    obtain ⟨first, later⟩ := List.forall_mem_cons.mp proper
    obtain ⟨valueAt, framing⟩ := first.framed start
    obtain ⟨refs, same, behind⟩ := ih later (start + token.bytes.length)
    refine ⟨⟨token.option.kind, token.option.value, valueAt⟩ :: refs, congrArg (token.option :: ·) same, ?_⟩
    intro rest items next
    rw [List.flatMap_cons, List.length_append, ← Nat.add_assoc] at next
    rw [List.flatMap_cons, List.append_assoc]
    exact framing _ _ (behind rest items next)

theorem parseArea_full {crc32c : List UInt8 → UInt32} {area userData : List UInt8} {optionsOffset : Nat}
    (noFrag : scanFrag (itemsOf area) = none) :
    parseArea crc32c area userData optionsOffset = optionLoop crc32c false userData .initial (itemsOf area) := by
  have full : limitOf area.length optionsOffset (itemsOf area) = .full := by rw [limitOf, noFrag]
  rw [parseArea, full, ite_self]

/-- Inserting a NOP or an unknown SAFE option at a boundary changes neither whether the
area parses nor anything of the result but the one Ignored report of the option. -/
theorem insertion_transparent (crc32c : List UInt8 → UInt32) {area rest : List UInt8} {front : List Token}
    {token : Token} (boundary : Boundary area front rest) (noFrag : scanFrag (itemsOf area) = none)
    (proper : token.Proper) (transparent : token.Transparent) (userData : List UInt8) (optionsOffset : Nat) :
    ∃ here there, parseOptions crc32c area userData optionsOffset = .ok here ∧
      parseOptions crc32c (front.flatMap Token.bytes ++ (token.bytes ++ rest)) userData optionsOffset = .ok there ∧
      Agrees token.ignoredReports here there := by
  obtain ⟨refs, same, framing⟩ := framed_front boundary.cut.proper 0
  obtain ⟨valueAt, tokenFraming⟩ := proper.framed (0 + (front.flatMap Token.bytes).length)
  obtain ⟨tail, framedTail⟩ := framed_exists rest (0 + (front.flatMap Token.bytes).length)
  obtain ⟨moved, framedMoved, alike⟩ := framedTail.moved (0 + (front.flatMap Token.bytes).length + token.bytes.length)
  have items := (framing rest tail framedTail).itemsOf_eq
  have inserted := (framing _ _ (tokenFraming rest moved framedMoved)).itemsOf_eq
  rw [← boundary.cut.whole] at items
  have safe : ∀ ref ∈ refs, ref.kind.isSafe = true ∧ ref.kind ≠ .eol := by
    intro ref member
    have listed : ref.toRaw ∈ front.map Token.option := same ▸ List.mem_map_of_mem member
    obtain ⟨token, present, equal⟩ := List.mem_map.mp listed
    have kind : token.option.kind = ref.kind := congrArg RawOption.kind equal
    rw [← kind]
    exact ⟨boundary.safe token present, (boundary.cut.proper token present).not_eol⟩
  rw [items] at noFrag
  obtain ⟨passing, tailFree⟩ := scanFrag_front safe noFrag
  have free : scanFrag (itemsOf (front.flatMap Token.bytes ++ (token.bytes ++ rest))) = none := by
    rw [inserted, scanFrag_append passing]
    have first := @scanFrag_append [⟨token.option.kind, token.option.value, valueAt⟩]
      (List.forall_mem_singleton.mpr transparent.passes) moved
    exact first.trans (scanFrag_moved alike tailFree)
  refine ⟨_, _, parseOptions_eq crc32c _ _ _, parseOptions_eq crc32c _ _ _, ?_⟩
  rw [parseArea_full free, parseArea_full (by rw [items]; exact noFrag), items, inserted]
  apply optionLoop_behind passing rfl
  intro after absent
  obtain ⟨next, beside, stepped⟩ := @Token.Transparent.step crc32c userData after token transparent proper valueAt absent
  have step : optionLoop crc32c false userData after
      (.ok ⟨token.option.kind, token.option.value, valueAt⟩ :: moved) = optionLoop crc32c false userData next moved := by
    rw [optionLoop, stepped]
  rw [step]
  exact beside.optionLoop alike framedTail.endsOnce tailFree

/-- An unknown option of kind 10 between an MDS and an UNSAFE option. -/
theorem insertion_before_unsafe :
    Boundary [4, 4, 5, 220, 200, 2] [.short 4 [5, 220]] [200, 2] ∧
      ∃ here there, parseOptions (fun _ => 0) [4, 4, 5, 220, 200, 2] [7] 10 = .ok here ∧
        parseOptions (fun _ => 0) [4, 4, 5, 220, 10, 3, 9, 200, 2] [7] 10 = .ok there ∧
        Agrees [⟨.other 10, .ignored, .datagram⟩] here there := by
  have boundary : Boundary [4, 4, 5, 220, 200, 2] [.short 4 [5, 220]] [200, 2] :=
    ⟨⟨List.forall_mem_singleton.mpr ⟨by decide, by decide⟩, rfl⟩, List.forall_mem_singleton.mpr rfl⟩
  have proper : (Token.short 10 [9]).Proper := ⟨by decide, by decide⟩
  have transparent : (Token.short 10 [9]).Transparent :=
    ⟨by decide, by decide, fun time => absurd time (by decide), fun exp => absurd exp (by decide)⟩
  exact ⟨boundary, insertion_transparent (fun _ => 0) boundary (by decide +kernel) proper transparent [7] 10⟩

end UdpOptions.Proofs
