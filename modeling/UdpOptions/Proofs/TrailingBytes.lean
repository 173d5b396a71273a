import UdpOptions.Proofs.OptionLoop

/-! Bytes behind the end of processing. EOL and an UNSAFE option end the pass over
an options area, in the search for a FRAG as in the loop, so the bytes behind them
have no part in its result. -/

namespace UdpOptions.Proofs
open Library Model

private theorem hidden_cons {first : OptionRef} {items more : List OptionsIter.Item} (other : first.kind ≠ .eol)
    (ended : ∀ option, .ok option ∈ items → option.kind = .eol → more = []) :
    ∀ option, .ok option ∈ .ok first :: items → option.kind = .eol → more = [] := by
  intro option member kind
  rcases List.mem_cons.mp member with same | later
  · cases same
    exact absurd kind other
  · exact ended option later kind

/-- More bytes leave the items that were read in place, and none are added behind EOL. -/
theorem Framed.append {start : Nat} {bytes : List UInt8} {items : List OptionsIter.Item}
    (framed : Framed start bytes items) (read : ∀ item ∈ items, ∃ option, item = .ok option) (trailing : List UInt8) :
    ∃ more, Framed start (bytes ++ trailing) (items ++ more) ∧
      ∀ option, .ok option ∈ items → option.kind = .eol → more = [] := by
  induction framed with
  | @done start =>
    obtain ⟨more, next⟩ := framed_exists trailing start
    exact ⟨more, next, nofun⟩
  | eol => exact ⟨[], .eol, fun _ _ _ => rfl⟩
  | nop next ih =>
    obtain ⟨more, again, ended⟩ := ih fun item member => read item (List.mem_cons_of_mem _ member)
    exact ⟨more, .nop again, hidden_cons OptionKind.noConfusion ended⟩
  | tlv tlvKind short total next ih =>
    obtain ⟨more, again, ended⟩ := ih fun item member => read item (List.mem_cons_of_mem _ member)
    refine ⟨more, ?_, hidden_cons (fromByte_ne_eol tlvKind) ended⟩
    rw [List.cons_append, List.cons_append, List.append_assoc]
    exact .tlv tlvKind short total again
  | extended tlvKind total long next ih =>
    obtain ⟨more, again, ended⟩ := ih fun item member => read item (List.mem_cons_of_mem _ member)
    refine ⟨more, ?_, hidden_cons (fromByte_ne_eol tlvKind) ended⟩
    rw [List.cons_append, List.cons_append, List.cons_append, List.cons_append, List.append_assoc]
    exact .extended tlvKind total long again
  | bare => nomatch read _ (List.mem_singleton_self _)
  | shortLength => nomatch read _ (List.mem_singleton_self _)
  | overrun => nomatch read _ (List.mem_singleton_self _)
  | extendedBare => nomatch read _ (List.mem_singleton_self _)
  | extendedShort => nomatch read _ (List.mem_singleton_self _)
  | extendedOverrun => nomatch read _ (List.mem_singleton_self _)

/-- An item that is read without error, is no FRAG, and has the length its kind needs. -/
def Clean (item : OptionsIter.Item) : Prop :=
  ∃ option, item = .ok option ∧ option.kind ≠ .frag ∧ rejectSubMinimum option = .ok ()

/-- The bytes are read as clean options up to an EOL or a complete UNSAFE option. -/
structure EndsProcessing (bytes : List UInt8) : Prop where
  clean : ∀ item ∈ itemsOf bytes, Clean item
  last : ∃ before option, itemsOf bytes = before ++ [.ok option] ∧
    (option.kind = .eol ∨ option.kind.isUnsafe = true)

private theorem not_passes {kind : OptionKind} (ending : kind = .eol ∨ kind.isUnsafe = true) : passes kind = false := by
  rcases ending with rfl | dangerous
  · rfl
  · cases kind with
    | other byte =>
      rw [passes, dangerous]
      rfl
    | eol | nop | apc | frag | mds | mrds | req | res => cases dangerous

private theorem scanFrag_cut {before : List OptionsIter.Item} {last : OptionRef}
    (clean : ∀ item ∈ before ++ [.ok last], Clean item) (ending : passes last.kind = false)
    (more : List OptionsIter.Item) : scanFrag (before ++ .ok last :: more) = none := by
  induction before with
  | nil =>
    obtain ⟨option, same, notFrag, _⟩ := clean (.ok last) (by simp)
    cases same
    rw [List.nil_append, scanFrag, if_neg notFrag, if_neg (by simp [ending])]
  | cons item rest ih =>
    obtain ⟨option, rfl, notFrag, _⟩ := clean item (by simp)
    have later := ih fun other member => clean other (List.mem_cons_of_mem _ member)
    rw [List.cons_append, scanFrag, if_neg notFrag, later]
    exact ite_self _

section
variable {crc32c : List UInt8 → UInt32} {userData : List UInt8}

private theorem optionStep_clean {option : OptionRef} (notFrag : option.kind ≠ .frag)
    (proper : rejectSubMinimum option = .ok ()) (state : OptionState) :
    ∃ after, after.frag = state.frag ∧ (optionStep crc32c false userData state option = .next after ∨
      optionStep crc32c false userData state option = .broken after) := by
  have long : lengthTest false option = .ok () := by simpa [lengthTest] using proper
  cases stepped : optionStep crc32c false userData state option with
  | next after =>
    rcases (optionStep_next stepped).2 with ⟨same, _⟩ | ⟨_, kind, _⟩
    · exact ⟨after, same.frag, .inl rfl⟩
    · exact absurd kind notFrag
  | broken after => exact ⟨after, (optionStep_broken stepped).1, .inr rfl⟩
  | left result =>
    have outcome := optionStep_case crc32c false userData state option
    rw [stepped] at outcome
    generalize ended : LoopStep.left result = step at outcome
    cases outcome with
    | short below => cases long.symm.trans below
    | fragAgain proper kind => exact absurd kind notFrag
    | filler | fragFirst | fragWrong | apcIgnored | known | unknown | unsupported => cases ended

private theorem optionLoop_clean {items : List OptionsIter.Item} (clean : ∀ item ∈ items, Clean item)
    (state : OptionState) :
    ∃ parsed, optionLoop crc32c false userData state items = .ok parsed ∧ parsed.frag = state.frag := by
  induction items generalizing state with
  | nil => exact ⟨_, rfl, rfl⟩
  | cons item rest ih =>
    obtain ⟨option, rfl, notFrag, proper⟩ := clean item (by simp)
    obtain ⟨after, same, stepped | stepped⟩ := @optionStep_clean crc32c userData option notFrag proper state
    · obtain ⟨parsed, looped, kept⟩ := ih (fun other member => clean other (List.mem_cons_of_mem _ member)) after
      refine ⟨parsed, ?_, kept.trans same⟩
      rw [optionLoop, stepped]
      exact looped
    · refine ⟨after.finished true, ?_, same⟩
      rw [optionLoop, stepped]

private theorem optionLoop_cut {last : OptionRef} (dangerous : last.kind.isUnsafe = true)
    (before more : List OptionsIter.Item) (state : OptionState) :
    optionLoop crc32c false userData state (before ++ .ok last :: more) =
      optionLoop crc32c false userData state (before ++ [.ok last]) := by
  induction before generalizing state with
  | nil =>
    rw [List.nil_append, List.nil_append, optionLoop, optionLoop]
    cases stepped : optionStep crc32c false userData state last with
    | broken after => rfl
    | left result => rfl
    | next after =>
      -- No step goes past an UNSAFE option.
      rcases (optionStep_next stepped).2 with ⟨_, _, kind | passing⟩ | ⟨_, kind, _⟩
      · rw [kind] at dangerous
        cases dangerous
      · cases passing.symm.trans (not_passes (.inr dangerous))
      · rw [kind] at dangerous
        cases dangerous
  | cons item rest ih =>
    rw [List.cons_append, List.cons_append]
    cases item with
    | error error => rfl
    | ok option =>
      rw [optionLoop, optionLoop]
      cases optionStep crc32c false userData state option with
      | next after => exact ih after
      | broken after => rfl
      | left result => rfl

/-- An area is parsed as the bytes in front that end its processing. -/
theorem parseArea_cut {bytes : List UInt8} (ended : EndsProcessing bytes) (trailing : List UInt8)
    (optionsOffset : Nat) :
    parseArea crc32c (bytes ++ trailing) userData optionsOffset =
      optionLoop crc32c false userData .initial (itemsOf bytes) := by
  obtain ⟨before, last, items, ending⟩ := ended.last
  have read : ∀ item ∈ itemsOf bytes, ∃ option, item = .ok option := by
    intro item member
    obtain ⟨option, same, _⟩ := ended.clean item member
    exact ⟨option, same⟩
  obtain ⟨more, framed, hidden⟩ := (framed_itemsOf bytes).append read trailing
  have clean := ended.clean
  rw [items] at framed hidden clean
  rw [List.append_assoc, List.singleton_append] at framed
  have full : (if userData.isEmpty then limitOf (bytes ++ trailing).length optionsOffset
      (before ++ .ok last :: more) else .full) = FragmentOptionLimit.full := by
    rw [limitOf, scanFrag_cut clean (not_passes ending)]
    exact ite_self _
  rw [parseArea, framed.itemsOf_eq, full, items]
  rcases ending with kind | dangerous
  · rw [hidden last (by simp) kind]
  · exact optionLoop_cut dangerous before more .initial

/-- Bytes behind an EOL or the first UNSAFE option have no influence on the parse,
and no FRAG among them is recorded. -/
theorem parse_ignores_trailing {bytes : List UInt8} (ended : EndsProcessing bytes) (first second : List UInt8)
    (optionsOffset : Nat) :
    parseOptions crc32c (bytes ++ first) userData optionsOffset =
      parseOptions crc32c (bytes ++ second) userData optionsOffset ∧
    ∃ parsed, parseOptions crc32c (bytes ++ first) userData optionsOffset = .ok (.ok parsed) ∧ parsed.frag = none := by
  obtain ⟨parsed, looped, kept⟩ := @optionLoop_clean crc32c userData _ ended.clean .initial
  rw [parseOptions_eq, parseOptions_eq, parseArea_cut ended, parseArea_cut ended, looped]
  exact ⟨rfl, parsed, rfl, kept⟩

end

private theorem endsProcessing_unsafe : EndsProcessing [4, 4, 5, 220, 192, 2] := by
  have items : itemsOf [4, 4, 5, 220, 192, 2] =
      [.ok ⟨.mds, [5, 220], some 2⟩, .ok ⟨.other 192, [], some 6⟩] := by decide
  refine ⟨?_, [.ok ⟨.mds, [5, 220], some 2⟩], ⟨.other 192, [], some 6⟩, items, .inr rfl⟩
  rw [items, List.forall_mem_cons, List.forall_mem_singleton]
  exact ⟨⟨_, rfl, nofun, rfl⟩, ⟨_, rfl, nofun, rfl⟩⟩

private theorem endsProcessing_eol : EndsProcessing [1, 0] := by
  have items : itemsOf [1, 0] = [.ok ⟨.nop, [], none⟩, .ok ⟨.eol, [], none⟩] := by decide
  refine ⟨?_, [.ok ⟨.nop, [], none⟩], ⟨.eol, [], none⟩, items, .inl rfl⟩
  rw [items, List.forall_mem_cons, List.forall_mem_singleton]
  exact ⟨⟨_, rfl, nofun, rfl⟩, ⟨_, rfl, nofun, rfl⟩⟩

/-- A FRAG behind UNSAFE or EOL is as good as no bytes at all. -/
theorem parse_ignores_covert_frag :
    let crc32c : List UInt8 → UInt32 := fun _ => 0
    let frag : List UInt8 := [3, 10, 0, 26, 0, 0, 0, 5, 0, 8]
    (parseOptions crc32c ([4, 4, 5, 220, 192, 2] ++ frag) [] 10 =
        parseOptions crc32c ([4, 4, 5, 220, 192, 2] ++ []) [] 10 ∧
      ∃ parsed, parseOptions crc32c ([4, 4, 5, 220, 192, 2] ++ frag) [] 10 = .ok (.ok parsed) ∧ parsed.frag = none) ∧
    parseOptions crc32c ([1, 0] ++ frag) [] 10 = parseOptions crc32c ([1, 0] ++ []) [] 10 ∧
      ∃ parsed, parseOptions crc32c ([1, 0] ++ frag) [] 10 = .ok (.ok parsed) ∧ parsed.frag = none :=
  ⟨parse_ignores_trailing endsProcessing_unsafe _ [] 10, parse_ignores_trailing endsProcessing_eol _ [] 10⟩

end UdpOptions.Proofs
