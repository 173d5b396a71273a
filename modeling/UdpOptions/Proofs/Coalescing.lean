import UdpOptions.Proofs.ArrivalOrder

/-! Coalesced observations. What a partial keeps of the options, failures and OCS
observations of its fragments is a fold over them in order of arrival. The fold of
each field has a closed form: a minimum, a last token, a set of kinds, or a flag.
Only the tokens depend on the order. -/

namespace UdpOptions.Proofs
open Library Library.Intervals Model

def decodedMds (option : RawOption) : Option UInt16 :=
  if option.kind = .mds then (Mds.decode option.value).toOption.map Mds.maxDatagramSize else none

def decodedMrds (option : RawOption) : Option Mrds :=
  if option.kind = .mrds then (Mrds.decode option.value).toOption else none

def decodedReq (option : RawOption) : Option Octets :=
  if option.kind = .req then (Req.decode option.value).toOption.map Req.token else none

def decodedRes (option : RawOption) : Option Octets :=
  if option.kind = .res then (Res.decode option.value).toOption.map Res.token else none

/-- The least MDS, the least size and segment count of the MRDS, and the last tokens
among the options that decode. -/
def coalesced (options : List RawOption) : FragmentOptions where
  mds := (options.filterMap decodedMds).min?
  mrdsSize := ((options.filterMap decodedMrds).map Mrds.maxReassembledSize).min?
  mrdsSegments := ((options.filterMap decodedMrds).map Mrds.maxSegments).min?
  req := (options.filterMap decodedReq).getLast?
  res := (options.filterMap decodedRes).getLast?

section
variable {α : Type} [Min α]

private theorem min?_concat (items : List α) (item : α) :
    (items ++ [item]).min? = some (FragmentOptions.lower items.min? item) := by
  cases items with
  | nil => rfl
  | cons first rest =>
    rw [List.cons_append, List.min?_cons', List.min?_cons', List.foldl_append]
    rfl

private theorem min?_perm [LE α] [Std.IsLinearOrder α] [Std.LawfulOrderMin α] {items others : List α}
    (same : items.Perm others) :
    items.min? = others.min? := by
  apply Option.ext
  intro least
  rw [List.min?_eq_some_iff, List.min?_eq_some_iff]
  simp only [same.mem_iff]

end

theorem filterMap_concat {α β : Type} (pick : α → Option β) (items : List α) (item : α) :
    (items ++ [item]).filterMap pick = items.filterMap pick ++ (pick item).toList := by
  rw [List.filterMap_append, List.filterMap_cons]
  cases pick item <;> rfl

private theorem observeOne_coalesced (options : List RawOption) (option : RawOption) :
    FragmentOptions.observeOne (coalesced options) option = coalesced (options ++ [option]) := by
  obtain ⟨kind, value⟩ := option
  unfold coalesced
  simp only [filterMap_concat]
  cases kind with
  | mds =>
    cases decoded : Mds.decode value <;>
      simp [FragmentOptions.observeOne, decodedMds, decodedMrds, decodedReq, decodedRes, decoded, Except.toOption,
        min?_concat]
  | mrds =>
    cases decoded : Mrds.decode value <;>
      simp [FragmentOptions.observeOne, decodedMds, decodedMrds, decodedReq, decodedRes, decoded, Except.toOption,
        min?_concat]
  | req =>
    cases decoded : Req.decode value <;>
      simp [FragmentOptions.observeOne, decodedMds, decodedMrds, decodedReq, decodedRes, decoded, Except.toOption]
  | res =>
    cases decoded : Res.decode value <;>
      simp [FragmentOptions.observeOne, decodedMds, decodedMrds, decodedReq, decodedRes, decoded, Except.toOption]
  | _ => simp [FragmentOptions.observeOne, decodedMds, decodedMrds, decodedReq, decodedRes]

private theorem observe_coalesced (options more : List RawOption) :
    (coalesced options).observe more = coalesced (options ++ more) := by
  induction more generalizing options with
  | nil => rw [List.append_nil]; rfl
  | cons option rest ih =>
    have further := ih (options ++ [option])
    rw [List.append_assoc] at further
    rw [FragmentOptions.observe, List.foldl_cons, observeOne_coalesced]
    exact further

theorem coalesced_perm {options others : List RawOption} (same : options.Perm others) :
    (coalesced options).mds = (coalesced others).mds ∧ (coalesced options).mrdsSize = (coalesced others).mrdsSize ∧
      (coalesced options).mrdsSegments = (coalesced others).mrdsSegments := by
  have mrds := same.filterMap decodedMrds
  exact ⟨min?_perm (same.filterMap decodedMds), min?_perm (mrds.map _), min?_perm (mrds.map _)⟩

private theorem mem_observeFailures {kinds failures : List OptionKind} {kind : OptionKind} :
    kind ∈ observeFailures kinds failures ↔ kind ∈ kinds ∨ kind ∈ failures := by
  induction failures generalizing kinds with
  | nil => simp [observeFailures]
  | cons first rest ih =>
    rw [observeFailures, List.foldl_cons]
    change kind ∈ observeFailures _ rest ↔ _
    rw [ih, List.mem_cons]
    split
    next known =>
      constructor
      · intro held
        exact held.imp_right .inr
      · intro held
        rcases held with old | rfl | later
        · exact .inl old
        · exact .inl known
        · exact .inr later
    next new => rw [List.mem_append, List.mem_singleton, or_assoc]

private theorem nodup_observeFailures {kinds : List OptionKind} (nodup : kinds.Nodup) (failures : List OptionKind) :
    (observeFailures kinds failures).Nodup := by
  induction failures generalizing kinds with
  | nil => exact nodup
  | cons first rest ih =>
    rw [observeFailures, List.foldl_cons]
    apply ih
    split
    · exact nodup
    next new =>
      apply List.nodup_append.mpr
      exact ⟨nodup, by simp, by simpa using fun kind member => ne_of_mem_of_not_mem member new⟩

/-- The flag for a list of OCS observations: unknown if one of them is missing, and
otherwise whether some OCS was not zero. -/
def mergedOcs (observations : List (Option Bool)) : Option Bool :=
  if none ∈ observations then none else some (decide (some true ∈ observations))

theorem mergedOcs_concat (observations : List (Option Bool)) (ocsNonzero : Option Bool) :
    mergedOcs (observations ++ [ocsNonzero]) = ocsMerged (mergedOcs observations) ocsNonzero := by
  unfold mergedOcs
  by_cases missing : none ∈ observations
  · rcases ocsNonzero with _ | current <;> simp [missing, ocsMerged]
  · rcases ocsNonzero with _ | current
    · simp [missing, ocsMerged]
    · cases current <;> by_cases seen : some true ∈ observations <;> simp [missing, seen, ocsMerged]

theorem mergedOcs_perm {observations others : List (Option Bool)} (same : observations.Perm others) :
    mergedOcs observations = mergedOcs others := by
  unfold mergedOcs
  simp only [same.mem_iff]

def Arrival.segment? (arrival : Arrival) : Option Segment :=
  if arrival.data = [] then none
  else (NormalizedFragment.new arrival.frag arrival.data.length).map fun range => (arrival.offer range).segment

theorem Arrival.segment?_eq {arrival : Arrival} {range : NormalizedFragment} (carries : arrival.data ≠ [])
    (normal : NormalizedFragment.new arrival.frag arrival.data.length = some range) :
    arrival.segment? = some (segmentOf range arrival.data arrival.processing) := by
  rw [Arrival.segment?, if_neg carries, normal]
  rfl

def optionsOf (arrivals : List Arrival) : List RawOption := arrivals.flatMap fun arrival => arrival.processing.options

def observationsOf (arrivals : List Arrival) : List (Option Bool) :=
  arrivals.map fun arrival => arrival.processing.ocsNonzero

structure Keeps (arrivals : List Arrival) (held : Partial) : Prop where
  segments : held.segments.Perm (arrivals.filterMap Arrival.segment?)
  announced : ∀ arrival ∈ arrivals, ∀ rdos, arrival.frag.rdos = some rdos → held.udpLength = some rdos
  announcing : ∀ rdos, held.udpLength = some rdos → ∃ arrival ∈ arrivals, arrival.frag.rdos = some rdos
  options : held.fragmentOptions = coalesced (optionsOf arrivals)
  failedOnce : held.fragmentOptionFailures.Nodup
  failed : ∀ kind, kind ∈ held.fragmentOptionFailures ↔
    ∃ arrival ∈ arrivals, kind ∈ arrival.processing.optionFailures
  observed : held.fragmentOcsNonzero = mergedOcs (observationsOf arrivals)

theorem keeps_new (now : Nat) : Keeps [] (Partial.new now) where
  segments := .nil
  announced := nofun
  announcing := nofun
  options := rfl
  failedOnce := .nil
  failed := by simp [Partial.new]
  observed := rfl

section
variable {limits : ReassemblyLimits} {arrivals others : List Arrival} {arrival : Arrival} {held other updated : Partial}
  {range : NormalizedFragment}

theorem Accepted.length (accepted : Accepted held range arrival.data arrival.processing limits updated) :
    (∀ rdos, range.udpLength = some rdos → updated.udpLength = some rdos) ∧
      ∀ rdos, updated.udpLength = some rdos → held.udpLength = some rdos ∨ range.udpLength = some rdos := by
  obtain ⟨noted, step, rfl⟩ := accepted.noted
  cases step with
  | middle plain =>
    exact ⟨fun _ announced => absurd (plain.symm.trans announced) nofun, fun _ known => .inl known⟩
  | first announced =>
    refine ⟨fun _ same => ?_, fun _ same => ?_⟩
    · cases announced.symm.trans same
      rfl
    · cases same
      exact .inr announced
  | again announced _ _ _ sameLength =>
    refine ⟨fun _ same => ?_, fun _ known => .inl known⟩
    cases announced.symm.trans same
    exact sameLength

theorem Keeps.accept (keeps : Keeps arrivals held)
    (normal : NormalizedFragment.new arrival.frag arrival.data.length = some range)
    (accepted : Accepted held range arrival.data arrival.processing limits updated) :
    Keeps (arrivals ++ [arrival]) updated := by
  have announces := (NormalizedFragment.new_range normal).2
  obtain ⟨onward, back⟩ := accepted.length
  have kept := accepted.extends.length
  have flag := accepted.observed
  obtain ⟨noted, step, rfl⟩ := accepted.noted
  obtain ⟨segments, _, _, options, failures, _⟩ := step.fields
  refine ⟨?_, ?_, ?_, ?_, ?_, ?_, ?_⟩
  · rw [filterMap_concat]
    have stored := keeps.segments
    rw [← segments] at stored
    by_cases empty : arrival.data = []
    · simpa [Partial.record, Arrival.segment?, empty] using stored
    · have placed := insertSegment_perm noted.segments (segmentOf range arrival.data arrival.processing)
      rw [Arrival.segment?_eq empty normal, Option.toList_some]
      simp only [Partial.record, List.isEmpty_iff, empty, if_false]
      exact placed.trans ((stored.cons _).trans (List.perm_append_singleton _ _).symm)
  · intro earlier member rdos known
    rcases List.mem_append.mp member with old | new
    · exact kept rdos (keeps.announced earlier old rdos known)
    · cases List.mem_singleton.mp new
      exact onward rdos (announces.trans known)
  · intro rdos known
    rcases back rdos known with old | new
    · obtain ⟨earlier, member, same⟩ := keeps.announcing rdos old
      exact ⟨earlier, List.mem_append_left _ member, same⟩
    · exact ⟨arrival, by simp, announces.symm.trans new⟩
  · have merged := observe_coalesced (optionsOf arrivals) arrival.processing.options
    rw [← keeps.options, ← options] at merged
    simpa [Partial.record, optionsOf] using merged
  · have once := nodup_observeFailures keeps.failedOnce arrival.processing.optionFailures
    rw [← failures] at once
    exact once
  · intro kind
    have member := @mem_observeFailures noted.fragmentOptionFailures arrival.processing.optionFailures kind
    rw [failures, keeps.failed] at member
    simpa [Partial.record, failures, or_and_right, exists_or] using member
  · rw [flag, keeps.observed, observationsOf, observationsOf, List.map_append, List.map_cons, List.map_nil,
      mergedOcs_concat]

theorem Keeps.segments_eq (keeps : Keeps arrivals held) (otherKeeps : Keeps others other) (same : others.Perm arrivals)
    (ordered : SegmentsOrdered held.segments) (otherOrdered : SegmentsOrdered other.segments) :
    other.segments = held.segments := by
  apply otherOrdered.eq_of_perm ordered
  exact otherKeeps.segments.trans ((same.filterMap _).trans keeps.segments.symm)

theorem Keeps.length_eq (keeps : Keeps arrivals held) (otherKeeps : Keeps others other) (same : others.Perm arrivals)
    {udpLength otherLength : UInt16} (known : held.udpLength = some udpLength)
    (otherKnown : other.udpLength = some otherLength) : otherLength = udpLength := by
  obtain ⟨arrival, member, announced⟩ := otherKeeps.announcing otherLength otherKnown
  have length := keeps.announced arrival (same.mem_iff.mp member) otherLength announced
  exact Option.some.inj (length.symm.trans known)

end

end UdpOptions.Proofs
