import Mathlib.Data.List.Induction
import UdpOptions.Proofs.LegacyData
import UdpOptions.Proofs.PipelineRuns

/-! Where reassembled bytes come from. Every partial in the cache is traced to the
calls of the run that fed it: one call for each segment, one for an empty terminal
fragment. Nothing that ends a reassembly lies between such a call and the present,
so a delivered reassembly consists of the bytes of its own fragments only. -/

namespace UdpOptions.Proofs
open Library Library.Intervals Model

/-- A call that ends whatever the cache holds for a key: it discards the key, its
insertion under the key aborts or completes, it expires the partial, or it
completes a datagram whose re-feed discards the key. -/
inductive Clears (crc32c : List UInt8 → UInt32) (key : FragKey) (arrival : List UInt8 × Nat)
    (cache : ReassemblyCache) : Prop where
  | discarded {opened : Opened} (examined : examine crc32c arrival.1 = .ok (.ok (opened, .fail (some key))))
  | aborted {opened : Opened} {frag : Frag} {data : List UInt8} {reason : AbortReason} {after : ReassemblyCache}
      (inserts : Inserts crc32c arrival cache opened frag key data (.abort reason) after)
  | completed {opened : Opened} {frag : Frag} {data : List UInt8} {reassembled : Reassembled}
      {after : ReassemblyCache}
      (inserts : Inserts crc32c arrival cache opened frag key data (.complete reassembled) after)
  | expired {opened : Opened} {frag : Frag} {other : FragKey} {data : List UInt8} {outcome : ReassemblyOutcome}
      {after : ReassemblyCache} {held : Partial}
      (inserts : Inserts crc32c arrival cache opened frag other data outcome after)
      (present : cache.partials.lookup key = some held)
      (old : held.isExpired arrival.2 cache.limits.timeout = true)
  | refailed {opened inner : Opened} {frag : Frag} {other : FragKey} {data rebuilt : List UInt8}
      {reassembled : Reassembled} {after : ReassemblyCache}
      (inserts : Inserts crc32c arrival cache opened frag other data (.complete reassembled) after)
      (rebuilding : reassembledDatagram opened.ip opened.udp reassembled.udpLength reassembled.tail =
        .ok (some rebuilt))
      (examined : examine crc32c rebuilt = .ok (.ok (inner, .fail (some key))))

/-- A call of the run whose fragment is part of a reassembly. -/
structure Contribution where
  index : Nat
  opened : Opened
  frag : Frag
  range : NormalizedFragment

namespace Contribution

def data (contribution : Contribution) : List UInt8 := fragmentData contribution.opened contribution.frag
def start (contribution : Contribution) : Nat := contribution.range.start
def stop (contribution : Contribution) : Nat := contribution.range.stop

/-- The part of a stored segment that comes from the call. -/
def content (contribution : Contribution) : Nat × Nat × List UInt8 :=
  (contribution.start, contribution.stop, contribution.data)

end Contribution

def segmentContent (segment : Segment) : Nat × Nat × List UInt8 := (segment.start, segment.stop, segment.data)

/-- The call's datagram is an accepted, trusted fragment of the key, without user data. -/
structure Contributed (arrivals : List (List UInt8 × Nat)) (key : FragKey) (contribution : Contribution) : Prop where
  received : ∃ arrival, arrivals[contribution.index]? = some arrival ∧
    openDatagram arrival.1 = .ok (.ok contribution.opened)
  checked : ChecksumHolds contribution.opened
  fragmentary : ∃ status, Fragmentary contribution.opened contribution.frag status
  key : fragKey contribution.opened.ip contribution.opened.udp contribution.frag = key
  range : NormalizedFragment.new contribution.frag contribution.data.length = some contribution.range

/-- No later call of the run ends the reassembly of the key. -/
def Unbroken (crc32c : List UInt8 → UInt32) (limits : ReassemblyLimits) (arrivals : List (List UInt8 × Nat))
    (key : FragKey) (index : Nat) : Prop :=
  ∀ later arrival outputs cache, index < later → arrivals[later]? = some arrival →
    run (receive crc32c) (arrivals.take later) (.withLimits limits) = .ok (outputs, cache) →
    ¬ Clears crc32c key arrival cache

/-- A partial and the calls behind it: one for each stored segment, and one for an
empty terminal fragment. Each of them is still current. -/
structure Traced (arrivals : List (List UInt8 × Nat)) (key : FragKey) (current : Nat → Prop) (held : Partial)
    (stored : List Contribution) (final : Option Contribution) : Prop where
  segments : held.segments.map segmentContent = stored.map Contribution.content
  empty : ∀ contribution ∈ final, contribution.data = [] ∧ contribution.frag.rdos.isSome
  announced : ∀ contribution ∈ stored ++ final.toList, ∀ rdos, contribution.frag.rdos = some rdos →
    held.udpLength = some rdos ∧ held.terminalEnd = some contribution.stop
  known : held.terminalEnd.isSome → ∃ contribution ∈ stored ++ final.toList, contribution.frag.rdos.isSome
  distinct : ((stored ++ final.toList).map Contribution.index).Nodup
  contributed : ∀ contribution ∈ stored ++ final.toList, Contributed arrivals key contribution
  current : ∀ contribution ∈ stored ++ final.toList, current contribution.index

private theorem traced_new (arrivals : List (List UInt8 × Nat)) (key : FragKey) (current : Nat → Prop) (now : Nat) :
    Traced arrivals key current (Partial.new now) [] none where
  segments := rfl
  empty := by simp
  announced := by simp
  known := nofun
  distinct := List.nodup_nil
  contributed := by simp
  current := by simp

section
variable {crc32c : List UInt8 → UInt32} {limits : ReassemblyLimits} {arrivals : List (List UInt8 × Nat)}
  {last : List UInt8 × Nat} {key : FragKey}

theorem Contributed.index_lt {contribution : Contribution} (contributed : Contributed arrivals key contribution) :
    contribution.index < arrivals.length := by
  obtain ⟨arrival, found, _⟩ := contributed.received
  exact (List.getElem?_eq_some_iff.mp found).1

theorem Contributed.extend {contribution : Contribution} (contributed : Contributed arrivals key contribution)
    (last : List UInt8 × Nat) : Contributed (arrivals ++ [last]) key contribution := by
  obtain ⟨arrival, found, opening⟩ := contributed.received
  refine { contributed with received := ⟨arrival, ?_, opening⟩ }
  rw [List.getElem?_append_left contributed.index_lt]
  exact found

theorem Unbroken.extend {index : Nat} {outputs : List (Except RecvError Delivery)} {cache : ReassemblyCache}
    (unbroken : Unbroken crc32c limits arrivals key index)
    (executed : run (receive crc32c) arrivals (.withLimits limits) = .ok (outputs, cache))
    (quiet : ¬ Clears crc32c key last cache) : Unbroken crc32c limits (arrivals ++ [last]) key index := by
  intro later arrival earlier middle after found reached
  by_cases inside : later < arrivals.length
  · rw [List.getElem?_append_left inside] at found
    rw [List.take_append_of_le_length (Nat.le_of_lt inside)] at reached
    exact unbroken later arrival earlier middle after found reached
  · have bound := (List.getElem?_eq_some_iff.mp found).1
    have same : later = arrivals.length := by
      rw [List.length_append, List.length_singleton] at bound
      omega
    subst same
    rw [List.take_left] at reached
    rw [List.getElem?_concat_length] at found
    cases found
    cases executed.symm.trans reached
    exact quiet

theorem unbroken_past {index : Nat} (past : arrivals.length ≤ index + 1) :
    Unbroken crc32c limits arrivals key index := by
  intro later arrival earlier middle after found
  have bound := (List.getElem?_eq_some_iff.mp found).1
  omega

variable {held updated : Partial} {stored : List Contribution} {final : Option Contribution}

variable {current : Nat → Prop}

theorem Traced.extend {next : Nat → Prop} (traced : Traced arrivals key current held stored final)
    (last : List UInt8 × Nat) (still : ∀ index, current index → next index) :
    Traced (arrivals ++ [last]) key next held stored final :=
  { traced with
    contributed := fun contribution member => (traced.contributed contribution member).extend last
    current := fun contribution member => still _ (traced.current contribution member) }

theorem Traced.observe (traced : Traced arrivals key current held stored final) (ocsNonzero : Option Bool) :
    Traced arrivals key current (held.observeFragmentOcs ocsNonzero) stored final := { traced with }

theorem Noted.terminal {noted : Partial} {fragment : NormalizedFragment} {data : List UInt8}
    {processing : FragmentProcessing} (step : Noted held fragment data processing noted) :
    (∀ rdos, fragment.udpLength = some rdos →
      noted.udpLength = some rdos ∧ noted.terminalEnd = some fragment.stop) ∧
    (held.terminalEnd.isSome → noted.udpLength = held.udpLength ∧ noted.terminalEnd = held.terminalEnd) ∧
    (noted.terminalEnd.isSome → held.terminalEnd.isSome ∨ fragment.udpLength.isSome) := by
  cases step with
  | middle plain =>
    refine ⟨fun rdos announced => ?_, fun _ => ⟨rfl, rfl⟩, .inl⟩
    rw [plain] at announced
    cases announced
  | first announced _ _ noEnd _ _ =>
    refine ⟨fun rdos same => ?_, fun known => ?_, fun _ => .inr (by rw [announced]; rfl)⟩
    · cases announced.symm.trans same
      exact ⟨rfl, rfl⟩
    · rw [noEnd] at known
      cases known
  | again announced _ _ sameEnd sameLength _ =>
    refine ⟨fun rdos same => ?_, fun _ => ⟨rfl, rfl⟩, .inl⟩
    cases announced.symm.trans same
    exact ⟨sameLength, sameEnd⟩

theorem Traced.add {contribution : Contribution} {stored' : List Contribution} {final' : Option Contribution}
    (traced : Traced arrivals key current held stored final)
    (contributed : Contributed arrivals key contribution)
    (live : current contribution.index)
    (fresh : ∀ old ∈ stored ++ final.toList, old.index ≠ contribution.index)
    (permuted : (stored' ++ final'.toList).Perm (contribution :: (stored ++ final.toList)))
    (segments : updated.segments.map segmentContent = stored'.map Contribution.content)
    (empty : ∀ contribution ∈ final', contribution.data = [] ∧ contribution.frag.rdos.isSome)
    (own : ∀ rdos, contribution.frag.rdos = some rdos →
      updated.udpLength = some rdos ∧ updated.terminalEnd = some contribution.stop)
    (kept : held.terminalEnd.isSome → updated.udpLength = held.udpLength ∧ updated.terminalEnd = held.terminalEnd)
    (origin : updated.terminalEnd.isSome → held.terminalEnd.isSome ∨ contribution.frag.rdos.isSome) :
    Traced arrivals key current updated stored' final' := by
  have members : ∀ other, other ∈ stored' ++ final'.toList ↔ other = contribution ∨ other ∈ stored ++ final.toList :=
    fun other => permuted.mem_iff.trans List.mem_cons
  refine ⟨segments, empty, ?_, ?_, ?_, ?_, ?_⟩
  · intro other member rdos carries
    rcases (members other).mp member with rfl | old
    · exact own rdos carries
    · obtain ⟨length, ending⟩ := traced.announced other old rdos carries
      obtain ⟨sameLength, sameEnd⟩ := kept (by rw [ending]; rfl)
      exact ⟨sameLength.trans length, sameEnd.trans ending⟩
  · intro known
    rcases origin known with old | carries
    · obtain ⟨other, member, carries⟩ := traced.known old
      exact ⟨other, (members other).mpr (.inr member), carries⟩
    · exact ⟨contribution, (members contribution).mpr (.inl rfl), carries⟩
  · apply (permuted.map Contribution.index).nodup_iff.mpr
    refine List.nodup_cons.mpr ⟨?_, traced.distinct⟩
    intro repeated
    obtain ⟨old, member, same⟩ := List.mem_map.mp repeated
    exact fresh old member same
  · intro other member
    rcases (members other).mp member with rfl | old
    · exact contributed
    · exact traced.contributed other old
  · intro other member
    rcases (members other).mp member with rfl | old
    · exact live
    · exact traced.current other old

private theorem insertSegment_content {segments : List Segment} {segment : Segment} {contribution : Contribution}
    (same : segments.map segmentContent = stored.map Contribution.content)
    (new : segmentContent segment = contribution.content) :
    (Partial.insertSegment segments (Partial.searchByStart segments segment.start) segment).map segmentContent =
      (stored.takeWhile (fun other => other.start < contribution.start) ++
        contribution :: stored.dropWhile fun other => other.start < contribution.start).map Contribution.content := by
  have start : segment.start = contribution.start := congrArg Prod.fst new
  have front := congrArg (List.takeWhile fun content => decide (content.1 < contribution.start)) same
  have back := congrArg (List.dropWhile fun content => decide (content.1 < contribution.start)) same
  rw [List.takeWhile_map, List.takeWhile_map] at front
  rw [List.dropWhile_map, List.dropWhile_map] at back
  rw [insertSegment_eq, List.map_append, List.map_append, List.map_cons, List.map_cons, new, start]
  exact congrArg₂ (fun first second => first ++ contribution.content :: second) front back

/-- An accepted fragment: its call joins the trace, or it changes neither the
segments nor the terminal end. -/
theorem Traced.accept {contribution : Contribution} {processing : FragmentProcessing} {accepting : ReassemblyLimits}
    (traced : Traced arrivals key current held stored final)
    (contributed : Contributed arrivals key contribution)
    (live : current contribution.index)
    (fresh : ∀ old ∈ stored ++ final.toList, old.index ≠ contribution.index)
    (accepted : Accepted held contribution.range contribution.data processing accepting updated) :
    ∃ stored' final', Traced arrivals key current updated stored' final' ∧
      (contribution ∈ stored' ++ final'.toList ∨
        updated.segments = held.segments ∧ updated.terminalEnd = held.terminalEnd) := by
  obtain ⟨_, carries⟩ := NormalizedFragment.new_range contributed.range
  obtain ⟨noted, step, rfl⟩ := accepted.noted
  obtain ⟨own, kept, origin⟩ := step.terminal
  rw [carries] at own origin
  have segments := step.fields.1
  by_cases empty : contribution.data.isEmpty
  · have unchanged : (noted.record contribution.range contribution.data processing (held.fragmentCount + 1)
        (held.byteTotal + contribution.data.length)).segments = held.segments := by
      rw [Partial.record, if_pos empty]
      exact segments
    have contents := (congrArg (List.map segmentContent) unchanged).trans traced.segments
    cases step with
    | middle | again => exact ⟨stored, final, { traced with segments := contents }, .inr ⟨unchanged, rfl⟩⟩
    | first announced _ _ noEnd _ _ =>
      have none : final = none := by
        cases known : final with
        | none => rfl
        | some old =>
          subst known
          obtain ⟨rdos, same⟩ := Option.isSome_iff_exists.mp (traced.empty old rfl).2
          have ending := (traced.announced old (by simp) rdos same).2
          rw [noEnd] at ending
          cases ending
      subst none
      refine ⟨stored, some contribution, ?_, .inl (by simp)⟩
      refine traced.add contributed live fresh ?_ contents ?_ own kept origin
      · rw [Option.toList_none, List.append_nil]
        exact List.perm_append_singleton _ _
      · intro other same
        cases same
        rw [← carries, announced]
        exact ⟨List.isEmpty_iff.mp empty, rfl⟩
  · refine ⟨stored.takeWhile (fun other => other.start < contribution.start) ++
      contribution :: stored.dropWhile fun other => other.start < contribution.start, final, ?_, .inl (by simp)⟩
    refine traced.add contributed live fresh ?_ ?_ traced.empty own kept origin
    · exact (perm_insert_takeWhile _ stored contribution).append_right final.toList
    · rw [Partial.record, if_neg empty, segments]
      exact @insertSegment_content stored held.segments (segmentOf contribution.range contribution.data processing)
        contribution traced.segments rfl

theorem Clears.examined {cache : ReassemblyCache} (clears : Clears crc32c key last cache) :
    ∃ opened disposition, examine crc32c last.1 = .ok (.ok (opened, disposition)) ∧
      (disposition = .fail (some key) ∨
        ∃ frag own options reports status, disposition = .fragment frag own options reports status) := by
  cases clears with
  | discarded examined => exact ⟨_, _, examined, .inl rfl⟩
  | aborted inserts | completed inserts | expired inserts | refailed inserts =>
    obtain ⟨options, reports, status, examined, _⟩ := inserts
    exact ⟨_, _, examined, .inr ⟨_, _, options, reports, status, rfl⟩⟩

theorem Clears.no_fragment {cache : ReassemblyCache} {opened : Opened} {disposition : Disposition}
    (clears : Clears crc32c key last cache) (examined : examine crc32c last.1 = .ok (.ok (opened, disposition)))
    (other : ∀ frag own options reports status, disposition ≠ .fragment frag own options reports status) :
    disposition = .fail (some key) := by
  obtain ⟨_, found, again, failed | ⟨frag, own, options, reports, status, same⟩⟩ := clears.examined
  · cases examined.symm.trans again
    exact failed
  · cases examined.symm.trans again
    exact absurd same (other frag own options reports status)

/-- What a fragment can end: its own key by its outcome, a key by expiry, or the
key of a failing fragment inside the completed datagram. -/
theorem Clears.fragment {cache : ReassemblyCache} {opened : Opened} {frag : Frag} {options : List RawOption}
    {reports : List OptionReport} {status : OcsStatus} (clears : Clears crc32c key last cache)
    (opening : openDatagram last.1 = .ok (.ok opened))
    (disposed : dispositionOf crc32c opened =
      .fragment frag (some (fragKey opened.ip opened.udp frag)) options reports status) :
    (key = fragKey opened.ip opened.udp frag ∧
      ((insertionOf opened frag options reports status last.2).fed cache).1 ≠ .incomplete) ∨
    (∃ held, cache.partials.lookup key = some held ∧ held.isExpired last.2 cache.limits.timeout = true) ∨
    (∃ reassembled, ((insertionOf opened frag options reports status last.2).fed cache).1 = .complete reassembled ∧
      Rebuildable reassembled ∧ dispositionOf crc32c (rebuiltOpened opened reassembled) = .fail (some key)) := by
  have only : ∀ {other frag' key' data outcome after},
      Inserts crc32c last cache other frag' key' data outcome after →
      other = opened ∧ key' = fragKey opened.ip opened.udp frag ∧
        ((insertionOf opened frag options reports status last.2).fed cache).1 = outcome := by
    intro other frag' key' data outcome after inserts
    obtain ⟨options', reports', status', reopened, redisposed, _, named, _, result, _⟩ := inserts.made_by
    cases opening.symm.trans reopened
    cases disposed.symm.trans redisposed
    exact ⟨rfl, rfl, result⟩
  cases clears with
  | discarded examined =>
    obtain ⟨reopened, failing⟩ := examine_ok examined
    cases opening.symm.trans reopened
    cases disposed.symm.trans failing
  | aborted inserts =>
    obtain ⟨_, named, outcome⟩ := only inserts
    exact .inl ⟨named, by rw [outcome]; nofun⟩
  | completed inserts =>
    obtain ⟨_, named, outcome⟩ := only inserts
    exact .inl ⟨named, by rw [outcome]; nofun⟩
  | expired inserts present old => exact .inr (.inl ⟨_, present, old⟩)
  | @refailed other inner _ _ _ _ reassembled _ inserts rebuilding examined =>
    obtain ⟨rfl, _, outcome⟩ := only inserts
    refine .inr (.inr ⟨reassembled, outcome, ?_⟩)
    rw [reassembled_rebuilt] at rebuilding
    split at rebuilding
    next fits =>
      cases rebuilding
      obtain ⟨reopened, failing⟩ := examine_ok examined
      cases (open_rebuilt other fits).symm.trans reopened
      exact ⟨fits, failing⟩
    · cases rebuilding

section Steps
variable {cache : ReassemblyCache} {opened : Opened} {frag : Frag} {options : List RawOption}
  {reports : List OptionReport} {status : OcsStatus}

/-- The partial of another key survives an insertion only if the call does not end it. -/
theorem survives_insertion (opening : openDatagram last.1 = .ok (.ok opened))
    (disposed : dispositionOf crc32c opened =
      .fragment frag (some (fragKey opened.ip opened.udp frag)) options reports status)
    (different : key ≠ fragKey opened.ip opened.udp frag)
    (spared : ∀ reassembled,
      ((insertionOf opened frag options reports status last.2).fed cache).1 = .complete reassembled →
      Rebuildable reassembled → dispositionOf crc32c (rebuiltOpened opened reassembled) ≠ .fail (some key))
    (present : ((insertionOf opened frag options reports status last.2).after cache).partials.lookup key = some held) :
    cache.partials.lookup key = some held ∧ ¬ Clears crc32c key last cache := by
  have found := @lookup_after_ne (insertionOf opened frag options reports status last.2) key cache different
  rw [present] at found
  obtain ⟨found, young⟩ := Option.filter_eq_some_iff.mp found.symm
  refine ⟨found, fun clears => ?_⟩
  rcases clears.fragment opening disposed with ⟨same, _⟩ | ⟨old, again, expired⟩ | ⟨reassembled, done, fits, failing⟩
  · exact different same
  · cases found.symm.trans again
    rw [show (insertionOf opened frag options reports status last.2).now = last.2 from rfl, expired] at young
    cases young
  · exact spared reassembled done fits failing

/-- A partial held after a call was held before and is not ended by it, or the call
fed it. -/
theorem Handling.kept {delivery : Delivery} {after : ReassemblyCache}
    (handling : Handling crc32c opened cache last.2 delivery after) (opening : openDatagram last.1 = .ok (.ok opened))
    (valid : CacheValid cache) (present : after.partials.lookup key = some held) :
    (cache.partials.lookup key = some held ∧ ¬ Clears crc32c key last cache) ∨
    ∃ frag options reports status, Fragmentary opened frag status ∧ key = fragKey opened.ip opened.udp frag ∧
      dispositionOf crc32c opened = .fragment frag (some key) options reports status ∧
      (insertionOf opened frag options reports status last.2).fed cache = (.incomplete, some held) := by
  obtain ⟨well, _⟩ := openDatagram_well opening
  have examined := examine_opened crc32c opening well
  cases handling with
  | delivered disposed =>
    refine .inl ⟨present, fun clears => ?_⟩
    rw [disposed] at examined
    cases clears.no_fragment examined nofun
  | @failed frag status fragmentary disposed =>
    by_cases same : key = fragKey opened.ip opened.udp frag
    · rw [same] at present
      cases (lookup_putCell cache (fragKey opened.ip opened.udp frag) none).symm.trans present
    · refine .inl ⟨(lookup_putCell_ne cache none same).symm.trans present, fun clears => ?_⟩
      rw [disposed] at examined
      cases clears.no_fragment examined nofun
      exact same rfl
  | @buffered frag options reports status fragmentary disposed outcome =>
    by_cases same : key = fragKey opened.ip opened.udp frag
    · subst same
      refine .inr ⟨frag, options, reports, status, fragmentary, rfl, disposed, Prod.ext outcome ?_⟩
      exact (lookup_after (insertionOf opened frag options reports status last.2) cache).symm.trans present
    · exact .inl (survives_insertion opening disposed same (by rw [outcome]; nofun) present)
  | @aborted frag options reports status reason fragmentary disposed outcome =>
    by_cases same : key = fragKey opened.ip opened.udp frag
    · subst same
      have gone := @CacheValid.gone cache valid (insertionOf opened frag options reports status last.2)
        (by rw [outcome]; nofun)
      cases gone.symm.trans present
    · exact .inl (survives_insertion opening disposed same (by rw [outcome]; nofun) present)
  | @completed frag options reports status reassembled fragmentary disposed outcome =>
    have gone := @CacheValid.gone cache valid (insertionOf opened frag options reports status last.2)
      (by rw [outcome]; nofun)
    have handed := handOn_cache crc32c opened reassembled
      ((insertionOf opened frag options reports status last.2).after cache)
    have before : ((insertionOf opened frag options reports status last.2).after cache).partials.lookup key =
        some held := by
      rcases handed with same | ⟨inner, _, _, same⟩
      · rw [← same]
        exact present
      · rw [same] at present
        by_cases hit : key = inner
        · rw [hit, lookup_putCell] at present
          cases present
        · rwa [lookup_putCell_ne _ _ hit] at present
    by_cases same : key = fragKey opened.ip opened.udp frag
    · subst same
      cases gone.symm.trans before
    · refine .inl (survives_insertion opening disposed same ?_ before)
      intro other done fits failing
      cases outcome.symm.trans done
      rw [handOn, if_pos fits, failing, refed] at present
      cases (lookup_putCell _ key none).symm.trans present

/-- Every partial of the cache is traced to calls that nothing has ended since. -/
def AllTraced (crc32c : List UInt8 → UInt32) (limits : ReassemblyLimits) (arrivals : List (List UInt8 × Nat))
    (cache : ReassemblyCache) : Prop :=
  ∀ key held, cache.partials.lookup key = some held →
    ∃ stored final, Traced arrivals key (Unbroken crc32c limits arrivals key) held stored final

private theorem allTraced_empty (crc32c : List UInt8 → UInt32) (limits : ReassemblyLimits)
    (arrivals : List (List UInt8 × Nat)) : AllTraced crc32c limits arrivals (.withLimits limits) := by
  intro key held present
  cases (AList.lookup_empty key).symm.trans present

theorem AllTraced.start {next : Nat → Prop} (traced : AllTraced crc32c limits arrivals cache) (key : FragKey)
    (last : List UInt8 × Nat)
    (still : ∀ held, cache.partials.lookup key = some held → held.isExpired last.2 cache.limits.timeout = false →
      ∀ index, Unbroken crc32c limits arrivals key index → next index) :
    ∃ stored final, Traced (arrivals ++ [last]) key next
        (((cache.gc last.2).partials.lookup key).getD (Partial.new last.2)) stored final ∧
      ∀ old ∈ stored ++ final.toList, old.index < arrivals.length := by
  cases found : (cache.gc last.2).partials.lookup key with
  | none => exact ⟨[], none, traced_new _ _ _ _, nofun⟩
  | some held =>
    rw [lookup_gc, Option.filter_eq_some_iff] at found
    obtain ⟨present, young⟩ := found
    obtain ⟨stored, final, trace⟩ := traced key held present
    refine ⟨stored, final, trace.extend last (still held present ?_), ?_⟩
    · simpa using young
    · exact fun old member => (trace.contributed old member).index_lt

theorem contributed_last {fragment : NormalizedFragment} (opening : openDatagram last.1 = .ok (.ok opened))
    (fragmentary : Fragmentary opened frag status)
    (normal : NormalizedFragment.new frag (fragmentData opened frag).length = some fragment)
    (arrivals : List (List UInt8 × Nat)) :
    Contributed (arrivals ++ [last]) (fragKey opened.ip opened.udp frag) ⟨arrivals.length, opened, frag, fragment⟩ :=
  ⟨⟨last, List.getElem?_concat_length, opening⟩, (openDatagram_well opening).2, ⟨status, fragmentary⟩, rfl, normal⟩

theorem AllTraced.fed {outputs : List (Except RecvError Delivery)} (traced : AllTraced crc32c limits arrivals cache)
    (executed : run (receive crc32c) arrivals (.withLimits limits) = .ok (outputs, cache)) (valid : CacheValid cache)
    (opening : openDatagram last.1 = .ok (.ok opened)) (fragmentary : Fragmentary opened frag status)
    (disposed : dispositionOf crc32c opened =
      .fragment frag (some (fragKey opened.ip opened.udp frag)) options reports status)
    (fed : (insertionOf opened frag options reports status last.2).fed cache = (.incomplete, some held)) :
    ∃ stored final, Traced (arrivals ++ [last]) (fragKey opened.ip opened.udp frag)
      (Unbroken crc32c limits (arrivals ++ [last]) (fragKey opened.ip opened.udp frag)) held stored final := by
  obtain ⟨stored, final, trace, earlier⟩ := @AllTraced.start crc32c limits arrivals cache
    (Unbroken crc32c limits (arrivals ++ [last]) (fragKey opened.ip opened.udp frag)) traced
    (fragKey opened.ip opened.udp frag) last (fun old present young index unbroken => by
      apply unbroken.extend executed
      intro clears
      rcases clears.fragment opening disposed with ⟨_, done⟩ | ⟨other, again, expired⟩ | ⟨reassembled, done, _⟩
      · exact done (congrArg Prod.fst fed)
      · cases present.symm.trans again
        rw [young] at expired
        cases expired
      · cases (congrArg Prod.fst fed).symm.trans done)
  have step := valid.cellFed (insertionOf opened frag options reports status last.2)
  rw [fed] at step
  cases step with
  | @again old present =>
    have found : (cache.gc last.2).partials.lookup (fragKey opened.ip opened.udp frag) = some old := present
    rw [found] at trace
    exact ⟨stored, final, trace.observe _⟩
  | pending _ screened accepted =>
    obtain ⟨stored, final, trace, _⟩ := trace.accept (contributed_last opening fragmentary screened.normal arrivals)
      (unbroken_past (by simp)) (fun old member => Nat.ne_of_lt (earlier old member)) accepted
    exact ⟨stored, final, trace⟩

/-- One call keeps every partial traced. -/
theorem AllTraced.step {outputs : List (Except RecvError Delivery)} {result : Except RecvError Delivery}
    {after : ReassemblyCache} (traced : AllTraced crc32c limits arrivals cache)
    (executed : run (receive crc32c) arrivals (.withLimits limits) = .ok (outputs, cache)) (valid : CacheValid cache)
    (received : receive crc32c last cache = .ok (result, after)) :
    AllTraced crc32c limits (arrivals ++ [last]) after := by
  intro key held present
  rcases processDatagram_cases crc32c last.1 cache last.2 with ⟨error, opening, processed⟩ |
    ⟨opened, delivery, final, opening, processed, handling⟩
  · cases processed.symm.trans received
    obtain ⟨stored, final, trace⟩ := traced key held present
    refine ⟨stored, final, trace.extend last fun index unbroken => unbroken.extend executed fun clears => ?_⟩
    have refused : examine crc32c last.1 = .ok (.error error) := by
      rw [examine, opening]
      rfl
    obtain ⟨_, _, examined, _⟩ := clears.examined
    cases refused.symm.trans examined
  · cases processed.symm.trans received
    rcases handling.kept opening valid present with ⟨before, quiet⟩ |
      ⟨frag, options, reports, status, fragmentary, rfl, disposed, fed⟩
    · obtain ⟨stored, final, trace⟩ := traced key held before
      exact ⟨stored, final, trace.extend last fun index unbroken => unbroken.extend executed quiet⟩
    · exact traced.fed executed valid opening fragmentary disposed fed

/-- After every run from an empty cache each partial is traced to calls of the run. -/
theorem run_traced {outputs : List (Except RecvError Delivery)} {cache : ReassemblyCache}
    (executed : run (receive crc32c) arrivals (.withLimits limits) = .ok (outputs, cache)) :
    CacheValid cache ∧ cache.limits = limits ∧ AllTraced crc32c limits arrivals cache := by
  induction arrivals using List.reverseRecOn generalizing outputs cache with
  | nil =>
    cases executed
    exact ⟨cacheValid_empty limits, rfl, allTraced_empty crc32c limits []⟩
  | append_singleton before last ih =>
    rw [run_concat] at executed
    obtain ⟨⟨earlier, middle⟩, reached, executed⟩ := Checked.bind_eq_ok.mp executed
    obtain ⟨⟨result, final⟩, received, executed⟩ := Checked.bind_eq_ok.mp executed
    obtain ⟨valid, same, traced⟩ := ih reached
    cases executed
    obtain ⟨validAfter, sameAfter⟩ := receive_valid received valid
    exact ⟨validAfter, sameAfter.trans same, traced.step reached valid received⟩

end Steps

end

end UdpOptions.Proofs
