import UdpOptions.Options.Kind
import UdpOptions.Library.FiniteMap

/-! The receive-side reassembly cache: one partial datagram for each key, fed
with validated fragments, bounded in size, count, and age. Instants and durations
are nanoseconds, and the age of a partial saturates at zero. -/

namespace UdpOptions
open Library Model

structure ReassemblyLimits where
  maxReassembledSize : Nat
  maxSegments : Nat
  maxPendingPartials : Nat
  timeout : Nat
  deriving DecidableEq, Repr

def ReassemblyLimits.default : ReassemblyLimits where
  maxReassembledSize := Limits.mrdsDefaultIpv4.toNat
  maxSegments := Limits.minReassemblySegments.toNat
  maxPendingPartials := Limits.reassemblyMaxPendingPartials
  timeout := Limits.reassemblyTimeoutMax

/-- The UDP 4-tuple and the FRAG Identification. -/
structure FragKey where
  src : Octets
  dst : Octets
  srcPort : UInt16
  dstPort : UInt16
  identification : UInt32
  deriving DecidableEq, Repr

inductive AbortReason where
  | overlap
  | limitExceeded
  deriving DecidableEq, Repr

/-- What a completed reassembly hands back for re-processing. -/
structure Reassembled where
  tail : List UInt8
  udpLength : UInt16
  fragmentOptions : List RawOption
  fragmentOptionFailures : List OptionKind
  /-- Whether some fragment had a validated non-zero OCS; `none` if one was not observed. -/
  fragmentOcsNonzero : Option Bool
  deriving DecidableEq, Repr

inductive ReassemblyOutcome where
  | incomplete
  | complete (reassembled : Reassembled)
  | abort (reason : AbortReason)
  deriving DecidableEq, Repr

/-- Observations made on one fragment before it reaches the cache. -/
structure FragmentProcessing where
  options : List RawOption
  optionFailures : List OptionKind
  ocsNonzero : Option Bool
  deriving DecidableEq, Repr

/-- The range of the reassembled tail a fragment claims. -/
structure NormalizedFragment where
  start : Nat
  stop : Nat
  udpLength : Option UInt16
  deriving DecidableEq, Repr

def NormalizedFragment.new (frag : Frag) (dataLen : Nat) : Option NormalizedFragment :=
  let start? :=
    if frag.fragOffset = 0 ∧ frag.rdos.isSome then some 0
    else checkedSub frag.fragOffset.toNat Length.udpHeader
  match start? with
  | none => none
  | some start =>
    match checkedAdd start dataLen with
    | none => none
    | some stop => some ⟨start, stop, frag.rdos⟩

structure Segment where
  start : Nat
  stop : Nat
  data : List UInt8
  fragmentOptions : List RawOption
  fragmentOptionFailures : List OptionKind
  deriving DecidableEq, Repr

/-- Coalesced SAFE options of a fragment set. -/
structure FragmentOptions where
  mds : Option UInt16
  mrdsSize : Option UInt16
  mrdsSegments : Option UInt8
  req : Option Octets
  res : Option Octets
  deriving DecidableEq, Repr

namespace FragmentOptions

def default : FragmentOptions := ⟨none, none, none, none, none⟩

/-- `old.map_or(new, |old| old.min(new))`. -/
def lower {α : Type} [Min α] (old : Option α) (new : α) : α :=
  match old with
  | none => new
  | some old => min old new

def observeOne (merged : FragmentOptions) (option : RawOption) : FragmentOptions :=
  match option.kind with
  | .mds =>
    match Mds.decode option.value with
    | .ok mds => { merged with mds := some (lower merged.mds mds.maxDatagramSize) }
    | .error _ => merged
  | .mrds =>
    match Mrds.decode option.value with
    | .ok mrds =>
      { merged with
        mrdsSize := some (lower merged.mrdsSize mrds.maxReassembledSize)
        mrdsSegments := some (lower merged.mrdsSegments mrds.maxSegments) }
    | .error _ => merged
  | .req =>
    match Req.decode option.value with
    | .ok req => { merged with req := some req.token }
    | .error _ => merged
  | .res =>
    match Res.decode option.value with
    | .ok res => { merged with res := some res.token }
    | .error _ => merged
  | _ => merged

def observe (merged : FragmentOptions) (options : List RawOption) : FragmentOptions :=
  options.foldl observeOne merged

def toRawOptions (merged : FragmentOptions) : List RawOption :=
  (match merged.mds with
    | some value => [⟨.mds, u16Be value⟩]
    | none => []) ++
  (match merged.mrdsSize, merged.mrdsSegments with
    | some size, some segments => [⟨.mrds, u16Be size ++ [segments]⟩]
    | _, _ => []) ++
  (match merged.req with
    | some token => [⟨.req, token.toList⟩]
    | none => []) ++
  (match merged.res with
    | some token => [⟨.res, token.toList⟩]
    | none => [])

end FragmentOptions

/-- Record each failed kind once, in order of first failure. -/
def observeFailures (kinds failures : List OptionKind) : List OptionKind :=
  failures.foldl (fun kinds kind => if kind ∈ kinds then kinds else kinds ++ [kind]) kinds

structure Partial where
  segments : List Segment
  terminalEnd : Option Nat
  udpLength : Option UInt16
  fragmentCount : Nat
  byteTotal : Nat
  fragmentOptions : FragmentOptions
  fragmentOptionFailures : List OptionKind
  fragmentOcsNonzero : Option Bool
  emptyTerminalOptions : Option (List RawOption)
  emptyTerminalOptionFailures : Option (List OptionKind)
  receivedAt : Nat
  deriving DecidableEq, Repr

namespace Partial

def new (receivedAt : Nat) : Partial where
  segments := []
  terminalEnd := none
  udpLength := none
  fragmentCount := 0
  byteTotal := 0
  fragmentOptions := .default
  fragmentOptionFailures := []
  fragmentOcsNonzero := some false
  emptyTerminalOptions := none
  emptyTerminalOptionFailures := none
  receivedAt := receivedAt

def isExpired (held : Partial) (now timeout : Nat) : Bool :=
  decide (min timeout Limits.reassemblyTimeoutMax ≤ now - held.receivedAt)

def isExactDuplicate (held : Partial) (fragment : NormalizedFragment) (data : List UInt8)
    (fragmentOptions : List RawOption) (fragmentOptionFailures : List OptionKind) : Bool :=
  let stored := held.segments.any fun segment =>
    segment.start = fragment.start ∧ segment.stop = fragment.stop ∧ segment.data = data ∧
      segment.fragmentOptions = fragmentOptions ∧ segment.fragmentOptionFailures = fragmentOptionFailures
  match fragment.udpLength with
  | none => stored
  | some udpLength =>
    if held.udpLength ≠ some udpLength ∨ held.terminalEnd ≠ some fragment.stop then false
    else if data.isEmpty then
      held.emptyTerminalOptions = some fragmentOptions ∧
        held.emptyTerminalOptionFailures = some fragmentOptionFailures
    else stored

def overlaps (held : Partial) (start stop : Nat) : Bool :=
  start < stop && held.segments.any fun segment => start < segment.stop ∧ segment.start < stop

def observeFragmentOcs (held : Partial) (ocsNonzero : Option Bool) : Partial :=
  { held with
    fragmentOcsNonzero :=
      match held.fragmentOcsNonzero, ocsNonzero with
      | some accumulated, some current => some (accumulated || current)
      | _, _ => none }

/-- Where `binary_search_by_key` finds or would insert a start offset: on a list
sorted by start, the number of segments that start earlier. -/
def searchByStart (segments : List Segment) (start : Nat) : Fin (segments.length + 1) :=
  ⟨(segments.takeWhile fun segment => segment.start < start).length,
    Nat.lt_succ_of_le (List.takeWhile_sublist _).length_le⟩

/-- `Vec::insert` at an index that is at most the length. -/
def insertSegment (segments : List Segment) (index : Fin (segments.length + 1)) (segment : Segment) : List Segment :=
  segments.take index ++ segment :: segments.drop index

/-- The terminal metadata after a fragment that carries an RDOS. -/
def noteTerminal (held : Partial) (fragment : NormalizedFragment) (udpLength : UInt16) (data : List UInt8)
    (fragmentOptions : List RawOption) (fragmentOptionFailures : List OptionKind) : Except AbortReason Partial :=
  match checkedSub udpLength.toNat Length.udpHeader with
  | none => .error .overlap
  | some userTailLen =>
    if fragment.stop < userTailLen then .error .overlap else
    match held.terminalEnd, held.udpLength with
    | none, none =>
      if held.segments.any fun segment => fragment.stop < segment.stop then .error .overlap
      else
        .ok { held with
          terminalEnd := some fragment.stop
          udpLength := some udpLength
          emptyTerminalOptions := if data.isEmpty then some fragmentOptions else held.emptyTerminalOptions
          emptyTerminalOptionFailures :=
            if data.isEmpty then some fragmentOptionFailures else held.emptyTerminalOptionFailures }
    | some existingEnd, some existingUdpLength =>
      if existingEnd = fragment.stop ∧ existingUdpLength = udpLength then
        if data.isEmpty ∧ (held.emptyTerminalOptions ≠ some fragmentOptions ∨
            held.emptyTerminalOptionFailures ≠ some fragmentOptionFailures) then .error .overlap
        else .ok held
      else .error .overlap
    | _, _ => .error .overlap

/-- Only a fragment that carries an RDOS has terminal metadata to note. -/
def noteFragment (held : Partial) (fragment : NormalizedFragment) (data : List UInt8)
    (processing : FragmentProcessing) : Except AbortReason Partial :=
  match fragment.udpLength with
  | none => .ok held
  | some udpLength => held.noteTerminal fragment udpLength data processing.options processing.optionFailures

/-- Count a fragment that passed every check, observe its options, and store
its bytes. -/
def record (held : Partial) (fragment : NormalizedFragment) (data : List UInt8) (processing : FragmentProcessing)
    (fragmentCount byteTotal : Nat) : Partial :=
  { held.observeFragmentOcs processing.ocsNonzero with
    fragmentCount := fragmentCount
    byteTotal := byteTotal
    fragmentOptions := held.fragmentOptions.observe processing.options
    fragmentOptionFailures := observeFailures held.fragmentOptionFailures processing.optionFailures
    segments :=
      if data.isEmpty then held.segments
      else
        insertSegment held.segments (searchByStart held.segments fragment.start)
          ⟨fragment.start, fragment.stop, data, processing.options, processing.optionFailures⟩ }

/-- The checks and updates of `insert` between the duplicate test and the
completion test. An abort drops the partial, so no state is returned for it. -/
def accept (held : Partial) (fragment : NormalizedFragment) (data : List UInt8) (processing : FragmentProcessing)
    (limits : ReassemblyLimits) : Except AbortReason Partial :=
  match checkedAdd held.fragmentCount 1 with
  | none => .error .limitExceeded
  | some fragmentCount =>
  if limits.maxSegments < fragmentCount then .error .limitExceeded else
  match checkedAdd held.byteTotal data.length with
  | none => .error .limitExceeded
  | some byteTotal =>
  if (checkedAdd byteTotal Length.udpHeader).all fun udpTotal => limits.maxReassembledSize < udpTotal then
    .error .limitExceeded
  else if held.overlaps fragment.start fragment.stop then .error .overlap
  else if held.terminalEnd.any fun terminalEnd => terminalEnd < fragment.stop then .error .overlap
  else
    match held.noteFragment fragment data processing with
    | .error reason => .error reason
    | .ok held => .ok (held.record fragment data processing fragmentCount byteTotal)

/-- The completion walk: a gap leaves the datagram incomplete, and a segment
behind the cursor would be an overlap. -/
def walk (cursor : Nat) : List Segment → Except ReassemblyOutcome Nat
  | [] => .ok cursor
  | segment :: rest =>
    if cursor < segment.start then .error .incomplete
    else if segment.start < cursor then .error (.abort .overlap)
    else walk segment.stop rest

def complete (held : Partial) : ReassemblyOutcome :=
  match held.terminalEnd, held.udpLength with
  | some terminalEnd, some udpLength =>
    match walk 0 held.segments with
    | .error outcome => outcome
    | .ok cursor =>
      if cursor ≠ terminalEnd then .incomplete
      else
        .complete {
          tail := held.segments.flatMap Segment.data
          udpLength := udpLength
          fragmentOptions := held.fragmentOptions.toRawOptions
          fragmentOptionFailures := held.fragmentOptionFailures
          fragmentOcsNonzero := held.fragmentOcsNonzero }
  | _, _ => .incomplete

def insert (held : Partial) (fragment : NormalizedFragment) (data : List UInt8) (processing : FragmentProcessing)
    (limits : ReassemblyLimits) : ReassemblyOutcome × Partial :=
  if held.isExactDuplicate fragment data processing.options processing.optionFailures then
    (.incomplete, held.observeFragmentOcs processing.ocsNonzero)
  else
    match held.accept fragment data processing limits with
    | .error reason => (.abort reason, held)
    | .ok updated => (updated.complete, updated)

end Partial

structure ReassemblyCache where
  partials : FiniteMap FragKey Partial
  limits : ReassemblyLimits

namespace ReassemblyCache

def withLimits (limits : ReassemblyLimits) : ReassemblyCache := ⟨∅, limits⟩

def len (cache : ReassemblyCache) : Nat := FiniteMap.size cache.partials

def gc (cache : ReassemblyCache) (now : Nat) : ReassemblyCache :=
  { cache with partials := FiniteMap.retain (fun held => !held.isExpired now cache.limits.timeout) cache.partials }

def discard (cache : ReassemblyCache) (key : FragKey) : ReassemblyCache :=
  { cache with partials := cache.partials.erase key }

def abort (cache : ReassemblyCache) (key : FragKey) (reason : AbortReason) : ReassemblyOutcome × ReassemblyCache :=
  (.abort reason, { cache with partials := cache.partials.erase key })

/-- At the pending cap a fragment can only complete on its own. -/
def insertWithoutRetaining (cache : ReassemblyCache) (fragment : NormalizedFragment) (data : List UInt8)
    (processing : FragmentProcessing) (now : Nat) : ReassemblyOutcome :=
  match ((Partial.new now).insert fragment data processing cache.limits).1 with
  | .complete reassembled => .complete reassembled
  | .abort reason => .abort reason
  | .incomplete => .abort .limitExceeded

/-- Feed the partial that the map holds for the key, and drop it unless it is
still incomplete. -/
def insertPresent (cache : ReassemblyCache) (key : FragKey) (fragment : NormalizedFragment) (data : List UInt8)
    (processing : FragmentProcessing) : Checked (ReassemblyOutcome × ReassemblyCache) := do
  let held ← Checked.expect (cache.partials.lookup key)
  let (outcome, held) := held.insert fragment data processing cache.limits
  match outcome with
  | .incomplete => return (.incomplete, { cache with partials := cache.partials.insert key held })
  | .complete reassembled => return (.complete reassembled, { cache with partials := cache.partials.erase key })
  | .abort reason => return (.abort reason, { cache with partials := cache.partials.erase key })

def insertWithOptionsAndFailures (cache : ReassemblyCache) (key : FragKey) (frag : Frag) (data : List UInt8)
    (processing : FragmentProcessing) (now : Nat) : Checked (ReassemblyOutcome × ReassemblyCache) := do
  let cache := cache.gc now
  match NormalizedFragment.new frag data.length with
  | none => return cache.abort key .overlap
  | some fragment =>
    if cache.limits.maxReassembledSize < (fragment.udpLength.getD 0).toNat then
      return cache.abort key .limitExceeded
    if (checkedAdd Length.udpHeader fragment.stop).all fun len => cache.limits.maxReassembledSize < len then
      return cache.abort key .limitExceeded
    if (cache.partials.lookup key).isNone then
      if cache.limits.maxPendingPartials ≤ cache.len then
        return (cache.insertWithoutRetaining fragment data processing now, cache)
      let cache := { cache with partials := cache.partials.insert key (Partial.new now) }
      cache.insertPresent key fragment data processing
    else cache.insertPresent key fragment data processing

def insertWithOptions (cache : ReassemblyCache) (key : FragKey) (frag : Frag) (data : List UInt8)
    (fragmentOptions : List RawOption) (now : Nat) : Checked (ReassemblyOutcome × ReassemblyCache) :=
  cache.insertWithOptionsAndFailures key frag data ⟨fragmentOptions, [], none⟩ now

def insert (cache : ReassemblyCache) (key : FragKey) (frag : Frag) (data : List UInt8) (now : Nat) :
    Checked (ReassemblyOutcome × ReassemblyCache) :=
  cache.insertWithOptions key frag data [] now

end ReassemblyCache

end UdpOptions
