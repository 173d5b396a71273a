import UdpOptions.Library.Runs
import UdpOptions.Proofs.SendPath

/-! The Identifications of a peer. A send takes one from the generator only when it
has to be fragmented, and every fragment carries it. The generator only moves
forward, so along any run of sends no Identification is handed out twice, and
after the largest one nothing more is fragmented. -/

namespace UdpOptions.Proofs
open Library Model

/-- A send of a peer, whose configuration leaves the Identification to the generator. -/
structure PeerSend where
  addrs : Api.DatagramAddrs
  payload : List UInt8
  options : Api.SendOptions
  config : Api.SendConfig
  unnamed : config.identification = none

structure Dispatch where
  send : PeerSend
  handed : Option UInt32
  result : Except SendError (List (List UInt8))

section
variable (crc32c : List UInt8 → UInt32)

def PeerSend.alone (send : PeerSend) : Checked (Except SendError (List (List UInt8))) :=
  Api.buildOutgoingDatagrams crc32c send.addrs send.payload send.options send.config

def PeerSend.named (send : PeerSend) (id : UInt32) : Checked (Except SendError (List (List UInt8))) :=
  Api.buildOutgoingDatagrams crc32c send.addrs send.payload send.options { send.config with identification := some id }

/-- The Identification `next_id` returns to a send; it is called after one error only. -/
def handedOut (send : PeerSend) (identifications : IdentificationGenerator) : Option UInt32 :=
  match send.alone crc32c with
  | .ok (.error .fragmentIdentificationRequired) => identifications.nextId.1.toOption
  | _ => none

/-- One send on the generator, as an entry of the ledger. -/
def dispatch (send : PeerSend) (identifications : IdentificationGenerator) :
    Checked (Dispatch × IdentificationGenerator) := do
  let (result, after) ← Api.buildPeerOutgoingDatagrams crc32c send.addrs send.payload send.options send.config
    identifications
  return (⟨send, handedOut crc32c send identifications, result⟩, after)

/-- The options and the configuration are valid, the send is too large for one
datagram, and fragmentation is enabled. -/
def PeerSend.Fragmenting (send : PeerSend) : Prop :=
  ∃ body len, Fragments crc32c send.payload send.options send.config body len

/-- The Identification of a datagram that the receive path takes as a fragment. -/
def carriedIdentification (datagram : List UInt8) : Option UInt32 :=
  match examine crc32c datagram with
  | .ok (.ok (_, .fragment frag _ _ _ _)) => some frag.identification
  | _ => none

inductive DispatchCase (send : PeerSend) : IdentificationGenerator → Dispatch → IdentificationGenerator → Prop where
  | whole {identifications : IdentificationGenerator} {result : Except SendError (List (List UInt8))}
      (never : ¬ send.Fragmenting crc32c) (alone : send.alone crc32c = .ok result) :
      DispatchCase send identifications ⟨send, none, result⟩ identifications
  | exhausted (needed : send.Fragmenting crc32c) :
      DispatchCase send ⟨none⟩ ⟨send, none, .error (.split .identificationExhausted)⟩ ⟨none⟩
  | fragmented {id : UInt32} {result : Except SendError (List (List UInt8))} (needed : send.Fragmenting crc32c)
      (named : send.named crc32c id = .ok result) :
      DispatchCase send ⟨some id⟩ ⟨send, some id, result⟩ ⟨if id.toNat + 1 < 2 ^ 32 then some (id + 1) else none⟩

/-- Without an Identification, a send asks for one exactly when it has to be fragmented. -/
theorem PeerSend.alone_cases (send : PeerSend) :
    (¬ send.Fragmenting crc32c ∧
      ∃ result, send.alone crc32c = .ok result ∧ result ≠ .error .fragmentIdentificationRequired) ∨
    (send.Fragmenting crc32c ∧ send.alone crc32c = .ok (.error .fragmentIdentificationRequired)) := by
  have ends := buildOutgoingDatagrams_case crc32c send.addrs send.payload send.options send.config
  rw [PeerSend.alone]
  generalize Api.buildOutgoingDatagrams crc32c send.addrs send.payload send.options send.config = outcome at ends ⊢
  cases ends with
  | refused other never =>
    refine .inl ⟨?_, _, rfl, fun same => other (Except.error.inj same)⟩
    intro needed
    obtain ⟨body, len, fragments⟩ := needed
    exact never body len fragments
  | single known fits sent =>
    refine .inl ⟨?_, _, rfl, nofun⟩
    intro needed
    obtain ⟨body, len, fragments⟩ := needed
    obtain ⟨_, rfl⟩ := known.unique fragments.single
    exact Nat.not_lt.mpr fits fragments.large
  | fragments known =>
    refine .inr ⟨⟨_, _, known⟩, ?_⟩
    rw [sendFragments, send.unnamed]
    rfl

/-- A send on the generator never faults and falls into one of the cases. -/
theorem dispatch_case (send : PeerSend) (identifications : IdentificationGenerator) :
    ∃ entry after, dispatch crc32c send identifications = .ok (entry, after) ∧
      DispatchCase crc32c send identifications entry after := by
  rcases send.alone_cases crc32c with ⟨never, result, alone, other⟩ | ⟨needed, alone⟩
  · refine ⟨⟨send, none, result⟩, identifications, ?_, .whole never alone⟩
    have building : Api.buildOutgoingDatagrams crc32c send.addrs send.payload send.options send.config = .ok result :=
      alone
    have untouched : handedOut crc32c send identifications = none := by
      rw [handedOut, alone]
      split
      next same => exact absurd (Except.ok.inj same) other
      · rfl
    rw [dispatch, untouched, Api.buildPeerOutgoingDatagrams, building, Checked.ok_bind]
    split
    next same => exact absurd rfl other
    · rfl
  · have building : Api.buildOutgoingDatagrams crc32c send.addrs send.payload send.options send.config =
        .ok (.error .fragmentIdentificationRequired) := alone
    have handed : handedOut crc32c send identifications = identifications.nextId.1.toOption := by
      rw [handedOut, alone]
    obtain ⟨next⟩ := identifications
    cases next with
    | none =>
      refine ⟨_, _, ?_, .exhausted needed⟩
      rw [dispatch, handed, Api.buildPeerOutgoingDatagrams, building, Checked.ok_bind]
      rfl
    | some id =>
      obtain ⟨result, named⟩ := buildOutgoingDatagrams_total crc32c send.addrs send.payload send.options
        { send.config with identification := some id }
      refine ⟨_, _, ?_, .fragmented needed named⟩
      rw [dispatch, handed, Api.buildPeerOutgoingDatagrams, building, Checked.ok_bind]
      simp only [IdentificationGenerator.nextId, named, Checked.ok_bind]
      rfl

variable {crc32c}

theorem PeerSend.named_carried {send : PeerSend} {id : UInt32} {datagrams : List (List UInt8)}
    (named : send.named crc32c id = .ok (.ok datagrams)) (several : 1 < datagrams.length) :
    ∀ datagram ∈ datagrams, carriedIdentification crc32c datagram = some id := by
  rw [PeerSend.named] at named
  have ends := buildOutgoingDatagrams_case crc32c send.addrs send.payload send.options
    { send.config with identification := some id }
  generalize Api.buildOutgoingDatagrams crc32c send.addrs send.payload send.options _ = outcome at named ends
  cases ends with
  | refused => cases named
  | single =>
    cases named
    exact absurd several (Nat.lt_irrefl 1)
  | @fragments body len known =>
    rcases sendFragments_cases send.addrs send.payload body known.limits with
      ⟨error, failed, _⟩ | ⟨identification, rdos, ranges, openedOf, given, _, _, whole, sent⟩
    · cases failed.symm.trans named
    · cases whole.symm.trans named
      cases given
      rw [List.forall_mem_map]
      intro range member
      obtain ⟨opened, _⟩ := sent range member
      rw [carriedIdentification, examine_opened crc32c opened.opening (openDatagram_well opened.opening).1,
        dispositionOf_range crc32c opened]
      rfl

theorem PeerSend.alone_single {send : PeerSend} {datagrams : List (List UInt8)}
    (alone : send.alone crc32c = .ok (.ok datagrams)) : datagrams.length = 1 := by
  rw [PeerSend.alone] at alone
  have ends := buildOutgoingDatagrams_case crc32c send.addrs send.payload send.options send.config
  generalize Api.buildOutgoingDatagrams crc32c send.addrs send.payload send.options send.config = outcome
    at alone ends
  cases ends with
  | refused => cases alone
  | single =>
    cases alone
    rfl
  | fragments known =>
    rw [sendFragments, send.unnamed] at alone
    cases alone

/-- Whatever the generator still hands out is at least this. -/
def HandsFrom (least : Nat) (identifications : IdentificationGenerator) : Prop :=
  ∀ next, identifications.next = some next → least ≤ next.toNat

theorem handsFrom_advanced (id : UInt32) :
    HandsFrom (id.toNat + 1) ⟨if id.toNat + 1 < 2 ^ 32 then some (id + 1) else none⟩ := by
  intro next same
  dsimp only at same
  split at same
  next room =>
    cases same
    rw [UInt32.toNat_add]
    exact Nat.le_of_eq (Nat.mod_eq_of_lt room).symm
  · cases same

variable {send : PeerSend} {identifications after : IdentificationGenerator} {entry : Dispatch}

theorem DispatchCase.handed_from (taken : DispatchCase crc32c send identifications entry after) {least : Nat}
    (bounded : HandsFrom least identifications) {id : UInt32} (handed : entry.handed = some id) : least ≤ id.toNat := by
  cases taken with
  | whole => cases handed
  | exhausted => cases handed
  | fragmented =>
    cases handed
    exact bounded id rfl

theorem DispatchCase.passed (taken : DispatchCase crc32c send identifications entry after) {id : UInt32}
    (handed : entry.handed = some id) : HandsFrom (id.toNat + 1) after := by
  cases taken with
  | whole => cases handed
  | exhausted => cases handed
  | fragmented =>
    cases handed
    exact handsFrom_advanced id

theorem DispatchCase.forward (taken : DispatchCase crc32c send identifications entry after) {least : Nat}
    (bounded : HandsFrom least identifications) : HandsFrom least after := by
  cases taken with
  | whole => exact bounded
  | exhausted => exact bounded
  | @fragmented id =>
    intro next same
    have behind := handsFrom_advanced id next same
    have above := bounded id rfl
    omega

theorem DispatchCase.spent (taken : DispatchCase crc32c send identifications entry after)
    (bounded : HandsFrom (2 ^ 32) identifications) (needed : send.Fragmenting crc32c) :
    entry.result = .error (.split .identificationExhausted) := by
  cases taken with
  | whole never => exact absurd needed never
  | exhausted => rfl
  | @fragmented id =>
    have above := bounded id rfl
    exact absurd id.toNat_lt (Nat.not_lt.mpr above)

theorem DispatchCase.same_send (taken : DispatchCase crc32c send identifications entry after) : entry.send = send := by
  cases taken <;> rfl

/-- A send in several datagrams was handed an Identification, which all of them carry. -/
theorem DispatchCase.carried (taken : DispatchCase crc32c send identifications entry after)
    {datagrams : List (List UInt8)} (succeeded : entry.result = .ok datagrams) (several : 1 < datagrams.length) :
    ∃ id, entry.handed = some id ∧ ∀ datagram ∈ datagrams, carriedIdentification crc32c datagram = some id := by
  cases taken with
  | whole never alone =>
    cases succeeded
    exact absurd (PeerSend.alone_single alone) (Nat.ne_of_gt several)
  | exhausted => cases succeeded
  | @fragmented id _ needed named =>
    cases succeeded
    exact ⟨id, rfl, PeerSend.named_carried named several⟩

theorem DispatchCase.unfragmented (taken : DispatchCase crc32c send identifications entry after)
    (never : ¬ send.Fragmenting crc32c) : send.alone crc32c = .ok entry.result := by
  cases taken with
  | whole _ alone => exact alone
  | exhausted needed => exact absurd needed never
  | fragmented needed => exact absurd needed never

/-- The generator after so many Identifications were handed out from the seed on. -/
def Counted (seed : UInt32) (count : Nat) (identifications : IdentificationGenerator) : Prop :=
  identifications.next = if seed.toNat + count < 2 ^ 32 then some (UInt32.ofNat (seed.toNat + count)) else none

private theorem counted_some {seed id : UInt32} {count : Nat} (counted : Counted seed count ⟨some id⟩) :
    id.toNat = seed.toNat + count := by
  dsimp only [Counted] at counted
  split at counted
  next room =>
    rw [Option.some.inj counted]
    exact UInt32.toNat_ofNat_of_lt' room
  · cases counted

/-- Each Identification that is handed out is the next one. -/
theorem DispatchCase.counted (taken : DispatchCase crc32c send identifications entry after) {seed : UInt32}
    {count : Nat} (counted : Counted seed count identifications) :
    Counted seed (count + entry.handed.toList.length) after := by
  cases taken with
  | whole => exact counted
  | exhausted => exact counted
  | @fragmented id =>
    have number := counted_some counted
    have next : seed.toNat + (count + 1) = id.toNat + 1 := by omega
    have follows : UInt32.ofNat (id.toNat + 1) = id + 1 := by
      rw [UInt32.ofNat_add, UInt32.ofNat_toNat]
      rfl
    dsimp only [Counted, Option.toList, List.length_singleton]
    rw [next, follows]

/-- A send that has to be fragmented is handed the next Identification while one is left. -/
theorem DispatchCase.handed_next (taken : DispatchCase crc32c send identifications entry after) {seed : UInt32}
    {count : Nat} (counted : Counted seed count identifications) (needed : send.Fragmenting crc32c)
    (room : seed.toNat + count < 2 ^ 32) : entry.handed = some (UInt32.ofNat (seed.toNat + count)) := by
  cases taken with
  | whole never => exact absurd needed never
  | exhausted =>
    rw [Counted, if_pos room] at counted
    cases counted
  | @fragmented id =>
    rw [Counted, if_pos room] at counted
    exact counted

variable (crc32c)

private theorem dispatched (taken : dispatch crc32c send identifications = .ok (entry, after)) :
    DispatchCase crc32c send identifications entry after := by
  obtain ⟨other, next, made, known⟩ := dispatch_case crc32c send identifications
  cases made.symm.trans taken
  exact known

/-- Over any run of sends on one generator: all datagrams of a fragmented send carry
the Identification that was handed out to it; the Identifications rise strictly
from the seed on; a send that has to be fragmented is handed the next one while one is
left; once the largest was handed out, such a send fails; and a send that need not be
fragmented ends as it does without the generator. -/
theorem identifications_never_reused (seed : UInt32) (sends : List PeerSend) :
    ∃ ledger final, run (dispatch crc32c) sends (.new seed) = .ok (ledger, final) ∧
      ledger.map Dispatch.send = sends ∧
      (∀ entry ∈ ledger, ∀ datagrams, entry.result = .ok datagrams → 1 < datagrams.length →
        ∃ id, entry.handed = some id ∧ ∀ datagram ∈ datagrams, carriedIdentification crc32c datagram = some id) ∧
      (∀ entry ∈ ledger, ∀ id, entry.handed = some id → seed ≤ id) ∧
      (∀ before entry after, ledger = before ++ entry :: after → entry.send.Fragmenting crc32c →
        seed.toNat + (before.filterMap Dispatch.handed).length < 2 ^ 32 →
        entry.handed = some (UInt32.ofNat (seed.toNat + (before.filterMap Dispatch.handed).length))) ∧
      ledger.Pairwise (fun earlier later =>
        (∀ first second, earlier.handed = some first → later.handed = some second → first < second) ∧
        (earlier.handed = some 0xFFFFFFFF → later.send.Fragmenting crc32c →
          later.result = .error (.split .identificationExhausted))) ∧
      ∀ entry ∈ ledger, ¬ entry.send.Fragmenting crc32c → entry.send.alone crc32c = .ok entry.result := by
  have total : ∀ send identifications, ∃ entry after, dispatch crc32c send identifications = .ok (entry, after) := by
    intro send identifications
    obtain ⟨entry, after, made, _⟩ := dispatch_case crc32c send identifications
    exact ⟨entry, after, made⟩
  obtain ⟨ledger, final, executed⟩ := run_total total sends (.new seed)
  have steps := run_steps (HandsFrom seed.toNat) (fun send identifications entry after taken =>
    (dispatched crc32c taken).forward) executed (by
      intro next same
      cases same
      exact Nat.le_refl _)
  refine ⟨ledger, final, executed, ?_, ?_, ?_, ?_, ?_, ?_⟩
  · exact run_inputs (fun send identifications entry after taken => (dispatched crc32c taken).same_send) executed
  · intro entry member datagrams
    obtain ⟨send, before, after, _, taken⟩ := steps entry member
    exact (dispatched crc32c taken).carried
  · intro entry member id handed
    obtain ⟨send, before, after, bounded, taken⟩ := steps entry member
    exact UInt32.le_iff_toNat_le.mpr ((dispatched crc32c taken).handed_from bounded handed)
  · intro before entry after listed needed room
    have begun : Counted seed 0 (.new seed) := by
      rw [Counted, Nat.add_zero, if_pos seed.toNat_lt, UInt32.ofNat_toNat]
      rfl
    obtain ⟨send, middle, next, counted, taken⟩ := run_history (fun entries identifications =>
      Counted seed (entries.filterMap Dispatch.handed).length identifications) (by
        intro earlier send identifications entry after counted taken
        rw [List.filterMap_append, List.length_append]
        have advanced := (dispatched crc32c taken).counted counted
        cases handed : entry.handed <;> simpa [handed] using advanced) executed [] begun listed
    have known := dispatched crc32c taken
    exact known.handed_next counted (known.same_send ▸ needed) room
  · -- what an entry leaves behind is a generator above the Identification it was handed
    refine (run_pairwise (fun entry identifications => ∀ id, entry.handed = some id →
      HandsFrom (id.toNat + 1) identifications) ?_ ?_ executed).1
    · intro send identifications entry after taken id handed
      exact (dispatched crc32c taken).passed handed
    · intro send identifications later after taken earlier above
      have known := dispatched crc32c taken
      refine ⟨fun id handed => known.forward (above id handed), ?_, ?_⟩
      · intro first second handed next
        exact UInt32.lt_iff_toNat_lt.mpr (known.handed_from (above first handed) next)
      · intro last needed
        exact known.spent (above _ last) (known.same_send ▸ needed)
  · intro entry member never
    obtain ⟨send, before, after, _, taken⟩ := steps entry member
    have known := dispatched crc32c taken
    rw [known.same_send] at never ⊢
    exact known.unfragmented never

end

private def crossingSend : PeerSend :=
  ⟨⟨⟨10, 0, 0, 1⟩, ⟨10, 0, 0, 2⟩, 1000, 2000⟩, List.replicate 15 1, ⟨[⟨.mds, [5, 220]⟩], true⟩,
    ⟨56, .defaultIpv4, .auto, none⟩, rfl⟩

-- across the largest Identification: the third send is refused, and so is every later one
example :
    (run (dispatch fun _ => 0) (List.replicate 4 crossingSend) (.new 0xFFFFFFFE)).map (fun (ledger, _) =>
        ledger.map fun entry => (entry.handed, entry.result.map List.length)) =
      .ok [(some 0xFFFFFFFE, .ok 2), (some 0xFFFFFFFF, .ok 2), (none, .error (.split .identificationExhausted)),
        (none, .error (.split .identificationExhausted))] := by decide +kernel

end UdpOptions.Proofs
