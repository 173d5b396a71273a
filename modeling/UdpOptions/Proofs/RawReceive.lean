import UdpOptions.RawSocket
import UdpOptions.Proofs.Demultiplexer

/-! The receive loop of the raw socket. A call reads through every datagram that its
filters reject; it is ended by a datagram that passes them, by an error, or by its
deadline, and never by anything else. -/

namespace UdpOptions.Proofs
open Library Model

private theorem filterDatagram_total (data : List UInt8) (dstPort : UInt16) (srcPort : Option UInt16)
    (ownSrc : Option Ipv4Addr) : ∃ verdict, filterDatagram data dstPort srcPort ownSrc = .ok verdict := by
  unfold filterDatagram
  cases parsed : IpRepr.parse data with
  | error error => exact ⟨_, rfl⟩
  | ok found =>
    dsimp only
    rw [slice_behind parsed, Checked.ok_bind]
    split
    · exact ⟨_, rfl⟩
    · split
      · exact ⟨_, rfl⟩
      split
      · exact ⟨_, rfl⟩
      split <;> exact ⟨_, rfl⟩

def Passes (receiver : RawReceiver) (data : List UInt8) (len : Nat) : Prop :=
  filterDatagram data receiver.dstPort receiver.srcPort receiver.ownSrc = .ok (.deliver len)

def Rejects (receiver : RawReceiver) (data : List UInt8) : Prop :=
  filterDatagram data receiver.dstPort receiver.srcPort receiver.ownSrc = .ok .filtered

theorem Passes.slice {receiver : RawReceiver} {data : List UInt8} {len : Nat} (passes : Passes receiver data len) :
    Checked.slice data 0 len = .ok (data.take len) := by
  obtain ⟨ip, udpAt, udp, admits, rfl⟩ := filterDatagram_delivers passes
  exact Checked.slice_of_le (Nat.zero_le _) (parse_accepted admits.ipParsed).inside

/-- What the loop does with its turns. -/
inductive Reading (deadline : Option Nat) : List ReadTurn → RawReceiver →
    Option (Except SocketError (Option (List UInt8))) → RawReceiver → Prop where
  | waiting {receiver : RawReceiver} : Reading deadline [] receiver none receiver
  | ended {turn : ReadTurn} {rest : List ReadTurn} {receiver : RawReceiver}
      {result : Except SocketError (Option (List UInt8))} (stopped : receiver.rearm deadline turn = .error result) :
      Reading deadline (turn :: rest) receiver (some result) receiver
  | quiet {turn : ReadTurn} {rest : List ReadTurn} {receiver armed : RawReceiver} {error : IoError}
      (ready : receiver.rearm deadline turn = .ok armed) (failed : turn.read = .error error)
      (timely : error.kind = .wouldBlock ∨ error.kind = .timedOut) :
      Reading deadline (turn :: rest) receiver (some (.ok none)) armed
  | broken {turn : ReadTurn} {rest : List ReadTurn} {receiver armed : RawReceiver} {error : IoError}
      (ready : receiver.rearm deadline turn = .ok armed) (failed : turn.read = .error error)
      (other : ¬ (error.kind = .wouldBlock ∨ error.kind = .timedOut)) :
      Reading deadline (turn :: rest) receiver (some (.error (mapSocketError error))) armed
  | matched {turn : ReadTurn} {rest : List ReadTurn} {receiver armed : RawReceiver} {data : List UInt8} {len : Nat}
      (ready : receiver.rearm deadline turn = .ok armed) (read : turn.read = .ok data)
      (passes : Passes receiver data len) :
      Reading deadline (turn :: rest) receiver (some (.ok (some (data.take len)))) armed
  | skipped {turn : ReadTurn} {rest : List ReadTurn} {receiver armed final : RawReceiver} {data : List UInt8}
      {result : Option (Except SocketError (Option (List UInt8)))} (ready : receiver.rearm deadline turn = .ok armed)
      (read : turn.read = .ok data) (rejects : Rejects receiver data)
      (more : Reading deadline rest armed result final) : Reading deadline (turn :: rest) receiver result final

private theorem rearm_filters {receiver armed : RawReceiver} {deadline : Option Nat} {turn : ReadTurn}
    (ready : receiver.rearm deadline turn = .ok armed) : armed = { receiver with readTimeout := armed.readTimeout } := by
  cases deadline with
  | none =>
    cases ready
    rfl
  | some deadline =>
    unfold RawReceiver.rearm at ready
    dsimp only at ready
    split at ready
    · cases ready
    · split at ready
      · cases ready
      · cases ready
        rfl

private theorem recvWithDeadline_reading (deadline : Option Nat) (turns : List ReadTurn) (receiver : RawReceiver) :
    ∃ result final, RawReceiver.recvWithDeadline deadline turns receiver = .ok (result, final) ∧
      Reading deadline turns receiver result final := by
  induction turns generalizing receiver with
  | nil => exact ⟨none, receiver, rfl, .waiting⟩
  | cons turn rest ih =>
    unfold RawReceiver.recvWithDeadline
    cases ready : receiver.rearm deadline turn with
    | error result => exact ⟨_, _, rfl, .ended ready⟩
    | ok armed =>
      dsimp only
      cases read : turn.read with
      | error error =>
        dsimp only
        by_cases timely : error.kind = .wouldBlock ∨ error.kind = .timedOut
        · rw [if_pos timely]
          exact ⟨_, _, rfl, .quiet ready read timely⟩
        · rw [if_neg timely]
          exact ⟨_, _, rfl, .broken ready read timely⟩
      | ok data =>
        have same := rearm_filters ready
        obtain ⟨verdict, decided⟩ := filterDatagram_total data receiver.dstPort receiver.srcPort receiver.ownSrc
        have asked : filterDatagram data armed.dstPort armed.srcPort armed.ownSrc = .ok verdict := by rw [same, decided]
        dsimp only
        rw [asked, Checked.ok_bind]
        cases verdict with
        | deliver len =>
          have passes : Passes receiver data len := decided
          dsimp only
          rw [passes.slice]
          exact ⟨_, _, rfl, .matched ready read passes⟩
        | filtered =>
          obtain ⟨result, final, executed, reading⟩ := ih armed
          exact ⟨result, final, executed, .skipped ready read decided reading⟩

/-- A datagram the loop returns was read in one of its turns and passed the filters. -/
theorem Reading.taken {deadline : Option Nat} {turns : List ReadTurn} {receiver final : RawReceiver}
    {result : Option (Except SocketError (Option (List UInt8)))} {datagram : List UInt8}
    (reading : Reading deadline turns receiver result final) (returned : result = some (.ok (some datagram))) :
    ∃ turn ∈ turns, ∃ data len, turn.read = .ok data ∧ Passes receiver data len ∧ datagram = data.take len := by
  induction reading with
  | waiting => cases returned
  | @ended turn rest receiver result stopped =>
    -- only a datagram that was read is returned as one
    cases returned
    unfold RawReceiver.rearm at stopped
    split at stopped
    · cases stopped
    · dsimp only at stopped
      split at stopped
      · cases stopped
      · split at stopped <;> cases stopped
  | quiet => cases returned
  | broken => cases returned
  | matched ready read passes =>
    cases returned
    exact ⟨_, List.mem_cons_self, _, _, read, passes, rfl⟩
  | skipped ready _ _ _ ih =>
    obtain ⟨turn, member, data, len, read, passes, rfl⟩ := ih returned
    refine ⟨turn, List.mem_cons_of_mem _ member, data, len, read, ?_, rfl⟩
    rw [rearm_filters ready] at passes
    exact passes

/-- A receive call never faults, and a datagram it returns was read and passed the filters. -/
theorem recv_taken (receiver : RawReceiver) (call : ReceiveCall) :
    ∃ result final, receiver.recv call = .ok (result, final) ∧
      ∀ datagram, result = some (.ok (some datagram)) →
        ∃ turn ∈ call.turns, ∃ data len, turn.read = .ok data ∧ Passes receiver data len ∧ datagram = data.take len := by
  unfold RawReceiver.recv
  cases call.queried with
  | error error => exact ⟨_, _, rfl, nofun⟩
  | ok =>
    dsimp only
    cases RawReceiver.deadlineOf call.begun receiver.readTimeout with
    | none =>
      obtain ⟨result, final, executed, reading⟩ := recvWithDeadline_reading none call.turns receiver
      exact ⟨result, final, executed, fun datagram returned => reading.taken returned⟩
    | some deadline =>
      obtain ⟨result, final, executed, reading⟩ := recvWithDeadline_reading (some deadline) call.turns receiver
      dsimp only
      rw [executed, Checked.ok_bind]
      cases result with
      | none => exact ⟨_, _, rfl, nofun⟩
      | some result =>
        cases result with
        | error error => cases call.restored <;> exact ⟨_, _, rfl, nofun⟩
        | ok value =>
          cases call.restored with
          | error error => exact ⟨_, _, rfl, nofun⟩
          | ok =>
            refine ⟨_, _, rfl, ?_⟩
            intro datagram returned
            cases returned
            exact reading.taken rfl

/-! A sequence of calls on one socket. The loop shrinks the timeout of the socket
towards its deadline and puts it back; seen from outside, every call waits for its own
full timeout and answers with the first turn that decides it. -/

/-- What the read of one turn decides: a datagram the filters reject decides nothing. -/
def decision (receiver : RawReceiver) (turn : ReadTurn) : Option (Except SocketError (Option (List UInt8))) :=
  match turn.read with
  | .error error =>
    if error.kind = .wouldBlock ∨ error.kind = .timedOut then some (.ok none)
    else some (.error (mapSocketError error))
  | .ok data =>
    match filterDatagram data receiver.dstPort receiver.srcPort receiver.ownSrc with
    | .ok (.deliver len) => some (.ok (some (data.take len)))
    | _ => none

def timedDecision (receiver : RawReceiver) (turn : ReadTurn) : Option (Except SocketError (Option (List UInt8))) :=
  match turn.armed with
  | .error error => some (.error (mapSocketError error))
  | .ok () => decision receiver turn

/-- The first decision of the turns before the deadline, or nothing once the deadline has passed. -/
def timedAnswer (receiver : RawReceiver) (deadline : Nat) (turns : List ReadTurn) :
    Option (Except SocketError (Option (List UInt8))) :=
  ((turns.takeWhile fun turn => turn.instant < deadline).findSome? (timedDecision receiver)).or
    (if turns.all fun turn => turn.instant < deadline then none else some (.ok none))

/-- The answer of a call. Without a result it is still waiting. -/
def answer (receiver : RawReceiver) (call : ReceiveCall) : Option (Except SocketError (Option (List UInt8))) :=
  match call.queried with
  | .error error => some (.error (mapSocketError error))
  | .ok () =>
    match RawReceiver.deadlineOf call.begun receiver.readTimeout with
    | none => call.turns.findSome? (decision receiver)
    | some deadline => timedAnswer receiver deadline call.turns

private theorem decision_rejected {receiver : RawReceiver} {turn : ReadTurn} {data : List UInt8}
    (read : turn.read = .ok data) (rejects : Rejects receiver data) : decision receiver turn = none := by
  unfold decision
  rw [read]
  dsimp only
  rw [rejects]

private theorem decision_passed {receiver : RawReceiver} {turn : ReadTurn} {data : List UInt8} {len : Nat}
    (read : turn.read = .ok data) (passes : Passes receiver data len) :
    decision receiver turn = some (.ok (some (data.take len))) := by
  unfold decision
  rw [read]
  dsimp only
  rw [passes]

private theorem decision_quiet {receiver : RawReceiver} {turn : ReadTurn} {error : IoError}
    (failed : turn.read = .error error)
    (timely : error.kind = .wouldBlock ∨ error.kind = .timedOut) : decision receiver turn = some (.ok none) := by
  unfold decision
  rw [failed]
  exact if_pos timely

private theorem decision_broken {receiver : RawReceiver} {turn : ReadTurn} {error : IoError}
    (failed : turn.read = .error error) (other : ¬ (error.kind = .wouldBlock ∨ error.kind = .timedOut)) :
    decision receiver turn = some (.error (mapSocketError error)) := by
  unfold decision
  rw [failed]
  exact if_neg other

private theorem decision_rearmed {receiver armed : RawReceiver} {deadline : Option Nat} {turn : ReadTurn}
    (ready : receiver.rearm deadline turn = .ok armed) : decision armed = decision receiver := by
  rw [rearm_filters ready]
  rfl

private theorem timedDecision_rearmed {receiver armed : RawReceiver} {deadline : Option Nat} {turn : ReadTurn}
    (ready : receiver.rearm deadline turn = .ok armed) : timedDecision armed = timedDecision receiver := by
  funext later
  unfold timedDecision
  rw [decision_rearmed ready]

/-- The head of a timed turn: it ends the call at the deadline, and arms the timeout before it. -/
theorem rearm_timed (receiver : RawReceiver) (deadline : Nat) (turn : ReadTurn) :
    (deadline ≤ turn.instant ∧ receiver.rearm (some deadline) turn = .error (.ok none)) ∨
      (turn.instant < deadline ∧ ∃ error, turn.armed = .error error ∧
        receiver.rearm (some deadline) turn = .error (.error (mapSocketError error))) ∨
      (turn.instant < deadline ∧ turn.armed = .ok () ∧ ∃ armed, receiver.rearm (some deadline) turn = .ok armed) := by
  unfold RawReceiver.rearm
  dsimp only
  by_cases passed : deadline - turn.instant = 0
  · exact .inl ⟨Nat.le_of_sub_eq_zero passed, if_pos passed⟩
  · rw [if_neg passed]
    have early : turn.instant < deadline := Nat.lt_of_sub_ne_zero passed
    cases armed : turn.armed with
    | error error => exact .inr (.inl ⟨early, error, rfl, rfl⟩)
    | ok => exact .inr (.inr ⟨early, rfl, _, rfl⟩)

private theorem timedAnswer_late {receiver : RawReceiver} {deadline : Nat} {turn : ReadTurn} (rest : List ReadTurn)
    (late : deadline ≤ turn.instant) : timedAnswer receiver deadline (turn :: rest) = some (.ok none) := by
  have passed : ¬ turn.instant < deadline := Nat.not_lt_of_le late
  simp [timedAnswer, passed]

private theorem timedAnswer_early {receiver : RawReceiver} {deadline : Nat} {turn : ReadTurn} (rest : List ReadTurn)
    (early : turn.instant < deadline) :
    timedAnswer receiver deadline (turn :: rest) =
      (timedDecision receiver turn).or (timedAnswer receiver deadline rest) := by
  cases decided : timedDecision receiver turn <;> simp [timedAnswer, early, decided]

private theorem timedAnswer_ready {receiver armed : RawReceiver} {deadline : Nat} {turn : ReadTurn}
    (rest : List ReadTurn) (ready : receiver.rearm (some deadline) turn = .ok armed) :
    timedAnswer receiver deadline (turn :: rest) =
      (decision receiver turn).or (timedAnswer receiver deadline rest) := by
  rcases rearm_timed receiver deadline turn with ⟨_, ends⟩ | ⟨_, _, _, ends⟩ | ⟨early, set, _, _⟩
  · cases ends.symm.trans ready
  · cases ends.symm.trans ready
  · rw [timedAnswer_early rest early, timedDecision, set]

theorem Reading.timed {deadline : Nat} {turns : List ReadTurn} {receiver final : RawReceiver}
    {result : Option (Except SocketError (Option (List UInt8)))}
    (reading : Reading (some deadline) turns receiver result final) :
    result = timedAnswer receiver deadline turns ∧ final = { receiver with readTimeout := final.readTimeout } := by
  induction reading with
  | waiting => exact ⟨rfl, rfl⟩
  | @ended turn rest receiver result stopped =>
    refine ⟨?_, rfl⟩
    rcases rearm_timed receiver deadline turn with ⟨late, ends⟩ | ⟨early, error, unarmed, ends⟩ | ⟨_, _, armed, ready⟩
    · cases ends.symm.trans stopped
      exact (timedAnswer_late rest late).symm
    · cases ends.symm.trans stopped
      rw [timedAnswer_early rest early, timedDecision, unarmed]
      rfl
    · cases ready.symm.trans stopped
  | quiet ready failed timely =>
    refine ⟨?_, rearm_filters ready⟩
    rw [timedAnswer_ready _ ready, decision_quiet failed timely]
    rfl
  | broken ready failed other =>
    refine ⟨?_, rearm_filters ready⟩
    rw [timedAnswer_ready _ ready, decision_broken failed other]
    rfl
  | matched ready read passes =>
    refine ⟨?_, rearm_filters ready⟩
    rw [timedAnswer_ready _ ready, decision_passed read passes]
    rfl
  | skipped ready read rejects _ ih =>
    obtain ⟨found, unfiltered⟩ := ih
    refine ⟨?_, ?_⟩
    · rw [timedAnswer_ready _ ready, decision_rejected read rejects, found, timedAnswer, timedDecision_rearmed ready]
      rfl
    · rw [unfiltered, rearm_filters ready]

end UdpOptions.Proofs
