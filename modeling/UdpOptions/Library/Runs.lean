import UdpOptions.Library.Checked

/-! Runs of a state machine that may fault. A step takes an input and a state and
returns an output with the next state; a run threads the state through a list of
inputs. A machine that never faults is described by its pure trace, and an
invariant of one step is an invariant of every run. -/

namespace UdpOptions.Library

variable {σ ι ο : Type}

def run (step : ι → σ → Checked (ο × σ)) : List ι → σ → Checked (List ο × σ)
  | [], state => .ok ([], state)
  | input :: rest, state => do
    let (output, state) ← step input state
    let (outputs, state) ← run step rest state
    return (output :: outputs, state)

def trace (step : ι → σ → ο × σ) : List ι → σ → List ο × σ
  | [], state => ([], state)
  | input :: rest, state =>
    let (output, state) := step input state
    let (outputs, state) := trace step rest state
    (output :: outputs, state)

/-- Every step of the run is taken in a state that satisfies the condition. -/
def Throughout (step : ι → σ → ο × σ) (condition : ι → σ → Prop) : List ι → σ → Prop
  | [], _ => True
  | input :: rest, state => condition input state ∧ Throughout step condition rest (step input state).2

variable {step : ι → σ → ο × σ}

@[simp] theorem trace_cons (input : ι) (rest : List ι) (state : σ) :
    trace step (input :: rest) state =
      ((step input state).1 :: (trace step rest (step input state).2).1, (trace step rest (step input state).2).2) :=
  rfl

theorem run_eq_trace {checked : ι → σ → Checked (ο × σ)}
    (total : ∀ input state, checked input state = .ok (step input state)) (inputs : List ι) (state : σ) :
    run checked inputs state = .ok (trace step inputs state) := by
  induction inputs generalizing state with
  | nil => rfl
  | cons input rest ih => simp [run, total, ih]

/-- A run that does not fault takes its first step and goes on from there. -/
theorem run_cons_eq_ok {checked : ι → σ → Checked (ο × σ)} {input : ι} {rest : List ι} {state final : σ}
    {outputs : List ο} :
    run checked (input :: rest) state = .ok (outputs, final) ↔
      ∃ output middle remaining, checked input state = .ok (output, middle) ∧
        run checked rest middle = .ok (remaining, final) ∧ outputs = output :: remaining := by
  rw [run]
  constructor
  · intro executed
    obtain ⟨⟨output, middle⟩, first, later⟩ := Checked.bind_eq_ok.mp executed
    obtain ⟨⟨remaining, last⟩, second, done⟩ := Checked.bind_eq_ok.mp later
    cases done
    exact ⟨output, middle, remaining, first, second, rfl⟩
  · intro steps
    obtain ⟨output, middle, remaining, first, second, rfl⟩ := steps
    simp only [first, second, Checked.ok_bind]
    rfl

/-- Two machines that agree on every step with an expected output agree on runs with such outputs. -/
theorem run_map {κ π : Type} {checked : ι → σ → Checked (ο × σ)} (other : κ → σ → Checked (π × σ)) (encode : ι → κ)
    (decode : ο → π) (expected : ο → Prop) {inputs : List ι}
    (agree : ∀ input ∈ inputs, ∀ state output next, expected output → checked input state = .ok (output, next) →
      other (encode input) state = .ok (decode output, next)) {state : σ} {outputs : List ο} {final : σ}
    (executed : run checked inputs state = .ok (outputs, final)) (known : ∀ output ∈ outputs, expected output) :
    run other (inputs.map encode) state = .ok (outputs.map decode, final) := by
  induction inputs generalizing state outputs with
  | nil =>
    cases executed
    rfl
  | cons input rest ih =>
    obtain ⟨output, middle, remaining, first, second, rfl⟩ := run_cons_eq_ok.mp executed
    obtain ⟨wanted, wantedLater⟩ := List.forall_mem_cons.mp known
    have followed := ih (fun next listed => agree next (List.mem_cons_of_mem _ listed)) second wantedLater
    exact run_cons_eq_ok.mpr ⟨_, middle, _, agree input (by simp) state output middle wanted first, followed, rfl⟩

/-- A run over two lists of inputs is one run after the other. -/
theorem run_append (checked : ι → σ → Checked (ο × σ)) (inputs later : List ι) (state : σ) :
    run checked (inputs ++ later) state = do
      let (outputs, middle) ← run checked inputs state
      let (others, final) ← run checked later middle
      return (outputs ++ others, final) := by
  induction inputs generalizing state with
  | nil =>
    rw [List.nil_append, run]
    simp only [Checked.ok_bind]
    cases run checked later state <;> rfl
  | cons input rest ih =>
    rw [List.cons_append, run, run]
    simp only [ih, bind_assoc, pure_bind, List.cons_append]

/-- A run ends with the step for its last input. -/
theorem run_concat (checked : ι → σ → Checked (ο × σ)) (inputs : List ι) (last : ι) (state : σ) :
    run checked (inputs ++ [last]) state = do
      let (outputs, middle) ← run checked inputs state
      let (output, final) ← checked last middle
      return (outputs ++ [output], final) := by
  rw [run_append]
  simp only [run, Checked.ok_bind, bind_assoc, pure_bind]

/-- What every step that does not fault keeps, a run that does not fault keeps. -/
theorem run_invariant {checked : ι → σ → Checked (ο × σ)} (invariant : σ → Prop)
    (preserved : ∀ input state output next, checked input state = .ok (output, next) → invariant state → invariant next)
    {inputs : List ι} {state final : σ} {outputs : List ο} (executed : run checked inputs state = .ok (outputs, final))
    (initially : invariant state) : invariant final := by
  induction inputs generalizing state outputs with
  | nil =>
    cases executed
    exact initially
  | cons input rest ih =>
    obtain ⟨output, middle, remaining, first, second, rfl⟩ := run_cons_eq_ok.mp executed
    exact ih second (preserved input state output middle first initially)

theorem run_total {checked : ι → σ → Checked (ο × σ)}
    (total : ∀ input state, ∃ output next, checked input state = .ok (output, next)) (inputs : List ι) (state : σ) :
    ∃ outputs final, run checked inputs state = .ok (outputs, final) := by
  induction inputs generalizing state with
  | nil => exact ⟨[], state, rfl⟩
  | cons input rest ih =>
    obtain ⟨output, middle, first⟩ := total input state
    obtain ⟨outputs, final, later⟩ := ih middle
    exact ⟨output :: outputs, final, run_cons_eq_ok.mpr ⟨output, middle, outputs, first, later, rfl⟩⟩

/-- Each output of a run is that of a step in a state that satisfies the invariant. -/
theorem run_steps {checked : ι → σ → Checked (ο × σ)} (invariant : σ → Prop)
    (preserved : ∀ input state output next, checked input state = .ok (output, next) → invariant state → invariant next)
    {inputs : List ι} {state final : σ} {outputs : List ο} (executed : run checked inputs state = .ok (outputs, final))
    (initially : invariant state) :
    ∀ output ∈ outputs, ∃ input before after, invariant before ∧ checked input before = .ok (output, after) := by
  induction inputs generalizing state outputs with
  | nil =>
    cases executed
    exact nofun
  | cons input rest ih =>
    obtain ⟨output, middle, remaining, first, second, rfl⟩ := run_cons_eq_ok.mp executed
    intro other member
    rcases List.mem_cons.mp member with rfl | listed
    · exact ⟨input, state, middle, initially, first⟩
    · exact ih second (preserved input state output middle first initially) other listed

/-- Outputs that name their inputs list the inputs of the run. -/
theorem run_inputs {checked : ι → σ → Checked (ο × σ)} {name : ο → ι}
    (named : ∀ input state output next, checked input state = .ok (output, next) → name output = input)
    {inputs : List ι} {state final : σ} {outputs : List ο} (executed : run checked inputs state = .ok (outputs, final)) :
    outputs.map name = inputs := by
  induction inputs generalizing state outputs with
  | nil =>
    cases executed
    rfl
  | cons input rest ih =>
    obtain ⟨output, middle, remaining, first, second, rfl⟩ := run_cons_eq_ok.mp executed
    rw [List.map_cons, named input state output middle first, ih second]

/-- What an earlier output says of the state, if every step keeps it, relates that output to all later ones. -/
theorem run_pairwise {checked : ι → σ → Checked (ο × σ)} (mark : ο → σ → Prop) {related : ο → ο → Prop}
    (marked : ∀ input state output next, checked input state = .ok (output, next) → mark output next)
    (kept : ∀ input state output next, checked input state = .ok (output, next) →
      ∀ earlier, mark earlier state → mark earlier next ∧ related earlier output)
    {inputs : List ι} {state final : σ} {outputs : List ο} (executed : run checked inputs state = .ok (outputs, final)) :
    outputs.Pairwise related ∧ ∀ earlier, mark earlier state → ∀ output ∈ outputs, related earlier output := by
  induction inputs generalizing state outputs with
  | nil =>
    cases executed
    exact ⟨.nil, nofun⟩
  | cons input rest ih =>
    obtain ⟨output, middle, remaining, first, second, rfl⟩ := run_cons_eq_ok.mp executed
    obtain ⟨pairwise, onward⟩ := ih second
    refine ⟨.cons (onward output (marked input state output middle first)) pairwise, ?_⟩
    intro earlier holds other member
    obtain ⟨holdsNext, now⟩ := kept input state output middle first earlier holds
    rcases List.mem_cons.mp member with rfl | listed
    · exact now
    · exact onward earlier holdsNext other listed

/-- What every step that does not fault keeps true of the outputs so far and the state holds
before each output of a run. -/
theorem run_history {checked : ι → σ → Checked (ο × σ)} (history : List ο → σ → Prop)
    (extended : ∀ earlier input state output next, history earlier state → checked input state = .ok (output, next) →
      history (earlier ++ [output]) next)
    {inputs : List ι} {state final : σ} {outputs : List ο} (executed : run checked inputs state = .ok (outputs, final))
    (earlier : List ο) (initially : history earlier state) {before after : List ο} {output : ο}
    (listed : outputs = before ++ output :: after) :
    ∃ input middle next, history (earlier ++ before) middle ∧ checked input middle = .ok (output, next) := by
  induction inputs generalizing state outputs earlier before with
  | nil =>
    cases executed
    exact absurd listed (by simp)
  | cons input rest ih =>
    obtain ⟨first, middle, remaining, taken, second, rfl⟩ := run_cons_eq_ok.mp executed
    cases before with
    | nil =>
      cases listed
      exact ⟨input, state, middle, by rwa [List.append_nil], taken⟩
    | cons head others =>
      obtain ⟨rfl, later⟩ := List.cons.inj listed
      have found := ih second _ (extended earlier input state first middle initially taken) later
      rwa [List.append_assoc, List.singleton_append] at found

/-- An invariant of every step is an invariant of every run. -/
theorem trace_invariant (invariant : σ → Prop)
    (preserved : ∀ input state, invariant state → invariant (step input state).2) (inputs : List ι) {state : σ}
    (initially : invariant state) : invariant (trace step inputs state).2 := by
  induction inputs generalizing state with
  | nil => exact initially
  | cons input rest ih => exact ih (preserved input state initially)

end UdpOptions.Library
