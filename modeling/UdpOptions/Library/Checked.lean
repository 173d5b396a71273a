import Mathlib.Algebra.Group.Nat.Defs
import Mathlib.Data.List.Basic

/-! Computations that may stop without returning. Every partial operation of the
modelled language is explicit: an index, a slice, an assertion, a subtraction,
and a narrowing cast each name the fault they raise, so the absence of faults is
an equation about the result and not a remark about the model. -/

namespace UdpOptions.Library

inductive Panic where
  | indexOutOfBounds
  | sliceOutOfRange
  | assertionFailed
  | expectFailed
  | subtractionOverflow
  | lossyCast
  | copyLengthMismatch
  | diverged
  deriving DecidableEq, Repr

abbrev Checked (α : Type) : Type := Except Panic α

namespace Checked

def index {α : Type} (items : List α) (position : Nat) : Checked α :=
  match items[position]? with
  | some item => .ok item
  | none => .error .indexOutOfBounds

def slice {α : Type} (items : List α) (start stop : Nat) : Checked (List α) :=
  if start ≤ stop ∧ stop ≤ items.length then .ok ((items.take stop).drop start)
  else .error .sliceOutOfRange

/-- The non-faulting counterpart of `slice`. -/
def slice? {α : Type} (items : List α) (start stop : Nat) : Option (List α) :=
  if start ≤ stop ∧ stop ≤ items.length then some ((items.take stop).drop start) else none

def require (condition : Prop) [Decidable condition] : Checked Unit :=
  if condition then .ok () else .error .assertionFailed

def expect {α : Type} : Option α → Checked α
  | some value => .ok value
  | none => .error .expectFailed

def sub (first second : Nat) : Checked Nat :=
  if second ≤ first then .ok (first - second) else .error .subtractionOverflow

/-- A cast to sixteen bits that must not lose information. -/
def castU16 (value : Nat) : Checked UInt16 :=
  if value < 2 ^ 16 then .ok (UInt16.ofNat value) else .error .lossyCast

/-- Overwrite `start..stop` of a buffer with a source of exactly that length. -/
def copyInto {α : Type} (buffer : List α) (start stop : Nat) (source : List α) : Checked (List α) :=
  if start ≤ stop ∧ stop ≤ buffer.length then
    if source.length = stop - start then .ok (buffer.take start ++ source ++ buffer.drop stop)
    else .error .copyLengthMismatch
  else .error .sliceOutOfRange

section Rules
variable {α β : Type}

@[simp] theorem ok_bind (value : α) (next : α → Checked β) : ((.ok value : Checked α) >>= next) = next value := rfl

@[simp] theorem pure_eq (value : α) : (pure value : Checked α) = .ok value := rfl

theorem bind_eq_ok {ε : Type} {action : Except ε α} {next : α → Except ε β} {result : β} :
    (action >>= next) = .ok result ↔ ∃ value, action = .ok value ∧ next value = .ok result := by
  cases action with
  | error fault =>
    constructor
    · intro impossible; cases impossible
    · rintro ⟨_, impossible, _⟩; cases impossible
  | ok value =>
    constructor
    · intro equal; exact ⟨value, rfl, equal⟩
    · rintro ⟨_, same, equal⟩; cases same; exact equal

theorem index_of_lt {items : List α} {position : Nat} (inside : position < items.length) :
    index items position = .ok items[position] := by
  simp [index, List.getElem?_eq_getElem inside]

/-- The computation returns, and its value has the property. -/
def Returns (action : Checked α) (post : α → Prop) : Prop := ∃ value, action = .ok value ∧ post value

theorem Returns.ok {value : α} {post : α → Prop} (holds : post value) : Returns (.ok value) post := ⟨value, rfl, holds⟩

theorem Returns.index {items : List α} {position : Nat} (inside : position < items.length) :
    Returns (index items position) fun _ => True := ⟨_, index_of_lt inside, trivial⟩

theorem Returns.bind {action : Checked α} {next : α → Checked β} {between : α → Prop} {post : β → Prop}
    (first : Returns action between) (later : ∀ value, between value → Returns (next value) post) :
    Returns (action >>= next) post := by
  obtain ⟨value, returned, holds⟩ := first
  rw [returned]
  exact later value holds

/-- A test with an early return. -/
theorem Returns.guard {condition : Prop} [Decidable condition] {value : α} {rest : Checked α} {post : α → Prop}
    (early : condition → post value) (later : ¬ condition → Returns rest post) :
    Returns (if condition then pure value else rest) post := by
  by_cases holds : condition
  · rw [if_pos holds]
    exact .ok (early holds)
  · rw [if_neg holds]
    exact later holds

theorem slice_of_le {items : List α} {start stop : Nat} (ordered : start ≤ stop) (inside : stop ≤ items.length) :
    slice items start stop = .ok ((items.take stop).drop start) := if_pos ⟨ordered, inside⟩

theorem slice?_of_le {items : List α} {start stop : Nat} (ordered : start ≤ stop) (inside : stop ≤ items.length) :
    slice? items start stop = some ((items.take stop).drop start) := if_pos ⟨ordered, inside⟩

theorem require_of {condition : Prop} [Decidable condition] (holds : condition) : require condition = .ok () :=
  if_pos holds

theorem sub_of_le {first second : Nat} (ordered : second ≤ first) : sub first second = .ok (first - second) :=
  if_pos ordered

theorem castU16_of_lt {value : Nat} (small : value < 2 ^ 16) : castU16 value = .ok (UInt16.ofNat value) :=
  if_pos small

theorem copyInto_of_le {buffer source : List α} {start stop : Nat} (ordered : start ≤ stop)
    (inside : stop ≤ buffer.length) (exactly : source.length = stop - start) :
    copyInto buffer start stop source = .ok (buffer.take start ++ source ++ buffer.drop stop) := by
  rw [copyInto, if_pos ⟨ordered, inside⟩, if_pos exactly]

theorem slice_middle {front middle back : List α} {start stop : Nat} (starts : start = front.length)
    (stops : stop = front.length + middle.length) : slice (front ++ (middle ++ back)) start stop = .ok middle := by
  subst starts stops
  rw [slice_of_le (Nat.le_add_right _ _) (by simp only [List.length_append]; omega), List.drop_take, List.drop_left,
    Nat.add_sub_cancel_left, List.take_left]

theorem slice_front {front back : List α} {stop : Nat} (stops : stop = front.length) :
    slice (front ++ back) 0 stop = .ok front := by
  subst stops
  rw [slice_of_le (Nat.zero_le _) (by simp only [List.length_append]; omega), List.drop_zero, List.take_left]

theorem copyInto_front {old back source : List α} {stop : Nat} (stops : stop = old.length)
    (same : source.length = old.length) : copyInto (old ++ back) 0 stop source = .ok (source ++ back) := by
  subst stops
  rw [copyInto_of_le (Nat.zero_le _) (by simp only [List.length_append]; omega) same, List.take_zero, List.drop_left,
    List.nil_append]

theorem copyInto_middle {front old back source : List α} {start stop : Nat} (starts : start = front.length)
    (stops : stop = front.length + old.length) (same : source.length = old.length) :
    copyInto (front ++ (old ++ back)) start stop source = .ok (front ++ (source ++ back)) := by
  subst starts stops
  have skipped : (front ++ (old ++ back)).drop (front.length + old.length) = back := by
    rw [← List.append_assoc, ← List.length_append, List.drop_left]
  rw [copyInto_of_le (Nat.le_add_right _ _) (by simp only [List.length_append]; omega) (by omega), List.take_left,
    skipped, List.append_assoc]

theorem copyInto_back {front old source : List α} {start stop : Nat} (starts : start = front.length)
    (stops : stop = front.length + old.length) (same : source.length = old.length) :
    copyInto (front ++ old) start stop source = .ok (front ++ source) := by
  have middle := @copyInto_middle α front old [] source start stop starts stops same
  rwa [List.append_nil, List.append_nil] at middle

end Rules

end Checked

/-- Addition on a machine word, as `checked_add` computes it. -/
def checkedAdd (first second : Nat) : Option Nat :=
  if first + second < 2 ^ 64 then some (first + second) else none

def checkedSub (first second : Nat) : Option Nat :=
  if second ≤ first then some (first - second) else none

def tryU16 (value : Nat) : Option UInt16 :=
  if value < 2 ^ 16 then some (UInt16.ofNat value) else none

theorem checkedAdd_of_lt {first second : Nat} (small : first + second < 2 ^ 64) :
    checkedAdd first second = some (first + second) := if_pos small

theorem checkedAdd_eq_some {first second sum : Nat} :
    checkedAdd first second = some sum ↔ first + second < 2 ^ 64 ∧ first + second = sum := by
  unfold checkedAdd
  split
  · simp only [Option.some.injEq]; omega
  · simp only [reduceCtorEq, false_iff]; omega

theorem checkedSub_of_le {first second : Nat} (ordered : second ≤ first) :
    checkedSub first second = some (first - second) := if_pos ordered

theorem checkedSub_eq_some {first second difference : Nat} :
    checkedSub first second = some difference ↔ second ≤ first ∧ first - second = difference := by
  unfold checkedSub
  split
  · simp only [Option.some.injEq]; omega
  · simp only [reduceCtorEq, false_iff]; omega

theorem checkedSub_eq_none {first second : Nat} : checkedSub first second = none ↔ first < second := by
  unfold checkedSub
  split
  · simp only [reduceCtorEq, false_iff]; omega
  · simp only [true_iff]; omega

theorem tryU16_of_lt {value : Nat} (small : value < 2 ^ 16) : tryU16 value = some (UInt16.ofNat value) :=
  if_pos small

theorem tryU16_eq_some {value : Nat} {word : UInt16} :
    tryU16 value = some word ↔ value = word.toNat := by
  have bound := word.toNat_lt
  unfold tryU16
  split
  next small =>
    simp only [Option.some.injEq]
    constructor
    · rintro rfl
      exact (UInt16.toNat_ofNat_of_lt' small).symm
    · rintro rfl
      exact UInt16.ofNat_toNat
  next large => simp only [reduceCtorEq, false_iff]; omega

end UdpOptions.Library
