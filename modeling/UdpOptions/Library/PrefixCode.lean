import Mathlib.Data.List.Basic

/-! Codes whose texts are cut into code words in one way only: the front of a text
decides which code word stands there. -/

namespace UdpOptions.Library

variable {α β : Type} {valid : α → Prop} {encode : α → List β}

variable (valid encode) in
/-- Two code words at the front of one text are the same, and so is what follows. -/
structure PrefixCode : Prop where
  cancel : ∀ {first second : α} {rest other : List β}, valid first → valid second →
    encode first ++ rest = encode second ++ other → first = second ∧ rest = other

variable (valid encode) in
/-- No code word stands at the front of the text. -/
def Stuck (text : List β) : Prop := ∀ symbol rest, valid symbol → text ≠ encode symbol ++ rest

variable {symbols others : List α} {rest tail : List β}

/-- Cutting as long as there is a code word gives the longest row of code words. -/
theorem PrefixCode.longest (code : PrefixCode valid encode) (proper : ∀ symbol ∈ symbols, valid symbol)
    (otherProper : ∀ symbol ∈ others, valid symbol)
    (same : symbols.flatMap encode ++ rest = others.flatMap encode ++ tail) (stuck : Stuck valid encode rest) :
    ∃ more, symbols = others ++ more ∧ tail = more.flatMap encode ++ rest := by
  induction others generalizing symbols with
  | nil => exact ⟨symbols, rfl, same.symm⟩
  | cons other others ih =>
    have otherValid := otherProper other List.mem_cons_self
    rw [List.flatMap_cons, List.append_assoc] at same
    cases symbols with
    | nil => exact absurd same (stuck other _ otherValid)
    | cons symbol symbols =>
      rw [List.flatMap_cons, List.append_assoc] at same
      obtain ⟨rfl, later⟩ := code.cancel (proper symbol List.mem_cons_self) otherValid same
      obtain ⟨more, rfl, ending⟩ := ih (fun symbol member => proper symbol (List.mem_cons_of_mem _ member))
        (fun symbol member => otherProper symbol (List.mem_cons_of_mem _ member)) later
      exact ⟨more, rfl, ending⟩

theorem PrefixCode.unique (code : PrefixCode valid encode) (proper : ∀ symbol ∈ symbols, valid symbol)
    (otherProper : ∀ symbol ∈ others, valid symbol)
    (same : symbols.flatMap encode ++ rest = others.flatMap encode ++ tail) (stuck : Stuck valid encode rest)
    (otherStuck : Stuck valid encode tail) : symbols = others ∧ rest = tail := by
  obtain ⟨more, rfl, ending⟩ := code.longest proper otherProper same stuck
  cases more with
  | nil =>
    rw [List.append_nil]
    exact ⟨rfl, ending.symm⟩
  | cons symbol more =>
    rw [List.flatMap_cons, List.append_assoc] at ending
    exact absurd ending (otherStuck symbol _ (proper symbol (by simp)))

end UdpOptions.Library
