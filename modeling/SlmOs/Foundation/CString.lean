import Mathlib

/-!
# Strings in buffers

A buffer is a function from positions to bytes.  A string without zero bytes is
written into it byte by byte and ended with a zero, and it is read back by stopping
at the first zero.
-/

namespace SlmOs.Foundation

abbrev Byte := BitVec 8

/-- The first `n` bytes of the text are in the buffer. -/
def Written (buf : Nat → Byte) (text : List Byte) (n : Nat) : Prop :=
  ∀ i, i < n → text[i]? = some (buf i)

def HoldsText (buf : Nat → Byte) (text : List Byte) : Prop :=
  Written buf text text.length ∧ buf text.length = 0#8

section

variable {buf : Nat → Byte}

@[simp] theorem written_zero : Written buf text 0 := by
  simp [Written]

theorem Written.next (h : Written buf text n)
    (hc : text[n]? = some c) : Written (Function.update buf n c) text (n + 1) := by
  intro i hi
  by_cases hin : i = n
  · simp [hin, hc]
  · simp [hin, h i (by omega)]

theorem Written.finish (h : Written buf text n) (hn : text[n]? = none) :
    HoldsText (Function.update buf n 0#8) text := by
  have hle : text.length ≤ n := by simpa using hn
  have hge : n ≤ text.length := by
    by_contra hlt
    simpa using h text.length (by omega)
  obtain rfl : n = text.length := by omega
  refine ⟨fun i hi => ?_, by simp⟩
  have hne : i ≠ text.length := by omega
  simp [hne, h i hi]

theorem HoldsText.stop (h : HoldsText buf text) (htext : 0#8 ∉ text)
    (hn : n ≤ text.length) (hzero : buf n = 0#8) : text.take n = text := by
  by_contra hne
  have hlt : n < text.length := by
    by_contra hge
    exact hne (List.take_of_length_le (by omega))
  have hmem := h.1 n hlt
  rw [hzero] at hmem
  exact htext (List.mem_of_getElem? hmem)

theorem HoldsText.next (h : HoldsText buf text) (hn : n ≤ text.length) (hne : buf n ≠ 0#8) :
    n < text.length ∧ text.take n ++ [buf n] = text.take (n + 1) := by
  have hlt : n < text.length := by
    by_contra hge
    obtain rfl : n = text.length := by omega
    exact hne h.2
  refine ⟨hlt, ?_⟩
  have hget := h.1 n hlt
  rw [List.take_add_one, hget]
  rfl

end

end SlmOs.Foundation
