import Mathlib

/-!
# Fields of a word

A mask selects bits of a word. Setting and clearing the bits of one mask leaves the field of a
disjoint mask as it is.
-/

namespace Masks

variable {w : ℕ} {x m bits : BitVec w}

lemma or_and_of_disjoint (h : bits &&& m = 0#w) : (x ||| bits) &&& m = x &&& m := by
  rw [BitVec.and_or_distrib_right, h, BitVec.or_zero]

lemma and_not_and_of_disjoint (h : bits &&& m = 0#w) : x &&& ~~~bits &&& m = x &&& m := by
  have hkeep : ~~~bits &&& m = m := by
    ext i hi
    have hbit : (bits &&& m)[i] = (0#w)[i] := by rw [h]
    rw [BitVec.getElem_and, BitVec.getElem_zero] at hbit
    rw [BitVec.getElem_and, BitVec.getElem_not]
    revert hbit
    cases bits[i] <;> cases m[i] <;> simp
  rw [BitVec.and_assoc, hkeep]

lemma and_and_eq_zero (x : BitVec w) (h : bits &&& m = 0#w) : x &&& bits &&& m = 0#w := by
  rw [BitVec.and_assoc, h, BitVec.and_zero]

lemma or_and_ne_zero_left (h : x &&& m ≠ 0#w) (bits : BitVec w) : (x ||| bits) &&& m ≠ 0#w := by
  rw [BitVec.and_or_distrib_right]
  exact fun hzero => h (BitVec.or_eq_zero_iff.mp hzero).1

lemma or_and_ne_zero_right (h : bits &&& m ≠ 0#w) (x : BitVec w) : (x ||| bits) &&& m ≠ 0#w := by
  rw [BitVec.or_comm]
  exact or_and_ne_zero_left h x

/-- A word inside a mask stays inside it when bits are cleared. -/
lemma and_not_and_of_and_eq {word : BitVec w} (h : word &&& m = x) (bits : BitVec w) :
    x &&& ~~~bits &&& m = x &&& ~~~bits := by
  rw [← h, BitVec.and_assoc (word &&& m), BitVec.and_comm (~~~bits), ← BitVec.and_assoc,
    BitVec.and_assoc word, BitVec.and_self]

/-- A word inside a mask stays inside it when bits of the mask are set. -/
lemma or_and_of_and_eq {word : BitVec w} (h : word &&& m = x) (hbits : bits &&& m = bits) :
    (x ||| bits) &&& m = x ||| bits := by
  rw [BitVec.and_or_distrib_right, hbits, ← h, BitVec.and_assoc, BitVec.and_self]

end Masks
