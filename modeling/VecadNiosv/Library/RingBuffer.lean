import Mathlib

/-!
# Ring buffers

A ring of `n` slots holds the elements from the position `first` up to the position `stop`, around
the end of the ring. One slot always stays free, so that equal positions mean an empty ring. The
producer moves `stop` and the consumer moves `first`, each over the slots that it has dealt with.
-/

namespace RingBuffer

variable {α : Type*} {n first stop : ℕ}

def size (n first stop : ℕ) : ℕ := (stop + n - first) % n

/-- The elements held, the oldest first. -/
def contents (n : ℕ) (slots : ℕ → α) (first stop : ℕ) : List α :=
  (List.range (size n first stop)).map fun i => slots ((first + i) % n)

@[simp]
lemma length_contents (slots : ℕ → α) : (contents n slots first stop).length = size n first stop := by
  simp [contents]

lemma mod_eq_ite {a : ℕ} (ha : a < n + n) : a % n = if a < n then a else a - n := by
  split_ifs with h
  · exact Nat.mod_eq_of_lt h
  · rw [Nat.mod_eq_sub_mod (by omega), Nat.mod_eq_of_lt (by omega)]

lemma size_eq_ite (hf : first < n) (hs : stop < n) :
    size n first stop = if first ≤ stop then stop - first else stop + n - first := by
  rw [size, mod_eq_ite (by omega)]
  split_ifs <;> omega

lemma size_lt (hf : first < n) (hs : stop < n) : size n first stop < n := by
  rw [size_eq_ite hf hs]
  split_ifs <;> omega

lemma size_eq_zero_iff (hf : first < n) (hs : stop < n) : size n first stop = 0 ↔ first = stop := by
  rw [size_eq_ite hf hs]
  split_ifs <;> omega

lemma mod_lt_of_lt (hf : first < n) (a : ℕ) : a % n < n := Nat.mod_lt a (by omega)

lemma size_advance_stop (hf : first < n) (hs : stop < n) {k : ℕ} (hk : size n first stop + k < n) :
    size n first ((stop + k) % n) = size n first stop + k := by
  have hstop := mod_lt_of_lt hf (stop + k)
  rw [size_eq_ite hf hs] at hk ⊢
  rw [size_eq_ite hf hstop, mod_eq_ite (by omega)]
  split_ifs at hk ⊢ <;> omega

lemma size_advance_first (hf : first < n) (hs : stop < n) {k : ℕ} (hk : k ≤ size n first stop) :
    size n ((first + k) % n) stop = size n first stop - k := by
  have hfirst := mod_lt_of_lt hf (first + k)
  rw [size_eq_ite hf hs] at hk ⊢
  rw [size_eq_ite hfirst hs, mod_eq_ite (by split_ifs at hk <;> omega)]
  split_ifs at hk ⊢ <;> omega

/-- The producer's slots are free: the next to be written is full only for a full ring. -/
lemma full_iff (hf : first < n) (hs : stop < n) : (stop + 1) % n = first ↔
    size n first stop + 1 = n := by
  rw [size_eq_ite hf hs, mod_eq_ite (by omega)]
  split_ifs <;> omega

lemma contents_congr {slots slots' : ℕ → α}
    (h : ∀ i < size n first stop, slots' ((first + i) % n) = slots ((first + i) % n)) :
    contents n slots' first stop = contents n slots first stop := by
  unfold contents
  apply List.map_congr_left
  intro i hi
  exact h i (List.mem_range.mp hi)

/-- Slots beyond `stop` are not among those held. -/
lemma free_ne_held (hf : first < n) (hs : stop < n) {k i : ℕ} (hk : size n first stop + k < n)
    (hi : i < size n first stop) : (first + i) % n ≠ (stop + k) % n := by
  rw [size_eq_ite hf hs] at hk hi
  rw [mod_eq_ite (by split_ifs at hi <;> omega), mod_eq_ite (by split_ifs at hk <;> omega)]
  split_ifs at hk hi ⊢ <;> omega

lemma contents_update_free (hf : first < n) (hs : stop < n) {k : ℕ}
    (hk : size n first stop + k < n) (slots : ℕ → α) (a : α) :
    contents n (Function.update slots ((stop + k) % n) a) first stop =
      contents n slots first stop := by
  apply contents_congr
  intro i hi
  exact Function.update_of_ne (free_ne_held hf hs hk hi) a slots

/-- Moving `stop` appends the slots that it passes. -/
lemma contents_advance_stop (hf : first < n) (hs : stop < n) {k : ℕ}
    (hk : size n first stop + k < n) (slots : ℕ → α) :
    contents n slots first ((stop + k) % n) =
      contents n slots first stop ++ (List.range k).map fun i => slots ((stop + i) % n) := by
  have hslot : ∀ i, (first + (size n first stop + i)) % n = (stop + i) % n := by
    intro i
    rw [size_eq_ite hf hs]
    split_ifs with hle
    · congr 1
      omega
    · rw [show first + (stop + n - first + i) = stop + i + n by omega, Nat.add_mod_right]
  rw [contents, contents, size_advance_stop hf hs hk, List.range_add, List.map_append, List.map_map]
  congr 1
  apply List.map_congr_left
  intro i _
  exact congrArg slots (hslot i)

/-- Moving `first` drops the slots that it passes. -/
lemma contents_advance_first (hf : first < n) (hs : stop < n) {k : ℕ}
    (hk : k ≤ size n first stop) (slots : ℕ → α) :
    contents n slots ((first + k) % n) stop = (contents n slots first stop).drop k := by
  apply List.ext_getElem
  · rw [length_contents, size_advance_first hf hs hk, List.length_drop, length_contents]
  · intro i hi hi'
    simp only [contents, List.getElem_map, List.getElem_range, List.getElem_drop, Nat.mod_add_mod,
      Nat.add_assoc]

lemma contents_getElem? (slots : ℕ → α) {i : ℕ} (hi : i < size n first stop) :
    (contents n slots first stop)[i]? = some (slots ((first + i) % n)) := by
  rw [contents, List.getElem?_map, List.getElem?_range hi, Option.map_some]

lemma contents_push (hf : first < n) (hs : stop < n) (hfree : (stop + 1) % n ≠ first)
    (slots : ℕ → α) (a : α) :
    contents n (Function.update slots stop a) first ((stop + 1) % n) =
      contents n slots first stop ++ [a] := by
  have hroom : size n first stop + 1 < n := by
    have hlt := size_lt hf hs
    have hnot := mt (full_iff hf hs).mpr hfree
    omega
  have hkeep := contents_update_free hf hs (k := 0) (by omega) slots a
  rw [Nat.add_zero, Nat.mod_eq_of_lt hs] at hkeep
  rw [contents_advance_stop hf hs hroom, hkeep]
  simp [Nat.mod_eq_of_lt hs]

lemma contents_pop (hf : first < n) (hs : stop < n) (hne : first ≠ stop) (slots : ℕ → α) :
    contents n slots first stop = slots first :: contents n slots ((first + 1) % n) stop := by
  have hpos : 0 < size n first stop := Nat.pos_of_ne_zero (mt (size_eq_zero_iff hf hs).mp hne)
  have hhead := contents_getElem? slots hpos
  rw [Nat.add_zero, Nat.mod_eq_of_lt hf] at hhead
  rw [contents_advance_first hf hs hpos]
  cases hc : contents n slots first stop with
  | nil => simp [hc] at hhead
  | cons a l =>
    rw [hc, List.getElem?_cons_zero, Option.some.injEq] at hhead
    rw [hhead, List.drop_one, List.tail_cons]

lemma contents_self (hf : first < n) (slots : ℕ → α) : contents n slots first first = [] := by
  rw [← List.length_eq_zero_iff, length_contents, size_eq_zero_iff hf hf]

end RingBuffer
