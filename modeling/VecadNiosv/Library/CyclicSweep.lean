import Mathlib

/-!
# Cyclic sweeps

A counter that adds one modulo `N` at every tick, started at phase `q`, is at
`(q + k) % N` after `k` ticks. This file collects what such a sweep does over a run:
every residue is met once in each window of `N` ticks, a level that is low exactly on
the residues `[lo, hi)` has pulses of width `hi - lo` and period `N`, and a sweep of
`W * H` ticks scans a `W` by `H` grid line by line.
-/

namespace CyclicSweep

open Finset

lemma succ_mod_cases (N x : ℕ) (hN : 0 < N) :
    ((x + 1) % N = x % N + 1 ∧ x % N + 1 < N) ∨ ((x + 1) % N = 0 ∧ x % N + 1 = N) := by
  have hx : x % N < N := Nat.mod_lt x hN
  have hsucc : (x + 1) % N = (x % N + 1) % N := by rw [Nat.mod_add_mod]
  rw [hsucc]
  by_cases h : x % N + 1 = N
  · right
    exact ⟨by rw [h, Nat.mod_self], h⟩
  · left
    have hlt : x % N + 1 < N := by omega
    exact ⟨Nat.mod_eq_of_lt hlt, hlt⟩

lemma add_mod_of_mod_eq {N x r i : ℕ} (hx : x % N = r) (hi : r + i < N) : (x + i) % N = r + i := by
  rw [← Nat.mod_add_mod, hx, Nat.mod_eq_of_lt hi]

lemma window_injective {N q a i j : ℕ} (hi : a ≤ i ∧ i < a + N) (hj : a ≤ j ∧ j < a + N)
    (h : (q + i) % N = (q + j) % N) : i = j := by
  have hmod : i ≡ j [MOD N] := Nat.ModEq.add_left_cancel' q h
  apply hmod.eq_of_abs_lt
  rw [abs_lt]
  omega

/-- Every residue is met exactly once in a window of `N` consecutive ticks. -/
theorem existsUnique_window (N q a r : ℕ) (hr : r < N) :
    ∃! i, (a ≤ i ∧ i < a + N) ∧ (q + i) % N = r := by
  have hN : 0 < N := by omega
  have hphase : (q + a) % N < N := Nat.mod_lt _ hN
  have hlt : (r + (N - (q + a) % N)) % N < N := Nat.mod_lt _ hN
  have hmeet : (q + (a + (r + (N - (q + a) % N)) % N)) % N = r := by
    rw [← Nat.add_assoc, Nat.add_mod_mod, ← Nat.mod_add_mod,
      show (q + a) % N + (r + (N - (q + a) % N)) = r + N by omega, Nat.add_mod_right,
      Nat.mod_eq_of_lt hr]
  refine ⟨_, ⟨⟨Nat.le_add_right _ _, by omega⟩, hmeet⟩, ?_⟩
  rintro i ⟨hwin, hi⟩
  exact window_injective hwin ⟨Nat.le_add_right _ _, by omega⟩ (hi.trans hmeet.symm)

def FallsAt (f : ℕ → Bool) (k : ℕ) : Prop := f k = true ∧ f (k + 1) = false

/-- `[a, b)` is a maximal interval of low levels, entered and left inside the run. -/
structure LowPulse (f : ℕ → Bool) (a b : ℕ) : Prop where
  entered : ∃ k, k + 1 = a ∧ FallsAt f k
  low : ∀ i, a ≤ i → i < b → f i = false
  left : f b = true
  nonempty : a < b

/-- Two falling edges with none between them. -/
structure NextFall (f : ℕ → Bool) (a b : ℕ) : Prop where
  first : FallsAt f a
  second : FallsAt f b
  lt : a < b
  none_between : ∀ i, a < i → i < b → ¬FallsAt f i

section Pulses

variable {f : ℕ → Bool} {N q lo hi : ℕ}
  (hf : ∀ k, f k = false ↔ lo ≤ (q + k) % N ∧ (q + k) % N < hi)
  (hlo : 0 < lo) (hlohi : lo < hi) (hhi : hi < N)
include hf hlo hlohi hhi

lemma fallsAt_iff (k : ℕ) : FallsAt f k ↔ (q + (k + 1)) % N = lo := by
  have hk := hf k
  have hk1 := hf (k + 1)
  have hstep := succ_mod_cases N (q + k) (by omega)
  rw [show q + k + 1 = q + (k + 1) from rfl] at hstep
  unfold FallsAt
  rw [hk1, ← Bool.not_eq_false, hk]
  constructor
  · rintro ⟨hhigh, hlow⟩
    omega
  · intro h
    omega

theorem LowPulse.width {a b : ℕ} (hp : LowPulse f a b) : b - a = hi - lo := by
  obtain ⟨k, rfl, hfall⟩ := hp.entered
  have hstart : (q + (k + 1)) % N = lo := (fallsAt_iff hf hlo hlohi hhi k).mp hfall
  have hat : ∀ i, i ≤ hi - lo → (q + (k + 1 + i)) % N = lo + i := by
    intro i hi'
    rw [← Nat.add_assoc]
    exact add_mod_of_mod_eq hstart (by omega)
  have hnb := hp.nonempty
  by_contra hne
  rcases Nat.lt_or_gt_of_ne hne with hshort | hlong
  · have hb := hat (b - (k + 1)) (by omega)
    rw [show k + 1 + (b - (k + 1)) = b by omega] at hb
    have hlow : f b = false := (hf b).mpr (by omega)
    rw [hp.left] at hlow
    exact absurd hlow (by decide)
  · have hend := hat (hi - lo) le_rfl
    have hlow := (hf _).mp (hp.low (k + 1 + (hi - lo)) (by omega) (by omega))
    omega

theorem NextFall.period {a b : ℕ} (hn : NextFall f a b) : b - a = N := by
  have ha := (fallsAt_iff hf hlo hlohi hhi a).mp hn.first
  have hb := (fallsAt_iff hf hlo hlohi hhi b).mp hn.second
  have hlt := hn.lt
  have hnext : FallsAt f (a + N) := by
    rw [fallsAt_iff hf hlo hlohi hhi, show q + (a + N + 1) = q + (a + 1) + N by omega,
      Nat.add_mod_right, ha]
  have hle : b ≤ a + N := by
    by_contra hgt
    exact hn.none_between (a + N) (by omega) (by omega) hnext
  have hdvd : N ∣ b - a := by
    have hmod : q + (a + 1) ≡ q + (b + 1) [MOD N] := by rw [Nat.ModEq, ha, hb]
    have := (Nat.modEq_iff_dvd' (by omega)).mp hmod
    rwa [show q + (b + 1) - (q + (a + 1)) = b - a by omega] at this
  have hge : N ≤ b - a := Nat.le_of_dvd (by omega) hdvd
  omega

/-- In every window of `N` ticks a pulse begins, and the next one comes a period later. -/
theorem exists_pulse (a : ℕ) : ∃ k, (a ≤ k ∧ k < a + N) ∧
    LowPulse f (k + 1) (k + 1 + (hi - lo)) ∧ NextFall f k (k + N) := by
  obtain ⟨k, ⟨hwindow, hk⟩, -⟩ := existsUnique_window N (q + 1) a lo (by omega)
  have hstart : (q + (k + 1)) % N = lo := by rwa [Nat.add_right_comm] at hk
  have hfall : ∀ i, FallsAt f i ↔ (q + (i + 1)) % N = lo := fallsAt_iff hf hlo hlohi hhi
  have hat (i : ℕ) (hi' : lo + i < N) : (q + (k + 1 + i)) % N = lo + i := by
    rw [← Nat.add_assoc]
    exact add_mod_of_mod_eq hstart hi'
  refine ⟨k, hwindow, ⟨⟨k, rfl, (hfall k).mpr hstart⟩, ?_, ?_, by omega⟩, (hfall k).mpr hstart, ?_,
    by omega, ?_⟩
  · intro i hfrom hto
    have hi' := hat (i - (k + 1)) (by omega)
    rw [Nat.add_sub_cancel' hfrom] at hi'
    exact (hf i).mpr (by omega)
  · have hend := hat (hi - lo) (by omega)
    rw [← Bool.not_eq_false, hf]
    omega
  · rw [hfall, show q + (k + N + 1) = q + (k + 1) + N by omega, Nat.add_mod_right, hstart]
  · intro i hfrom hto hbetween
    have heq : k + 1 = i + 1 := window_injective (a := k + 1) (by omega) (by omega)
      (hstart.trans ((hfall i).mp hbetween).symm)
    omega

end Pulses

/-! ### Scanning a grid -/

lemma scan_eq_iff {W H q x y : ℕ} (hx : x < W) (hy : y < H) :
    (q % W = x ∧ q / W % H = y) ↔ q % (W * H) = x + W * y := by
  rw [Nat.mod_mul]
  constructor
  · rintro ⟨rfl, rfl⟩
    rfl
  · intro h
    have hW : 0 < W := by omega
    have hmod := congrArg (· % W) h
    have hdiv := congrArg (· / W) h
    simp only [Nat.add_mul_mod_self_left, Nat.mod_mod, Nat.mod_eq_of_lt hx] at hmod
    simp only [Nat.add_mul_div_left _ _ hW, Nat.div_eq_of_lt (Nat.mod_lt q hW), Nat.div_eq_of_lt hx,
      Nat.zero_add] at hdiv
    exact ⟨hmod, hdiv⟩

/-- One aligned sweep visits the cells that satisfy `P` as often as the grid has them. -/
theorem card_scan (W H : ℕ) (P : ℕ → ℕ → Prop) [∀ x y, Decidable (P x y)] :
    #{t ∈ range (W * H) | P (t % W) (t / W % H)} = #{p ∈ range W ×ˢ range H | P p.1 p.2} := by
  refine card_bij' (fun t _ => (t % W, t / W % H)) (fun p _ => p.1 + W * p.2) ?_ ?_ ?_ ?_
  · intro t ht
    simp only [mem_filter, mem_range, mem_product] at ht ⊢
    have hW : 0 < W := Nat.pos_of_ne_zero (fun h => by simp [h] at ht)
    have hH : 0 < H := Nat.pos_of_ne_zero (fun h => by simp [h] at ht)
    exact ⟨⟨Nat.mod_lt _ hW, Nat.mod_lt _ hH⟩, ht.2⟩
  · rintro ⟨x, y⟩ hp
    simp only [mem_filter, mem_range, mem_product] at hp ⊢
    obtain ⟨⟨hx, hy⟩, hP⟩ := hp
    have hlt : x + W * y < W * H := by nlinarith
    obtain ⟨h1, h2⟩ := (scan_eq_iff hx hy).mpr (Nat.mod_eq_of_lt hlt)
    exact ⟨hlt, by rwa [h1, h2]⟩
  · intro t ht
    simp only [mem_filter, mem_range] at ht
    rw [← Nat.mod_mul, Nat.mod_eq_of_lt ht.1]
  · rintro ⟨x, y⟩ hp
    simp only [mem_filter, mem_range, mem_product] at hp
    obtain ⟨⟨hx, hy⟩, -⟩ := hp
    have hlt : x + W * y < W * H := by nlinarith
    obtain ⟨h1, h2⟩ := (scan_eq_iff hx hy).mpr (Nat.mod_eq_of_lt hlt)
    exact Prod.ext h1 h2

theorem card_window {W H w k i j : ℕ} (P : ℕ → ℕ → Prop) [∀ x y, Decidable (P x y)]
    (hW : i + w ≤ W) (hH : j + k ≤ H)
    (hP : ∀ x y, P x y → (i ≤ x ∧ x < i + w) ∧ j ≤ y ∧ y < j + k) :
    #{p ∈ range W ×ˢ range H | P p.1 p.2} =
      #{p ∈ range w ×ˢ range k | P (i + p.1) (j + p.2)} := by
  refine card_bij' (fun p _ => (p.1 - i, p.2 - j)) (fun p _ => (i + p.1, j + p.2)) ?_ ?_ ?_ ?_
  · rintro ⟨x, y⟩ hp
    simp only [mem_filter, mem_range, mem_product] at hp ⊢
    obtain ⟨hx, hy⟩ := hP x y hp.2
    refine ⟨by omega, ?_⟩
    rw [show i + (x - i) = x by omega, show j + (y - j) = y by omega]
    exact hp.2
  · rintro ⟨x, y⟩ hp
    simp only [mem_filter, mem_range, mem_product] at hp ⊢
    exact ⟨by omega, hp.2⟩
  · rintro ⟨x, y⟩ hp
    simp only [mem_filter, mem_range, mem_product] at hp
    obtain ⟨hx, hy⟩ := hP x y hp.2
    exact Prod.ext (show i + (x - i) = x by omega) (show j + (y - j) = y by omega)
  · rintro ⟨x, y⟩ -
    exact Prod.ext (show i + x - i = x by omega) (show j + y - j = y by omega)

end CyclicSweep
