import VecadNiosv.VgaTiming

/-!
# Recovery from any power-up content

The counters of `vga_timing` compare for equality with 799 and 524, so outside the raster they
only come back through the wrap of their ten bits. `recoveryTicks` is the exact number of ticks
that takes: it drops by one at every tick until it is zero, which is when the beam is inside.
-/

namespace VecadNiosv

namespace Beam

/-- The ticks until the counters are inside the raster. Beyond column 799 the horizontal
counter wraps through 1023 without advancing the line. -/
def recoveryTicks (b : Beam) : ℕ :=
  if b.vCount.toNat < 525 then
    if b.hCount.toNat < 800 then 0 else 1024 - b.hCount.toNat
  else if b.hCount.toNat < 800 then 800 - b.hCount.toNat + 800 * (1023 - b.vCount.toNat)
  else 1024 - b.hCount.toNat + 800 * (1024 - b.vCount.toNat)

lemma legal_iff_recoveryTicks (b : Beam) : b.Legal ↔ b.recoveryTicks = 0 := by
  have hh := b.hCount.isLt
  have hv := b.vCount.isLt
  unfold Legal recoveryTicks
  split_ifs <;> omega

lemma recoveryTicks_le (b : Beam) : b.recoveryTicks ≤ 399424 := by
  have hh := b.hCount.isLt
  have hv := b.vCount.isLt
  unfold recoveryTicks
  split_ifs <;> omega

lemma recoveryTicks_count (b : Beam) : b.count.recoveryTicks = b.recoveryTicks - 1 := by
  by_cases hb : b.Legal
  · rw [(legal_iff_recoveryTicks _).mp hb.at_index.count.legal, (legal_iff_recoveryTicks _).mp hb]
  · have hh := b.hCount.isLt
    have hv := b.vCount.isLt
    unfold Legal at hb
    unfold recoveryTicks
    rw [count_hCount, count_vCount]
    split_ifs <;> omega

lemma recoveryTicks_iterate (b : Beam) (k : ℕ) :
    (count^[k] b).recoveryTicks = b.recoveryTicks - k := by
  induction k with
  | zero => rfl
  | succ k ih => rw [Function.iterate_succ_apply', recoveryTicks_count, ih, Nat.sub_sub]

/-- The exact recovery time: after `k` ticks the beam is inside the raster if and only if `k`
has reached `recoveryTicks`. -/
theorem legal_iterate_iff (b : Beam) (k : ℕ) : (count^[k] b).Legal ↔ b.recoveryTicks ≤ k := by
  rw [legal_iff_recoveryTicks, recoveryTicks_iterate]
  omega

/-- The position in the sweep at which the recovered beam goes on: the start of its line if that is
inside the raster, and else the start of a frame. -/
def landing (b : Beam) : ℕ :=
  if b.vCount.toNat < 525 then
    if b.hCount.toNat < 800 then b.index else 800 * b.vCount.toNat
  else 0

lemma landing_count {b : Beam} (hb : ¬b.Legal) : b.count.landing = b.landing := by
  have hh := b.hCount.isLt
  have hv := b.vCount.isLt
  unfold Legal at hb
  unfold landing index
  rw [count_hCount, count_vCount]
  split_ifs <;> omega

theorem at_landing (b : Beam) : (count^[b.recoveryTicks] b).At b.landing := by
  induction hk : b.recoveryTicks generalizing b with
  | zero =>
    have hlegal := (legal_iff_recoveryTicks b).mpr hk
    have hat := hlegal.at_index
    unfold Legal at hlegal
    rwa [landing, if_pos hlegal.2, if_pos hlegal.1]
  | succ k ih =>
    have hout : ¬b.Legal := fun hlegal => by
      rw [(legal_iff_recoveryTicks b).mp hlegal] at hk
      exact absurd hk (by simp)
    have hcount : b.count.recoveryTicks = k := by rw [recoveryTicks_count, hk, Nat.add_sub_cancel]
    have hat := ih b.count hcount
    rwa [landing_count hout] at hat

/-- From any contents of the counters a frame begins soon. -/
theorem exists_frame (b : Beam) : ∃ k ≤ 420224, ∃ J, (count^[k] b).At (420000 * J) := by
  have hat := b.at_landing.iterate_count ((420000 - b.landing) % 420000)
  rw [← Function.iterate_add_apply] at hat
  refine ⟨(420000 - b.landing) % 420000 + b.recoveryTicks, ?_,
    (b.landing + (420000 - b.landing) % 420000) / 420000, ?_⟩
  · have hh := b.hCount.isLt
    have hv := b.vCount.isLt
    unfold recoveryTicks landing index
    split_ifs <;> omega
  · have hlanding : b.landing ≤ 420000 := by
      have hh := b.hCount.isLt
      unfold landing index
      split_ifs <;> omega
    have hdvd : 420000 * ((b.landing + (420000 - b.landing) % 420000) / 420000) =
        b.landing + (420000 - b.landing) % 420000 := by omega
    rwa [hdvd]

end Beam

lemma VgaTiming.exists_pixelTicks_eq (s : VgaTiming) (hs : s.resetN = true) (k : ℕ) :
    ∃ n, s.pixelTicks n = k := by
  refine ⟨2 * k, ?_⟩
  rw [(s.clocked_eq hs _).2]
  split_ifs <;> omega

lemma VgaTiming.legal_clocked_iff (s : VgaTiming) (hs : s.resetN = true) (n : ℕ) :
    (s.clocked n).beam.Legal ↔ s.beam.recoveryTicks ≤ s.pixelTicks n := by
  rw [(s.clocked_eq hs n).1]
  exact s.beam.legal_iterate_iff _

/-- From any contents of the registers a frame begins within any 840449 cycles. -/
lemma VgaTiming.exists_frame {timing : VgaTiming} (hreset : timing.resetN = true) (a : ℕ) :
    ∃ n J, a ≤ n ∧ n < a + 840449 ∧
      ∀ m, (timing.clocked (n + m)).beam.At (420000 * J + m / 2) := by
  obtain ⟨k, hk, J, hat⟩ := timing.beam.exists_frame
  have hclocked := fun n => timing.clocked_eq hreset n
  have hphase : (if timing.pixelClkReg = true then 0 else 1) ≤ 1 := by split_ifs <;> omega
  generalize (if timing.pixelClkReg = true then 0 else 1) = phase at hclocked hphase
  have hdiv := Nat.div_add_mod (a + phase - 2 * k + 839999) 840000
  have hrest := Nat.mod_lt (a + phase - 2 * k + 839999) (show 840000 > 0 by decide)
  generalize (a + phase - 2 * k + 839999) / 840000 = j at hdiv
  refine ⟨840000 * j + 2 * k - phase, J + j, by omega, by omega, ?_⟩
  intro m
  obtain ⟨hstate, hticks⟩ := hclocked (840000 * j + 2 * k - phase + m)
  have hcount : timing.pixelTicks (840000 * j + 2 * k - phase + m) = 420000 * j + m / 2 + k := by
    rw [hticks]
    omega
  have hlater := hat.iterate_count (420000 * j + m / 2)
  rw [← Function.iterate_add_apply] at hlater
  have hplace : 420000 * (J + j) + m / 2 = 420000 * J + (420000 * j + m / 2) := by omega
  rw [hstate, hcount, hplace]
  exact hlater

/-- With `reset_n` held high the raster recovers from every power-up content of its registers
within 399424 pixel ticks and stays inside at every later one, and no smaller bound will do: from
column 800 of line 525 it is still outside after 399423 ticks. -/
theorem vgaTiming_selfStabilising :
    (∀ (pixelClkReg : Bool) (b : Beam), let s : VgaTiming := ⟨true, pixelClkReg, b⟩
      ∃ k ≤ 399424, (∃ n, s.pixelTicks n = k) ∧ ∀ n, k ≤ s.pixelTicks n →
        (s.clocked n).beam.hCount.toNat < 800 ∧ (s.clocked n).beam.vCount.toNat < 525) ∧
    (∀ pixelClkReg : Bool, let s : VgaTiming := ⟨true, pixelClkReg, ⟨800#10, 525#10⟩⟩
      ∃ n, s.pixelTicks n = 399423 ∧
        ¬((s.clocked n).beam.hCount.toNat < 800 ∧ (s.clocked n).beam.vCount.toNat < 525)) := by
  constructor
  · intro p b s
    refine ⟨b.recoveryTicks, b.recoveryTicks_le, s.exists_pixelTicks_eq rfl _, ?_⟩
    intro n hn
    exact (s.legal_clocked_iff rfl n).mpr hn
  · intro p s
    obtain ⟨n, hn⟩ := s.exists_pixelTicks_eq rfl 399423
    refine ⟨n, hn, ?_⟩
    change ¬(s.clocked n).beam.Legal
    rw [s.legal_clocked_iff rfl, hn]
    change ¬Beam.recoveryTicks ⟨800#10, 525#10⟩ ≤ 399423
    decide

end VecadNiosv
