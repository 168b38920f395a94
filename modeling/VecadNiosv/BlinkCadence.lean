import VecadNiosv.TickWrap

/-!
# The cadence of the blinker

The comments of `main` ask for a toggle every half second and every quarter second. A toggle sets
its reference to the time of the poll that sees it, so whatever that poll was late is added to
every later toggle. The toggles of a colour are a longest choice of polls spaced by its interval,
and the program keeps the cadence exactly as long as the polls offer a choice that is long enough.
-/

namespace VecadNiosv

namespace LedBlink

open PolledTimer

/-- The number of toggles of the LEDs at a base: the stores to them, less those before the loop. -/
def toggles (base : BitVec 32) (stores : List (List Store)) : ℕ :=
  stores.tail.flatten.countP (fun st => st.address = base)

/-- After the polls of a run, the last of them at `T`, both counts of toggles are within one of
the number of intervals since the start. -/
def OnCadence (ticksPerSec : BitVec 32) (start : ℤ) (polled : List ℤ) (T : ℤ) : Prop :=
  let stores := main ticksPerSec ((start :: polled).map (BitVec.ofInt 32))
  |(toggles LEDR_BASE stores : ℤ) - (T - start) / (ticksPerSec / 2#32).toNat| ≤ 1 ∧
    |(toggles LEDG_BASE stores : ℤ) - (T - start) / (ticksPerSec / 4#32).toNat| ≤ 1

/-- Among the polls one for each interval up to `T`, except the last, can be chosen so that each is
at least the interval after the one before it. -/
def PollsKeepUp (interval start : ℤ) (polled : List ℤ) (T : ℤ) : Prop :=
  ∃ l : List ℤ, l.Sublist polled ∧ Spaced interval (start :: l) ∧
    (T - start) / interval ≤ l.length + 1

lemma countP_zipWith_append {α : Type*} (p : α → Bool) (xs ys : List (List α))
    (hlen : xs.length = ys.length) :
    (List.zipWith (· ++ ·) xs ys).flatten.countP p =
      xs.flatten.countP p + ys.flatten.countP p := by
  induction xs generalizing ys with
  | nil =>
    rw [List.length_eq_zero_iff.mp hlen.symm]
    rfl
  | cons x xs ih =>
    cases ys with
    | nil => exact absurd hlen (by simp)
    | cons y ys =>
      rw [List.zipWith_cons_cons, List.flatten_cons, List.flatten_cons, List.flatten_cons,
        List.countP_append, List.countP_append, List.countP_append, List.countP_append,
        ih ys (Nat.succ.inj hlen)]
      omega

lemma length_toggleStores (base state : BitVec 32) (taken : List Bool) :
    (toggleStores base state taken).length = taken.length := by
  induction taken generalizing state with
  | nil => rfl
  | cons b taken ih =>
    cases b
    · rw [toggleStores, List.length_cons, ih, List.length_cons]
    · rw [toggleStores, List.length_cons, ih, List.length_cons]

lemma ledStore_address (base state : BitVec 32) : (ledStore base state).address = base := by
  simp [ledStore, iowrAlteraAvalonPioData, iowr]

lemma countP_toggleStores (base base' state : BitVec 32) (taken : List Bool) :
    (toggleStores base state taken).flatten.countP (fun st => st.address = base') =
      if base = base' then taken.count true else 0 := by
  induction taken generalizing state with
  | nil => simp [toggleStores]
  | cons b taken ih =>
    cases b
    · rw [toggleStores, List.flatten_cons, List.nil_append, ih, List.count_cons_of_ne (by decide)]
    · rw [toggleStores, List.flatten_cons, List.countP_append, ih, List.countP_singleton,
        ledStore_address, List.count_cons_self]
      split_ifs <;> simp_all [Nat.add_comm]

lemma toggles_run (redInterval greenInterval start : ℤ) (polls : List ℤ) :
    toggles LEDR_BASE (run redInterval greenInterval (start :: polls)) =
        (firings redInterval start polls).length ∧
      toggles LEDG_BASE (run redInterval greenInterval (start :: polls)) =
        (firings greenInterval start polls).length := by
  have hred : LEDG_BASE ≠ LEDR_BASE := by decide
  rw [toggles, toggles, run, List.tail_cons, loop_eq_zipWith]
  constructor
  all_goals
    rw [countP_zipWith_append _ _ _ (by rw [length_toggleStores, length_toggleStores, length_fires,
      length_fires]), countP_toggleStores, countP_toggleStores, count_fires, count_fires]
  · rw [if_pos rfl, if_neg hred, Nat.add_zero]
  · rw [if_pos rfl, if_neg hred.symm, Nat.zero_add]

/-- A timer is within one of its cadence exactly when the polls keep up, since its firings never
run ahead of the intervals. -/
lemma abs_firings_le_one_iff {interval start T : ℤ} (hpos : 0 < interval) {polled : List ℤ}
    (hsorted : (start :: polled).Pairwise (· ≤ ·)) (hlast : ∀ t ∈ start :: polled, t ≤ T) :
    |((firings interval start polled).length : ℤ) - (T - start) / interval| ≤ 1 ↔
      PollsKeepUp interval start polled T := by
  have hupper : ((firings interval start polled).length : ℤ) ≤ (T - start) / interval := by
    have hsub : ∀ t ∈ start :: firings interval start polled, t ≤ T := fun t ht =>
      hlast t (((firings_sublist interval start polled).cons_cons start).subset ht)
    have hlen := (firings_spaced interval start polled).length_nsmul_le hsub
    rw [nsmul_eq_mul] at hlen
    apply (Int.le_ediv_iff_mul_le hpos).mpr
    exact hlen
  rw [abs_le, PollsKeepUp]
  constructor
  · rintro ⟨hlower, -⟩
    exact ⟨_, firings_sublist interval start polled, firings_spaced interval start polled, by omega⟩
  · rintro ⟨l, hl, hspaced, hlong⟩
    have hmax := length_le_firings (List.pairwise_cons.mp hsorted).2 le_rfl hl hspaced
    omega

/-- At each poll of each run the program is on the cadence that its comments state if and only if
the polls so far keep up with both intervals. -/
theorem onCadence_iff (ticksPerSec : BitVec 32) (hrate : 4 ≤ ticksPerSec.toNat) (J : ℤ)
    (hJ : J < (ticksPerSec / 4#32).toNat) (start : ℤ) (samples : List ℤ)
    (hsamples : (start :: samples).IsChain (fun a b => a ≤ b ∧ b - a ≤ J)) :
    ∀ polled T, polled ++ [T] <+: samples →
      (OnCadence ticksPerSec start (polled ++ [T]) T ↔
        PollsKeepUp (ticksPerSec / 2#32).toNat start (polled ++ [T]) T ∧
          PollsKeepUp (ticksPerSec / 4#32).toNat start (polled ++ [T]) T) := by
  intro polled T hpre
  have hchain := hsamples.prefix (List.cons_prefix_cons.mpr ⟨rfl, hpre⟩)
  have hsorted : (start :: (polled ++ [T])).IsChain (· ≤ ·) := hchain.imp (fun a b h => h.1)
  have hpairwise := List.isChain_iff_pairwise.mp hsorted
  have hlast : ∀ t ∈ start :: (polled ++ [T]), t ≤ T := by
    intro t ht
    rw [← List.cons_append, List.mem_append, List.mem_singleton] at ht
    rcases ht with ht | rfl
    · exact (List.pairwise_append.mp hpairwise).2.2 t ht T List.mem_cons_self
    · exact le_rfl
  have hred : (ticksPerSec / 2#32).toNat = ticksPerSec.toNat / 2 := rfl
  have hgreen : (ticksPerSec / 4#32).toNat = ticksPerSec.toNat / 4 := rfl
  have hlt := ticksPerSec.isLt
  have hshort : J ≤ 2 ^ 32 - (ticksPerSec / 2#32).toNat := by omega
  obtain ⟨htogglesRed, htogglesGreen⟩ := toggles_run (ticksPerSec / 2#32).toNat
    (ticksPerSec / 4#32).toNat start (polled ++ [T])
  rw [OnCadence, main_ofInt hrate hshort hchain, htogglesRed, htogglesGreen]
  exact and_congr (abs_firings_le_one_iff (by omega) hpairwise hlast)
    (abs_firings_le_one_iff (by omega) hpairwise hlast)

theorem onCadence_every_tick : OnCadence 8#32 0 [1, 2, 3, 4] 4 := by
  have hiff := onCadence_iff 8#32 (by decide) 1 (by decide) 0 [1, 2, 3, 4] (by decide) [1, 2, 3] 4
    (List.prefix_refl _)
  refine hiff.mpr ⟨⟨[], List.nil_sublist _, List.isChain_singleton 0, by decide⟩,
    ⟨[2], ?_, ?_, by decide⟩⟩
  · exact List.singleton_sublist.mpr (by decide)
  · exact List.isChain_cons_cons.mpr ⟨by decide, List.isChain_singleton 2⟩

/-- At the rate of this system, 1000 ticks a second, a poll every 200 ticks makes the green LEDs
toggle every 400 ticks: five times in two seconds, not eight. -/
theorem not_onCadence_slow_polls :
    let samples : List ℤ := [200, 400, 600, 800, 1000, 1200, 1400, 1600, 1800, 2000]
    (0 :: samples).IsChain (fun a b => a ≤ b ∧ b - a ≤ 200) ∧
      (200 : ℤ) < (1000#32 / 4#32).toNat ∧ ¬OnCadence 1000#32 0 samples 2000 := by
  intro samples
  refine ⟨by decide, by decide, ?_⟩
  rw [OnCadence]
  decide

end LedBlink

end VecadNiosv
