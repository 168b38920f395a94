import VecadNiosv.LedBlink

/-!
# The blinker across wraps of its tick variables

The program keeps times in 32 bits and subtracts modulo `2 ^ 32`. As long as no gap between polls
exceeds a full turn less the longer interval, it performs the stores of the same program over
unbounded integers, on the tick counts at which the low half of the counter was loaded.
-/

namespace VecadNiosv

namespace LedBlink

open PolledTimer

lemma run_ofInt {redInterval greenInterval : BitVec 32} (hred : 1 ≤ redInterval.toNat)
    (hgreen : 1 ≤ greenInterval.toNat) {times : List ℤ} (hsorted : times.IsChain (· ≤ ·))
    (hgap : times.IsChain
      (fun a b => b - a ≤ 2 ^ 32 - (max redInterval.toNat greenInterval.toNat : ℤ))) :
    run redInterval greenInterval (times.map (BitVec.ofInt 32)) =
      run (redInterval.toNat : ℤ) (greenInterval.toNat : ℤ) times := by
  cases times with
  | nil => rfl
  | cons start polls =>
    have hstart (interval : BitVec 32) (hpos : 1 ≤ interval.toNat) :
        Recent interval.toNat start start := Recent.self (by omega) start
    refine run_congr (fires_ofInt hred (hstart redInterval hred) hsorted (hgap.imp ?_))
      (fires_ofInt hgreen (hstart greenInterval hgreen) hsorted (hgap.imp ?_))
    · intro a b hab
      exact hab.trans (sub_le_sub_left (le_max_left _ _) _)
    · intro a b hab
      exact hab.trans (sub_le_sub_left (le_max_right _ _) _)

/-- The red interval is the longer one, so it alone bounds the gaps. -/
lemma main_ofInt {ticksPerSec : BitVec 32} (hrate : 4 ≤ ticksPerSec.toNat) {J : ℤ}
    (hJ : J ≤ 2 ^ 32 - (ticksPerSec / 2#32).toNat) {times : List ℤ}
    (htimes : times.IsChain (fun a b => a ≤ b ∧ b - a ≤ J)) :
    main ticksPerSec (times.map (BitVec.ofInt 32)) =
      run ((ticksPerSec / 2#32).toNat : ℤ) ((ticksPerSec / 4#32).toNat : ℤ) times := by
  have hred : (ticksPerSec / 2#32).toNat = ticksPerSec.toNat / 2 := rfl
  have hgreen : (ticksPerSec / 4#32).toNat = ticksPerSec.toNat / 4 := rfl
  apply run_ofInt (by omega) (by omega) (htimes.imp (fun a b h => h.1))
  apply htimes.imp
  intro a b h
  omega

/-- `main` performs the stores of the integer program on the tick counts at its loads of the low
half, across any number of wraps and whatever the high half read. -/
theorem run_readings {κ : Type*} (alarms : List (Alarm κ)) (redInterval greenInterval : BitVec 32)
    (hred : 1 ≤ redInterval.toNat) (hgreen : 1 ≤ greenInterval.toNat) (calls : List NticksCall)
    (hgap : (lowTicks 0 calls).IsChain
      (fun a b => b ≤ a + (2 ^ 32 - max redInterval.toNat greenInterval.toNat))) :
    run redInterval greenInterval (readings (Hal.reset alarms) calls) =
      run (redInterval.toNat : ℤ) (greenInterval.toNat : ℤ)
        ((lowTicks 0 calls).map (Nat.cast : ℕ → ℤ)) := by
  have hreadings : readings (Hal.reset alarms) calls =
      ((lowTicks 0 calls).map (Nat.cast : ℕ → ℤ)).map (BitVec.ofInt 32) := by
    rw [readings_eq (n := 0) rfl, List.map_map]
    apply List.map_congr_left
    intro n _
    exact (BitVec.ofInt_natCast 32 n).symm
  rw [hreadings]
  apply run_ofInt hred hgreen
  · rw [List.isChain_map]
    exact (lowTicks_isChain 0 calls).imp (fun a b hab => Int.ofNat_le.mpr hab)
  · rw [List.isChain_map]
    apply hgap.imp
    intro a b hab
    have hltred := redInterval.isLt
    have hltgreen := greenInterval.isLt
    omega

/-- Three calls across the first wrap of the low half, with the second one torn by an interrupt
that carries into the high half. -/
theorem run_readings_torn :
    run 2#32 1#32 (readings (Hal.reset ([] : List (Alarm Unit)))
      [⟨2 ^ 32 - 2, 0, true⟩, ⟨1, 1, true⟩, ⟨0, 0, false⟩]) =
    [[⟨0x30050#32, 0x0#32⟩, ⟨0x30040#32, 0x0#32⟩], [⟨0x30040#32, 0xF#32⟩],
      [⟨0x30050#32, 0xF#32⟩, ⟨0x30040#32, 0x0#32⟩]] := by
  rw [run_readings [] 2#32 1#32 (by decide) (by decide) _ (by decide)]
  decide

end LedBlink

end VecadNiosv
