import VecadNiosv.BoardPicture

/-!
# What the monitor sees

Out of reset and from a beam inside the raster, `vga_timing` is a sweep of 800 by 525 positions.
The sync outputs are levels on that sweep, so their pulse widths and periods come from the library
of cyclic sweeps, at any phase and across every wrap.
-/

namespace VecadNiosv

open CyclicSweep

namespace Beam

variable {b : Beam} {q : ℕ}

lemma At.activeVideo_iff (hb : b.At q) : b.activeVideo = true ↔ q % 800 < 640 ∧ q / 800 % 525 < 480 := by
  rw [← hb.h, ← hb.v]
  simp [activeVideo, BitVec.lt_def]

lemma activeVideo_iff (b : Beam) : b.activeVideo = true ↔ b.hCount.toNat < 640 ∧ b.vCount.toNat < 480 := by
  simp [activeVideo, BitVec.lt_def]

lemma vgaHS_eq_false_iff (b : Beam) : b.vgaHS = false ↔ 656 ≤ b.hCount.toNat ∧ b.hCount.toNat < 752 := by
  simp [vgaHS, BitVec.lt_def, BitVec.le_def]

lemma vgaVS_eq_false_iff (b : Beam) : b.vgaVS = false ↔ 490 ≤ b.vCount.toNat ∧ b.vCount.toNat < 492 := by
  simp [vgaVS, BitVec.lt_def, BitVec.le_def]

lemma At.vgaVS_eq_false_iff (hb : b.At q) :
    b.vgaVS = false ↔ 392000 ≤ q % 420000 ∧ q % 420000 < 393600 := by
  rw [Beam.vgaVS_eq_false_iff, hb.v]
  omega

lemma activeVideo_of_sync (b : Beam) (hsync : b.vgaHS = false ∨ b.vgaVS = false) :
    b.activeVideo = false := by
  rw [vgaHS_eq_false_iff, vgaVS_eq_false_iff] at hsync
  rw [← Bool.not_eq_true, activeVideo_iff]
  omega

end Beam

/-- The designs of projects 4 to 7 show black at the given state of their raster. -/
structure AllBlack (s : VgaTiming) : Prop where
  vgaTest : ∀ colorSelect, vgaTest s.beam colorSelect = .black
  project5 : Project5.checkerboardRenderer s.ports.hCount s.ports.vCount s.ports.activeVideo = .black
  project6 : Project6.checkerboardRenderer s.ports.hCount s.ports.vCount s.ports.activeVideo = .black
  project7 : ∀ pieceRow pieceCol, Project7.checkerboardRenderer s.ports.hCount s.ports.vCount
    s.ports.activeVideo pieceRow pieceCol = .black

lemma allBlack_of_blank (s : VgaTiming) (hblank : s.ports.activeVideo = false) : AllBlack s where
  vgaTest colorSelect := by
    have hb : s.beam.activeVideo = false := hblank
    simp [VecadNiosv.vgaTest, hb, Rgb.black]
  project5 := by simp [Project5.checkerboardRenderer, hblank]
  project6 := by simp [Project6.checkerboardRenderer, hblank]
  project7 pieceRow pieceCol := by simp [Project7.checkerboardRenderer, hblank]

/-- The raster and sync protocol of the pixel ticks that follow the state `s`. -/
structure SyncProtocol (s : VgaTiming) : Prop where
  visits : ∀ a x y, x < 800 → y < 525 → ∃! i, (a ≤ i ∧ i < a + 420000) ∧
    (s.afterTicks i).ports.hCount.toNat = x ∧ (s.afterTicks i).ports.vCount.toNat = y
  visible : ∀ a x y, x < 640 → y < 480 → ∃! i, (a ≤ i ∧ i < a + 420000) ∧
    ((s.afterTicks i).ports.hCount.toNat = x ∧ (s.afterTicks i).ports.vCount.toNat = y) ∧
    (s.afterTicks i).ports.vgaBlankN = true
  blanked : ∀ i, (s.afterTicks i).ports.vgaBlankN = true →
    (s.afterTicks i).ports.hCount.toNat < 640 ∧ (s.afterTicks i).ports.vCount.toNat < 480
  hsLow : ∀ k, (s.afterTicks k).ports.vgaHS = false ↔
    656 ≤ (s.afterTicks k).ports.hCount.toNat ∧ (s.afterTicks k).ports.hCount.toNat < 752
  hsPulses : ∀ a, ∃ k, (a ≤ k ∧ k < a + 800) ∧
    LowPulse (fun k => (s.afterTicks k).ports.vgaHS) (k + 1) (k + 1 + 96) ∧
    NextFall (fun k => (s.afterTicks k).ports.vgaHS) k (k + 800)
  hsWidth : ∀ a b, LowPulse (fun k => (s.afterTicks k).ports.vgaHS) a b → b - a = 96
  hsPeriod : ∀ a b, NextFall (fun k => (s.afterTicks k).ports.vgaHS) a b → b - a = 800
  vsLow : ∀ k, (s.afterTicks k).ports.vgaVS = false ↔
    490 ≤ (s.afterTicks k).ports.vCount.toNat ∧ (s.afterTicks k).ports.vCount.toNat < 492
  vsPulses : ∀ a, ∃ k, (a ≤ k ∧ k < a + 420000) ∧
    LowPulse (fun k => (s.afterTicks k).ports.vgaVS) (k + 1) (k + 1 + 1600) ∧
    NextFall (fun k => (s.afterTicks k).ports.vgaVS) k (k + 420000)
  vsWidth : ∀ a b, LowPulse (fun k => (s.afterTicks k).ports.vgaVS) a b → b - a = 1600
  vsPeriod : ∀ a b, NextFall (fun k => (s.afterTicks k).ports.vgaVS) a b → b - a = 420000
  vsAtLineStart : ∀ k, (s.afterTicks k).ports.vgaVS ≠ (s.afterTicks (k + 1)).ports.vgaVS →
    (s.afterTicks (k + 1)).ports.hCount = 0#10
  syncIsBlack : ∀ k, (s.afterTicks k).ports.vgaHS = false ∨ (s.afterTicks k).ports.vgaVS = false →
    (s.afterTicks k).ports.vgaBlankN = false ∧ AllBlack (s.afterTicks k)

section Sweep

variable {s : VgaTiming} (hs : s.resetN = true) {q : ℕ} (hb : s.beam.At q)
include hs hb

lemma vgaHS_sweep (k : ℕ) : (s.afterTicks k).ports.vgaHS = false ↔
    656 ≤ (q + k) % 800 ∧ (q + k) % 800 < 752 := by
  rw [← (s.afterTicks_at hs hb k).h]
  exact (s.afterTicks k).beam.vgaHS_eq_false_iff

lemma vgaVS_sweep (k : ℕ) : (s.afterTicks k).ports.vgaVS = false ↔
    392000 ≤ (q + k) % 420000 ∧ (q + k) % 420000 < 393600 :=
  (s.afterTicks_at hs hb k).vgaVS_eq_false_iff

lemma coordinate_sweep {x y : ℕ} (hx : x < 800) (hy : y < 525) (i : ℕ) :
    ((s.afterTicks i).ports.hCount.toNat = x ∧ (s.afterTicks i).ports.vCount.toNat = y) ↔
      (q + i) % 420000 = x + 800 * y := by
  rw [← scan_eq_iff hx hy, ← (s.afterTicks_at hs hb i).h, ← (s.afterTicks_at hs hb i).v]
  rfl

lemma vgaVS_changes_at_lineStart (k : ℕ)
    (hne : (s.afterTicks k).ports.vgaVS ≠ (s.afterTicks (k + 1)).ports.vgaVS) :
    (s.afterTicks (k + 1)).ports.hCount = 0#10 := by
  have hk := vgaVS_sweep hs hb k
  have hk1 := vgaVS_sweep hs hb (k + 1)
  apply BitVec.eq_of_toNat_eq
  change (s.afterTicks (k + 1)).beam.hCount.toNat = 0
  rw [(s.afterTicks_at hs hb (k + 1)).h]
  cases hvs : (s.afterTicks k).ports.vgaVS <;> cases hvs1 : (s.afterTicks (k + 1)).ports.vgaVS <;>
    simp only [hvs, hvs1, ne_eq, not_true_eq_false, Bool.true_eq_false, true_iff, false_iff] at hne hk hk1
  · omega
  · omega

end Sweep

/-- Every run of pixel ticks from a beam inside the raster keeps the sync protocol. -/
theorem vgaTiming_syncProtocol (s : VgaTiming) (hs : s.resetN = true) (hb : s.beam.Legal) :
    SyncProtocol s := by
  have hat := hb.at_index
  have hunique : ∀ a x y, x < 800 → y < 525 → ∃! i, (a ≤ i ∧ i < a + 420000) ∧
      (s.afterTicks i).ports.hCount.toNat = x ∧ (s.afterTicks i).ports.vCount.toNat = y := by
    intro a x y hx hy
    simp only [coordinate_sweep hs hat hx hy]
    exact existsUnique_window 420000 _ a (x + 800 * y) (by omega)
  constructor
  case visits => exact hunique
  case visible =>
    intro a x y hx hy
    have hactive : ∀ i, ((s.afterTicks i).ports.hCount.toNat = x ∧
        (s.afterTicks i).ports.vCount.toNat = y) → (s.afterTicks i).ports.vgaBlankN = true := by
      rintro i ⟨hi, hj⟩
      exact (Beam.activeVideo_iff _).mpr ⟨hi.trans_lt hx, hj.trans_lt hy⟩
    obtain ⟨i, ⟨hwin, hcoord⟩, huniq⟩ := hunique a x y (by omega) (by omega)
    exact ⟨i, ⟨hwin, hcoord, hactive i hcoord⟩, fun j hj => huniq j ⟨hj.1, hj.2.1⟩⟩
  case blanked => exact fun i hi => (Beam.activeVideo_iff _).mp hi
  case hsLow => exact fun k => (s.afterTicks k).beam.vgaHS_eq_false_iff
  case hsPulses => exact exists_pulse (vgaHS_sweep hs hat) (by omega) (by omega) (by omega)
  case hsWidth =>
    exact fun a b hp => hp.width (vgaHS_sweep hs hat) (by omega) (by omega) (by omega)
  case hsPeriod =>
    exact fun a b hn => hn.period (vgaHS_sweep hs hat) (by omega) (by omega) (by omega)
  case vsLow => exact fun k => (s.afterTicks k).beam.vgaVS_eq_false_iff
  case vsPulses => exact exists_pulse (vgaVS_sweep hs hat) (by omega) (by omega) (by omega)
  case vsWidth =>
    exact fun a b hp => hp.width (vgaVS_sweep hs hat) (by omega) (by omega) (by omega)
  case vsPeriod =>
    exact fun a b hn => hn.period (vgaVS_sweep hs hat) (by omega) (by omega) (by omega)
  case vsAtLineStart => exact vgaVS_changes_at_lineStart hs hat
  case syncIsBlack =>
    intro k hsync
    have hblank := (s.afterTicks k).beam.activeVideo_of_sync hsync
    exact ⟨hblank, allBlack_of_blank _ hblank⟩

/-- From the last position of a frame: a line and a frame later both pulses have come. -/
theorem vgaTiming_syncProtocol_last : ∃ s : VgaTiming, s = ⟨true, false, ⟨799#10, 524#10⟩⟩ ∧
    SyncProtocol s ∧
    (∃ k < 800, LowPulse (fun k => (s.afterTicks k).ports.vgaHS) (k + 1) (k + 1 + 96)) ∧
    ∃ k < 420000, LowPulse (fun k => (s.afterTicks k).ports.vgaVS) (k + 1) (k + 1 + 1600) := by
  have hprotocol := vgaTiming_syncProtocol ⟨true, false, ⟨799#10, 524#10⟩⟩ rfl (by decide)
  obtain ⟨i, ⟨-, hi⟩, hline, -⟩ := hprotocol.hsPulses 0
  obtain ⟨j, ⟨-, hj⟩, hframe, -⟩ := hprotocol.vsPulses 0
  exact ⟨_, rfl, hprotocol, ⟨i, by omega, hline⟩, ⟨j, by omega, hframe⟩⟩

end VecadNiosv
