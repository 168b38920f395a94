import VecadNiosv.FramePicture

/-!
# Writes that land during a frame

The project 7 renderer uses its piece inputs combinationally: no register holds them for a frame.
A tick therefore carries the piece colour exactly when the beam is in the disc of the pair that is
at the inputs at that tick, and a frame is whole exactly when no write lands between the scan of
one disc and the scan of the other in a way that the beam can see.
-/

namespace VecadNiosv

open Finset Picture

/-- The contents of a 3-bit PIO in each cycle of `CLOCK_50`, for any assignment of write times and
values. A write is visible from the next cycle on. -/
def pioContents (initial : BitVec 3) (writes : ℕ → Option (BitVec 32)) : ℕ → BitVec 3
  | 0 => initial
  | n + 1 =>
    match writes n with
    | some word => word.setWidth 3
    | none => pioContents initial writes n

/-- The contents of the two piece registers at the start of a frame, and the writes to them. -/
structure PieceSchedule where
  initialRow : BitVec 3
  initialCol : BitVec 3
  rowWrites : ℕ → Option (BitVec 32)
  colWrites : ℕ → Option (BitVec 32)

def PieceSchedule.row (P : PieceSchedule) : ℕ → BitVec 3 := pioContents P.initialRow P.rowWrites

def PieceSchedule.col (P : PieceSchedule) : ℕ → BitVec 3 := pioContents P.initialCol P.colWrites

/-- A complete frame of a run, with the cycle of `CLOCK_50` at which each of its ticks is sampled.
A tick lasts two cycles and may be sampled in either. -/
structure SampledFrame where
  timing : VgaTiming
  start : FrameStart timing
  sample : ℕ → ℕ
  sample_ticks : ∀ t, timing.pixelTicks (sample t) = t

namespace SampledFrame

variable (F : SampledFrame) (P : PieceSchedule)

def beam (t : ℕ) : Beam := (F.timing.clocked (F.sample t)).beam

def colour (t : ℕ) : Rgb :=
  Project7.pixel (F.timing.clocked (F.sample t)) (P.row (F.sample t)) (P.col (F.sample t))

def redTicks : Finset ℕ := {t ∈ range 420000 | F.colour P t = .red}

/-- The pair is at the renderer's inputs at some instant of the frame. -/
def Present (r c : BitVec 3) : Prop :=
  ∃ n, F.timing.pixelTicks n < 420000 ∧ P.row n = r ∧ P.col n = c

/-- The frame shows one whole disc, in a square whose pair is at the inputs during the frame. -/
def Whole : Prop := ∃ r c, F.Present P r c ∧ #(F.redTicks P) = 1009 ∧ ∀ t ∈ F.redTicks P,
  InSquare r.toNat c.toNat (F.beam t).hCount.toNat (F.beam t).vCount.toNat

/-- While the beam is in the disc of `(r, c)` that pair is at the inputs, and while it is in the
disc of any other pair that other pair is not. -/
def ConsistentWith (r c : BitVec 3) : Prop := ∀ t < 420000, ∀ r' c' : BitVec 3,
  InDisc r'.toNat c'.toNat (F.beam t).hCount.toNat (F.beam t).vCount.toNat →
    ((P.row (F.sample t), P.col (F.sample t)) = (r', c') ↔ (r', c') = (r, c))

lemma beam_at (t : ℕ) : (F.beam t).At t := by
  have hcorner : F.timing.beam.At 0 := F.start.corner ▸ Beam.at_zero
  have h := VgaTiming.clocked_at F.start.resetN hcorner (F.sample t)
  rwa [F.sample_ticks, Nat.zero_add] at h

lemma colour_eq_red_iff (t : ℕ) : F.colour P t = .red ↔
    InDisc (P.row (F.sample t)).toNat (P.col (F.sample t)).toNat (F.beam t).hCount.toNat
      (F.beam t).vCount.toNat := by
  rw [(F.beam_at t).h, (F.beam_at t).v]
  exact Project7.pixel_eq_red_iff (F.beam_at t) _ _

lemma mem_redTicks {t : ℕ} : t ∈ F.redTicks P ↔ t < 420000 ∧
    InDisc (P.row (F.sample t)).toNat (P.col (F.sample t)).toNat (F.beam t).hCount.toNat
      (F.beam t).vCount.toNat := by
  rw [redTicks, mem_filter, mem_range, colour_eq_red_iff]

lemma mem_discTicks {r c t : ℕ} : t ∈ ticksWhere (InDisc r c) ↔
    t < 420000 ∧ InDisc r c (F.beam t).hCount.toNat (F.beam t).vCount.toNat := by
  rw [mem_ticksWhere, (F.beam_at t).h, (F.beam_at t).v]

variable {F P}

lemma ConsistentWith.redTicks_eq {r c : BitVec 3} (h : F.ConsistentWith P r c) :
    F.redTicks P = ticksWhere (InDisc r.toNat c.toNat) := by
  ext t
  rw [F.mem_redTicks, F.mem_discTicks]
  refine and_congr_right (fun ht => ⟨fun hd => ?_, fun hd => ?_⟩)
  · obtain ⟨hr, hc⟩ := Prod.mk.inj ((h t ht _ _ hd).mp rfl)
    rwa [hr, hc] at hd
  · obtain ⟨hr, hc⟩ := Prod.mk.inj ((h t ht _ _ hd).mpr rfl)
    rwa [hr, hc]

lemma Whole.of_consistent {r c : BitVec 3} (hpresent : F.Present P r c)
    (h : F.ConsistentWith P r c) : F.Whole P := by
  refine ⟨r, c, hpresent, ?_, ?_⟩
  · rw [h.redTicks_eq]
    exact card_disc_ticks r.isLt c.isLt
  · intro t ht
    rw [h.redTicks_eq, F.mem_discTicks] at ht
    exact ht.2.inSquare

/-- The square of a piece-coloured tick is that of the pair at the inputs. -/
lemma pair_of_redTick {r c : BitVec 3} {t : ℕ} (ht : t ∈ F.redTicks P)
    (hin : InSquare r.toNat c.toNat (F.beam t).hCount.toNat (F.beam t).vCount.toNat) :
    P.row (F.sample t) = r ∧ P.col (F.sample t) = c := by
  have hd := ((F.mem_redTicks P).mp ht).2
  obtain ⟨hr, hc⟩ := hd.rowOf_colOf (BitVec.isLt _) (BitVec.isLt _)
  obtain ⟨-, hr', hc'⟩ := (inSquare_iff r.isLt c.isLt).mp hin
  exact ⟨BitVec.eq_of_toNat_eq (hr.symm.trans hr'), BitVec.eq_of_toNat_eq (hc.symm.trans hc')⟩

lemma Whole.consistent (h : F.Whole P) : ∃ r c, F.Present P r c ∧ F.ConsistentWith P r c := by
  obtain ⟨r, c, hpresent, hcard, hsquare⟩ := h
  have hown (t : ℕ) (ht : t ∈ F.redTicks P) := pair_of_redTick ht (hsquare t ht)
  have hsub : F.redTicks P ⊆ ticksWhere (InDisc r.toNat c.toNat) := by
    intro t ht
    obtain ⟨hr, hc⟩ := hown t ht
    have hred := (F.mem_redTicks P).mp ht
    rw [hr, hc] at hred
    exact F.mem_discTicks.mpr hred
  have heq : F.redTicks P = ticksWhere (InDisc r.toNat c.toNat) :=
    eq_of_subset_of_card_le hsub (by rw [hcard, card_disc_ticks r.isLt c.isLt])
  refine ⟨r, c, hpresent, ?_⟩
  intro t ht r' c' hd
  constructor
  · intro hpair
    obtain ⟨hr, hc⟩ := Prod.mk.inj hpair
    have hred : t ∈ F.redTicks P := (F.mem_redTicks P).mpr ⟨ht, by rwa [hr, hc]⟩
    obtain ⟨hr', hc'⟩ := hown t hred
    rw [← hr, ← hc, hr', hc']
  · intro hpair
    obtain ⟨rfl, rfl⟩ := Prod.mk.inj hpair
    have hred : t ∈ F.redTicks P := heq ▸ F.mem_discTicks.mpr ⟨ht, hd⟩
    obtain ⟨hr, hc⟩ := hown t hred
    rw [hr, hc]

section Steady

variable {r c : BitVec 3} (hsteady : ∀ n, F.timing.pixelTicks n < 420000 →
  40 ≤ (F.timing.clocked n).beam.vCount.toNat → (F.timing.clocked n).beam.vCount.toNat < 440 →
  P.row n = r ∧ P.col n = c)
include hsteady

lemma consistent_of_steady : F.ConsistentWith P r c := by
  intro t ht r' c' hd
  have hb := hd.onBoard r'.isLt c'.isLt
  obtain ⟨hr, hc⟩ := hsteady (F.sample t) (by rw [F.sample_ticks]; exact ht) hb.2.1 hb.2.2
  rw [hr, hc]
  exact eq_comm

lemma present_of_steady : F.Present P r c := by
  have hticks : F.timing.pixelTicks (F.sample 32000) < 420000 := by
    rw [F.sample_ticks]
    decide
  have hline : (F.beam 32000).vCount.toNat = 40 := (F.beam_at 32000).v
  exact ⟨_, hticks, hsteady _ hticks hline.ge (hline.trans_lt (by decide))⟩

end Steady

end SampledFrame

/-- What a frame shows when writes may land at any cycle of it. Each tick carries the piece colour
exactly in the disc of the pair then at the renderer's inputs; the frame is whole if and only if
the inputs are consistent with one of the pairs present, and it is whole whenever the pair does
not change while the beam is on the lines of the board. -/
theorem frame_whole_iff (F : SampledFrame) (P : PieceSchedule) :
    (∀ t, F.colour P t = .red ↔ InDisc (P.row (F.sample t)).toNat (P.col (F.sample t)).toNat
      (F.beam t).hCount.toNat (F.beam t).vCount.toNat) ∧
    (F.Whole P ↔ ∃ r c, F.Present P r c ∧ F.ConsistentWith P r c) ∧
    ((∃ r c, ∀ n, F.timing.pixelTicks n < 420000 →
      40 ≤ (F.timing.clocked n).beam.vCount.toNat → (F.timing.clocked n).beam.vCount.toNat < 440 →
      P.row n = r ∧ P.col n = c) → F.Whole P) := by
  refine ⟨F.colour_eq_red_iff P, ⟨SampledFrame.Whole.consistent, ?_⟩, ?_⟩
  · rintro ⟨r, c, hpresent, hconsistent⟩
    exact .of_consistent hpresent hconsistent
  · rintro ⟨r, c, hsteady⟩
    exact .of_consistent (SampledFrame.present_of_steady hsteady)
      (SampledFrame.consistent_of_steady hsteady)

lemma pioContents_single (initial : BitVec 3) (k : ℕ) (word : BitVec 32) (n : ℕ) :
    pioContents initial (fun i => if i = k then some word else none) n =
      if n ≤ k then initial else word.setWidth 3 := by
  induction n with
  | zero => rfl
  | succ n ih =>
    rw [pioContents]
    by_cases hn : n = k
    · subst hn
      simp
    · rw [if_neg hn, ih]
      split_ifs <;> first | rfl | omega

def firstCycleFrame : SampledFrame where
  timing := ⟨true, true, Beam.zero⟩
  start := ⟨rfl, rfl⟩
  sample t := 2 * t
  sample_ticks t := by
    rw [(VgaTiming.clocked_eq _ rfl _).2]
    simp

/-- The piece moves from (0, 0) to (7, 7) by two stores in the middle of the frame. -/
def moveAcrossBoard : PieceSchedule where
  initialRow := 0#3
  initialCol := 0#3
  rowWrites n := if n = 400000 then some 7#32 else none
  colWrites n := if n = 400010 then some 7#32 else none

/-- A move between the scan of the old square and the scan of the new one shows the piece in
both. -/
theorem frame_shows_piece_twice :
    (52145 ∈ firstCycleFrame.redTicks moveAcrossBoard ∧
      332495 ∈ firstCycleFrame.redTicks moveAcrossBoard) ∧
    ¬firstCycleFrame.Whole moveAcrossBoard := by
  have hrow : ∀ n, moveAcrossBoard.row n = if n ≤ 400000 then 0#3 else 7#3 :=
    pioContents_single 0#3 400000 7#32
  have hcol : ∀ n, moveAcrossBoard.col n = if n ≤ 400010 then 0#3 else 7#3 :=
    pioContents_single 0#3 400010 7#32
  have hold : 52145 ∈ firstCycleFrame.redTicks moveAcrossBoard := by
    have hx : (firstCycleFrame.beam 52145).hCount.toNat = 145 := (firstCycleFrame.beam_at _).h
    have hy : (firstCycleFrame.beam 52145).vCount.toNat = 65 := (firstCycleFrame.beam_at _).v
    have hs : firstCycleFrame.sample 52145 = 104290 := rfl
    rw [SampledFrame.mem_redTicks, hx, hy, hs, hrow, hcol, if_pos (by decide), if_pos (by decide)]
    decide
  have hnew : 332495 ∈ firstCycleFrame.redTicks moveAcrossBoard := by
    have hx : (firstCycleFrame.beam 332495).hCount.toNat = 495 := (firstCycleFrame.beam_at _).h
    have hy : (firstCycleFrame.beam 332495).vCount.toNat = 415 := (firstCycleFrame.beam_at _).v
    have hs : firstCycleFrame.sample 332495 = 664990 := rfl
    rw [SampledFrame.mem_redTicks, hx, hy, hs, hrow, hcol, if_neg (by decide), if_neg (by decide)]
    decide
  refine ⟨⟨hold, hnew⟩, ?_⟩
  rintro ⟨r, c, -, -, hsquare⟩
  have hx : (firstCycleFrame.beam 52145).hCount.toNat = 145 := (firstCycleFrame.beam_at _).h
  have hx' : (firstCycleFrame.beam 332495).hCount.toNat = 495 := (firstCycleFrame.beam_at _).h
  have h := (hsquare _ hold).1
  have h' := (hsquare _ hnew).1
  rw [hx] at h
  rw [hx'] at h'
  omega

end VecadNiosv
