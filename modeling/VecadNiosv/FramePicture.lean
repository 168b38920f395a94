import VecadNiosv.SyncProtocol
import VecadNiosv.Superposition

/-!
# The picture of a whole frame

A frame is the 420000 pixel ticks that follow a beam at the top left corner. Tick `t` shows the
pixel `(t mod 800, t div 800)`, so what a frame shows is counted on the grid of the raster.
-/

namespace VecadNiosv

open Finset CyclicSweep Picture

structure FrameStart (s : VgaTiming) : Prop where
  resetN : s.resetN = true
  corner : s.beam = Beam.zero

/-- The colour that the project 7 renderer gives to the state of the raster, with the given values
at its piece inputs. -/
def Project7.pixel (s : VgaTiming) (pieceRow pieceCol : BitVec 3) : Rgb :=
  Project7.checkerboardRenderer s.ports.hCount s.ports.vCount s.ports.activeVideo pieceRow pieceCol

/-- The ticks of a frame whose coordinates satisfy `P`. -/
def ticksWhere (P : ℕ → ℕ → Prop) [∀ x y, Decidable (P x y)] : Finset ℕ :=
  {t ∈ range 420000 | P (t % 800) (t / 800 % 525)}

section Counting

lemma mem_ticksWhere {P : ℕ → ℕ → Prop} [∀ x y, Decidable (P x y)] {t : ℕ} :
    t ∈ ticksWhere P ↔ t < 420000 ∧ P (t % 800) (t / 800 % 525) := by
  rw [ticksWhere, mem_filter, mem_range]

lemma ticksWhere_subset {P Q : ℕ → ℕ → Prop} [∀ x y, Decidable (P x y)]
    [∀ x y, Decidable (Q x y)] (hPQ : ∀ x y, P x y → Q x y) : ticksWhere P ⊆ ticksWhere Q := by
  intro t ht
  rw [mem_ticksWhere] at ht ⊢
  exact ⟨ht.1, hPQ _ _ ht.2⟩

lemma card_ticksWhere (P : ℕ → ℕ → Prop) [∀ x y, Decidable (P x y)] {w k i j : ℕ}
    (hW : i + w ≤ 800) (hH : j + k ≤ 525)
    (hP : ∀ x y, P x y → (i ≤ x ∧ x < i + w) ∧ j ≤ y ∧ y < j + k) :
    #(ticksWhere P) = #{p ∈ range w ×ˢ range k | P (i + p.1) (j + p.2)} :=
  (card_scan 800 525 P).trans (card_window P hW hH hP)

lemma card_ticksWhere_rectangle (P : ℕ → ℕ → Prop) [∀ x y, Decidable (P x y)] {w k i j : ℕ}
    (hW : i + w ≤ 800) (hH : j + k ≤ 525)
    (hP : ∀ x y, P x y ↔ (i ≤ x ∧ x < i + w) ∧ j ≤ y ∧ y < j + k) :
    #(ticksWhere P) = w * k := by
  have hall : ∀ p ∈ range w ×ˢ range k, P (i + p.1) (j + p.2) := by
    rintro ⟨x, y⟩ hp
    simp only [mem_product, mem_range] at hp
    rw [hP]
    omega
  rw [card_ticksWhere P hW hH (fun x y => (hP x y).mp), filter_true_of_mem hall, card_product,
    card_range, card_range]

/-- The number of lattice points in a disc of radius 18. -/
lemma card_disc_cell :
    #{p ∈ range 50 ×ˢ range 50 | ((p.1 : ℤ) - 25) ^ 2 + ((p.2 : ℤ) - 25) ^ 2 ≤ 324} = 1009 := by
  decide +kernel

lemma card_disc_ticks {r c : ℕ} (hr : r < 8) (hc : c < 8) : #(ticksWhere (InDisc r c)) = 1009 := by
  rw [card_ticksWhere (InDisc r c) (w := 50) (k := 50) (i := 120 + 50 * c) (j := 40 + 50 * r)
    (by omega) (by omega)]
  · refine (congrArg card (filter_congr (fun p _ => ?_))).trans card_disc_cell
    unfold InDisc
    push_cast
    ring_nf
  · intro x y hd
    have := hd.inSquare
    unfold InSquare at this
    omega

lemma card_board_ticks : #(ticksWhere OnBoard) = 160000 :=
  card_ticksWhere_rectangle OnBoard (i := 120) (w := 400) (j := 40) (k := 400) (by omega) (by omega)
    (fun _ _ => Iff.rfl)

lemma card_visible_ticks : #(ticksWhere fun x y => x < 640 ∧ y < 480) = 307200 :=
  card_ticksWhere_rectangle _ (i := 0) (w := 640) (j := 0) (k := 480) (by omega) (by omega)
    (fun x y => by omega)

lemma mem_disc_ticks {r c t : ℕ} (hr : r < 8) (hc : c < 8) :
    t ∈ ticksWhere (InDisc r c) ↔ ∃ x y, InDisc r c x y ∧ t = x + 800 * y := by
  rw [mem_ticksWhere]
  constructor
  · rintro ⟨ht, hd⟩
    exact ⟨_, _, hd, by omega⟩
  · rintro ⟨x, y, hd, rfl⟩
    have := hd.margin
    have hlt : x + 800 * y < 420000 := by omega
    have hscan := (scan_eq_iff (W := 800) (H := 525) (by omega) (by omega)).mpr
      (Nat.mod_eq_of_lt hlt : (x + 800 * y) % (800 * 525) = x + 800 * y)
    rw [hscan.1, hscan.2]
    exact ⟨hlt, hd⟩

lemma disjoint_disc_ticks {r c r' c' : ℕ} (hne : ¬(r = r' ∧ c = c')) :
    Disjoint (ticksWhere (InDisc r c)) (ticksWhere (InDisc r' c')) := by
  rw [disjoint_left]
  intro t ht ht'
  exact hne ((mem_ticksWhere.mp ht).2.unique (mem_ticksWhere.mp ht').2)

lemma exists_shifted_tick {r c r' c' t : ℕ} (hr : r < 8) (hc : c < 8) (hr' : r' < 8) (hc' : c' < 8)
    (ht : t ∈ ticksWhere (InDisc r c)) : ∃ t' ∈ ticksWhere (InDisc r' c'),
      (t' : ℤ) = t + 50 * ((c' : ℤ) - c) + 800 * (50 * ((r' : ℤ) - r)) := by
  obtain ⟨x, y, hd, rfl⟩ := (mem_disc_ticks hr hc).mp ht
  have hm := hd.margin
  have hx : ((x + 50 * c' - 50 * c : ℕ) : ℤ) = x + 50 * c' - 50 * c := by omega
  have hy : ((y + 50 * r' - 50 * r : ℕ) : ℤ) = y + 50 * r' - 50 * r := by omega
  refine ⟨(x + 50 * c' - 50 * c) + 800 * (y + 50 * r' - 50 * r), ?_, ?_⟩
  · refine (mem_disc_ticks hr' hc').mpr ⟨_, _, ?_, rfl⟩
    unfold InDisc at hd ⊢
    rw [hx, hy]
    convert hd using 3 <;> ring
  · push_cast [hx, hy]
    ring

end Counting

lemma onBoard_visible {x y : ℕ} (hb : OnBoard x y) : x < 640 ∧ y < 480 := by
  unfold OnBoard at hb
  omega

lemma boardColour_ne_black (x y : ℕ) : boardColour x y ≠ .black := by
  unfold boardColour
  split_ifs <;> decide

lemma boardColour_eq_background_iff {x y : ℕ} : boardColour x y = .background ↔ ¬OnBoard x y := by
  unfold boardColour
  split_ifs with hb hdark <;> simp [hb] <;> decide

namespace Project7

variable {s : VgaTiming} {t : ℕ} (hb : s.beam.At t) (pieceRow pieceCol : BitVec 3)
include hb

lemma pixel_eq : pixel s pieceRow pieceCol =
    if t % 800 < 640 ∧ t / 800 % 525 < 480 then
      if InDisc pieceRow.toNat pieceCol.toNat (t % 800) (t / 800 % 525) then .red
      else boardColour (t % 800) (t / 800 % 525)
    else .black := by
  change checkerboardRenderer s.beam.hCount s.beam.vCount s.beam.activeVideo pieceRow pieceCol = _
  rw [checkerboardRenderer_eq, hb.h, hb.v]
  simp only [hb.activeVideo_iff]

lemma pixel_eq_red_iff : pixel s pieceRow pieceCol = .red ↔
    InDisc pieceRow.toNat pieceCol.toNat (t % 800) (t / 800 % 525) := by
  have hon := InDisc.onBoard pieceRow.isLt pieceCol.isLt (x := t % 800) (y := t / 800 % 525)
  rw [pixel_eq hb]
  split_ifs with hactive hd
  · simp [hd]
  · simp [hd, boardColour_ne_red]
  · exact iff_of_false (by decide) (fun hd => hactive (onBoard_visible (hon hd)))

lemma pixel_eq_background_iff : pixel s pieceRow pieceCol = .background ↔
    (t % 800 < 640 ∧ t / 800 % 525 < 480) ∧ ¬OnBoard (t % 800) (t / 800 % 525) := by
  have hboard := InDisc.onBoard pieceRow.isLt pieceCol.isLt (x := t % 800) (y := t / 800 % 525)
  rw [pixel_eq hb]
  split_ifs with hactive hd
  · exact iff_of_false (by decide) (fun hout => hout.2 (hboard hd))
  · rw [boardColour_eq_background_iff, and_iff_right hactive]
  · exact iff_of_false (by decide) (fun hout => hactive hout.1)

lemma pixel_eq_black_iff : pixel s pieceRow pieceCol = .black ↔
    ¬(t % 800 < 640 ∧ t / 800 % 525 < 480) := by
  rw [pixel_eq hb]
  split_ifs with hactive hd
  · exact iff_of_false (by decide) (fun hout => hout hactive)
  · exact iff_of_false (boardColour_ne_black _ _) (fun hout => hout hactive)
  · simp [hactive]

lemma pixel_eq_board_iff : (pixel s pieceRow pieceCol = .darkGrey ∨
      pixel s pieceRow pieceCol = .lightGrey) ↔
    OnBoard (t % 800) (t / 800 % 525) ∧
      ¬InDisc pieceRow.toNat pieceCol.toNat (t % 800) (t / 800 % 525) := by
  have hvis := onBoard_visible (x := t % 800) (y := t / 800 % 525)
  rw [pixel_eq hb]
  split_ifs with hactive hd
  · exact iff_of_false (by decide) (fun hin => hin.2 hd)
  · rw [and_iff_left hd]
    unfold boardColour
    split_ifs with hon hdark
    · simp [hon]
    · simp [hon]
    · exact iff_of_false (by decide) hon
  · exact iff_of_false (by decide) (fun hin => hactive (hvis hin.1))

end Project7

lemma FrameStart.afterTicks_at {s : VgaTiming} (hs : FrameStart s) (t : ℕ) :
    (s.afterTicks t).beam.At t := by
  have hb : s.beam.At 0 := hs.corner ▸ Beam.at_zero
  simpa using VgaTiming.afterTicks_at hs.resetN hb t

lemma ne_square_of_ne_pair {r c r' c' : BitVec 3} (hne : (r, c) ≠ (r', c')) :
    ¬(r.toNat = r'.toNat ∧ c.toNat = c'.toNat) := by
  rintro ⟨hr, hc⟩
  exact hne (Prod.ext (BitVec.eq_of_toNat_eq hr) (BitVec.eq_of_toNat_eq hc))

section HeldPiece

variable {s : VgaTiming} (hs : FrameStart s) (r c : BitVec 3)
include hs

lemma red_ticks_eq : {t ∈ range 420000 | Project7.pixel (s.afterTicks t) r c = .red} =
    ticksWhere (InDisc r.toNat c.toNat) :=
  filter_congr (fun t _ => Project7.pixel_eq_red_iff (hs.afterTicks_at t) r c)

lemma board_ticks_eq : {t ∈ range 420000 | Project7.pixel (s.afterTicks t) r c = .darkGrey ∨
      Project7.pixel (s.afterTicks t) r c = .lightGrey} =
    ticksWhere OnBoard \ ticksWhere (InDisc r.toNat c.toNat) := by
  ext t
  simp only [mem_filter, mem_range, mem_sdiff, mem_ticksWhere,
    Project7.pixel_eq_board_iff (hs.afterTicks_at t) r c]
  tauto

lemma background_ticks_eq :
    {t ∈ range 420000 | Project7.pixel (s.afterTicks t) r c = .background} =
      ticksWhere (fun x y => x < 640 ∧ y < 480) \ ticksWhere OnBoard := by
  ext t
  simp only [mem_filter, mem_range, mem_sdiff, mem_ticksWhere,
    Project7.pixel_eq_background_iff (hs.afterTicks_at t) r c]
  tauto

lemma differing_ticks_eq {s' : VgaTiming} (hs' : FrameStart s') (r' c' : BitVec 3)
    (hne : (r, c) ≠ (r', c')) :
    {t ∈ range 420000 | Project7.pixel (s.afterTicks t) r c ≠ Project7.pixel (s'.afterTicks t) r' c'} =
      ticksWhere (InDisc r.toNat c.toNat) ∪ ticksWhere (InDisc r'.toNat c'.toNat) := by
  have hsquares := ne_square_of_ne_pair hne
  ext t
  have hred := Project7.pixel_eq_red_iff (hs.afterTicks_at t) r c
  have hred' := Project7.pixel_eq_red_iff (hs'.afterTicks_at t) r' c'
  simp only [mem_filter, mem_range, mem_union, mem_ticksWhere, ← and_or_left, ← hred, ← hred']
  apply and_congr_right
  intro _
  constructor
  · intro hdiff
    by_contra hnone
    rw [not_or, hred, hred'] at hnone
    apply hdiff
    rw [Project7.pixel_eq (hs.afterTicks_at t), Project7.pixel_eq (hs'.afterTicks_at t)]
    simp only [if_neg hnone.1, if_neg hnone.2]
  · rintro (hone | hone) heq
    · have hother := hone.symm.trans heq
      exact hsquares ((hred.mp hone).unique (hred'.mp hother.symm))
    · exact hsquares ((hred.mp (heq.trans hone)).unique (hred'.mp hone))

end HeldPiece

/-- What a frame shows while the piece inputs are held at `(r, c)`. -/
structure ShowsHeldPiece (s : VgaTiming) (r c : BitVec 3) : Prop where
  redCount : #{t ∈ range 420000 | Project7.pixel (s.afterTicks t) r c = .red} = 1009
  redInside : ∀ t < 420000, Project7.pixel (s.afterTicks t) r c = .red →
    (126 + 50 * c.toNat ≤ (s.afterTicks t).ports.hCount.toNat ∧
      (s.afterTicks t).ports.hCount.toNat < 164 + 50 * c.toNat) ∧
    46 + 50 * r.toNat ≤ (s.afterTicks t).ports.vCount.toNat ∧
      (s.afterTicks t).ports.vCount.toNat < 84 + 50 * r.toNat
  boardCount : #{t ∈ range 420000 | Project7.pixel (s.afterTicks t) r c = .darkGrey ∨
    Project7.pixel (s.afterTicks t) r c = .lightGrey} = 160000 - 1009
  backgroundCount : #{t ∈ range 420000 | Project7.pixel (s.afterTicks t) r c = .background} = 147200
  restBlack : ∀ t < 420000, Project7.pixel (s.afterTicks t) r c ∉
    [Rgb.red, .darkGrey, .lightGrey, .background] → Project7.pixel (s.afterTicks t) r c = .black

theorem showsHeldPiece {s : VgaTiming} (hs : FrameStart s) (r c : BitVec 3) :
    ShowsHeldPiece s r c where
  redCount := by
    rw [red_ticks_eq hs]
    exact card_disc_ticks r.isLt c.isLt
  redInside t _ hred := by
    have hm := ((Project7.pixel_eq_red_iff (hs.afterTicks_at t) r c).mp hred).margin
    rw [← (hs.afterTicks_at t).h, ← (hs.afterTicks_at t).v] at hm
    change (_ ≤ (s.afterTicks t).beam.hCount.toNat ∧ (s.afterTicks t).beam.hCount.toNat < _) ∧
      _ ≤ (s.afterTicks t).beam.vCount.toNat ∧ (s.afterTicks t).beam.vCount.toNat < _
    omega
  boardCount := by
    have hsub : ticksWhere (InDisc r.toNat c.toNat) ⊆ ticksWhere OnBoard :=
      ticksWhere_subset (fun x y hd => hd.onBoard r.isLt c.isLt)
    rw [board_ticks_eq hs, card_sdiff_of_subset hsub, card_board_ticks, card_disc_ticks r.isLt c.isLt]
  backgroundCount := by
    have hsub : ticksWhere OnBoard ⊆ ticksWhere (fun x y => x < 640 ∧ y < 480) :=
      ticksWhere_subset (fun x y hb => onBoard_visible hb)
    rw [background_ticks_eq hs, card_sdiff_of_subset hsub, card_board_ticks, card_visible_ticks]
  restBlack t _ hrest := by
    simp only [List.mem_cons, List.not_mem_nil, or_false, not_or] at hrest
    obtain ⟨hred, hdark, hlight, hback⟩ := hrest
    have hat := hs.afterTicks_at t
    have hboard := mt (Project7.pixel_eq_board_iff hat r c).mpr (not_or.mpr ⟨hdark, hlight⟩)
    rw [Project7.pixel_eq_red_iff hat] at hred
    rw [Project7.pixel_eq_background_iff hat] at hback
    rw [Project7.pixel_eq_black_iff hat]
    tauto

/-- How two frames with the piece held at different positions relate. -/
structure FramesDifferByDiscs (s s' : VgaTiming) (r c r' c' : BitVec 3) : Prop where
  differCount : #{t ∈ range 420000 |
    Project7.pixel (s.afterTicks t) r c ≠ Project7.pixel (s'.afterTicks t) r' c'} = 2018
  shifted : ({t ∈ range 420000 | Project7.pixel (s'.afterTicks t) r' c' = .red}.image
      fun t : ℕ => (t : ℤ)) =
    {t ∈ range 420000 | Project7.pixel (s.afterTicks t) r c = .red}.image
      fun t : ℕ => (t : ℤ) + 50 * ((c'.toNat : ℤ) - c.toNat) + 800 * (50 * ((r'.toNat : ℤ) - r.toNat))

theorem framesDifferByDiscs {s s' : VgaTiming} (hs : FrameStart s) (hs' : FrameStart s')
    {r c r' c' : BitVec 3} (hne : (r, c) ≠ (r', c')) : FramesDifferByDiscs s s' r c r' c' where
  differCount := by
    have hsquares := ne_square_of_ne_pair hne
    rw [differing_ticks_eq hs r c hs' r' c' hne, card_union_of_disjoint (disjoint_disc_ticks hsquares),
      card_disc_ticks r.isLt c.isLt, card_disc_ticks r'.isLt c'.isLt]
  shifted := by
    rw [red_ticks_eq hs, red_ticks_eq hs']
    ext z
    simp only [mem_image]
    constructor
    · rintro ⟨t', ht', rfl⟩
      obtain ⟨t, ht, hshift⟩ := exists_shifted_tick r'.isLt c'.isLt r.isLt c.isLt ht'
      exact ⟨t, ht, by rw [hshift]; ring⟩
    · rintro ⟨t, ht, rfl⟩
      obtain ⟨t', ht', hshift⟩ := exists_shifted_tick r.isLt c.isLt r'.isLt c'.isLt ht
      exact ⟨t', ht', hshift⟩

/-- The whole-frame picture of the moving piece: the colour counts of every frame that holds a
position, and the relation of any two frames that hold different ones. -/
theorem frame_picture (s s' : VgaTiming) (hs : FrameStart s) (hs' : FrameStart s')
    (r c r' c' : BitVec 3) :
    ShowsHeldPiece s r c ∧ ((r, c) ≠ (r', c') → FramesDifferByDiscs s s' r c r' c') :=
  ⟨showsHeldPiece hs r c, framesDifferByDiscs hs hs'⟩

/-- The first frame after a reset with the piece at (2, 1), beside a later one with it at (2, 3). -/
theorem frame_picture_first_move :
    ShowsHeldPiece ⟨true, false, Beam.zero⟩ 2 1 ∧
      FramesDifferByDiscs ⟨true, false, Beam.zero⟩ ⟨true, true, Beam.zero⟩ 2 1 2 3 := by
  have hpicture := frame_picture ⟨true, false, Beam.zero⟩ ⟨true, true, Beam.zero⟩ ⟨rfl, rfl⟩
    ⟨rfl, rfl⟩ 2 1 2 3
  exact ⟨hpicture.1, hpicture.2 (by decide)⟩

end VecadNiosv
