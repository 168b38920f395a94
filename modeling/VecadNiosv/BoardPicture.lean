import VecadNiosv.CheckerboardRenderer

/-!
# The board in integer coordinates

What the renderers are for, stated without widths: a board of 8 by 8 squares of 50 pixels whose
top left corner is at (120, 40), and in each square a disc of radius 18 about the pixel (25, 25).
The fixed-width wires of the renderers are then shown to compute this picture at every value of
the two 10-bit counters. Off the board the wires do wrap and alias, and `boardArea` masks it.
-/

namespace VecadNiosv

namespace Picture

def OnBoard (x y : ℕ) : Prop := (120 ≤ x ∧ x < 520) ∧ 40 ≤ y ∧ y < 440

/-- The pixel belongs to the square in row `r` and column `c`. -/
def InSquare (r c x y : ℕ) : Prop :=
  (120 + 50 * c ≤ x ∧ x < 170 + 50 * c) ∧ 40 + 50 * r ≤ y ∧ y < 90 + 50 * r

/-- The pixel belongs to the disc about the centre of the square in row `r` and column `c`. -/
def InDisc (r c x y : ℕ) : Prop :=
  ((x : ℤ) - (145 + 50 * c)) ^ 2 + ((y : ℤ) - (65 + 50 * r)) ^ 2 ≤ 324

instance (x y : ℕ) : Decidable (OnBoard x y) := inferInstanceAs (Decidable (_ ∧ _))

instance (r c x y : ℕ) : Decidable (InSquare r c x y) := inferInstanceAs (Decidable (_ ∧ _))

instance (r c x y : ℕ) : Decidable (InDisc r c x y) := inferInstanceAs (Decidable (_ ≤ _))

def rowOf (y : ℕ) : ℕ := (y - 40) / 50

def colOf (x : ℕ) : ℕ := (x - 120) / 50

/-- The empty board on its background. -/
def boardColour (x y : ℕ) : Rgb :=
  if OnBoard x y then
    if (rowOf y + colOf x) % 2 = 1 then .darkGrey else .lightGrey
  else .background

lemma onBoard_rowOf_lt {x y : ℕ} (hb : OnBoard x y) : rowOf y < 8 := by
  obtain ⟨-, hy⟩ := hb
  unfold rowOf
  omega

lemma onBoard_colOf_lt {x y : ℕ} (hb : OnBoard x y) : colOf x < 8 := by
  obtain ⟨hx, -⟩ := hb
  unfold colOf
  omega

lemma inSquare_iff {r c x y : ℕ} (hr : r < 8) (hc : c < 8) :
    InSquare r c x y ↔ OnBoard x y ∧ rowOf y = r ∧ colOf x = c := by
  unfold InSquare OnBoard rowOf colOf
  omega

/-- A disc keeps at least seven pixels off the left and upper side of its square and six off the
other two. -/
lemma InDisc.margin {r c x y : ℕ} (hd : InDisc r c x y) :
    (127 + 50 * c ≤ x ∧ x ≤ 163 + 50 * c) ∧ 47 + 50 * r ≤ y ∧ y ≤ 83 + 50 * r := by
  unfold InDisc at hd
  have hx : |(x : ℤ) - (145 + 50 * c)| ≤ 18 := abs_le_of_sq_le_sq (by nlinarith) (by norm_num)
  have hy : |(y : ℤ) - (65 + 50 * r)| ≤ 18 := abs_le_of_sq_le_sq (by nlinarith) (by norm_num)
  rw [abs_le] at hx hy
  omega

lemma InDisc.inSquare {r c x y : ℕ} (hd : InDisc r c x y) : InSquare r c x y := by
  have := hd.margin
  unfold InSquare
  omega

lemma InDisc.unique {r c r' c' x y : ℕ} (hd : InDisc r c x y) (hd' : InDisc r' c' x y) :
    r = r' ∧ c = c' := by
  have h := hd.inSquare
  have h' := hd'.inSquare
  unfold InSquare at h h'
  omega

lemma InDisc.onBoard {r c x y : ℕ} (hr : r < 8) (hc : c < 8) (hd : InDisc r c x y) : OnBoard x y :=
  ((inSquare_iff hr hc).mp hd.inSquare).1

lemma InDisc.rowOf_colOf {r c x y : ℕ} (hr : r < 8) (hc : c < 8) (hd : InDisc r c x y) :
    rowOf y = r ∧ colOf x = c :=
  ((inSquare_iff hr hc).mp hd.inSquare).2

end Picture

open Picture

lemma axisOffset_toNat (count : BitVec 10) {origin : ℕ} (ho : origin ≤ 1024) :
    (axisOffset count (BitVec.ofNat 32 origin)).toNat = (count.toNat + (1024 - origin)) % 1024 := by
  have hc := count.isLt
  simp only [axisOffset, BitVec.toNat_setWidth, BitVec.toNat_sub, BitVec.toNat_ofNat]
  omega

lemma axisSquare_toNat (count : BitVec 10) (origin : ℕ) (ho : origin ≤ 1024) :
    (axisSquare (axisOffset count (BitVec.ofNat 32 origin)) 50#32).toNat =
      (count.toNat + (1024 - origin)) % 1024 / 50 % 8 := by
  rw [← axisOffset_toNat count ho]
  generalize axisOffset count (BitVec.ofNat 32 origin) = offset
  have hoffset : offset.toNat % 2 ^ 32 = offset.toNat := Nat.mod_eq_of_lt (by omega)
  simp only [axisSquare, BitVec.toNat_setWidth, BitVec.toNat_udiv, BitVec.toNat_ofNat, hoffset]

lemma axisWithin_toNat (count : BitVec 10) (origin : ℕ) (ho : origin ≤ 1024) :
    (axisWithin (axisOffset count (BitVec.ofNat 32 origin)) 50#32).toNat =
      (count.toNat + (1024 - origin)) % 1024 % 50 := by
  rw [← axisOffset_toNat count ho]
  generalize axisOffset count (BitVec.ofNat 32 origin) = offset
  have hoffset : offset.toNat % 2 ^ 32 = offset.toNat := Nat.mod_eq_of_lt (by omega)
  simp only [axisWithin, BitVec.toNat_setWidth, BitVec.toNat_umod, BitVec.toNat_ofNat, hoffset]
  change offset.toNat % 50 % 64 = _
  omega

lemma axisSquared_signExtend (within : BitVec 6) (hw : within.toNat < 50) :
    (((axisSquared (axisDelta within)).signExtend 15).toNat : ℤ) = ((within.toNat : ℤ) - 25) ^ 2 := by
  revert within
  decide

lemma within_sq_le (w : ℕ) (hw : w < 50) : ((w : ℤ) - 25) ^ 2 ≤ 625 := by
  have : |(w : ℤ) - 25| ≤ 25 := abs_le.mpr (by omega)
  calc ((w : ℤ) - 25) ^ 2 = |(w : ℤ) - 25| ^ 2 := (sq_abs _).symm
    _ ≤ 25 ^ 2 := by gcongr
    _ = 625 := by norm_num

namespace Project7

variable (h v : BitVec 10)

lemma boardArea_iff : params.boardArea h v = true ↔ OnBoard h.toNat v.toNat := by
  have hh := h.isLt
  have hv := v.isLt
  unfold OnBoard
  simp only [BoardParams.boardArea, params, Bool.and_eq_true, decide_eq_true_eq, ge_iff_le,
    BitVec.le_def, BitVec.lt_def, BitVec.toNat_setWidth, BitVec.toNat_add, BitVec.toNat_ofNat]
  omega

lemma boardCol_toNat : (params.boardCol h).toNat = (h.toNat + 904) % 1024 / 50 % 8 :=
  axisSquare_toNat h 120 (by omega)

lemma boardRow_toNat : (params.boardRow v).toNat = (v.toNat + 984) % 1024 / 50 % 8 :=
  axisSquare_toNat v 40 (by omega)

lemma squareX_toNat : (params.squareX h).toNat = (h.toNat + 904) % 1024 % 50 :=
  axisWithin_toNat h 120 (by omega)

lemma squareY_toNat : (params.squareY v).toNat = (v.toNat + 984) % 1024 % 50 :=
  axisWithin_toNat v 40 (by omega)

variable {h v}

lemma boardCol_of_onBoard (hb : OnBoard h.toNat v.toNat) :
    (params.boardCol h).toNat = colOf h.toNat := by
  obtain ⟨hx, -⟩ := hb
  rw [boardCol_toNat, colOf]
  omega

lemma boardRow_of_onBoard (hb : OnBoard h.toNat v.toNat) :
    (params.boardRow v).toNat = rowOf v.toNat := by
  obtain ⟨-, hy⟩ := hb
  rw [boardRow_toNat, rowOf]
  omega

lemma darkSquare_of_onBoard (hb : OnBoard h.toNat v.toNat) :
    params.darkSquare h v = true ↔ (rowOf v.toNat + colOf h.toNat) % 2 = 1 := by
  rw [← boardRow_of_onBoard hb, ← boardCol_of_onBoard hb, BoardParams.darkSquare]
  generalize params.boardRow v = r
  generalize params.boardCol h = c
  revert r c
  decide

variable (h v) in
/-- The distance wire holds the integer distance from the middle of the 50 by 50 cell, also where
the cell is an alias off the board. -/
lemma distanceSquared_toNat : ((params.distanceSquared h v).toNat : ℤ) =
    (((params.squareX h).toNat : ℤ) - 25) ^ 2 + (((params.squareY v).toNat : ℤ) - 25) ^ 2 := by
  have hx : (params.squareX h).toNat < 50 := by
    rw [squareX_toNat]
    omega
  have hy : (params.squareY v).toNat < 50 := by
    rw [squareY_toNat]
    omega
  have hdx := axisSquared_signExtend _ hx
  have hdy := axisSquared_signExtend _ hy
  have hdx_le := within_sq_le _ hx
  have hdy_le := within_sq_le _ hy
  rw [← hdx] at hdx_le ⊢
  rw [← hdy] at hdy_le ⊢
  rw [BoardParams.distanceSquared, BitVec.toNat_add, Nat.mod_eq_of_lt]
  · push_cast
    rfl
  · change ((axisSquared (axisDelta (params.squareX h))).signExtend 15).toNat +
      ((axisSquared (axisDelta (params.squareY v))).signExtend 15).toNat < 2 ^ 15
    omega

lemma insidePieceCircle_of_onBoard (hb : OnBoard h.toNat v.toNat) :
    params.insidePieceCircle h v = true ↔ InDisc (rowOf v.toNat) (colOf h.toNat) h.toNat v.toNat := by
  obtain ⟨hx, hy⟩ := hb
  have hdist := distanceSquared_toNat h v
  have hsx : ((params.squareX h).toNat : ℤ) - 25 = h.toNat - (145 + 50 * colOf h.toNat) := by
    rw [squareX_toNat, colOf]
    omega
  have hsy : ((params.squareY v).toNat : ℤ) - 25 = v.toNat - (65 + 50 * rowOf v.toNat) := by
    rw [squareY_toNat, rowOf]
    omega
  rw [hsx, hsy] at hdist
  rw [BoardParams.insidePieceCircle, decide_eq_true_eq, BitVec.le_def, InDisc, ← hdist]
  change _ ≤ 324 ↔ _
  omega

variable (h v)

/-- `draw_piece` is membership in the disc of the square that the inputs select. -/
theorem drawPiece_iff (pieceRow pieceCol : BitVec 3) : drawPiece h v pieceRow pieceCol = true ↔
    InDisc pieceRow.toNat pieceCol.toNat h.toNat v.toNat := by
  have hr := pieceRow.isLt
  have hc := pieceCol.isLt
  simp only [drawPiece, selectedSquare, Bool.and_eq_true, decide_eq_true_eq]
  constructor
  · rintro ⟨⟨⟨harea, rfl⟩, rfl⟩, hcircle⟩
    have hb := (boardArea_iff h v).mp harea
    rw [boardRow_of_onBoard hb, boardCol_of_onBoard hb]
    exact (insidePieceCircle_of_onBoard hb).mp hcircle
  · intro hd
    have hb := hd.onBoard hr hc
    obtain ⟨hrow, hcol⟩ := hd.rowOf_colOf hr hc
    refine ⟨⟨⟨(boardArea_iff h v).mpr hb, ?_⟩, ?_⟩, ?_⟩
    · exact BitVec.eq_of_toNat_eq ((boardRow_of_onBoard hb).trans hrow)
    · exact BitVec.eq_of_toNat_eq ((boardCol_of_onBoard hb).trans hcol)
    · rw [insidePieceCircle_of_onBoard hb, hrow, hcol]
      exact hd

end Project7

lemma board_branch_eq (h v : BitVec 10) :
    (if Project7.params.boardArea h v then
      if Project7.params.darkSquare h v then Rgb.darkGrey else Rgb.lightGrey
    else Rgb.background) = boardColour h.toNat v.toNat := by
  unfold boardColour
  by_cases hb : OnBoard h.toNat v.toNat
  · rw [if_pos ((Project7.boardArea_iff h v).mpr hb), if_pos hb]
    simp only [Project7.darkSquare_of_onBoard hb]
  · rw [if_neg (fun harea => hb ((Project7.boardArea_iff h v).mp harea)), if_neg hb]

theorem Project5.checkerboardRenderer_eq (h v : BitVec 10) (activeVideo : Bool) :
    Project5.checkerboardRenderer h v activeVideo =
      if activeVideo then boardColour h.toNat v.toNat else .black := by
  rw [← board_branch_eq]
  rfl

/-- The project 7 renderer in integer coordinates. -/
theorem Project7.checkerboardRenderer_eq (h v : BitVec 10) (activeVideo : Bool)
    (pieceRow pieceCol : BitVec 3) :
    Project7.checkerboardRenderer h v activeVideo pieceRow pieceCol =
      if activeVideo then
        if InDisc pieceRow.toNat pieceCol.toNat h.toNat v.toNat then .red
        else boardColour h.toNat v.toNat
      else .black := by
  rw [← board_branch_eq]
  unfold Project7.checkerboardRenderer
  simp only [Project7.drawPiece_iff]

end VecadNiosv
