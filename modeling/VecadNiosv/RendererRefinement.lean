import VecadNiosv.BoardPicture

/-!
# The fixed-width renderer and the integers

The wires of the project 7 renderer are narrow and some of them wrap or alias off the board.
`integerRenderer` computes the same picture over unbounded integers. The two agree at every value
of the inputs, because the area test masks exactly the inputs at which a wire goes wrong.
-/

namespace VecadNiosv

open Picture

/-- The picture of project 7 in integer arithmetic, at the pixel `(x, y)`. -/
def integerRenderer (activeVideo : Bool) (x y pieceRow pieceCol : ℤ) : Rgb :=
  if activeVideo then
    if (120 ≤ x ∧ x < 520) ∧ 40 ≤ y ∧ y < 440 then
      let c := (x - 120) / 50
      let r := (y - 40) / 50
      if (r = pieceRow ∧ c = pieceCol) ∧
          (x - 145 - 50 * c) ^ 2 + (y - 65 - 50 * r) ^ 2 ≤ 18 ^ 2 then .red
      else if (r + c) % 2 = 1 then .darkGrey else .lightGrey
    else .background
  else .black

lemma natCast_onBoard_iff (x y : ℕ) :
    ((120 ≤ (x : ℤ) ∧ (x : ℤ) < 520) ∧ 40 ≤ (y : ℤ) ∧ (y : ℤ) < 440) ↔ OnBoard x y := by
  unfold OnBoard
  omega

lemma natCast_colOf {x y : ℕ} (hb : OnBoard x y) : ((x : ℤ) - 120) / 50 = colOf x := by
  obtain ⟨hx, -⟩ := hb
  unfold colOf
  omega

lemma natCast_rowOf {x y : ℕ} (hb : OnBoard x y) : ((y : ℤ) - 40) / 50 = rowOf y := by
  obtain ⟨-, hy⟩ := hb
  unfold rowOf
  omega

/-- The circle test of a pixel's own square, with the square selected, is its disc. -/
lemma own_square_iff {r c x y : ℕ} (hr : r < 8) (hc : c < 8) :
    ((rowOf y : ℤ) = r ∧ (colOf x : ℤ) = c) ∧
        ((x : ℤ) - 145 - 50 * colOf x) ^ 2 + ((y : ℤ) - 65 - 50 * rowOf y) ^ 2 ≤ 18 ^ 2 ↔
      InDisc r c x y := by
  have hshape : InDisc (rowOf y) (colOf x) x y ↔
      ((x : ℤ) - 145 - 50 * colOf x) ^ 2 + ((y : ℤ) - 65 - 50 * rowOf y) ^ 2 ≤ 18 ^ 2 := by
    rw [InDisc, sub_sub, sub_sub]
    norm_num
  rw [← hshape, Int.natCast_inj, Int.natCast_inj]
  constructor
  · rintro ⟨⟨rfl, rfl⟩, hd⟩
    exact hd
  · intro hd
    obtain ⟨rfl, rfl⟩ := hd.rowOf_colOf hr hc
    exact ⟨⟨rfl, rfl⟩, hd⟩

lemma integerRenderer_natCast (activeVideo : Bool) (x y : ℕ) {r c : ℕ} (hr : r < 8) (hc : c < 8) :
    integerRenderer activeVideo x y r c =
      if activeVideo then if InDisc r c x y then .red else boardColour x y else .black := by
  rw [integerRenderer]
  simp only [natCast_onBoard_iff]
  by_cases hb : OnBoard x y
  · have hparity : ((rowOf y : ℤ) + colOf x) % 2 = 1 ↔ (rowOf y + colOf x) % 2 = 1 := by omega
    simp only [if_pos hb, natCast_colOf hb, natCast_rowOf hb, own_square_iff hr hc, hparity,
      boardColour]
  · have hout : ¬InDisc r c x y := fun hd => hb (hd.onBoard hr hc)
    simp only [if_neg hb, if_neg hout, boardColour]

/-- At every value of its inputs the fixed-width renderer yields the colour of the integer
computation. -/
theorem checkerboardRenderer_eq_integerRenderer (hCount vCount : BitVec 10) (activeVideo : Bool)
    (pieceRow pieceCol : BitVec 3) :
    Project7.checkerboardRenderer hCount vCount activeVideo pieceRow pieceCol =
      integerRenderer activeVideo hCount.toNat vCount.toNat pieceRow.toNat pieceCol.toNat := by
  rw [Project7.checkerboardRenderer_eq, integerRenderer_natCast _ _ _ pieceRow.isLt pieceCol.isLt]

/-- Just right of the board the column wire aliases to 0, which the area test keeps from view. -/
example : Project7.params.boardCol 520#10 = 0#3 := by decide

end VecadNiosv
