import VecadNiosv.BoardPicture

/-!
# The three renderers agree by superposition

The opening position of project 6 and the single piece of project 7 are both drawn over the empty
board of project 5, with the same disc in every square. Since discs of different squares are
disjoint, a pixel of project 6 is a player's colour exactly when the piece of project 7 would cover
it from one of that player's squares.
-/

namespace VecadNiosv

open Picture

lemma boardColour_ne_red (x y : ℕ) : boardColour x y ≠ .red := by
  unfold boardColour
  split_ifs <;> decide

lemma boardColour_ne_blue (x y : ℕ) : boardColour x y ≠ .blue := by
  unfold boardColour
  split_ifs <;> decide

/-- The dark squares of rows 0 to 2, where player A starts. -/
def Picture.StartsA (r c : ℕ) : Prop := (r + c) % 2 = 1 ∧ r ≤ 2

def Picture.StartsB (r c : ℕ) : Prop := (r + c) % 2 = 1 ∧ 5 ≤ r

namespace Project6

variable (h v : BitVec 10)

/-- The wires that select the dark squares in some of the rows, such as `player_a_square`. -/
lemma darkRow_iff {p : BitVec 3 → Bool} {R : ℕ → Prop} (hp : ∀ row, p row = true ↔ R row.toNat) :
    (params.boardArea h v && params.darkSquare h v && p (params.boardRow v)) = true ↔
      OnBoard h.toNat v.toNat ∧
        (rowOf v.toNat + colOf h.toNat) % 2 = 1 ∧ R (rowOf v.toNat) := by
  rw [params_eq.2, Bool.and_eq_true, Bool.and_eq_true, Project7.boardArea_iff, and_assoc, hp]
  apply and_congr_right
  intro hb
  rw [Project7.darkSquare_of_onBoard hb, Project7.boardRow_of_onBoard hb]

/-- With the circle test they select the discs of these squares. -/
lemma darkRow_circle_iff {p : BitVec 3 → Bool} {R : ℕ → Prop}
    (hp : ∀ row, p row = true ↔ R row.toNat) :
    (params.boardArea h v && params.darkSquare h v && p (params.boardRow v) &&
        params.insidePieceCircle h v) = true ↔
      ∃ r c, (r < 8 ∧ c < 8) ∧ ((r + c) % 2 = 1 ∧ R r) ∧ InDisc r c h.toNat v.toNat := by
  rw [Bool.and_eq_true, darkRow_iff h v hp]
  constructor
  · rintro ⟨⟨hb, hsquare⟩, hcircle⟩
    refine ⟨rowOf v.toNat, colOf h.toNat, ⟨onBoard_rowOf_lt hb, onBoard_colOf_lt hb⟩, hsquare, ?_⟩
    exact (Project7.insidePieceCircle_of_onBoard hb).mp hcircle
  · rintro ⟨r, c, ⟨hr, hc⟩, hsquare, hd⟩
    have hb := hd.onBoard hr hc
    obtain ⟨rfl, rfl⟩ := hd.rowOf_colOf hr hc
    exact ⟨⟨hb, hsquare⟩, (Project7.insidePieceCircle_of_onBoard hb).mpr hd⟩

lemma drawPlayerA_iff : drawPlayerA h v = true ↔
    ∃ r c, (r < 8 ∧ c < 8) ∧ StartsA r c ∧ InDisc r c h.toNat v.toNat :=
  darkRow_circle_iff h v (R := fun r => r ≤ 2) (fun _ => decide_eq_true_iff)

lemma drawPlayerB_iff : drawPlayerB h v = true ↔
    ∃ r c, (r < 8 ∧ c < 8) ∧ StartsB r c ∧ InDisc r c h.toNat v.toNat :=
  darkRow_circle_iff h v (R := fun r => 5 ≤ r) (fun _ => decide_eq_true_iff)

lemma not_drawPlayerA_and_B (hA : drawPlayerA h v = true) : drawPlayerB h v = false := by
  rw [← Bool.not_eq_true, drawPlayerB_iff]
  obtain ⟨r, c, -, hSA, hd⟩ := (drawPlayerA_iff h v).mp hA
  rintro ⟨r', c', -, hSB, hd'⟩
  obtain ⟨rfl, rfl⟩ := hd.unique hd'
  unfold StartsA at hSA
  unfold StartsB at hSB
  omega

theorem checkerboardRenderer_eq (activeVideo : Bool) :
    checkerboardRenderer h v activeVideo =
      if activeVideo then
        if drawPlayerA h v then .red else if drawPlayerB h v then .blue
        else boardColour h.toNat v.toNat
      else .black := by
  rw [← board_branch_eq]
  rfl

variable {h v}

lemma eq_red_iff {activeVideo : Bool} : checkerboardRenderer h v activeVideo = .red ↔
    activeVideo = true ∧ drawPlayerA h v = true := by
  rw [checkerboardRenderer_eq]
  split_ifs with hactive hA hB <;> simp_all [boardColour_ne_red]
  · decide
  · decide

lemma eq_blue_iff {activeVideo : Bool} : checkerboardRenderer h v activeVideo = .blue ↔
    activeVideo = true ∧ drawPlayerB h v = true := by
  rw [checkerboardRenderer_eq]
  split_ifs with hactive hA hB <;> simp_all [boardColour_ne_blue, not_drawPlayerA_and_B]
  · decide
  · decide

/-- Outside the discs of both players project 6 shows the board of project 5. -/
lemma eq_project5 {activeVideo : Bool} (hred : checkerboardRenderer h v activeVideo ≠ .red)
    (hblue : checkerboardRenderer h v activeVideo ≠ .blue) :
    checkerboardRenderer h v activeVideo = Project5.checkerboardRenderer h v activeVideo := by
  rw [ne_eq, eq_red_iff] at hred
  rw [ne_eq, eq_blue_iff] at hblue
  rw [checkerboardRenderer_eq, Project5.checkerboardRenderer_eq]
  split_ifs with hactive hA hB
  · exact absurd ⟨hactive, hA⟩ hred
  · exact absurd ⟨hactive, hB⟩ hblue
  · rfl
  · rfl

end Project6

lemma Project7.eq_red_iff {h v : BitVec 10} {activeVideo : Bool} {pieceRow pieceCol : BitVec 3} :
    Project7.checkerboardRenderer h v activeVideo pieceRow pieceCol = .red ↔
      activeVideo = true ∧ InDisc pieceRow.toNat pieceCol.toNat h.toNat v.toNat := by
  rw [Project7.checkerboardRenderer_eq]
  split_ifs with hactive hd
  · simp [hactive, hd]
  · simp [hd, boardColour_ne_red]
  · simp [hactive]
    decide

/-- Outside the disc of the piece project 7 shows the board of project 5. -/
lemma Project7.eq_project5 {h v : BitVec 10} {activeVideo : Bool} {pieceRow pieceCol : BitVec 3}
    (hne : Project7.checkerboardRenderer h v activeVideo pieceRow pieceCol ≠ .red) :
    Project7.checkerboardRenderer h v activeVideo pieceRow pieceCol =
      Project5.checkerboardRenderer h v activeVideo := by
  rw [ne_eq, Project7.eq_red_iff] at hne
  rw [Project7.checkerboardRenderer_eq, Project5.checkerboardRenderer_eq]
  split_ifs with hactive hd
  · exact absurd ⟨hactive, hd⟩ hne
  · rfl
  · rfl

lemma exists_square_iff (S : ℕ → ℕ → Prop) (x y : ℕ) :
    (∃ r c, (r < 8 ∧ c < 8) ∧ S r c ∧ InDisc r c x y) ↔
      ∃ r c : BitVec 3, S r.toNat c.toNat ∧ InDisc r.toNat c.toNat x y := by
  constructor
  · rintro ⟨r, c, ⟨hr, hc⟩, h⟩
    refine ⟨BitVec.ofNat 3 r, BitVec.ofNat 3 c, ?_⟩
    rwa [BitVec.toNat_ofNat, BitVec.toNat_ofNat, Nat.mod_eq_of_lt hr, Nat.mod_eq_of_lt hc]
  · rintro ⟨r, c, h⟩
    exact ⟨r.toNat, c.toNat, ⟨r.isLt, c.isLt⟩, h⟩

/-- The three generations of `checkerboard_renderer` agree by superposition at every value of the
counters, inside and outside the visible area. -/
theorem renderers_superpose (h v : BitVec 10) (activeVideo : Bool) :
    (∀ pieceRow pieceCol : BitVec 3,
      let pixel := Project7.checkerboardRenderer h v activeVideo pieceRow pieceCol
      (pixel ≠ .red → pixel = Project5.checkerboardRenderer h v activeVideo) ∧
      (pixel = .red → activeVideo = true ∧ OnBoard h.toNat v.toNat ∧
        InSquare pieceRow.toNat pieceCol.toNat h.toNat v.toNat)) ∧
    (Project6.checkerboardRenderer h v activeVideo = .red ↔
      ∃ r c : BitVec 3, ((r.toNat + c.toNat) % 2 = 1 ∧ r.toNat ≤ 2) ∧
        Project7.checkerboardRenderer h v activeVideo r c = .red) ∧
    (Project6.checkerboardRenderer h v activeVideo = .blue ↔
      ∃ r c : BitVec 3, ((r.toNat + c.toNat) % 2 = 1 ∧ 5 ≤ r.toNat) ∧
        Project7.checkerboardRenderer h v activeVideo r c = .red) ∧
    (Project6.checkerboardRenderer h v activeVideo ≠ .red →
      Project6.checkerboardRenderer h v activeVideo ≠ .blue →
      Project6.checkerboardRenderer h v activeVideo = Project5.checkerboardRenderer h v activeVideo) := by
  refine ⟨?_, ?_, ?_, ?_⟩
  · intro pieceRow pieceCol pixel
    constructor
    · exact Project7.eq_project5
    · intro hred
      obtain ⟨hactive, hd⟩ := Project7.eq_red_iff.mp hred
      exact ⟨hactive, hd.onBoard pieceRow.isLt pieceCol.isLt, hd.inSquare⟩
  · rw [Project6.eq_red_iff, Project6.drawPlayerA_iff, exists_square_iff]
    simp only [Project7.eq_red_iff, StartsA]
    tauto
  · rw [Project6.eq_blue_iff, Project6.drawPlayerB_iff, exists_square_iff]
    simp only [Project7.eq_red_iff, StartsB]
    tauto
  · exact Project6.eq_project5

end VecadNiosv
