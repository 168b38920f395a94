import VecadNiosv.NiosvTop

/-!
# The update protocol of the moving piece

`main` moves the piece by a store to `PIECE_ROW` and a later store to `PIECE_COL`. Nothing holds
the renderer off in between, so what it samples depends only on how many stores have been done:
after an even number the pair is a commanded position, after an odd one it joins the row of the
next position to the column of the last. The samples may fall anywhere, so the history of the
design is any interleaving of the stores with clock edges and key levels.
-/

namespace VecadNiosv

open Picture

def commandedPositions : List (ℕ × ℕ) := [(2, 1), (2, 3), (3, 4), (4, 5)]

/-- The contents of the two PIOs after `m` stores of the program, for `m` from 2 on. -/
def pairAfter (m : ℕ) : ℕ × ℕ :=
  match m % 8 with
  | 1 => (2, 5)
  | 2 | 3 => (2, 1)
  | 4 => (2, 3)
  | 5 => (3, 3)
  | 6 => (3, 4)
  | 7 => (4, 4)
  | _ => (4, 5)

lemma mainStores_getElem? (n i : ℕ) (hi : i < 8 * n) :
    (mainStores n)[i]? = mainIteration[i % 8]? := by
  induction n generalizing i with
  | zero => omega
  | succ n ih =>
    rw [mainStores]
    by_cases hfirst : i < 8
    · rw [List.getElem?_append_left hfirst, Nat.mod_eq_of_lt hfirst]
    · have hlen : mainIteration.length ≤ i := Nat.le_of_not_lt hfirst
      rw [List.getElem?_append_right hlen, show i - mainIteration.length = i - 8 from rfl,
        ih (i - 8) (by omega), ← Nat.mod_eq_sub_mod (by omega)]

lemma mainStores_length (n : ℕ) : (mainStores n).length = 8 * n := by
  induction n with
  | zero => rfl
  | succ n ih =>
    rw [mainStores, List.length_append, ih]
    change 8 + 8 * n = 8 * (n + 1)
    omega

lemma next_store {l : List Store} {st : Store} {n : ℕ} (hl : l ++ [st] <+: mainStores n) :
    mainIteration[l.length % 8]? = some st := by
  have hlen := hl.length_le
  rw [List.length_append, List.length_singleton, mainStores_length] at hlen
  rw [← mainStores_getElem? n l.length (by omega)]
  obtain ⟨rest, hrest⟩ := hl
  simp [← hrest]

lemma store_even {m : ℕ} {st : Store} (hm : m % 2 = 0) (hst : mainIteration[m % 8]? = some st)
    (r : PieceRegs) : (r.store st).pieceRow.toNat = (pairAfter (m + 1)).1 ∧
      (r.store st).pieceCol = r.pieceCol ∧ (pairAfter (m + 1)).2 = (pairAfter m).2 := by
  have hcases : m % 8 = 0 ∨ m % 8 = 2 ∨ m % 8 = 4 ∨ m % 8 = 6 := by omega
  rcases hcases with h | h | h | h
  all_goals
    rw [h] at hst
    obtain rfl := Option.some.inj hst
    simp [pairAfter, Nat.add_mod, h]

lemma store_odd {m : ℕ} {st : Store} (hm : m % 2 = 1) (hst : mainIteration[m % 8]? = some st)
    (r : PieceRegs) : (r.store st).pieceCol.toNat = (pairAfter (m + 1)).2 ∧
      (r.store st).pieceRow = r.pieceRow ∧ (pairAfter (m + 1)).1 = (pairAfter m).1 := by
  have hcases : m % 8 = 1 ∨ m % 8 = 3 ∨ m % 8 = 5 ∨ m % 8 = 7 := by omega
  rcases hcases with h | h | h | h
  all_goals
    rw [h] at hst
    obtain rfl := Option.some.inj hst
    simp [pairAfter, Nat.add_mod, h]

/-- What a prefix of the program leaves in the registers, from any contents: the row is settled
by the first store and the column by the second. -/
lemma foldl_main_prefix (p : PieceRegs) {l : List Store} {n : ℕ} (hl : l <+: mainStores n) :
    (1 ≤ l.length → (l.foldl PieceRegs.store p).pieceRow.toNat = (pairAfter l.length).1) ∧
      (2 ≤ l.length → (l.foldl PieceRegs.store p).pieceCol.toNat = (pairAfter l.length).2) := by
  induction l using List.reverseRecOn with
  | nil => exact ⟨fun h => absurd h (by decide), fun h => absurd h (by decide)⟩
  | append_singleton l st ih =>
    obtain ⟨hrow, hcol⟩ := ih ((List.prefix_append l [st]).trans hl)
    have hst := next_store hl
    rw [List.foldl_concat, List.length_append, List.length_singleton]
    rcases Nat.mod_two_eq_zero_or_one l.length with hm | hm
    · obtain ⟨hset, hkeep, hsame⟩ := store_even hm hst (l.foldl PieceRegs.store p)
      exact ⟨fun _ => hset, fun h => by rw [hkeep, hsame, hcol (by omega)]⟩
    · obtain ⟨hset, hkeep, hsame⟩ := store_odd hm hst (l.foldl PieceRegs.store p)
      exact ⟨fun _ => by rw [hkeep, hsame, hrow (by omega)], fun _ => hset⟩

/-- What holds of the eight pairs of a turn holds of all. -/
lemma pairAfter_residue {P : ℕ → ℕ × ℕ → Prop} (hturn : ∀ r < 8, P r (pairAfter r)) (m : ℕ) :
    P (m % 8) (pairAfter m) := by
  have hm : pairAfter m = pairAfter (m % 8) := by rw [pairAfter, pairAfter, Nat.mod_mod]
  rw [hm]
  exact hturn (m % 8) (Nat.mod_lt m (by omega))

lemma pairAfter_commanded_iff (m : ℕ) : pairAfter m ∈ commandedPositions ↔ m % 8 ∉ [1, 5, 7] :=
  pairAfter_residue (P := fun r pair => pair ∈ commandedPositions ↔ r ∉ [1, 5, 7]) (by decide) m

lemma pairAfter_dark_iff (m : ℕ) :
    ((pairAfter m).1 + (pairAfter m).2) % 2 = 1 ↔ m % 8 ∉ [5, 7] :=
  pairAfter_residue (P := fun r pair => (pair.1 + pair.2) % 2 = 1 ↔ r ∉ [5, 7]) (by decide) m

/-- A red pixel on the pins is on a dark square exactly when the contents have odd sum: the
crosswise wiring of the schematic does not change the colour of the square. -/
lemma darkSquare_of_red {s : NiosvTop} (hred : s.vgaPins = .red) :
    Project7.params.darkSquare s.timing.beam.hCount s.timing.beam.vCount = true ↔
      (s.pieces.pieceRow.toNat + s.pieces.pieceCol.toNat) % 2 = 1 := by
  have hd := s.vgaPins_eq_red_iff.mp hred
  have hlt := s.pieces.pieceCol.isLt
  have hlt' := s.pieces.pieceRow.isLt
  obtain ⟨hrow, hcol⟩ := hd.rowOf_colOf hlt hlt'
  rw [Project7.darkSquare_of_onBoard (hd.onBoard hlt hlt'), hrow, hcol, Nat.add_comm]

/-- The pair in the two PIOs at any instant of any run of the program after its first position
has been written. It is a commanded position except between the two stores of positions 1, 3
and 4, where it is (2, 5), (3, 3) and (4, 4); the last two of these are light squares. -/
theorem sampled_pair (key0 : Bool) (es : List TopEvent) (n : ℕ)
    (hmain : es.filterMap TopEvent.store? <+: mainStores n)
    (hfirst : 2 ≤ (es.filterMap TopEvent.store?).length) :
    let m := (es.filterMap TopEvent.store?).length
    let s := NiosvTop.after key0 es
    let pair := (s.pieces.pieceRow.toNat, s.pieces.pieceCol.toNat)
    pair = pairAfter m ∧ (pair ∈ commandedPositions ↔ m % 8 ∉ [1, 5, 7]) ∧
      ((pair.1 + pair.2) % 2 = 1 ↔ m % 8 ∉ [5, 7]) ∧
      (s.vgaPins = .red →
        (Project7.params.darkSquare s.timing.beam.hCount s.timing.beam.vCount = true ↔
          m % 8 ∉ [5, 7])) := by
  intro m s pair
  have hpieces := NiosvTop.after_pieces key0 es
  have hpre := foldl_main_prefix PieceRegs.reset hmain
  rw [← hpieces] at hpre
  have hpair : pair = pairAfter m := Prod.ext (hpre.1 (by omega)) (hpre.2 hfirst)
  refine ⟨hpair, ?_, ?_, ?_⟩
  · rw [hpair]
    exact pairAfter_commanded_iff m
  · rw [hpair]
    exact pairAfter_dark_iff m
  · intro hred
    rw [darkSquare_of_red hred, ← pairAfter_dark_iff, ← hpair]

theorem sampled_pair_seventh_turn :
    let es := (mainStores 7).take 53 |>.map TopEvent.cpuStore
    let s := NiosvTop.after true (es ++ [.clock50Rise])
    (s.pieces.pieceRow.toNat, s.pieces.pieceCol.toNat) = (3, 3) := by
  intro es s
  have hstores : (es ++ [TopEvent.clock50Rise]).filterMap TopEvent.store? = (mainStores 7).take 53 := by
    decide
  have hpair := (sampled_pair true (es ++ [.clock50Rise]) 7
    (hstores ▸ List.take_prefix 53 (mainStores 7)) (by rw [hstores]; decide)).1
  rw [hstores] at hpair
  exact hpair

/-- Between the two stores of its third position the program leaves (3, 3), which it never
commands and which is a light square. -/
theorem sampled_pair_not_commanded :
    let es := [TopEvent.cpuStore (iowrAlteraAvalonPioData PIECE_ROW_BASE 2#32),
      .cpuStore (iowrAlteraAvalonPioData PIECE_COL_BASE 1#32),
      .cpuStore (iowrAlteraAvalonPioData PIECE_ROW_BASE 2#32),
      .cpuStore (iowrAlteraAvalonPioData PIECE_COL_BASE 3#32),
      .cpuStore (iowrAlteraAvalonPioData PIECE_ROW_BASE 3#32), .clock50Rise]
    let s := NiosvTop.after true es
    es.filterMap TopEvent.store? <+: mainStores 1 ∧
      (s.pieces.pieceRow.toNat, s.pieces.pieceCol.toNat) ∉ commandedPositions ∧
      (s.pieces.pieceRow.toNat + s.pieces.pieceCol.toNat) % 2 = 0 := by
  intro es s
  have hpieces : s.pieces = ⟨3#3, 3#3⟩ := by
    rw [NiosvTop.after_pieces]
    decide
  rw [hpieces]
  refine ⟨⟨mainIteration.drop 5, by decide⟩, by decide, by decide⟩

end VecadNiosv
