import VecadNiosv.DataBus

/-!
# The Nios V system of project 7

The processor reaches two output PIOs on its data bus, `PIECE_ROW` and `PIECE_COL`. Each is a
3-bit register with reset value 0 whose data register takes the low bits of a stored word. The
bases are those of `system.h`, which are also the slave addresses of `niosv_system.qsys`.
-/

namespace VecadNiosv

def PIECE_ROW_BASE : BitVec 32 := 0x30050#32

def PIECE_COL_BASE : BitVec 32 := 0x30040#32

/-- The data registers of the two PIOs, which drive their export ports. -/
structure PieceRegs where
  pieceRow : BitVec 3
  pieceCol : BitVec 3
  deriving DecidableEq, Repr

namespace PieceRegs

def reset : PieceRegs := ⟨0#3, 0#3⟩

/-- The bus routes a store to the data register at its address. -/
def store (p : PieceRegs) (st : Store) : PieceRegs where
  pieceRow := if st.address = PIECE_ROW_BASE then st.data.setWidth 3 else p.pieceRow
  pieceCol := if st.address = PIECE_COL_BASE then st.data.setWidth 3 else p.pieceCol

@[simp] lemma store_row (p : PieceRegs) (word : BitVec 32) :
    p.store (iowrAlteraAvalonPioData PIECE_ROW_BASE word) = ⟨word.setWidth 3, p.pieceCol⟩ := by
  simp [store, iowrAlteraAvalonPioData, iowr, PIECE_ROW_BASE, PIECE_COL_BASE]

@[simp] lemma store_col (p : PieceRegs) (word : BitVec 32) :
    p.store (iowrAlteraAvalonPioData PIECE_COL_BASE word) = ⟨p.pieceRow, word.setWidth 3⟩ := by
  simp [store, iowrAlteraAvalonPioData, iowr, PIECE_ROW_BASE, PIECE_COL_BASE]

end PieceRegs

/-- The stores of one turn of `main`'s loop, between which the program sleeps. -/
def mainIteration : List Store :=
  [ iowrAlteraAvalonPioData PIECE_ROW_BASE 2#32, iowrAlteraAvalonPioData PIECE_COL_BASE 1#32,
    iowrAlteraAvalonPioData PIECE_ROW_BASE 2#32, iowrAlteraAvalonPioData PIECE_COL_BASE 3#32,
    iowrAlteraAvalonPioData PIECE_ROW_BASE 3#32, iowrAlteraAvalonPioData PIECE_COL_BASE 4#32,
    iowrAlteraAvalonPioData PIECE_ROW_BASE 4#32, iowrAlteraAvalonPioData PIECE_COL_BASE 5#32 ]

def mainStores : ℕ → List Store
  | 0 => []
  | n + 1 => mainIteration ++ mainStores n

end VecadNiosv
