import VecadNiosv.VgaTiming

/-!
# The three checkerboard renderers

`checkerboard_renderer.v` exists in three generations: project 5 draws the empty board, project 6
the opening position, project 7 one piece at the position of its inputs. Each file declares the
same board geometry. The wires of that geometry are defined here over the `localparam` values of
a file, at the widths and signedness of the Verilog source: an operand of a `localparam` makes an
expression 32 bits wide, an assignment cuts it to the width of its wire, and an unsigned operand
makes the expression unsigned.
-/

namespace VecadNiosv

/-- The `localparam` declarations of a renderer. -/
structure BoardParams where
  BOARD_X : BitVec 32
  BOARD_Y : BitVec 32
  BOARD_SIZE : BitVec 32
  SQUARE_SIZE : BitVec 32
  deriving DecidableEq, Repr

/-- `h_count - BOARD_X`, cut to ten bits. -/
def axisOffset (count : BitVec 10) (origin : BitVec 32) : BitVec 10 :=
  (count.setWidth 32 - origin).setWidth 10

/-- `board_x / SQUARE_SIZE`, cut to three bits. -/
def axisSquare (offset : BitVec 10) (size : BitVec 32) : BitVec 3 :=
  (offset.setWidth 32 / size).setWidth 3

/-- `board_x % SQUARE_SIZE`, cut to six bits. -/
def axisWithin (offset : BitVec 10) (size : BitVec 32) : BitVec 6 :=
  (offset.setWidth 32 % size).setWidth 6

/-- `$signed({1'b0, square_x}) - 7'sd25`. -/
def axisDelta (within : BitVec 6) : BitVec 7 :=
  (0#1 ++ within) - 25#7

/-- `dx * dx` in the context of a signed 14-bit wire. -/
def axisSquared (delta : BitVec 7) : BitVec 14 :=
  delta.signExtend 14 * delta.signExtend 14

namespace BoardParams

variable (P : BoardParams) (h v : BitVec 10)

def boardArea : Bool :=
  decide (h.setWidth 32 ≥ P.BOARD_X) && decide (h.setWidth 32 < P.BOARD_X + P.BOARD_SIZE) &&
    decide (v.setWidth 32 ≥ P.BOARD_Y) && decide (v.setWidth 32 < P.BOARD_Y + P.BOARD_SIZE)

def boardX : BitVec 10 := axisOffset h P.BOARD_X

def boardY : BitVec 10 := axisOffset v P.BOARD_Y

def boardCol : BitVec 3 := axisSquare (P.boardX h) P.SQUARE_SIZE

def boardRow : BitVec 3 := axisSquare (P.boardY v) P.SQUARE_SIZE

def darkSquare : Bool := (P.boardRow v).getLsbD 0 ^^ (P.boardCol h).getLsbD 0

def squareX : BitVec 6 := axisWithin (P.boardX h) P.SQUARE_SIZE

def squareY : BitVec 6 := axisWithin (P.boardY v) P.SQUARE_SIZE

def dx : BitVec 7 := axisDelta (P.squareX h)

def dy : BitVec 7 := axisDelta (P.squareY v)

def dxSquared : BitVec 14 := axisSquared (P.dx h)

def dySquared : BitVec 14 := axisSquared (P.dy v)

/-- The sum of two signed 14-bit wires on an unsigned 15-bit wire. -/
def distanceSquared : BitVec 15 :=
  (P.dxSquared h).signExtend 15 + (P.dySquared v).signExtend 15

def insidePieceCircle : Bool := decide (P.distanceSquared h v ≤ 324#15)

end BoardParams

namespace Rgb

def darkGrey : Rgb := ⟨70#8, 70#8, 70#8⟩

def lightGrey : Rgb := ⟨220#8, 220#8, 220#8⟩

def background : Rgb := ⟨20#8, 20#8, 20#8⟩

/-- The colour of player A, and of the piece that the Nios V controls. -/
def red : Rgb := ⟨0xE0#8, 0x20#8, 0x20#8⟩

def blue : Rgb := ⟨0x20#8, 0x40#8, 0xE0#8⟩

end Rgb

namespace Project5

def params : BoardParams := ⟨120#32, 40#32, 400#32, 50#32⟩

def checkerboardRenderer (hCount vCount : BitVec 10) (activeVideo : Bool) : Rgb :=
  if activeVideo then
    if params.boardArea hCount vCount then
      if params.darkSquare hCount vCount then .darkGrey else .lightGrey
    else .background
  else .black

end Project5

namespace Project6

def params : BoardParams := ⟨120#32, 40#32, 400#32, 50#32⟩

variable (hCount vCount : BitVec 10)

def playerASquare : Bool :=
  params.boardArea hCount vCount && params.darkSquare hCount vCount &&
    decide (params.boardRow vCount ≤ 2#3)

def playerBSquare : Bool :=
  params.boardArea hCount vCount && params.darkSquare hCount vCount &&
    decide (params.boardRow vCount ≥ 5#3)

def drawPlayerA : Bool :=
  playerASquare hCount vCount && params.insidePieceCircle hCount vCount

def drawPlayerB : Bool :=
  playerBSquare hCount vCount && params.insidePieceCircle hCount vCount

def checkerboardRenderer (activeVideo : Bool) : Rgb :=
  if activeVideo then
    if drawPlayerA hCount vCount then .red
    else if drawPlayerB hCount vCount then .blue
    else if params.boardArea hCount vCount then
      if params.darkSquare hCount vCount then .darkGrey else .lightGrey
    else .background
  else .black

end Project6

namespace Project7

def params : BoardParams := ⟨120#32, 40#32, 400#32, 50#32⟩

variable (hCount vCount : BitVec 10)

def selectedSquare (pieceRow pieceCol : BitVec 3) : Bool :=
  params.boardArea hCount vCount && decide (params.boardRow vCount = pieceRow) &&
    decide (params.boardCol hCount = pieceCol)

def drawPiece (pieceRow pieceCol : BitVec 3) : Bool :=
  selectedSquare hCount vCount pieceRow pieceCol && params.insidePieceCircle hCount vCount

def checkerboardRenderer (activeVideo : Bool) (pieceRow pieceCol : BitVec 3) : Rgb :=
  if activeVideo then
    if drawPiece hCount vCount pieceRow pieceCol then .red
    else if params.boardArea hCount vCount then
      if params.darkSquare hCount vCount then .darkGrey else .lightGrey
    else .background
  else .black

end Project7

lemma params_eq : Project5.params = Project7.params ∧ Project6.params = Project7.params := ⟨rfl, rfl⟩

end VecadNiosv
