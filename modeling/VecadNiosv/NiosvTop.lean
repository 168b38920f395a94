import VecadNiosv.FramePicture
import VecadNiosv.Library.Joined
import VecadNiosv.NiosvSystem

/-!
# The schematic of project 7

`niosv_top.bdf` is the top level of project 7: a drawing of three blocks, ten pins and thirty
connectors. Ports and connector ends at the same coordinates are joined. The value of a pin or of
an input port is that of the output port or input pin on its net, so the netlist is computed here
from the coordinates of the drawing and not from the names of its ports.
-/

namespace VecadNiosv

open Wiring Picture

inductive Terminal where
  | pinClock50 | pinKey0 | pinVgaR | pinVgaG | pinVgaB
  | pinVgaHS | pinVgaVS | pinVgaBlankN | pinVgaSyncN | pinVgaClk
  | rendererHCount | rendererVCount | rendererActiveVideo | rendererPieceRow | rendererPieceCol
  | rendererVgaR | rendererVgaG | rendererVgaB
  | timingClk50 | timingResetN | timingHCount | timingVCount | timingActiveVideo
  | timingVgaHS | timingVgaVS | timingVgaBlankN | timingVgaSyncN | timingVgaClk
  | systemClkClk | systemPieceColExport | systemPieceRowExport
  deriving DecidableEq, Repr

/-- Input pins and output ports put a value on their net. -/
def Terminal.drivesNet : Terminal → Bool
  | .pinClock50 | .pinKey0 => true
  | .rendererVgaR | .rendererVgaG | .rendererVgaB => true
  | .timingHCount | .timingVCount | .timingActiveVideo => true
  | .timingVgaHS | .timingVgaVS | .timingVgaBlankN | .timingVgaSyncN | .timingVgaClk => true
  | .systemPieceColExport | .systemPieceRowExport => true
  | _ => false

abbrev Point := ℕ × ℕ

/-- A pin or symbol of the drawing: the corner of its rectangle and the offsets of its ports. -/
structure Block where
  corner : Point
  ports : List (Terminal × Point)

structure Schematic where
  blocks : List Block
  connectors : List (Point × Point)

namespace Schematic

def placed (S : Schematic) : List (Terminal × Point) :=
  S.blocks.flatMap fun b => b.ports.map fun p => (p.1, (b.corner.1 + p.2.1, b.corner.2 + p.2.2))

/-- Every terminal with the point that represents its net. -/
def nets (S : Schematic) : List (Terminal × Point) :=
  S.placed.map fun p => (p.1, representative S.connectors p.2)

def drivers (S : Schematic) (t : Terminal) : List Terminal :=
  (S.nets.filter fun d => d.1.drivesNet && (t, d.2) ∈ S.nets).map Prod.fst

lemma mem_nets {S : Schematic} {t : Terminal} {r : Point} : (t, r) ∈ S.nets ↔
    ∃ p, (t, p) ∈ S.placed ∧ representative S.connectors p = r := by
  rw [nets, List.mem_map]
  constructor
  · rintro ⟨⟨u, p⟩, hp, heq⟩
    obtain ⟨rfl, rfl⟩ := Prod.mk.inj heq
    exact ⟨p, hp, rfl⟩
  · rintro ⟨p, hp, rfl⟩
    exact ⟨(t, p), hp, rfl⟩

/-- The drivers of a terminal are the driving terminals on points joined to its own. -/
theorem mem_drivers_iff (S : Schematic) (t d : Terminal) : d ∈ S.drivers t ↔ d.drivesNet = true ∧
    ∃ p q, (d, p) ∈ S.placed ∧ (t, q) ∈ S.placed ∧ Joined S.connectors p q := by
  simp only [drivers, List.mem_map, List.mem_filter, Bool.and_eq_true, decide_eq_true_eq]
  constructor
  · rintro ⟨⟨d, r⟩, ⟨hr, hd, ht⟩, rfl⟩
    obtain ⟨p, hp, rfl⟩ := mem_nets.mp hr
    obtain ⟨q, hq, heq⟩ := mem_nets.mp ht
    exact ⟨hd, p, q, hp, hq, (representative_eq_iff _ _ _).mp heq.symm⟩
  · rintro ⟨hd, p, q, hp, hq, hjoined⟩
    have heq := (representative_eq_iff _ _ _).mpr hjoined
    exact ⟨(d, _), ⟨mem_nets.mpr ⟨p, hp, rfl⟩, hd, mem_nets.mpr ⟨q, hq, heq.symm⟩⟩, rfl⟩

/-- The value at a terminal, given those of the driving terminals. -/
def valueAt (S : Schematic) (outputs : Terminal → ℕ) (t : Terminal) : ℕ :=
  match S.drivers t with
  | [d] => outputs d
  | _ => 0

end Schematic

/-- `niosv_top.bdf`, its pins first and then its symbols. -/
def niosvTopBdf : Schematic where
  blocks :=
    [ ⟨(80, 176), [(.pinClock50, (176, 8))]⟩,
      ⟨(80, 192), [(.pinKey0, (176, 8))]⟩,
      ⟨(1152, 96), [(.pinVgaR, (0, 8))]⟩,
      ⟨(1152, 112), [(.pinVgaG, (0, 8))]⟩,
      ⟨(1152, 128), [(.pinVgaB, (0, 8))]⟩,
      ⟨(632, 280), [(.pinVgaHS, (0, 8))]⟩,
      ⟨(632, 296), [(.pinVgaVS, (0, 8))]⟩,
      ⟨(632, 312), [(.pinVgaBlankN, (0, 8))]⟩,
      ⟨(632, 328), [(.pinVgaSyncN, (0, 8))]⟩,
      ⟨(632, 344), [(.pinVgaClk, (0, 8))]⟩,
      ⟨(896, 72),
        [ (.rendererHCount, (0, 32)), (.rendererVCount, (0, 48)), (.rendererActiveVideo, (0, 64)),
          -- the row input is above the column input, and the exports of the processor are the
          -- other way round; the two wires between them do not cross
          (.rendererPieceRow, (0, 80)), (.rendererPieceCol, (0, 96)),
          (.rendererVgaR, (216, 32)), (.rendererVgaG, (216, 48)), (.rendererVgaB, (216, 64)) ]⟩,
      ⟨(312, 208),
        [ (.timingClk50, (0, 32)), (.timingResetN, (0, 48)), (.timingHCount, (208, 32)),
          (.timingVCount, (208, 48)), (.timingActiveVideo, (208, 64)), (.timingVgaHS, (208, 80)),
          (.timingVgaVS, (208, 96)), (.timingVgaBlankN, (208, 112)),
          (.timingVgaSyncN, (208, 128)), (.timingVgaClk, (208, 144)) ]⟩,
      ⟨(624, 152),
        [ (.systemClkClk, (0, 32)), (.systemPieceColExport, (216, 32)),
          (.systemPieceRowExport, (216, 48)) ]⟩ ]
  connectors :=
    [ ((1112, 104), (1152, 104)), ((1112, 120), (1152, 120)), ((1112, 136), (1152, 136)),
      ((576, 104), (896, 104)), ((584, 120), (896, 120)), ((592, 136), (896, 136)),
      ((896, 152), (864, 152)), ((880, 168), (896, 168)), ((864, 184), (840, 184)),
      ((864, 152), (864, 184)), ((880, 200), (840, 200)), ((880, 168), (880, 200)),
      ((304, 240), (312, 240)), ((304, 184), (304, 240)), ((256, 184), (304, 184)),
      ((304, 184), (624, 184)), ((296, 256), (296, 200)), ((296, 200), (256, 200)),
      ((576, 240), (520, 240)), ((584, 256), (520, 256)), ((592, 272), (520, 272)),
      ((576, 104), (576, 240)), ((584, 120), (584, 256)), ((592, 136), (592, 272)),
      ((296, 256), (312, 256)), ((520, 288), (632, 288)), ((520, 304), (632, 304)),
      ((520, 320), (632, 320)), ((520, 336), (632, 336)), ((520, 352), (632, 352)) ]

lemma niosvTopBdf_nets : niosvTopBdf.nets =
    [ (.pinClock50, (312, 240)), (.pinKey0, (256, 200)), (.pinVgaR, (1152, 104)),
      (.pinVgaG, (1152, 120)), (.pinVgaB, (1152, 136)), (.pinVgaHS, (632, 288)),
      (.pinVgaVS, (632, 304)), (.pinVgaBlankN, (632, 320)), (.pinVgaSyncN, (632, 336)),
      (.pinVgaClk, (632, 352)), (.rendererHCount, (896, 104)), (.rendererVCount, (896, 120)),
      (.rendererActiveVideo, (896, 136)), (.rendererPieceRow, (840, 184)),
      (.rendererPieceCol, (896, 168)), (.rendererVgaR, (1152, 104)), (.rendererVgaG, (1152, 120)),
      (.rendererVgaB, (1152, 136)), (.timingClk50, (312, 240)), (.timingResetN, (256, 200)),
      (.timingHCount, (896, 104)), (.timingVCount, (896, 120)), (.timingActiveVideo, (896, 136)),
      (.timingVgaHS, (632, 288)), (.timingVgaVS, (632, 304)), (.timingVgaBlankN, (632, 320)),
      (.timingVgaSyncN, (632, 336)), (.timingVgaClk, (632, 352)), (.systemClkClk, (312, 240)),
      (.systemPieceColExport, (840, 184)), (.systemPieceRowExport, (896, 168)) ] := by
  decide +kernel

/-- The nets of the drawing: every pin and input port has exactly one driver. The row export of
the processor drives the column input of the renderer, and the column export its row input. -/
lemma niosvTopBdf_drivers (t : Terminal) : niosvTopBdf.drivers t =
    match t with
    | .pinClock50 | .timingClk50 | .systemClkClk => [.pinClock50]
    | .pinKey0 | .timingResetN => [.pinKey0]
    | .pinVgaR | .rendererVgaR => [.rendererVgaR]
    | .pinVgaG | .rendererVgaG => [.rendererVgaG]
    | .pinVgaB | .rendererVgaB => [.rendererVgaB]
    | .pinVgaHS | .timingVgaHS => [.timingVgaHS]
    | .pinVgaVS | .timingVgaVS => [.timingVgaVS]
    | .pinVgaBlankN | .timingVgaBlankN => [.timingVgaBlankN]
    | .pinVgaSyncN | .timingVgaSyncN => [.timingVgaSyncN]
    | .pinVgaClk | .timingVgaClk => [.timingVgaClk]
    | .rendererHCount | .timingHCount => [.timingHCount]
    | .rendererVCount | .timingVCount => [.timingVCount]
    | .rendererActiveVideo | .timingActiveVideo => [.timingActiveVideo]
    | .rendererPieceRow | .systemPieceColExport => [.systemPieceColExport]
    | .rendererPieceCol | .systemPieceRowExport => [.systemPieceRowExport] := by
  rw [Schematic.drivers, niosvTopBdf_nets]
  cases t <;> decide +kernel

/-- The registers behind the drawing: those of `vga_timing` and of the two PIOs. -/
structure NiosvTop where
  timing : VgaTiming
  pieces : PieceRegs

/-- A rising edge of `CLOCK_50`, a level of `KEY[0]`, or a store of the processor. -/
inductive TopEvent where
  | clock50Rise
  | key0 (level : Bool)
  | cpuStore (st : Store)

namespace NiosvTop

def registeredOutput (s : NiosvTop) : Terminal → ℕ
  | .timingHCount => s.timing.ports.hCount.toNat
  | .timingVCount => s.timing.ports.vCount.toNat
  | .timingActiveVideo => s.timing.ports.activeVideo.toNat
  | .timingVgaHS => s.timing.ports.vgaHS.toNat
  | .timingVgaVS => s.timing.ports.vgaVS.toNat
  | .timingVgaBlankN => s.timing.ports.vgaBlankN.toNat
  | .timingVgaSyncN => s.timing.ports.vgaSyncN.toNat
  | .timingVgaClk => s.timing.ports.vgaClk.toNat
  | .systemPieceColExport => s.pieces.pieceCol.toNat
  | .systemPieceRowExport => s.pieces.pieceRow.toNat
  | _ => 0

/-- The renderer at the values that the nets bring to its input ports. -/
def rendererRgb (s : NiosvTop) : Rgb :=
  let input := niosvTopBdf.valueAt s.registeredOutput
  Project7.checkerboardRenderer (BitVec.ofNat 10 (input .rendererHCount))
    (BitVec.ofNat 10 (input .rendererVCount)) (input .rendererActiveVideo == 1)
    (BitVec.ofNat 3 (input .rendererPieceRow)) (BitVec.ofNat 3 (input .rendererPieceCol))

def output (s : NiosvTop) : Terminal → ℕ
  | .rendererVgaR => s.rendererRgb.vgaR.toNat
  | .rendererVgaG => s.rendererRgb.vgaG.toNat
  | .rendererVgaB => s.rendererRgb.vgaB.toNat
  | t => s.registeredOutput t

def vgaPins (s : NiosvTop) : Rgb where
  vgaR := BitVec.ofNat 8 (niosvTopBdf.valueAt s.output .pinVgaR)
  vgaG := BitVec.ofNat 8 (niosvTopBdf.valueAt s.output .pinVgaG)
  vgaB := BitVec.ofNat 8 (niosvTopBdf.valueAt s.output .pinVgaB)

/-- An event on a pin reaches the input ports that the pin drives. -/
def step (s : NiosvTop) : TopEvent → NiosvTop
  | .clock50Rise =>
    if .pinClock50 ∈ niosvTopBdf.drivers .timingClk50 then
      { s with timing := s.timing.step .clk50Rise } else s
  | .key0 level =>
    if .pinKey0 ∈ niosvTopBdf.drivers .timingResetN then
      { s with timing := s.timing.step (.resetN level) } else s
  | .cpuStore st => { s with pieces := s.pieces.store st }

/-- The design after a history of events from zeroed registers, with `KEY[0]` first at the given
level. -/
def after (key0 : Bool) (es : List TopEvent) : NiosvTop :=
  es.foldl step ⟨⟨key0, false, Beam.zero⟩, PieceRegs.reset⟩

/-- The piece inputs of the renderer are wired crosswise: its row is the contents of `PIECE_COL`
and its column those of `PIECE_ROW`. -/
theorem vgaPins_eq (s : NiosvTop) :
    s.vgaPins = Project7.pixel s.timing s.pieces.pieceCol s.pieces.pieceRow := by
  have hrgb : s.rendererRgb = Project7.pixel s.timing s.pieces.pieceCol s.pieces.pieceRow := by
    simp only [rendererRgb, Schematic.valueAt, niosvTopBdf_drivers, registeredOutput,
      BitVec.ofNat_toNat, BitVec.setWidth_eq]
    cases hactive : s.timing.ports.activeVideo <;> simp [Project7.pixel, hactive]
  simp only [vgaPins, Schematic.valueAt, niosvTopBdf_drivers, output, hrgb, BitVec.ofNat_toNat,
    BitVec.setWidth_eq]

end NiosvTop

def TopEvent.timing? : TopEvent → Option VgaEvent
  | .clock50Rise => some .clk50Rise
  | .key0 level => some (.resetN level)
  | .cpuStore _ => none

def TopEvent.store? : TopEvent → Option Store
  | .cpuStore st => some st
  | _ => none

namespace NiosvTop

lemma step_eq (s : NiosvTop) (e : TopEvent) : s.step e =
    ⟨(e.timing?.map s.timing.step).getD s.timing, (e.store?.map s.pieces.store).getD s.pieces⟩ := by
  cases e <;> simp [step, niosvTopBdf_drivers, TopEvent.timing?, TopEvent.store?]

theorem foldl_step (s : NiosvTop) (es : List TopEvent) : es.foldl step s =
    ⟨(es.filterMap TopEvent.timing?).foldl VgaTiming.step s.timing,
      (es.filterMap TopEvent.store?).foldl PieceRegs.store s.pieces⟩ := by
  induction es generalizing s with
  | nil => rfl
  | cons e es ih =>
    rw [List.foldl_cons, ih, step_eq]
    cases e <;> rfl

lemma after_pieces (key0 : Bool) (es : List TopEvent) : (after key0 es).pieces =
    (es.filterMap TopEvent.store?).foldl PieceRegs.store PieceRegs.reset := by
  rw [after, foldl_step]

lemma after_timing (key0 : Bool) (es : List TopEvent) : (after key0 es).timing =
    (es.filterMap TopEvent.timing?).foldl VgaTiming.step ⟨key0, false, Beam.zero⟩ := by
  rw [after, foldl_step]

/-- At this instant the pins carry the piece colour exactly on the disc of the square in the row
written to `PIECE_ROW` and the column written to `PIECE_COL`. -/
def ShownWhereWritten (s : NiosvTop) : Prop :=
  let r := s.pieces.pieceRow.toNat
  let c := s.pieces.pieceCol.toNat
  let x := s.timing.beam.hCount.toNat
  let y := s.timing.beam.vCount.toNat
  s.vgaPins = .red ↔ InSquare r c x y ∧ InDisc r c x y

lemma vgaPins_eq_red_iff (s : NiosvTop) : s.vgaPins = .red ↔
    InDisc s.pieces.pieceCol.toNat s.pieces.pieceRow.toNat s.timing.beam.hCount.toNat
      s.timing.beam.vCount.toNat := by
  rw [vgaPins_eq]
  apply Project7.eq_red_iff.trans
  apply and_iff_right_of_imp
  intro hd
  have hvis := onBoard_visible (hd.onBoard s.pieces.pieceCol.isLt s.pieces.pieceRow.isLt)
  exact (Beam.activeVideo_iff _).mpr hvis

/-- The piece is shown where it was written exactly when the transposition does not matter: the
two contents agree, or the beam is in neither of the two discs that they name. -/
lemma shownWhereWritten_state_iff (s : NiosvTop) : s.ShownWhereWritten ↔
    s.pieces.pieceRow = s.pieces.pieceCol ∨
      ¬InDisc s.pieces.pieceRow.toNat s.pieces.pieceCol.toNat s.timing.beam.hCount.toNat
        s.timing.beam.vCount.toNat ∧
      ¬InDisc s.pieces.pieceCol.toNat s.pieces.pieceRow.toNat s.timing.beam.hCount.toNat
        s.timing.beam.vCount.toNat := by
  have hsquare := fun hd : InDisc s.pieces.pieceRow.toNat s.pieces.pieceCol.toNat
    s.timing.beam.hCount.toNat s.timing.beam.vCount.toNat => hd.inSquare
  simp only [ShownWhereWritten, vgaPins_eq_red_iff, and_iff_right_of_imp hsquare]
  constructor
  · intro hiff
    by_contra hnone
    rw [not_or] at hnone
    obtain ⟨hne, hdisc⟩ := hnone
    have hone : InDisc s.pieces.pieceRow.toNat s.pieces.pieceCol.toNat
        s.timing.beam.hCount.toNat s.timing.beam.vCount.toNat := by tauto
    exact hne (BitVec.eq_of_toNat_eq (hone.unique (hiff.mpr hone)).1)
  · rintro (heq | hnone)
    · rw [heq]
    · tauto

end NiosvTop

/-- After every history of stores, clock edges and key levels, the piece is shown in the row and
column written if and only if the two contents agree or the beam is in neither of the two discs
that they name: the schematic connects `piece_row_export` to `piece_col` and `piece_col_export` to
`piece_row`. -/
theorem niosvTop_shownWhereWritten_iff (key0 : Bool) (es : List TopEvent) :
    let s := NiosvTop.after key0 es
    s.ShownWhereWritten ↔ s.pieces.pieceRow = s.pieces.pieceCol ∨
      ¬InDisc s.pieces.pieceRow.toNat s.pieces.pieceCol.toNat s.timing.beam.hCount.toNat
        s.timing.beam.vCount.toNat ∧
      ¬InDisc s.pieces.pieceCol.toNat s.pieces.pieceRow.toNat s.timing.beam.hCount.toNat
        s.timing.beam.vCount.toNat :=
  NiosvTop.shownWhereWritten_state_iff _

def firstPositionHistory (n : ℕ) : List TopEvent :=
  [ .cpuStore (iowrAlteraAvalonPioData PIECE_ROW_BASE 2#32),
    .cpuStore (iowrAlteraAvalonPioData PIECE_COL_BASE 1#32) ] ++
  List.replicate n .clock50Rise

lemma firstPositionHistory_timing (n : ℕ) :
    (firstPositionHistory n).filterMap TopEvent.timing? = List.replicate n .clk50Rise := by
  rw [firstPositionHistory, List.filterMap_append, List.filterMap_replicate]
  rfl

lemma firstPositionHistory_store (n : ℕ) : (firstPositionHistory n).filterMap TopEvent.store? =
    [iowrAlteraAvalonPioData PIECE_ROW_BASE 2#32, iowrAlteraAvalonPioData PIECE_COL_BASE 1#32] := by
  rw [firstPositionHistory, List.filterMap_append, List.filterMap_replicate]
  rfl

lemma VgaTiming.foldl_replicate_clk50Rise (s : VgaTiming) (n : ℕ) :
    (List.replicate n VgaEvent.clk50Rise).foldl VgaTiming.step s = s.clocked n := by
  induction n with
  | zero => rfl
  | succ n ih => rw [List.replicate_succ', List.foldl_concat, ih, VgaTiming.clocked_succ]

lemma after_firstPositionHistory (n : ℕ) :
    NiosvTop.after true (firstPositionHistory n) =
      ⟨VgaTiming.clocked ⟨true, false, Beam.zero⟩ n, ⟨2#3, 1#3⟩⟩ := by
  have htiming := NiosvTop.after_timing true (firstPositionHistory n)
  have hpieces := NiosvTop.after_pieces true (firstPositionHistory n)
  rw [firstPositionHistory_timing, VgaTiming.foldl_replicate_clk50Rise] at htiming
  rw [firstPositionHistory_store] at hpieces
  exact congrArg₂ NiosvTop.mk htiming hpieces

/-- With 2 in `PIECE_ROW` and 1 in `PIECE_COL` the visible pixel (195, 165), the centre of the
square in row 2 and column 1, does not show the piece. -/
theorem firstPosition_not_shown :
    let s := NiosvTop.after true (firstPositionHistory 264389)
    (s.timing.beam.hCount.toNat = 195 ∧ s.timing.beam.vCount.toNat = 165) ∧
      s.pieces = ⟨2#3, 1#3⟩ ∧ ¬s.ShownWhereWritten := by
  rw [after_firstPositionHistory]
  have hticks : VgaTiming.pixelTicks ⟨true, false, Beam.zero⟩ 264389 = 132195 :=
    (VgaTiming.clocked_eq _ rfl _).2
  have hat := VgaTiming.clocked_at (s := ⟨true, false, Beam.zero⟩) rfl Beam.at_zero 264389
  rw [hticks, Nat.zero_add] at hat
  generalize VgaTiming.clocked ⟨true, false, Beam.zero⟩ 264389 = timing at hat
  have hx : timing.beam.hCount.toNat = 195 := hat.h
  have hy : timing.beam.vCount.toNat = 165 := hat.v
  refine ⟨⟨hx, hy⟩, rfl, ?_⟩
  rw [NiosvTop.shownWhereWritten_state_iff]
  simp only [hx, hy]
  decide

end VecadNiosv
