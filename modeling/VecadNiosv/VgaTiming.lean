import VecadNiosv.Library.CyclicSweep

/-!
# The VGA raster

`vga_timing.v` of projects 5, 6 and 7 and `vga_test.v` of project 4 hold the same three
registers: the divided clock `pixel_clk_reg`, clocked by `clk_50`, and the counters
`h_count` and `v_count`, clocked by the divided clock. All of them are cleared when
`reset_n` falls. This file models the two processes as they react to transitions of the
input lines, the combinational outputs, and the advance from one pixel tick to the next.
-/

namespace VecadNiosv

structure Beam where
  hCount : BitVec 10
  vCount : BitVec 10
  deriving DecidableEq, Repr

/-- The registers of `vga_timing`, with the present level of its input `reset_n`. -/
structure VgaTiming where
  resetN : Bool
  pixelClkReg : Bool
  beam : Beam
  deriving DecidableEq, Repr

/-- What the processes can see of their inputs: a rising edge of `clk_50`, or `reset_n`
being driven to a level. -/
inductive VgaEvent where
  | clk50Rise
  | resetN (level : Bool)
  deriving DecidableEq, Repr

/-- The level of `reset_n` once the event has happened. -/
def VgaEvent.levelAfter (e : VgaEvent) (resetN : Bool) : Bool :=
  match e with
  | .clk50Rise => resetN
  | .resetN level => level

def Beam.zero : Beam := ⟨0#10, 0#10⟩

/-- The counting branch of the `h_count`/`v_count` process. -/
def Beam.count (b : Beam) : Beam :=
  if b.hCount = 799#10 then
    ⟨0#10, if b.vCount = 524#10 then 0#10 else b.vCount + 1#10⟩
  else
    ⟨b.hCount + 1#10, b.vCount⟩

/-- Body of `always @(posedge clk_50 or negedge reset_n)`. -/
def pixelClkProcess (resetN pixelClkReg : Bool) : Bool :=
  if !resetN then false else !pixelClkReg

/-- Body of `always @(posedge pixel_clk_reg or negedge reset_n)`. -/
def counterProcess (resetN : Bool) (b : Beam) : Beam :=
  if !resetN then Beam.zero else b.count

namespace VgaTiming

def resetFalls (s : VgaTiming) (e : VgaEvent) : Bool :=
  s.resetN && !e.levelAfter s.resetN

def pixelClkNext (s : VgaTiming) (e : VgaEvent) : Bool :=
  if e = .clk50Rise ∨ s.resetFalls e then pixelClkProcess (e.levelAfter s.resetN) s.pixelClkReg
  else s.pixelClkReg

/-- The event makes `pixel_clk_reg` rise, which is a pixel tick. -/
def pixelClkRises (s : VgaTiming) (e : VgaEvent) : Bool :=
  !s.pixelClkReg && s.pixelClkNext e

/-- One event of the input lines. The divided clock settles first, and the counter process
then reacts to its rising edge or to the falling `reset_n`. -/
def step (s : VgaTiming) (e : VgaEvent) : VgaTiming where
  resetN := e.levelAfter s.resetN
  pixelClkReg := s.pixelClkNext e
  beam := if s.pixelClkRises e || s.resetFalls e then
    counterProcess (e.levelAfter s.resetN) s.beam else s.beam

/-- The state after `n` rising edges of `clk_50`. -/
def clocked (s : VgaTiming) (n : ℕ) : VgaTiming :=
  (fun s => s.step .clk50Rise)^[n] s

/-- The pixel ticks among the first `n` rising edges of `clk_50`. -/
def pixelTicks (s : VgaTiming) : ℕ → ℕ
  | 0 => 0
  | n + 1 => s.pixelTicks n + if (s.clocked n).pixelClkRises .clk50Rise then 1 else 0

/-- Clock `clk_50` until `pixel_clk_reg` has risen once more. -/
def pixelTick (s : VgaTiming) : VgaTiming :=
  if s.pixelClkReg then (s.step .clk50Rise).step .clk50Rise else s.step .clk50Rise

def afterTicks (s : VgaTiming) (k : ℕ) : VgaTiming :=
  pixelTick^[k] s

end VgaTiming

namespace Beam

def activeVideo (b : Beam) : Bool :=
  decide (b.hCount < 640#10) && decide (b.vCount < 480#10)

def vgaHS (b : Beam) : Bool :=
  !(decide (b.hCount ≥ 656#10) && decide (b.hCount < 752#10))

def vgaVS (b : Beam) : Bool :=
  !(decide (b.vCount ≥ 490#10) && decide (b.vCount < 492#10))

end Beam

/-- The output ports of `vga_timing` in project 7. -/
structure VgaTimingPorts where
  hCount : BitVec 10
  vCount : BitVec 10
  activeVideo : Bool
  vgaHS : Bool
  vgaVS : Bool
  vgaBlankN : Bool
  vgaSyncN : Bool
  vgaClk : Bool
  deriving DecidableEq, Repr

def VgaTiming.ports (s : VgaTiming) : VgaTimingPorts where
  hCount := s.beam.hCount
  vCount := s.beam.vCount
  activeVideo := s.beam.activeVideo
  vgaHS := s.beam.vgaHS
  vgaVS := s.beam.vgaVS
  vgaBlankN := s.beam.activeVideo
  vgaSyncN := false
  vgaClk := s.pixelClkReg

structure Rgb where
  vgaR : BitVec 8
  vgaG : BitVec 8
  vgaB : BitVec 8
  deriving DecidableEq, Repr

def Rgb.black : Rgb := ⟨0x00#8, 0x00#8, 0x00#8⟩

/-- The colour outputs of `vga_test.v`, which fills the visible area of the same raster
with the colour that `color_select` switches on. -/
def vgaTest (b : Beam) (colorSelect : BitVec 3) : Rgb where
  vgaR := if b.activeVideo && colorSelect.getLsbD 2 then 0xFF#8 else 0x00#8
  vgaG := if b.activeVideo && colorSelect.getLsbD 1 then 0xFF#8 else 0x00#8
  vgaB := if b.activeVideo && colorSelect.getLsbD 0 then 0xFF#8 else 0x00#8

namespace VgaTiming

lemma step_clk50Rise (s : VgaTiming) : s.step .clk50Rise =
    if s.resetN then ⟨true, !s.pixelClkReg, if s.pixelClkReg then s.beam else s.beam.count⟩
    else ⟨false, false, s.beam⟩ := by
  obtain ⟨r, p, b⟩ := s
  cases r <;> cases p <;>
    simp [step, pixelClkNext, pixelClkRises, resetFalls, VgaEvent.levelAfter, pixelClkProcess,
      counterProcess]

lemma step_resetN (s : VgaTiming) (level : Bool) : s.step (.resetN level) =
    if s.resetN && !level then ⟨false, false, Beam.zero⟩ else ⟨level, s.pixelClkReg, s.beam⟩ := by
  obtain ⟨r, p, b⟩ := s
  cases r <;> cases p <;> cases level <;>
    simp [step, pixelClkNext, pixelClkRises, resetFalls, VgaEvent.levelAfter, pixelClkProcess,
      counterProcess]

lemma pixelClkRises_iff (s : VgaTiming) (e : VgaEvent) :
    s.pixelClkRises e = true ↔ e = .clk50Rise ∧ s.resetN = true ∧ s.pixelClkReg = false := by
  obtain ⟨r, p, b⟩ := s
  cases e with
  | clk50Rise =>
    cases r <;> cases p <;>
      simp [pixelClkRises, pixelClkNext, VgaEvent.levelAfter, pixelClkProcess]
  | resetN level =>
    cases r <;> cases p <;> cases level <;>
      simp [pixelClkRises, pixelClkNext, resetFalls, VgaEvent.levelAfter, pixelClkProcess]

lemma clocked_succ (s : VgaTiming) (n : ℕ) : s.clocked (n + 1) = (s.clocked n).step .clk50Rise :=
  Function.iterate_succ_apply' _ n s

lemma pixelTick_eq (s : VgaTiming) (hs : s.resetN = true) :
    s.pixelTick = ⟨true, true, s.beam.count⟩ := by
  obtain ⟨r, p, b⟩ := s
  subst hs
  cases p <;> simp [pixelTick, step_clk50Rise]

lemma afterTicks_succ (s : VgaTiming) (k : ℕ) : s.afterTicks (k + 1) = (s.afterTicks k).pixelTick :=
  Function.iterate_succ_apply' _ k s

lemma afterTicks_resetN (s : VgaTiming) (hs : s.resetN = true) (k : ℕ) :
    (s.afterTicks k).resetN = true := by
  induction k with
  | zero => exact hs
  | succ k ih => rw [afterTicks_succ, pixelTick_eq _ ih]

theorem afterTicks_beam (s : VgaTiming) (hs : s.resetN = true) (k : ℕ) :
    (s.afterTicks k).beam = Beam.count^[k] s.beam := by
  induction k with
  | zero => rfl
  | succ k ih =>
    rw [afterTicks_succ, pixelTick_eq _ (s.afterTicks_resetN hs k), Function.iterate_succ_apply', ih]

/-- The state after `n` rising edges of `clk_50` with `reset_n` high, in terms of the pixel
ticks among them. -/
theorem clocked_eq (s : VgaTiming) (hs : s.resetN = true) (n : ℕ) :
    s.clocked n = ⟨true, s.pixelClkReg ^^ decide (n % 2 = 1), Beam.count^[s.pixelTicks n] s.beam⟩ ∧
      s.pixelTicks n = (n + if s.pixelClkReg then 0 else 1) / 2 := by
  obtain ⟨r, p, b⟩ := s
  subst hs
  induction n with
  | zero => cases p <;> simp [clocked, pixelTicks]
  | succ n ih =>
    obtain ⟨hstate, hticks⟩ := ih
    have hrise : (clocked ⟨true, p, b⟩ n).pixelClkRises .clk50Rise =
        !(p ^^ decide (n % 2 = 1)) := by
      rw [hstate, Bool.eq_iff_iff, pixelClkRises_iff]
      simp
    have hcount : pixelTicks ⟨true, p, b⟩ (n + 1) =
        pixelTicks ⟨true, p, b⟩ n + if p ^^ decide (n % 2 = 1) then 0 else 1 := by
      rw [pixelTicks, hrise]
      cases p ^^ decide (n % 2 = 1) <;> rfl
    rw [clocked_succ, hstate, step_clk50Rise, hcount, hticks]
    rcases Nat.mod_two_eq_zero_or_one n with hn | hn <;> cases p <;>
      simp [hn, Nat.add_mod, Function.iterate_succ_apply'] <;> omega

end VgaTiming

/-! ### The counters as a sweep of the raster -/

namespace Beam

def Legal (b : Beam) : Prop := b.hCount.toNat < 800 ∧ b.vCount.toNat < 525

instance (b : Beam) : Decidable b.Legal := inferInstanceAs (Decidable (_ ∧ _))

/-- The beam stands where a line by line sweep of the raster stands after `q` ticks. -/
structure At (b : Beam) (q : ℕ) : Prop where
  h : b.hCount.toNat = q % 800
  v : b.vCount.toNat = q / 800 % 525

def index (b : Beam) : ℕ := b.hCount.toNat + 800 * b.vCount.toNat

lemma at_zero : zero.At 0 := ⟨rfl, rfl⟩

lemma Legal.at_index {b : Beam} (hb : b.Legal) : b.At b.index := by
  obtain ⟨hh, hv⟩ := hb
  unfold index
  constructor <;> omega

lemma At.legal {b : Beam} {q : ℕ} (hb : b.At q) : b.Legal := by
  obtain ⟨hh, hv⟩ := hb
  unfold Legal
  omega

lemma count_hCount (b : Beam) : b.count.hCount.toNat =
    if b.hCount.toNat = 799 then 0 else (b.hCount.toNat + 1) % 1024 := by
  have hend : b.hCount = 799#10 ↔ b.hCount.toNat = 799 := BitVec.toNat_eq
  unfold count
  simp only [hend]
  split_ifs <;> simp

lemma count_vCount (b : Beam) : b.count.vCount.toNat =
    if b.hCount.toNat = 799 then
      if b.vCount.toNat = 524 then 0 else (b.vCount.toNat + 1) % 1024
    else b.vCount.toNat := by
  have hend : b.hCount = 799#10 ↔ b.hCount.toNat = 799 := BitVec.toNat_eq
  have vend : b.vCount = 524#10 ↔ b.vCount.toNat = 524 := BitVec.toNat_eq
  unfold count
  simp only [hend, vend]
  split_ifs <;> simp

theorem At.count {b : Beam} {q : ℕ} (hb : b.At q) : b.count.At (q + 1) := by
  obtain ⟨hh, hv⟩ := hb
  constructor
  · rw [count_hCount, hh]
    split_ifs <;> omega
  · rw [count_vCount, hh, hv]
    split_ifs <;> omega

theorem At.iterate_count {b : Beam} {q : ℕ} (hb : b.At q) (k : ℕ) : (Beam.count^[k] b).At (q + k) := by
  induction k with
  | zero => exact hb
  | succ k ih =>
    rw [Function.iterate_succ_apply']
    exact ih.count

end Beam

theorem VgaTiming.afterTicks_at {s : VgaTiming} (hs : s.resetN = true) {q : ℕ} (hb : s.beam.At q)
    (k : ℕ) : (s.afterTicks k).beam.At (q + k) := by
  rw [s.afterTicks_beam hs]
  exact hb.iterate_count k

theorem VgaTiming.clocked_at {s : VgaTiming} (hs : s.resetN = true) {q : ℕ} (hb : s.beam.At q)
    (n : ℕ) : (s.clocked n).beam.At (q + s.pixelTicks n) := by
  rw [(s.clocked_eq hs n).1]
  exact hb.iterate_count _

end VecadNiosv
