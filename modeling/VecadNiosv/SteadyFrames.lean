import VecadNiosv.MachineTimer
import VecadNiosv.MoveProtocol
import VecadNiosv.PowerUpRecovery

/-!
# The picture while the program sleeps

The processor of project 7 and the raster run on `CLOCK_50`, and `KEY[0]` resets the raster only.
Whatever the timing of the program's accesses and of the tick interrupts, the monitor receives whole
pictures of a commanded position for as long as the program sleeps and the key is left alone.
-/

namespace VecadNiosv

open EventRun MachineTimer Picture

/-- One turn of the loop of `main`. -/
def mainTurn : List Instr :=
  [ .store (iowrAlteraAvalonPioData PIECE_ROW_BASE 2#32),
    .store (iowrAlteraAvalonPioData PIECE_COL_BASE 1#32), .usleep 1000000#32,
    .store (iowrAlteraAvalonPioData PIECE_ROW_BASE 2#32),
    .store (iowrAlteraAvalonPioData PIECE_COL_BASE 3#32), .usleep 1000000#32,
    .store (iowrAlteraAvalonPioData PIECE_ROW_BASE 3#32),
    .store (iowrAlteraAvalonPioData PIECE_COL_BASE 4#32), .usleep 1000000#32,
    .store (iowrAlteraAvalonPioData PIECE_ROW_BASE 4#32),
    .store (iowrAlteraAvalonPioData PIECE_COL_BASE 5#32), .usleep 1000000#32 ]

def mainProgram (k : ℕ) : Instr := mainTurn.get ⟨k % 12, Nat.mod_lt k (by decide)⟩

/-- The contents of the registers that belong to a position of the turn. -/
def position (i : ℕ) : PieceRegs :=
  match i % 4 with
  | 0 => ⟨2#3, 1#3⟩
  | 1 => ⟨2#3, 3#3⟩
  | 2 => ⟨3#3, 4#3⟩
  | _ => ⟨4#3, 5#3⟩

/-- The store that the processor puts on its data bus. -/
def MachineTimer.Processor.issued (program : ℕ → Instr) (s : Processor) (e : Event) :
    Option Store :=
  match e, s.isr, s.main, program s.done.length with
  | .access, none, .before, .store st => some st
  | _, _, _, _ => none

/-- The processor, the registers around it, and the colours that the pins have had at the rising
edges of `CLOCK_50`. -/
structure Design where
  cpu : Processor
  top : NiosvTop
  shown : List Rgb

/-- The processor takes a step, or `KEY[0]` goes to a level. -/
inductive DesignEvent where
  | cpu (e : Event)
  | key0 (level : Bool)

namespace Design

def init (cycle : ℕ) (mtimecmp : BitVec 64) (timing : VgaTiming) : Design :=
  ⟨Processor.start cycle mtimecmp, ⟨timing, PieceRegs.reset⟩, []⟩

def topEvent (program : ℕ → Instr) (s : Design) : Event → Option TopEvent
  | .clock => some .clock50Rise
  | e => (s.cpu.issued program e).map .cpuStore

def step (program : ℕ → Instr) (s : Design) : DesignEvent → Option Design
  | .cpu e => (s.cpu.step program e).map fun cpu =>
    { cpu
      top := (s.topEvent program e).elim s.top s.top.step
      shown := if e = .clock then s.shown ++ [s.top.vgaPins] else s.shown }
  | .key0 level => some { s with top := s.top.step (.key0 level) }

end Design

/-- Pixel `t` of a frame with the piece in row `r` and column `c`. -/
def framePixel (r c t : ℕ) : Rgb :=
  if t % 800 < 640 ∧ t / 800 < 480 then
    if InDisc r c (t % 800) (t / 800) then .red else boardColour (t % 800) (t / 800)
  else .black

lemma mainProgram_turn (i j : ℕ) : mainProgram (3 * i + j) = mainProgram (3 * (i % 4) + j) := by
  have hmod : (3 * i + j) % 12 = (3 * (i % 4) + j) % 12 := by omega
  simp only [mainProgram, hmod]

lemma position_mod (i : ℕ) : position i = position (i % 4) := by
  rw [position, position, Nat.mod_mod]

/-- The statements of a position: its row, its column, and a second of sleep. -/
lemma mainProgram_position (i : ℕ) :
    (∃ word, mainProgram (3 * i) = .store (iowrAlteraAvalonPioData PIECE_ROW_BASE word) ∧
        word.setWidth 3 = (position i).pieceRow) ∧
      (∃ word, mainProgram (3 * i + 1) = .store (iowrAlteraAvalonPioData PIECE_COL_BASE word) ∧
        word.setWidth 3 = (position i).pieceCol) ∧
      mainProgram (3 * i + 2) = .usleep 1000000#32 := by
  have hrow := mainProgram_turn i 0
  rw [Nat.add_zero, Nat.add_zero] at hrow
  rw [hrow, mainProgram_turn i 1, mainProgram_turn i 2, position_mod]
  have hi : i % 4 < 4 := Nat.mod_lt i (by decide)
  generalize i % 4 = r at hi
  interval_cases r
  · exact ⟨⟨2#32, rfl, rfl⟩, ⟨1#32, rfl, rfl⟩, rfl⟩
  · exact ⟨⟨2#32, rfl, rfl⟩, ⟨3#32, rfl, rfl⟩, rfl⟩
  · exact ⟨⟨3#32, rfl, rfl⟩, ⟨4#32, rfl, rfl⟩, rfl⟩
  · exact ⟨⟨4#32, rfl, rfl⟩, ⟨5#32, rfl, rfl⟩, rfl⟩

lemma mod_three_of_usleep {k : ℕ} {us : BitVec 32} (h : mainProgram k = .usleep us) : k % 3 = 2 := by
  obtain ⟨⟨row, hrow, -⟩, ⟨col, hcol, -⟩, -⟩ := mainProgram_position (k / 3)
  by_contra hne
  have hcases : k = 3 * (k / 3) ∨ k = 3 * (k / 3) + 1 := by omega
  rcases hcases with hk | hk
  · rw [← hk, h] at hrow
    exact absurd hrow (by simp)
  · rw [← hk, h] at hcol
    exact absurd hcol (by simp)

/-- After so many statements the registers hold what the last stores have put there. -/
def PiecesAfter (k : ℕ) (pieces : PieceRegs) : Prop :=
  (k % 3 = 1 → pieces.pieceRow = (position (k / 3)).pieceRow) ∧
    (k % 3 = 2 → pieces = position (k / 3))

lemma PiecesAfter.zero (pieces : PieceRegs) : PiecesAfter 0 pieces :=
  ⟨fun hone => absurd hone (by decide), fun htwo => absurd htwo (by decide)⟩

lemma PiecesAfter.store {k : ℕ} {pieces : PieceRegs} (h : PiecesAfter k pieces) {st : Store}
    (hst : mainProgram k = .store st) : PiecesAfter (k + 1) (pieces.store st) := by
  obtain ⟨⟨row, hrow, hrowWord⟩, ⟨col, hcol, hcolWord⟩, hsleep⟩ := mainProgram_position (k / 3)
  have hcases : k = 3 * (k / 3) ∨ k = 3 * (k / 3) + 1 ∨ k = 3 * (k / 3) + 2 := by omega
  rcases hcases with hk | hk | hk
  · rw [← hk, hst, Instr.store.injEq] at hrow
    have hdiv : (k + 1) / 3 = k / 3 := by omega
    rw [PiecesAfter, hdiv, hrow, PieceRegs.store_row]
    exact ⟨fun _ => hrowWord, fun htwo => absurd htwo (by omega)⟩
  · rw [← hk, hst, Instr.store.injEq] at hcol
    have hdiv : (k + 1) / 3 = k / 3 := by omega
    rw [PiecesAfter, hdiv, hcol, PieceRegs.store_col, hcolWord, h.1 (by omega)]
    exact ⟨fun _ => rfl, fun _ => rfl⟩
  · rw [← hk, hst] at hsleep
    exact absurd hsleep (by simp)

lemma PiecesAfter.usleep {k : ℕ} {pieces : PieceRegs} (hk : k % 3 = 2) :
    PiecesAfter (k + 1) pieces :=
  ⟨fun hone => absurd hone (by omega), fun htwo => absurd htwo (by omega)⟩

namespace MachineTimer

def Main.called : Main → Option ℕ
  | .timestampStart _ called _ => some called
  | .spin _ called _ _ => some called
  | _ => none

namespace Processor

/-- An access goes on with the statement, calls `usleep`, stores, or ends a sleep. -/
inductive Advances (program : ℕ → Instr) (s s' : Processor) : Prop where
  | within (issued : s.issued program .access = none) (done : s'.done = s.done)
      (called : s'.main.called = s.main.called)
  | calls (us : BitVec 32) (issued : s.issued program .access = none) (done : s'.done = s.done)
      (instr : program s.done.length = .usleep us) (called : s'.main.called = some s.cycle)
  | stores (st : Store) (issued : s.issued program .access = some st)
      (done : s'.done = s.done ++ [⟨.store st, s.cycle, s.cycle⟩])
      (instr : program s.done.length = .store st) (called : s'.main.called = none)
  | wakes (us : BitVec 32) (start : ℕ) (issued : s.issued program .access = none)
      (sleeping : s.main.called = some start)
      (done : s'.done = s.done ++ [⟨.usleep us, start, s.cycle⟩]) (called : s'.main.called = none)

lemma advances (program : ℕ → Instr) {s : Processor} (hisr : s.isr = none) :
    s.Advances program (s.mainStep program) := by
  cases hcase : s.main with
  | initGet g =>
    have hissued : s.issued program .access = none := by simp only [issued, hisr, hcase]
    cases hload : g.step s.mtime with
    | inl g' =>
      refine .within hissued ?_ ?_
      · simp only [mainStep, hcase, hload]
      · simp only [mainStep, hcase, hload, Main.called]
    | inr currTime =>
      refine .within hissued ?_ ?_
      · simp only [mainStep, hcase, hload]
      · simp only [mainStep, hcase, hload, Main.called]
  | initSet p =>
    have hissued : s.issued program .access = none := by simp only [issued, hisr, hcase]
    cases hstore : p.step s.mtimecmp with
    | mk mtimecmp next =>
      cases next with
      | some p' =>
        refine .within hissued ?_ ?_
        · simp only [mainStep, hcase, hstore]
        · simp only [mainStep, hcase, hstore, Main.called]
      | none =>
        refine .within hissued ?_ ?_
        · simp only [mainStep, hcase, hstore]
        · simp only [mainStep, hcase, hstore, Main.called]
  | initEnable =>
    have hissued : s.issued program .access = none := by simp only [issued, hisr, hcase]
    refine .within hissued ?_ ?_
    · simp only [mainStep, hcase]
    · simp only [mainStep, hcase, Main.called]
  | before =>
    cases hprogram : program s.done.length with
    | store st =>
      refine .stores st ?_ ?_ hprogram ?_
      · simp only [issued, hisr, hcase, hprogram]
      · simp only [mainStep, hcase, hprogram]
      · simp only [mainStep, hcase, hprogram, Main.called]
    | usleep us =>
      refine .calls us ?_ ?_ hprogram ?_
      · simp only [issued, hisr, hcase, hprogram]
      · simp only [mainStep, hcase, hprogram]
      · simp only [mainStep, hcase, hprogram, Main.called]
  | timestampStart us called g =>
    have hissued : s.issued program .access = none := by simp only [issued, hisr, hcase]
    cases hload : g.step s.mtime with
    | inl g' =>
      refine .within hissued ?_ ?_
      · simp only [mainStep, hcase, hload]
      · simp only [mainStep, hcase, hload, Main.called]
    | inr offset =>
      refine .within hissued ?_ ?_
      · simp only [mainStep, hcase, hload]
      · simp only [mainStep, hcase, hload, Main.called]
  | spin us called offset g =>
    have hissued : s.issued program .access = none := by simp only [issued, hisr, hcase]
    cases hload : g.step s.mtime with
    | inl g' =>
      refine .within hissued ?_ ?_
      · simp only [mainStep, hcase, hload]
      · simp only [mainStep, hcase, hload, Main.called]
    | inr time =>
      by_cases hspin : time - offset < endTime us
      · refine .within hissued ?_ ?_
        · simp only [mainStep, hcase, hload, if_pos hspin]
        · simp only [mainStep, hcase, hload, if_pos hspin, Main.called]
      · refine .wakes us called hissued ?_ ?_ ?_
        · rw [hcase, Main.called]
        · simp only [mainStep, hcase, hload, if_neg hspin]
        · simp only [mainStep, hcase, hload, if_neg hspin, Main.called]

end Processor

end MachineTimer

/-! ### What the pins have shown -/

section Shown

variable {cycle₀ base : ℕ} {timing : VgaTiming}

/-- From one cycle to another the pins have shown the raster with the piece at the position,
transposed as the schematic does it. The raster is known from cycle `base` on. -/
def Displays (cycle₀ base : ℕ) (timing : VgaTiming) (shown : List Rgb) (i start finish : ℕ) : Prop :=
  ∀ n, start ≤ n → n < finish → shown[n - cycle₀]? = some
    (Project7.pixel (timing.clocked (n - base)) (position i).pieceCol (position i).pieceRow)

lemma Displays.append {shown : List Rgb} {i start finish : ℕ}
    (h : Displays cycle₀ base timing shown i start finish) (colour : Rgb) :
    Displays cycle₀ base timing (shown ++ [colour]) i start finish := by
  intro n hstart hfinish
  have hn := h n hstart hfinish
  rwa [List.getElem?_append_left (List.getElem?_eq_some_iff.mp hn).1]

lemma displays_of_le {shown : List Rgb} {i start finish : ℕ} (hle : finish ≤ start) :
    Displays cycle₀ base timing shown i start finish :=
  fun _ hstart hfinish => absurd (hle.trans hstart) (not_le.mpr hfinish)

lemma getElem?_concat_eq_some {α : Type*} {l : List α} {a b : α} {k : ℕ}
    (h : (l ++ [a])[k]? = some b) : l[k]? = some b ∨ k = l.length ∧ b = a := by
  rcases lt_trichotomy k l.length with hlt | heq | hgt
  · rw [List.getElem?_append_left hlt] at h
    exact Or.inl h
  · rw [heq, List.getElem?_concat_length, Option.some.injEq] at h
    exact Or.inr ⟨heq, h.symm⟩
  · rw [List.getElem?_eq_none (by rw [List.length_append, List.length_singleton]; omega)] at h
    exact absurd h (by simp)

/-- What the run has shown agrees with the statements that it has executed. The key has been left
alone since cycle `base`, and the raster was at `timing` then. -/
structure Design.Steady (cycle₀ base : ℕ) (timing : VgaTiming) (s : Design) : Prop where
  sequential : s.cpu.Sequential mainProgram
  started : cycle₀ ≤ base ∧ base ≤ s.cpu.cycle
  length : s.shown.length = s.cpu.cycle - cycle₀
  raster : s.top.timing = timing.clocked (s.cpu.cycle - base)
  pieces : PiecesAfter s.cpu.done.length s.top.pieces
  sleeping : ∀ start, s.cpu.main.called = some start → s.cpu.done.length % 3 = 2 ∧ (base ≤ start →
    Displays cycle₀ base timing s.shown (s.cpu.done.length / 3) start s.cpu.cycle)
  slept : ∀ i d, s.cpu.done[3 * i + 2]? = some d → base ≤ d.start →
    Displays cycle₀ base timing s.shown i d.start d.finish

namespace Design.Steady

variable {s : Design}

lemma init (cycle : ℕ) (mtimecmp : BitVec 64) (timing : VgaTiming) :
    (Design.init cycle mtimecmp timing).Steady cycle cycle timing where
  sequential := Processor.sequential_start mainProgram cycle mtimecmp
  started := ⟨le_rfl, le_rfl⟩
  length := (Nat.sub_self cycle).symm
  raster := by
    change timing = timing.clocked (cycle - cycle)
    rw [Nat.sub_self]
    rfl
  pieces := PiecesAfter.zero PieceRegs.reset
  sleeping start h := absurd h (by simp [Design.init, Processor.start, Main.called])
  slept i d h := absurd h (by simp [Design.init, Processor.start])

/-- Whatever the raster is put to, it is known from now on. -/
lemma rebase (h : s.Steady cycle₀ base timing) (timing' : VgaTiming) :
    Design.Steady cycle₀ s.cpu.cycle timing' { s with top := ⟨timing', s.top.pieces⟩ } := by
  refine ⟨h.sequential, ⟨h.started.1.trans h.started.2, le_rfl⟩, h.length, ?_, h.pieces, ?_, ?_⟩
  · change timing' = timing'.clocked (s.cpu.cycle - s.cpu.cycle)
    rw [Nat.sub_self]
    rfl
  · intro start hstart
    exact ⟨(h.sleeping start hstart).1, displays_of_le⟩
  · intro i d hd hlate
    have hpast := h.sequential.executed.past d (List.mem_of_getElem? hd)
    exact displays_of_le (hpast.trans hlate)

/-- At a rising edge the pins show the raster with the contents of the registers. -/
lemma clock (h : s.Steady cycle₀ base timing) :
    Design.Steady cycle₀ base timing ⟨{ s.cpu with cycle := s.cpu.cycle + 1 },
      s.top.step .clock50Rise, s.shown ++ [s.top.vgaPins]⟩ := by
  obtain ⟨hbase, hstarted⟩ := h.started
  have hlength := h.length
  have hsucc : s.cpu.cycle + 1 - base = s.cpu.cycle - base + 1 := by omega
  refine ⟨⟨h.sequential.executed.mono s.cpu.cycle.le_succ,
    h.sequential.calling.mono s.cpu.cycle.le_succ⟩, ⟨hbase, hstarted.trans s.cpu.cycle.le_succ⟩,
    ?_, ?_, ?_, ?_, ?_⟩
  · change (s.shown ++ [s.top.vgaPins]).length = s.cpu.cycle + 1 - cycle₀
    rw [List.length_append, List.length_singleton, hlength]
    omega
  · change (s.top.step .clock50Rise).timing = timing.clocked (s.cpu.cycle + 1 - base)
    rw [NiosvTop.step_eq, hsucc, VgaTiming.clocked_succ, ← h.raster]
    rfl
  · change PiecesAfter s.cpu.done.length (s.top.step .clock50Rise).pieces
    rw [NiosvTop.step_eq]
    exact h.pieces
  · intro start hstart
    obtain ⟨hmod, hdisplays⟩ := h.sleeping start hstart
    refine ⟨hmod, ?_⟩
    intro hlate n hn hlt
    by_cases hnow : n = s.cpu.cycle
    · rw [hnow, ← hlength, List.getElem?_concat_length, NiosvTop.vgaPins_eq, h.raster,
        h.pieces.2 hmod]
    · have hpast : n < s.cpu.cycle := by
        change n < s.cpu.cycle + 1 at hlt
        omega
      exact (hdisplays hlate).append _ n hn hpast
  · intro i d hd hlate
    exact (h.slept i d hd hlate).append _

lemma access (h : s.Steady cycle₀ base timing) (hcycle : s.cpu.cycle < 2 ^ 64)
    (hisr : s.cpu.isr = none) :
    Design.Steady cycle₀ base timing ⟨s.cpu.mainStep mainProgram,
      (s.topEvent mainProgram .access).elim s.top s.top.step, s.shown⟩ := by
  have hsequential := h.sequential.mainStep hcycle
  have hframe := s.cpu.mainStep_frame mainProgram
  have htop : s.topEvent mainProgram .access =
      (s.cpu.issued mainProgram .access).map .cpuStore := rfl
  have hraster : ∀ st : Option Store,
      ((st.map TopEvent.cpuStore).elim s.top s.top.step).timing = s.top.timing := by
    intro st
    cases st with
    | none => rfl
    | some st => rfl
  have hsleeps := h.sleeping
  rw [htop]
  refine ⟨hsequential, by rw [hframe]; exact h.started, by rw [hframe]; exact h.length,
    by rw [hframe, hraster]; exact h.raster, ?_, ?_, ?_⟩
  · cases s.cpu.advances mainProgram hisr with
    | within issued done called =>
      rw [done, issued]
      exact h.pieces
    | calls us issued done instr called =>
      rw [done, issued]
      exact h.pieces
    | stores st issued done instr called =>
      rw [done, issued, List.length_append, List.length_singleton]
      exact h.pieces.store instr
    | wakes us start issued sleeping done called =>
      rw [done, issued, List.length_append, List.length_singleton]
      exact PiecesAfter.usleep (hsleeps start sleeping).1
  · intro start hstart
    rw [hframe]
    cases s.cpu.advances mainProgram hisr with
    | within issued done called =>
      rw [done]
      exact hsleeps start (called ▸ hstart)
    | calls us issued done instr called =>
      -- no edge has come since the call
      rw [called, Option.some.injEq] at hstart
      rw [done, ← hstart]
      exact ⟨mod_three_of_usleep instr, fun _ => displays_of_le le_rfl⟩
    | stores st issued done instr called => exact absurd (called.symm.trans hstart) (by simp)
    | wakes us start issued sleeping done called => exact absurd (called.symm.trans hstart) (by simp)
  · intro i d hd
    cases s.cpu.advances mainProgram hisr with
    | within issued done called => exact h.slept i d (done ▸ hd)
    | calls us issued done instr called => exact h.slept i d (done ▸ hd)
    | stores st issued done instr called =>
      rw [done] at hd
      rcases getElem?_concat_eq_some hd with hold | ⟨hlast, -⟩
      · exact h.slept i d hold
      · rw [← hlast, (mainProgram_position i).2.2] at instr
        exact absurd instr (by simp)
    | wakes us start issued sleeping done called =>
      rw [done] at hd
      rcases getElem?_concat_eq_some hd with hold | ⟨hlast, rfl⟩
      · exact h.slept i d hold
      · have hdisplays := (hsleeps start sleeping).2
        have hdiv : s.cpu.done.length / 3 = i := by omega
        rwa [hdiv] at hdisplays

lemma step (h : s.Steady cycle₀ base timing) (hcycle : s.cpu.cycle < 2 ^ 64) {e : Event}
    {s' : Design} (hstep : s.step mainProgram (.cpu e) = some s') :
    s'.Steady cycle₀ base timing := by
  obtain ⟨cpu, hcpu, rfl⟩ := Option.map_eq_some_iff.mp hstep
  cases e with
  | clock =>
    rw [← Option.some.inj hcpu]
    exact h.clock
  | interrupt =>
    have hsequential := h.sequential.step hcycle hcpu
    rw [Processor.step] at hcpu
    split_ifs at hcpu
    obtain rfl := Option.some.inj hcpu
    exact ⟨hsequential, h.started, h.length, h.raster, h.pieces, h.sleeping, h.slept⟩
  | access =>
    cases hisr : s.cpu.isr with
    | some isr =>
      have hsequential := h.sequential.step hcycle hcpu
      rw [Processor.step, hisr] at hcpu
      obtain rfl := Option.some.inj hcpu
      have hissued : s.topEvent mainProgram .access = none := by
        simp only [Design.topEvent, Processor.issued, hisr, Option.map_none]
      obtain ⟨hframe, hmain, hdone⟩ := s.cpu.isrStep_frame isr
      rw [hissued]
      refine ⟨hsequential, by rw [hframe]; exact h.started, by rw [hframe]; exact h.length,
        by rw [hframe]; exact h.raster, by rw [hdone]; exact h.pieces, ?_, by rw [hdone]; exact h.slept⟩
      rw [hmain, hdone, hframe]
      exact h.sleeping
    | none =>
      rw [Processor.step, hisr] at hcpu
      obtain rfl := Option.some.inj hcpu
      exact h.access hcycle hisr

end Design.Steady

end Shown

lemma Project7.pixel_eq_framePixel {s : VgaTiming} {J t : ℕ} (hb : s.beam.At (420000 * J + t))
    (ht : t < 420000) (r c : BitVec 3) : Project7.pixel s r c = framePixel r.toNat c.toNat t := by
  have hx : (420000 * J + t) % 800 = t % 800 := by omega
  have hy : (420000 * J + t) / 800 % 525 = t / 800 := by omega
  rw [Project7.pixel_eq hb, hx, hy, framePixel]

lemma Design.step_cycle_le (s : Design) (e : DesignEvent) (s' : Design)
    (hstep : s.step mainProgram e = some s') : s.cpu.cycle ≤ s'.cpu.cycle := by
  cases e with
  | cpu e =>
    obtain ⟨cpu, hcpu, rfl⟩ := Option.map_eq_some_iff.mp hstep
    exact MachineTimer.step_cycle_le mainProgram s.cpu e cpu hcpu
  | key0 level =>
    obtain rfl := Option.some.inj hstep
    exact le_rfl

/-- At any moment of a run the raster is known from the last event of the key on. -/
lemma Design.steady_of_run {cycle : ℕ} {mtimecmp : BitVec 64} {timing : VgaTiming} {s : Design}
    {events : List DesignEvent}
    (hrun : run (Design.step mainProgram) (Design.init cycle mtimecmp timing) events = some s)
    (hcycle : s.cpu.cycle < 2 ^ 64) : ∃ base timing', s.Steady cycle base timing' := by
  have hle := along_le_final Design.step_cycle_le hrun
  have hguard := hle.2.mono (fun t _ ht => lt_of_le_of_lt ht hcycle)
  apply invariant_along _ hguard ⟨cycle, timing, Design.Steady.init cycle mtimecmp timing⟩ hrun
  rintro mid e mid' hmid ⟨base, timing', h⟩ hstep
  cases e with
  | cpu e => exact ⟨base, timing', h.step hmid hstep⟩
  | key0 level =>
    obtain rfl := Option.some.inj hstep
    rw [NiosvTop.step_eq]
    exact ⟨_, _, h.rebase _⟩

/-- While the key is left alone, what is known stays so. -/
lemma Design.Steady.of_run {cycle₀ base : ℕ} {timing : VgaTiming} {mid s : Design}
    {events : List DesignEvent} (h : mid.Steady cycle₀ base timing)
    (hrun : run (Design.step mainProgram) mid events = some s)
    (hkey : ∀ e ∈ events, ∀ level, e ≠ .key0 level) (hcycle : s.cpu.cycle < 2 ^ 64) :
    s.Steady cycle₀ base timing := by
  have hle := (along_le_final Design.step_cycle_le hrun).1
  induction events generalizing mid with
  | nil =>
    rw [run_nil, Option.some.injEq] at hrun
    exact hrun ▸ h
  | cons e events ih =>
    obtain ⟨mid', hmid', hrest⟩ := run_cons_eq_some.mp hrun
    cases e with
    | cpu e =>
      exact ih (h.step (lt_of_le_of_lt hle hcycle) hmid') hrest
        (fun e' he' => hkey e' (List.mem_cons_of_mem _ he'))
        (along_le_final Design.step_cycle_le hrest).1
    | key0 level => exact absurd rfl (hkey _ List.mem_cons_self level)

/-- While the program sleeps after it has commanded a position, and `KEY[0]` stays released, the
monitor receives at least 58 consecutive whole frames with the piece there, its row and column
exchanged. -/
theorem position_shown {cycle : ℕ} {mtimecmp : BitVec 64} {timing : VgaTiming}
    {before after : List DesignEvent} {mid s : Design}
    (hbefore : run (Design.step mainProgram) (Design.init cycle mtimecmp timing) before = some mid)
    (hreleased : mid.top.timing.resetN = true)
    (hafter : run (Design.step mainProgram) mid after = some s)
    (hkey : ∀ e ∈ after, ∀ level, e ≠ .key0 level) (hcycle : s.cpu.cycle < 2 ^ 64) (i : ℕ) (d : Done)
    (hd : s.cpu.done[3 * i + 2]? = some d) (hlate : mid.cpu.cycle ≤ d.start) :
    ∃ n, d.start ≤ cycle + n ∧ cycle + n + 58 * 840000 ≤ d.finish ∧ ∀ j < 58, ∀ m < 840000,
      s.shown[n + 840000 * j + m]? = some
        (framePixel (position i).pieceCol.toNat (position i).pieceRow.toNat (m / 2)) := by
  have hle := along_le_final Design.step_cycle_le hafter
  obtain ⟨base, timing', hmid⟩ := Design.steady_of_run hbefore (lt_of_le_of_lt hle.1 hcycle)
  have hsteady : s.Steady cycle mid.cpu.cycle mid.top.timing :=
    (hmid.rebase mid.top.timing).of_run hafter hkey hcycle
  have hexecuted := hsteady.sequential.executed
  have hinstr := hexecuted.getElem?_instr hd
  rw [(mainProgram_position i).2.2] at hinstr
  have hlasted := (hexecuted.lasted d (List.mem_of_getElem? hd)).2 _ hinstr
  have hsecond : (endTime 1000000#32).toNat = 50000000 := by decide
  rw [hsecond] at hlasted
  have hstarted := hsteady.started.1
  have hdisplays := hsteady.slept i d hd hlate
  obtain ⟨n, J, hfrom, hto, hframe⟩ :=
    VgaTiming.exists_frame hreleased (d.start - mid.cpu.cycle)
  refine ⟨mid.cpu.cycle - cycle + n, by omega, by omega, ?_⟩
  intro j hj m hm
  have hshown := hdisplays (mid.cpu.cycle + (n + 840000 * j + m)) (by omega) (by omega)
  have hat := hframe (840000 * j + m)
  have hcount : 420000 * J + (840000 * j + m) / 2 = 420000 * (J + j) + m / 2 := by omega
  have hplace : mid.cpu.cycle + (n + 840000 * j + m) - cycle =
      mid.cpu.cycle - cycle + n + 840000 * j + m := by omega
  rw [hcount, ← Nat.add_assoc] at hat
  rw [Nat.add_sub_cancel_left, hplace, Project7.pixel_eq_framePixel hat (by omega)] at hshown
  exact hshown

/-- What the processor does, the design does. -/
lemma Design.exists_run {program : ℕ → Instr} {s : Design} {cpu : Processor} {events : List Event}
    (hrun : run (Processor.step program) s.cpu events = some cpu) :
    ∃ s', run (Design.step program) s (events.map .cpu) = some s' ∧ s'.cpu = cpu := by
  induction events generalizing s with
  | nil =>
    rw [run_nil, Option.some.injEq] at hrun
    exact ⟨s, run_nil s, hrun⟩
  | cons e events ih =>
    obtain ⟨mid, hmid, hrest⟩ := run_cons_eq_some.mp hrun
    have hstep : s.step program (.cpu e) = some ⟨mid, (s.topEvent program e).elim s.top s.top.step,
        if e = .clock then s.shown ++ [s.top.vgaPins] else s.shown⟩ := by
      rw [Design.step, hmid, Option.map_some]
    obtain ⟨s', hs', hcpu⟩ := ih (s := ⟨mid, (s.topEvent program e).elim s.top s.top.step,
      if e = .clock then s.shown ++ [s.top.vgaPins] else s.shown⟩) hrest
    exact ⟨s', run_cons_eq_some.mpr ⟨_, hstep, hs'⟩, hcpu⟩

/-- The key is pressed and released before `main` begins. -/
theorem position_shown_firstPosition : ∃ events s, run (Design.step mainProgram)
    (Design.init 0 0#64 ⟨true, true, ⟨1000#10, 700#10⟩⟩)
      ([.key0 false, .key0 true] ++ events) = some s ∧ ∃ n, ∀ j < 58, ∀ m < 840000,
      s.shown[n + 840000 * j + m]? = some (framePixel 1 2 (m / 2)) := by
  have hinit := run_init mainProgram 0 0#64
  have hstores : run (Processor.step mainProgram) ⟨0, BitVec.ofNat 64 0 +
      BitVec.ofNat 64 MTIMECMP_DELTA_AMT, true, none, .before, [BitVec.ofNat 64 0], 0, []⟩
      [.access, .access] = some ⟨0, BitVec.ofNat 64 0 + BitVec.ofNat 64 MTIMECMP_DELTA_AMT, true,
        none, .before, [BitVec.ofNat 64 0], 0, [⟨mainProgram 0, 0, 0⟩, ⟨mainProgram 1, 0, 0⟩]⟩ := rfl
  obtain ⟨events, cpu, hsleep, hcycle, hdone⟩ := run_usleep mainProgram
    (s := ⟨0, BitVec.ofNat 64 0 + BitVec.ofNat 64 MTIMECMP_DELTA_AMT, true, none, .before,
      [BitVec.ofNat 64 0], 0, [⟨mainProgram 0, 0, 0⟩, ⟨mainProgram 1, 0, 0⟩]⟩) rfl rfl
    (show mainProgram 2 = .usleep 1000000#32 from rfl)
  have hall := run_append_eq_some.mpr ⟨_, hinit, run_append_eq_some.mpr ⟨_, hstores, hsleep⟩⟩
  have hkeys : run (Design.step mainProgram) (Design.init 0 0#64 ⟨true, true, ⟨1000#10, 700#10⟩⟩)
      [.key0 false, .key0 true] = some ⟨Processor.start 0 0#64,
        (NiosvTop.step ⟨⟨true, true, ⟨1000#10, 700#10⟩⟩, PieceRegs.reset⟩ (.key0 false)).step
          (.key0 true), []⟩ := rfl
  obtain ⟨s, hrun, hcpu⟩ := Design.exists_run (s := ⟨Processor.start 0 0#64,
    (NiosvTop.step ⟨⟨true, true, ⟨1000#10, 700#10⟩⟩, PieceRegs.reset⟩ (.key0 false)).step
      (.key0 true), []⟩) hall
  have hsmall : s.cpu.cycle < 2 ^ 64 := by
    rw [hcpu, hcycle]
    decide
  have hd : s.cpu.done[3 * 0 + 2]? =
      some ⟨.usleep 1000000#32, 0, 0 + (endTime 1000000#32).toNat⟩ := by
    rw [hcpu, hdone]
    rfl
  obtain ⟨n, -, -, hshown⟩ := position_shown hkeys (by rw [NiosvTop.step_eq]; rfl) hrun (by simp)
    hsmall 0 _ hd (Nat.zero_le 0)
  exact ⟨_, s, run_append_eq_some.mpr ⟨_, hkeys, hrun⟩, n, hshown⟩

end VecadNiosv
