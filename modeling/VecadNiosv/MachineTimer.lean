import VecadNiosv.DataBus
import VecadNiosv.Library.EventRun
import VecadNiosv.Library.PolledTimer

/-!
# The machine timer

The processor reads its 64-bit cycle counter and sets its 64-bit compare register through 32-bit
accesses, between which the counter goes on and interrupts come in. The tick interrupt is programmed
anew by each run of its handler, and `usleep` polls the counter while these interrupts come and go.
-/

namespace VecadNiosv

namespace MachineTimer

open EventRun PolledTimer

def ALT_CPU_CPU_FREQ : ℕ := 50000000

def ALT_CPU_TICKS_PER_SEC : ℕ := 1000

def CPU_FREQUENCY_MHZ : ℕ := ALT_CPU_CPU_FREQ / 1000000

def MTIMECMP_DELTA_AMT : ℕ := ALT_CPU_CPU_FREQ / ALT_CPU_TICKS_PER_SEC

def highWord (word : BitVec 64) : BitVec 32 := word.extractLsb' 32 32

def lowWord (word : BitVec 64) : BitVec 32 := word.setWidth 32

/-- Where `alt_niosv_mtime_get` is between its loads, with the words loaded so far. -/
inductive Get where
  | high
  | low (highbits : BitVec 32)
  | check (highbits lowbits : BitVec 32)
  deriving DecidableEq, Repr

/-- One load of `alt_niosv_mtime_get`, and what it returns after the last one. -/
def Get.step (mtime : BitVec 64) : Get → Get ⊕ BitVec 64
  | .high => .inl (.low (highWord mtime))
  | .low highbits => .inl (.check highbits (lowWord mtime))
  | .check highbits lowbits =>
    if highWord mtime ≠ highbits then .inl .high else .inr (highbits ++ lowbits)

/-- Where `alt_niosv_mtimecmp_set` is between its stores. -/
inductive Set where
  | highMax (time : BitVec 64)
  | low (time : BitVec 64)
  | high (time : BitVec 64)
  deriving DecidableEq, Repr

/-- One store of `alt_niosv_mtimecmp_set`. -/
def Set.step (mtimecmp : BitVec 64) : Set → BitVec 64 × Option Set
  | .highMax time => (0xFFFFFFFF#32 ++ lowWord mtimecmp, some (.low time))
  | .low time => (highWord mtimecmp ++ lowWord time, some (.high time))
  | .high time => (highWord time ++ lowWord mtimecmp, none)

/-- The `end_time` of `alt_busy_sleep`, whose product is one of 32-bit numbers. -/
def endTime (us : BitVec 32) : BitVec 64 := (BitVec.ofNat 32 CPU_FREQUENCY_MHZ * us).setWidth 64

/-- A statement of a program that stores to peripherals and sleeps. -/
inductive Instr where
  | store (st : Store)
  | usleep (us : BitVec 32)
  deriving DecidableEq, Repr

/-- Where `alt_niosv_timer_sc_isr` is. -/
inductive Isr where
  | get (g : Get)
  | set (p : Set)
  | altTick
  deriving DecidableEq, Repr

/-- Where the program is: in `alt_niosv_mtimecmp_interrupt_init`, before a statement, or in a
`usleep` that was called at a cycle. -/
inductive Main where
  | initGet (g : Get)
  | initSet (p : Set)
  | initEnable
  | before
  | timestampStart (us : BitVec 32) (called : ℕ) (g : Get)
  | spin (us : BitVec 32) (called : ℕ) (offset : BitVec 64) (g : Get)
  deriving DecidableEq, Repr

/-- Interrupts have been initialised. -/
def Main.Running : Main → Prop
  | .initGet _ | .initSet _ | .initEnable => False
  | _ => True

/-- A statement that has been executed, with the cycles of its start and its end. -/
structure Done where
  instr : Instr
  start : ℕ
  finish : ℕ
  deriving DecidableEq, Repr

/-- The processor with its timer. The history holds the cycles from which the compare register was
computed, the number of calls of `alt_tick`, and the executed statements. -/
structure Processor where
  cycle : ℕ
  mtimecmp : BitVec 64
  timerEnabled : Bool
  isr : Option Isr
  main : Main
  reads : List (BitVec 64)
  ticks : ℕ
  done : List Done

namespace Processor

/-- The counter starts with the processor and counts its cycles. -/
def mtime (s : Processor) : BitVec 64 := BitVec.ofNat 64 s.cycle

/-- The processor at the start of `alt_niosv_mtimecmp_interrupt_init`. -/
def start (cycle : ℕ) (mtimecmp : BitVec 64) : Processor :=
  ⟨cycle, mtimecmp, false, none, .initGet .high, [], 0, []⟩

/-- The interrupt line of the timer. -/
def TimerPending (s : Processor) : Prop := s.mtimecmp ≤ s.mtime

instance (s : Processor) : Decidable s.TimerPending := inferInstanceAs (Decidable (_ ≤ _))

/-- One access of the handler. -/
def isrStep (s : Processor) : Isr → Processor
  | .get g =>
    match g.step s.mtime with
    | .inl g => { s with isr := some (.get g) }
    | .inr currTime => { s with
        isr := some (.set (.highMax (currTime + BitVec.ofNat 64 MTIMECMP_DELTA_AMT)))
        reads := s.reads ++ [currTime] }
  | .set p =>
    match p.step s.mtimecmp with
    | (mtimecmp, some p) => { s with mtimecmp, isr := some (.set p) }
    | (mtimecmp, none) => { s with mtimecmp, isr := some .altTick }
  | .altTick => { s with isr := none, ticks := s.ticks + 1 }

/-- One access of the program. -/
def mainStep (program : ℕ → Instr) (s : Processor) : Processor :=
  match s.main with
  | .initGet g =>
    match g.step s.mtime with
    | .inl g => { s with main := .initGet g }
    | .inr currTime => { s with
        main := .initSet (.highMax (currTime + BitVec.ofNat 64 MTIMECMP_DELTA_AMT))
        reads := s.reads ++ [currTime] }
  | .initSet p =>
    match p.step s.mtimecmp with
    | (mtimecmp, some p) => { s with mtimecmp, main := .initSet p }
    | (mtimecmp, none) => { s with mtimecmp, main := .initEnable }
  | .initEnable => { s with timerEnabled := true, main := .before }
  | .before =>
    match program s.done.length with
    | .store st => { s with done := s.done ++ [⟨.store st, s.cycle, s.cycle⟩] }
    | .usleep us => { s with main := .timestampStart us s.cycle .high }
  | .timestampStart us called g =>
    match g.step s.mtime with
    | .inl g => { s with main := .timestampStart us called g }
    | .inr offset => { s with main := .spin us called offset .high }
  | .spin us called offset g =>
    match g.step s.mtime with
    | .inl g => { s with main := .spin us called offset g }
    | .inr time =>
      if time - offset < endTime us then { s with main := .spin us called offset .high }
      else { s with main := .before, done := s.done ++ [⟨.usleep us, called, s.cycle⟩] }

end Processor

inductive Event where
  | clock
  | interrupt
  | access
  deriving DecidableEq, Repr

/-- A cycle of the clock, the entry of the handler, or the next access of the code that runs. The
handler is not interrupted. -/
def Processor.step (program : ℕ → Instr) (s : Processor) : Event → Option Processor
  | .clock => some { s with cycle := s.cycle + 1 }
  | .interrupt =>
    if s.isr = none ∧ s.timerEnabled ∧ s.TimerPending then some { s with isr := some (.get .high) }
    else none
  | .access =>
    match s.isr with
    | some isr => some (s.isrStep isr)
    | none => some (s.mainStep program)

lemma toNat_highWord (word : BitVec 64) : (highWord word).toNat = word.toNat / 2 ^ 32 := by
  have hword := word.isLt
  rw [highWord, BitVec.extractLsb'_toNat, Nat.shiftRight_eq_div_pow, Nat.mod_eq_of_lt (by omega)]

lemma toNat_lowWord (word : BitVec 64) : (lowWord word).toNat = word.toNat % 2 ^ 32 := by
  rw [lowWord, BitVec.toNat_setWidth]

lemma toNat_words (high low : BitVec 32) : (high ++ low).toNat = high.toNat * 2 ^ 32 + low.toNat := by
  rw [BitVec.toNat_append, Nat.shiftLeft_eq, Nat.mul_comm, Nat.two_pow_add_eq_or_of_lt low.isLt]

lemma words_eta (word : BitVec 64) : highWord word ++ lowWord word = word := by
  apply BitVec.eq_of_toNat_eq
  rw [toNat_words, toNat_highWord, toNat_lowWord]
  omega

lemma highWord_words (high low : BitVec 32) : highWord (high ++ low) = high := by
  rw [highWord, BitVec.extractLsb'_append_eq_left]

lemma lowWord_words (high low : BitVec 32) : lowWord (high ++ low) = low := by
  rw [lowWord, BitVec.setWidth_append_eq_right]

lemma toNat_ofNat {n : ℕ} (hn : n < 2 ^ 64) : (BitVec.ofNat 64 n).toNat = n := by
  rw [BitVec.toNat_ofNat, Nat.mod_eq_of_lt hn]

/-- The words that `alt_niosv_mtime_get` has loaded were those of the counter, at cycles since the
first one. -/
def Get.Sound (since now : ℕ) : Get → Prop
  | .high => True
  | .low highbits => ∃ t, since ≤ t ∧ t ≤ now ∧ highbits.toNat = t / 2 ^ 32
  | .check highbits lowbits => ∃ t u, since ≤ t ∧ t ≤ u ∧ u ≤ now ∧
      highbits.toNat = t / 2 ^ 32 ∧ lowbits.toNat = u % 2 ^ 32

lemma Get.Sound.mono {since now now' : ℕ} {g : Get} (h : g.Sound since now) (hle : now ≤ now') :
    g.Sound since now' := by
  cases g with
  | high => trivial
  | low highbits =>
    obtain ⟨t, ht, htnow, hhigh⟩ := h
    exact ⟨t, ht, htnow.trans hle, hhigh⟩
  | check highbits lowbits =>
    obtain ⟨t, u, ht, htu, hunow, hhigh, hlow⟩ := h
    exact ⟨t, u, ht, htu, hunow.trans hle, hhigh, hlow⟩

lemma Get.Sound.load {since now : ℕ} {g g' : Get} (h : g.Sound since now) (hsince : since ≤ now)
    (hnow : now < 2 ^ 64) (hstep : g.step (BitVec.ofNat 64 now) = .inl g') :
    g'.Sound since now := by
  cases g with
  | high =>
    rw [Get.step, Sum.inl.injEq] at hstep
    rw [← hstep]
    exact ⟨now, hsince, le_rfl, by rw [toNat_highWord, toNat_ofNat hnow]⟩
  | low highbits =>
    obtain ⟨t, ht, htnow, hhigh⟩ := h
    rw [Get.step, Sum.inl.injEq] at hstep
    rw [← hstep]
    exact ⟨t, now, ht, htnow, le_rfl, hhigh, by rw [toNat_lowWord, toNat_ofNat hnow]⟩
  | check highbits lowbits =>
    rw [Get.step] at hstep
    split_ifs at hstep
    rw [Sum.inl.injEq] at hstep
    rw [← hstep]
    trivial

/-- Since the high word has not changed between its two loads, the words are those of the cycle at
which the low word was loaded. -/
lemma Get.Sound.returns {since now : ℕ} {g : Get} {time : BitVec 64} (h : g.Sound since now)
    (hnow : now < 2 ^ 64) (hstep : g.step (BitVec.ofNat 64 now) = .inr time) :
    since ≤ time.toNat ∧ time.toNat ≤ now := by
  cases g with
  | high => exact absurd hstep (by simp [Get.step])
  | low highbits => exact absurd hstep (by simp [Get.step])
  | check highbits lowbits =>
    obtain ⟨t, u, ht, htu, hunow, hhigh, hlow⟩ := h
    rw [Get.step] at hstep
    split_ifs at hstep with hsame
    rw [Sum.inr.injEq] at hstep
    have hend : highbits.toNat = now / 2 ^ 32 := by
      rw [← not_not.mp hsame, toNat_highWord, toNat_ofNat hnow]
    rw [← hstep, toNat_words]
    omega

def Set.time : Set → BitVec 64
  | .highMax time => time
  | .low time => time
  | .high time => time

/-- What the compare register holds before the next store of `alt_niosv_mtimecmp_set`. -/
def Set.Sound (mtimecmp : BitVec 64) : Set → Prop
  | .highMax _ => True
  | .low _ => highWord mtimecmp = 0xFFFFFFFF#32
  | .high time => highWord mtimecmp = 0xFFFFFFFF#32 ∧ lowWord mtimecmp = lowWord time

lemma Set.Sound.store {p p' : Set} {mtimecmp mtimecmp' : BitVec 64} (h : p.Sound mtimecmp)
    (hstep : p.step mtimecmp = (mtimecmp', some p')) :
    p'.Sound mtimecmp' ∧ p'.time = p.time := by
  cases p with
  | highMax time =>
    obtain ⟨rfl, hp'⟩ := Prod.mk.inj hstep
    rw [← Option.some.inj hp']
    exact ⟨highWord_words _ _, rfl⟩
  | low time =>
    obtain ⟨rfl, hp'⟩ := Prod.mk.inj hstep
    rw [← Option.some.inj hp']
    exact ⟨⟨(highWord_words _ _).trans h, lowWord_words _ _⟩, rfl⟩
  | high time => exact absurd hstep (by simp [Set.step])

lemma Set.Sound.last {p : Set} {mtimecmp mtimecmp' : BitVec 64} (h : p.Sound mtimecmp)
    (hstep : p.step mtimecmp = (mtimecmp', none)) : mtimecmp' = p.time := by
  cases p with
  | highMax time => exact absurd hstep (by simp [Set.step])
  | low time => exact absurd hstep (by simp [Set.step])
  | high time =>
    obtain ⟨hmtimecmp, -⟩ := Prod.mk.inj hstep
    rw [← hmtimecmp, h.2, words_eta, Set.time]

/-- What the code does to the compare register: it reads the counter, it stores the new value, or it
has programmed the next interrupt. -/
inductive Phase where
  | get (g : Get)
  | set (p : Set)
  | armed

/-- The cycle from which the next interrupt may come. -/
def due (cycle₀ : ℕ) (reads : List (BitVec 64)) : ℕ :=
  match reads.getLast? with
  | none => cycle₀
  | some currTime => currTime.toNat + MTIMECMP_DELTA_AMT

lemma due_append (cycle₀ : ℕ) (reads : List (BitVec 64)) (currTime : BitVec 64) :
    due cycle₀ (reads ++ [currTime]) = currTime.toNat + MTIMECMP_DELTA_AMT := by
  rw [due, List.getLast?_append, List.getLast?_singleton, Option.some_or]

/-- The cycles of the reads, after the one from which the first of them is not early. -/
def readTimes (cycle₀ : ℕ) (reads : List (BitVec 64)) : List ℤ :=
  ((cycle₀ : ℤ) - MTIMECMP_DELTA_AMT) :: reads.map (fun currTime => (currTime.toNat : ℤ))

lemma getLast?_readTimes (cycle₀ : ℕ) (reads : List (BitVec 64)) :
    (readTimes cycle₀ reads).getLast? = some ((due cycle₀ reads : ℤ) - MTIMECMP_DELTA_AMT) := by
  induction reads using List.reverseRecOn with
  | nil => rfl
  | append_singleton reads currTime _ =>
    rw [due_append, readTimes, List.map_append, ← List.cons_append, List.map_singleton,
      List.getLast?_append, List.getLast?_singleton, Option.some_or, Nat.cast_add,
      add_sub_cancel_right]

structure Programmed (cycle₀ cycle : ℕ) (mtimecmp : BitVec 64) (reads : List (BitVec 64))
    (phase : Phase) : Prop where
  started : cycle₀ ≤ cycle
  past : ∀ currTime ∈ reads, currTime.toNat ≤ cycle
  spaced : Spaced (MTIMECMP_DELTA_AMT : ℤ) (readTimes cycle₀ reads)
  phase : match phase with
    | .get g => due cycle₀ reads ≤ cycle ∧ g.Sound (due cycle₀ reads) cycle
    | .set p => p.time.toNat = due cycle₀ reads ∧ p.Sound mtimecmp
    | .armed => mtimecmp.toNat = due cycle₀ reads

namespace Programmed

variable {cycle₀ cycle : ℕ} {mtimecmp mtimecmp' : BitVec 64} {reads : List (BitVec 64)}

lemma clock {phase : Phase} (h : Programmed cycle₀ cycle mtimecmp reads phase) :
    Programmed cycle₀ (cycle + 1) mtimecmp reads phase := by
  refine ⟨h.started.trans cycle.le_succ, fun r hr => (h.past r hr).trans cycle.le_succ, h.spaced, ?_⟩
  have hphase := h.phase
  cases phase with
  | get g => exact ⟨hphase.1.trans cycle.le_succ, hphase.2.mono cycle.le_succ⟩
  | set p => exact hphase
  | armed => exact hphase

lemma interrupt (h : Programmed cycle₀ cycle mtimecmp reads .armed) (hcycle : cycle < 2 ^ 64)
    (hpending : mtimecmp ≤ BitVec.ofNat 64 cycle) :
    Programmed cycle₀ cycle mtimecmp reads (.get .high) := by
  have hdue : mtimecmp.toNat = due cycle₀ reads := h.phase
  rw [BitVec.le_def, hdue, toNat_ofNat hcycle] at hpending
  exact ⟨h.started, h.past, h.spaced, hpending, trivial⟩

lemma load {g g' : Get} (h : Programmed cycle₀ cycle mtimecmp reads (.get g))
    (hcycle : cycle < 2 ^ 64) (hstep : g.step (BitVec.ofNat 64 cycle) = .inl g') :
    Programmed cycle₀ cycle mtimecmp reads (.get g') := by
  obtain ⟨hdue, hsound⟩ := h.phase
  exact ⟨h.started, h.past, h.spaced, hdue, hsound.load hdue hcycle hstep⟩

lemma returns {g : Get} {currTime : BitVec 64}
    (h : Programmed cycle₀ cycle mtimecmp reads (.get g)) (hcycle : cycle < 2 ^ 64 - 2 ^ 32)
    (hstep : g.step (BitVec.ofNat 64 cycle) = .inr currTime) :
    Programmed cycle₀ cycle mtimecmp (reads ++ [currTime])
      (.set (.highMax (currTime + BitVec.ofNat 64 MTIMECMP_DELTA_AMT))) := by
  obtain ⟨hdue, hsound⟩ := h.phase
  obtain ⟨hfrom, hto⟩ := hsound.returns (by omega) hstep
  have hD : MTIMECMP_DELTA_AMT = 50000 := rfl
  refine ⟨h.started, ?_, ?_, ?_, trivial⟩
  · intro r hr
    rcases List.mem_append.mp hr with hr | hr
    · exact h.past r hr
    · rw [List.mem_singleton.mp hr]
      exact hto
  · have hchain : Spaced (MTIMECMP_DELTA_AMT : ℤ)
        (readTimes cycle₀ reads ++ [(currTime.toNat : ℤ)]) := by
      apply List.isChain_append.mpr
      refine ⟨h.spaced, List.isChain_singleton _, ?_⟩
      intro x hx y hy
      rw [getLast?_readTimes, Option.mem_some_iff] at hx
      rw [List.head?_cons, Option.mem_some_iff] at hy
      rw [← hx, ← hy]
      omega
    rw [readTimes, List.map_append, List.map_singleton, ← List.cons_append]
    exact hchain
  · rw [due_append, Set.time, BitVec.toNat_add, toNat_ofNat (by rw [hD]; decide)]
    omega

lemma store {p p' : Set} (h : Programmed cycle₀ cycle mtimecmp reads (.set p))
    (hstep : p.step mtimecmp = (mtimecmp', some p')) :
    Programmed cycle₀ cycle mtimecmp' reads (.set p') := by
  obtain ⟨htime, hsound⟩ := h.phase
  obtain ⟨hsound', htime'⟩ := hsound.store hstep
  exact ⟨h.started, h.past, h.spaced, by rw [htime', htime], hsound'⟩

lemma last {p : Set} (h : Programmed cycle₀ cycle mtimecmp reads (.set p))
    (hstep : p.step mtimecmp = (mtimecmp', none)) :
    Programmed cycle₀ cycle mtimecmp' reads .armed := by
  obtain ⟨htime, hsound⟩ := h.phase
  refine ⟨h.started, h.past, h.spaced, ?_⟩
  rw [hsound.last hstep]
  exact htime

/-- Between the first and the last of the stores no interrupt is pending. -/
lemma not_le_of_high {p : Set} (h : Programmed cycle₀ cycle mtimecmp reads (.set p))
    (hp : ∀ time, p ≠ .highMax time) (hcycle : cycle < 2 ^ 64 - 2 ^ 32) :
    ¬mtimecmp ≤ BitVec.ofNat 64 cycle := by
  have hmax : highWord mtimecmp = 0xFFFFFFFF#32 := by
    have hsound := h.phase.2
    cases p with
    | highMax time => exact absurd rfl (hp time)
    | low time => exact hsound
    | high time => exact hsound.1
  have hhigh := congrArg BitVec.toNat hmax
  rw [toNat_highWord] at hhigh
  rw [BitVec.le_def, toNat_ofNat (by omega)]
  have hliteral : (0xFFFFFFFF#32 : BitVec 32).toNat = 4294967295 := rfl
  omega

/-- The interrupts are an interval apart. -/
lemma length_mul_le {phase : Phase} (h : Programmed cycle₀ cycle mtimecmp reads phase) :
    reads.length * MTIMECMP_DELTA_AMT + cycle₀ ≤ cycle + MTIMECMP_DELTA_AMT := by
  have hstarted := h.started
  have hstop : ∀ t ∈ readTimes cycle₀ reads, t ≤ (cycle : ℤ) := by
    intro t ht
    rcases List.mem_cons.mp ht with rfl | ht
    · omega
    · obtain ⟨r, hr, rfl⟩ := List.mem_map.mp ht
      exact_mod_cast h.past r hr
  have hle := h.spaced.length_nsmul_le hstop
  rw [List.length_map, nsmul_eq_mul] at hle
  have hcast : ((reads.length * MTIMECMP_DELTA_AMT : ℕ) : ℤ) =
      (reads.length : ℤ) * (MTIMECMP_DELTA_AMT : ℤ) := Nat.cast_mul _ _
  omega

end Programmed

/-! ### The tick interrupts -/

namespace Processor

def phase (s : Processor) : Phase :=
  match s.isr, s.main with
  | some (.get g), _ => .get g
  | some (.set p), _ => .set p
  | some .altTick, _ => .armed
  | none, .initGet g => .get g
  | none, .initSet p => .set p
  | none, _ => .armed

/-- The number of reads is one more than that of the calls of `alt_tick`, but for the run of the
handler in which the call is still to come. -/
def Counted (s : Processor) : Prop :=
  match s.isr, s.main with
  | some (.get _), _ => s.reads.length = s.ticks + 1
  | some _, _ => s.reads.length = s.ticks + 2
  | none, .initGet _ => s.reads = [] ∧ s.ticks = 0
  | none, _ => s.reads.length = s.ticks + 1

/-- The timer interrupt is enabled by the last step of the initialisation. -/
structure Enabled (s : Processor) : Prop where
  of_running : s.main.Running → s.timerEnabled = true
  of_init : ¬s.main.Running → s.timerEnabled = false ∧ s.isr = none

structure Ticking (cycle₀ : ℕ) (s : Processor) : Prop where
  programmed : Programmed cycle₀ s.cycle s.mtimecmp s.reads s.phase
  counted : s.Counted
  enabled : s.Enabled

lemma phase_of_running {s : Processor} (hisr : s.isr = none) (hmain : s.main.Running) :
    s.phase = .armed := by
  rw [phase, hisr]
  cases hcase : s.main with
  | initGet g => exact absurd hmain (by rw [hcase]; exact id)
  | initSet p => exact absurd hmain (by rw [hcase]; exact id)
  | initEnable => exact absurd hmain (by rw [hcase]; exact id)
  | before => rfl
  | timestampStart us called g => rfl
  | spin us called offset g => rfl

lemma counted_iff_of_running {s : Processor} (hisr : s.isr = none) (hmain : s.main.Running) :
    s.Counted ↔ s.reads.length = s.ticks + 1 := by
  rw [Counted, hisr]
  cases hcase : s.main with
  | initGet g => exact absurd hmain (by rw [hcase]; exact id)
  | initSet p => exact Iff.rfl
  | initEnable => exact Iff.rfl
  | before => exact Iff.rfl
  | timestampStart us called g => exact Iff.rfl
  | spin us called offset g => exact Iff.rfl

/-- After the initialisation the program does nothing to the timer. -/
lemma mainStep_of_running (program : ℕ → Instr) {s : Processor} (hmain : s.main.Running) :
    ∃ main done, main.Running ∧ s.mainStep program = { s with main, done } := by
  rw [mainStep]
  cases hcase : s.main with
  | initGet g => exact absurd hmain (by rw [hcase]; exact id)
  | initSet p => exact absurd hmain (by rw [hcase]; exact id)
  | initEnable => exact absurd hmain (by rw [hcase]; exact id)
  | before =>
    cases program s.done.length with
    | store st => exact ⟨.before, _, trivial, rfl⟩
    | usleep us => exact ⟨.timestampStart us s.cycle .high, _, trivial, rfl⟩
  | timestampStart us called g =>
    dsimp only
    cases g.step s.mtime with
    | inl g' => exact ⟨.timestampStart us called g', _, trivial, rfl⟩
    | inr offset => exact ⟨.spin us called offset .high, _, trivial, rfl⟩
  | spin us called offset g =>
    dsimp only
    cases g.step s.mtime with
    | inl g' => exact ⟨.spin us called offset g', _, trivial, rfl⟩
    | inr time =>
      by_cases hspin : time - offset < endTime us
      · exact ⟨.spin us called offset .high, _, trivial, if_pos hspin⟩
      · exact ⟨.before, _, trivial, if_neg hspin⟩

lemma ticking_start (cycle : ℕ) (mtimecmp : BitVec 64) : (start cycle mtimecmp).Ticking cycle where
  programmed := by
    refine ⟨le_rfl, ?_, ?_, le_rfl, trivial⟩
    · intro r hr
      exact absurd hr List.not_mem_nil
    · exact List.isChain_singleton _
  counted := ⟨rfl, rfl⟩
  enabled := ⟨False.elim, fun _ => ⟨rfl, rfl⟩⟩

lemma isrStep_frame (s : Processor) (isr : Isr) :
    (s.isrStep isr).cycle = s.cycle ∧ (s.isrStep isr).main = s.main ∧
      (s.isrStep isr).done = s.done := by
  cases isr with
  | get g =>
    rw [isrStep]
    cases g.step s.mtime with
    | inl g' => exact ⟨rfl, rfl, rfl⟩
    | inr currTime => exact ⟨rfl, rfl, rfl⟩
  | set p =>
    rw [isrStep]
    cases p.step s.mtimecmp with
    | mk mtimecmp next =>
      cases next with
      | none => exact ⟨rfl, rfl, rfl⟩
      | some p' => exact ⟨rfl, rfl, rfl⟩
  | altTick => exact ⟨rfl, rfl, rfl⟩

lemma mainStep_frame (s : Processor) (program : ℕ → Instr) :
    (s.mainStep program).cycle = s.cycle := by
  by_cases hmain : s.main.Running
  · obtain ⟨main, done, -, heq⟩ := mainStep_of_running program hmain
    rw [heq]
  · rw [mainStep]
    cases hcase : s.main with
    | initGet g =>
      dsimp only
      cases g.step s.mtime with
      | inl g' => rfl
      | inr currTime => rfl
    | initSet p =>
      dsimp only
      cases p.step s.mtimecmp with
      | mk mtimecmp next => cases next <;> rfl
    | initEnable => rfl
    | before => exact absurd (by rw [hcase]; trivial) hmain
    | timestampStart us called g => exact absurd (by rw [hcase]; trivial) hmain
    | spin us called offset g => exact absurd (by rw [hcase]; trivial) hmain

namespace Ticking

variable {cycle₀ : ℕ} {s : Processor}

lemma ticks_lt (h : s.Ticking cycle₀) : s.ticks < s.reads.length ∨ s.ticks = 0 := by
  have hcounted := h.counted
  rw [Counted] at hcounted
  split at hcounted
  · exact Or.inl (by omega)
  · exact Or.inl (by omega)
  · exact Or.inr hcounted.2
  · exact Or.inl (by omega)

lemma running (h : s.Ticking cycle₀) {isr : Isr} (hisr : s.isr = some isr) : s.main.Running := by
  by_contra hmain
  rw [(h.enabled.of_init hmain).2] at hisr
  exact absurd hisr (by simp)

lemma running_of_enabled (h : s.Ticking cycle₀) (hon : s.timerEnabled = true) : s.main.Running := by
  by_contra hmain
  rw [(h.enabled.of_init hmain).1] at hon
  exact absurd hon (by simp)

lemma clock (h : s.Ticking cycle₀) : ({ s with cycle := s.cycle + 1 } : Processor).Ticking cycle₀ :=
  ⟨h.programmed.clock, h.counted, h.enabled.of_running, h.enabled.of_init⟩

lemma interrupt (h : s.Ticking cycle₀) (hcycle : s.cycle < 2 ^ 64) (hisr : s.isr = none)
    (hon : s.timerEnabled = true) (hpending : s.TimerPending) :
    ({ s with isr := some (.get .high) } : Processor).Ticking cycle₀ := by
  have hmain := h.running_of_enabled hon
  have hprogrammed := h.programmed
  rw [phase_of_running hisr hmain] at hprogrammed
  refine ⟨hprogrammed.interrupt hcycle hpending, (counted_iff_of_running hisr hmain).mp h.counted, ?_⟩
  exact ⟨fun _ => hon, fun hinit => absurd hmain hinit⟩

lemma isrStep (h : s.Ticking cycle₀) (hcycle : s.cycle < 2 ^ 64 - 2 ^ 32) {isr : Isr}
    (hisr : s.isr = some isr) : (s.isrStep isr).Ticking cycle₀ := by
  have hmain := h.running hisr
  have hon := h.enabled.of_running hmain
  have hprogrammed := h.programmed
  have hcounted := h.counted
  rw [phase, hisr] at hprogrammed
  rw [Counted, hisr] at hcounted
  cases isr with
  | get g =>
    rw [Processor.isrStep]
    cases hstep : g.step s.mtime with
    | inl g' =>
      exact ⟨hprogrammed.load (by omega) hstep, hcounted, fun _ => hon, fun hinit => absurd hmain hinit⟩
    | inr currTime =>
      refine ⟨hprogrammed.returns hcycle hstep, ?_, fun _ => hon, fun hinit => absurd hmain hinit⟩
      change (s.reads ++ [currTime]).length = s.ticks + 2
      rw [List.length_append, hcounted, List.length_singleton]
  | set p =>
    rw [Processor.isrStep]
    cases hstep : p.step s.mtimecmp with
    | mk mtimecmp next =>
      cases next with
      | some p' =>
        exact ⟨hprogrammed.store hstep, hcounted, fun _ => hon, fun hinit => absurd hmain hinit⟩
      | none => exact ⟨hprogrammed.last hstep, hcounted, fun _ => hon, fun hinit => absurd hmain hinit⟩
  | altTick =>
    have hphase := phase_of_running (s := s.isrStep .altTick) rfl hmain
    have hiff := counted_iff_of_running (s := s.isrStep .altTick) rfl hmain
    refine ⟨?_, hiff.mpr hcounted, fun _ => hon, fun hinit => absurd hmain hinit⟩
    rw [hphase]
    exact hprogrammed

lemma mainStep (h : s.Ticking cycle₀) (hcycle : s.cycle < 2 ^ 64 - 2 ^ 32) (hisr : s.isr = none)
    (program : ℕ → Instr) : (s.mainStep program).Ticking cycle₀ := by
  have hprogrammed := h.programmed
  have hcounted := h.counted
  by_cases hmain : s.main.Running
  · obtain ⟨main, done, hrunning, heq⟩ := mainStep_of_running program hmain
    rw [phase_of_running hisr hmain] at hprogrammed
    rw [counted_iff_of_running hisr hmain] at hcounted
    have hphase := phase_of_running (s := { s with main, done }) hisr hrunning
    have hiff := counted_iff_of_running (s := { s with main, done }) hisr hrunning
    rw [heq]
    refine ⟨?_, hiff.mpr hcounted, fun _ => h.enabled.of_running hmain,
      fun hinit => absurd hrunning hinit⟩
    rw [hphase]
    exact hprogrammed
  · have hinit := h.enabled.of_init hmain
    rw [phase, hisr] at hprogrammed
    rw [Counted, hisr] at hcounted
    cases hcase : s.main with
    | initGet g =>
      rw [hcase] at hprogrammed hcounted
      cases hload : g.step s.mtime with
      | inl g' =>
        have heq : s.mainStep program = { s with main := .initGet g' } := by
          simp only [Processor.mainStep, hcase, hload]
        rw [heq]
        refine ⟨?_, ?_, False.elim, fun _ => hinit⟩
        · rw [phase, hisr]
          exact hprogrammed.load (by omega) hload
        · rw [Counted, hisr]
          exact hcounted
      | inr currTime =>
        have heq : s.mainStep program = { s with
            main := .initSet (.highMax (currTime + BitVec.ofNat 64 MTIMECMP_DELTA_AMT))
            reads := s.reads ++ [currTime] } := by
          simp only [Processor.mainStep, hcase, hload]
        rw [heq]
        refine ⟨?_, ?_, False.elim, fun _ => hinit⟩
        · rw [phase, hisr]
          exact hprogrammed.returns hcycle hload
        · rw [Counted, hisr]
          change (s.reads ++ [currTime]).length = s.ticks + 1
          rw [hcounted.1, hcounted.2, List.nil_append, List.length_singleton]
    | initSet p =>
      rw [hcase] at hprogrammed hcounted
      cases hstore : p.step s.mtimecmp with
      | mk mtimecmp next =>
        cases next with
        | some p' =>
          have heq : s.mainStep program = { s with mtimecmp, main := .initSet p' } := by
            simp only [Processor.mainStep, hcase, hstore]
          rw [heq]
          refine ⟨?_, ?_, False.elim, fun _ => hinit⟩
          · rw [phase, hisr]
            exact hprogrammed.store hstore
          · rw [Counted, hisr]
            exact hcounted
        | none =>
          have heq : s.mainStep program = { s with mtimecmp, main := .initEnable } := by
            simp only [Processor.mainStep, hcase, hstore]
          rw [heq]
          refine ⟨?_, ?_, False.elim, fun _ => hinit⟩
          · rw [phase, hisr]
            exact hprogrammed.last hstore
          · rw [Counted, hisr]
            exact hcounted
    | initEnable =>
      rw [hcase] at hprogrammed hcounted
      have heq : s.mainStep program = { s with timerEnabled := true, main := .before } := by
        simp only [Processor.mainStep, hcase]
      have hphase := phase_of_running (s := { s with timerEnabled := true, main := .before })
        hisr trivial
      have hiff := counted_iff_of_running (s := { s with timerEnabled := true, main := .before })
        hisr trivial
      rw [heq]
      refine ⟨?_, hiff.mpr hcounted, fun _ => rfl, fun hnot => absurd trivial hnot⟩
      rw [hphase]
      exact hprogrammed
    | before => exact absurd (by rw [hcase]; trivial) hmain
    | timestampStart us called g => exact absurd (by rw [hcase]; trivial) hmain
    | spin us called offset g => exact absurd (by rw [hcase]; trivial) hmain

lemma step {program : ℕ → Instr} {s' : Processor} {e : Event} (h : s.Ticking cycle₀)
    (hcycle : s.cycle < 2 ^ 64 - 2 ^ 32) (hstep : s.step program e = some s') :
    s'.Ticking cycle₀ := by
  cases e with
  | clock =>
    rw [← Option.some.inj hstep]
    exact h.clock
  | interrupt =>
    rw [Processor.step] at hstep
    split_ifs at hstep with hentry
    rw [← Option.some.inj hstep]
    exact h.interrupt (by omega) hentry.1 hentry.2.1 hentry.2.2
  | access =>
    rw [Processor.step] at hstep
    cases hisr : s.isr with
    | some isr =>
      rw [hisr] at hstep
      rw [← Option.some.inj hstep]
      exact h.isrStep hcycle hisr
    | none =>
      rw [hisr] at hstep
      rw [← Option.some.inj hstep]
      exact h.mainStep hcycle hisr program

end Ticking

end Processor

lemma step_cycle_le (program : ℕ → Instr) (s : Processor) (e : Event) (s' : Processor)
    (hstep : s.step program e = some s') : s.cycle ≤ s'.cycle := by
  cases e with
  | clock =>
    rw [← Option.some.inj hstep]
    exact s.cycle.le_succ
  | interrupt =>
    rw [Processor.step] at hstep
    split_ifs at hstep
    rw [← Option.some.inj hstep]
  | access =>
    rw [Processor.step] at hstep
    cases hisr : s.isr with
    | some isr =>
      rw [hisr] at hstep
      rw [← Option.some.inj hstep, (s.isrStep_frame isr).1]
    | none =>
      rw [hisr] at hstep
      rw [← Option.some.inj hstep, s.mainStep_frame program]

lemma run_clocks (program : ℕ → Instr) (s : Processor) (n : ℕ) :
    run (Processor.step program) s (List.replicate n .clock) =
      some { s with cycle := s.cycle + n } := by
  induction n generalizing s with
  | zero => rfl
  | succ n ih =>
    rw [List.replicate_succ, run_cons_eq_some]
    refine ⟨_, rfl, ?_⟩
    rw [ih]
    simp only [Option.some.injEq, Processor.mk.injEq, and_true]
    omega

/-- Three loads in one cycle return the counter. -/
lemma check_returns (mtime : BitVec 64) :
    (Get.check (highWord mtime) (lowWord mtime)).step mtime = .inr mtime := by
  rw [Get.step, if_neg (not_not.mpr rfl), words_eta]

/-- The initialisation, without interruption. -/
lemma run_init (program : ℕ → Instr) (cycle : ℕ) (mtimecmp : BitVec 64) :
    run (Processor.step program) (Processor.start cycle mtimecmp) (List.replicate 7 .access) =
      some ⟨cycle, BitVec.ofNat 64 cycle + BitVec.ofNat 64 MTIMECMP_DELTA_AMT, true, none, .before,
        [BitVec.ofNat 64 cycle], 0, []⟩ := by
  simp [run, List.replicate, Processor.start, Processor.step, Processor.mainStep, Processor.mtime,
    Get.step, Set.step, words_eta, lowWord_words]

/-- A run of the handler within one cycle. -/
lemma run_handler (program : ℕ → Instr) {s : Processor} (hisr : s.isr = none)
    (hon : s.timerEnabled = true) (hpending : s.TimerPending) :
    run (Processor.step program) s (.interrupt :: List.replicate 7 .access) =
      some { s with
        mtimecmp := s.mtime + BitVec.ofNat 64 MTIMECMP_DELTA_AMT
        reads := s.reads ++ [s.mtime]
        ticks := s.ticks + 1 } := by
  have hentry : s.step program .interrupt = some { s with isr := some (.get .high) } := by
    rw [Processor.step, if_pos ⟨hisr, hon, hpending⟩]
  rw [run_cons_eq_some]
  refine ⟨_, hentry, ?_⟩
  simp [run, List.replicate, Processor.step, Processor.isrStep, Processor.mtime, Get.step, Set.step,
    words_eta, lowWord_words, hisr]

/-- The timer never interrupts early, an interrupt that is due stays pending until its handler has
programmed the next one, and programming it interrupts nobody. -/
theorem tick_interrupts (program : ℕ → Instr) {cycle : ℕ} {mtimecmp : BitVec 64} {s : Processor}
    {events : List Event}
    (hrun : run (Processor.step program) (Processor.start cycle mtimecmp) events = some s)
    (hcycle : s.cycle < 2 ^ 64 - 2 ^ 32) :
    cycle + s.ticks * MTIMECMP_DELTA_AMT ≤ s.cycle ∧
      Spaced (MTIMECMP_DELTA_AMT : ℤ) (s.reads.map (fun currTime => (currTime.toNat : ℤ))) ∧
      (s.isr = none → s.timerEnabled = true →
        s.reads.length = s.ticks + 1 ∧ ∃ currTime, s.reads.getLast? = some currTime ∧
          (s.TimerPending ↔ currTime.toNat + MTIMECMP_DELTA_AMT ≤ s.cycle)) ∧
      ∀ time, s.isr = some (.set (.low time)) ∨ s.isr = some (.set (.high time)) →
        ¬s.TimerPending := by
  have hle := along_le_final (step_cycle_le program) hrun
  have hguard := hle.2.mono (fun t _ ht => lt_of_le_of_lt ht hcycle)
  have hticking : s.Ticking cycle :=
    invariant_along (fun _ _ _ ht hinv hstep => hinv.step ht hstep) hguard
      (Processor.ticking_start cycle mtimecmp) hrun
  have hprogrammed := hticking.programmed
  refine ⟨?_, ?_, ?_, ?_⟩
  · have hlength := hprogrammed.length_mul_le
    have hstarted := hprogrammed.started
    rcases hticking.ticks_lt with hlt | hzero
    · have hmul := Nat.mul_le_mul_right MTIMECMP_DELTA_AMT (Nat.succ_le_of_lt hlt)
      rw [Nat.succ_mul] at hmul
      omega
    · rw [hzero, Nat.zero_mul]
      exact hstarted
  · exact hprogrammed.spaced.tail
  · intro hisr hon
    have hmain := hticking.running_of_enabled hon
    have hlength := (Processor.counted_iff_of_running hisr hmain).mp hticking.counted
    have hphase := hprogrammed.phase
    rw [Processor.phase_of_running hisr hmain] at hphase
    refine ⟨hlength, ?_⟩
    cases hlast : s.reads.getLast? with
    | none =>
      rw [List.getLast?_eq_none_iff.mp hlast] at hlength
      exact absurd hlength (by simp)
    | some currTime =>
      refine ⟨currTime, rfl, ?_⟩
      change s.mtimecmp.toNat = due cycle s.reads at hphase
      rw [Processor.TimerPending, Processor.mtime, BitVec.le_def, toNat_ofNat (by omega), hphase, due,
        hlast]
  · intro time htime
    have hset : ∃ p : Set, s.isr = some (.set p) ∧ ∀ time, p ≠ .highMax time := by
      rcases htime with hlow | hhigh
      · exact ⟨.low time, hlow, by simp⟩
      · exact ⟨.high time, hhigh, by simp⟩
    obtain ⟨p, hisr, hp⟩ := hset
    rw [Processor.phase, hisr] at hprogrammed
    exact hprogrammed.not_le_of_high hp hcycle

theorem tick_interrupts_firstTick : ∃ s, run (Processor.step fun _ => .usleep 1#32)
      (Processor.start 0 0#64) (List.replicate 7 .access ++ (List.replicate 50000 .clock ++
        .interrupt :: List.replicate 7 .access)) = some s ∧ s.ticks = 1 ∧
      0 + s.ticks * MTIMECMP_DELTA_AMT ≤ s.cycle := by
  have hinit := run_init (fun _ => .usleep 1#32) 0 0#64
  have hclocks := run_clocks (fun _ => .usleep 1#32)
    ⟨0, BitVec.ofNat 64 0 + BitVec.ofNat 64 MTIMECMP_DELTA_AMT, true, none, .before,
      [BitVec.ofNat 64 0], 0, []⟩ 50000
  have hhandler := run_handler (fun _ => .usleep 1#32)
    (s := ⟨50000, BitVec.ofNat 64 0 + BitVec.ofNat 64 MTIMECMP_DELTA_AMT, true, none, .before,
      [BitVec.ofNat 64 0], 0, []⟩) rfl rfl (by decide)
  have hrun := run_append_eq_some.mpr ⟨_, hinit, run_append_eq_some.mpr ⟨_, hclocks, hhandler⟩⟩
  exact ⟨_, hrun, rfl, (tick_interrupts _ hrun (by decide)).1⟩

/-! ### The program -/

lemma toNat_endTime (us : BitVec 32) :
    (endTime us).toNat = CPU_FREQUENCY_MHZ * us.toNat % 2 ^ 32 := by
  have hMHz : CPU_FREQUENCY_MHZ % 2 ^ 32 = CPU_FREQUENCY_MHZ := rfl
  have hlt : CPU_FREQUENCY_MHZ * us.toNat % 2 ^ 32 < 2 ^ 64 := by omega
  rw [endTime, BitVec.toNat_setWidth, BitVec.toNat_mul, BitVec.toNat_ofNat, hMHz,
    Nat.mod_eq_of_lt hlt]

/-- The statement has not ended before its time. -/
def Done.Lasted (d : Done) : Prop :=
  d.start ≤ d.finish ∧ ∀ us, d.instr = .usleep us → d.start + (endTime us).toNat ≤ d.finish

/-- The statement that is being executed is the next one of the program, it was called after the
earlier ones, and what `usleep` has read of the counter is sound. -/
def Main.Calling (program : ℕ → Instr) (done : List Done) (cycle : ℕ) : Main → Prop
  | .timestampStart us called g => program done.length = .usleep us ∧
      (∀ d ∈ done, d.finish ≤ called) ∧ called ≤ cycle ∧ g.Sound called cycle
  | .spin us called offset g => program done.length = .usleep us ∧
      (∀ d ∈ done, d.finish ≤ called) ∧ called ≤ offset.toNat ∧ offset.toNat ≤ cycle ∧
      g.Sound offset.toNat cycle
  | _ => True

lemma Main.Calling.mono {program : ℕ → Instr} {done : List Done} {cycle cycle' : ℕ} {main : Main}
    (h : main.Calling program done cycle) (hle : cycle ≤ cycle') :
    main.Calling program done cycle' := by
  cases main with
  | timestampStart us called g =>
    obtain ⟨hprogram, hafter, hcalled, hsound⟩ := h
    exact ⟨hprogram, hafter, hcalled.trans hle, hsound.mono hle⟩
  | spin us called offset g =>
    obtain ⟨hprogram, hafter, hcalled, hoffset, hsound⟩ := h
    exact ⟨hprogram, hafter, hcalled, hoffset.trans hle, hsound.mono hle⟩
  | initGet g => trivial
  | initSet p => trivial
  | initEnable => trivial
  | before => trivial

/-- The executed statements are the first ones of the program, one after the other. -/
structure Executed (program : ℕ → Instr) (done : List Done) (cycle : ℕ) : Prop where
  instr : done.map Done.instr = (List.range done.length).map program
  lasted : ∀ d ∈ done, d.Lasted
  ordered : done.Pairwise (fun d d' => d.finish ≤ d'.start)
  past : ∀ d ∈ done, d.finish ≤ cycle

namespace Executed

variable {program : ℕ → Instr} {done : List Done} {cycle : ℕ}

lemma mono (h : Executed program done cycle) {cycle' : ℕ} (hle : cycle ≤ cycle') :
    Executed program done cycle' :=
  ⟨h.instr, h.lasted, h.ordered, fun d hd => (h.past d hd).trans hle⟩

lemma append (h : Executed program done cycle) {d : Done} (hinstr : d.instr = program done.length)
    (hlasted : d.Lasted) (hafter : ∀ d' ∈ done, d'.finish ≤ d.start) (hfinish : d.finish ≤ cycle) :
    Executed program (done ++ [d]) cycle := by
  refine ⟨?_, ?_, ?_, ?_⟩
  · rw [List.map_append, h.instr, List.length_append, List.length_singleton, List.range_succ,
      List.map_append, List.map_singleton, List.map_singleton, hinstr]
  · intro d' hd'
    rcases List.mem_append.mp hd' with hd' | hd'
    · exact h.lasted d' hd'
    · rw [List.mem_singleton.mp hd']
      exact hlasted
  · apply List.pairwise_append.mpr
    refine ⟨h.ordered, List.pairwise_singleton _ _, ?_⟩
    intro d' hd' d'' hd''
    rw [List.mem_singleton.mp hd'']
    exact hafter d' hd'
  · intro d' hd'
    rcases List.mem_append.mp hd' with hd' | hd'
    · exact h.past d' hd'
    · rw [List.mem_singleton.mp hd']
      exact hfinish

lemma getElem?_instr (h : Executed program done cycle) {k : ℕ} {d : Done}
    (hd : done[k]? = some d) : d.instr = program k := by
  have hk : k < done.length := (List.getElem?_eq_some_iff.mp hd).1
  have hmap := congrArg (fun l => l[k]?) h.instr
  simp only [List.getElem?_map, hd, List.getElem?_range hk, Option.map_some] at hmap
  exact Option.some.inj hmap

end Executed

namespace Processor

structure Sequential (program : ℕ → Instr) (s : Processor) : Prop where
  executed : Executed program s.done s.cycle
  calling : s.main.Calling program s.done s.cycle

lemma sequential_start (program : ℕ → Instr) (cycle : ℕ) (mtimecmp : BitVec 64) :
    (start cycle mtimecmp).Sequential program where
  executed := ⟨rfl, by simp [start], List.Pairwise.nil, by simp [start]⟩
  calling := trivial

namespace Sequential

variable {program : ℕ → Instr} {s : Processor}

lemma mainStep (h : s.Sequential program) (hcycle : s.cycle < 2 ^ 64) :
    (s.mainStep program).Sequential program := by
  obtain ⟨hexecuted, hcalling⟩ := h
  cases hcase : s.main with
  | initGet g =>
    cases hload : g.step s.mtime with
    | inl g' =>
      simp only [Processor.mainStep, hcase, hload]
      exact ⟨hexecuted, trivial⟩
    | inr currTime =>
      simp only [Processor.mainStep, hcase, hload]
      exact ⟨hexecuted, trivial⟩
  | initSet p =>
    cases hstore : p.step s.mtimecmp with
    | mk mtimecmp next =>
      cases next with
      | some p' =>
        simp only [Processor.mainStep, hcase, hstore]
        exact ⟨hexecuted, trivial⟩
      | none =>
        simp only [Processor.mainStep, hcase, hstore]
        exact ⟨hexecuted, trivial⟩
  | initEnable =>
    simp only [Processor.mainStep, hcase]
    exact ⟨hexecuted, trivial⟩
  | before =>
    cases hprogram : program s.done.length with
    | store st =>
      simp only [Processor.mainStep, hcase, hprogram]
      refine ⟨hexecuted.append hprogram.symm ⟨le_rfl, ?_⟩ hexecuted.past le_rfl, trivial⟩
      intro us hus
      exact absurd hus (by simp)
    | usleep us =>
      simp only [Processor.mainStep, hcase, hprogram]
      exact ⟨hexecuted, hprogram, hexecuted.past, le_rfl, trivial⟩
  | timestampStart us called g =>
    rw [hcase] at hcalling
    obtain ⟨hprogram, hafter, hcalled, hsound⟩ := hcalling
    cases hload : g.step s.mtime with
    | inl g' =>
      simp only [Processor.mainStep, hcase, hload]
      exact ⟨hexecuted, hprogram, hafter, hcalled, hsound.load hcalled hcycle hload⟩
    | inr offset =>
      obtain ⟨hfrom, hto⟩ := hsound.returns hcycle hload
      simp only [Processor.mainStep, hcase, hload]
      exact ⟨hexecuted, hprogram, hafter, hfrom, hto, trivial⟩
  | spin us called offset g =>
    rw [hcase] at hcalling
    obtain ⟨hprogram, hafter, hcalled, hoffset, hsound⟩ := hcalling
    cases hload : g.step s.mtime with
    | inl g' =>
      simp only [Processor.mainStep, hcase, hload]
      exact ⟨hexecuted, hprogram, hafter, hcalled, hoffset, hsound.load hoffset hcycle hload⟩
    | inr time =>
      obtain ⟨hfrom, hto⟩ := hsound.returns hcycle hload
      by_cases hspin : time - offset < endTime us
      · simp only [Processor.mainStep, hcase, hload, if_pos hspin]
        exact ⟨hexecuted, hprogram, hafter, hcalled, hoffset, trivial⟩
      · -- the counter did not turn between the two reads, so their difference is the time between
        have hwaited : (endTime us).toNat ≤ time.toNat - offset.toNat := by
          rw [← BitVec.toNat_sub_of_le (BitVec.le_def.mpr hfrom)]
          exact BitVec.le_def.mp (BitVec.not_lt.mp hspin)
        have hlasted : (⟨.usleep us, called, s.cycle⟩ : Done).Lasted := by
          refine ⟨hcalled.trans hoffset, ?_⟩
          intro us' hus
          obtain rfl := Instr.usleep.inj hus
          change called + (endTime us).toNat ≤ s.cycle
          omega
        simp only [Processor.mainStep, hcase, hload, if_neg hspin]
        exact ⟨hexecuted.append hprogram.symm hlasted hafter le_rfl, trivial⟩

lemma step {s' : Processor} {e : Event} (h : s.Sequential program) (hcycle : s.cycle < 2 ^ 64)
    (hstep : s.step program e = some s') : s'.Sequential program := by
  cases e with
  | clock =>
    rw [← Option.some.inj hstep]
    exact ⟨h.executed.mono s.cycle.le_succ, h.calling.mono s.cycle.le_succ⟩
  | interrupt =>
    rw [Processor.step] at hstep
    split_ifs at hstep
    rw [← Option.some.inj hstep]
    exact ⟨h.executed, h.calling⟩
  | access =>
    rw [Processor.step] at hstep
    cases hisr : s.isr with
    | some isr =>
      rw [hisr] at hstep
      obtain ⟨hcycle', hmain, hdone⟩ := s.isrStep_frame isr
      rw [← Option.some.inj hstep]
      refine ⟨?_, ?_⟩
      · rw [hdone, hcycle']
        exact h.executed
      · rw [hmain, hdone, hcycle']
        exact h.calling
    | none =>
      rw [hisr] at hstep
      rw [← Option.some.inj hstep]
      exact h.mainStep hcycle

end Sequential

end Processor

lemma executed_of_run {program : ℕ → Instr} {cycle : ℕ} {mtimecmp : BitVec 64} {s : Processor}
    {events : List Event}
    (hrun : run (Processor.step program) (Processor.start cycle mtimecmp) events = some s)
    (hcycle : s.cycle < 2 ^ 64) : Executed program s.done s.cycle := by
  have hle := along_le_final (step_cycle_le program) hrun
  have hguard := hle.2.mono (fun t _ ht => lt_of_le_of_lt ht hcycle)
  have hsequential : s.Sequential program :=
    invariant_along (fun _ _ _ ht hinv hstep => hinv.step ht hstep) hguard
      (Processor.sequential_start program cycle mtimecmp) hrun
  exact hsequential.executed

section Polls

variable (program : ℕ → Instr) {s : Processor}

lemma run_timestampStart (hisr : s.isr = none) {us : BitVec 32} {called : ℕ}
    (hmain : s.main = .timestampStart us called .high) :
    run (Processor.step program) s [.access, .access, .access] =
      some { s with main := .spin us called s.mtime .high } := by
  have hhigh : s.step program .access =
      some { s with main := .timestampStart us called (.low (highWord s.mtime)) } := by
    simp only [Processor.step, hisr, Processor.mainStep, hmain, Get.step]
  have hlast : Processor.step program
      { s with main := .timestampStart us called (.check (highWord s.mtime) (lowWord s.mtime)) }
      .access = some { s with main := .spin us called s.mtime .high } := by
    have hload := check_returns s.mtime
    simp only [Processor.mtime] at hload
    simp only [Processor.step, hisr, Processor.mainStep, Processor.mtime, hload]
  rw [run_cons_eq_some]
  refine ⟨_, hhigh, run_cons_eq_some.mpr ⟨_, ?_, run_cons_eq_some.mpr ⟨_, hlast, rfl⟩⟩⟩
  simp only [Processor.step, hisr, Processor.mainStep, Get.step]
  rfl

lemma run_spin (hisr : s.isr = none) {us : BitVec 32} {called : ℕ} {offset : BitVec 64}
    (hmain : s.main = .spin us called offset .high) (hend : ¬s.mtime - offset < endTime us) :
    run (Processor.step program) s [.access, .access, .access] =
      some { s with main := .before, done := s.done ++ [⟨.usleep us, called, s.cycle⟩] } := by
  have hhigh : s.step program .access =
      some { s with main := .spin us called offset (.low (highWord s.mtime)) } := by
    simp only [Processor.step, hisr, Processor.mainStep, hmain, Get.step]
  have hlast : Processor.step program
      { s with main := .spin us called offset (.check (highWord s.mtime) (lowWord s.mtime)) }
      .access =
        some { s with main := .before, done := s.done ++ [⟨.usleep us, called, s.cycle⟩] } := by
    have hload := check_returns s.mtime
    simp only [Processor.mtime] at hload hend
    simp only [Processor.step, hisr, Processor.mainStep, Processor.mtime, hload, if_neg hend]
  rw [run_cons_eq_some]
  refine ⟨_, hhigh, run_cons_eq_some.mpr ⟨_, ?_, run_cons_eq_some.mpr ⟨_, hlast, rfl⟩⟩⟩
  simp only [Processor.step, hisr, Processor.mainStep, Get.step]
  rfl

/-- A sleep may end as soon as the product of its length and the frequency allows. -/
lemma run_usleep (hisr : s.isr = none) (hmain : s.main = .before) {us : BitVec 32}
    (hprogram : program s.done.length = .usleep us) :
    ∃ events s', run (Processor.step program) s events = some s' ∧
      s'.cycle = s.cycle + (endTime us).toNat ∧
      s'.done = s.done ++ [⟨.usleep us, s.cycle, s.cycle + (endTime us).toNat⟩] := by
  have hcall : run (Processor.step program) s [.access] =
      some { s with main := .timestampStart us s.cycle .high } := by
    rw [run_cons_eq_some]
    refine ⟨_, ?_, rfl⟩
    simp only [Processor.step, hisr, Processor.mainStep, hmain, hprogram]
  have hoffset := run_timestampStart program
    (s := { s with main := .timestampStart us s.cycle .high }) hisr rfl
  have hwait := run_clocks program
    { s with main := .spin us s.cycle s.mtime .high } (endTime us).toNat
  have hend : ¬BitVec.ofNat 64 (s.cycle + (endTime us).toNat) - s.mtime < endTime us := by
    rw [Processor.mtime, BitVec.ofNat_add, BitVec.ofNat_toNat, BitVec.setWidth_eq,
      BitVec.add_comm, BitVec.add_sub_cancel]
    exact BitVec.lt_irrefl _
  have hspin := run_spin program
    (s := { s with cycle := s.cycle + (endTime us).toNat
                   main := .spin us s.cycle s.mtime .high }) hisr rfl hend
  have hrun := run_append_eq_some.mpr ⟨_, hcall, run_append_eq_some.mpr ⟨_, hoffset,
    run_append_eq_some.mpr ⟨_, hwait, hspin⟩⟩⟩
  exact ⟨_, _, hrun, rfl, rfl⟩

end Polls

/-- A sleep lasts at least 50 cycles for each microsecond, as far as these are fewer than
2 ^ 32. -/
theorem usleep_waits (program : ℕ → Instr) {cycle : ℕ} {mtimecmp : BitVec 64} {s : Processor}
    {events : List Event}
    (hrun : run (Processor.step program) (Processor.start cycle mtimecmp) events = some s)
    (hcycle : s.cycle < 2 ^ 64) :
    s.done.map Done.instr = (List.range s.done.length).map program ∧
      s.done.Pairwise (fun d d' => d.finish ≤ d'.start) ∧
      ∀ d ∈ s.done, ∀ us, d.instr = .usleep us →
        d.start + CPU_FREQUENCY_MHZ * us.toNat % 2 ^ 32 ≤ d.finish := by
  have hexecuted := executed_of_run hrun hcycle
  refine ⟨hexecuted.instr, hexecuted.ordered, ?_⟩
  intro d hd us hus
  rw [← toNat_endTime us]
  exact (hexecuted.lasted d hd).2 us hus

theorem usleep_waits_shortSleep : ∃ events s,
    run (Processor.step fun _ => .usleep 3#32) (Processor.start 0 0#64) events = some s ∧
      s.done = [⟨.usleep 3#32, 0, 150⟩] ∧ 0 + CPU_FREQUENCY_MHZ * 3 % 2 ^ 32 ≤ 150 := by
  obtain ⟨events, s, hrun, hcycle, hdone⟩ := run_usleep (fun _ => .usleep 3#32)
    (s := ⟨0, _, true, none, .before, [BitVec.ofNat 64 0], 0, []⟩) rfl rfl rfl
  have hall := run_append_eq_some.mpr ⟨_, run_init (fun _ => .usleep 3#32) 0 0#64, hrun⟩
  have hsmall : s.cycle < 2 ^ 64 := by
    rw [hcycle]
    decide
  have hmem : ⟨.usleep 3#32, 0, 150⟩ ∈ s.done := by
    rw [hdone]
    exact List.mem_singleton_self _
  exact ⟨_, s, hall, hdone, (usleep_waits _ hall hsmall).2.2 _ hmem 3#32 rfl⟩

/-- The product of 32-bit numbers makes a sleep of 86 seconds and more too short. -/
theorem usleep_full_iff (us : BitVec 32) :
    (∀ (program : ℕ → Instr) (cycle : ℕ) (mtimecmp : BitVec 64) (events : List Event)
        (s : Processor),
      run (Processor.step program) (Processor.start cycle mtimecmp) events = some s →
        s.cycle < 2 ^ 64 → ∀ d ∈ s.done, d.instr = .usleep us →
          d.start + CPU_FREQUENCY_MHZ * us.toNat ≤ d.finish) ↔
      CPU_FREQUENCY_MHZ * us.toNat < 2 ^ 32 := by
  apply Iff.intro
  · intro hfull
    by_contra hlong
    have hinit := run_init (fun _ => .usleep us) 0 0#64
    obtain ⟨events, s, hrun, hcycle, hdone⟩ := run_usleep (fun _ => .usleep us)
      (s := ⟨0, _, true, none, .before, [BitVec.ofNat 64 0], 0, []⟩) rfl rfl rfl
    have hall := run_append_eq_some.mpr ⟨_, hinit, hrun⟩
    have hend : (endTime us).toNat < 2 ^ 32 := by
      rw [toNat_endTime]
      exact Nat.mod_lt _ (by decide)
    rw [Nat.zero_add] at hcycle hdone
    have hlasted := hfull _ 0 0#64 _ s hall (by omega) ⟨.usleep us, 0, (endTime us).toNat⟩
      (by rw [hdone]; exact List.mem_singleton_self _) rfl
    change 0 + CPU_FREQUENCY_MHZ * us.toNat ≤ (endTime us).toNat at hlasted
    omega
  · intro hshort program cycle mtimecmp events s hrun hcycle d hd hus
    have hwaits := (usleep_waits program hrun hcycle).2.2 d hd us hus
    rwa [Nat.mod_eq_of_lt hshort] at hwaits

end MachineTimer

end VecadNiosv
