import VecadNiosv.BlinkCadence
import VecadNiosv.MachineTimer

/-!
# The LED blinker on its board

The processor runs the blinker access by access, and between the accesses the machine timer
interrupts it and the handler counts a tick. The stores are those of the program on the tick counts
that it loads, and by the clock of the processor no LED toggles before its time.
-/

namespace VecadNiosv

namespace BlinkBoard

open EventRun PolledTimer MachineTimer
open LedBlink (Led LEDR_BASE LEDG_BASE ledStore ledStore_address loop)

/-- What `alt_ticks_per_second` returns after `alt_sysclk_init`. -/
def ticksPerSec : BitVec 32 := BitVec.ofNat 32 ALT_CPU_TICKS_PER_SEC

def redInterval : BitVec 32 := ticksPerSec / 2#32

def greenInterval : BitVec 32 := ticksPerSec / 4#32

/-- The locals of both colours. -/
abbrev Leds := Led (BitVec 32) × Led (BitVec 32)

/-- Where `main` is: before a store that turns LEDs off, in the call of `alt_nticks` that sets
`last_red` and `last_green`, in that of a turn of the loop, or before the block of a colour. -/
inductive Location where
  | ledr
  | ledg
  | nticks (leds : Option Leds)
  | nticksRest (leds : Option Leds) (word : BitVec 32)
  | red (leds : Leds) (now : BitVec 32)
  | green (leds : Leds) (now : BitVec 32)

/-- A load of the low half of the tick counter. -/
structure Load where
  cycle : ℕ
  ticks : ℕ
  deriving DecidableEq

def Load.value (l : Load) : BitVec 32 := BitVec.ofNat 32 l.ticks

/-- The processor that runs the blinker, with the history of the loads of the counter and of the
stores, each at its cycle. -/
structure Board where
  cpu : Processor
  location : Location
  loads : List Load
  stores : List (ℕ × Store)

namespace Board

/-- The board when interrupts are about to be initialised. -/
def start (cycle : ℕ) (mtimecmp : BitVec 64) : Board := ⟨.start cycle mtimecmp, .ledr, [], []⟩

/-- `_alt_nticks`, which each call of `alt_tick` increments. -/
def nticks (s : Board) : BitVec 64 := BitVec.ofNat 64 s.cpu.ticks

def load (s : Board) : List Load := s.loads ++ [⟨s.cpu.cycle, s.cpu.ticks⟩]

def store (s : Board) (stores : List Store) : List (ℕ × Store) :=
  s.stores ++ stores.map fun st => (s.cpu.cycle, st)

/-- What `main` does with the value of `alt_nticks`. -/
def returned (leds : Option Leds) (nticks : BitVec 64) : Location :=
  let now := nticks.setWidth 32
  match leds with
  | none => .nticks (some (⟨now, 0#32⟩, ⟨now, 0#32⟩))
  | some leds => .red leds now

/-- One step of `main`. The compiler decides which half of the counter is loaded first. -/
def mainStep (lowFirst : Bool) (s : Board) : Board :=
  match s.location with
  | .ledr => { s with
      location := .ledg
      stores := s.store [iowrAlteraAvalonPioData LEDR_BASE 0x0#32] }
  | .ledg => { s with
      location := .nticks none
      stores := s.store [iowrAlteraAvalonPioData LEDG_BASE 0x0#32] }
  | .nticks leds =>
    if lowFirst then { s with location := .nticksRest leds (lowWord s.nticks), loads := s.load }
    else { s with location := .nticksRest leds (highWord s.nticks) }
  | .nticksRest leds word =>
    if lowFirst then { s with location := returned leds (highWord s.nticks ++ word) }
    else { s with location := returned leds (word ++ lowWord s.nticks), loads := s.load }
  | .red (red, green) now => { s with
      location := .green ((red.poll LEDR_BASE redInterval now).1, green) now
      stores := s.store (red.poll LEDR_BASE redInterval now).2 }
  | .green (red, green) now => { s with
      location := .nticks (some (red, (green.poll LEDG_BASE greenInterval now).1))
      stores := s.store (green.poll LEDG_BASE greenInterval now).2 }

/-- The processor of the timer, which has no statements of its own to execute. -/
def idle : ℕ → Instr := fun _ => .usleep 0#32

/-- Interrupts and their initialisation are those of the processor. All else is a step of `main`. -/
def step (lowFirst : Bool) (s : Board) (e : Event) : Option Board :=
  if e = .access ∧ s.cpu.isr = none ∧ s.cpu.main = .before then some (s.mainStep lowFirst)
  else (s.cpu.step idle e).map fun cpu => { s with cpu }

/-- The stores to the LEDs at a base. The first of them turns the LEDs off, and each further one
toggles them. -/
def storesAt (s : Board) (base : BitVec 32) : List (ℕ × Store) :=
  s.stores.filter fun st => st.2.address = base

lemma mainStep_cpu (lowFirst : Bool) (s : Board) : (s.mainStep lowFirst).cpu = s.cpu := by
  rw [mainStep]
  split
  · rfl
  · rfl
  · split_ifs <;> rfl
  · split_ifs <;> rfl
  · rfl
  · rfl

/-- A step is one of `main`, which finds the processor running and leaves it as it is, or one of the
processor alone. -/
lemma step_cases {lowFirst : Bool} {s s' : Board} {e : Event} (h : s.step lowFirst e = some s') :
    (s.cpu.isr = none ∧ s.cpu.main = .before ∧ s' = s.mainStep lowFirst) ∨
      ∃ cpu, s.cpu.step idle e = some cpu ∧ s' = { s with cpu } := by
  rw [step] at h
  split_ifs at h with hmain
  · exact Or.inl ⟨hmain.2.1, hmain.2.2, (Option.some.inj h).symm⟩
  · obtain ⟨cpu, hcpu, rfl⟩ := Option.map_eq_some_iff.mp h
    exact Or.inr ⟨cpu, hcpu, rfl⟩

lemma step_cycle_le (lowFirst : Bool) (s : Board) (e : Event) (s' : Board)
    (hstep : s.step lowFirst e = some s') : s.cpu.cycle ≤ s'.cpu.cycle := by
  rcases step_cases hstep with ⟨-, -, rfl⟩ | ⟨cpu, hcpu, rfl⟩
  · rw [mainStep_cpu]
  · exact MachineTimer.step_cycle_le idle s.cpu e cpu hcpu

end Board

/-- What the processor knows of a load: it came after the interrupt of its tick and before that of
the next one. -/
structure Loaded (cpu : Processor) (l : Load) : Prop where
  running : cpu.main.Running
  cycle : l.cycle ≤ cpu.cycle
  ticks : l.ticks ≤ cpu.ticks
  after : ∃ currTime, cpu.reads[l.ticks]? = some currTime ∧ currTime.toNat ≤ l.cycle
  before : ∀ currTime, cpu.reads[l.ticks + 1]? = some currTime → l.cycle ≤ currTime.toNat
  handler : ∀ g, cpu.isr = some (.get g) → g.Sound l.cycle cpu.cycle

namespace Loaded

variable {cycle₀ : ℕ} {cpu : Processor} {l l' : Load}

/-- The tick that a load sees is the last one. -/
lemma now (h : cpu.Ticking cycle₀) (hisr : cpu.isr = none) (hmain : cpu.main.Running) :
    Loaded cpu ⟨cpu.cycle, cpu.ticks⟩ := by
  have hlength := (Processor.counted_iff_of_running hisr hmain).mp h.counted
  have hlt : cpu.ticks < cpu.reads.length := by omega
  refine ⟨hmain, le_rfl, le_rfl, ⟨_, List.getElem?_eq_getElem hlt, ?_⟩, ?_, ?_⟩
  · exact h.programmed.past _ (List.getElem_mem hlt)
  · intro currTime hnext
    rw [List.getElem?_eq_none hlength.le] at hnext
    exact absurd hnext (by simp)
  · intro g hg
    rw [hisr] at hg
    exact absurd hg (by simp)

/-- The handler reads the counter once it has been entered, after all loads of the program. -/
lemma read (h : Loaded cpu l) {g : Get} {currTime : BitVec 64} (hisr : cpu.isr = some (.get g))
    (hcycle : cpu.cycle < 2 ^ 64) (hstep : g.step cpu.mtime = .inr currTime) :
    Loaded (cpu.isrStep (.get g)) l := by
  have heq : cpu.isrStep (.get g) = { cpu with
      isr := some (.set (.highMax (currTime + BitVec.ofNat 64 MTIMECMP_DELTA_AMT)))
      reads := cpu.reads ++ [currTime] } := by
    simp only [Processor.isrStep, hstep]
  obtain ⟨first, hfirst, hle⟩ := h.after
  have hlt := (List.getElem?_eq_some_iff.mp hfirst).1
  rw [heq]
  refine ⟨h.running, h.cycle, h.ticks, ⟨first, ?_, hle⟩, ?_, ?_⟩
  · rw [List.getElem?_append_left hlt]
    exact hfirst
  · intro next hnext
    by_cases hold : l.ticks + 1 < cpu.reads.length
    · rw [List.getElem?_append_left hold] at hnext
      exact h.before next hnext
    · rw [List.getElem?_append_right (not_lt.mp hold), List.getElem?_singleton] at hnext
      split_ifs at hnext
      rw [← Option.some.inj hnext]
      exact ((h.handler g hisr).returns hcycle hstep).1
  · intro g' hg'
    exact absurd hg' (by simp)

lemma isrStep (h : Loaded cpu l) {isr : Isr} (hisr : cpu.isr = some isr)
    (hcycle : cpu.cycle < 2 ^ 64) : Loaded (cpu.isrStep isr) l := by
  cases isr with
  | get g =>
    cases hstep : g.step cpu.mtime with
    | inl g' =>
      have heq : cpu.isrStep (.get g) = { cpu with isr := some (.get g') } := by
        simp only [Processor.isrStep, hstep]
      rw [heq]
      refine ⟨h.running, h.cycle, h.ticks, h.after, h.before, ?_⟩
      intro g'' hg''
      obtain rfl : g' = g'' := by simpa using hg''
      exact (h.handler g hisr).load h.cycle hcycle hstep
    | inr currTime => exact h.read hisr hcycle hstep
  | set p =>
    rw [Processor.isrStep]
    cases p.step cpu.mtimecmp with
    | mk mtimecmp next =>
      cases next with
      | some p' =>
        exact ⟨h.running, h.cycle, h.ticks, h.after, h.before, fun g hg => absurd hg (by simp)⟩
      | none =>
        exact ⟨h.running, h.cycle, h.ticks, h.after, h.before, fun g hg => absurd hg (by simp)⟩
  | altTick =>
    exact ⟨h.running, h.cycle, h.ticks.trans cpu.ticks.le_succ, h.after, h.before,
      fun g hg => absurd hg (by simp [Processor.isrStep])⟩

lemma step (h : Loaded cpu l) (hcycle : cpu.cycle < 2 ^ 64) {program : ℕ → Instr}
    {e : Event} {cpu' : Processor} (hstep : cpu.step program e = some cpu') : Loaded cpu' l := by
  cases e with
  | clock =>
    rw [← Option.some.inj hstep]
    exact ⟨h.running, h.cycle.trans cpu.cycle.le_succ, h.ticks, h.after, h.before,
      fun g hg => (h.handler g hg).mono cpu.cycle.le_succ⟩
  | interrupt =>
    rw [Processor.step] at hstep
    split_ifs at hstep
    rw [← Option.some.inj hstep]
    refine ⟨h.running, h.cycle, h.ticks, h.after, h.before, ?_⟩
    intro g hg
    obtain rfl : Get.high = g := by simpa using hg
    trivial
  | access =>
    rw [Processor.step] at hstep
    cases hisr : cpu.isr with
    | some isr =>
      rw [hisr] at hstep
      rw [← Option.some.inj hstep]
      exact h.isrStep hisr hcycle
    | none =>
      obtain ⟨main, done, hmain, heq⟩ := Processor.mainStep_of_running program h.running
      rw [hisr, heq] at hstep
      rw [← Option.some.inj hstep]
      exact ⟨hmain, h.cycle, h.ticks, h.after, h.before, h.handler⟩

/-- Loads at different ticks are apart by the intervals between their interrupts, the first of which
may already have begun. -/
lemma spaced (hticking : cpu.Ticking cycle₀) (h : Loaded cpu l) (h' : Loaded cpu l')
    (hlt : l.ticks < l'.ticks) :
    l.cycle + (l'.ticks - l.ticks) * MTIMECMP_DELTA_AMT ≤ l'.cycle + MTIMECMP_DELTA_AMT := by
  obtain ⟨last, hlast, hle⟩ := h'.after
  have hlength := (List.getElem?_eq_some_iff.mp hlast).1
  have hnext : cpu.reads[l.ticks + 1]? = some cpu.reads[l.ticks + 1] :=
    List.getElem?_eq_getElem (by omega)
  have hfirst := h.before _ hnext
  obtain ⟨k, hk⟩ := Nat.exists_eq_add_of_lt hlt
  have hindex : l'.ticks = l.ticks + 1 + k := by omega
  rw [hindex] at hlast
  have hreads : Spaced (MTIMECMP_DELTA_AMT : ℤ)
      (cpu.reads.map fun currTime => (currTime.toNat : ℤ)) := hticking.programmed.spaced.tail
  have hspaced : (cpu.reads[l.ticks + 1].toNat : ℤ) + k • (MTIMECMP_DELTA_AMT : ℤ) ≤ last.toNat :=
    hreads.getElem?_add (by rw [List.getElem?_map, hnext]; rfl)
      (by rw [List.getElem?_map, hlast]; rfl)
  rw [nsmul_eq_mul] at hspaced
  have hdiff : l'.ticks - l.ticks = k + 1 := by omega
  rw [hdiff, Nat.succ_mul]
  have hcast : ((k * MTIMECMP_DELTA_AMT : ℕ) : ℤ) = (k : ℤ) * (MTIMECMP_DELTA_AMT : ℤ) :=
    Nat.cast_mul _ _
  omega

end Loaded

/-! ### The toggles -/

/-- The counter has gone on by at least the difference of its low halves. -/
lemma le_of_due {interval : BitVec 32} {n m : ℕ} (hle : n ≤ m)
    (hdue : interval ≤ BitVec.ofNat 32 m - BitVec.ofNat 32 n) : n + interval.toNat ≤ m := by
  rw [BitVec.le_def, BitVec.toNat_sub, BitVec.toNat_ofNat, BitVec.toNat_ofNat] at hdue
  omega

namespace Board

/-- The toggles of a colour so far and the load from which it counts, each later than the first load
by as many intervals as there have been toggles. -/
structure Toggled (s : Board) (first : Load) (base interval : BitVec 32) (led : Led (BitVec 32)) :
    Prop where
  off : 0 < (s.storesAt base).length
  toggles : ∀ k t st, 1 ≤ k → (s.storesAt base)[k]? = some (t, st) →
    ∃ l ∈ s.loads, l.cycle ≤ t ∧ first.ticks + k * interval.toNat ≤ l.ticks
  last : ∃ l ∈ s.loads, led.last = l.value ∧
    first.ticks + ((s.storesAt base).length - 1) * interval.toNat ≤ l.ticks

/-- The value is that of the last load. -/
def Latest (s : Board) (now : BitVec 32) : Prop :=
  ∃ l ∈ s.loads, now = l.value ∧ l.cycle ≤ s.cpu.cycle ∧ ∀ l' ∈ s.loads, l'.ticks ≤ l.ticks

namespace Toggled

variable {first : Load} {s s' : Board} {base interval : BitVec 32} {led : Led (BitVec 32)}

lemma mono (h : s.Toggled first base interval led) (hloads : s.loads ⊆ s'.loads)
    (hstores : s'.storesAt base = s.storesAt base) : s'.Toggled first base interval led where
  off := by
    rw [hstores]
    exact h.off
  toggles := by
    rw [hstores]
    intro k t st hk hst
    obtain ⟨l, hl, htoggle⟩ := h.toggles k t st hk hst
    exact ⟨l, hloads hl, htoggle⟩
  last := by
    rw [hstores]
    obtain ⟨l, hl, hlast⟩ := h.last
    exact ⟨l, hloads hl, hlast⟩

/-- The colour has only been turned off so far. -/
lemma start {first : Load} {s : Board} (hoff : (s.storesAt base).length = 1)
    (hfirst : first ∈ s.loads) : s.Toggled first base interval ⟨first.value, 0#32⟩ where
  off := by omega
  toggles := by
    intro k t st hk hst
    rw [List.getElem?_eq_none (by omega)] at hst
    exact absurd hst (by simp)
  last := ⟨first, hfirst, rfl, by rw [hoff]; omega⟩

lemma toggle (h : s.Toggled first base interval led) {now : BitVec 32} (hnow : s.Latest now)
    (hdue : interval ≤ now - led.last) {t : ℕ} (ht : s.cpu.cycle ≤ t) {st : Store}
    {state : BitVec 32} (hloads : s'.loads = s.loads) (hstores : s'.storesAt base = s.storesAt base ++ [(t, st)]) :
    s'.Toggled first base interval ⟨now, state⟩ := by
  obtain ⟨l, hl, rfl, hcycle, hlatest⟩ := hnow
  obtain ⟨last, hlast, hvalue, hcount⟩ := h.last
  have hoff := h.off
  rw [hvalue] at hdue
  have hinterval := le_of_due (hlatest last hlast) hdue
  have hlength : (s.storesAt base).length = (s.storesAt base).length - 1 + 1 := by omega
  have hadd : first.ticks + (s.storesAt base).length * interval.toNat ≤ l.ticks := by
    rw [hlength, Nat.succ_mul]
    omega
  refine ⟨?_, ?_, ?_⟩
  · rw [hstores, List.length_append]
    omega
  · intro k t' st' hk hst'
    rw [hloads]
    rw [hstores] at hst'
    by_cases hold : k < (s.storesAt base).length
    · rw [List.getElem?_append_left hold] at hst'
      exact h.toggles k t' st' hk hst'
    · rw [List.getElem?_append_right (not_lt.mp hold), List.getElem?_singleton] at hst'
      split_ifs at hst' with hindex
      obtain ⟨rfl, -⟩ := Prod.mk.inj (Option.some.inj hst')
      have hk' : k = (s.storesAt base).length := by omega
      exact ⟨l, hl, hcycle.trans ht, by rw [hk']; exact hadd⟩
  · rw [hloads, hstores, List.length_append, List.length_singleton, Nat.add_sub_cancel]
    exact ⟨l, hl, rfl, hadd⟩

end Toggled

lemma storesAt_append {s s' : Board} {stores : List Store} (h : s'.stores = s.store stores)
    (base : BitVec 32) : s'.storesAt base = s.storesAt base ++
      (stores.filter fun st => st.address = base).map fun st => (s.cpu.cycle, st) := by
  rw [storesAt, storesAt, h, store, List.filter_append, List.filter_map]
  rfl

/-- The block of a colour toggles its LEDs when its interval has passed. -/
lemma Toggled.poll {first : Load} {s s' : Board} {base interval : BitVec 32}
    {led : Led (BitVec 32)} (h : s.Toggled first base interval led) {now : BitVec 32}
    (hnow : s.Latest now) (hloads : s'.loads = s.loads)
    (hstores : s'.stores = s.store (led.poll base interval now).2) :
    s'.Toggled first base interval (led.poll base interval now).1 := by
  have hat := storesAt_append hstores base
  rw [Led.poll] at hat ⊢
  by_cases hdue : interval ≤ now - led.last
  · rw [if_pos hdue] at hat ⊢
    rw [List.filter_singleton, ledStore_address, decide_eq_true rfl] at hat
    exact h.toggle hnow hdue le_rfl hloads hat
  · rw [if_neg hdue] at hat ⊢
    rw [List.filter_nil, List.map_nil, List.append_nil] at hat
    exact h.mono (by rw [hloads]; exact List.Subset.refl _) hat

/-- The block of the other colour does not touch the LEDs. -/
lemma Toggled.poll_other {first : Load} {s s' : Board} {base base' interval interval' : BitVec 32}
    {led led' : Led (BitVec 32)} (h : s.Toggled first base interval led) (hne : base' ≠ base)
    {now : BitVec 32} (hloads : s'.loads = s.loads)
    (hstores : s'.stores = s.store (led'.poll base' interval' now).2) :
    s'.Toggled first base interval led := by
  have hat := storesAt_append hstores base
  have hnone : (led'.poll base' interval' now).2.filter (fun st => st.address = base) = [] := by
    rw [Led.poll]
    split_ifs
    · rw [List.filter_singleton, ledStore_address, decide_eq_false hne]
      rfl
    · rfl
  rw [hnone, List.map_nil, List.append_nil] at hat
  exact h.mono (by rw [hloads]; exact List.Subset.refl _) hat

/-- Both colours count from the first load. -/
def Lit (s : Board) (leds : Leds) : Prop :=
  ∃ first, s.loads.head? = some first ∧ s.Toggled first LEDR_BASE redInterval leds.1 ∧
    s.Toggled first LEDG_BASE greenInterval leds.2

/-- The stores before the loop. -/
def turnedOff : List Store :=
  [iowrAlteraAvalonPioData LEDR_BASE 0x0#32, iowrAlteraAvalonPioData LEDG_BASE 0x0#32]

lemma length_storesAt {s : Board} (h : s.stores.map Prod.snd = turnedOff) :
    (s.storesAt LEDR_BASE).length = 1 ∧ (s.storesAt LEDG_BASE).length = 1 := by
  have hmap (base : BitVec 32) : (s.storesAt base).map Prod.snd =
      turnedOff.filter fun st => st.address = base := by
    rw [← h, List.filter_map]
    rfl
  constructor
  · rw [← List.length_map Prod.snd, hmap]
    decide
  · rw [← List.length_map Prod.snd, hmap]
    decide

section Loads

variable {s s' : Board} {leds : Leds}

lemma lowWord_nticks (s : Board) :
    lowWord s.nticks = (⟨s.cpu.cycle, s.cpu.ticks⟩ : Load).value := by
  rw [nticks, lowWord, BitVec.setWidth_ofNat_of_le (by decide)]
  rfl

lemma Lit.mono (h : s.Lit leds) (hloads : ∃ loads, s'.loads = s.loads ++ loads)
    (hstores : s'.stores = s.stores) : s'.Lit leds := by
  obtain ⟨first, hfirst, hred, hgreen⟩ := h
  obtain ⟨loads, hloads⟩ := hloads
  have hsub : s.loads ⊆ s'.loads := by
    rw [hloads]
    exact List.subset_append_left _ _
  have hat (base : BitVec 32) : s'.storesAt base = s.storesAt base := by
    rw [storesAt, storesAt, hstores]
  refine ⟨first, ?_, hred.mono hsub (hat _), hgreen.mono hsub (hat _)⟩
  rw [hloads, List.head?_append, hfirst, Option.some_or]

lemma Lit.start {l : Load} (hstores : s.stores.map Prod.snd = turnedOff) (hloads : s.loads = [l]) :
    s.Lit (⟨l.value, 0#32⟩, ⟨l.value, 0#32⟩) := by
  obtain ⟨hred, hgreen⟩ := length_storesAt hstores
  have hl : l ∈ s.loads := by
    rw [hloads]
    exact List.mem_singleton_self l
  exact ⟨l, by rw [hloads, List.head?_cons], Toggled.start hred hl, Toggled.start hgreen hl⟩

/-- A load is later than all before it. -/
lemma Latest.load (h : ∀ l ∈ s.loads, Loaded s.cpu l) (hloads : s'.loads = s.load)
    (hcpu : s'.cpu = s.cpu) : s'.Latest (lowWord s.nticks) := by
  refine ⟨⟨s.cpu.cycle, s.cpu.ticks⟩, ?_, lowWord_nticks s, by rw [hcpu], ?_⟩
  · rw [hloads, Board.load]
    exact List.mem_append_right _ (List.mem_singleton_self _)
  · rw [hloads, Board.load]
    intro l hl
    rcases List.mem_append.mp hl with hl | hl
    · exact (h l hl).ticks
    · rw [List.mem_singleton.mp hl]

lemma Latest.mono {now : BitVec 32} (h : s.Latest now) (hloads : s'.loads = s.loads)
    (hcycle : s.cpu.cycle ≤ s'.cpu.cycle) : s'.Latest now := by
  obtain ⟨l, hl, hvalue, hle, hlatest⟩ := h
  rw [Latest, hloads]
  exact ⟨l, hl, hvalue, hle.trans hcycle, hlatest⟩

end Loads

/-- What holds of the toggles where `main` is. -/
def Paced (lowFirst : Bool) (s : Board) : Prop :=
  match s.location with
  | .ledr => s.loads = [] ∧ s.stores = []
  | .ledg => s.loads = [] ∧
      s.stores.map Prod.snd = [iowrAlteraAvalonPioData LEDR_BASE 0x0#32]
  | .nticks none => s.loads = [] ∧ s.stores.map Prod.snd = turnedOff
  | .nticksRest none word => s.stores.map Prod.snd = turnedOff ∧
      if lowFirst then ∃ l, s.loads = [l] ∧ word = l.value else s.loads = []
  | .nticks (some leds) => s.Lit leds
  | .nticksRest (some leds) word => s.Lit leds ∧ (lowFirst = true → s.Latest word)
  | .red leds now => s.Lit leds ∧ s.Latest now
  | .green leds now => s.Lit leds ∧ s.Latest now

lemma Paced.mainStep {lowFirst : Bool} {s : Board} (h : s.Paced lowFirst)
    (hloaded : ∀ l ∈ s.loads, Loaded s.cpu l) : (s.mainStep lowFirst).Paced lowFirst := by
  have hload (s' : Board) (hs' : s'.loads = s.load) : ∃ loads, s'.loads = s.loads ++ loads :=
    ⟨_, hs'⟩
  cases hlocation : s.location with
  | ledr =>
    rw [Paced, hlocation] at h
    simp only [Board.mainStep, hlocation]
    refine ⟨h.1, ?_⟩
    simp only [store, h.2]
    rfl
  | ledg =>
    rw [Paced, hlocation] at h
    simp only [Board.mainStep, hlocation]
    refine ⟨h.1, ?_⟩
    simp only [store, List.map_append, h.2]
    rfl
  | nticks leds =>
    rw [Paced, hlocation] at h
    simp only [Board.mainStep, hlocation]
    cases leds with
    | none =>
      cases lowFirst with
      | false => exact ⟨h.2, h.1⟩
      | true =>
        refine ⟨h.2, _, ?_, lowWord_nticks s⟩
        simp only [if_true, load, h.1, List.nil_append]
    | some leds =>
      cases lowFirst with
      | false =>
        exact ⟨h.mono ⟨[], (List.append_nil _).symm⟩ rfl, fun hlow => absurd hlow (by simp)⟩
      | true => exact ⟨h.mono ⟨_, rfl⟩ rfl, fun _ => Latest.load hloaded rfl rfl⟩
  | nticksRest leds word =>
    rw [Paced, hlocation] at h
    have hlow : (highWord s.nticks ++ word).setWidth 32 = word := lowWord_words _ _
    have hhigh : (word ++ lowWord s.nticks).setWidth 32 = lowWord s.nticks := lowWord_words _ _
    simp only [Board.mainStep, hlocation]
    cases leds with
    | none =>
      obtain ⟨hoff, hloads⟩ := h
      cases lowFirst with
      | false =>
        rw [if_neg (by decide)] at hloads
        have hone : s.load = [⟨s.cpu.cycle, s.cpu.ticks⟩] := by
          rw [Board.load, hloads, List.nil_append]
        simp only [Bool.false_eq_true, if_false, returned, hhigh]
        rw [lowWord_nticks]
        exact Lit.start hoff hone
      | true =>
        obtain ⟨l, hl, rfl⟩ := hloads
        simp only [if_true, returned, hlow]
        exact Lit.start hoff hl
    | some leds =>
      obtain ⟨hlit, hlatest⟩ := h
      cases lowFirst with
      | false =>
        simp only [Bool.false_eq_true, if_false, returned, hhigh]
        exact ⟨hlit.mono ⟨_, rfl⟩ rfl, Latest.load hloaded rfl rfl⟩
      | true =>
        simp only [if_true, returned, hlow]
        exact ⟨hlit.mono ⟨[], (List.append_nil _).symm⟩ rfl, (hlatest rfl).mono rfl le_rfl⟩
  | red leds now =>
    rw [Paced, hlocation] at h
    obtain ⟨⟨first, hfirst, hred, hgreen⟩, hnow⟩ := h
    simp only [Board.mainStep, hlocation]
    exact ⟨⟨first, hfirst, hred.poll hnow rfl rfl, hgreen.poll_other (by decide) rfl rfl⟩,
      hnow.mono rfl le_rfl⟩
  | green leds now =>
    rw [Paced, hlocation] at h
    obtain ⟨⟨first, hfirst, hred, hgreen⟩, hnow⟩ := h
    simp only [Board.mainStep, hlocation]
    exact ⟨first, hfirst, hred.poll_other (by decide) rfl rfl, hgreen.poll hnow rfl rfl⟩

lemma Paced.processor {lowFirst : Bool} {s : Board} (h : s.Paced lowFirst) {cpu : Processor}
    (hle : s.cpu.cycle ≤ cpu.cycle) : ({ s with cpu } : Board).Paced lowFirst := by
  have hloads : ∃ loads, s.loads = s.loads ++ loads := ⟨[], (List.append_nil _).symm⟩
  rw [Paced] at h ⊢
  cases hlocation : s.location with
  | ledr =>
    rw [hlocation] at h
    exact h
  | ledg =>
    rw [hlocation] at h
    exact h
  | nticks leds =>
    rw [hlocation] at h
    cases leds with
    | none => exact h
    | some leds => exact h.mono hloads rfl
  | nticksRest leds word =>
    rw [hlocation] at h
    cases leds with
    | none => exact h
    | some leds => exact ⟨h.1.mono hloads rfl, fun hlow => (h.2 hlow).mono rfl hle⟩
  | red leds now =>
    rw [hlocation] at h
    exact ⟨h.1.mono hloads rfl, h.2.mono rfl hle⟩
  | green leds now =>
    rw [hlocation] at h
    exact ⟨h.1.mono hloads rfl, h.2.mono rfl hle⟩

/-- Before the loop the LEDs have at most been turned off. -/
lemma Paced.lit_or_off {lowFirst : Bool} {s : Board} (h : s.Paced lowFirst) :
    (∃ leds, s.Lit leds) ∨
      (s.storesAt LEDR_BASE).length ≤ 1 ∧ (s.storesAt LEDG_BASE).length ≤ 1 := by
  have hoff (hstores : s.stores.map Prod.snd = turnedOff) :
      (s.storesAt LEDR_BASE).length ≤ 1 ∧ (s.storesAt LEDG_BASE).length ≤ 1 := by
    obtain ⟨hred, hgreen⟩ := length_storesAt hstores
    exact ⟨hred.le, hgreen.le⟩
  have hfew (hstores : s.stores.length ≤ 1) :
      (s.storesAt LEDR_BASE).length ≤ 1 ∧ (s.storesAt LEDG_BASE).length ≤ 1 :=
    ⟨(List.length_filter_le _ _).trans hstores, (List.length_filter_le _ _).trans hstores⟩
  rw [Paced] at h
  cases hlocation : s.location with
  | ledr =>
    rw [hlocation] at h
    exact Or.inr (hfew (by rw [h.2]; exact Nat.zero_le 1))
  | ledg =>
    rw [hlocation] at h
    exact Or.inr (hfew (by rw [← List.length_map Prod.snd, h.2]; exact le_rfl))
  | nticks leds =>
    rw [hlocation] at h
    cases leds with
    | none => exact Or.inr (hoff h.2)
    | some leds => exact Or.inl ⟨leds, h⟩
  | nticksRest leds word =>
    rw [hlocation] at h
    cases leds with
    | none => exact Or.inr (hoff h.1)
    | some leds => exact Or.inl ⟨leds, h.1⟩
  | red leds now =>
    rw [hlocation] at h
    exact Or.inl ⟨leds, h.1⟩
  | green leds now =>
    rw [hlocation] at h
    exact Or.inl ⟨leds, h.1⟩

structure Sound (cycle₀ : ℕ) (lowFirst : Bool) (s : Board) : Prop where
  ticking : s.cpu.Ticking cycle₀
  loaded : ∀ l ∈ s.loads, Loaded s.cpu l
  paced : s.Paced lowFirst

lemma mainStep_loads (lowFirst : Bool) (s : Board) :
    (s.mainStep lowFirst).loads = s.loads ∨ (s.mainStep lowFirst).loads = s.load := by
  rw [mainStep]
  split
  · exact Or.inl rfl
  · exact Or.inl rfl
  · split_ifs
    · exact Or.inr rfl
    · exact Or.inl rfl
  · split_ifs
    · exact Or.inl rfl
    · exact Or.inr rfl
  · exact Or.inl rfl
  · exact Or.inl rfl

lemma Sound.step {cycle₀ : ℕ} {lowFirst : Bool} {s s' : Board} {e : Event}
    (h : s.Sound cycle₀ lowFirst) (hcycle : s.cpu.cycle < 2 ^ 64 - 2 ^ 32)
    (hstep : s.step lowFirst e = some s') : s'.Sound cycle₀ lowFirst := by
  rcases step_cases hstep with ⟨hisr, hmain, rfl⟩ | ⟨cpu, hcpu, rfl⟩
  · refine ⟨by rw [mainStep_cpu]; exact h.ticking, ?_, h.paced.mainStep h.loaded⟩
    have hrunning : s.cpu.main.Running := by
      rw [hmain]
      trivial
    rw [mainStep_cpu]
    intro l hl
    rcases mainStep_loads lowFirst s with hloads | hloads
    · exact h.loaded l (hloads ▸ hl)
    · rw [hloads, load] at hl
      rcases List.mem_append.mp hl with hl | hl
      · exact h.loaded l hl
      · rw [List.mem_singleton.mp hl]
        exact Loaded.now h.ticking hisr hrunning
  · have hle := MachineTimer.step_cycle_le idle s.cpu e cpu hcpu
    refine ⟨h.ticking.step hcycle hcpu, ?_, h.paced.processor hle⟩
    intro l hl
    exact (h.loaded l hl).step (by omega) hcpu

/-- By the clock of the processor, each toggle of the LEDs at a base comes after the first load of
the counter by an interval for every toggle, less one tick. -/
def NeverEarly (s : Board) (base interval : BitVec 32) : Prop :=
  ∀ k t st, 1 ≤ k → (s.storesAt base)[k]? = some (t, st) → ∃ first, s.loads.head? = some first ∧
    first.cycle + k * interval.toNat * MTIMECMP_DELTA_AMT ≤ t + MTIMECMP_DELTA_AMT

lemma Sound.neverEarly {cycle₀ : ℕ} {lowFirst : Bool} {s : Board} (h : s.Sound cycle₀ lowFirst)
    {first : Load} (hfirst : s.loads.head? = some first) {base interval : BitVec 32}
    (hinterval : 0 < interval.toNat) {led : Led (BitVec 32)}
    (htoggled : s.Toggled first base interval led) : s.NeverEarly base interval := by
  intro k t st hk hst
  obtain ⟨l, hl, hle, hticks⟩ := htoggled.toggles k t st hk hst
  have hpos := Nat.mul_pos hk hinterval
  have hspaced := (h.loaded first (List.mem_of_mem_head? hfirst)).spaced h.ticking (h.loaded l hl)
    (by omega)
  have hmul : k * interval.toNat * MTIMECMP_DELTA_AMT ≤
      (l.ticks - first.ticks) * MTIMECMP_DELTA_AMT := Nat.mul_le_mul_right _ (by omega)
  exact ⟨first, hfirst, by omega⟩

end Board

/-- In every run of the board, whatever the interrupts and however the accesses fall between the
cycles, the LEDs never toggle early. -/
theorem toggles_never_early (lowFirst : Bool) {cycle : ℕ} {mtimecmp : BitVec 64} {s : Board}
    {events : List Event}
    (hrun : run (Board.step lowFirst) (Board.start cycle mtimecmp) events = some s)
    (hcycle : s.cpu.cycle < 2 ^ 64 - 2 ^ 32) :
    s.NeverEarly LEDR_BASE redInterval ∧ s.NeverEarly LEDG_BASE greenInterval := by
  have hle := along_le_final (Board.step_cycle_le lowFirst) hrun
  have hguard := hle.2.mono (fun t _ ht => lt_of_le_of_lt ht hcycle)
  have hstart : (Board.start cycle mtimecmp).Sound cycle lowFirst :=
    ⟨Processor.ticking_start cycle mtimecmp, fun l hl => absurd hl List.not_mem_nil, rfl, rfl⟩
  have hsound : s.Sound cycle lowFirst :=
    invariant_along (fun _ _ _ ht hinv hstep => hinv.step ht hstep) hguard hstart hrun
  rcases hsound.paced.lit_or_off with ⟨leds, first, hfirst, hred, hgreen⟩ | ⟨hred, hgreen⟩
  · exact ⟨hsound.neverEarly hfirst (by decide) hred, hsound.neverEarly hfirst (by decide) hgreen⟩
  · constructor
    · intro k t st hk hst
      rw [List.getElem?_eq_none (by omega)] at hst
      exact absurd hst (by simp)
    · intro k t st hk hst
      rw [List.getElem?_eq_none (by omega)] at hst
      exact absurd hst (by simp)

namespace Board

/-- A board between the interrupts, the last of which has been at a cycle and all in time. -/
def between (location : Location) (loads : List Load) (stores : List (ℕ × Store)) (cycle : ℕ)
    (reads : List (BitVec 64)) (ticks : ℕ) : Board :=
  ⟨⟨cycle, BitVec.ofNat 64 cycle + BitVec.ofNat 64 MTIMECMP_DELTA_AMT, true, none, .before, reads,
    ticks, []⟩, location, loads, stores⟩

lemma run_clocks (lowFirst : Bool) (s : Board) (n : ℕ) :
    run (Board.step lowFirst) s (List.replicate n .clock) =
      some { s with cpu := { s.cpu with cycle := s.cpu.cycle + n } } := by
  induction n generalizing s with
  | zero => rfl
  | succ n ih =>
    rw [List.replicate_succ, run_cons_eq_some]
    refine ⟨_, rfl, ?_⟩
    rw [ih]
    simp only [Option.some.injEq, Board.mk.injEq, Processor.mk.injEq, and_true]
    omega

section Ticks

variable (lowFirst : Bool) (location : Location) (loads : List Load) (stores : List (ℕ × Store))
variable (cycle : ℕ) (reads : List (BitVec 64)) (ticks : ℕ)

lemma run_tick : ∃ events reads', run (Board.step lowFirst)
    (between location loads stores cycle reads ticks) events =
      some (between location loads stores (cycle + MTIMECMP_DELTA_AMT) reads' (ticks + 1)) := by
  refine ⟨List.replicate MTIMECMP_DELTA_AMT .clock ++ .interrupt :: List.replicate 7 .access,
    reads ++ [BitVec.ofNat 64 (cycle + MTIMECMP_DELTA_AMT)],
    run_append_eq_some.mpr ⟨_, run_clocks lowFirst _ _, ?_⟩⟩
  have hpending : BitVec.ofNat 64 cycle + BitVec.ofNat 64 MTIMECMP_DELTA_AMT =
      BitVec.ofNat 64 (cycle + MTIMECMP_DELTA_AMT) := (BitVec.ofNat_add _ _).symm
  simp [run, List.replicate, between, Board.step, Processor.step, Processor.isrStep,
    Processor.mtime, Processor.TimerPending, Get.step, Set.step, words_eta, lowWord_words, hpending]

lemma run_ticks (n : ℕ) : ∃ events reads', run (Board.step lowFirst)
    (between location loads stores cycle reads ticks) events =
      some (between location loads stores (cycle + n * MTIMECMP_DELTA_AMT) reads' (ticks + n)) := by
  induction n with
  | zero => exact ⟨[], reads, by rw [Nat.zero_mul]; rfl⟩
  | succ n ih =>
    obtain ⟨events, reads', hrun⟩ := ih
    obtain ⟨tick, reads'', htick⟩ := run_tick lowFirst location loads stores
      (cycle + n * MTIMECMP_DELTA_AMT) reads' (ticks + n)
    refine ⟨events ++ tick, reads'', ?_⟩
    rw [Nat.succ_mul, ← Nat.add_assoc, ← Nat.add_assoc]
    exact run_append_eq_some.mpr ⟨_, hrun, htick⟩

end Ticks

/-- A turn of the loop that is not interrupted. -/
lemma stores_turn {s : Board} {red green : Led (BitVec 32)}
    (hlocation : s.location = .nticks (some (red, green))) :
    ((mainStep true)^[4] s).stores = s.store (
      (red.poll LEDR_BASE redInterval (lowWord s.nticks)).2 ++
      (green.poll LEDG_BASE greenInterval (lowWord s.nticks)).2) := by
  have hfirst : s.mainStep true = { s with
      location := .nticksRest (some (red, green)) (lowWord s.nticks), loads := s.load } := by
    simp only [mainStep, hlocation, if_true]
  have hnow (high : BitVec 32) : (high ++ lowWord s.nticks).setWidth 32 = lowWord s.nticks :=
    lowWord_words _ _
  have hsecond : (s.mainStep true).mainStep true = { s with
      location := .red (red, green) (lowWord s.nticks), loads := s.load } := by
    rw [hfirst]
    simp only [mainStep, if_true, returned, hnow]
  rw [Function.iterate_succ_apply, Function.iterate_succ_apply, hsecond]
  simp only [Function.iterate_succ_apply, Function.iterate_zero_apply, mainStep, store,
    List.map_append, List.append_assoc]

end Board

/-- The board at the 250th tick, before the poll that toggles the green LEDs. -/
def Board.beforeToggle (reads : List (BitVec 64)) : Board :=
  .between (.nticks (some (⟨0#32, 0#32⟩, ⟨0#32, 0#32⟩))) [⟨0, 0⟩]
    (turnedOff.map fun st => (0, st)) 12500000 reads 250

/-- The first toggle of the green LEDs, when every interrupt is served at once. -/
theorem toggles_never_early_firstToggle : ∃ events s st,
    run (Board.step true) (Board.start 0 0#64) events = some s ∧
      (s.storesAt LEDG_BASE)[1]? = some (12500000, st) ∧
      0 + 1 * 250 * MTIMECMP_DELTA_AMT ≤ 12500000 + MTIMECMP_DELTA_AMT := by
  have hstart : run (Board.step true) (Board.start 0 0#64) (List.replicate 11 .access) =
      some (.between (.nticks (some (⟨0#32, 0#32⟩, ⟨0#32, 0#32⟩))) [⟨0, 0⟩]
        (Board.turnedOff.map fun st => (0, st)) 0 [0#64] 0) := rfl
  obtain ⟨events, reads, hticks⟩ := Board.run_ticks true
    (.nticks (some (⟨0#32, 0#32⟩, ⟨0#32, 0#32⟩))) [⟨0, 0⟩]
    (Board.turnedOff.map fun st => (0, st)) 0 [0#64] 0 250
  have hlast : run (Board.step true) (.beforeToggle reads) (List.replicate 4 .access) =
      some ((Board.mainStep true)^[4] (.beforeToggle reads)) := rfl
  have hrun := run_append_eq_some.mpr ⟨_, hstart, run_append_eq_some.mpr ⟨_, hticks, hlast⟩⟩
  have hcycle : ((Board.mainStep true)^[4] (.beforeToggle reads)).cpu.cycle < 2 ^ 64 - 2 ^ 32 := by
    change 12500000 < 2 ^ 64 - 2 ^ 32
    decide
  have hstores : ((Board.mainStep true)^[4] (.beforeToggle reads)).stores =
      Board.turnedOff.map (fun st => (0, st)) ++ [(12500000, ledStore LEDG_BASE 1#32)] := by
    have hnow : lowWord (Board.beforeToggle reads).nticks = 250#32 := Board.lowWord_nticks _
    rw [Board.stores_turn (s := .beforeToggle reads) rfl, hnow]
    rfl
  have htoggle : (((Board.mainStep true)^[4] (.beforeToggle reads)).storesAt LEDG_BASE)[1]? =
      some (12500000, ledStore LEDG_BASE 1#32) := by
    rw [Board.storesAt, hstores]
    rfl
  have hgreen := (toggles_never_early true hrun hcycle).2
  obtain ⟨first, hfirst, hle⟩ := hgreen 1 _ _ le_rfl htoggle
  obtain rfl := Option.some.inj hfirst
  exact ⟨_, _, _, hrun, htoggle, hle⟩

/-! ### The stores of the program -/

namespace Board

/-- The locals after some turns of the loop. -/
def ledsAfter (leds : Leds) (polls : List (BitVec 32)) : Leds :=
  polls.foldl (fun leds now => ((leds.1.poll LEDR_BASE redInterval now).1,
    (leds.2.poll LEDG_BASE greenInterval now).1)) leds

def ledsFrom (first : BitVec 32) : Leds := (⟨first, 0#32⟩, ⟨first, 0#32⟩)

lemma ledsAfter_concat (leds : Leds) (polls : List (BitVec 32)) (now : BitVec 32) :
    ledsAfter leds (polls ++ [now]) =
      (((ledsAfter leds polls).1.poll LEDR_BASE redInterval now).1,
        ((ledsAfter leds polls).2.poll LEDG_BASE greenInterval now).1) := by
  rw [ledsAfter, List.foldl_append]
  rfl

lemma loop_concat (leds : Leds) (polls : List (BitVec 32)) (now : BitVec 32) :
    loop redInterval greenInterval leds.1 leds.2 (polls ++ [now]) =
      loop redInterval greenInterval leds.1 leds.2 polls ++
        [((ledsAfter leds polls).1.poll LEDR_BASE redInterval now).2 ++
          ((ledsAfter leds polls).2.poll LEDG_BASE greenInterval now).2] := by
  induction polls generalizing leds with
  | nil => rfl
  | cons first polls ih =>
    have hrest := ih ((leds.1.poll LEDR_BASE redInterval first).1,
      (leds.2.poll LEDG_BASE greenInterval first).1)
    exact congrArg (List.cons _) hrest

/-- The stores of `main` on the values of its calls of `alt_nticks`. -/
def mainStores (values : List (BitVec 32)) : List Store :=
  (LedBlink.main ticksPerSec values).flatten

lemma mainStores_nil : mainStores [] = turnedOff := rfl

lemma mainStores_concat (first : BitVec 32) (polls : List (BitVec 32)) (now : BitVec 32) :
    mainStores (first :: (polls ++ [now])) = mainStores (first :: polls) ++
      (((ledsAfter (ledsFrom first) polls).1.poll LEDR_BASE redInterval now).2 ++
        ((ledsAfter (ledsFrom first) polls).2.poll LEDG_BASE greenInterval now).2) := by
  have hmain (polls : List (BitVec 32)) : mainStores (first :: polls) = turnedOff ++
      (loop redInterval greenInterval (ledsFrom first).1 (ledsFrom first).2 polls).flatten := rfl
  rw [hmain, hmain, loop_concat, List.flatten_append, List.append_assoc, List.flatten_singleton]

lemma mainStores_prefix (values : List (BitVec 32)) (now : BitVec 32) :
    mainStores values <+: mainStores (values ++ [now]) := by
  cases values with
  | nil => exact List.prefix_rfl
  | cons first polls =>
    rw [List.cons_append, mainStores_concat]
    exact List.prefix_append _ _

/-- The stores are those of `main` as far as it has come with the values that it has got. -/
def Follows (s : Board) (values : List (BitVec 32)) : Prop :=
  match s.location with
  | .ledr => values = [] ∧ s.stores.map Prod.snd = []
  | .ledg => values = [] ∧
      s.stores.map Prod.snd = [iowrAlteraAvalonPioData LEDR_BASE 0x0#32]
  | .nticks none | .nticksRest none _ => values = [] ∧ s.stores.map Prod.snd = turnedOff
  | .nticks (some leds) | .nticksRest (some leds) _ => ∃ first polls, values = first :: polls ∧
      leds = ledsAfter (ledsFrom first) polls ∧ s.stores.map Prod.snd = mainStores values
  | .red leds now => ∃ first polls, values = first :: (polls ++ [now]) ∧
      leds = ledsAfter (ledsFrom first) polls ∧
      s.stores.map Prod.snd = mainStores (first :: polls)
  | .green leds now => ∃ first polls, values = first :: (polls ++ [now]) ∧
      leds = (((ledsAfter (ledsFrom first) polls).1.poll LEDR_BASE redInterval now).1,
        (ledsAfter (ledsFrom first) polls).2) ∧
      s.stores.map Prod.snd = mainStores (first :: polls) ++
        ((ledsAfter (ledsFrom first) polls).1.poll LEDR_BASE redInterval now).2

/-- The values that `alt_nticks` has returned are those loaded, but for one that it has still to
return. -/
def Returned (lowFirst : Bool) (s : Board) (values : List (BitVec 32)) : Prop :=
  match s.location with
  | .nticksRest _ word => s.loads.map Load.value = if lowFirst then values ++ [word] else values
  | _ => s.loads.map Load.value = values

lemma map_store (s : Board) (stores : List Store) :
    (s.store stores).map Prod.snd = s.stores.map Prod.snd ++ stores := by
  rw [store, List.map_append, List.map_map]
  exact congrArg _ (List.map_id stores)

lemma map_load (s : Board) :
    s.load.map Load.value = s.loads.map Load.value ++ [lowWord s.nticks] := by
  rw [load, List.map_append, lowWord_nticks]
  rfl

lemma Follows.mainStep {lowFirst : Bool} {s : Board} {values : List (BitVec 32)}
    (h : s.Follows values) (hreturned : s.Returned lowFirst values) :
    ∃ values', (s.mainStep lowFirst).Follows values' ∧
      (s.mainStep lowFirst).Returned lowFirst values' := by
  cases hlocation : s.location with
  | ledr =>
    rw [Follows, hlocation] at h
    rw [Returned, hlocation] at hreturned
    simp only [Board.mainStep, hlocation]
    refine ⟨values, ⟨h.1, ?_⟩, hreturned⟩
    simp only [map_store, h.2, List.nil_append]
  | ledg =>
    rw [Follows, hlocation] at h
    rw [Returned, hlocation] at hreturned
    simp only [Board.mainStep, hlocation]
    refine ⟨values, ⟨h.1, ?_⟩, hreturned⟩
    simp only [map_store, h.2]
    rfl
  | nticks leds =>
    rw [Follows, hlocation] at h
    rw [Returned, hlocation] at hreturned
    simp only [Board.mainStep, hlocation]
    refine ⟨values, ?_, ?_⟩
    · cases leds with
      | none => cases lowFirst <;> exact h
      | some leds => cases lowFirst <;> exact h
    · cases lowFirst with
      | false => exact hreturned
      | true => exact (map_load s).trans (by rw [hreturned]; rfl)
  | nticksRest leds word =>
    rw [Follows, hlocation] at h
    rw [Returned, hlocation] at hreturned
    have hhigh : (word ++ lowWord s.nticks).setWidth 32 = lowWord s.nticks := lowWord_words _ _
    have hlow : (highWord s.nticks ++ word).setWidth 32 = word := lowWord_words _ _
    -- the value that the call returns is the last one loaded, in either order
    obtain ⟨now, loads, hstep, hloads⟩ : ∃ now loads, s.mainStep lowFirst =
        { s with location := returned leds now, loads } ∧
          loads.map Load.value = values ++ [now.setWidth 32] := by
      cases lowFirst with
      | false =>
        refine ⟨_, s.load, by simp only [Board.mainStep, hlocation]; rfl, ?_⟩
        rw [map_load, hreturned, hhigh]
        rfl
      | true =>
        refine ⟨_, s.loads, by simp only [Board.mainStep, hlocation]; rfl, ?_⟩
        rw [hreturned, hlow]
        rfl
    rw [hstep]
    refine ⟨values ++ [now.setWidth 32], ?_, ?_⟩
    · cases leds with
      | none => exact ⟨now.setWidth 32, [], by rw [h.1]; rfl, rfl, by rw [h.1]; exact h.2⟩
      | some leds =>
        obtain ⟨first, polls, hvalues, hleds, hstores⟩ := h
        exact ⟨first, polls, by rw [hvalues]; rfl, hleds, hvalues ▸ hstores⟩
    · cases leds <;> exact hloads
  | red leds now =>
    rw [Follows, hlocation] at h
    rw [Returned, hlocation] at hreturned
    obtain ⟨first, polls, hvalues, hleds, hstores⟩ := h
    simp only [Board.mainStep, hlocation]
    refine ⟨values, ⟨first, polls, hvalues, ?_, ?_⟩, hreturned⟩
    · rw [← hleds]
    · simp only [map_store, hstores, ← hleds]
  | green leds now =>
    rw [Follows, hlocation] at h
    rw [Returned, hlocation] at hreturned
    obtain ⟨first, polls, hvalues, hleds, hstores⟩ := h
    simp only [Board.mainStep, hlocation]
    refine ⟨values, ⟨first, polls ++ [now], hvalues, ?_, ?_⟩, hreturned⟩
    · rw [hleds, ledsAfter_concat]
    · simp only [map_store, hstores, hleds, hvalues, mainStores_concat, List.append_assoc]

lemma Follows.stores_prefix {s : Board} {values : List (BitVec 32)} (h : s.Follows values) :
    s.stores.map Prod.snd <+: mainStores values := by
  rw [Follows] at h
  cases hlocation : s.location with
  | ledr =>
    rw [hlocation] at h
    rw [h.2]
    exact List.nil_prefix
  | ledg =>
    rw [hlocation] at h
    rw [h.1, h.2]
    exact ⟨[iowrAlteraAvalonPioData LEDG_BASE 0x0#32], rfl⟩
  | nticks leds =>
    rw [hlocation] at h
    cases leds with
    | none => rw [h.1, h.2, mainStores_nil]
    | some leds =>
      obtain ⟨first, polls, -, -, hstores⟩ := h
      rw [hstores]
  | nticksRest leds word =>
    rw [hlocation] at h
    cases leds with
    | none => rw [h.1, h.2, mainStores_nil]
    | some leds =>
      obtain ⟨first, polls, -, -, hstores⟩ := h
      rw [hstores]
  | red leds now =>
    rw [hlocation] at h
    obtain ⟨first, polls, hvalues, -, hstores⟩ := h
    rw [hvalues, hstores, ← List.cons_append]
    exact mainStores_prefix _ now
  | green leds now =>
    rw [hlocation] at h
    obtain ⟨first, polls, hvalues, -, hstores⟩ := h
    rw [hvalues, hstores, mainStores_concat, ← List.append_assoc]
    exact List.prefix_append _ _

lemma Returned.mainStores_prefix {lowFirst : Bool} {s : Board} {values : List (BitVec 32)}
    (h : s.Returned lowFirst values) :
    mainStores values <+: mainStores (s.loads.map Load.value) := by
  rw [Returned] at h
  split at h
  · rw [h]
    split_ifs
    · exact Board.mainStores_prefix _ _
    · exact List.prefix_rfl
  · rw [h]

end Board

/-- In every run the board performs the stores of `main` on the tick counts that it has loaded, and
at the head of the loop it has performed them all. -/
theorem stores_refine_main (lowFirst : Bool) {cycle : ℕ} {mtimecmp : BitVec 64} {s : Board}
    {events : List Event}
    (hrun : run (Board.step lowFirst) (Board.start cycle mtimecmp) events = some s) :
    s.stores.map Prod.snd <+:
        (LedBlink.main ticksPerSec (s.loads.map Load.value)).flatten ∧
      ∀ leds, s.location = .nticks (some leds) → s.stores.map Prod.snd =
        (LedBlink.main ticksPerSec (s.loads.map Load.value)).flatten := by
  obtain ⟨values, hfollows, hreturned⟩ : ∃ values, s.Follows values ∧
      s.Returned lowFirst values := by
    apply invariant (fun s e s' hinv hstep => ?_) ⟨[], ⟨rfl, rfl⟩, rfl⟩ hrun
    obtain ⟨values, hfollows, hreturned⟩ := hinv
    rcases Board.step_cases hstep with ⟨-, -, rfl⟩ | ⟨cpu, -, rfl⟩
    · exact hfollows.mainStep hreturned
    · exact ⟨values, hfollows, hreturned⟩
  refine ⟨hfollows.stores_prefix.trans hreturned.mainStores_prefix, ?_⟩
  intro leds hlocation
  rw [Board.Follows, hlocation] at hfollows
  rw [Board.Returned, hlocation] at hreturned
  obtain ⟨first, polls, -, -, hstores⟩ := hfollows
  rw [hstores, hreturned]
  rfl

/-- The first turn of the loop, before any tick. -/
theorem stores_refine_main_firstTurn : ∃ s,
    run (Board.step true) (Board.start 0 0#64) (List.replicate 15 .access) = some s ∧
      s.stores.map Prod.snd = (LedBlink.main ticksPerSec [0#32, 0#32]).flatten := by
  have hrun : run (Board.step true) (Board.start 0 0#64) (List.replicate 15 .access) =
      some (.between (.nticks (some (⟨0#32, 0#32⟩, ⟨0#32, 0#32⟩))) [⟨0, 0⟩, ⟨0, 0⟩]
        (Board.turnedOff.map fun st => (0, st)) 0 [0#64] 0) := rfl
  exact ⟨_, hrun, (stores_refine_main true hrun).2 _ rfl⟩

end BlinkBoard

end VecadNiosv
