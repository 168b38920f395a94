import VecadNiosv.DataBus
import VecadNiosv.Library.PolledTimer

/-!
# The LED blinker of project 2

The timer interrupt counts ticks in a 64-bit counter of the HAL. `main` polls the counter without
pause, keeps the low 32 bits of what it reads, and toggles the red and the green LEDs once their
intervals have elapsed. The processor loads the counter as two words, and interrupts may fall
between the two loads, in which case the halves belong to different counts.
-/

namespace VecadNiosv

namespace LedBlink

section Hal

variable {κ : Type*}

/-- `alt_alarm`, with a callback that acts on its context only and returns the next period. -/
structure Alarm (κ : Type*) where
  time : BitVec 64
  callback : κ → BitVec 32 × κ
  context : κ

/-- The body of the loop of `alt_tick`, where a period of zero unregisters the alarm. -/
def Alarm.process (nticks : BitVec 64) (alarm : Alarm κ) : Option (Alarm κ) :=
  if alarm.time ≤ nticks then
    let (nextCallback, context) := alarm.callback alarm.context
    if nextCallback = 0#32 then none
    else some { alarm with time := alarm.time + nextCallback.setWidth 64, context }
  else some alarm

structure Hal (κ : Type*) where
  nticks : BitVec 64
  alarms : List (Alarm κ)

/-- The counter at reset, with the alarms that the drivers register before `main` runs. -/
def Hal.reset (alarms : List (Alarm κ)) : Hal κ := ⟨0#64, alarms⟩

/-- `alt_tick`, which the timer interrupt calls with interrupts disabled. -/
def Hal.altTick (h : Hal κ) : Hal κ :=
  let nticks := h.nticks + 1#64
  ⟨nticks, h.alarms.filterMap (Alarm.process nticks)⟩

/-- The interrupts around the two loads of a call of `alt_nticks`, and which half is loaded
first. -/
structure NticksCall where
  before : ℕ
  between : ℕ
  lowFirst : Bool
  deriving DecidableEq, Repr

namespace NticksCall

def altNticks (c : NticksCall) (h : Hal κ) : BitVec 64 × Hal κ :=
  let first := Hal.altTick^[c.before] h
  let second := Hal.altTick^[c.between] first
  let low := if c.lowFirst then first else second
  let high := if c.lowFirst then second else first
  (high.nticks.extractLsb' 32 32 ++ low.nticks.setWidth 32, second)

/-- The number of ticks since reset when the low half is loaded, from the number at the end of
the previous call. -/
def lowTick (c : NticksCall) (n : ℕ) : ℕ := n + c.before + if c.lowFirst then 0 else c.between

def endTick (c : NticksCall) (n : ℕ) : ℕ := n + c.before + c.between

end NticksCall

/-- What successive calls of `alt_nticks` return in an `alt_u32`. -/
def readings : Hal κ → List NticksCall → List (BitVec 32)
  | _, [] => []
  | h, c :: calls => (c.altNticks h).1.setWidth 32 :: readings (c.altNticks h).2 calls

/-- The number of ticks since reset when each of the calls loads the low half. -/
def lowTicks : ℕ → List NticksCall → List ℕ
  | _, [] => []
  | n, c :: calls => c.lowTick n :: lowTicks (c.endTick n) calls

lemma Hal.altTick_iterate_nticks (h : Hal κ) (k : ℕ) :
    (Hal.altTick^[k] h).nticks = h.nticks + BitVec.ofNat 64 k := by
  induction k with
  | zero => simp
  | succ k ih =>
    rw [Function.iterate_succ_apply', altTick, ih, BitVec.ofNat_add, BitVec.add_assoc]

/-- The value kept by the program is the tick count at the load of the low half, truncated, and
the high half has no part in it. -/
lemma NticksCall.altNticks_low (c : NticksCall) {h : Hal κ} {n : ℕ}
    (hn : h.nticks = BitVec.ofNat 64 n) :
    (c.altNticks h).1.setWidth 32 = BitVec.ofNat 32 (c.lowTick n) := by
  rw [altNticks, BitVec.setWidth_append_eq_right, lowTick]
  cases c.lowFirst
  · rw [if_neg (by decide), if_neg (by decide), Hal.altTick_iterate_nticks,
      Hal.altTick_iterate_nticks, hn, ← BitVec.ofNat_add, ← BitVec.ofNat_add,
      BitVec.setWidth_ofNat_of_le (by decide)]
  · rw [if_pos rfl, if_pos rfl, Hal.altTick_iterate_nticks, hn, ← BitVec.ofNat_add,
      BitVec.setWidth_ofNat_of_le (by decide), Nat.add_zero]

lemma NticksCall.altNticks_end (c : NticksCall) {h : Hal κ} {n : ℕ}
    (hn : h.nticks = BitVec.ofNat 64 n) :
    (c.altNticks h).2.nticks = BitVec.ofNat 64 (c.endTick n) := by
  rw [altNticks, endTick, Hal.altTick_iterate_nticks, Hal.altTick_iterate_nticks, hn,
    BitVec.ofNat_add, BitVec.ofNat_add]

lemma readings_eq {h : Hal κ} {n : ℕ} (hn : h.nticks = BitVec.ofNat 64 n)
    (calls : List NticksCall) : readings h calls = (lowTicks n calls).map (BitVec.ofNat 32) := by
  induction calls generalizing h n with
  | nil => rfl
  | cons c calls ih =>
    rw [readings, lowTicks, List.map_cons, c.altNticks_low hn, ih (c.altNticks_end hn)]

lemma lowTicks_isChain (n : ℕ) (calls : List NticksCall) :
    (lowTicks n calls).IsChain (· ≤ ·) := by
  induction calls generalizing n with
  | nil => exact List.isChain_nil
  | cons c calls ih =>
    rw [lowTicks]
    cases calls with
    | nil => exact List.isChain_singleton _
    | cons c' calls =>
      have hle : c.lowTick n ≤ c'.lowTick (c.endTick n) := by
        rw [NticksCall.lowTick, NticksCall.lowTick, NticksCall.endTick]
        split_ifs <;> omega
      exact List.isChain_cons_cons.mpr ⟨hle, ih (c.endTick n)⟩

end Hal

def LEDR_BASE : BitVec 32 := 0x30050#32

def LEDG_BASE : BitVec 32 := 0x30040#32

def ledStore (base state : BitVec 32) : Store :=
  iowrAlteraAvalonPioData base (if state ≠ 0#32 then 0xF#32 else 0x0#32)

section Program

variable {τ : Type*} [Sub τ] [LE τ] [DecidableLE τ]

/-- The locals of `main` for one colour, such as `last_red` and `red_state`. -/
structure Led (τ : Type*) where
  last : τ
  state : BitVec 32

/-- The block of the loop for one colour. -/
def Led.poll (base : BitVec 32) (interval now : τ) (led : Led τ) : Led τ × List Store :=
  if interval ≤ now - led.last then
    let state := led.state ^^^ 1#32
    (⟨now, state⟩, [ledStore base state])
  else (led, [])

/-- The stores of each turn of the loop, over any type of times. -/
def loop (redInterval greenInterval : τ) : Led τ → Led τ → List τ → List (List Store)
  | _, _, [] => []
  | red, green, now :: polls =>
    let (red', redStores) := red.poll LEDR_BASE redInterval now
    let (green', greenStores) := green.poll LEDG_BASE greenInterval now
    (redStores ++ greenStores) :: loop redInterval greenInterval red' green' polls

/-- The stores before the loop and those of each turn. The first reading sets `last_red` and
`last_green`, and every further one is the `now` of a turn. -/
def run (redInterval greenInterval : τ) (times : List τ) : List (List Store) :=
  [iowrAlteraAvalonPioData LEDR_BASE 0x0#32, iowrAlteraAvalonPioData LEDG_BASE 0x0#32] ::
    match times with
    | [] => []
    | start :: polls => loop redInterval greenInterval ⟨start, 0#32⟩ ⟨start, 0#32⟩ polls

end Program

/-- `main`, with what `alt_ticks_per_second()` and the calls of `alt_nticks()` return. -/
def main (ticksPerSec : BitVec 32) (times : List (BitVec 32)) : List (List Store) :=
  run (ticksPerSec / 2#32) (ticksPerSec / 4#32) times

open PolledTimer

/-- The stores of one colour, from its state and whether its block is taken in each turn. -/
def toggleStores (base : BitVec 32) : BitVec 32 → List Bool → List (List Store)
  | _, [] => []
  | state, true :: taken => [ledStore base (state ^^^ 1#32)] :: toggleStores base (state ^^^ 1#32) taken
  | state, false :: taken => [] :: toggleStores base state taken

section Timers

variable {τ : Type*} [Sub τ] [LE τ] [DecidableLE τ]

lemma toggleStores_fires (base : BitVec 32) (interval now : τ) (led : Led τ) (polls : List τ) :
    toggleStores base led.state (fires interval led.last (now :: polls)) =
      (led.poll base interval now).2 :: toggleStores base (led.poll base interval now).1.state
        (fires interval (led.poll base interval now).1.last polls) := by
  rw [fires, next, Led.poll]
  by_cases hdue : interval ≤ now - led.last
  · rw [if_pos hdue, if_pos hdue, decide_eq_true hdue, toggleStores]
  · rw [if_neg hdue, if_neg hdue, decide_eq_false hdue, toggleStores]

/-- The loop is the two polled timers side by side. -/
lemma loop_eq_zipWith (redInterval greenInterval : τ) (red green : Led τ) (polls : List τ) :
    loop redInterval greenInterval red green polls =
      List.zipWith (· ++ ·)
        (toggleStores LEDR_BASE red.state (fires redInterval red.last polls))
        (toggleStores LEDG_BASE green.state (fires greenInterval green.last polls)) := by
  induction polls generalizing red green with
  | nil => rfl
  | cons now polls ih =>
    rw [toggleStores_fires, toggleStores_fires, List.zipWith_cons_cons, ← ih]
    rfl

lemma run_congr {σ : Type*} [Sub σ] [LE σ] [DecidableLE σ] {redInterval greenInterval : τ}
    {redInterval' greenInterval' : σ} {start : τ} {start' : σ} {polls : List τ} {polls' : List σ}
    (hred : fires redInterval start polls = fires redInterval' start' polls')
    (hgreen : fires greenInterval start polls = fires greenInterval' start' polls') :
    run redInterval greenInterval (start :: polls) =
      run redInterval' greenInterval' (start' :: polls') := by
  rw [run, run, loop_eq_zipWith, loop_eq_zipWith, hred, hgreen]

end Timers

end LedBlink

end VecadNiosv
