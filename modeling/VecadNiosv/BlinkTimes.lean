import VecadNiosv.BlinkCadence

/-!
# When the LEDs toggle and what their registers hold

A toggle comes at the first poll at which its interval has elapsed, so each one is early by nothing
and late by less than the gap between polls. The state that the program toggles is the parity of
its toggles, and the data register of the LEDs shows that state at every head of the loop.
-/

namespace VecadNiosv

namespace LedBlink

open PolledTimer

/-- The data registers of the two 4-bit PIOs, which drive the LEDs. -/
structure LedRegs where
  ledr : BitVec 4
  ledg : BitVec 4
  deriving DecidableEq, Repr

namespace LedRegs

def reset : LedRegs := ⟨0x0#4, 0x0#4⟩

/-- The bus routes a store to the data register at its address. -/
def store (p : LedRegs) (st : Store) : LedRegs where
  ledr := if st.address = LEDR_BASE then st.data.setWidth 4 else p.ledr
  ledg := if st.address = LEDG_BASE then st.data.setWidth 4 else p.ledg

/-- The registers after the stores of a run. -/
def after (stores : List (List Store)) : LedRegs := stores.flatten.foldl store reset

end LedRegs

/-- The stores of `main` when the tick count is at `start` before the loop and then at each of the
polls. -/
def storesOf (ticksPerSec : BitVec 32) (start : ℤ) (polled : List ℤ) : List (List Store) :=
  main ticksPerSec ((start :: polled).map (BitVec.ofInt 32))

/-- The polls at which a run toggles the LEDs at a base. -/
def toggleTimes (base : BitVec 32) (polls : List ℤ) (stores : List (List Store)) : List ℤ :=
  ((polls.zip stores.tail).filter fun p => p.2.any (fun st => st.address = base)).map Prod.fst

/-- What a run says of the LEDs at a base, whose register a reader picks out: when the toggles come,
and what the register holds at each head of the loop. -/
structure LedContract (base : BitVec 32) (register : LedRegs → BitVec 4) (interval J start : ℤ)
    (samples : List ℤ) (stores : List ℤ → List (List Store)) : Prop where
  times : ∀ (k : ℕ) (T : ℤ), 1 ≤ k → (toggleTimes base samples (stores samples))[k - 1]? = some T →
    start + k * interval ≤ T ∧ T ≤ start + k * (interval + J - 1)
  level : ∀ polled, polled <+: samples → register (LedRegs.after (stores polled)) =
    if toggles base (stores polled) % 2 = 1 then 0xF#4 else 0x0#4
  everyTick : J = 1 → ∀ polled T, polled ++ [T] <+: samples →
    (register (LedRegs.after (stores (polled ++ [T]))) = 0xF#4 ↔ (T - start) / interval % 2 = 1)

lemma any_poll (base base' : BitVec 32) (interval now : ℤ) (led : Led ℤ) :
    (led.poll base interval now).2.any (fun st => st.address = base') =
      decide (base = base' ∧ interval ≤ now - led.last) := by
  rw [Led.poll]
  split_ifs with hdue
  · simp [ledStore_address, hdue]
  · simp [hdue]

lemma poll_last (base : BitVec 32) (interval now : ℤ) (led : Led ℤ) :
    (led.poll base interval now).1.last = next interval led.last now := by
  rw [Led.poll, next]
  split_ifs <;> rfl

lemma firings_cons (interval last now : ℤ) (polls : List ℤ) : firings interval last (now :: polls) =
    if interval ≤ now - last then now :: firings interval (next interval last now) polls
    else firings interval (next interval last now) polls := by
  rw [firings, next]
  split_ifs <;> rfl

/-- A colour toggles at the polls at which its timer fires. -/
lemma toggleTimes_loop (redInterval greenInterval : ℤ) (red green : Led ℤ) (polls : List ℤ)
    (prologue : List Store) :
    toggleTimes LEDR_BASE polls (prologue :: loop redInterval greenInterval red green polls) =
        firings redInterval red.last polls ∧
      toggleTimes LEDG_BASE polls (prologue :: loop redInterval greenInterval red green polls) =
        firings greenInterval green.last polls := by
  have hne : LEDG_BASE ≠ LEDR_BASE := by decide
  induction polls generalizing red green with
  | nil => exact ⟨rfl, rfl⟩
  | cons now polls ih =>
    have hrest := ih (red.poll LEDR_BASE redInterval now).1 (green.poll LEDG_BASE greenInterval now).1
    rw [poll_last, poll_last] at hrest
    rw [firings_cons, firings_cons, ← hrest.1, ← hrest.2]
    simp only [toggleTimes, loop, List.tail_cons, List.zip_cons_cons, List.filter_cons, List.any_append,
      any_poll, hne, hne.symm, true_and, false_and, decide_false, Bool.or_false, Bool.false_or,
      decide_eq_true_eq]
    constructor
    · split_ifs <;> rfl
    · split_ifs <;> rfl

def parity (n : ℕ) : BitVec 32 := if n % 2 = 1 then 1#32 else 0#32

def level (n : ℕ) : BitVec 4 := if n % 2 = 1 then 0xF#4 else 0x0#4

lemma parity_succ (n : ℕ) : parity n ^^^ 1#32 = parity (n + 1) := by
  unfold parity
  rcases Nat.mod_two_eq_zero_or_one n with hn | hn
  · rw [if_neg (by omega), if_pos (by omega)]
    rfl
  · rw [if_pos hn, if_neg (by omega)]
    rfl

lemma level_eq_iff (n : ℕ) : level n = 0xF#4 ↔ n % 2 = 1 := by
  unfold level
  split_ifs with hn <;> simp [hn]

lemma data_ledStore (base : BitVec 32) (n : ℕ) :
    (ledStore base (parity n)).data.setWidth 4 = level n := by
  unfold parity level
  split_ifs <;> rfl

lemma LedRegs.store_ledr (p : LedRegs) (n : ℕ) :
    p.store (ledStore LEDR_BASE (parity n)) = ⟨level n, p.ledg⟩ := by
  rw [LedRegs.store, ledStore_address, if_pos rfl, if_neg (by decide), data_ledStore]

lemma LedRegs.store_ledg (p : LedRegs) (n : ℕ) :
    p.store (ledStore LEDG_BASE (parity n)) = ⟨p.ledr, level n⟩ := by
  rw [LedRegs.store, ledStore_address, if_neg (by decide), if_pos rfl, data_ledStore]

/-- Each register follows the parity of its own toggles, and the other colour's stores leave it. -/
lemma LedRegs.foldl_toggleStores (red green : List Bool) (hlen : red.length = green.length)
    (n m : ℕ) :
    (List.zipWith (· ++ ·) (toggleStores LEDR_BASE (parity n) red)
        (toggleStores LEDG_BASE (parity m) green)).flatten.foldl LedRegs.store ⟨level n, level m⟩ =
      ⟨level (n + red.count true), level (m + green.count true)⟩ := by
  induction red generalizing green n m with
  | nil =>
    rw [List.length_eq_zero_iff.mp hlen.symm]
    rfl
  | cons b red ih =>
    cases green with
    | nil => exact absurd hlen (by simp)
    | cons b' green =>
      have hrest := ih green (Nat.succ.inj hlen)
      cases b <;> cases b' <;>
        simp only [toggleStores, parity_succ, List.zipWith_cons_cons, List.flatten_cons,
          List.nil_append, List.append_nil, List.cons_append, List.foldl_cons, LedRegs.store_ledr,
          LedRegs.store_ledg, hrest, List.count_cons_self, List.count_cons_of_ne, ne_eq,
          Bool.false_eq_true, not_false_eq_true, Nat.add_assoc, Nat.add_comm 1]

/-- At the head of the loop each register shows the parity of the toggles of its colour. -/
lemma LedRegs.after_run (redInterval greenInterval start : ℤ) (polls : List ℤ) :
    LedRegs.after (run redInterval greenInterval (start :: polls)) =
      ⟨level (toggles LEDR_BASE (run redInterval greenInterval (start :: polls))),
        level (toggles LEDG_BASE (run redInterval greenInterval (start :: polls)))⟩ := by
  obtain ⟨hred, hgreen⟩ := toggles_run redInterval greenInterval start polls
  have hlen : (fires redInterval start polls).length = (fires greenInterval start polls).length := by
    rw [length_fires, length_fires]
  have hloop := LedRegs.foldl_toggleStores _ _ hlen 0 0
  rw [count_fires, count_fires, Nat.zero_add, Nat.zero_add] at hloop
  rw [hred, hgreen, ← hloop, LedRegs.after, run, loop_eq_zipWith, List.flatten_cons,
    List.foldl_append]
  rfl

/-- A colour keeps the contract when its toggles are the firings of a timer and its register shows
their parity. -/
lemma ledContract_of_firings {base : BitVec 32} {register : LedRegs → BitVec 4}
    {interval J start : ℤ} {samples : List ℤ} {stores : List ℤ → List (List Store)}
    (hpos : 0 < interval) (hsamples : (start :: samples).IsChain (fun a b => a ≤ b ∧ b - a ≤ J))
    (htimes : toggleTimes base samples (stores samples) = firings interval start samples)
    (htoggles : ∀ polled,
      toggles base (stores polled) = (firings interval start polled).length)
    (hlevel : ∀ polled,
      register (LedRegs.after (stores polled)) = level (toggles base (stores polled))) :
    LedContract base register interval J start samples stores where
  times := by
    intro k T hk hT
    rw [htimes] at hT
    have hk' : ((k - 1 : ℕ) : ℤ) + 1 = k := by omega
    have hlower := (firings_spaced interval start samples).le_of_getElem? hT
    have hupper := firing_le hpos (Recent.self hpos start) (hsamples.imp (fun a b h => h.1))
      (hsamples.imp (fun a b h => h.2)) hT
    rw [nsmul_eq_mul, Nat.cast_add, Nat.cast_one, hk'] at hlower
    rw [hk'] at hupper
    exact ⟨hlower, hupper⟩
  level := by
    intro polled _
    exact hlevel polled
  everyTick := by
    intro hone polled T hpre
    have hchain := hsamples.prefix (List.cons_prefix_cons.mpr ⟨rfl, hpre⟩)
    have hcount := length_firings_of_every_tick hpos (Recent.self hpos start)
      (hchain.imp (fun a b h => h.1)) (hchain.imp (fun a b h => hone ▸ h.2))
    rw [List.getLast_cons (List.concat_ne_nil T polled), List.getLast_append_singleton] at hcount
    rw [hlevel, level_eq_iff, htoggles, ← hcount]
    omega

lemma LedContract.congr {base : BitVec 32} {register : LedRegs → BitVec 4} {interval J start : ℤ}
    {samples : List ℤ} {stores stores' : List ℤ → List (List Store)}
    (h : LedContract base register interval J start samples stores)
    (heq : ∀ polled, polled <+: samples → stores' polled = stores polled) :
    LedContract base register interval J start samples stores' where
  times := by
    rw [heq samples List.prefix_rfl]
    exact h.times
  level := by
    intro polled hpre
    rw [heq polled hpre]
    exact h.level polled hpre
  everyTick := by
    intro hone polled T hpre
    rw [heq _ hpre]
    exact h.everyTick hone polled T hpre

/-- The program over the integers keeps the contract of both colours. -/
lemma run_ledContract (redInterval greenInterval : ℤ) (hred : 0 < redInterval)
    (hgreen : 0 < greenInterval) {J start : ℤ} {samples : List ℤ}
    (hsamples : (start :: samples).IsChain (fun a b => a ≤ b ∧ b - a ≤ J)) :
    LedContract LEDR_BASE LedRegs.ledr redInterval J start samples
        (fun polled => run redInterval greenInterval (start :: polled)) ∧
      LedContract LEDG_BASE LedRegs.ledg greenInterval J start samples
        (fun polled => run redInterval greenInterval (start :: polled)) := by
  have htimes := toggleTimes_loop redInterval greenInterval ⟨start, 0#32⟩ ⟨start, 0#32⟩ samples
  have htoggles := toggles_run redInterval greenInterval start
  have hafter := LedRegs.after_run redInterval greenInterval start
  constructor
  · apply ledContract_of_firings hred hsamples (htimes _).1 (fun polled => (htoggles polled).1)
    intro polled
    rw [hafter]
  · apply ledContract_of_firings hgreen hsamples (htimes _).2 (fun polled => (htoggles polled).2)
    intro polled
    rw [hafter]

/-- Both colours of `main` toggle within the bounds of their intervals, and their registers show
the parity of the toggles. -/
theorem main_ledContract (ticksPerSec : BitVec 32) (hrate : 4 ≤ ticksPerSec.toNat) (J : ℤ)
    (hJ : J ≤ 2 ^ 32 - (ticksPerSec / 2#32).toNat) (start : ℤ) (samples : List ℤ)
    (hsamples : (start :: samples).IsChain (fun a b => a ≤ b ∧ b - a ≤ J)) :
    LedContract LEDR_BASE LedRegs.ledr (ticksPerSec / 2#32).toNat J start samples
        (storesOf ticksPerSec start) ∧
      LedContract LEDG_BASE LedRegs.ledg (ticksPerSec / 4#32).toNat J start samples
        (storesOf ticksPerSec start) := by
  have hredInterval : (ticksPerSec / 2#32).toNat = ticksPerSec.toNat / 2 := rfl
  have hgreenInterval : (ticksPerSec / 4#32).toNat = ticksPerSec.toNat / 4 := rfl
  have hstores (polled : List ℤ) (hpre : polled <+: samples) : storesOf ticksPerSec start polled =
      run ((ticksPerSec / 2#32).toNat : ℤ) ((ticksPerSec / 4#32).toNat : ℤ) (start :: polled) := by
    have hchain := hsamples.prefix (List.cons_prefix_cons.mpr ⟨rfl, hpre⟩)
    exact main_ofInt hrate hJ hchain
  obtain ⟨hred, hgreen⟩ := run_ledContract (ticksPerSec / 2#32).toNat (ticksPerSec / 4#32).toNat
    (by omega) (by omega) hsamples
  exact ⟨hred.congr hstores, hgreen.congr hstores⟩

theorem main_ledContract_late_polls :
    LedContract LEDR_BASE LedRegs.ledr 4 3 (-1) [2, 3, 3, 5, 8] (storesOf 8#32 (-1)) ∧
      LedContract LEDG_BASE LedRegs.ledg 2 3 (-1) [2, 3, 3, 5, 8] (storesOf 8#32 (-1)) :=
  main_ledContract 8#32 (by decide) 3 (by decide) (-1) [2, 3, 3, 5, 8] (by decide)

end LedBlink

end VecadNiosv
