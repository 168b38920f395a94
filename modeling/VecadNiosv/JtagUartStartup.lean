import VecadNiosv.JtagUartQueues

/-!
# The JTAG UART driver as the board starts it

The driver asks for an alarm to watch the host, but it is initialised before the timer that drives
the alarms. No alarm is registered, so the host never counts as inactive, and calls that wait for
the device wait for as long as it takes.
-/

namespace VecadNiosv

namespace JtagUart

open RingBuffer EventRun

def NIOSV_INTERNAL_TIMER_TICKS_PER_SECOND : BitVec 32 := 1000#32

/-- What the initialisers set up: `_alt_tick_rate` and the driver. -/
structure Startup where
  tickRate : BitVec 32
  driver : Option System

namespace Startup

/-- The static memory before `alt_sys_init`. -/
def reset : Startup := ⟨0#32, none⟩

/-- `alt_sysclk_init`, which keeps a rate that is set already. -/
def altSysclkInit (st : Startup) (nticks : BitVec 32) : Startup :=
  if st.tickRate = 0#32 then { st with tickRate := nticks } else st

/-- `ALTERA_AVALON_JTAG_UART_INIT`. -/
def jtagUartInit (st : Startup) : Startup := { st with driver := some (System.init st.tickRate) }

/-- `INTEL_NIOSV_G_INIT`, as far as the tick rate. -/
def niosvInit (st : Startup) : Startup := st.altSysclkInit NIOSV_INTERNAL_TIMER_TICKS_PER_SECOND

def altSysInit (st : Startup) : Startup := st.jtagUartInit.niosvInit

end Startup

/-- The call has no reason to stop waiting. -/
def Thread.Patient (sp : State) : Thread → Prop
  | .read _ (.recheck inn) => inn ≠ sp.rxIn
  | .read fr .finish => fr.buffer ≠ [] ∨ fr.nonblock = true ∨ fr.space = 0
  | .write fr .finish => fr.nonblock = true ∨ fr.data.length ≤ fr.sent
  | _ => True

/-- The call has returned as it does when the host is never inactive. -/
def Done.Patient : Done → Prop
  | .read space nonblock bytes result =>
    nonblock = true ∨ space = 0 ∨ (bytes ≠ [] ∧ result = .ok bytes.length)
  | .write data nonblock sent _ => nonblock = true ∨ data.length ≤ sent
  | .close nonblock result => nonblock = true ∨ result = .ok 0
  | .ioctl _ result => result = .error .enotty

structure System.Unwatched (s : System) : Prop where
  alarm : s.alarm = false
  timeout : s.sp.timeout = INT_MAX
  hostInactive : s.sp.hostInactive = 0
  thread : s.thread.Patient s.sp
  done : ∀ d ∈ s.done, d.Patient

lemma System.Unwatched.init : (System.init 0#32).Unwatched where
  alarm := rfl
  timeout := rfl
  hostInactive := rfl
  thread := trivial
  done := by
    intro d hd
    exact absurd hd List.not_mem_nil

/-- The handler leaves the watch alone. -/
structure SameWatch (sp sp' : State) : Prop where
  timeout : sp'.timeout = sp.timeout
  hostInactive : sp'.hostInactive = sp.hostInactive

namespace SameWatch

variable {sp mid sp' : State}

lemma refl (sp : State) : SameWatch sp sp := ⟨rfl, rfl⟩

lemma trans (h : SameWatch sp mid) (h' : SameWatch mid sp') : SameWatch sp sp' :=
  ⟨h'.timeout.trans h.timeout, h'.hostInactive.trans h.hostInactive⟩

end SameWatch

namespace State

lemma sameWatch_receiveLoop {sp sp' : State} {data data' : BitVec 32} {loads : List (BitVec 32)}
    (h : sp.receiveLoop data loads = some (sp', data')) : SameWatch sp sp' := by
  induction loads generalizing sp data with
  | nil =>
    rw [receiveLoop] at h
    split_ifs at h
    obtain ⟨rfl, -⟩ := Prod.mk.inj (Option.some.inj h)
    exact SameWatch.refl sp
  | cons word loads ih =>
    rw [receiveLoop] at h
    split_ifs at h
    · obtain ⟨rfl, -⟩ := Prod.mk.inj (Option.some.inj h)
      exact SameWatch.refl sp
    · have hpush : SameWatch sp (sp.pushRx word) := ⟨rfl, rfl⟩
      exact hpush.trans (ih h)

lemma sameWatch_readTurn {sp sp' : State} {turn : IrqTurn} {log : List Access}
    (h : sp.readTurn turn = some (sp', log)) : SameWatch sp sp' := by
  rw [readTurn, receiveIrq] at h
  split_ifs at h
  · split at h
    · exact absurd h (by simp)
    · rename_i mid data hloop
      have hsame := sameWatch_receiveLoop hloop
      split_ifs at h
      · obtain ⟨rfl, -⟩ := Prod.mk.inj (Option.some.inj h)
        exact ⟨hsame.timeout, hsame.hostInactive⟩
      · obtain ⟨rfl, -⟩ := Prod.mk.inj (Option.some.inj h)
        exact hsame
  · obtain ⟨rfl, -⟩ := Prod.mk.inj (Option.some.inj h)
    exact SameWatch.refl sp

lemma sameWatch_transmitLoop (space : ℕ) (sp : State) : SameWatch sp (transmitLoop space sp).1 := by
  induction space generalizing sp with
  | zero => exact SameWatch.refl sp
  | succ space ih =>
    rw [transmitLoop]
    split_ifs
    · exact SameWatch.refl sp
    · have hnext := ih { sp with txOut := (sp.txOut + 1) % BUF_LEN }
      exact ⟨hnext.timeout, hnext.hostInactive⟩

lemma sameWatch_writeTurn (sp : State) (turn : IrqTurn) : SameWatch sp (sp.writeTurn turn).1 := by
  have hloop := sameWatch_transmitLoop (wspace turn.control) sp
  rw [writeTurn, transmitIrq]
  dsimp only
  split_ifs
  · exact ⟨hloop.timeout, hloop.hostInactive⟩
  · exact hloop
  · exact SameWatch.refl sp

lemma sameWatch_irq {sp sp' : State} {turns : List IrqTurn} {log : List Access}
    (h : sp.irq turns = some (sp', log)) : SameWatch sp sp' := by
  induction turns generalizing sp log with
  | nil => exact absurd h (by simp [irq])
  | cons turn turns ih =>
    rcases irq_cons_eq_some h with ⟨rfl, -⟩ | ⟨mid, loads, rest, hread, hrest, -⟩
    · exact SameWatch.refl sp'
    · exact (sameWatch_readTurn hread).trans ((sameWatch_writeTurn mid turn).trans (ih hrest))

end State

/-- What a step of the thread does when the watch is off. -/
structure Waited (sp : State) (o : Outcome) : Prop where
  watch : SameWatch sp o.sp
  thread : o.thread.Patient o.sp
  done : ∀ d ∈ o.done, d.Patient

lemma Waited.of_thread {sp : State} {th : Thread} {log : List Access} (h : th.Patient sp) :
    Waited sp ⟨sp, th, log, []⟩ :=
  ⟨SameWatch.refl sp, h, fun _ hd => absurd hd List.not_mem_nil⟩

lemma Waited.of_done {sp sp' : State} {d : Done} {log : List Access} (hwatch : SameWatch sp sp')
    (h : d.Patient) : Waited sp ⟨sp', .idle, log, [d]⟩ :=
  ⟨hwatch, trivial, fun _ hd => List.mem_singleton.mp hd ▸ h⟩

section Waits

variable {sp : State} (htimeout : sp.timeout = INT_MAX) (hhost : sp.hostInactive = 0)
include htimeout hhost

lemma host_lt_timeout : sp.hostInactive < sp.timeout := by
  rw [htimeout, hhost]
  decide

lemma waited_read {fr : ReadFrame} {pc : ReadPc} (h : (Thread.read fr pc).Patient sp) :
    Waited sp (fr.step sp pc) := by
  cases pc with
  | outer =>
    rw [ReadFrame.step]
    split_ifs with hspace
    · exact Waited.of_thread trivial
    · exact Waited.of_thread (.inr (.inr (by omega)))
  | loadIn => exact Waited.of_thread trivial
  | loadOut inn =>
    rw [ReadFrame.step]
    split_ifs
    · exact Waited.of_thread trivial
    · exact Waited.of_thread trivial
  | copy inn out n i =>
    rw [ReadFrame.step]
    split_ifs
    · exact Waited.of_thread trivial
    · exact Waited.of_thread trivial
  | storeOut inn out n =>
    rw [ReadFrame.step]
    refine ⟨⟨rfl, rfl⟩, ?_, fun _ hd => absurd hd List.not_mem_nil⟩
    split_ifs <;> trivial
  | afterLoop inn =>
    rw [ReadFrame.step]
    split_ifs with hdone
    · exact Waited.of_thread (hdone.imp_right .inl)
    · exact Waited.of_thread trivial
  | spin inn =>
    rw [ReadFrame.step]
    split_ifs with heq
    · exact Waited.of_thread trivial
    · exact Waited.of_thread heq
  | spinHost inn =>
    rw [ReadFrame.step, if_pos (host_lt_timeout htimeout hhost)]
    exact Waited.of_thread trivial
  | recheck inn =>
    rw [ReadFrame.step, if_neg h]
    exact Waited.of_thread trivial
  | finish =>
    have hdone : (Done.read (fr.space + fr.buffer.length) fr.nonblock fr.buffer fr.result).Patient := by
      by_cases hne : fr.buffer ≠ []
      · exact .inr (.inr ⟨hne, if_pos hne⟩)
      · rcases h.resolve_left hne with hnonblock | hspace
        · exact .inl hnonblock
        · rw [not_not.mp hne, hspace]
          exact .inr (.inl rfl)
    rw [ReadFrame.step]
    split_ifs
    · exact Waited.of_done ⟨rfl, rfl⟩ hdone
    · exact Waited.of_done (SameWatch.refl sp) hdone

lemma waited_write {fr : WriteFrame} {pc : WritePc} (h : (Thread.write fr pc).Patient sp) :
    Waited sp (fr.step sp pc) := by
  have hnone (d : Done) (hd : d ∈ []) : d.Patient := absurd hd List.not_mem_nil
  cases pc with
  | fill out =>
    rw [WriteFrame.step]
    split_ifs
    · exact Waited.of_thread trivial
    · exact Waited.of_thread trivial
  | loadOut inn =>
    rw [WriteFrame.step]
    split_ifs
    · exact Waited.of_thread trivial
    · exact Waited.of_thread trivial
  | copy inn out n i =>
    rw [WriteFrame.step]
    split_ifs
    · exact ⟨⟨rfl, rfl⟩, trivial, hnone⟩
    · exact Waited.of_thread trivial
  | storeIn inn out n => exact ⟨⟨rfl, rfl⟩, trivial, hnone⟩
  | kick out => exact ⟨⟨rfl, rfl⟩, trivial, hnone⟩
  | blocked out =>
    rw [WriteFrame.step]
    split_ifs with hwait
    · exact Waited.of_thread trivial
    · apply Waited.of_thread
      by_cases hleft : fr.data.length ≤ fr.sent
      · exact .inr hleft
      · left
        by_contra hblock
        exact hwait ⟨by omega, hblock⟩
  | spin out =>
    rw [WriteFrame.step]
    split_ifs
    · exact Waited.of_thread trivial
    · exact Waited.of_thread trivial
  | spinHost out =>
    rw [WriteFrame.step, if_pos (host_lt_timeout htimeout hhost)]
    exact Waited.of_thread trivial
  | checkHost out =>
    rw [WriteFrame.step, if_neg (not_not_intro hhost)]
    exact Waited.of_thread trivial
  | finish => exact Waited.of_done (SameWatch.refl sp) h

lemma waited_thread {th : Thread} (h : th.Patient sp) {o : Outcome} (ho : th.step sp = some o) :
    Waited sp o := by
  cases th with
  | idle => exact absurd ho (by simp [Thread.step])
  | read fr pc => exact Option.some.inj ho ▸ waited_read htimeout hhost h
  | write fr pc => exact Option.some.inj ho ▸ waited_write htimeout hhost h
  | close nonblock =>
    rw [Thread.step] at ho
    split_ifs at ho
    · exact Option.some.inj ho ▸ Waited.of_thread trivial
    · exact Option.some.inj ho ▸ Waited.of_done (SameWatch.refl sp) (.inr rfl)
  | closeHost nonblock =>
    rw [Thread.step, if_pos (host_lt_timeout htimeout hhost)] at ho
    split_ifs at ho with hnonblock
    · exact Option.some.inj ho ▸ Waited.of_done (SameWatch.refl sp) (.inl hnonblock)
    · exact Option.some.inj ho ▸ Waited.of_thread trivial
  | ioctl req =>
    have hioctl : sp.ioctl req = (sp, .error .enotty) := by
      cases req <;> rw [State.ioctl]
      · rw [if_neg (not_not_intro htimeout)]
      · rw [if_neg (not_not_intro htimeout)]
    rw [Thread.step, hioctl] at ho
    exact Option.some.inj ho ▸ Waited.of_done (SameWatch.refl sp) rfl

end Waits

lemma Thread.Patient.served {sp sp' : State} {th : Thread} (h : th.Patient sp) (hs : th.Sound sp)
    (hb : sp.InBounds) {log : List Access} (hserved : Served sp log sp') : th.Patient sp' := by
  cases th with
  | read fr pc =>
    cases pc with
    | recheck inn =>
      intro heq
      have hnil : sp'.rx = [] := by
        rw [State.rx_eq_nil_iff hserved.inBounds, hserved.rxOut, ← heq]
        exact hs.2.symm
      rw [hserved.rx, List.append_eq_nil_iff, State.rx_eq_nil_iff hb] at hnil
      exact h (hs.2.trans hnil.1)
    | _ => exact h
  | write fr pc => cases pc <;> exact h
  | _ => exact h

lemma System.Unwatched.step {s s' : System} (h : s.Unwatched) (hsound : s.Sound) {e : Event}
    (hstep : s.step e = some s') : s'.Unwatched := by
  rcases System.step_cases hstep with ⟨turns, sp, log, -, hirq, rfl⟩ | ⟨control, -, halarm, -⟩ |
    ⟨c, -, -, rfl⟩ | ⟨o, -, ho, rfl⟩
  · have hserved := State.served_irq hsound.inBounds hirq
    have hsame := State.sameWatch_irq hirq
    exact ⟨h.alarm, hsame.timeout.trans h.timeout, hsame.hostInactive.trans h.hostInactive,
      h.thread.served hsound.thread hsound.inBounds hserved, h.done⟩
  · exact absurd halarm (by rw [h.alarm]; decide)
  · refine ⟨h.alarm, h.timeout, h.hostInactive, ?_, h.done⟩
    cases c <;> trivial
  · have hwaited := waited_thread h.timeout h.hostInactive h.thread ho
    refine ⟨h.alarm, hwaited.watch.timeout.trans h.timeout,
      hwaited.watch.hostInactive.trans h.hostInactive, hwaited.thread, ?_⟩
    intro d hd
    exact (List.mem_append.mp hd).elim (h.done d) (hwaited.done d)

/-- On the board the host is never found inactive: the alarm that should watch it is not registered.
A read that may block returns bytes, or never returns, a write that may block takes all the bytes of
its caller, and `ioctl` is refused. -/
theorem host_never_watched (s₀ s : System) (events : List Event)
    (hinit : Startup.reset.altSysInit.driver = some s₀)
    (hrun : run System.step s₀ events = some s) :
    s.alarm = false ∧ s.sp.hostInactive = 0 ∧ ∀ d ∈ s.done, d.Patient := by
  obtain rfl := Option.some.inj hinit
  have hboth := invariant (fun s e s' (h : s.Sound ∧ s.Unwatched) hstep =>
    ⟨h.1.step hstep, h.2.step h.1 hstep⟩) ⟨System.Sound.init 0#32, System.Unwatched.init⟩ hrun
  exact ⟨hboth.2.alarm, hboth.2.hostInactive, hboth.2.done⟩

theorem host_never_watched_echoRun : ∃ s₀ s, Startup.reset.altSysInit.driver = some s₀ ∧
    run System.step s₀ echoRun = some s ∧ s.done.length = 2 ∧
    s.alarm = false ∧ s.sp.hostInactive = 0 ∧ ∀ d ∈ s.done, d.Patient :=
  ⟨_, _, rfl, rfl, rfl, host_never_watched _ _ echoRun rfl rfl⟩

end JtagUart

end VecadNiosv
