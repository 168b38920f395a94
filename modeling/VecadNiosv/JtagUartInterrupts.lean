import VecadNiosv.JtagUartQueues
import VecadNiosv.Library.Masks

/-!
# The interrupt enables of the JTAG UART driver

The handler turns off an interrupt that it cannot serve, and the calls turn it on again once there
is something to serve. In every run an interrupt is off only while it has nothing to do or a call
is on its way to turn it on, so a call that waits for the device does not wait for an interrupt
that cannot come. The device has room for every byte that the handler stores.
-/

namespace VecadNiosv

namespace JtagUart

open RingBuffer EventRun Masks

/-- The word of CONTROL after a log of accesses. -/
def controlAfter (control : BitVec 32) (log : List Access) : BitVec 32 :=
  log.foldl (fun word access => match access with
    | .storeControl word' => word'
    | _ => word) control

def ENABLE_MSK : BitVec 32 := CONTROL_RE_MSK ||| CONTROL_WE_MSK

namespace State

/-- Bytes that arrive interrupt the processor, unless the receive buffer has some for the next
read. -/
def RxArmed (sp : State) : Prop := sp.irqEnable &&& CONTROL_RE_MSK ≠ 0#32 ∨ sp.rx ≠ []

/-- Room at the device interrupts the processor, unless there is nothing to send. -/
def TxArmed (sp : State) : Prop := sp.irqEnable &&& CONTROL_WE_MSK ≠ 0#32 ∨ sp.tx = []

end State

/-- A read that has bytes for its caller enables receive interrupts before it returns. -/
def Thread.EnablesRx : Thread → Prop
  | .read fr _ => fr.buffer ≠ []
  | _ => False

/-- A write that has not kicked the handler yet is going to do so. -/
def Thread.EnablesTx : Thread → Prop
  | .write _ (.fill _) => True
  | .write _ (.loadOut _) => True
  | .write _ (.copy _ _ _ _) => True
  | .write _ (.storeIn _ _ _) => True
  | .write _ (.kick _) => True
  | _ => False

/-- The device counts the characters that remain, so a word without a character has none. -/
def IrqTurn.WellFormed (turn : IrqTurn) : Prop :=
  ∀ word ∈ turn.data, word &&& DATA_RVALID_MSK = 0#32 → word &&& DATA_RAVAIL_MSK = 0#32

def Event.WellFormed : Event → Prop
  | .irq turns => ∀ turn ∈ turns, turn.WellFormed
  | _ => True

/-- What the handler does to the enables: CONTROL follows the copy of its enable bits, and nothing
is disarmed. -/
structure Switched (sp : State) (log : List Access) (sp' : State) : Prop where
  control : ∀ word, word &&& ENABLE_MSK = sp.irqEnable →
    controlAfter word log &&& ENABLE_MSK = sp'.irqEnable
  rxArmed : sp.RxArmed → sp'.RxArmed
  txArmed : sp.TxArmed → sp'.TxArmed

namespace Switched

variable {sp mid sp' : State} {log log' : List Access}

lemma refl (sp : State) : Switched sp [] sp := ⟨fun _ hword => hword, id, id⟩

lemma trans (h : Switched sp log mid) (h' : Switched mid log' sp') :
    Switched sp (log ++ log') sp' where
  control := by
    intro word hword
    rw [controlAfter, List.foldl_append]
    exact h'.control _ (h.control word hword)
  rxArmed harmed := h'.rxArmed (h.rxArmed harmed)
  txArmed harmed := h'.txArmed (h.txArmed harmed)

/-- A handler that leaves the enables alone lets the receive queue grow and the other shrink. -/
lemma of_served (hserved : Served sp log sp') (henable : sp'.irqEnable = sp.irqEnable)
    (hlog : ∀ word, controlAfter word log = word) : Switched sp log sp' where
  control := by
    intro word hword
    rw [hlog, henable]
    exact hword
  rxArmed := by
    rintro (hre | hne)
    · exact .inl (henable ▸ hre)
    · refine .inr ?_
      rw [hserved.rx]
      exact List.append_ne_nil_of_left_ne_nil hne _
  txArmed := by
    rintro (hwe | hnil)
    · exact .inl (henable ▸ hwe)
    · refine .inr ?_
      rw [hserved.tx, List.append_eq_nil_iff] at hnil
      exact hnil.2

end Switched

lemma controlAfter_loads (loads : List (BitVec 32)) (word : BitVec 32) :
    controlAfter word (loads.map .loadData) = word := by
  induction loads with
  | nil => rfl
  | cons data loads ih => exact ih

lemma controlAfter_stores (sent : List (BitVec 8)) (word : BitVec 32) :
    controlAfter word (sent.map fun b => .storeData (b.setWidth 32)) = word := by
  induction sent with
  | nil => rfl
  | cons b sent ih => exact ih

namespace State

lemma receiveLoop_irqEnable {sp sp' : State} {data data' : BitVec 32} {loads : List (BitVec 32)}
    (h : sp.receiveLoop data loads = some (sp', data')) : sp'.irqEnable = sp.irqEnable := by
  induction loads generalizing sp data with
  | nil =>
    rw [receiveLoop] at h
    split_ifs at h
    obtain ⟨rfl, -⟩ := Prod.mk.inj (Option.some.inj h)
    rfl
  | cons word loads ih =>
    rw [receiveLoop] at h
    split_ifs at h
    · obtain ⟨rfl, -⟩ := Prod.mk.inj (Option.some.inj h)
      rfl
    · exact (ih h).trans rfl

/-- The loop ends because the buffer is full or the device has no more characters. -/
lemma receiveLoop_ends {sp sp' : State} {data data' : BitVec 32} {loads : List (BitVec 32)}
    (hloads : ∀ word ∈ loads, word &&& DATA_RVALID_MSK = 0#32 → word &&& DATA_RAVAIL_MSK = 0#32)
    (h : sp.receiveLoop data loads = some (sp', data')) :
    (sp'.rxIn + 1) % BUF_LEN = sp'.rxOut ∨ data' &&& DATA_RAVAIL_MSK = 0#32 := by
  induction loads generalizing sp data with
  | nil =>
    rw [receiveLoop] at h
    split_ifs at h with hfull
    obtain ⟨rfl, -⟩ := Prod.mk.inj (Option.some.inj h)
    exact .inl hfull
  | cons word loads ih =>
    rw [receiveLoop] at h
    split_ifs at h with hfull hvalid hlast
    · obtain ⟨-, rfl⟩ := Prod.mk.inj (Option.some.inj h)
      exact .inr (hloads word List.mem_cons_self hvalid)
    · exact ih (fun word' hword' => hloads word' (List.mem_cons_of_mem word hword')) h

lemma rx_ne_nil_of_full {sp : State} (hb : sp.InBounds) (hfull : (sp.rxIn + 1) % BUF_LEN = sp.rxOut) :
    sp.rx ≠ [] := by
  intro hnil
  have hlen : sp.rx.length = 0 := by rw [hnil, List.length_nil]
  rw [rx, length_contents] at hlen
  have hone := (full_iff hb.rxOut hb.rxIn).mp hfull
  rw [hlen] at hone
  exact absurd hone (by decide)

lemma switched_receiveIrq {sp sp' : State} (hb : sp.InBounds) {loads : List (BitVec 32)}
    (hloads : ∀ word ∈ loads, word &&& DATA_RVALID_MSK = 0#32 → word &&& DATA_RAVAIL_MSK = 0#32)
    {log : List Access} (h : sp.receiveIrq loads = some (sp', log)) : Switched sp log sp' := by
  rw [receiveIrq] at h
  split at h
  · exact absurd h (by simp)
  · rename_i mid data hloop
    have hserved := served_receiveLoop hb hloop
    have hmid := Switched.of_served hserved (receiveLoop_irqEnable hloop) (controlAfter_loads loads)
    split_ifs at h with havail
    · obtain ⟨rfl, rfl⟩ := Prod.mk.inj (Option.some.inj h)
      have hfull := (receiveLoop_ends hloads hloop).resolve_right havail
      apply hmid.trans
      have hne : mid.rx ≠ [] := rx_ne_nil_of_full hserved.inBounds hfull
      refine ⟨fun word hword => and_not_and_of_and_eq hword _, fun _ => .inr hne, ?_⟩
      rintro (hwe | hnil)
      · left
        rwa [and_not_and_of_disjoint (by decide)]
      · exact .inr hnil
    · obtain ⟨rfl, rfl⟩ := Prod.mk.inj (Option.some.inj h)
      exact hmid

lemma transmitLoop_irqEnable (space : ℕ) (sp : State) :
    (transmitLoop space sp).1.irqEnable = sp.irqEnable := by
  induction space generalizing sp with
  | zero => rfl
  | succ space ih =>
    rw [transmitLoop]
    split_ifs
    · rfl
    · exact ih _

/-- The loop leaves space at the device only when the buffer has run empty. -/
lemma transmitLoop_ends (space : ℕ) {sp : State} (hb : sp.InBounds)
    (h : 0 < space - (transmitLoop space sp).2.length) : (transmitLoop space sp).1.tx = [] := by
  induction space generalizing sp with
  | zero => omega
  | succ space ih =>
    rw [transmitLoop] at h ⊢
    split_ifs at h ⊢ with hempty
    · rw [tx, hempty]
      exact contents_self hb.txIn _
    · have hb' : ({ sp with txOut := (sp.txOut + 1) % BUF_LEN } : State).InBounds :=
        ⟨hb.rxIn, hb.rxOut, hb.txIn, mod_BUF_LEN_lt _⟩
      apply ih hb'
      simp only [List.length_cons] at h
      omega

lemma switched_transmitIrq {sp : State} (hb : sp.InBounds) (control : BitVec 32) :
    Switched sp (sp.transmitIrq control).2 (sp.transmitIrq control).1 := by
  have hserved := served_transmitLoop (wspace control) hb
  have hloop := Switched.of_served hserved (transmitLoop_irqEnable _ sp)
    (controlAfter_stores (transmitLoop (wspace control) sp).2)
  rw [transmitIrq]
  dsimp only
  split_ifs with hspace
  · have hempty := transmitLoop_ends (wspace control) hb hspace
    apply hloop.trans
    refine ⟨fun word hword => and_not_and_of_and_eq hword _, ?_, fun _ => .inr hempty⟩
    rintro (hre | hne)
    · left
      rwa [and_not_and_of_disjoint (by decide)]
    · exact .inr hne
  · exact hloop

lemma switched_readTurn {sp sp' : State} (hb : sp.InBounds) {turn : IrqTurn}
    (hturn : turn.WellFormed) {log : List Access} (h : sp.readTurn turn = some (sp', log)) :
    Switched sp log sp' := by
  rw [readTurn] at h
  split_ifs at h with hread hdata
  · exact switched_receiveIrq hb hturn h
  · obtain ⟨rfl, rfl⟩ := Prod.mk.inj (Option.some.inj h)
    exact Switched.refl sp

lemma switched_writeTurn {sp : State} (hb : sp.InBounds) (turn : IrqTurn) :
    Switched sp (sp.writeTurn turn).2 (sp.writeTurn turn).1 := by
  rw [writeTurn]
  split_ifs with hwrite
  · exact switched_transmitIrq hb turn.control
  · exact Switched.refl sp

lemma switched_irq {sp sp' : State} (hb : sp.InBounds) {turns : List IrqTurn}
    (hturns : ∀ turn ∈ turns, turn.WellFormed) {log : List Access}
    (h : sp.irq turns = some (sp', log)) : Switched sp log sp' := by
  induction turns generalizing sp log with
  | nil => exact absurd h (by simp [irq])
  | cons turn turns ih =>
    have hcontrol (sp : State) : Switched sp [.loadControl turn.control] sp :=
      ⟨fun _ hword => hword, id, id⟩
    rcases irq_cons_eq_some h with ⟨rfl, rfl⟩ | ⟨mid, loads, rest, hread, hrest, rfl⟩
    · exact hcontrol sp'
    · have hread' := served_readTurn hb hread
      have hwrite' := served_writeTurn hread'.inBounds turn
      have hfirst := switched_readTurn hb (hturns turn List.mem_cons_self) hread
      have hsecond := switched_writeTurn hread'.inBounds turn
      have hlast := ih hwrite'.inBounds
        (fun turn' hturn' => hturns turn' (List.mem_cons_of_mem turn hturn')) hrest
      exact (hcontrol sp).trans ((hfirst.trans hsecond).trans hlast)

lemma switched_timeoutCallback (sp : State) (control : BitVec 32) :
    Switched sp (sp.timeoutCallback control).2 (sp.timeoutCallback control).1 := by
  rw [timeoutCallback]
  split_ifs
  · refine ⟨?_, id, id⟩
    intro word hword
    have hac : sp.irqEnable &&& ENABLE_MSK = sp.irqEnable := by rw [← hword, BitVec.and_assoc]; rfl
    change (sp.irqEnable ||| CONTROL_AC_MSK) &&& ENABLE_MSK = sp.irqEnable
    rw [or_and_of_disjoint (by decide), hac]
  · exact ⟨fun _ hword => hword, id, id⟩
  · exact ⟨fun _ hword => hword, id, id⟩

end State

/-- A write that waits has bytes left and found the buffer full when it last loaded `tx_out`. -/
def Thread.FoundFull (sp : State) : Thread → Prop
  | .write fr (.kick out) | .write fr (.blocked out) =>
    fr.sent < fr.data.length → (sp.txIn + 1) % BUF_LEN = out
  | .write fr (.spin out) | .write fr (.spinHost out) =>
    fr.sent < fr.data.length ∧ (sp.txIn + 1) % BUF_LEN = out
  | _ => True

/-- What a step of the thread does to the enables. -/
structure Kept (sp : State) (th : Thread) (o : Outcome) : Prop where
  control : ∀ word, word &&& ENABLE_MSK = sp.irqEnable →
    controlAfter word o.log &&& ENABLE_MSK = o.sp.irqEnable
  rxArmed : sp.RxArmed ∨ th.EnablesRx → o.sp.RxArmed ∨ o.thread.EnablesRx
  txArmed : sp.TxArmed ∨ th.EnablesTx → o.sp.TxArmed ∨ o.thread.EnablesTx
  foundFull : o.thread.FoundFull o.sp

namespace Kept

variable {sp : State} {th th' : Thread} {done : List Done}

lemma of_locals (hrx : th.EnablesRx → th'.EnablesRx) (htx : th.EnablesTx → th'.EnablesTx)
    (hfull : th'.FoundFull sp) : Kept sp th ⟨sp, th', [], done⟩ where
  control _ hword := hword
  rxArmed := Or.imp_right hrx
  txArmed := Or.imp_right htx
  foundFull := hfull

end Kept

/-- Enabling one interrupt leaves the other one as it is. -/
lemma Kept.of_enable {sp : State} {th th' : Thread} {done : List Done} {mask : BitVec 32}
    (hmask : mask &&& ENABLE_MSK = mask)
    (hrx : mask &&& CONTROL_RE_MSK ≠ 0#32 ∨ (th.EnablesRx → th'.EnablesRx))
    (htx : mask &&& CONTROL_WE_MSK ≠ 0#32 ∨ (th.EnablesTx → th'.EnablesTx))
    (hfull : th'.FoundFull sp) :
    Kept sp th ⟨{ sp with irqEnable := sp.irqEnable ||| mask }, th',
      [.storeControl (sp.irqEnable ||| mask)], done⟩ where
  control := by
    intro word hword
    change (sp.irqEnable ||| mask) &&& ENABLE_MSK = sp.irqEnable ||| mask
    exact or_and_of_and_eq hword hmask
  rxArmed := by
    rintro harmed
    rcases hrx with hbit | hkeep
    · exact .inl (.inl (or_and_ne_zero_right hbit sp.irqEnable))
    · rcases harmed with (hre | hne) | henables
      · exact .inl (.inl (or_and_ne_zero_left hre mask))
      · exact .inl (.inr hne)
      · exact .inr (hkeep henables)
  txArmed := by
    rintro harmed
    rcases htx with hbit | hkeep
    · exact .inl (.inl (or_and_ne_zero_right hbit sp.irqEnable))
    · rcases harmed with (hwe | hnil) | henables
      · exact .inl (.inl (or_and_ne_zero_left hwe mask))
      · exact .inl (.inr hnil)
      · exact .inr (hkeep henables)
  foundFull := by
    cases th' with
    | write fr pc => cases pc <;> exact hfull
    | _ => trivial

lemma kept_read {sp : State} {fr : ReadFrame} {pc : ReadPc} (hs : pc.Sound sp fr) :
    Kept sp (.read fr pc) (fr.step sp pc) := by
  cases pc with
  | loadOut inn =>
    rw [ReadFrame.step]
    split_ifs
    · exact Kept.of_locals id id trivial
    · exact Kept.of_locals id id trivial
  | copy inn out n i =>
    rw [ReadFrame.step]
    split_ifs
    · exact Kept.of_locals (fun _ => by simp [Thread.EnablesRx]) id trivial
    · exact Kept.of_locals id id trivial
  | storeOut inn out n =>
    exact ⟨fun _ hword => hword, fun _ => .inr hs.buffer_ne_nil, id, trivial⟩
  | finish =>
    rw [ReadFrame.step]
    dsimp only
    split_ifs with hne
    · exact Kept.of_enable rfl (.inl (by decide)) (.inr id) trivial
    · exact Kept.of_locals (fun h => absurd h hne) id trivial
  | _ =>
    rw [ReadFrame.step]
    exact Kept.of_locals id id trivial

lemma kept_write {sp : State} (hb : sp.InBounds) {fr : WriteFrame} {pc : WritePc}
    (hs : pc.Sound sp fr) (hfull : (Thread.write fr pc).FoundFull sp) :
    Kept sp (.write fr pc) (fr.step sp pc) := by
  cases pc with
  | fill out =>
    rw [WriteFrame.step]
    split_ifs with hcount
    · exact Kept.of_locals id (fun _ => trivial) trivial
    · exact Kept.of_locals id (fun _ => trivial) (fun hlt => absurd hlt (by omega))
  | loadOut inn =>
    rw [WriteFrame.step]
    split_ifs with hzero
    · refine Kept.of_locals id (fun _ => trivial) ?_
      rw [hs.1] at hzero
      exact fun _ => (txSpace_eq_zero_iff hb.txIn hb.txOut).mp hzero
    · exact Kept.of_locals id (fun _ => trivial) trivial
  | copy inn out n i =>
    rw [WriteFrame.step]
    split_ifs
    · exact ⟨fun _ hword => hword, id, fun _ => .inr trivial, trivial⟩
    · exact Kept.of_locals id (fun _ => trivial) trivial
  | storeIn inn out n => exact ⟨fun _ hword => hword, id, fun _ => .inr trivial, trivial⟩
  | kick out => exact Kept.of_enable rfl (.inr id) (.inl (by decide)) hfull
  | blocked out =>
    rw [WriteFrame.step]
    split_ifs with hleft
    · exact Kept.of_locals id False.elim ⟨by omega, hfull (by omega)⟩
    · exact Kept.of_locals id False.elim trivial
  | spin out =>
    rw [WriteFrame.step]
    split_ifs
    · exact Kept.of_locals id False.elim hfull
    · exact Kept.of_locals id False.elim trivial
  | spinHost out =>
    rw [WriteFrame.step]
    split_ifs
    · exact Kept.of_locals id False.elim hfull
    · exact Kept.of_locals id False.elim trivial
  | checkHost out =>
    rw [WriteFrame.step]
    split_ifs
    · exact Kept.of_locals id False.elim trivial
    · exact Kept.of_locals id False.elim trivial
  | finish => exact Kept.of_locals id False.elim trivial

lemma kept_thread {sp : State} (hb : sp.InBounds) {th : Thread} (hs : th.Sound sp)
    (hfull : th.FoundFull sp) {o : Outcome} (h : th.step sp = some o) : Kept sp th o := by
  cases th with
  | idle => exact absurd h (by simp [Thread.step])
  | read fr pc => exact Option.some.inj h ▸ kept_read hs
  | write fr pc => exact Option.some.inj h ▸ kept_write hb hs hfull
  | close nonblock =>
    rw [Thread.step] at h
    split_ifs at h
    · exact Option.some.inj h ▸ Kept.of_locals False.elim False.elim trivial
    · exact Option.some.inj h ▸ Kept.of_locals False.elim False.elim trivial
  | closeHost nonblock =>
    rw [Thread.step] at h
    split_ifs at h
    · exact Option.some.inj h ▸ Kept.of_locals False.elim False.elim trivial
    · exact Option.some.inj h ▸ Kept.of_locals False.elim False.elim trivial
    · exact Option.some.inj h ▸ Kept.of_locals False.elim False.elim trivial
  | ioctl req =>
    obtain ⟨timeout, htimeout⟩ := ioctl_frame sp req
    have ho : o = ⟨{ sp with timeout }, .idle, [], [.ioctl req (sp.ioctl req).2]⟩ := by
      rw [← htimeout]
      exact (Option.some.inj h).symm
    subst ho
    exact ⟨fun _ hword => hword, id, id, trivial⟩

lemma Thread.FoundFull.of_txIn_eq {sp sp' : State} {th : Thread} (h : th.FoundFull sp)
    (heq : sp'.txIn = sp.txIn) : th.FoundFull sp' := by
  cases th with
  | write fr pc => cases pc <;> simp only [FoundFull, heq] <;> exact h
  | _ => trivial

lemma foundFull_step {s s' : System} (hsound : s.Sound) (h : s.thread.FoundFull s.sp) {e : Event}
    (hstep : s.step e = some s') : s'.thread.FoundFull s'.sp := by
  have hb := hsound.inBounds
  rcases System.step_cases hstep with ⟨turns, sp, log, -, hirq, rfl⟩ | ⟨control, -, -, rfl⟩ |
    ⟨c, -, -, rfl⟩ | ⟨o, -, hth, rfl⟩
  · exact h.of_txIn_eq (State.served_irq hb hirq).txIn
  · exact h.of_txIn_eq (served_timeoutCallback hb control).txIn
  · cases c <;> trivial
  · exact (kept_thread hb hsound.thread h hth).foundFull

lemma foundFull_of_run {ticksPerSec : BitVec 32} {events : List Event} {s : System}
    (hrun : run System.step (System.init ticksPerSec) events = some s) :
    s.thread.FoundFull s.sp := by
  have hkeep (s : System) (e : Event) (s' : System) (h : s.Sound ∧ s.thread.FoundFull s.sp)
      (hstep : s.step e = some s') : s'.Sound ∧ s'.thread.FoundFull s'.sp :=
    ⟨h.1.step hstep, foundFull_step h.1 h.2 hstep⟩
  exact (invariant hkeep ⟨System.Sound.init ticksPerSec, trivial⟩ hrun).2

/-- An interrupt is off only while it has nothing to do, or until the current call enables it. -/
structure System.Armed (s : System) : Prop where
  control : controlAfter 0#32 s.log &&& ENABLE_MSK = s.sp.irqEnable
  rxArmed : s.sp.RxArmed ∨ s.thread.EnablesRx
  txArmed : s.sp.TxArmed ∨ s.thread.EnablesTx

lemma System.Armed.init (ticksPerSec : BitVec 32) : (System.init ticksPerSec).Armed where
  control := by
    change CONTROL_RE_MSK &&& ENABLE_MSK = CONTROL_RE_MSK
    decide
  rxArmed := by
    have hre : CONTROL_RE_MSK &&& CONTROL_RE_MSK ≠ 0#32 := by decide
    exact .inl (.inl hre)
  txArmed := .inl (.inr (contents_self BUF_LEN_pos _))

lemma System.Armed.switched {s : System} (h : s.Armed) {sp : State} {log : List Access}
    (hswitched : Switched s.sp log sp) :
    ({ s with sp, log := s.log ++ log } : System).Armed where
  control := by
    rw [controlAfter, List.foldl_append]
    exact hswitched.control _ h.control
  rxArmed := h.rxArmed.imp_left hswitched.rxArmed
  txArmed := h.txArmed.imp_left hswitched.txArmed

lemma System.Armed.step {s s' : System} (h : s.Armed) (hsound : s.Sound)
    (hfull : s.thread.FoundFull s.sp) {e : Event} (he : e.WellFormed) (hstep : s.step e = some s') :
    s'.Armed := by
  have hb := hsound.inBounds
  rcases System.step_cases hstep with ⟨turns, sp, log, rfl, hirq, rfl⟩ | ⟨control, -, -, rfl⟩ |
    ⟨c, -, hidle, rfl⟩ | ⟨o, -, hth, rfl⟩
  · exact h.switched (State.switched_irq hb he hirq)
  · exact h.switched (State.switched_timeoutCallback s.sp control)
  · have hrx := h.rxArmed
    have htx := h.txArmed
    rw [hidle] at hrx htx
    exact ⟨h.control, hrx.imp_right False.elim, htx.imp_right False.elim⟩
  · have hkept := kept_thread hb hsound.thread hfull hth
    refine ⟨?_, hkept.rxArmed h.rxArmed, hkept.txArmed h.txArmed⟩
    rw [controlAfter, List.foldl_append]
    exact hkept.control _ h.control

lemma System.Armed.run {ticksPerSec : BitVec 32} {events : List Event}
    (hevents : ∀ e ∈ events, e.WellFormed) {s : System}
    (hrun : run System.step (System.init ticksPerSec) events = some s) : s.Armed := by
  have hguard : Along System.step (fun _ e => e.WellFormed) (System.init ticksPerSec) events :=
    along_of_forall _ events (fun e he _ => hevents e he)
  have hkeep (s : System) (e : Event) (s' : System) (he : e.WellFormed)
      (h : s.Sound ∧ s.thread.FoundFull s.sp ∧ s.Armed) (hstep : s.step e = some s') :
      s'.Sound ∧ s'.thread.FoundFull s'.sp ∧ s'.Armed :=
    ⟨h.1.step hstep, foundFull_step h.1 h.2.1 hstep, h.2.2.step h.1 h.2.1 he hstep⟩
  exact (invariant_along hkeep hguard
    ⟨System.Sound.init ticksPerSec, trivial, System.Armed.init ticksPerSec⟩ hrun).2.2

/-- No wakeup is lost if the device announces no characters in a word without one: a call that waits
has the interrupt enabled that ends the wait, or what it waits for is there already. Between calls
the interrupts are off only while there are bytes for the next read, and while there are none to
send. -/
theorem no_lost_wakeup (ticksPerSec : BitVec 32) (events : List Event)
    (hevents : ∀ e ∈ events, e.WellFormed) (s : System)
    (hrun : run System.step (System.init ticksPerSec) events = some s) :
    controlAfter 0#32 s.log &&& ENABLE_MSK = s.sp.irqEnable ∧
    (∀ fr inn, s.thread = .read fr (.spin inn) ∨ s.thread = .read fr (.spinHost inn) →
      s.sp.irqEnable &&& CONTROL_RE_MSK ≠ 0#32 ∨ inn ≠ s.sp.rxIn) ∧
    (∀ fr out, s.thread = .write fr (.spin out) ∨ s.thread = .write fr (.spinHost out) →
      s.sp.irqEnable &&& CONTROL_WE_MSK ≠ 0#32 ∨ out ≠ s.sp.txOut) ∧
    (∀ nonblock, s.thread = .close nonblock ∨ s.thread = .closeHost nonblock →
      s.sp.irqEnable &&& CONTROL_WE_MSK ≠ 0#32 ∨ s.sp.txOut = s.sp.txIn) ∧
    (s.thread = .idle → s.sp.RxArmed ∧ s.sp.TxArmed) := by
  have hsound := System.Sound.run hrun
  have hb := hsound.inBounds
  have h := System.Armed.run hevents hrun
  refine ⟨h.control, ?_, ?_, ?_, ?_⟩
  · intro fr inn hth
    have hwaits : fr.buffer = [] ∧ inn = s.sp.rxOut := by
      have hs := hsound.thread
      rcases hth with hth | hth <;> rwa [hth] at hs
    have harmed : s.sp.RxArmed := by
      apply h.rxArmed.resolve_right
      rcases hth with hth | hth <;> rw [hth] <;> exact not_not_intro hwaits.1
    apply harmed.imp_right
    intro hne heq
    exact hne ((State.rx_eq_nil_iff hb).mpr (hwaits.2.symm.trans heq))
  · intro fr out hth
    have hfull : (s.sp.txIn + 1) % BUF_LEN = out := by
      have hs := foundFull_of_run hrun
      rcases hth with hth | hth <;> rw [hth] at hs <;> exact hs.2
    have harmed : s.sp.TxArmed := by
      apply h.txArmed.resolve_right
      rcases hth with hth | hth <;> rw [hth] <;> exact id
    apply harmed.imp_right
    intro hnil heq
    rw [heq, (State.tx_eq_nil_iff hb).mp hnil, full_iff hb.txIn hb.txIn,
      (size_eq_zero_iff hb.txIn hb.txIn).mpr rfl] at hfull
    exact absurd hfull (by decide)
  · intro nonblock hth
    have harmed : s.sp.TxArmed := by
      apply h.txArmed.resolve_right
      rcases hth with hth | hth <;> rw [hth] <;> exact id
    exact harmed.imp_right (State.tx_eq_nil_iff hb).mp
  · intro hth
    have hrx := h.rxArmed
    have htx := h.txArmed
    rw [hth] at hrx htx
    exact ⟨hrx.resolve_right id, htx.resolve_right id⟩

/-- After the bytes have been echoed, of which the last interrupt has turned off write interrupts, a
read takes the byte that is left and the next one has to wait. -/
def waitingRun : List Event :=
  echoRun ++ [.call (.read 1 false), .thread, .thread, .thread, .thread, .thread, .thread, .thread,
    .thread, .call (.read 4 false), .thread, .thread, .thread, .thread]

theorem no_lost_wakeup_waitingRun : ∃ s fr, run System.step (System.init 1000#32) waitingRun = some s ∧
    s.thread = .read fr (.spin 3) ∧ Access.storeControl CONTROL_RE_MSK ∈ s.log.drop 12 ∧
    (s.sp.irqEnable &&& CONTROL_RE_MSK ≠ 0#32 ∨ 3 ≠ s.sp.rxIn) := by
  have hevents : ∀ e ∈ waitingRun, e.WellFormed := by
    simp [waitingRun, echoRun, Event.WellFormed, IrqTurn.WellFormed, DATA_RVALID_MSK]
  exact ⟨_, _, rfl, rfl, by decide,
    (no_lost_wakeup 1000#32 waitingRun hevents _ rfl).2.1 _ 3 (.inl rfl)⟩

/-! ### The room at the device -/

/-- Every store to DATA finds room, by the last word of CONTROL and the stores after it, when there
is room for `space` bytes at first. -/
def Fits : ℕ → List Access → Prop
  | _, [] => True
  | _, .loadControl word :: log => Fits (wspace word) log
  | space, .storeData _ :: log => 0 < space ∧ Fits (space - 1) log
  | space, .loadData _ :: log => Fits space log
  | space, .storeControl _ :: log => Fits space log
  | space, .dummyLoadControl :: log => Fits space log

lemma Fits.mono {space space' : ℕ} {log : List Access} (h : Fits space log)
    (hle : space ≤ space') : Fits space' log := by
  induction log generalizing space space' with
  | nil => trivial
  | cons access log ih =>
    cases access with
    | loadControl word => exact h
    | storeData word => exact ⟨lt_of_lt_of_le h.1 hle, ih h.2 (by omega)⟩
    | _ => exact ih h hle

lemma Fits.append {space : ℕ} {log log' : List Access} (h : Fits space log) (h' : Fits 0 log') :
    Fits space (log ++ log') := by
  induction log generalizing space with
  | nil => exact h'.mono (Nat.zero_le space)
  | cons access log ih =>
    cases access with
    | storeData word => exact ⟨h.1, ih h.2⟩
    | _ => exact ih h

lemma fits_loads (space : ℕ) (loads : List (BitVec 32)) {log : List Access} (h : Fits space log) :
    Fits space (loads.map .loadData ++ log) := by
  induction loads with
  | nil => exact h
  | cons word loads ih => exact ih

lemma fits_stores {space : ℕ} {sent : List (BitVec 8)} (h : sent.length ≤ space) :
    Fits space (sent.map fun b => .storeData (b.setWidth 32)) := by
  induction sent generalizing space with
  | nil => trivial
  | cons b sent ih =>
    rw [List.length_cons] at h
    exact ⟨by omega, ih (by omega)⟩

namespace State

lemma length_transmitLoop_le (space : ℕ) (sp : State) : (transmitLoop space sp).2.length ≤ space := by
  induction space generalizing sp with
  | zero => exact le_rfl
  | succ space ih =>
    rw [transmitLoop]
    split_ifs
    · exact Nat.zero_le _
    · exact Nat.succ_le_succ (ih _)

lemma fits_receiveIrq {sp sp' : State} {loads : List (BitVec 32)} {log log' : List Access}
    (h : sp.receiveIrq loads = some (sp', log)) {space : ℕ} (hlog' : Fits space log') :
    Fits space (log ++ log') := by
  rw [receiveIrq] at h
  split at h
  · exact absurd h (by simp)
  · split_ifs at h
    · obtain ⟨-, rfl⟩ := Prod.mk.inj (Option.some.inj h)
      rw [List.append_assoc]
      exact fits_loads space loads hlog'
    · obtain ⟨-, rfl⟩ := Prod.mk.inj (Option.some.inj h)
      exact fits_loads space loads hlog'

lemma fits_transmitIrq (sp : State) (control : BitVec 32) :
    Fits (wspace control) (sp.transmitIrq control).2 := by
  have hstores := fits_stores (length_transmitLoop_le (wspace control) sp)
  rw [transmitIrq]
  dsimp only
  split_ifs
  · exact hstores.append trivial
  · exact hstores

lemma fits_irq {sp sp' : State} {turns : List IrqTurn} {log : List Access}
    (h : sp.irq turns = some (sp', log)) : Fits 0 log := by
  induction turns generalizing sp log with
  | nil => exact absurd h (by simp [irq])
  | cons turn turns ih =>
    rcases irq_cons_eq_some h with ⟨-, rfl⟩ | ⟨mid, loads, rest, hread, hrest, rfl⟩
    · trivial
    · have hwrite : Fits (wspace turn.control) ((mid.writeTurn turn).2 ++ rest) := by
        apply Fits.append _ (ih hrest)
        rw [writeTurn]
        split_ifs
        · exact fits_transmitIrq mid turn.control
        · trivial
      change Fits (wspace turn.control) (loads ++ (mid.writeTurn turn).2 ++ rest)
      rw [List.append_assoc]
      rw [readTurn] at hread
      split_ifs at hread
      · exact fits_receiveIrq hread hwrite
      · obtain ⟨-, rfl⟩ := Prod.mk.inj (Option.some.inj hread)
        exact hwrite

end State

lemma fits_timeoutCallback (sp : State) (control : BitVec 32) :
    Fits 0 (sp.timeoutCallback control).2 := by
  rw [State.timeoutCallback]
  split_ifs <;> trivial

lemma fits_thread {sp : State} {th : Thread} {o : Outcome} (h : th.step sp = some o) :
    Fits 0 o.log := by
  cases th with
  | idle => exact absurd h (by simp [Thread.step])
  | read fr pc =>
    rw [← Option.some.inj h]
    cases pc <;> simp only [ReadFrame.step] <;> (try split_ifs) <;> trivial
  | write fr pc =>
    rw [← Option.some.inj h]
    cases pc <;> simp only [WriteFrame.step] <;> (try split_ifs) <;> trivial
  | close nonblock =>
    rw [Thread.step] at h
    split_ifs at h <;> exact Option.some.inj h ▸ trivial
  | closeHost nonblock =>
    rw [Thread.step] at h
    split_ifs at h <;> exact Option.some.inj h ▸ trivial
  | ioctl req => exact Option.some.inj h ▸ trivial

/-- The handler never stores more bytes to the device than the device has room for. -/
theorem device_has_room (ticksPerSec : BitVec 32) (events : List Event) (s : System)
    (hrun : run System.step (System.init ticksPerSec) events = some s) : Fits 0 s.log := by
  have hstep (s : System) (e : Event) (s' : System) (h : Fits 0 s.log)
      (hstep : s.step e = some s') : Fits 0 s'.log := by
    rcases System.step_cases hstep with ⟨turns, sp, log, -, hirq, rfl⟩ | ⟨control, -, -, rfl⟩ |
      ⟨c, -, -, rfl⟩ | ⟨o, -, hth, rfl⟩
    · exact h.append (State.fits_irq hirq)
    · exact h.append (fits_timeoutCallback s.sp control)
    · exact h
    · exact h.append (fits_thread hth)
  have hinit : Fits 0 (System.init ticksPerSec).log := trivial
  exact invariant hstep hinit hrun

theorem device_has_room_echoRun : ∃ s, run System.step (System.init 1000#32) echoRun = some s ∧
    transmitted s.log = [0x41#8] ∧ Fits 0 s.log :=
  ⟨_, rfl, rfl, device_has_room 1000#32 echoRun _ rfl⟩

end JtagUart

end VecadNiosv
