import VecadNiosv.JtagUart

/-!
# The JTAG UART driver as two queues

Each ring buffer is a queue between the device and the calls. In every run, whatever the order of
interrupts and steps of the program, what the handler has taken from the device is what the calls
have delivered and then what the receive buffer holds, and what the calls have accepted is what the
handler has stored to the device and then what the transmit buffer holds.
-/

namespace VecadNiosv

namespace JtagUart

open RingBuffer EventRun

/-- The bytes that the driver has taken from the device. -/
def received (log : List Access) : List (BitVec 8) :=
  log.filterMap fun
    | .loadData word =>
      if word &&& DATA_RVALID_MSK ≠ 0#32 then some ((word &&& DATA_DATA_MSK).setWidth 8) else none
    | _ => none

/-- The bytes that the driver has stored to the device. -/
def transmitted (log : List Access) : List (BitVec 8) :=
  log.filterMap fun
    | .storeData word => some (word.setWidth 8)
    | _ => none

/-- The bytes that the reads which have returned gave to their callers. -/
def delivered (done : List Done) : List (BitVec 8) :=
  done.flatMap fun
    | .read _ _ bytes _ => bytes
    | _ => []

/-- The bytes that the writes which have returned took from their callers. -/
def accepted (done : List Done) : List (BitVec 8) :=
  done.flatMap fun
    | .write data _ sent _ => data.take sent
    | _ => []

/-- The bytes that the current read has taken out of the receive buffer. Those that it is copying
are still in the buffer. -/
def Thread.taken : Thread → List (BitVec 8)
  | .read fr (.copy _ _ _ i) => fr.buffer.take (fr.buffer.length - i)
  | .read fr (.storeOut _ _ n) => fr.buffer.take (fr.buffer.length - n)
  | .read fr _ => fr.buffer
  | _ => []

/-- The bytes that the current write has put into the transmit buffer. -/
def Thread.put : Thread → List (BitVec 8)
  | .write fr _ => fr.data.take fr.sent
  | _ => []

namespace State

/-- The bytes in the receive buffer. -/
def rx (sp : State) : List (BitVec 8) := contents BUF_LEN sp.rxBuf sp.rxOut sp.rxIn

/-- The bytes in the transmit buffer. -/
def tx (sp : State) : List (BitVec 8) := contents BUF_LEN sp.txBuf sp.txOut sp.txIn

structure InBounds (sp : State) : Prop where
  rxIn : sp.rxIn < BUF_LEN
  rxOut : sp.rxOut < BUF_LEN
  txIn : sp.txIn < BUF_LEN
  txOut : sp.txOut < BUF_LEN

end State

lemma BUF_LEN_pos : 0 < BUF_LEN := by decide

lemma mod_BUF_LEN_lt (a : ℕ) : a % BUF_LEN < BUF_LEN := Nat.mod_lt a BUF_LEN_pos

@[simp]
lemma received_append (log log' : List Access) :
    received (log ++ log') = received log ++ received log' := List.filterMap_append

@[simp]
lemma transmitted_append (log log' : List Access) :
    transmitted (log ++ log') = transmitted log ++ transmitted log' := List.filterMap_append

@[simp]
lemma delivered_append (done done' : List Done) :
    delivered (done ++ done') = delivered done ++ delivered done' := List.flatMap_append

@[simp]
lemma accepted_append (done done' : List Done) :
    accepted (done ++ done') = accepted done ++ accepted done' := List.flatMap_append

lemma transmitted_stores (sent : List (BitVec 8)) :
    transmitted (sent.map fun b => .storeData (b.setWidth 32)) = sent := by
  have hbyte (b : BitVec 8) : (b.setWidth 32).setWidth 8 = b := by
    rw [BitVec.setWidth_setWidth_of_le b (by decide), BitVec.setWidth_eq]
  simp [transmitted, List.filterMap_map, hbyte]

/-- What the handler does to the state: it appends to the receive queue what it takes from the
device, stores the head of the transmit queue to the device, and leaves alone what belongs to the
calls. -/
structure Served (sp : State) (log : List Access) (sp' : State) : Prop where
  inBounds : sp'.InBounds
  rxOut : sp'.rxOut = sp.rxOut
  txIn : sp'.txIn = sp.txIn
  txBuf : sp'.txBuf = sp.txBuf
  rx : sp'.rx = sp.rx ++ received log
  tx : sp.tx = transmitted log ++ sp'.tx

namespace Served

variable {sp mid sp' : State} {log log' : List Access}

lemma refl (hb : sp.InBounds) : Served sp [] sp :=
  ⟨hb, rfl, rfl, rfl, (List.append_nil _).symm, rfl⟩

lemma trans (h : Served sp log mid) (h' : Served mid log' sp') : Served sp (log ++ log') sp' where
  inBounds := h'.inBounds
  rxOut := h'.rxOut.trans h.rxOut
  txIn := h'.txIn.trans h.txIn
  txBuf := h'.txBuf.trans h.txBuf
  rx := by rw [h'.rx, h.rx, received_append, List.append_assoc]
  tx := by rw [h.tx, h'.tx, transmitted_append, List.append_assoc]

/-- Writes to CONTROL and to the copy of its enable bits do not touch the queues. -/
lemma of_irqEnable (hb : sp.InBounds) (irqEnable : BitVec 32) (hr : received log = [])
    (ht : transmitted log = []) : Served sp log { sp with irqEnable } where
  inBounds := ⟨hb.rxIn, hb.rxOut, hb.txIn, hb.txOut⟩
  rxOut := rfl
  txIn := rfl
  txBuf := rfl
  rx := by rw [hr, List.append_nil]; rfl
  tx := by rw [ht]; rfl

end Served

namespace State

lemma served_pushRx {sp : State} (hb : sp.InBounds) (hfree : (sp.rxIn + 1) % BUF_LEN ≠ sp.rxOut)
    {word : BitVec 32} (hvalid : word &&& DATA_RVALID_MSK ≠ 0#32) :
    Served sp [.loadData word] (sp.pushRx word) where
  inBounds := ⟨mod_BUF_LEN_lt _, hb.rxOut, hb.txIn, hb.txOut⟩
  rxOut := rfl
  txIn := rfl
  txBuf := rfl
  rx := by
    have hword : received [.loadData word] = [(word &&& DATA_DATA_MSK).setWidth 8] := by
      simp [received, hvalid]
    rw [hword]
    exact contents_push hb.rxOut hb.rxIn hfree sp.rxBuf _
  tx := rfl

/-- The inner loop takes the valid words, and only while the buffer has a free slot. -/
lemma served_receiveLoop {sp sp' : State} (hb : sp.InBounds) {data data' : BitVec 32}
    {loads : List (BitVec 32)} (h : sp.receiveLoop data loads = some (sp', data')) :
    Served sp (loads.map .loadData) sp' := by
  induction loads generalizing sp data with
  | nil =>
    rw [receiveLoop] at h
    split_ifs at h with hfull
    obtain ⟨rfl, -⟩ := Prod.mk.inj (Option.some.inj h)
    exact Served.refl hb
  | cons word loads ih =>
    rw [receiveLoop] at h
    split_ifs at h with hfull hvalid hlast
    · obtain ⟨rfl, -⟩ := Prod.mk.inj (Option.some.inj h)
      have hnone : received [.loadData word] = [] := by simp [received, hvalid]
      rw [hlast]
      exact Served.of_irqEnable hb sp.irqEnable hnone rfl
    · have hpush := served_pushRx hb hfull hvalid
      exact hpush.trans (ih hpush.inBounds h)

lemma served_receiveIrq {sp sp' : State} (hb : sp.InBounds) {loads : List (BitVec 32)}
    {log : List Access} (h : sp.receiveIrq loads = some (sp', log)) : Served sp log sp' := by
  rw [receiveIrq] at h
  split at h
  · exact absurd h (by simp)
  · rename_i mid data hloop
    have hserved := served_receiveLoop hb hloop
    split_ifs at h with havail
    · obtain ⟨rfl, rfl⟩ := Prod.mk.inj (Option.some.inj h)
      exact hserved.trans (Served.of_irqEnable hserved.inBounds _ rfl rfl)
    · obtain ⟨rfl, rfl⟩ := Prod.mk.inj (Option.some.inj h)
      exact hserved

lemma served_popTx {sp : State} (hb : sp.InBounds) (hne : sp.txOut ≠ sp.txIn) :
    Served sp [.storeData ((sp.txBuf sp.txOut).setWidth 32)]
      { sp with txOut := (sp.txOut + 1) % BUF_LEN } := by
  refine ⟨⟨hb.rxIn, hb.rxOut, hb.txIn, mod_BUF_LEN_lt _⟩, rfl, rfl, rfl, ?_, ?_⟩
  · exact (List.append_nil _).symm
  · have hsent := transmitted_stores [sp.txBuf sp.txOut]
    rw [List.map_singleton] at hsent
    rw [hsent]
    exact contents_pop hb.txOut hb.txIn hne sp.txBuf

/-- The loop stores bytes in order and no more than there is space for. -/
lemma served_transmitLoop (space : ℕ) {sp : State} (hb : sp.InBounds) :
    Served sp ((transmitLoop space sp).2.map fun b => .storeData (b.setWidth 32))
      (transmitLoop space sp).1 := by
  induction space generalizing sp with
  | zero => exact Served.refl hb
  | succ space ih =>
    rw [transmitLoop]
    split_ifs with hempty
    · exact Served.refl hb
    · have hpop := served_popTx hb hempty
      exact hpop.trans (ih hpop.inBounds)

lemma served_transmitIrq {sp : State} (hb : sp.InBounds) (control : BitVec 32) :
    Served sp (sp.transmitIrq control).2 (sp.transmitIrq control).1 := by
  have hserved := served_transmitLoop (wspace control) hb
  rw [transmitIrq]
  dsimp only
  split_ifs with hspace
  · exact hserved.trans (Served.of_irqEnable hserved.inBounds _ rfl rfl)
  · exact hserved

lemma served_readTurn {sp sp' : State} (hb : sp.InBounds) {turn : IrqTurn} {log : List Access}
    (h : sp.readTurn turn = some (sp', log)) : Served sp log sp' := by
  rw [readTurn] at h
  split_ifs at h with hread hdata
  · exact served_receiveIrq hb h
  · obtain ⟨rfl, rfl⟩ := Prod.mk.inj (Option.some.inj h)
    exact Served.refl hb

lemma served_writeTurn {sp : State} (hb : sp.InBounds) (turn : IrqTurn) :
    Served sp (sp.writeTurn turn).2 (sp.writeTurn turn).1 := by
  rw [writeTurn]
  split_ifs with hwrite
  · exact served_transmitIrq hb turn.control
  · exact Served.refl hb

/-- One turn of the handler and the turns after it. -/
lemma irq_cons_eq_some {sp sp' : State} {turn : IrqTurn} {turns : List IrqTurn} {log : List Access}
    (h : sp.irq (turn :: turns) = some (sp', log)) :
    (sp' = sp ∧ log = [.loadControl turn.control]) ∨
      ∃ mid loads rest, sp.readTurn turn = some (mid, loads) ∧
        (mid.writeTurn turn).1.irq turns = some (sp', rest) ∧
        log = .loadControl turn.control :: (loads ++ (mid.writeTurn turn).2 ++ rest) := by
  rw [irq] at h
  split_ifs at h with hquiet hlast
  · obtain ⟨rfl, rfl⟩ := Prod.mk.inj (Option.some.inj h)
    exact .inl ⟨rfl, rfl⟩
  · cases hread : sp.readTurn turn with
    | none => simp [hread] at h
    | some p =>
      obtain ⟨mid, loads⟩ := p
      cases hrest : (mid.writeTurn turn).1.irq turns with
      | none => simp [hread, hrest] at h
      | some q =>
        obtain ⟨sp'', rest⟩ := q
        simp only [hread, hrest] at h
        obtain ⟨rfl, rfl⟩ := Prod.mk.inj (Option.some.inj h)
        exact .inr ⟨mid, loads, rest, rfl, hrest, rfl⟩

lemma served_irq {sp sp' : State} (hb : sp.InBounds) {turns : List IrqTurn} {log : List Access}
    (h : sp.irq turns = some (sp', log)) : Served sp log sp' := by
  induction turns generalizing sp log with
  | nil => exact absurd h (by simp [irq])
  | cons turn turns ih =>
    have hcontrol (sp : State) (hb : sp.InBounds) : Served sp [.loadControl turn.control] sp :=
      Served.of_irqEnable hb sp.irqEnable rfl rfl
    rcases irq_cons_eq_some h with ⟨rfl, rfl⟩ | ⟨mid, loads, rest, hread, hrest, rfl⟩
    · exact hcontrol sp' hb
    · have hfirst := served_readTurn hb hread
      have hsecond := served_writeTurn hfirst.inBounds turn
      have hlast := ih hsecond.inBounds hrest
      exact (hcontrol sp hb).trans ((hfirst.trans hsecond).trans hlast)

/-- A store to a slot of the transmit buffer. -/
def setTx (sp : State) (slot : ℕ) (b : BitVec 8) : State :=
  { sp with txBuf := Function.update sp.txBuf slot b }

section SetTx

variable {sp : State} {slot : ℕ} (b : BitVec 8)

lemma receiveLoop_setTx (data : BitVec 32) (loads : List (BitVec 32)) :
    (sp.setTx slot b).receiveLoop data loads =
      (sp.receiveLoop data loads).map fun p => (p.1.setTx slot b, p.2) := by
  induction loads generalizing sp data with
  | nil =>
    rw [receiveLoop, receiveLoop]
    change (if (sp.rxIn + 1) % BUF_LEN = sp.rxOut then _ else _) = _
    split_ifs <;> rfl
  | cons word loads ih =>
    rw [receiveLoop, receiveLoop]
    change (if (sp.rxIn + 1) % BUF_LEN = sp.rxOut then _ else _) = _
    split_ifs
    · rfl
    · rfl
    · rfl
    · exact @ih (sp.pushRx word) word

lemma readTurn_setTx (turn : IrqTurn) : (sp.setTx slot b).readTurn turn =
    (sp.readTurn turn).map fun p => (p.1.setTx slot b, p.2) := by
  rw [readTurn, readTurn, receiveIrq, receiveIrq, receiveLoop_setTx]
  split_ifs
  · cases sp.receiveLoop (1#32 <<< DATA_RAVAIL_OFST) turn.data with
    | none => rfl
    | some p =>
      dsimp only [Option.map_some]
      split_ifs <;> rfl
  · rfl
  · rfl

/-- The slot is a free one of the transmit buffer. -/
def FreeTx (sp : State) (slot : ℕ) : Prop :=
  ∃ k, sp.tx.length + k < BUF_LEN ∧ slot = (sp.txIn + k) % BUF_LEN

lemma FreeTx.ne (h : sp.FreeTx slot) (hb : sp.InBounds) {k : ℕ} (hk : k < sp.tx.length) :
    (sp.txOut + k) % BUF_LEN ≠ slot := by
  obtain ⟨i, hi, rfl⟩ := h
  rw [tx, length_contents] at hi hk
  exact free_ne_held hb.txOut hb.txIn hi hk

lemma FreeTx.served {sp' : State} {log : List Access} (h : sp.FreeTx slot)
    (hserved : Served sp log sp') : sp'.FreeTx slot := by
  obtain ⟨k, hk, hslot⟩ := h
  rw [hserved.tx, List.length_append] at hk
  exact ⟨k, by omega, by rw [hserved.txIn]; exact hslot⟩

lemma transmitLoop_setTx (space : ℕ) (hb : sp.InBounds) (h : sp.FreeTx slot) :
    transmitLoop space (sp.setTx slot b) =
      ((transmitLoop space sp).1.setTx slot b, (transmitLoop space sp).2) := by
  induction space generalizing sp with
  | zero => rfl
  | succ space ih =>
    rw [transmitLoop, transmitLoop]
    change (if sp.txOut = sp.txIn then (sp.setTx slot b, []) else _) = _
    split_ifs with hempty
    · rfl
    · have hpop := served_popTx hb hempty
      have hrest := ih hpop.inBounds (h.served hpop)
      have hpos : 0 < sp.tx.length := by
        rw [tx, length_contents]
        exact Nat.pos_of_ne_zero (mt (size_eq_zero_iff hb.txOut hb.txIn).mp hempty)
      have hne := h.ne hb hpos
      rw [Nat.add_zero, Nat.mod_eq_of_lt hb.txOut] at hne
      have hhead : (sp.setTx slot b).txBuf sp.txOut = sp.txBuf sp.txOut := Function.update_of_ne hne _ _
      dsimp only
      change ((transmitLoop space (State.setTx { sp with txOut := (sp.txOut + 1) % BUF_LEN } slot b)).1,
        (sp.setTx slot b).txBuf sp.txOut ::
          (transmitLoop space (State.setTx { sp with txOut := (sp.txOut + 1) % BUF_LEN } slot b)).2) = _
      rw [hrest, hhead]

lemma writeTurn_setTx (turn : IrqTurn) (hb : sp.InBounds) (h : sp.FreeTx slot) :
    (sp.setTx slot b).writeTurn turn =
      ((sp.writeTurn turn).1.setTx slot b, (sp.writeTurn turn).2) := by
  rw [writeTurn, writeTurn, transmitIrq, transmitIrq, transmitLoop_setTx b _ hb h]
  dsimp only
  split_ifs <;> rfl

/-- What the handler does, and what it leaves, does not depend on a free slot. -/
lemma irq_setTx (turns : List IrqTurn) (hb : sp.InBounds) (h : sp.FreeTx slot) :
    (sp.setTx slot b).irq turns = (sp.irq turns).map fun p => (p.1.setTx slot b, p.2) := by
  induction turns generalizing sp with
  | nil => rfl
  | cons turn turns ih =>
    rw [irq, irq, readTurn_setTx]
    split_ifs
    · rfl
    · rfl
    · cases hread : sp.readTurn turn with
      | none => rfl
      | some p =>
        obtain ⟨mid, loads⟩ := p
        have hfirst := served_readTurn hb hread
        have hsecond := served_writeTurn hfirst.inBounds turn
        have hfree := h.served hfirst
        have hrest := ih hsecond.inBounds (hfree.served hsecond)
        simp only [Option.map_some, writeTurn_setTx b turn hfirst.inBounds hfree, hrest]
        cases (mid.writeTurn turn).1.irq turns <;> rfl

end SetTx
end State

/-! ### The calls -/

/-- A read has copied the first `i` of the `n` bytes from `out` on, which are the oldest ones. -/
structure ReadWindow (sp : State) (fr : ReadFrame) (out n i : ℕ) : Prop where
  out_eq : out = sp.rxOut
  inRing : out + n ≤ BUF_LEN
  pos : 0 < n
  le_space : n ≤ fr.space
  le_rx : n ≤ sp.rx.length
  le : i ≤ n
  copied : ∃ before, fr.buffer = before ++ sp.rx.take i

/-- A write has copied the first `i` of its next `n` bytes to free slots from `inn` on. -/
structure WriteWindow (sp : State) (fr : WriteFrame) (inn n i : ℕ) : Prop where
  in_eq : inn = sp.txIn
  inRing : inn + n ≤ BUF_LEN
  room : sp.tx.length + n < BUF_LEN
  le_data : fr.sent + n ≤ fr.data.length
  le : i ≤ n
  copied : ∀ j < i, sp.txBuf (inn + j) = fr.data.getD (fr.sent + j) 0#8

def ReadPc.Sound (sp : State) (fr : ReadFrame) : ReadPc → Prop
  | .outer => fr.buffer = []
  | .loadIn => 0 < fr.space
  | .loadOut inn =>
    0 < fr.space ∧ inn < BUF_LEN ∧ size BUF_LEN sp.rxOut inn ≤ sp.rx.length
  | .copy _ out n i => ReadWindow sp fr out n i
  | .storeOut _ out n => ReadWindow sp fr out n n
  | .afterLoop inn => fr.buffer = [] → inn = sp.rxOut
  | .spin inn => fr.buffer = [] ∧ inn = sp.rxOut
  | .spinHost inn => fr.buffer = [] ∧ inn = sp.rxOut
  | .recheck inn => fr.buffer = [] ∧ inn = sp.rxOut
  | .finish => True

def WritePc.Sound (sp : State) (fr : WriteFrame) : WritePc → Prop
  | .loadOut inn => inn = sp.txIn ∧ fr.sent < fr.data.length
  | .copy inn _ n i => WriteWindow sp fr inn n i
  | .storeIn inn _ n => WriteWindow sp fr inn n n
  | _ => fr.sent ≤ fr.data.length

/-- What holds of the locals of the current call. -/
def Thread.Sound (sp : State) : Thread → Prop
  | .read fr pc => pc.Sound sp fr
  | .write fr pc => pc.Sound sp fr
  | _ => True

/-- The handler leaves the locals of the current call sound. -/
lemma Thread.Sound.served {sp sp' : State} {log : List Access} {th : Thread} (h : th.Sound sp)
    (hserved : Served sp log sp') : th.Sound sp' := by
  have hrx : sp.rx.length ≤ sp'.rx.length := by
    rw [hserved.rx, List.length_append]
    omega
  have htx : sp'.tx.length ≤ sp.tx.length := by
    rw [hserved.tx, List.length_append]
    omega
  have hread {fr : ReadFrame} {out n i : ℕ} (hw : ReadWindow sp fr out n i) :
      ReadWindow sp' fr out n i := by
    obtain ⟨before, hbefore⟩ := hw.copied
    refine ⟨hw.out_eq.trans hserved.rxOut.symm, hw.inRing, hw.pos, hw.le_space,
      hw.le_rx.trans hrx, hw.le, before, ?_⟩
    rw [hserved.rx, List.take_append_of_le_length (hw.le.trans hw.le_rx)]
    exact hbefore
  have hwrite {fr : WriteFrame} {inn n i : ℕ} (hw : WriteWindow sp fr inn n i) :
      WriteWindow sp' fr inn n i := by
    refine ⟨hw.in_eq.trans hserved.txIn.symm, hw.inRing, ?_, hw.le_data, hw.le, ?_⟩
    · have hroom := hw.room
      omega
    · rw [hserved.txBuf]
      exact hw.copied
  cases th with
  | read fr pc =>
    cases pc <;> simp only [Sound, ReadPc.Sound, hserved.rxOut] at h ⊢
    case loadOut => exact ⟨h.1, h.2.1, h.2.2.trans hrx⟩
    case copy => exact hread h
    case storeOut => exact hread h
    all_goals exact h
  | write fr pc =>
    cases pc <;> simp only [Sound, WritePc.Sound, hserved.txIn] at h ⊢
    case copy => exact hwrite h
    case storeIn => exact hwrite h
    all_goals exact h
  | _ => trivial

lemma rxAvailable_le_size {inn out : ℕ} (hin : inn < BUF_LEN) (hout : out < BUF_LEN) :
    rxAvailable inn out ≤ size BUF_LEN out inn ∧ out + rxAvailable inn out ≤ BUF_LEN := by
  rw [size_eq_ite hout hin, rxAvailable]
  split_ifs <;> omega

lemma rxAvailable_eq_zero_iff {inn out : ℕ} (hout : out < BUF_LEN) :
    rxAvailable inn out = 0 ↔ inn = out := by
  rw [rxAvailable]
  split_ifs <;> omega

lemma txSpace_le {inn out : ℕ} (hin : inn < BUF_LEN) (hout : out < BUF_LEN) :
    size BUF_LEN out inn + txSpace inn out < BUF_LEN ∧ inn + txSpace inn out ≤ BUF_LEN := by
  rw [size_eq_ite hout hin, txSpace]
  split_ifs <;> omega

lemma txSpace_eq_zero_iff {inn out : ℕ} (hin : inn < BUF_LEN) (hout : out < BUF_LEN) :
    txSpace inn out = 0 ↔ (inn + 1) % BUF_LEN = out := by
  rw [mod_eq_ite (by omega), txSpace]
  split_ifs <;> omega

lemma State.rx_eq_nil_iff {sp : State} (hb : sp.InBounds) : sp.rx = [] ↔ sp.rxOut = sp.rxIn := by
  rw [← size_eq_zero_iff hb.rxOut hb.rxIn, ← length_contents sp.rxBuf, List.length_eq_zero_iff]
  rfl

lemma State.tx_eq_nil_iff {sp : State} (hb : sp.InBounds) : sp.tx = [] ↔ sp.txOut = sp.txIn := by
  rw [← size_eq_zero_iff hb.txOut hb.txIn, ← length_contents sp.txBuf, List.length_eq_zero_iff]
  rfl

/-- What a step of the thread does to the state: a read takes the head of the receive queue, a
write appends to the transmit queue, and neither touches the data of the device. -/
structure Moved (sp : State) (th : Thread) (o : Outcome) : Prop where
  inBounds : o.sp.InBounds
  sound : o.thread.Sound o.sp
  rx : th.taken ++ sp.rx = delivered o.done ++ o.thread.taken ++ o.sp.rx
  tx : ∃ bytes, o.sp.tx = sp.tx ++ bytes ∧ accepted o.done ++ o.thread.put = th.put ++ bytes
  received : received o.log = []
  transmitted : transmitted o.log = []

/-- A step that only reads the state and changes the locals. -/
lemma Moved.of_locals {sp : State} {th th' : Thread} {done : List Done} (hb : sp.InBounds)
    (hsound : th'.Sound sp) (htaken : th.taken = delivered done ++ th'.taken)
    (hput : accepted done ++ th'.put = th.put) : Moved sp th ⟨sp, th', [], done⟩ where
  inBounds := hb
  sound := hsound
  rx := by rw [htaken]
  tx := ⟨[], (List.append_nil _).symm, by rw [hput, List.append_nil]⟩
  received := rfl
  transmitted := rfl

/-- A step that also enables interrupts. -/
lemma Moved.of_irqEnable {sp : State} {th th' : Thread} {done : List Done} (hb : sp.InBounds)
    (irqEnable word : BitVec 32) (hsound : th'.Sound { sp with irqEnable })
    (htaken : th.taken = delivered done ++ th'.taken)
    (hput : accepted done ++ th'.put = th.put) :
    Moved sp th ⟨{ sp with irqEnable }, th', [.storeControl word], done⟩ where
  inBounds := ⟨hb.rxIn, hb.rxOut, hb.txIn, hb.txOut⟩
  sound := hsound
  rx := by rw [htaken]; rfl
  tx := ⟨[], (List.append_nil _).symm, by rw [hput, List.append_nil]⟩
  received := rfl
  transmitted := rfl

namespace ReadWindow

variable {sp : State} {fr : ReadFrame} {out n i : ℕ}

/-- The byte that is copied next is the next one of the queue. -/
lemma getElem?_rx (hw : ReadWindow sp fr out n i) (hi : i < n) :
    sp.rx[i]? = some (sp.rxBuf (out + i)) := by
  have hlen := hw.le_rx
  rw [State.rx, length_contents] at hlen
  rw [State.rx, contents_getElem? sp.rxBuf (by omega), ← hw.out_eq]
  have hring := hw.inRing
  rw [Nat.mod_eq_of_lt (by omega)]

lemma copy (hw : ReadWindow sp fr out n i) (hi : i < n) :
    ReadWindow sp { fr with buffer := fr.buffer ++ [sp.rxBuf (out + i)] } out n (i + 1) := by
  obtain ⟨before, hbefore⟩ := hw.copied
  refine ⟨hw.out_eq, hw.inRing, hw.pos, hw.le_space, hw.le_rx, hi, before, ?_⟩
  rw [List.take_add_one, hw.getElem?_rx hi, hbefore, List.append_assoc]
  rfl

/-- The bytes taken out of the buffer are those before the ones being copied. -/
lemma take_buffer (hw : ReadWindow sp fr out n i) {before : List (BitVec 8)}
    (hbefore : fr.buffer = before ++ sp.rx.take i) :
    fr.buffer.take (fr.buffer.length - i) = before := by
  have hlen : (sp.rx.take i).length = i := List.length_take_of_le (hw.le.trans hw.le_rx)
  rw [hbefore, List.length_append, hlen, Nat.add_sub_cancel, List.take_left]

lemma buffer_ne_nil (hw : ReadWindow sp fr out n n) : fr.buffer ≠ [] := by
  obtain ⟨before, hbefore⟩ := hw.copied
  intro hnil
  have hlen : (before ++ sp.rx.take n).length = 0 := by rw [← hbefore, hnil, List.length_nil]
  rw [List.length_append, List.length_take_of_le hw.le_rx] at hlen
  have hpos := hw.pos
  omega

end ReadWindow

lemma moved_read {sp : State} (hb : sp.InBounds) {fr : ReadFrame} {pc : ReadPc}
    (hs : pc.Sound sp fr) : Moved sp (.read fr pc) (fr.step sp pc) := by
  cases pc with
  | outer =>
    rw [ReadFrame.step]
    split_ifs with hspace
    · exact Moved.of_locals hb hspace rfl rfl
    · exact Moved.of_locals hb trivial rfl rfl
  | loadIn =>
    have hsize : size BUF_LEN sp.rxOut sp.rxIn = sp.rx.length := (length_contents _).symm
    exact Moved.of_locals hb ⟨hs, hb.rxIn, hsize.le⟩ rfl rfl
  | loadOut inn =>
    obtain ⟨hspace, hin, hsize⟩ := hs
    obtain ⟨hle, hring⟩ := rxAvailable_le_size hin hb.rxOut
    rw [ReadFrame.step]
    split_ifs with hzero
    · refine Moved.of_locals hb ?_ rfl rfl
      intro _
      exact (rxAvailable_eq_zero_iff hb.rxOut).mp hzero
    · have hmin := min_le_left (rxAvailable inn sp.rxOut) fr.space
      refine Moved.of_locals hb ⟨rfl, by omega, by omega, min_le_right _ _, by omega,
        Nat.zero_le _, fr.buffer, ?_⟩ ?_ rfl
      · rw [List.take_zero, List.append_nil]
      · exact (List.take_length).symm
  | copy inn out n i =>
    rw [ReadFrame.step]
    split_ifs with hi
    · refine Moved.of_locals hb (ReadWindow.copy hs hi) ?_ rfl
      simp [delivered, Thread.taken, List.take_append_of_le_length]
    · obtain rfl : i = n := le_antisymm hs.le (not_lt.mp hi)
      exact Moved.of_locals hb hs rfl rfl
  | storeOut inn out n =>
    obtain ⟨before, hbefore⟩ := hs.copied
    have hdrop : ({ sp with rxOut := (out + n) % BUF_LEN } : State).rx = sp.rx.drop n := by
      have hlen := hs.le_rx
      rw [State.rx, length_contents] at hlen
      rw [hs.out_eq]
      exact contents_advance_first hb.rxOut hb.rxIn hlen sp.rxBuf
    have hrx : before ++ sp.rx = fr.buffer ++ sp.rx.drop n := by
      rw [hbefore, List.append_assoc, List.take_append_drop]
    have htaken := hs.take_buffer hbefore
    have hne := hs.buffer_ne_nil
    refine ⟨⟨hb.rxIn, mod_BUF_LEN_lt _, hb.txIn, hb.txOut⟩, ?_, ?_,
      ⟨[], (List.append_nil _).symm, rfl⟩, rfl, rfl⟩
    · rw [ReadFrame.step]
      split_ifs with hspace
      · exact hspace
      · exact fun hnil => absurd hnil hne
    · rw [ReadFrame.step]
      split_ifs <;> simp only [Thread.taken, hdrop, htaken, hrx, delivered, List.flatMap_nil,
        List.nil_append]
  | afterLoop inn =>
    rw [ReadFrame.step]
    split_ifs with hdone
    · exact Moved.of_locals hb trivial rfl rfl
    · have hnil : fr.buffer = [] := by
        by_contra hne
        exact hdone (.inl hne)
      exact Moved.of_locals hb ⟨hnil, hs hnil⟩ rfl rfl
  | spin inn =>
    rw [ReadFrame.step]
    split_ifs with heq
    · exact Moved.of_locals hb hs rfl rfl
    · exact Moved.of_locals hb hs rfl rfl
  | spinHost inn =>
    rw [ReadFrame.step]
    split_ifs with hhost
    · exact Moved.of_locals hb hs rfl rfl
    · exact Moved.of_locals hb hs rfl rfl
  | recheck inn =>
    rw [ReadFrame.step]
    split_ifs with heq
    · exact Moved.of_locals hb trivial rfl rfl
    · exact Moved.of_locals hb hs.1 rfl rfl
  | finish =>
    rw [ReadFrame.step]
    dsimp only
    split_ifs with hne
    · exact Moved.of_irqEnable hb _ _ trivial (by simp [delivered, Thread.taken]) rfl
    · exact Moved.of_locals hb trivial (by simp [delivered, Thread.taken]) rfl

namespace WriteWindow

variable {sp : State} {fr : WriteFrame} {inn n i : ℕ}

/-- The slot that is written next is a free one, so the queue does not change yet. -/
lemma tx_update (hw : WriteWindow sp fr inn n i) (hb : sp.InBounds) (hi : i < n) (b : BitVec 8) :
    ({ sp with txBuf := Function.update sp.txBuf (inn + i) b } : State).tx = sp.tx := by
  have hroom := hw.room
  rw [State.tx, length_contents] at hroom
  have hring := hw.inRing
  have hslot : inn + i = (sp.txIn + i) % BUF_LEN := by
    rw [← hw.in_eq, Nat.mod_eq_of_lt (by omega)]
  rw [hslot]
  exact contents_update_free hb.txOut hb.txIn (by omega) sp.txBuf b

lemma copy (hw : WriteWindow sp fr inn n i) (hb : sp.InBounds) (hi : i < n) :
    WriteWindow { sp with
      txBuf := Function.update sp.txBuf (inn + i) (fr.data.getD (fr.sent + i) 0#8) } fr inn n
      (i + 1) := by
  refine ⟨hw.in_eq, hw.inRing, ?_, hw.le_data, hi, ?_⟩
  · rw [hw.tx_update hb hi]
    exact hw.room
  · intro j hj
    by_cases hji : j = i
    · rw [hji]
      exact Function.update_self _ _ _
    · dsimp only
      rw [Function.update_of_ne (by omega)]
      exact hw.copied j (by omega)

/-- Moving `tx_in` over the copied bytes appends them to the queue. -/
lemma tx_store (hw : WriteWindow sp fr inn n n) (hb : sp.InBounds) :
    ({ sp with txIn := (inn + n) % BUF_LEN } : State).tx =
      sp.tx ++ (fr.data.drop fr.sent).take n := by
  have hroom := hw.room
  have hring := hw.inRing
  have hdata := hw.le_data
  rw [State.tx, length_contents] at hroom
  rw [State.tx, State.tx, hw.in_eq, contents_advance_stop hb.txOut hb.txIn hroom]
  congr 1
  apply List.ext_getElem
  · simp
    omega
  · intro j hj hj'
    rw [List.length_map, List.length_range] at hj
    have hcopied := hw.copied j hj
    rw [hw.in_eq, List.getD_eq_getElem _ _ (by omega)] at hcopied
    rw [hw.in_eq] at hring
    simp only [List.getElem_map, List.getElem_range, List.getElem_take, List.getElem_drop]
    rw [Nat.mod_eq_of_lt (by omega), hcopied]

end WriteWindow

lemma moved_write {sp : State} (hb : sp.InBounds) {fr : WriteFrame} {pc : WritePc}
    (hs : pc.Sound sp fr) : Moved sp (.write fr pc) (fr.step sp pc) := by
  cases pc with
  | fill out =>
    rw [WriteFrame.step]
    split_ifs with hcount
    · exact Moved.of_locals hb ⟨rfl, by omega⟩ rfl rfl
    · exact Moved.of_locals hb hs rfl rfl
  | loadOut inn =>
    obtain ⟨rfl, hdata⟩ := hs
    obtain ⟨hroom, hring⟩ := txSpace_le hb.txIn hb.txOut
    rw [WriteFrame.step]
    split_ifs with hzero
    · exact Moved.of_locals hb hdata.le rfl rfl
    · have hleft := min_le_left (txSpace sp.txIn sp.txOut) (fr.data.length - fr.sent)
      have hright := min_le_right (txSpace sp.txIn sp.txOut) (fr.data.length - fr.sent)
      have hlen : sp.tx.length = size BUF_LEN sp.txOut sp.txIn := length_contents _
      refine Moved.of_locals hb ⟨rfl, by omega, by omega, by omega, Nat.zero_le _, ?_⟩ rfl rfl
      intro j hj
      exact absurd hj (Nat.not_lt_zero j)
  | copy inn out n i =>
    rw [WriteFrame.step]
    split_ifs with hi
    · have htx := hs.tx_update hb hi (fr.data.getD (fr.sent + i) 0#8)
      exact ⟨⟨hb.rxIn, hb.rxOut, hb.txIn, hb.txOut⟩, WriteWindow.copy hs hb hi, rfl,
        ⟨[], htx.trans (List.append_nil _).symm, (List.append_nil _).symm⟩, rfl, rfl⟩
    · obtain rfl : i = n := le_antisymm hs.le (not_lt.mp hi)
      exact Moved.of_locals hb hs rfl rfl
  | storeIn inn out n =>
    exact ⟨⟨hb.rxIn, hb.rxOut, mod_BUF_LEN_lt _, hb.txOut⟩, hs.le_data, rfl,
      ⟨(fr.data.drop fr.sent).take n, hs.tx_store hb, List.take_add⟩, rfl, rfl⟩
  | kick out => exact Moved.of_irqEnable hb _ _ hs rfl rfl
  | blocked out =>
    rw [WriteFrame.step]
    split_ifs
    · exact Moved.of_locals hb hs rfl rfl
    · exact Moved.of_locals hb hs rfl rfl
  | spin out =>
    rw [WriteFrame.step]
    split_ifs
    · exact Moved.of_locals hb hs rfl rfl
    · exact Moved.of_locals hb hs rfl rfl
  | spinHost out =>
    rw [WriteFrame.step]
    split_ifs
    · exact Moved.of_locals hb hs rfl rfl
    · exact Moved.of_locals hb hs rfl rfl
  | checkHost out =>
    rw [WriteFrame.step]
    split_ifs
    · exact Moved.of_locals hb hs rfl rfl
    · exact Moved.of_locals hb hs rfl rfl
  | finish => exact Moved.of_locals hb trivial rfl (by simp [accepted, Thread.put])

lemma ioctl_frame (sp : State) (req : IoctlRequest) :
    ∃ timeout, (sp.ioctl req).1 = { sp with timeout } := by
  cases req <;> rw [State.ioctl]
  · split_ifs <;> exact ⟨_, rfl⟩
  · split_ifs <;> exact ⟨sp.timeout, rfl⟩
  · exact ⟨sp.timeout, rfl⟩

lemma moved_thread {sp : State} (hb : sp.InBounds) {th : Thread} (hs : th.Sound sp) {o : Outcome}
    (h : th.step sp = some o) : Moved sp th o := by
  cases th with
  | idle => exact absurd h (by simp [Thread.step])
  | read fr pc => exact Option.some.inj h ▸ moved_read hb hs
  | write fr pc => exact Option.some.inj h ▸ moved_write hb hs
  | close nonblock =>
    rw [Thread.step] at h
    split_ifs at h
    · exact Option.some.inj h ▸ Moved.of_locals hb trivial rfl rfl
    · exact Option.some.inj h ▸ Moved.of_locals hb trivial rfl rfl
  | closeHost nonblock =>
    rw [Thread.step] at h
    split_ifs at h
    · exact Option.some.inj h ▸ Moved.of_locals hb trivial rfl rfl
    · exact Option.some.inj h ▸ Moved.of_locals hb trivial rfl rfl
    · exact Option.some.inj h ▸ Moved.of_locals hb trivial rfl rfl
  | ioctl req =>
    obtain ⟨timeout, htimeout⟩ := ioctl_frame sp req
    have ho : o = ⟨{ sp with timeout }, .idle, [], [.ioctl req (sp.ioctl req).2]⟩ := by
      rw [← htimeout]
      exact (Option.some.inj h).symm
    subst ho
    exact ⟨⟨hb.rxIn, hb.rxOut, hb.txIn, hb.txOut⟩, trivial, rfl,
      ⟨[], (List.append_nil _).symm, rfl⟩, rfl, rfl⟩

/-! ### The system -/

lemma served_timeoutCallback {sp : State} (hb : sp.InBounds) (control : BitVec 32) :
    Served sp (sp.timeoutCallback control).2 (sp.timeoutCallback control).1 := by
  have hbounds : ∀ hostInactive, ({ sp with hostInactive } : State).InBounds :=
    fun _ => ⟨hb.rxIn, hb.rxOut, hb.txIn, hb.txOut⟩
  rw [State.timeoutCallback]
  split_ifs
  · exact ⟨hbounds 0, rfl, rfl, rfl, (List.append_nil _).symm, rfl⟩
  · exact ⟨hbounds _, rfl, rfl, rfl, (List.append_nil _).symm, rfl⟩
  · exact ⟨hb, rfl, rfl, rfl, (List.append_nil _).symm, rfl⟩

lemma System.step_cases {s s' : System} {e : Event} (h : s.step e = some s') :
    (∃ turns sp log, e = .irq turns ∧ s.sp.irq turns = some (sp, log) ∧
      s' = { s with sp, log := s.log ++ log }) ∨
    (∃ control, e = .timeout control ∧ s.alarm = true ∧
      s' = { s with sp := (s.sp.timeoutCallback control).1,
                    log := s.log ++ (s.sp.timeoutCallback control).2 }) ∨
    (∃ c, e = .call c ∧ s.thread = .idle ∧ s' = { s with thread := c.start }) ∨
    (∃ o, e = .thread ∧ s.thread.step s.sp = some o ∧
      s' = { s with sp := o.sp, thread := o.thread, log := s.log ++ o.log,
                    done := s.done ++ o.done }) := by
  cases e with
  | irq turns =>
    cases hirq : s.sp.irq turns with
    | none => simp [System.step, hirq] at h
    | some p =>
      simp only [System.step, hirq, Option.some.injEq] at h
      exact .inl ⟨turns, p.1, p.2, rfl, hirq, h.symm⟩
  | timeout control =>
    rw [System.step] at h
    split_ifs at h with halarm
    exact .inr (.inl ⟨control, rfl, halarm, (Option.some.inj h).symm⟩)
  | call c =>
    cases hth : s.thread with
    | idle =>
      simp only [System.step, hth, Option.some.injEq] at h
      exact .inr (.inr (.inl ⟨c, rfl, rfl, h.symm⟩))
    | _ => simp [System.step, hth] at h
  | thread =>
    cases hth : s.thread.step s.sp with
    | none => simp [System.step, hth] at h
    | some o =>
      simp only [System.step, hth, Option.some.injEq] at h
      exact .inr (.inr (.inr ⟨o, rfl, rfl, h.symm⟩))

/-- The two queues account for every byte. -/
structure System.Sound (s : System) : Prop where
  inBounds : s.sp.InBounds
  thread : s.thread.Sound s.sp
  rx : received s.log = delivered s.done ++ s.thread.taken ++ s.sp.rx
  tx : accepted s.done ++ s.thread.put = transmitted s.log ++ s.sp.tx

lemma System.Sound.init (ticksPerSec : BitVec 32) : (System.init ticksPerSec).Sound where
  inBounds := ⟨BUF_LEN_pos, BUF_LEN_pos, BUF_LEN_pos, BUF_LEN_pos⟩
  thread := trivial
  rx := by
    have hrx : (System.init ticksPerSec).sp.rx = [] := contents_self BUF_LEN_pos _
    rw [hrx]
    rfl
  tx := by
    have htx : (System.init ticksPerSec).sp.tx = [] := contents_self BUF_LEN_pos _
    rw [htx]
    rfl

lemma System.Sound.served {s : System} (h : s.Sound) {sp : State} {log : List Access}
    (hserved : Served s.sp log sp) : ({ s with sp, log := s.log ++ log } : System).Sound where
  inBounds := hserved.inBounds
  thread := h.thread.served hserved
  rx := by rw [received_append, h.rx, hserved.rx, List.append_assoc]
  tx := by rw [transmitted_append, h.tx, hserved.tx, List.append_assoc]

lemma System.Sound.moved {s : System} (h : s.Sound) {o : Outcome} (hmoved : Moved s.sp s.thread o) :
    ({ s with sp := o.sp, thread := o.thread, log := s.log ++ o.log,
              done := s.done ++ o.done } : System).Sound where
  inBounds := hmoved.inBounds
  thread := hmoved.sound
  rx := by
    rw [received_append, hmoved.received, List.append_nil, h.rx, List.append_assoc, hmoved.rx,
      delivered_append, List.append_assoc, List.append_assoc, List.append_assoc]
  tx := by
    obtain ⟨bytes, hbytes, hput⟩ := hmoved.tx
    rw [transmitted_append, hmoved.transmitted, List.append_nil, accepted_append, List.append_assoc,
      hput, ← List.append_assoc, h.tx, hbytes, List.append_assoc]

lemma System.Sound.step {s s' : System} (h : s.Sound) {e : Event} (hstep : s.step e = some s') :
    s'.Sound := by
  rcases System.step_cases hstep with ⟨turns, sp, log, -, hirq, rfl⟩ | ⟨control, -, -, rfl⟩ |
    ⟨c, -, hidle, rfl⟩ | ⟨o, -, hth, rfl⟩
  · exact h.served (State.served_irq h.inBounds hirq)
  · exact h.served (served_timeoutCallback h.inBounds control)
  · have hrx := h.rx
    have htx := h.tx
    rw [hidle] at hrx htx
    cases c <;> exact ⟨h.inBounds, by first | trivial | exact rfl | exact Nat.zero_le _, hrx, htx⟩
  · exact h.moved (moved_thread h.inBounds h.thread hth)

lemma System.Sound.run {ticksPerSec : BitVec 32} {events : List Event} {s : System}
    (hrun : run System.step (System.init ticksPerSec) events = some s) : s.Sound :=
  invariant (fun _ _ _ h hstep => h.step hstep) (System.Sound.init ticksPerSec) hrun

/-- Two bytes arrive and are read, a third one arrives while the read is copying, and one byte is
written and sent. -/
def echoRun : List Event :=
  [.irq [⟨0x100#32, [0x00018041#32, 0x00008042#32, 0x0#32]⟩, ⟨0x0#32, []⟩],
    .call (.read 2 false), .thread, .thread, .thread, .thread,
    .irq [⟨0x100#32, [0x00008043#32, 0x0#32]⟩, ⟨0x0#32, []⟩],
    .thread, .thread, .thread, .thread, .thread,
    .call (.write [0x41#8] false), .thread, .thread, .thread, .thread, .thread, .thread, .thread,
    .irq [⟨0x00400200#32, []⟩, ⟨0x0#32, []⟩], .thread, .thread]

/-- In every run the bytes taken from the device are, in order, those that the reads have delivered,
those that the current read has taken, and those in the receive buffer. -/
theorem receive_queue (ticksPerSec : BitVec 32) (events : List Event) (s : System)
    (hrun : run System.step (System.init ticksPerSec) events = some s) :
    received s.log = delivered s.done ++ s.thread.taken ++ s.sp.rx ∧ s.sp.rx.length < BUF_LEN := by
  have h := System.Sound.run hrun
  refine ⟨h.rx, ?_⟩
  rw [State.rx, length_contents]
  exact size_lt h.inBounds.rxOut h.inBounds.rxIn

theorem receive_queue_echoRun : ∃ s, run System.step (System.init 1000#32) echoRun = some s ∧
    delivered s.done = [0x41#8, 0x42#8] ∧
    received s.log = delivered s.done ++ s.thread.taken ++ s.sp.rx ∧ s.sp.rx.length < BUF_LEN :=
  ⟨_, rfl, rfl, receive_queue 1000#32 echoRun _ rfl⟩

/-- In every run the bytes that the writes have accepted, and those that the current write has put
into the buffer, are, in order, those stored to the device and those in the transmit buffer. -/
theorem transmit_queue (ticksPerSec : BitVec 32) (events : List Event) (s : System)
    (hrun : run System.step (System.init ticksPerSec) events = some s) :
    accepted s.done ++ s.thread.put = transmitted s.log ++ s.sp.tx ∧ s.sp.tx.length < BUF_LEN := by
  have h := System.Sound.run hrun
  refine ⟨h.tx, ?_⟩
  rw [State.tx, length_contents]
  exact size_lt h.inBounds.txOut h.inBounds.txIn

theorem transmit_queue_echoRun : ∃ s, run System.step (System.init 1000#32) echoRun = some s ∧
    transmitted s.log = [0x41#8] ∧
    accepted s.done ++ s.thread.put = transmitted s.log ++ s.sp.tx ∧ s.sp.tx.length < BUF_LEN :=
  ⟨_, rfl, rfl, transmit_queue 1000#32 echoRun _ rfl⟩

/-- A call that is copying stays inside the buffer, and off the slots that the handler can access:
those that are free to receive, and those that wait to be sent. So the handler does not write the
slot that a read copies, nor does it matter to the handler what a write has put into its slot. -/
theorem copy_race_free (ticksPerSec : BitVec 32) (events : List Event) (s : System)
    (hrun : run System.step (System.init ticksPerSec) events = some s) :
    (∀ fr inn out n i, s.thread = .read fr (.copy inn out n i) → i < n → out + i < BUF_LEN ∧
      (∀ k, s.sp.rx.length + k < BUF_LEN → out + i ≠ (s.sp.rxIn + k) % BUF_LEN) ∧
      ∀ turns sp log, s.sp.irq turns = some (sp, log) →
        sp.rxBuf (out + i) = s.sp.rxBuf (out + i)) ∧
    (∀ fr inn out n i, s.thread = .write fr (.copy inn out n i) → i < n → inn + i < BUF_LEN ∧
      (∀ k < s.sp.tx.length, inn + i ≠ (s.sp.txOut + k) % BUF_LEN) ∧
      ∀ turns b, (s.sp.setTx (inn + i) b).irq turns =
        (s.sp.irq turns).map fun p => (p.1.setTx (inn + i) b, p.2)) := by
  have h := System.Sound.run hrun
  have hb := h.inBounds
  have hrxlen : s.sp.rx.length = size BUF_LEN s.sp.rxOut s.sp.rxIn := length_contents _
  have htxlen : s.sp.tx.length = size BUF_LEN s.sp.txOut s.sp.txIn := length_contents _
  constructor
  · intro fr inn out n i hth hi
    have hw : ReadWindow s.sp fr out n i := by
      have hsound := h.thread
      rwa [hth] at hsound
    have hring := hw.inRing
    have hle := hw.le_rx
    refine ⟨by omega, ?_, ?_⟩
    · intro k hk
      have hne := free_ne_held hb.rxOut hb.rxIn (k := k) (i := i) (by omega) (by omega)
      rwa [← hw.out_eq, Nat.mod_eq_of_lt (by omega)] at hne
    · intro turns sp log hirq
      have hserved := State.served_irq hb hirq
      have hth' : (Thread.read fr (.copy inn out n i)).Sound s.sp := hw
      have hw' : ReadWindow sp fr out n i := hth'.served hserved
      have hbyte := hw'.getElem?_rx hi
      rw [hserved.rx, List.getElem?_append_left (by omega), hw.getElem?_rx hi] at hbyte
      exact (Option.some.inj hbyte).symm
  · intro fr inn out n i hth hi
    have hw : WriteWindow s.sp fr inn n i := by
      have hsound := h.thread
      rwa [hth] at hsound
    have hring := hw.inRing
    have hroom := hw.room
    have hslot : inn + i < BUF_LEN := by omega
    have hfree : s.sp.FreeTx (inn + i) := by
      refine ⟨i, by omega, ?_⟩
      rw [← hw.in_eq, Nat.mod_eq_of_lt hslot]
    exact ⟨hslot, fun k hk => (hfree.ne hb hk).symm,
      fun turns b => State.irq_setTx b turns hb hfree⟩

theorem copy_race_free_echoRun : ∃ s s' fr fr',
    run System.step (System.init 1000#32) (echoRun.take 7) = some s ∧
    s.thread = .read fr (.copy 2 0 2 1) ∧
    (0 + 1 < BUF_LEN ∧ (∀ k, s.sp.rx.length + k < BUF_LEN → 0 + 1 ≠ (s.sp.rxIn + k) % BUF_LEN) ∧
      ∀ turns sp log, s.sp.irq turns = some (sp, log) → sp.rxBuf (0 + 1) = s.sp.rxBuf (0 + 1)) ∧
    run System.step (System.init 1000#32) (echoRun.take 15) = some s' ∧
    s'.thread = .write fr' (.copy 0 0 1 0) ∧
    (0 + 0 < BUF_LEN ∧ (∀ k < s'.sp.tx.length, 0 + 0 ≠ (s'.sp.txOut + k) % BUF_LEN) ∧
      ∀ turns b, (s'.sp.setTx (0 + 0) b).irq turns =
        (s'.sp.irq turns).map fun p => (p.1.setTx (0 + 0) b, p.2)) :=
  ⟨_, _, _, _, rfl, rfl, (copy_race_free 1000#32 (echoRun.take 7) _ rfl).1 _ _ _ _ _ rfl (by decide),
    rfl, rfl, (copy_race_free 1000#32 (echoRun.take 15) _ rfl).2 _ _ _ _ _ rfl (by decide)⟩

end JtagUart

end VecadNiosv
