import VecadNiosv.Library.RingBuffer
import VecadNiosv.Library.EventRun

/-!
# The JTAG UART driver

The interrupt handler moves bytes between the device and two ring buffers, and the calls of the
program move bytes between these buffers and the caller's. The handler can run between any two
accesses of a call to the shared state, and so can the alarm that watches the host.
-/

namespace VecadNiosv

namespace JtagUart

def DATA_DATA_MSK : BitVec 32 := 0x000000FF#32

def DATA_RVALID_MSK : BitVec 32 := 0x00008000#32

def DATA_RAVAIL_MSK : BitVec 32 := 0xFFFF0000#32

def DATA_RAVAIL_OFST : ℕ := 16

def CONTROL_RE_MSK : BitVec 32 := 0x00000001#32

def CONTROL_WE_MSK : BitVec 32 := 0x00000002#32

def CONTROL_RI_MSK : BitVec 32 := 0x00000100#32

def CONTROL_WI_MSK : BitVec 32 := 0x00000200#32

def CONTROL_AC_MSK : BitVec 32 := 0x00000400#32

def CONTROL_WSPACE_MSK : BitVec 32 := 0xFFFF0000#32

def CONTROL_WSPACE_OFST : ℕ := 16

/-- An access of the driver to a register of the device, with the word that it moves. The handler
ends a turn by a load of CONTROL whose word it drops. -/
inductive Access where
  | loadData (word : BitVec 32)
  | storeData (word : BitVec 32)
  | loadControl (word : BitVec 32)
  | storeControl (word : BitVec 32)
  | dummyLoadControl
  deriving DecidableEq, Repr

/-- The number of bytes that the device has room for, by a word of CONTROL. -/
def wspace (control : BitVec 32) : ℕ :=
  ((control &&& CONTROL_WSPACE_MSK) >>> CONTROL_WSPACE_OFST).toNat

def INT_MAX : ℕ := 2147483647

def BUF_LEN : ℕ := 2048

def DEFAULT_TIMEOUT : ℕ := 10

/-- `altera_avalon_jtag_uart_state`. -/
structure State where
  timeout : ℕ
  irqEnable : BitVec 32
  hostInactive : ℕ
  rxIn : ℕ
  rxOut : ℕ
  txIn : ℕ
  txOut : ℕ
  rxBuf : ℕ → BitVec 8
  txBuf : ℕ → BitVec 8

/-! ### The interrupt handler -/

/-- What the handler finds at the device in one turn of its loop: the word of CONTROL, and the
words that its loads of DATA return. -/
structure IrqTurn where
  control : BitVec 32
  data : List (BitVec 32)
  deriving DecidableEq, Repr

namespace State

def pushRx (sp : State) (word : BitVec 32) : State :=
  { sp with
    rxBuf := Function.update sp.rxBuf sp.rxIn ((word &&& DATA_DATA_MSK).setWidth 8)
    rxIn := (sp.rxIn + 1) % BUF_LEN }

/-- The inner loop of the handler, which ends with the last word of DATA. There is no result when
these are not the loads that the loop makes. -/
def receiveLoop (sp : State) (data : BitVec 32) : List (BitVec 32) → Option (State × BitVec 32)
  | [] => if (sp.rxIn + 1) % BUF_LEN = sp.rxOut then some (sp, data) else none
  | word :: loads =>
    if (sp.rxIn + 1) % BUF_LEN = sp.rxOut then none
    else if word &&& DATA_RVALID_MSK = 0#32 then if loads = [] then some (sp, word) else none
    else receiveLoop (sp.pushRx word) word loads

/-- The branch of the handler for a read interrupt. -/
def receiveIrq (sp : State) (loads : List (BitVec 32)) : Option (State × List Access) :=
  match sp.receiveLoop (1#32 <<< DATA_RAVAIL_OFST) loads with
  | none => none
  | some (sp, data) =>
    if data &&& DATA_RAVAIL_MSK ≠ 0#32 then
      let irqEnable := sp.irqEnable &&& ~~~CONTROL_RE_MSK
      some ({ sp with irqEnable },
        loads.map .loadData ++ [.storeControl irqEnable, .dummyLoadControl])
    else some (sp, loads.map .loadData)

/-- The loop that stores bytes to the device, from the space that is left. -/
def transmitLoop : ℕ → State → State × List (BitVec 8)
  | 0, sp => (sp, [])
  | space + 1, sp =>
    if sp.txOut = sp.txIn then (sp, [])
    else
      let (sp', sent) := transmitLoop space { sp with txOut := (sp.txOut + 1) % BUF_LEN }
      (sp', sp.txBuf sp.txOut :: sent)

/-- The branch of the handler for a write interrupt. -/
def transmitIrq (sp : State) (control : BitVec 32) : State × List Access :=
  let space := wspace control
  let (sp, sent) := transmitLoop space sp
  let stores := sent.map fun b => .storeData (b.setWidth 32)
  if 0 < space - sent.length then
    let irqEnable := sp.irqEnable &&& ~~~CONTROL_WE_MSK
    ({ sp with irqEnable }, stores ++ [.storeControl irqEnable, .dummyLoadControl])
  else (sp, stores)

/-- The first half of a turn. Without a read interrupt nothing is loaded from DATA. -/
def readTurn (sp : State) (turn : IrqTurn) : Option (State × List Access) :=
  if turn.control &&& CONTROL_RI_MSK ≠ 0#32 then sp.receiveIrq turn.data
  else if turn.data = [] then some (sp, []) else none

/-- The second half of a turn. -/
def writeTurn (sp : State) (turn : IrqTurn) : State × List Access :=
  if turn.control &&& CONTROL_WI_MSK ≠ 0#32 then sp.transmitIrq turn.control else (sp, [])

/-- `altera_avalon_jtag_uart_irq`, which returns in the turn that finds nothing more to do. -/
def irq (sp : State) : List IrqTurn → Option (State × List Access)
  | [] => none
  | turn :: turns =>
    if turn.control &&& (CONTROL_RI_MSK ||| CONTROL_WI_MSK) = 0#32 then
      if turn.data = [] ∧ turns = [] then some (sp, [.loadControl turn.control]) else none
    else
      match sp.readTurn turn with
      | none => none
      | some (sp, loads) =>
        let (sp, stores) := sp.writeTurn turn
        match irq sp turns with
        | none => none
        | some (sp, rest) => some (sp, .loadControl turn.control :: (loads ++ stores ++ rest))

/-- `altera_avalon_jtag_uart_timeout`, with the word of CONTROL that it loads. -/
def timeoutCallback (sp : State) (control : BitVec 32) : State × List Access :=
  if control &&& CONTROL_AC_MSK ≠ 0#32 then
    ({ sp with hostInactive := 0 },
      [.loadControl control, .storeControl (sp.irqEnable ||| CONTROL_AC_MSK)])
  else if sp.hostInactive < INT_MAX - 2 then
    ({ sp with hostInactive := sp.hostInactive + 1 }, [.loadControl control])
  else (sp, [.loadControl control])

end State

/-! ### The calls -/

inductive Errno where
  | ewouldblock
  | eio
  | enotty
  deriving DecidableEq, Repr

inductive IoctlRequest where
  | TIOCSTIMEOUT (timeout : ℤ)
  | TIOCGCONNECTED
  | other
  deriving DecidableEq, Repr

/-- `altera_avalon_jtag_uart_ioctl`, with the answer that it leaves in its argument. -/
def State.ioctl (sp : State) : IoctlRequest → State × Except Errno ℕ
  | .TIOCSTIMEOUT timeout =>
    if sp.timeout ≠ INT_MAX then
      ({ sp with timeout := if 2 ≤ timeout ∧ timeout < INT_MAX then timeout.toNat else INT_MAX - 1 },
        .ok 0)
    else (sp, .error .enotty)
  | .TIOCGCONNECTED =>
    if sp.timeout ≠ INT_MAX then (sp, .ok (if sp.hostInactive < sp.timeout then 1 else 0))
    else (sp, .error .enotty)
  | .other => (sp, .error .enotty)

/-- The locals of `altera_avalon_jtag_uart_read`: the space left, whether `O_NONBLOCK` is among the
flags, and the bytes copied to the caller's buffer. -/
structure ReadFrame where
  space : ℕ
  nonblock : Bool
  buffer : List (BitVec 8)
  deriving DecidableEq, Repr

/-- Where a read is, between its accesses to the shared state, with the locals `in`, `out` and `n`
as far as they are set. -/
inductive ReadPc where
  | outer
  | loadIn
  | loadOut (inn : ℕ)
  | copy (inn out n i : ℕ)
  | storeOut (inn out n : ℕ)
  | afterLoop (inn : ℕ)
  | spin (inn : ℕ)
  | spinHost (inn : ℕ)
  | recheck (inn : ℕ)
  | finish
  deriving DecidableEq, Repr

/-- The locals of `altera_avalon_jtag_uart_write`: the bytes of the caller, how many of them are
in the buffer, and whether `O_NONBLOCK` is among the flags. -/
structure WriteFrame where
  data : List (BitVec 8)
  sent : ℕ
  nonblock : Bool
  deriving DecidableEq, Repr

inductive WritePc where
  | fill (out : ℕ)
  | loadOut (inn : ℕ)
  | copy (inn out n i : ℕ)
  | storeIn (inn out n : ℕ)
  | kick (out : ℕ)
  | blocked (out : ℕ)
  | spin (out : ℕ)
  | spinHost (out : ℕ)
  | checkHost (out : ℕ)
  | finish
  deriving DecidableEq, Repr

/-- A call that has returned, with its result and the bytes that it has moved. -/
inductive Done where
  | read (space : ℕ) (nonblock : Bool) (bytes : List (BitVec 8)) (result : Except Errno ℕ)
  | write (data : List (BitVec 8)) (nonblock : Bool) (sent : ℕ) (result : Except Errno ℕ)
  | close (nonblock : Bool) (result : Except Errno ℕ)
  | ioctl (req : IoctlRequest) (result : Except Errno ℕ)

/-- The only thread of the program. -/
inductive Thread where
  | idle
  | read (fr : ReadFrame) (pc : ReadPc)
  | write (fr : WriteFrame) (pc : WritePc)
  | close (nonblock : Bool)
  | closeHost (nonblock : Bool)
  | ioctl (req : IoctlRequest)

inductive Call where
  | read (space : ℕ) (nonblock : Bool)
  | write (data : List (BitVec 8)) (nonblock : Bool)
  | close (nonblock : Bool)
  | ioctl (req : IoctlRequest)

def Call.start : Call → Thread
  | read space nonblock => .read ⟨space, nonblock, []⟩ .outer
  | write data nonblock => .write ⟨data, 0, nonblock⟩ (.fill 0)
  | close nonblock => .close nonblock
  | ioctl req => .ioctl req

/-- The number of bytes that `read` can take at once, up to the end of the buffer. -/
def rxAvailable (inn out : ℕ) : ℕ := if out ≤ inn then inn - out else BUF_LEN - out

/-- The number of bytes that `write` can put at once, up to the end of the buffer. -/
def txSpace (inn out : ℕ) : ℕ :=
  if inn < out then out - 1 - inn
  else if 0 < out then BUF_LEN - inn
  else BUF_LEN - 1 - inn

def ReadFrame.result (fr : ReadFrame) : Except Errno ℕ :=
  if fr.buffer ≠ [] then .ok fr.buffer.length
  else if fr.nonblock then .error .ewouldblock
  else .error .eio

def WriteFrame.result (fr : WriteFrame) : Except Errno ℕ :=
  if fr.sent ≠ 0 then .ok fr.sent
  else if fr.nonblock then .error .ewouldblock
  else .error .eio

/-- What a step of the thread leaves behind: the state, the thread, its accesses to the device and
the call that has returned, if any. -/
structure Outcome where
  sp : State
  thread : Thread
  log : List Access
  done : List Done

def ReadFrame.step (sp : State) (fr : ReadFrame) : ReadPc → Outcome
  | .outer => ⟨sp, .read fr (if 0 < fr.space then .loadIn else .finish), [], []⟩
  | .loadIn => ⟨sp, .read fr (.loadOut sp.rxIn), [], []⟩
  | .loadOut inn =>
    let n := rxAvailable inn sp.rxOut
    if n = 0 then ⟨sp, .read fr (.afterLoop inn), [], []⟩
    else ⟨sp, .read fr (.copy inn sp.rxOut (min n fr.space) 0), [], []⟩
  | .copy inn out n i =>
    if i < n then
      ⟨sp, .read { fr with buffer := fr.buffer ++ [sp.rxBuf (out + i)] } (.copy inn out n (i + 1)),
        [], []⟩
    else ⟨sp, .read fr (.storeOut inn out n), [], []⟩
  | .storeOut inn out n =>
    ⟨{ sp with rxOut := (out + n) % BUF_LEN },
      .read { fr with space := fr.space - n } (if 0 < fr.space - n then .loadIn else .afterLoop inn),
      [], []⟩
  | .afterLoop inn =>
    ⟨sp, .read fr (if fr.buffer ≠ [] ∨ fr.nonblock then .finish else .spin inn), [], []⟩
  | .spin inn => ⟨sp, .read fr (if inn = sp.rxIn then .spinHost inn else .recheck inn), [], []⟩
  | .spinHost inn =>
    ⟨sp, .read fr (if sp.hostInactive < sp.timeout then .spin inn else .recheck inn), [], []⟩
  | .recheck inn => ⟨sp, .read fr (if inn = sp.rxIn then .finish else .outer), [], []⟩
  | .finish =>
    let done := .read (fr.space + fr.buffer.length) fr.nonblock fr.buffer fr.result
    if fr.buffer ≠ [] then
      -- interrupts are off from here to the store, so the handler does not come in between
      let irqEnable := sp.irqEnable ||| CONTROL_RE_MSK
      ⟨{ sp with irqEnable }, .idle, [.storeControl irqEnable], [done]⟩
    else ⟨sp, .idle, [], [done]⟩

def WriteFrame.step (sp : State) (fr : WriteFrame) : WritePc → Outcome
  | .fill out =>
    ⟨sp, .write fr (if 0 < fr.data.length - fr.sent then .loadOut sp.txIn else .kick out), [], []⟩
  | .loadOut inn =>
    let n := txSpace inn sp.txOut
    if n = 0 then ⟨sp, .write fr (.kick sp.txOut), [], []⟩
    else ⟨sp, .write fr (.copy inn sp.txOut (min n (fr.data.length - fr.sent)) 0), [], []⟩
  | .copy inn out n i =>
    if i < n then
      ⟨{ sp with txBuf := Function.update sp.txBuf (inn + i) (fr.data.getD (fr.sent + i) 0#8) },
        .write fr (.copy inn out n (i + 1)), [], []⟩
    else ⟨sp, .write fr (.storeIn inn out n), [], []⟩
  | .storeIn inn out n =>
    ⟨{ sp with txIn := (inn + n) % BUF_LEN }, .write { fr with sent := fr.sent + n } (.fill out),
      [], []⟩
  | .kick out =>
    let irqEnable := sp.irqEnable ||| CONTROL_WE_MSK
    ⟨{ sp with irqEnable }, .write fr (.blocked out), [.storeControl irqEnable], []⟩
  | .blocked out =>
    ⟨sp, .write fr (if 0 < fr.data.length - fr.sent ∧ ¬fr.nonblock then .spin out else .finish),
      [], []⟩
  | .spin out => ⟨sp, .write fr (if out = sp.txOut then .spinHost out else .checkHost out), [], []⟩
  | .spinHost out =>
    ⟨sp, .write fr (if sp.hostInactive < sp.timeout then .spin out else .checkHost out), [], []⟩
  | .checkHost out => ⟨sp, .write fr (if sp.hostInactive ≠ 0 then .finish else .fill out), [], []⟩
  | .finish => ⟨sp, .idle, [], [.write fr.data fr.nonblock fr.sent fr.result]⟩

def Thread.step (sp : State) : Thread → Option Outcome
  | .idle => none
  | .read fr pc => some (fr.step sp pc)
  | .write fr pc => some (fr.step sp pc)
  | .close nonblock =>
    if sp.txOut ≠ sp.txIn then some ⟨sp, .closeHost nonblock, [], []⟩
    else some ⟨sp, .idle, [], [.close nonblock (.ok 0)]⟩
  | .closeHost nonblock =>
    if sp.hostInactive < sp.timeout then
      if nonblock then some ⟨sp, .idle, [], [.close nonblock (.error .ewouldblock)]⟩
      else some ⟨sp, .close nonblock, [], []⟩
    else some ⟨sp, .idle, [], [.close nonblock (.ok 0)]⟩
  | .ioctl req =>
    let (sp, result) := sp.ioctl req
    some ⟨sp, .idle, [], [.ioctl req result]⟩

/-- The driver with its only thread, whether the alarm is registered, and the history of the
accesses to the device and of the calls that have returned. -/
structure System where
  sp : State
  thread : Thread
  alarm : Bool
  log : List Access
  done : List Done

/-- What can happen next. Interrupts and the alarm come at any time, a call only to an idle
thread. -/
inductive Event where
  | irq (turns : List IrqTurn)
  | timeout (control : BitVec 32)
  | call (c : Call)
  | thread

/-- `altera_avalon_jtag_uart_init` on a state in static memory. Without a system clock there is no
alarm to watch the host, and the timeout is one that the watch never reaches. -/
def System.init (ticksPerSec : BitVec 32) : System where
  sp :=
    { timeout := if ticksPerSec ≠ 0#32 then DEFAULT_TIMEOUT else INT_MAX
      irqEnable := CONTROL_RE_MSK
      hostInactive := 0
      rxIn := 0
      rxOut := 0
      txIn := 0
      txOut := 0
      rxBuf := fun _ => 0#8
      txBuf := fun _ => 0#8 }
  thread := .idle
  alarm := ticksPerSec ≠ 0#32
  log := [.storeControl CONTROL_RE_MSK]
  done := []

def System.step (s : System) : Event → Option System
  | .irq turns =>
    match s.sp.irq turns with
    | none => none
    | some (sp, log) => some { s with sp, log := s.log ++ log }
  | .timeout control =>
    if s.alarm then
      let (sp, log) := s.sp.timeoutCallback control
      some { s with sp, log := s.log ++ log }
    else none
  | .call c =>
    match s.thread with
    | .idle => some { s with thread := c.start }
    | _ => none
  | .thread =>
    match s.thread.step s.sp with
    | none => none
    | some o => some { s with
        sp := o.sp, thread := o.thread, log := s.log ++ o.log, done := s.done ++ o.done }

end JtagUart

end VecadNiosv
