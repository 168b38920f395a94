import VecadNiosv.JtagUartInterrupts

/-!
# The calls of the JTAG UART driver

What a call returns, whatever the handler and the alarm do while it runs. A call that fails or that
moves fewer bytes than it was asked to has found the buffer without the others, and a call that is
not told to return at once has also found the host inactive.
-/

namespace VecadNiosv

namespace JtagUart

open RingBuffer EventRun

def Event.isCall : Event → Bool
  | .call _ => true
  | _ => false

def Event.isThread : Event → Bool
  | .thread => true
  | _ => false

/-- The history of the accesses only grows. -/
lemma log_append {s s' : System} {events : List Event} (hrun : run System.step s events = some s') :
    ∃ log, s'.log = s.log ++ log := by
  have hstep (mid : System) (e : Event) (mid' : System) (h : ∃ log, mid.log = s.log ++ log)
      (hmid : mid.step e = some mid') : ∃ log, mid'.log = s.log ++ log := by
    obtain ⟨log, hlog⟩ := h
    rcases System.step_cases hmid with ⟨turns, sp, log', -, -, rfl⟩ | ⟨control, -, -, rfl⟩ |
      ⟨c, -, -, rfl⟩ | ⟨o, -, -, rfl⟩
    · exact ⟨log ++ log', by rw [hlog, List.append_assoc]⟩
    · exact ⟨log ++ (mid.sp.timeoutCallback control).2, by rw [hlog, List.append_assoc]⟩
    · exact ⟨log, hlog⟩
    · exact ⟨log ++ o.log, by rw [hlog, List.append_assoc]⟩
  exact invariant hstep ⟨[], (List.append_nil _).symm⟩ hrun

lemma sound_of_run {s s' : System} (h : s.Sound) {events : List Event}
    (hrun : run System.step s events = some s') : s'.Sound :=
  invariant (fun _ _ _ h hstep => h.step hstep) h hrun

/-- What is known of a call, after the events since a state in which it was called, while it is in
progress and once it has returned. The handler and the alarm keep it, and so does each step of the
call, whose last one returns what it should. -/
structure Contract (s : System) where
  Progress : List Event → State → Thread → Prop
  Returned : List Event → Done → Prop
  later : ∀ events e sp th, Progress events sp th → Progress (events ++ [e]) sp th
  returned_later : ∀ events e d, Returned events d → Returned (events ++ [e]) d
  served : ∀ events sp th log sp', Progress events sp th → th.Sound sp → sp.InBounds →
    Served sp log sp' → Progress events sp' th
  step : ∀ events mid o, run System.step s events = some mid → mid.Sound →
    Progress events mid.sp mid.thread → mid.thread.step mid.sp = some o →
    (o.done = [] ∧ Progress events o.sp o.thread) ∨
      (o.thread = .idle ∧ ∃ d, o.done = [d] ∧ Returned events d)

namespace Contract

variable {s : System} (c : Contract s)

/-- The call is in progress, or it has returned. -/
def Tracks (events : List Event) (s' : System) : Prop :=
  (s'.done = s.done ∧ c.Progress events s'.sp s'.thread) ∨
    (s'.thread = .idle ∧ ∃ d, s'.done = s.done ++ [d] ∧ c.Returned events d)

variable {c}

lemma Tracks.later {s' : System} {events : List Event} (h : c.Tracks events s') (e : Event) :
    c.Tracks (events ++ [e]) s' := by
  rcases h with ⟨hdone, hprogress⟩ | ⟨hidle, d, hdone, hreturned⟩
  · exact .inl ⟨hdone, c.later events e _ _ hprogress⟩
  · exact .inr ⟨hidle, d, hdone, c.returned_later events e d hreturned⟩

lemma Tracks.served {s' : System} {events : List Event} (h : c.Tracks events s')
    (hsound : s'.Sound) {sp : State} {log : List Access} (hserved : Served s'.sp log sp) :
    c.Tracks events { s' with sp, log := s'.log ++ log } := by
  rcases h with ⟨hdone, hprogress⟩ | hreturned
  · exact .inl ⟨hdone, c.served events _ _ log sp hprogress hsound.thread hsound.inBounds hserved⟩
  · exact .inr hreturned

lemma Tracks.step {mid mid' : System} {events : List Event} (h : c.Tracks events mid)
    (hrun : run System.step s events = some mid) (hsound : mid.Sound) {e : Event}
    (he : e.isCall = false) (hstep : mid.step e = some mid') : c.Tracks (events ++ [e]) mid' := by
  apply Tracks.later
  rcases System.step_cases hstep with ⟨turns, sp, log, -, hirq, rfl⟩ | ⟨control, -, -, rfl⟩ |
    ⟨call, rfl, -, -⟩ | ⟨o, -, ho, rfl⟩
  · exact h.served hsound (State.served_irq hsound.inBounds hirq)
  · exact h.served hsound (served_timeoutCallback hsound.inBounds control)
  · exact absurd he (by simp [Event.isCall])
  · rcases h with ⟨hdone, hprogress⟩ | ⟨hidle, -⟩
    · rcases c.step events mid o hrun hsound hprogress ho with ⟨hnone, hnext⟩ |
        ⟨hidle, d, hlast, hreturned⟩
      · refine .inl ⟨?_, hnext⟩
        rw [hnone, hdone, List.append_nil]
      · refine .inr ⟨hidle, d, ?_, hreturned⟩
        rw [hlast, hdone]
    · rw [hidle] at ho
      exact absurd ho (by simp [Thread.step])

/-- A call that has returned has returned what it should. -/
theorem returns (hsound : s.Sound) (hstart : c.Progress [] s.sp s.thread)
    (hidle : ∀ events sp, ¬c.Progress events sp .idle) {events : List Event} {s' : System}
    (hcalls : ∀ e ∈ events, e.isCall = false) (hrun : run System.step s events = some s')
    (hreturned : s'.thread = .idle) : ∃ d, s'.done = s.done ++ [d] ∧ c.Returned events d := by
  have htracks : c.Tracks events s' := by
    apply invariant_history _ _ hrun
    · intro pre mid e mid' he hpre h hstep
      exact h.step hpre (sound_of_run hsound hpre) (hcalls e he) hstep
    · exact .inl ⟨rfl, hstart⟩
  rcases htracks with ⟨-, hprogress⟩ | ⟨-, hd⟩
  · rw [hreturned] at hprogress
    exact absurd hprogress (hidle events s'.sp)
  · exact hd

end Contract

/-- The parameters of a read, the number of bytes that were in the buffer when it was called, and
whether the buffer has been empty and the host inactive since then. -/
structure ReadHistory where
  space : ℕ
  nonblock : Bool
  available : ℕ
  empty : Prop
  inactive : Prop

/-- The bytes that the read has copied but not taken out of the buffer. -/
def ReadPc.copied : ReadPc → ℕ
  | .copy _ _ _ i => i
  | .storeOut _ _ n => n
  | _ => 0

namespace ReadHistory

/-- Why the read is where it is. -/
def Explains (hist : ReadHistory) (sp : State) (fr : ReadFrame) : ReadPc → Prop
  | .loadOut inn =>
    hist.available ≤ fr.buffer.length + size BUF_LEN sp.rxOut inn ∧ (inn = sp.rxOut → hist.empty)
  | .afterLoop _ =>
    min hist.space hist.available ≤ fr.buffer.length ∧ (fr.buffer = [] → hist.empty)
  | .spin _ | .spinHost _ => min hist.space hist.available ≤ fr.buffer.length ∧ hist.empty
  | .recheck inn =>
    min hist.space hist.available ≤ fr.buffer.length ∧ hist.empty ∧
      (inn = sp.rxIn → hist.inactive)
  | .finish =>
    min hist.space hist.available ≤ fr.buffer.length ∧
      (fr.buffer = [] → hist.space = 0 ∨ hist.empty ∧ (hist.nonblock = true ∨ hist.inactive))
  | _ => True

structure Progress (hist : ReadHistory) (sp : State) (fr : ReadFrame) (pc : ReadPc) : Prop where
  nonblock : fr.nonblock = hist.nonblock
  space : fr.space + fr.buffer.length = hist.space + pc.copied
  available : hist.available ≤ (Thread.read fr pc).taken.length + sp.rx.length
  explains : hist.Explains sp fr pc

/-- What the read returns. -/
structure Returns (hist : ReadHistory) (bytes : List (BitVec 8)) (result : Except Errno ℕ) :
    Prop where
  le_space : bytes.length ≤ hist.space
  min_le : min hist.space hist.available ≤ bytes.length
  ok : bytes ≠ [] → result = .ok bytes.length
  error : bytes = [] → result = .error (if hist.nonblock then .ewouldblock else .eio)
  reason : bytes = [] → hist.space = 0 ∨ hist.empty ∧ (hist.nonblock = true ∨ hist.inactive)

variable {hist : ReadHistory} {sp sp' : State} {fr : ReadFrame} {pc : ReadPc}

/-- The handler and the alarm do not take away a reason. -/
lemma Progress.served (h : hist.Progress sp fr pc) (hs : pc.Sound sp fr) (hb : sp.InBounds)
    {log : List Access} (hserved : Served sp log sp') : hist.Progress sp' fr pc := by
  refine ⟨h.nonblock, h.space, ?_, ?_⟩
  · have havailable := h.available
    rw [hserved.rx, List.length_append]
    omega
  · have hexplains := h.explains
    cases pc with
    | loadOut inn => rwa [Explains, hserved.rxOut]
    | recheck inn =>
      refine ⟨hexplains.1, hexplains.2.1, ?_⟩
      intro heq
      have hnil : sp'.rx = [] := by
        rw [State.rx_eq_nil_iff hserved.inBounds, hserved.rxOut, ← heq]
        exact hs.2.symm
      rw [hserved.rx, List.append_eq_nil_iff, State.rx_eq_nil_iff hb] at hnil
      exact hexplains.2.2 (hs.2.trans hnil.1)
    | _ => exact hexplains

lemma Progress.mono (h : hist.Progress sp fr pc) {empty inactive : Prop}
    (hempty : hist.empty → empty) (hinactive : hist.inactive → inactive) :
    ({ hist with empty, inactive } : ReadHistory).Progress sp fr pc := by
  refine ⟨h.nonblock, h.space, h.available, ?_⟩
  have hexplains := h.explains
  cases pc with
  | loadOut inn => exact ⟨hexplains.1, hempty ∘ hexplains.2⟩
  | afterLoop inn => exact ⟨hexplains.1, hempty ∘ hexplains.2⟩
  | spin inn => exact ⟨hexplains.1, hempty hexplains.2⟩
  | spinHost inn => exact ⟨hexplains.1, hempty hexplains.2⟩
  | recheck inn => exact ⟨hexplains.1, hempty hexplains.2.1, hinactive ∘ hexplains.2.2⟩
  | finish =>
    refine ⟨hexplains.1, ?_⟩
    intro hnil
    exact (hexplains.2 hnil).imp_right (And.imp hempty (Or.imp_right hinactive))
  | _ => trivial

lemma Returns.mono {bytes : List (BitVec 8)} {result : Except Errno ℕ}
    (h : hist.Returns bytes result) {empty inactive : Prop} (hempty : hist.empty → empty)
    (hinactive : hist.inactive → inactive) :
    ({ hist with empty, inactive } : ReadHistory).Returns bytes result := by
  refine ⟨h.le_space, h.min_le, h.ok, h.error, ?_⟩
  intro hnil
  exact (h.reason hnil).imp_right (And.imp hempty (Or.imp_right hinactive))

/-- What the read has taken and what the buffer holds never become less together. -/
lemma Progress.available_step (h : hist.Progress sp fr pc) (hs : pc.Sound sp fr) (hb : sp.InBounds)
    {th : Thread} (hth : (fr.step sp pc).thread = th) (hdone : (fr.step sp pc).done = []) :
    hist.available ≤ th.taken.length + (fr.step sp pc).sp.rx.length := by
  have hrx := congrArg List.length (moved_read hb hs).rx
  rw [hdone, hth] at hrx
  simp only [delivered, List.flatMap_nil, List.nil_append, List.length_append] at hrx
  have havailable := h.available
  omega

/-- A step of the read before its last one. -/
lemma Progress.step (h : hist.Progress sp fr pc) (hs : pc.Sound sp fr) (hb : sp.InBounds)
    (hempty : sp.rx = [] → hist.empty) (hinactive : sp.timeout ≤ sp.hostInactive → hist.inactive)
    (hpc : pc ≠ .finish) :
    ∃ fr' pc', (fr.step sp pc).thread = .read fr' pc' ∧ (fr.step sp pc).done = [] ∧
      hist.Progress (fr.step sp pc).sp fr' pc' := by
  have havailable : ∀ fr' pc', (fr.step sp pc).thread = .read fr' pc' → (fr.step sp pc).done = [] →
      hist.available ≤ (Thread.read fr' pc').taken.length + (fr.step sp pc).sp.rx.length :=
    fun fr' pc' hth hdone => h.available_step hs hb hth hdone
  have hspace := h.space
  have hexplains := h.explains
  cases pc with
  | outer =>
    rw [ReadFrame.step] at havailable ⊢
    refine ⟨_, _, rfl, rfl, h.nonblock, ?_, havailable _ _ rfl rfl, ?_⟩
    · split_ifs <;> exact hspace
    · split_ifs with hpos
      · trivial
      · have hnil : fr.buffer.length = 0 := List.length_eq_zero_iff.mpr hs
        have hzero : hist.space = 0 := by
          simp only [ReadPc.copied] at hspace
          omega
        rw [Explains, hzero]
        exact ⟨by omega, fun _ => .inl rfl⟩
  | loadIn =>
    have hbuffer : hist.available ≤ fr.buffer.length + sp.rx.length := h.available
    refine ⟨_, _, rfl, rfl, h.nonblock, hspace, havailable _ _ rfl rfl, ?_, ?_⟩
    · rwa [State.rx, length_contents] at hbuffer
    · intro heq
      exact hempty ((State.rx_eq_nil_iff hb).mpr heq.symm)
  | loadOut inn =>
    rw [ReadFrame.step] at havailable ⊢
    split_ifs at havailable ⊢ with hzero
    · have heq := (rxAvailable_eq_zero_iff hb.rxOut).mp hzero
      refine ⟨_, _, rfl, rfl, h.nonblock, hspace, havailable _ _ rfl rfl, ?_, ?_⟩
      · have hle := hexplains.1
        rw [heq, (size_eq_zero_iff hb.rxOut hb.rxOut).mpr rfl] at hle
        omega
      · intro _
        exact hexplains.2 heq
    · exact ⟨_, _, rfl, rfl, h.nonblock, hspace, havailable _ _ rfl rfl, trivial⟩
  | copy inn out n i =>
    rw [ReadFrame.step] at havailable ⊢
    split_ifs at havailable ⊢ with hi
    · refine ⟨_, _, rfl, rfl, h.nonblock, ?_, havailable _ _ rfl rfl, trivial⟩
      simp only [ReadPc.copied, List.length_append, List.length_singleton] at hspace ⊢
      omega
    · obtain rfl : i = n := le_antisymm hs.le (not_lt.mp hi)
      exact ⟨_, _, rfl, rfl, h.nonblock, hspace, havailable _ _ rfl rfl, trivial⟩
  | storeOut inn out n =>
    have hle := hs.le_space
    have hne := hs.buffer_ne_nil
    simp only [ReadPc.copied] at hspace
    rw [ReadFrame.step] at havailable ⊢
    refine ⟨_, _, rfl, rfl, h.nonblock, ?_, havailable _ _ rfl rfl, ?_⟩
    · split_ifs <;> simp only [ReadPc.copied] <;> omega
    · split_ifs with hleft
      · trivial
      · exact ⟨by dsimp only; omega, fun hnil => absurd hnil hne⟩
  | afterLoop inn =>
    rw [ReadFrame.step] at havailable ⊢
    refine ⟨_, _, rfl, rfl, h.nonblock, ?_, havailable _ _ rfl rfl, ?_⟩
    · split_ifs <;> exact hspace
    · split_ifs with hdone
      · refine ⟨hexplains.1, ?_⟩
        intro hnil
        have hnonblock := hdone.resolve_left (not_not_intro hnil)
        rw [h.nonblock] at hnonblock
        exact .inr ⟨hexplains.2 hnil, .inl hnonblock⟩
      · have hnil : fr.buffer = [] := by
          by_contra hne
          exact hdone (.inl hne)
        exact ⟨hexplains.1, hexplains.2 hnil⟩
  | spin inn =>
    rw [ReadFrame.step] at havailable ⊢
    refine ⟨_, _, rfl, rfl, h.nonblock, ?_, havailable _ _ rfl rfl, ?_⟩
    · split_ifs <;> exact hspace
    · split_ifs with heq
      · exact hexplains
      · exact ⟨hexplains.1, hexplains.2, fun hcontra => absurd hcontra heq⟩
  | spinHost inn =>
    rw [ReadFrame.step] at havailable ⊢
    refine ⟨_, _, rfl, rfl, h.nonblock, ?_, havailable _ _ rfl rfl, ?_⟩
    · split_ifs <;> exact hspace
    · split_ifs with hhost
      · exact hexplains
      · exact ⟨hexplains.1, hexplains.2, fun _ => hinactive (not_lt.mp hhost)⟩
  | recheck inn =>
    rw [ReadFrame.step] at havailable ⊢
    refine ⟨_, _, rfl, rfl, h.nonblock, ?_, havailable _ _ rfl rfl, ?_⟩
    · split_ifs <;> exact hspace
    · split_ifs with heq
      · refine ⟨hexplains.1, ?_⟩
        intro _
        exact .inr ⟨hexplains.2.1, .inr (hexplains.2.2 heq)⟩
      · trivial
  | finish => exact absurd rfl hpc

/-- The last step of the read. -/
lemma Progress.finish (h : hist.Progress sp fr .finish) :
    (fr.step sp .finish).thread = .idle ∧
      (fr.step sp .finish).done = [.read hist.space hist.nonblock fr.buffer fr.result] ∧
      hist.Returns fr.buffer fr.result := by
  have hspace : fr.space + fr.buffer.length = hist.space := h.space
  have hdone : (fr.step sp .finish).thread = .idle ∧ (fr.step sp .finish).done =
      [.read (fr.space + fr.buffer.length) fr.nonblock fr.buffer fr.result] := by
    rw [ReadFrame.step]
    dsimp only
    split_ifs <;> exact ⟨rfl, rfl⟩
  rw [hspace, h.nonblock] at hdone
  refine ⟨hdone.1, hdone.2, by omega, h.explains.1, ?_, ?_, h.explains.2⟩
  · intro hne
    rw [ReadFrame.result, if_pos hne]
  · intro hnil
    rw [ReadFrame.result, if_neg (not_not_intro hnil), h.nonblock]
    split_ifs <;> rfl

/-- The history of a read that is called in a state, after the events since then. -/
def since (s : System) (space : ℕ) (nonblock : Bool) (events : List Event) : ReadHistory where
  space := space
  nonblock := nonblock
  available := s.sp.rx.length
  empty := Visits System.step (fun s => s.sp.rx = []) s events
  inactive := Visits System.step (fun s => s.sp.timeout ≤ s.sp.hostInactive) s events

end ReadHistory

/-- The contract of a read. -/
def readContract (s : System) (space : ℕ) (nonblock : Bool) : Contract s where
  Progress events sp th := ∃ fr pc, th = .read fr pc ∧
    (ReadHistory.since s space nonblock events).Progress sp fr pc
  Returned events d := ∃ bytes result, d = .read space nonblock bytes result ∧
    (ReadHistory.since s space nonblock events).Returns bytes result
  later := by
    rintro events e sp th ⟨fr, pc, hth, h⟩
    exact ⟨fr, pc, hth, h.mono (fun h => h.append [e]) (fun h => h.append [e])⟩
  returned_later := by
    rintro events e d ⟨bytes, result, hd, h⟩
    exact ⟨bytes, result, hd, h.mono (fun h => h.append [e]) (fun h => h.append [e])⟩
  served := by
    rintro events sp th log sp' ⟨fr, pc, rfl, h⟩ hs hb hserved
    exact ⟨fr, pc, rfl, h.served hs hb hserved⟩
  step := by
    rintro events mid o hrun hsound ⟨fr, pc, hth, h⟩ ho
    have hs := hsound.thread
    rw [hth] at hs ho
    obtain rfl := Option.some.inj ho
    by_cases hpc : pc = .finish
    · rw [hpc] at h ⊢
      obtain ⟨hidle, hdone, hreturns⟩ := h.finish
      exact .inr ⟨hidle, _, hdone, fr.buffer, fr.result, rfl, hreturns⟩
    · have hempty (hnil : mid.sp.rx = []) : (ReadHistory.since s space nonblock events).empty :=
        Visits.last hrun hnil
      have hinactive (hhost : mid.sp.timeout ≤ mid.sp.hostInactive) :
          (ReadHistory.since s space nonblock events).inactive := Visits.last hrun hhost
      obtain ⟨fr', pc', hth', hnone, hnext⟩ := h.step hs hsound.inBounds hempty hinactive hpc
      exact .inl ⟨hnone, fr', pc', hth', hnext⟩

/-- A read gives to its caller the oldest bytes that it finds, at least those that were there when
it was called, as far as there is space. It fails only when the buffer has been empty, and then,
unless it must not block, only when the host has been inactive for the whole timeout. -/
theorem read_contract (ticksPerSec : BitVec 32) (before events : List Event) (s s' : System)
    (space : ℕ) (nonblock : Bool)
    (hreach : run System.step (System.init ticksPerSec) before = some s)
    (hcalled : s.thread = (Call.read space nonblock).start)
    (hcalls : ∀ e ∈ events, e.isCall = false) (hrun : run System.step s events = some s')
    (hreturned : s'.thread = .idle) :
    ∃ bytes result log, s'.done = s.done ++ [.read space nonblock bytes result] ∧
      s'.log = s.log ++ log ∧ s.sp.rx ++ received log = bytes ++ s'.sp.rx ∧
      (ReadHistory.since s space nonblock events).Returns bytes result := by
  have hsound := System.Sound.run hreach
  have hstart : (readContract s space nonblock).Progress [] s.sp s.thread :=
    ⟨⟨space, nonblock, []⟩, .outer, hcalled, rfl, rfl, Nat.le_add_left _ _, trivial⟩
  have hidle (events : List Event) (sp : State) :
      ¬(readContract s space nonblock).Progress events sp .idle := by
    rintro ⟨fr, pc, hth, -⟩
    exact absurd hth (by simp)
  obtain ⟨d, hdone, bytes, result, rfl, hreturns⟩ :=
    Contract.returns hsound hstart hidle hcalls hrun hreturned
  obtain ⟨log, hlog⟩ := log_append hrun
  refine ⟨bytes, result, log, hdone, hlog, ?_, hreturns⟩
  have hrx := hsound.rx
  have hrx' := (sound_of_run hsound hrun).rx
  rw [hcalled] at hrx
  rw [hreturned, hlog, received_append, hrx, hdone, delivered_append] at hrx'
  simpa [Thread.taken, Call.start, delivered, List.append_assoc] using hrx'

theorem read_contract_echoRun : ∃ s s',
    run System.step (System.init 1000#32) (echoRun.take 2) = some s ∧
    run System.step s ((echoRun.drop 2).take 10) = some s' ∧
    ∃ bytes result log, s'.done = s.done ++ [.read 2 false bytes result] ∧
      s'.log = s.log ++ log ∧ s.sp.rx ++ received log = bytes ++ s'.sp.rx ∧
      (ReadHistory.since s 2 false ((echoRun.drop 2).take 10)).Returns bytes result :=
  ⟨_, _, rfl, rfl, read_contract 1000#32 (echoRun.take 2) ((echoRun.drop 2).take 10) _ _ 2 false rfl
    rfl (by decide) rfl rfl⟩

/-- The parameters of a write, the room that was in the buffer when it was called, and whether the
buffer has been full and the host inactive since then. -/
structure WriteHistory where
  data : List (BitVec 8)
  nonblock : Bool
  room : ℕ
  full : Prop
  inactive : Prop

namespace WriteHistory

/-- Why the write is where it is. -/
def Explains (hist : WriteHistory) (fr : WriteFrame) : WritePc → Prop
  | .kick _ | .blocked _ => fr.sent < fr.data.length → hist.full ∧ hist.room ≤ fr.sent
  | .spin _ | .spinHost _ | .checkHost _ => hist.full ∧ hist.room ≤ fr.sent
  | .finish => fr.sent < fr.data.length →
      hist.full ∧ hist.room ≤ fr.sent ∧ (hist.nonblock = true ∨ hist.inactive)
  | _ => True

structure Progress (hist : WriteHistory) (sp : State) (fr : WriteFrame) (pc : WritePc) : Prop where
  data : fr.data = hist.data
  nonblock : fr.nonblock = hist.nonblock
  room : hist.room + sp.tx.length < fr.sent + BUF_LEN
  explains : hist.Explains fr pc

/-- What the write returns. -/
structure Returns (hist : WriteHistory) (sent : ℕ) (result : Except Errno ℕ) : Prop where
  le_length : sent ≤ hist.data.length
  min_le : min hist.data.length hist.room ≤ sent
  ok : sent ≠ 0 → result = .ok sent
  error : sent = 0 → result = .error (if hist.nonblock then .ewouldblock else .eio)
  reason : sent < hist.data.length → hist.full ∧ (hist.nonblock = true ∨ hist.inactive)

variable {hist : WriteHistory} {sp sp' : State} {fr : WriteFrame} {pc : WritePc}

lemma Progress.served (h : hist.Progress sp fr pc) {log : List Access}
    (hserved : Served sp log sp') : hist.Progress sp' fr pc := by
  refine ⟨h.data, h.nonblock, ?_, h.explains⟩
  have hroom := h.room
  rw [hserved.tx, List.length_append] at hroom
  omega

lemma Progress.mono (h : hist.Progress sp fr pc) {full inactive : Prop}
    (hfull : hist.full → full) (hinactive : hist.inactive → inactive) :
    ({ hist with full, inactive } : WriteHistory).Progress sp fr pc := by
  refine ⟨h.data, h.nonblock, h.room, ?_⟩
  have hexplains := h.explains
  cases pc with
  | kick out => exact fun hlt => (hexplains hlt).imp_left hfull
  | blocked out => exact fun hlt => (hexplains hlt).imp_left hfull
  | spin out => exact hexplains.imp_left hfull
  | spinHost out => exact hexplains.imp_left hfull
  | checkHost out => exact hexplains.imp_left hfull
  | finish =>
    intro hlt
    obtain ⟨hwas, hroom, hwhy⟩ := hexplains hlt
    exact ⟨hfull hwas, hroom, hwhy.imp_right hinactive⟩
  | _ => trivial

lemma Returns.mono {sent : ℕ} {result : Except Errno ℕ} (h : hist.Returns sent result)
    {full inactive : Prop} (hfull : hist.full → full) (hinactive : hist.inactive → inactive) :
    ({ hist with full, inactive } : WriteHistory).Returns sent result := by
  refine ⟨h.le_length, h.min_le, h.ok, h.error, ?_⟩
  intro hlt
  exact (h.reason hlt).imp hfull (Or.imp_right hinactive)

/-- A step of the write before its last one. -/
lemma Progress.step (h : hist.Progress sp fr pc) (hs : pc.Sound sp fr) (hb : sp.InBounds)
    (hfull : sp.tx.length + 1 = BUF_LEN → hist.full) (hinactive : sp.hostInactive ≠ 0 → hist.inactive)
    (hpc : pc ≠ .finish) :
    ∃ fr' pc', (fr.step sp pc).thread = .write fr' pc' ∧ (fr.step sp pc).done = [] ∧
      hist.Progress (fr.step sp pc).sp fr' pc' := by
  have hroom := h.room
  have hexplains := h.explains
  cases pc with
  | fill out =>
    refine ⟨_, _, rfl, rfl, h.data, h.nonblock, hroom, ?_⟩
    split_ifs with hcount
    · trivial
    · exact fun hlt => absurd hlt (by omega)
  | loadOut inn =>
    rw [WriteFrame.step]
    split_ifs with hzero
    · refine ⟨_, _, rfl, rfl, h.data, h.nonblock, hroom, ?_⟩
      intro _
      have hlen : sp.tx.length + 1 = BUF_LEN := by
        rw [hs.1, txSpace_eq_zero_iff hb.txIn hb.txOut, full_iff hb.txOut hb.txIn] at hzero
        rwa [State.tx, length_contents]
      exact ⟨hfull hlen, by omega⟩
    · exact ⟨_, _, rfl, rfl, h.data, h.nonblock, hroom, trivial⟩
  | copy inn out n i =>
    rw [WriteFrame.step]
    split_ifs with hi
    · refine ⟨_, _, rfl, rfl, h.data, h.nonblock, ?_, trivial⟩
      rwa [hs.tx_update hb hi]
    · exact ⟨_, _, rfl, rfl, h.data, h.nonblock, hroom, trivial⟩
  | storeIn inn out n =>
    refine ⟨_, _, rfl, rfl, h.data, h.nonblock, ?_, trivial⟩
    have hdata := hs.le_data
    have hlen : ((fr.data.drop fr.sent).take n).length = n := by
      rw [List.length_take, List.length_drop]
      omega
    simp only [WriteFrame.step]
    rw [hs.tx_store hb, List.length_append, hlen]
    omega
  | kick out => exact ⟨_, _, rfl, rfl, h.data, h.nonblock, hroom, hexplains⟩
  | blocked out =>
    refine ⟨_, _, rfl, rfl, h.data, h.nonblock, hroom, ?_⟩
    split_ifs with hwait
    · exact hexplains (by omega)
    · intro hlt
      have hnonblock : fr.nonblock = true := by
        by_contra hblock
        exact hwait ⟨by omega, hblock⟩
      rw [h.nonblock] at hnonblock
      exact ⟨(hexplains hlt).1, (hexplains hlt).2, .inl hnonblock⟩
  | spin out =>
    refine ⟨_, _, rfl, rfl, h.data, h.nonblock, hroom, ?_⟩
    split_ifs <;> exact hexplains
  | spinHost out =>
    refine ⟨_, _, rfl, rfl, h.data, h.nonblock, hroom, ?_⟩
    split_ifs <;> exact hexplains
  | checkHost out =>
    refine ⟨_, _, rfl, rfl, h.data, h.nonblock, hroom, ?_⟩
    split_ifs with hhost
    · exact fun _ => ⟨hexplains.1, hexplains.2, .inr (hinactive hhost)⟩
    · trivial
  | finish => exact absurd rfl hpc

/-- The last step of the write. -/
lemma Progress.finish (h : hist.Progress sp fr .finish) (hs : fr.sent ≤ fr.data.length) :
    hist.Returns fr.sent fr.result := by
  have hexplains := h.explains
  refine ⟨h.data ▸ hs, ?_, ?_, ?_, ?_⟩
  · rw [← h.data]
    by_cases hlt : fr.sent < fr.data.length
    · have hroom := (hexplains hlt).2.1
      omega
    · omega
  · intro hne
    rw [WriteFrame.result, if_pos hne]
  · intro hzero
    rw [WriteFrame.result, if_neg (not_not_intro hzero), h.nonblock]
    split_ifs <;> rfl
  · intro hlt
    rw [← h.data] at hlt
    exact ⟨(hexplains hlt).1, (hexplains hlt).2.2⟩

/-- The history of a write that is called in a state, after the events since then. -/
def since (s : System) (data : List (BitVec 8)) (nonblock : Bool) (events : List Event) :
    WriteHistory where
  data := data
  nonblock := nonblock
  room := BUF_LEN - 1 - s.sp.tx.length
  full := Visits System.step (fun s => s.sp.tx.length + 1 = BUF_LEN) s events
  inactive := Visits System.step (fun s => s.sp.hostInactive ≠ 0) s events

end WriteHistory

/-- The contract of a write. -/
def writeContract (s : System) (data : List (BitVec 8)) (nonblock : Bool) : Contract s where
  Progress events sp th := ∃ fr pc, th = .write fr pc ∧
    (WriteHistory.since s data nonblock events).Progress sp fr pc
  Returned events d := ∃ sent result, d = .write data nonblock sent result ∧
    (WriteHistory.since s data nonblock events).Returns sent result
  later := by
    rintro events e sp th ⟨fr, pc, hth, h⟩
    exact ⟨fr, pc, hth, h.mono (fun h => h.append [e]) (fun h => h.append [e])⟩
  returned_later := by
    rintro events e d ⟨sent, result, hd, h⟩
    exact ⟨sent, result, hd, h.mono (fun h => h.append [e]) (fun h => h.append [e])⟩
  served := by
    rintro events sp th log sp' ⟨fr, pc, rfl, h⟩ hs hb hserved
    exact ⟨fr, pc, rfl, h.served hserved⟩
  step := by
    rintro events mid o hrun hsound ⟨fr, pc, hth, h⟩ ho
    have hs := hsound.thread
    rw [hth] at hs ho
    obtain rfl := Option.some.inj ho
    by_cases hpc : pc = .finish
    · subst hpc
      have hdone : (fr.step mid.sp .finish).done = [.write data nonblock fr.sent fr.result] := by
        rw [WriteFrame.step, h.data, h.nonblock]
        rfl
      exact .inr ⟨rfl, _, hdone, fr.sent, fr.result, rfl, h.finish hs⟩
    · have hfull (hlen : mid.sp.tx.length + 1 = BUF_LEN) :
          (WriteHistory.since s data nonblock events).full := Visits.last hrun hlen
      have hinactive (hhost : mid.sp.hostInactive ≠ 0) :
          (WriteHistory.since s data nonblock events).inactive := Visits.last hrun hhost
      obtain ⟨fr', pc', hth', hnone, hnext⟩ := h.step hs hsound.inBounds hfull hinactive hpc
      exact .inl ⟨hnone, fr', pc', hth', hnext⟩

/-- The contract of a close. -/
def closeContract (s : System) (nonblock : Bool) : Contract s where
  Progress events _ th := th = .close nonblock ∨
    th = .closeHost nonblock ∧ Visits System.step (fun s => s.sp.tx ≠ []) s events
  Returned events d :=
    (d = .close nonblock (.ok 0) ∧
      (Visits System.step (fun s => accepted s.done = transmitted s.log) s events ∨
        Visits System.step (fun s => s.sp.timeout ≤ s.sp.hostInactive) s events)) ∨
    (d = .close nonblock (.error .ewouldblock) ∧ nonblock = true ∧
      Visits System.step (fun s => s.sp.tx ≠ []) s events)
  later := by
    rintro events e sp th (hth | ⟨hth, hv⟩)
    · exact .inl hth
    · exact .inr ⟨hth, hv.append [e]⟩
  returned_later := by
    rintro events e d (⟨hd, hv | hv⟩ | ⟨hd, hnonblock, hv⟩)
    · exact .inl ⟨hd, .inl (hv.append [e])⟩
    · exact .inl ⟨hd, .inr (hv.append [e])⟩
    · exact .inr ⟨hd, hnonblock, hv.append [e]⟩
  served := by
    intro events sp th log sp' h hs hb hserved
    exact h
  step := by
    rintro events mid o hrun hsound h ho
    rcases h with hth | ⟨hth, hv⟩
    · rw [hth, Thread.step] at ho
      split_ifs at ho with hempty
      · obtain rfl := Option.some.inj ho
        have hne : mid.sp.tx ≠ [] := mt (State.tx_eq_nil_iff hsound.inBounds).mp hempty
        exact .inl ⟨rfl, .inr ⟨rfl, Visits.last hrun hne⟩⟩
      · obtain rfl := Option.some.inj ho
        have hnil := (State.tx_eq_nil_iff hsound.inBounds).mpr (not_not.mp hempty)
        have htx := hsound.tx
        rw [hth, hnil, List.append_nil] at htx
        have hall : accepted mid.done = transmitted mid.log := (List.append_nil _).symm.trans htx
        exact .inr ⟨rfl, _, rfl, .inl ⟨rfl, .inl (Visits.last hrun hall)⟩⟩
    · rw [hth, Thread.step] at ho
      split_ifs at ho with hhost hnonblock
      · obtain rfl := Option.some.inj ho
        exact .inr ⟨rfl, _, rfl, .inr ⟨rfl, hnonblock, hv⟩⟩
      · obtain rfl := Option.some.inj ho
        exact .inl ⟨rfl, .inl rfl⟩
      · obtain rfl := Option.some.inj ho
        exact .inr ⟨rfl, _, rfl, .inl ⟨rfl, .inr (Visits.last hrun (not_lt.mp hhost))⟩⟩

/-- A close returns once every byte that the program has written has been stored to the device,
unless the host has been inactive for the whole timeout or the close must not block. -/
theorem close_contract (ticksPerSec : BitVec 32) (before events : List Event) (s s' : System)
    (nonblock : Bool) (hreach : run System.step (System.init ticksPerSec) before = some s)
    (hcalled : s.thread = (Call.close nonblock).start)
    (hcalls : ∀ e ∈ events, e.isCall = false) (hrun : run System.step s events = some s')
    (hreturned : s'.thread = .idle) :
    (s'.done = s.done ++ [.close nonblock (.ok 0)] ∧
      (Visits System.step (fun s => accepted s.done = transmitted s.log) s events ∨
        Visits System.step (fun s => s.sp.timeout ≤ s.sp.hostInactive) s events)) ∨
    (s'.done = s.done ++ [.close nonblock (.error .ewouldblock)] ∧ nonblock = true ∧
      Visits System.step (fun s => s.sp.tx ≠ []) s events) := by
  have hidle (events : List Event) (sp : State) :
      ¬(closeContract s nonblock).Progress events sp .idle := by
    rintro (hth | ⟨hth, -⟩) <;> exact absurd hth (by simp)
  obtain ⟨d, hdone, ⟨rfl, hwhy⟩ | ⟨rfl, hwhy⟩⟩ :=
    Contract.returns (c := closeContract s nonblock) (System.Sound.run hreach) (.inl hcalled) hidle
      hcalls hrun hreturned
  · exact .inl ⟨hdone, hwhy⟩
  · exact .inr ⟨hdone, hwhy⟩

/-- A byte waits to be sent when the program closes the device, and the handler sends it. -/
def closeRun : List Event :=
  [.call (.write [0x41#8] true), .thread, .thread, .thread, .thread, .thread, .thread, .thread,
    .thread, .thread, .call (.close false), .thread, .irq [⟨0x00400200#32, []⟩, ⟨0x0#32, []⟩],
    .thread, .thread]

theorem close_contract_closeRun : ∃ s s',
    run System.step (System.init 1000#32) (closeRun.take 11) = some s ∧
    run System.step s (closeRun.drop 11) = some s' ∧ transmitted s'.log = [0x41#8] ∧
    ((s'.done = s.done ++ [.close false (.ok 0)] ∧
      (Visits System.step (fun s => accepted s.done = transmitted s.log) s (closeRun.drop 11) ∨
        Visits System.step (fun s => s.sp.timeout ≤ s.sp.hostInactive) s (closeRun.drop 11))) ∨
    (s'.done = s.done ++ [.close false (.error .ewouldblock)] ∧ false = true ∧
      Visits System.step (fun s => s.sp.tx ≠ []) s (closeRun.drop 11))) :=
  ⟨_, _, rfl, rfl, rfl, close_contract 1000#32 (closeRun.take 11) (closeRun.drop 11) _ _ false rfl
    rfl (by decide) rfl rfl⟩

/-! ### How long a call takes -/

/-- A bound for the steps that a read still takes when it does not wait for the device. -/
def ReadPc.budget (fr : ReadFrame) : ReadPc → ℕ
  | .outer => 5 * fr.space + 5
  | .loadIn => 5 * fr.space + 4
  | .loadOut _ => 5 * fr.space + 3
  | .copy _ _ n i => 5 * (fr.space - n) + (n - i) + 6
  | .storeOut _ _ n => 5 * (fr.space - n) + 5
  | .afterLoop _ => 2
  | _ => 1

def WritePc.budget (fr : WriteFrame) : WritePc → ℕ
  | .fill _ => 5 * (fr.data.length - fr.sent) + 5
  | .loadOut _ => 5 * (fr.data.length - fr.sent) + 4
  | .copy _ _ n i => 5 * (fr.data.length - fr.sent - n) + (n - i) + 7
  | .storeIn _ _ n => 5 * (fr.data.length - fr.sent - n) + 6
  | .kick _ => 3
  | .blocked _ => 2
  | _ => 1

def Thread.budget : Thread → ℕ
  | .idle => 0
  | .read fr pc => pc.budget fr
  | .write fr pc => pc.budget fr
  | .close _ => 2
  | .closeHost _ => 1
  | .ioctl _ => 1

def System.budget (s : System) : ℕ := s.thread.budget

/-- A call that must not block, at a place where it does not wait for the device. -/
def Thread.NonBlocking : Thread → Prop
  | .read _ (.spin _) | .read _ (.spinHost _) | .read _ (.recheck _) => False
  | .read fr _ => fr.nonblock = true
  | .write _ (.spin _) | .write _ (.spinHost _) | .write _ (.checkHost _) => False
  | .write fr _ => fr.nonblock = true
  | .close nonblock | .closeHost nonblock => nonblock = true
  | _ => True

lemma budget_read {sp : State} {fr : ReadFrame} {pc : ReadPc} (hs : pc.Sound sp fr)
    (h : (Thread.read fr pc).NonBlocking) : (fr.step sp pc).thread.NonBlocking ∧
      (fr.step sp pc).thread.budget + 1 ≤ (Thread.read fr pc).budget := by
  cases pc with
  | outer =>
    rw [ReadFrame.step]
    split_ifs
    · exact ⟨h, le_rfl⟩
    · exact ⟨h, by simp only [Thread.budget, ReadPc.budget]; omega⟩
  | loadIn => exact ⟨h, le_rfl⟩
  | loadOut inn =>
    have hspace := hs.1
    rw [ReadFrame.step]
    split_ifs with hzero
    · exact ⟨h, by simp only [Thread.budget, ReadPc.budget]; omega⟩
    · exact ⟨h, by simp only [Thread.budget, ReadPc.budget]; omega⟩
  | copy inn out n i =>
    rw [ReadFrame.step]
    split_ifs with hi
    · exact ⟨h, by simp only [Thread.budget, ReadPc.budget]; omega⟩
    · exact ⟨h, by simp only [Thread.budget, ReadPc.budget]; omega⟩
  | storeOut inn out n =>
    rw [ReadFrame.step]
    split_ifs
    · exact ⟨h, le_rfl⟩
    · exact ⟨h, by simp only [Thread.budget, ReadPc.budget]; omega⟩
  | afterLoop inn =>
    have hnonblock : fr.nonblock = true := h
    rw [ReadFrame.step, if_pos (.inr hnonblock)]
    exact ⟨h, le_rfl⟩
  | finish =>
    rw [ReadFrame.step]
    split_ifs
    · exact ⟨trivial, le_rfl⟩
    · exact ⟨trivial, le_rfl⟩
  | _ => exact h.elim

lemma budget_write {sp : State} {fr : WriteFrame} {pc : WritePc} (hs : pc.Sound sp fr)
    (h : (Thread.write fr pc).NonBlocking) : (fr.step sp pc).thread.NonBlocking ∧
      (fr.step sp pc).thread.budget + 1 ≤ (Thread.write fr pc).budget := by
  cases pc with
  | fill out =>
    rw [WriteFrame.step]
    split_ifs
    · exact ⟨h, le_rfl⟩
    · exact ⟨h, by simp only [Thread.budget, WritePc.budget]; omega⟩
  | loadOut inn =>
    have hleft := hs.2
    rw [WriteFrame.step]
    split_ifs with hzero
    · exact ⟨h, by simp only [Thread.budget, WritePc.budget]; omega⟩
    · exact ⟨h, by simp only [Thread.budget, WritePc.budget]; omega⟩
  | copy inn out n i =>
    rw [WriteFrame.step]
    split_ifs with hi
    · exact ⟨h, by simp only [Thread.budget, WritePc.budget]; omega⟩
    · exact ⟨h, by simp only [Thread.budget, WritePc.budget]; omega⟩
  | storeIn inn out n => exact ⟨h, by simp only [WriteFrame.step, Thread.budget, WritePc.budget]; omega⟩
  | kick out => exact ⟨h, le_rfl⟩
  | blocked out =>
    have hnonblock : fr.nonblock = true := h
    rw [WriteFrame.step, if_neg (fun hwait => hwait.2 hnonblock)]
    exact ⟨h, le_rfl⟩
  | finish => exact ⟨trivial, le_rfl⟩
  | _ => exact h.elim

/-- A step of a call that must not block takes one from its budget. -/
lemma budget_thread {sp : State} {th : Thread} (hs : th.Sound sp) (h : th.NonBlocking) {o : Outcome}
    (ho : th.step sp = some o) : o.thread.NonBlocking ∧ o.thread.budget + 1 ≤ th.budget := by
  cases th with
  | idle => exact absurd ho (by simp [Thread.step])
  | read fr pc => exact Option.some.inj ho ▸ budget_read hs h
  | write fr pc => exact Option.some.inj ho ▸ budget_write hs h
  | close nonblock =>
    rw [Thread.step] at ho
    split_ifs at ho
    · exact Option.some.inj ho ▸ ⟨h, le_rfl⟩
    · exact Option.some.inj ho ▸ ⟨trivial, Nat.le_succ 1⟩
  | closeHost nonblock =>
    have hnonblock : nonblock = true := h
    rw [Thread.step] at ho
    split_ifs at ho
    · exact Option.some.inj ho ▸ ⟨trivial, le_rfl⟩
    · exact Option.some.inj ho ▸ ⟨trivial, le_rfl⟩
  | ioctl req => exact Option.some.inj ho ▸ ⟨trivial, le_rfl⟩

/-- The number of steps that a call brings along if it must not block. -/
def Call.cost : Call → ℕ
  | .read space _ => 5 * space + 5
  | .write data _ => 5 * data.length + 5
  | .close _ => 2
  | .ioctl _ => 1

def Event.cost : Event → ℕ
  | .call c => c.cost
  | _ => 0

def Event.NonBlocking : Event → Prop
  | .call c => c.start.NonBlocking
  | _ => True

/-- Calls that must not block never wait. Whatever the handler and the alarm do, a program that
makes only such calls takes at most five steps for each byte that a call asks for, and five more
for each call. -/
theorem nonblocking_calls_bounded (ticksPerSec : BitVec 32) (events : List Event) (s : System)
    (hcalls : ∀ e ∈ events, e.NonBlocking)
    (hrun : run System.step (System.init ticksPerSec) events = some s) :
    s.budget + events.countP Event.isThread ≤ (events.map Event.cost).sum := by
  have hinv (s : System) (e : Event) (s' : System) (he : e.NonBlocking)
      (h : s.Sound ∧ s.thread.NonBlocking) (hstep : s.step e = some s') :
      (s'.Sound ∧ s'.thread.NonBlocking) ∧
        s'.budget + (if e.isThread then 1 else 0) ≤ s.budget + e.cost := by
    refine ⟨⟨h.1.step hstep, ?_⟩, ?_⟩
    · rcases System.step_cases hstep with ⟨turns, sp, log, -, -, rfl⟩ | ⟨control, -, -, rfl⟩ |
        ⟨c, rfl, -, rfl⟩ | ⟨o, -, ho, rfl⟩
      · exact h.2
      · exact h.2
      · exact he
      · exact (budget_thread h.1.thread h.2 ho).1
    · rcases System.step_cases hstep with ⟨turns, sp, log, rfl, -, rfl⟩ | ⟨control, rfl, -, rfl⟩ |
        ⟨c, rfl, hidle, rfl⟩ | ⟨o, rfl, ho, rfl⟩
      · exact le_rfl
      · exact le_rfl
      · have hstart : c.start.budget = c.cost := by cases c <;> rfl
        rw [System.budget, System.budget, hidle, hstart]
        exact (Nat.zero_add _).ge
      · exact (budget_thread h.1.thread h.2 ho).2
  have hbound := countP_add_le (fun s e s' he h hstep => (hinv s e s' he h hstep).1)
    (fun s e s' he h hstep => (hinv s e s' he h hstep).2) hcalls
    ⟨System.Sound.init ticksPerSec, trivial⟩ hrun
  have hzero : (System.init ticksPerSec).budget = 0 := rfl
  rwa [hzero, Nat.zero_add] at hbound

theorem nonblocking_calls_bounded_closeRun : ∃ s,
    run System.step (System.init 1000#32) (closeRun.take 10) = some s ∧
    s.budget + (closeRun.take 10).countP Event.isThread ≤
      ((closeRun.take 10).map Event.cost).sum := by
  have hcalls : ∀ e ∈ closeRun.take 10, e.NonBlocking := by
    simp [closeRun, Event.NonBlocking, Call.start, Thread.NonBlocking]
  exact ⟨_, rfl, nonblocking_calls_bounded 1000#32 (closeRun.take 10) _ hcalls rfl⟩

/-- A bound for the steps that a read still takes when there are bytes for it. -/
def ReadPc.wakeBudget (sp : State) (fr : ReadFrame) : ReadPc → ℕ
  | .outer => 5 * fr.space + 5
  | .loadIn => 5 * fr.space + 4
  | .loadOut inn => if fr.buffer = [] ∧ inn = sp.rxOut then 5 * fr.space + 9 else 5 * fr.space + 3
  | .copy _ _ n i => 5 * (fr.space - n) + (n - i) + 6
  | .storeOut _ _ n => 5 * (fr.space - n) + 5
  | .afterLoop _ => if fr.buffer = [] ∧ ¬fr.nonblock then 5 * fr.space + 8 else 2
  | .spin _ => 5 * fr.space + 7
  | .spinHost _ => 5 * fr.space + 8
  | .recheck _ => 5 * fr.space + 6
  | .finish => 1

/-- A bound for the steps that a write still takes when there is room for the rest of its bytes. -/
def WritePc.wakeBudget (fr : WriteFrame) : WritePc → ℕ
  | .fill _ => 5 * (fr.data.length - fr.sent) + 5
  | .loadOut _ => 5 * (fr.data.length - fr.sent) + 4
  | .copy _ _ n i => 5 * (fr.data.length - fr.sent - n) + (n - i) + 7
  | .storeIn _ _ n => 5 * (fr.data.length - fr.sent - n) + 6
  | .kick _ =>
    if fr.sent < fr.data.length ∧ ¬fr.nonblock then 5 * (fr.data.length - fr.sent) + 9 else 3
  | .blocked _ =>
    if fr.sent < fr.data.length ∧ ¬fr.nonblock then 5 * (fr.data.length - fr.sent) + 8 else 2
  | .spin _ => 5 * (fr.data.length - fr.sent) + 7
  | .spinHost _ => 5 * (fr.data.length - fr.sent) + 8
  | .checkHost _ => 5 * (fr.data.length - fr.sent) + 6
  | .finish => 1

/-- The bound for a call that does not have to wait. -/
def Thread.wakeBudget (sp : State) : Thread → ℕ
  | .idle => 0
  | .read fr pc => pc.wakeBudget sp fr
  | .write fr pc => pc.wakeBudget fr
  | _ => 0

def System.wakeBudget (s : System) : ℕ := s.thread.wakeBudget s.sp

/-- There are bytes for the read, in the buffer or with the read already. -/
def ReadFrame.HasBytes (sp : State) (fr : ReadFrame) : Prop := fr.buffer ≠ [] ∨ sp.rx ≠ []

/-- A read that has bytes never turns back to wait. -/
lemma wake_read {sp : State} (hb : sp.InBounds) {fr : ReadFrame} {pc : ReadPc}
    (hs : pc.Sound sp fr) (h : fr.HasBytes sp) :
    (fr.step sp pc).thread = .idle ∨
      ∃ fr' pc', (fr.step sp pc).thread = .read fr' pc' ∧ fr'.HasBytes (fr.step sp pc).sp ∧
        pc'.wakeBudget (fr.step sp pc).sp fr' + 1 ≤ pc.wakeBudget sp fr := by
  have hlate (inn : ℕ) (hnil : fr.buffer = []) (hin : inn = sp.rxOut) : inn ≠ sp.rxIn := by
    intro heq
    have hrx := (State.rx_eq_nil_iff hb).mpr (hin.symm.trans heq)
    exact h.elim (fun hne => hne hnil) (fun hne => hne hrx)
  cases pc with
  | outer =>
    refine .inr ⟨_, _, rfl, h, ?_⟩
    split_ifs <;> simp only [ReadPc.wakeBudget] <;> omega
  | loadIn =>
    have hstale : ¬(fr.buffer = [] ∧ sp.rxIn = sp.rxOut) := by
      rintro ⟨hnil, heq⟩
      exact hlate sp.rxIn hnil heq rfl
    rw [ReadFrame.step]
    refine .inr ⟨_, _, rfl, h, ?_⟩
    simp only [ReadPc.wakeBudget]
    rw [if_neg hstale]
  | loadOut inn =>
    have hspace := hs.1
    rw [ReadFrame.step]
    split_ifs with hzero
    · have hin := (rxAvailable_eq_zero_iff hb.rxOut).mp hzero
      refine .inr ⟨_, _, rfl, h, ?_⟩
      simp only [ReadPc.wakeBudget, hin, and_true]
      by_cases hnil : fr.buffer = []
      · rw [if_pos hnil]
        split_ifs <;> omega
      · rw [if_neg hnil, if_neg (fun hboth => hnil hboth.1)]
        omega
    · refine .inr ⟨_, _, rfl, h, ?_⟩
      simp only [ReadPc.wakeBudget]
      split_ifs <;> omega
  | copy inn out n i =>
    rw [ReadFrame.step]
    split_ifs with hi
    · refine .inr ⟨_, _, rfl, .inl (by simp), ?_⟩
      simp only [ReadPc.wakeBudget]
      omega
    · refine .inr ⟨_, _, rfl, h, ?_⟩
      simp only [ReadPc.wakeBudget]
      omega
  | storeOut inn out n =>
    have hne := hs.buffer_ne_nil
    refine .inr ⟨_, _, rfl, .inl hne, ?_⟩
    split_ifs
    · exact le_rfl
    · simp only [ReadPc.wakeBudget]
      rw [if_neg (fun hnil => hne hnil.1)]
      omega
  | afterLoop inn =>
    refine .inr ⟨_, _, rfl, h, ?_⟩
    by_cases hdone : fr.buffer ≠ [] ∨ fr.nonblock
    · have hstop : ¬(fr.buffer = [] ∧ ¬fr.nonblock) := fun hwait =>
        hdone.elim (fun hne => hne hwait.1) hwait.2
      rw [if_pos hdone, ReadPc.wakeBudget, ReadPc.wakeBudget, if_neg hstop]
    · rw [not_or, not_not] at hdone
      rw [if_neg (not_or.mpr ⟨not_not.mpr hdone.1, hdone.2⟩), ReadPc.wakeBudget, ReadPc.wakeBudget,
        if_pos hdone]
  | spin inn =>
    refine .inr ⟨_, _, rfl, h, ?_⟩
    rw [if_neg (hlate inn hs.1 hs.2)]
    exact le_rfl
  | spinHost inn =>
    refine .inr ⟨_, _, rfl, h, ?_⟩
    split_ifs <;> simp only [ReadPc.wakeBudget] <;> omega
  | recheck inn =>
    refine .inr ⟨_, _, rfl, h, ?_⟩
    rw [if_neg (hlate inn hs.1 hs.2)]
    exact le_rfl
  | finish =>
    left
    rw [ReadFrame.step]
    split_ifs <;> rfl

lemma wakeBudget_le {sp : State} {fr : ReadFrame} {pc : ReadPc} (hs : pc.Sound sp fr) :
    1 ≤ pc.wakeBudget sp fr ∧ pc.wakeBudget sp fr ≤ 5 * fr.space + 9 := by
  cases pc with
  | copy inn out n i =>
    have hpos := hs.pos
    have hle := hs.le_space
    simp only [ReadPc.wakeBudget]
    omega
  | loadOut inn =>
    rw [ReadPc.wakeBudget]
    split_ifs <;> omega
  | afterLoop inn =>
    rw [ReadPc.wakeBudget]
    split_ifs <;> omega
  | _ =>
    simp only [ReadPc.wakeBudget]
    omega

/-- A condition under which a call in progress does not wait: the handler and the alarm keep it, and
each step of the call keeps it and takes one from the bound, which they do not raise. -/
structure Pace where
  Holds : State → Thread → Prop
  served : ∀ sp th log sp', Holds sp th → sp.InBounds → Served sp log sp' →
    Holds sp' th ∧ th.wakeBudget sp' ≤ th.wakeBudget sp
  step : ∀ sp th o, Holds sp th → sp.InBounds → th.Sound sp → th.step sp = some o →
    o.thread = .idle ∨ Holds o.sp o.thread ∧ o.thread.wakeBudget o.sp + 1 ≤ th.wakeBudget sp
  pos : ∀ sp th, Holds sp th → th.Sound sp → 1 ≤ th.wakeBudget sp

namespace Pace

variable {p : Pace}

/-- The call has returned or meets the condition. -/
def Keeps (p : Pace) (s : System) : Prop := s.thread = .idle ∨ p.Holds s.sp s.thread

lemma Keeps.served {s : System} (h : p.Keeps s) (hsound : s.Sound) {sp : State}
    {log log' : List Access} (hserved : Served s.sp log sp) :
    p.Keeps { s with sp, log := log' } ∧ s.thread.wakeBudget sp ≤ s.thread.wakeBudget s.sp := by
  rcases h with hidle | hholds
  · exact ⟨.inl hidle, by rw [hidle]; exact le_rfl⟩
  · obtain ⟨hholds', hbudget⟩ := p.served _ _ log sp hholds hsound.inBounds hserved
    exact ⟨.inr hholds', hbudget⟩

lemma Keeps.step {s s' : System} (h : p.Keeps s) (hsound : s.Sound) {e : Event}
    (he : e.isCall = false) (hstep : s.step e = some s') :
    p.Keeps s' ∧ s'.wakeBudget + (if e.isThread then 1 else 0) ≤ s.wakeBudget := by
  rcases System.step_cases hstep with ⟨turns, sp, log, rfl, hirq, rfl⟩ | ⟨control, rfl, -, rfl⟩ |
    ⟨c, rfl, -, rfl⟩ | ⟨o, rfl, ho, rfl⟩
  · exact h.served hsound (State.served_irq hsound.inBounds hirq)
  · exact h.served hsound (served_timeoutCallback hsound.inBounds control)
  · exact absurd he (by simp [Event.isCall])
  · have hholds : p.Holds s.sp s.thread := by
      apply h.resolve_left
      intro hidle
      rw [hidle] at ho
      exact absurd ho (by simp [Thread.step])
    rcases p.step _ _ o hholds hsound.inBounds hsound.thread ho with hidle | ⟨hnext, hpay⟩
    · refine ⟨.inl hidle, ?_⟩
      rw [System.wakeBudget, hidle]
      exact p.pos _ _ hholds hsound.thread
    · exact ⟨.inr hnext, hpay⟩

/-- The call returns before the bound is reached. -/
theorem returns (p : Pace) {s s' : System} (hsound : s.Sound) (hstart : p.Holds s.sp s.thread)
    {events : List Event} (hcalls : ∀ e ∈ events, e.isCall = false)
    (hrun : run System.step s events = some s') :
    s'.thread = .idle ∨ events.countP Event.isThread < s.wakeBudget := by
  have hkeep (s : System) (e : Event) (s' : System) (he : e.isCall = false)
      (h : s.Sound ∧ p.Keeps s) (hstep : s.step e = some s') : s'.Sound ∧ p.Keeps s' :=
    ⟨h.1.step hstep, (h.2.step h.1 he hstep).1⟩
  have hbound : s'.wakeBudget + events.countP Event.isThread ≤
      s.wakeBudget + (events.map fun _ => 0).sum :=
    countP_add_le hkeep (fun s e s' he h hstep => (h.2.step h.1 he hstep).2) hcalls
      ⟨hsound, .inr hstart⟩ hrun
  rw [List.map_const', List.sum_replicate, smul_zero, Nat.add_zero] at hbound
  have hguard : Along System.step (fun _ e => e.isCall = false) s events :=
    along_of_forall s events (fun e he _ => hcalls e he)
  obtain ⟨hsound', hkeeps'⟩ := invariant_along hkeep hguard ⟨hsound, .inr hstart⟩ hrun
  apply hkeeps'.imp_right
  intro hholds
  have hpos : 1 ≤ s'.wakeBudget := p.pos _ _ hholds hsound'.thread
  omega

end Pace

/-- The pace of a read that has bytes. -/
def readPace : Pace where
  Holds sp th := ∃ fr pc, th = .read fr pc ∧ fr.HasBytes sp
  served := by
    rintro sp th log sp' ⟨fr, pc, rfl, hbytes⟩ hb hserved
    refine ⟨⟨fr, pc, rfl, hbytes.imp_right ?_⟩, ?_⟩
    · rw [hserved.rx]
      exact fun hne => List.append_ne_nil_of_left_ne_nil hne _
    · cases pc <;> simp only [Thread.wakeBudget, ReadPc.wakeBudget, hserved.rxOut] <;> exact le_rfl
  step := by
    rintro sp th o ⟨fr, pc, rfl, hbytes⟩ hb hs ho
    obtain rfl := Option.some.inj ho
    rcases wake_read hb hs hbytes with hidle | ⟨fr', pc', hth, hbytes', hpay⟩
    · exact .inl hidle
    · right
      rw [hth]
      exact ⟨⟨fr', pc', rfl, hbytes'⟩, hpay⟩
  pos := by
    rintro sp th ⟨fr, pc, rfl, -⟩ hs
    exact (wakeBudget_le hs).1

/-- A read for which there are bytes returns after at most five steps for each byte that it asks
for and nine more, whatever the handler and the alarm do. -/
theorem read_returns_once_bytes (ticksPerSec : BitVec 32) (before events : List Event)
    (s s' : System) (fr : ReadFrame) (pc : ReadPc)
    (hreach : run System.step (System.init ticksPerSec) before = some s)
    (hth : s.thread = .read fr pc) (hbytes : s.sp.rx ≠ [])
    (hcalls : ∀ e ∈ events, e.isCall = false) (hrun : run System.step s events = some s') :
    s'.thread = .idle ∨ events.countP Event.isThread < 5 * fr.space + 9 := by
  have hsound := System.Sound.run hreach
  have hs : pc.Sound s.sp fr := by
    have hthread := hsound.thread
    rwa [hth] at hthread
  have hbudget : s.wakeBudget ≤ 5 * fr.space + 9 := by
    rw [System.wakeBudget, hth]
    exact (wakeBudget_le hs).2
  have hreturns := readPace.returns hsound ⟨fr, pc, hth, .inr hbytes⟩ hcalls hrun
  exact hreturns.imp_right (fun hlt => lt_of_lt_of_le hlt hbudget)

theorem read_returns_once_bytes_echoRun : ∃ s s',
    run System.step (System.init 1000#32) (echoRun.take 2) = some s ∧ s.sp.rx ≠ [] ∧
    run System.step s ((echoRun.drop 2).take 10) = some s' ∧
    (s'.thread = .idle ∨ ((echoRun.drop 2).take 10).countP Event.isThread < 5 * 2 + 9) := by
  have hrx : ([0x41#8, 0x42#8] : List (BitVec 8)) ≠ [] := by decide
  exact ⟨_, _, rfl, hrx, rfl, read_returns_once_bytes 1000#32 (echoRun.take 2)
    ((echoRun.drop 2).take 10) _ _ ⟨2, false, []⟩ .outer rfl rfl hrx (by decide) rfl⟩

/-- There is room in the buffer for all that the write has still to put there. -/
def WriteFrame.HasRoom (sp : State) (fr : WriteFrame) : Prop :=
  fr.data.length - fr.sent + sp.tx.length < BUF_LEN

/-- A write that has room does not wait for more of it. -/
lemma wake_write {sp : State} (hb : sp.InBounds) {fr : WriteFrame} {pc : WritePc}
    (hs : pc.Sound sp fr) (hfull : (Thread.write fr pc).FoundFull sp) (h : fr.HasRoom sp) :
    (fr.step sp pc).thread = .idle ∨
      ∃ fr' pc', (fr.step sp pc).thread = .write fr' pc' ∧ fr'.HasRoom (fr.step sp pc).sp ∧
        pc'.wakeBudget fr' + 1 ≤ pc.wakeBudget fr := by
  have hroom (out : ℕ) (hleft : fr.sent < fr.data.length) (hout : (sp.txIn + 1) % BUF_LEN = out) :
      out ≠ sp.txOut := by
    intro heq
    have hlen : sp.tx.length = size BUF_LEN sp.txOut sp.txIn := length_contents _
    rw [heq, full_iff hb.txOut hb.txIn] at hout
    rw [WriteFrame.HasRoom] at h
    omega
  cases pc with
  | fill out =>
    refine .inr ⟨_, _, rfl, h, ?_⟩
    split_ifs with hleft
    · exact le_rfl
    · simp only [WritePc.wakeBudget]
      rw [if_neg (fun hwait => hleft (by omega))]
      omega
  | loadOut inn =>
    obtain ⟨rfl, hleft⟩ := hs
    have hspace : txSpace sp.txIn sp.txOut ≠ 0 := by
      rw [ne_eq, txSpace_eq_zero_iff hb.txIn hb.txOut]
      exact fun heq => hroom sp.txOut hleft heq rfl
    rw [WriteFrame.step, if_neg hspace]
    refine .inr ⟨_, _, rfl, h, ?_⟩
    simp only [WritePc.wakeBudget]
    omega
  | copy inn out n i =>
    rw [WriteFrame.step]
    split_ifs with hi
    · refine .inr ⟨_, _, rfl, ?_, ?_⟩
      · rw [WriteFrame.HasRoom, hs.tx_update hb hi]
        exact h
      · simp only [WritePc.wakeBudget]
        omega
    · refine .inr ⟨_, _, rfl, h, ?_⟩
      simp only [WritePc.wakeBudget]
      omega
  | storeIn inn out n =>
    have hdata := hs.le_data
    have hlen : ((fr.data.drop fr.sent).take n).length = n := by
      rw [List.length_take, List.length_drop]
      omega
    refine .inr ⟨_, _, rfl, ?_, ?_⟩
    · rw [WriteFrame.HasRoom] at h ⊢
      simp only [WriteFrame.step]
      rw [hs.tx_store hb, List.length_append, hlen]
      omega
    · simp only [WritePc.wakeBudget]
      omega
  | kick out =>
    refine .inr ⟨_, _, rfl, h, ?_⟩
    simp only [WritePc.wakeBudget]
    split_ifs <;> omega
  | blocked out =>
    refine .inr ⟨_, _, rfl, h, ?_⟩
    by_cases hwait : fr.sent < fr.data.length ∧ ¬fr.nonblock
    · rw [if_pos ⟨by omega, hwait.2⟩, WritePc.wakeBudget, WritePc.wakeBudget, if_pos hwait]
    · rw [if_neg (fun hspin => hwait ⟨by omega, hspin.2⟩), WritePc.wakeBudget, WritePc.wakeBudget,
        if_neg hwait]
  | spin out =>
    refine .inr ⟨_, _, rfl, h, ?_⟩
    rw [if_neg (hroom out hfull.1 hfull.2)]
    exact le_rfl
  | spinHost out =>
    refine .inr ⟨_, _, rfl, h, ?_⟩
    split_ifs <;> simp only [WritePc.wakeBudget] <;> omega
  | checkHost out =>
    refine .inr ⟨_, _, rfl, h, ?_⟩
    split_ifs <;> simp only [WritePc.wakeBudget] <;> omega
  | finish => exact .inl rfl

lemma WritePc.wakeBudget_le {sp : State} {fr : WriteFrame} {pc : WritePc} (hs : pc.Sound sp fr) :
    1 ≤ pc.wakeBudget fr ∧ pc.wakeBudget fr ≤ 5 * (fr.data.length - fr.sent) + 9 := by
  cases pc with
  | copy inn out n i =>
    have hroom := hs.room
    have hdata := hs.le_data
    have hle := hs.le
    simp only [wakeBudget]
    omega
  | kick out =>
    rw [wakeBudget]
    split_ifs <;> omega
  | blocked out =>
    rw [wakeBudget]
    split_ifs <;> omega
  | _ =>
    simp only [wakeBudget]
    omega

/-- The pace of a write that has room. -/
def writePace : Pace where
  Holds sp th := th.FoundFull sp ∧ ∃ fr pc, th = .write fr pc ∧ fr.HasRoom sp
  served := by
    rintro sp th log sp' ⟨hfull, fr, pc, rfl, hroom⟩ hb hserved
    refine ⟨⟨hfull.of_txIn_eq hserved.txIn, fr, pc, rfl, ?_⟩, le_rfl⟩
    rw [WriteFrame.HasRoom, hserved.tx, List.length_append] at hroom
    rw [WriteFrame.HasRoom]
    omega
  step := by
    rintro sp th o ⟨hfull, fr, pc, rfl, hroom⟩ hb hs ho
    obtain rfl := Option.some.inj ho
    rcases wake_write hb hs hfull hroom with hidle | ⟨fr', pc', hth, hroom', hpay⟩
    · exact .inl hidle
    · have hfull' := (kept_write hb hs hfull).foundFull
      right
      rw [hth] at hfull' ⊢
      exact ⟨⟨hfull', fr', pc', rfl, hroom'⟩, hpay⟩
  pos := by
    rintro sp th ⟨-, fr, pc, rfl, -⟩ hs
    exact (WritePc.wakeBudget_le hs).1

lemma returns_once_room {ticksPerSec : BitVec 32} {before events : List Event} {s s' : System}
    {fr : WriteFrame} {pc : WritePc}
    (hreach : run System.step (System.init ticksPerSec) before = some s)
    (hth : s.thread = .write fr pc) (hroom : fr.HasRoom s.sp)
    (hcalls : ∀ e ∈ events, e.isCall = false) (hrun : run System.step s events = some s') :
    s'.thread = .idle ∨
      events.countP Event.isThread < 5 * (fr.data.length - fr.sent) + 9 := by
  have hsound := System.Sound.run hreach
  have hs : pc.Sound s.sp fr := by
    have hthread := hsound.thread
    rwa [hth] at hthread
  have hbudget : s.wakeBudget ≤ 5 * (fr.data.length - fr.sent) + 9 := by
    rw [System.wakeBudget, hth]
    exact (WritePc.wakeBudget_le hs).2
  have hreturns := writePace.returns hsound ⟨foundFull_of_run hreach, fr, pc, hth, hroom⟩ hcalls hrun
  exact hreturns.imp_right (fun hlt => lt_of_lt_of_le hlt hbudget)

/-- A write appends to the transmit queue a first part of the bytes of its caller, at least as many
as there was room for when it was called. It leaves some out only when the buffer has been full,
and then, unless it must not block, only when the host has been inactive. From wherever it stands it
returns, once there is room for the rest of its bytes, after at most five steps for each of them and
nine more, whatever the handler and the alarm do. -/
theorem write_contract (ticksPerSec : BitVec 32) (before events : List Event) (s s' : System)
    (data : List (BitVec 8)) (nonblock : Bool)
    (hreach : run System.step (System.init ticksPerSec) before = some s)
    (hcalled : s.thread = (Call.write data nonblock).start)
    (hcalls : ∀ e ∈ events, e.isCall = false) (hrun : run System.step s events = some s') :
    (s'.thread = .idle →
      ∃ sent result log, s'.done = s.done ++ [.write data nonblock sent result] ∧
        s'.log = s.log ++ log ∧ s.sp.tx ++ data.take sent = transmitted log ++ s'.sp.tx ∧
        (WriteHistory.since s data nonblock events).Returns sent result) ∧
    ∀ fr pc, s'.thread = .write fr pc → fr.HasRoom s'.sp → ∀ later s'',
      (∀ e ∈ later, e.isCall = false) → run System.step s' later = some s'' →
        s''.thread = .idle ∨
          later.countP Event.isThread < 5 * (fr.data.length - fr.sent) + 9 := by
  have hsound := System.Sound.run hreach
  refine ⟨?_, fun fr pc hth hroom later s'' hlater hrest => returns_once_room
    (run_append_eq_some.mpr ⟨s, hreach, hrun⟩) hth hroom hlater hrest⟩
  intro hreturned
  have hroom : BUF_LEN - 1 - s.sp.tx.length + s.sp.tx.length < 0 + BUF_LEN := by
    have hlt := size_lt hsound.inBounds.txOut hsound.inBounds.txIn
    rw [State.tx, length_contents]
    omega
  have hstart : (writeContract s data nonblock).Progress [] s.sp s.thread :=
    ⟨⟨data, 0, nonblock⟩, .fill 0, hcalled, rfl, rfl, hroom, trivial⟩
  have hidle (events : List Event) (sp : State) :
      ¬(writeContract s data nonblock).Progress events sp .idle := by
    rintro ⟨fr, pc, hth, -⟩
    exact absurd hth (by simp)
  obtain ⟨d, hdone, sent, result, rfl, hreturns⟩ :=
    Contract.returns hsound hstart hidle hcalls hrun hreturned
  obtain ⟨log, hlog⟩ := log_append hrun
  refine ⟨sent, result, log, hdone, hlog, ?_, hreturns⟩
  have htx := hsound.tx
  have htx' := (sound_of_run hsound hrun).tx
  rw [hcalled] at htx
  rw [hreturned, hlog, transmitted_append, hdone, accepted_append] at htx'
  simp only [Thread.put, Call.start, List.take_zero, List.append_nil, accepted, List.flatMap_cons,
    List.flatMap_nil, List.append_assoc] at htx htx'
  rw [htx, List.append_assoc] at htx'
  exact List.append_cancel_left htx'

theorem write_contract_echoRun : ∃ s mid s' fr pc,
    run System.step (System.init 1000#32) (echoRun.take 13) = some s ∧
    run System.step s ((echoRun.drop 13).take 3) = some mid ∧
    run System.step mid (echoRun.drop 16) = some s' ∧
    (∃ sent result log, s'.done = s.done ++ [.write [0x41#8] false sent result] ∧
      s'.log = s.log ++ log ∧ s.sp.tx ++ [0x41#8].take sent = transmitted log ++ s'.sp.tx ∧
      (WriteHistory.since s [0x41#8] false (echoRun.drop 13)).Returns sent result) ∧
    mid.thread = .write fr pc ∧ fr.HasRoom mid.sp ∧
      (s'.thread = .idle ∨ (echoRun.drop 16).countP Event.isThread < 5 * 1 + 9) := by
  have hroom : WriteFrame.HasRoom (System.init 1000#32).sp ⟨[0x41#8], 0, false⟩ := by
    rw [WriteFrame.HasRoom]
    decide
  refine ⟨_, _, _, ⟨[0x41#8], 0, false⟩, .copy 0 0 1 1, rfl, rfl, rfl, ?_, rfl, hroom, ?_⟩
  · exact (write_contract 1000#32 (echoRun.take 13) (echoRun.drop 13) _ _ [0x41#8] false rfl rfl
      (by decide) rfl).1 rfl
  · exact (write_contract 1000#32 (echoRun.take 13) ((echoRun.drop 13).take 3) _ _ [0x41#8] false rfl
      rfl (by decide) rfl).2 _ _ rfl hroom (echoRun.drop 16) _ (by decide) rfl

end JtagUart

end VecadNiosv
