import VecadNiosv.AlarmList
import VecadNiosv.LedBlink

/-!
# The schedule of the alarms

Every alarm is called exactly at its tick, whatever other alarms the callbacks start and stop, as
long as none of them stops the alarm that comes next.
-/

namespace VecadNiosv

namespace AlarmList

open CircularList EventRun

variable {π φ κ : Type*} [DecidableEq π]

/-- The call that the fields of an alarm ask for. -/
def AltAlarm.appointment (a : AltAlarm φ κ) : Appointment φ κ :=
  ⟨a.time.toNat, a.callback, a.context⟩

/-- The memory keeps to the plan. An alarm that is due now is still before the walk, or is being
called. -/
structure Timed (m : Memory π φ κ) (plan : Plan π φ κ) (walk : Walk π) (rest : List π) : Prop where
  now : m.nticks.toNat = plan.now
  armed : ∀ p a, plan.armed p = some a → a = (m.alarms p).appointment
  ahead : ∀ p a, plan.armed p = some a → plan.now ≤ a.tick ∧ a.tick ≤ plan.now + 2 ^ 33
  passed : ∀ p a, plan.armed p = some a →
    p ∈ rest ∨ (∃ next, walk = .callback p next) ∨ plan.now < a.tick
  called : ∀ p next a, walk = .callback p next → plan.armed p = some a →
    a.tick ≤ plan.now + 2 ^ 32

namespace Timed

variable {p next : π} {m : Memory π φ κ} {plan : Plan π φ κ} {walk : Walk π} {ps rest : List π}

lemma init (list : π) (links : Links π) (alarms : π → AltAlarm φ κ) :
    Timed (System.init list links alarms).memory Plan.reset .idle [] where
  now := rfl
  armed p a h := absurd h (by simp [Plan.reset])
  ahead p a h := absurd h (by simp [Plan.reset])
  passed p a h := absurd h (by simp [Plan.reset])
  called p next a h := absurd h (by simp)

lemma start (h : Timed m plan walk rest) (hearly : m.EarlyEnough) (p : π) (nticks : BitVec 32)
    (callback : φ) (context : κ) (links : Links π) :
    Timed { m.setAlarm p ⟨nticks.setWidth 64 + m.nticks + 1#64, callback, context⟩ with links }
      (plan.next (.started p nticks callback context)) walk rest := by
  have hn := nticks.isLt
  have hnow := h.now
  have htime : (nticks.setWidth 64 + m.nticks + 1#64).toNat = plan.now + nticks.toNat + 1 := by
    rw [Memory.EarlyEnough] at hearly
    simp only [BitVec.toNat_add, BitVec.toNat_setWidth, BitVec.toNat_ofNat]
    omega
  rw [Plan.next]
  refine ⟨hnow, ?_, ?_, ?_, ?_⟩
  · intro q a ha
    dsimp only
    rcases Plan.arm_eq_some ha with ⟨rfl, hnew⟩ | ⟨hne, hold⟩
    · rw [Memory.setAlarm_self, AltAlarm.appointment, htime]
      exact (Option.some.inj hnew).symm
    · rw [Memory.setAlarm_of_ne hne]
      exact h.armed q a hold
  · intro q a ha
    rw [Plan.arm_now]
    rcases Plan.arm_eq_some ha with ⟨rfl, hnew⟩ | ⟨hne, hold⟩
    · rw [← Option.some.inj hnew]
      dsimp only
      omega
    · exact h.ahead q a hold
  · intro q a ha
    rw [Plan.arm_now]
    rcases Plan.arm_eq_some ha with ⟨rfl, hnew⟩ | ⟨hne, hold⟩
    · rw [← Option.some.inj hnew]
      exact .inr (.inr (by dsimp only; omega))
    · exact h.passed q a hold
  · intro q next a hwalk ha
    rw [Plan.arm_now]
    rcases Plan.arm_eq_some ha with ⟨rfl, hnew⟩ | ⟨hne, hold⟩
    · rw [← Option.some.inj hnew]
      dsimp only
      omega
    · exact h.called q next a hwalk hold

/-- An appointment is cancelled, and the others are kept. -/
lemma cancel (h : Timed m plan walk rest) (p : π) (links : Links π) :
    Timed { m with links } (plan.arm p none) walk (rest.filter fun q => q ≠ p) := by
  have hold (q : π) (a : Appointment φ κ) (ha : (plan.arm p none).armed q = some a) :
      q ≠ p ∧ plan.armed q = some a :=
    (Plan.arm_eq_some ha).resolve_left fun hnew => absurd hnew.2 (by simp)
  refine ⟨h.now, ?_, ?_, ?_, ?_⟩
  · intro q a ha
    exact h.armed q a (hold q a ha).2
  · intro q a ha
    exact h.ahead q a (hold q a ha).2
  · intro q a ha
    refine (h.passed q a (hold q a ha).2).imp_left ?_
    intro hmem
    exact List.mem_filter.mpr ⟨hmem, by simpa using (hold q a ha).1⟩
  · intro q next a hwalk ha
    exact h.called q next a hwalk (hold q a ha).2

omit [DecidableEq π] in
/-- Between two walks every appointment is still to come. -/
lemma lt_of_idle (h : Timed m plan .idle []) {a : Appointment φ κ} (ha : plan.armed p = some a) :
    plan.now < a.tick := by
  rcases h.passed p a ha with hmem | ⟨next, hwalk⟩ | hlt
  · exact absurd hmem List.not_mem_nil
  · exact absurd hwalk (by simp)
  · exact hlt

lemma tick (h : Timed m plan .idle []) (hearly : m.EarlyEnough)
    (hps : ∀ p, p ∈ ps ↔ (plan.armed p).isSome) (alarm : π) :
    Timed { m with nticks := m.nticks + 1#64 } (plan.next .ticked) (.loop alarm) ps := by
  rw [Plan.next]
  refine ⟨?_, h.armed, ?_, ?_, ?_⟩
  · have hnow := h.now
    rw [Memory.EarlyEnough] at hearly
    simp only [BitVec.toNat_add, BitVec.toNat_ofNat]
    omega
  · intro q a ha
    have hahead := h.ahead q a ha
    have hlt := h.lt_of_idle ha
    dsimp only
    omega
  · intro q a ha
    exact .inl ((hps q).mpr (Option.isSome_iff_exists.mpr ⟨a, ha⟩))
  · intro q next a hwalk
    exact absurd hwalk (by simp)

omit [DecidableEq π] in
/-- An alarm of the rest whose time has come is due at this very tick. -/
lemma tick_eq_of_due (h : Timed m plan walk rest) {a : Appointment φ κ}
    (ha : plan.armed p = some a) (due : (m.alarms p).time ≤ m.nticks) : a.tick = plan.now := by
  have hahead := h.ahead p a ha
  have htime : a.tick = (m.alarms p).time.toNat := congrArg Appointment.tick (h.armed p a ha)
  rw [BitVec.le_def, h.now] at due
  omega

omit [DecidableEq π] in
lemma armed_of_due (h : Timed m plan walk rest) (hp : (plan.armed p).isSome)
    (due : (m.alarms p).time ≤ m.nticks) :
    plan.armed p = some ⟨plan.now, (m.alarms p).callback, (m.alarms p).context⟩ := by
  obtain ⟨a, ha⟩ := Option.isSome_iff_exists.mp hp
  rw [ha, ← h.tick_eq_of_due ha due, h.armed p a ha]
  rfl

omit [DecidableEq π] in
lemma call (h : Timed m plan (.loop p) (p :: rest)) (due : (m.alarms p).time ≤ m.nticks)
    (next : π) : Timed m plan (.callback p next) rest := by
  refine ⟨h.now, h.armed, h.ahead, ?_, ?_⟩
  · intro q a ha
    rcases h.passed q a ha with hmem | ⟨next', hwalk⟩ | hlt
    · rcases List.mem_cons.mp hmem with rfl | hmem
      · exact .inr (.inl ⟨next, rfl⟩)
      · exact .inl hmem
    · exact absurd hwalk (by simp)
    · exact .inr (.inr hlt)
  · intro q next' a hwalk ha
    obtain ⟨rfl, -⟩ := Walk.callback.inj hwalk
    rw [h.tick_eq_of_due ha due]
    omega

omit [DecidableEq π] in
/-- The alarm is not due, so that it can be left behind. -/
lemma pass (h : Timed m plan (.loop p) (p :: rest)) (due : ¬(m.alarms p).time ≤ m.nticks)
    (next : π) : Timed m plan (.loop next) rest := by
  refine ⟨h.now, h.armed, h.ahead, ?_, ?_⟩
  · intro q a ha
    rcases h.passed q a ha with hmem | ⟨next', hwalk⟩ | hlt
    · rcases List.mem_cons.mp hmem with rfl | hmem
      · have htime : a.tick = (m.alarms q).time.toNat :=
          congrArg Appointment.tick (h.armed q a ha)
        rw [BitVec.le_def, h.now] at due
        exact .inr (.inr (by omega))
      · exact .inl hmem
    · exact absurd hwalk (by simp)
    · exact .inr (.inr hlt)
  · intro q next' a hwalk
    exact absurd hwalk (by simp)

omit [DecidableEq π] in
lemma done (h : Timed m plan (.loop p) []) : Timed m plan .idle [] := by
  refine ⟨h.now, h.armed, h.ahead, ?_, ?_⟩
  · intro q a ha
    rcases h.passed q a ha with hmem | ⟨next, hwalk⟩ | hlt
    · exact .inl hmem
    · exact absurd hwalk (by simp)
    · exact .inr (.inr hlt)
  · intro q next a hwalk
    exact absurd hwalk (by simp)

omit [DecidableEq π] in
/-- The walk leaves the callback, whose alarm has no appointment any more or a later one. -/
lemma leave {next' : π} (h : Timed m plan (.callback p next) rest)
    (hp : ∀ a, plan.armed p = some a → plan.now < a.tick) :
    Timed m plan (.loop next') rest := by
  refine ⟨h.now, h.armed, h.ahead, ?_, ?_⟩
  · intro q a ha
    rcases h.passed q a ha with hmem | ⟨next', hwalk⟩ | hlt
    · exact .inl hmem
    · obtain ⟨rfl, -⟩ := Walk.callback.inj hwalk
      exact .inr (.inr (hp a ha))
    · exact .inr (.inr hlt)
  · intro q next' a hwalk
    exact absurd hwalk (by simp)

/-- The alarm is called again some ticks after this call. If it has been stopped in the meantime,
this changes a time that nothing reads. -/
lemma again (h : Timed m plan (.callback p next) rest) (hearly : m.EarlyEnough)
    {nextCallback : BitVec 32} (hpos : 0 < nextCallback.toNat) :
    Timed (m.setAlarm p { m.alarms p with time := (m.alarms p).time + nextCallback.setWidth 64 })
      (plan.arm p ((plan.armed p).map fun a => { a with tick := a.tick + nextCallback.toNat }))
      (.loop next) rest := by
  have hlt := nextCallback.isLt
  have hnow := h.now
  have htime (a : Appointment φ κ) (ha : plan.armed p = some a) :
      ((m.alarms p).time + nextCallback.setWidth 64).toNat = a.tick + nextCallback.toNat := by
    have htick : a.tick = (m.alarms p).time.toNat := congrArg Appointment.tick (h.armed p a ha)
    have hcalled := h.called p next a rfl ha
    rw [Memory.EarlyEnough] at hearly
    simp only [BitVec.toNat_add, BitVec.toNat_setWidth]
    omega
  -- an appointment is that of `p` put off, or one of another alarm
  have hcases (q : π) (b : Appointment φ κ) (hb : (plan.arm p ((plan.armed p).map fun a =>
      { a with tick := a.tick + nextCallback.toNat })).armed q = some b) :
      (q = p ∧ ∃ a, plan.armed p = some a ∧ { a with tick := a.tick + nextCallback.toNat } = b) ∨
      (q ≠ p ∧ plan.armed q = some b) :=
    (Plan.arm_eq_some hb).imp_left fun hnew => ⟨hnew.1, Option.map_eq_some_iff.mp hnew.2⟩
  refine ⟨hnow, ?_, ?_, ?_, ?_⟩
  · intro q b hb
    rcases hcases q b hb with ⟨rfl, a, ha, rfl⟩ | ⟨hne, hold⟩
    · rw [Memory.setAlarm_self, AltAlarm.appointment, htime a ha, h.armed q a ha]
      rfl
    · rw [Memory.setAlarm_of_ne hne]
      exact h.armed q b hold
  · intro q b hb
    rw [Plan.arm_now]
    rcases hcases q b hb with ⟨rfl, a, ha, rfl⟩ | ⟨hne, hold⟩
    · have hahead := h.ahead q a ha
      have hcalled := h.called q next a rfl ha
      dsimp only
      omega
    · exact h.ahead q b hold
  · intro q b hb
    rw [Plan.arm_now]
    rcases hcases q b hb with ⟨rfl, a, ha, rfl⟩ | ⟨hne, hold⟩
    · have hahead := h.ahead q a ha
      exact .inr (.inr (by dsimp only; omega))
    · rcases h.passed q b hold with hmem | ⟨next', hwalk⟩ | hlater
      · exact .inl hmem
      · exact absurd (Walk.callback.inj hwalk).1.symm hne
      · exact .inr (.inr hlater)
  · intro q next' b hwalk
    exact absurd hwalk (by simp)

lemma ret (h : Timed m plan (.callback p next) rest) (hearly : m.EarlyEnough) (hp : p ∉ rest)
    (nextCallback : BitVec 32) :
    Timed (m.returned p nextCallback) (plan.next (.returned p nextCallback)) (.loop next) rest := by
  rw [Plan.next, Memory.returned]
  by_cases hzero : nextCallback = 0#32
  · have hcancel := h.cancel p (m.links.remove p)
    rw [filter_ne_of_notMem hp] at hcancel
    rw [if_pos hzero]
    simp only [if_pos hzero, Option.bind_fun_none]
    refine hcancel.leave ?_
    intro a ha
    rw [Plan.arm_armed_self] at ha
    exact absurd ha (by simp)
  · have hpos : 0 < nextCallback.toNat :=
      Nat.pos_of_ne_zero fun heq => hzero (BitVec.eq_of_toNat_eq heq)
    rw [if_neg hzero]
    simp only [if_neg hzero]
    exact Option.map_eq_bind ▸ h.again hearly hpos

end Timed

/-- Every event of the log was on time. -/
def Kept (log : List (Op π φ κ)) : Prop :=
  ∀ before op after, log = before ++ op :: after → op.OnTime (Plan.after before)

lemma Kept.nil : Kept ([] : List (Op π φ κ)) :=
  fun _ _ _ h => absurd h.symm (by simp)

lemma Kept.append {log : List (Op π φ κ)} {op : Op π φ κ} (h : Kept log)
    (hop : op.OnTime (Plan.after log)) : Kept (log ++ [op]) := by
  intro before op' after heq
  rcases List.eq_nil_or_concat after with rfl | ⟨rest, last, rfl⟩
  · obtain ⟨rfl, hlast⟩ := List.append_inj' heq rfl
    rw [← List.singleton_inj.mp hlast]
    exact hop
  · rw [List.concat_eq_append, ← List.cons_append, ← List.append_assoc] at heq
    exact h before op' rest (List.append_inj' heq rfl).1

/-- The list, the memory and the log keep to the plan. -/
structure System.OnSchedule (list : π) (s : System π φ κ) (ps rest : List π) : Prop where
  orderly : s.Orderly list ps rest
  timed : Timed s.memory (Plan.after s.log) s.walk rest
  kept : Kept s.log

lemma System.OnSchedule.step {list : π} {s s' : System π φ κ} {e : Event π φ κ} {ps rest : List π}
    (h : s.OnSchedule list ps rest) (he : e.Allowed list s) (hearly : s.memory.EarlyEnough)
    (hstep : s.step list e = some s') : ∃ ps' rest', s'.OnSchedule list ps' rest' := by
  obtain ⟨horderly, htimed, hkept⟩ := h
  cases System.stepped hstep with
  | sysclkInit nticks tickRate =>
    exact ⟨ps, rest,
      ⟨horderly.formed, horderly.known, horderly.suffix, horderly.walk⟩,
      ⟨htimed.now, htimed.armed, htimed.ahead, htimed.passed, htimed.called⟩, hkept⟩
  | failed alarm nticks callback context => exact ⟨ps, rest, horderly, htimed, hkept⟩
  | start p nticks callback context outside =>
    refine ⟨p :: ps, rest, horderly.start he.1.1 he.1.2 nticks callback context _, ?_,
      hkept.append trivial⟩
    rw [Plan.after_append]
    exact htimed.start hearly p nticks callback context _
  | stop p outside =>
    refine ⟨_, _, horderly.stop outside he, ?_, hkept.append trivial⟩
    rw [Plan.after_append]
    exact htimed.cancel p _
  | tick idle =>
    have hat := horderly.walk
    rw [idle] at hat htimed
    obtain rfl : rest = [] := hat
    refine ⟨ps, ps, horderly.tick, ?_, hkept.append fun q a ha => htimed.lt_of_idle ha⟩
    rw [Plan.after_append]
    exact htimed.tick hearly horderly.formed.running _
  | done walk =>
    obtain rfl := horderly.eq_nil_of_walk walk
    rw [walk] at htimed
    exact ⟨ps, [], horderly.done, htimed.done, hkept⟩
  | call p walk ne due =>
    obtain ⟨rest', rfl⟩ := horderly.exists_eq_cons walk ne
    rw [walk] at htimed
    have hcall := htimed.armed_of_due ((horderly.formed.running p).mp horderly.mem) due
    refine ⟨ps, rest', horderly.call _ _, ?_, hkept.append hcall⟩
    rw [Plan.after_append]
    exact htimed.call due _
  | pass p walk ne due =>
    obtain ⟨rest', rfl⟩ := horderly.exists_eq_cons walk ne
    rw [walk] at htimed
    exact ⟨ps, rest', horderly.pass, htimed.pass due _, hkept⟩
  | ret p next nextCallback walk =>
    have hat := horderly.walk
    rw [walk] at htimed hat
    refine ⟨_, rest, horderly.ret walk nextCallback, ?_, hkept.append trivial⟩
    rw [Plan.after_append]
    exact htimed.ret hearly hat.2 nextCallback

/-- The counter holds the number of ticks, as far as its 64 bits go. -/
def System.Counted (s : System π φ κ) : Prop :=
  s.memory.nticks = BitVec.ofNat 64 (Plan.after s.log).now

/-- The counter counts the ticks in every run, as the counter of the LED blinker does. -/
theorem nticks_eq_altTick {α : Type*} (hal : List (LedBlink.Alarm α)) (list : π) (links : Links π)
    (alarms : π → AltAlarm φ κ) (events : List (Event π φ κ)) (s : System π φ κ)
    (hrun : run (System.step list) (System.init list links alarms) events = some s) :
    s.memory.nticks =
      (LedBlink.Hal.altTick^[(Plan.after s.log).now] (LedBlink.Hal.reset hal)).nticks := by
  have hinit : (System.init list links alarms).Counted := rfl
  have hcounted : s.Counted := by
    refine invariant ?_ hinit hrun
    intro mid e mid' h hstep
    rw [System.Counted] at h ⊢
    cases System.stepped hstep with
    | sysclkInit nticks tickRate => exact h
    | failed alarm nticks callback context => exact h
    | start p nticks callback context outside =>
      rw [Plan.after_append]
      exact h
    | stop p outside =>
      rw [Plan.after_append]
      exact h
    | tick idle =>
      rw [Plan.after_append, Plan.next]
      dsimp only
      rw [h, BitVec.ofNat_add]
    | done walk => exact h
    | call p walk ne due =>
      rw [Plan.after_append]
      exact h
    | pass p walk ne due => exact h
    | ret p next nextCallback walk =>
      rw [Plan.after_append, Plan.next, Plan.arm_now, Memory.returned]
      split_ifs
      · exact h
      · exact h
  rw [hcounted, LedBlink.Hal.altTick_iterate_nticks, LedBlink.Hal.reset, BitVec.zero_add]

end AlarmList

end VecadNiosv
