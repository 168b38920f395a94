import VecadNiosv.Library.CircularList
import VecadNiosv.Library.EventRun

/-!
# The alarms of the HAL

The alarms are elements of a circular list. `alt_tick` walks along it and calls back the alarms that
are due, and the callbacks start and stop alarms while the walk is on. The walk has read the next
element before it makes a callback. As long as no callback stops the alarm in that element, the list
stays well formed and the walk ends. Once a callback stops it, the walk never ends.
-/

namespace VecadNiosv

namespace AlarmList

open CircularList EventRun

variable {π φ κ : Type*} [DecidableEq π]

/-- `alt_alarm`, with a pointer to its callback. The links of the list are kept apart. -/
structure AltAlarm (φ κ : Type*) where
  time : BitVec 64
  callback : φ
  context : κ

/-- The data of `alt_tick.c` and of the alarms, which the program keeps anywhere in memory. -/
structure Memory (π φ κ : Type*) where
  tickRate : BitVec 32
  nticks : BitVec 64
  links : Links π
  alarms : π → AltAlarm φ κ

inductive Errno where
  | einval
  | enotsup
  deriving DecidableEq, Repr

namespace Memory

/-- `alt_sysclk_init`, which fails when there is a system clock already. -/
def altSysclkInit (m : Memory π φ κ) (nticks : BitVec 32) : Memory π φ κ :=
  if m.tickRate = 0#32 then { m with tickRate := nticks } else m

/-- A store to the fields of an alarm. -/
def setAlarm (m : Memory π φ κ) (p : π) (a : AltAlarm φ κ) : Memory π φ κ :=
  { m with alarms := Function.update m.alarms p a }

/-- `alt_alarm_start`, on the list with this head. -/
def altAlarmStart (m : Memory π φ κ) (list : π) (alarm : Option π) (nticks : BitVec 32)
    (callback : φ) (context : κ) : Except Errno (Memory π φ κ) :=
  if m.tickRate ≠ 0#32 then
    match alarm with
    | some alarm =>
      let m := m.setAlarm alarm ⟨nticks.setWidth 64 + m.nticks + 1#64, callback, context⟩
      .ok { m with links := m.links.insert list alarm }
    | none => .error .einval
  else .error .enotsup

def altAlarmStop (m : Memory π φ κ) (alarm : π) : Memory π φ κ :=
  { m with links := m.links.remove alarm }

/-- What `alt_tick` does with the value that a callback has returned. -/
def returned (m : Memory π φ κ) (alarm : π) (nextCallback : BitVec 32) : Memory π φ κ :=
  if nextCallback = 0#32 then m.altAlarmStop alarm
  else
    let a := m.alarms alarm
    m.setAlarm alarm { a with time := a.time + nextCallback.setWidth 64 }

variable {m : Memory π φ κ} {p q : π} {a : AltAlarm φ κ}

lemma setAlarm_self : (m.setAlarm p a).alarms p = a := by simp [setAlarm]

lemma setAlarm_of_ne (hne : q ≠ p) : (m.setAlarm p a).alarms q = m.alarms q := by
  simp [setAlarm, hne]

end Memory

/-- Where `alt_tick` is, with its locals `alarm` and `next`: not running, at the head of its loop,
or in a callback. -/
inductive Walk (π : Type*) where
  | idle
  | loop (alarm : π)
  | callback (alarm next : π)

def Walk.inLoop : Walk π → Bool
  | .loop _ => true
  | _ => false

/-- What has happened to the alarms. -/
inductive Op (π φ κ : Type*) where
  | started (alarm : π) (nticks : BitVec 32) (callback : φ) (context : κ)
  | stopped (alarm : π)
  | ticked
  | called (alarm : π) (callback : φ) (context : κ)
  | returned (alarm : π) (nextCallback : BitVec 32)

structure System (π φ κ : Type*) where
  memory : Memory π φ κ
  walk : Walk π
  log : List (Op π φ κ)

/-- What can happen next. The first three come from the program or from a callback, and what a
callback does and returns is up to the program. -/
inductive Event (π φ κ : Type*) where
  | sysclkInit (nticks : BitVec 32)
  | start (alarm : Option π) (nticks : BitVec 32) (callback : φ) (context : κ)
  | stop (alarm : π)
  | tick
  | loop
  | ret (nextCallback : BitVec 32)

/-- The static memory at reset, where `ALT_LLIST_HEAD` has made the list empty. -/
def System.init (list : π) (links : Links π) (alarms : π → AltAlarm φ κ) : System π φ κ where
  memory :=
    { tickRate := 0#32
      nticks := 0#64
      links := ⟨Function.update links.next list list, Function.update links.previous list list⟩
      alarms := alarms }
  walk := .idle
  log := []

/-- A turn of the loop of `alt_tick`, up to the callback if the alarm is due. -/
def System.altTickLoop (list : π) (s : System π φ κ) (alarm : π) : System π φ κ :=
  if alarm = list then { s with walk := .idle }
  else
    let next := s.memory.links.next alarm
    let a := s.memory.alarms alarm
    if a.time ≤ s.memory.nticks then
      { s with walk := .callback alarm next, log := s.log ++ [.called alarm a.callback a.context] }
    else { s with walk := .loop next }

/-- The program and the callbacks run outside of the loop. A tick interrupts the program only. -/
def System.step (list : π) (s : System π φ κ) : Event π φ κ → Option (System π φ κ)
  | .sysclkInit nticks =>
    if s.walk.inLoop then none
    else some { s with memory := s.memory.altSysclkInit nticks }
  | .start alarm nticks callback context =>
    if s.walk.inLoop then none
    else
      match s.memory.altAlarmStart list alarm nticks callback context, alarm with
      | .ok memory, some p =>
        some { s with memory, log := s.log ++ [.started p nticks callback context] }
      | _, _ => some s
  | .stop p =>
    if s.walk.inLoop then none
    else some { s with memory := s.memory.altAlarmStop p, log := s.log ++ [.stopped p] }
  | .tick =>
    match s.walk with
    | .idle => some
        { memory := { s.memory with nticks := s.memory.nticks + 1#64 }
          walk := .loop (s.memory.links.next list)
          log := s.log ++ [.ticked] }
    | _ => none
  | .loop =>
    match s.walk with
    | .loop alarm => some (s.altTickLoop list alarm)
    | _ => none
  | .ret nextCallback =>
    match s.walk with
    | .callback alarm next => some
        { memory := s.memory.returned alarm nextCallback
          walk := .loop next
          log := s.log ++ [.returned alarm nextCallback] }
    | _ => none

/-- What a step has done. -/
inductive System.Stepped (list : π) (s : System π φ κ) : Event π φ κ → System π φ κ → Prop where
  | sysclkInit (nticks tickRate : BitVec 32) :
      Stepped list s (.sysclkInit nticks) { s with memory := { s.memory with tickRate } }
  | failed (alarm : Option π) (nticks : BitVec 32) (callback : φ) (context : κ) :
      Stepped list s (.start alarm nticks callback context) s
  | start (p : π) (nticks : BitVec 32) (callback : φ) (context : κ)
      (outside : ¬s.walk.inLoop) :
      Stepped list s (.start (some p) nticks callback context) { s with
        memory := { s.memory.setAlarm p
          ⟨nticks.setWidth 64 + s.memory.nticks + 1#64, callback, context⟩ with
            links := s.memory.links.insert list p }
        log := s.log ++ [.started p nticks callback context] }
  | stop (p : π) (outside : ¬s.walk.inLoop) :
      Stepped list s (.stop p)
        { s with memory := s.memory.altAlarmStop p, log := s.log ++ [.stopped p] }
  | tick (idle : s.walk = .idle) :
      Stepped list s .tick
        { memory := { s.memory with nticks := s.memory.nticks + 1#64 }
          walk := .loop (s.memory.links.next list)
          log := s.log ++ [.ticked] }
  | done (walk : s.walk = .loop list) : Stepped list s .loop { s with walk := .idle }
  | call (p : π) (walk : s.walk = .loop p) (ne : p ≠ list)
      (due : (s.memory.alarms p).time ≤ s.memory.nticks) :
      Stepped list s .loop { s with
        walk := .callback p (s.memory.links.next p)
        log := s.log ++
          [.called p (s.memory.alarms p).callback (s.memory.alarms p).context] }
  | pass (p : π) (walk : s.walk = .loop p) (ne : p ≠ list)
      (due : ¬(s.memory.alarms p).time ≤ s.memory.nticks) :
      Stepped list s .loop { s with walk := .loop (s.memory.links.next p) }
  | ret (p next : π) (nextCallback : BitVec 32) (walk : s.walk = .callback p next) :
      Stepped list s (.ret nextCallback)
        { memory := s.memory.returned p nextCallback
          walk := .loop next
          log := s.log ++ [.returned p nextCallback] }

lemma System.stepped {list : π} {s s' : System π φ κ} {e : Event π φ κ}
    (hstep : s.step list e = some s') : s.Stepped list e s' := by
  cases e with
  | sysclkInit nticks =>
    rw [step] at hstep
    split_ifs at hstep
    rw [← Option.some.inj hstep, Memory.altSysclkInit]
    split_ifs
    · exact .sysclkInit nticks nticks
    · exact .sysclkInit nticks s.memory.tickRate
  | start alarm nticks callback context =>
    by_cases hwalk : s.walk.inLoop
    · simp only [step, if_pos hwalk] at hstep
      exact absurd hstep (by simp)
    · simp only [step, if_neg hwalk, Memory.altAlarmStart] at hstep
      by_cases hrate : s.memory.tickRate ≠ 0#32
      · cases alarm with
        | none =>
          simp only [if_pos hrate] at hstep
          exact Option.some.inj hstep ▸ .failed none nticks callback context
        | some p =>
          simp only [if_pos hrate] at hstep
          exact Option.some.inj hstep ▸ .start p nticks callback context hwalk
      · simp only [if_neg hrate] at hstep
        exact Option.some.inj hstep ▸ .failed alarm nticks callback context
  | stop p =>
    rw [step] at hstep
    split_ifs at hstep with hwalk
    exact Option.some.inj hstep ▸ .stop p hwalk
  | tick =>
    rw [step] at hstep
    split at hstep
    · rename_i hwalk
      exact Option.some.inj hstep ▸ .tick hwalk
    · exact absurd hstep (by simp)
  | loop =>
    rw [step] at hstep
    split at hstep
    · rename_i p hwalk
      rw [← Option.some.inj hstep, altTickLoop]
      by_cases hlist : p = list
      · rw [if_pos hlist]
        exact .done (hlist ▸ hwalk)
      · rw [if_neg hlist]
        dsimp only
        split_ifs with hdue
        · exact .call p hwalk hlist hdue
        · exact .pass p hwalk hlist hdue
    · exact absurd hstep (by simp)
  | ret nextCallback =>
    rw [step] at hstep
    split at hstep
    · rename_i p next hwalk
      exact Option.some.inj hstep ▸ .ret p next nextCallback hwalk
    · exact absurd hstep (by simp)

/-- When an alarm is to be called next, and what is to be called. -/
structure Appointment (φ κ : Type*) where
  tick : ℕ
  callback : φ
  context : κ

/-- What the alarms are for. An alarm without an appointment is not running. -/
structure Plan (π φ κ : Type*) where
  now : ℕ
  armed : π → Option (Appointment φ κ)

namespace Plan

def reset : Plan π φ κ := ⟨0, fun _ => none⟩

/-- Another appointment for one alarm, or none for it. -/
def arm (plan : Plan π φ κ) (p : π) (a : Option (Appointment φ κ)) : Plan π φ κ :=
  { plan with armed := Function.update plan.armed p a }

/-- A started alarm is due one tick after its time. A call that returns zero is the last one, and
otherwise the next call is due that many ticks after this one was. -/
def next (plan : Plan π φ κ) : Op π φ κ → Plan π φ κ
  | .started p nticks callback context =>
    plan.arm p (some ⟨plan.now + nticks.toNat + 1, callback, context⟩)
  | .stopped p => plan.arm p none
  | .ticked => { plan with now := plan.now + 1 }
  | .called _ _ _ => plan
  | .returned p nextCallback => plan.arm p ((plan.armed p).bind fun a =>
      if nextCallback = 0#32 then none else some { a with tick := a.tick + nextCallback.toNat })

lemma arm_now (plan : Plan π φ κ) (p : π) (a : Option (Appointment φ κ)) :
    (plan.arm p a).now = plan.now := rfl

lemma arm_armed_self (plan : Plan π φ κ) (p : π) (a : Option (Appointment φ κ)) :
    (plan.arm p a).armed p = a := Function.update_self _ _ _

lemma arm_armed_of_ne {p q : π} (hne : q ≠ p) (plan : Plan π φ κ) (a : Option (Appointment φ κ)) :
    (plan.arm p a).armed q = plan.armed q := Function.update_of_ne hne _ _

lemma arm_eq_some {plan : Plan π φ κ} {p q : π} {a : Option (Appointment φ κ)}
    {b : Appointment φ κ} (h : (plan.arm p a).armed q = some b) :
    (q = p ∧ a = some b) ∨ (q ≠ p ∧ plan.armed q = some b) := by
  by_cases heq : q = p
  · rw [heq, arm_armed_self] at h
    exact .inl ⟨heq, h⟩
  · rw [arm_armed_of_ne heq] at h
    exact .inr ⟨heq, h⟩

def after (log : List (Op π φ κ)) : Plan π φ κ := log.foldl next reset

lemma after_append (log : List (Op π φ κ)) (op : Op π φ κ) :
    after (log ++ [op]) = (after log).next op := by
  rw [after, List.foldl_append]
  rfl

end Plan

/-- A call comes at the tick of the appointment, and no tick comes while one is still to be kept. -/
def Op.OnTime (plan : Plan π φ κ) : Op π φ κ → Prop
  | .called p callback context => plan.armed p = some ⟨plan.now, callback, context⟩
  | .ticked => ∀ p a, plan.armed p = some a → plan.now < a.tick
  | _ => True

/-- The alarm has been started at some time. -/
def Started (log : List (Op π φ κ)) (p : π) : Prop :=
  ∃ nticks callback context, Op.started p nticks callback context ∈ log

/-- What the program and the callbacks have to respect: they do not start an alarm that is running,
nor stop one that was never started. -/
def Event.Respects (list : π) (s : System π φ κ) : Event π φ κ → Prop
  | .start (some p) _ _ _ => p ≠ list ∧ (Plan.after s.log).armed p = none
  | .stop p => Started s.log p
  | _ => True

/-- A callback does not stop the alarm that comes next in the list either. -/
def Event.Allowed (list : π) (s : System π φ κ) (e : Event π φ κ) : Prop :=
  e.Respects list s ∧ ∀ p next, s.walk = .callback p next → e ≠ .stop next

/-- The tick counter is far from the end of its range. -/
def Memory.EarlyEnough (m : Memory π φ κ) : Prop := m.nticks.toNat + 2 ^ 34 < 2 ^ 64

/-- The list holds the alarms that are running, and those that have been taken out are alone. -/
structure Formed (list : π) (links : Links π) (log : List (Op π φ κ)) (ps : List π) : Prop where
  ring : Ring links list ps
  running : ∀ p, p ∈ ps ↔ ((Plan.after log).armed p).isSome
  started : ∀ p, Started log p → p ≠ list ∧ (p ∈ ps ∨ Alone links p)
  known : ∀ p ∈ ps, Started log p

omit [DecidableEq π] in
lemma Started.append {log : List (Op π φ κ)} {p : π} (h : Started log p) (op : Op π φ κ) :
    Started (log ++ [op]) p := by
  obtain ⟨nticks, callback, context, hmem⟩ := h
  exact ⟨nticks, callback, context, List.mem_append_left [op] hmem⟩

omit [DecidableEq π] in
lemma started_append {log : List (Op π φ κ)} {op : Op π φ κ} {p : π}
    (h : Started (log ++ [op]) p) :
    Started log p ∨ ∃ nticks callback context, op = .started p nticks callback context := by
  obtain ⟨nticks, callback, context, hmem⟩ := h
  rcases List.mem_append.mp hmem with hmem | hmem
  · exact .inl ⟨nticks, callback, context, hmem⟩
  · exact .inr ⟨nticks, callback, context, (List.mem_singleton.mp hmem).symm⟩

namespace Formed

variable {list p : π} {links : Links π} {log : List (Op π φ κ)} {ps : List π} {op : Op π φ κ}

lemma init (list : π) (links : Links π) :
    Formed list ⟨Function.update links.next list list, Function.update links.previous list list⟩
      ([] : List (Op π φ κ)) [] where
  ring := ring_nil.mpr ⟨Function.update_self _ _ _, Function.update_self _ _ _⟩
  running p := by simp [Plan.after, Plan.reset]
  started p h := by
    obtain ⟨_, _, _, hmem⟩ := h
    exact absurd hmem List.not_mem_nil
  known p hp := absurd hp List.not_mem_nil

lemma ne_list (h : Formed list links log ps) (hp : p ∈ ps) : p ≠ list :=
  (h.started p (h.known p hp)).1

lemma notMem_of_armed (h : Formed list links log ps) (hnone : (Plan.after log).armed p = none) :
    p ∉ ps := by
  intro hmem
  have hsome := (h.running p).mp hmem
  rw [hnone] at hsome
  exact absurd hsome (by simp)

/-- Whatever happened has neither started an alarm nor ended one. -/
lemma append (h : Formed list links log ps)
    (hop : ∀ q nticks callback context, op ≠ .started q nticks callback context)
    (harmed : ∀ q, (((Plan.after log).next op).armed q).isSome = ((Plan.after log).armed q).isSome) :
    Formed list links (log ++ [op]) ps := by
  refine ⟨h.ring, ?_, ?_, ?_⟩
  · intro q
    rw [Plan.after_append, harmed]
    exact h.running q
  · intro q hq
    apply h.started q ((started_append hq).resolve_right ?_)
    rintro ⟨nticks, callback, context, heq⟩
    exact hop q nticks callback context heq
  · intro q hq
    exact (h.known q hq).append op

/-- An alarm is taken out of the list, if it is still there. -/
lemma remove (h : Formed list links log ps) (hp : Started log p)
    (hop : ∀ q nticks callback context, op ≠ .started q nticks callback context)
    (harmed : (Plan.after log).next op = (Plan.after log).arm p none) :
    Formed list (links.remove p) (log ++ [op]) (ps.filter fun q => q ≠ p) := by
  have hout := (h.started p hp).2
  refine ⟨ring_remove_filter h.ring hout, ?_, ?_, ?_⟩
  · intro q
    rw [Plan.after_append, harmed]
    by_cases heq : q = p
    · simp [heq, Plan.arm_armed_self]
    · simpa [heq, Plan.arm_armed_of_ne heq] using h.running q
  · intro q hq
    have hq' : Started log q := by
      apply (started_append hq).resolve_right
      rintro ⟨nticks, callback, context, heq⟩
      exact hop q nticks callback context heq
    obtain ⟨hlist, hmem⟩ := h.started q hq'
    refine ⟨hlist, ?_⟩
    by_cases heq : q = p
    · exact .inr (heq ▸ alone_remove links p)
    · by_cases hqps : q ∈ ps
      · exact .inl (List.mem_filter.mpr ⟨hqps, by simpa using heq⟩)
      · have hring : q ∉ list :: ps := by simp [hlist, hqps]
        exact .inr (alone_remove_filter h.ring hout hring (hmem.resolve_left hqps))
  · intro q hq
    exact (h.known q (List.mem_of_mem_filter hq)).append op

lemma start (h : Formed list links log ps) (hlist : p ≠ list)
    (hnone : (Plan.after log).armed p = none) (nticks : BitVec 32) (callback : φ) (context : κ) :
    Formed list (links.insert list p) (log ++ [.started p nticks callback context]) (p :: ps) := by
  have hps := h.notMem_of_armed hnone
  have hring : p ∉ list :: ps := by simp [hlist, hps]
  refine ⟨ring_insert h.ring hring, ?_, ?_, ?_⟩
  · intro q
    rw [Plan.after_append, Plan.next]
    by_cases heq : q = p
    · simp [heq, Plan.arm_armed_self]
    · simpa [heq, Plan.arm_armed_of_ne heq] using h.running q
  · intro q hq
    by_cases heq : q = p
    · exact ⟨heq ▸ hlist, .inl (heq ▸ List.mem_cons_self)⟩
    · have hq' : Started log q := by
        apply (started_append hq).resolve_right
        rintro ⟨nticks', callback', context', hop⟩
        exact heq (Op.started.inj hop).1.symm
      obtain ⟨hqlist, hmem⟩ := h.started q hq'
      refine ⟨hqlist, ?_⟩
      by_cases hqps : q ∈ ps
      · exact .inl (List.mem_cons_of_mem p hqps)
      · have hqring : q ∉ list :: ps := by simp [hqlist, hqps]
        exact .inr (alone_insert h.ring hqring heq hlist.symm (hmem.resolve_left hqps))
  · intro q hq
    rcases List.mem_cons.mp hq with rfl | hmem
    · exact ⟨nticks, callback, context, by simp⟩
    · exact (h.known q hmem).append _

end Formed

/-- Both kinds of return leave the list formed, whichever alarm has come back. -/
lemma Formed.returned {list p : π} {m : Memory π φ κ} {log : List (Op π φ κ)} {ps : List π}
    (h : Formed list m.links log ps) (hp : Started log p) (nextCallback : BitVec 32) :
    Formed list (m.returned p nextCallback).links (log ++ [.returned p nextCallback])
      (if nextCallback = 0#32 then ps.filter fun q => q ≠ p else ps) := by
  by_cases hzero : nextCallback = 0#32
  · rw [if_pos hzero, Memory.returned, if_pos hzero]
    apply h.remove hp (by simp)
    simp only [Plan.next, if_pos hzero]
    congr 1
    cases (Plan.after log).armed p <;> rfl
  · rw [if_neg hzero, Memory.returned, if_neg hzero]
    apply h.append (by simp)
    intro q
    simp only [Plan.next, if_neg hzero]
    by_cases heq : q = p
    · rw [heq, Plan.arm_armed_self]
      cases (Plan.after log).armed p <;> rfl
    · rw [Plan.arm_armed_of_ne heq]

/-- The alarm whose callback runs was started. -/
def Walk.Known (log : List (Op π φ κ)) : Walk π → Prop
  | .callback alarm _ => Started log alarm
  | _ => True

omit [DecidableEq π] in
lemma Walk.Known.append {log : List (Op π φ κ)} {walk : Walk π} (h : walk.Known log)
    (op : Op π φ κ) : walk.Known (log ++ [op]) := by
  cases walk with
  | idle => trivial
  | loop alarm => trivial
  | callback alarm next => exact Started.append h op

/-- The alarms that the walk still has before it are `rest`. -/
def Walk.At (list : π) (rest : List π) : Walk π → Prop
  | .idle => rest = []
  | .loop alarm => alarm = rest.headD list
  | .callback alarm next => next = rest.headD list ∧ alarm ∉ rest

/-- The running alarms are `ps`, and the walk still has `rest` before it. -/
structure System.Orderly (list : π) (s : System π φ κ) (ps rest : List π) : Prop where
  formed : Formed list s.memory.links s.log ps
  known : s.walk.Known s.log
  suffix : rest <:+ ps
  walk : s.walk.At list rest

namespace System.Orderly

variable {list p next : π} {s : System π φ κ} {ps rest : List π}

lemma init (list : π) (links : Links π) (alarms : π → AltAlarm φ κ) :
    (System.init list links alarms).Orderly list [] [] where
  formed := Formed.init list links
  known := trivial
  suffix := List.suffix_rfl
  walk := rfl

lemma start (h : s.Orderly list ps rest) (hlist : p ≠ list)
    (hnone : (Plan.after s.log).armed p = none) (nticks : BitVec 32) (callback : φ) (context : κ)
    (alarms : π → AltAlarm φ κ) :
    System.Orderly list { s with
      memory := { s.memory with alarms, links := s.memory.links.insert list p }
      log := s.log ++ [.started p nticks callback context] } (p :: ps) rest where
  formed := h.formed.start hlist hnone nticks callback context
  known := h.known.append _
  suffix := h.suffix.trans (List.suffix_cons p ps)
  walk := h.walk

/-- Whatever is stopped, the walk goes on with the same alarm unless it is that one. -/
lemma stop (h : s.Orderly list ps rest) (outside : ¬s.walk.inLoop)
    (he : (Event.stop p).Allowed list s) :
    System.Orderly list
      { s with memory := s.memory.altAlarmStop p, log := s.log ++ [.stopped p] }
      (ps.filter fun q => q ≠ p) (rest.filter fun q => q ≠ p) where
  formed := h.formed.remove he.1 (by simp) rfl
  known := h.known.append _
  suffix := h.suffix.filter _
  walk := by
    have hwalk := h.walk
    have hnext := he.2
    generalize s.walk = walk at *
    cases walk with
    | idle =>
      rw [Walk.At] at hwalk ⊢
      rw [hwalk, List.filter_nil]
    | loop alarm => exact absurd rfl outside
    | callback q next =>
      obtain ⟨hhead, hq⟩ := hwalk
      refine ⟨?_, fun hmem => hq (List.mem_of_mem_filter hmem)⟩
      cases rest with
      | nil => exact hhead
      | cons x rest =>
        have hne : x ≠ p := by
          rintro rfl
          exact hnext q next rfl (congrArg Event.stop hhead.symm)
        rw [List.filter_cons, if_pos (by simpa using hne)]
        exact hhead

lemma tick (h : s.Orderly list ps rest) :
    System.Orderly list
      { memory := { s.memory with nticks := s.memory.nticks + 1#64 }
        walk := .loop (s.memory.links.next list)
        log := s.log ++ [.ticked] } ps ps where
  formed := h.formed.append (by simp) fun _ => rfl
  known := trivial
  suffix := List.suffix_rfl
  walk := h.formed.ring.segment.next_eq

lemma eq_nil_of_walk (h : s.Orderly list ps rest) (hwalk : s.walk = .loop list) : rest = [] := by
  have hat := h.walk
  rw [hwalk] at hat
  cases rest with
  | nil => rfl
  | cons x rest =>
    have hmem : list ∈ ps := h.suffix.subset (hat ▸ List.mem_cons_self)
    exact absurd rfl (h.formed.ne_list hmem)

lemma done (h : s.Orderly list ps []) : System.Orderly list { s with walk := .idle } ps [] where
  formed := h.formed
  known := trivial
  suffix := h.suffix
  walk := rfl

/-- In its turn the alarm is the first of the rest. -/
lemma exists_eq_cons (h : s.Orderly list ps rest) (hwalk : s.walk = .loop p) (hne : p ≠ list) :
    ∃ rest', rest = p :: rest' := by
  have hat := h.walk
  rw [hwalk] at hat
  cases rest with
  | nil => exact absurd hat hne
  | cons x rest' =>
    obtain rfl : p = x := hat
    exact ⟨rest', rfl⟩

lemma mem (h : s.Orderly list ps (p :: rest)) : p ∈ ps := h.suffix.subset List.mem_cons_self

/-- After the first alarm of the rest come the others. -/
lemma next_eq (h : s.Orderly list ps (p :: rest)) :
    p ∉ rest ∧ s.memory.links.next p = rest.headD list := by
  obtain ⟨before, rfl⟩ := h.suffix
  have hnodup := (List.nodup_cons.mp h.formed.ring.nodup).2
  exact ⟨(List.nodup_cons.mp (List.nodup_append.mp hnodup).2.1).1,
    (segment_append.mp h.formed.ring.segment).2.next_eq⟩

lemma call (h : s.Orderly list ps (p :: rest)) (callback : φ) (context : κ) :
    System.Orderly list { s with
      walk := .callback p (s.memory.links.next p)
      log := s.log ++ [.called p callback context] } ps rest where
  formed := h.formed.append (by simp) fun _ => rfl
  known := (h.formed.known p h.mem).append _
  suffix := (List.suffix_cons p rest).trans h.suffix
  walk := ⟨h.next_eq.2, h.next_eq.1⟩

lemma pass (h : s.Orderly list ps (p :: rest)) :
    System.Orderly list { s with walk := .loop (s.memory.links.next p) } ps rest where
  formed := h.formed
  known := trivial
  suffix := (List.suffix_cons p rest).trans h.suffix
  walk := h.next_eq.2

lemma ret (h : s.Orderly list ps rest) (hwalk : s.walk = .callback p next)
    (nextCallback : BitVec 32) :
    System.Orderly list
      { memory := s.memory.returned p nextCallback
        walk := .loop next
        log := s.log ++ [.returned p nextCallback] }
      (if nextCallback = 0#32 then ps.filter fun q => q ≠ p else ps) rest := by
  have hknown := h.known
  have hat := h.walk
  rw [hwalk] at hknown hat
  refine ⟨h.formed.returned hknown nextCallback, trivial, ?_, hat.1⟩
  by_cases hzero : nextCallback = 0#32
  · rw [if_pos hzero, ← filter_ne_of_notMem hat.2]
    exact h.suffix.filter _
  · rw [if_neg hzero]
    exact h.suffix

end System.Orderly

def Event.isLoop : Event π φ κ → Bool
  | .loop => true
  | _ => false

/-- The turns of the loop until the walk is over. -/
def Walk.turns (rest : List π) : Walk π → ℕ
  | .idle => 0
  | _ => rest.length + 1

omit [DecidableEq π] in
lemma Walk.turns_le (walk : Walk π) (rest : List π) : walk.turns rest ≤ rest.length + 1 := by
  cases walk <;> simp [turns]

section Steps

variable {list : π} {s s' : System π φ κ} {ps rest : List π} {e : Event π φ κ}

/-- Each turn of the loop brings the end of the walk nearer, and no callback puts it off. -/
lemma System.Orderly.step (h : s.Orderly list ps rest) (he : e.Allowed list s)
    (hstep : s.step list e = some s') : ∃ ps' rest', s'.Orderly list ps' rest' ∧
      (e ≠ .tick → s'.walk.turns rest' + (if e.isLoop then 1 else 0) ≤ s.walk.turns rest) := by
  cases System.stepped hstep with
  | sysclkInit nticks tickRate =>
    exact ⟨ps, rest, ⟨h.formed, h.known, h.suffix, h.walk⟩, fun _ => le_rfl⟩
  | failed alarm nticks callback context => exact ⟨ps, rest, h, fun _ => le_rfl⟩
  | start p nticks callback context outside =>
    exact ⟨p :: ps, rest, h.start he.1.1 he.1.2 nticks callback context _, fun _ => le_rfl⟩
  | stop p outside =>
    refine ⟨_, _, h.stop outside he, fun _ => ?_⟩
    have hlen := List.length_filter_le (fun q => decide (q ≠ p)) rest
    dsimp only
    generalize s.walk = walk at outside ⊢
    cases walk with
    | idle => exact le_rfl
    | loop alarm => exact absurd rfl outside
    | callback alarm next => exact Nat.succ_le_succ hlen
  | tick idle => exact ⟨ps, ps, h.tick, fun hne => absurd rfl hne⟩
  | done walk =>
    obtain rfl := h.eq_nil_of_walk walk
    rw [walk]
    exact ⟨ps, [], h.done, fun _ => le_rfl⟩
  | call p walk ne due =>
    obtain ⟨rest', rfl⟩ := h.exists_eq_cons walk ne
    rw [walk]
    exact ⟨ps, rest', h.call _ _, fun _ => le_rfl⟩
  | pass p walk ne due =>
    obtain ⟨rest', rfl⟩ := h.exists_eq_cons walk ne
    rw [walk]
    exact ⟨ps, rest', h.pass, fun _ => le_rfl⟩
  | ret p next nextCallback walk =>
    rw [walk]
    exact ⟨_, rest, h.ret walk nextCallback, fun _ => le_rfl⟩

lemma System.Orderly.turns_le {events : List (Event π φ κ)} (h : s.Orderly list ps rest)
    (hallowed : Along (System.step list) (fun s e => e.Allowed list s) s events)
    (hrun : run (System.step list) s events = some s') (htick : ∀ e ∈ events, e ≠ .tick) :
    events.countP Event.isLoop ≤ s.walk.turns rest := by
  induction events generalizing s ps rest with
  | nil => exact Nat.zero_le _
  | cons e events ih =>
    obtain ⟨mid, hmid, hrest⟩ := run_cons_eq_some.mp hrun
    obtain ⟨ps', rest', h', hturns⟩ := h.step hallowed.1 hmid
    have hhead := hturns (htick e List.mem_cons_self)
    have htail := ih h' (hallowed.2 mid hmid) hrest
      (fun e' he' => htick e' (List.mem_cons_of_mem e he'))
    rw [List.countP_cons]
    omega

lemma System.Orderly.of_run {links : Links π} {alarms : π → AltAlarm φ κ}
    {events : List (Event π φ κ)}
    (hallowed : Along (System.step list) (fun s e => e.Allowed list s)
      (System.init list links alarms) events)
    (hrun : run (System.step list) (System.init list links alarms) events = some s) :
    ∃ ps rest, s.Orderly list ps rest := by
  apply invariant_along _ hallowed ⟨[], [], System.Orderly.init list links alarms⟩ hrun
  rintro mid e mid' he ⟨ps, rest, hmid⟩ hstep
  obtain ⟨ps', rest', hmid', -⟩ := hmid.step he hstep
  exact ⟨ps', rest', hmid'⟩

/-- The list holds exactly the running alarms, and a walk along it goes on and ends. -/
structure System.InOrder (list : π) (s : System π φ κ) (ps : List π) : Prop where
  ring : Ring s.memory.links list ps
  running : ∀ p, p ∈ ps ↔ ((Plan.after s.log).armed p).isSome
  goesOn : s.walk = .idle ∨ (∃ s', s.step list .loop = some s') ∨
    ∀ nextCallback, ∃ s', s.step list (.ret nextCallback) = some s'
  ends : ∀ events s', Along (System.step list) (fun s e => e.Allowed list s) s events →
    run (System.step list) s events = some s' → (∀ e ∈ events, e ≠ .tick) →
    events.countP Event.isLoop ≤ ps.length + 1

/-- In every run the list stays a circular list of the running alarms, while callbacks start and
stop alarms too, and every walk ends after at most one turn for each of them and one for the
head. -/
theorem alarm_list_inOrder (list : π) (links : Links π) (alarms : π → AltAlarm φ κ)
    (events : List (Event π φ κ)) (s : System π φ κ)
    (hallowed : Along (System.step list) (fun s e => e.Allowed list s)
      (System.init list links alarms) events)
    (hrun : run (System.step list) (System.init list links alarms) events = some s) :
    ∃ ps, s.InOrder list ps := by
  obtain ⟨ps, rest, h⟩ := System.Orderly.of_run hallowed hrun
  refine ⟨ps, h.formed.ring, h.formed.running, ?_, ?_⟩
  · cases hwalk : s.walk with
    | idle => exact .inl rfl
    | loop alarm => exact .inr (.inl ⟨_, by rw [System.step, hwalk]⟩)
    | callback alarm next => exact .inr (.inr fun nextCallback => ⟨_, by rw [System.step, hwalk]⟩)
  · intro events' s' hallowed' hrun' htick
    have hlen := h.suffix.length_le
    have hturns := s.walk.turns_le rest
    have hcount := h.turns_le hallowed' hrun' htick
    omega

end Steps

/-- Three alarms, of which two are due at the first tick. The callback of the last started one stops
the first one, whose turn would come later, and starts it again. -/
def alarmEvents : List (Event (Fin 4) Unit Unit) :=
  [.start (some 1) 5#32 () (), .sysclkInit 1000#32, .start (some 1) 0#32 () (),
    .start (some 2) 1#32 () (), .start (some 3) 0#32 () (), .tick, .loop, .stop 1,
    .start (some 1) 4#32 () (), .ret 2#32, .loop, .loop, .tick, .loop, .loop, .loop, .ret 0#32]

def alarmInit : System (Fin 4) Unit Unit := System.init 0 ⟨id, id⟩ fun _ => ⟨0#64, (), ()⟩

lemma alarmEvents_allowed : Along (System.step 0)
    (fun s e => e.Allowed 0 s ∧ s.memory.EarlyEnough) alarmInit alarmEvents := by
  refine along_cons ⟨⟨⟨by decide, rfl⟩, nofun⟩, by rw [Memory.EarlyEnough]; decide⟩ rfl ?_
  refine along_cons ⟨⟨trivial, nofun⟩, by rw [Memory.EarlyEnough]; decide⟩ rfl ?_
  refine along_cons ⟨⟨⟨by decide, rfl⟩, nofun⟩, by rw [Memory.EarlyEnough]; decide⟩ rfl ?_
  refine along_cons ⟨⟨⟨by decide, rfl⟩, nofun⟩, by rw [Memory.EarlyEnough]; decide⟩ rfl ?_
  refine along_cons ⟨⟨⟨by decide, rfl⟩, nofun⟩, by rw [Memory.EarlyEnough]; decide⟩ rfl ?_
  refine along_cons ⟨⟨trivial, nofun⟩, by rw [Memory.EarlyEnough]; decide⟩ rfl ?_
  refine along_cons ⟨⟨trivial, nofun⟩, by rw [Memory.EarlyEnough]; decide⟩ rfl ?_
  refine along_cons ⟨⟨⟨0#32, (), (), List.mem_cons_self⟩, ?_⟩, by rw [Memory.EarlyEnough]; decide⟩ rfl ?_
  · rintro p next hwalk heq
    obtain ⟨-, rfl⟩ := Walk.callback.inj hwalk
    exact absurd (Event.stop.inj heq) (by decide)
  refine along_cons ⟨⟨⟨by decide, rfl⟩, nofun⟩, by rw [Memory.EarlyEnough]; decide⟩ rfl ?_
  refine along_cons ⟨⟨trivial, nofun⟩, by rw [Memory.EarlyEnough]; decide⟩ rfl ?_
  refine along_cons ⟨⟨trivial, nofun⟩, by rw [Memory.EarlyEnough]; decide⟩ rfl ?_
  refine along_cons ⟨⟨trivial, nofun⟩, by rw [Memory.EarlyEnough]; decide⟩ rfl ?_
  refine along_cons ⟨⟨trivial, nofun⟩, by rw [Memory.EarlyEnough]; decide⟩ rfl ?_
  refine along_cons ⟨⟨trivial, nofun⟩, by rw [Memory.EarlyEnough]; decide⟩ rfl ?_
  refine along_cons ⟨⟨trivial, nofun⟩, by rw [Memory.EarlyEnough]; decide⟩ rfl ?_
  refine along_cons ⟨⟨trivial, nofun⟩, by rw [Memory.EarlyEnough]; decide⟩ rfl ?_
  exact along_cons ⟨⟨trivial, nofun⟩, by rw [Memory.EarlyEnough]; decide⟩ rfl trivial

theorem alarm_list_inOrder_alarmEvents : ∃ s, run (System.step 0) alarmInit alarmEvents = some s ∧
    ∃ ps, s.InOrder 0 ps :=
  ⟨_, rfl, alarm_list_inOrder 0 _ _ alarmEvents _ (alarmEvents_allowed.mono fun _ _ h => h.1) rfl⟩

/-- The walk goes to an alarm that points to itself. -/
def Walk.GoesTo (p : π) : Walk π → Prop
  | .idle => False
  | .loop alarm => alarm = p
  | .callback _ next => next = p

/-- The walk is at a stopped alarm, which is alone, or comes to it next. -/
structure System.Astray (list stopped : π) (s : System π φ κ) (ps : List π) : Prop where
  formed : Formed list s.memory.links s.log ps
  known : s.walk.Known s.log
  started : Started s.log stopped
  out : stopped ∉ ps
  walk : s.walk.GoesTo stopped

namespace System.Astray

variable {list stopped : π} {s s' : System π φ κ} {ps : List π} {e : Event π φ κ}

lemma ne_list (h : s.Astray list stopped ps) : stopped ≠ list :=
  (h.formed.started stopped h.started).1

lemma next_eq (h : s.Astray list stopped ps) : s.memory.links.next stopped = stopped :=
  ((h.formed.started stopped h.started).2.resolve_left h.out).1

/-- The callback before an alarm has stopped it. -/
lemma of_stop {p : π} (hformed : Formed list s.memory.links s.log ps) (hknown : s.walk.Known s.log)
    (hstopped : Started s.log stopped) (hwalk : s.walk = .callback p stopped) :
    System.Astray list stopped
      { s with memory := s.memory.altAlarmStop stopped, log := s.log ++ [.stopped stopped] }
      (ps.filter fun q => q ≠ stopped) where
  formed := hformed.remove hstopped (by simp) rfl
  known := hknown.append _
  started := hstopped.append _
  out := by simp
  walk := by
    dsimp only
    rw [hwalk]
    rfl

/-- The walk stays with the alarm until it is started again. -/
lemma step (h : s.Astray list stopped ps) (he : e.Respects list s)
    (hstart : ∀ nticks callback context, e ≠ .start (some stopped) nticks callback context)
    (hstep : s.step list e = some s') : ∃ ps', s'.Astray list stopped ps' := by
  have hwalk := h.walk
  have hfilter (p : π) : stopped ∉ ps.filter fun q => q ≠ p :=
    fun hmem => h.out (List.mem_of_mem_filter hmem)
  cases System.stepped hstep with
  | sysclkInit nticks tickRate => exact ⟨ps, h.formed, h.known, h.started, h.out, h.walk⟩
  | failed alarm nticks callback context => exact ⟨ps, h⟩
  | start p nticks callback context outside =>
    have hne : stopped ≠ p := fun heq => hstart nticks callback context (by rw [heq])
    exact ⟨p :: ps, h.formed.start he.1 he.2 nticks callback context, h.known.append _,
      h.started.append _, by simp [hne, h.out], h.walk⟩
  | stop p outside =>
    exact ⟨_, h.formed.remove he (by simp) rfl, h.known.append _, h.started.append _, hfilter p,
      h.walk⟩
  | tick idle =>
    rw [idle] at hwalk
    exact hwalk.elim
  | done walk =>
    rw [walk] at hwalk
    exact absurd hwalk.symm h.ne_list
  | call p walk ne due =>
    rw [walk] at hwalk
    obtain rfl : p = stopped := hwalk
    exact ⟨ps, h.formed.append (by simp) fun _ => rfl, h.started.append _, h.started.append _, h.out,
      h.next_eq⟩
  | pass p walk ne due =>
    rw [walk] at hwalk
    obtain rfl : p = stopped := hwalk
    exact ⟨ps, h.formed, trivial, h.started, h.out, h.next_eq⟩
  | ret p next nextCallback walk =>
    have hknown := h.known
    rw [walk] at hwalk hknown
    refine ⟨_, h.formed.returned hknown nextCallback, trivial, h.started.append _, ?_, hwalk⟩
    split_ifs
    · exact hfilter p
    · exact h.out

end System.Astray

/-- Once a callback stops the alarm that comes next, the walk never ends, whatever other alarms
callbacks start and stop, until one of them starts that alarm again. -/
theorem walk_never_ends (list : π) (links : Links π) (alarms : π → AltAlarm φ κ)
    (events : List (Event π φ κ)) (s : System π φ κ)
    (hallowed : Along (System.step list) (fun s e => e.Allowed list s)
      (System.init list links alarms) events)
    (hrun : run (System.step list) (System.init list links alarms) events = some s)
    (p stopped : π) (hwalk : s.walk = .callback p stopped) (events' : List (Event π φ κ))
    (s' : System π φ κ)
    (hrespects : Along (System.step list) (fun s e => e.Respects list s ∧
      ∀ nticks callback context, e ≠ .start (some stopped) nticks callback context) s
      (.stop stopped :: events'))
    (hrun' : run (System.step list) s (.stop stopped :: events') = some s') : s'.walk ≠ .idle := by
  obtain ⟨ps, rest, h⟩ := System.Orderly.of_run hallowed hrun
  obtain ⟨mid, hmid, hrest⟩ := run_cons_eq_some.mp hrun'
  obtain ⟨ps', h'⟩ : ∃ ps, mid.Astray list stopped ps := by
    cases System.stepped hmid with
    | stop _ outside => exact ⟨_, .of_stop h.formed h.known hrespects.1.1 hwalk⟩
  obtain ⟨ps', hastray⟩ : ∃ ps, s'.Astray list stopped ps := by
    apply invariant_along _ (hrespects.2 mid hmid) ⟨ps', h'⟩ hrest
    rintro mid e mid' ⟨he, hstart⟩ ⟨ps, hps⟩ hstep
    exact hps.step he hstart hstep
  have hgoes := hastray.walk
  intro hidle
  rw [hidle] at hgoes
  exact hgoes

/-- Two alarms are due at the first tick, and the one that is called first stops the other. -/
def strayEvents : List (Event (Fin 4) Unit Unit) :=
  [.sysclkInit 1000#32, .start (some 2) 0#32 () (), .start (some 3) 0#32 () (), .tick, .loop]

lemma strayEvents_allowed :
    Along (System.step 0) (fun s e => e.Allowed 0 s) alarmInit strayEvents := by
  refine along_cons ⟨trivial, nofun⟩ rfl ?_
  refine along_cons ⟨⟨by decide, rfl⟩, nofun⟩ rfl ?_
  refine along_cons ⟨⟨by decide, rfl⟩, nofun⟩ rfl ?_
  refine along_cons ⟨trivial, nofun⟩ rfl ?_
  exact along_cons ⟨trivial, nofun⟩ rfl trivial

theorem walk_never_ends_strayEvents : ∃ s s',
    run (System.step 0) alarmInit strayEvents = some s ∧
    run (System.step 0) s [.stop 2, .ret 0#32, .loop, .start (some 1) 0#32 () (), .ret 5#32, .loop,
      .loop] = some s' ∧ s'.walk ≠ .idle := by
  refine ⟨_, _, rfl, rfl, walk_never_ends 0 _ _ strayEvents _ strayEvents_allowed rfl 3 2 rfl
    [.ret 0#32, .loop, .start (some 1) 0#32 () (), .ret 5#32, .loop, .loop] _ ?_ rfl⟩
  refine along_cons ⟨⟨0#32, (), (), List.mem_cons_self⟩, nofun⟩ rfl ?_
  refine along_cons ⟨trivial, nofun⟩ rfl ?_
  refine along_cons ⟨trivial, nofun⟩ rfl ?_
  refine along_cons ⟨⟨by decide, rfl⟩, by simp⟩ rfl ?_
  refine along_cons ⟨trivial, nofun⟩ rfl ?_
  refine along_cons ⟨trivial, nofun⟩ rfl ?_
  exact along_cons ⟨trivial, nofun⟩ rfl trivial

end AlarmList

end VecadNiosv
