import Mathlib

/-!
# Runs of event systems

A system takes a step for each event, unless the event cannot happen in the state. A run performs
a list of events. What every step preserves holds after every run, and steps that are paid for out
of a budget happen no more often than the budget allows.
-/

namespace EventRun

variable {σ ε : Type*} {step : σ → ε → Option σ}

/-- The state after the events, if they can happen one after the other. -/
def run (step : σ → ε → Option σ) (s : σ) (events : List ε) : Option σ := events.foldlM step s

/-- Every step of the run is taken from a state and by an event that meet a condition. -/
def Along (step : σ → ε → Option σ) (guard : σ → ε → Prop) : σ → List ε → Prop
  | _, [] => True
  | s, e :: events => guard s e ∧ ∀ s', step s e = some s' → Along step guard s' events

lemma run_nil (s : σ) : run step s [] = some s := rfl

lemma run_cons_eq_some {s s' : σ} {e : ε} {events : List ε} :
    run step s (e :: events) = some s' ↔
      ∃ mid, step s e = some mid ∧ run step mid events = some s' := by
  rw [run, List.foldlM_cons]
  exact Option.bind_eq_some_iff

lemma run_append_eq_some {s s' : σ} {events events' : List ε} :
    run step s (events ++ events') = some s' ↔
      ∃ mid, run step s events = some mid ∧ run step mid events' = some s' := by
  rw [run, List.foldlM_append]
  exact Option.bind_eq_some_iff

lemma along_cons {guard : σ → ε → Prop} {s s' : σ} {e : ε} {events : List ε} (he : guard s e)
    (hstep : step s e = some s') (h : Along step guard s' events) :
    Along step guard s (e :: events) := by
  refine ⟨he, ?_⟩
  intro mid hmid
  rw [Option.some.inj (hmid.symm.trans hstep)]
  exact h

lemma Along.mono {guard guard' : σ → ε → Prop} (hle : ∀ s e, guard s e → guard' s e) {s : σ}
    {events : List ε} (h : Along step guard s events) : Along step guard' s events := by
  induction events generalizing s with
  | nil => trivial
  | cons e events ih => exact ⟨hle s e h.1, fun s' hstep => ih (h.2 s' hstep)⟩

lemma along_of_forall {guard : σ → ε → Prop} (s : σ) (events : List ε)
    (h : ∀ e ∈ events, ∀ s, guard s e) : Along step guard s events := by
  induction events generalizing s with
  | nil => trivial
  | cons e events ih =>
    refine ⟨h e List.mem_cons_self s, ?_⟩
    intro s' _
    exact ih s' (fun e' he' => h e' (List.mem_cons_of_mem e he'))

/-- What no step lowers is never above its value at the end. -/
lemma along_le_final {f : σ → ℕ} (hstep : ∀ s e s', step s e = some s' → f s ≤ f s') {s s' : σ}
    {events : List ε} (hrun : run step s events = some s') :
    f s ≤ f s' ∧ Along step (fun s _ => f s ≤ f s') s events := by
  induction events generalizing s with
  | nil =>
    rw [run_nil, Option.some.injEq] at hrun
    exact ⟨hrun ▸ le_rfl, trivial⟩
  | cons e events ih =>
    obtain ⟨mid, hmid, hrest⟩ := run_cons_eq_some.mp hrun
    obtain ⟨hle, htail⟩ := ih hrest
    have hfirst := (hstep s e mid hmid).trans hle
    exact ⟨hfirst, along_cons hfirst hmid htail⟩

/-- What every step under the condition preserves holds after the run. -/
theorem invariant_along {guard : σ → ε → Prop} {Inv : σ → Prop}
    (hstep : ∀ s e s', guard s e → Inv s → step s e = some s' → Inv s') {s s' : σ}
    {events : List ε} (hguard : Along step guard s events) (hinv : Inv s)
    (hrun : run step s events = some s') : Inv s' := by
  induction events generalizing s with
  | nil =>
    rw [run_nil, Option.some.injEq] at hrun
    exact hrun ▸ hinv
  | cons e events ih =>
    obtain ⟨mid, hmid, hrest⟩ := run_cons_eq_some.mp hrun
    exact ih (hguard.2 mid hmid) (hstep s e mid hguard.1 hinv hmid) hrest

theorem invariant {Inv : σ → Prop} (hstep : ∀ s e s', Inv s → step s e = some s' → Inv s')
    {s s' : σ} {events : List ε} (hinv : Inv s) (hrun : run step s events = some s') : Inv s' := by
  have hguard : Along step (fun _ _ => True) s events :=
    along_of_forall s events (fun _ _ _ => trivial)
  exact invariant_along (fun s e s' _ => hstep s e s') hguard hinv hrun

/-- A state that the run passes, among them the first and the last one, meets the condition. -/
def Visits (step : σ → ε → Option σ) (P : σ → Prop) (s : σ) (events : List ε) : Prop :=
  ∃ pre mid, pre <+: events ∧ run step s pre = some mid ∧ P mid

lemma Visits.last {P : σ → Prop} {s s' : σ} {events : List ε} (hrun : run step s events = some s')
    (hP : P s') : Visits step P s events := ⟨events, s', List.prefix_rfl, hrun, hP⟩

lemma Visits.append {P : σ → Prop} {s : σ} {events : List ε} (h : Visits step P s events)
    (events' : List ε) : Visits step P s (events ++ events') := by
  obtain ⟨pre, mid, hpre, hrun, hP⟩ := h
  exact ⟨pre, mid, hpre.trans (List.prefix_append events events'), hrun, hP⟩

/-- What every step preserves of the states with the events up to them holds after the run. -/
theorem invariant_history {Inv : List ε → σ → Prop} {s s' : σ} {events : List ε}
    (hstep : ∀ pre mid e mid', e ∈ events → run step s pre = some mid → Inv pre mid →
      step mid e = some mid' → Inv (pre ++ [e]) mid')
    (hinv : Inv [] s) (hrun : run step s events = some s') : Inv events s' := by
  induction events using List.reverseRecOn generalizing s' with
  | nil =>
    rw [run_nil, Option.some.injEq] at hrun
    exact hrun ▸ hinv
  | append_singleton events e ih =>
    obtain ⟨mid, hfirst, hlast⟩ := run_append_eq_some.mp hrun
    obtain ⟨mid', hmid', hnil⟩ := run_cons_eq_some.mp hlast
    rw [run_nil, Option.some.injEq] at hnil
    subst hnil
    have hmid := ih (fun pre mid e' mid' he' =>
      hstep pre mid e' mid' (List.mem_append_left [e] he')) hfirst
    exact hstep events mid e mid' (by simp) hfirst hmid hmid'

/-- Steps of a kind that each take one from a budget are no more than the budget and what the other
steps add to it. -/
theorem countP_add_le {guard : ε → Prop} {Inv : σ → Prop} {budget : σ → ℕ} {income : ε → ℕ}
    {kind : ε → Bool} (hinv : ∀ s e s', guard e → Inv s → step s e = some s' → Inv s')
    (hpay : ∀ s e s', guard e → Inv s → step s e = some s' →
      budget s' + (if kind e then 1 else 0) ≤ budget s + income e) {s s' : σ} {events : List ε}
    (hguard : ∀ e ∈ events, guard e) (hs : Inv s) (hrun : run step s events = some s') :
    budget s' + events.countP kind ≤ budget s + (events.map income).sum := by
  induction events generalizing s with
  | nil =>
    rw [run_nil, Option.some.injEq] at hrun
    rw [hrun, List.countP_nil, List.map_nil, List.sum_nil]
  | cons e events ih =>
    obtain ⟨mid, hmid, hrest⟩ := run_cons_eq_some.mp hrun
    have he := hguard e List.mem_cons_self
    have hhead := hpay s e mid he hs hmid
    have htail := ih (fun e' he' => hguard e' (List.mem_cons_of_mem e he'))
      (hinv s e mid he hs hmid) hrest
    rw [List.countP_cons, List.map_cons, List.sum_cons]
    omega

end EventRun
