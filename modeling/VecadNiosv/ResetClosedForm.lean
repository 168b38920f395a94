import VecadNiosv.VgaTiming

/-!
# The raster under arbitrary resets

The state of `vga_timing` after any sequence of input events is a function of two facts about
that sequence alone: the present level of `reset_n`, and how many rising edges of `clk_50` came
since its last release. The registers must start from zero, or a reset must have been asserted.
-/

namespace VecadNiosv

/-- What the input lines alone tell: the level of `reset_n`, and the rising edges of `clk_50`
since its last release, or since the start. -/
structure ResetHistory where
  resetN : Bool
  edges : ℕ
  deriving DecidableEq, Repr

namespace ResetHistory

def step (g : ResetHistory) (e : VgaEvent) : ResetHistory :=
  match e with
  | .clk50Rise => ⟨g.resetN, g.edges + 1⟩
  | .resetN level => if level && !g.resetN then ⟨true, 0⟩ else ⟨level, g.edges⟩

def of (resetN : Bool) (es : List VgaEvent) : ResetHistory :=
  es.foldl step ⟨resetN, 0⟩

end ResetHistory

/-- Somewhere in the sequence `reset_n` falls. -/
def AssertsReset (resetN : Bool) (es : List VgaEvent) : Prop :=
  ∃ before after, es = before ++ VgaEvent.resetN false :: after ∧
    (ResetHistory.of resetN before).resetN = true

/-- The timing generator with a counter of its pixel ticks since the last release. -/
structure TickedTiming where
  timing : VgaTiming
  ticks : ℕ

namespace TickedTiming

def step (o : TickedTiming) (e : VgaEvent) : TickedTiming where
  timing := o.timing.step e
  ticks := if e = .resetN true ∧ o.timing.resetN = false then 0
    else o.ticks + if o.timing.pixelClkRises e then 1 else 0

def of (s : VgaTiming) (es : List VgaEvent) : TickedTiming :=
  es.foldl step ⟨s, 0⟩

lemma of_timing (s : VgaTiming) (es : List VgaEvent) : (of s es).timing = es.foldl VgaTiming.step s := by
  unfold of
  exact (List.foldl_hom timing (fun _ _ => rfl)).symm

end TickedTiming

/-- The registers are those that the history of the input lines prescribes. -/
structure FollowsHistory (o : TickedTiming) (g : ResetHistory) : Prop where
  level : o.timing.resetN = g.resetN
  cleared : g.resetN = false → o.timing.pixelClkReg = false ∧ o.timing.beam = Beam.zero
  divided : g.resetN = true → o.timing.pixelClkReg = decide (g.edges % 2 = 1)
  swept : g.resetN = true → o.timing.beam.At ((g.edges + 1) / 2)
  ticked : g.resetN = true → o.ticks = (g.edges + 1) / 2

namespace FollowsHistory

lemma of_zero (resetN : Bool) : FollowsHistory ⟨⟨resetN, false, Beam.zero⟩, 0⟩ ⟨resetN, 0⟩ where
  level := rfl
  cleared _ := ⟨rfl, rfl⟩
  divided _ := rfl
  swept _ := by simpa using Beam.at_zero
  ticked _ := by simp

lemma of_assert {o : TickedTiming} {g : ResetHistory} (ho : o.timing.resetN = true) :
    FollowsHistory (o.step (.resetN false)) (g.step (.resetN false)) := by
  have hstep : o.timing.step (.resetN false) = ⟨false, false, Beam.zero⟩ := by
    rw [VgaTiming.step_resetN, ho]
    rfl
  constructor <;> simp [TickedTiming.step, ResetHistory.step, hstep]

lemma step_clk50Rise {o : TickedTiming} {g : ResetHistory} (h : FollowsHistory o g) :
    FollowsHistory (o.step .clk50Rise) (g.step .clk50Rise) := by
  obtain ⟨⟨r, p, b⟩, c⟩ := o
  obtain ⟨r', n⟩ := g
  obtain ⟨rfl, hcleared, hdivided, hswept, hticked⟩ := h
  cases r with
  | false =>
    obtain ⟨rfl, rfl⟩ := hcleared rfl
    constructor <;> simp [TickedTiming.step, ResetHistory.step, VgaTiming.step_clk50Rise]
  | true =>
    have hp := hdivided rfl
    have hb := hswept rfl
    have hc := hticked rfl
    simp only at hp hb hc
    rcases Nat.mod_two_eq_zero_or_one n with hn | hn
    · -- the divided clock is low and rises: one tick, one counting step
      have hp' : p = false := by simpa [hn] using hp
      have hhalf : (n + 1 + 1) / 2 = (n + 1) / 2 + 1 := by omega
      have hrise : VgaTiming.pixelClkRises ⟨true, p, b⟩ .clk50Rise = true :=
        (VgaTiming.pixelClkRises_iff _ _).mpr ⟨rfl, rfl, hp'⟩
      subst hp'
      have hodd : (n + 1) % 2 = 1 := by omega
      constructor <;>
        simp [TickedTiming.step, ResetHistory.step, VgaTiming.step_clk50Rise, hrise, hhalf, hodd, hc]
      exact hb.count
    · -- the divided clock is high and falls: the counters keep still
      have hp' : p = true := by simpa [hn] using hp
      have hhalf : (n + 1 + 1) / 2 = (n + 1) / 2 := by omega
      have hrise : VgaTiming.pixelClkRises ⟨true, p, b⟩ .clk50Rise = false := by
        rw [← Bool.not_eq_true, VgaTiming.pixelClkRises_iff]
        simp [hp']
      subst hp'
      have heven : (n + 1) % 2 = 0 := by omega
      constructor <;>
        simp [TickedTiming.step, ResetHistory.step, VgaTiming.step_clk50Rise, hrise, hhalf, heven, hc]
      exact hb

lemma step_resetN {o : TickedTiming} {g : ResetHistory} (h : FollowsHistory o g) (level : Bool) :
    FollowsHistory (o.step (.resetN level)) (g.step (.resetN level)) := by
  by_cases hfall : o.timing.resetN = true ∧ level = false
  · obtain ⟨ho, rfl⟩ := hfall
    exact of_assert ho
  · have hrise : o.timing.pixelClkRises (.resetN level) = false := by
      rw [← Bool.not_eq_true, VgaTiming.pixelClkRises_iff]
      simp
    obtain ⟨⟨r, p, b⟩, c⟩ := o
    obtain ⟨r', n⟩ := g
    obtain ⟨rfl, hcleared, hdivided, hswept, hticked⟩ := h
    cases r with
    | false =>
      obtain ⟨rfl, rfl⟩ := hcleared rfl
      cases level
      · constructor <;> simp [TickedTiming.step, ResetHistory.step, VgaTiming.step_resetN]
      · constructor <;> simp [TickedTiming.step, ResetHistory.step, VgaTiming.step_resetN]
        exact Beam.at_zero
    | true =>
      cases level
      · exact absurd ⟨rfl, rfl⟩ hfall
      · constructor <;> simp [TickedTiming.step, ResetHistory.step, VgaTiming.step_resetN, hrise]
        · exact hdivided rfl
        · exact hswept rfl
        · exact hticked rfl

/-- One event keeps the registers on the history of the input lines. -/
theorem step {o : TickedTiming} {g : ResetHistory} (h : FollowsHistory o g) (e : VgaEvent) :
    FollowsHistory (o.step e) (g.step e) := by
  cases e with
  | clk50Rise => exact h.step_clk50Rise
  | resetN level => exact h.step_resetN level

theorem run {o : TickedTiming} {g : ResetHistory} (h : FollowsHistory o g) (es : List VgaEvent) :
    FollowsHistory (es.foldl TickedTiming.step o) (es.foldl ResetHistory.step g) :=
  List.foldl_rel h (fun e _ _ _ hog => hog.step e)

end FollowsHistory

lemma resetN_follows_lines (s : VgaTiming) (es : List VgaEvent) :
    (TickedTiming.of s es).timing.resetN = (ResetHistory.of s.resetN es).resetN := by
  let sameLevel : TickedTiming → ResetHistory → Prop := fun o g => o.timing.resetN = g.resetN
  have hstart : sameLevel ⟨s, 0⟩ ⟨s.resetN, 0⟩ := rfl
  apply List.foldl_rel hstart
  intro e _ o g hog
  change o.timing.resetN = g.resetN at hog
  change (o.step e).timing.resetN = (g.step e).resetN
  cases e with
  | clk50Rise => exact hog
  | resetN level =>
    simp only [TickedTiming.step, VgaTiming.step, VgaEvent.levelAfter, ResetHistory.step]
    cases level <;> cases hg : g.resetN <;> simp

theorem followsHistory_of_start (s : VgaTiming) (es : List VgaEvent)
    (h : (s.pixelClkReg = false ∧ s.beam = Beam.zero) ∨ AssertsReset s.resetN es) :
    FollowsHistory (TickedTiming.of s es) (ResetHistory.of s.resetN es) := by
  rcases h with ⟨hp, hb⟩ | ⟨before, after, rfl, hlevel⟩
  · obtain ⟨r, p, b⟩ := s
    simp only at hp hb
    subst hp hb
    exact (FollowsHistory.of_zero r).run es
  · rw [← resetN_follows_lines s before] at hlevel
    have hassert := FollowsHistory.of_assert (g := ResetHistory.of s.resetN before) hlevel
    unfold TickedTiming.of ResetHistory.of
    rw [List.foldl_append, List.foldl_append]
    exact hassert.run after

/-- Closed form of `vga_timing` under arbitrary resets. In reset all registers are zero; out of
reset, with `n` rising edges of `clk_50` since the release and `p = (n + 1) / 2`, the divided
clock is `n mod 2`, exactly `p` pixel ticks have happened and the counters are those of `p` steps
of an 800 by 525 sweep. No transition of `reset_n` makes the divided clock rise. -/
theorem vgaTiming_closedForm (s : VgaTiming) (es : List VgaEvent)
    (h : (s.pixelClkReg = false ∧ s.beam = Beam.zero) ∨ AssertsReset s.resetN es) :
    let t := es.foldl VgaTiming.step s
    let n := (ResetHistory.of s.resetN es).edges
    let p := (n + 1) / 2
    t.resetN = (ResetHistory.of s.resetN es).resetN ∧
      (t.resetN = false → t.pixelClkReg = false ∧ t.beam.hCount = 0#10 ∧ t.beam.vCount = 0#10) ∧
      (t.resetN = true → t.pixelClkReg = decide (n % 2 = 1) ∧ t.beam.hCount.toNat = p % 800 ∧
        t.beam.vCount.toNat = p / 800 % 525 ∧ (TickedTiming.of s es).ticks = p) ∧
      (t.beam.hCount.toNat < 800 ∧ t.beam.vCount.toNat < 525) ∧
      ∀ level, t.pixelClkRises (.resetN level) = false := by
  intro t n p
  have hrun := followsHistory_of_start s es h
  have ht : (TickedTiming.of s es).timing = t := TickedTiming.of_timing s es
  obtain ⟨hlevel, hcleared, hdivided, hswept, hticked⟩ := hrun
  rw [ht] at hlevel hcleared hdivided hswept
  refine ⟨hlevel, ?_, ?_, ?_, ?_⟩
  · intro hr
    obtain ⟨hp, hb⟩ := hcleared (hlevel ▸ hr)
    rw [hb]
    exact ⟨hp, rfl, rfl⟩
  · intro hr
    have hg := hlevel ▸ hr
    exact ⟨hdivided hg, (hswept hg).h, (hswept hg).v, hticked hg⟩
  · cases hr : t.resetN with
    | false =>
      rw [(hcleared (hlevel ▸ hr)).2]
      decide
    | true => exact (hswept (hlevel ▸ hr)).legal
  · intro level
    rw [← Bool.not_eq_true, VgaTiming.pixelClkRises_iff]
    simp

theorem vgaTiming_closedForm_after_pulse :
    let s : VgaTiming := ⟨true, true, ⟨1023#10, 1023#10⟩⟩
    let es := [.clk50Rise, .resetN false, .clk50Rise, .resetN true] ++ List.replicate 5 VgaEvent.clk50Rise
    (es.foldl VgaTiming.step s).beam.hCount.toNat = 3 := by
  intro s es
  have hassert : AssertsReset s.resetN es :=
    ⟨[.clk50Rise], .clk50Rise :: .resetN true :: List.replicate 5 .clk50Rise, rfl, rfl⟩
  exact ((vgaTiming_closedForm s es (.inr hassert)).2.2.1 (by decide)).2.1.trans (by decide)

end VecadNiosv
