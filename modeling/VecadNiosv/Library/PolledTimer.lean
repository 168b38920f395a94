import Mathlib

/-!
# Polled timers

A timer that is polled at successive times fires at a poll once its interval has elapsed since it
last fired, and counts on from the time of that poll. Two facts are general: the firings are a
longest choice of polls that are spaced by the interval, and on a counter of `w` bits the timer
fires at the same polls as on the integers while no gap between polls lets the counter overtake
it.
-/

namespace PolledTimer

section Definitions

variable {τ : Type*} [Sub τ] [LE τ] [DecidableLE τ]

/-- The time from which the timer counts after a poll. -/
def next (interval last now : τ) : τ := if interval ≤ now - last then now else last

/-- Whether the timer fires, at each of the polls. -/
def fires (interval : τ) : τ → List τ → List Bool
  | _, [] => []
  | last, now :: polls =>
    decide (interval ≤ now - last) :: fires interval (next interval last now) polls

def firings (interval : τ) : τ → List τ → List τ
  | _, [] => []
  | last, now :: polls =>
    if interval ≤ now - last then now :: firings interval now polls
    else firings interval last polls

def Spaced (interval : τ) (times : List τ) : Prop :=
  times.IsChain (fun a b => interval ≤ b - a)

lemma length_fires (interval last : τ) (polls : List τ) :
    (fires interval last polls).length = polls.length := by
  induction polls generalizing last with
  | nil => rfl
  | cons now polls ih => rw [fires, List.length_cons, ih, List.length_cons]

lemma count_fires (interval last : τ) (polls : List τ) :
    (fires interval last polls).count true = (firings interval last polls).length := by
  induction polls generalizing last with
  | nil => rfl
  | cons now polls ih =>
    rw [fires, firings, next]
    by_cases hdue : interval ≤ now - last
    · rw [if_pos hdue, if_pos hdue, decide_eq_true hdue, List.count_cons_self, ih,
        List.length_cons]
    · rw [if_neg hdue, if_neg hdue, decide_eq_false hdue, List.count_cons_of_ne (by decide), ih]

lemma firings_sublist (interval last : τ) (polls : List τ) :
    (firings interval last polls).Sublist polls := by
  induction polls generalizing last with
  | nil => exact List.Sublist.refl []
  | cons now polls ih =>
    rw [firings]
    split_ifs
    · exact (ih now).cons_cons now
    · exact (ih last).cons now

lemma firings_spaced (interval last : τ) (polls : List τ) :
    Spaced interval (last :: firings interval last polls) := by
  induction polls generalizing last with
  | nil => exact List.isChain_singleton last
  | cons now polls ih =>
    rw [firings]
    split_ifs with hdue
    · exact List.isChain_cons_cons.mpr ⟨hdue, ih now⟩
    · exact ih last

end Definitions

section Ordered

variable {τ : Type*} [AddCommGroup τ] [LinearOrder τ] [IsOrderedAddMonoid τ]
variable {interval : τ}

/-- No choice of spaced polls is longer than the firings. -/
lemma length_le_firings {polls : List τ} (hsorted : polls.Pairwise (· ≤ ·)) {last ref : τ}
    (href : last ≤ ref) {l : List τ} (hl : l.Sublist polls) (hspaced : Spaced interval (ref :: l)) :
    l.length ≤ (firings interval last polls).length := by
  induction polls generalizing last ref l with
  | nil => rw [List.sublist_nil.mp hl, firings]
  | cons now polls ih =>
    obtain ⟨hfirst, hrest⟩ := List.pairwise_cons.mp hsorted
    rw [firings]
    by_cases hdue : interval ≤ now - last
    · rw [if_pos hdue, List.length_cons]
      cases l with
      | nil => exact Nat.zero_le _
      | cons x l =>
        have htail : Spaced interval (x :: l) := hspaced.tail
        rw [List.length_cons, Nat.add_le_add_iff_right]
        rcases List.sublist_cons_iff.mp hl with hskip | ⟨r, heq, hr⟩
        · -- the timer has fired at `now`, no later than the choice, which first takes `x`
          have hx : now ≤ x := hfirst x (hskip.subset List.mem_cons_self)
          exact ih hrest hx ((List.sublist_cons_self x l).trans hskip) htail
        · obtain ⟨rfl, rfl⟩ := List.cons.inj heq
          exact ih hrest le_rfl hr htail
    · rw [if_neg hdue]
      rcases List.sublist_cons_iff.mp hl with hskip | ⟨r, rfl, hr⟩
      · exact ih hrest href hskip hspaced
      · have hgap : interval ≤ now - ref := (List.isChain_cons_cons.mp hspaced).1
        exact absurd (hgap.trans (sub_le_sub_left href now)) hdue

lemma Spaced.length_nsmul_le {start : τ} {l : List τ} (h : Spaced interval (start :: l)) {stop : τ}
    (hstop : ∀ t ∈ start :: l, t ≤ stop) : l.length • interval ≤ stop - start := by
  induction l generalizing start with
  | nil =>
    rw [List.length_nil, zero_nsmul]
    exact sub_nonneg.mpr (hstop start List.mem_cons_self)
  | cons x l ih =>
    obtain ⟨hgap, htail⟩ := List.isChain_cons_cons.mp h
    have hrest := ih htail (fun t ht => hstop t (List.mem_cons_of_mem start ht))
    rw [List.length_cons, succ_nsmul]
    calc l.length • interval + interval ≤ (stop - x) + (x - start) := add_le_add hrest hgap
      _ = stop - start := sub_add_sub_cancel stop x start

lemma Spaced.le_of_getElem? {start : τ} {l : List τ} (h : Spaced interval (start :: l)) {k : ℕ}
    {t : τ} (ht : l[k]? = some t) : start + (k + 1) • interval ≤ t := by
  induction l generalizing start k with
  | nil => exact absurd ht (by simp)
  | cons x l ih =>
    obtain ⟨hgap, htail⟩ := List.isChain_cons_cons.mp h
    have hx : start + interval ≤ x := by
      rw [add_comm]
      exact le_sub_iff_add_le.mp hgap
    cases k with
    | zero =>
      rw [List.getElem?_cons_zero, Option.some.injEq] at ht
      rw [← ht, zero_add, one_nsmul]
      exact hx
    | succ k =>
      rw [List.getElem?_cons_succ] at ht
      calc start + (k + 1 + 1) • interval = start + interval + (k + 1) • interval := by
            rw [succ_nsmul', add_assoc]
        _ ≤ x + (k + 1) • interval := add_le_add_left hx _
        _ ≤ t := ih htail ht

lemma Spaced.getElem?_add {l : List τ} (h : Spaced interval l) {i k : ℕ} {a b : τ}
    (ha : l[i]? = some a) (hb : l[i + k]? = some b) : a + k • interval ≤ b := by
  obtain ⟨hi, rfl⟩ := List.getElem?_eq_some_iff.mp ha
  cases k with
  | zero =>
    rw [Nat.add_zero, ha, Option.some.injEq] at hb
    rw [zero_nsmul, add_zero, hb]
  | succ k =>
    have hdrop : Spaced interval (l[i] :: l.drop (i + 1)) := by
      rw [← List.drop_eq_getElem_cons hi]
      exact h.drop i
    apply hdrop.le_of_getElem?
    rw [List.getElem?_drop, Nat.add_right_comm]
    exact hb

end Ordered

section Wrap

variable {w : ℕ}

lemma toNat_ofInt_sub {a b : ℤ} (hle : b ≤ a) (hlt : a - b < 2 ^ w) :
    (BitVec.ofInt w a - BitVec.ofInt w b).toNat = (a - b).toNat := by
  have hsub : BitVec.ofInt w a - BitVec.ofInt w b = BitVec.ofInt w (a - b) := by
    rw [Int.sub_eq_add_neg, BitVec.ofInt_add, BitVec.ofInt_neg, BitVec.sub_eq_add_neg]
  have hpow : ((2 ^ w : ℕ) : ℤ) = 2 ^ w := by norm_cast
  rw [hsub, BitVec.toNat_ofInt, hpow, Int.emod_eq_of_lt (by omega) hlt]

lemma le_ofInt_sub_iff (interval : BitVec w) {last now : ℤ} (hle : last ≤ now)
    (hlt : now - last < 2 ^ w) :
    interval ≤ BitVec.ofInt w now - BitVec.ofInt w last ↔ (interval.toNat : ℤ) ≤ now - last := by
  rw [BitVec.le_def, toNat_ofInt_sub hle hlt]
  omega

/-- The reference of the timer is less than one interval before the last poll. -/
def Recent (interval last prev : ℤ) : Prop := last ≤ prev ∧ prev - last < interval

lemma Recent.self {interval : ℤ} (h : 0 < interval) (t : ℤ) : Recent interval t t :=
  ⟨le_rfl, by rwa [sub_self]⟩

lemma Recent.of_not_due {interval last prev now : ℤ} (h : Recent interval last prev)
    (hle : prev ≤ now) (hdue : ¬interval ≤ now - last) : Recent interval last now :=
  ⟨h.1.trans hle, not_le.mp hdue⟩

lemma Recent.next {interval last prev now : ℤ} (hpos : 0 < interval) (h : Recent interval last prev)
    (hle : prev ≤ now) : Recent interval (next interval last now) now := by
  rw [PolledTimer.next]
  split_ifs with hdue
  · exact Recent.self hpos now
  · exact h.of_not_due hle hdue

/-- A poll comes at most `J` after the one before it, so the `k`-th firing is at most `k` times
`J - 1` late. -/
theorem firing_le {interval J : ℤ} (hpos : 0 < interval) {last prev : ℤ} {polls : List ℤ}
    (hrecent : Recent interval last prev) (hsorted : (prev :: polls).IsChain (· ≤ ·))
    (hgap : (prev :: polls).IsChain (fun a b => b - a ≤ J)) {k : ℕ} {T : ℤ}
    (hT : (firings interval last polls)[k]? = some T) : T ≤ last + (k + 1) * (interval + J - 1) := by
  induction polls generalizing last prev k with
  | nil => exact absurd hT (by simp [firings])
  | cons now polls ih =>
    obtain ⟨hle, hsorted'⟩ := List.isChain_cons_cons.mp hsorted
    obtain ⟨hlate, hgap'⟩ := List.isChain_cons_cons.mp hgap
    have hnow : now ≤ last + (interval + J - 1) := by
      obtain ⟨-, hshort⟩ := hrecent
      omega
    rw [firings] at hT
    split_ifs at hT with hdue
    · cases k with
      | zero =>
        rw [List.getElem?_cons_zero, Option.some.injEq] at hT
        rw [← hT]
        push_cast
        linarith
      | succ k =>
        rw [List.getElem?_cons_succ] at hT
        have hrest := ih (Recent.self hpos now) hsorted' hgap' hT
        push_cast
        linarith
    · exact ih (hrecent.of_not_due hle hdue) hsorted' hgap' hT

/-- A timer that is polled at every tick has fired once for each interval. -/
theorem length_firings_of_every_tick {interval : ℤ} (hpos : 0 < interval) {last prev : ℤ}
    {polls : List ℤ} (hrecent : Recent interval last prev)
    (hsorted : (prev :: polls).IsChain (· ≤ ·))
    (hgap : (prev :: polls).IsChain (fun a b => b - a ≤ 1)) :
    ((firings interval last polls).length : ℤ) =
      ((prev :: polls).getLast (List.cons_ne_nil prev polls) - last) / interval := by
  induction polls generalizing last prev with
  | nil =>
    have hzero : (prev - last) / interval = 0 :=
      Int.ediv_eq_zero_of_lt (sub_nonneg.mpr hrecent.1) hrecent.2
    rw [firings, List.getLast_singleton, hzero]
    rfl
  | cons now polls ih =>
    obtain ⟨hle, hsorted'⟩ := List.isChain_cons_cons.mp hsorted
    obtain ⟨hlate, hgap'⟩ := List.isChain_cons_cons.mp hgap
    rw [firings, List.getLast_cons_cons]
    split_ifs with hdue
    · have hnow : last = now - interval := by
        obtain ⟨-, hshort⟩ := hrecent
        omega
      have hrest := ih (Recent.self hpos now) hsorted' hgap'
      rw [List.length_cons, Nat.cast_succ, hrest, hnow, sub_sub_eq_add_sub, add_sub_right_comm,
        Int.add_ediv_of_dvd_right (dvd_refl interval), Int.ediv_self hpos.ne']
    · exact ih (hrecent.of_not_due hle hdue) hsorted' hgap'

/-- Across any number of turns of the counter the timer fires as it does on the integers, provided
that no gap between polls is longer than a full turn less the interval. -/
theorem fires_ofInt {interval : BitVec w} (hpos : 0 < interval.toNat) {last prev : ℤ}
    {polls : List ℤ} (hrecent : Recent interval.toNat last prev)
    (hsorted : (prev :: polls).IsChain (· ≤ ·))
    (hgap : (prev :: polls).IsChain (fun a b => b - a ≤ 2 ^ w - (interval.toNat : ℤ))) :
    fires interval (BitVec.ofInt w last) (polls.map (BitVec.ofInt w)) =
      fires (interval.toNat : ℤ) last polls := by
  induction polls generalizing last prev with
  | nil => rfl
  | cons now polls ih =>
    obtain ⟨hle, hsorted'⟩ := List.isChain_cons_cons.mp hsorted
    obtain ⟨hlong, hgap'⟩ := List.isChain_cons_cons.mp hgap
    have hlt : now - last < 2 ^ w := by
      obtain ⟨-, hshort⟩ := hrecent
      omega
    have hdue := le_ofInt_sub_iff interval (hrecent.1.trans hle) hlt
    have hnext : next interval (BitVec.ofInt w last) (BitVec.ofInt w now) =
        BitVec.ofInt w (next (interval.toNat : ℤ) last now) := by
      rw [next, next, apply_ite (BitVec.ofInt w)]
      exact if_congr hdue rfl rfl
    rw [List.map_cons, fires, fires, hnext, ih (hrecent.next (by omega) hle) hsorted' hgap',
      decide_eq_decide.mpr hdue]

end Wrap

end PolledTimer
