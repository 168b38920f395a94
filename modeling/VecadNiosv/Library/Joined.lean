import Mathlib

/-!
# Points joined by wires

A drawing joins the two end points of every wire, and what is joined to a common point is joined.
`Joined wires` is this equivalence, and `representative wires` computes one point for each of its
classes, so that points are joined exactly when their representatives agree.
-/

namespace Wiring

variable {α : Type*}

def Joined (wires : List (α × α)) : α → α → Prop :=
  Relation.EqvGen (fun a b => (a, b) ∈ wires)

lemma Joined.mono {wires wires' : List (α × α)} (hsub : wires ⊆ wires') {x y : α}
    (h : Joined wires x y) : Joined wires' x y :=
  Relation.EqvGen.mono (fun _ _ hab => hsub hab) x y h

lemma Joined.symm {wires : List (α × α)} {x y : α} (h : Joined wires x y) : Joined wires y x :=
  Relation.EqvGen.symm x y h

lemma Joined.trans {wires : List (α × α)} {x y z : α} (h : Joined wires x y)
    (h' : Joined wires y z) : Joined wires x z :=
  Relation.EqvGen.trans x y z h h'

variable [DecidableEq α]

/-- A point of the class of `x`. A wire redirects the class of its first end to that of its
second. -/
def representative : List (α × α) → α → α
  | [], x => x
  | (a, b) :: wires, x =>
    if representative wires x = representative wires a then representative wires b
    else representative wires x

lemma representative_of_mem {wires : List (α × α)} {a b : α} (h : (a, b) ∈ wires) :
    representative wires a = representative wires b := by
  induction wires with
  | nil => exact absurd h List.not_mem_nil
  | cons wire wires ih =>
    obtain ⟨c, d⟩ := wire
    rcases List.mem_cons.mp h with heq | hmem
    · obtain ⟨rfl, rfl⟩ := Prod.mk.inj heq
      simp [representative]
    · simp [representative, ih hmem]

/-- Points have the same representative exactly when they are joined. -/
theorem representative_eq_iff (wires : List (α × α)) (x y : α) :
    representative wires x = representative wires y ↔ Joined wires x y := by
  constructor
  · induction wires generalizing x y with
    | nil =>
      rintro rfl
      exact Relation.EqvGen.refl x
    | cons wire wires ih =>
      obtain ⟨a, b⟩ := wire
      intro h
      have hlift : ∀ {u v}, representative wires u = representative wires v →
          Joined ((a, b) :: wires) u v :=
        fun huv => (ih _ _ huv).mono (List.subset_cons_self _ _)
      have hab : Joined ((a, b) :: wires) a b := Relation.EqvGen.rel a b List.mem_cons_self
      simp only [representative] at h
      split_ifs at h with hx hy hy
      · exact (hlift hx).trans (hlift hy).symm
      · exact ((hlift hx).trans hab).trans (hlift h)
      · exact (hlift h).trans (hab.symm.trans (hlift hy).symm)
      · exact hlift h
  · intro h
    induction h with
    | rel a b hab => exact representative_of_mem hab
    | refl a => rfl
    | symm a b _ ih => exact ih.symm
    | trans a b c _ _ ih ih' => exact ih.trans ih'

end Wiring
