import Mathlib

/-!
# Prefix codes

A code whose words are not empty and do not start one another is read back word by word, so what
it writes for a sequence determines the sequence, whatever the words contain after their start.
-/

namespace PrefixCode

variable {α β : Type*} {code : α → List β}

/-- No word is empty, and none starts another. -/
structure IsPrefixCode (code : α → List β) : Prop where
  nonempty : ∀ a, code a ≠ []
  eq_of_prefix : ∀ a b, code a <+: code b → a = b

/-- A common header and then something that tells the words apart. -/
lemma IsPrefixCode.of_header {header : List β} {mark : α → β} {rest : α → List β}
    (hmark : Function.Injective mark) (hcode : ∀ a, code a = header ++ mark a :: rest a) :
    IsPrefixCode code where
  nonempty := by
    intro a
    rw [hcode]
    exact List.append_ne_nil_of_right_ne_nil header (List.cons_ne_nil _ _)
  eq_of_prefix := by
    intro a b h
    rw [hcode, hcode, List.prefix_append_right_inj, List.cons_prefix_cons] at h
    exact hmark h.1

lemma IsPrefixCode.eq_of_append_eq (h : IsPrefixCode code) {a b : α} {x y : List β}
    (heq : code a ++ x = code b ++ y) : a = b := by
  have ha : code a <+: code b ++ y := heq ▸ List.prefix_append (code a) x
  rcases List.prefix_or_prefix_of_prefix ha (List.prefix_append (code b) y) with hab | hba
  · exact h.eq_of_prefix a b hab
  · exact (h.eq_of_prefix b a hba).symm

/-- Different sequences are written differently. -/
theorem IsPrefixCode.flatMap_injective (h : IsPrefixCode code) :
    Function.Injective (fun l : List α => l.flatMap code) := by
  intro l
  induction l with
  | nil =>
    intro l' heq
    cases l' with
    | nil => rfl
    | cons b l' =>
      have hnil : code b ++ l'.flatMap code = [] := heq.symm
      exact absurd (List.append_eq_nil_iff.mp hnil).1 (h.nonempty b)
  | cons a l ih =>
    intro l' heq
    cases l' with
    | nil =>
      have hnil : code a ++ l.flatMap code = [] := heq
      exact absurd (List.append_eq_nil_iff.mp hnil).1 (h.nonempty a)
    | cons b l' =>
      have hcons : code a ++ l.flatMap code = code b ++ l'.flatMap code := heq
      obtain rfl := h.eq_of_append_eq hcons
      rw [ih (List.append_cancel_left hcons)]

end PrefixCode
