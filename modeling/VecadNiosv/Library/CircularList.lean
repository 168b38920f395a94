import Mathlib

/-!
# Circular doubly linked lists

Every element points to the next and to the previous one, and the last element points back to a
head element, which stands for the list. Insertion and removal are sequences of stores to the
pointers of at most three elements.
-/

namespace CircularList

variable {π : Type*}

/-- The pointers of all elements, in lists or not. -/
structure Links (π : Type*) where
  next : π → π
  previous : π → π

/-- The elements between two ends, in order, with the pointers in both directions. -/
def Segment (l : Links π) : π → List π → π → Prop
  | a, [], b => l.next a = b ∧ l.previous b = a
  | a, x :: xs, b => l.next a = x ∧ l.previous x = a ∧ Segment l x xs b

/-- The list with this head holds these elements. -/
structure Ring (l : Links π) (head : π) (xs : List π) : Prop where
  nodup : (head :: xs).Nodup
  segment : Segment l head xs head

/-- The element points to itself. -/
def Alone (l : Links π) (e : π) : Prop := l.next e = e ∧ l.previous e = e

lemma segment_append {l : Links π} {a b e : π} {xs ys : List π} :
    Segment l a (xs ++ e :: ys) b ↔ Segment l a xs e ∧ Segment l e ys b := by
  induction xs generalizing a with
  | nil => simp [Segment, and_assoc]
  | cons x xs ih => simp [Segment, ih, and_assoc]

lemma Segment.congr {l l' : Links π} {a b : π} {xs : List π} (h : Segment l a xs b)
    (hnext : ∀ p ∈ a :: xs, l'.next p = l.next p)
    (hprevious : ∀ p ∈ xs ++ [b], l'.previous p = l.previous p) : Segment l' a xs b := by
  induction xs generalizing a with
  | nil => exact ⟨(hnext a (by simp)).trans h.1, (hprevious b (by simp)).trans h.2⟩
  | cons x xs ih =>
    refine ⟨(hnext a (by simp)).trans h.1, (hprevious x (by simp)).trans h.2.1, ?_⟩
    apply ih h.2.2
    · intro p hp
      exact hnext p (List.mem_cons_of_mem a hp)
    · intro p hp
      exact hprevious p (List.mem_cons_of_mem x hp)

lemma Segment.previous_mem {l : Links π} {a b : π} {xs : List π} (h : Segment l a xs b) :
    l.previous b ∈ a :: xs := by
  induction xs generalizing a with
  | nil => simp [h.2]
  | cons x xs ih => exact List.mem_cons_of_mem a (ih h.2.2)

lemma Segment.next_eq {l : Links π} {a b : π} {xs : List π} (h : Segment l a xs b) :
    l.next a = xs.headD b := by
  cases xs with
  | nil => exact h.1
  | cons x xs => exact h.1

lemma ring_nil {l : Links π} {head : π} : Ring l head [] ↔ Alone l head :=
  ⟨fun h => h.segment, fun h => ⟨List.nodup_singleton head, h⟩⟩

variable [DecidableEq π]

/-- The stores that put an entry right after the head. -/
def Links.insert (l : Links π) (head entry : π) : Links π :=
  let previous := Function.update l.previous entry head
  let next := Function.update l.next entry (l.next head)
  let previous := Function.update previous (next head) entry
  ⟨Function.update next head entry, previous⟩

/-- The stores that take an entry out of its list and leave it alone. -/
def Links.remove (l : Links π) (entry : π) : Links π :=
  let previous := Function.update l.previous (l.next entry) (l.previous entry)
  let next := Function.update l.next (previous entry) (l.next entry)
  ⟨Function.update next entry entry, Function.update previous entry entry⟩

section Insert

variable {l : Links π} {head entry p : π} {xs : List π}

lemma insert_next_head : (l.insert head entry).next head = entry := Function.update_self _ _ _

lemma insert_next_entry (hne : entry ≠ head) : (l.insert head entry).next entry = l.next head := by
  simp [Links.insert, hne]

lemma insert_next_of_ne (hhead : p ≠ head) (hentry : p ≠ entry) :
    (l.insert head entry).next p = l.next p := by
  simp [Links.insert, hhead, hentry]

lemma insert_previous_next (hne : head ≠ entry) :
    (l.insert head entry).previous (l.next head) = entry := by
  simp [Links.insert, hne]

lemma insert_previous_of_ne (hne : head ≠ entry) (hnext : p ≠ l.next head) (hentry : p ≠ entry) :
    (l.insert head entry).previous p = l.previous p := by
  simp [Links.insert, hne, hnext, hentry]

lemma insert_previous_entry (hne : head ≠ entry) (hnext : entry ≠ l.next head) :
    (l.insert head entry).previous entry = head := by
  simp [Links.insert, hne, hnext]

/-- An entry that is not in the list becomes its first element. -/
theorem ring_insert (h : Ring l head xs) (hentry : entry ∉ head :: xs) :
    Ring (l.insert head entry) head (entry :: xs) := by
  have hne : entry ≠ head := fun heq => hentry (heq ▸ List.mem_cons_self)
  have hnot : entry ∉ xs := fun hmem => hentry (List.mem_cons_of_mem head hmem)
  have hnodup := List.nodup_cons.mp h.nodup
  refine ⟨?_, insert_next_head, ?_, ?_⟩
  · refine List.nodup_cons.mpr ⟨?_, List.nodup_cons.mpr ⟨hnot, hnodup.2⟩⟩
    rintro hmem
    exact (List.mem_cons.mp hmem).elim (fun heq => hne heq.symm) hnodup.1
  · apply insert_previous_entry hne.symm
    rw [h.segment.next_eq]
    cases xs with
    | nil => exact hne
    | cons x xs => exact fun heq => hnot (heq ▸ List.mem_cons_self)
  · cases xs with
    | nil =>
      have hhead : l.next head = head := h.segment.1
      refine ⟨(insert_next_entry hne).trans hhead, ?_⟩
      have hback := insert_previous_next (l := l) hne.symm
      rwa [hhead] at hback
    | cons x xs =>
      obtain ⟨hnext, hprevious, hrest⟩ := h.segment
      have hback := insert_previous_next (l := l) hne.symm
      rw [hnext] at hback
      refine ⟨(insert_next_entry hne).trans hnext, hback, hrest.congr ?_ ?_⟩
      · intro p hp
        exact insert_next_of_ne (fun heq => hnodup.1 (heq ▸ hp)) (fun heq => hnot (heq ▸ hp))
      · intro p hp
        have hx := (List.nodup_cons.mp hnodup.2).1
        apply insert_previous_of_ne hne.symm
        · rw [hnext]
          rintro rfl
          rcases List.mem_append.mp hp with hmem | hmem
          · exact hx hmem
          · exact hnodup.1 (List.mem_singleton.mp hmem ▸ List.mem_cons_self)
        · rintro rfl
          rcases List.mem_append.mp hp with hmem | hmem
          · exact hnot (List.mem_cons_of_mem x hmem)
          · exact hne (List.mem_singleton.mp hmem)

/-- Elements that are alone stay alone. -/
lemma alone_insert (h : Ring l head xs) (hp : p ∉ head :: xs) (hne : p ≠ entry)
    (hentry : head ≠ entry) (halone : Alone l p) : Alone (l.insert head entry) p := by
  have hhead : p ≠ head := fun heq => hp (heq ▸ List.mem_cons_self)
  refine ⟨(insert_next_of_ne hhead hne).trans halone.1, ?_⟩
  refine (insert_previous_of_ne hentry ?_ hne).trans halone.2
  rw [h.segment.next_eq]
  cases xs with
  | nil => exact hhead
  | cons x xs => exact fun heq => hp (heq ▸ List.mem_cons_of_mem head List.mem_cons_self)

end Insert

section Remove

variable {l : Links π} {head entry p : π} {xs ys : List π}

lemma remove_next_of_ne (hentry : p ≠ entry) (hprevious : p ≠ l.previous entry) :
    (l.remove entry).next p = l.next p := by
  by_cases heq : entry = l.next entry
  · simp [Links.remove, hentry, hprevious, ← heq]
  · simp [Links.remove, hentry, hprevious, heq]

lemma remove_previous_of_ne (hentry : p ≠ entry) (hnext : p ≠ l.next entry) :
    (l.remove entry).previous p = l.previous p := by
  simp [Links.remove, hentry, hnext]

lemma remove_next_previous (hnext : l.next entry ≠ entry) (hprevious : l.previous entry ≠ entry) :
    (l.remove entry).next (l.previous entry) = l.next entry := by
  simp [Links.remove, hnext.symm, hprevious]

lemma remove_previous_next (hnext : l.next entry ≠ entry) :
    (l.remove entry).previous (l.next entry) = l.previous entry := by
  simp [Links.remove, hnext]

/-- A removed entry is alone, so that its removal can be repeated without harm. -/
theorem alone_remove (l : Links π) (entry : π) : Alone (l.remove entry) entry :=
  ⟨Function.update_self _ _ _, Function.update_self _ _ _⟩

theorem remove_of_alone (h : Alone l entry) : l.remove entry = l := by
  obtain ⟨next, previous⟩ := l
  have hself (f : π → π) (hf : f entry = entry) : Function.update f entry entry = f :=
    Function.update_eq_self_iff.mpr hf.symm
  have hnext : next entry = entry := h.1
  have hprevious : previous entry = entry := h.2
  simp [Links.remove, hnext, hprevious, hself]

/-- The neighbours of a removed element point to each other. -/
lemma segment_remove {a c e : π} (hxs : Segment l a xs e) (hys : Segment l e ys c)
    (hnodup : (a :: xs ++ e :: ys).Nodup) (hc : c ∉ xs ++ e :: ys) :
    Segment (l.remove e) a (xs ++ ys) c := by
  obtain ⟨hleft, hright, hdisjoint⟩ := List.nodup_append.mp hnodup
  have hbefore (p : π) (hp : p ∈ a :: xs) : p ≠ e ∧ p ∉ ys :=
    ⟨hdisjoint p hp e List.mem_cons_self,
      fun hmem => hdisjoint p hp p (List.mem_cons_of_mem e hmem) rfl⟩
  have hafter : ∀ p ∈ ys ++ [c], p ≠ e := by
    intro p hp heq
    rcases List.mem_append.mp hp with hmem | hmem
    · exact (List.nodup_cons.mp hright).1 (heq ▸ hmem)
    · rw [List.mem_singleton.mp hmem] at heq
      exact hc (heq ▸ List.mem_append_right xs List.mem_cons_self)
  have hnextmem : l.next e ∈ ys ++ [c] := by
    rw [hys.next_eq]
    cases ys <;> simp
  have hnext := hafter _ hnextmem
  have hprevious := (hbefore _ hxs.previous_mem).1
  induction xs generalizing a with
  | nil =>
    have hlink : (l.remove e).next a = l.next e ∧ (l.remove e).previous (l.next e) = a := by
      rw [← hxs.2]
      exact ⟨remove_next_previous hnext hprevious, remove_previous_next hnext⟩
    cases ys with
    | nil =>
      rw [hys.1] at hlink
      exact hlink
    | cons y ys =>
      obtain ⟨hy, -, hrest⟩ := hys
      rw [hy] at hlink
      have hnodup' := (List.nodup_cons.mp (List.nodup_cons.mp hright).2)
      refine ⟨hlink.1, hlink.2, hrest.congr ?_ ?_⟩
      · intro p hp
        apply remove_next_of_ne (hafter p (List.mem_append_left [c] hp))
        rw [hxs.2]
        rintro rfl
        exact (hbefore p List.mem_cons_self).2 hp
      · intro p hp
        apply remove_previous_of_ne (hafter p (List.mem_cons_of_mem y hp))
        rw [hy]
        rintro rfl
        rcases List.mem_append.mp hp with hmem | hmem
        · exact hnodup'.1 hmem
        · exact hc (by simp [List.mem_singleton.mp hmem])
  | cons x xs ih =>
    obtain ⟨hx, hback, hrest⟩ := hxs
    have ha := (List.nodup_cons.mp hleft).1
    refine ⟨?_, ?_, ?_⟩
    · rw [← hx]
      apply remove_next_of_ne (hbefore a List.mem_cons_self).1
      rintro heq
      exact ha (heq ▸ hrest.previous_mem)
    · rw [← hback]
      apply remove_previous_of_ne (hbefore x (by simp)).1
      rintro rfl
      rcases List.mem_append.mp hnextmem with hmem | hmem
      · exact (hbefore _ (by simp)).2 hmem
      · exact hc (List.mem_singleton.mp hmem ▸ by simp)
    · apply ih hrest (List.nodup_cons.mp hnodup).2
      · exact fun hmem => hc (List.mem_cons_of_mem x hmem)
      · exact (List.nodup_cons.mp hleft).2
      · intro p hp
        exact hdisjoint p (List.mem_cons_of_mem a hp)
      · intro p hp
        exact hbefore p (List.mem_cons_of_mem a hp)

/-- A removed element leaves the others in their order. -/
theorem ring_remove (h : Ring l head (xs ++ entry :: ys)) : Ring (l.remove entry) head (xs ++ ys) := by
  obtain ⟨hxs, hys⟩ := segment_append.mp h.segment
  have hsub : List.Sublist (head :: (xs ++ ys)) (head :: (xs ++ entry :: ys)) :=
    ((List.Sublist.refl xs).append (List.sublist_cons_self entry ys)).cons_cons head
  exact ⟨h.nodup.sublist hsub, segment_remove hxs hys h.nodup (List.nodup_cons.mp h.nodup).1⟩

/-- Elements that are alone stay alone. -/
lemma alone_remove_of_notMem (h : Ring l head (xs ++ entry :: ys))
    (hp : p ∉ head :: (xs ++ entry :: ys)) (halone : Alone l p) : Alone (l.remove entry) p := by
  obtain ⟨hxs, hys⟩ := segment_append.mp h.segment
  have hentry : p ≠ entry := by
    rintro rfl
    exact hp (by simp)
  have hprevious : p ≠ l.previous entry := by
    rintro rfl
    apply hp
    rcases List.mem_cons.mp hxs.previous_mem with heq | hmem
    · simp [heq]
    · simp [hmem]
  have hnext : p ≠ l.next entry := by
    rw [hys.next_eq]
    rintro rfl
    apply hp
    cases ys <;> simp
  exact ⟨(remove_next_of_ne hentry hprevious).trans halone.1,
    (remove_previous_of_ne hentry hnext).trans halone.2⟩

lemma filter_ne_of_notMem (hentry : entry ∉ xs) : (xs.filter fun q => q ≠ entry) = xs := by
  apply List.filter_eq_self.mpr
  intro q hq
  have hne : q ≠ entry := fun heq => hentry (heq ▸ hq)
  simpa using hne

lemma filter_ne_of_nodup {ys : List π} (hnodup : (xs ++ entry :: ys).Nodup) :
    ((xs ++ entry :: ys).filter fun q => q ≠ entry) = xs ++ ys := by
  obtain ⟨-, hright, hdisjoint⟩ := List.nodup_append.mp hnodup
  have hxs : entry ∉ xs := fun hmem => hdisjoint entry hmem entry List.mem_cons_self rfl
  rw [List.filter_append, List.filter_cons, if_neg (by simp), filter_ne_of_notMem hxs,
    filter_ne_of_notMem (List.nodup_cons.mp hright).1]

/-- An element of the list or one that is alone can be removed. -/
theorem ring_remove_filter (h : Ring l head xs) (hentry : entry ∈ xs ∨ Alone l entry) :
    Ring (l.remove entry) head (xs.filter fun q => q ≠ entry) := by
  by_cases hmem : entry ∈ xs
  · obtain ⟨as, bs, rfl⟩ := List.append_of_mem hmem
    rw [filter_ne_of_nodup (List.nodup_cons.mp h.nodup).2]
    exact ring_remove h
  · rw [filter_ne_of_notMem hmem, remove_of_alone (hentry.resolve_left hmem)]
    exact h

lemma alone_remove_filter (h : Ring l head xs) (hentry : entry ∈ xs ∨ Alone l entry)
    (hp : p ∉ head :: xs) (halone : Alone l p) : Alone (l.remove entry) p := by
  by_cases hmem : entry ∈ xs
  · obtain ⟨as, bs, rfl⟩ := List.append_of_mem hmem
    exact alone_remove_of_notMem h hp halone
  · rw [remove_of_alone (hentry.resolve_left hmem)]
    exact halone

end Remove

end CircularList
