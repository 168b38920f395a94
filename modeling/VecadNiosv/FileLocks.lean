import VecadNiosv.FileTable

/-!
# Locked devices

A descriptor that holds the lock of its device is the only one on the device for as long as no lock
is granted that misses a descriptor, whatever the calls and their order. The device and the access
mode of a descriptor are those of the call that opened it.
-/

namespace VecadNiosv

namespace FileDescriptors

open EventRun Masks

variable {δ : Type}

namespace Table

/-- A descriptor that has locked its device is the only one on it. -/
def Exclusive (T : Table δ) : Prop :=
  ∀ i D, T i = some D → D.locked = true → ¬T.Shared i D.dev

variable {T : Table δ}

lemma Exclusive.update_none (h : T.Exclusive) (fd : Fin ALT_MAX_FD) :
    Exclusive (Function.update T fd none) := by
  intro i D hD hlocked hshared
  obtain ⟨j, E, hj, hE, hdev⟩ := hshared
  have hi : i ≠ fd := by
    rintro rfl
    rw [Function.update_self] at hD
    exact absurd hD (by simp)
  have hj' : j ≠ fd := by
    rintro rfl
    rw [Function.update_self] at hE
    exact absurd hE (by simp)
  rw [Function.update_of_ne hi] at hD
  rw [Function.update_of_ne hj'] at hE
  exact h i D hD hlocked ⟨j, E, hj, hE, hdev⟩

lemma Exclusive.update (h : T.Exclusive) {fd : Fin ALT_MAX_FD} {D : Descriptor δ}
    (hlocked : D.locked = true → ¬T.Shared fd D.dev)
    (hothers : ∀ i E, i ≠ fd → T i = some E → E.locked = true → E.dev ≠ D.dev) :
    Exclusive (Function.update T fd (some D)) := by
  intro i E hE hEl hshared
  obtain ⟨j, F, hj, hF, hdev⟩ := hshared
  by_cases hi : i = fd
  · subst hi
    rw [Function.update_self, Option.some.injEq] at hE
    subst hE
    rw [Function.update_of_ne hj] at hF
    exact hlocked hEl ⟨j, F, hj, hF, hdev⟩
  · rw [Function.update_of_ne hi] at hE
    by_cases hjfd : j = fd
    · subst hjfd
      rw [Function.update_self, Option.some.injEq] at hF
      exact hothers i E hi hE hEl (hdev.symm.trans (congrArg Descriptor.dev hF.symm))
    · rw [Function.update_of_ne hjfd] at hF
      exact h i E hE hEl ⟨j, F, hj, hF, hdev⟩

/-- A descriptor that changes neither its device nor, unless it was locked, its lock. -/
lemma Exclusive.update_same (h : T.Exclusive) {fd : Fin ALT_MAX_FD} {D D' : Descriptor δ}
    (hD : T fd = some D) (hdev : D'.dev = D.dev) (hlocked : D'.locked = true → D.locked = true) :
    Exclusive (Function.update T fd (some D')) := by
  apply h.update
  · intro hl
    rw [hdev]
    exact h fd D hD (hlocked hl)
  · intro i E hi hE hEl heq
    exact h i E hE hEl ⟨fd, D, hi.symm, hD, by rw [← hdev, heq]⟩

lemma Exclusive.onDescriptor [DecidableEq δ] {reg : Registry δ} (h : T.Exclusive)
    {fd : Fin ALT_MAX_FD} {D : Descriptor δ} (hD : T fd = some D) (op : Op) : Exclusive (T.onDescriptor reg fd D op).2 := by
  cases op with
  | close driver =>
    change Exclusive (if fd.val > 2 then Function.update T fd none else T)
    by_cases hfd : fd.val > 2
    · rw [if_pos hfd]
      exact h.update_none fd
    · rw [if_neg hfd]
      exact h
  | ioctl req driver =>
    rw [Table.onDescriptor]
    split_ifs with hexcl hshared
    · exact h
    · exact h.update (fun _ => hshared)
        (fun i E hi hE hEl heq => h i E hE hEl ⟨fd, D, hi.symm, hD, heq.symm⟩)
    · exact h.update_same hD rfl (fun hl => absurd hl (by simp))
    · exact h
    · exact h
  | fcntl cmd flags =>
    rw [Table.onDescriptor]
    split_ifs
    · exact h
    · exact h.update_same hD rfl id
    · exact h
  | read driver => exact h
  | write driver => exact h

variable [DecidableEq δ] {reg : Registry δ}

/-- Devices refuse new descriptors while they are locked, and a file system cannot be one of
them. -/
lemma Exclusive.open' (h : T.Exclusive)
    (hdevice : ∀ i D, T i = some D → D.locked = true → D.dev ∈ reg.altDevList) (file : CString)
    (flags : BitVec 32) (driver : ℤ) : Exclusive (T.open' reg file flags driver).2 := by
  cases hresult : (T.open' reg file flags driver).1 with
  | error e =>
    rw [open'_error hresult]
    exact h
  | ok i =>
    obtain ⟨dev, isafs, hfind, -, hfree, hupdate⟩ := open'_ok hresult
    rw [hupdate]
    apply h.update
    · intro hlocked
      exact absurd hlocked (by simp)
    · intro j E _ hE hlocked heq
      cases isafs with
      | false => exact hfree ⟨rfl, j, E, hE, heq, hlocked⟩
      | true =>
        have hmem := hdevice j E hE hlocked
        rw [heq] at hmem
        exact reg.disjoint dev hmem (reg.mem_altFsList_of_find hfind)

end Table

lemma Files.Sound.locked_device {reg : Registry δ} {s : Files δ} (h : s.Sound reg)
    {i : Fin ALT_MAX_FD} {D : Descriptor δ} (hD : s.table i = some D) (hlocked : D.locked = true) :
    D.dev ∈ reg.altDevList := by
  obtain ⟨dev, hdev, rfl⟩ := Option.map_eq_some_iff.mp hD
  obtain ⟨-, d, hd, heq⟩ := (h.entries i).device ((h.entries i).lock (bne_iff_ne.mp hlocked))
  rw [hdev, Option.some.injEq] at heq
  exact heq ▸ hd

section Runs

variable [DecidableEq δ] {reg : Registry δ}

lemma Table.Exclusive.perform {T T' : Table δ} (h : T.Exclusive)
    (hdevice : ∀ i D, T i = some D → D.locked = true → D.dev ∈ reg.altDevList) {call : Call}
    {r : Result} (hcall : T.perform reg call = some (r, T')) : T'.Exclusive := by
  cases call with
  | «open» file flags driver =>
    rw [Table.perform, Option.some.injEq] at hcall
    rw [← (Prod.mk.inj hcall).2]
    exact h.open' hdevice file flags driver
  | on fildes op =>
    rw [Table.perform] at hcall
    split_ifs at hcall with hneg
    · rw [Option.some.injEq] at hcall
      rw [← (Prod.mk.inj hcall).2]
      exact h
    · obtain ⟨fd, -, hcall⟩ := Option.bind_eq_some_iff.mp hcall
      obtain ⟨D, hD, hcall⟩ := Option.bind_eq_some_iff.mp hcall
      rw [Option.some.injEq] at hcall
      have hkeep : Table.Exclusive (T.onDescriptor reg fd D op).2 := h.onDescriptor hD op
      rwa [hcall] at hkeep

omit [DecidableEq δ] in
lemma Table.Unlocked.exclusive {T : Table δ} (h : T.Unlocked) : T.Exclusive := by
  intro i D hD hlocked
  exact absurd hlocked (by simp [h i D hD])

lemma Files.Sound.exclusive_step {s s' : Files δ} (hsound : s.Sound reg)
    (hexclusive : s.table.Exclusive) {call : Call} (hproper : call.Proper reg s)
    (hstep : s.step reg call = some s') (hmiss : ¬s.Misses call) : s'.table.Exclusive := by
  obtain ⟨⟨r, T⟩, hspec⟩ := Option.isSome_iff_exists.mp hproper
  obtain ⟨r', s'', hperform, -, hsame, -⟩ := hsound.perform hspec
  rw [Files.step, hperform, Option.map_some, Option.some.injEq] at hstep
  rw [← hstep, (hsame hmiss).2]
  exact hexclusive.perform (fun i D hD hlocked => hsound.locked_device hD hlocked) hspec

/-- In every run in which no lock misses a descriptor, a descriptor that holds the lock of its
device is the only one on it. Exactly the locks that miss one break this. -/
theorem locks_exclusive {boot s : Files δ} (hboot : Boots reg boot) {calls : List Call}
    (hcalls : Along (Files.step reg) (fun s call => call.Proper reg s ∧ ¬s.Misses call) boot calls)
    (hrun : run (Files.step reg) boot calls = some s) :
    s.table.Exclusive ∧ ∀ call s', call.Proper reg s → s.step reg call = some s' →
      (s'.table.Exclusive ↔ ¬s.Misses call) := by
  obtain ⟨hsound, hexclusive⟩ : s.Sound reg ∧ s.table.Exclusive := by
    apply invariant_along _ hcalls ⟨hboot.sound.1, hboot.sound.2.exclusive⟩ hrun
    rintro s call s' ⟨hproper, hmiss⟩ ⟨hsound, hexclusive⟩ hstep
    exact ⟨hsound.step hproper hstep, hsound.exclusive_step hexclusive hproper hstep hmiss⟩
  refine ⟨hexclusive, ?_⟩
  intro call s' hproper hstep
  constructor
  · intro hexclusive' hmiss
    obtain ⟨⟨r, T⟩, hspec⟩ := Option.isSome_iff_exists.mp hproper
    obtain ⟨r', s'', hperform, -, -, hgranted⟩ := hsound.perform hspec
    obtain ⟨-, -, -, fd, D, hD, ⟨i, E, hi, hE, hdev⟩, hlocked⟩ := hgranted hmiss
    rw [Files.step, hperform, Option.map_some, Option.some.injEq] at hstep
    rw [← hstep, hlocked] at hexclusive'
    apply hexclusive' fd { D with locked := true } (Function.update_self _ _ _) rfl
    exact ⟨i, E, hi, by rw [Function.update_of_ne hi]; exact hE, hdev⟩
  · exact hsound.exclusive_step hexclusive hproper hstep

theorem locks_exclusive_lockNull : ∃ s,
    run (Files.step bspDevices) bspBoot [openNull, lockNull] = some s ∧ s.table.Exclusive ∧
    s.table.Locked .null ∧ ∃ s', s.step bspDevices openNull = some s' ∧ s'.table.Exclusive := by
  have hcalls : Along (Files.step bspDevices)
      (fun s call => call.Proper bspDevices s ∧ ¬s.Misses call) bspBoot [openNull, lockNull] :=
    along_cons ⟨rfl, by decide⟩ rfl (along_cons ⟨rfl, by decide⟩ rfl trivial)
  refine ⟨_, rfl, ?_, by decide, ?_⟩
  · exact (locks_exclusive boots_bspBoot hcalls rfl).1
  · have hiff := (locks_exclusive boots_bspBoot hcalls rfl).2 openNull _ rfl rfl
    exact ⟨_, rfl, hiff.mpr (by decide)⟩

/-- The call closes the descriptor, which is not one of the standard ones. -/
def Call.Closes (i : Fin ALT_MAX_FD) : Call → Prop
  | .on fildes (.close _) => entry fildes = some i ∧ ¬fildes < 0 ∧ 2 < i.val
  | _ => False

/-- What `open` has given to a descriptor and no later call changes. -/
def Descriptor.Keeps (D D' : Descriptor δ) : Prop :=
  D'.dev = D.dev ∧ D'.isDev = D.isDev ∧ D'.flags &&& O_ACCMODE = D.flags &&& O_ACCMODE

omit [DecidableEq δ] in
lemma Descriptor.Keeps.rfl' (D : Descriptor δ) : D.Keeps D := ⟨rfl, rfl, rfl⟩

omit [DecidableEq δ] in
lemma Descriptor.Keeps.trans {D D' D'' : Descriptor δ} (h : D.Keeps D') (h' : D'.Keeps D'') :
    D.Keeps D'' :=
  ⟨h'.1.trans h.1, h'.2.1.trans h.2.1, h'.2.2.trans h.2.2⟩

omit [DecidableEq δ] in
lemma Table.update_keeps {T : Table δ} {fd i : Fin ALT_MAX_FD} {D D' E : Descriptor δ}
    (hD : T fd = some D) (hE : T i = some E) (hkeeps : D.Keeps D') :
    ∃ E', (Function.update T fd (some D') : Table δ) i = some E' ∧ E.Keeps E' := by
  by_cases hi : i = fd
  · subst hi
    obtain rfl := Option.some.inj (hD.symm.trans hE)
    exact ⟨D', Function.update_self _ _ _, hkeeps⟩
  · refine ⟨E, ?_, Descriptor.Keeps.rfl' E⟩
    rw [Function.update_of_ne hi]
    exact hE

lemma Table.onDescriptor_keeps {T : Table δ} {fd i : Fin ALT_MAX_FD} {D E : Descriptor δ}
    (hD : T fd = some D) (hE : T i = some E) {op : Op}
    (hclose : ∀ driver, op = .close driver → 2 < fd.val → i ≠ fd) :
    ∃ E', (T.onDescriptor reg fd D op).2 i = some E' ∧ E.Keeps E' := by
  have hsame : ∃ E', T i = some E' ∧ E.Keeps E' := ⟨E, hE, Descriptor.Keeps.rfl' E⟩
  cases op with
  | close driver =>
    change ∃ E', (if fd.val > 2 then Function.update T fd none else T) i = some E' ∧ E.Keeps E'
    by_cases hfd : fd.val > 2
    · rw [if_pos hfd, Function.update_of_ne (hclose driver rfl hfd)]
      exact hsame
    · rw [if_neg hfd]
      exact hsame
  | ioctl req driver =>
    rw [Table.onDescriptor]
    split_ifs
    · exact hsame
    · exact Table.update_keeps hD hE ⟨rfl, rfl, rfl⟩
    · exact Table.update_keeps hD hE ⟨rfl, rfl, rfl⟩
    · exact hsame
    · exact hsame
  | fcntl cmd flags =>
    rw [Table.onDescriptor]
    split_ifs
    · exact hsame
    · exact Table.update_keeps hD hE ⟨rfl, rfl, fcntl_and (by decide)⟩
    · exact hsame
  | read driver => exact hsame
  | write driver => exact hsame

lemma Table.perform_keeps {T T' : Table δ} {i : Fin ALT_MAX_FD} {E : Descriptor δ} {call : Call}
    {r : Result} (hcall : T.perform reg call = some (r, T')) (hE : T i = some E)
    (hclose : ¬call.Closes i) : ∃ E', T' i = some E' ∧ E.Keeps E' := by
  cases call with
  | «open» file flags driver =>
    rw [Table.perform, Option.some.injEq] at hcall
    rw [← (Prod.mk.inj hcall).2]
    cases hresult : (T.open' reg file flags driver).1 with
    | error e =>
      rw [open'_error hresult]
      exact ⟨E, hE, Descriptor.Keeps.rfl' E⟩
    | ok j =>
      obtain ⟨dev, isafs, -, hfree, -, hupdate⟩ := open'_ok hresult
      have hi : i ≠ j := by
        rintro rfl
        exact absurd (hfree.symm.trans hE) (by simp)
      rw [hupdate, Function.update_of_ne hi]
      exact ⟨E, hE, Descriptor.Keeps.rfl' E⟩
  | on fildes op =>
    rw [Table.perform] at hcall
    split_ifs at hcall with hneg
    · rw [Option.some.injEq] at hcall
      rw [← (Prod.mk.inj hcall).2]
      exact ⟨E, hE, Descriptor.Keeps.rfl' E⟩
    · obtain ⟨fd, hentry, hcall⟩ := Option.bind_eq_some_iff.mp hcall
      obtain ⟨D, hD, hcall⟩ := Option.bind_eq_some_iff.mp hcall
      rw [Option.some.injEq] at hcall
      have hkeeps : ∃ E', (T.onDescriptor reg fd D op).2 i = some E' ∧ E.Keeps E' := by
        apply Table.onDescriptor_keeps hD hE
        rintro driver rfl hfd rfl
        exact hclose ⟨hentry, hneg, hfd⟩
      rwa [hcall] at hkeeps

lemma Files.Sound.step_keeps {s s' : Files δ} (hsound : s.Sound reg) {call : Call}
    (hproper : call.Proper reg s) (hstep : s.step reg call = some s') {i : Fin ALT_MAX_FD}
    {E : Descriptor δ} (hE : s.table i = some E) (hclose : ¬call.Closes i) :
    ∃ E', s'.table i = some E' ∧ E.Keeps E' := by
  obtain ⟨⟨r, T⟩, hspec⟩ := Option.isSome_iff_exists.mp hproper
  obtain ⟨r', s'', hperform, -, hsame, hgranted⟩ := hsound.perform hspec
  rw [Files.step, hperform, Option.map_some, Option.some.injEq] at hstep
  rw [← hstep]
  by_cases hmiss : s.Misses call
  · obtain ⟨-, -, -, fd, D, hD, -, hlocked⟩ := hgranted hmiss
    rw [hlocked]
    exact Table.update_keeps hD hE ⟨rfl, rfl, rfl⟩
  · rw [(hsame hmiss).2]
    exact Table.perform_keeps hspec hE hclose

/-- What an `open` that succeeds gives is kept until a call closes the descriptor: whatever calls
come after it, `read` and `write` reach the driver that the name stands for when the mode of the
`open` allows it, and no other driver. -/
theorem open_lasts {boot s₀ s s' : Files δ} (hboot : Boots reg boot) {before calls : List Call}
    (hbefore : Along (Files.step reg) (fun s call => call.Proper reg s) boot before)
    (hrun₀ : run (Files.step reg) boot before = some s₀) {file : CString} {flags : BitVec 32}
    {driver : ℤ} {i : Fin ALT_MAX_FD} (hopen : s₀.altOpen reg file flags driver = some (.ok i, s))
    (hcalls : Along (Files.step reg) (fun s call => call.Proper reg s ∧ ¬call.Closes i) s calls)
    (hrun : run (Files.step reg) s calls = some s') :
    ∃ dev isafs, reg.find file = some (dev, isafs) ∧ (s'.altFdList i).dev = some dev ∧
      ∀ r, s'.altRead reg i r = some (if flags &&& O_ACCMODE ≠ O_WRONLY ∧ (reg.dev dev).hasRead
          then Table.answer r else .error EACCES, s') ∧
        s'.altWrite reg i r = some (if flags &&& O_ACCMODE ≠ O_RDONLY ∧ (reg.dev dev).hasWrite
          then Table.answer r else .error EACCES, s') := by
  have hsound₀ : s₀.Sound reg := invariant_along
    (fun _ _ _ hproper hinv hstep => hinv.step hproper hstep) hbefore hboot.sound.1 hrun₀
  obtain ⟨s₁, hopen', hsound, htable⟩ := hsound₀.altOpen file flags driver
  rw [hopen, Option.some.injEq, Prod.mk.injEq] at hopen'
  obtain ⟨hok, rfl⟩ := hopen'
  obtain ⟨dev, isafs, hfind, -, -, hupdate⟩ := Table.open'_ok hok.symm
  have hstart : s.table i = some ⟨dev, flags &&& ~~~ALT_FD_FLAGS_MASK, !isafs, false⟩ := by
    rw [htable, hupdate, Function.update_self]
  obtain ⟨-, D, hD, hdev, -, hmode⟩ : s'.Sound reg ∧ ∃ D, s'.table i = some D ∧
      Descriptor.Keeps ⟨dev, flags &&& ~~~ALT_FD_FLAGS_MASK, !isafs, false⟩ D := by
    apply invariant_along _ hcalls ⟨hsound, _, hstart, Descriptor.Keeps.rfl' _⟩ hrun
    rintro s call s' ⟨hproper, hclose⟩ ⟨hsound, D, hD, hkeeps⟩ hstep
    obtain ⟨D', hD', hkeeps'⟩ := hsound.step_keeps hproper hstep hD hclose
    exact ⟨hsound.step hproper hstep, D', hD', hkeeps.trans hkeeps'⟩
  obtain ⟨dev', hdev', rfl⟩ := Option.map_eq_some_iff.mp hD
  obtain rfl : dev' = dev := hdev
  rw [and_not_and_of_disjoint (by decide)] at hmode
  have hnonneg : ¬(i.val : ℤ) < 0 := not_lt.mpr (Int.natCast_nonneg _)
  have hentry : entry (i.val : ℤ) = some i := dif_pos i.isLt
  refine ⟨dev', isafs, hfind, hdev', ?_⟩
  intro r
  constructor
  · rw [Files.altRead, Files.Sound.transfer_eq hnonneg hentry hdev', hmode]
  · rw [Files.altWrite, Files.Sound.transfer_eq hnonneg hentry hdev', hmode]

end Runs

def debugOpen : Files Device :=
  (bspBoot.altOpen bspDevices devDebug O_WRONLY 0).elim bspBoot Prod.snd

def afterOpen : List Call := [openNull, .on 4 (.close 0), .on 3 (.fcntl F_SETFL 2#32)]

/-- The descriptor 3 still is the one that was opened for writing after another was opened and
closed and its flags were set. -/
theorem open_lasts_debugOpen : ∃ s', run (Files.step bspDevices) debugOpen afterOpen = some s' ∧
    s'.altRead bspDevices 3 5 = some (.error EACCES, s') ∧
    s'.altWrite bspDevices 3 5 = some (.ok 5, s') := by
  have hbefore : Along (Files.step bspDevices) (fun s call => call.Proper bspDevices s) bspBoot
      [] := trivial
  have hopen : bspBoot.altOpen bspDevices devDebug O_WRONLY 0 =
      some (.ok ⟨3, by decide⟩, debugOpen) := rfl
  have hclose : ¬(Call.on 4 (.close 0)).Closes ⟨3, by decide⟩ := by
    rw [Call.Closes]
    decide
  have hcalls : Along (Files.step bspDevices)
      (fun s call => call.Proper bspDevices s ∧ ¬call.Closes ⟨3, by decide⟩) debugOpen afterOpen :=
    along_cons ⟨rfl, id⟩ rfl (along_cons ⟨rfl, hclose⟩ rfl (along_cons ⟨rfl, id⟩ rfl trivial))
  refine ⟨_, rfl, ?_⟩
  obtain ⟨dev, isafs, hfind, -, htransfer⟩ := open_lasts boots_bspBoot hbefore rfl hopen hcalls rfl
  have hdebug : bspDevices.find devDebug = some (.debug, false) := rfl
  obtain ⟨rfl, rfl⟩ := Prod.mk.inj (Option.some.inj (hdebug.symm.trans hfind))
  exact htransfer 5

end FileDescriptors

end VecadNiosv
