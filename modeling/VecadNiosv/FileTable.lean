import VecadNiosv.FileDescriptors
import VecadNiosv.Library.Masks

/-!
# The table of open files

What a program may expect of its descriptors is a table: each open descriptor has a device, flags,
and a lock that keeps others from opening the device. The pool behaves as the table does, with one
exception. A request for a lock does not look at the highest descriptor that was ever allocated.
-/

namespace VecadNiosv

namespace FileDescriptors

open EventRun Masks

/-- The operations on a descriptor, with what the callback of the driver returns if it is
reached. -/
inductive Op where
  | close (driver : ℤ)
  | ioctl (req : BitVec 32) (driver : ℤ)
  | fcntl (cmd : ℤ) (flags : BitVec 32)
  | read (driver : ℤ)
  | write (driver : ℤ)

inductive Call where
  | open (file : CString) (flags : BitVec 32) (driver : ℤ)
  | on (fildes : ℤ) (op : Op)

/-- The value that `open` returns for a descriptor. -/
def index (r : Except ℤ (Fin ALT_MAX_FD)) : Result := r.map fun i => (i.val : ℤ)

def STDIN_FILENO : Fin ALT_MAX_FD := ⟨0, by decide⟩

def STDOUT_FILENO : Fin ALT_MAX_FD := ⟨1, by decide⟩

def STDERR_FILENO : Fin ALT_MAX_FD := ⟨2, by decide⟩

/-- A device with the flags of `open`, and whether this descriptor has locked it. -/
structure Descriptor (δ : Type) where
  dev : δ
  flags : BitVec 32
  isDev : Bool
  locked : Bool

def Descriptor.ofFlags {δ : Type} (dev : δ) (fdFlags : BitVec 32) : Descriptor δ where
  dev := dev
  flags := fdFlags &&& ~~~ALT_FD_FLAGS_MASK
  isDev := fdFlags &&& ALT_FD_DEV != 0#32
  locked := fdFlags &&& ALT_FD_EXCL != 0#32

def AltFd.descriptor {δ : Type} (f : AltFd δ) : Option (Descriptor δ) :=
  f.dev.map fun dev => .ofFlags dev f.fdFlags

abbrev Table (δ : Type) := Fin ALT_MAX_FD → Option (Descriptor δ)

section Flags

variable {f m : BitVec 32}

lemma fcntl_and {u : BitVec 32} (hclear : ALT_FCNTL_FLAGS_MASK &&& m = 0#32) :
    ((f &&& ~~~ALT_FCNTL_FLAGS_MASK) ||| (u &&& ALT_FCNTL_FLAGS_MASK)) &&& m = f &&& m := by
  rw [or_and_of_disjoint (and_and_eq_zero u hclear), and_not_and_of_disjoint hclear]

end Flags

namespace AltFd

variable {δ : Type} (dev : δ) (f : BitVec 32)

lemma descriptor_free : (⟨none, f⟩ : AltFd δ).descriptor = none := rfl

/-- The flags that the caller of `open` gives can neither claim a device nor lock it. -/
lemma descriptor_masked : (⟨some dev, f &&& ~~~ALT_FD_FLAGS_MASK⟩ : AltFd δ).descriptor =
    some ⟨dev, f &&& ~~~ALT_FD_FLAGS_MASK, false, false⟩ := by
  have hdev : f &&& ~~~ALT_FD_FLAGS_MASK &&& ALT_FD_DEV = 0#32 := and_and_eq_zero f (by decide)
  have hexcl : f &&& ~~~ALT_FD_FLAGS_MASK &&& ALT_FD_EXCL = 0#32 := and_and_eq_zero f (by decide)
  simp only [descriptor, Descriptor.ofFlags, Option.map_some, hdev, hexcl, BitVec.and_assoc,
    BitVec.and_self, bne_self_eq_false]

lemma descriptor_masked_device :
    (⟨some dev, f &&& ~~~ALT_FD_FLAGS_MASK ||| ALT_FD_DEV⟩ : AltFd δ).descriptor =
      some ⟨dev, f &&& ~~~ALT_FD_FLAGS_MASK, true, false⟩ := by
  have hdisjoint : ALT_FD_DEV &&& ~~~ALT_FD_FLAGS_MASK = 0#32 := by decide
  have hdisjoint' : ALT_FD_DEV &&& ALT_FD_EXCL = 0#32 := by decide
  have hexcl : f &&& ~~~ALT_FD_FLAGS_MASK &&& ALT_FD_EXCL = 0#32 := and_and_eq_zero f (by decide)
  have hdev : ALT_FD_DEV &&& ALT_FD_DEV ≠ 0#32 := by decide
  simp only [descriptor, Descriptor.ofFlags, Option.map_some, or_and_of_disjoint hdisjoint,
    or_and_of_disjoint hdisjoint', hexcl, bne_iff_ne.mpr (or_and_ne_zero_right hdev _), BitVec.and_assoc,
    BitVec.and_self, bne_self_eq_false]

lemma descriptor_or_excl : (⟨some dev, f ||| ALT_FD_EXCL⟩ : AltFd δ).descriptor =
    some ⟨dev, f &&& ~~~ALT_FD_FLAGS_MASK, f &&& ALT_FD_DEV != 0#32, true⟩ := by
  have hdisjoint : ALT_FD_EXCL &&& ~~~ALT_FD_FLAGS_MASK = 0#32 := by decide
  have hdisjoint' : ALT_FD_EXCL &&& ALT_FD_DEV = 0#32 := by decide
  have hexcl : ALT_FD_EXCL &&& ALT_FD_EXCL ≠ 0#32 := by decide
  simp only [descriptor, Descriptor.ofFlags, Option.map_some, or_and_of_disjoint hdisjoint,
    or_and_of_disjoint hdisjoint', bne_iff_ne.mpr (or_and_ne_zero_right hexcl f)]

lemma descriptor_not_excl : (⟨some dev, f &&& ~~~ALT_FD_EXCL⟩ : AltFd δ).descriptor =
    some ⟨dev, f &&& ~~~ALT_FD_FLAGS_MASK, f &&& ALT_FD_DEV != 0#32, false⟩ := by
  have hexcl : f &&& ~~~ALT_FD_EXCL &&& ALT_FD_EXCL = 0#32 := and_and_eq_zero f (by decide)
  have hkeep : ALT_FD_EXCL &&& ~~~ALT_FD_FLAGS_MASK = 0#32 := by decide
  have hkeep' : ALT_FD_EXCL &&& ALT_FD_DEV = 0#32 := by decide
  simp only [descriptor, Descriptor.ofFlags, Option.map_some, and_not_and_of_disjoint hkeep,
    and_not_and_of_disjoint hkeep', hexcl, bne_self_eq_false]

/-- `fcntl` reaches only the flags that it may change. -/
lemma descriptor_fcntl (u : BitVec 32) : (⟨some dev, (f &&& ~~~ALT_FCNTL_FLAGS_MASK) |||
      (u &&& ALT_FCNTL_FLAGS_MASK)⟩ : AltFd δ).descriptor =
    some ⟨dev, (f &&& ~~~ALT_FD_FLAGS_MASK &&& ~~~ALT_FCNTL_FLAGS_MASK) |||
      (u &&& ALT_FCNTL_FLAGS_MASK), f &&& ALT_FD_DEV != 0#32, f &&& ALT_FD_EXCL != 0#32⟩ := by
  have hflags : ((f &&& ~~~ALT_FCNTL_FLAGS_MASK) ||| (u &&& ALT_FCNTL_FLAGS_MASK)) &&&
      ~~~ALT_FD_FLAGS_MASK = (f &&& ~~~ALT_FD_FLAGS_MASK &&& ~~~ALT_FCNTL_FLAGS_MASK) |||
        (u &&& ALT_FCNTL_FLAGS_MASK) := by
    have hkeep : ALT_FCNTL_FLAGS_MASK &&& ~~~ALT_FD_FLAGS_MASK = ALT_FCNTL_FLAGS_MASK := by decide
    rw [BitVec.and_or_distrib_right, BitVec.and_assoc u, hkeep, BitVec.and_assoc, BitVec.and_assoc,
      BitVec.and_comm (~~~ALT_FCNTL_FLAGS_MASK)]
  have hdev := fcntl_and (f := f) (u := u) (m := ALT_FD_DEV) (by decide)
  have hexcl := fcntl_and (f := f) (u := u) (m := ALT_FD_EXCL) (by decide)
  simp only [descriptor, Descriptor.ofFlags, Option.map_some, hflags, hdev, hexcl]

end AltFd

section

variable {δ : Type} [DecidableEq δ]

namespace Files

def perform (reg : Registry δ) (s : Files δ) : Call → Option (Result × Files δ)
  | .open file flags driver => (s.altOpen reg file flags driver).map fun p => (index p.1, p.2)
  | .on fildes (.close driver) => s.altClose reg fildes driver
  | .on file (.ioctl req driver) => s.altIoctl reg file req driver
  | .on file (.fcntl cmd flags) => s.altFcntl file cmd flags
  | .on file (.read driver) => s.altRead reg file driver
  | .on file (.write driver) => s.altWrite reg file driver

def step (reg : Registry δ) (s : Files δ) (call : Call) : Option (Files δ) :=
  (s.perform reg call).map Prod.snd

/-- The pool before anything has been opened: the standard descriptors are on `/dev/null`. -/
def init (null : δ) : Files δ where
  altFdList i := if i.val ≤ 2 then ⟨some null, 0#32⟩ else ⟨none, 0#32⟩
  altMaxFd := -1

/-- `alt_io_redirect`, with what the callback of the driver returns at each of its calls of `open`. -/
def altIoRedirect (reg : Registry δ) (s : Files δ) (stdoutDev stdinDev stderrDev : CString)
    (driver : ℤ × ℤ × ℤ) : Option (Files δ) := do
  let s ← s.altOpenFd reg STDOUT_FILENO stdoutDev O_WRONLY driver.1
  let s ← s.altOpenFd reg STDIN_FILENO stdinDev O_RDONLY driver.2.1
  s.altOpenFd reg STDERR_FILENO stderrDev O_WRONLY driver.2.2

def table (s : Files δ) : Table δ := fun i => (s.altFdList i).descriptor

end Files

namespace Table

variable (T : Table δ)

def Locked (dev : δ) : Prop := ∃ i D, T i = some D ∧ D.dev = dev ∧ D.locked = true

/-- Another descriptor than this one is on the device. -/
def Shared (fd : Fin ALT_MAX_FD) (dev : δ) : Prop := ∃ i D, i ≠ fd ∧ T i = some D ∧ D.dev = dev

instance (dev : δ) : Decidable (T.Locked dev) :=
  decidable_of_iff (∃ i, ((T i).any fun D => D.dev = dev && D.locked) = true) (by
    simp [Locked, Option.any_eq_true])

instance (fd : Fin ALT_MAX_FD) (dev : δ) : Decidable (T.Shared fd dev) :=
  decidable_of_iff (∃ i, i ≠ fd ∧ ((T i).any fun D => D.dev = dev) = true) (by
    simp [Shared, Option.any_eq_true])

/-- A new descriptor is only kept if nothing has refused it. -/
def opened (i : Fin ALT_MAX_FD) (status : ℤ) (D : Descriptor δ) :
    Except ℤ (Fin ALT_MAX_FD) × Table δ :=
  if status < 0 then (.error (-status), T) else (.ok i, Function.update T i (some D))

/-- `open` takes the least free descriptor. A locked device refuses it before the driver is asked,
and a failure changes nothing. -/
def open' (reg : Registry δ) (file : CString) (flags : BitVec 32) (driver : ℤ) :
    Except ℤ (Fin ALT_MAX_FD) × Table δ :=
  match reg.find file with
  | none => (.error ENODEV, T)
  | some (dev, isafs) =>
    match (List.finRange ALT_MAX_FD).find? fun i => (T i).isNone with
    | none => (.error EMFILE, T)
    | some i =>
      T.opened i (if isafs = false ∧ T.Locked dev then -EACCES
          else if (reg.dev dev).hasOpen then driver else 0)
        ⟨dev, flags &&& ~~~ALT_FD_FLAGS_MASK, !isafs, false⟩

/-- What the caller gets of the value that a callback returns. -/
def answer (driver : ℤ) : Result := if driver < 0 then .error (-driver) else .ok driver

/-- An operation on an open descriptor. -/
def onDescriptor (reg : Registry δ) (fd : Fin ALT_MAX_FD) (D : Descriptor δ) : Op → Result × Table δ
  | .close driver =>
    (if (reg.dev D.dev).hasClose ∧ driver < 0 then .error (-driver) else .ok 0,
      if fd.val > 2 then Function.update T fd none else T)
  | .ioctl req driver =>
    if D.isDev ∧ req = TIOCEXCL then
      if T.Shared fd D.dev then (.error EACCES, T)
      else (.ok 0, Function.update T fd (some { D with locked := true }))
    else if D.isDev ∧ req = TIOCNXCL then
      (.ok 0, Function.update T fd (some { D with locked := false }))
    else (answer (if (reg.dev D.dev).hasIoctl then driver else -ENOTTY), T)
  | .fcntl cmd flags =>
    if cmd = F_GETFL then (.ok D.flags.toInt, T)
    else if cmd = F_SETFL then
      (.ok 0, Function.update T fd (some { D with
        flags := (D.flags &&& ~~~ALT_FCNTL_FLAGS_MASK) ||| (flags &&& ALT_FCNTL_FLAGS_MASK) }))
    else (.error EINVAL, T)
  | .read driver =>
    (if D.flags &&& O_ACCMODE ≠ O_WRONLY ∧ (reg.dev D.dev).hasRead then answer driver
      else .error EACCES, T)
  | .write driver =>
    (if D.flags &&& O_ACCMODE ≠ O_RDONLY ∧ (reg.dev D.dev).hasWrite then answer driver
      else .error EACCES, T)

/-- A negative descriptor is an error, and one that is not open is beyond what the table says. -/
def perform (reg : Registry δ) : Call → Option (Result × Table δ)
  | .open file flags driver =>
    some (index (T.open' reg file flags driver).1, (T.open' reg file flags driver).2)
  | .on fildes op =>
    if fildes < 0 then some (.error EBADFD, T)
    else do
      let fd ← entry fildes
      let D ← T fd
      some (T.onDescriptor reg fd D op)

end Table

/-- The descriptor shares its device only with the highest one that was ever allocated. -/
def Files.LockMisses (s : Files δ) (fd : Fin ALT_MAX_FD) : Op → Prop
  | .ioctl req _ => req = TIOCEXCL ∧ (s.altFdList fd).fdFlags &&& ALT_FD_DEV ≠ 0#32 ∧
      (∃ i : Fin ALT_MAX_FD, (i.val : ℤ) = s.altMaxFd ∧ i ≠ fd ∧
        (s.altFdList i).dev = (s.altFdList fd).dev) ∧
      ∀ i : Fin ALT_MAX_FD, (i.val : ℤ) < s.altMaxFd → i ≠ fd →
        (s.altFdList i).dev ≠ (s.altFdList fd).dev
  | _ => False

instance (s : Files δ) (fd : Fin ALT_MAX_FD) : DecidablePred (s.LockMisses fd)
  | .ioctl _ _ => inferInstanceAs (Decidable (_ ∧ _))
  | .close _ | .fcntl _ _ | .read _ | .write _ => inferInstanceAs (Decidable False)

end

section

variable {δ : Type}

/-- What holds of each descriptor, under the highest one that was ever allocated. -/
structure AltFd.Sound (reg : Registry δ) (altMaxFd : ℤ) (i : Fin ALT_MAX_FD) (f : AltFd δ) : Prop where
  standard : i.val ≤ 2 → f.dev ≠ none
  mark : 2 < i.val → f.dev ≠ none → (i.val : ℤ) ≤ altMaxFd
  device : f.fdFlags &&& ALT_FD_DEV ≠ 0#32 →
    2 < altMaxFd ∧ ∃ d ∈ reg.altDevList, f.dev = some d
  lock : f.fdFlags &&& ALT_FD_EXCL ≠ 0#32 → f.fdFlags &&& ALT_FD_DEV ≠ 0#32

structure Files.Sound (reg : Registry δ) (s : Files δ) : Prop where
  bound : s.altMaxFd < ALT_MAX_FD
  entries : ∀ i, (s.altFdList i).Sound reg s.altMaxFd i

namespace AltFd.Sound

variable {reg : Registry δ} {altMaxFd : ℤ} {i : Fin ALT_MAX_FD} {f : AltFd δ}

lemma mono (h : f.Sound reg altMaxFd i) {altMaxFd' : ℤ} (hle : altMaxFd ≤ altMaxFd') :
    f.Sound reg altMaxFd' i where
  standard := h.standard
  mark hi hdev := (h.mark hi hdev).trans hle
  device hbit := ⟨(h.device hbit).1.trans_le hle, (h.device hbit).2⟩
  lock := h.lock

/-- A descriptor with other flags, but the same two of the pool's own. -/
lemma reflag (h : f.Sound reg altMaxFd i) {fdFlags : BitVec 32}
    (hdev : fdFlags &&& ALT_FD_DEV = f.fdFlags &&& ALT_FD_DEV)
    (hexcl : fdFlags &&& ALT_FD_EXCL ≠ 0#32 → f.fdFlags &&& ALT_FD_DEV ≠ 0#32) :
    (⟨f.dev, fdFlags⟩ : AltFd δ).Sound reg altMaxFd i where
  standard := h.standard
  mark := h.mark
  device hbit := h.device (hdev ▸ hbit)
  lock hbit := hdev.symm ▸ hexcl hbit

lemma fcntl (h : f.Sound reg altMaxFd i) (u : BitVec 32) :
    (⟨f.dev, (f.fdFlags &&& ~~~ALT_FCNTL_FLAGS_MASK) ||| (u &&& ALT_FCNTL_FLAGS_MASK)⟩ :
      AltFd δ).Sound reg altMaxFd i := by
  apply h.reflag
  · exact fcntl_and (by decide)
  · rw [fcntl_and (by decide)]
    exact h.lock

lemma free (hi : 2 < i.val) : (⟨none, 0#32⟩ : AltFd δ).Sound reg altMaxFd i where
  standard hle := absurd hle (not_le.mpr hi)
  mark _ hdev := absurd rfl hdev
  device hbit := absurd BitVec.zero_and hbit
  lock hbit := absurd BitVec.zero_and hbit

/-- A descriptor that `open` has just filled in, before it is known to be that of a device. -/
lemma masked (hi : 2 < i.val) (hmark : (i.val : ℤ) ≤ altMaxFd) (dev : δ) (flags : BitVec 32) :
    (⟨some dev, flags &&& ~~~ALT_FD_FLAGS_MASK⟩ : AltFd δ).Sound reg altMaxFd i where
  standard hle := absurd hle (not_le.mpr hi)
  mark _ _ := hmark
  device hbit := absurd (and_and_eq_zero flags (by decide)) hbit
  lock hbit := absurd (and_and_eq_zero flags (by decide)) hbit

lemma masked_device (hi : 2 < i.val) (hmark : (i.val : ℤ) ≤ altMaxFd) {dev : δ}
    (hdev : dev ∈ reg.altDevList) (flags : BitVec 32) :
    (⟨some dev, flags &&& ~~~ALT_FD_FLAGS_MASK ||| ALT_FD_DEV⟩ : AltFd δ).Sound reg altMaxFd i where
  standard hle := absurd hle (not_le.mpr hi)
  mark _ _ := hmark
  device _ := ⟨by omega, dev, hdev, rfl⟩
  lock _ := or_and_ne_zero_right (by decide) _

end AltFd.Sound

namespace Files

variable {reg : Registry δ} {s : Files δ}

lemma Sound.update (h : s.Sound reg) {m : ℤ} (hle : s.altMaxFd ≤ m) (hlt : m < ALT_MAX_FD)
    {i : Fin ALT_MAX_FD} {f : AltFd δ} (hf : f.Sound reg m i) :
    (⟨Function.update s.altFdList i f, m⟩ : Files δ).Sound reg where
  bound := hlt
  entries j := by
    by_cases hj : j = i
    · subst hj
      simpa using hf
    · simpa [hj] using (h.entries j).mono hle

lemma table_update (list : Fin ALT_MAX_FD → AltFd δ) (m m' : ℤ) (i : Fin ALT_MAX_FD) (f : AltFd δ) :
    (⟨Function.update list i f, m⟩ : Files δ).table =
      Function.update (⟨list, m'⟩ : Files δ).table i f.descriptor :=
  Function.comp_update AltFd.descriptor list i f

lemma isNone_table (i : Fin ALT_MAX_FD) : (s.table i).isNone = (s.altFdList i).dev.isNone :=
  Option.isNone_map

end Files

section

variable {reg : Registry δ} {s : Files δ}

lemma scan_eq {found : Fin ALT_MAX_FD → Bool} {bound : ℕ} (hbound : bound ≤ ALT_MAX_FD) {P : Prop}
    [Decidable P] (hP : P ↔ ∃ i : Fin ALT_MAX_FD, i.val < bound ∧ found i = true) :
    scan found bound = some (decide P) := by
  have hany : (List.finRange ALT_MAX_FD).any (fun i => decide (i.val < bound) && found i) = decide P := by
    rw [Bool.eq_iff_iff, List.any_eq_true, decide_eq_true_iff, hP]
    simp
  rw [scan, hany, if_pos hbound]
  by_cases hp : P <;> simp [hp]

lemma Files.locked_table_iff (dev : δ) : s.table.Locked dev ↔ ∃ i, (s.altFdList i).dev = some dev ∧
    (s.altFdList i).fdFlags &&& ALT_FD_EXCL ≠ 0#32 := by
  constructor
  · rintro ⟨i, D, hD, rfl, hlocked⟩
    obtain ⟨dev, hdev, rfl⟩ := Option.map_eq_some_iff.mp hD
    exact ⟨i, hdev, bne_iff_ne.mp hlocked⟩
  · rintro ⟨i, hdev, hexcl⟩
    exact ⟨i, _, Option.map_eq_some_iff.mpr ⟨dev, hdev, rfl⟩, rfl, bne_iff_ne.mpr hexcl⟩

lemma Files.shared_table_iff (fd : Fin ALT_MAX_FD) (dev : δ) : s.table.Shared fd dev ↔
    ∃ i, i ≠ fd ∧ (s.altFdList i).dev = some dev := by
  constructor
  · rintro ⟨i, D, hi, hD, rfl⟩
    obtain ⟨dev, hdev, rfl⟩ := Option.map_eq_some_iff.mp hD
    exact ⟨i, hi, hdev⟩
  · rintro ⟨i, hi, hdev⟩
    exact ⟨i, _, hi, Option.map_eq_some_iff.mpr ⟨dev, hdev, rfl⟩, rfl⟩

/-- What `alt_get_fd` finds is the least free descriptor, above the standard ones. -/
lemma Files.Sound.altGetFd (h : s.Sound reg) (dev : δ) {i : Fin ALT_MAX_FD}
    (hfree : (List.finRange ALT_MAX_FD).find? (fun i => (s.table i).isNone) = some i) :
    2 < i.val ∧ (s.altFdList i).dev = none ∧
      s.altGetFd dev = (some i, ⟨Function.update s.altFdList i ⟨some dev, (s.altFdList i).fdFlags⟩,
        max s.altMaxFd i⟩) := by
  simp only [isNone_table] at hfree
  have hnone := Option.isNone_iff_eq_none.mp
    (List.find?_some (p := fun i => (s.altFdList i).dev.isNone) hfree)
  refine ⟨?_, hnone, ?_⟩
  · by_contra hle
    exact (h.entries i).standard (not_lt.mp hle) hnone
  · rw [Files.altGetFd, hfree]
    simp only [gt_iff_lt]
    congr 2
    split_ifs with hlt
    · exact (max_eq_right hlt.le).symm
    · exact (max_eq_left (not_lt.mp hlt)).symm

end

end

/-! ### The calls on the pool and on the table -/

namespace Files.Sound

variable {δ : Type} [DecidableEq δ] {reg : Registry δ} {s : Files δ}

/-- A new descriptor on a device looks at every other one. -/
lemma altFileLocked (h : s.Sound reg) {i : Fin ALT_MAX_FD} (hi : 2 < i.val)
    (hfree : (s.altFdList i).dev = none) (dev : δ) (fdFlags : BitVec 32) :
    (⟨Function.update s.altFdList i ⟨some dev, fdFlags⟩, max s.altMaxFd i⟩ : Files δ).altFileLocked i =
      some (if s.table.Locked dev then -EACCES else 0,
        ⟨Function.update s.altFdList i ⟨some dev, fdFlags ||| ALT_FD_DEV⟩, max s.altMaxFd i⟩) := by
  have hbound := h.bound
  have hlt := i.isLt
  have hN : ALT_MAX_FD = 32 := rfl
  have hmax : (max s.altMaxFd (i.val : ℤ) % 2 ^ 32).toNat + 1 ≤ ALT_MAX_FD := by omega
  have hfound : s.table.Locked dev ↔ ∃ j : Fin ALT_MAX_FD,
      j.val < (max s.altMaxFd (i.val : ℤ) % 2 ^ 32).toNat + 1 ∧
      ((Function.update s.altFdList i ⟨some dev, fdFlags ||| ALT_FD_DEV⟩ j).dev == some dev &&
        (Function.update s.altFdList i ⟨some dev, fdFlags ||| ALT_FD_DEV⟩ j).fdFlags &&&
          ALT_FD_EXCL != 0#32 && decide (j ≠ i)) = true := by
    rw [locked_table_iff]
    apply exists_congr
    intro j
    by_cases hj : j = i
    · subst hj
      simp [hfree]
    · have hmark : (s.altFdList j).dev = some dev →
          j.val < (max s.altMaxFd (i.val : ℤ) % 2 ^ 32).toNat + 1 := by
        intro hdev
        by_cases hstd : 2 < j.val
        · have hle := (h.entries j).mark hstd (by rw [hdev]; exact Option.some_ne_none dev)
          omega
        · omega
      simp only [Function.update_of_ne hj, Bool.and_eq_true, beq_iff_eq, bne_iff_ne,
        decide_eq_true_eq]
      tauto
  have hscan := scan_eq hmax hfound
  simp only [Files.altFileLocked, setFlags, Function.update_self, Function.update_idem, hscan,
    Option.map_some, decide_eq_true_eq]
  split_ifs <;> rfl

omit [DecidableEq δ] in
/-- The end of `open` for a new descriptor. -/
lemma opened (h : s.Sound reg) {i : Fin ALT_MAX_FD} (hi : 2 < i.val)
    (hfree : (s.altFdList i).dev = none) {f : AltFd δ} (hf : f.Sound reg (max s.altMaxFd i) i)
    {D : Descriptor δ} (hD : f.descriptor = some D) (status : ℤ) :
    ∃ s', (⟨Function.update s.altFdList i f, max s.altMaxFd i⟩ : Files δ).opened i status =
        ((s.table.opened i status D).1, s') ∧ s'.Sound reg ∧
      s'.table = (s.table.opened i status D).2 := by
  have hlt : max s.altMaxFd (i.val : ℤ) < ALT_MAX_FD := max_lt h.bound (by exact_mod_cast i.isLt)
  rw [Files.opened, Table.opened]
  by_cases hstatus : status < 0
  · have hnone : s.table i = none := by rw [table, AltFd.descriptor, hfree, Option.map_none]
    rw [if_pos hstatus, if_pos hstatus, altReleaseFd, if_pos hi, Function.update_idem]
    refine ⟨_, rfl, h.update (le_max_left _ _) hlt (AltFd.Sound.free hi), ?_⟩
    rw [table_update s.altFdList _ s.altMaxFd, AltFd.descriptor_free, Function.update_eq_self_iff]
    exact hnone.symm
  · rw [if_neg hstatus, if_neg hstatus]
    refine ⟨_, rfl, h.update (le_max_left _ _) hlt hf, ?_⟩
    rw [table_update s.altFdList _ s.altMaxFd, hD]

/-- `open` on the pool is `open` on the table. -/
lemma altOpen (h : s.Sound reg) (file : CString) (flags : BitVec 32) (driver : ℤ) :
    ∃ s', s.altOpen reg file flags driver = some ((s.table.open' reg file flags driver).1, s') ∧
      s'.Sound reg ∧ s'.table = (s.table.open' reg file flags driver).2 := by
  rw [Files.altOpen, Table.open']
  cases hfind : reg.find file with
  | none => exact ⟨s, rfl, h, rfl⟩
  | some found =>
    obtain ⟨dev, isafs⟩ := found
    cases hleast : (List.finRange ALT_MAX_FD).find? fun i => (s.table i).isNone with
    | none =>
      have hget : s.altGetFd dev = (none, s) := by
        simp only [isNone_table] at hleast
        rw [Files.altGetFd, hleast]
      simp only [hget]
      exact ⟨s, rfl, h, rfl⟩
    | some i =>
      obtain ⟨hi, hfree, hget⟩ := h.altGetFd dev hleast
      have hmark : (i.val : ℤ) ≤ max s.altMaxFd i := le_max_right _ _
      simp only [hget, setFlags, Function.update_self, Function.update_idem]
      cases isafs with
      | true =>
        obtain ⟨s', hopened, hsound, htable⟩ := h.opened hi hfree
          (AltFd.Sound.masked hi hmark dev flags) (AltFd.descriptor_masked dev flags)
          (if (reg.dev dev).hasOpen then driver else 0)
        exact ⟨s', congrArg some hopened, hsound, htable⟩
      | false =>
        have hdev := reg.mem_altDevList_of_find hfind
        obtain ⟨s', hopened, hsound, htable⟩ := h.opened hi hfree
          (AltFd.Sound.masked_device hi hmark hdev flags) (AltFd.descriptor_masked_device dev flags)
          (if false = false ∧ s.table.Locked dev then -EACCES
            else if (reg.dev dev).hasOpen then driver else 0)
        refine ⟨s', Eq.trans ?_ (congrArg some hopened), hsound, htable⟩
        simp only [Bool.false_eq_true, if_false, h.altFileLocked hi hfree, Option.map_some, true_and]
        by_cases hlocked : s.table.Locked dev
        · simp [hlocked, EACCES]
        · simp [hlocked]

omit [DecidableEq δ] in
lemma setFlags (h : s.Sound reg) {fd : Fin ALT_MAX_FD} {fdFlags : BitVec 32}
    (hf : (⟨(s.altFdList fd).dev, fdFlags⟩ : AltFd δ).Sound reg s.altMaxFd fd) :
    (s.setFlags fd fdFlags).Sound reg ∧ (s.setFlags fd fdFlags).table =
      Function.update s.table fd (⟨(s.altFdList fd).dev, fdFlags⟩ : AltFd δ).descriptor :=
  ⟨h.update le_rfl h.bound hf, table_update s.altFdList _ s.altMaxFd fd _⟩

omit [DecidableEq δ] in
lemma altReleaseFd (h : s.Sound reg) (fd : Fin ALT_MAX_FD) : (s.altReleaseFd fd).Sound reg ∧
    (s.altReleaseFd fd).table = if fd.val > 2 then Function.update s.table fd none else s.table := by
  rw [Files.altReleaseFd]
  by_cases hfd : fd.val > 2
  · rw [if_pos hfd, if_pos hfd]
    exact ⟨h.update le_rfl h.bound (AltFd.Sound.free hfd), table_update s.altFdList _ s.altMaxFd fd _⟩
  · rw [if_neg hfd, if_neg hfd]
    exact ⟨h, rfl⟩

/-- A lock looks at the other descriptors below the highest one that was ever allocated. -/
lemma altFdLock (h : s.Sound reg) (fd : Fin ALT_MAX_FD) : s.altFdLock fd =
    some (if ∃ i : Fin ALT_MAX_FD, (i.val : ℤ) < s.altMaxFd ∧ i ≠ fd ∧
        (s.altFdList i).dev = (s.altFdList fd).dev then (-EACCES, s)
      else (0, s.setFlags fd ((s.altFdList fd).fdFlags ||| ALT_FD_EXCL))) := by
  have hbound := h.bound
  have hfound : (∃ i : Fin ALT_MAX_FD, (i.val : ℤ) < s.altMaxFd ∧ i ≠ fd ∧
      (s.altFdList i).dev = (s.altFdList fd).dev) ↔ ∃ i : Fin ALT_MAX_FD, i.val < s.altMaxFd.toNat ∧
        (decide (i ≠ fd) && (s.altFdList i).dev == (s.altFdList fd).dev) = true := by
    apply exists_congr
    intro i
    have hlt : i.val < s.altMaxFd.toNat ↔ (i.val : ℤ) < s.altMaxFd := by omega
    rw [Bool.and_eq_true, decide_eq_true_eq, beq_iff_eq, hlt]
  have hscan := scan_eq (by omega) hfound
  rw [Files.altFdLock, hscan, Option.map_some]
  simp only [decide_eq_true_eq]

omit [DecidableEq δ] in
/-- The lock misses a descriptor exactly when the highest one is the only other on the device. -/
lemma lockMisses_iff (h : s.Sound reg) {fd : Fin ALT_MAX_FD} {dev : δ}
    (hdev : (s.altFdList fd).dev = some dev) (driver : ℤ) :
    s.LockMisses fd (.ioctl TIOCEXCL driver) ↔
      (s.altFdList fd).fdFlags &&& ALT_FD_DEV ≠ 0#32 ∧ s.table.Shared fd dev ∧
        ¬∃ i : Fin ALT_MAX_FD, (i.val : ℤ) < s.altMaxFd ∧ i ≠ fd ∧
          (s.altFdList i).dev = (s.altFdList fd).dev := by
  rw [LockMisses, shared_table_iff, hdev]
  constructor
  · rintro ⟨-, hbit, ⟨i, -, hi, hsame⟩, hbelow⟩
    refine ⟨hbit, ⟨i, hi, hsame⟩, ?_⟩
    rintro ⟨j, hj, hne, hother⟩
    exact hbelow j hj hne hother
  · rintro ⟨hbit, ⟨i, hi, hsame⟩, hnone⟩
    have hopen := ((h.entries fd).device hbit).1
    have hle : (i.val : ℤ) ≤ s.altMaxFd := by
      by_cases hstd : 2 < i.val
      · exact (h.entries i).mark hstd (by rw [hsame]; exact Option.some_ne_none dev)
      · omega
    refine ⟨rfl, hbit, ⟨i, ?_, hi, hsame⟩, fun j hj hne hother => hnone ⟨j, hj, hne, hother⟩⟩
    by_contra hne
    exact hnone ⟨i, lt_of_le_of_ne hle hne, hi, hsame⟩

/-- What the pool does with an operation, against what the table says. -/
structure Agrees (reg : Registry δ) (s : Files δ) (fd : Fin ALT_MAX_FD) (D : Descriptor δ) (op : Op)
    (p : Result × Files δ) : Prop where
  sound : p.2.Sound reg
  same : ¬s.LockMisses fd op →
    p.1 = (s.table.onDescriptor reg fd D op).1 ∧ p.2.table = (s.table.onDescriptor reg fd D op).2
  misses : s.LockMisses fd op → s.table.onDescriptor reg fd D op = (.error EACCES, s.table) ∧
    s.table.Shared fd D.dev ∧ p.1 = .ok 0 ∧
      p.2.table = Function.update s.table fd (some { D with locked := true })

section Operations

variable {fd : Fin ALT_MAX_FD} {dev : δ} {fildes : ℤ} (h : s.Sound reg) (hnonneg : ¬fildes < 0)
  (hentry : entry fildes = some fd) (hdev : (s.altFdList fd).dev = some dev)
include h hnonneg hentry hdev

lemma agrees_close (driver : ℤ) : ∃ p, s.altClose reg fildes driver = some p ∧
    Agrees reg s fd (.ofFlags dev (s.altFdList fd).fdFlags) (.close driver) p := by
  obtain ⟨hsound, htable⟩ := h.altReleaseFd fd
  have heq : s.altClose reg fildes driver = some
      (if (if (reg.dev dev).hasClose then driver else 0) < 0 then
        .error (-if (reg.dev dev).hasClose then driver else 0) else .ok 0, s.altReleaseFd fd) := by
    simp only [Files.altClose, if_neg hnonneg, hentry, hdev, Option.bind_eq_bind, Option.bind_some]
  refine ⟨_, heq, hsound, fun _ => ⟨?_, htable⟩, False.elim⟩
  rw [Table.onDescriptor, Descriptor.ofFlags]
  by_cases hclose : (reg.dev dev).hasClose
  · simp [hclose]
  · simp [hclose]

lemma agrees_fcntl (cmd : ℤ) (flags : BitVec 32) :
    ∃ p, s.altFcntl fildes cmd flags = some p ∧
      Agrees reg s fd (.ofFlags dev (s.altFdList fd).fdFlags) (.fcntl cmd flags) p := by
  have hopen : s.altFcntl fildes cmd flags = some
      (if cmd = F_GETFL then
        (.ok ((s.altFdList fd).fdFlags &&& ~~~ALT_FD_FLAGS_MASK).toInt, s)
      else if cmd = F_SETFL then
        (.ok 0, s.setFlags fd (((s.altFdList fd).fdFlags &&& ~~~ALT_FCNTL_FLAGS_MASK) |||
          (flags &&& ALT_FCNTL_FLAGS_MASK)))
      else (.error EINVAL, s)) := by
    simp only [Files.altFcntl, if_neg hnonneg, hentry, Option.bind_eq_bind, Option.bind_some]
    split_ifs <;> rfl
  rw [hopen]
  by_cases hget : cmd = F_GETFL
  · refine ⟨_, rfl, ?_, fun _ => ?_, False.elim⟩
    · rw [if_pos hget]
      exact h
    · rw [if_pos hget, Table.onDescriptor, if_pos hget]
      exact ⟨rfl, rfl⟩
  · by_cases hset : cmd = F_SETFL
    · obtain ⟨hsound, htable⟩ := h.setFlags ((h.entries fd).fcntl flags)
      refine ⟨_, rfl, ?_, fun _ => ?_, False.elim⟩
      · rw [if_neg hget, if_pos hset]
        exact hsound
      · rw [if_neg hget, if_pos hset, Table.onDescriptor, if_neg hget, if_pos hset, htable, hdev,
          AltFd.descriptor_fcntl]
        exact ⟨rfl, rfl⟩
    · refine ⟨_, rfl, ?_, fun _ => ?_, False.elim⟩
      · rw [if_neg hget, if_neg hset]
        exact h
      · rw [if_neg hget, if_neg hset, Table.onDescriptor, if_neg hget, if_neg hset]
        exact ⟨rfl, rfl⟩

omit [DecidableEq δ] h in
/-- The two transfers differ in the mode that they refuse and in the callback. -/
lemma transfer_eq (has : AltDev → Bool) (refused : BitVec 32) (driver : ℤ) :
    transfer has refused reg s fildes driver = some
      (if (Descriptor.ofFlags dev (s.altFdList fd).fdFlags).flags &&& O_ACCMODE ≠ refused ∧
        has (reg.dev dev) then Table.answer driver else .error EACCES, s) := by
  have hkeep : ALT_FD_FLAGS_MASK &&& O_ACCMODE = 0#32 := by decide
  rw [Descriptor.ofFlags, and_not_and_of_disjoint hkeep]
  simp only [transfer, if_neg hnonneg, hentry, hdev, Option.bind_eq_bind, Option.bind_some]
  by_cases hmode : (s.altFdList fd).fdFlags &&& O_ACCMODE = refused
  · simp [hmode]
  · by_cases hhas : has (reg.dev dev)
    · simp [hmode, hhas, Table.answer]
    · simp [hmode, hhas]

lemma agrees_lock (hdevice : (s.altFdList fd).fdFlags &&& ALT_FD_DEV ≠ 0#32) (driver : ℤ) :
    ∃ p, s.altIoctl reg fildes TIOCEXCL driver = some p ∧
      Agrees reg s fd (.ofFlags dev (s.altFdList fd).fdFlags) (.ioctl TIOCEXCL driver) p := by
  have heq : s.altIoctl reg fildes TIOCEXCL driver = (s.altFdLock fd).map ioctlDone := by
    simp only [altIoctl, if_neg hnonneg, hentry, Option.bind_eq_bind, Option.bind_some]
    exact if_pos ⟨hdevice, trivial⟩
  have hmisses := h.lockMisses_iff hdev driver
  have htable : s.table.onDescriptor reg fd (.ofFlags dev (s.altFdList fd).fdFlags)
      (.ioctl TIOCEXCL driver) = if s.table.Shared fd dev then (.error EACCES, s.table)
        else (.ok 0, Function.update s.table fd
          (some { Descriptor.ofFlags dev (s.altFdList fd).fdFlags with locked := true })) :=
    if_pos ⟨bne_iff_ne.mpr hdevice, rfl⟩
  rw [heq, h.altFdLock fd, Option.map_some]
  by_cases hbelow : ∃ i : Fin ALT_MAX_FD, (i.val : ℤ) < s.altMaxFd ∧ i ≠ fd ∧
      (s.altFdList i).dev = (s.altFdList fd).dev
  · have hfound := hbelow
    obtain ⟨i, -, hi, hsame⟩ := hfound
    have hshared : s.table.Shared fd dev := (shared_table_iff fd dev).mpr ⟨i, hi, hsame.trans hdev⟩
    rw [if_pos hbelow]
    refine ⟨_, rfl, h, fun _ => ?_, fun hmiss => absurd hbelow (hmisses.mp hmiss).2.2⟩
    rw [htable, if_pos hshared]
    exact ⟨rfl, rfl⟩
  · have hflags : (⟨(s.altFdList fd).dev, (s.altFdList fd).fdFlags ||| ALT_FD_EXCL⟩ :
        AltFd δ).Sound reg s.altMaxFd fd :=
      (h.entries fd).reflag (or_and_of_disjoint (by decide)) (fun _ => hdevice)
    obtain ⟨hsound, hlocked⟩ := h.setFlags hflags
    rw [hdev, AltFd.descriptor_or_excl] at hlocked
    rw [if_neg hbelow]
    refine ⟨_, rfl, hsound, fun hmiss => ?_, fun hmiss => ?_⟩
    · have hshared : ¬s.table.Shared fd dev := fun hs => hmiss (hmisses.mpr ⟨hdevice, hs, hbelow⟩)
      rw [htable, if_neg hshared]
      exact ⟨rfl, hlocked⟩
    · have hshared := (hmisses.mp hmiss).2.1
      rw [htable, if_pos hshared]
      exact ⟨rfl, hshared, rfl, hlocked⟩

lemma agrees_ioctl (req : BitVec 32) (driver : ℤ) :
    ∃ p, s.altIoctl reg fildes req driver = some p ∧
      Agrees reg s fd (.ofFlags dev (s.altFdList fd).fdFlags) (.ioctl req driver) p := by
  have hbit : (Descriptor.ofFlags dev (s.altFdList fd).fdFlags).isDev = true ↔
      (s.altFdList fd).fdFlags &&& ALT_FD_DEV ≠ 0#32 := bne_iff_ne
  by_cases hexcl : (s.altFdList fd).fdFlags &&& ALT_FD_DEV ≠ 0#32 ∧ req = TIOCEXCL
  · obtain ⟨hdevice, rfl⟩ := hexcl
    exact h.agrees_lock hnonneg hentry hdev hdevice driver
  · have hmiss : ¬s.LockMisses fd (.ioctl req driver) := fun hmiss => hexcl ⟨hmiss.2.1, hmiss.1⟩
    have hexcl' := (and_congr_left' hbit).not.mpr hexcl
    by_cases hnxcl : (s.altFdList fd).fdFlags &&& ALT_FD_DEV ≠ 0#32 ∧ req = TIOCNXCL
    · have hnxcl' := (and_congr_left' hbit).mpr hnxcl
      have heq : s.altIoctl reg fildes req driver = some (ioctlDone (s.altFdUnlock fd)) := by
        simp only [altIoctl, if_neg hnonneg, hentry, Option.bind_eq_bind, Option.bind_some]
        rw [if_neg hexcl, if_pos hnxcl]
      have hflags : (⟨(s.altFdList fd).dev, (s.altFdList fd).fdFlags &&& ~~~ALT_FD_EXCL⟩ :
          AltFd δ).Sound reg s.altMaxFd fd :=
        (h.entries fd).reflag (and_not_and_of_disjoint (by decide)) (fun _ => hnxcl.1)
      obtain ⟨hsound, hunlocked⟩ := h.setFlags hflags
      rw [hdev, AltFd.descriptor_not_excl] at hunlocked
      refine ⟨_, heq, hsound, fun _ => ?_, fun h => absurd h hmiss⟩
      rw [Table.onDescriptor, if_neg hexcl', if_pos hnxcl']
      exact ⟨rfl, hunlocked⟩
    · have hnxcl' := (and_congr_left' hbit).not.mpr hnxcl
      have heq : s.altIoctl reg fildes req driver =
          some (ioctlDone (if (reg.dev dev).hasIoctl then driver else -ENOTTY, s)) := by
        simp only [altIoctl, if_neg hnonneg, hentry, Option.bind_eq_bind, Option.bind_some]
        rw [if_neg hexcl, if_neg hnxcl, hdev, Option.bind_some]
      refine ⟨_, heq, h, fun _ => ?_, fun h => absurd h hmiss⟩
      rw [Table.onDescriptor, if_neg hexcl', if_neg hnxcl']
      exact ⟨rfl, rfl⟩

lemma agrees (op : Op) : ∃ p, s.perform reg (.on fildes op) = some p ∧
    Agrees reg s fd (.ofFlags dev (s.altFdList fd).fdFlags) op p := by
  cases op with
  | close driver => exact h.agrees_close hnonneg hentry hdev driver
  | ioctl req driver => exact h.agrees_ioctl hnonneg hentry hdev req driver
  | fcntl cmd flags => exact h.agrees_fcntl hnonneg hentry hdev cmd flags
  | read driver =>
    exact ⟨_, transfer_eq hnonneg hentry hdev _ _ driver, h, fun _ => ⟨rfl, rfl⟩, False.elim⟩
  | write driver =>
    exact ⟨_, transfer_eq hnonneg hentry hdev _ _ driver, h, fun _ => ⟨rfl, rfl⟩, False.elim⟩

end Operations

end Files.Sound

/-! ### Runs of calls -/

section Runs

variable {δ : Type} [DecidableEq δ] {reg : Registry δ}

/-- The call asks for a lock that the pool grants although the device is shared. -/
def Files.Misses (s : Files δ) : Call → Prop
  | .open _ _ _ => False
  | .on fildes op => ∃ fd, ¬fildes < 0 ∧ entry fildes = some fd ∧ s.LockMisses fd op

instance (s : Files δ) : DecidablePred s.Misses
  | .open _ _ _ => inferInstanceAs (Decidable False)
  | .on _ _ => inferInstanceAs (Decidable (∃ _, _))

/-- A call of a program that only uses descriptors which it has opened. -/
def Call.Proper (reg : Registry δ) (s : Files δ) (call : Call) : Prop :=
  (s.table.perform reg call).isSome

lemma Files.Sound.perform {s : Files δ} (h : s.Sound reg) {call : Call} {r : Result} {T : Table δ}
    (hcall : s.table.perform reg call = some (r, T)) :
    ∃ r' s', s.perform reg call = some (r', s') ∧ s'.Sound reg ∧
      (¬s.Misses call → r' = r ∧ s'.table = T) ∧
      (s.Misses call → r = .error EACCES ∧ T = s.table ∧ r' = .ok 0 ∧
        ∃ fd D, s.table fd = some D ∧ s.table.Shared fd D.dev ∧
          s'.table = Function.update s.table fd (some { D with locked := true })) := by
  cases call with
  | «open» file flags driver =>
    rw [Table.perform, Option.some.injEq] at hcall
    obtain ⟨rfl, rfl⟩ := Prod.mk.inj hcall
    obtain ⟨s', hopen, hsound, htable⟩ := h.altOpen file flags driver
    refine ⟨_, s', ?_, hsound, fun _ => ⟨rfl, htable⟩, False.elim⟩
    rw [Files.perform, hopen, Option.map_some]
  | on fildes op =>
    rw [Table.perform] at hcall
    by_cases hneg : fildes < 0
    · rw [if_pos hneg, Option.some.injEq] at hcall
      obtain ⟨rfl, rfl⟩ := Prod.mk.inj hcall
      refine ⟨.error EBADFD, s, ?_, h, fun _ => ⟨rfl, rfl⟩,
        fun hmiss => absurd hneg hmiss.choose_spec.1⟩
      cases op with
      | close driver => exact if_pos hneg
      | ioctl req driver => exact if_pos hneg
      | fcntl cmd flags => exact if_pos hneg
      | read driver => exact if_pos hneg
      | write driver => exact if_pos hneg
    · rw [if_neg hneg] at hcall
      obtain ⟨fd, hentry, hcall⟩ := Option.bind_eq_some_iff.mp hcall
      obtain ⟨D, hD, hcall⟩ := Option.bind_eq_some_iff.mp hcall
      obtain ⟨dev, hdev, rfl⟩ := Option.map_eq_some_iff.mp hD
      rw [Option.some.injEq] at hcall
      obtain ⟨p, hperform, hagrees⟩ := h.agrees hneg hentry hdev op
      have hmiss : s.Misses (.on fildes op) ↔ s.LockMisses fd op := by
        constructor
        · rintro ⟨fd', -, hentry', hmiss⟩
          rwa [Option.some.inj (hentry.symm.trans hentry')]
        · intro hmiss
          exact ⟨fd, hneg, hentry, hmiss⟩
      refine ⟨p.1, p.2, hperform, hagrees.sound, fun hno => ?_, fun hyes => ?_⟩
      · have hsame := hagrees.same (hmiss.not.mp hno)
        rwa [hcall] at hsame
      · obtain ⟨htable, hshared, hresult, hlocked⟩ := hagrees.misses (hmiss.mp hyes)
        rw [hcall] at htable
        obtain ⟨rfl, rfl⟩ := Prod.mk.inj htable
        exact ⟨rfl, rfl, hresult, fd, _, hD, hshared, hlocked⟩

namespace Table

variable {T : Table δ} {file : CString} {flags : BitVec 32} {driver : ℤ}

lemma open'_ok {i : Fin ALT_MAX_FD} (h : (T.open' reg file flags driver).1 = .ok i) :
    ∃ dev isafs, reg.find file = some (dev, isafs) ∧ T i = none ∧
      ¬(isafs = false ∧ T.Locked dev) ∧ (T.open' reg file flags driver).2 =
        Function.update T i (some ⟨dev, flags &&& ~~~ALT_FD_FLAGS_MASK, !isafs, false⟩) := by
  rw [open'] at h ⊢
  cases hfind : reg.find file with
  | none =>
    rw [hfind] at h
    exact absurd h (by simp)
  | some found =>
    obtain ⟨dev, isafs⟩ := found
    simp only [hfind] at h ⊢
    cases hleast : (List.finRange ALT_MAX_FD).find? fun i => (T i).isNone with
    | none =>
      rw [hleast] at h
      exact absurd h (by simp)
    | some j =>
      have hfree := Option.isNone_iff_eq_none.mp (List.find?_some (p := fun i => (T i).isNone) hleast)
      simp only [hleast, opened] at h ⊢
      by_cases hlocked : isafs = false ∧ T.Locked dev
      · rw [if_pos hlocked, if_pos (by decide)] at h
        exact absurd h (by simp)
      · rw [if_neg hlocked] at h ⊢
        split_ifs at h ⊢ with hstatus
        · obtain rfl := Except.ok.inj h
          exact ⟨dev, isafs, rfl, hfree, hlocked, rfl⟩
        · obtain rfl := Except.ok.inj h
          exact ⟨dev, isafs, rfl, hfree, hlocked, rfl⟩

/-- An `open` that fails leaves every descriptor as it was. -/
lemma open'_error {e : ℤ} (h : (T.open' reg file flags driver).1 = .error e) :
    (T.open' reg file flags driver).2 = T := by
  rw [open'] at h ⊢
  cases hfind : reg.find file with
  | none => rfl
  | some found =>
    obtain ⟨dev, isafs⟩ := found
    simp only [hfind] at h ⊢
    cases hleast : (List.finRange ALT_MAX_FD).find? fun i => (T i).isNone with
    | none => rfl
    | some j =>
      simp only [hleast] at h ⊢
      rw [opened] at h ⊢
      split_ifs at h ⊢ with hstatus
      all_goals rfl

end Table

omit [DecidableEq δ] in
lemma Files.sound_init (reg : Registry δ) (null : δ) : (Files.init null).Sound reg where
  bound := by
    change (-1 : ℤ) < 32
    decide
  entries i := by
    rw [Files.init]
    by_cases hi : i.val ≤ 2
    · simp only [if_pos hi]
      exact ⟨fun _ => Option.some_ne_none null, fun hlt => absurd hi (not_le.mpr hlt),
        fun hbit => absurd BitVec.zero_and hbit, fun hbit => absurd BitVec.zero_and hbit⟩
    · simp only [if_neg hi]
      exact AltFd.Sound.free (not_le.mp hi)

/-- No descriptor has locked its device. -/
def Table.Unlocked (T : Table δ) : Prop := ∀ i D, T i = some D → D.locked = false

omit [DecidableEq δ] in
lemma Table.Unlocked.update {T : Table δ} (h : T.Unlocked) (fd : Fin ALT_MAX_FD)
    {d : Option (Descriptor δ)} (hd : ∀ D, d = some D → D.locked = false) :
    Table.Unlocked (Function.update T fd d) := by
  intro i D hD
  by_cases hi : i = fd
  · subst hi
    rw [Function.update_self] at hD
    exact hd D hD
  · rw [Function.update_of_ne hi] at hD
    exact h i D hD

lemma Table.Unlocked.open' {T : Table δ} (h : T.Unlocked) (reg : Registry δ) (file : CString)
    (flags : BitVec 32) (driver : ℤ) : Table.Unlocked (T.open' reg file flags driver).2 := by
  cases hresult : (T.open' reg file flags driver).1 with
  | error e =>
    rw [Table.open'_error hresult]
    exact h
  | ok i =>
    obtain ⟨dev, isafs, -, -, -, hupdate⟩ := Table.open'_ok hresult
    rw [hupdate]
    apply h.update
    intro D hD
    rw [← Option.some.inj hD]

/-- A standard descriptor takes over a new one, or stays where it was. -/
lemma Files.Sound.altOpenFd {s : Files δ} (h : s.Sound reg) (hunlocked : s.table.Unlocked)
    {fd : Fin ALT_MAX_FD} (hfd : fd.val ≤ 2) (name : CString) (flags : BitVec 32) (driver : ℤ) :
    ∃ s', s.altOpenFd reg fd name flags driver = some s' ∧ s'.Sound reg ∧ s'.table.Unlocked := by
  obtain ⟨s', hopen, hsound, htable⟩ := h.altOpen name flags driver
  have hunlocked' : s'.table.Unlocked := by
    rw [htable]
    exact hunlocked.open' reg name flags driver
  rw [Files.altOpenFd, hopen, Option.map_some]
  cases hresult : (s.table.open' reg name flags driver).1 with
  | error e => exact ⟨s', rfl, hsound, hunlocked'⟩
  | ok old =>
    have hused : (s'.altFdList old).dev ≠ none := by
      intro hnone
      have hnew : s'.table old = none := by
        rw [Files.table, AltFd.descriptor, hnone, Option.map_none]
      rw [htable] at hnew
      obtain ⟨dev, isafs, -, -, -, hupdate⟩ := Table.open'_ok hresult
      rw [hupdate, Function.update_self] at hnew
      exact absurd hnew (Option.some_ne_none _)
    have hcopy : (s'.altFdList old).Sound reg s'.altMaxFd fd :=
      ⟨fun _ => hused, fun hlt => absurd hfd (not_le.mpr hlt), (hsound.entries old).device,
        (hsound.entries old).lock⟩
    have hmoved := hsound.update le_rfl hsound.bound hcopy
    obtain ⟨hreleased, hfinal⟩ := hmoved.altReleaseFd old
    have hcopied := hunlocked'.update fd (hunlocked' old)
    refine ⟨_, rfl, hreleased, ?_⟩
    rw [hfinal, Files.table_update s'.altFdList _ s'.altMaxFd]
    split_ifs
    · exact hcopied.update old (fun D hD => absurd hD (by simp))
    · exact hcopied

lemma Files.sound_boot (reg : Registry δ) (null : δ) (stdoutDev stdinDev stderrDev : CString)
    (driver : ℤ × ℤ × ℤ) : ∃ s, (Files.init null).altIoRedirect reg stdoutDev stdinDev stderrDev
      driver = some s ∧ s.Sound reg ∧ s.table.Unlocked := by
  have hinit : (Files.init null).table.Unlocked := by
    intro i D hD
    obtain ⟨dev, hdev, rfl⟩ := Option.map_eq_some_iff.mp hD
    have hflags : ((Files.init null).altFdList i).fdFlags = 0#32 := by
      simp only [Files.init]
      split_ifs <;> rfl
    rw [hflags]
    rfl
  obtain ⟨s₁, hstdout, hsound₁, hunlocked₁⟩ := (Files.sound_init reg null).altOpenFd hinit
    (show STDOUT_FILENO.val ≤ 2 by decide) stdoutDev O_WRONLY driver.1
  obtain ⟨s₂, hstdin, hsound₂, hunlocked₂⟩ := hsound₁.altOpenFd hunlocked₁
    (show STDIN_FILENO.val ≤ 2 by decide) stdinDev O_RDONLY driver.2.1
  obtain ⟨s₃, hstderr, hsound₃, hunlocked₃⟩ := hsound₂.altOpenFd hunlocked₂
    (show STDERR_FILENO.val ≤ 2 by decide) stderrDev O_WRONLY driver.2.2
  refine ⟨s₃, ?_, hsound₃, hunlocked₃⟩
  simp only [Files.altIoRedirect, hstdout, hstdin, hstderr, Option.bind_eq_bind, Option.bind_some]

lemma Files.Sound.step {s s' : Files δ} (h : s.Sound reg) {call : Call} (hcall : call.Proper reg s)
    (hstep : s.step reg call = some s') : s'.Sound reg := by
  obtain ⟨⟨r, T⟩, hspec⟩ := Option.isSome_iff_exists.mp hcall
  obtain ⟨r', s'', hperform, hsound, -⟩ := h.perform hspec
  rw [Files.step, hperform, Option.map_some, Option.some.injEq] at hstep
  exact hstep ▸ hsound

/-- The pool at the start of `main`, with the standard streams on the given devices. -/
def Boots (reg : Registry δ) (boot : Files δ) : Prop :=
  ∃ null stdoutDev stdinDev stderrDev driver,
    (Files.init null).altIoRedirect reg stdoutDev stdinDev stderrDev driver = some boot

lemma Boots.sound {boot : Files δ} (h : Boots reg boot) : boot.Sound reg ∧ boot.table.Unlocked := by
  obtain ⟨null, stdoutDev, stdinDev, stderrDev, driver, hredirect⟩ := h
  obtain ⟨boot', hboot', hsound⟩ := Files.sound_boot reg null stdoutDev stdinDev stderrDev driver
  rw [hredirect, Option.some.injEq] at hboot'
  rwa [hboot']

/-- A program that uses only descriptors which it has opened never leaves the pool, and gets of each
call what the table says, but for a lock on a device that is shared only with the highest
descriptor ever allocated: the pool grants it. -/
theorem calls_refine_table {boot s : Files δ} (hboot : Boots reg boot) {calls : List Call}
    (hcalls : Along (Files.step reg) (fun s call => call.Proper reg s) boot calls)
    (hrun : run (Files.step reg) boot calls = some s) {call : Call} {r : Result} {T : Table δ}
    (hcall : s.table.perform reg call = some (r, T)) :
    ∃ r' s', s.perform reg call = some (r', s') ∧
      (¬s.Misses call → r' = r ∧ s'.table = T) ∧
      (s.Misses call → r = .error EACCES ∧ r' = .ok 0 ∧ ∃ fd D, s.table fd = some D ∧
        s.table.Shared fd D.dev ∧
          s'.table = Function.update s.table fd (some { D with locked := true })) := by
  have hsound : s.Sound reg :=
    invariant_along (fun _ _ _ hproper hinv hstep => hinv.step hproper hstep) hcalls hboot.sound.1 hrun
  obtain ⟨r', s', hperform, -, hsame, hmiss⟩ := hsound.perform hcall
  refine ⟨r', s', hperform, hsame, ?_⟩
  intro hyes
  obtain ⟨hr, -, hr', hlocked⟩ := hmiss hyes
  exact ⟨hr, hr', hlocked⟩

end Runs

/-- The devices in the order of their list. -/
inductive Device where
  | debug
  | null
  deriving DecidableEq

def devDebug : CString where
  bytes := [47, 100, 101, 118, 47, 68, 69, 66, 85, 71]
  nul_free := by decide

def devNull : CString where
  bytes := [47, 100, 101, 118, 47, 110, 117, 108, 108]
  nul_free := by decide

def bspDevices : Registry Device where
  dev
    | .debug => ⟨devDebug, false, true, true, true, true⟩
    | .null => ⟨devNull, false, false, false, true, false⟩
  altDevList := [.debug, .null]
  altFsList := []
  disjoint _ _ := List.not_mem_nil

def bspBoot : Files Device :=
  ((Files.init .null).altIoRedirect bspDevices devDebug devDebug devDebug (0, 0, 0)).getD
    (Files.init .null)

lemma boots_bspBoot : Boots bspDevices bspBoot :=
  ⟨.null, devDebug, devDebug, devDebug, (0, 0, 0), rfl⟩

def openNull : Call := .open devNull O_WRONLY 0

def lockNull : Call := .on 3 (.ioctl TIOCEXCL 0)

/-- The descriptors 3 and 4 are both on `/dev/null`, and 3 is given a lock all the same. -/
theorem calls_refine_table_lockNull : ∃ s,
    run (Files.step bspDevices) bspBoot [openNull, openNull] = some s ∧
    s.table.Shared ⟨3, by decide⟩ .null ∧
    s.table.perform bspDevices lockNull = some (.error EACCES, s.table) ∧
    ∃ s', s.perform bspDevices lockNull = some (.ok 0, s') := by
  have hcalls : Along (Files.step bspDevices) (fun s call => call.Proper bspDevices s) bspBoot
      [openNull, openNull] := along_cons rfl rfl (along_cons rfl rfl trivial)
  refine ⟨_, rfl, by decide, rfl, ?_⟩
  obtain ⟨r', s', hperform, -, hmisses⟩ := calls_refine_table boots_bspBoot hcalls rfl
    (rfl : Table.perform _ bspDevices lockNull = some (.error EACCES, _))
  rw [(hmisses (by decide)).2.1] at hperform
  exact ⟨s', hperform⟩

end FileDescriptors

end VecadNiosv
