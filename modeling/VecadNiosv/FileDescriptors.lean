import VecadNiosv.Library.EventRun

/-!
# The file descriptors

The pool of 32 descriptors behind `open`, `close`, `ioctl`, `fcntl`, `read` and `write`, with the
lookup of devices and file systems by name. What a callback of a driver returns is part of the
call. A call that would leave the pool or follow a null device has no result.
-/

namespace VecadNiosv

namespace FileDescriptors

open EventRun

structure CString where
  bytes : List UInt8
  nul_free : (0 : UInt8) ∉ bytes

/-- The byte at an index, up to the terminating null. -/
def CString.at (s : CString) (i : ℕ) : UInt8 := s.bytes.getD i 0

def MAX_STRING_LENGTH : ℕ := 1000

def slash : UInt8 := 47

/-- The inner loop of `alt_find_dev`, which leaves `len` where the names part or one of them ends. -/
def sameLength (name devName : CString) : ℕ → ℕ → ℕ
  | 0, len => len
  | fuel + 1, len =>
    if name.at len ≠ 0 ∧ devName.at len ≠ 0 then
      if devName.at len ≠ name.at len then len else sameLength name devName fuel (len + 1)
    else len

def devMatches (name devName : CString) : Bool :=
  let len := sameLength name devName MAX_STRING_LENGTH 0
  name.at len == 0 && devName.at len == 0

/-- The inner loop of `alt_find_file`, which skips a slash at the end of the mount point. -/
def fileMatches (name devName : CString) : ℕ → ℕ → Bool
  | 0, _ => false
  | fuel + 1, len =>
    if (devName.at len = slash ∧ devName.at (len + 1) = 0) ∨ devName.at len = 0 then
      name.at len == slash || name.at len == 0
    else if devName.at len ≠ name.at len then false
    else fileMatches name devName fuel (len + 1)

/-- The name of a device and which of its callbacks are not null. -/
structure AltDev where
  name : CString
  hasOpen : Bool
  hasClose : Bool
  hasRead : Bool
  hasWrite : Bool
  hasIoctl : Bool

/-- The registered devices and file systems. A device is on one list, by its only link. -/
structure Registry (δ : Type) where
  dev : δ → AltDev
  altDevList : List δ
  altFsList : List δ
  disjoint : ∀ d ∈ altDevList, d ∉ altFsList

def ALT_MAX_FD : ℕ := 32

def ALT_FD_EXCL : BitVec 32 := 0x80000000#32

def ALT_FD_DEV : BitVec 32 := 0x40000000#32

def ALT_FD_FLAGS_MASK : BitVec 32 := ALT_FD_EXCL ||| ALT_FD_DEV

def TIOCEXCL : BitVec 32 := 0x740d#32

def TIOCNXCL : BitVec 32 := 0x740e#32

/-! The values of the toolchain's `fcntl.h` and `errno.h`. -/

def O_RDONLY : BitVec 32 := 0#32

def O_WRONLY : BitVec 32 := 1#32

def O_ACCMODE : BitVec 32 := 3#32

def O_APPEND : BitVec 32 := 8#32

def O_NONBLOCK : BitVec 32 := 0x4000#32

def F_GETFL : ℤ := 3

def F_SETFL : ℤ := 4

def ALT_FCNTL_FLAGS_MASK : BitVec 32 := O_APPEND ||| O_NONBLOCK

def EACCES : ℤ := 13

def ENODEV : ℤ := 19

def EINVAL : ℤ := 22

def EMFILE : ℤ := 24

def ENOTTY : ℤ := 25

def EBADFD : ℤ := 81

structure AltFd (δ : Type) where
  dev : Option δ
  fdFlags : BitVec 32
  deriving DecidableEq

/-- `alt_fd_list` and `alt_max_fd`. -/
structure Files (δ : Type) where
  altFdList : Fin ALT_MAX_FD → AltFd δ
  altMaxFd : ℤ

/-- What a call returns, or the value that it leaves in `errno`. -/
abbrev Result := Except ℤ ℤ

/-- A loop over the pool that stops at the first descriptor that meets the condition. -/
def scan (found : Fin ALT_MAX_FD → Bool) (bound : ℕ) : Option Bool :=
  if (List.finRange ALT_MAX_FD).any (fun i => decide (i.val < bound) && found i) then some true
  else if bound ≤ ALT_MAX_FD then some false
  else none

def entry (fildes : ℤ) : Option (Fin ALT_MAX_FD) :=
  if h : fildes.toNat < ALT_MAX_FD then some ⟨fildes.toNat, h⟩ else none

namespace Registry

variable {δ : Type} (reg : Registry δ)

def altFindDev (name : CString) : Option δ :=
  reg.altDevList.find? fun d => devMatches name (reg.dev d).name

def altFindFile (name : CString) : Option δ :=
  reg.altFsList.find? fun d => fileMatches name (reg.dev d).name MAX_STRING_LENGTH 0

/-- The device or file system that `open` finds, and whether it is a file system. -/
def find (name : CString) : Option (δ × Bool) :=
  match reg.altFindDev name with
  | some d => some (d, false)
  | none => (reg.altFindFile name).map fun d => (d, true)

end Registry

namespace Files

variable {δ : Type} [DecidableEq δ]

def setFlags (s : Files δ) (fd : Fin ALT_MAX_FD) (fdFlags : BitVec 32) : Files δ :=
  { s with altFdList := Function.update s.altFdList fd ⟨(s.altFdList fd).dev, fdFlags⟩ }

def altGetFd (s : Files δ) (dev : δ) : Option (Fin ALT_MAX_FD) × Files δ :=
  match (List.finRange ALT_MAX_FD).find? fun i => (s.altFdList i).dev.isNone with
  | some i => (some i, {
      altFdList := Function.update s.altFdList i ⟨some dev, (s.altFdList i).fdFlags⟩
      altMaxFd := if (i : ℤ) > s.altMaxFd then i else s.altMaxFd })
  | none => (none, s)

def altReleaseFd (s : Files δ) (fd : Fin ALT_MAX_FD) : Files δ :=
  if fd.val > 2 then { s with altFdList := Function.update s.altFdList fd ⟨none, 0#32⟩ } else s

/-- The loop stops before the descriptor `alt_max_fd`. -/
def altFdLock (s : Files δ) (fd : Fin ALT_MAX_FD) : Option (ℤ × Files δ) :=
  (scan (fun i => decide (i ≠ fd) && (s.altFdList i).dev == (s.altFdList fd).dev)
    s.altMaxFd.toNat).map fun found =>
      if found then (-EACCES, s)
      else (0, s.setFlags fd ((s.altFdList fd).fdFlags ||| ALT_FD_EXCL))

def altFdUnlock (s : Files δ) (fd : Fin ALT_MAX_FD) : ℤ × Files δ :=
  (0, s.setFlags fd ((s.altFdList fd).fdFlags &&& ~~~ALT_FD_EXCL))

/-- The index of the loop is unsigned, and so is its comparison with `alt_max_fd`. -/
def altFileLocked (s : Files δ) (fd : Fin ALT_MAX_FD) : Option (ℤ × Files δ) :=
  let s' := s.setFlags fd ((s.altFdList fd).fdFlags ||| ALT_FD_DEV)
  (scan (fun i => (s'.altFdList i).dev == (s'.altFdList fd).dev &&
      (s'.altFdList i).fdFlags &&& ALT_FD_EXCL != 0#32 && decide (i ≠ fd))
    ((s.altMaxFd % 2 ^ 32).toNat + 1)).map fun found =>
      if found then (-EACCES, s') else (0, s')

/-- The end of `open`. -/
def opened (s : Files δ) (index : Fin ALT_MAX_FD) (status : ℤ) :
    Except ℤ (Fin ALT_MAX_FD) × Files δ :=
  if status < 0 then (.error (-status), s.altReleaseFd index) else (.ok index, s)

def altOpen (reg : Registry δ) (s : Files δ) (file : CString) (flags : BitVec 32) (driver : ℤ) :
    Option (Except ℤ (Fin ALT_MAX_FD) × Files δ) :=
  match reg.find file with
  | none => some (.error ENODEV, s)
  | some (dev, isafs) =>
    let callback := if (reg.dev dev).hasOpen then driver else 0
    match s.altGetFd dev with
    | (none, s) => some (.error EMFILE, s)
    | (some index, s) =>
      let s := s.setFlags index (flags &&& ~~~ALT_FD_FLAGS_MASK)
      if isafs then some (s.opened index callback)
      else (s.altFileLocked index).map fun p =>
        p.2.opened index (if p.1 ≥ 0 then callback else p.1)

def altClose (reg : Registry δ) (s : Files δ) (fildes driver : ℤ) : Option (Result × Files δ) :=
  if fildes < 0 then some (.error EBADFD, s)
  else do
    let fd ← entry fildes
    let dev ← (s.altFdList fd).dev
    let rval := if (reg.dev dev).hasClose then driver else 0
    some (if rval < 0 then .error (-rval) else .ok 0, s.altReleaseFd fd)

/-- `ioctl` returns the error itself. -/
def ioctlDone (p : ℤ × Files δ) : Result × Files δ :=
  (if p.1 < 0 then .error (-p.1) else .ok p.1, p.2)

def altIoctl (reg : Registry δ) (s : Files δ) (file : ℤ) (req : BitVec 32) (driver : ℤ) :
    Option (Result × Files δ) :=
  if file < 0 then some (ioctlDone (-EBADFD, s))
  else do
    let fd ← entry file
    if (s.altFdList fd).fdFlags &&& ALT_FD_DEV ≠ 0#32 ∧ req = TIOCEXCL then
      (s.altFdLock fd).map ioctlDone
    else if (s.altFdList fd).fdFlags &&& ALT_FD_DEV ≠ 0#32 ∧ req = TIOCNXCL then
      some (ioctlDone (s.altFdUnlock fd))
    else
      let dev ← (s.altFdList fd).dev
      some (ioctlDone (if (reg.dev dev).hasIoctl then driver else -ENOTTY, s))

def altFcntl (s : Files δ) (file cmd : ℤ) (flags : BitVec 32) : Option (Result × Files δ) :=
  if file < 0 then some (.error EBADFD, s)
  else do
    let fd ← entry file
    if cmd = F_GETFL then
      some (.ok ((s.altFdList fd).fdFlags &&& ~~~ALT_FD_FLAGS_MASK).toInt, s)
    else if cmd = F_SETFL then
      some (.ok 0, s.setFlags fd (((s.altFdList fd).fdFlags &&& ~~~ALT_FCNTL_FLAGS_MASK) |||
        (flags &&& ALT_FCNTL_FLAGS_MASK)))
    else some (.error EINVAL, s)

/-- The common body of `read` and `write`, which refuse a descriptor of the other mode. -/
def transfer (has : AltDev → Bool) (refused : BitVec 32) (reg : Registry δ) (s : Files δ)
    (file driver : ℤ) : Option (Result × Files δ) :=
  if file < 0 then some (.error EBADFD, s)
  else do
    let fd ← entry file
    if (s.altFdList fd).fdFlags &&& O_ACCMODE = refused then some (.error EACCES, s)
    else
      let dev ← (s.altFdList fd).dev
      if has (reg.dev dev) then some (if driver < 0 then .error (-driver) else .ok driver, s)
      else some (.error EACCES, s)

def altRead (reg : Registry δ) (s : Files δ) (file driver : ℤ) : Option (Result × Files δ) :=
  transfer AltDev.hasRead O_WRONLY reg s file driver

def altWrite (reg : Registry δ) (s : Files δ) (file driver : ℤ) : Option (Result × Files δ) :=
  transfer AltDev.hasWrite O_RDONLY reg s file driver

/-- `alt_open_fd`, which moves a new descriptor to a given place. -/
def altOpenFd (reg : Registry δ) (s : Files δ) (fd : Fin ALT_MAX_FD) (name : CString)
    (flags : BitVec 32) (driver : ℤ) : Option (Files δ) :=
  (s.altOpen reg name flags driver).map fun p =>
    match p with
    | (.ok old, s) =>
      { s with altFdList := Function.update s.altFdList fd (s.altFdList old) }.altReleaseFd old
    | (.error _, s) => s

end Files

/-! ### What the names mean -/

namespace CString

lemma at_eq_zero_iff (s : CString) (i : ℕ) : s.at i = 0 ↔ s.bytes.drop i = [] := by
  rw [List.drop_eq_nil_iff, CString.at]
  constructor
  · intro hzero
    by_contra hlt
    rw [List.getD_eq_getElem s.bytes 0 (not_le.mp hlt)] at hzero
    exact s.nul_free (hzero ▸ List.getElem_mem (not_le.mp hlt))
  · intro hle
    exact List.getD_eq_default s.bytes 0 hle

lemma drop_eq_cons {s : CString} {i : ℕ} (h : s.at i ≠ 0) :
    s.bytes.drop i = s.at i :: s.bytes.drop (i + 1) := by
  have hlt : i < s.bytes.length := by
    rw [ne_eq, at_eq_zero_iff, List.drop_eq_nil_iff] at h
    exact not_le.mp h
  rw [List.drop_eq_getElem_cons hlt, CString.at, List.getD_eq_getElem s.bytes 0 hlt]

lemma at_of_drop_eq_cons {s : CString} {i : ℕ} {c : UInt8} {rest : List UInt8}
    (h : s.bytes.drop i = c :: rest) : s.at i = c := by
  have hne : s.at i ≠ 0 := by
    rw [ne_eq, at_eq_zero_iff, h]
    exact List.cons_ne_nil c rest
  rw [drop_eq_cons hne] at h
  exact (List.cons.inj h).1

end CString

lemma sameLength_ends_iff (name devName : CString) (fuel len : ℕ) :
    (name.at (sameLength name devName fuel len) = 0 ∧
      devName.at (sameLength name devName fuel len) = 0) ↔
    name.bytes.drop len = devName.bytes.drop len ∧ (name.bytes.drop len).length ≤ fuel := by
  induction fuel generalizing len with
  | zero =>
    rw [sameLength, CString.at_eq_zero_iff, CString.at_eq_zero_iff, Nat.le_zero,
      List.length_eq_zero_iff]
    constructor
    · rintro ⟨hname, hdev⟩
      exact ⟨hname.trans hdev.symm, hname⟩
    · rintro ⟨heq, hname⟩
      exact ⟨hname, heq ▸ hname⟩
  | succ fuel ih =>
    rw [sameLength]
    by_cases hboth : name.at len ≠ 0 ∧ devName.at len ≠ 0
    · rw [if_pos hboth, CString.drop_eq_cons hboth.1, CString.drop_eq_cons hboth.2]
      by_cases hpart : devName.at len ≠ name.at len
      · rw [if_pos hpart]
        constructor
        · intro hends
          exact absurd hends.1 hboth.1
        · intro hsame
          exact absurd (List.cons.inj hsame.1).1.symm hpart
      · rw [if_neg hpart, ih, not_not.mp hpart, List.cons_inj_right, List.length_cons,
          Nat.add_le_add_iff_right]
    · rw [if_neg hboth, CString.at_eq_zero_iff, CString.at_eq_zero_iff]
      rw [ne_eq, ne_eq, CString.at_eq_zero_iff, CString.at_eq_zero_iff] at hboth
      constructor
      · rintro ⟨hname, hdev⟩
        rw [hname, hdev]
        exact ⟨rfl, Nat.zero_le _⟩
      · rintro ⟨heq, -⟩
        rw [heq, and_self, not_not] at hboth
        exact ⟨heq.trans hboth, hboth⟩

/-- Names match when they are equal and not longer than the loop goes. -/
lemma devMatches_iff (name devName : CString) : devMatches name devName = true ↔
    name.bytes = devName.bytes ∧ name.bytes.length ≤ MAX_STRING_LENGTH := by
  have hends := sameLength_ends_iff name devName MAX_STRING_LENGTH 0
  rw [List.drop_zero, List.drop_zero] at hends
  rw [devMatches, Bool.and_eq_true, beq_iff_eq, beq_iff_eq, hends]

/-- The mount point without a slash at its end. -/
def mountPoint (devName : List UInt8) : List UInt8 :=
  if devName.getLast? = some slash then devName.dropLast else devName

/-- The name is the mount point, or the mount point followed by a slash and the rest of a path. -/
def Owns (devName name : List UInt8) : Prop :=
  (mountPoint devName = name ∨ ∃ rest, name = mountPoint devName ++ slash :: rest) ∧
    (mountPoint devName).length < MAX_STRING_LENGTH

lemma mountPoint_cons {c : UInt8} {devName : List UInt8} (h : ¬(c = slash ∧ devName = [])) :
    mountPoint (c :: devName) = c :: mountPoint devName := by
  cases devName with
  | nil =>
    have hc : c ≠ slash := fun heq => h ⟨heq, rfl⟩
    rw [mountPoint, List.getLast?_singleton, if_neg (by simpa using hc)]
    rfl
  | cons c' rest =>
    rw [mountPoint, mountPoint, List.getLast?_cons_cons]
    split_ifs with hlast
    · rw [List.dropLast_cons_cons]
    · rfl

lemma fileMatches_iff (name devName : CString) (fuel len : ℕ) :
    fileMatches name devName fuel len = true ↔
      (mountPoint (devName.bytes.drop len) = name.bytes.drop len ∨
        ∃ rest, name.bytes.drop len = mountPoint (devName.bytes.drop len) ++ slash :: rest) ∧
      (mountPoint (devName.bytes.drop len)).length < fuel := by
  induction fuel generalizing len with
  | zero => simp [fileMatches]
  | succ fuel ih =>
    rw [fileMatches]
    by_cases hend : (devName.at len = slash ∧ devName.at (len + 1) = 0) ∨ devName.at len = 0
    · have hmount : mountPoint (devName.bytes.drop len) = [] := by
        rcases hend with ⟨hslash, hlast⟩ | hempty
        · rw [CString.drop_eq_cons (by rw [hslash]; decide), hslash,
            (devName.at_eq_zero_iff (len + 1)).mp hlast]
          rfl
        · rw [(devName.at_eq_zero_iff len).mp hempty]
          rfl
      rw [if_pos hend, hmount, List.length_nil, and_iff_left (Nat.succ_pos fuel), Bool.or_eq_true,
        beq_iff_eq, beq_iff_eq]
      constructor
      · rintro (hslash | hempty)
        · rw [CString.drop_eq_cons (by rw [hslash]; decide), hslash]
          exact Or.inr ⟨_, rfl⟩
        · exact Or.inl ((name.at_eq_zero_iff len).mp hempty).symm
      · rintro (hempty | ⟨rest, hrest⟩)
        · exact Or.inr ((name.at_eq_zero_iff len).mpr hempty.symm)
        · exact Or.inl (CString.at_of_drop_eq_cons hrest)
    · obtain ⟨hslash, hne⟩ := not_or.mp hend
      rw [CString.at_eq_zero_iff] at hslash
      rw [if_neg hend, CString.drop_eq_cons hne, mountPoint_cons hslash, List.length_cons,
        Nat.add_lt_add_iff_right]
      by_cases hpart : devName.at len ≠ name.at len
      · rw [if_pos hpart]
        constructor
        · intro hfalse
          exact absurd hfalse (by simp)
        · rintro ⟨hname | ⟨rest, hname⟩, -⟩
          · exact absurd (CString.at_of_drop_eq_cons hname.symm).symm hpart
          · exact absurd (CString.at_of_drop_eq_cons hname).symm hpart
      · have hsame := not_not.mp hpart
        have hname := CString.drop_eq_cons (hsame ▸ hne : name.at len ≠ 0)
        rw [if_neg hpart, ih, hname, ← hsame]
        simp only [List.cons_append, List.cons.injEq, true_and]

/-- The first element of a list that has the property. -/
def FirstOn {α : Type*} (l : List α) (P : α → Prop) (a : α) : Prop :=
  P a ∧ ∃ before after, l = before ++ a :: after ∧ ∀ b ∈ before, ¬P b

lemma firstOn_of_find? {α : Type*} {l : List α} {p : α → Bool} {P : α → Prop}
    (hp : ∀ a, p a = true ↔ P a) {a : α} (h : l.find? p = some a) : FirstOn l P a := by
  obtain ⟨ha, before, after, hl, hbefore⟩ := List.find?_eq_some_iff_append.mp h
  refine ⟨(hp a).mp ha, before, after, hl, ?_⟩
  intro b hb hPb
  have hnot := hbefore b hb
  rw [(hp b).mpr hPb] at hnot
  exact absurd hnot (by simp)

lemma forall_not_of_find? {α : Type*} {l : List α} {p : α → Bool} {P : α → Prop}
    (hp : ∀ a, p a = true ↔ P a) (h : l.find? p = none) : ∀ b ∈ l, ¬P b := by
  intro b hb hPb
  exact List.find?_eq_none.mp h b hb ((hp b).mpr hPb)

namespace Registry

variable {δ : Type} (reg : Registry δ)

def Named (name : CString) (d : δ) : Prop :=
  name.bytes = (reg.dev d).name.bytes ∧ name.bytes.length ≤ MAX_STRING_LENGTH

def OwnsFile (name : CString) (d : δ) : Prop := Owns (reg.dev d).name.bytes name.bytes

lemma mem_altDevList_of_find {name : CString} {d : δ} (h : reg.find name = some (d, false)) :
    d ∈ reg.altDevList := by
  rw [find] at h
  cases hfirst : reg.altFindDev name with
  | some e =>
    rw [hfirst, Option.some.injEq, Prod.mk.injEq] at h
    rw [← h.1]
    exact List.mem_of_find?_eq_some hfirst
  | none =>
    rw [hfirst, Option.map_eq_some_iff] at h
    obtain ⟨e, -, he⟩ := h
    exact absurd (Prod.mk.inj he).2 (by decide)

lemma mem_altFsList_of_find {name : CString} {d : δ} (h : reg.find name = some (d, true)) :
    d ∈ reg.altFsList := by
  rw [find] at h
  cases hfirst : reg.altFindDev name with
  | some e =>
    rw [hfirst, Option.some.injEq, Prod.mk.injEq] at h
    exact absurd h.2 (by decide)
  | none =>
    rw [hfirst, Option.map_eq_some_iff] at h
    obtain ⟨e, he, heq⟩ := h
    rw [← (Prod.mk.inj heq).1]
    exact List.mem_of_find?_eq_some he

/-- `open` finds the first device of the name or, when there is none, the first file system whose
mount point the name is or lies under. -/
theorem find_spec (name : CString) :
    match reg.find name with
    | some (d, false) => FirstOn reg.altDevList (reg.Named name) d
    | some (d, true) => (∀ e ∈ reg.altDevList, ¬reg.Named name e) ∧
        FirstOn reg.altFsList (reg.OwnsFile name) d
    | none => (∀ e ∈ reg.altDevList, ¬reg.Named name e) ∧
        ∀ e ∈ reg.altFsList, ¬reg.OwnsFile name e := by
  have hdev : ∀ d, devMatches name (reg.dev d).name = true ↔ reg.Named name d :=
    fun d => devMatches_iff name (reg.dev d).name
  have hfile : ∀ d, fileMatches name (reg.dev d).name MAX_STRING_LENGTH 0 = true ↔
      reg.OwnsFile name d := by
    intro d
    rw [fileMatches_iff, List.drop_zero, List.drop_zero]
    exact Iff.rfl
  rw [find]
  cases hfirst : reg.altFindDev name with
  | some d => exact firstOn_of_find? hdev hfirst
  | none =>
    have hnone := forall_not_of_find? hdev hfirst
    cases hsecond : reg.altFindFile name with
    | some d => exact ⟨hnone, firstOn_of_find? hfile hsecond⟩
    | none => exact ⟨hnone, forall_not_of_find? hfile hsecond⟩

end Registry

end FileDescriptors

end VecadNiosv
