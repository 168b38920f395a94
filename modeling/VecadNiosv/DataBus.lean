import Mathlib

/-!
# Stores on the data bus

The programs reach the peripherals through the macros of `io.h`, which every project shares.
-/

namespace VecadNiosv

structure Store where
  address : BitVec 32
  data : BitVec 32
  deriving DecidableEq, Repr

/-- `IOWR(BASE, REGNUM, DATA)` of `io.h`, at the native address of the register. -/
def iowr (base : BitVec 32) (regnum : ℕ) (data : BitVec 32) : Store :=
  ⟨base + BitVec.ofNat 32 (regnum * (32 / 8)), data⟩

def iowrAlteraAvalonPioData (base data : BitVec 32) : Store :=
  iowr base 0 data

end VecadNiosv
