import VecadNiosv.Library.PrefixCode

/-!
# The UART echo of project 3

`main` stores what `getchar` returns in a `char`, which is unsigned on RISC-V, and prints a record
of it. The error value of `getchar` becomes the byte `0xFF` there and gets a record as well. The
records form a prefix code, so the transcript tells exactly the values of `c`, and these are the
bytes received as long as no call has failed.
-/

namespace VecadNiosv

namespace UartEcho

open PrefixCode

/-- What a call of `getchar` returns. It is `EOF` when the read beneath it fails. -/
inductive GetcharResult where
  | byte (b : BitVec 8)
  | eof
  deriving DecidableEq, Repr

namespace GetcharResult

/-- The returned `int`, where `EOF` is `-1`. -/
def toInt : GetcharResult → BitVec 32
  | byte b => b.setWidth 32
  | eof => -1#32

def toByte? : GetcharResult → Option (BitVec 8)
  | byte b => some b
  | eof => none

end GetcharResult

def asciiBytes (s : String) : List (BitVec 8) := s.toList.map fun ch => BitVec.ofNat 8 ch.toNat

/-- The bytes for a format and its `int` arguments, with the two conversions that are in use. -/
def vprintf : List Char → List (BitVec 32) → List (BitVec 8)
  | '%' :: 'c' :: format, arg :: args => arg.setWidth 8 :: vprintf format args
  | '%' :: 'd' :: format, arg :: args => asciiBytes (toString arg.toInt) ++ vprintf format args
  | ch :: format, args => BitVec.ofNat 8 ch.toNat :: vprintf format args
  | [], _ => []

def printf (format : String) (args : List (BitVec 32)) : List (BitVec 8) :=
  vprintf format.toList args

/-- What is printed before the loop. -/
def banner : List (BitVec 8) := printf "UART Read Test\n" [] ++ printf "Type a character: " []

/-- What is printed by the turn in which `getchar` returns a result. The `char` is promoted to
`int` as an argument. -/
def echoTurn (getchar : GetcharResult) : List (BitVec 8) :=
  let c : BitVec 8 := getchar.toInt.setWidth 8
  printf "\nReceived: %c\n" [c.setWidth 32] ++
    printf "ASCII: %d\n" [c.setWidth 32] ++
    printf "Type another character: " []

/-- The transcript of `main` when the calls of `getchar` so far have returned these results. -/
def main (results : List GetcharResult) : List (BitVec 8) := banner ++ results.flatMap echoTurn

/-- The record of a byte, with its decimal value. -/
def record (b : BitVec 8) : List (BitVec 8) :=
  asciiBytes "\nReceived: " ++ [b] ++ asciiBytes "\nASCII: " ++ asciiBytes (toString b.toNat) ++
    asciiBytes "\nType another character: "

/-- The bytes among the results. -/
def received (results : List GetcharResult) : List (BitVec 8) :=
  results.filterMap GetcharResult.toByte?

/-- After the banner comes one record for each byte received, and nothing else. -/
def Faithful (results : List GetcharResult) : Prop :=
  main results = banner ++ (received results).flatMap record

instance (results : List GetcharResult) : Decidable (Faithful results) :=
  inferInstanceAs (Decidable (main results = banner ++ (received results).flatMap record))

/-- The value of `c` in a turn. -/
def charOf (r : GetcharResult) : BitVec 8 := r.toInt.setWidth 8

lemma charOf_byte (b : BitVec 8) : charOf (.byte b) = b := by
  rw [charOf, GetcharResult.toInt, BitVec.setWidth_setWidth_of_le b (by decide),
    BitVec.setWidth_eq]

lemma toInt_promoted (c : BitVec 8) : (c.setWidth 32).toInt = c.toNat := by
  rw [BitVec.toInt_setWidth, Int.bmod_eq_of_le] <;> omega

lemma record_eq (b : BitVec 8) :
    record b = asciiBytes "\nReceived: " ++ b :: (asciiBytes "\nASCII: " ++
      asciiBytes (toString b.toNat) ++ asciiBytes "\nType another character: ") := by
  rw [record]
  simp only [List.append_assoc, List.cons_append, List.nil_append]

lemma printf_received (arg : BitVec 32) : printf "\nReceived: %c\n" [arg] =
    asciiBytes "\nReceived: " ++ [arg.setWidth 8] ++ asciiBytes "\n" := rfl

lemma printf_ascii (arg : BitVec 32) : printf "ASCII: %d\n" [arg] =
    asciiBytes "ASCII: " ++ asciiBytes (toString arg.toInt) ++ asciiBytes "\n" := rfl

/-- A turn prints the record of `c`, whatever `getchar` has returned. -/
lemma echoTurn_eq_record (r : GetcharResult) : echoTurn r = record (charOf r) := by
  have hchar : ((charOf r).setWidth 32).setWidth 8 = charOf r := by
    rw [BitVec.setWidth_setWidth_of_le _ (by decide), BitVec.setWidth_eq]
  have hascii : asciiBytes "\nASCII: " = asciiBytes "\n" ++ asciiBytes "ASCII: " := rfl
  have hprompt : asciiBytes "\nType another character: " =
      asciiBytes "\n" ++ printf "Type another character: " [] := rfl
  have hturn : echoTurn r = printf "\nReceived: %c\n" [(charOf r).setWidth 32] ++
      printf "ASCII: %d\n" [(charOf r).setWidth 32] ++ printf "Type another character: " [] := rfl
  have hdecimal : toString ((charOf r).toNat : ℤ) = toString (charOf r).toNat := rfl
  rw [hturn, printf_received, printf_ascii, hchar, toInt_promoted, hdecimal, record, hascii,
    hprompt]
  simp only [List.append_assoc]

lemma main_eq (results : List GetcharResult) :
    main results = banner ++ (results.map charOf).flatMap record := by
  rw [main, List.flatMap_map]
  congr 1
  apply List.flatMap_congr
  intro r _
  exact echoTurn_eq_record r

lemma isPrefixCode_record : IsPrefixCode record :=
  IsPrefixCode.of_header (fun _ _ h => h) record_eq

/-- The transcript determines the values of `c`, even when these spell parts of records. -/
lemma charOf_eq_of_main_eq {results results' : List GetcharResult}
    (h : main results = main results') : results.map charOf = results'.map charOf := by
  rw [main_eq, main_eq] at h
  exact isPrefixCode_record.flatMap_injective (List.append_cancel_left h)

lemma map_charOf_eq_received_iff (results : List GetcharResult) :
    results.map charOf = received results ↔ .eof ∉ results := by
  constructor
  · intro h heof
    have hlen : (received results).length = results.length := by
      rw [← h, List.length_map]
    exact absurd (List.filterMap_length_eq_length.mp hlen _ heof) (by decide)
  · intro h
    induction results with
    | nil => rfl
    | cons r results ih =>
      obtain ⟨hr, hresults⟩ := not_or.mp (List.mem_cons.not.mp h)
      cases r with
      | byte b => rw [List.map_cons, charOf_byte, ih hresults]; rfl
      | eof => exact absurd rfl hr

lemma faithful_iff (results : List GetcharResult) : Faithful results ↔ .eof ∉ results := by
  rw [Faithful, main_eq, List.append_right_inj, ← map_charOf_eq_received_iff]
  exact isPrefixCode_record.flatMap_injective.eq_iff

/-- The transcripts are faithful, and tell the received bytes apart, exactly when no call of
`getchar` has failed. -/
theorem main_faithful_iff (results results' : List GetcharResult) :
    (Faithful results ∧ Faithful results' ∧
        (main results = main results' → received results = received results')) ↔
      .eof ∉ results ∧ .eof ∉ results' := by
  constructor
  · rintro ⟨h, h', -⟩
    exact ⟨(faithful_iff results).mp h, (faithful_iff results').mp h'⟩
  · rintro ⟨h, h'⟩
    refine ⟨(faithful_iff results).mpr h, (faithful_iff results').mpr h', ?_⟩
    intro hmain
    rw [← (map_charOf_eq_received_iff results).mpr h, ← (map_charOf_eq_received_iff results').mpr h']
    exact charOf_eq_of_main_eq hmain

/-- A failed call gets the record of the byte `0xFF`, so the transcript is that of this byte. -/
theorem not_faithful_eof : ¬Faithful [.eof] ∧ main [.eof] = main [.byte 0xFF#8] ∧
    received [.eof] ≠ received [.byte 0xFF#8] := by
  refine ⟨by decide, rfl, by decide⟩

end UartEcho

end VecadNiosv
