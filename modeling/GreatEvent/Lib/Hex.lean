import GreatEvent.Lib.Decimal

/-!
# Numbers printed into a field of fixed width

`printf`'s `%0wx` and `%0wd` print at least `w` characters, and more when the
number needs more: the width is no limit. `hexValue` reads hexadecimal digits
back (`hexValue_printHex`).
-/

namespace Lib

/-- The `0` flag of `printf`: filled up with zeros in front. -/
def zeroPad (width : Nat) (digits : List UInt8) : List UInt8 :=
  List.replicate (width - digits.length) 48 ++ digits

/-- The hexadecimal digits of a number, in lower case. -/
def hexBytes (n : Nat) : List UInt8 := (Nat.toDigits 16 n).map fun c => UInt8.ofNat c.toNat

/-- `%0wx` of an `int`: a negative one is printed as the `unsigned int` of its bits. -/
def printHex (width : Nat) (i : Int) : List UInt8 := zeroPad width (hexBytes (i % 2 ^ 32).toNat)

/-- `%0wd`: the sign counts. -/
def printPadded (width : Nat) (i : Int) : List UInt8 :=
  if i < 0 then 45 :: zeroPad (width - 1) (digitBytes i.natAbs) else zeroPad width (digitBytes i.natAbs)

/-- The value of a hexadecimal digit. -/
def hexDigit? (b : UInt8) : Option Nat :=
  if 48 ≤ b ∧ b ≤ 57 then some (b.toNat - 48)
  else if 97 ≤ b ∧ b ≤ 102 then some (b.toNat - 87)
  else if 65 ≤ b ∧ b ≤ 70 then some (b.toNat - 55)
  else none

/-- The next digit of a number being read. -/
def hexStep (n : Option Nat) (b : UInt8) : Option Nat := do return 16 * (← n) + (← hexDigit? b)

/-- The number that a string of hexadecimal digits denotes. -/
def hexValue (s : List UInt8) : Option Nat := s.foldl hexStep (some 0)

theorem length_zeroPad (width : Nat) (digits : List UInt8) :
    (zeroPad width digits).length = max width digits.length := by
  rw [zeroPad, List.length_append, List.length_replicate]
  omega

theorem length_hexBytes_le_iff {n k : Nat} (pos : 0 < k) : (hexBytes n).length ≤ k ↔ n < 16 ^ k := by
  rw [hexBytes, List.length_map]
  exact Nat.length_toDigits_le_iff (by decide) pos

/-- A number fills its field exactly when it is small enough. -/
theorem length_printHex_eq_iff {width : Nat} {i : Int} (pos : 0 < width) :
    (printHex width i).length = width ↔ (i % 2 ^ 32).toNat < 16 ^ width := by
  rw [← length_hexBytes_le_iff pos, printHex, length_zeroPad]
  omega

theorem hexDigit?_digitChar {d : Nat} (small : d < 16) :
    hexDigit? (UInt8.ofNat (Nat.digitChar d).toNat) = some d := by
  have all : ∀ d : Fin 16, hexDigit? (UInt8.ofNat (Nat.digitChar d).toNat) = some d.val := by decide
  exact all ⟨d, small⟩

theorem hexDigit?_lt {b : UInt8} {d : Nat} (digit : hexDigit? b = some d) : d < 16 := by
  unfold hexDigit? at digit
  simp only [UInt8.le_iff_toNat_le] at digit
  split at digit
  case isTrue range =>
    cases digit
    simp at range
    omega
  case isFalse =>
    split at digit
    case isTrue range =>
      cases digit
      simp at range
      omega
    case isFalse =>
      split at digit
      case isTrue range =>
        cases digit
        simp at range
        omega
      case isFalse => cases digit

theorem hexValue_concat (s : List UInt8) (b : UInt8) : hexValue (s ++ [b]) = hexStep (hexValue s) b := by
  rw [hexValue, List.foldl_append]
  rfl

/-- The last digit comes off the end. -/
theorem hexBytes_eq (n : Nat) : hexBytes n =
    (if n < 16 then [] else hexBytes (n / 16)) ++ [UInt8.ofNat (Nat.digitChar (n % 16)).toNat] := by
  unfold hexBytes
  rw [Nat.toDigits_eq_if (by decide)]
  split
  case isTrue small => rw [Nat.mod_eq_of_lt small, List.map_singleton, List.nil_append]
  case isFalse => rw [List.map_append, List.map_singleton]

/-- **Digits are read back.** -/
theorem hexValue_hexBytes (n : Nat) : hexValue (hexBytes n) = some n := by
  induction n using Nat.strongRecOn with
  | ind n ih =>
    rw [hexBytes_eq, hexValue_concat, hexStep, hexDigit?_digitChar (Nat.mod_lt _ (by decide))]
    split
    case isTrue small =>
      have value : 16 * 0 + n % 16 = n := by omega
      exact congrArg some value
    case isFalse =>
      have value : 16 * (n / 16) + n % 16 = n := by omega
      rw [ih (n / 16) (by omega)]
      exact congrArg some value

/-- Leading zeros do not change a number. -/
theorem hexValue_zeroPad (width : Nat) (digits : List UInt8) :
    hexValue (zeroPad width digits) = hexValue digits := by
  have zeros : ∀ k, hexValue (List.replicate k 48) = some 0 := by
    intro k
    induction k with
    | zero => rfl
    | succ k ih => rw [List.replicate_succ', hexValue_concat, ih]; rfl
  rw [hexValue, zeroPad, List.foldl_append, ← hexValue, zeros, hexValue]

/-- **A number printed in hexadecimal is read back.** -/
theorem hexValue_printHex (width : Nat) {i : Int} (pos : 0 ≤ i) (small : i < 2 ^ 32) :
    hexValue (printHex width i) = some i.toNat := by
  rw [printHex, hexValue_zeroPad, hexValue_hexBytes, Int.emod_eq_of_lt pos small]

/-- So many digits denote so large a number at most. -/
theorem hexValue_lt {s : List UInt8} {n : Nat} (value : hexValue s = some n) : n < 16 ^ s.length := by
  induction s using List.reverseRecOn generalizing n with
  | nil =>
    cases value
    decide
  | append_singleton s b ih =>
    rw [hexValue_concat, hexStep] at value
    obtain ⟨m, front, value⟩ := Option.bind_eq_some_iff.mp value
    obtain ⟨d, digit, value⟩ := Option.bind_eq_some_iff.mp value
    cases value
    have low := ih front
    have last := hexDigit?_lt digit
    rw [List.length_append, List.length_singleton, Nat.pow_succ]
    omega

end Lib
