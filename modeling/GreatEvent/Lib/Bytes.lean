import Mathlib.Algebra.Group.Int.Defs
import Mathlib.Algebra.Group.Nat.Defs

/-!
# Words and stores in byte buffers

`leBytes k n` is the `k`-byte little-endian form of `n`, `leValue` its
reading; `beBytes` and `beValue` are the same in network order. `poke buf i bs` is the buffer after `bs` has been stored at offset
`i`: the only way the programs here change a buffer. Buffers are lists, an
offset past the end stores at the end, so a caller that cares about bounds
checks them before.
-/

namespace Lib

/-- A byte of allocated memory, `none` until it has been written. -/
abbrev Cell := Option UInt8

/-- The low `k` bytes of `n`, least significant first. -/
def leBytes : Nat → Nat → List UInt8
  | 0, _ => []
  | k + 1, n => UInt8.ofNat n :: leBytes k (n / 256)

/-- The number a little-endian byte string denotes. -/
def leValue : List UInt8 → Nat
  | [] => 0
  | b :: bs => b.toNat + 256 * leValue bs

@[simp] theorem length_leBytes (k n : Nat) : (leBytes k n).length = k := by
  induction k generalizing n with
  | zero => rfl
  | succ k ih => simp [leBytes, ih]

/-- Reading back a stored word gives it modulo the word size. -/
theorem leValue_leBytes (k n : Nat) : leValue (leBytes k n) = n % 256 ^ k := by
  induction k generalizing n with
  | zero => simp [leBytes, leValue, Nat.mod_one]
  | succ k ih =>
    have split : n % 256 ^ (k + 1) = n % 256 + 256 * (n / 256 % 256 ^ k) := by
      rw [Nat.pow_succ, Nat.mul_comm, Nat.mod_mul]
    rw [leBytes, leValue, ih, split]
    simp

/-- A 32-bit word survives the round trip. -/
theorem leValue_leBytes_uint32 (v : UInt32) : leValue (leBytes 4 v.toNat) = v.toNat := by
  rw [leValue_leBytes]
  exact Nat.mod_eq_of_lt v.toNat_lt

theorem leValue_lt (bs : List UInt8) : leValue bs < 256 ^ bs.length := by
  induction bs with
  | nil => decide
  | cons b bs ih =>
    have low := b.toNat_lt
    rw [leValue, List.length_cons, Nat.pow_succ]
    omega

/-- A byte string is the little-endian form of the number it denotes. -/
theorem leBytes_leValue (bs : List UInt8) : leBytes bs.length (leValue bs) = bs := by
  induction bs with
  | nil => rfl
  | cons b bs ih =>
    have low := b.toNat_lt
    have rest : leValue (b :: bs) / 256 = leValue bs := by
      rw [leValue]
      omega
    have first : UInt8.ofNat (leValue (b :: bs)) = b := by
      rw [← UInt8.toNat_inj, UInt8.toNat_ofNat', leValue]
      omega
    rw [List.length_cons, leBytes, rest, ih, first]

/-- The low `k` bytes of `n`, most significant first. -/
def beBytes (k n : Nat) : List UInt8 := (leBytes k n).reverse

/-- The number a big-endian byte string denotes. -/
def beValue (bs : List UInt8) : Nat := leValue bs.reverse

@[simp] theorem length_beBytes (k n : Nat) : (beBytes k n).length = k := by
  rw [beBytes, List.length_reverse, length_leBytes]

theorem beValue_beBytes (k n : Nat) : beValue (beBytes k n) = n % 256 ^ k := by
  rw [beValue, beBytes, List.reverse_reverse, leValue_leBytes]

section
variable {α : Type}

/-- The buffer after `bs` has been stored at offset `i`. -/
def poke (buf : List α) (i : Nat) (bs : List α) : List α :=
  buf.take i ++ bs ++ buf.drop (i + bs.length)

/-- A store that fits leaves the buffer's size alone. -/
theorem length_poke {buf bs : List α} {i : Nat} (fits : i + bs.length ≤ buf.length) :
    (poke buf i bs).length = buf.length := by
  simp only [poke, List.length_append, List.length_take, List.length_drop]
  omega

/-- Up to its end, a store reads back what was before it and then the bytes stored. -/
theorem take_poke {buf bs : List α} {i : Nat} (within : i ≤ buf.length) :
    (poke buf i bs).take (i + bs.length) = buf.take i ++ bs := by
  have front : (buf.take i ++ bs).length = i + bs.length := by
    simp only [List.length_append, List.length_take]
    omega
  rw [poke, List.take_append_of_le_length (by omega), List.take_of_length_le (by omega)]

/-- A store at the start is the bytes stored followed by the rest. -/
theorem poke_zero (buf bs : List α) : poke buf 0 bs = bs ++ buf.drop bs.length := by
  simp [poke]

/-- A store of nothing. -/
@[simp] theorem poke_nil (buf : List α) (i : Nat) : poke buf i [] = buf := by
  rw [poke, List.append_nil, List.length_nil, Nat.add_zero, List.take_append_drop]

/-- A store touches nothing behind it. -/
theorem drop_poke_of_le {buf bs : List α} {i k : Nat} (behind : i + bs.length ≤ k)
    (within : i ≤ buf.length) : (poke buf i bs).drop k = buf.drop k := by
  have front : (buf.take i ++ bs).length = i + bs.length := by
    rw [List.length_append, List.length_take]
    omega
  rw [poke, List.drop_append, List.drop_of_length_le (by omega), List.nil_append, List.drop_drop, front]
  congr 1
  omega

/-- Nor in front of it. -/
theorem take_poke_of_le {buf bs : List α} {i k : Nat} (before : k ≤ i) (within : i ≤ buf.length) :
    (poke buf i bs).take k = buf.take k := by
  have front : (buf.take i).length = i := List.length_take_of_le within
  rw [poke, List.append_assoc, List.take_append_of_le_length (by omega), List.take_take, Nat.min_eq_left before]

/-- What is read in front of a store is as before. -/
theorem window_before {buf bs : List α} {i off n : Nat} (before : off + n ≤ i) (within : i ≤ buf.length) :
    ((poke buf i bs).drop off).take n = (buf.drop off).take n := by
  rw [List.take_drop, List.take_drop, take_poke_of_le before within]

/-- From where it has been stored a store reads back. -/
theorem drop_poke_self {buf bs : List α} {i : Nat} (within : i ≤ buf.length) :
    (poke buf i bs).drop i = bs ++ buf.drop (i + bs.length) := by
  have front : (buf.take i).length = i := List.length_take_of_le within
  rw [poke, List.append_assoc, List.drop_append, front, Nat.sub_self, List.drop_zero,
    List.drop_of_length_le (Nat.le_of_eq front), List.nil_append]

/-- A store into the front of two buffers side by side. -/
theorem poke_append_left {xs bs : List α} {i : Nat} (ys : List α) (fits : i + bs.length ≤ xs.length) :
    poke (xs ++ ys) i bs = poke xs i bs ++ ys := by
  rw [poke, poke, List.take_append_of_le_length (by omega), List.drop_append_of_le_length fits]
  simp only [List.append_assoc]

/-- A store at the start of the second of two buffers. -/
theorem poke_append_right (xs ys bs : List α) : poke (xs ++ ys) xs.length bs = xs ++ (bs ++ ys.drop bs.length) := by
  rw [poke, List.take_left, List.drop_append, List.drop_of_length_le (by omega), List.nil_append,
    List.append_assoc]
  congr 3
  omega

/-- Two stores side by side are one. -/
theorem poke_poke {buf xs : List α} {i : Nat} (ys : List α) (fits : i + xs.length ≤ buf.length) :
    poke (poke buf i xs) (i + xs.length) ys = poke buf i (xs ++ ys) := by
  have back := drop_poke_of_le (show i + xs.length ≤ i + (xs ++ ys).length by simp) (show i ≤ buf.length by omega)
  rw [poke, take_poke (by omega), Nat.add_assoc, ← List.length_append, back, poke, List.append_assoc (buf.take i)]

/-- The longer of two stores shows in a buffer of one byte or of the other. -/
theorem length_le_of_poke {xs ys : List α} {n : Nat} {a b : α} (differ : a ≠ b) (fits : xs.length ≤ n)
    (same : ∀ c, poke (List.replicate n c) 0 xs = poke (List.replicate n c) 0 ys) :
    xs.length ≤ ys.length := by
  refine Nat.le_of_not_lt fun longer => ?_
  have shows : ∀ c, xs[ys.length]? = some c := by
    intro c
    have at' := congrArg (·[ys.length]?) (same c)
    simp only [poke_zero] at at'
    rw [List.getElem?_append_left longer, List.getElem?_append_right (Nat.le_refl _), Nat.sub_self,
      List.drop_replicate, List.getElem?_replicate, if_pos (by omega)] at at'
    exact at'
  exact differ (Option.some.inj ((shows a).symm.trans (shows b)))

end

end Lib
