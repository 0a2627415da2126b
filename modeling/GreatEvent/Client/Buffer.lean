import GreatEvent.Lib.Bytes
import GreatEvent.Net.Protocol

/-!
# `Buffer`: a block of data in an array of its own

`ExtendBuffer` makes room by allocating a new array and forgets what was in
the old one; `AppendData` moves to a larger array and keeps it. Both are used
on recycled buffers, whose data `ClearData` has cleared before.
-/

namespace GreatEvent

open Lib

/-- An `int` converted to `UINT`. -/
def uint (i : Int) : Nat := (i % 2 ^ 32).toNat

theorem uint_of_nonneg {i : Int} (pos : 0 ≤ i) (small : i < 2 ^ 32) : (uint i : Int) = i := by
  rw [uint, Int.emod_eq_of_lt pos small, Int.toNat_of_nonneg pos]

/-- `Buffer`: an array allocated with `new`, its size, and the data in it. `m_pData` is the place in
the array the pointer stands at, `NULL` where the array is. -/
structure Buffer where
  m_pBuffer : Option (List Cell)
  m_nBufferSize : Nat
  m_pData : Option Nat
  m_nDataSize : Nat

namespace Buffer

/-- `Buffer()` -/
def init : Buffer := ⟨none, 0, none, 0⟩

/-- `FreeBuffer` -/
def freeBuffer (b : Buffer) : Buffer :=
  match b.m_pBuffer with
  | none => b
  | some _ => init

/-- `AllocateBuffer` -/
def allocateBuffer (b : Buffer) (nBufferSize : Nat) : Buffer × Bool :=
  if nBufferSize = 0 then (b, false)
  else (⟨some (List.replicate nBufferSize none), nBufferSize, some 0, b.freeBuffer.m_nDataSize⟩, true)

/-- `ExtendBuffer` -/
def extendBuffer (b : Buffer) (nBufferSize : Nat) : Buffer × Bool :=
  if nBufferSize ≤ b.m_nBufferSize then (b, true) else b.allocateBuffer nBufferSize

/-- The array `AppendData` allocates where there is none. -/
def ensured (b : Buffer) (nDataSize : Nat) : Buffer :=
  if b.m_pBuffer = none ∧ b.m_nBufferSize = 0 then (b.allocateBuffer nDataSize).1 else b

/-- The larger array `AppendData` moves to where `size` bytes have no room behind `m_pData`: the
data is copied from the start of the old array. -/
def regrown (b : Buffer) (size : Nat) : Buffer :=
  if b.m_nBufferSize - b.m_pData.getD 0 < size then
    ⟨some (poke (List.replicate size none) 0 ((b.m_pBuffer.getD []).take b.m_nDataSize)), size, some 0,
      b.m_nDataSize⟩
  else b

/-- `AppendData` of the first `nDataSize` bytes at `pData`. -/
def appendData (b : Buffer) (pData : Option (List Cell)) (nDataSize : Nat) : Buffer × Bool :=
  match pData with
  | none => (b, false)
  | some data =>
    if nDataSize = 0 then (b, false)
    else
      let b := b.ensured nDataSize
      let size := (b.m_nDataSize + nDataSize) % 2 ^ 32
      let b := b.regrown size
      (⟨b.m_pBuffer.map fun mem => poke mem (b.m_pData.getD 0 + b.m_nDataSize) (data.take nDataSize),
        b.m_nBufferSize, b.m_pData, size⟩, true)

/-- `ClearData` -/
def clearData (b : Buffer) : Buffer := { b with m_nDataSize := 0, m_pData := b.m_pBuffer.map fun _ => 0 }

/-- The memory from `m_pData` on, `none` for `NULL`. -/
def pointed (b : Buffer) : Option (List Cell) := do
  let mem ← b.m_pBuffer
  let place ← b.m_pData
  return mem.drop place

/-- The block in the buffer: `m_nDataSize` bytes from `m_pData` on. -/
def contents (b : Buffer) : List Cell := (b.pointed.getD []).take b.m_nDataSize

/-- `m_pData` is `m_pBuffer`, the size is that of the array and the data fits it. -/
structure Valid (b : Buffer) : Prop where
  data : b.m_pData = b.m_pBuffer.map fun _ => 0
  size : (b.m_pBuffer.getD []).length = b.m_nBufferSize
  room : b.m_nDataSize ≤ b.m_nBufferSize

theorem valid_init : init.Valid := ⟨rfl, rfl, Nat.le_refl 0⟩

theorem Valid.contents_eq {b : Buffer} (valid : b.Valid) :
    b.contents = (b.m_pBuffer.getD []).take b.m_nDataSize := by
  rw [contents, pointed, valid.data]
  cases b.m_pBuffer <;> rfl

theorem Valid.length_contents {b : Buffer} (valid : b.Valid) : b.contents.length = b.m_nDataSize := by
  rw [valid.contents_eq, List.length_take, valid.size]
  exact Nat.min_eq_left valid.room

theorem Valid.allocateBuffer {b : Buffer} (valid : b.Valid) (nBufferSize : Nat) :
    (b.allocateBuffer nBufferSize).1.Valid := by
  unfold Buffer.allocateBuffer
  split
  · exact valid
  · have freed : b.freeBuffer.m_nDataSize = 0 := by
      cases array : b.m_pBuffer with
      | some mem => simp only [freeBuffer, array, init]
      | none =>
        have size := valid.size
        have room := valid.room
        rw [array, Option.getD_none, List.length_nil] at size
        simp only [freeBuffer, array]
        omega
    refine ⟨rfl, List.length_replicate, ?_⟩
    rw [freed]
    exact Nat.zero_le _

theorem Valid.extendBuffer {b : Buffer} (valid : b.Valid) (nBufferSize : Nat) :
    (b.extendBuffer nBufferSize).1.Valid := by
  unfold Buffer.extendBuffer
  split
  · exact valid
  · exact valid.allocateBuffer nBufferSize

/-- A buffer that is too small is allocated anew. -/
theorem extendBuffer_size {b : Buffer} {nBufferSize : Nat} (more : b.m_nBufferSize < nBufferSize) :
    (b.extendBuffer nBufferSize).1.m_nBufferSize = nBufferSize := by
  rw [extendBuffer, if_neg (Nat.not_le_of_lt more), allocateBuffer, if_neg (Nat.ne_zero_of_lt more)]

theorem Valid.clearData {b : Buffer} (valid : b.Valid) : b.clearData.Valid :=
  ⟨rfl, valid.size, Nat.zero_le _⟩

/-- A buffer whose data has been cleared. -/
structure Empty (b : Buffer) : Prop extends Valid b where
  empty : b.m_nDataSize = 0

theorem Valid.cleared {b : Buffer} (valid : b.Valid) : b.clearData.Empty := ⟨valid.clearData, rfl⟩

theorem Empty.ensured {b : Buffer} (empty : b.Empty) (nDataSize : Nat) : (b.ensured nDataSize).Empty := by
  unfold Buffer.ensured
  split
  case isTrue missing =>
    refine ⟨empty.toValid.allocateBuffer nDataSize, ?_⟩
    unfold allocateBuffer
    split
    · exact empty.empty
    · simp only [freeBuffer, missing.1]
      exact empty.empty
  case isFalse => exact empty

/-- There is an array of at least `n` bytes, with `m_pData` at its start. -/
structure Roomy (n : Nat) (b : Buffer) : Prop extends Empty b where
  enough : n ≤ b.m_nBufferSize

theorem Empty.regrown {b : Buffer} (empty : b.Empty) (size : Nat) : (b.regrown size).Roomy size := by
  unfold Buffer.regrown
  split
  case isTrue =>
    rw [empty.empty, List.take_zero, poke_nil]
    exact ⟨⟨⟨rfl, List.length_replicate, Nat.zero_le _⟩, rfl⟩, Nat.le_refl _⟩
  case isFalse enough =>
    have start : b.m_pData.getD 0 = 0 := by
      rw [empty.data]
      cases b.m_pBuffer <;> rfl
    rw [start, Nat.sub_zero] at enough
    exact ⟨empty, Nat.le_of_not_lt enough⟩

/-- `n` bytes copied to the start of an array with room for them. -/
theorem Roomy.filled {b : Buffer} {n : Nat} {bytes : List Cell} (roomy : b.Roomy n) (pos : 0 < n)
    (length : bytes.length = n) :
    Valid ⟨b.m_pBuffer.map fun mem => poke mem (b.m_pData.getD 0 + b.m_nDataSize) bytes, b.m_nBufferSize,
      b.m_pData, n⟩ ∧
    contents ⟨b.m_pBuffer.map fun mem => poke mem (b.m_pData.getD 0 + b.m_nDataSize) bytes, b.m_nBufferSize,
      b.m_pData, n⟩ = bytes := by
  obtain ⟨⟨⟨data, size, room⟩, empty⟩, enough⟩ := roomy
  cases array : b.m_pBuffer with
  | none =>
    rw [array, Option.getD_none, List.length_nil] at size
    omega
  | some mem =>
    rw [array] at data size
    rw [Option.getD_some] at size
    have start : b.m_pData.getD 0 + b.m_nDataSize = 0 := by
      rw [data, empty]
      rfl
    have fits : 0 + bytes.length ≤ mem.length := by omega
    have valid : Valid ⟨some (poke mem 0 bytes), b.m_nBufferSize, b.m_pData, n⟩ :=
      ⟨data, (length_poke fits).trans size, enough⟩
    rw [start, Option.map_some]
    refine ⟨valid, ?_⟩
    rw [valid.contents_eq, Option.getD_some, ← length]
    have front : (poke mem 0 bytes).take (0 + bytes.length) = mem.take 0 ++ bytes := take_poke (Nat.zero_le _)
    rwa [Nat.zero_add, List.take_zero, List.nil_append] at front

/-- **A block appended to a cleared buffer is its contents.** -/
theorem append_cleared {b : Buffer} {data : List Cell} {n : Nat} (valid : b.Valid) (pos : 0 < n)
    (small : n < 2 ^ 32) (within : n ≤ data.length) :
    ∃ r : Buffer, b.clearData.appendData (some data) n = (r, true) ∧ r.Valid ∧ r.contents = data.take n := by
  have ensured := valid.cleared.ensured n
  have size : ((b.clearData.ensured n).m_nDataSize + n) % 2 ^ 32 = n := by
    rw [ensured.empty, Nat.zero_add, Nat.mod_eq_of_lt small]
  have filled := (ensured.regrown n).filled pos (List.length_take_of_le within)
  simp only [appendData, if_neg (Nat.ne_of_gt pos), size]
  exact ⟨_, rfl, filled⟩

end Buffer

end GreatEvent
