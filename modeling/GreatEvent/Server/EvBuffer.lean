import GreatEvent.Lib.Bytes
import GreatEvent.Lib.Doubling
import GreatEvent.Net.Protocol

/-!
# `evbuffer` and `BufferCache`: an array that grows

The data lies `misalign` bytes into an allocated array: `evbuffer_drain` moves
its start on, `evbuffer_add` puts more behind it and, when that does not fit,
moves the data back to the start of the array or to an array of the doubled
length. `Sound` is what these keep. `realloc` is taken to succeed.
-/

namespace GreatEvent

open Lib

/-- `struct evbuffer`: the array `orig_buffer` points to and the place in it where `buffer` points. -/
structure EvBuffer where
  orig_buffer : Option (List Cell)
  buffer : Nat
  misalign : Nat
  totallen : Nat
  off : Nat

namespace EvBuffer

/-- `evbuffer_new` -/
def init : EvBuffer := ⟨none, 0, 0, 0, 0⟩

/-- `evbuffer_align` -/
def align (buf : EvBuffer) : EvBuffer :=
  { buf with
    orig_buffer := buf.orig_buffer.map fun mem => poke mem 0 ((mem.drop buf.buffer).take buf.off)
    buffer := 0
    misalign := 0 }

/-- What `realloc` makes of an array. -/
def resize (mem : List Cell) (length : Nat) : List Cell :=
  mem.take length ++ List.replicate (length - mem.length) none

/-- `need` of `evbuffer_expand` and `evbuffer_add`. -/
def need (buf : EvBuffer) (datlen : Nat) : Nat := buf.misalign + buf.off + datlen

/-- The length `evbuffer_expand` starts to double from. -/
def least (buf : EvBuffer) : Nat := if buf.totallen < 256 then 256 else buf.totallen

/-- `evbuffer_expand` -/
def expand (buf : EvBuffer) (datlen : Nat) : EvBuffer :=
  let need := buf.need datlen
  if need ≤ buf.totallen then buf
  else if datlen ≤ buf.misalign then buf.align
  else
    let length := doubleTo need buf.least need
    let buf := if buf.buffer ≠ 0 then buf.align else buf
    { buf with
      orig_buffer := some (resize (buf.orig_buffer.getD []) length)
      buffer := 0
      totallen := length }

/-- `evbuffer_add` -/
def add (buf : EvBuffer) (data : List Byte) : EvBuffer :=
  let buf := if buf.totallen < buf.need data.length then buf.expand data.length else buf
  { buf with
    orig_buffer := buf.orig_buffer.map fun mem => poke mem (buf.buffer + buf.off) (data.map some)
    off := buf.off + data.length }

/-- `evbuffer_drain` -/
def drain (buf : EvBuffer) (len : Nat) : EvBuffer :=
  if buf.off ≤ len then { buf with off := 0, buffer := 0, misalign := 0 }
  else { buf with buffer := buf.buffer + len, misalign := buf.misalign + len, off := buf.off - len }

/-- `evbuffer_remove`: the bytes copied and what is left. -/
def remove (buf : EvBuffer) (datlen : Nat) : List Cell × EvBuffer :=
  let nread := if buf.off ≤ datlen then buf.off else datlen
  ((((buf.orig_buffer.getD []).drop buf.buffer).take nread), buf.drain nread)

/-- An `int` passed as a `size_t`. -/
def sizeT (i : Int) : Nat := (i % 2 ^ 64).toNat

/-- `BufferCache::append` of a number of bytes above 0. -/
def append (mBuffer : EvBuffer) (buffer : List Byte) : EvBuffer := mBuffer.add buffer

/-- `BufferCache::append` of another cache. -/
def appendCache (mBuffer : EvBuffer) (buffer : List Byte) : EvBuffer :=
  if 0 < buffer.length then mBuffer.append buffer else mBuffer

/-- `BufferCache::getSize` -/
def getSize (mBuffer : EvBuffer) : Nat := mBuffer.off

/-- `BufferCache::erase` -/
def erase (mBuffer : EvBuffer) (len : Int) : EvBuffer := mBuffer.drain (sizeT len)

/-- `BufferCache::reset`: the size is passed as an `int`. -/
def reset (mBuffer : EvBuffer) : EvBuffer := mBuffer.erase ((mBuffer.getSize : Int).bmod (2 ^ 32))

/-- `BufferCache::take(buffer, len)`: the cache it leaves. -/
def takeInto (mBuffer : EvBuffer) (len : Int) : EvBuffer := (mBuffer.remove (sizeT (len - 1))).2

/-- `BufferCache::take()`: the cache it leaves and the one it returns. -/
def take (mBuffer : EvBuffer) : EvBuffer × EvBuffer := (init, mBuffer)

/-- `BufferCache::getBuffer` where there is data: the array with the terminator behind the data,
`none` if that is not inside the array. -/
def getBuffer (mBuffer : EvBuffer) : Option EvBuffer :=
  match mBuffer.orig_buffer with
  | none => some mBuffer
  | some mem =>
    let last := mBuffer.buffer + mBuffer.getSize
    if last < mem.length then some { mBuffer with orig_buffer := some (mem.set last (some 0)) } else none

/-- The data in the buffer. -/
def contents (buf : EvBuffer) : List Cell := ((buf.orig_buffer.getD []).drop buf.buffer).take buf.off

/-- The array is of the length kept for it, which is 256 doubled; the data lies inside. -/
structure Sound (buf : EvBuffer) : Prop where
  place : buf.buffer = buf.misalign
  room : buf.misalign + buf.off ≤ buf.totallen
  length : (buf.orig_buffer.getD []).length = buf.totallen
  allocated : buf.orig_buffer.isSome = true → ∃ k, buf.totallen = 256 * 2 ^ k

theorem sound_init : Sound init := ⟨rfl, Nat.le_refl 0, rfl, fun allocated => by cases allocated⟩

theorem pos_of_pow {n : Nat} (doubled : ∃ k, n = 256 * 2 ^ k) : 256 ≤ n := by
  obtain ⟨k, rfl⟩ := doubled
  exact Nat.le_mul_of_pos_right 256 (Nat.two_pow_pos k)

/-- Data moved to the start of its array. -/
theorem Sound.align {buf : EvBuffer} (sound : Sound buf) :
    Sound buf.align ∧ buf.align.contents = buf.contents := by
  obtain ⟨place, room, length, allocated⟩ := sound
  cases array : buf.orig_buffer with
  | none =>
    rw [array, Option.getD_none, List.length_nil] at length
    refine ⟨⟨rfl, by simp only [EvBuffer.align]; omega, ?_, fun some' => ?_⟩, ?_⟩
    · simp only [EvBuffer.align, array, Option.map_none, Option.getD_none, List.length_nil]
      exact length
    · simp only [EvBuffer.align, array, Option.map_none, Option.isSome_none, Bool.false_eq_true] at some'
    · simp only [contents, EvBuffer.align, array, Option.map_none, Option.getD_none, List.drop_nil]
  | some mem =>
    rw [array, Option.getD_some] at length
    have data : ((mem.drop buf.buffer).take buf.off).length = buf.off := by
      rw [List.length_take, List.length_drop]
      omega
    refine ⟨⟨rfl, by simp only [EvBuffer.align]; omega, ?_, fun _ => allocated (by rw [array]; rfl)⟩, ?_⟩
    · simp only [EvBuffer.align, array, Option.map_some, Option.getD_some]
      rw [length_poke (by omega), length]
    · simp only [contents, EvBuffer.align, array, Option.map_some, Option.getD_some, List.drop_zero]
      have front : (poke mem 0 ((mem.drop buf.buffer).take buf.off)).take
          (0 + ((mem.drop buf.buffer).take buf.off).length) = mem.take 0 ++ (mem.drop buf.buffer).take buf.off :=
        take_poke (Nat.zero_le _)
      rwa [Nat.zero_add, data, List.take_zero, List.nil_append] at front

/-- The length the array is doubled to. -/
def grown (buf : EvBuffer) (datlen : Nat) : Nat := doubleTo (buf.need datlen) buf.least (buf.need datlen)

theorem Sound.least {buf : EvBuffer} (sound : Sound buf) : ∃ k, buf.least = 256 * 2 ^ k := by
  unfold EvBuffer.least
  split
  case isTrue => exact ⟨0, rfl⟩
  case isFalse large =>
    cases array : buf.orig_buffer with
    | none =>
      have length := sound.length
      rw [array, Option.getD_none, List.length_nil] at length
      omega
    | some mem => exact sound.allocated (by rw [array]; rfl)

theorem length_resize {mem : List Cell} {length : Nat} (longer : mem.length ≤ length) :
    (resize mem length).length = length := by
  rw [resize, List.length_append, List.take_of_length_le longer, List.length_replicate]
  omega

/-- A larger array with the data at the start of the old one. -/
theorem Sound.regrow {buf : EvBuffer} (sound : Sound buf) (aligned : buf.misalign = 0) {length : Nat}
    (longer : buf.totallen ≤ length) (doubled : ∃ k, length = 256 * 2 ^ k) :
    Sound { buf with orig_buffer := some (resize (buf.orig_buffer.getD []) length), buffer := 0, totallen := length } ∧
    contents { buf with orig_buffer := some (resize (buf.orig_buffer.getD []) length), buffer := 0, totallen := length } =
      buf.contents := by
  have size := sound.length
  have room := sound.room
  have kept : (buf.orig_buffer.getD []).take length = buf.orig_buffer.getD [] := List.take_of_length_le (by omega)
  refine ⟨⟨aligned.symm, Nat.le_trans room longer, length_resize (by omega), fun _ => doubled⟩, ?_⟩
  rw [contents, contents, sound.place, aligned, Option.getD_some, List.drop_zero, List.drop_zero, resize, kept]
  apply List.take_append_of_le_length
  dsimp only
  omega

/-- **After `evbuffer_expand` the data fits**, and it is what it was. -/
theorem Sound.expand {buf : EvBuffer} (sound : Sound buf) {datlen : Nat}
    (short : buf.totallen < buf.need datlen) :
    Sound (buf.expand datlen) ∧ (buf.expand datlen).contents = buf.contents ∧
      (buf.expand datlen).off = buf.off ∧ (buf.expand datlen).misalign = 0 ∧
      (buf.expand datlen).totallen = (if datlen ≤ buf.misalign then buf.totallen else buf.grown datlen) ∧
      buf.off + datlen ≤ (buf.expand datlen).totallen := by
  have room := sound.room
  have enough := le_doubleTo (buf.need datlen) (Nat.lt_of_lt_of_le (by decide) (pos_of_pow sound.least))
  have wide : buf.off + datlen ≤ buf.need datlen := by rw [need]; omega
  rw [EvBuffer.expand, if_neg (Nat.not_le_of_lt short)]
  by_cases shift : datlen ≤ buf.misalign
  · rw [if_pos shift, if_pos shift]
    obtain ⟨aligned, same⟩ := sound.align
    refine ⟨aligned, same, rfl, rfl, rfl, ?_⟩
    change _ ≤ buf.totallen
    omega
  · rw [if_neg shift, if_neg shift]
    have doubled : ∃ k, buf.grown datlen = 256 * 2 ^ k := by
      obtain ⟨a, least⟩ := sound.least
      have pos : 0 < buf.least := Nat.lt_of_lt_of_le (by decide) (pos_of_pow sound.least)
      obtain ⟨j, grown, -⟩ := doubleTo_cases pos (Nat.le_add_right (buf.need datlen) buf.least)
      exact ⟨a + j, by rw [EvBuffer.grown, grown, least, Nat.mul_assoc, Nat.pow_add]⟩
    have longer : buf.totallen ≤ buf.grown datlen := Nat.le_of_lt (Nat.lt_of_lt_of_le short enough)
    by_cases start : buf.buffer ≠ 0
    · dsimp only
      rw [if_pos start]
      obtain ⟨aligned, same⟩ := sound.align
      obtain ⟨sound', same'⟩ := aligned.regrow rfl longer doubled
      exact ⟨sound', same'.trans same, rfl, rfl, rfl, Nat.le_trans wide enough⟩
    · dsimp only
      rw [if_neg start]
      have zero : buf.misalign = 0 := by rw [← sound.place]; omega
      obtain ⟨sound', same'⟩ := sound.regrow zero longer doubled
      exact ⟨sound', same', rfl, zero, rfl, Nat.le_trans wide enough⟩

theorem Sound.isSome_iff {buf : EvBuffer} (sound : Sound buf) : buf.orig_buffer.isSome = true ↔ 0 < buf.totallen := by
  have length := sound.length
  cases array : buf.orig_buffer with
  | none =>
    rw [array, Option.getD_none, List.length_nil] at length
    rw [← length, Option.isSome_none]
    exact iff_of_false Bool.false_ne_true (Nat.lt_irrefl 0)
  | some mem =>
    have large := pos_of_pow (sound.allocated (by rw [array]; rfl))
    exact iff_of_true rfl (by omega)

/-- Data stored where it fits. -/
theorem Sound.store {buf : EvBuffer} (sound : Sound buf) {data : List Byte} (pos : 0 < data.length)
    (fits : buf.need data.length ≤ buf.totallen) :
    Sound { buf with
      orig_buffer := buf.orig_buffer.map fun mem => poke mem (buf.buffer + buf.off) (data.map some)
      off := buf.off + data.length } ∧
    contents { buf with
      orig_buffer := buf.orig_buffer.map fun mem => poke mem (buf.buffer + buf.off) (data.map some)
      off := buf.off + data.length } = buf.contents ++ data.map some := by
  rw [need] at fits
  obtain ⟨mem, array⟩ := Option.isSome_iff_exists.mp (sound.isSome_iff.mpr (by omega))
  obtain ⟨place, room, length, allocated⟩ := sound
  rw [array, Option.getD_some] at length
  have size : (data.map some).length = data.length := List.length_map _
  have inside : buf.buffer + buf.off + (data.map some).length ≤ mem.length := by omega
  refine ⟨⟨place, by dsimp only; omega, ?_, fun _ => allocated (by rw [array]; rfl)⟩, ?_⟩
  · simp only [array, Option.map_some, Option.getD_some]
    rw [length_poke inside, length]
  · have front : (poke mem (buf.buffer + buf.off) (data.map some)).take
        (buf.buffer + buf.off + (data.map some).length) = mem.take (buf.buffer + buf.off) ++ data.map some :=
      take_poke (by omega)
    have dropped := congrArg (List.drop buf.buffer) front
    rw [List.drop_take, List.drop_append_of_le_length (by rw [List.length_take]; omega), List.drop_take, size] at dropped
    have one : buf.buffer + buf.off + data.length - buf.buffer = buf.off + data.length := by omega
    have two : buf.buffer + buf.off - buf.buffer = buf.off := by omega
    rw [one, two] at dropped
    simp only [contents, array, Option.map_some, Option.getD_some]
    exact dropped

/-- Where the data lies after `evbuffer_add`, and in an array of which length. -/
structure Added (buf buf' : EvBuffer) (n : Nat) : Prop where
  off : buf'.off = buf.off + n
  fits : buf.need n ≤ buf.totallen → buf'.misalign = buf.misalign ∧ buf'.totallen = buf.totallen
  short : buf.totallen < buf.need n →
    buf'.misalign = 0 ∧ buf'.totallen = if n ≤ buf.misalign then buf.totallen else buf.grown n

/-- **`evbuffer_add` puts the data behind what is there.** -/
theorem Sound.add {buf : EvBuffer} (sound : Sound buf) {data : List Byte} (pos : 0 < data.length) :
    Sound (buf.add data) ∧ (buf.add data).contents = buf.contents ++ data.map some ∧
      Added buf (buf.add data) data.length := by
  unfold EvBuffer.add
  by_cases short : buf.totallen < buf.need data.length
  · obtain ⟨sound', same, off, misalign, totallen, room⟩ := sound.expand short
    simp only [if_pos short]
    obtain ⟨sound'', stored⟩ := sound'.store pos (by rw [need, off, misalign]; omega)
    rw [same] at stored
    exact ⟨sound'', stored, by rw [off], fun fits => absurd fits (Nat.not_le_of_lt short),
      fun _ => ⟨misalign, totallen⟩⟩
  · have fits : buf.need data.length ≤ buf.totallen := Nat.le_of_not_lt short
    simp only [if_neg short]
    obtain ⟨sound', stored⟩ := sound.store pos fits
    exact ⟨sound', stored, rfl, fun _ => ⟨rfl, rfl⟩, fun short' => absurd short' short⟩

/-- **`evbuffer_drain` takes data off the front.** -/
theorem Sound.drain {buf : EvBuffer} (sound : Sound buf) (len : Nat) :
    Sound (buf.drain len) ∧ (buf.drain len).contents = buf.contents.drop len := by
  obtain ⟨place, room, length, allocated⟩ := sound
  unfold EvBuffer.drain
  split
  case isTrue all =>
    refine ⟨⟨rfl, Nat.zero_le _, length, allocated⟩, ?_⟩
    rw [contents, List.take_zero, List.drop_eq_nil_of_le]
    rw [contents, List.length_take]
    omega
  case isFalse part =>
    refine ⟨⟨by dsimp only; omega, by dsimp only; omega, length, allocated⟩, ?_⟩
    simp only [contents]
    rw [List.drop_take, List.drop_drop]

end EvBuffer

end GreatEvent
