import GreatEvent.Lib.Histories
import GreatEvent.Server.EvBuffer
import GreatEvent.Video.TaskVideoRecv

/-!
# The terminator of `BufferCache::getBuffer`

`getBuffer` stores a zero behind the data. `evbuffer_add` makes room for the
data only, so when the data ends with its array the zero is stored behind the
array: after an append that fills the array it finds, and after one that grows
the array from its start to exactly what is needed, a doubling of 256. Before
that the cache is the queue of bytes `TaskVideoRecv` takes it for.
-/

namespace GreatEvent

open Lib

/-- The operations on a cache; bytes are appended with their number, which is above 0. -/
inductive CacheOp where
  | append (buffer : List Byte) (nonempty : 0 < buffer.length)
  | appendCache (buffer : List Byte)
  | erase (len : Int)
  | reset
  | takeInto (len : Int)
  | take

namespace EvBuffer

def step (mBuffer : EvBuffer) : CacheOp → EvBuffer
  | .append buffer _ => mBuffer.append buffer
  | .appendCache buffer => mBuffer.appendCache buffer
  | .erase len => mBuffer.erase len
  | .reset => mBuffer.reset
  | .takeInto len => mBuffer.takeInto len
  | .take => mBuffer.take.1

/-- Where there is data, the place of the terminator is inside the array. -/
def TerminatorInside (mBuffer : EvBuffer) : Prop :=
  mBuffer.orig_buffer.isSome = true → mBuffer.misalign + mBuffer.getSize < mBuffer.totallen

theorem inside_init : TerminatorInside init := fun some' => by cases some'

/-- `getBuffer` stays inside the array exactly then. -/
theorem Sound.getBuffer_isSome_iff {mBuffer : EvBuffer} (sound : Sound mBuffer) :
    mBuffer.getBuffer.isSome = true ↔ TerminatorInside mBuffer := by
  have length := sound.length
  unfold getBuffer TerminatorInside
  cases array : mBuffer.orig_buffer with
  | none => exact iff_of_true rfl fun allocated => by cases allocated
  | some mem =>
    rw [array, Option.getD_some] at length
    dsimp only
    rw [sound.place, length, Option.isSome_some]
    constructor
    · intro found _
      split at found
      case isTrue inside => exact inside
      case isFalse => cases found
    · intro inside
      rw [if_pos (inside rfl)]
      rfl

section
variable {mBuffer : EvBuffer} {c : BufferCache}

/-- The array holds the bytes of the queue. -/
structure Shows (mBuffer : EvBuffer) (c : BufferCache) : Prop extends Sound mBuffer where
  bytes : mBuffer.contents = c.mBuffer.map some

theorem shows_init : Shows init ⟨[]⟩ := ⟨sound_init, rfl⟩

theorem Shows.getSize (shows' : Shows mBuffer c) : mBuffer.getSize = c.getSize := by
  have lengths := congrArg List.length shows'.bytes
  have room := shows'.room
  have length := shows'.length
  have place := shows'.place
  rw [contents, List.length_take, List.length_drop, List.length_map] at lengths
  rw [EvBuffer.getSize, BufferCache.getSize]
  omega

theorem Shows.append (shows' : Shows mBuffer c) {buffer : List Byte} (nonempty : 0 < buffer.length) :
    Shows (mBuffer.append buffer) (c.append buffer buffer.length) := by
  obtain ⟨sound, added, -⟩ := shows'.toSound.add nonempty
  refine ⟨sound, ?_⟩
  have positive : ¬ (buffer.length : Int) ≤ 0 := by omega
  rw [EvBuffer.append, added, shows'.bytes, BufferCache.append, if_neg positive, Int.toNat_natCast, List.take_length,
    List.map_append]

theorem Shows.drain (shows' : Shows mBuffer c) (len : Nat) : Shows (mBuffer.drain len) (c.erase len) := by
  obtain ⟨sound, drained⟩ := shows'.toSound.drain len
  refine ⟨sound, ?_⟩
  rw [drained, shows'.bytes, BufferCache.erase, List.map_drop]

/-- `reset` empties a cache whose size is an `int`. -/
theorem Shows.reset (shows' : Shows mBuffer c) (small : mBuffer.getSize < 2 ^ 31) : Shows mBuffer.reset c.reset := by
  have low : -((2 ^ 32 : Nat) : Int) ≤ (mBuffer.getSize : Int) * 2 := by omega
  have high : (mBuffer.getSize : Int) * 2 < ((2 ^ 32 : Nat) : Int) := by omega
  have size : sizeT mBuffer.getSize = c.getSize := by
    rw [sizeT, Int.emod_eq_of_lt (by omega) (by omega), Int.toNat_natCast, shows'.getSize]
  rw [EvBuffer.reset, Int.bmod_eq_of_le_mul_two low high, erase, size]
  exact shows'.drain c.getSize

end

/-- `n` more bytes end before the array does: they do not fill the array there is, nor one that
has to grow and has nothing in front of the data. -/
def LeavesRoom (mBuffer : EvBuffer) (n : Nat) : Prop :=
  mBuffer.need n ≠ mBuffer.totallen ∧
    ¬ (mBuffer.totallen < mBuffer.need n ∧ mBuffer.misalign = 0 ∧ ∃ k, mBuffer.need n = 256 * 2 ^ k)

/-- An operation that leaves room for the terminator. -/
def Clear (mBuffer : EvBuffer) : CacheOp → Prop
  | .append buffer _ => mBuffer.LeavesRoom buffer.length
  | .appendCache buffer => 0 < buffer.length → mBuffer.LeavesRoom buffer.length
  | _ => True

/-- A growing array is filled exactly if the need is a doubling of 256. -/
theorem Sound.grown_eq_iff {buf : EvBuffer} (sound : Sound buf) {n : Nat} (short : buf.totallen < buf.need n) :
    buf.grown n = buf.need n ↔ ∃ k, buf.need n = 256 * 2 ^ k := by
  obtain ⟨a, least⟩ := sound.least
  rw [EvBuffer.grown, doubleTo_eq_iff (Nat.lt_of_lt_of_le (by decide) (pos_of_pow ⟨a, least⟩)), least]
  constructor
  · rintro ⟨k, need⟩
    exact ⟨a + k, by rw [need, Nat.mul_assoc, Nat.pow_add]⟩
  · rintro ⟨k, need⟩
    have from256 : 256 ≤ buf.need n := pos_of_pow ⟨k, need⟩
    have reached : buf.least ≤ buf.need n := by
      unfold EvBuffer.least
      split <;> omega
    rw [least, need] at reached
    have low : a ≤ k :=
      (Nat.pow_le_pow_iff_right (Nat.lt_succ_self 1)).mp (Nat.le_of_mul_le_mul_left reached (by decide))
    exact ⟨k - a, by rw [need, Nat.mul_assoc, ← Nat.pow_add, Nat.add_sub_cancel' low]⟩

/-- **An append keeps the terminator inside exactly when it leaves room.** -/
theorem Sound.inside_add {buf : EvBuffer} (sound : Sound buf) (inside : TerminatorInside buf) {data : List Byte}
    (pos : 0 < data.length) : TerminatorInside (buf.add data) ↔ buf.LeavesRoom data.length := by
  obtain ⟨sound', -, off, fits, short⟩ := sound.add pos
  have some' : (buf.add data).orig_buffer.isSome = true := by
    apply sound'.isSome_iff.mpr
    have room := sound'.room
    omega
  have size : (buf.add data).getSize = buf.off + data.length := off
  have needed : buf.need data.length = buf.misalign + (buf.off + data.length) := Nat.add_assoc _ _ _
  rw [TerminatorInside, LeavesRoom, size]
  by_cases grows : buf.totallen < buf.need data.length
  · obtain ⟨misalign, totallen⟩ := short grows
    have other : buf.need data.length ≠ buf.totallen := Nat.ne_of_gt grows
    rw [misalign, totallen, Nat.zero_add]
    by_cases shift : data.length ≤ buf.misalign
    · rw [if_pos shift]
      have held := inside (sound.isSome_iff.mpr (by have := sound.room; omega))
      rw [getSize] at held
      exact iff_of_true (fun _ => by omega) ⟨other, fun full => by omega⟩
    · rw [if_neg shift]
      have enough : buf.need data.length ≤ buf.grown data.length :=
        le_doubleTo _ (Nat.lt_of_lt_of_le (by decide) (pos_of_pow sound.least))
      have exact' := sound.grown_eq_iff grows
      constructor
      · intro inside'
        refine ⟨other, fun ⟨_, start, doubled⟩ => ?_⟩
        have less := inside' some'
        rw [exact'.mpr doubled] at less
        omega
      · rintro ⟨-, free⟩ -
        by_cases start : buf.misalign = 0
        · have more : buf.grown data.length ≠ buf.need data.length := fun same =>
            free ⟨grows, start, exact'.mp same⟩
          omega
        · omega
  · obtain ⟨misalign, totallen⟩ := fits (Nat.le_of_not_lt grows)
    rw [misalign, totallen, ← needed]
    constructor
    · intro inside'
      exact ⟨Nat.ne_of_lt (inside' some'), fun full => grows full.1⟩
    · rintro ⟨other, -⟩ -
      omega

/-- Data taken off the front leaves the terminator inside. -/
theorem Sound.inside_drain {buf : EvBuffer} (sound : Sound buf) (inside : TerminatorInside buf) (len : Nat) :
    TerminatorInside (buf.drain len) := by
  unfold TerminatorInside EvBuffer.drain getSize
  split
  case isTrue => exact fun some' => sound.isSome_iff.mp some'
  case isFalse part =>
    intro some'
    have held := inside some'
    rw [getSize] at held
    dsimp only
    omega

theorem Sound.step {mBuffer : EvBuffer} (sound : Sound mBuffer) (op : CacheOp) : Sound (mBuffer.step op) := by
  cases op with
  | append buffer nonempty => exact (sound.add nonempty).1
  | appendCache buffer =>
    rw [EvBuffer.step, appendCache]
    split
    case isTrue nonempty => exact (sound.add nonempty).1
    case isFalse => exact sound
  | erase len => exact (sound.drain _).1
  | reset => exact (sound.drain _).1
  | takeInto len => exact (sound.drain _).1
  | take => exact sound_init

/-- One operation. -/
theorem Sound.inside_step {mBuffer : EvBuffer} (sound : Sound mBuffer) (inside : TerminatorInside mBuffer)
    (op : CacheOp) : TerminatorInside (mBuffer.step op) ↔ mBuffer.Clear op := by
  cases op with
  | append buffer nonempty => exact sound.inside_add inside nonempty
  | appendCache buffer =>
    rw [EvBuffer.step, appendCache, Clear]
    split
    case isTrue nonempty =>
      rw [append, sound.inside_add inside nonempty]
      exact ⟨fun room _ => room, fun room => room nonempty⟩
    case isFalse empty => exact iff_of_true inside fun nonempty => absurd nonempty empty
  | erase len => exact iff_of_true (sound.inside_drain inside _) trivial
  | reset => exact iff_of_true (sound.inside_drain inside _) trivial
  | takeInto len => exact iff_of_true (sound.inside_drain inside _) trivial
  | take => exact iff_of_true (fun some' => by cases some') trivial

/-- **The terminator is inside the array throughout exactly the histories in which every append
leaves room for it.** -/
theorem terminator_inside_iff (ops : List CacheOp) :
    Throughout step TerminatorInside init ops ↔ EachMeets step Clear init ops := by
  apply throughout_iff (I := Sound)
  · exact inside_init
  · exact sound_init
  · intro mBuffer op _ sound _
    exact sound.step op
  · intro mBuffer op inside sound
    exact sound.inside_step inside op

/-- A frame of 256 bytes fills the first array. -/
theorem frame_of_256 : ¬ ∀ ops : List CacheOp, Throughout step TerminatorInside init ops := by
  intro always
  have size : (List.replicate 256 (0 : Byte)).length = 256 := List.length_replicate
  have nonempty : 0 < (List.replicate 256 (0 : Byte)).length := by rw [size]; decide
  have inside := always [.append _ nonempty] _ (List.prefix_refl _)
  have room : init.LeavesRoom 256 := size ▸ (sound_init.inside_add inside_init nonempty).mp inside
  exact room.2 ⟨by decide, rfl, 0, rfl⟩

end EvBuffer

end GreatEvent
