import GreatEvent.Client.DataBuffer

/-!
# The pool as a queue of blocks

What `CDataBuffer` is for: a queue of blocks of bytes. No `Buffer` object is
in its two lists twice (`Pool`), so writing into one that was unused leaves
the queued ones alone, and the contents of the queue are the blocks written.
-/

namespace GreatEvent.DataBuffer

open Lib

/-- The objects of the two lists are all different, and every object is as its operations keep it. -/
structure Pool (b : DataBuffer) : Prop where
  distinct : (b.m_listData ++ b.m_listUnuse).Nodup
  below : ∀ p ∈ b.m_listData ++ b.m_listUnuse, p < b.next
  valid : ∀ p, (b.objects p).Valid

/-- The blocks queued. -/
def blocks (b : DataBuffer) : List (List Cell) := b.m_listData.map fun p => (b.objects p).contents

theorem pool_init : Pool init :=
  ⟨List.nodup_nil, fun _ member => absurd member List.not_mem_nil, fun _ => Buffer.valid_init⟩

/-- The object `GetUnuseBuffer` returns is in neither list, and nothing queued has changed. -/
structure Taken (b b' : DataBuffer) (p : Nat) : Prop where
  queue : b'.m_listData = b.m_listData
  distinct : (b'.m_listData ++ p :: b'.m_listUnuse).Nodup
  below : ∀ q ∈ b'.m_listData ++ p :: b'.m_listUnuse, q < b'.next
  valid : ∀ q, (b'.objects q).Valid
  others : ∀ q, q ≠ p → b'.objects q = b.objects q

theorem valid_setObject {b : DataBuffer} (valid : ∀ q, (b.objects q).Valid) (p : Nat) {x : Buffer} (own : x.Valid) :
    ∀ q, ((b.setObject p x).objects q).Valid := by
  intro q
  rw [objects_setObject]
  split
  · exact own
  · exact valid q

theorem Pool.taken {b : DataBuffer} (pool : Pool b) (len : Int) :
    Taken b (b.getUnuseBuffer len).1 (b.getUnuseBuffer len).2 := by
  obtain ⟨distinct, below, valid⟩ := pool
  have picked := b.getUnuseBuffer_picked len
  generalize (b.getUnuseBuffer len).1 = b', (b.getUnuseBuffer len).2 = p at picked ⊢
  cases picked with
  | fit front _ back list least =>
    have order : (b.m_listData ++ p :: (front ++ back)).Perm (b.m_listData ++ b.m_listUnuse) := by
      rw [list]
      exact List.Perm.append_left _ List.perm_middle.symm
    exact ⟨rfl, order.nodup_iff.mpr distinct, fun q member => below q (order.mem_iff.mp member), valid,
      fun _ _ => rfl⟩
  | grow front _ back list none' largest =>
    have order : (b.m_listData ++ p :: (front ++ back)).Perm (b.m_listData ++ b.m_listUnuse) := by
      rw [list]
      exact List.Perm.append_left _ List.perm_middle.symm
    exact ⟨rfl, order.nodup_iff.mpr distinct, fun q member => below q (order.mem_iff.mp member),
      valid_setObject valid p ((valid p).extendBuffer _), fun q other => if_neg other⟩
  | new empty =>
    have order : (b.m_listData ++ b.next :: b.m_listUnuse).Perm (b.next :: (b.m_listData ++ b.m_listUnuse)) :=
      List.perm_middle
    refine ⟨rfl, order.nodup_iff.mpr (List.nodup_cons.mpr ⟨fun member => ?_, distinct⟩), fun q member => ?_,
      valid_setObject (valid_setObject valid _ Buffer.valid_init) _ (Buffer.valid_init.extendBuffer _),
      fun q other => (if_neg other).trans (if_neg other)⟩
    · exact Nat.lt_irrefl _ (below _ member)
    · change q < b.next + 1
      rcases List.mem_cons.mp (order.mem_iff.mp member) with rfl | member
      · exact Nat.lt_succ_self _
      · exact Nat.lt_succ_of_lt (below q member)

theorem Taken.writeBuffer {b b' : DataBuffer} {p : Nat} {lpData : List Byte} (taken : Taken b b' p)
    (length : Length lpData.length) :
    Pool (b'.writeBuffer p lpData lpData.length) ∧
      (b'.writeBuffer p lpData lpData.length).blocks = b.blocks ++ [lpData.map some] := by
  obtain ⟨queue, distinct, below, valid, others⟩ := taken
  have size : uint lpData.length = lpData.length :=
    Int.ofNat.inj (uint_of_nonneg (Int.le_of_lt length.1) (by have := length.2; omega))
  have pos : 0 < lpData.length := by have := length.1; omega
  have small : lpData.length < 2 ^ 32 := by have := length.2; omega
  have mapped : (lpData.map some).length = lpData.length := List.length_map _
  obtain ⟨filled, appended, own, contents⟩ :=
    Buffer.append_cleared (valid p) pos small (Nat.le_of_eq mapped.symm)
  rw [List.take_of_length_le (Nat.le_of_eq mapped)] at contents
  have lists : ((b'.m_listData ++ [p]) ++ b'.m_listUnuse) = b'.m_listData ++ p :: b'.m_listUnuse := by
    rw [List.append_assoc, List.singleton_append]
  have apart := (List.nodup_cons.mp (List.perm_middle.nodup_iff.mp distinct)).1
  simp only [DataBuffer.writeBuffer, size, appended]
  refine ⟨⟨by rwa [← lists] at distinct, by rwa [← lists] at below, valid_setObject valid p own⟩, ?_⟩
  rw [blocks, List.map_append, List.map_singleton, objects_setObject, if_pos rfl, contents, blocks, ← queue]
  congr 1
  apply List.map_congr_left
  intro q member
  have other : q ≠ p := fun same => apart (List.mem_append_left _ (same ▸ member))
  rw [objects_setObject, if_neg other, others q other]

/-- **A block is written behind those queued**, which stay as they are. -/
theorem Pool.writeData {b : DataBuffer} {lpData : List Byte} (pool : Pool b) (length : Length lpData.length) :
    Pool (b.writeData lpData) ∧ (b.writeData lpData).blocks = b.blocks ++ [lpData.map some] :=
  (pool.taken lpData.length).writeBuffer length

/-- What `GetData` and `RemoveHead` do to the lists. -/
theorem Pool.removeHead {b : DataBuffer} (pool : Pool b) : Pool b.removeHead ∧ b.removeHead.blocks = b.blocks.tail := by
  obtain ⟨distinct, below, valid⟩ := pool
  unfold DataBuffer.removeHead
  split
  case h_1 empty => exact ⟨⟨distinct, below, valid⟩, by rw [blocks, empty]; rfl⟩
  case h_2 it rest list =>
    have order : (rest ++ (b.m_listUnuse ++ [it])).Perm (b.m_listData ++ b.m_listUnuse) := by
      rw [list, ← List.append_assoc]
      exact List.perm_append_singleton it _
    exact ⟨⟨order.nodup_iff.mpr distinct, fun p member => below p (order.mem_iff.mp member), valid⟩,
      by rw [blocks, blocks, list]; rfl⟩

theorem getData_fst (b : DataBuffer) (dataBuf : Buffer) : (b.getData dataBuf).1 = b.removeHead := by
  unfold getData DataBuffer.removeHead
  cases b.m_listData <;> rfl

theorem Pool.clearBuffer {b : DataBuffer} (pool : Pool b) : Pool b.clearBuffer ∧ b.clearBuffer.blocks = [] := by
  have order : ([] ++ clearLoop b.m_listData b.m_listUnuse).Perm (b.m_listData ++ b.m_listUnuse) := by
    rw [List.nil_append, clearLoop_eq]
    exact List.perm_append_comm
  exact ⟨⟨order.nodup_iff.mpr pool.distinct, fun p member => pool.below p (order.mem_iff.mp member), pool.valid⟩, rfl⟩

/-- The calls on the pool. -/
inductive Call where
  | writeData (lpData : List Byte)
  | getData (dataBuf : Buffer)
  | getHead
  | removeHead
  | clearBuffer

/-- Data is written in blocks of a length `WriteData` may be given, and read into a sound `Buffer`. -/
def Call.Fits : Call → Prop
  | .writeData lpData => Length lpData.length
  | .getData dataBuf => dataBuf.Valid
  | _ => True

def step (b : DataBuffer) : Call → DataBuffer
  | .writeData lpData => b.writeData lpData
  | .getData dataBuf => (b.getData dataBuf).1
  | .getHead => b
  | .removeHead => b.removeHead
  | .clearBuffer => b.clearBuffer

/-- The calls on a queue of blocks. -/
def queueStep (q : List (List Byte)) : Call → List (List Byte)
  | .writeData lpData => q ++ [lpData]
  | .getData _ => q.tail
  | .getHead => q
  | .removeHead => q.tail
  | .clearBuffer => []

/-- The pool holds the blocks of the queue. -/
structure HoldsBlocks (b : DataBuffer) (q : List (List Byte)) : Prop where
  pool : Pool b
  blocks : b.blocks = q.map (List.map some)
  lengths : ∀ block ∈ q, Length block.length

/-- **One call does to the pool what it does to the queue.** -/
theorem HoldsBlocks.step {b : DataBuffer} {q : List (List Byte)} (holds : HoldsBlocks b q) {call : Call} (fits : call.Fits) :
    HoldsBlocks (b.step call) (queueStep q call) := by
  obtain ⟨pool, blocks, lengths⟩ := holds
  have removed : HoldsBlocks b.removeHead q.tail := by
    obtain ⟨pool', blocks'⟩ := pool.removeHead
    exact ⟨pool', by rw [blocks', blocks, List.map_tail], fun block member => lengths block (List.mem_of_mem_tail member)⟩
  cases call with
  | writeData lpData =>
    obtain ⟨pool', blocks'⟩ := pool.writeData fits
    refine ⟨pool', ?_, fun block member => ?_⟩
    · rw [DataBuffer.step, blocks', blocks, queueStep, List.map_append, List.map_singleton]
    · rcases List.mem_append.mp member with member | member
      · exact lengths block member
      · rw [List.mem_singleton.mp member]
        exact fits
  | getData dataBuf =>
    rw [DataBuffer.step, getData_fst]
    exact removed
  | getHead => exact ⟨pool, blocks, lengths⟩
  | removeHead => exact removed
  | clearBuffer =>
    obtain ⟨pool', blocks'⟩ := pool.clearBuffer
    exact ⟨pool', blocks', fun _ member => absurd member List.not_mem_nil⟩

/-- `GetHead` points at the first block of the queue. -/
def ShowsHead (b : DataBuffer) : List (List Byte) → Prop
  | [] => b.getHead = none
  | block :: _ => ∃ mem, b.getHead = some mem ∧ block.map some <+: mem

/-- `GetData` leaves the first block of the queue in `dataBuf`. -/
def Delivers (b : DataBuffer) (dataBuf : Buffer) : List (List Byte) → Prop
  | [] => (b.getData dataBuf).2 = (dataBuf, false)
  | block :: _ => ∃ after : Buffer, (b.getData dataBuf).2 = (after, true) ∧ after.Valid ∧
      after.contents = block.map some ∧ after.m_nDataSize = block.length

/-- What the callers of the pool see of a queue of blocks. -/
structure Fifo (b : DataBuffer) (q : List (List Byte)) : Prop extends HoldsBlocks b q where
  count : b.getDataCount = UInt32.ofNat q.length
  sizes : b.m_listData.map (fun p => (b.objects p).m_nDataSize) = q.map List.length
  head : b.ShowsHead q
  delivers : ∀ dataBuf : Buffer, dataBuf.Valid → b.Delivers dataBuf q

theorem HoldsBlocks.sizes {b : DataBuffer} {q : List (List Byte)} (holds : HoldsBlocks b q) :
    b.m_listData.map (fun p => (b.objects p).m_nDataSize) = q.map List.length := by
  have lengths := congrArg (List.map List.length) holds.blocks
  rw [DataBuffer.blocks, List.map_map, List.map_map] at lengths
  have own : ∀ p, (b.objects p).m_nDataSize = ((b.objects p).contents).length := fun p =>
    (holds.pool.valid p).length_contents.symm
  simp only [own]
  rw [show (fun p => (b.objects p).contents.length) = List.length ∘ fun p => (b.objects p).contents from rfl, lengths]
  apply List.map_congr_left
  intro block _
  exact List.length_map _

/-- The first of the queue: where its block lies and how long it is. -/
theorem HoldsBlocks.head {b : DataBuffer} {block : List Byte} {q : List (List Byte)} (holds : HoldsBlocks b (block :: q)) :
    ∃ it rest mem, b.m_listData = it :: rest ∧ (b.objects it).pointed = some mem ∧
      (b.objects it).m_nDataSize = block.length ∧ mem.take block.length = block.map some ∧ block.length ≤ mem.length := by
  have queued := holds.blocks
  have sizes := holds.sizes
  cases list : b.m_listData with
  | nil =>
    rw [DataBuffer.blocks, list] at queued
    cases queued
  | cons it rest =>
    rw [DataBuffer.blocks, list] at queued
    rw [list] at sizes
    have contents : (b.objects it).contents = block.map some := (List.cons.inj queued).1
    have size : (b.objects it).m_nDataSize = block.length := (List.cons.inj sizes).1
    have pos := (holds.lengths block List.mem_cons_self).1
    rw [Buffer.contents, size] at contents
    have long := congrArg List.length contents
    rw [List.length_take, List.length_map] at long
    cases pointed : (b.objects it).pointed with
    | none =>
      rw [pointed, Option.getD_none, List.length_nil] at long
      omega
    | some mem =>
      rw [pointed, Option.getD_some] at contents long
      exact ⟨it, rest, mem, rfl, pointed, size, contents, by omega⟩

theorem HoldsBlocks.fifo {b : DataBuffer} {q : List (List Byte)} (holds : HoldsBlocks b q) : Fifo b q where
  toHoldsBlocks := holds
  count := by
    have lengths := congrArg List.length holds.blocks
    rw [DataBuffer.blocks, List.length_map, List.length_map] at lengths
    rw [getDataCount, lengths]
  sizes := holds.sizes
  head := by
    cases q with
    | nil =>
      have empty : b.m_listData = [] := List.map_eq_nil_iff.mp holds.blocks
      rw [ShowsHead, DataBuffer.getHead, empty]
    | cons block q =>
      obtain ⟨it, rest, mem, list, pointed, -, front, -⟩ := holds.head
      rw [ShowsHead, DataBuffer.getHead, list]
      exact ⟨mem, pointed, front ▸ List.take_prefix _ _⟩
  delivers := by
    intro dataBuf valid
    cases q with
    | nil =>
      have empty : b.m_listData = [] := List.map_eq_nil_iff.mp holds.blocks
      rw [Delivers, DataBuffer.getData, empty]
    | cons block q =>
      obtain ⟨it, rest, mem, list, pointed, size, front, long⟩ := holds.head
      have length := holds.lengths block List.mem_cons_self
      obtain ⟨after, appended, own, contents⟩ := Buffer.append_cleared (n := block.length) valid
        (by have := length.1; omega) (by have := length.2; omega) long
      rw [front] at contents
      refine ⟨after, ?_, own, contents, ?_⟩
      · simp only [DataBuffer.getData, list, pointed, size, appended]
      · rw [← own.length_contents, contents, List.length_map]

theorem holdsBlocks_init : HoldsBlocks init [] := ⟨pool_init, rfl, fun _ member => absurd member List.not_mem_nil⟩

/-- **The pool is a queue of blocks** after any calls on it. -/
theorem pool_fifo (calls : List Call) (fits : ∀ call ∈ calls, call.Fits) :
    Fifo (calls.foldl step init) (calls.foldl queueStep []) := by
  have holds : HoldsBlocks (calls.foldl step init) (calls.foldl queueStep []) :=
    List.foldl_rel holdsBlocks_init fun call member _ _ holds => holds.step (fits call member)
  exact holds.fifo

/-- Two blocks through one pool: the second is queued while the first is taken. -/
def sampleCalls : List Call := [.writeData [1, 2, 3], .getHead, .writeData [4], .getData Buffer.init]

theorem pool_fifo_sample :
    Fifo (sampleCalls.foldl step init) (sampleCalls.foldl queueStep []) ∧ sampleCalls.foldl queueStep [] = [[4]] := by
  refine ⟨pool_fifo sampleCalls fun call member => ?_, rfl⟩
  simp only [sampleCalls, List.mem_cons, List.not_mem_nil, or_false] at member
  rcases member with rfl | rfl | rfl | rfl
  · exact ⟨by decide, by decide⟩
  · trivial
  · exact ⟨by decide, by decide⟩
  · exact Buffer.valid_init

end GreatEvent.DataBuffer
