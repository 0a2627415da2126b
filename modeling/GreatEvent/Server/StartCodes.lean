import GreatEvent.Lib.Stamps
import GreatEvent.Server.TaskPlayback

/-!
# Where `TaskPlayback::writeBuffer` writes start codes

The patching overwrites four bytes at each of a few places with a start
code: in front of every byte `0x67` or `0x68` among the first 36, then
behind the last of these by the byte in front of it, then at offset 0. The
scan reads bytes that its own start codes do not reach (`stamped_ahead`), so
the places are those of the packet as the demuxer gave it (`places`,
`data_patchStartCodes`).

`patching` is the same code with its memory accesses recorded. They stay
inside the packet just when `Inside` holds (`patching_inside_iff`).
-/

namespace GreatEvent

open Lib

/-- The scan takes this byte for the start of a parameter set. -/
def Marked (data : Int → Byte) (i : Nat) : Prop := data i = 0x67 ∨ data i = 0x68

instance (data : Int → Byte) (i : Nat) : Decidable (Marked data i) :=
  inferInstanceAs (Decidable (_ ∨ _))

/-- The first `n` bytes' marks. -/
def marks (data : Int → Byte) (n : Nat) : List Nat := (List.range n).filter fun i => Marked data i

/-- The bytes of `head`. -/
def startByte (i : Nat) : Byte := startCode.getD i 0

/-- The packet is scanned for parameter sets: a key frame whose fifth byte is `0x67`. -/
def Scanned (pkt : AVPacket) : Prop := pkt.flags &&& 1 ≠ 0 ∧ pkt.data 4 = 0x67

instance (pkt : AVPacket) : Decidable (Scanned pkt) := inferInstanceAs (Decidable (_ ∧ _))

/-- Where the start code behind the last mark goes: the byte in front of the mark further. -/
def tailPlace (data : Int → Byte) (marks : List Nat) : Int :=
  marks.getLast?.elim 0 fun i => i + (data (i - 1)).toNat

/-- The four bytes in front of each mark. -/
def markPlaces (data : Int → Byte) (n : Nat) : List Int := (marks data n).map fun i : Nat => (i : Int) - 4

/-- The first four bytes read `00 00 00 02`: the comparison leaves them as they are. -/
def LeavesFirst (data : Int → Byte) : Prop := [data 0, data 1, data 2, data 3] = [0, 0, 0, 2]

instance (data : Int → Byte) : Decidable (LeavesFirst data) := inferInstanceAs (Decidable (_ = _))

/-- The places that are overwritten with a start code, in order. -/
def places (pkt : AVPacket) : List Int :=
  if Scanned pkt then
    markPlaces pkt.data 36 ++ [tailPlace pkt.data (marks pkt.data 36)] ++ [0]
  else if LeavesFirst pkt.data then [] else [0]

section
variable {data : Int → Byte} {n : Nat}

theorem mem_marks {i : Nat} : i ∈ marks data n ↔ i < n ∧ Marked data i := by
  simp [marks]

theorem marks_succ (data : Int → Byte) (n : Nat) :
    marks data (n + 1) = if Marked data n then marks data n ++ [n] else marks data n := by
  rw [marks, List.range_succ, List.filter_append]
  by_cases marked : Marked data n
  · simp [marks, marked]
  · simp [marks, marked]

theorem markPlaces_succ (data : Int → Byte) (n : Nat) : markPlaces data (n + 1) =
    if Marked data n then markPlaces data n ++ [(n : Int) - 4] else markPlaces data n := by
  unfold markPlaces
  rw [marks_succ]
  by_cases marked : Marked data n
  · rw [if_pos marked, if_pos marked, List.map_append]
    rfl
  · rw [if_neg marked, if_neg marked]

theorem memcpy4_startCode (data : Int → Byte) (off : Int) :
    memcpy4 data off startCode = stamp 4 startByte data off := rfl

/-! ## The scan -/

/-- The start codes written so far end in front of the byte in front of the next one scanned. -/
theorem stamped_ahead {i : Int} (ahead : (n : Int) ≤ i + 1) :
    stampAll 4 startByte data (markPlaces data n) i = data i := by
  apply stampAll_of_apart
  intro place member covers
  obtain ⟨j, mark, rfl⟩ := List.mem_map.mp member
  have behind := (mem_marks.mp mark).1
  have beyond := covers.2
  omega

theorem StartCodeScan.next_eq (s : StartCodeScan) (i : Nat) :
    s.next i = if Marked s.data i then
      ⟨stamp 4 startByte s.data ((i : Int) - 4), i, (s.data ((i : Int) - 1)).toNat⟩ else s := rfl

/-- **The scan**, after `n` bytes. -/
theorem scan_eq (data : Int → Byte) (n : Nat) :
    (List.range n).foldl StartCodeScan.next ⟨data, 0, 0⟩ =
      { data := stampAll 4 startByte data (markPlaces data n)
        index := (marks data n).getLast?.elim 0 fun i : Nat => (i : Int)
        len := (marks data n).getLast?.elim 0 fun i : Nat => ((data (i - 1)).toNat : Int) } := by
  induction n with
  | zero => rfl
  | succ n ih =>
    have current : stampAll 4 startByte data (markPlaces data n) n = data n :=
      stamped_ahead (by omega)
    have before : stampAll 4 startByte data (markPlaces data n) (n - 1) = data (n - 1) :=
      stamped_ahead (by omega)
    rw [List.range_succ, List.foldl_append, ih, List.foldl_cons, List.foldl_nil,
      StartCodeScan.next_eq]
    by_cases marked : Marked data n
    · have still : Marked (stampAll 4 startByte data (markPlaces data n)) n := by
        rwa [Marked, current]
      rw [if_pos still, markPlaces_succ, marks_succ, if_pos marked, if_pos marked, stampAll_concat,
        List.getLast?_concat, Option.elim_some, Option.elim_some, ← before]
    · have still : ¬ Marked (stampAll 4 startByte data (markPlaces data n)) n := by
        rwa [Marked, current]
      rw [if_neg still, markPlaces_succ, marks_succ, if_neg marked, if_neg marked]

theorem index_add_len (data : Int → Byte) (marks : List Nat) :
    (marks.getLast?.elim 0 fun i : Nat => (i : Int)) +
      (marks.getLast?.elim 0 fun i : Nat => ((data (i - 1)).toNat : Int)) = tailPlace data marks := by
  rw [tailPlace]
  cases marks.getLast? with
  | none => rfl
  | some i => rfl

/-- A scan finds its own condition: the fifth byte. -/
theorem four_mem_marks {pkt : AVPacket} (scanned : Scanned pkt) : 4 ∈ marks pkt.data 36 :=
  mem_marks.mpr ⟨by decide, .inl scanned.2⟩

/-- A start code holds no 2. -/
theorem startByte_ne_two (i : Nat) : startByte i ≠ 2 := by
  match i with
  | 0 | 1 | 2 | 3 => decide
  | i + 4 => simp [startByte, startCode]

/-- The packet when its first four bytes are compared. -/
def scannedData (pkt : AVPacket) : Int → Byte :=
  if Scanned pkt then
    stampAll 4 startByte pkt.data
      (markPlaces pkt.data 36 ++ [tailPlace pkt.data (marks pkt.data 36)])
  else pkt.data

theorem patchStartCodes_video (pkt : AVPacket) : (patchStartCodes .video pkt).data =
    if 4 ≤ pkt.size ∧ ¬ LeavesFirst (scannedData pkt) then
      stamp 4 startByte (scannedData pkt) 0
    else scannedData pkt := by
  have scan : scannedData pkt = if pkt.flags &&& 1 ≠ 0 ∧ pkt.data 4 = 0x67 then
      let scan := (List.range 36).foldl StartCodeScan.next ⟨pkt.data, 0, 0⟩
      memcpy4 scan.data (scan.index + scan.len) startCode
    else pkt.data := by
    simp only [scan_eq, index_add_len, memcpy4_startCode, ← stampAll_concat]
    rfl
  rw [patchStartCodes, ← scan]
  rfl

/-- Behind the scan the fourth byte is a start code's. -/
theorem scannedData_three {pkt : AVPacket} (scanned : Scanned pkt) :
    ¬ LeavesFirst (scannedData pkt) := by
  intro same
  have member : (0 : Int) ∈ markPlaces pkt.data 36 ++ [tailPlace pkt.data (marks pkt.data 36)] :=
    List.mem_append_left _ (List.mem_map.mpr ⟨4, four_mem_marks scanned, rfl⟩)
  obtain ⟨place, last⟩ := exists_lastOver (k := 4) (i := 3) member ⟨by decide, by decide⟩
  have two : scannedData pkt 3 = 2 := by
    injection same with _ same
    injection same with _ same
    injection same with _ same
    injection same
  rw [scannedData, if_pos scanned, stampAll_of_over last] at two
  exact startByte_ne_two _ two

/-- **The patched packet** has a start code stamped at each of the places. -/
theorem data_patchStartCodes {pkt : AVPacket} (room : 4 ≤ pkt.size) :
    (patchStartCodes .video pkt).data = stampAll 4 startByte pkt.data (places pkt) := by
  rw [patchStartCodes_video, places]
  by_cases scanned : Scanned pkt
  · rw [if_pos ⟨room, scannedData_three scanned⟩, if_pos scanned, stampAll_concat, scannedData,
      if_pos scanned]
  · have plain : scannedData pkt = pkt.data := if_neg scanned
    rw [if_neg scanned, plain]
    by_cases two : LeavesFirst pkt.data
    · rw [if_neg fun both => both.2 two, if_pos two]
      rfl
    · rw [if_pos ⟨room, two⟩, if_neg two]
      rfl

end

/-! ## The accesses -/

/-- The memory under the patching, and the offsets read or overwritten so far. -/
structure Accesses where
  data : Int → Byte
  used : List Int

/-- The patching, access by access. -/
abbrev Patching := StateM Accesses

namespace Patching

/-- `pkt.data[i]` -/
def read (i : Int) : Patching Byte := do
  modify fun s => { s with used := s.used ++ [i] }
  return (← get).data i

/-- `memcpy(pkt.data+off, head, 4)` -/
def store (off : Int) : Patching Unit :=
  modify fun s => { data := memcpy4 s.data off startCode,
                    used := s.used ++ [off, off + 1, off + 2, off + 3] }

/-- One round of the scan: `index` and `len`. -/
def round (kept : Int × Int) (i : Nat) : Patching (Int × Int) := do
  let curDat ← read i
  if curDat = 0x67 ∨ curDat = 0x68 then
    let len ← read ((i : Int) - 1)
    store ((i : Int) - 4)
    return (i, len.toNat)
  else return kept

/-- The scan for parameter sets and the start code behind the last one. -/
def scan : Patching Unit := do
  let (index, len) ← (List.range 36).foldlM round (0, 0)
  store (index + len)

/-- What is done for a key frame only. -/
def key (pkt : AVPacket) : Patching Unit := do
  if pkt.flags &&& 1 ≠ 0 then
    if (← read 4) = 0x67 then scan

/-- `memcmp(head2, pkt.data, 4)` and what follows. -/
def first : Patching Unit := do
  let bytes := [← read 0, ← read 1, ← read 2, ← read 3]
  if bytes ≠ [0, 0, 0, 2] then store 0

end Patching

/-- `writeBuffer`'s start-code patching, with its accesses. -/
def patching (frameType : MediaType) (pkt : AVPacket) : Patching Unit :=
  match frameType with
  | .video => do
    Patching.key pkt
    if pkt.size ≥ 4 then Patching.first
  | _ => return ()

/-- The state it leaves. -/
def patched (frameType : MediaType) (pkt : AVPacket) : Accesses :=
  ((patching frameType pkt).run ⟨pkt.data, []⟩).2

/-- The four offsets of a start code. -/
def fourFrom (off : Int) : List Int := [off, off + 1, off + 2, off + 3]

/-- What one round of the scan accesses. -/
def roundOffsets (data : Int → Byte) (i : Nat) : List Int :=
  if Marked data i then (i : Int) :: ((i : Int) - 1) :: fourFrom ((i : Int) - 4) else [(i : Int)]

theorem roundOffsets_congr {data other : Int → Byte} {i : Nat} (same : data i = other i) :
    roundOffsets data i = roundOffsets other i := by
  have marked : Marked data i ↔ Marked other i := by rw [Marked, Marked, same]
  unfold roundOffsets
  by_cases here : Marked other i
  · rw [if_pos here, if_pos (marked.mpr here)]
  · rw [if_neg here, if_neg fun there => here (marked.mp there)]

theorem run_read (i : Int) (s : Accesses) :
    StateT.run (Patching.read i) s = (s.data i, { s with used := s.used ++ [i] }) := rfl

theorem run_store (off : Int) (s : Accesses) : StateT.run (Patching.store off) s =
    ((), { data := stamp 4 startByte s.data off, used := s.used ++ fourFrom off }) := rfl

theorem run_bind {α β : Type} (x : Patching α) (f : α → Patching β) (s : Accesses) :
    StateT.run (x >>= f) s = StateT.run (f (StateT.run x s).1) (StateT.run x s).2 := rfl

/-- One round accesses the byte and, in front of a mark, the five offsets it reads and overwrites. -/
theorem run_round (s : StartCodeScan) (used : List Int) (i : Nat) :
    StateT.run (Patching.round (s.index, s.len) i) ⟨s.data, used⟩ =
      (((s.next i).index, (s.next i).len), ⟨(s.next i).data, used ++ roundOffsets s.data i⟩) := by
  rw [Patching.round, run_bind, run_read, StartCodeScan.next_eq, roundOffsets]
  by_cases marked : Marked s.data i
  · have branch : s.data i = 0x67 ∨ s.data i = 0x68 := marked
    simp only [if_pos marked, if_pos branch, run_bind, run_read, run_store, List.append_assoc,
      List.singleton_append]
    rfl
  · have branch : ¬ (s.data i = 0x67 ∨ s.data i = 0x68) := marked
    simp only [if_neg marked, if_neg branch]
    rfl

/-- The rounds of the scan are those of the model. -/
theorem run_rounds (data : Int → Byte) (used : List Int) (n : Nat) :
    StateT.run ((List.range n).foldlM Patching.round (0, 0)) ⟨data, used⟩ =
      let s := (List.range n).foldl StartCodeScan.next ⟨data, 0, 0⟩
      ((s.index, s.len), ⟨s.data, used ++ (List.range n).flatMap (roundOffsets data)⟩) := by
  induction n with
  | zero =>
    rw [List.range_zero, List.flatMap_nil, List.append_nil]
    rfl
  | succ n ih =>
    have scanned := congrArg StartCodeScan.data (scan_eq data n)
    have same : roundOffsets ((List.range n).foldl StartCodeScan.next ⟨data, 0, 0⟩).data n =
        roundOffsets data n := by
      apply roundOffsets_congr
      rw [scanned]
      exact stamped_ahead (by omega)
    rw [List.range_succ, List.foldlM_append, run_bind, ih]
    refine (run_round _ _ n).trans ?_
    rw [List.flatMap_append, List.foldl_append, List.flatMap_singleton, ← List.append_assoc, same]
    rfl

/-- What the scan and the start code behind it access. -/
def scanOffsets (data : Int → Byte) : List Int :=
  (List.range 36).flatMap (roundOffsets data) ++ fourFrom (tailPlace data (marks data 36))

theorem run_scan (data : Int → Byte) (used : List Int) :
    StateT.run Patching.scan ⟨data, used⟩ =
      ((), { data := stampAll 4 startByte data
               (markPlaces data 36 ++ [tailPlace data (marks data 36)])
             used := used ++ scanOffsets data }) := by
  rw [Patching.scan, run_bind, run_rounds, stampAll_concat, scanOffsets, ← index_add_len,
    ← List.append_assoc]
  simp only [scan_eq]
  rfl

theorem run_first (data : Int → Byte) (used : List Int) :
    StateT.run Patching.first ⟨data, used⟩ =
      if LeavesFirst data then ((), ⟨data, used ++ fourFrom 0⟩)
      else ((), ⟨stamp 4 startByte data 0, used ++ fourFrom 0 ++ fourFrom 0⟩) := by
  have four (s : List Int) : s ++ [0] ++ [1] ++ [2] ++ [3] = s ++ fourFrom 0 := by
    simp [fourFrom]
  simp only [Patching.first, run_bind, run_read, four]
  by_cases two : LeavesFirst data
  · rw [if_pos two, if_neg fun other => other two]
    rfl
  · have other : [data 0, data 1, data 2, data 3] ≠ [0, 0, 0, 2] := two
    rw [if_neg two, if_pos other]
    rfl

/-- What is accessed on the way to the last comparison. -/
def keyOffsets (pkt : AVPacket) : List Int :=
  if pkt.flags &&& 1 ≠ 0 then
    if pkt.data 4 = 0x67 then 4 :: scanOffsets pkt.data else [4]
  else []

/-- The state in front of the last comparison. -/
def beforeFirst (pkt : AVPacket) : Accesses := ⟨scannedData pkt, keyOffsets pkt⟩

theorem run_key (pkt : AVPacket) :
    StateT.run (Patching.key pkt) ⟨pkt.data, []⟩ = ((), beforeFirst pkt) := by
  unfold Patching.key beforeFirst scannedData keyOffsets
  by_cases flag : pkt.flags &&& 1 ≠ 0
  · rw [if_pos flag, if_pos flag, run_bind, run_read]
    by_cases sps : pkt.data 4 = 0x67
    · simp only [if_pos sps, if_pos (show Scanned pkt from ⟨flag, sps⟩), run_scan]
      rfl
    · simp only [if_neg sps, if_neg fun both : Scanned pkt => sps both.2]
      rfl
  · simp only [if_neg flag, if_neg fun both : Scanned pkt => flag both.1]
    rfl

theorem patched_video (pkt : AVPacket) : patched .video pkt =
    if 4 ≤ pkt.size then (StateT.run Patching.first (beforeFirst pkt)).2 else beforeFirst pkt := by
  rw [patched, patching, run_bind, run_key]
  split
  · rfl
  · rfl

/-- **The recorded patching is the patching of the model.** -/
theorem data_patched (frameType : MediaType) (pkt : AVPacket) :
    (patched frameType pkt).data = (patchStartCodes frameType pkt).data := by
  cases frameType with
  | video =>
    rw [patched_video, patchStartCodes_video]
    by_cases room : 4 ≤ pkt.size
    · rw [if_pos room, run_first]
      by_cases two : LeavesFirst (scannedData pkt)
      · rw [if_pos (show LeavesFirst (beforeFirst pkt).data from two), if_neg fun both => both.2 two]
        rfl
      · rw [if_neg (show ¬ LeavesFirst (beforeFirst pkt).data from two), if_pos ⟨room, two⟩]
        rfl
    · rw [if_neg room, if_neg fun both => room both.1]
      rfl
  | audio => rfl
  | other => rfl

theorem mem_fourFrom {off i : Int} : i ∈ fourFrom off ↔ off ≤ i ∧ i < off + 4 := by
  simp only [fourFrom, List.mem_cons, List.not_mem_nil, or_false]
  omega

theorem mem_roundOffsets {data : Int → Byte} {i : Nat} {off : Int} :
    off ∈ roundOffsets data i ↔ off = i ∨ Marked data i ∧ (i : Int) - 4 ≤ off ∧ off < i := by
  unfold roundOffsets
  by_cases marked : Marked data i
  · rw [if_pos marked, List.mem_cons, List.mem_cons, mem_fourFrom]
    simp only [marked, true_and]
    omega
  · simp [marked]

theorem tailPlace_nonneg (data : Int → Byte) (marks : List Nat) : 0 ≤ tailPlace data marks := by
  unfold tailPlace
  cases marks.getLast? with
  | none => exact Int.le_refl 0
  | some i =>
    rw [Option.elim_some]
    omega

/-- The scan stays inside a packet of 36 bytes without a mark among the first four, the start code
behind it inside one that has room for it. -/
theorem scanOffsets_inside_iff (data : Int → Byte) (size : Nat) :
    (∀ i ∈ scanOffsets data, 0 ≤ i ∧ i < size) ↔
      36 ≤ size ∧ (∀ i < 4, ¬ Marked data i) ∧ tailPlace data (marks data 36) + 4 ≤ size := by
  constructor
  · intro inside
    have round {i : Nat} {off : Int} (scanned : i < 36) (used : off ∈ roundOffsets data i) :
        0 ≤ off ∧ off < size :=
      inside off (List.mem_append_left _ (List.mem_flatMap.mpr ⟨i, List.mem_range.mpr scanned, used⟩))
    refine ⟨?_, fun i early marked => ?_, ?_⟩
    · have last := (round (i := 35) (by decide) (mem_roundOffsets.mpr (.inl rfl))).2
      omega
    · have written : (i : Int) - 4 ∈ roundOffsets data i :=
        mem_roundOffsets.mpr (.inr ⟨marked, Int.le_refl _, by omega⟩)
      have low := (round (by omega) written).1
      omega
    · have last := (inside (tailPlace data (marks data 36) + 3)
        (List.mem_append_right _ (mem_fourFrom.mpr ⟨by omega, by omega⟩))).2
      omega
  · rintro ⟨long, unmarked, room⟩ off used
    rcases List.mem_append.mp used with scanned | tail
    · obtain ⟨i, range, access⟩ := List.mem_flatMap.mp scanned
      have bound := List.mem_range.mp range
      rcases mem_roundOffsets.mp access with rfl | ⟨marked, low, high⟩
      · omega
      · have late : ¬ i < 4 := fun early => unmarked i early marked
        omega
    · have start := tailPlace_nonneg data (marks data 36)
      have between := mem_fourFrom.mp tail
      omega

/-- The condition on a key frame's packet: it has a fifth byte and, if that is `0x67`, it has 36
bytes, none of the first four is a mark, and there is room for a start code behind the last mark. -/
def RoomToPatch (pkt : AVPacket) : Prop :=
  4 < pkt.size ∧ (pkt.data 4 = 0x67 →
    36 ≤ pkt.size ∧ (∀ i < 4, ¬ Marked pkt.data i) ∧
      tailPlace pkt.data (marks pkt.data 36) + 4 ≤ pkt.size)

theorem keyOffsets_inside_iff (pkt : AVPacket) :
    (∀ i ∈ keyOffsets pkt, 0 ≤ i ∧ i < pkt.size) ↔ (pkt.flags &&& 1 ≠ 0 → RoomToPatch pkt) := by
  unfold keyOffsets RoomToPatch
  by_cases flag : pkt.flags &&& 1 ≠ 0
  · have fifth : (0 ≤ (4 : Int) ∧ (4 : Int) < pkt.size) ↔ 4 < pkt.size := by omega
    rw [if_pos flag, forall_prop_of_true flag]
    by_cases sps : pkt.data 4 = 0x67
    · rw [if_pos sps, List.forall_mem_cons, scanOffsets_inside_iff, forall_prop_of_true sps, fifth]
    · rw [if_neg sps, List.forall_mem_singleton, forall_prop_of_false sps, fifth, and_true]
  · rw [if_neg flag]
    exact ⟨fun _ set => absurd set flag, fun _ i none' => absurd none' List.not_mem_nil⟩

/-- The comparison and the start code it leads to stay inside. -/
theorem used_first_inside {pkt : AVPacket} (room : 4 ≤ pkt.size) {i : Int} (s : Accesses)
    (used : i ∈ (StateT.run Patching.first s).2.used) : i ∈ s.used ∨ 0 ≤ i ∧ i < pkt.size := by
  rw [run_first] at used
  have four (member : i ∈ fourFrom 0) : 0 ≤ i ∧ i < pkt.size := by
    have between := mem_fourFrom.mp member
    omega
  by_cases two : LeavesFirst s.data
  · rw [if_pos two] at used
    rcases List.mem_append.mp used with before | compared
    · exact .inl before
    · exact .inr (four compared)
  · rw [if_neg two] at used
    rcases List.mem_append.mp used with before | written
    · rcases List.mem_append.mp before with before | compared
      · exact .inl before
      · exact .inr (four compared)
    · exact .inr (four written)

theorem used_of_before {i : Int} (s : Accesses) (used : i ∈ s.used) :
    i ∈ (StateT.run Patching.first s).2.used := by
  rw [run_first]
  split
  · exact List.mem_append_left _ used
  · exact List.mem_append_left _ (List.mem_append_left _ used)

/-- **Where the patching stays inside the packet**: when it is no key frame, or has room. -/
theorem patching_inside_iff (pkt : AVPacket) :
    (∀ i ∈ (patched .video pkt).used, 0 ≤ i ∧ i < pkt.size) ↔
      (pkt.flags &&& 1 ≠ 0 → RoomToPatch pkt) := by
  rw [← keyOffsets_inside_iff, patched_video]
  by_cases room : 4 ≤ pkt.size
  · rw [if_pos room]
    constructor
    · exact fun inside i used => inside i (used_of_before _ used)
    · intro inside i used
      exact (used_first_inside room _ used).elim (inside i) id
  · rw [if_neg room]
    rfl

/-- A parameter set alone: five bytes behind their length. -/
def loneSps : AVPacket where
  data i := [0, 0, 0, 5, 0x67, 0x42, 0, 0x1e, 0x95].getD i.toNat 0
  size := 9
  pts := 0
  flags := 1
  size_lt := by decide

/-- The scan of this packet reads up to offset 35. -/
theorem scan_leaves_packet : ¬ ∀ i ∈ (patched .video loneSps).used, 0 ≤ i ∧ i < loneSps.size := by
  decide +kernel

end GreatEvent
