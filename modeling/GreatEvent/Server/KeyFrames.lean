import GreatEvent.Nal.AnnexB
import GreatEvent.Server.PlaybackPacing
import GreatEvent.Server.StartCodes

/-!
# Which packets `writeBuffer` turns into Annex-B form

A demuxer packet holds its NAL units each behind its length (`pack`), the
client expects each behind a start code (`annexB`). The patching knows
neither: it stamps start codes at the `places`. The packet it leaves is the
Annex-B form of the units just when every unit `Converts`: the last place
that touches its length field is that field, or none touches it and it reads
1 already, and where places lie over the unit itself the last of them puts
there what was there.
-/

namespace GreatEvent

open Lib Nal

/-- The four-byte length a demuxer puts in front of a unit: most significant byte first. -/
def lengthField (n : Nat) : List Byte := (leBytes 4 n).reverse

/-- The units as a demuxer packet. -/
def pack (units : List (List Byte)) : List Byte :=
  units.flatMap fun nal => lengthField nal.length ++ nal

/-- The units as an Annex-B stream. -/
def annexB (units : List (List Byte)) : List Byte := encode (units.map fun nal => ⟨.four, nal⟩)

/-- The `n` bytes from `off` on. -/
def bytesAt (data : Int → Byte) (off : Int) (n : Nat) : List Byte :=
  (List.range n).map fun i : Nat => data (off + i)

/-- The units with the offsets of their length fields. -/
def located : Int → List (List Byte) → List (Int × List Byte)
  | _, [] => []
  | off, nal :: units => (off, nal) :: located (off + 4 + nal.length) units

/-- The places leave the unit as it is and a start code in front of it. -/
structure Converts (places : List Int) (unit : Int × List Byte) : Prop where
  field : lastTouching 4 places unit.1 = some unit.1 ∨
    lastTouching 4 places unit.1 = none ∧ unit.2.length = 1
  nal : ∀ j (h : j < unit.2.length), ∀ place ∈ lastOver 4 places (unit.1 + 4 + j),
    startByte (unit.1 + 4 + j - place).toNat = unit.2[j]

instance (places : List Int) (unit : Int × List Byte) : Decidable (Converts places unit) :=
  decidable_of_iff
    ((lastTouching 4 places unit.1 = some unit.1 ∨
      lastTouching 4 places unit.1 = none ∧ unit.2.length = 1) ∧
      ∀ j (h : j < unit.2.length), ∀ place ∈ lastOver 4 places (unit.1 + 4 + j),
        startByte (unit.1 + 4 + j - place).toNat = unit.2[j])
    ⟨fun both => ⟨both.1, both.2⟩, fun converts => ⟨converts.field, converts.nal⟩⟩

section
variable {data : Int → Byte} {off : Int}

@[simp] theorem length_lengthField (n : Nat) : (lengthField n).length = 4 := by
  simp [lengthField]

@[simp] theorem length_bytesAt (n : Nat) : (bytesAt data off n).length = n := by
  simp [bytesAt]

theorem payload_eq_bytesAt (pkt : AVPacket) : pkt.payload = bytesAt pkt.data 0 pkt.size := by
  simp [AVPacket.payload, bytesAt]

theorem bytesAt_add (m n : Nat) :
    bytesAt data off (m + n) = bytesAt data off m ++ bytesAt data (off + m) n := by
  simp only [bytesAt, List.range_add, List.map_append, List.map_map]
  congr 2
  funext i
  simp only [Function.comp_apply]
  congr 1
  omega

/-- A list stands at an offset when each of its bytes does. -/
theorem bytesAt_eq_iff {bs : List Byte} {n : Nat} (length : bs.length = n) :
    bytesAt data off n = bs ↔ ∀ j (h : j < bs.length), data (off + j) = bs[j] := by
  subst length
  constructor
  · intro same j h
    have both := List.getElem_of_eq same (by rwa [length_bytesAt] : j < _)
    simpa [bytesAt] using both
  · intro each
    apply List.ext_getElem
    · simp
    · intro j _ h
      rw [← each j h]
      simp [bytesAt]

/-- Units behind four-byte headers stand at an offset when each header and each unit does. -/
theorem bytesAt_units_iff {header : List Byte → List Byte}
    (four : ∀ nal, (header nal).length = 4) (units : List (List Byte)) :
    bytesAt data off (units.flatMap fun nal => header nal ++ nal).length =
        (units.flatMap fun nal => header nal ++ nal) ↔
      ∀ u ∈ located off units, bytesAt data u.1 4 = header u.2 ∧
        bytesAt data (u.1 + 4) u.2.length = u.2 := by
  induction units generalizing off with
  | nil => simp [located, bytesAt]
  | cons nal units ih =>
    have next : off + (4 + nal.length : Nat) = off + 4 + nal.length := by omega
    rw [List.flatMap_cons, List.length_append, List.length_append, four, bytesAt_add, bytesAt_add,
      located, List.forall_mem_cons, ← ih, next]
    constructor
    · intro same
      obtain ⟨front, rest⟩ := List.append_inj same (by simp [four])
      exact ⟨List.append_inj front (by simp [four]), rest⟩
    · rintro ⟨⟨field, unit⟩, rest⟩
      have field : bytesAt data off (4 : Nat) = header nal := field
      have unit : bytesAt data (off + (4 : Nat)) nal.length = nal := unit
      rw [field, unit, rest]

theorem length_annexB (units : List (List Byte)) : (annexB units).length = (pack units).length := by
  induction units with
  | nil => rfl
  | cons nal units ih =>
    have cons : annexB (nal :: units) = startCode ++ nal ++ annexB units := rfl
    rw [cons, pack, List.flatMap_cons, List.length_append, ih, List.length_append, List.length_append,
      List.length_append, length_lengthField, pack]
    rfl

theorem annexB_eq_flatMap (units : List (List Byte)) :
    annexB units = units.flatMap fun nal => startCode ++ nal := by
  rw [annexB, encode, List.flatMap_map]
  rfl

/-! ## Start codes and length fields -/

/-- `00 00 00 01` differs from itself however it is shifted. -/
theorem unbordered_startByte : Unbordered 4 startByte := by
  intro d pos short
  refine ⟨3 - d, by omega, ?_⟩
  match d with
  | 1 | 2 | 3 => decide

theorem reads_startCode : Reads 4 startByte data off ↔ bytesAt data off 4 = startCode := by
  have length : startCode.length = 4 := rfl
  rw [bytesAt_eq_iff length]
  constructor
  · intro reads j h
    rw [reads j h, startByte, List.getD_eq_getElem?_getD, List.getElem?_eq_getElem h, Option.getD_some]
  · intro each j h
    rw [each j h, startByte, List.getD_eq_getElem?_getD, List.getElem?_eq_getElem h, Option.getD_some]

/-- A length field tells the length. -/
theorem lengthField_inj {m n : Nat} (short : m < 2 ^ 32) (short' : n < 2 ^ 32) :
    lengthField m = lengthField n ↔ m = n := by
  constructor
  · intro same
    have value := congrArg leValue (List.reverse_injective same)
    rw [leValue_leBytes, leValue_leBytes] at value
    omega
  · rintro rfl
    rfl

/-- It reads as a start code when the length is 1. -/
theorem lengthField_eq_startCode {n : Nat} (short : n < 2 ^ 32) :
    lengthField n = startCode ↔ n = 1 := by
  have one : startCode = lengthField 1 := by decide
  rw [one, lengthField_inj short (by decide)]

/-! ## The packet -/

theorem map_located (off : Int) (units : List (List Byte)) :
    (located off units).map Prod.snd = units := by
  induction units generalizing off with
  | nil => rfl
  | cons nal units ih => rw [located, List.map_cons, ih]

theorem nal_mem_of_located {units : List (List Byte)} {u : Int × List Byte}
    (member : u ∈ located off units) : u.2 ∈ units := by
  rw [← map_located off units]
  exact List.mem_map_of_mem member

theorem le_of_mem_located {units : List (List Byte)} {u : Int × List Byte}
    (member : u ∈ located off units) : off ≤ u.1 := by
  induction units generalizing off with
  | nil => cases member
  | cons nal units ih =>
    rcases List.mem_cons.mp member with rfl | later
    · exact Int.le_refl _
    · have behind := ih later
      omega

/-- A unit stays as it is when the last place over each of its bytes puts there what was there. -/
theorem stamped_nal_iff {places : List Int} {nal : List Byte}
    (stood : bytesAt data off nal.length = nal) :
    bytesAt (stampAll 4 startByte data places) off nal.length = nal ↔
      ∀ j (h : j < nal.length), ∀ place ∈ lastOver 4 places (off + j),
        startByte (off + j - place).toNat = nal[j] := by
  rw [bytesAt_eq_iff rfl]
  apply forall₂_congr
  intro j h
  rw [stampAll_apply]
  cases last : lastOver 4 places (off + j) with
  | none =>
    have before := (bytesAt_eq_iff rfl).mp stood j h
    exact ⟨fun _ _ member => absurd member (Option.not_mem_none _), fun _ => before⟩
  | some place =>
    constructor
    · intro value other member
      rw [← Option.some.inj member]
      exact value
    · exact fun each => each place rfl

/-- In a packet each unit stands behind its length. -/
theorem units_of_packed {units : List (List Byte)} {n : Nat} (packed : bytesAt data 0 n = pack units) :
    ∀ u ∈ located 0 units, bytesAt data u.1 4 = lengthField u.2.length ∧
      bytesAt data (u.1 + 4) u.2.length = u.2 := by
  have size : n = (pack units).length := by rw [← packed, length_bytesAt]
  rw [size] at packed
  exact (bytesAt_units_iff (fun nal => length_lengthField nal.length) units).mp packed

/-- **Which units are converted.** -/
theorem stamped_annexB_iff {places : List Int} {units : List (List Byte)}
    (short : ∀ nal ∈ units, nal.length < 2 ^ 32) {n : Nat} (packed : bytesAt data 0 n = pack units) :
    bytesAt (stampAll 4 startByte data places) 0 n = annexB units ↔
      ∀ u ∈ located 0 units, Converts places u := by
  have size : n = (pack units).length := by rw [← packed, length_bytesAt]
  rw [size, ← length_annexB, annexB_eq_flatMap, bytesAt_units_iff fun _ => rfl]
  apply forall₂_congr
  intro u member
  obtain ⟨field, nal⟩ := units_of_packed packed u member
  rw [← reads_startCode, reads_stampAll_iff unbordered_startByte, reads_startCode, field,
    lengthField_eq_startCode (short u.2 (nal_mem_of_located member)), stamped_nal_iff nal]
  exact ⟨fun both => ⟨both.1, both.2⟩, fun converts => ⟨converts.field, converts.nal⟩⟩

end

/-! ## Packets that are not scanned -/

theorem lastOver_start {i : Int} (behind : 4 ≤ i) : lastOver 4 [0] i = none := by
  have apart : ¬ Covers 4 0 i := fun covers => by
    have short := covers.2
    omega
  simp [lastOver, apart]

theorem lastTouching_start {off : Int} (behind : 4 ≤ off) : lastTouching 4 [0] off = none := by
  have apart : ¬ Touches 4 0 off := fun touches => by
    have short := touches.2
    omega
  simp [lastTouching, apart]

/-- With a start code at offset 0 alone, a unit behind the first needs length 1. -/
theorem converts_start_iff {u : Int × List Byte} (behind : 4 ≤ u.1) :
    Converts [0] u ↔ u.2.length = 1 := by
  constructor
  · intro converts
    rcases converts.field with touched | ⟨-, one⟩
    · rw [lastTouching_start behind] at touched
      cases touched
    · exact one
  · intro one
    refine ⟨.inr ⟨lastTouching_start behind, one⟩, fun j _ place member => ?_⟩
    rw [lastOver_start (by omega)] at member
    cases member

theorem converts_first (nal : List Byte) : Converts [0] (0, nal) := by
  refine ⟨.inl rfl, fun j _ place member => ?_⟩
  have none' : lastOver 4 [0] (0 + 4 + (j : Int)) = none := lastOver_start (by omega)
  rw [none'] at member
  cases member

/-- The first length is 2. -/
theorem leavesFirst_iff {pkt : AVPacket} {nal : List Byte} {units : List (List Byte)}
    (packed : pkt.payload = pack (nal :: units)) (short : nal.length < 2 ^ 32) :
    LeavesFirst pkt.data ↔ nal.length = 2 := by
  rw [payload_eq_bytesAt] at packed
  have field : bytesAt pkt.data 0 4 = lengthField nal.length :=
    (units_of_packed packed _ List.mem_cons_self).1
  have leaves : LeavesFirst pkt.data ↔ bytesAt pkt.data 0 4 = lengthField 2 := Iff.rfl
  rw [leaves, field, lengthField_inj short (by decide)]

/-- **Other packets** are converted when the first unit is not of length 2 and every later one is of
length 1. -/
theorem plain_converts_iff {pkt : AVPacket} {nal : List Byte} {units : List (List Byte)}
    (plain : ¬ Scanned pkt) (packed : pkt.payload = pack (nal :: units))
    (short : nal.length < 2 ^ 32) :
    (∀ u ∈ located 0 (nal :: units), Converts (places pkt) u) ↔
      nal.length ≠ 2 ∧ ∀ later ∈ units, later.length = 1 := by
  rw [places, if_neg plain]
  by_cases two : nal.length = 2
  · rw [if_pos ((leavesFirst_iff packed short).mpr two)]
    constructor
    · intro converts
      rcases (converts _ List.mem_cons_self).field with touched | ⟨-, one⟩
      · cases touched
      · exact absurd (one.symm.trans two) (by decide)
    · exact fun both => absurd two both.1
  · rw [if_neg fun leaves => two ((leavesFirst_iff packed short).mp leaves), located,
      List.forall_mem_cons]
    constructor
    · rintro ⟨-, converts⟩
      refine ⟨two, fun later member => ?_⟩
      rw [← map_located (0 + 4 + nal.length) units] at member
      obtain ⟨u, there, rfl⟩ := List.mem_map.mp member
      have behind := le_of_mem_located there
      exact (converts_start_iff (by omega)).mp (converts u there)
    · rintro ⟨-, ones⟩
      refine ⟨converts_first nal, fun u there => ?_⟩
      have behind := le_of_mem_located there
      exact (converts_start_iff (by omega)).mpr (ones _ (nal_mem_of_located there))

/-! ## What `writeBuffer` leaves -/

namespace TaskPlayback

/-- The coming write callback takes the packet `p` from the demuxer. -/
structure TakesPacket (w : World TaskPlayback) (p : Packet) : Prop where
  free : w.obj.mSendBuffer.totalLen = 0
  quiet : w.obj.mMsgQueue = []
  sending : w.obj.mbSendingData = true
  counted : w.obj.mFrameCount < segFrameCount
  next : w.obj.mFfmpeg.results.headD none = some p

/-- While a header goes out the packet behind it stays, whatever the socket answers. -/
theorem wp_tcpSendData_keeps {w : World TaskPlayback} (header : w.obj.mSendBuffer.bSendCmd = true)
    (behind : 0 < w.obj.mSendBuffer.avpack.size) :
    wp tcpSendData (fun _ w' => w'.obj.mSendBuffer.avpack = w.obj.mSendBuffer.avpack)
      (fun _ w' => w'.obj.mSendBuffer.avpack = w.obj.mSendBuffer.avpack) w := by
  simp only [tcpSendData, wp_bind, wp_self]
  refine wp_sendEx _ (fun ret part left => ?_) (fun _ _ => rfl)
  simp only [wp_ite, wp_bind, wp_self, wp_modifySend, wp_pure, header, behind,
    decide_true, Bool.and_self, if_true]
  split
  · split
    · rfl
    · trivial
  · split
    · rfl
    · trivial

/-- **What is left for sending** is the packet with its start codes patched. -/
theorem avpack_writeBuffer {w : World TaskPlayback} {p : Packet} (takes : TakesPacket w p)
    (holds : 0 < p.pkt.size) :
    (endState (writeBuffer.run w)).obj.mSendBuffer.avpack = patchStartCodes p.frameType p.pkt := by
  apply wp.endState (P := fun w' : World TaskPlayback =>
    w'.obj.mSendBuffer.avpack = patchStartCodes p.frameType p.pkt)
  apply wp_writeBuffer
  case media =>
    intro _ _ _ _ q next
    obtain rfl := Option.some.inj (takes.next.symm.trans next)
    have size := size_patchStartCodes p.frameType p.pkt
    exact wp_tcpSendData_keeps rfl (Nat.lt_of_lt_of_eq holds size.symm)
  case resumes => exact fun busy => absurd takes.free busy
  case message =>
    intro _ _ _ queue
    rw [takes.quiet] at queue
    cases queue
  case silent =>
    intro _ _ off
    rw [takes.sending] at off
    cases off
  case ending =>
    intro _ _ _ _ next
    rw [takes.next] at next
    cases next
  case section' => exact fun _ _ _ full => absurd takes.counted full

/-- A task before its first packet. -/
def fresh (p : Packet) : World TaskPlayback :=
  accepted (init sampleRaw { sampleFfmpeg with results := [some p] }) []

theorem segFrameCount_pos : 0 < segFrameCount := by decide

theorem fresh_takes (p : Packet) : TakesPacket (fresh p) p := ⟨rfl, rfl, rfl, segFrameCount_pos, rfl⟩

end TaskPlayback

theorem four_le_length_pack {units : List (List Byte)} (nonempty : units ≠ []) :
    4 ≤ (pack units).length := by
  cases units with
  | nil => exact absurd rfl nonempty
  | cons nal units =>
    rw [pack, List.flatMap_cons, List.length_append, List.length_append, length_lengthField]
    omega

/-- **When a packet is converted**: a packet of length-prefixed units leaves `writeBuffer` in Annex-B
form just when the places where it writes start codes convert every unit. -/
theorem key_frame_conversion_iff {w : World TaskPlayback} {pkt : AVPacket}
    {units : List (List Byte)} (takes : TaskPlayback.TakesPacket w ⟨pkt, .video⟩)
    (nonempty : units ≠ []) (lengths : ∀ nal ∈ units, 1 ≤ nal.length ∧ nal.length < 2 ^ 31)
    (packed : pkt.payload = pack units) :
    (endState (TaskPlayback.writeBuffer.run w)).obj.mSendBuffer.avpack.payload = annexB units ↔
      ∀ u ∈ located 0 units, Converts (places pkt) u := by
  have size : pkt.size = (pack units).length := by rw [← packed, AVPacket.length_payload]
  have room : 4 ≤ pkt.size := size ▸ four_le_length_pack nonempty
  have left := TaskPlayback.avpack_writeBuffer takes (Nat.lt_of_lt_of_le (by decide) room)
  rw [left, payload_eq_bytesAt, data_patchStartCodes room, size_patchStartCodes]
  apply stamped_annexB_iff
  · intro nal member
    have short := (lengths nal member).2
    omega
  · rw [← payload_eq_bytesAt, packed]

/-- A packet with these bytes. -/
def packetOf (bytes : List Byte) (flags : UInt32) (short : bytes.length < 2 ^ 31) : AVPacket where
  data i := if 0 ≤ i then bytes.getD i.toNat 0 else 0
  size := bytes.length
  pts := 0
  flags := flags
  size_lt := short

/-- The parameter sets and a slice of a camera's key frame. -/
def cameraUnits : List (List Byte) := [[0x67, 0x42, 0, 0x1e], [0x68, 0xce, 0x38], [0x65, 0x88]]

def cameraPacket : AVPacket := packetOf (pack cameraUnits) 1 (by decide)

/-- They are converted: the byte in front of the second parameter set is its length, and the slice
follows it. -/
theorem camera_frame_converted :
    (endState (TaskPlayback.writeBuffer.run (TaskPlayback.fresh ⟨cameraPacket, .video⟩))
      ).obj.mSendBuffer.avpack.payload = annexB cameraUnits := by
  refine (key_frame_conversion_iff (TaskPlayback.fresh_takes _) ?_ ?_ ?_).mpr ?_
  · decide
  · decide
  · decide
  · decide +kernel

/-- Two slices of one frame. -/
def sliceUnits : List (List Byte) := [[0x41, 0x9a, 0x01], [0x41, 0x9a, 0x02]]

def slicePacket : AVPacket := packetOf (pack sliceUnits) 0 (by decide)

/-- **A frame of two slices is not converted**: outside key frames only the first length is
replaced. -/
theorem second_length_left : slicePacket.payload = pack sliceUnits ∧
    (endState (TaskPlayback.writeBuffer.run (TaskPlayback.fresh ⟨slicePacket, .video⟩))
      ).obj.mSendBuffer.avpack.payload ≠ annexB sliceUnits := by
  decide +kernel

end GreatEvent
