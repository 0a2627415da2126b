import GreatEvent.Client.ConnectServer

/-!
# The parameter sets of a login

`FfmpegContext::GetH264Stream` finds the parameter sets of a video by the
structure of its avcC record, `ConnectServer` by their first bytes: the last
0x67 and the last 0x68 in the record, each with the byte before it for its
length. The two agree when no such byte stands behind the first byte of its
set, or the last one does begin a copy of the set.
-/

namespace GreatEvent

open Lib

/-! ## The search -/

/-- The byte at `i` of `videoExtData`. -/
def SFileInfo.videoExt (info : SFileInfo) (i : Nat) : Byte := info.bytes.getD (videoExtDataAt + i) 0

/-- `i` is the last place of the byte in the first `n` bytes of `videoExtData`. -/
structure SFileInfo.LastAt (info : SFileInfo) (n : Nat) (b : Byte) (i : Nat) : Prop where
  inside : i < n
  here : info.videoExt i = b
  last : ∀ j, i < j → j < n → info.videoExt j ≠ b

namespace SFileInfo

variable {info : SFileInfo} {n i : Nat} {b : Byte}

/-- A byte that is there has a last place. -/
theorem exists_lastAt {start : Nat} (inside : start < n) (here : info.videoExt start = b) :
    ∃ i, start ≤ i ∧ info.LastAt n b i := by
  induction n with
  | zero => exact absurd inside (Nat.not_lt_zero _)
  | succ n ih =>
    by_cases new : info.videoExt n = b
    · exact ⟨n, Nat.le_of_lt_succ inside, Nat.lt_succ_self n, new, fun j low high => by omega⟩
    · have earlier : start < n := by
        rcases Nat.lt_succ_iff_lt_or_eq.mp inside with less | rfl
        · exact less
        · exact absurd here new
      obtain ⟨i, from', last⟩ := ih earlier
      refine ⟨i, from', Nat.lt_succ_of_lt last.inside, last.here, fun j low high => ?_⟩
      rcases Nat.lt_succ_iff_lt_or_eq.mp high with less | rfl
      · exact last.last j low less
      · exact new

/-- A last place before a new byte is one with the byte behind it, unless that is the byte itself. -/
theorem LastAt.of_succ (last : info.LastAt (n + 1) b i) (other : info.videoExt n ≠ b) : info.LastAt n b i := by
  have before : i < n := by
    rcases Nat.lt_succ_iff_lt_or_eq.mp last.inside with less | rfl
    · exact less
    · exact absurd last.here other
  exact ⟨before, last.here, fun j low high => last.last j low (Nat.lt_succ_of_lt high)⟩

theorem LastAt.of_here (last : info.LastAt (n + 1) b i) (here : info.videoExt n = b) : i = n := by
  apply Classical.byContradiction
  intro earlier
  have before : i < n := by
    have := last.inside
    omega
  exact last.last n before (Nat.lt_succ_self n) here

theorem LastAt.unique {k : Nat} (last : info.LastAt n b k) (other : info.LastAt n b i) : k = i := by
  rcases Nat.lt_trichotomy k i with less | same | more
  · exact absurd other.here (last.last i less other.inside)
  · exact same
  · exact absurd last.here (other.last k more last.inside)

end SFileInfo

namespace NetDataClient

/-- What the search of `ConnectServer` makes of the first `n` bytes. -/
def ExtSets.search (info : SFileInfo) (n : Nat) : ExtSets := (List.range n).foldl (ExtSets.next info) ⟨0, 0, 0, 0⟩

/-- The length the search takes for a set that begins at `i`: the byte before it. -/
def lengthBefore (info : SFileInfo) (i : Nat) : Int := asChar (info.bytes.getD (videoExtDataAt + i - 1) 0)

theorem ExtSets.search_succ (info : SFileInfo) (n : Nat) :
    search info (n + 1) = ExtSets.next info (search info n) n := by
  rw [search, List.range_succ, List.foldl_append, List.foldl_cons, List.foldl_nil, search]

/-- **The search ends at the last 0x67.** -/
theorem ExtSets.search_sps {info : SFileInfo} {n i : Nat} (last : info.LastAt n 0x67 i) :
    (search info n).spsIndex = i ∧ (search info n).spsLen = lengthBefore info i := by
  induction n with
  | zero => exact absurd last.inside (Nat.not_lt_zero _)
  | succ n ih =>
    rw [search_succ, next]
    dsimp only
    split
    case isTrue here =>
      rw [last.of_here here]
      exact ⟨rfl, rfl⟩
    case isFalse other =>
      have earlier := ih (last.of_succ other)
      split
      · exact earlier
      · exact earlier

/-- **And at the last 0x68.** -/
theorem ExtSets.search_pps {info : SFileInfo} {n i : Nat} (last : info.LastAt n 0x68 i) :
    (search info n).ppsIndex = i ∧ (search info n).ppsLen = lengthBefore info i := by
  induction n with
  | zero => exact absurd last.inside (Nat.not_lt_zero _)
  | succ n ih =>
    rw [search_succ, next]
    dsimp only
    split
    case isTrue sps =>
      have other : info.videoExt n ≠ 0x68 := by
        rw [SFileInfo.videoExt, sps]
        decide
      exact ih (last.of_succ other)
    case isFalse =>
      split
      case isTrue here =>
        rw [last.of_here here]
        exact ⟨rfl, rfl⟩
      case isFalse other => exact ih (last.of_succ other)

/-! ## The writes -/

/-- The `fwrite` calls of `ConnectServer`. -/
def extWrites (info : SFileInfo) : Option (List (List Byte)) := do
  let sets := ExtSets.search info info.nVideoExtSize.toNat
  let sps ← extBytes info sets.spsIndex sets.spsLen
  let pps ← extBytes info sets.ppsIndex sets.ppsLen
  return [startCode, sps, startCode, pps]

/-- They are what `ConnectServer` adds to its file. -/
theorem writeExtData_eq (info : SFileInfo) (c : NetDataClient) :
    c.writeExtData (some info) =
      if videoExtDataAt + info.nVideoExtSize ≤ FileInfo.size then
        (extWrites info).map fun writes => { c with mwFile := c.mwFile ++ writes.flatten }
      else none := by
  rw [writeExtData, Option.bind_eq_bind, Option.bind_some]
  split
  case isTrue =>
    rw [extWrites, ExtSets.search]
    dsimp only
    cases extBytes info _ _ with
    | none => rfl
    | some sps =>
      cases extBytes info _ _ with
      | none => rfl
      | some pps =>
        rw [Option.bind_eq_bind, Option.bind_some]
        simp [startCode]
  case isFalse => rfl

/-- The set `set` begins at `i`, behind a byte that gives its length. -/
structure Copy (info : SFileInfo) (set : List Byte) (i : Nat) : Prop where
  length : (lengthBefore info i) = set.length
  bytes : (info.bytes.drop (videoExtDataAt + i)).take set.length = set

theorem extBytes_iff {info : SFileInfo} {set : List Byte} {i : Nat} (nonempty : 0 < set.length) :
    extBytes info i (lengthBefore info i) = some set ↔ Copy info set i := by
  have size : info.bytes.length = 328 := info.sized
  have room : FileInfo.size = 328 := rfl
  unfold extBytes
  constructor
  · intro found
    split at found
    case isTrue inside =>
      have bytes := Option.some.inj found
      have length := congrArg List.length bytes
      rw [List.length_take, List.length_drop, size] at length
      rw [room] at inside
      have same : (lengthBefore info i).toNat = set.length := by omega
      rw [same] at bytes
      exact ⟨by omega, bytes⟩
    case isFalse => cases found
  · rintro ⟨length, bytes⟩
    have long := congrArg List.length bytes
    rw [List.length_take, List.length_drop, size] at long
    rw [length, if_pos ⟨by omega, by omega⟩, Int.toNat_natCast, bytes]

end NetDataClient

/-! ## The record -/

/-- An avcC record with one parameter set of each kind; the sets are given behind their first bytes. -/
structure AvcC where
  profile : Byte
  compatibility : Byte
  level : Byte
  spsRest : List Byte
  ppsRest : List Byte
  short : spsRest.length + ppsRest.length + 13 ≤ 100

namespace AvcC

variable (r : AvcC)

def sps : List Byte := 0x67 :: r.spsRest

def pps : List Byte := 0x68 :: r.ppsRest

/-- What stands before the SPS. -/
def head : List Byte := [1, r.profile, r.compatibility, r.level, 0xFF, 0xE1] ++ beBytes 2 r.sps.length

/-- What stands between the sets. -/
def middle : List Byte := 1 :: beBytes 2 r.pps.length

def bytes : List Byte := r.head ++ (r.sps ++ (r.middle ++ r.pps))

/-- Where the PPS begins. -/
def ppsAt : Nat := 8 + r.sps.length + 3

theorem length_head : r.head.length = 8 := by
  rw [head, List.length_append, length_beBytes]
  rfl

theorem length_middle : r.middle.length = 3 := by
  rw [middle, List.length_cons, length_beBytes]

theorem length_bytes : r.bytes.length = r.ppsAt + r.pps.length := by
  simp only [bytes, List.length_append, length_head, length_middle, ppsAt]
  omega

theorem length_sps : r.sps.length = r.spsRest.length + 1 := rfl

theorem length_pps : r.pps.length = r.ppsRest.length + 1 := rfl

end AvcC

/-- `GetH264Stream`: the sets of a record by its structure. -/
def h264Sets (extradata : List Byte) : List Byte × List Byte :=
  let byte (i : Nat) : Nat := (extradata.getD i 0).toNat
  let spsLength := byte 6 * 0xFF + byte 7
  let ppsLength := byte (8 + spsLength + 1) * 0xFF + byte (8 + spsLength + 2)
  ((extradata.drop 8).take spsLength, (extradata.drop (8 + 2 + 1 + spsLength)).take ppsLength)

theorem AvcC.drop_head (r : AvcC) : r.bytes.drop 8 = r.sps ++ (r.middle ++ r.pps) := by
  rw [bytes, ← r.length_head, List.drop_left]

theorem AvcC.drop_pps (r : AvcC) : r.bytes.drop r.ppsAt = r.pps := by
  have front : (r.head ++ (r.sps ++ r.middle)).length = r.ppsAt := by
    simp only [List.length_append, length_head, length_middle, ppsAt]
    omega
  have split : r.bytes = (r.head ++ (r.sps ++ r.middle)) ++ r.pps := by
    simp only [bytes, List.append_assoc]
  rw [split, ← front, List.drop_left]

/-- A length below 256 in two bytes. -/
theorem beBytes_small {n : Nat} (small : n < 256) : beBytes 2 n = [0, UInt8.ofNat n] := by
  have high : n / 256 = 0 := Nat.div_eq_of_lt small
  rw [beBytes, leBytes, leBytes, leBytes, high]
  rfl

theorem AvcC.head_eq (r : AvcC) :
    r.head = [1, r.profile, r.compatibility, r.level, 0xFF, 0xE1, 0, UInt8.ofNat r.sps.length] := by
  have small : r.sps.length < 256 := by
    have := r.short
    rw [length_sps]
    omega
  rw [head, beBytes_small small]
  rfl

theorem AvcC.middle_eq (r : AvcC) : r.middle = [1, 0, UInt8.ofNat r.pps.length] := by
  have small : r.pps.length < 256 := by
    have := r.short
    rw [length_pps]
    omega
  rw [middle, beBytes_small small]

/-- The bytes behind the SPS. -/
theorem AvcC.getD_behind (r : AvcC) (k : Nat) :
    r.bytes.getD (8 + r.sps.length + k) 0 = (r.middle ++ r.pps).getD k 0 := by
  have split : r.bytes = (r.head ++ r.sps) ++ (r.middle ++ r.pps) := by
    simp only [bytes, List.append_assoc]
  have front : (r.head ++ r.sps).length = 8 + r.sps.length := by rw [List.length_append, length_head]
  rw [split, List.getD_eq_getElem?_getD, List.getElem?_append_right (by omega), front, Nat.add_sub_cancel_left,
    List.getD_eq_getElem?_getD]

/-- **`GetH264Stream` selects the two sets of the record.** -/
theorem h264Sets_bytes (r : AvcC) : h264Sets r.bytes = (r.sps, r.pps) := by
  have short := r.short
  have spsSmall : r.sps.length % 2 ^ 8 = r.sps.length := Nat.mod_eq_of_lt (by rw [r.length_sps]; omega)
  have ppsSmall : r.pps.length % 2 ^ 8 = r.pps.length := Nat.mod_eq_of_lt (by rw [r.length_pps]; omega)
  have spsLength : (r.bytes.getD 6 0).toNat * 0xFF + (r.bytes.getD 7 0).toNat = r.sps.length := by
    have high : r.bytes.getD 6 0 = 0 := by
      rw [AvcC.bytes, r.head_eq]
      rfl
    have low : r.bytes.getD 7 0 = UInt8.ofNat r.sps.length := by
      rw [AvcC.bytes, r.head_eq]
      rfl
    rw [high, low, UInt8.toNat_ofNat', spsSmall]
    exact Nat.zero_add _
  have ppsLength : (r.bytes.getD (8 + r.sps.length + 1) 0).toNat * 0xFF +
      (r.bytes.getD (8 + r.sps.length + 2) 0).toNat = r.pps.length := by
    have high : (r.middle ++ r.pps).getD 1 0 = 0 := by
      rw [r.middle_eq]
      rfl
    have low : (r.middle ++ r.pps).getD 2 0 = UInt8.ofNat r.pps.length := by
      rw [r.middle_eq]
      rfl
    rw [r.getD_behind, r.getD_behind, high, low, UInt8.toNat_ofNat', ppsSmall]
    exact Nat.zero_add _
  have place : 8 + 2 + 1 + r.sps.length = r.ppsAt := by
    rw [AvcC.ppsAt]
    omega
  rw [h264Sets]
  dsimp only
  rw [spsLength, ppsLength, place, r.drop_pps, List.take_length, r.drop_head, List.take_left]

/-! ## The login -/

/-- The `SFILE_INFO` a file information arrives as. -/
def SFileInfo.ofFile (info : FileInfo) : SFileInfo where
  bytes := info.bytes
  sized := by
    simp only [FileInfo.bytes, List.length_append, length_leBytes, info.pi_len]
    rfl

theorem SFileInfo.ext_bytes {x y : SFileInfo} (same : x.bytes = y.bytes) : x = y := by
  cases x
  cases y
  cases same
  rfl

/-- The attempt connects, its request is sent, and the server's login reply with `info` arrives. -/
structure LoginReplied (a : Attempt) (m_opt : Int) (m_szFile : List Byte) (info : FileInfo) : Prop where
  connects : a.connects = true
  request : (NetDataClient.loginRequest m_opt m_szFile ++ [0]).length ≤ loginBufferLen
  sent : packHeadLen + (NetDataClient.loginRequest m_opt m_szFile).length ≤ a.accepts
  arrives : (loginRetFrame info).bytes <+: a.inp

namespace NetDataClient

/-- The reply of the server fills in the whole `SFILE_INFO`. -/
theorem copyInto_login (info : FileInfo) (lpData : LoginBuffer) (fits : (loginRetFrame info).body.length ≤ loginBufferLen)
    (lpInfo : SFileInfo) : copyInto (lpData.store (loginRetFrame info).body fits) lpInfo = some (.ofFile info) := by
  have size : info.bytes.length = 328 := (SFileInfo.ofFile info).sized
  have whole : (lpData.store (loginRetFrame info).body fits).bytes =
      leBytes 4 0 ++ (leBytes 4 FileInfo.size ++ (info.bytes ++ (List.replicate 696 0 ++
        lpData.bytes.drop (loginRetFrame info).body.length))) := by
    rw [store_bytes]
    simp only [loginRetFrame, loginRetBytes, List.append_assoc]
  have length : wordAt (lpData.store (loginRetFrame info).body fits).bytes 4 = 328 := by
    rw [whole]
    exact wordAt_append (leBytes 4 0) 328 _ 4 (length_leBytes 4 0)
  have data : ((lpData.store (loginRetFrame info).body fits).bytes.drop 8).take 328 = info.bytes := by
    have front : (leBytes 4 0 ++ leBytes 4 FileInfo.size).length = 8 := by
      rw [List.length_append, length_leBytes, length_leBytes]
    rw [whole, ← List.append_assoc, ← front, List.drop_left, ← size, List.take_left]
  have word : asInt 328 = 328 := rfl
  rw [copyInto]
  simp only [length, word]
  rw [dif_pos (by decide)]
  apply congrArg some
  apply SFileInfo.ext_bytes
  change poke lpInfo.bytes 0 (((lpData.store (loginRetFrame info).body fits).bytes.drop 8).take 328) = info.bytes
  rw [data, poke_zero, List.drop_of_length_le (Nat.le_of_eq (lpInfo.sized.trans size.symm)), List.append_nil]

/-- **Behind the server's login reply `ConnectServer` goes on to the parameter sets.** -/
theorem connectServer_login {a : Attempt} {m_opt : Int} {m_szFile : List Byte} {info : FileInfo}
    (replied : LoginReplied a m_opt m_szFile info) (lpInfo : SFileInfo) (c : NetDataClient) :
    ∃ received : NetDataClient, received.mwFile = c.mwFile ∧
      c.connectServer a m_opt m_szFile (some lpInfo) =
        (received.writeExtData (some (.ofFile info))).map fun c' => (true, some (.ofFile info), c') := by
  obtain ⟨rest, arrives⟩ := replied.arrives
  have connected : c.connect a = (true, { c with inp := a.inp, wire := [], isOpen := true }) :=
    if_pos replied.connects
  obtain ⟨wire, sent⟩ := sendCmd_room .login 0
    (c := { c with inp := a.inp, wire := [], isOpen := true }) rfl replied.sent
  have length : (loginRetFrame info).body.length = loginRetSize := length_loginRetBytes info
  have fits : (loginRetFrame info).body.length ≤ loginBufferLen := by
    rw [length]
    decide
  have noError : wordAt ((a.stack.store _ replied.request).store (loginRetFrame info).body fits).bytes 0 = 0 := by
    rw [store_bytes, wordAt_append_left (by rw [length]; decide)]
    exact wordAt_append [] 0 _ 0 rfl
  have reply := recvReply_frame a.cuts (a.stack.store _ replied.request)
    (c := { c with inp := a.inp, wire := wire, isOpen := true }) arrives.symm rfl fits
  rw [if_pos ⟨rfl, noError⟩] at reply
  refine ⟨{ c with inp := rest, wire := wire, isOpen := true }, rfl, ?_⟩
  simp only [connectServer, connected, if_true, dif_pos replied.request, sent, reply, copyInfo,
    copyInto_login, Option.map_some]
  rw [Option.bind_eq_bind, Option.bind_some]
  cases writeExtData (some (SFileInfo.ofFile info)) _ with
  | none => rfl
  | some c' => rfl

/-- The record stands in `videoExtData`, with its length in `nVideoExtSize`. -/
structure Delivered (r : AvcC) (info : SFileInfo) : Prop where
  size : info.nVideoExtSize = r.bytes.length
  data : (info.bytes.drop videoExtDataAt).take r.bytes.length = r.bytes

section
variable {r : AvcC} {info : SFileInfo}

theorem Delivered.videoExt (delivered : Delivered r info) {i : Nat} (inside : i < r.bytes.length) :
    info.videoExt i = r.bytes.getD i 0 := by
  rw [SFileInfo.videoExt, List.getD_eq_getElem?_getD, List.getD_eq_getElem?_getD, ← List.getElem?_drop,
    ← List.getElem?_take_of_lt inside, delivered.data]

/-- The bytes of the record from `i` on. -/
theorem Delivered.take (delivered : Delivered r info) (i : Nat) {set rest : List Byte}
    (here : r.bytes.drop i = set ++ rest) : (info.bytes.drop (videoExtDataAt + i)).take set.length = set := by
  have part := congrArg (List.take set.length) (congrArg (List.drop i) delivered.data)
  have enough := congrArg List.length here
  rw [List.length_drop, List.length_append] at enough
  rw [here, List.take_left, List.drop_take, List.drop_drop, List.take_take] at part
  rwa [Nat.min_eq_left (by omega)] at part

theorem asChar_ofNat {n : Nat} (small : n < 128) : asChar (UInt8.ofNat n) = n := by
  revert n
  decide

theorem Delivered.copy_sps (delivered : Delivered r info) : Copy info r.sps 8 := by
  have short := r.short
  have long := r.length_bytes
  have sps := r.length_sps
  refine ⟨?_, delivered.take 8 r.drop_head⟩
  have before : info.videoExt 7 = UInt8.ofNat r.sps.length := by
    rw [delivered.videoExt (by rw [AvcC.ppsAt] at long; omega), AvcC.bytes, r.head_eq]
    rfl
  change asChar (info.videoExt 7) = _
  rw [before, asChar_ofNat (by omega)]

theorem Delivered.copy_pps (delivered : Delivered r info) : Copy info r.pps r.ppsAt := by
  have short := r.short
  have long := r.length_bytes
  have sps := r.length_sps
  have pps := r.length_pps
  refine ⟨?_, delivered.take r.ppsAt (by rw [r.drop_pps, List.append_nil])⟩
  have before : info.videoExt (8 + r.sps.length + 2) = UInt8.ofNat r.pps.length := by
    rw [delivered.videoExt (by rw [AvcC.ppsAt] at long; omega), r.getD_behind, r.middle_eq]
    rfl
  change asChar (info.videoExt (8 + r.sps.length + 2)) = _
  rw [before, asChar_ofNat (by omega)]

theorem Delivered.sps_here (delivered : Delivered r info) : info.videoExt 8 = 0x67 := by
  have long := r.length_bytes
  rw [delivered.videoExt (by rw [AvcC.ppsAt] at long; omega), AvcC.bytes, r.head_eq]
  rfl

theorem Delivered.pps_here (delivered : Delivered r info) : info.videoExt r.ppsAt = 0x68 := by
  have long := r.length_bytes
  have pps := r.length_pps
  rw [delivered.videoExt (by omega), AvcC.ppsAt, r.getD_behind, r.middle_eq]
  rfl

/-- **Nothing in the record is mistaken for a parameter set**: behind the first byte of its set
stands no 0x67 and no 0x68, unless the last one begins a copy of the set. -/
structure Unmistaken (r : AvcC) (info : SFileInfo) : Prop where
  sps : ∀ i, 8 < i → info.LastAt r.bytes.length 0x67 i → Copy info r.sps i
  pps : ∀ i, r.ppsAt < i → info.LastAt r.bytes.length 0x68 i → Copy info r.pps i

theorem bind_sets_iff {x y : Option (List Byte)} {sps pps : List Byte} :
    (do let sps ← x
        let pps ← y
        return [startCode, sps, startCode, pps]) = some [startCode, sps, startCode, pps] ↔
      x = some sps ∧ y = some pps := by
  cases x <;> cases y <;> simp

/-- What `ConnectServer` writes are the sets of the record exactly then. -/
theorem Delivered.extWrites_iff (delivered : Delivered r info) :
    extWrites info = some [startCode, r.sps, startCode, r.pps] ↔ Unmistaken r info := by
  have long := r.length_bytes
  have pps := r.length_pps
  obtain ⟨i, fromSps, lastSps⟩ := SFileInfo.exists_lastAt (n := r.bytes.length)
    (by rw [AvcC.ppsAt] at long; omega) delivered.sps_here
  obtain ⟨j, fromPps, lastPps⟩ := SFileInfo.exists_lastAt (n := r.bytes.length) (by omega) delivered.pps_here
  have size : info.nVideoExtSize.toNat = r.bytes.length := by rw [delivered.size, Int.toNat_natCast]
  obtain ⟨spsIndex, spsLen⟩ := ExtSets.search_sps lastSps
  obtain ⟨ppsIndex, ppsLen⟩ := ExtSets.search_pps lastPps
  have spsIff : extBytes info i (lengthBefore info i) = some r.sps ↔ Copy info r.sps i := extBytes_iff (Nat.succ_pos _)
  have ppsIff : extBytes info j (lengthBefore info j) = some r.pps ↔ Copy info r.pps j := extBytes_iff (Nat.succ_pos _)
  rw [extWrites, size, spsIndex, spsLen, ppsIndex, ppsLen, bind_sets_iff, spsIff, ppsIff]
  constructor
  · rintro ⟨sps, pps⟩
    exact ⟨fun k _ last => last.unique lastSps ▸ sps, fun k _ last => last.unique lastPps ▸ pps⟩
  · rintro ⟨sps, pps⟩
    constructor
    · rcases Nat.eq_or_lt_of_le fromSps with rfl | behind
      · exact delivered.copy_sps
      · exact sps i behind lastSps
    · rcases Nat.eq_or_lt_of_le fromPps with rfl | behind
      · exact delivered.copy_pps
      · exact pps j behind lastPps

end

/-- `ConnectServer` writes the sets that `GetH264Stream` selects from the record, behind start codes. -/
structure WritesSets (a : Attempt) (m_opt : Int) (m_szFile : List Byte) (info : FileInfo) (r : AvcC)
    (lpInfo : SFileInfo) (c : NetDataClient) : Prop where
  structural : h264Sets r.bytes = (r.sps, r.pps)
  writes : extWrites (.ofFile info) = some [startCode, r.sps, startCode, r.pps]
  returns : ∃ c', c.connectServer a m_opt m_szFile (some lpInfo) = some (true, some (.ofFile info), c') ∧
    c'.mwFile = c.mwFile ++ (startCode ++ r.sps ++ startCode ++ r.pps)

/-- **The parameter sets of a login are extracted exactly when nothing is mistaken for them.** -/
theorem parameter_sets_iff {a : Attempt} {m_opt : Int} {m_szFile : List Byte} {info : FileInfo} {r : AvcC}
    (replied : LoginReplied a m_opt m_szFile info) (delivered : Delivered r (.ofFile info)) (lpInfo : SFileInfo)
    (c : NetDataClient) : WritesSets a m_opt m_szFile info r lpInfo c ↔ Unmistaken r (.ofFile info) := by
  rw [← delivered.extWrites_iff]
  constructor
  · rintro ⟨-, writes, -⟩
    exact writes
  · intro writes
    refine ⟨h264Sets_bytes r, writes, ?_⟩
    obtain ⟨received, file, run⟩ := connectServer_login replied lpInfo c
    have inside : videoExtDataAt + (SFileInfo.ofFile info).nVideoExtSize ≤ FileInfo.size := by
      have short := r.short
      have long := r.length_bytes
      have sps := r.length_sps
      have pps := r.length_pps
      rw [AvcC.ppsAt] at long
      rw [delivered.size, videoExtDataAt, FileInfo.size]
      omega
    rw [writeExtData_eq, if_pos inside, writes, Option.map_some, Option.map_some] at run
    refine ⟨_, run, ?_⟩
    simp [file]

/-- A file information with the record in its `videoExtData`. -/
def fileWith (r : AvcC) : FileInfo where
  pi := List.replicate 216 0 ++ (leBytes 4 (UInt32.ofNat r.bytes.length).toNat ++
    (r.bytes ++ List.replicate (100 - r.bytes.length) 0))
  tmStart := 0
  tmEnd := 1000
  pi_len := by
    have short := r.short
    have long := r.length_bytes
    have sps := r.length_sps
    have pps := r.length_pps
    rw [AvcC.ppsAt] at long
    simp only [List.length_append, List.length_replicate, length_leBytes]
    omega

theorem delivered_fileWith (r : AvcC) : Delivered r (.ofFile (fileWith r)) := by
  have short := r.short
  have long := r.length_bytes
  have sps := r.length_sps
  have pps := r.length_pps
  rw [AvcC.ppsAt] at long
  have whole : (SFileInfo.ofFile (fileWith r)).bytes = List.replicate 216 0 ++
      (leBytes 4 (UInt32.ofNat r.bytes.length).toNat ++ (r.bytes ++ (List.replicate (100 - r.bytes.length) 0 ++
        (leBytes 4 0 ++ leBytes 4 1000)))) := by
    simp only [SFileInfo.ofFile, FileInfo.bytes, fileWith, List.append_assoc]
    rfl
  constructor
  · have small : r.bytes.length < 2 ^ 31 := by omega
    rw [SFileInfo.nVideoExtSize, whole, wordAt_append _ _ _ 216 List.length_replicate, asInt,
      UInt32.toNat_ofNat_of_lt' (small.trans (by decide)), if_pos small]
  · have front : (List.replicate 216 (0 : Byte) ++ leBytes 4 (UInt32.ofNat r.bytes.length).toNat).length =
        videoExtDataAt := by
      rw [List.length_append, List.length_replicate, length_leBytes]
      rfl
    rw [whole, ← List.append_assoc, ← front, List.drop_left, List.take_left]

/-- The server answers at once. -/
def attemptWith (info : FileInfo) : Attempt := { sampleAttempt with inp := (loginRetFrame info).bytes }

theorem replied_attemptWith (info : FileInfo) : LoginReplied (attemptWith info) 0 (ascii "a.mp4") info where
  connects := rfl
  request := sample_accepted.request
  sent := sample_accepted.sent
  arrives := List.prefix_refl _

/-- No 0x67 and no 0x68 behind the first bytes of the sets. -/
def plainRecord : AvcC := ⟨66, 0, 30, [0x42, 0x1E], [0xCE], by decide⟩

theorem unmistaken_plain : Unmistaken plainRecord (.ofFile (fileWith plainRecord)) := by
  have sps : ∀ i < 16, 8 < i → plainRecord.bytes.getD i 0 ≠ 0x67 := by decide
  have pps : ∀ i < 16, 14 < i → plainRecord.bytes.getD i 0 ≠ 0x68 := by decide
  have delivered := delivered_fileWith plainRecord
  constructor
  · intro i behind last
    have other := sps i last.inside behind
    rw [← delivered.videoExt last.inside] at other
    exact absurd last.here other
  · intro i behind last
    have other := pps i last.inside behind
    rw [← delivered.videoExt last.inside] at other
    exact absurd last.here other

theorem parameter_sets_plain :
    WritesSets (attemptWith (fileWith plainRecord)) 0 (ascii "a.mp4") (fileWith plainRecord) plainRecord
      (.ofFile (fileWith plainRecord)) (.fresh []) :=
  (parameter_sets_iff (replied_attemptWith _) (delivered_fileWith plainRecord) _ (.fresh [])).mpr unmistaken_plain

/-- An SPS with a second 0x67. -/
def secondRecord : AvcC := ⟨66, 0, 30, [0x42, 0x67, 1], [0xCE], by decide⟩

/-- The second 0x67 is taken for the SPS, with 0x42 for its length. -/
theorem second_taken :
    LoginReplied (attemptWith (fileWith secondRecord)) 0 (ascii "a.mp4") (fileWith secondRecord) ∧
      Delivered secondRecord (.ofFile (fileWith secondRecord)) ∧
      ¬ WritesSets (attemptWith (fileWith secondRecord)) 0 (ascii "a.mp4") (fileWith secondRecord) secondRecord
        (.ofFile (fileWith secondRecord)) (.fresh []) := by
  have delivered := delivered_fileWith secondRecord
  refine ⟨replied_attemptWith _, delivered, fun wrote => ?_⟩
  have unmistaken := delivered.extWrites_iff.mp wrote.writes
  have none' : ∀ j < 17, 10 < j → secondRecord.bytes.getD j 0 ≠ 0x67 := by decide
  have last : (SFileInfo.ofFile (fileWith secondRecord)).LastAt secondRecord.bytes.length 0x67 10 := by
    refine ⟨by decide, ?_, fun j behind inside => ?_⟩
    · rw [delivered.videoExt (by decide)]
      rfl
    · rw [delivered.videoExt inside]
      exact none' j inside behind
  have length := (unmistaken.sps 10 (by decide) last).length
  change asChar ((SFileInfo.ofFile (fileWith secondRecord)).videoExt 9) = _ at length
  rw [delivered.videoExt (by decide)] at length
  exact absurd length (by decide)

end NetDataClient

end GreatEvent
