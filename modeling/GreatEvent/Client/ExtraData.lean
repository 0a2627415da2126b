import GreatEvent.Client.ParameterSets
import GreatEvent.Server.PlayInfo

/-!
# Extra data from the container to the client's search

The server copies the extra data of a file's streams into a `FILE_INFO`, the
login reply takes it to the client, and `ConnectServer` searches
`videoExtData` in it. The copies stay in their arrays, the lengths are those
of the arrays at most and the search reads nothing else, exactly if the
extra data of every stream fits and the search does not begin at a parameter
set, whose length it takes from the byte before (`extra_data_iff`).
-/

namespace GreatEvent

open Lib

/-- `PLAYER_INIT_INFO::extsize` -/
def SFileInfo.extsize (info : SFileInfo) : Int := asInt (wordAt info.bytes 112)

/-- The places of `videoExtData` that the search reads: every byte, and before a byte that a set begins
with the length. -/
def extReads (info : SFileInfo) (n : Nat) : List Int :=
  (List.range n).flatMap fun i : Nat =>
    if info.videoExt i = 0x67 ∨ info.videoExt i = 0x68 then [(i : Int), (i : Int) - 1] else [(i : Int)]

/-- The search depends on what it reads. -/
theorem search_of_reads {x y : SFileInfo} {n : Nat}
    (same : ∀ j ∈ extReads x n, y.bytes.getD (videoExtDataAt + j).toNat 0 = x.bytes.getD (videoExtDataAt + j).toNat 0) :
    NetDataClient.ExtSets.search y n = NetDataClient.ExtSets.search x n := by
  induction n with
  | zero => rfl
  | succ n ih =>
    have reads : extReads x (n + 1) = extReads x n ++
        if x.videoExt n = 0x67 ∨ x.videoExt n = 0x68 then [(n : Int), (n : Int) - 1] else [(n : Int)] := by
      simp [extReads, List.range_succ]
    have earlier := ih fun j member => same j (reads ▸ List.mem_append_left _ member)
    have last := fun j member => same j (reads ▸ List.mem_append_right _ member)
    have here : (videoExtDataAt + (n : Int)).toNat = videoExtDataAt + n := by omega
    have before : (videoExtDataAt + ((n : Int) - 1)).toNat = videoExtDataAt + n - 1 := by
      rw [videoExtDataAt]
      omega
    rw [NetDataClient.ExtSets.search_succ, NetDataClient.ExtSets.search_succ, earlier]
    unfold NetDataClient.ExtSets.next
    dsimp only
    by_cases set : x.videoExt n = 0x67 ∨ x.videoExt n = 0x68
    · rw [if_pos set] at last
      have byte := last n List.mem_cons_self
      have length := last (n - 1) (List.mem_cons_of_mem _ List.mem_cons_self)
      rw [here] at byte
      rw [before] at length
      simp only [byte, length]
    · rw [if_neg set] at last
      have byte := last n List.mem_cons_self
      rw [here] at byte
      unfold SFileInfo.videoExt at set
      rw [not_or] at set
      simp only [byte, if_neg set.1, if_neg set.2]

/-- The extra data in a `FILE_INFO` as the client finds it: it is that of one video stream, or none. -/
structure Carries (info : SFileInfo) (last : List Byte) : Prop where
  extsize : 0 ≤ info.extsize ∧ info.extsize ≤ arrayNum
  size : info.nVideoExtSize = last.length
  data : (info.bytes.drop videoExtDataAt).take last.length = last

theorem PlayInfo.tail_fileInfo (p : PlayInfo) : (SFileInfo.ofFile p.fileInfo).bytes =
    p.fields.bytes ++ (p.tail.take tmStartAt ++ (leBytes 4 (wordAt p.tail tmStartAt).toNat ++
      leBytes 4 (wordAt p.tail tmEndAt).toNat)) := by
  simp only [SFileInfo.ofFile, FileInfo.bytes, PlayInfo.fileInfo, List.append_assoc]

/-- What stands in the tail stands in the file information. -/
theorem PlayInfo.window_fileInfo (p : PlayInfo) {off n : Nat} (inside : off + n ≤ tmStartAt) :
    ((SFileInfo.ofFile p.fileInfo).bytes.drop (112 + off)).take n = (p.tail.drop off).take n := by
  have front : p.fields.bytes.length = 112 := p.fields.length_bytes
  have long : (p.tail.take tmStartAt).length = tmStartAt := by
    rw [List.length_take, p.sized]
    rfl
  rw [p.tail_fileInfo, ← List.drop_drop, ← front, List.drop_left, List.drop_append_of_le_length (by omega),
    List.take_append_of_le_length (by rw [List.length_drop]; omega), List.drop_take, List.take_take,
    Nat.min_eq_left (by omega)]

/-- A small number in a window of four bytes. -/
theorem asInt_wordAt {bytes word : List Byte} {off : Nat} (window : (bytes.drop off).take 4 = word)
    (small : leValue word < 2 ^ 31) : asInt (wordAt bytes off) = leValue word := by
  have value : (wordAt bytes off).toNat = leValue word := by
    rw [wordAt, window, UInt32.toNat_ofNat', Nat.mod_eq_of_lt (by omega)]
  rw [asInt, value, if_pos small]

/-- **A `FILE_INFO` that no copy has run over arrives as it is.** -/
theorem PlayInfo.Keeps.carries {p : PlayInfo} {last : List Byte} (keeps : p.Keeps last) :
    Carries (.ofFile p.fileInfo) last := by
  have short := keeps.short
  have video := keeps.video
  have room : ExtArray.videoExtData.sizeAt + (4 + last.length) ≤ tmStartAt := by
    simp only [ExtArray.sizeAt, tmStartAt]
    rw [arrayNum] at short
    omega
  have whole := p.window_fileInfo room
  rw [video] at whole
  have small : last.length < 2 ^ 31 := by
    rw [arrayNum] at short
    omega
  constructor
  · have window := p.window_fileInfo (show 0 + 4 ≤ tmStartAt by decide)
    have bound := keeps.extsize
    rw [List.drop_zero] at window
    have value : SFileInfo.extsize (.ofFile p.fileInfo) = leValue (p.tail.take 4) :=
      asInt_wordAt window (by rw [arrayNum] at bound; omega)
    rw [value]
    omega
  · have window := congrArg (List.take 4) whole
    rw [List.take_take, Nat.min_eq_left (by omega), List.take_left' (length_leBytes 4 _)] at window
    have value : leValue (leBytes 4 last.length) = last.length := by
      rw [leValue_leBytes]
      apply Nat.mod_eq_of_lt
      omega
    have word := asInt_wordAt window (by rw [value]; exact small)
    rw [value] at word
    exact word
  · have behind := congrArg (List.drop 4) whole
    rw [List.drop_take, List.drop_drop, Nat.add_sub_cancel_left, List.drop_left' (length_leBytes 4 _)] at behind
    exact behind

/-- **The avcC record of a video is delivered** to the client, if every stream's extra data fits. -/
theorem record_delivered {c : Container} {r : AvcC} (small : ∀ s ∈ c.streams, s.Small)
    (record : lastVideo c.streams = r.bytes) :
    ∃ p, getFileInfo c = some p ∧ NetDataClient.Delivered r (.ofFile p.fileInfo) := by
  obtain ⟨p, ran, keeps⟩ := getFileInfo_keeps small
  have carries := keeps.carries
  rw [record] at carries
  exact ⟨p, ran, carries.size, carries.data⟩

theorem Carries.videoExt {info : SFileInfo} {last : List Byte} (carries : Carries info last) {i : Nat}
    (inside : i < last.length) : info.videoExt i = last.getD i 0 := by
  rw [SFileInfo.videoExt, List.getD_eq_getElem?_getD, List.getD_eq_getElem?_getD, ← List.getElem?_drop,
    ← List.getElem?_take_of_lt inside, carries.data]

/-- The search stays in `videoExtData`. -/
def SearchInside (info : SFileInfo) : Prop :=
  ∀ j ∈ extReads info info.nVideoExtSize.toNat, 0 ≤ j ∧ j < arrayNum

/-- The extra data does not begin with the first byte of a parameter set. -/
def BeginsPlain (extradata : List Byte) : Prop := ∀ b, extradata.head? = some b → b ≠ 0x67 ∧ b ≠ 0x68

/-- The search reads in front of the array only for the first byte. -/
theorem Carries.search_inside_iff {info : SFileInfo} {last : List Byte} (carries : Carries info last)
    (short : last.length ≤ arrayNum) : SearchInside info ↔ BeginsPlain last := by
  have size : info.nVideoExtSize.toNat = last.length := by
    rw [carries.size]
    exact Int.toNat_natCast _
  unfold SearchInside
  rw [size]
  constructor
  · intro inside b first
    cases last with
    | nil => cases first
    | cons b' last =>
      obtain rfl := Option.some.inj first
      have byte : info.videoExt 0 = b' := carries.videoExt (Nat.zero_lt_succ _)
      by_contra set
      have reads : (-1 : Int) ∈ extReads info (b' :: last).length := by
        refine List.mem_flatMap.mpr ⟨0, List.mem_range.mpr (Nat.zero_lt_succ _), ?_⟩
        rw [byte, if_pos (by rwa [not_and_or, not_ne_iff, not_ne_iff] at set)]
        exact List.mem_cons_of_mem _ List.mem_cons_self
      exact absurd (inside _ reads).1 (by decide)
  · intro plain j reads
    obtain ⟨i, member, here⟩ := List.mem_flatMap.mp reads
    have below := List.mem_range.mp member
    split at here
    case isTrue set =>
      have behind : i ≠ 0 := by
        rintro rfl
        rw [carries.videoExt below] at set
        cases last with
        | nil => cases below
        | cons b last => exact set.elim (plain b rfl).1 (plain b rfl).2
      rcases List.mem_cons.mp here with rfl | before
      · omega
      · rw [List.mem_singleton.mp before]
        omega
    case isFalse =>
      rw [List.mem_singleton.mp here]
      omega

/-- Extra data is copied into the arrays only, and what the client is told of it is within them. -/
structure ExtraDataBounded (p : PlayInfo) : Prop where
  copies : ∀ copy ∈ p.copies, copy.len ≤ arrayNum
  extsize : 0 ≤ (SFileInfo.ofFile p.fileInfo).extsize ∧ (SFileInfo.ofFile p.fileInfo).extsize ≤ arrayNum
  videoExtSize : 0 ≤ (SFileInfo.ofFile p.fileInfo).nVideoExtSize ∧
    (SFileInfo.ofFile p.fileInfo).nVideoExtSize ≤ arrayNum
  search : SearchInside (.ofFile p.fileInfo)

/-- **The extra data in a file information is bounded exactly if every stream's fits** and that of the last
video stream that has any does not begin with the first byte of a parameter set. -/
theorem extra_data_iff (c : Container) :
    (∃ p, getFileInfo c = some p ∧ ExtraDataBounded p) ↔
      (∀ s ∈ c.streams, s.Small) ∧ BeginsPlain (lastVideo c.streams) := by
  constructor
  · rintro ⟨p, ran, bounded⟩
    have small := small_of_copies ran bounded.copies
    obtain ⟨p', ran', keeps⟩ := getFileInfo_keeps small
    obtain rfl := Option.some.inj (ran.symm.trans ran')
    exact ⟨small, (keeps.carries.search_inside_iff keeps.short).mp bounded.search⟩
  · rintro ⟨small, plain⟩
    obtain ⟨p, ran, keeps⟩ := getFileInfo_keeps small
    have carries := keeps.carries
    have short := keeps.short
    refine ⟨p, ran, keeps.copies, carries.extsize, ?_, (carries.search_inside_iff short).mpr plain⟩
    rw [carries.size]
    omega

/-- A stream of a kind with this extra data. -/
def streamOf (kind : MediaType) (extradata : List Byte) (short : extradata.length < 2 ^ 31) : AVStream where
  codec_type := kind
  r_frame_rate := ⟨25, 1⟩
  codec := ⟨27, 0, 0, 0, 640, 480, 12, .none, 0, 0, 0, 0, 0, 0, 0, 0, 0, 0, 0, 0, 0, 0, extradata, short⟩

/-- A video with 104 bytes of extra data. -/
def longRecord : Container where
  duration := 1000000
  start_time := 0
  streams := [streamOf .video (List.replicate 104 1) (by decide)]
  mbWavFile := false
  wavDuration := 0

/-- **The extra data of a long record runs over the times.** -/
theorem extra_data_overruns : ¬ ∃ p, getFileInfo longRecord = some p ∧ ExtraDataBounded p := by
  rintro ⟨p, ran, bounded⟩
  have small := small_of_copies ran bounded.copies _ (List.mem_singleton_self _)
  exact absurd small (by decide)

end GreatEvent
