import GreatEvent.Server.TaskPlayback

/-!
# `getFileInfo`: what a login is told of the file

`getPlayInfo` goes through the streams of the container and fills in a
`FILE_INFO`. The fields in front of `extsize` are a record here; from
`extsize` on there are two arrays with their lengths and the two times, and
these are memory (`tail`): a stream's extra data is copied into its array
with its own length, and runs over what stands behind the array, or out of
the `FILE_INFO` (`memcpyExt`). `copies` records the copies.
-/

namespace GreatEvent

open Lib

/-- `AVSampleFormat` -/
inductive AVSampleFormat where
  | none | u8 | s16 | s32 | flt | dbl | u8p | s16p | s32p | fltp | dblp | s64 | s64p
  deriving DecidableEq, Repr

/-- The value of a sample format. -/
def AVSampleFormat.code : AVSampleFormat → Int32
  | .none => -1
  | .u8 => 0
  | .s16 => 1
  | .s32 => 2
  | .flt => 3
  | .dbl => 4
  | .u8p => 5
  | .s16p => 6
  | .s32p => 7
  | .fltp => 8
  | .dblp => 9
  | .s64 => 10
  | .s64p => 11

/-- `AV_CODEC_ID_NONE` -/
def codecIdNone : Int32 := 0

/-- `AV_CODEC_ID_ADPCM_IMA_WAV` -/
def codecIdAdpcmImaWav : Int32 := 0x11001

/-- `AV_CODEC_ID_MP2` -/
def codecIdMp2 : Int32 := 0x15000

/-- `AV_CODEC_ID_MP1` -/
def codecIdMp1 : Int32 := 0x1502A

/-- The fields of an `AVCodecContext` that are read. `extradata_size` is an `int`; `qblur` is a `float`,
given by its bits. -/
structure AVCodecContext where
  codec_id : Int32
  codec_tag : UInt32
  bit_rate : Int64
  bit_rate_tolerance : Int32
  width : Int32
  height : Int32
  gop_size : Int32
  sample_fmt : AVSampleFormat
  sample_rate : Int32
  channels : Int32
  channel_layout : UInt64
  bits_per_coded_sample : Int32
  bits_per_raw_sample : Int32
  block_align : Int32
  frame_size : Int32
  frame_number : Int32
  ildct_cmp : Int32
  me_subpel_quality : Int32
  mb_lmin : Int32
  mb_lmax : Int32
  me_penalty_compensation : Int32
  qblur : UInt32
  extradata : List Byte
  extradata_size : extradata.length < 2 ^ 31

/-- `AVRational` -/
structure AVRational where
  num : Int32
  den : Int32

/-- The fields of an `AVStream` that are read. -/
structure AVStream where
  codec_type : MediaType
  r_frame_rate : AVRational
  codec : AVCodecContext

/-- An open `FfmpegContext`: the container, whether its name ends in ".wav", and in this case what
`getHDAWavDuration` reads from it. -/
structure Container where
  duration : Int64
  start_time : Int64
  streams : List AVStream
  mbWavFile : Bool
  wavDuration : UInt32

/-- The fields of `PLAYER_INIT_INFO` in front of `extsize`. -/
structure InitFields where
  nCodeID : Int32
  nFps : Int32
  nWidth : Int32
  nHeigth : Int32
  nSampleRate : Int32
  nBistspersample : Int32
  nChannel : Int32
  nAudioFormat : Int32
  sample_fmt : Int32
  channel_layout : UInt64
  nCodecFlag : Int32
  bits_per_sample : Int32
  bit_rate : Int32
  me_method : Int32
  bit_ratetolerance : Int32
  block_align : Int32
  gop_size : Int32
  frame_size : Int32
  frame_number : Int32
  ildct_cmp : Int32
  me_subpel_quality : Int32
  mb_lmax : Int32
  mb_lmin : Int32
  me_penalty_compensation : Int32
  qblur : UInt32
  flags : Int32

namespace InitFields

def zero : InitFields := ⟨0, 0, 0, 0, 0, 0, 0, 0, 0, 0, 0, 0, 0, 0, 0, 0, 0, 0, 0, 0, 0, 0, 0, 0, 0, 0⟩

/-- An `int` in memory. -/
def intBytes (v : Int32) : List Byte := leBytes 4 v.toUInt32.toNat

/-- The fields in memory; `channel_layout` is aligned to eight bytes. -/
def bytes (f : InitFields) : List Byte :=
  [f.nCodeID, f.nFps, f.nWidth, f.nHeigth, f.nSampleRate, f.nBistspersample, f.nChannel, f.nAudioFormat,
      f.sample_fmt, 0].flatMap intBytes ++
    (leBytes 8 f.channel_layout.toNat ++
      ([f.nCodecFlag, f.bits_per_sample, f.bit_rate, f.me_method, f.bit_ratetolerance, f.block_align, f.gop_size,
          f.frame_size, f.frame_number, f.ildct_cmp, f.me_subpel_quality, f.mb_lmax, f.mb_lmin,
          f.me_penalty_compensation].flatMap intBytes ++
        (leBytes 4 f.qblur.toNat ++ intBytes f.flags)))

@[simp] theorem length_bytes (f : InitFields) : f.bytes.length = 112 := by
  simp [bytes, intBytes]

end InitFields

/-- The arrays that extra data is copied into. -/
inductive ExtArray where
  | extdata
  | videoExtData
  deriving DecidableEq, Repr

/-- `ARRAY_NUM` -/
def arrayNum : Nat := 100

/-- The size of `FILE_INFO` from `extsize` on. -/
def tailSize : Nat := 216

/-- Where an array's length stands in the tail; the array stands behind it. -/
def ExtArray.sizeAt : ExtArray → Nat
  | .extdata => 0
  | .videoExtData => 104

/-- Where the two times stand in the tail. -/
def tmStartAt : Nat := 208

def tmEndAt : Nat := 212

/-- One copy of extra data. -/
structure ExtCopy where
  array : ExtArray
  len : Nat
  deriving DecidableEq, Repr

/-- A `FILE_INFO` being filled in, and the members of `FfmpegContext` that `getPlayInfo` sets. -/
structure PlayInfo where
  fields : InitFields
  tail : List Byte
  mIndex : Nat
  mAudioFormat : Int32
  copies : List ExtCopy
  sized : tail.length = tailSize

namespace PlayInfo

/-- `FILE_INFO info = {0}`, in a new `FfmpegContext`. -/
def zero : PlayInfo where
  fields := .zero
  tail := List.replicate tailSize 0
  mIndex := 0
  mAudioFormat := -1
  copies := []
  sized := List.length_replicate

/-- Bytes stored in the tail. -/
def store (p : PlayInfo) (off : Nat) (bs : List Byte) (fits : off + bs.length ≤ tailSize) : PlayInfo :=
  { p with tail := poke p.tail off bs, sized := by rw [length_poke (by rw [p.sized]; exact fits), p.sized] }

theorem fits_word {off : Nat} (v : UInt32) (inside : off + 4 ≤ tailSize) :
    off + (leBytes 4 v.toNat).length ≤ tailSize := by
  rwa [length_leBytes]

/-- The fields are set. -/
def setFields (p : PlayInfo) (fields : InitFields) : PlayInfo := { p with fields := fields }

/-- `endTime = v`, where `endTime` is a reference to `fileInfo.tmEnd`. -/
def setEndTime (p : PlayInfo) (v : UInt32) : PlayInfo :=
  p.store tmEndAt (leBytes 4 v.toNat) (fits_word v (by decide))

theorem fits_size (array : ExtArray) : array.sizeAt + 4 ≤ tailSize := by
  cases array <;> decide

/-- The array's length is set. -/
def setSize (p : PlayInfo) (array : ExtArray) (size : UInt32) : PlayInfo :=
  p.store array.sizeAt (leBytes 4 size.toNat) (fits_word size (fits_size array))

/-- `memcpy` of extra data to its array: one that leaves the `FILE_INFO` writes over the caller's stack. -/
def memcpyExt (p : PlayInfo) (array : ExtArray) (extradata : List Byte) : Option PlayInfo :=
  if fits : array.sizeAt + 4 + extradata.length ≤ tailSize then
    some { p.store (array.sizeAt + 4) extradata fits with copies := p.copies ++ [⟨array, extradata.length⟩] }
  else none

/-- The bits of a sample, where `bits_per_raw_sample` does not tell. -/
def bitsOf : AVSampleFormat → Int32
  | .u8 | .u8p => 8
  | .s16 | .s16p => 16
  | .s32 | .s32p | .flt | .fltp | .s64 | .s64p | .dbl | .dblp => 32
  | .none => 16

/-- `getPlayInfo`, the fields that a video stream sets. -/
def videoFields (f : InitFields) (pStream : AVStream) : InitFields :=
  let pCodec := pStream.codec
  let rate := pStream.r_frame_rate
  { f with
    nCodeID := pCodec.codec_id + 1
    nFps := if rate.den = 0 then 25 else rate.num / rate.den
    nWidth := pCodec.width
    nHeigth := pCodec.height }

/-- `getPlayInfo`, the extra data of a video stream. -/
def copyVideo (p : PlayInfo) (pCodec : AVCodecContext) : Option PlayInfo :=
  if 0 < pCodec.extradata.length then
    (p.setSize .videoExtData (UInt32.ofNat pCodec.extradata.length)).memcpyExt .videoExtData pCodec.extradata
  else some p

/-- `getPlayInfo`, a video stream. -/
def addVideo (p : PlayInfo) (pStream : AVStream) (i : Nat) : Option PlayInfo :=
  ((p.setFields (videoFields p.fields pStream)).copyVideo pStream.codec).map fun p : PlayInfo =>
    { p with mIndex := i }

/-- `getPlayInfo`, what an audio stream of a WAV file sets besides its fields. -/
def markWav (p : PlayInfo) (c : Container) (pCodec : AVCodecContext) (i : Nat) : PlayInfo :=
  if pCodec.codec_id = codecIdNone ∨ pCodec.codec_id = codecIdAdpcmImaWav then
    let p := { p with mAudioFormat := codecIdAdpcmImaWav, mIndex := i }
    if c.mbWavFile then p.setEndTime c.wavDuration else p
  else p

/-- `getPlayInfo`, the fields that an audio stream sets. -/
def audioFields (f : InitFields) (pCodec : AVCodecContext) : InitFields :=
  let isMp2 := pCodec.codec_id = codecIdMp2
  let raw := pCodec.bits_per_raw_sample
  { f with
    nAudioFormat := if isMp2 then codecIdMp1 else pCodec.codec_id
    nCodecFlag := pCodec.codec_tag.toInt32
    bit_rate := pCodec.bit_rate.toInt32
    bit_ratetolerance := pCodec.bit_rate_tolerance
    sample_fmt := pCodec.sample_fmt.code
    bits_per_sample := pCodec.bits_per_coded_sample
    nBistspersample := if raw = 0 then bitsOf pCodec.sample_fmt else raw
    block_align := pCodec.block_align
    channel_layout := pCodec.channel_layout
    nSampleRate := if isMp2 ∧ pCodec.sample_rate = 0 then 8000 else pCodec.sample_rate
    nChannel := if isMp2 ∧ pCodec.channels = 0 then 2 else pCodec.channels
    gop_size := pCodec.gop_size
    frame_size := pCodec.frame_size
    frame_number := pCodec.frame_number
    ildct_cmp := pCodec.ildct_cmp
    me_subpel_quality := pCodec.me_subpel_quality
    mb_lmax := pCodec.mb_lmax
    mb_lmin := pCodec.mb_lmin
    me_penalty_compensation := pCodec.me_penalty_compensation
    qblur := pCodec.qblur }

/-- `getPlayInfo`, an audio stream. -/
def addAudio (p : PlayInfo) (c : Container) (pStream : AVStream) (i : Nat) : Option PlayInfo :=
  let pCodec := pStream.codec
  let p := p.markWav c pCodec i
  let p := p.setFields (audioFields p.fields pCodec)
  (p.setSize .extdata (UInt32.ofNat pCodec.extradata.length)).memcpyExt .extdata pCodec.extradata

/-- `getPlayInfo`, one round of its loop. -/
def addStream (c : Container) (p : PlayInfo) (stream : AVStream × Nat) : Option PlayInfo :=
  match stream.1.codec_type with
  | .video => p.addVideo stream.1 stream.2
  | .audio => p.addAudio c stream.1 stream.2
  | .other => some p

end PlayInfo

/-- `getPlayInfo` on the `FILE_INFO` of `getLoginRet`. -/
def getPlayInfo (c : Container) : Option PlayInfo :=
  let endTime := (c.duration - c.start_time) / 1000
  c.streams.zipIdx.foldlM (PlayInfo.addStream c) (PlayInfo.zero.setEndTime endTime.toUInt64.toUInt32)

/-- The `FILE_INFO` that has been filled in. -/
def PlayInfo.fileInfo (p : PlayInfo) : FileInfo where
  pi := p.fields.bytes ++ p.tail.take tmStartAt
  tmStart := wordAt p.tail tmStartAt
  tmEnd := wordAt p.tail tmEndAt
  pi_len := by
    rw [List.length_append, InitFields.length_bytes, List.length_take, p.sized]
    rfl

/-- `getFileInfo` -/
def getFileInfo (c : Container) : Option PlayInfo := do
  let p ← getPlayInfo c
  return p.store tmStartAt (leBytes 4 0) (by rw [length_leBytes]; decide)

/-! ## Extra data that fits -/

/-- The extra data that `videoExtData` holds after one more stream. -/
def nextVideo (last : List Byte) (s : AVStream) : List Byte :=
  if s.codec_type = .video ∧ 0 < s.codec.extradata.length then s.codec.extradata else last

/-- The extra data of the last video stream that has any. -/
def lastVideo (streams : List AVStream) : List Byte := streams.foldl nextVideo []

/-- The stream's extra data, if it is copied at all, fits into its array. -/
def AVStream.Small (s : AVStream) : Prop := s.codec_type ≠ .other → s.codec.extradata.length ≤ arrayNum

instance (s : AVStream) : Decidable s.Small := inferInstanceAs (Decidable (_ → _))

/-- The extra data in a `FILE_INFO` that no copy has run over: `videoExtData` begins with `last`. -/
structure PlayInfo.Keeps (p : PlayInfo) (last : List Byte) : Prop where
  copies : ∀ copy ∈ p.copies, copy.len ≤ arrayNum
  extsize : leValue (p.tail.take 4) ≤ arrayNum
  video : (p.tail.drop ExtArray.videoExtData.sizeAt).take (4 + last.length) = leBytes 4 last.length ++ last
  short : last.length ≤ arrayNum

namespace PlayInfo

variable {p p' : PlayInfo} {last : List Byte}

/-- Only the tail and the copies matter. -/
theorem Keeps.move (keeps : p.Keeps last) (tail : p'.tail = p.tail) (copies : p'.copies = p.copies) :
    p'.Keeps last :=
  ⟨copies ▸ keeps.copies, tail ▸ keeps.extsize, tail ▸ keeps.video, keeps.short⟩

/-- The times stand behind both arrays. -/
theorem Keeps.store_time (keeps : p.Keeps last) {off : Nat} {bs : List Byte} (fits : off + bs.length ≤ tailSize)
    (behind : tmStartAt ≤ off) : (p.store off bs fits).Keeps last := by
  have within : off ≤ p.tail.length := by
    rw [p.sized]
    omega
  refine ⟨keeps.copies, ?_, ?_, keeps.short⟩
  · change leValue ((poke p.tail off bs).take 4) ≤ arrayNum
    rw [take_poke_of_le (show 4 ≤ off from Nat.le_trans (by decide) behind) within]
    exact keeps.extsize
  · change ((poke p.tail off bs).drop ExtArray.videoExtData.sizeAt).take (4 + last.length) = _
    have before : ExtArray.videoExtData.sizeAt + (4 + last.length) ≤ off := by
      have short := keeps.short
      simp only [ExtArray.sizeAt, arrayNum, tmStartAt] at short behind ⊢
      omega
    rw [window_before before within]
    exact keeps.video

/-- A copy that does not leave the `FILE_INFO` is recorded. -/
theorem memcpyExt_copies {array : ExtArray} {extradata : List Byte}
    (copied : p.memcpyExt array extradata = some p') : p'.copies = p.copies ++ [⟨array, extradata.length⟩] := by
  unfold memcpyExt at copied
  split at copied
  · cases copied
    rfl
  · cases copied

/-- Extra data that fits is stored behind its length. -/
theorem memcpyExt_fits (array : ExtArray) {extradata : List Byte} (small : extradata.length ≤ arrayNum) :
    ∃ p', (p.setSize array (UInt32.ofNat extradata.length)).memcpyExt array extradata = some p' ∧
      p'.tail = poke p.tail array.sizeAt (leBytes 4 extradata.length ++ extradata) ∧
      p'.copies = p.copies ++ [⟨array, extradata.length⟩] := by
  have fits : array.sizeAt + 4 + extradata.length ≤ tailSize := by
    cases array <;> simp only [ExtArray.sizeAt, arrayNum, tailSize] at small ⊢ <;> omega
  have word : (UInt32.ofNat extradata.length).toNat = extradata.length := by
    have less : extradata.length < 2 ^ 32 := by
      rw [arrayNum] at small
      omega
    rw [UInt32.toNat_ofNat', Nat.mod_eq_of_lt less]
  refine ⟨_, dif_pos fits, ?_, rfl⟩
  change poke (poke p.tail array.sizeAt (leBytes 4 (UInt32.ofNat extradata.length).toNat)) (array.sizeAt + 4)
    extradata = _
  rw [word]
  have length : (leBytes 4 extradata.length).length = 4 := length_leBytes 4 _
  have inside : array.sizeAt + (leBytes 4 extradata.length).length ≤ p.tail.length := by
    rw [length, p.sized]
    exact fits_size array
  have beside := poke_poke extradata inside
  rwa [length] at beside

/-- A copy that fits is one more copy that fits. -/
theorem Keeps.copied (keeps : p.Keeps last) {array : ExtArray} {len : Nat}
    (copies : p'.copies = p.copies ++ [⟨array, len⟩]) (small : len ≤ arrayNum) :
    ∀ copy ∈ p'.copies, copy.len ≤ arrayNum := by
  intro copy member
  rw [copies] at member
  rcases List.mem_append.mp member with old | new
  · exact keeps.copies copy old
  · rw [List.mem_singleton.mp new]
    exact small

/-- Extra data of a video stream that fits. -/
theorem Keeps.copyVideo (keeps : p.Keeps last) {s : AVStream} (video : s.codec_type = .video)
    (small : s.codec.extradata.length ≤ arrayNum) :
    ∃ p', p.copyVideo s.codec = some p' ∧ p'.Keeps (nextVideo last s) := by
  unfold PlayInfo.copyVideo nextVideo
  split
  case isTrue some =>
    obtain ⟨p', copied, tail, copies⟩ := memcpyExt_fits (p := p) .videoExtData small
    have within : ExtArray.videoExtData.sizeAt ≤ p.tail.length := by
      rw [p.sized]
      decide
    rw [if_pos ⟨video, some⟩]
    refine ⟨p', copied, keeps.copied copies small, ?_, ?_, small⟩
    · rw [tail, take_poke_of_le (show 4 ≤ ExtArray.videoExtData.sizeAt by decide) within]
      exact keeps.extsize
    · rw [tail, drop_poke_self within]
      apply List.take_left'
      rw [List.length_append, length_leBytes]
  case isFalse none' =>
    rw [if_neg fun both => none' both.2]
    exact ⟨p, rfl, keeps⟩

/-- A video stream whose extra data fits. -/
theorem Keeps.addVideo (keeps : p.Keeps last) {s : AVStream} (i : Nat) (video : s.codec_type = .video)
    (small : s.codec.extradata.length ≤ arrayNum) : ∃ p', p.addVideo s i = some p' ∧ p'.Keeps (nextVideo last s) := by
  have named : (p.setFields (videoFields p.fields s)).Keeps last := keeps.move rfl rfl
  obtain ⟨p', copied, kept⟩ := named.copyVideo video small
  refine ⟨{ p' with mIndex := i }, ?_, kept.move rfl rfl⟩
  rw [PlayInfo.addVideo, copied]
  rfl

theorem Keeps.markWav (keeps : p.Keeps last) (c : Container) (pCodec : AVCodecContext) (i : Nat) :
    (p.markWav c pCodec i).Keeps last := by
  have marked : ({ p with mAudioFormat := codecIdAdpcmImaWav, mIndex := i } : PlayInfo).Keeps last :=
    keeps.move rfl rfl
  unfold PlayInfo.markWav
  split
  · dsimp only
    split
    · exact marked.store_time _ (by decide)
    · exact marked
  · exact keeps

theorem copies_markWav (c : Container) (pCodec : AVCodecContext) (i : Nat) :
    (p.markWav c pCodec i).copies = p.copies := by
  unfold PlayInfo.markWav
  split
  · dsimp only
    split <;> rfl
  · rfl

/-- An audio stream whose extra data fits. -/
theorem Keeps.addAudio (keeps : p.Keeps last) (c : Container) (s : AVStream) (i : Nat)
    (small : s.codec.extradata.length ≤ arrayNum) : ∃ p', p.addAudio c s i = some p' ∧ p'.Keeps last := by
  have before : ((p.markWav c s.codec i).setFields (audioFields (p.markWav c s.codec i).fields s.codec)).Keeps last :=
    (keeps.markWav c s.codec i).move rfl rfl
  obtain ⟨p', copied, tail, copies⟩ := memcpyExt_fits
    (p := (p.markWav c s.codec i).setFields (audioFields (p.markWav c s.codec i).fields s.codec)) .extdata small
  refine ⟨p', copied, before.copied copies small, ?_, ?_, before.short⟩
  · have word : leValue (leBytes 4 s.codec.extradata.length) = s.codec.extradata.length := by
      rw [leValue_leBytes]
      apply Nat.mod_eq_of_lt
      rw [arrayNum] at small
      omega
    have front : p'.tail.take 4 = leBytes 4 s.codec.extradata.length := by
      rw [tail, ExtArray.sizeAt, poke_zero, List.append_assoc]
      exact List.take_left' (length_leBytes 4 _)
    rw [front, word]
    exact small
  · have behind : ExtArray.extdata.sizeAt + (leBytes 4 s.codec.extradata.length ++ s.codec.extradata).length ≤
        ExtArray.videoExtData.sizeAt := by
      rw [List.length_append, length_leBytes]
      simp only [ExtArray.sizeAt]
      rw [arrayNum] at small
      omega
    rw [tail, drop_poke_of_le behind (Nat.zero_le _)]
    exact before.video

/-- **A stream whose extra data fits runs over nothing.** -/
theorem Keeps.addStream (keeps : p.Keeps last) (c : Container) (s : AVStream) (i : Nat) (small : s.Small) :
    ∃ p', p.addStream c (s, i) = some p' ∧ p'.Keeps (nextVideo last s) := by
  unfold PlayInfo.addStream
  have other : s.codec_type ≠ .video → nextVideo last s = last := fun differs => if_neg fun both => differs both.1
  cases kind : s.codec_type with
  | video => exact keeps.addVideo i kind (small (by rw [kind]; decide))
  | audio =>
    rw [other (by rw [kind]; decide)]
    exact keeps.addAudio c s i (small (by rw [kind]; decide))
  | other =>
    rw [other (by rw [kind]; decide)]
    exact ⟨p, rfl, keeps⟩

theorem keeps_zero : PlayInfo.zero.Keeps [] := by
  refine ⟨nofun, ?_, ?_, Nat.zero_le _⟩
  · decide
  · decide

/-- One round of the loop records what it copies. -/
theorem addStream_copies {c : Container} {s : AVStream} {i : Nat} (added : p.addStream c (s, i) = some p') :
    ∃ more, p'.copies = p.copies ++ more ∧
      (s.codec_type ≠ .other → s.codec.extradata = [] ∨ ∃ copy ∈ more, copy.len = s.codec.extradata.length) := by
  unfold PlayInfo.addStream at added
  cases kind : s.codec_type with
  | video =>
    rw [kind] at added
    obtain ⟨q, copied, rfl⟩ := Option.map_eq_some_iff.mp added
    unfold PlayInfo.copyVideo at copied
    split at copied
    case isTrue some =>
      have copies : q.copies = p.copies ++ [⟨.videoExtData, s.codec.extradata.length⟩] :=
        (memcpyExt_copies copied).trans rfl
      exact ⟨_, copies, fun _ => .inr ⟨⟨.videoExtData, _⟩, List.mem_singleton_self _, rfl⟩⟩
    case isFalse none' =>
      cases copied
      have empty : s.codec.extradata.length = 0 := Nat.eq_zero_of_not_pos none'
      exact ⟨[], (List.append_nil _).symm, fun _ => .inl (List.eq_nil_of_length_eq_zero empty)⟩
  | audio =>
    rw [kind] at added
    have copies := memcpyExt_copies added
    refine ⟨_, copies.trans (congrArg (· ++ _) ?_), fun _ => .inr ⟨⟨.extdata, _⟩, List.mem_singleton_self _, rfl⟩⟩
    exact copies_markWav c s.codec i
  | other =>
    rw [kind] at added
    cases added
    exact ⟨[], (List.append_nil _).symm, fun differs => absurd rfl differs⟩

end PlayInfo

section
variable {c : Container}

/-- The loop over streams that fit. -/
theorem keeps_streams {streams : List AVStream} (small : ∀ s ∈ streams, s.Small) {p : PlayInfo} {last : List Byte}
    (keeps : p.Keeps last) (k : Nat) :
    ∃ p', (streams.zipIdx k).foldlM (PlayInfo.addStream c) p = some p' ∧ p'.Keeps (streams.foldl nextVideo last) := by
  induction streams generalizing p last k with
  | nil => exact ⟨p, rfl, keeps⟩
  | cons s streams ih =>
    obtain ⟨q, added, kept⟩ := keeps.addStream c s k (small s List.mem_cons_self)
    obtain ⟨p', rest, kept'⟩ := ih (fun s member => small s (List.mem_cons_of_mem _ member)) kept (k + 1)
    refine ⟨p', ?_, kept'⟩
    rw [List.zipIdx_cons, List.foldlM_cons, added]
    exact rest

/-- A loop that comes to its end has recorded what it copied. -/
theorem copies_streams {streams : List AVStream} {p p' : PlayInfo} {k : Nat}
    (ran : (streams.zipIdx k).foldlM (PlayInfo.addStream c) p = some p') :
    p.copies <+: p'.copies ∧ ∀ s ∈ streams, s.codec_type ≠ .other →
      s.codec.extradata = [] ∨ ∃ copy ∈ p'.copies, copy.len = s.codec.extradata.length := by
  induction streams generalizing p k with
  | nil =>
    cases ran
    exact ⟨List.prefix_refl _, fun s member => absurd member List.not_mem_nil⟩
  | cons s streams ih =>
    rw [List.zipIdx_cons, List.foldlM_cons, Option.bind_eq_bind, Option.bind_eq_some_iff] at ran
    obtain ⟨q, added, ran⟩ := ran
    obtain ⟨more, copies, recorded⟩ := PlayInfo.addStream_copies added
    obtain ⟨front, later⟩ := ih ran
    rw [copies] at front
    refine ⟨(List.prefix_append _ _).trans front, fun s' member used => ?_⟩
    rcases List.mem_cons.mp member with rfl | tail
    · rcases recorded used with none' | ⟨copy, new, length⟩
      · exact .inl none'
      · exact .inr ⟨copy, front.subset (List.mem_append_right _ new), length⟩
    · exact later s' tail used

/-- **`getFileInfo` on streams whose extra data fits.** -/
theorem getFileInfo_keeps (small : ∀ s ∈ c.streams, s.Small) :
    ∃ p, getFileInfo c = some p ∧ p.Keeps (lastVideo c.streams) := by
  have start := PlayInfo.keeps_zero.store_time
    (PlayInfo.fits_word ((c.duration - c.start_time) / 1000).toUInt64.toUInt32 (show tmEndAt + 4 ≤ tailSize by decide))
    (by decide)
  obtain ⟨p, ran, keeps⟩ := keeps_streams (c := c) small start 0
  have zeros : tmStartAt + (leBytes 4 0).length ≤ tailSize := by
    rw [length_leBytes]
    decide
  refine ⟨_, ?_, keeps.store_time zeros (Nat.le_refl tmStartAt)⟩
  rw [getFileInfo, getPlayInfo, PlayInfo.setEndTime, ran]
  rfl

/-- **Copies that stay in their arrays are of extra data that fits.** -/
theorem small_of_copies {p : PlayInfo} (ran : getFileInfo c = some p)
    (inside : ∀ copy ∈ p.copies, copy.len ≤ arrayNum) : ∀ s ∈ c.streams, s.Small := by
  simp only [getFileInfo, Option.bind_eq_bind, Option.bind_eq_some_iff, Option.pure_def, Option.some.injEq] at ran
  obtain ⟨q, ran, rfl⟩ := ran
  intro s member used
  rcases (copies_streams ran).2 s member used with none' | ⟨copy, recorded, length⟩
  · rw [none']
    exact Nat.zero_le _
  · rw [← length]
    exact inside copy recorded

end

end GreatEvent
