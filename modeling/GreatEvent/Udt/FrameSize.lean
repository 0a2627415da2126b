import GreatEvent.Nal.Decoding
import GreatEvent.Udt.Video

/-!
# The largest frame over UDT

`UdtSender::sendfileProc` sends the NAL units of a file, which it reads into
a buffer of 8000000 bytes without a check. `recvvideo` receives every one
into a buffer of 800000, without a check either. The loop comes to the
segments of the file up to the first of less than 4 bytes (`met`); both
buffers hold their units just when the receiver's does (`frame_sizes_iff`).
-/

namespace GreatEvent.Udt

open Lib Nal

/-- The `buffersize` of the `AllocNALU` in `sendfileProc`. -/
def naluLen : Nat := 8000000

/-- What `sendfileProc` comes to: the units it has handed to `sendData`, the connection it has sent them
over, and whether it has written past its buffer. -/
structure FileRun where
  units : List (List Byte)
  sender : VideoSender
  faulted : Bool

/-- `UdtSender::sendfileProc`, for at most so many rounds of its loop. -/
def sendfileProc : Nat → BitStream → Nalu → VideoSender → FileRun
  | 0, _, _, s => ⟨[], s, false⟩
  | rounds + 1, file, nalu, s =>
    if file.feof then ⟨[], s, false⟩
    else
      match getAnnexbNALU file nalu with
      | none => ⟨[], s, true⟩
      | some (size, file, nalu) =>
        if size < 4 then ⟨[], s, false⟩
        else
          let data := nalu.buf.take nalu.len
          -- what `sendBuffer` returns is only logged
          let run := sendfileProc rounds file nalu (s.sendData data).2
          { run with units := data :: run.units }

/-- The segments of a file that the loop comes to: it ends at the first of less than 4 bytes. -/
def met (segs : List Segment) : List Segment := segs.takeWhile fun seg => decide (4 ≤ seg.bytes.length)

theorem met_cons_long {seg : Segment} (long : 4 ≤ seg.bytes.length) (segs : List Segment) :
    met (seg :: segs) = seg :: met segs := by
  rw [met, List.takeWhile_cons_of_pos (by simpa using long)]
  rfl

theorem met_cons_short {seg : Segment} (short : ¬ 4 ≤ seg.bytes.length) (segs : List Segment) :
    met (seg :: segs) = [] := by
  rw [met, List.takeWhile_cons_of_neg (by simpa using short)]

/-- The sender has stayed inside its buffer, and the receiver's holds what it has sent. -/
structure FileRun.Fits (run : FileRun) : Prop where
  inside : run.faulted = false
  units : ∀ data ∈ run.units, data.length ≤ bufferLen

theorem FileRun.Fits.nothing {run : FileRun} (none : run.units = []) (inside : run.faulted = false) :
    run.Fits :=
  ⟨inside, by rw [none]; exact nofun⟩

section
variable {file : BitStream} {nalu : Nalu} {s : VideoSender}

/-- The units have gone out one behind the other. -/
theorem sendfileProc_sender (rounds : Nat) (file : BitStream) (nalu : Nalu) (s : VideoSender) :
    (sendfileProc rounds file nalu s).sender =
      s.sendAll (sendfileProc rounds file nalu s).units := by
  induction rounds generalizing file nalu s with
  | zero => rfl
  | succ rounds ih =>
    unfold sendfileProc
    split
    · rfl
    · split
      · rfl
      · split
        · rfl
        · exact ih _ _ _

theorem sendfileProc_feof (ended : file.feof = true) (rounds : Nat) :
    (sendfileProc rounds file nalu s).Fits := by
  cases rounds with
  | zero => exact .nothing rfl rfl
  | succ rounds =>
    rw [sendfileProc, if_pos ended]
    exact .nothing rfl rfl

/-- In front of anything but a start code nothing is sent. -/
theorem sendfileProc_off (goesOn : file.feof = false) (other : ¬ Begins file.unread)
    (room : 4 ≤ nalu.max_size) (rounds : Nat) : (sendfileProc rounds file nalu s).Fits := by
  cases rounds with
  | zero => exact .nothing rfl rfl
  | succ rounds =>
    obtain ⟨size, file', nalu', call, small, -⟩ :=
      getAnnexbNALU_off other (Nat.le_trans (Nat.min_le_left _ _) room)
    rw [sendfileProc, goesOn, call]
    dsimp only
    rw [if_neg (by decide), if_pos (by omega)]
    exact .nothing rfl rfl

/-- A segment is sent, and the file is in front of the rest. -/
theorem sendfileProc_cut {seg : Segment} {rest : List UInt8} (goesOn : file.feof = false)
    (cut : Nal.Cut file.unread seg rest) (long : 4 ≤ seg.bytes.length)
    (room : seg.bytes.length + lookahead rest ≤ nalu.max_size) :
    ∃ file' nalu' s', (∀ rounds, sendfileProc (rounds + 1) file nalu s =
        { sendfileProc rounds file' nalu' s' with
          units := seg.nal :: (sendfileProc rounds file' nalu' s').units }) ∧
      file'.LeftAt rest ∧ nalu'.max_size = nalu.max_size := by
  obtain ⟨file', nalu', call, left, holds, same⟩ := getAnnexbNALU_cut goesOn cut room
  refine ⟨file', nalu', (s.sendData seg.nal).2, fun rounds => ?_, left, same⟩
  rw [sendfileProc, goesOn, call]
  dsimp only
  rw [if_neg (by decide), if_neg (by omega), holds.bytes]

/-- The loop ends at a segment that is too short. -/
theorem sendfileProc_short {seg : Segment} {rest : List UInt8} (goesOn : file.feof = false)
    (cut : Nal.Cut file.unread seg rest) (short : seg.bytes.length < 4)
    (room : seg.bytes.length + lookahead rest ≤ nalu.max_size) (rounds : Nat) :
    (sendfileProc rounds file nalu s).Fits := by
  cases rounds with
  | zero => exact .nothing rfl rfl
  | succ rounds =>
    obtain ⟨file', nalu', call, -⟩ := getAnnexbNALU_cut goesOn cut room
    rw [sendfileProc, goesOn, call]
    dsimp only
    rw [if_neg (by decide), if_pos (by omega)]
    exact .nothing rfl rfl

/-- A segment that does not fit the sender's buffer is read past it. -/
theorem sendfileProc_past {seg : Segment} {rest : List UInt8} (goesOn : file.feof = false)
    (cut : Nal.Cut file.unread seg rest) (past : nalu.max_size < seg.bytes.length + lookahead rest) :
    (sendfileProc 1 file nalu s).faulted = true := by
  rw [sendfileProc, goesOn, getAnnexbNALU_past goesOn cut past, if_neg (by decide)]

/-- What the receiver has room for, or is too short to be sent, the sender has room for. -/
theorem room_of_fits {seg : Segment} (fits : seg.bytes.length < 4 ∨ seg.nal.length ≤ bufferLen)
    (rest : List UInt8) : seg.bytes.length + lookahead rest ≤ naluLen := by
  have code : seg.code.bytes.length ≤ 4 := by cases seg.code <;> decide
  have behind : lookahead rest ≤ 4 := by
    unfold lookahead
    split <;> decide
  have small : bufferLen + 8 ≤ naluLen := by decide
  have length : seg.bytes.length = seg.code.bytes.length + seg.nal.length := List.length_append
  omega

/-- **One segment**: the receiver's buffer must hold its unit, and the run goes on behind it. -/
theorem fits_cut {seg : Segment} {rest : List UInt8} (goesOn : file.feof = false)
    (cut : Nal.Cut file.unread seg rest) (long : 4 ≤ seg.bytes.length) (size : nalu.max_size = naluLen)
    {P : Prop} (behind : ∀ file' nalu' s', file'.LeftAt rest → nalu'.max_size = naluLen →
      ((∀ rounds, (sendfileProc rounds file' nalu' s').Fits) ↔ P)) :
    (∀ rounds, (sendfileProc rounds file nalu s).Fits) ↔ seg.nal.length ≤ bufferLen ∧ P := by
  constructor
  · intro fits
    have room : seg.bytes.length + lookahead rest ≤ nalu.max_size := by
      refine Nat.le_of_not_lt fun past => ?_
      cases (fits 1).inside.symm.trans (sendfileProc_past goesOn cut past)
    obtain ⟨file', nalu', s', sent, left, same⟩ := sendfileProc_cut goesOn cut long room (s := s)
    have units : ∀ rounds, ∀ data ∈ seg.nal :: (sendfileProc rounds file' nalu' s').units,
        data.length ≤ bufferLen := fun rounds => by
      have next := (fits (rounds + 1)).units
      rwa [sent] at next
    refine ⟨units 0 _ List.mem_cons_self, (behind file' nalu' s' left (same.trans size)).mp fun rounds => ?_⟩
    have inside := (fits (rounds + 1)).inside
    rw [sent] at inside
    exact ⟨inside, fun data member => units rounds data (List.mem_cons_of_mem _ member)⟩
  · rintro ⟨small, rest'⟩ rounds
    have room := size ▸ room_of_fits (.inr small) rest
    obtain ⟨file', nalu', s', sent, left, same⟩ := sendfileProc_cut goesOn cut long room (s := s)
    cases rounds with
    | zero => exact .nothing rfl rfl
    | succ rounds =>
      have next := (behind file' nalu' s' left (same.trans size)).mpr rest' rounds
      rw [sent]
      exact ⟨next.inside, List.forall_mem_cons.mpr ⟨small, next.units⟩⟩

end

/-- **When a file fits both buffers**: the segments that the loop comes to have units the receiver's
holds. -/
theorem sendfileProc_fits {content : List UInt8} {segs : List Segment} (cuts : Cuts content segs)
    (file : BitStream) (nalu : Nalu) (s : VideoSender) (comes : file.unread = content)
    (goesOn : file.feof = false) (size : nalu.max_size = naluLen) :
    (∀ rounds, (sendfileProc rounds file nalu s).Fits) ↔ ∀ seg ∈ met segs, seg.nal.length ≤ bufferLen := by
  induction cuts generalizing file nalu s with
  | @last content seg cut =>
    subst comes
    by_cases long : 4 ≤ seg.bytes.length
    · have one : met [seg] = [seg] := met_cons_long long []
      rw [one, List.forall_mem_singleton]
      have ended := fits_cut goesOn cut long size (s := s) (P := True) fun file' nalu' s' left _ =>
        iff_true_intro fun rounds => sendfileProc_feof left.feof rounds
      rw [ended, and_true]
    · rw [met_cons_short long]
      refine iff_of_true (fun rounds => ?_) nofun
      exact sendfileProc_short goesOn cut (by omega) (size ▸ room_of_fits (.inl (by omega)) _) rounds
  | @cons content rest seg segs cut more cuts ih =>
    subst comes
    by_cases long : 4 ≤ seg.bytes.length
    · rw [met_cons_long long, List.forall_mem_cons]
      refine fits_cut goesOn cut long size fun file' nalu' s' left same => ?_
      exact ih file' nalu' s' left.unread (left.feof.trans (decide_eq_false more)) same
    · rw [met_cons_short long]
      refine iff_of_true (fun rounds => ?_) nofun
      exact sendfileProc_short goesOn cut (by omega) (size ▸ room_of_fits (.inl (by omega)) _) rounds

namespace VideoReceiver

/-- A receiver that writes past its buffer does so however long it runs. -/
theorem recvvideo_none {r : VideoReceiver} {rounds : Nat} (past : r.recvvideo rounds = none)
    (more : Nat) : r.recvvideo (rounds + more) = none := by
  induction rounds generalizing r with
  | zero => cases past
  | succ rounds ih =>
    rw [Nat.succ_add]
    unfold recvvideo at past ⊢
    split at past
    · exact ih past
    · cases past
    · rfl

/-- **Frames that fit are received inside the buffer.** -/
theorem recvvideo_safe {frames : List (List Byte)} (fits : ∀ data ∈ frames, data.length ≤ bufferLen)
    {r : VideoReceiver} (registered : r.mStreamBase = true) (position : Nat)
    (arrives : r.inp = (frames.flatMap frameBytes).take position) (rounds : Nat) :
    r.recvvideo rounds ≠ none := by
  intro past
  obtain ⟨ends, -, runs, -⟩ := recvvideo_frames fits registered arrives
  have returned := runs (rounds + (frames.length + 1)) (by omega)
  rw [recvvideo_none past] at returned
  cases returned

end VideoReceiver

/-- The connection of a sender that has sent nothing. -/
def fresh (sends : List (Option Nat)) : VideoSender := ⟨[], sends⟩

/-- `sendfileProc` on a file. -/
def sendFile (rounds : Nat) (content : List Byte) (sends : List (Option Nat)) : FileRun :=
  sendfileProc rounds (.openFile content) (allocNALU naluLen) (fresh sends)

/-- `sendfileProc` reads every unit of the file into its own buffer, the receiver's buffer holds every
unit that it sends, and `recvEx` never writes past it. -/
structure Agree (content : List Byte) : Prop where
  inside : ∀ rounds sends, (sendFile rounds content sends).faulted = false
  fits : ∀ rounds sends, ∀ data ∈ (sendFile rounds content sends).units, data.length ≤ bufferLen
  safe : ∀ rounds sends position cuts n, none ∉ sends →
    (start ((sendFile rounds content sends).sender.wire.take position) cuts).recvvideo n ≠ none

theorem agree_iff_fits {content : List Byte} :
    Agree content ↔ ∀ sends rounds, (sendFile rounds content sends).Fits := by
  constructor
  · exact fun agree sends rounds => ⟨agree.inside rounds sends, agree.fits rounds sends⟩
  · intro fits
    refine ⟨fun rounds sends => (fits sends rounds).inside, fun rounds sends => (fits sends rounds).units, ?_⟩
    intro rounds sends position cuts n fine
    refine VideoReceiver.recvvideo_safe (fits sends rounds).units rfl position ?_ n
    show (sendFile rounds content sends).sender.wire.take position = _
    rw [sendFile, sendfileProc_sender, sendAll_wire fine]
    rfl

/-- They agree on a file that is cut into segments just if they agree on those the loop comes to. -/
theorem agree_iff_met {content : List Byte} {segs : List Segment} (cuts : Cuts content segs) :
    Agree content ↔ ∀ seg ∈ met segs, seg.nal.length ≤ bufferLen := by
  have each : ∀ sends, (∀ rounds, (sendFile rounds content sends).Fits) ↔
      ∀ seg ∈ met segs, seg.nal.length ≤ bufferLen := fun sends =>
    sendfileProc_fits cuts (.openFile content) (allocNALU naluLen) (fresh sends) rfl rfl rfl
  rw [agree_iff_fits]
  exact ⟨fun fits => (each []).mp (fits []), fun small sends => (each sends).mpr small⟩

/-- **When sender and receiver agree on the largest frame**: just if no segment of the file that the
loop comes to has a unit of more than 800000 bytes. -/
theorem frame_sizes_iff (content : List Byte) : Agree content ↔
    ∀ segs, Cuts content segs → ∀ seg ∈ met segs, seg.nal.length ≤ bufferLen := by
  constructor
  · exact fun agree segs cuts => (agree_iff_met cuts).mp agree
  · intro small
    by_cases begins : Begins content
    · obtain ⟨segs, cuts⟩ := exists_cuts begins
      exact (agree_iff_met cuts).mpr (small segs cuts)
    · have room : 4 ≤ (allocNALU naluLen).max_size := by decide
      have off : ¬ Begins (BitStream.openFile content).unread := begins
      exact agree_iff_fits.mpr fun sends rounds => sendfileProc_off rfl off room rounds

/-- A unit of one byte more than the receiver's buffer. -/
def largeUnit : Segment := ⟨.four, List.replicate (bufferLen + 1) 0x65⟩

theorem cuts_large : Cuts (encode [largeUnit]) [largeUnit] := by
  refine cuts_encode (List.cons_ne_nil _ _) fun seg member => ?_
  obtain rfl := List.mem_singleton.mp member
  have noZero : (0 : UInt8) ∉ largeUnit.nal := by
    intro zero
    exact absurd (List.eq_of_mem_replicate zero) (by decide)
  constructor
  · exact fun marked => noZero (marked.subset List.mem_cons_self)
  · exact fun ends => noZero (ends.subset List.mem_cons_self)

/-- **The sender sends frames that the receiver has no room for.** -/
theorem large_unit_sent : ¬ Agree (encode [largeUnit]) := by
  intro agree
  have length : largeUnit.nal.length = bufferLen + 1 := List.length_replicate
  have code : largeUnit.code.bytes.length = 4 := rfl
  have long : 4 ≤ largeUnit.bytes.length := by
    rw [Segment.bytes, List.length_append, code]
    exact Nat.le_add_right 4 _
  have member : largeUnit ∈ met [largeUnit] := by
    rw [met_cons_long long]
    exact List.mem_cons_self
  have short := (agree_iff_met cuts_large).mp agree _ member
  rw [length] at short
  exact absurd short (Nat.not_succ_le_self _)

end GreatEvent.Udt
