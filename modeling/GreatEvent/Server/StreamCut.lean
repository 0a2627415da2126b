import GreatEvent.Server.FileRecvSteps
import GreatEvent.Server.FileSendSteps
import GreatEvent.Server.PlaybackPacing
import GreatEvent.Server.ReaderStream
import GreatEvent.Server.Turns

/-!
# How a task's input is cut into frames

`Reads` says where a reader stands in everything its peer has sent: the
frames handed on so far, the part of a frame it holds, and the input still
to come make up the whole. The three tasks share it: their methods leave the
reader alone (`Aside`) except in `readBuffer`, whose `dispatch` leaves it
alone in turn. After a header that announces too much nothing of this is
left (`Broken`), but then a window has been wrong.
-/

namespace GreatEvent

open Lib FrameReader

/-- An observation that is neither the reader's nor a teardown. -/
def Obs.isAside : Obs → Bool
  | .window .. | .frame _ | .teardown _ => false
  | _ => true

/-- A step of a callback that leaves the reader and its input alone. -/
structure Aside {τ : Type} [FrameReader τ] (w t : World τ) : Prop where
  reader : buf t.obj = buf w.obj
  inp : t.inp = w.inp
  logged : ∃ obs, t.trace = w.trace ++ obs ∧ ∀ o ∈ obs, o.isAside = true

/-- A task whose methods leave its reader alone, but for `readBuffer`. -/
class ReadsFrames (τ : Type) extends FrameReader τ, Callbacks τ where
  dispatch : Act τ (Option Int)
  readBuffer_eq : Callbacks.readBuffer = GreatEvent.readBuffer dispatch
  dispatch_aside : ∀ w : World τ, wp dispatch (fun r t => r = none ∧ Aside w t) (fun _ => Aside w) w
  writeBuffer_aside : ∀ w : World τ,
    wp (Callbacks.writeBuffer : Act τ Int) (fun _ => Aside w) (fun _ => Aside w) w
  setHeartBeat_aside : ∀ w : World τ,
    wp (Callbacks.setHeartBeat : Act τ Int) (fun _ => Aside w) (fun _ => Aside w) w

/-! ## The three tasks -/

section
variable {τ : Type} [FrameReader τ]

theorem Aside.of_quiet {w t : World τ} (reader : buf t.obj = buf w.obj) (inp : t.inp = w.inp)
    (logged : t.trace = w.trace) : Aside w t :=
  ⟨reader, inp, [], by simp [logged], nofun⟩

theorem Aside.of_one {w t : World τ} {o : Obs} (reader : buf t.obj = buf w.obj)
    (inp : t.inp = w.inp) (logged : t.trace = w.trace ++ [o]) (isAside : o.isAside = true) :
    Aside w t := by
  refine ⟨reader, inp, [o], logged, fun o' member => ?_⟩
  rw [List.mem_singleton.mp member]
  exact isAside

theorem Aside.queued {w t : World τ} {f : Frame} (reader : buf t.obj = buf w.obj)
    (inp : t.inp = w.inp) (logged : t.trace = w.trace ++ [.queued f]) : Aside w t :=
  .of_one reader inp logged rfl

theorem Aside.commanded {w t : World τ} {c : Control} (reader : buf t.obj = buf w.obj)
    (inp : t.inp = w.inp) (logged : t.trace = w.trace ++ [.command c]) : Aside w t :=
  .of_one reader inp logged rfl

end

namespace TaskPlayback

theorem dispatch_aside (w : World TaskPlayback) :
    wp dispatch (fun r t => r = none ∧ Aside w t) (fun _ => Aside w) w := by
  refine wp_dispatch ⟨rfl, .of_quiet rfl rfl rfl⟩ (.of_quiet rfl rfl rfl)
    (.commanded rfl rfl rfl) ?_ (fun v _ => ⟨rfl, .commanded rfl rfl rfl⟩)
    ⟨rfl, .commanded rfl rfl rfl⟩ (fun v _ => ?_)
  · rintro _ (rfl | rfl) <;> exact ⟨rfl, .commanded rfl rfl rfl⟩
  · have one : ∀ (t : World TaskPlayback) (f : Frame), buf t.obj = buf w.obj → t.inp = w.inp →
        t.trace = (w.trace ++ [.command (.seek v)]) ++ [.queued f] → Aside w t := by
      intro t f reader inp logged
      exact ⟨reader, inp, [.command (.seek v), .queued f], by simp [logged], by simp [Obs.isAside]⟩
    have both : ∀ (t : World TaskPlayback) (f g : Frame), buf t.obj = buf w.obj → t.inp = w.inp →
        t.trace = ((w.trace ++ [.command (.seek v)]) ++ [.queued f]) ++ [.queued g] → Aside w t := by
      intro t f g reader inp logged
      exact ⟨reader, inp, [.command (.seek v), .queued f, .queued g], by simp [logged],
        by simp [Obs.isAside]⟩
    refine wp_tcpSendData_frame (fun _ _ _ _ => ?_) (fun _ _ => one _ _ rfl rfl rfl)
    exact wp_tcpSendData_frame (fun _ _ _ _ => ⟨rfl, both _ _ _ rfl rfl rfl⟩)
      (fun _ _ => both _ _ _ rfl rfl rfl)

theorem writeBuffer_aside (w : World TaskPlayback) :
    wp writeBuffer (fun _ => Aside w) (fun _ => Aside w) w := by
  refine wp_writeBuffer (fun _ => ?_) (fun _ _ _ _ => ?_) (fun _ _ _ => .of_quiet rfl rfl rfl)
    (fun _ _ _ _ _ _ => ?_) (fun _ _ _ _ _ => ?_) (fun _ _ _ _ => ?_)
  · exact wp_tcpSendData_frame (fun _ _ _ _ => .of_quiet rfl rfl rfl)
      (fun _ _ => .of_quiet rfl rfl rfl)
  all_goals
    exact wp_tcpSendData_frame (fun _ _ _ _ => .queued rfl rfl rfl)
      (fun _ _ => .queued rfl rfl rfl)

theorem setHeartCount_aside (w : World TaskPlayback) :
    wp setHeartCount (fun _ => Aside w) (fun _ => Aside w) w := by
  simp only [setHeartCount, wp_bind, wp_modifySelf, wp_get, wp_ite, wp_addWriteEvent, wp_self, wp_pure]
  split
  · split <;> exact .of_quiet rfl rfl rfl
  · exact .of_quiet rfl rfl rfl

end TaskPlayback

instance : ReadsFrames TaskPlayback where
  dispatch := TaskPlayback.dispatch
  readBuffer_eq := rfl
  dispatch_aside := TaskPlayback.dispatch_aside
  writeBuffer_aside := TaskPlayback.writeBuffer_aside
  setHeartBeat_aside := TaskPlayback.setHeartCount_aside

namespace TaskFileSend

theorem dispatch_aside (w : World TaskFileSend) :
    wp dispatch (fun r t => r = none ∧ Aside w t) (fun _ => Aside w) w :=
  wp_dispatch (.of_quiet rfl rfl rfl) ⟨rfl, .of_quiet rfl rfl rfl⟩
    (fun _ => .commanded rfl rfl rfl) (fun _ _ _ _ _ _ => ⟨rfl, .commanded rfl rfl rfl⟩)

theorem writeBuffer_aside (w : World TaskFileSend) :
    wp writeBuffer (fun _ => Aside w) (fun _ => Aside w) w := by
  refine wp_writeBuffer (fun _ => ?_) (fun _ _ _ _ _ => ?_) (fun _ _ _ => .of_quiet rfl rfl rfl)
    (fun _ _ _ _ _ _ => ?_) (fun _ _ => .of_quiet rfl rfl rfl) (fun _ => .of_quiet rfl rfl rfl)
    (fun _ _ => ?_)
  · exact wp_tcpSendData_frame (fun _ _ _ _ => .of_quiet rfl rfl rfl)
      (fun _ _ => .of_quiet rfl rfl rfl)
  all_goals
    exact wp_tcpSendData_frame (fun _ _ _ _ => .queued rfl rfl rfl)
      (fun _ _ => .queued rfl rfl rfl)

end TaskFileSend

instance : ReadsFrames TaskFileSend where
  dispatch := TaskFileSend.dispatch
  readBuffer_eq := rfl
  dispatch_aside := TaskFileSend.dispatch_aside
  writeBuffer_aside := TaskFileSend.writeBuffer_aside
  setHeartBeat_aside _ := .of_quiet rfl rfl rfl

instance : ReadsFrames TaskFileRecv where
  dispatch := TaskFileRecv.dispatch
  readBuffer_eq := rfl
  dispatch_aside _ := TaskFileRecv.wp_dispatch (fun _ => ⟨rfl, .of_quiet rfl rfl rfl⟩)
    (fun _ _ => ⟨rfl, .of_quiet rfl rfl rfl⟩) (fun _ _ => .of_quiet rfl rfl rfl)
    (fun _ _ _ _ => ⟨rfl, .of_quiet rfl rfl rfl⟩) (fun _ _ _ _ => .of_quiet rfl rfl rfl)
  writeBuffer_aside _ := .of_quiet rfl rfl rfl
  setHeartBeat_aside _ := .of_quiet rfl rfl rfl

/-! ## Where a reader stands -/

/-- A header that announces an empty body, or no whole frame. -/
def Open (p : List Byte) : Prop :=
  netFraming.Unfinished p ∨ (p.length = packHeadLen ∧ netFraming.frameLen p = packHeadLen)

/-- `all`, cut into the frames handed on, the part `p` of a frame and what has not been read; every
window has been inside its buffer, and no read has torn the session down. -/
structure Cut (size : Nat) (all : List Byte) (fs : List (List Byte)) (p inp : List Byte)
    (trace : List Obs) : Prop where
  stream : all = fs.flatten ++ p ++ inp
  whole : ∀ f ∈ fs, netFraming.Whole f ∧ packHeadLen < f.length ∧ f.length ≤ size
  isOpen : Open p
  fits : ¬ Oversized size p
  frames : framesIn trace = fs
  windows : ∀ o ∈ trace, o.windowOk = true
  standing : .teardown .onRead ∉ trace

/-- A reader in the middle of its stream. -/
structure Reads (size : Nat) (all : List Byte) (fs : List (List Byte)) (mem p : List Byte)
    (b : RecvBuffer) (inp : List Byte) (trace : List Obs) : Prop where
  cut : Cut size all fs p inp trace
  holds : b.Holds mem p
  sized : mem.length = size

/-- A header read has announced too much, and a window has been wrong. -/
def Broken (size : Nat) (all inp : List Byte) (trace : List Obs) : Prop :=
  ∃ consumed, all = consumed ++ inp ∧ (∃ h ∈ netFraming.headers consumed, Oversized size h) ∧
    ∃ o ∈ trace, o.windowOk = false

section
variable {size : Nat} {all inp p mem : List Byte} {fs : List (List Byte)} {trace obs : List Obs}
  {b : RecvBuffer}

theorem RecvBuffer.Holds.isOpen (holds : b.Holds mem p) : Open p := by
  cases holds with
  | head _ _ _ short => exact .inl (.inl short)
  | body _ _ _ long _ _ isOpen =>
    by_cases short : p.length < netFraming.frameLen p
    · exact .inl (.inr short)
    · have header : p.length = packHeadLen := isOpen.resolve_left short
      have := frameLen_eq p
      exact .inr ⟨header, by omega⟩

theorem RecvBuffer.Holds.fits (holds : b.Holds mem p) : ¬ Oversized mem.length p := by
  rintro ⟨long, exceeds⟩
  cases holds with
  | head _ _ _ short => omega
  | body _ _ _ _ _ fits => omega

theorem oversized_take {f : List Byte} (long : packHeadLen ≤ f.length) :
    Oversized size (f.take packHeadLen) ↔ size < netFraming.frameLen f := by
  have same : netFraming.frameLen (f.take packHeadLen) = netFraming.frameLen f := by
    rw [frameLen_eq, frameLen_eq, NetCmd.ofBytes_take (Nat.le_refl _)]
  rw [Oversized, same, List.length_take]
  omega

theorem framesIn_aside (isAside : ∀ o ∈ obs, o.isAside = true) : framesIn obs = [] := by
  refine List.filterMap_eq_nil_iff.mpr fun o member => ?_
  have := isAside o member
  cases o <;> first | rfl | cases this

theorem windowOk_of_aside {o : Obs} (isAside : o.isAside = true) : o.windowOk = true := by
  cases o <;> first | rfl | cases isAside

theorem framesIn_windows (windows : Windows obs) : framesIn obs = [] := by
  refine List.filterMap_eq_nil_iff.mpr fun o member => ?_
  obtain ⟨⟨_, _, _, rfl⟩, -⟩ := windows o member
  rfl

namespace Cut

theorem logged (cut : Cut size all fs p inp trace) (none : framesIn obs = [])
    (fine : ∀ o ∈ obs, o.windowOk = true) (stands : .teardown .onRead ∉ obs) :
    Cut size all fs p inp (trace ++ obs) where
  stream := cut.stream
  whole := cut.whole
  isOpen := cut.isOpen
  fits := cut.fits
  frames := by rw [framesIn_append, none, List.append_nil, cut.frames]
  windows o member := (List.mem_append.mp member).elim (cut.windows o) (fine o)
  standing member := (List.mem_append.mp member).elim cut.standing stands

theorem aside (cut : Cut size all fs p inp trace) (isAside : ∀ o ∈ obs, o.isAside = true) :
    Cut size all fs p inp (trace ++ obs) := by
  refine cut.logged (framesIn_aside isAside) (fun o member => windowOk_of_aside (isAside o member)) ?_
  intro member
  cases isAside _ member

/-- Windows are logged. -/
theorem read (cut : Cut size all fs p inp trace) (windows : Windows obs) :
    Cut size all fs p inp (trace ++ obs) := by
  refine cut.logged (framesIn_windows windows) (fun o member => (windows o member).2) ?_
  intro member
  obtain ⟨⟨_, _, _, isWindow⟩, -⟩ := windows _ member
  cases isWindow

/-- Some bytes are taken into the open frame. -/
theorem take {bytes rest : List Byte} (cut : Cut size all fs p (bytes ++ rest) trace)
    (windows : Windows obs) (isOpen : Open (p ++ bytes)) (fits : ¬ Oversized size (p ++ bytes)) :
    Cut size all fs (p ++ bytes) rest (trace ++ obs) := by
  have read := cut.read windows
  exact ⟨by rw [read.stream]; simp, read.whole, isOpen, fits, read.frames, read.windows, read.standing⟩

/-- The bytes taken complete the frame. -/
theorem complete {bytes rest : List Byte} (cut : Cut size all fs p (bytes ++ rest) trace)
    (windows : Windows obs) (whole : netFraming.Whole (p ++ bytes))
    (long : packHeadLen < (p ++ bytes).length) (fits : (p ++ bytes).length ≤ size) :
    Cut size all (fs ++ [p ++ bytes]) [] rest (trace ++ (obs ++ [.frame (p ++ bytes)])) := by
  have read := cut.read windows
  refine ⟨by rw [read.stream]; simp, ?_, .inl Framing.unfinished_nil, ?_, ?_, ?_, ?_⟩
  · intro f member
    rcases List.mem_append.mp member with old | new
    · exact read.whole f old
    · rw [List.mem_singleton.mp new]
      exact ⟨whole, long, fits⟩
  · rintro ⟨impossible, -⟩
    exact absurd impossible (by decide)
  · rw [← List.append_assoc, framesIn_append, read.frames]
    rfl
  · rw [← List.append_assoc]
    intro o member
    rcases List.mem_append.mp member with old | new
    · exact read.windows o old
    · rw [List.mem_singleton.mp new]
      rfl
  · rw [← List.append_assoc]
    intro member
    rcases List.mem_append.mp member with old | new
    · exact read.standing old
    · cases List.mem_singleton.mp new

/-- The bytes taken contain a header that announces too much. -/
theorem broken {bytes rest : List Byte} (cut : Cut size all fs p (bytes ++ rest) trace)
    (exceeds : Oversized size (p ++ bytes)) (wrong : ∃ o ∈ obs, o.windowOk = false) :
    Broken size all rest (trace ++ obs) := by
  refine ⟨fs.flatten ++ (p ++ bytes), by rw [cut.stream]; simp, ?_, ?_⟩
  · refine ⟨(p ++ bytes).take packHeadLen, ?_, (oversized_take exceeds.1).mpr exceeds.2⟩
    rw [Framing.headers_flatten (fun f member => (cut.whole f member).1),
      Framing.headers_long (by exact exceeds.1)]
    exact List.mem_append_right _ List.mem_cons_self
  · obtain ⟨o, member, bad⟩ := wrong
    exact ⟨o, List.mem_append_right _ member, bad⟩

/-- No header read so far announces too much. -/
theorem headers_fit (cut : Cut size all fs p inp trace) :
    ∀ h ∈ netFraming.headers (fs.flatten ++ p), ¬ Oversized size h := by
  rw [Framing.headers_flatten fun f member => (cut.whole f member).1]
  intro h member
  rcases List.mem_append.mp member with done | last
  · obtain ⟨f, isDone, rfl⟩ := List.mem_map.mp done
    obtain ⟨whole, -, fits⟩ := cut.whole f isDone
    have long : packHeadLen ≤ f.length := whole.1
    show ¬ Oversized size (f.take packHeadLen)
    rw [oversized_take long, ← whole.2]
    omega
  · by_cases long : packHeadLen ≤ p.length
    · have within : p.length ≤ netFraming.frameLen p := by
        rcases cut.isOpen with (short | short) | ⟨header, empty⟩
        · exact absurd long (Nat.not_le_of_lt short)
        · omega
        · omega
      rw [Framing.headers_partial (by exact long) within, List.mem_singleton] at last
      rw [last]
      show ¬ Oversized size (p.take packHeadLen)
      rw [oversized_take long]
      exact fun exceeds => cut.fits ⟨long, exceeds⟩
    · rw [Framing.headers_short (by exact Nat.lt_of_not_le long)] at last
      cases last

/-- With no empty body open, the frames handed on are the whole frames read, none of them empty. -/
theorem frames_eq (cut : Cut size all fs p inp trace) (nonempty : ¬ AnnouncesNothing p) :
    netFraming.frames (fs.flatten ++ p) = fs ∧
      ∀ h ∈ netFraming.headers (fs.flatten ++ p), (NetCmd.ofBytes h).dwLength ≠ 0 := by
  have unfinished : netFraming.Unfinished p :=
    cut.isOpen.resolve_right fun ⟨header, empty⟩ => nonempty ⟨Nat.le_of_eq header.symm, empty⟩
  have nonzero : ∀ f : List Byte, netFraming.frameLen f ≠ packHeadLen →
      (NetCmd.ofBytes (f.take packHeadLen)).dwLength ≠ 0 := by
    intro f longer zero
    rw [NetCmd.ofBytes_take (Nat.le_refl _)] at zero
    rw [frameLen_eq, zero] at longer
    exact longer rfl
  constructor
  · rw [Framing.frames_flatten fun f member => (cut.whole f member).1,
      Framing.frames_unfinished unfinished, List.append_nil]
  · rw [Framing.headers_flatten fun f member => (cut.whole f member).1]
    intro h member
    rcases List.mem_append.mp member with done | last
    · obtain ⟨f, isDone, rfl⟩ := List.mem_map.mp done
      obtain ⟨whole, long, -⟩ := cut.whole f isDone
      rw [whole.2] at long
      exact nonzero f (by omega)
    · by_cases long : packHeadLen ≤ p.length
      · have within : p.length ≤ netFraming.frameLen p := by
          rcases unfinished with short | short
          · exact absurd long (Nat.not_le_of_lt short)
          · omega
        rw [Framing.headers_partial (by exact long) within, List.mem_singleton] at last
        rw [last]
        exact nonzero p fun empty => nonempty ⟨long, empty⟩
      · rw [Framing.headers_short (by exact Nat.lt_of_not_le long)] at last
        cases last

/-- With an empty body open, one whole frame has not been handed on. -/
theorem frames_of_empty (cut : Cut size all fs p inp trace) (empty : AnnouncesNothing p) :
    netFraming.frames (fs.flatten ++ p) = fs ++ [p] ∧
      ∃ h ∈ netFraming.headers (fs.flatten ++ p), (NetCmd.ofBytes h).dwLength = 0 := by
  have header : p.length = packHeadLen := by
    obtain ⟨long, none⟩ := empty
    rcases cut.isOpen with (short | short) | ⟨header, -⟩
    · exact absurd long (Nat.not_le_of_lt short)
    · omega
    · exact header
  have whole : netFraming.Whole p := ⟨empty.1, by rw [header, empty.2]⟩
  have wholes : ∀ f ∈ fs, netFraming.Whole f := fun f member => (cut.whole f member).1
  constructor
  · have alone := whole.frames_append []
    rw [List.append_nil, Framing.frames_unfinished Framing.unfinished_nil] at alone
    rw [Framing.frames_flatten wholes, alone]
  · refine ⟨p.take packHeadLen, ?_, ?_⟩
    · rw [Framing.headers_flatten wholes, Framing.headers_long whole.1]
      exact List.mem_append_right _ List.mem_cons_self
    · have none := empty.2
      rw [frameLen_eq] at none
      rw [NetCmd.ofBytes_take (Nat.le_refl _), ← UInt32.toNat_inj, UInt32.toNat_zero]
      omega

end Cut

/-- A reader after its reset holds nothing. -/
theorem holds_reset {τ : Type} [FrameReader τ] (b : RecvBuffer) :
    (reset τ b).Holds (reset τ b).buff [] :=
  .head rfl (reset_head b).1 (reset_head b).2 (by decide)

/-- What has been broken stays broken. -/
theorem Broken.more {rest : List Byte} {trace' : List Obs} (broken : Broken size all inp trace)
    (suffix : rest <:+ inp) (logged : trace <+: trace') : Broken size all rest trace' := by
  obtain ⟨consumed, same, ⟨h, isHeader, exceeds⟩, o, member, bad⟩ := broken
  obtain ⟨bytes, rfl⟩ := suffix
  refine ⟨consumed ++ bytes, by rw [same, List.append_assoc], ⟨h, ?_, exceeds⟩, o, logged.subset member, bad⟩
  exact (Framing.headers_prefix consumed bytes).subset isHeader

end

/-! ## A method of a task -/

section
variable {τ : Type} [ReadsFrames τ] {all mem p : List Byte} {fs : List (List Byte)} {w : World τ}

/-- The reader stands somewhere in the stream, or the stream is broken. A read callback tears the
session down only after the peer's close or an empty body. -/
def Stands (all : List Byte) (recvs : List RecvResult) (e : Event) (ret : Int) (c : Core τ) : Prop :=
  (∃ fs mem p, Reads (size τ) all fs mem p (buf c.obj) c.inp c.trace ∧
    (e.tearsDown ret = some .onRead → .closed ∈ recvs ∨ AnnouncesNothing p)) ∨
  Broken (size τ) all c.inp c.trace

/-- A callback has stopped inside; the input is cut into frames, or the stream is broken. -/
def Stopped {τ : Type} (size : Nat) (all : List Byte) (c : Core τ) : Prop :=
  (∃ fs p, Cut size all fs p c.inp c.trace) ∨ Broken size all c.inp c.trace

theorem Reads.aside {t : World τ} (reads : Reads (size τ) all fs mem p (buf w.obj) w.inp w.trace)
    (aside : Aside w t) : Reads (size τ) all fs mem p (buf t.obj) t.inp t.trace := by
  obtain ⟨obs, logged, isAside⟩ := aside.logged
  refine ⟨?_, aside.reader ▸ reads.holds, reads.sized⟩
  rw [aside.inp, logged]
  exact reads.cut.aside isAside

theorem readBuffer_reads {e : Event}
    (reads : Reads (size τ) all fs mem p (buf w.obj) w.inp w.trace) :
    wp (readBuffer (ReadsFrames.dispatch : Act τ (Option Int)))
      (fun ret t => Stands all w.recvs e ret t.core) (fun _ t => Stopped (size τ) all t.core) w := by
  refine wp_readBuffer_stream reads.holds reads.sized ?_ ?_ ?_
  · intro ret b bytes rest recvs obs come holds windows zero
    have cut := reads.cut
    rw [come] at cut
    have fits := holds.fits
    rw [reads.sized] at fits
    refine .inl ⟨fs, mem, p ++ bytes, ⟨?_, ?_, reads.sized⟩, fun tears => zero (Event.ret_of_tearsDown tears).1⟩
    · exact cut.take windows holds.isOpen fits
    · simpa only [World.core, World.buf_read] using holds
  · intro b bytes rest recvs obs come whole long fits stored windows
    have cut := reads.cut
    rw [come] at cut
    rw [reads.sized] at fits
    have done := cut.complete windows whole long fits
    have sized : b.buff.length = size τ := by
      rw [stored, List.length_append, List.length_drop, ← reads.sized]
      rw [← reads.sized] at fits
      omega
    have dispatched : ∀ t : World τ, Aside (w.read b rest recvs (obs ++ [.frame (p ++ bytes)])) t →
        Cut (size τ) all (fs ++ [p ++ bytes]) [] t.inp t.trace := by
      intro t aside
      obtain ⟨obs', logged, isAside⟩ := aside.logged
      rw [logged, aside.inp]
      exact done.aside isAside
    refine (ReadsFrames.dispatch_aside _).mono ?_ fun _ t aside => .inl ⟨_, [], dispatched t aside⟩
    rintro _ t ⟨rfl, aside⟩ ret pos
    have reader : buf t.obj = b := by
      rw [aside.reader, World.buf_read]
    refine .inl ⟨fs ++ [p ++ bytes], (reset τ b).buff, [], ⟨dispatched t aside, ?_, reset_size b sized⟩,
      fun tears => ?_⟩
    · simp only [World.core, World.resetReader, buf_setBuf, reader]
      exact holds_reset b
    · have := (Event.ret_of_tearsDown tears).1
      omega
  · intro b bytes rest recvs obs come exceeds reading none wrong
    have cut := reads.cut
    rw [come] at cut
    have broken := cut.broken exceeds wrong
    exact ⟨fun _ => .inr broken, .inr broken⟩

/-- **A task's methods keep the reader's place in the stream.** -/
theorem method_reads {e : Event} (reads : Reads (size τ) all fs mem p (buf w.obj) w.inp w.trace) :
    wp (e.method : Act τ Int) (fun ret t => Stands all w.recvs e ret t.core)
      (fun _ t => Stopped (size τ) all t.core) w := by
  have still : ∀ ret, e.tearsDown ret ≠ some .onRead → Stands all w.recvs e ret w.core :=
    fun ret keeps => .inl ⟨fs, mem, p, reads, fun tears => absurd tears keeps⟩
  have beside : ∀ {act : Act τ Int}, (∀ ret, e.tearsDown ret ≠ some .onRead) →
      wp act (fun _ => Aside w) (fun _ => Aside w) w →
      wp act (fun ret t => Stands all w.recvs e ret t.core) (fun _ t => Stopped (size τ) all t.core) w := by
    intro act keeps aside
    refine aside.mono (fun ret t aside => ?_) (fun _ t aside => ?_)
    · exact .inl ⟨fs, mem, p, reads.aside aside, fun tears => absurd tears (keeps ret)⟩
    · exact .inl ⟨fs, p, (reads.aside aside).cut⟩
  cases e with
  | read recvs sends =>
    show wp (Callbacks.readBuffer : Act τ Int) _ _ w
    rw [ReadsFrames.readBuffer_eq]
    exact readBuffer_reads reads
  | write sends =>
    refine beside (fun ret => ?_) (ReadsFrames.writeBuffer_aside w)
    rw [Event.tearsDown]
    split <;> (intro tears; cases tears)
  | timer => exact beside (fun _ tears => by cases tears) (ReadsFrames.setHeartBeat_aside w)
  | readTimeout => exact still 0 fun tears => by cases tears
  | writeTimeout => exact still 0 fun tears => by cases tears

/-- Input has been taken and the log has grown. -/
structure Onward {σ τ : Type} (w : World σ) (t : World τ) : Prop where
  inp : t.inp <:+ w.inp
  trace : w.trace <+: t.trace

theorem Onward.aside {t : World τ} (aside : Aside w t) : Onward w t := by
  obtain ⟨obs, logged, -⟩ := aside.logged
  exact ⟨aside.inp ▸ List.suffix_refl _, logged ▸ List.prefix_append _ _⟩

theorem Onward.trans {ρ σ τ : Type} {w : World ρ} {t : World σ} {u : World τ} (first : Onward w t)
    (second : Onward t u) : Onward w u :=
  ⟨second.inp.trans first.inp, first.trace.trans second.trace⟩

/-- Whatever the stream, a method goes on. -/
theorem method_onward (e : Event) (w : World τ) :
    wp (e.method : Act τ Int) (fun _ t => Onward w t) (fun _ t => Onward w t) w := by
  cases e with
  | read recvs sends =>
    show wp (Callbacks.readBuffer : Act τ Int) _ _ w
    rw [ReadsFrames.readBuffer_eq]
    have read : ∀ b rest recvs obs, rest <:+ w.inp → Onward w (w.read b rest recvs obs) :=
      fun _ _ _ _ suffix => ⟨suffix, List.prefix_append _ _⟩
    refine wp_readBuffer (fun _ b rest recvs obs suffix _ => read b rest recvs obs suffix)
      (fun b rest recvs obs suffix _ => read b rest recvs obs suffix) fun b rest recvs obs suffix _ => ?_
    have later := read b rest recvs obs suffix
    refine (ReadsFrames.dispatch_aside _).mono ?_ (fun _ _ aside => later.trans (.aside aside))
    rintro _ t ⟨rfl, aside⟩ _ _
    have dispatched := later.trans (.aside aside)
    exact ⟨dispatched.inp, dispatched.trace⟩
  | write sends =>
    exact (ReadsFrames.writeBuffer_aside w).mono (fun _ _ => .aside) (fun _ _ => .aside)
  | timer => exact (ReadsFrames.setHeartBeat_aside w).mono (fun _ _ => .aside) (fun _ _ => .aside)
  | readTimeout => exact ⟨List.suffix_refl _, List.prefix_refl _⟩
  | writeTimeout => exact ⟨List.suffix_refl _, List.prefix_refl _⟩

end

end GreatEvent
