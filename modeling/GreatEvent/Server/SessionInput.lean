import GreatEvent.Server.SessionSteps
import GreatEvent.Server.StreamCut

/-!
# What a session makes of its peer's bytes

A session reads with its own reader before login and with its task's reader
afterwards. In every run from a session at rest its input is cut into
frames by whichever of them is in charge (`Placed`), or a header has
announced more than the buffer takes. Two things follow, each up to one
kind of header: windows stay inside the buffers unless a header announces
too much, and every frame is handed on unless one has an empty body.
-/

namespace GreatEvent

open Lib FrameReader

namespace Session

/-- The reader in charge. -/
def reader (s : Session) : RecvBuffer :=
  match s.mTaskBase with
  | none => s.mRead
  | some (.playback t) => t.mRecvBuffer
  | some (.fileSend t) => t.mRecvBuffer
  | some (.fileRecv t) => t.mRecvBuffer

/-- The size of its buffer. -/
def bufferSize (s : Session) : Nat :=
  match s.mTaskBase with
  | some (.fileRecv _) => TaskFileRecv.bufferLen
  | _ => cmdLen

/-- `mk` is the task constructor for the tasks `τ`. -/
structure Hosts (τ : Type) [FrameReader τ] (mk : τ → Task) : Prop where
  reader_eq : ∀ (s : Session) (t : τ), s.mTaskBase = some (mk t) → s.reader = buf t
  size_eq : ∀ (s : Session) (t : τ), s.mTaskBase = some (mk t) → s.bufferSize = size τ

theorem hosts_playback : Hosts TaskPlayback .playback :=
  ⟨fun s t task => by simp only [reader, task]; rfl, fun s t task => by simp only [bufferSize, task]; rfl⟩

theorem hosts_fileSend : Hosts TaskFileSend .fileSend :=
  ⟨fun s t task => by simp only [reader, task]; rfl, fun s t task => by simp only [bufferSize, task]; rfl⟩

theorem hosts_fileRecv : Hosts TaskFileRecv .fileRecv :=
  ⟨fun s t task => by simp only [reader, task]; rfl, fun s t task => by simp only [bufferSize, task]; rfl⟩

/-- The session's input is cut into frames, and its reader in charge stands in the last of them. -/
def Placed (size : Nat) (all : List Byte) (fs : List (List Byte)) (p : List Byte)
    (c : Core Session) : Prop :=
  ∃ mem, c.obj.bufferSize = size ∧ Reads size all fs mem p c.obj.reader c.inp c.trace

section
variable {size : Nat} {all p : List Byte} {fs : List (List Byte)} {w : World Session} {e : Event}

/-- The reasons for which a task's reader ends a session. -/
def ClosedOrEmpty (recvs : List RecvResult) (p : List Byte) : Prop :=
  .closed ∈ recvs ∨ AnnouncesNothing p

/-- A session after one of its methods: placed, or its stream broken, or a frame refused. If the
session is to be torn down, there is a reason `why`. -/
def Lands (size : Nat) (all : List Byte) (why : List Byte → Prop) (e : Event) (ret : Int)
    (c : Core Session) : Prop :=
  (∃ fs p, Placed size all fs p c ∧ (e.tearsDown ret = some .onRead → why p)) ∨
  Broken size all c.inp c.trace ∨
  (e.tearsDown ret = some .onRead ∧ ∃ fs p, Cut size all fs p c.inp c.trace ∧ why p)

theorem Hosts.placed {τ : Type} [FrameReader τ] {mk : τ → Task} (hosts : Hosts τ mk) {t : τ}
    {mem : List Byte} {c : Core Session} (task : c.obj.mTaskBase = some (mk t))
    (reads : Reads (FrameReader.size τ) all fs mem p (buf t) c.inp c.trace) :
    Placed (FrameReader.size τ) all fs p c :=
  ⟨mem, hosts.size_eq _ t task, hosts.reader_eq _ t task ▸ reads⟩

/-- A task's method, seen from the session. -/
theorem inTask_placed {τ : Type} [ReadsFrames τ] {mk : τ → Task} (hosts : Hosts τ mk) {t : τ}
    (task : w.obj.mTaskBase = some (mk t)) (placed : Placed size all fs p w.core) :
    wp (inTask mk t (e.method : Act τ Int))
      (fun ret u => Lands size all (ClosedOrEmpty w.recvs) e ret u.core)
      (fun _ u => Stopped size all u.core) w := by
  obtain ⟨mem, sized, reads⟩ := placed
  obtain rfl : size = _ := sized.symm.trans (hosts.size_eq w.obj t task)
  rw [show w.core.obj.reader = buf t from hosts.reader_eq w.obj t task] at reads
  rw [wp_inTask]
  refine (method_reads (w := w.withObj t) reads).mono (fun ret u stands => ?_)
    (fun _ u stopped => stopped)
  exact stands.imp (fun ⟨fs, mem, p, reads, tears⟩ => ⟨fs, p, hosts.placed rfl reads, tears⟩) .inl

theorem inTask_onward {τ : Type} [ReadsFrames τ] {mk : τ → Task} {t : τ} :
    wp (inTask mk t (e.method : Act τ Int)) (fun _ u => Onward w u) (fun _ u => Onward w u) w := by
  rw [wp_inTask]
  exact (GreatEvent.method_onward e (w.withObj t)).mono (fun _ _ onward => ⟨onward.inp, onward.trace⟩)
    (fun _ _ onward => ⟨onward.inp, onward.trace⟩)

/-! ## Before login -/

/-- A new task's reader stands at the first byte its session has not read. -/
theorem reads_initial {inp : List Byte} {trace : List Obs} (cut : Cut cmdLen all fs [] inp trace) :
    Reads cmdLen all fs RecvBuffer.initial.buff [] .initial inp trace :=
  ⟨cut, .head rfl rfl rfl (by decide), List.length_replicate⟩

theorem placed_withPlayback (cut : Cut cmdLen all fs [] w.inp w.trace) (filename : List Byte)
    (mFfmpeg : FfmpegContext) (b : TagSendBuffer) (wire : List Byte) (sends : List SendResult) :
    Placed cmdLen all fs [] (withPlayback w filename mFfmpeg b wire sends).core := by
  refine hosts_playback.placed rfl (reads_initial ?_)
  exact cut.aside (by simp [Obs.isAside])

theorem placed_withFileSend (cut : Cut cmdLen all fs [] w.inp w.trace) (filename : List Byte)
    (b : TagFileSendBuffer) (wire : List Byte) (sends : List SendResult) :
    Placed cmdLen all fs [] (withFileSend w filename b wire sends).core := by
  refine hosts_fileSend.placed rfl (reads_initial ?_)
  exact cut.aside (by simp [Obs.isAside])

/-- Before login: a frame is refused, or dropped, or creates a task that reads on. -/
theorem readBuffer_placed {recvs : List RecvResult} {sends : List SendResult} (before : w.obj.mTaskBase = none) (placed : Placed cmdLen all fs p w.core) :
    wp (GreatEvent.readBuffer dispatch)
      (fun ret u => Lands cmdLen all (fun _ => True) (.read recvs sends) ret u.core)
      (fun _ u => Stopped cmdLen all u.core) w := by
  obtain ⟨mem, -, reads⟩ := placed
  have own : w.core.obj.reader = w.obj.mRead := by simp only [reader, World.core, before]
  rw [own] at reads
  refine wp_readBuffer_stream reads.holds reads.sized ?_ ?_ ?_
  · intro ret b bytes rest recvs obs come holds windows _
    have cut := reads.cut
    rw [show w.core.inp = bytes ++ rest from come] at cut
    have fits := holds.fits
    rw [reads.sized] at fits
    refine .inl ⟨fs, p ++ bytes, ⟨mem, ?_, cut.take windows holds.isOpen fits, ?_, reads.sized⟩,
      fun _ => trivial⟩
    · simp only [World.core, World.read, bufferSize, FrameReader.setBuf, before]
    · simpa only [World.core, World.read, reader, FrameReader.setBuf, before] using holds
  · intro b bytes rest recvs obs come whole long fits stored windows
    have cut := reads.cut
    rw [show w.core.inp = bytes ++ rest from come] at cut
    rw [reads.sized] at fits
    have done := cut.complete windows whole long fits
    have sized : b.buff.length = cmdLen := by
      rw [stored, List.length_append, List.length_drop, reads.sized]
      omega
    let d := w.read b rest recvs (obs ++ [.frame (p ++ bytes)])
    have lands : ∀ {e : Event} {ret : Int} {c : Core Session}, Placed cmdLen all (fs ++ [p ++ bytes]) [] c →
        Lands cmdLen all (fun _ => True) e ret c := fun placed => .inl ⟨_, [], placed, fun _ => trivial⟩
    have stops : ∀ {c : Core Session}, Placed cmdLen all (fs ++ [p ++ bytes]) [] c →
        Stopped cmdLen all c := by
      rintro c ⟨_, _, reads⟩
      exact .inl ⟨_, [], reads.cut⟩
    refine wp_dispatch (fun _ => .inl ⟨_, [], done⟩)
      (fun _ _ _ _ => .inr (.inr ⟨rfl, _, [], done, trivial⟩)) ?_ ?_ ?_
    · intro _ _ _ ret _
      refine lands ⟨(resetRead b).buff, ?_, done, ?_, sized⟩
      · simp only [World.core, World.resetReader, World.read, bufferSize, FrameReader.setBuf, before]
      · have held : (resetRead b).Holds (resetRead b).buff [] := holds_reset (τ := Session) b
        simp only [World.core, World.resetReader, World.read, reader, FrameReader.setBuf, before]
        exact held
    · intro filename _ _
      refine wp_newPlayback filename (fun _ => .inl ⟨_, [], done.aside (by simp [Obs.isAside])⟩)
        (fun mFfmpeg b' wire sends _ _ ret _ => lands ?_) (fun mFfmpeg b' wire sends _ => stops ?_)
      · exact placed_withPlayback (w := d) done filename mFfmpeg b' wire sends
      · exact placed_withPlayback (w := d) done filename mFfmpeg b' wire sends
    · intro filename _ _
      refine wp_newFileSend filename (fun b' wire sends _ ret _ => lands ?_)
        (fun b' wire sends _ => stops ?_)
      · exact placed_withFileSend (w := d) done filename b' wire sends
      · exact placed_withFileSend (w := d) done filename b' wire sends
  · intro b bytes rest recvs obs come exceeds reading none wrong
    have cut := reads.cut
    rw [show w.core.inp = bytes ++ rest from come] at cut
    have broken := cut.broken exceeds wrong
    exact ⟨fun _ => .inr (.inl broken), .inr broken⟩

/-- A complete frame before login adds to the log, whatever is in it. -/
theorem dispatch_onward (w : World Session) :
    wp dispatch (fun _ u => Onward w u) (fun _ u => Onward w u) w := by
  have still : Onward w w := ⟨List.suffix_refl _, List.prefix_refl _⟩
  have logs : ∀ (obs : List Obs) {u : World Session}, u.inp = w.inp → u.trace = w.trace ++ obs →
      Onward w u := by
    intro obs u same logged
    exact ⟨same ▸ List.suffix_refl _, logged ▸ List.prefix_append _ _⟩
  apply wp_dispatch
  · exact fun _ => still
  · exact fun _ _ _ _ => still
  · exact fun _ _ _ => still
  · intro filename _ _
    exact wp_newPlayback filename (fun _ => logs _ rfl rfl) (fun _ _ _ _ _ _ => logs _ rfl rfl)
      (fun _ _ _ _ _ => logs _ rfl rfl)
  · intro filename _ _
    exact wp_newFileSend filename (fun _ _ _ _ => logs _ rfl rfl) (fun _ _ _ _ => logs _ rfl rfl)

/-- The end of `recvPackData` adds nothing to the log. -/
theorem onward_finishes {w u : World Session} (onward : Onward w u) (r : Option Int) :
    Finishes (fun _ u => Onward w u) r u := by
  cases r with
  | some r => exact onward
  | none => exact fun _ _ => ⟨onward.inp, onward.trace⟩

/-- A session's own reader takes some bytes and logs, whatever the stream. -/
theorem readBuffer_onward (w : World Session) :
    wp (GreatEvent.readBuffer dispatch) (fun _ u => Onward w u) (fun _ u => Onward w u) w := by
  have read : ∀ b rest recvs obs, rest <:+ w.inp → Onward w (w.read b rest recvs obs) :=
    fun _ _ _ _ suffix => ⟨suffix, List.prefix_append _ _⟩
  apply wp_readBuffer
  · exact fun _ b rest recvs obs suffix _ => read b rest recvs obs suffix
  · exact fun b rest recvs obs suffix _ => read b rest recvs obs suffix
  · intro b rest recvs obs suffix _
    have start := read b rest recvs obs suffix
    exact (dispatch_onward _).mono (fun r _ onward => onward_finishes (start.trans onward) r)
      (fun _ _ onward => start.trans onward)

theorem method_onward (e : Event) (w : World Session) :
    wp (e.method : Act Session Int) (fun _ u => Onward w u) (fun _ u => Onward w u) w := by
  cases task : w.obj.mTaskBase with
  | none =>
    exact wp_method_none task (fun _ => ⟨List.suffix_refl _, List.prefix_refl _⟩)
      fun _ => readBuffer_onward w
  | some task' =>
    cases task' with
    | playback t => exact (wp_method task).mpr inTask_onward
    | fileSend t => exact (wp_method task).mpr inTask_onward
    | fileRecv t => exact (wp_method task).mpr inTask_onward

/-- Every turn goes on. -/
theorem fire_onward {w' : World Session} (fired : fire w e = some w') : Onward w w' := by
  have both : w'.core.inp <:+ w.inp ∧ w.trace <+: w'.core.trace := by
    refine fire_keeps fired (P := fun c => c.inp <:+ w.inp ∧ w.trace <+: c.trace) ?_ ?_
    · exact fun c _ ⟨inp, trace⟩ => ⟨inp, trace.trans (List.prefix_append _ _)⟩
    · intro d same _ _ _
      rw [← show d.inp = w.inp from congrArg Core.inp same,
        ← show d.trace = w.trace from congrArg Core.trace same]
      exact (method_onward e d).mono (fun _ _ onward => ⟨onward.inp, onward.trace⟩)
        (fun _ _ onward => ⟨onward.inp, onward.trace⟩)
  exact ⟨both.1, both.2⟩

/-- After login the session's methods are its task's. -/
theorem method_lands_task (loggedIn : w.obj.mTaskBase ≠ none) (placed : Placed size all fs p w.core) :
    wp (e.method : Act Session Int)
      (fun ret u => Lands size all (ClosedOrEmpty w.recvs) e ret u.core)
      (fun _ u => Stopped size all u.core) w := by
  cases task : w.obj.mTaskBase with
  | none => exact absurd task loggedIn
  | some task' =>
    cases task' with
    | playback t => exact (wp_method task).mpr (inTask_placed hosts_playback task placed)
    | fileSend t => exact (wp_method task).mpr (inTask_placed hosts_fileSend task placed)
    | fileRecv t => exact (wp_method task).mpr (inTask_placed hosts_fileRecv task placed)

/-- **A session's methods keep its place in the stream**, but for a frame that is refused, which tears
it down. -/
theorem method_lands (placed : Placed size all fs p w.core) :
    wp (e.method : Act Session Int)
      (fun ret u => Lands size all (fun _ => True) e ret u.core)
      (fun _ u => Stopped size all u.core) w := by
  by_cases task : w.obj.mTaskBase = none
  · have sized : w.core.obj.bufferSize = cmdLen := by simp only [bufferSize, World.core, task]
    obtain rfl : cmdLen = size := sized.symm.trans placed.choose_spec.1
    refine wp_method_none task (fun _ => .inl ⟨fs, p, placed, fun _ => trivial⟩) ?_
    rintro ⟨recvs, sends, rfl⟩
    exact readBuffer_placed task placed
  · refine (method_lands_task task placed).mono (fun ret u post => ?_) (fun _ _ stopped => stopped)
    rcases post with ⟨fs, p, placed, -⟩ | broken | ⟨tears, fs, p, cut, -⟩
    · exact .inl ⟨fs, p, placed, fun _ => trivial⟩
    · exact .inr (.inl broken)
    · exact .inr (.inr ⟨tears, fs, p, cut, trivial⟩)

/-! ## A run -/

/-- Where a session can be between two callbacks. -/
inductive Settled (size : Nat) (all : List Byte) (why : List Byte → Prop) (w : World Session) : Prop where
  | placed (fs : List (List Byte)) (p : List Byte) (placed : Placed size all fs p w.core)
  | broken (broken : Broken size all w.inp w.trace)
  | halted (halted : w.Halted) (fs : List (List Byte)) (p : List Byte)
      (cut : Cut size all fs p w.inp w.trace)
  | tornDown (closed : w.closed = true) (fs : List (List Byte)) (p : List Byte) (trace : List Obs)
      (cut : Cut size all fs p w.inp trace) (logged : w.trace = trace ++ [.teardown .onRead])
      (reason : why p)

/-- What the session's methods establish, a turn does. -/
theorem Settled.fire {why why' : List Byte → Prop} {w' : World Session}
    (settled : Settled size all why w) (fired : fire w e = some w')
    (lands : ∀ (d : World Session) fs p, d.core = w.core → d.recvs = e.recvs →
      Placed size all fs p d.core → wp (e.method : Act Session Int)
        (fun ret u => Lands size all why' e ret u.core) (fun _ u => Stopped size all u.core) d) :
    Settled size all why' w' := by
  have live := live_of_fire fired
  cases settled with
  | placed fs p placed =>
    have outcome := fire_returns fired (R := Lands size all why' e) (H := Stopped size all)
      fun d same recvs _ _ => lands d fs p same recvs (same ▸ placed)
    rcases outcome with ⟨ret, stays, post⟩ | ⟨ret, by', c, tears, post, closed, same⟩ | ⟨halted, post⟩
    · rcases post with ⟨fs, p, placed, -⟩ | broken | ⟨tears, -⟩
      · exact .placed fs p placed
      · exact .broken broken
      · rw [stays] at tears
        cases tears
    · have sameInp : w'.inp = c.inp := congrArg Core.inp same
      have sameTrace : w'.trace = c.trace ++ [.teardown by'] := congrArg Core.trace same
      cases by' with
      | onRead =>
        rcases post with ⟨fs, p, ⟨mem, -, reads⟩, reason⟩ | broken | ⟨-, fs, p, cut, reason⟩
        · exact .tornDown closed fs p c.trace (sameInp ▸ reads.cut) sameTrace (reason tears)
        · refine .broken ?_
          rw [sameInp, sameTrace]
          exact broken.more (List.suffix_refl _) (List.prefix_append _ _)
        · exact .tornDown closed fs p c.trace (sameInp ▸ cut) sameTrace reason
      | onWrite =>
        rcases post with ⟨fs, p, ⟨mem, sized, reads⟩, -⟩ | broken | ⟨read, -⟩
        · refine .placed fs p ?_
          rw [same]
          exact ⟨mem, sized, reads.cut.logged rfl (by simp [Obs.windowOk]) (by simp), reads.holds,
            reads.sized⟩
        · refine .broken ?_
          rw [sameInp, sameTrace]
          exact broken.more (List.suffix_refl _) (List.prefix_append _ _)
        · rw [read] at tears
          cases tears
    · rcases post with ⟨fs, p, cut⟩ | broken
      · exact .halted halted fs p cut
      · exact .broken broken
  | broken broken =>
    have onward := fire_onward fired
    exact .broken (broken.more onward.inp onward.trace)
  | halted halted => exact absurd live.2 halted
  | tornDown closed =>
    rw [live.1] at closed
    cases closed

end

end Session

end GreatEvent
