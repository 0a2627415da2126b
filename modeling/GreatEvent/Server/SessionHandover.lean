import GreatEvent.Server.SessionReading

/-!
# The hand-over from a session to its task

The first frame of a server connection is read by the session itself, every
later one by the task that frame has created. If it is a login the session
accepts, the task starts at the first byte behind it, and how the bytes are
split over the `recv` calls makes no difference to the frames handed on.
-/

namespace GreatEvent

open Lib FrameReader

namespace Session

/-- The frame in `buff` is a login that creates a task. -/
def Accepts (host : Host) (buff : List Byte) : Prop :=
  ∃ path, host.access path = true ∧
    ((requestIn buff = some (path, some .playback) ∧ host.openMedia path ≠ none) ∨
      requestIn buff = some (path, some .fileSend))

section
variable {host : Host} {all login rest mem p : List Byte} {w : World Session} {e : Event}

/-- A session that is still reading its login, which began in the memory `mem`. -/
structure AwaitsLogin (host : Host) (all mem : List Byte) (c : Core Session) : Prop where
  task : c.obj.mTaskBase = none
  host_eq : c.obj.host = host
  reads : ∃ p, Reads cmdLen all [] mem p c.obj.mRead c.inp c.trace

/-- A session whose task has just been created. -/
structure HandedOver (all login : List Byte) (c : Core Session) : Prop where
  task : c.obj.mTaskBase ≠ none
  placed : Placed cmdLen all [login] [] c

/-- What the session does to its own reader then does not matter. -/
theorem HandedOver.resetOwn {c : Core Session} (handed : HandedOver all login c) (b : RecvBuffer) :
    HandedOver all login { c with obj := { c.obj with mRead := b } } := by
  obtain ⟨task, mem, sized, reads⟩ := handed
  have same : ({ c.obj with mRead := b } : Session).reader = c.obj.reader := by
    cases own : c.obj.mTaskBase with
    | none => exact absurd own task
    | some running => cases running <;> simp only [reader, own]
  exact ⟨task, mem, sized, same ▸ reads⟩

theorem handedOver_withPlayback (cut : Cut cmdLen all [login] [] w.inp w.trace) (filename : List Byte)
    (mFfmpeg : FfmpegContext) (b : TagSendBuffer) (wire : List Byte) (sends : List SendResult) :
    HandedOver all login (withPlayback w filename mFfmpeg b wire sends).core :=
  ⟨Option.some_ne_none _, placed_withPlayback cut filename mFfmpeg b wire sends⟩

theorem handedOver_withFileSend (cut : Cut cmdLen all [login] [] w.inp w.trace) (filename : List Byte)
    (b : TagFileSendBuffer) (wire : List Byte) (sends : List SendResult) :
    HandedOver all login (withFileSend w filename b wire sends).core :=
  ⟨Option.some_ne_none _, placed_withFileSend cut filename b wire sends⟩

/-- A complete login is handed over. -/
theorem dispatch_hands (accepts : Accepts w.obj.host w.obj.mRead.buff)
    (cut : Cut cmdLen all [login] [] w.inp w.trace) :
    wp dispatch (fun r u => r = none ∧ HandedOver all login u.core)
      (fun _ u => HandedOver all login u.core) w := by
  obtain ⟨path, granted, request⟩ := accepts
  refine wp_dispatch (fun none => ?_) (fun path' _ request' denied => ?_) (fun _ request' _ => ?_)
    (fun path' request' _ => ?_) (fun path' request' _ => ?_)
  · rcases request with ⟨request, -⟩ | request <;> rw [request] at none <;> cases none
  · have same : path = path' := by
      rcases request with ⟨request, -⟩ | request <;> rw [request] at request' <;> cases request' <;> rfl
    rw [← same, granted] at denied
    cases denied
  · rcases request with ⟨request, -⟩ | request <;> rw [request] at request' <;> cases request'
  · refine wp_newPlayback path' (fun unopened => ?_)
      (fun _ _ _ _ _ _ => ⟨rfl, handedOver_withPlayback cut ..⟩)
      (fun _ _ _ _ _ => handedOver_withPlayback cut ..)
    rcases request with ⟨request, opened⟩ | request
    · rw [request] at request'
      cases request'
      exact absurd unopened opened
    · rw [request] at request'
      cases request'
  · exact wp_newFileSend path' (fun _ _ _ _ => ⟨rfl, handedOver_withFileSend cut ..⟩)
      (fun _ _ _ _ => handedOver_withFileSend cut ..)

/-- A read before login takes some of it, or all of it and nothing more. -/
theorem readBuffer_hands (waits : AwaitsLogin host all mem w.core) (stream : all = login ++ rest)
    (whole : netFraming.Whole login) (fits : login.length ≤ cmdLen)
    (accepts : Accepts host (login ++ mem.drop login.length)) :
    wp (GreatEvent.readBuffer dispatch)
      (fun ret u => AwaitsLogin host all mem u.core ∨ (ret ≠ 0 ∧ HandedOver all login u.core))
      (fun _ u => HandedOver all login u.core) w := by
  obtain ⟨before, sameHost, p, reads⟩ := waits
  have came : ∀ {bytes rest' : List Byte}, w.inp = bytes ++ rest' →
      all = (p ++ bytes) ++ rest' := by
    intro bytes rest' come
    have := reads.cut.stream
    rw [show w.core.inp = bytes ++ rest' from come] at this
    simpa using this
  refine wp_readBuffer_stream reads.holds reads.sized ?_ ?_ ?_
  · intro ret b bytes rest' recvs obs come holds windows _
    have cut := reads.cut
    rw [show w.core.inp = bytes ++ rest' from come] at cut
    have fits := holds.fits
    rw [reads.sized] at fits
    exact .inl ⟨before, sameHost, p ++ bytes, cut.take windows holds.isOpen fits, holds, reads.sized⟩
  · intro b bytes rest' recvs obs come whole' long fits' stored windows
    have cut := reads.cut
    rw [show w.core.inp = bytes ++ rest' from come] at cut
    rw [reads.sized] at fits'
    have done := cut.complete windows whole' long fits'
    obtain ⟨same, -⟩ := whole'.eq_of_append whole ((came come).symm.trans stream)
    rw [same] at done stored ⊢
    refine (dispatch_hands (w := w.read b rest' recvs (obs ++ [.frame login])) ?_ done).mono ?_
      (fun _ _ handed => handed)
    · show Accepts w.obj.host b.buff
      rw [stored, show w.obj.host = host from sameHost]
      exact accepts
    · rintro _ u ⟨rfl, handed⟩ ret pos
      exact .inr ⟨Int.ne_of_gt pos, handed.resetOwn (resetRead u.obj.mRead)⟩
  · intro b bytes rest' recvs obs come exceeds _ _ _
    have same : netFraming.frameLen (p ++ bytes) = login.length := by
      rw [← whole.frameLen_append rest, ← stream, came come]
      exact (Framing.frameLen_append exceeds.1 rest').symm
    have := exceeds.2
    have := reads.sized
    have : size Session = cmdLen := rfl
    omega

/-- A session before login, and dead or still reading it. -/
structure BeforeLogin (host : Host) (all mem : List Byte) (w : World Session) : Prop where
  task : w.obj.mTaskBase = none
  frames : framesIn w.trace = []
  waits : w.Live → AwaitsLogin host all mem w.core

/-- A turn before login leaves the session before login, or hands it over. -/
theorem fire_hands {w' : World Session} (fired : fire w e = some w')
    (waits : AwaitsLogin host all mem w.core) (stream : all = login ++ rest)
    (whole : netFraming.Whole login) (fits : login.length ≤ cmdLen)
    (accepts : Accepts host (login ++ mem.drop login.length)) :
    BeforeLogin host all mem w' ∨ HandedOver all login w'.core := by
  have outcome := fire_returns fired
    (R := fun ret c => AwaitsLogin host all mem c ∨
      (e.tearsDown ret = none ∧ HandedOver all login c)) (H := HandedOver all login) ?_
  · rcases outcome with ⟨ret, _, waits | ⟨-, handed⟩⟩ | ⟨ret, by', c, tears, post, closed, same⟩ |
      ⟨-, handed⟩
    · obtain ⟨_, reads⟩ := waits.reads
      exact .inl ⟨waits.task, reads.cut.frames, fun _ => waits⟩
    · exact .inr handed
    · rcases post with waits | ⟨stays, -⟩
      · obtain ⟨_, reads⟩ := waits.reads
        refine .inl ⟨(congrArg (·.obj.mTaskBase) same).trans waits.task, ?_, fun live => ?_⟩
        · have logged : w'.trace = c.trace ++ [.teardown by'] := congrArg Core.trace same
          rw [logged, framesIn_append, reads.cut.frames]
          rfl
        · rw [live.1] at closed
          cases closed
      · rw [stays] at tears
        cases tears
    · exact .inr handed
  · intro d same _ _ _
    have waits' : AwaitsLogin host all mem d.core := same ▸ waits
    refine wp_method_none waits'.task (fun _ => .inl waits') fun ⟨recvs, sends, isRead⟩ => ?_
    refine (readBuffer_hands waits' stream whole fits accepts).mono (fun ret u post => ?_)
      (fun _ _ handed => handed)
    refine post.imp id fun ⟨more, handed⟩ => ⟨?_, handed⟩
    rw [isRead, Event.tearsDown, if_neg more]

/-- Before login, or the login has been handed on and a task is in charge. -/
def Phase (host : Host) (all mem login : List Byte) (w : World Session) : Prop :=
  BeforeLogin host all mem w ∨
  (w.obj.mTaskBase ≠ none ∧ ∃ later, framesIn w.trace = login :: later)

theorem Phase.fire {w' : World Session} (phase : Phase host all mem login w)
    (fired : fire w e = some w') (stream : all = login ++ rest)
    (whole : netFraming.Whole login) (fits : login.length ≤ cmdLen)
    (accepts : Accepts host (login ++ mem.drop login.length)) : Phase host all mem login w' := by
  rcases phase with before | ⟨task, later, frames⟩
  · refine (fire_hands fired (before.waits (live_of_fire fired)) stream whole fits accepts).imp id ?_
    rintro ⟨task, _, _, reads⟩
    exact ⟨task, [], reads.cut.frames⟩
  · obtain ⟨obs, logged⟩ := (fire_onward fired).trace
    exact .inr ⟨fire_loggedIn fired task, later ++ framesIn obs, by
      rw [← logged, framesIn_append, frames]; rfl⟩

/-- A frame whose body is neither empty nor too long for the server's buffers. -/
def Fits (g : List Byte) : Prop :=
  netFraming.Whole g ∧ 1 ≤ (NetCmd.ofBytes g).dwLength.toNat ∧ (NetCmd.ofBytes g).dwLength.toNat ≤ 1484

theorem Fits.length {g : List Byte} (fits : Fits g) : g.length ≤ cmdLen := by
  obtain ⟨whole, -, short⟩ := fits
  rw [whole.2, frameLen_eq]
  simp only [packHeadLen, cmdLen]
  omega

theorem Cut.handed {gs fs : List (List Byte)} {inp : List Byte} {trace : List Obs}
    (fits : ∀ g ∈ gs, Fits g) (cut : Cut cmdLen gs.flatten fs p inp trace) :
    netFraming.Unfinished p ∧ ∃ later, gs = fs ++ later ∧ p ++ inp = later.flatten := by
  have wholes : ∀ g ∈ gs, netFraming.Whole g := fun g member => (fits g member).1
  constructor
  · refine cut.isOpen.resolve_right fun ⟨header, empty⟩ => ?_
    obtain ⟨-, h, isHeader, zero⟩ := cut.frames_of_empty ⟨Nat.le_of_eq header.symm, empty⟩
    have met := (Framing.headers_prefix (fs.flatten ++ p) inp).subset isHeader
    rw [← cut.stream, ← List.append_nil gs.flatten, Framing.headers_flatten wholes,
      Framing.headers_short (by decide), List.append_nil] at met
    obtain ⟨g, member, rfl⟩ := List.mem_map.mp met
    obtain ⟨-, nonempty, -⟩ := fits g member
    have zero : (NetCmd.ofBytes (g.take packHeadLen)).dwLength = 0 := zero
    rw [NetCmd.ofBytes_take (Nat.le_refl _)] at zero
    rw [zero] at nonempty
    cases nonempty
  · have stream := cut.stream
    rw [List.append_assoc] at stream
    exact Framing.prefix_of_flatten (fun f member => (cut.whole f member).1) wholes stream.symm

section
variable {raw : RawBuffer} {gs : List (List Byte)} {es : List Event}
  {ok : World Session → Event → World Session → Prop}

/-- Before login only a part of the first frame has been read. -/
theorem BeforeLogin.part {mem p : List Byte} {trace : List Obs}
    (before : BeforeLogin host (login :: gs).flatten mem w) (whole : netFraming.Whole login)
    (unfinished : netFraming.Unfinished p)
    (cut : Cut cmdLen (login :: gs).flatten (framesIn w.trace) p w.inp trace) :
    framesIn w.trace = [] ∧ p.length < login.length := by
  refine ⟨before.frames, Nat.lt_of_not_le fun long => ?_⟩
  have same := cut.stream
  rw [before.frames, List.flatten_nil, List.nil_append, List.flatten_cons] at same
  have front : login <+: p ++ w.inp := ⟨gs.flatten, same⟩
  obtain ⟨s, rfl⟩ := List.prefix_of_prefix_length_le front (List.prefix_append _ _) long
  exact unfinished.not_whole_append whole rfl

end

end

end Session

end GreatEvent
