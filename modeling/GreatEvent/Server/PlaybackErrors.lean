import GreatEvent.Server.PlaybackStream

/-!
# A playback stream under send errors

After a fatal error `sendEx` returns -1, whatever the socket had accepted
before it in the same call, and `tcpSendData` leaves `hasSendLen` alone. So
the retry is right when nothing had been accepted, and only then. A seek may
throw away a frame that has not begun to go out; the frames meant to go out
are the others (`Meant`). As long as no send is cut short and no seek comes
between a header and its payload, what is on the wire and what the buffer
still holds are these frames.
-/

namespace GreatEvent

open Lib FrameReader

/-- What the buffer has still to send, `hasSendLen` bytes being out. -/
def TagSendBuffer.left (b : TagSendBuffer) : List Byte :=
  ((if b.bSendCmd then b.cmd.bytes else b.avpack.payload).drop b.hasSendLen).take
      (b.totalLen - b.hasSendLen) ++
    if b.bSendCmd then b.avpack.payload else []

namespace TaskPlayback

open TagSendBuffer

/-- The frames meant to go out, of those queued: all of them, but a reply to a seek may take the place
of the frame before it. -/
inductive Meant : List Frame → List Frame → Prop where
  | none : Meant [] []
  | next {queued fs : List Frame} (f : Frame) : Meant queued fs → Meant (queued ++ [f]) (fs ++ [f])
  | instead {queued fs : List Frame} {f : Frame} {m : ModuleMsg} (k : UInt32) :
      Meant queued (fs ++ [f]) → m = .seekCmpd ∨ m = .exeRet →
      Meant (queued ++ [Frame.ofCmd m k]) (fs ++ [Frame.ofCmd m k])

/-- Where the wire and the buffer stand in the stream of `fs`: nothing waits; or the last frame, from
its header on; or its payload. -/
inductive Stands (fs : List Frame) (b : TagSendBuffer) (wire : List Byte) : Prop where
  | idle (holds : b = idle) (out : wire = Frame.stream fs)
  | header {front : List Frame} {f : Frame} (holds : Ready b f.bytes) (isHeader : b.bSendCmd = true)
      (last : fs = front ++ [f]) (out : wire = Frame.stream front)
  | payload {unsent : List Byte} (holds : Ready b unsent) (isPayload : b.bSendCmd = false)
      (out : wire ++ unsent = Frame.stream fs)

section
variable {fs : List Frame} {b : TagSendBuffer} {wire : List Byte}

theorem Ready.left {unsent : List Byte} (ready : Ready b unsent) : b.left = unsent := by
  cases ready with
  | header cmd pkt pos fits => rfl
  | @payload pkt pos =>
    have all : (pkt.payload.drop 0).take (pkt.size - 0) = pkt.payload := by
      rw [List.drop_zero, Nat.sub_zero]
      exact List.take_of_length_le (Nat.le_of_eq pkt.length_payload)
    exact (List.append_nil _).trans all

/-- What the buffer will send is what is missing on the wire. -/
theorem Stands.whole (stands : Stands fs b wire) : wire ++ b.left = Frame.stream fs := by
  cases stands with
  | idle holds out =>
    rw [holds, out]
    exact List.append_nil _
  | header holds isHeader last out =>
    rw [Ready.left holds, last, out, Frame.stream_append]
    simp
  | payload holds isPayload out =>
    rw [Ready.left holds]
    exact out

/-- A header has gone out. -/
theorem stands_afterHeader {head : List Byte} {pkt : AVPacket}
    (whole : wire ++ (head ++ pkt.payload) = Frame.stream fs) : Stands fs (afterHeader pkt) (wire ++ head) := by
  unfold afterHeader
  split
  case isTrue some => exact .payload (.payload some) rfl ((List.append_assoc ..).trans whole)
  case isFalse none' =>
    have empty : pkt.payload = [] := List.eq_nil_of_length_eq_zero (by rw [pkt.length_payload]; omega)
    rw [empty, List.append_nil] at whole
    exact .idle rfl whole

theorem Stands.begun (stands : Stands fs b wire) : wire <+: Frame.stream fs := ⟨_, stands.whole⟩

/-- The empty buffer is no payload. -/
theorem Stands.idle_of_free (stands : Stands fs b wire) (free : b.totalLen = 0) :
    b = .idle ∧ wire = Frame.stream fs := by
  cases stands with
  | idle holds out => exact ⟨holds, out⟩
  | header holds => exact absurd free (Ready.busy holds)
  | payload holds => exact absurd free (Ready.busy holds)

end

/-- The wire and the buffer stand in the stream of the frames meant to go out. -/
def Accounts (c : Core TaskPlayback) : Prop :=
  ∃ fs, Meant (queuedIn c.trace) fs ∧ Stands fs c.obj.mSendBuffer c.wire

/-- What is on the wire is the front of that stream. -/
def Begun (c : Core TaskPlayback) : Prop :=
  ∃ fs, Meant (queuedIn c.trace) fs ∧ c.wire <+: Frame.stream fs

theorem Accounts.begun {c : Core TaskPlayback} (accounts : Accounts c) : Begun c := by
  obtain ⟨fs, meant, stands⟩ := accounts
  exact ⟨fs, meant, stands.begun⟩

theorem Accounts.idle_of_free {c : Core TaskPlayback} (accounts : Accounts c)
    (free : c.obj.mSendBuffer.totalLen = 0) : c.obj.mSendBuffer = .idle := by
  obtain ⟨fs, -, stands⟩ := accounts
  exact (stands.idle_of_free free).1

theorem Accounts.move {c d : Core TaskPlayback} (accounts : Accounts c)
    (buffer : d.obj.mSendBuffer = c.obj.mSendBuffer) (wire : d.wire = c.wire)
    (queued : queuedIn d.trace = queuedIn c.trace) : Accounts d := by
  unfold Accounts
  rw [buffer, wire, queued]
  exact accounts

/-- A frame is put into the empty buffer. -/
theorem Accounts.queue {c d : Core TaskPlayback} {f : Frame} (accounts : Accounts c)
    (free : c.obj.mSendBuffer.totalLen = 0) (ready : Ready d.obj.mSendBuffer f.bytes)
    (isHeader : d.obj.mSendBuffer.bSendCmd = true) (wire : d.wire = c.wire)
    (logged : d.trace = c.trace ++ [.queued f]) : Accounts d := by
  obtain ⟨fs, meant, stands⟩ := accounts
  refine ⟨fs ++ [f], ?_, .header ready isHeader rfl (wire.trans (stands.idle_of_free free).2)⟩
  rw [logged, queuedIn_concat]
  exact .next f meant

/-- A reply to a seek is put into a buffer that does not hold a payload. -/
theorem Accounts.reply {c d : Core TaskPlayback} {m : ModuleMsg} {k : UInt32} (accounts : Accounts c)
    (turn : c.obj.mSendBuffer.bSendCmd = true) (isReply : m = .seekCmpd ∨ m = .exeRet)
    (ready : Ready d.obj.mSendBuffer (Frame.ofCmd m k).bytes)
    (isHeader : d.obj.mSendBuffer.bSendCmd = true) (wire : d.wire = c.wire)
    (logged : d.trace = c.trace ++ [.queued (Frame.ofCmd m k)]) : Accounts d := by
  obtain ⟨fs, meant, stands⟩ := accounts
  unfold Accounts
  rw [logged, queuedIn_concat, wire]
  cases stands with
  | idle holds out => exact ⟨_, .next _ meant, .header ready isHeader rfl out⟩
  | @header front f holds _ last out =>
    rw [last] at meant
    exact ⟨_, .instead k meant isReply, .header ready isHeader rfl out⟩
  | payload holds isPayload => cases turn.symm.trans isPayload

section
variable {Q : Int → World TaskPlayback → Prop} {E : Stop → World TaskPlayback → Prop}
  {w : World TaskPlayback}

/-- **Sending keeps the account**, if the send is not cut short. -/
theorem wp_tcpSendData_accounts (accounts : Accounts w.core) (busy : w.obj.mSendBuffer.totalLen ≠ 0)
    (uncut : cutShort false w.obj.mSendBuffer.totalLen w.sends = false)
    (returns : ∀ ret b wire,
      (w.obj.mSendBuffer.avpack.size = 0 → b = .idle ∨ b = w.obj.mSendBuffer) →
      Accounts ⟨{ w.obj with mSendBuffer := b }, w.inp, wire, w.trace⟩ →
      Q ret { w with
        obj := { w.obj with mSendBuffer := b }, wire := wire
        sends := leftAfter w.obj.mSendBuffer.totalLen w.sends })
    (blocks : ∀ wire left, Begun ⟨w.obj, w.inp, wire, w.trace⟩ →
      E .blocked { w with wire := wire, sends := left }) :
    wp tcpSendData Q E w := by
  obtain ⟨fs, meant, stands⟩ := id accounts
  have whole := stands.whole
  -- a send that has failed has sent nothing
  have again : ∀ part : List Byte, part = [] → Q (-1) { w with
      wire := w.wire ++ part, sends := leftAfter w.obj.mSendBuffer.totalLen w.sends } := by
    rintro _ rfl
    exact returns _ _ _ (fun _ => .inr rfl) (accounts.move rfl (List.append_nil _) rfl)
  have stuck : ∀ part left, part <+: w.obj.mSendBuffer.left →
      E .blocked { w with wire := w.wire ++ part, sends := left } := by
    rintro part left ⟨rest, split⟩
    refine blocks _ left ⟨fs, meant, rest, ?_⟩
    rw [List.append_assoc, split]
    exact whole
  cases stands with
  | idle holds => exact absurd (congrArg totalLen holds) busy
  | @header front f holds isHeader last out =>
    generalize buffer : w.core.obj.mSendBuffer = b at holds isHeader
    generalize f.bytes = bytes at holds
    cases holds with
    | payload => cases isHeader
    | @header n cmd pkt pos fits =>
      have buffer : w.obj.mSendBuffer = loaded n cmd pkt := buffer
      rw [show w.core.obj.mSendBuffer = _ from buffer] at whole
      rw [buffer] at uncut returns again stuck
      apply wp_tcpSendData_header buffer pos fits
      · refine returns n (afterHeader pkt) _ ?_ ⟨fs, meant, stands_afterHeader whole⟩
        intro (empty : pkt.size = 0)
        left
        rw [afterHeader, if_neg (by omega)]
      · exact fun part _ _ nothing => again part (nothing uncut)
      · exact fun part left front => stuck part left (front.trans (List.prefix_append _ _))
  | @payload unsent holds isPayload out =>
    generalize buffer : w.core.obj.mSendBuffer = b at holds isPayload
    cases holds with
    | header => cases isPayload
    | @payload pkt pos =>
      have buffer : w.obj.mSendBuffer = payloadOf pkt := buffer
      rw [buffer] at uncut returns again stuck
      apply wp_tcpSendData_payload buffer pos
      · exact returns pkt.size .idle _ (fun _ => .inl rfl) ⟨fs, meant, .idle rfl out⟩
      · exact fun part _ _ nothing => again part (nothing uncut)
      · intro part left front
        apply stuck part left
        rw [Ready.left (.payload pos)]
        exact front

/-- The length of what the next write callback sends. -/
def due (t : TaskPlayback) : Nat :=
  if t.mSendBuffer.totalLen ≠ 0 then t.mSendBuffer.totalLen
  else if t.mMsgQueue ≠ [] then packHeadLen
  else if t.mbSendingData = false then 0
  else if t.mFrameCount < segFrameCount ∧ (t.mFfmpeg.results.headD none).isSome then
    packHeadLen + AvFrame.size
  else packHeadLen

/-- A write callback keeps the account, if its send is not cut short. -/
theorem writeBuffer_accounts (accounts : Accounts w.core)
    (uncut : cutShort false (due w.obj) w.sends = false) :
    wp writeBuffer (fun _ t => Accounts t.core) (fun _ t => Begun t.core) w := by
  -- one send from a loaded buffer
  have sends : ∀ {Q' : Int → World TaskPlayback → Prop} (d : World TaskPlayback), Accounts d.core →
      d.obj.mSendBuffer.totalLen ≠ 0 → d.sends = w.sends → d.obj.mSendBuffer.totalLen = due w.obj →
      (∀ ret t, Accounts t.core → Q' ret t) → wp tcpSendData Q' (fun _ t => Begun t.core) d := by
    intro Q' d accounts busy results length post
    apply wp_tcpSendData_accounts accounts busy
    · rw [results, length]
      exact uncut
    · exact fun _ _ _ _ accounts => post _ _ accounts
    · exact fun _ _ begun => begun
  apply wp_writeBuffer
  · intro busy
    refine sends w accounts busy rfl ?_ (fun _ _ post => post)
    rw [due, if_pos busy]
  · intro free val rest queue
    have empty := accounts.idle_of_free free
    refine sends _ ?_ (show packHeadLen ≠ 0 by decide) rfl ?_ (fun _ _ post => post)
    · exact accounts.queue free (ready_loadCmd empty val 0) rfl rfl rfl
    · have some : w.obj.mMsgQueue ≠ [] := by
        rw [queue]
        exact List.cons_ne_nil _ _
      rw [due, if_neg (not_not_intro free), if_pos some]
      rfl
  · exact fun _ _ _ => accounts
  · intro free queue sending more p next
    have empty := accounts.idle_of_free free
    refine sends _ ?_ (show packHeadLen + AvFrame.size ≠ 0 by decide) rfl ?_ (fun _ _ post => post)
    · exact accounts.queue free (ready_loadVideo (w := takePacket w) empty p) rfl rfl rfl
    · have media : w.obj.mFrameCount < segFrameCount ∧ (w.obj.mFfmpeg.results.headD none).isSome :=
        ⟨more, by rw [next]; rfl⟩
      rw [due, if_neg (not_not_intro free), if_neg (not_not_intro queue), if_neg (by rw [sending]; decide),
        if_pos media]
      rfl
  · intro free queue sending more next
    have empty := accounts.idle_of_free free
    refine sends _ ?_ (show packHeadLen ≠ 0 by decide) rfl ?_ (fun _ _ post => post)
    · exact accounts.queue free (ready_loadCmd empty .dataEnd 0) rfl rfl rfl
    · have media : ¬ (w.obj.mFrameCount < segFrameCount ∧ (w.obj.mFfmpeg.results.headD none).isSome) := by
        rw [next]
        rintro ⟨-, impossible⟩
        cases impossible
      rw [due, if_neg (not_not_intro free), if_neg (not_not_intro queue), if_neg (by rw [sending]; decide),
        if_neg media]
      rfl
  · intro free queue sending full
    have empty := accounts.idle_of_free free
    refine sends _ ?_ (show packHeadLen ≠ 0 by decide) rfl ?_ (fun _ _ post => post)
    · exact accounts.queue free (ready_loadCmd empty .sectionEnd 0) rfl rfl rfl
    · rw [due, if_neg (not_not_intro free), if_neg (not_not_intro queue), if_neg (by rw [sending]; decide),
        if_neg fun media => full media.1]
      rfl

/-- A seek is answered without a broken frame: no payload waits for its header's frame, and neither of
the two sends is cut short. -/
def CleanSeek (b : TagSendBuffer) (sends : List SendResult) : Prop :=
  b.bSendCmd = true ∧ cutShort false packHeadLen sends = false ∧
    cutShort false packHeadLen (leftAfter packHeadLen sends) = false

instance (b : TagSendBuffer) (sends : List SendResult) : Decidable (CleanSeek b sends) :=
  inferInstanceAs (Decidable (_ ∧ _ ∧ _))

/-- A clean seek keeps the account. -/
theorem seek_accounts (accounts : Accounts w.core) (clean : CleanSeek w.obj.mSendBuffer w.sends)
    (v : Int) (index : UInt32) :
    wp tcpSendData (fun rest w' => wp tcpSendData
        (fun _ w'' => Accounts (seekDone w'' rest).core)
        (fun _ t => Begun t.core) (loadCmd w' .exeRet index))
      (fun _ t => Begun t.core) (loadCmd (seeking w v) .seekCmpd index) := by
  obtain ⟨turn, first, second⟩ := clean
  have commanded : Accounts ⟨w.obj, w.inp, w.wire, w.trace ++ [.command (.seek v)]⟩ := by
    refine Accounts.move accounts ?_ ?_ ?_
    · rfl
    · rfl
    · exact (queuedIn_append _ _).trans (List.append_nil _)
  have replied : Accounts (loadCmd (seeking w v) .seekCmpd index).core :=
    commanded.reply turn (.inl rfl) (ready_putCmd (w := seeking w v) rfl rfl .seekCmpd index) rfl rfl rfl
  apply wp_tcpSendData_accounts replied (show packHeadLen ≠ 0 by decide) first
  · intro rest b wire last accounts
    have unsent : b.bSendCmd = true ∧ b.hasSendLen = 0 ∧ b.avpack.size = 0 := by
      rcases last rfl with rfl | rfl
      · exact ⟨rfl, rfl, rfl⟩
      · exact ⟨rfl, rfl, rfl⟩
    obtain ⟨turn, none', empty⟩ := unsent
    have answered : Accounts (loadCmd { loadCmd (seeking w v) .seekCmpd index with
        obj := { (loadCmd (seeking w v) .seekCmpd index).obj with mSendBuffer := b }
        wire := wire, sends := leftAfter packHeadLen w.sends } .exeRet index).core :=
      accounts.reply turn (.inr rfl) (ready_putCmd (by exact none') (by exact empty) .exeRet index) rfl rfl rfl
    apply wp_tcpSendData_accounts answered (show packHeadLen ≠ 0 by decide) second
    · exact fun _ _ _ _ accounts => accounts.move rfl rfl rfl
    · exact fun _ _ begun => begun
  · exact fun _ _ begun => begun

/-- The seeks processed since `c`, if there are any, are clean. -/
def SeeksClean (c : Core TaskPlayback) (sends : List SendResult) (trace : List Obs) : Prop :=
  (∃ o ∈ trace.drop c.trace.length, o.isSeek = true) → CleanSeek c.obj.mSendBuffer sends

instance (c : Core TaskPlayback) (sends : List SendResult) (trace : List Obs) :
    Decidable (SeeksClean c sends trace) :=
  inferInstanceAs (Decidable (_ → _))

/-- A frame from the client keeps the account, if it is no unclean seek. -/
theorem dispatch_accounts (accounts : Accounts w.core) :
    wp dispatch (fun r t => r = none ∧ (SeeksClean w.core w.sends t.trace → Accounts t.core))
      (fun _ t => SeeksClean w.core w.sends t.trace → Begun t.core) w := by
  have commanded : ∀ (c : Control) (obj : TaskPlayback), obj.mSendBuffer = w.obj.mSendBuffer →
      Accounts ⟨obj, w.inp, w.wire, w.trace ++ [.command c]⟩ := by
    intro c obj buffer
    refine Accounts.move accounts ?_ ?_ ?_
    · exact buffer
    · rfl
    · exact (queuedIn_append _ _).trans (List.append_nil _)
  apply wp_dispatch
  · exact ⟨rfl, fun _ => accounts⟩
  · exact fun _ => accounts.begun
  · exact fun _ => (commanded .start _ rfl).begun
  · rintro _ (rfl | rfl)
    · exact ⟨rfl, fun _ => commanded .start _ rfl⟩
    · exact ⟨rfl, fun _ => commanded .start _ rfl⟩
  · exact fun v _ => ⟨rfl, fun _ => commanded (.setpause v) _ rfl⟩
  · exact ⟨rfl, fun _ => commanded (.setpause 0) _ rfl⟩
  · intro v _
    by_cases clean : CleanSeek w.obj.mSendBuffer w.sends
    · apply (seek_accounts accounts clean v _).mono
      · intro rest t sent
        apply sent.mono
        · exact fun _ _ accounts => ⟨rfl, fun _ => accounts⟩
        · exact fun _ _ begun _ => begun
      · exact fun _ _ begun _ => begun
    · -- whatever happens from here on, the trace has a seek in it
      have excluded : ∀ (t : World TaskPlayback) (obs : List Obs),
          t.trace = w.trace ++ .command (.seek v) :: obs → ¬ SeeksClean w.core w.sends t.trace := by
        intro t obs logged found
        refine clean (found ⟨.command (.seek v), ?_, rfl⟩)
        rw [logged, World.core, List.drop_left]
        exact List.mem_cons_self
      apply wp_seek_logged
      · exact fun _ _ t obs logged => ⟨rfl, fun found => absurd found (excluded t obs logged)⟩
      · exact fun t obs logged found => absurd found (excluded t obs logged)

/-- The methods of a playback task keep the account. -/
theorem method_accounts (e : Event) (accounts : Accounts w.core) (results : w.sends = e.sends)
    (uncut : e.isWrite = true → cutShort false (due w.obj) e.sends = false) :
    wp (e.method : Act TaskPlayback Int) (fun _ t => SeeksClean w.core e.sends t.trace → Accounts t.core)
      (fun _ t => SeeksClean w.core e.sends t.trace → Begun t.core) w := by
  cases e with
  | read recvs sends =>
    have read : ∀ b rest recvs' obs, AllReading obs → Accounts (w.read b rest recvs' obs).core := by
      intro b rest recvs' obs reading
      refine Accounts.move accounts ?_ ?_ ?_
      · rfl
      · rfl
      · exact (queuedIn_append _ _).trans (by rw [queuedIn_reading reading, List.append_nil]; rfl)
    apply wp_readBuffer
    · exact fun ret b rest recvs' obs _ reading _ => read b rest recvs' obs reading
    · exact fun b rest recvs' obs _ reading _ => (read b rest recvs' obs reading).begun
    · intro b rest recvs' obs _ reading
      have earlier : ∀ t : World TaskPlayback, SeeksClean w.core sends t.trace →
          SeeksClean (w.read b rest recvs' obs).core sends t.trace := by
        rintro t found ⟨o, member, isSeek⟩
        refine found ⟨o, ?_, isSeek⟩
        have longer : t.trace.drop (w.trace ++ obs).length = (t.trace.drop w.trace.length).drop obs.length := by
          rw [List.drop_drop, List.length_append]
        exact List.mem_of_mem_drop (longer ▸ member)
      have dispatched := dispatch_accounts (read b rest recvs' obs reading)
      rw [show (w.read b rest recvs' obs).sends = sends from results] at dispatched
      apply dispatched.mono
      · rintro _ t ⟨rfl, accounts⟩ ret _ found
        exact (accounts (earlier t found)).move rfl rfl rfl
      · exact fun _ t begun found => begun (earlier t found)
  | write sends =>
    have written := writeBuffer_accounts accounts (by rw [results]; exact uncut rfl)
    exact written.mono (fun _ _ post _ => post) (fun _ _ begun _ => begun)
  | timer =>
    simp only [Event.method, Callbacks.setHeartBeat, setHeartCount, wp_bind, wp_modifySelf, wp_get,
      wp_ite, wp_addWriteEvent, wp_self, wp_pure]
    split
    · split <;> exact fun _ => accounts.move rfl rfl rfl
    · exact fun _ => accounts.move rfl rfl rfl
  | readTimeout => exact fun _ => accounts
  | writeTimeout => exact fun _ => accounts

end

/-- No send of the turn is cut short by a fatal error, and no seek comes between a header and its
payload. -/
def CleanSends (w : World TaskPlayback) (e : Event) (w' : World TaskPlayback) : Prop :=
  (e.isWrite = true → cutShort false (due w.obj) e.sends = false) ∧ SeeksClean w.core e.sends w'.trace

instance (w : World TaskPlayback) (e : Event) (w' : World TaskPlayback) : Decidable (CleanSends w e w') :=
  inferInstanceAs (Decidable (_ ∧ _))

/-- The state of a run: between callbacks, or stopped inside one. -/
def Goes (w : World TaskPlayback) : Prop := Accounts w.core ∨ (w.Halted ∧ Begun w.core)

/-- **A clean turn keeps the account.** -/
theorem goes_turn {w w' : World TaskPlayback} {e : Event} (goes : Goes w) (fired : fire w e = some w')
    (clean : CleanSends w e w') : Goes w' := by
  have live := live_of_fire fired
  have accounts : Accounts w.core := goes.resolve_right fun halted => halted.1 live.2
  have turn := fire_rule fired (Q := fun c => SeeksClean w.core e.sends c.trace → Accounts c)
    (H := fun c => SeeksClean w.core e.sends c.trace → Begun c) ?_ ?_
  · rcases turn with kept | ⟨halted, begun⟩
    · exact .inl (kept clean.2)
    · exact .inr ⟨halted, begun clean.2⟩
  · intro c by' kept found
    have kept := kept fun ⟨o, member, isSeek⟩ => found ⟨o, by
      rw [List.drop_append]
      exact List.mem_append_left _ member, isSeek⟩
    refine Accounts.move kept ?_ ?_ ?_
    · rfl
    · rfl
    · exact (queuedIn_append _ _).trans (List.append_nil _)
  · intro d same _ results _
    have obj : d.obj = w.obj := congrArg Core.obj same
    rw [← same]
    exact method_accounts e (same ▸ accounts) results (obj ▸ clean.1)

/-- A new task accounts for its login reply. -/
theorem goes_start (raw : TagSendBuffer) (mFfmpeg : FfmpegContext) (inp : List Byte)
    {sends : List SendResult} (uncut : cutShort false (packHeadLen + loginRetSize) sends = false) :
    Goes (start raw mFfmpeg inp sends) := by
  apply after_of_wp
  simp only [construct, wp_bind, wp_self, wp_modifySend, wp_emit]
  have fits : (loginRetFrame mFfmpeg.info).bytes.length ≤ cmdLen := by
    rw [length_loginRetFrame]
    decide
  have stands : Stands ([] ++ [loginRetFrame mFfmpeg.info]) _ (Frame.stream []) :=
    .header (ready_login raw mFfmpeg fits) rfl rfl rfl
  apply wp_tcpSendData_accounts
  · exact ⟨_, .next _ .none, stands⟩
  · exact show packHeadLen + loginRetSize ≠ 0 by decide
  · exact uncut
  · exact fun _ _ _ _ accounts => .inl accounts
  · exact fun _ _ begun => .inr ⟨Option.some_ne_none _, begun⟩

/-- What is on the wire is the front of the frames meant to go out, and between two callbacks the
buffer holds the rest of them from `hasSendLen` on. -/
def SendsOn (w : World TaskPlayback) : Prop :=
  ∃ fs, Meant (queuedIn w.trace) fs ∧ w.wire <+: Frame.stream fs ∧
    (w.Live → w.wire ++ w.obj.mSendBuffer.left = Frame.stream fs)

theorem Goes.sendsOn {w : World TaskPlayback} (goes : Goes w) : SendsOn w := by
  rcases goes with ⟨fs, meant, stands⟩ | ⟨halted, fs, meant, begun⟩
  · exact ⟨fs, meant, stands.begun, fun _ => stands.whole⟩
  · exact ⟨fs, meant, begun, fun live => absurd live.2 halted⟩

/-- The stream after a run of clean turns. -/
theorem sends_on {raw : TagSendBuffer} {mFfmpeg : FfmpegContext} {inp : List Byte}
    {sends : List SendResult} {es : List Event} {w : World TaskPlayback}
    (uncut : cutShort false (packHeadLen + loginRetSize) sends = false)
    (run : Runs fire CleanSends (start raw mFfmpeg inp sends) es w) : SendsOn w := by
  have goes : Goes w := run.invariant (goes_start raw mFfmpeg inp uncut)
    fun _ _ _ goes fired clean => goes_turn goes fired clean
  exact goes.sendsOn

end TaskPlayback

end GreatEvent
