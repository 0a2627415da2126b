import GreatEvent.Server.FileRecvSteps
import GreatEvent.Server.FileSendSteps
import GreatEvent.Server.PlaybackSteps
import GreatEvent.Server.SendLoop

/-!
# A peer that does not read

A send waits inside the callback until the peer's socket takes its bytes. So
what bounds a callback is what the socket accepts in it: `Calls k act` says
that `act` takes at most `k` results more than bytes are accepted, `EAGAIN`
not counted. Nothing bounds the number of those, and nothing of a frame is
left to a later write event.
-/

namespace GreatEvent

open Lib FrameReader

variable {τ α β : Type}

/-- From `w` to `t`, results were taken that move a send: `k` at most besides one for each byte
accepted. -/
def Steps (k : Nat) (w t : World τ) : Prop :=
  ∃ used, w.sends = used ++ t.sends ∧ moves used + w.wire.length ≤ t.wire.length + k

/-- A callback bounded in what it takes. It never comes back only when the results have run out. -/
def Calls (k : Nat) (act : Act τ α) : Prop :=
  ∀ w, wp act (fun _ t => Steps k w t) (fun s t => Steps k w t ∧ (s = .blocked → t.sends = [])) w

theorem Steps.refl (k : Nat) (w : World τ) : Steps k w w := ⟨[], rfl, by simp [moves]⟩

theorem Steps.trans {k l : Nat} {w t u : World τ} (first : Steps k w t) (second : Steps l t u) :
    Steps (k + l) w u := by
  obtain ⟨used, joined, bound⟩ := first
  obtain ⟨more, joined', bound'⟩ := second
  refine ⟨used ++ more, by rw [joined, joined', List.append_assoc], ?_⟩
  rw [moves_append]
  omega

theorem Steps.weaken {k l : Nat} {w t : World τ} (steps : Steps k w t) (more : k ≤ l) : Steps l w t := by
  obtain ⟨used, joined, bound⟩ := steps
  exact ⟨used, joined, by omega⟩

/-- One send takes one result more than it accepts bytes. -/
theorem calls_sendEx (data : List Byte) : Calls 1 (sendEx data : Act τ Int) := by
  intro w
  apply wp_sendEx_spent
  · intro used ret accepted left joined spent
    refine ⟨used, joined, ?_⟩
    have accepts := spent.accepts
    rw [List.length_append]
    dsimp only at accepts
    omega
  · intro used accepted left joined spent
    refine ⟨⟨used, joined, ?_⟩, fun _ => (spent.waits rfl).1⟩
    have accepts := spent.accepts
    rw [List.length_append]
    dsimp only at accepts
    omega

/-- A send and what it changes in its object: how much was sent, and the buffer when all of it was. -/
theorem calls_sendThen (data : List Byte) (sent : Nat → τ → τ) (whole : τ → Prop) [DecidablePred whole]
    (next : τ → τ) : Calls 1 (do
      let ret ← sendEx data
      if 0 < ret then
        modifySelf (sent ret.toNat)
      if whole (← self) then
        modifySelf next
      return ret) := by
  intro w
  simp only [wp_bind]
  refine (calls_sendEx data w).mono (fun ret t steps => ?_) (fun _ _ stopped => stopped)
  simp only [wp_ite, wp_bind, wp_self, wp_modifySelf, wp_pure]
  split <;> split <;> exact steps

/-- The reader takes no results; what `dispatch` takes, the callback takes. -/
theorem calls_readBuffer [FrameReader τ] {dispatch : Act τ (Option Int)} {k : Nat} (calls : Calls k dispatch) :
    Calls k (readBuffer dispatch) := by
  intro w
  apply wp_readBuffer
  · exact fun _ _ _ _ _ _ _ => Steps.refl k w
  · intro b rest recvs obs _ _
    exact ⟨Steps.refl k w, nofun⟩
  · intro b rest recvs obs _ _
    refine (calls (w.read b rest recvs obs)).mono (fun r t steps => ?_) (fun _ _ stopped => stopped)
    cases r with
    | some r => exact steps
    | none => exact fun _ _ => steps

namespace TaskPlayback

theorem calls_tcpSendData : Calls 1 tcpSendData := by
  intro w
  rw [tcpSendData, wp_bind, wp_self]
  exact calls_sendThen _
    (fun n (t : TaskPlayback) => { t with
      mSendBuffer := { t.mSendBuffer with hasSendLen := t.mSendBuffer.hasSendLen + n } })
    (fun t => t.mSendBuffer.hasSendLen = t.mSendBuffer.totalLen)
    (fun t => { t with
      mSendBuffer := if t.mSendBuffer.bSendCmd && 0 < t.mSendBuffer.avpack.size then t.mSendBuffer.setToVideo
        else t.mSendBuffer.reset }) w

theorem calls_writeBuffer : Calls 1 writeBuffer := by
  intro w
  apply wp_writeBuffer
  · exact fun _ => calls_tcpSendData w
  · exact fun _ _ _ _ => calls_tcpSendData _
  · exact fun _ _ _ => Steps.refl 1 w
  · exact fun _ _ _ _ _ _ => calls_tcpSendData _
  · exact fun _ _ _ _ _ => calls_tcpSendData _
  · exact fun _ _ _ _ => calls_tcpSendData _

/-- A seek sends two replies. -/
theorem calls_dispatch : Calls 2 dispatch := by
  intro w
  apply wp_dispatch
  · exact Steps.refl 2 w
  · exact ⟨Steps.refl 2 w, nofun⟩
  · exact ⟨Steps.refl 2 w, nofun⟩
  · rintro w' (rfl | rfl)
    · exact Steps.refl 2 w
    · exact Steps.refl 2 w
  · exact fun _ _ => Steps.refl 2 w
  · exact Steps.refl 2 w
  · intro v _
    refine (calls_tcpSendData _).mono (fun rest t first => ?_) (fun s t stopped => ?_)
    · refine (calls_tcpSendData _).mono (fun _ u second => ?_) (fun s u stopped => ?_)
      · exact first.trans second
      · exact ⟨first.trans stopped.1, stopped.2⟩
    · exact ⟨stopped.1.weaken (by omega), stopped.2⟩

end TaskPlayback

namespace TaskFileSend

theorem calls_tcpSendData : Calls 1 tcpSendData := by
  intro w
  rw [tcpSendData, wp_bind, wp_self]
  exact calls_sendThen _
    (fun n (t : TaskFileSend) => { t with
      mSendBuffer := { t.mSendBuffer with hasSendLen := t.mSendBuffer.hasSendLen + n } })
    (fun t => t.mSendBuffer.hasSendLen = t.mSendBuffer.totalLen)
    (fun t => { t with
      mSendBuffer := if t.mSendBuffer.bSendCmd then t.mSendBuffer.setToVideo
        else t.mSendBuffer.reset }) w

theorem calls_writeBuffer : Calls 1 writeBuffer := by
  intro w
  apply wp_writeBuffer
  · exact fun _ => calls_tcpSendData w
  · exact fun _ _ _ _ _ => calls_tcpSendData _
  · exact fun _ _ _ => Steps.refl 1 w
  · exact fun _ _ _ _ _ _ => calls_tcpSendData _
  · exact fun _ _ => ⟨Steps.refl 1 w, nofun⟩
  · exact fun _ => ⟨Steps.refl 1 w, nofun⟩
  · exact fun _ _ => calls_tcpSendData _

theorem calls_dispatch : Calls 0 dispatch := by
  intro w
  apply wp_dispatch
  · exact ⟨Steps.refl 0 w, nofun⟩
  · exact Steps.refl 0 w
  · exact fun _ => ⟨Steps.refl 0 w, nofun⟩
  · exact fun _ _ _ _ _ _ => Steps.refl 0 w

end TaskFileSend

namespace TaskFileRecv

/-- Header and data are sent on their own. -/
theorem calls_sendCmd (dwCmd : ModuleMsg) (dwIndex : UInt32) (lpData : List Byte) :
    Calls 2 (sendCmd dwCmd dwIndex lpData) := by
  intro w
  simp only [sendCmd, wp_bind]
  refine (calls_sendEx _ w).mono (fun ret t first => ?_) (fun s t stopped => ?_)
  · simp only [wp_ite, wp_pure]
    split
    · exact first.weaken (by omega)
    split
    · exact first.weaken (by omega)
    · refine (calls_sendEx _ t).mono (fun _ u second => ?_) (fun s u stopped => ?_)
      · exact first.trans second
      · exact ⟨first.trans stopped.1, stopped.2⟩
  · exact ⟨stopped.1.weaken (by omega), stopped.2⟩

theorem calls_dispatch : Calls 2 dispatch := by
  intro w
  simp only [dispatch, wp_bind, wp_readerBuf]
  split
  · simp only [storeChunk, wp_bind, wp_readerBuf]
    split
    · exact Steps.refl 2 w
    · exact ⟨Steps.refl 2 w, nofun⟩
  · split
    · simp only [startTransfer, wp_bind, wp_readerBuf, wp_modifySelf, wp_pure]
      exact calls_sendCmd _ _ _ _
    · exact Steps.refl 2 w

theorem calls_writeBuffer : Calls 0 writeBuffer := fun w => Steps.refl 0 w

end TaskFileRecv

/-- **What bounds a send, and a callback that sends.** -/
theorem sends_wait :
    (∀ (τ : Type) (data : List Byte) (w : World τ), wp (sendEx data)
      (fun ret t => ∃ used, w.sends = used ++ t.sends ∧ moves used ≤ max 1 data.length ∧
        ((ret = data.length ∧ t.wire = w.wire ++ data) ∨ (ret = -1 ∧ .error ∈ used)))
      (fun s t => s = .blocked ∧ t.sends = [] ∧ moves w.sends < max 1 data.length) w) ∧
    Calls 1 TaskPlayback.writeBuffer ∧ Calls 2 TaskPlayback.readBuffer ∧
    Calls 1 TaskFileSend.writeBuffer ∧ Calls 0 TaskFileSend.readBuffer ∧
    Calls 0 TaskFileRecv.writeBuffer ∧ Calls 2 TaskFileRecv.readBuffer := by
  refine ⟨fun τ data w => ?_, TaskPlayback.calls_writeBuffer,
    calls_readBuffer TaskPlayback.calls_dispatch, TaskFileSend.calls_writeBuffer,
    calls_readBuffer TaskFileSend.calls_dispatch, TaskFileRecv.calls_writeBuffer,
    calls_readBuffer TaskFileRecv.calls_dispatch⟩
  apply wp_sendEx_spent
  · intro used ret accepted left joined spent
    refine ⟨used, joined, spent.few, (spent.ends ret rfl).imp_left fun ⟨whole, all⟩ => ⟨whole, ?_⟩⟩
    exact congrArg (w.wire ++ ·) all
  · intro used accepted left joined spent
    obtain ⟨none, fewer⟩ := spent.waits rfl
    dsimp only at none
    subst none
    rw [joined, List.append_nil]
    exact ⟨rfl, rfl, fewer⟩

/-- A peer that never reads: the loop takes every result there is. -/
theorem sendLoop_eagain (len : Nat) {data : List Byte} (pending : 0 < data.length) (n : Nat) :
    (sendLoop len data (List.replicate n .eagain)).ret = none := by
  induction n with
  | zero => rfl
  | succ n ih =>
    rw [List.replicate_succ, sendLoop, if_pos pending]
    exact ih

/-- No number of `send` calls is enough for every sequence of results. -/
theorem eagain_never_returns : ¬ ∃ calls : Nat → Nat, ∀ data rs, calls data.length ≤ rs.length →
    (sendLoop data.length data rs).ret ≠ none := by
  rintro ⟨calls, bounded⟩
  apply bounded [0] (List.replicate (calls 1) .eagain)
  · rw [List.length_replicate]
    exact Nat.le_refl _
  · exact sendLoop_eagain _ (by decide) _

end GreatEvent
