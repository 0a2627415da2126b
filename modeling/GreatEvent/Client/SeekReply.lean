import GreatEvent.Client.PlaybackLink

/-!
# The reply that no seek gets

`Seek` waits in `ExecCmd` for `DefNetMessage` to fill in its `WAIT_INFO`. The
server sends `MODULE_MSG_SEEK_CMPD` and `MODULE_MSG_EXERET` under the index
of the request, `Work` reads them, and that is all: nobody calls
`DefNetMessage`. So no `WAIT_INFO` is ever filled in, and every `Seek`
returns `FALSE` at the end of its wait.
-/

namespace GreatEvent

open Lib

namespace NetDataClient

section
variable {c c' : NetDataClient} {accepts : Nat} {cuts : List Nat}

@[simp] theorem calls_send (bytes : List Byte) : (c.send accepts bytes).2.calls = c.calls := by
  unfold send
  split <;> rfl

@[simp] theorem calls_sendCmd (dwCmd : ModuleMsg) (dwIndex : UInt32) (lpData : List Byte) :
    (c.sendCmd accepts dwCmd dwIndex lpData).2.calls = c.calls := by
  unfold sendCmd
  dsimp only
  split
  · split <;> simp
  · simp

theorem calls_storeVideo (stored : c.storeVideo = some c') : c'.calls = c.calls := by
  unfold storeVideo at stored
  dsimp only at stored
  split at stored
  · split at stored
    · exact Option.some.inj stored ▸ rfl
    · cases stored
  · exact Option.some.inj stored ▸ rfl

theorem calls_recvData {ok : Bool} (received : c.recvData cuts = some (ok, c')) : c'.calls = c.calls := by
  unfold recvData at received
  split at received
  · exact (Prod.mk.inj (Option.some.inj received)).2 ▸ rfl
  · split at received
    · split at received
      · dsimp only at received
        split at received
        · obtain ⟨d, stored, same⟩ := Option.map_eq_some_iff.mp received
          obtain ⟨-, rfl⟩ := Prod.mk.inj same
          rw [calls_storeVideo stored]
        · exact (Prod.mk.inj (Option.some.inj received)).2 ▸ rfl
      · exact (Prod.mk.inj (Option.some.inj received)).2 ▸ rfl
    · exact (Prod.mk.inj (Option.some.inj received)).2 ▸ rfl

theorem calls_recvCmd (nLength : Nat) : (c.recvCmd cuts nLength).2.calls = c.calls := by
  unfold recvCmd
  split
  · rfl
  · split
    · rfl
    · split <;> rfl

end

/-- No reply has been delivered to any call of `ExecCmd`. -/
def Unfilled (c : NetDataClient) : Prop := ∀ e ∈ c.calls, e.wi = WaitInfo.zero

section
variable {c c' : NetDataClient}

theorem Unfilled.of_calls (unfilled : c.Unfilled) (same : c'.calls = c.calls) : c'.Unfilled := by
  unfold Unfilled
  rw [same]
  exact unfilled

/-- A new call of `ExecCmd` has an empty `WAIT_INFO`. -/
theorem Unfilled.execCmd (unfilled : c.Unfilled) (accepts : Nat) (dwMsg : ModuleMsg) (szMsg : List Byte) :
    (c.execCmd accepts dwMsg szMsg).2.Unfilled := by
  have calls : (c.execCmd accepts dwMsg szMsg).2.calls =
      c.calls ++ [ExecCall.begin (getIndex c.m_nIndex)] := by
    unfold NetDataClient.execCmd
    dsimp only
    split <;> simp
  intro e member
  rw [calls] at member
  rcases List.mem_append.mp member with old | new
  · exact unfilled e old
  · rw [List.mem_singleton.mp new]
    rfl

/-- Were a reply of the server delivered, the string would stay as it is: the replies have no payload. -/
theorem szWait_defNetMessage {f : Frame} {k : UInt32} (reply : f ∈ Request.seekReplies k)
    (delivered : c.defNetMessage f.cmd.dwCmd f.cmd.dwIndex f.body = some c') (i : Nat) :
    c'.calls[i]?.map (fun e => e.wi.szWait) = c.calls[i]?.map fun e => e.wi.szWait := by
  have empty : f.body = [] := by
    rcases List.mem_cons.mp reply with rfl | last
    · rfl
    · rw [List.mem_singleton.mp last]
      rfl
  rw [empty] at delivered
  unfold defNetMessage at delivered
  split at delivered
  · split at delivered
    · have fits : ([] : List Byte).length ≤ szWaitLen := Nat.zero_le _
      rw [if_pos fits] at delivered
      obtain rfl := Option.some.inj delivered
      simp only [List.getElem?_modify, Option.map_eq_map, Option.map_map]
      congr 1
      funext e
      dsimp only [Function.comp]
      split
      · rw [poke_zero]
        rfl
      · rfl
    · rw [Option.some.inj delivered]
  · rw [Option.some.inj delivered]

/-- **A wait that ends without a reply ends with the empty string.** -/
theorem Unfilled.execReturns (unfilled : c.Unfilled) {call : Nat} {s : List Byte}
    (returns : c.execReturns call = some (s, c')) : s = [] ∧ c'.Unfilled := by
  unfold NetDataClient.execReturns at returns
  split at returns
  case h_2 => cases returns
  case h_1 nIndex wi found =>
    have empty : wi = WaitInfo.zero := unfilled _ (List.mem_of_getElem? found)
    obtain ⟨rfl, rfl⟩ := Prod.mk.inj (Option.some.inj returns)
    constructor
    · rw [empty]
      rfl
    · intro e member
      rcases List.mem_or_eq_of_mem_set member with old | rfl
      · exact unfilled e old
      · exact empty

end

end NetDataClient

namespace PlaybackLink

section
variable {l l' : PlaybackLink} {s : LinkStep}

theorem arrive_calls (c : PlayBackClient) (bytes : List Byte) : (c.arrive bytes).net.calls = c.net.calls := by
  unfold PlayBackClient.arrive
  split <;> rfl

theorem calls_setPlayPause {accepts : Nat} {bPause : Bool} {c : PlayBackClient} :
    (c.setPlayPause accepts bPause).2.net.calls = c.net.calls := by
  unfold PlayBackClient.setPlayPause
  split
  · rfl
  · split
    · rfl
    · split
      · rfl
      · exact NetDataClient.calls_sendCmd _ _ _

/-- `Seek` without a reply. -/
theorem seekReturns_false {c c' : PlayBackClient} {call : Nat} {ret : Bool} (unfilled : c.net.Unfilled)
    (returns : c.seekReturns call = some (ret, c')) : ret = false ∧ c'.net.Unfilled := by
  obtain ⟨⟨text, net⟩, woken, rest⟩ := Option.bind_eq_some_iff.mp returns
  obtain ⟨rfl, kept⟩ := unfilled.execReturns woken
  obtain ⟨rfl, rfl⟩ := Prod.mk.inj (Option.some.inj rest)
  exact ⟨rfl, kept⟩

/-- **No step delivers a reply**, and a `Seek` that returns, returns `FALSE`. -/
theorem unfilled_step (unfilled : l.client.net.Unfilled) (taken : l.step s = some l') :
    l'.client.net.Unfilled ∧ ∀ call ret, s = .seekReturns call ret → ret = false := by
  cases s with
  | server e =>
    obtain ⟨w, -, rfl⟩ := server_of_step taken
    exact ⟨unfilled.of_calls (arrive_calls _ _), by rintro _ _ ⟨⟩⟩
  | opened cuts =>
    obtain ⟨-, rfl⟩ := opened_of_step taken
    have kept : (l.client.net.recvCmd cuts 2048).2.calls = l.client.net.calls :=
      NetDataClient.calls_recvCmd 2048
    refine ⟨unfilled.of_calls ?_, by rintro _ _ ⟨⟩⟩
    unfold opened
    split
    · rename_i found
      rw [found] at kept
      exact kept
    · rename_i found
      rw [found] at kept
      exact kept
  | work cuts =>
    refine ⟨?_, by rintro _ _ ⟨⟩⟩
    rcases work_eq_some (work_of_step taken).2 with rfl | ⟨ok, net, received, rfl⟩
    · exact unfilled
    · exact unfilled.of_calls (NetDataClient.calls_recvData received)
  | disconnect =>
    obtain rfl := Option.some.inj taken
    exact ⟨unfilled.of_calls rfl, by rintro _ _ ⟨⟩⟩
  | start accepts dwStart dwEnd =>
    obtain rfl := Option.some.inj taken
    exact ⟨unfilled.of_calls (NetDataClient.calls_sendCmd _ _ _), by rintro _ _ ⟨⟩⟩
  | setPlayPause accepts bPause ret =>
    obtain ⟨-, rfl⟩ := setPlayPause_of_step taken
    exact ⟨unfilled.of_calls calls_setPlayPause, by rintro _ _ ⟨⟩⟩
  | seek accepts dwStart =>
    obtain rfl := Option.some.inj taken
    exact ⟨unfilled.execCmd accepts .controlPlay (seekText dwStart ++ [0]), by rintro _ _ ⟨⟩⟩
  | seekReturns call ret =>
    obtain ⟨c, returns, rfl⟩ := seekReturns_of_step taken
    obtain ⟨isFalse, kept⟩ := seekReturns_false unfilled returns
    refine ⟨kept, ?_⟩
    rintro _ _ ⟨⟩
    exact isFalse

/-- A player that has not asked for anything. -/
theorem unfilled_fresh (raw : TagSendBuffer) (mFfmpeg : FfmpegContext) (sends : List SendResult) :
    (fresh raw mFfmpeg sends).client.net.Unfilled := by
  have none' : NetDataClient.Unfilled (.fresh []) := by
    rintro _ ⟨⟩
  exact none'.of_calls (arrive_calls _ _)

/-- **No seek is ever answered**: whatever the order of steps, every `Seek` returns `FALSE` and no
`WAIT_INFO` has been filled in. -/
theorem seek_unanswered {ok : PlaybackLink → LinkStep → PlaybackLink → Prop} {raw : TagSendBuffer}
    {mFfmpeg : FfmpegContext} {sends : List SendResult} {ls : List LinkStep}
    (run : Runs step ok (fresh raw mFfmpeg sends) ls l) :
    (∀ call ret, LinkStep.seekReturns call ret ∈ ls → ret = false) ∧ l.client.net.Unfilled := by
  induction run with
  | nil =>
    refine ⟨?_, unfilled_fresh _ _ _⟩
    rintro _ _ ⟨⟩
  | snoc _ taken _ ih =>
    obtain ⟨returned, unfilled⟩ := ih
    obtain ⟨kept, last⟩ := unfilled_step unfilled taken
    refine ⟨?_, kept⟩
    intro call ret member
    rcases List.mem_append.mp member with earlier | now
    · exact returned call ret earlier
    · exact last call ret (List.mem_singleton.mp now).symm

end

/-- The player has taken the two replies that carry the index of the call, which is still waiting. -/
def Answered (l : PlaybackLink) (call : Nat) : Prop :=
  ∃ e frames tail, l.client.net.calls[call]? = some e ∧ e.done = false ∧
    l.consumed = Frame.stream frames ++ tail ∧ Request.seekReplies e.nIndex.toUInt64.toUInt32 ⊆ frames

/-- A seek whose replies have come returns `TRUE` and clears both flags. -/
def SeekMatched : Prop :=
  ∀ raw mFfmpeg sends ls l call, Runs step Registered (fresh raw mFfmpeg sends) ls l → l.Answered call →
    ∃ c, l.client.seekReturns call = some (true, c) ∧ c.m_bDataEnd = false ∧ c.m_bSend = false

/-- The player seeks, the task does it and answers, and `Work` reads both replies. -/
def seekAndReplies : List LinkStep :=
  [.opened [], .seek 1000 5, .server (.read [.got 16, .got 100] [.sent 16, .sent 16]), .work [], .work []]

/-- The first player, with the index 1 of its first request. -/
theorem seekAndReplies_answered : ∃ l,
    Runs step Registered (fresh TaskPlayback.sampleRaw TaskPlayback.sampleFfmpeg [.sent 2000]) seekAndReplies l ∧
    l.Answered 0 := by
  have ran : (exec step Registered
      (fresh TaskPlayback.sampleRaw TaskPlayback.sampleFfmpeg [.sent 2000]) seekAndReplies).map (fun l =>
        (l.client.net.calls[0]?.map fun e => (e.nIndex, e.done), l.consumed)) =
      some (some (1, false), Frame.stream
        (loginRetFrame TaskPlayback.sampleFfmpeg.info :: Request.seekReplies 1)) := by
    decide +kernel
  obtain ⟨l, run, facts⟩ := Option.map_eq_some_iff.mp ran
  obtain ⟨first, consumed⟩ := Prod.mk.inj facts
  obtain ⟨e, found, fields⟩ := Option.map_eq_some_iff.mp first
  obtain ⟨index, waits⟩ := Prod.mk.inj fields
  refine ⟨l, .of_exec run, e, _, [], found, waits, consumed.trans (List.append_nil _).symm, ?_⟩
  rw [index]
  exact List.subset_cons_self _ _

/-- **A seek is not matched with its reply.** -/
theorem seek_not_matched : ¬ SeekMatched := by
  intro matched
  obtain ⟨l, run, answered⟩ := seekAndReplies_answered
  obtain ⟨c, returns, -⟩ := matched _ _ _ _ l 0 run answered
  have unfilled : l.client.net.Unfilled := by
    apply run.invariant (P := fun l => l.client.net.Unfilled) (unfilled_fresh _ _ _)
    exact fun _ _ _ unfilled taken _ => (unfilled_step unfilled taken).1
  cases (seekReturns_false unfilled returns).1

/-- The seek of `seekAndReplies` returns. -/
theorem seek_unanswered_sample : ∃ l,
    Runs step Registered (fresh TaskPlayback.sampleRaw TaskPlayback.sampleFfmpeg [.sent 2000])
      (seekAndReplies ++ [.seekReturns 0 false]) l ∧
    (∀ call ret, LinkStep.seekReturns call ret ∈ seekAndReplies ++ [.seekReturns 0 false] → ret = false) ∧
    l.client.net.Unfilled := by
  have finished : (exec step Registered
      (fresh TaskPlayback.sampleRaw TaskPlayback.sampleFfmpeg [.sent 2000])
      (seekAndReplies ++ [.seekReturns 0 false])).isSome = true := by
    decide +kernel
  obtain ⟨l, ran⟩ := Option.isSome_iff_exists.mp finished
  exact ⟨l, .of_exec ran, seek_unanswered (.of_exec ran)⟩

end PlaybackLink

end GreatEvent
