import GreatEvent.Client.ConnectServer
import GreatEvent.Server.ChunkLength

/-!
# Lengths inside a frame

Three receivers take a second length from the payload of a frame and copy so
many bytes out of their receive buffer: `TaskFileRecv::recvPackData` from
behind a `FILE_GET`, `CNetDataClient::RecvData` from behind an `AV_FRAME`,
`ConnectServer` from behind the head of a `LOGIN_RET`. The copy is the
frame's own when it is the front of what stands there in the payload,
whatever else the buffer holds. It is just when the inner length is the
frame's own and stays inside it (`inner_lengths_iff`).
-/

namespace GreatEvent

open Lib FrameReader

/-! ## `CNetDataClient::RecvData` -/

namespace NetDataClient

/-- What the frame adds to the file is the front of what stands behind its `AV_FRAME`, whatever was in
the buffer. -/
def RecvsOwn (f : Frame) : Prop :=
  ∃ out, out <+: f.body.drop AvFrame.size ∧
    ∀ (c : NetDataClient) (cuts : List Nat) (rest : List Byte), c.inp = f.bytes ++ rest →
      ∃ ok c', c.recvData cuts = some (ok, c') ∧ c'.mwFile = c.mwFile ++ out

/-- The payload of the frame is received: it is a video frame, and its payload is neither empty nor
too long. -/
structure TakesVideo (f : Frame) : Prop where
  flag : f.cmd.dwFlag = netFlag
  video : f.cmd.dwCmd = ModuleMsg.video.code
  fits : f.cmd.dwLength.toNat ≤ workBufferLen
  filled : f.body ≠ []

/-- The frame type of the payload is one that is written, as far as the payload has it. -/
def MayCopy (body : List Byte) : Prop :=
  body.take 4 <+: leBytes 4 1 ∨ body.take 4 <+: leBytes 4 2

/-- A payload that is received and may be written has a length that fits. -/
def PictureLengthFits (f : Frame) : Prop :=
  TakesVideo f → MayCopy f.body → LengthFits AvFrame.size f.body

section
variable {f : Frame} {c : NetDataClient} {rest : List Byte}

theorem TakesVideo.wellFormed (takes : TakesVideo f) : WellFormed f where
  flag := takes.flag
  goesOn := by rw [takes.video]; decide
  fits := takes.fits

/-- `RecvData` of anything else leaves the file alone. -/
theorem recvData_quiet (quiet : ¬ TakesVideo f) (cuts : List Nat) (arrives : c.inp = f.bytes ++ rest) :
    ∃ ok c', c.recvData cuts = some (ok, c') ∧ c'.mwFile = c.mwFile := by
  obtain ⟨cuts', head⟩ := recvHead_bytes rest f cuts
  rw [recvData, arrives, head]
  by_cases flag : f.cmd.dwFlag = netFlag
  · simp only [flag, if_true]
    by_cases fits : f.cmd.dwLength.toNat ≤ workBufferLen
    · by_cases video : f.cmd.dwCmd = ModuleMsg.video.code
      · have none' : f.body = [] := Classical.not_not.mp fun filled => quiet ⟨flag, video, fits, filled⟩
        have length : f.cmd.dwLength.toNat = 0 := by
          rw [← f.body_len, none']
          rfl
        simp only [if_pos video, length, tcpRecv_nothing, Bool.false_eq_true, if_false]
        exact ⟨_, _, rfl, rfl⟩
      · simp only [dif_pos fits, if_neg video]
        exact ⟨_, _, rfl, rfl⟩
    · simp only [dif_neg fits]
      exact ⟨_, _, rfl, rfl⟩
  · simp only [if_neg flag]
    exact ⟨_, _, rfl, rfl⟩

/-- The first word as its bytes. -/
theorem take_eq_of_wordAt {bs : List Byte} {v : UInt32} (long : 4 ≤ bs.length)
    (word : wordAt bs 0 = v) : bs.take 4 = leBytes 4 v.toNat := by
  have length : (bs.take 4).length = 4 := List.length_take_of_le long
  have bound : leValue (bs.take 4) < 2 ^ 32 := by
    have bound := leValue_lt (bs.take 4)
    rwa [length] at bound
  have value : leValue (bs.take 4) = v.toNat := by
    rw [← word, wordAt, List.drop_zero, UInt32.toNat_ofNat', Nat.mod_eq_of_lt bound]
  have same := leBytes_leValue (bs.take 4)
  rw [length, value] at same
  exact same.symm

theorem wordAt_eq_of_take {bs : List Byte} {v : UInt32} (bytes : bs.take 4 = leBytes 4 v.toNat) :
    wordAt bs 0 = v := by
  rw [wordAt, List.drop_zero, bytes, leValue_leBytes_uint32, UInt32.ofNat_toNat]

/-- Whatever stands behind it, a payload that is written is one that may be. -/
theorem mayCopy_of_wordAt {body stale : List Byte} (long : 4 ≤ (body ++ stale).length)
    (copied : wordAt (body ++ stale) 0 = 1 ∨ wordAt (body ++ stale) 0 = 2) : MayCopy body := by
  have front : body.take 4 <+: (body ++ stale).take 4 := (List.prefix_append _ _).take 4
  rcases copied with one | two
  · rw [take_eq_of_wordAt long one] at front
    exact .inl front
  · rw [take_eq_of_wordAt long two] at front
    exact .inr front

/-- The payload with the rest of its frame type. -/
def typed (type : UInt32) (body : List Byte) : List Byte :=
  body ++ (leBytes 4 type.toNat).drop body.length

theorem length_typed (type : UInt32) (body : List Byte) :
    (typed type body).length = max 4 body.length := by
  rw [typed, List.length_append, List.length_drop, length_leBytes]
  omega

theorem typed_of_long {type : UInt32} {body : List Byte} (long : 4 ≤ body.length) :
    typed type body = body := by
  rw [typed, List.drop_eq_nil_of_le (by rwa [length_leBytes]), List.append_nil]

/-- So the payload is written. -/
theorem wordAt_typed (type : UInt32) {body : List Byte} (stale : List Byte)
    (front : body.take 4 <+: leBytes 4 type.toNat) : wordAt (typed type body ++ stale) 0 = type := by
  apply wordAt_eq_of_take
  rw [List.take_append_of_le_length (by rw [length_typed]; omega)]
  by_cases long : 4 ≤ body.length
  · rw [typed_of_long long]
    refine front.eq_of_length ?_
    rw [List.length_take_of_le long, length_leBytes]
  · rw [List.take_of_length_le (by omega)] at front
    rw [typed, List.prefix_iff_eq_append.mp front,
      List.take_of_length_le (Nat.le_of_eq (length_leBytes _ _))]

theorem length_holding {body : List Byte} (type : UInt32) (fits : body.length ≤ workBufferLen) :
    (List.replicate body.length (0 : Byte) ++ ((leBytes 4 type.toNat).drop body.length ++
      List.replicate (workBufferLen - max 4 body.length) 255)).length = workBufferLen := by
  have size : workBufferLen = 1049600 := rfl
  simp only [List.length_append, List.length_replicate, List.length_drop, length_leBytes]
  omega

/-- A buffer in which `body` comes to stand before the rest of its frame type and the bytes 255. -/
def holding (type : UInt32) (body : List Byte) (fits : body.length ≤ workBufferLen) : WorkBuffer :=
  ⟨_, length_holding type fits⟩

theorem store_holding (type : UInt32) {body : List Byte} (fits : body.length ≤ workBufferLen) :
    ((holding type body fits).store body fits).bytes =
      typed type body ++ List.replicate (workBufferLen - max 4 body.length) 255 := by
  show body ++ (List.replicate body.length (0 : Byte) ++ _).drop body.length = _
  rw [List.drop_left' List.length_replicate, typed, List.append_assoc]

/-- What `RecvData` has taken from such a buffer was the payload's own only if the length fits. -/
theorem lengthFits_of_holding {type : UInt32} {body out : List Byte} {c c' : NetDataClient}
    (fits : body.length ≤ workBufferLen) (isType : type = 1 ∨ type = 2) (front : body.take 4 <+: leBytes 4 type.toNat)
    (own : out <+: body.drop AvFrame.size)
    (holds : c.lpData = (holding type body fits).store body fits)
    (stored : c.storeVideo = some c') (file : c'.mwFile = c.mwFile ++ out) :
    LengthFits AvFrame.size body := by
  have size : workBufferLen = 1049600 := rfl
  have sized := c.lpData.sized
  unfold storeVideo at stored
  rw [holds, store_holding] at stored sized
  dsimp only at stored
  rw [wordAt_typed _ _ front, if_pos isType] at stored
  split at stored
  case isTrue inside =>
    obtain rfl := Option.some.inj stored
    have taken := congrArg List.length (List.append_cancel_left file)
    have long : 8 ≤ body.length := by
      refine Nat.le_of_not_lt fun short => ?_
      have length := length_typed type body
      have large : 2 ^ 31 ≤ (wordAt (typed type body ++ _) 4).toNat :=
        wordAt_filled (n := workBufferLen - max 4 body.length) (by omega) (by omega)
      have negative := asInt_neg large
      omega
    rw [typed_of_long (by omega), wordAt_append_left long] at inside taken
    rw [typed_of_long (by omega)] at sized
    rw [List.length_take, List.length_drop, sized] at taken
    have short := length_le_of_own own
    refine ⟨long, inside.1, ?_⟩
    have head : AvFrame.size = 16 := rfl
    unfold innerLength
    omega
  case isFalse => cases stored

/-- A payload with a length that fits is stored without what stands behind it. -/
theorem storeVideo_own {body stale : List Byte} (holds : c.lpData.bytes = body ++ stale)
    (may : MayCopy body) (fits : LengthFits AvFrame.size body) :
    c.storeVideo = some { c with mwFile := c.mwFile ++ innerBytes AvFrame.size body } := by
  have long : 4 ≤ body.length := Nat.le_trans (by decide) fits.own
  have copied : wordAt (body ++ stale) 0 = 1 ∨ wordAt (body ++ stale) 0 = 2 := by
    rcases may with one | two
    · have word := wordAt_typed 1 stale one
      rw [typed_of_long long] at word
      exact .inl word
    · have word := wordAt_typed 2 stale two
      rw [typed_of_long long] at word
      exact .inr word
  have inside : 0 ≤ innerLength body ∧ AvFrame.size + innerLength body ≤ workBufferLen := by
    have size : workBufferLen = 1049600 := rfl
    have head : AvFrame.size = 16 := rfl
    have sized := c.lpData.sized
    rw [holds, List.length_append] at sized
    have within := fits.inside
    have nonneg := fits.nonneg
    omega
  unfold storeVideo
  rw [holds, fits.word, ← innerLength]
  dsimp only
  rw [if_pos copied, if_pos inside, fits.copied stale]

theorem storeVideo_other (other : ¬ (wordAt c.lpData.bytes 0 = 1 ∨ wordAt c.lpData.bytes 0 = 2)) :
    c.storeVideo = some c := by
  unfold storeVideo
  dsimp only
  rw [if_neg other]

/-- **When a video frame adds its own bytes.** -/
theorem recvsOwn_iff (f : Frame) : RecvsOwn f ↔ PictureLengthFits f := by
  constructor
  · rintro ⟨out, own, recvs⟩ takes may
    have fits := takes.wellFormed.body_fits
    have ofType : ∀ type : UInt32, type = 1 ∨ type = 2 → f.body.take 4 <+: leBytes 4 type.toNat →
        LengthFits AvFrame.size f.body := by
      intro type isType front
      obtain ⟨ok, c', ran, file⟩ := recvs { fresh f.bytes with lpData := holding type f.body fits } [] []
        (List.append_nil _).symm
      rw [recvData_video [] [] (List.append_nil _).symm takes.wellFormed takes.video takes.filled] at ran
      obtain ⟨c'', stored, same⟩ := Option.map_eq_some_iff.mp ran
      cases same
      exact lengthFits_of_holding fits isType front own rfl stored file
    rcases may with one | two
    · exact ofType 1 (.inl rfl) one
    · exact ofType 2 (.inr rfl) two
  · intro fits
    by_cases taken : TakesVideo f ∧ MayCopy f.body
    · obtain ⟨takes, may⟩ := taken
      have inner := fits takes may
      refine ⟨innerBytes AvFrame.size f.body, innerBytes_prefix _ _, fun c cuts rest arrives => ?_⟩
      rw [recvData_video rest cuts arrives takes.wellFormed takes.video takes.filled,
        storeVideo_own rfl may inner]
      exact ⟨_, _, rfl, rfl⟩
    · refine ⟨[], List.nil_prefix, fun c cuts rest arrives => ?_⟩
      rw [List.append_nil]
      by_cases takes : TakesVideo f
      · rw [recvData_video rest cuts arrives takes.wellFormed takes.video takes.filled,
          storeVideo_other]
        · exact ⟨_, _, rfl, rfl⟩
        · refine fun copied => taken ⟨takes, mayCopy_of_wordAt ?_ copied⟩
          have sized := (c.lpData.store f.body takes.wellFormed.body_fits).sized
          have size : workBufferLen = 1049600 := rfl
          show 4 ≤ (c.lpData.store f.body takes.wellFormed.body_fits).bytes.length
          omega
      · exact recvData_quiet takes cuts arrives

end

/-- Calls of `RecvData`, each with the frame that its input starts with and its cuts. -/
def Takes : NetDataClient → List (Frame × List Nat) → NetDataClient → Prop
  | c, [], c' => c' = c
  | c, (f, cuts) :: frames, c' =>
    ∃ rest ok next, c.inp = f.bytes ++ rest ∧ c.recvData cuts = some (ok, next) ∧ Takes next frames c'

/-- **Two runs over the same frames add the same bytes**, whatever was in their buffers, if every length
fits. -/
theorem takes_adds {frames : List (Frame × List Nat)}
    (fits : ∀ f ∈ frames.map Prod.fst, PictureLengthFits f) :
    ∃ out, ∀ c c', Takes c frames c' → c'.mwFile = c.mwFile ++ out := by
  induction frames with
  | nil =>
    refine ⟨[], fun c c' same => ?_⟩
    rw [show c' = c from same, List.append_nil]
  | cons first frames ih =>
    obtain ⟨f, cuts⟩ := first
    obtain ⟨out, -, adds⟩ := (recvsOwn_iff f).mpr (fits f List.mem_cons_self)
    obtain ⟨later, addsLater⟩ := ih fun g member => fits g (List.mem_cons_of_mem _ member)
    refine ⟨out ++ later, ?_⟩
    rintro c c' ⟨rest, ok, next, arrives, ran, takes⟩
    obtain ⟨ok', next', ran', file⟩ := adds c cuts rest arrives
    rw [ran] at ran'
    cases ran'
    rw [addsLater _ _ takes, file, List.append_assoc]

/-! ## `CNetDataClient::ConnectServer` -/

/-- What `ConnectServer` makes of `*lpInfo` from its receiving on, with its request in `lpData`;
`none`, the copy does not fit. -/
def copyReply (cuts : List Nat) (lpData : LoginBuffer) (lpInfo : SFileInfo) (c : NetDataClient) :
    Option SFileInfo :=
  match (c.recvReply cuts lpData).1 with
  | none => some lpInfo
  | some lpData => copyInto lpData lpInfo

/-- The request, as `sprintf` leaves it in `lpData`. -/
def requestText (m_opt : Int) (m_szFile : List Byte) : List Byte := loginRequest m_opt m_szFile ++ [0]

/-- What the frame puts into `*lpInfo` is the front of what stands behind its `LOGIN_RET`, whatever was
in `lpData` before the request. -/
def CopiesOwn (m_opt : Int) (m_szFile : List Byte) (f : Frame) : Prop :=
  ∃ out, out <+: f.body.drop 8 ∧
    ∀ (stack : LoginBuffer) (fits : (requestText m_opt m_szFile).length ≤ loginBufferLen)
      (lpInfo : SFileInfo) (c : NetDataClient) (cuts : List Nat) (rest : List Byte),
      c.inp = f.bytes ++ rest →
        ∃ lpInfo', c.copyReply cuts (stack.store (requestText m_opt m_szFile) fits) lpInfo = some lpInfo' ∧
          lpInfo'.bytes = poke lpInfo.bytes 0 out

/-- `ConnectServer` accepts the reply. -/
structure Accepts (f : Frame) : Prop where
  flag : f.cmd.dwFlag = netFlag
  login : f.cmd.dwCmd = ModuleMsg.loginRet.code
  fits : f.body.length ≤ loginBufferLen
  long : 4 ≤ f.body.length
  noError : wordAt f.body 0 = 0

/-- A reply that is accepted has a length that fits, also into the `SFILE_INFO`. -/
def ReplyLengthFits (m_opt : Int) (m_szFile : List Byte) (f : Frame) : Prop :=
  (requestText m_opt m_szFile).length ≤ loginBufferLen → Accepts f →
    LengthFits 8 f.body ∧ innerLength f.body ≤ FileInfo.size

section
variable {f : Frame} {c : NetDataClient} {rest : List Byte} {m_opt : Int} {m_szFile : List Byte}

/-- When `ConnectServer` comes back, `*lpInfo` is what `copyReply` makes of it, or has not been
touched. -/
theorem connectServer_info {a : Attempt} {lpInfo lpInfo' : SFileInfo} {ok : Bool} {c' : NetDataClient}
    (returns : c.connectServer a m_opt m_szFile (some lpInfo) = some (ok, some lpInfo', c')) :
    lpInfo' = lpInfo ∨ ∃ (fits : (requestText m_opt m_szFile).length ≤ loginBufferLen)
      (received : NetDataClient),
        received.copyReply a.cuts (a.stack.store (requestText m_opt m_szFile) fits) lpInfo =
          some lpInfo' := by
  unfold connectServer at returns
  dsimp only at returns
  split at returns
  case isTrue =>
    split at returns
    case isTrue fits =>
      split at returns
      case isTrue =>
        split at returns
        next reply =>
          cases returns
          exact .inl rfl
        next lpData _ reply =>
          refine .inr ⟨fits,
            ((c.connect a).2.sendCmd a.accepts .login 0 (loginRequest m_opt m_szFile)).2, ?_⟩
          obtain ⟨copied, taken, returns⟩ := Option.bind_eq_some_iff.mp returns
          obtain ⟨written, wrote, returns⟩ := Option.bind_eq_some_iff.mp returns
          cases returns
          obtain ⟨filled, stored, same⟩ := Option.map_eq_some_iff.mp taken
          cases same
          rw [copyReply]
          unfold requestText
          rw [reply]
          exact stored
      case isFalse =>
        cases returns
        exact .inl rfl
    case isFalse => cases returns
  case isFalse =>
    cases returns
    exact .inl rfl

/-- The fourth and the eighth byte of a request are letters. -/
theorem requestText_letters (m_opt : Int) (m_szFile : List Byte) :
    ∃ a b : Byte, 0x61 ≤ a.toNat ∧ 0x61 ≤ b.toNat ∧
      (requestText m_opt m_szFile)[3]? = some a ∧ (requestText m_opt m_szFile)[7]? = some b := by
  unfold requestText loginRequest
  split
  · exact ⟨0x61, 0x61, by decide, by decide, rfl, rfl⟩
  · exact ⟨0x74, 0x74, by decide, by decide, rfl, rfl⟩

/-- What a byte of the request is, if the reply does not cover it. -/
theorem getElem?_store (stack : LoginBuffer) {text : List Byte} {i : Nat} {b : Byte}
    (fits : text.length ≤ loginBufferLen) (short : f.body.length ≤ i) (stands : text[i]? = some b) :
    (f.body ++ (stack.store text fits).bytes.drop f.body.length)[i]? = some b := by
  obtain ⟨inside, -⟩ := List.getElem?_eq_some_iff.mp stands
  rw [List.getElem?_append_right short, List.getElem?_drop, Nat.add_sub_cancel' short]
  show (poke stack.bytes 0 text)[i]? = some b
  rw [poke_zero, List.getElem?_append_left inside, stands]

/-- A header with another flag or a payload that is too long fails. -/
theorem recvCmd_rejected (cuts : List Nat) {nLength : Nat} (arrives : c.inp = f.bytes ++ rest)
    (rejected : ¬ (f.cmd.dwFlag = netFlag ∧ f.body.length ≤ nLength)) :
    (c.recvCmd cuts nLength).1 = none := by
  obtain ⟨cuts', head⟩ := recvHead_bytes rest f cuts
  rw [recvCmd, arrives, head]
  by_cases flag : f.cmd.dwFlag = netFlag
  · have long : nLength < f.cmd.dwLength.toNat := by
      rw [← f.body_len]
      exact Nat.lt_of_not_le fun fits => rejected ⟨flag, fits⟩
    have some' : f.cmd.dwLength ≠ 0 := by
      rintro zero
      rw [zero] at long
      exact Nat.not_lt_zero _ long
    simp only [if_pos flag, if_neg some', if_pos long]
  · simp only [if_neg flag]

theorem copyReply_accepted (cuts : List Nat) (lpData : LoginBuffer) (lpInfo : SFileInfo)
    (arrives : c.inp = f.bytes ++ rest) (accepts : Accepts f) :
    c.copyReply cuts lpData lpInfo = copyInto (lpData.store f.body accepts.fits) lpInfo := by
  have noError : wordAt (lpData.store f.body accepts.fits).bytes 0 = 0 := by
    rw [store_bytes, wordAt_append_left accepts.long, accepts.noError]
  rw [copyReply, recvReply_frame cuts lpData arrives accepts.flag accepts.fits,
    if_pos ⟨accepts.login, noError⟩]

theorem copyReply_rejected (cuts : List Nat) (stack : LoginBuffer)
    (fits : (requestText m_opt m_szFile).length ≤ loginBufferLen) (lpInfo : SFileInfo)
    (arrives : c.inp = f.bytes ++ rest) (rejects : ¬ Accepts f) :
    c.copyReply cuts (stack.store (requestText m_opt m_szFile) fits) lpInfo = some lpInfo := by
  rw [copyReply]
  by_cases taken : f.cmd.dwFlag = netFlag ∧ f.body.length ≤ loginBufferLen
  · rw [recvReply_frame cuts _ arrives taken.1 taken.2, if_neg]
    rw [store_bytes]
    rintro ⟨login, noError⟩
    by_cases long : 4 ≤ f.body.length
    · rw [wordAt_append_left long] at noError
      exact rejects ⟨taken.1, login, taken.2, long, noError⟩
    · obtain ⟨a, -, letter, -, stands, -⟩ := requestText_letters m_opt m_szFile
      have short : f.body.length ≤ 0 + 3 := by omega
      have large := le_wordAt (getElem?_store stack fits short stands)
      rw [noError] at large
      have zero : (0 : UInt32).toNat = 0 := rfl
      omega
  · have failed := recvCmd_rejected cuts arrives taken
    rw [recvReply]
    generalize c.recvCmd cuts loginBufferLen = received at failed ⊢
    obtain ⟨reply, c'⟩ := received
    obtain rfl : reply = none := failed
    rfl

/-- A length that a letter is the most significant byte of does not fit. -/
theorem not_fits_of_large {v : UInt32} (large : 0x61 * 2 ^ 24 ≤ v.toNat) :
    ¬ (0 ≤ asInt v ∧ asInt v ≤ FileInfo.size) := by
  have size : FileInfo.size = 328 := rfl
  have bound := v.toNat_lt
  rw [asInt]
  split
  · omega
  · omega

/-- `memcpy` copied what it could. -/
theorem copyInto_some {lpData : LoginBuffer} {lpInfo lpInfo' : SFileInfo}
    (copied : copyInto lpData lpInfo = some lpInfo') :
    (0 ≤ asInt (wordAt lpData.bytes 4) ∧ asInt (wordAt lpData.bytes 4) ≤ FileInfo.size) ∧
      lpInfo'.bytes =
        poke lpInfo.bytes 0 ((lpData.bytes.drop 8).take (asInt (wordAt lpData.bytes 4)).toNat) := by
  unfold copyInto at copied
  dsimp only at copied
  split at copied
  case isTrue fits =>
    obtain rfl := Option.some.inj copied
    exact ⟨fits, rfl⟩
  case isFalse => cases copied

theorem copyInto_fits {lpData : LoginBuffer} (lpInfo : SFileInfo)
    (fits : 0 ≤ asInt (wordAt lpData.bytes 4) ∧ asInt (wordAt lpData.bytes 4) ≤ FileInfo.size) :
    ∃ lpInfo', copyInto lpData lpInfo = some lpInfo' := by
  unfold copyInto
  dsimp only
  rw [dif_pos fits]
  exact ⟨_, rfl⟩

/-- An `SFILE_INFO` that holds one byte everywhere. -/
def uniform (b : Byte) : SFileInfo := ⟨List.replicate FileInfo.size b, List.length_replicate⟩

/-- A reply whose length field is not all its own leaves a letter of the request in it. -/
theorem long_of_copied {stack : LoginBuffer} {lpInfo lpInfo' : SFileInfo}
    (fits : (requestText m_opt m_szFile).length ≤ loginBufferLen) (short : f.body.length ≤ loginBufferLen)
    (copied : copyInto ((stack.store (requestText m_opt m_szFile) fits).store f.body short) lpInfo = some lpInfo') :
    8 ≤ f.body.length := by
  obtain ⟨-, b, -, letter, -, stands⟩ := requestText_letters m_opt m_szFile
  refine Nat.le_of_not_lt fun less => ?_
  have short' : f.body.length ≤ 4 + 3 := by omega
  have large := le_wordAt (getElem?_store stack fits short' stands)
  have inside := (copyInto_some copied).1
  rw [store_bytes] at inside
  exact not_fits_of_large (Nat.le_trans (Nat.mul_le_mul_right _ letter) large) inside

/-- A reply whose copy is its own has a length that fits. -/
theorem fits_of_copiesOwn (copiesOwn : CopiesOwn m_opt m_szFile f) : ReplyLengthFits m_opt m_szFile f := by
  obtain ⟨out, own, copies⟩ := copiesOwn
  intro fits accepts
  let stack : LoginBuffer := ⟨List.replicate loginBufferLen 0, length_zeroLogin⟩
  let lpData := (stack.store (requestText m_opt m_szFile) fits).store f.body accepts.fits
  have holds : lpData.bytes =
      f.body ++ (stack.store (requestText m_opt m_szFile) fits).bytes.drop f.body.length :=
    store_bytes _ _
  have copied : ∀ b, ∃ lpInfo', copyInto lpData (uniform b) = some lpInfo' ∧
      lpInfo'.bytes = poke (List.replicate FileInfo.size b) 0 out := by
    intro b
    obtain ⟨lpInfo', filled, same⟩ := copies stack fits (uniform b) (fresh f.bytes) [] []
      (List.append_nil _).symm
    rw [copyReply_accepted [] _ _ (List.append_nil _).symm accepts] at filled
    exact ⟨lpInfo', filled, same⟩
  obtain ⟨_, first, -⟩ := copied 0
  have inside := (copyInto_some first).1
  have long := long_of_copied fits accepts.fits first
  have size : FileInfo.size = 328 := rfl
  have sized := lpData.sized
  have room : loginBufferLen = 2048 := rfl
  have length : ((lpData.bytes.drop 8).take (asInt (wordAt lpData.bytes 4)).toNat).length =
      (asInt (wordAt lpData.bytes 4)).toNat := by
    rw [List.length_take, List.length_drop, sized]
    omega
  -- the same bytes whatever was there before: as many as the length says
  have same : ∀ b, poke (List.replicate FileInfo.size b) 0
      ((lpData.bytes.drop 8).take (asInt (wordAt lpData.bytes 4)).toNat) =
        poke (List.replicate FileInfo.size b) 0 out := by
    intro b
    obtain ⟨lpInfo', filled, same⟩ := copied b
    rw [← same, (copyInto_some filled).2]
    rfl
  have covered := length_le_of_poke (show (0 : Byte) ≠ 1 by decide) (by omega) same
  have short := length_le_of_own own
  rw [length] at covered
  rw [holds, wordAt_append_left long, ← innerLength] at inside covered
  exact ⟨⟨long, inside.1, by omega⟩, inside.2⟩

/-- **When a reply fills in its own bytes.** -/
theorem copiesOwn_iff (m_opt : Int) (m_szFile : List Byte) (f : Frame) :
    CopiesOwn m_opt m_szFile f ↔ ReplyLengthFits m_opt m_szFile f := by
  constructor
  · exact fits_of_copiesOwn
  · intro fits
    by_cases chosen : (requestText m_opt m_szFile).length ≤ loginBufferLen ∧ Accepts f
    · obtain ⟨inner, room⟩ := fits chosen.1 chosen.2
      refine ⟨innerBytes 8 f.body, innerBytes_prefix _ _, ?_⟩
      intro stack request lpInfo c cuts rest arrives
      rw [copyReply_accepted cuts _ lpInfo arrives chosen.2]
      have word : wordAt ((stack.store (requestText m_opt m_szFile) request).store f.body
          chosen.2.fits).bytes 4 = wordAt f.body 4 := by
        rw [store_bytes, inner.word]
      obtain ⟨lpInfo', copied⟩ := copyInto_fits lpInfo (by
        rw [word]
        exact ⟨inner.nonneg, room⟩)
      refine ⟨lpInfo', copied, ?_⟩
      rw [(copyInto_some copied).2, word, store_bytes, ← innerLength, inner.copied]
    · refine ⟨[], List.nil_prefix, ?_⟩
      intro stack request lpInfo c cuts rest arrives
      refine ⟨lpInfo, copyReply_rejected cuts stack request lpInfo arrives ?_, (poke_nil _ _).symm⟩
      exact fun accepts => chosen ⟨request, accepts⟩

end

end NetDataClient

/-- **When the bytes behind an inner length are the frame's own**: at each of the three receivers just
when the length is in the payload and does not reach beyond it. -/
theorem inner_lengths_iff (m_opt : Int) (m_szFile : List Byte) (f : Frame) :
    (TaskFileRecv.StoresOwn f ↔ TaskFileRecv.ChunkLengthFits f) ∧
      (NetDataClient.RecvsOwn f ↔ NetDataClient.PictureLengthFits f) ∧
      (NetDataClient.CopiesOwn m_opt m_szFile f ↔ NetDataClient.ReplyLengthFits m_opt m_szFile f) :=
  ⟨TaskFileRecv.storesOwn_iff f, NetDataClient.recvsOwn_iff f,
    NetDataClient.copiesOwn_iff m_opt m_szFile f⟩

/-- A chunk without a byte that announces one. -/
def shortChunk : Frame :=
  ⟨⟨netFlag, ModuleMsg.video.code, 0, 8⟩, leBytes 4 1 ++ leBytes 4 1, rfl⟩

/-- A picture without a byte that announces one. -/
def shortPicture : Frame :=
  ⟨⟨netFlag, ModuleMsg.video.code, 0, 16⟩, (⟨1, 1, 0, 0⟩ : AvFrame).bytes, rfl⟩

/-- A login reply without a byte of the `SFILE_INFO` that announces one. -/
def shortReply : Frame :=
  ⟨⟨netFlag, ModuleMsg.loginRet.code, 0, 8⟩, leBytes 4 0 ++ leBytes 4 1, rfl⟩

/-- **What was in the buffer is taken for the frame's own** at each of the three receivers. -/
theorem inner_lengths_beyond : ¬ TaskFileRecv.StoresOwn shortChunk ∧
    ¬ NetDataClient.RecvsOwn shortPicture ∧
    ¬ NetDataClient.CopiesOwn 0 (ascii "a.mp4") shortReply := by
  refine ⟨fun own => ?_, fun own => ?_, fun own => ?_⟩
  · have fits := ((TaskFileRecv.storesOwn_iff _).mp own).chunk rfl (by decide)
    exact absurd fits (by decide)
  · have fits := (NetDataClient.recvsOwn_iff _).mp own ⟨rfl, rfl, by decide, by decide⟩
      (.inl (by decide))
    exact absurd fits (by decide)
  · have fits := (NetDataClient.copiesOwn_iff _ _ _).mp own (by decide)
      ⟨rfl, rfl, by decide, by decide, by decide⟩
    exact absurd fits.1 (by decide)

end GreatEvent
