import DistributedChat.Chat.Protocol
import DistributedChat.Lib.Framing

/-!
# Frames of a chat session

The reading half of `servers/chat/network/CSession.cpp`, down to the single reads of the socket,
and the frames it sends (`MsgNode.cpp`). A session reads a header of four bytes into its receive
buffer, checks it, reads the body into the same buffer and posts the frame to the logic system; each
of these reads asks the socket again as long as bytes are missing. How many bytes a read returns is
up to the socket.

1. Constants and predicates of `const.h`; `SendNode`.
2. The session: `asyncReadFull` and `asyncReadLen`, the handlers of a head and of a body.
3. `CSession.Reads`: a stream arrives in reads of any size between one byte and what was asked for.
4. `Stands`: a session stands where the scan of the bytes it read stands; one read keeps this
   (`stands_onRead`), hence every run does (`stands_reads`).
-/

namespace DistributedChat.Chat

open Lib List

/-! ## Message ids on the wire -/

/-- The values of `Msg_ID`. -/
def MsgId.code : MsgId → ℕ
  | .chatLogin => 1005
  | .chatLoginRsp => 1006
  | .searchUserReq => 1007
  | .searchUserRsp => 1008
  | .addFriendReq => 1009
  | .addFriendRsp => 1010
  | .notifyAddFriendReq => 1011
  | .authFriendReq => 1013
  | .authFriendRsp => 1014
  | .notifyAuthFriendReq => 1015
  | .textChatMsgReq => 1017
  | .textChatMsgRsp => 1018
  | .notifyTextChatMsgReq => 1019
  | .textChatMsgAck => 1020
  | .notifyOffLineReq => 1021
  | .heartBeatReq => 1023
  | .heartbeatRsp => 1024
  | .uploadFileReq => 1025
  | .uploadFileRsp => 1026
  | .uploadFileChunkReq => 1027
  | .uploadFileChunkRsp => 1028
  | .uploadFileFinishReq => 1029
  | .uploadFileFinishRsp => 1030
  | .notifyFileReq => 1031
  | .downloadFileReq => 1032
  | .downloadFileChunk => 1033
  | .downloadFileDone => 1034
  | .fileTransferCancel => 1035
  | .resourceTokenReq => 1036
  | .resourceTokenRsp => 1037
  | .resourceRevokeReq => 1038
  | .avatarChanged => 1039

theorem MsgId.code_lt (id : MsgId) : id.code < 2 ^ 16 := by
  cases id <;> decide

def isFileTransferMessage (id : ℕ) : Bool :=
  decide (MsgId.uploadFileReq.code ≤ id) && decide (id ≤ MsgId.fileTransferCancel.code)

/-- The cases of `IsClientRequestMessage`. -/
def clientRequests : List MsgId :=
  [.chatLogin, .searchUserReq, .addFriendReq, .authFriendReq, .textChatMsgReq, .textChatMsgAck,
    .heartBeatReq, .resourceTokenReq, .resourceRevokeReq, .uploadFileReq, .uploadFileChunkReq,
    .uploadFileFinishReq, .downloadFileReq, .downloadFileDone, .fileTransferCancel]

def isClientRequestMessage (id : ℕ) : Bool := clientRequests.any fun m => m.code = id

theorem lt_of_isClientRequestMessage {id : ℕ} (h : isClientRequestMessage id = true) :
    id < 2 ^ 16 := by
  obtain ⟨m, -, hm⟩ := any_eq_true.mp h
  exact of_decide_eq_true hm ▸ m.code_lt

def MAX_LENGTH : ℕ := 1024 * 2

def MAX_FILE_FRAME_LENGTH : ℕ := 60 * 1024

def HEAD_TOTAL_LEN : ℕ := 4

def LOGIC_WORKER_COUNT : ℕ := 4

/-- `sizeof(_data)`. -/
def sizeofData : ℕ := MAX_FILE_FRAME_LENGTH

/-- `SendNode`: the bytes that are sent for a message. The length is narrowed to 16 bits. -/
def sendNode (msg : Bytes) (msg_id : ℕ) : Bytes :=
  be16 msg_id ++ be16 (msg.length % 2 ^ 16) ++ msg

theorem sendNode_eq {msg : Bytes} (h : msg.length < 2 ^ 16) (msg_id : ℕ) :
    sendNode msg msg_id = (Packet.mk msg_id msg).encode := by
  rw [sendNode, Nat.mod_eq_of_lt h]
  rfl

/-! ## Request budgets -/

/-- `TokenBucket`, over the rationals; times are in seconds. -/
structure TokenBucket where
  capacity : ℚ
  rate : ℚ
  tokens : ℚ
  last : ℚ

def TokenBucket.consume (bucket : TokenBucket) (amount now : ℚ) : TokenBucket × Bool :=
  let bucket :=
    if bucket.last < now then
      { bucket with
        tokens := min bucket.capacity (bucket.tokens + (now - bucket.last) * bucket.rate)
        last := now }
    else bucket
  if ¬ 0 ≤ amount ∨ bucket.tokens < amount then (bucket, false)
  else ({ bucket with tokens := bucket.tokens - amount }, true)

/-! ## The session -/

inductive CloseReason
  | readFailed
  | lengthMismatch
  | invalidSession
  | invalidMessageId
  | invalidMessageLength
  | rateLimited
  | unauthenticated
  | noFileWorker
  | queueFull
  deriving DecidableEq, Repr

/-- `RecvNode`: the data has the length of the message. -/
structure RecvNode where
  msg_id : ℕ
  data : Bytes

/-- The handler that a read is made for. -/
inductive Handler
  | head
  | body (total_len : ℕ)
  deriving DecidableEq, Repr

/-- A read of the socket that has not returned: it may fill the receive buffer from `read_len` up to
`total_len`. -/
structure PendingRead where
  read_len : ℕ
  total_len : ℕ
  handler : Handler
  deriving DecidableEq, Repr

/-- What reading uses of a `CSession`: `valid` is what `CheckValid` says of it, `hash` the hash of
its id, `posted` what it posted to the logic system. -/
structure CSession where
  data : Bytes
  user_uid : Uid
  hash : ℕ
  valid : Bool
  chat_requests : TokenBucket
  file_requests : TokenBucket
  file_bytes : TokenBucket
  recv_msg_node : RecvNode
  reading : Option PendingRead
  closed : Option CloseReason
  posted : List Packet

/-- What a handler finds when it runs: the clock, and whether the logic queue accepts a post. -/
structure Turn where
  now : ℚ
  accepts : Bool

namespace CSession

/-- `Close`: the first call takes the session out of the table of the server. -/
def close (s : CSession) (why : CloseReason) : CSession :=
  if s.closed.isSome then s else { s with closed := some why, valid := false }

/-- `asyncReadFull`; the handlers close the session on an error. -/
def asyncReadFull (s : CSession) (maxLength : ℕ) (handler : Handler) : CSession :=
  if maxLength = 0 ∨ sizeofData < maxLength then s.close .readFailed
  else { s with reading := some ⟨0, maxLength, handler⟩ }

def asyncReadHead (s : CSession) : CSession := s.asyncReadFull HEAD_TOTAL_LEN .head

def asyncReadBody (s : CSession) (total_len : ℕ) : CSession :=
  s.asyncReadFull total_len (.body total_len)

/-- The longest body of a frame, by its id. -/
def frameLimit (msg_id : ℕ) : ℕ :=
  if isFileTransferMessage msg_id then MAX_FILE_FRAME_LENGTH else MAX_LENGTH

/-- The budget of a frame is used up by it; a file frame needs two. -/
def consume (s : CSession) (now : ℚ) (msg_id msg_len : ℕ) : CSession × Bool :=
  if isFileTransferMessage msg_id then
    let requests := s.file_requests.consume 1 now
    let s := { s with file_requests := requests.1 }
    if requests.2 then
      let bytes := s.file_bytes.consume (msg_len + HEAD_TOTAL_LEN) now
      ({ s with file_bytes := bytes.1 }, bytes.2)
    else (s, false)
  else
    let requests := s.chat_requests.consume 1 now
    ({ s with chat_requests := requests.1 }, requests.2)

def onHead (t : Turn) (s : CSession) (bytes_transfered : ℕ) : CSession :=
  if bytes_transfered < HEAD_TOTAL_LEN then s.close .lengthMismatch
  else if s.valid = false then s.close .invalidSession
  else
    let head := fun i => ((s.data.take bytes_transfered).getD i 0).toNat
    let msg_id := head 0 <<< 8 + head 1
    let msg_len := head 2 <<< 8 + head 3
    if isClientRequestMessage msg_id = false then s.close .invalidMessageId
    else if msg_len = 0 ∨ frameLimit msg_id < msg_len then s.close .invalidMessageLength
    else
      let r := s.consume t.now msg_id msg_len
      if r.2 = false then r.1.close .rateLimited
      else
        asyncReadBody { r.1 with recv_msg_node := ⟨msg_id, List.replicate msg_len 0⟩ } msg_len

/-- The number of workers in `_workers`: none is ever added. -/
def workers : ℕ := 0

/-- `PostMsgToFileQue`, as to whether there is a worker that takes the message. -/
def postMsgToFileQue (index : ℕ) : Bool := decide (index < workers)

theorem postMsgToFileQue_eq (index : ℕ) : postMsgToFileQue index = false :=
  decide_eq_false (Nat.not_lt_zero index)

def onBody (t : Turn) (s : CSession) (total_len bytes_transfered : ℕ) : CSession :=
  if bytes_transfered < total_len then s.close .lengthMismatch
  else if s.valid = false then s.close .invalidSession
  else
    let node := { s.recv_msg_node with
      data := overwrite s.recv_msg_node.data 0 (s.data.take bytes_transfered) }
    let s := { s with recv_msg_node := node }
    if node.msg_id ≠ MsgId.chatLogin.code ∧ s.user_uid ≤ 0 then s.close .unauthenticated
    else if isFileTransferMessage node.msg_id then
      if postMsgToFileQue (s.hash % LOGIC_WORKER_COUNT) = false then s.close .noFileWorker
      else s.asyncReadHead
    else if t.accepts = false then s.close .queueFull
    else asyncReadHead { s with posted := s.posted ++ [⟨node.msg_id, node.data⟩] }

/-- A read returns: the completion handler of `asyncReadLen`. -/
def onRead (t : Turn) (s : CSession) (q : PendingRead) (chunk : Bytes) : CSession :=
  let s := { s with data := overwrite s.data q.read_len chunk, reading := none }
  let read := q.read_len + chunk.length
  if q.total_len ≤ read then
    match q.handler with
    | .head => s.onHead t read
    | .body total_len => s.onBody t total_len read
  else { s with reading := some { q with read_len := read } }

/-- A session reads from the bytes that were sent to it: each read returns at least one byte and at
most what it asked for. -/
inductive Reads (s : CSession) (stream : Bytes) : CSession → Bytes → Prop
  | start : Reads s stream s stream
  | read {s' : CSession} {q : PendingRead} {chunk rest : Bytes} (t : Turn)
      (before : Reads s stream s' (chunk ++ rest)) (pending : s'.reading = some q)
      (some_byte : 1 ≤ chunk.length) (room : chunk.length ≤ q.total_len - q.read_len) :
      Reads s stream (s'.onRead t q chunk) rest

/-! ## Where a session stands -/

/-- What the handlers of a session check of a frame. -/
def receiver : Receiver where
  admits id len := isClientRequestMessage id && decide (0 < len) && decide (len ≤ frameLimit id)
  serves id := !isFileTransferMessage id

theorem frameLimit_le (id : ℕ) : frameLimit id ≤ sizeofData := by
  unfold frameLimit
  split <;> decide

variable {len : ℕ}

theorem receiver_admits_iff {id : ℕ} : receiver.admits id len = true ↔
    isClientRequestMessage id = true ∧ 0 < len ∧ len ≤ frameLimit id := by
  simp only [receiver, Bool.and_eq_true, decide_eq_true_eq, and_assoc]

/-- A session that reads on. -/
structure Open (s : CSession) : Prop where
  closed : s.closed = none
  valid : s.valid = true
  authenticated : 0 < s.user_uid
  buffer : s.data.length = sizeofData

/-- A session waits with the bytes of an unfinished frame: in its buffer it has the first of them,
or those behind a header it has checked. -/
inductive Waits (s : CSession) : Bytes → Prop
  | head (n : ℕ) (more : n < HEAD_TOTAL_LEN)
      (reading : s.reading = some ⟨n, HEAD_TOTAL_LEN, .head⟩) : Waits s (s.data.take n)
  | body (id len n : ℕ) (more : n < len) (reading : s.reading = some ⟨n, len, .body len⟩)
      (admitted : receiver.admits id len = true)
      (node : s.recv_msg_node = ⟨id, List.replicate len 0⟩) :
      Waits s (header id len ++ s.data.take n)

/-- A session has posted what a scan took behind what it had posted before, and waits or is closed
as the scan ends. -/
def Stands (s : CSession) (before : List Packet) (r : List Packet × Tail) : Prop :=
  s.posted = before ++ r.1 ∧ match r.2 with
    | .waiting b => s.Open ∧ s.Waits b
    | .refused => s.closed.isSome = true ∧ s.reading = none

/-- A session was closed because its budget was exhausted or the logic queue was full. -/
structure Denied (s : CSession) : Prop where
  why : s.closed = some .rateLimited ∨ s.closed = some .queueFull
  reading : s.reading = none

variable {s : CSession}

theorem close_of_open (h : s.Open) (why : CloseReason) :
    s.close why = { s with closed := some why, valid := false } := by
  rw [close, h.closed]
  rfl

theorem denied_close (h : s.Open) (hr : s.reading = none) {why : CloseReason}
    (hwhy : why = .rateLimited ∨ why = .queueFull) : (s.close why).Denied := by
  rw [close_of_open h]
  exact ⟨hwhy.imp (congrArg some) (congrArg some), hr⟩

theorem stands_close (h : s.Open) (hr : s.reading = none) (why : CloseReason) :
    (s.close why).Stands s.posted ([], .refused) := by
  rw [close_of_open h]
  exact ⟨(append_nil _).symm, rfl, hr⟩

theorem asyncReadFull_eq (hpos : 0 < len) (hle : len ≤ sizeofData) (s : CSession)
    (handler : Handler) :
    s.asyncReadFull len handler = { s with reading := some ⟨0, len, handler⟩ } := by
  rw [asyncReadFull, if_neg]
  omega

theorem stands_asyncReadHead (h : s.Open) : s.asyncReadHead.Stands s.posted ([], .waiting []) := by
  rw [asyncReadHead, asyncReadFull_eq (by decide) (by decide)]
  refine ⟨(append_nil _).symm, { h with }, ?_⟩
  exact Waits.head 0 (by decide) rfl

theorem consume_eq (s : CSession) (now : ℚ) (id len : ℕ) :
    ∃ chat file bytes, (s.consume now id len).1 =
      { s with chat_requests := chat, file_requests := file, file_bytes := bytes } := by
  unfold consume
  split
  · dsimp only
    split <;> exact ⟨_, _, _, rfl⟩
  · exact ⟨_, _, _, rfl⟩

variable {b : Bytes}

theorem header_of_length (h : b.length = 4) :
    b = header ((b.getD 0 0).toNat <<< 8 + (b.getD 1 0).toNat)
      ((b.getD 2 0).toNat <<< 8 + (b.getD 3 0).toNat) := by
  match b with
  | [b₀, b₁, b₂, b₃] =>
    show _ = be16 (b₀.toNat <<< 8 + b₁.toNat) ++ be16 (b₂.toNat <<< 8 + b₃.toNat)
    rw [be16_word, be16_word]
    rfl

theorem stands_onHead (h : s.Open) (hr : s.reading = none) (t : Turn) :
    (s.onHead t HEAD_TOTAL_LEN).Denied ∨ (s.onHead t HEAD_TOTAL_LEN).Stands s.posted
        (receiver.scan (s.data.take HEAD_TOTAL_LEN)) := by
  have hlength : (s.data.take HEAD_TOTAL_LEN).length = 4 := by
    rw [length_take, h.buffer]
    rfl
  have hheader := header_of_length hlength
  unfold onHead
  rw [if_neg (lt_irrefl _), if_neg (by rw [h.valid]; decide)]
  dsimp only
  generalize hid : ((s.data.take HEAD_TOTAL_LEN).getD 0 0).toNat <<< 8 +
    ((s.data.take HEAD_TOTAL_LEN).getD 1 0).toNat = id at hheader ⊢
  generalize hlen : ((s.data.take HEAD_TOTAL_LEN).getD 2 0).toNat <<< 8 +
    ((s.data.take HEAD_TOTAL_LEN).getD 3 0).toNat = len at hheader ⊢
  have hidlt : id < 2 ^ 16 := hid ▸ word_lt _ _
  have hlenlt : len < 2 ^ 16 := hlen ▸ word_lt _ _
  rw [hheader]
  have hrefused : receiver.admits id len = false →
    receiver.scan (header id len) = ([], .refused) := by
    intro hno
    rw [← append_nil (header id len), Receiver.scan_refused hidlt hlenlt hno]
  by_cases hrequest : isClientRequestMessage id = true
  · rw [if_neg (by rw [hrequest]; decide)]
    by_cases hbad : len = 0 ∨ frameLimit id < len
    · rw [if_pos hbad, hrefused]
      · exact Or.inr (stands_close h hr _)
      · rw [Bool.eq_false_iff, ne_eq, receiver_admits_iff]
        omega
    · rw [if_neg hbad]
      have hadmits : receiver.admits id len = true :=
        receiver_admits_iff.mpr ⟨hrequest, by omega, by omega⟩
      obtain ⟨chat, file, bytes, hconsume⟩ := s.consume_eq t.now id len
      rw [hconsume]
      by_cases hbudget : (s.consume t.now id len).2 = false
      · rw [if_pos hbudget]
        refine Or.inl (denied_close ?_ ?_ (Or.inl rfl))
        · exact { h with }
        · exact hr
      · rw [if_neg hbudget]
        right
        have hsize := frameLimit_le id
        rw [asyncReadBody, asyncReadFull_eq (by omega) (by omega), ← append_nil (header id len),
          Receiver.scan_waiting hidlt hlenlt hadmits (show ([] : Bytes).length < len by
            rw [length_nil]; omega)]
        refine ⟨(append_nil _).symm, { h with }, ?_⟩
        exact Waits.body id len 0 (by omega) rfl hadmits rfl
  · rw [if_pos (by simpa using hrequest), hrefused]
    · exact Or.inr (stands_close h hr _)
    · rw [Bool.eq_false_iff, ne_eq, receiver_admits_iff]
      exact fun hyes => hrequest hyes.1

/-- The step of a body: the session posts the frame and waits for the next, or closes. -/
theorem stands_onBody (h : s.Open) (hr : s.reading = none) (t : Turn) {id : ℕ}
    (hadmits : receiver.admits id len = true)
    (hnode : s.recv_msg_node = ⟨id, List.replicate len 0⟩) :
    (s.onBody t len len).Denied ∨ (s.onBody t len len).Stands s.posted
        (receiver.scan (header id len ++ s.data.take len)) := by
  obtain ⟨hrequest, -, hlimit⟩ := receiver_admits_iff.mp hadmits
  have hsize := le_trans hlimit (frameLimit_le id)
  have hid := lt_of_isClientRequestMessage hrequest
  have hlen : len < 2 ^ 16 := lt_of_le_of_lt hsize (by decide)
  have hlength : (s.data.take len).length = len := by
    rw [length_take, h.buffer]
    omega
  have hdata : overwrite (List.replicate len 0) 0 (s.data.take len) = s.data.take len :=
    overwrite_all (by rw [length_replicate, hlength])
  unfold onBody
  rw [if_neg (lt_irrefl _), if_neg (by rw [h.valid]; decide), hnode]
  dsimp only
  rw [hdata, if_neg fun hno => absurd hno.2 (not_le.mpr h.authenticated)]
  by_cases hfile : isFileTransferMessage id = true
  · -- there is no worker for a file frame
    rw [if_pos hfile, if_pos (postMsgToFileQue_eq _),
      Receiver.scan_unserved hid hlen hadmits hlength.ge (by simp [receiver, hfile])]
    right
    exact stands_close (s := { s with recv_msg_node := ⟨id, s.data.take len⟩ })
      { h with } hr _
  · rw [if_neg hfile]
    by_cases hfull : t.accepts = false
    · rw [if_pos hfull]
      refine Or.inl (denied_close ?_ ?_ (Or.inr rfl))
      · exact { h with }
      · exact hr
    · rw [if_neg hfull, Receiver.scan_taken hid hlen hadmits hlength.ge (by simp [receiver, hfile]),
        take_of_length_le hlength.le, drop_of_length_le hlength.le,
        receiver.scan_short (by decide)]
      right
      have hopen : Open { s with
          recv_msg_node := ⟨id, s.data.take len⟩, posted := s.posted ++ [⟨id, s.data.take len⟩] } :=
        { h with }
      obtain ⟨hposted, hwaits⟩ := stands_asyncReadHead hopen
      exact ⟨hposted.trans (append_nil _), hwaits⟩

/-- A read that fits the buffer goes behind the bytes that are there. -/
theorem Open.overwrite (h : s.Open) (n : ℕ) (chunk : Bytes)
    (hfits : n + chunk.length ≤ sizeofData) :
    (overwrite s.data n chunk).take (n + chunk.length) = s.data.take n ++ chunk ∧
      Open { s with data := overwrite s.data n chunk, reading := none } := by
  rw [← h.buffer] at hfits
  exact ⟨take_overwrite (by omega), { h with buffer := (length_overwrite hfits).trans h.buffer }⟩

/-- The step of a read: a session that waits with `b` and gets `chunk` stands where a scan of both
stands. -/
theorem stands_onRead {chunk : Bytes} {q : PendingRead} (h : s.Open) (hw : s.Waits b)
    (hq : s.reading = some q)
    (hroom : chunk.length ≤ q.total_len - q.read_len) (t : Turn) : (s.onRead t q chunk).Denied ∨
      (s.onRead t q chunk).Stands s.posted (receiver.scan (b ++ chunk)) := by
  cases hw with
  | head n hmore hreading =>
    cases hq.symm.trans hreading
    have hhead : HEAD_TOTAL_LEN ≤ sizeofData := by decide
    obtain ⟨htake, hopen⟩ := h.overwrite n chunk (by dsimp only at hroom; omega)
    unfold onRead
    dsimp only at hroom ⊢
    by_cases hdone : HEAD_TOTAL_LEN ≤ n + chunk.length
    · have hall : n + chunk.length = HEAD_TOTAL_LEN := by omega
      rw [if_pos hdone, hall, ← htake, hall]
      exact stands_onHead hopen rfl t
    · rw [if_neg hdone, ← htake]
      have hshort : ((overwrite s.data n chunk).take (n + chunk.length)).length < 4 := by
        rw [length_take]
        unfold HEAD_TOTAL_LEN at hdone
        omega
      rw [receiver.scan_short hshort]
      right
      refine ⟨(append_nil _).symm, { hopen with }, ?_⟩
      exact Waits.head (n + chunk.length) (by omega) rfl
  | body id len n hmore hreading hadmits hnode =>
    cases hq.symm.trans hreading
    obtain ⟨hrequest, -, hlimit⟩ := receiver_admits_iff.mp hadmits
    have hsize := le_trans hlimit (frameLimit_le id)
    have hlen : len < 2 ^ 16 := lt_of_le_of_lt hsize (by decide)
    obtain ⟨htake, hopen⟩ := h.overwrite n chunk (by dsimp only at hroom; omega)
    unfold onRead
    dsimp only at hroom ⊢
    rw [append_assoc, ← htake]
    by_cases hdone : len ≤ n + chunk.length
    · have hall : n + chunk.length = len := by omega
      rw [if_pos hdone, hall]
      exact stands_onBody hopen rfl t hadmits hnode
    · rw [if_neg hdone, Receiver.scan_waiting (lt_of_isClientRequestMessage hrequest) hlen hadmits]
      · right
        refine ⟨(append_nil _).symm, { hopen with }, ?_⟩
        exact Waits.body id len (n + chunk.length) (by omega) rfl hadmits hnode
      · rw [length_take]
        omega

/-! ## Whole streams -/

/-- A session that has just begun to wait for a frame. -/
structure Ready (s : CSession) : Prop extends s.Open where
  reading : s.reading = some ⟨0, HEAD_TOTAL_LEN, .head⟩

/-- **A session stands where the scan of the bytes it read stands**, after any reads. -/
theorem stands_reads {s' : CSession} {stream rest : Bytes} (h : s.Ready)
    (run : s.Reads stream s' rest) :
    ∃ got, stream = got ++ rest ∧ (s'.Denied ∨ s'.Stands s.posted (receiver.scan got)) := by
  induction run with
  | start =>
    refine ⟨[], rfl, Or.inr ?_⟩
    rw [receiver.scan_short (by decide)]
    exact ⟨(append_nil _).symm, h.toOpen, .head 0 (by decide) h.reading⟩
  | @read s₁ q chunk rest t _ hq _ hroom ih =>
    obtain ⟨got, hstream, hstands⟩ := ih
    refine ⟨got ++ chunk, by rw [hstream, append_assoc], ?_⟩
    rcases hstands with hdenied | ⟨hposted, htail⟩
    · exact nomatch hdenied.reading.symm.trans hq
    · rw [receiver.scan_append]
      unfold Receiver.resume
      cases hscan : (receiver.scan got).2 with
      | refused =>
        rw [hscan] at htail
        exact nomatch htail.2.symm.trans hq
      | waiting b =>
        rw [hscan] at htail
        refine (stands_onRead htail.1 htail.2 hq hroom t).imp_right ?_
        rintro ⟨hposted', htail'⟩
        exact ⟨by rw [hposted', hposted, append_assoc], htail'⟩

theorem Waits.within (hw : s.Waits b) {q : PendingRead} (hq : s.reading = some q) :
    q.read_len < q.total_len ∧ q.total_len ≤ sizeofData := by
  cases hw with
  | head n hmore hreading =>
    cases hq.symm.trans hreading
    exact ⟨hmore, show HEAD_TOTAL_LEN ≤ sizeofData by decide⟩
  | body id len n hmore hreading hadmits hnode =>
    cases hq.symm.trans hreading
    exact ⟨hmore, le_trans (receiver_admits_iff.mp hadmits).2.2 (frameLimit_le id)⟩

/-- A frame the logic system gets: a request of a client that is no file frame, of 1 to 2048
bytes. -/
structure IsRequest (p : Packet) : Prop where
  request : isClientRequestMessage p.id = true
  not_file : isFileTransferMessage p.id = false
  pos : 1 ≤ p.body.length
  le : p.body.length ≤ 2048

theorem takes_iff {p : Packet} : receiver.Takes p ↔ IsRequest p := by
  constructor
  · rintro ⟨-, hadmits, hserves⟩
    obtain ⟨hrequest, hpos, hle⟩ := receiver_admits_iff.mp hadmits
    have hfile : isFileTransferMessage p.id = false := by simpa [receiver] using hserves
    refine ⟨hrequest, hfile, hpos, ?_⟩
    rwa [frameLimit, if_neg (by rw [hfile]; decide)] at hle
  · rintro ⟨hrequest, hfile, hpos, hle⟩
    refine ⟨⟨lt_of_isClientRequestMessage hrequest, by omega⟩,
      receiver_admits_iff.mpr ⟨hrequest, hpos, ?_⟩, by simp [receiver, hfile]⟩
    rwa [frameLimit, if_neg (by rw [hfile]; decide)]

theorem stands_all {s' : CSession} {stream rest : Bytes} (h : s.Ready)
    (run : s.Reads stream s' rest)
    (hend : rest = [] ∨ s'.reading = none) (hgrant : ¬ s'.Denied) :
    s'.Stands s.posted (receiver.scan stream) := by
  obtain ⟨got, rfl, hdenied | hstands⟩ := stands_reads h run
  · exact absurd hdenied hgrant
  · rcases hend with rfl | hnone
    · rwa [append_nil]
    · rw [receiver.scan_append]
      obtain ⟨hposted, htail⟩ := hstands
      unfold Receiver.resume
      cases hscan : (receiver.scan got).2 with
      | refused => exact ⟨hposted, htail⟩
      | waiting b =>
        rw [hscan] at htail
        cases htail.2 with
        | head n hmore hreading | body id len n hmore hreading hadmits hnode =>
          exact nomatch hnone.symm.trans hreading

end CSession

end DistributedChat.Chat
