import DistributedChat.Chat.Framing
import DistributedChat.Chat.SendQueue
import DistributedChat.Client.TcpMgr

/-!
# Frames of the chat client

The two ends of the wire in `client/network/TcpMgr.cpp`: the parser behind `readyRead`, and the
bytes of `writeFrame`.

1. `readyRead`: the bytes that have arrived are appended to a buffer, and the loop handles every
   frame that is complete. A header is taken out of the buffer as soon as it is there.
2. `loop_spec`: the loop makes of header and buffer what a scan makes of them; so do all reads
   (`receive_spec`), and the cuts of the stream do not matter.
3. `responses_received` for the frames of the server, `requests_posted` for those of the client.
-/

namespace DistributedChat.Client

open Lib Chat List

/-! ## The parser -/

/-- The keys of `_handlers`. -/
def handlers : List MsgId :=
  [.resourceTokenRsp, .avatarChanged, .chatLoginRsp, .searchUserRsp, .addFriendRsp,
    .notifyAddFriendReq, .notifyAuthFriendReq, .authFriendRsp, .textChatMsgRsp,
    .notifyTextChatMsgReq, .heartbeatRsp, .uploadFileRsp, .uploadFileChunkRsp, .uploadFileFinishRsp,
    .downloadFileChunk, .notifyFileReq]

/-- The handler of an id on the wire. -/
def handlerOf (id : ℕ) : Option MsgId := handlers.find? fun m => m.code = id

theorem code_of_handlerOf {id : ℕ} {m : MsgId} (h : handlerOf id = some m) : m.code = id := by
  have hfound := List.find?_some h
  simpa using hfound

structure Parser where
  buffer : Bytes
  b_recv_pending : Bool
  message_id : ℕ
  message_len : ℕ
  deriving DecidableEq, Repr

def Parser.reset : Parser := ⟨[], false, 0, 0⟩

/-- A call of `handleMsg`. -/
structure Call where
  id : ℕ
  len : ℕ
  data : Bytes
  deriving DecidableEq, Repr

/-- What the slot of `readyRead` did: the calls of `handleMsg`, and whether it aborted the socket.
-/
structure Outcome where
  parser : Parser
  calls : List Call
  aborted : Bool
  deriving DecidableEq, Repr

/-- The part of a round before the body: the header is pending, is not complete, or is rejected. -/
inductive Header
  | pending (p : Parser)
  | incomplete
  | rejected (p : Parser)

namespace Parser

def takeHeader (p : Parser) : Header :=
  if p.b_recv_pending then .pending p
  else
    match readHeader p.buffer with
    | none => .incomplete
    | some (id, len, rest) =>
      let p := { p with buffer := rest, message_id := id, message_len := len }
      match handlerOf id with
      | none => .rejected p
      | some responseId =>
        if len = 0 then .rejected p
        else if allowedLength responseId < len then .rejected p
        else .pending { p with b_recv_pending := true }

/-- The loop, for at most so many rounds. -/
def loop : ℕ → Parser → Option Outcome
  | 0, _ => none
  | rounds + 1, p =>
    match p.takeHeader with
    | .incomplete => some ⟨p, [], false⟩
    | .rejected p => some ⟨p, [], true⟩
    | .pending p =>
      if p.buffer.length < p.message_len then some ⟨p, [], false⟩
      else
        let messageData := p.buffer.take p.message_len
        let next := { p with buffer := p.buffer.drop p.message_len, b_recv_pending := false }
        (loop rounds next).map fun o =>
          { o with calls := ⟨p.message_id, p.message_len, messageData⟩ :: o.calls }

/-- The slot of `readyRead`. A round takes a header or a body out of the buffer, so that there are
no more rounds than bytes, but for a pending body and the last one. -/
def readyRead (p : Parser) (chunk : Bytes) : Option Outcome :=
  let p := { p with buffer := p.buffer ++ chunk }
  if 256 * 1024 < p.buffer.length then some ⟨p, [], true⟩
  else p.loop (p.buffer.length + 5)

/-- The reads of a connection, up to the one that aborts it. -/
def receive : Parser → List Bytes → Option Outcome
  | p, [] => some ⟨p, [], false⟩
  | p, chunk :: reads =>
    match p.readyRead chunk with
    | none => none
    | some o =>
      if o.aborted then some o
      else (receive o.parser reads).map fun o' => { o' with calls := o.calls ++ o'.calls }

/-- No read leaves more than 256 KiB in the buffer. -/
def withinBudget : Parser → List Bytes → Bool
  | _, [] => true
  | p, chunk :: reads =>
    decide ((p.buffer ++ chunk).length ≤ 256 * 1024) &&
      match p.readyRead chunk with
      | none => true
      | some o => o.aborted || withinBudget o.parser reads

/-! ## The parser and the scan -/

/-- What the client checks of a frame. -/
def receiver : Receiver where
  admits id len :=
    match handlerOf id with
    | none => false
    | some responseId => decide (0 < len) && decide (len ≤ allowedLength responseId)
  serves _ := true

def callOf (p : Packet) : Call := ⟨p.id, p.body.length, p.body⟩

/-- The bytes of unfinished frames in a parser: a pending header counts with its bytes. -/
inductive Holds (p : Parser) : Bytes → Prop
  | head (h : p.b_recv_pending = false) : Holds p p.buffer
  | body (h : p.b_recv_pending = true) (hid : p.message_id < 2 ^ 16) (hlen : p.message_len < 2 ^ 16)
      (admitted : receiver.admits p.message_id p.message_len = true) :
      Holds p (header p.message_id p.message_len ++ p.buffer)

variable {p : Parser} {b : Bytes}

theorem Holds.eq_nil (h : p.Holds b) (hb : b = []) : p.buffer = [] ∧ p.b_recv_pending = false := by
  cases h with
  | head hp => exact ⟨hb, hp⟩
  | body hp hid hlen hadmits => cases hb

/-- An outcome is what a scan says. -/
def Agrees (o : Outcome) (r : List Packet × Tail) : Prop :=
  o.calls = r.1.map callOf ∧ match r.2 with
    | .waiting b => o.aborted = false ∧ o.parser.Holds b
    | .refused => o.aborted = true

theorem receiver_admits {id : ℕ} {m : MsgId} (h : handlerOf id = some m) (len : ℕ) :
    receiver.admits id len = (decide (0 < len) && decide (len ≤ allowedLength m)) := by
  simp only [receiver, h]

theorem takeHeader_short (h : p.Holds b) (hb : b.length < 4) : p.takeHeader = .incomplete := by
  cases h with
  | head hp =>
    rw [takeHeader, hp, readHeader_eq_none_iff.mpr hb]
    rfl
  | body hp hid hlen hadmits =>
    rw [length_append, length_header] at hb
    omega

section Header

variable {p : Parser} {id len : ℕ} {rest : Bytes} (hid : id < 2 ^ 16) (hlen : len < 2 ^ 16)

include hid hlen

/-- A header that is admitted is pending after the first part of the round, whether it had been
taken in an earlier read or is taken now. -/
theorem takeHeader_admitted (h : p.Holds (header id len ++ rest))
    (hadmits : receiver.admits id len = true) : p.takeHeader = .pending ⟨rest, true, id, len⟩ := by
  generalize hb : header id len ++ rest = b at h
  have hread := readHeader_header hid hlen rest
  rw [hb] at hread
  cases h with
  | head hp =>
    cases hm : handlerOf id with
    | none => simp only [receiver, hm, Bool.false_eq_true] at hadmits
    | some m =>
      rw [receiver_admits hm, Bool.and_eq_true, decide_eq_true_eq, decide_eq_true_eq] at hadmits
      rw [takeHeader, hp, hread]
      simp only [Bool.false_eq_true, if_false, hm, if_neg (show ¬ len = 0 by omega),
        if_neg (show ¬ allowedLength m < len by omega)]
  | body hp hid' hlen' hadmits' =>
    rw [readHeader_header hid' hlen'] at hread
    simp only [Option.some.injEq, Prod.mk.injEq] at hread
    obtain ⟨rfl, rfl, rfl⟩ := hread
    rw [takeHeader, if_pos hp, ← hp]

theorem takeHeader_rejected (h : p.Holds (header id len ++ rest))
    (hadmits : receiver.admits id len = false) : ∃ p', p.takeHeader = .rejected p' := by
  generalize hb : header id len ++ rest = b at h
  have hread := readHeader_header hid hlen rest
  rw [hb] at hread
  cases h with
  | head hp =>
    rw [takeHeader, hp, hread]
    simp only [Bool.false_eq_true, if_false]
    cases hm : handlerOf id with
    | none => exact ⟨_, rfl⟩
    | some m =>
      rw [receiver_admits hm] at hadmits
      by_cases hzero : len = 0
      · exact ⟨_, if_pos hzero⟩
      · have hlarge : allowedLength m < len := by
          by_contra hle
          rw [decide_eq_true (Nat.pos_of_ne_zero hzero), decide_eq_true (Nat.not_lt.mp hle)]
            at hadmits
          cases hadmits
        dsimp only
        rw [if_neg hzero, if_pos hlarge]
        exact ⟨_, rfl⟩
  | body hp hid' hlen' hadmits' =>
    rw [readHeader_header hid' hlen'] at hread
    simp only [Option.some.injEq, Prod.mk.injEq] at hread
    obtain ⟨rfl, rfl, rfl⟩ := hread
    rw [hadmits] at hadmits'
    cases hadmits'

end Header

theorem loop_spec : ∀ {p : Parser} {rounds : ℕ}, p.Holds b → b.length < rounds →
    ∃ o, p.loop rounds = some o ∧ Agrees o (receiver.scan b) := by
  induction b using receiver.scan_induction with
  | short b hb =>
    intro p rounds h hrounds
    obtain ⟨rounds, rfl⟩ := Nat.exists_eq_succ_of_ne_zero (Nat.ne_zero_of_lt hrounds)
    rw [loop, takeHeader_short h hb, receiver.scan_short hb]
    exact ⟨_, rfl, rfl, rfl, h⟩
  | refused id len rest hid hlen hadmits =>
    intro p rounds h hrounds
    obtain ⟨rounds, rfl⟩ := Nat.exists_eq_succ_of_ne_zero (Nat.ne_zero_of_lt hrounds)
    obtain ⟨p', hp'⟩ := takeHeader_rejected hid hlen h hadmits
    rw [loop, hp', Receiver.scan_refused hid hlen hadmits]
    exact ⟨_, rfl, rfl, rfl⟩
  | waiting id len rest hid hlen hadmits hrest =>
    intro p rounds h hrounds
    obtain ⟨rounds, rfl⟩ := Nat.exists_eq_succ_of_ne_zero (Nat.ne_zero_of_lt hrounds)
    rw [loop, takeHeader_admitted hid hlen h hadmits, Receiver.scan_waiting hid hlen hadmits hrest]
    dsimp only
    rw [if_pos hrest]
    exact ⟨_, rfl, rfl, rfl, .body rfl hid hlen hadmits⟩
  | unserved id len rest hid hlen hadmits hrest hserves => cases hserves
  | taken id len rest hid hlen hadmits hrest hserves ih =>
    intro p rounds h hrounds
    obtain ⟨rounds, rfl⟩ := Nat.exists_eq_succ_of_ne_zero (Nat.ne_zero_of_lt hrounds)
    have hfewer : (rest.drop len).length < rounds := by
      rw [length_append, length_header] at hrounds
      rw [length_drop]
      omega
    have hnext : Holds ⟨rest.drop len, false, id, len⟩ (rest.drop len) := .head rfl
    obtain ⟨o, ho, hcalls, htail⟩ := ih hnext hfewer
    rw [loop, takeHeader_admitted hid hlen h hadmits,
      Receiver.scan_taken hid hlen hadmits hrest hserves]
    dsimp only
    rw [if_neg (Nat.not_lt.mpr hrest), ho]
    refine ⟨_, rfl, ?_, htail⟩
    have hcall : callOf ⟨id, rest.take len⟩ = ⟨id, len, rest.take len⟩ := by
      rw [callOf, length_take, Nat.min_eq_left hrest]
    rw [map_cons, hcall, ← hcalls]

/-- A read within the budget does what a scan of the parser's bytes and the new ones says. -/
theorem readyRead_spec {chunk : Bytes} (h : p.Holds b)
    (hbudget : (p.buffer ++ chunk).length ≤ 256 * 1024) :
    ∃ o, p.readyRead chunk = some o ∧ Agrees o (receiver.scan (b ++ chunk)) := by
  have hmore : Holds { p with buffer := p.buffer ++ chunk } (b ++ chunk) := by
    cases h with
    | head hp => exact .head hp
    | body hp hid hlen hadmits =>
      rw [append_assoc]
      exact .body hp hid hlen hadmits
  have hrounds : (b ++ chunk).length < (p.buffer ++ chunk).length + 5 := by
    cases h <;> simp only [length_append, length_header] <;> omega
  unfold readyRead
  dsimp only
  rw [if_neg (Nat.not_lt.mpr hbudget)]
  exact loop_spec hmore hrounds

/-- **The cuts do not matter**: reads within the budget do what a scan of all their bytes says. -/
theorem receive_spec {reads : List Bytes} : ∀ {p : Parser} {b : Bytes}, p.Holds b →
    p.withinBudget reads = true → receiver.scan b = ([], .waiting b) →
    ∃ o, p.receive reads = some o ∧ Agrees o (receiver.scan (b ++ reads.flatten)) := by
  induction reads with
  | nil =>
    intro p b h _ hb
    rw [flatten_nil, append_nil, hb]
    exact ⟨_, rfl, rfl, rfl, h⟩
  | cons chunk reads ih =>
    intro p b h hbudget _
    rw [withinBudget, Bool.and_eq_true, decide_eq_true_eq] at hbudget
    obtain ⟨o, ho, hcalls, htail⟩ := readyRead_spec h hbudget.1
    rw [ho] at hbudget
    rw [receive, ho, flatten_cons, ← append_assoc, receiver.scan_append]
    unfold Receiver.resume
    dsimp only
    cases hscan : (receiver.scan (b ++ chunk)).2 with
    | refused =>
      rw [hscan] at htail
      rw [if_pos htail]
      exact ⟨o, rfl, hcalls, by rw [hscan]; exact htail⟩
    | waiting c =>
      rw [hscan] at htail
      obtain ⟨hgoes, hholds⟩ := htail
      have hrest : o.parser.withinBudget reads = true := by
        simpa only [hgoes, Bool.false_or] using hbudget.2
      obtain ⟨o', ho', hcalls', htail'⟩ := ih hholds hrest (receiver.scan_idle hscan)
      rw [if_neg (by rw [hgoes]; decide), ho']
      refine ⟨_, rfl, ?_, htail'⟩
      show o.calls ++ o'.calls = _
      rw [map_append, hcalls, hcalls']

end Parser

/-! ## Frames of the server -/

/-- The bytes of frames that the server sends one after the other. -/
def sent (frames : List Packet) : Bytes := frames.flatMap fun p => sendNode p.body p.id

/-- A header that the client accepts: of an id it handles, neither empty nor too long. -/
def Acceptable (id len : ℕ) : Prop :=
  ∃ m, handlerOf id = some m ∧ 0 < len ∧ len ≤ allowedLength m

theorem admits_iff {id len : ℕ} : Parser.receiver.admits id len = true ↔ Acceptable id len := by
  constructor
  · intro h
    cases hm : handlerOf id with
    | none => simp only [Parser.receiver, hm, Bool.false_eq_true] at h
    | some m =>
      rw [Parser.receiver_admits hm, Bool.and_eq_true, decide_eq_true_eq, decide_eq_true_eq] at h
      exact ⟨m, hm, h⟩
  · rintro ⟨m, hm, h⟩
    rwa [Parser.receiver_admits hm, Bool.and_eq_true, decide_eq_true_eq, decide_eq_true_eq]

theorem allowedLength_lt (m : MsgId) : allowedLength m < 2 ^ 16 := by
  cases m <;> decide

theorem takes_of_acceptable {p : Packet} (h : Acceptable p.id p.body.length) :
    Parser.receiver.Takes p := by
  obtain ⟨m, hm, hpos, hle⟩ := h
  exact ⟨⟨code_of_handlerOf hm ▸ m.code_lt, lt_of_le_of_lt hle (allowedLength_lt m)⟩,
    admits_iff.mpr ⟨m, hm, hpos, hle⟩, rfl⟩

theorem sent_eq {frames : List Packet} (h : ∀ p ∈ frames, p.body.length < 2 ^ 16) :
    sent frames = encodeAll frames := by
  unfold sent encodeAll
  exact flatMap_congr fun p hp => sendNode_eq (h p hp) p.id

/-- **The client handles the frames of the server however the stream is cut.**

* Frames it accepts are handled in order, once each, and nothing is left in the parser.
* If a header follows that is unknown, empty or too long, exactly the frames before it are handled
  and the socket is aborted. -/
theorem responses_received (frames : List Packet)
    (h : ∀ p ∈ frames, Acceptable p.id p.body.length) :
    (∀ reads : List Bytes, reads.flatten = sent frames →
      Parser.reset.withinBudget reads = true →
      ∃ p, Parser.reset.receive reads = some ⟨p, frames.map Parser.callOf, false⟩ ∧
        p.buffer = [] ∧ p.b_recv_pending = false) ∧
    (∀ (id len : ℕ) (rest : Bytes) (reads : List Bytes), id < 2 ^ 16 → len < 2 ^ 16 →
      ¬ Acceptable id len → reads.flatten = sent frames ++ header id len ++ rest →
      Parser.reset.withinBudget reads = true →
      ∃ p, Parser.reset.receive reads = some ⟨p, frames.map Parser.callOf, true⟩) := by
  have htakes : ∀ p ∈ frames, Parser.receiver.Takes p := fun p hp => takes_of_acceptable (h p hp)
  have hsent : sent frames = encodeAll frames := sent_eq fun p hp => (htakes p hp).fits.2
  have hstart : Parser.reset.Holds [] := .head rfl
  have hidle : Parser.receiver.scan [] = ([], .waiting []) := Parser.receiver.scan_short (by decide)
  constructor
  · intro reads hreads hbudget
    obtain ⟨⟨p, calls, aborted⟩, ho, hcalls, htail⟩ := Parser.receive_spec hstart hbudget hidle
    rw [nil_append, hreads, hsent, ← append_nil (encodeAll frames),
      Receiver.scan_encodeAll htakes, hidle] at hcalls htail
    obtain ⟨rfl, hholds⟩ : aborted = false ∧ p.Holds [] := htail
    rw [append_nil] at hcalls
    obtain rfl : calls = frames.map Parser.callOf := hcalls
    exact ⟨p, ho, hholds.eq_nil rfl⟩
  · intro id len rest reads hid hlen hbad hreads hbudget
    obtain ⟨⟨p, calls, aborted⟩, ho, hcalls, htail⟩ := Parser.receive_spec hstart hbudget hidle
    have hno : Parser.receiver.admits id len = false :=
      Bool.eq_false_iff.mpr fun hyes => hbad (admits_iff.mp hyes)
    rw [nil_append, hreads, hsent, append_assoc, Receiver.scan_encodeAll htakes,
      Receiver.scan_refused hid hlen hno] at hcalls htail
    rw [append_nil] at hcalls
    obtain rfl : calls = frames.map Parser.callOf := hcalls
    obtain rfl : aborted = true := htail
    exact ⟨p, ho⟩

/-- Two frames in three reads, cut inside the first header and inside the second body; then the same
before an empty frame. -/
theorem responses_received_sample :
    (∃ p, Parser.reset.receive [[3, 0xee, 0], [2, 7, 8, 4, 0, 0, 3, 1], [2, 3]] =
      some ⟨p, [⟨1006, 2, [7, 8]⟩, ⟨1024, 3, [1, 2, 3]⟩], false⟩ ∧
        p.buffer = [] ∧ p.b_recv_pending = false) ∧
    (∃ p, Parser.reset.receive [[3, 0xee, 0], [2, 7, 8, 4, 0, 0, 3, 1], [2, 3, 4, 0], [0, 0, 9]] =
      some ⟨p, [⟨1006, 2, [7, 8]⟩, ⟨1024, 3, [1, 2, 3]⟩], true⟩) := by
  have h := responses_received [⟨1006, [7, 8]⟩, ⟨1024, [1, 2, 3]⟩] (by
    intro p hp
    rcases mem_cons.mp hp with rfl | hp
    · exact ⟨.chatLoginRsp, rfl, by decide, by decide⟩
    · obtain rfl := mem_singleton.mp hp
      exact ⟨.heartbeatRsp, rfl, by decide, by decide⟩)
  constructor
  · exact h.1 _ (by decide) (by decide +kernel)
  · refine h.2 1024 0 [9] _ (by decide) (by decide) ?_ (by decide) (by decide +kernel)
    rintro ⟨m, -, hpos, -⟩
    exact absurd hpos (by decide)

section Socket

open SendQueue

def packetOf (n : SendNode) : Packet := ⟨n.msg_id, n.msg⟩

/-- **From `Send` to the handlers.** Threads send frames that the client accepts, and a first part
of what is handed to the socket arrives, cut in any way. The client has handled the frames of the
first of the calls of `Send` that took effect, in order and once each, and goes on; each of these
calls has returned true, or is still running, and none has returned false. If all has arrived, the
client has handled all that was written. -/
theorem frames_handled_as_sent {c : Config ℕ SendQueue.Call Call.Answer (Except Empty Unit) State}
    (hc : Reachable session c) (h : ∀ n ∈ c.shared.accepted, Acceptable n.msg_id n.msg.length)
    (reads : List Bytes) (rest : Bytes)
    (hreads : reads.flatten ++ rest = c.shared.written.flatMap SendNode.data)
    (hbudget : Parser.reset.withinBudget reads = true) :
    ∃ p sends, sends <+: c.shared.calls.accepted ∧
      Parser.reset.receive reads =
        some ⟨p, ((sends.map Prod.snd).map packetOf).map Parser.callOf, false⟩ ∧
      (sends.map Prod.fst).Nodup ∧
      (∀ t n, (t, n) ∈ sends →
        ((t, n, true) ∈ c.shared.calls.returned ∨ (c.threads t).isSome = true) ∧
        (t, n, false) ∉ c.shared.calls.returned) ∧
      (rest = [] → sends.map Prod.snd = c.shared.written) := by
  obtain ⟨g, ⟨b, ⟨-, hframes⟩, -⟩, -⟩ := reachable_invariant ok_inductive hc
  obtain ⟨honce, hreturned, haccepted⟩ := session_keeps.settled hc
  have hfirst : c.shared.written <+: c.shared.accepted := written_leads hframes
  have htakes : ∀ p ∈ c.shared.written.map packetOf, Parser.receiver.Takes p := by
    intro p hp
    obtain ⟨n, hn, rfl⟩ := mem_map.mp hp
    exact takes_of_acceptable (h n (hfirst.subset hn))
  have hsent : c.shared.written.flatMap SendNode.data =
    encodeAll (c.shared.written.map packetOf) := by
    rw [← sent_eq fun p hp => (htakes p hp).fits.2, sent, flatMap_map]
    rfl
  obtain ⟨n, t, hscan, hall⟩ := Parser.receiver.scan_part htakes (hreads.trans hsent)
  obtain ⟨⟨p, calls, aborted⟩, ho, hcalls, htail⟩ := Parser.receive_spec (.head rfl) hbudget
    (Parser.receiver.scan_short (by decide))
  rw [show Parser.reset.buffer = [] from rfl, nil_append, hscan] at hcalls htail
  obtain ⟨rfl, -⟩ : aborted = false ∧ p.Holds t := htail
  have hlast : c.shared.written = c.shared.accepted.take c.shared.written.length :=
    prefix_iff_eq_take.mp hfirst
  have hitems : ∀ i, (c.shared.calls.accepted.take i).map Prod.snd = c.shared.accepted.take i :=
    fun _ => map_take
  refine ⟨p, c.shared.calls.accepted.take (min n c.shared.written.length),
    List.take_prefix _ _, ?_, ?_,
    fun t k hk => ?_, fun hrest => ?_⟩
  · rw [ho, show calls = _ from hcalls, hitems, ← map_take, ← take_take, ← hlast]
  · rw [map_take]
    exact honce.sublist (take_sublist _ _)
  · have hmem := mem_of_mem_take hk
    exact ⟨haccepted t k hmem, fun hfalse =>
      absurd ((hreturned t k false hfalse).mpr hmem) Bool.false_ne_true⟩
  · rw [hitems, hall hrest, length_map, min_self, ← hlast]

/-- One frame is sent, its call returns, and it arrives in two reads. -/
theorem frames_handled_as_sent_sample : ∃ c p, Reachable session c ∧
    c.shared.calls.returned = [(0, ⟨1006, [7]⟩, true)] ∧
    Parser.reset.receive [[3, 0xee, 0], [1, 7]] = some ⟨p, [⟨1006, 1, [7]⟩], false⟩ := by
  have hplay : (play launch perform ⟨{}, fun _ => none⟩ [.start (0, .send [7] 1006), .call 0 {},
      .call 0 {}, .start (1, .startWrite), .call 1 {}, .call 1 {}, .call 1 {}, .call 0 {}]).any
        (fun c =>
      c.shared.calls.returned == [(0, ⟨1006, [7]⟩, true)] &&
      c.shared.accepted == [⟨1006, [7]⟩] && c.shared.written == [⟨1006, [7]⟩]) = true := by
    decide +kernel
  obtain ⟨c, hc, h⟩ := (Option.any_eq_true ..).mp hplay
  simp only [Bool.and_eq_true, beq_iff_eq] at h
  have hreachable := session_playable.play (.init rfl) hc
  obtain ⟨p, sends, -, ho, -, -, hall⟩ := frames_handled_as_sent hreachable (by
    rw [h.1.2]
    intro n hn
    cases mem_singleton.mp hn
    exact ⟨.chatLoginRsp, rfl, by decide, by decide⟩) [[3, 0xee, 0], [1, 7]] [] (by rw [h.2]; rfl)
    (by decide +kernel)
  rw [hall rfl, h.2] at ho
  exact ⟨c, p, hreachable, h.1.1, ho⟩

end Socket

/-! ## Frames of the client -/

/-- What `writeFrame` asks of the socket. -/
structure Link where
  connected : Bool
  use_tls : Bool
  isEncrypted : Bool
  bytesToWrite : ℕ

/-- `writeFrame`: the block that is written to the socket, if any. -/
def Link.writeFrame (link : Link) (reqId : MsgId) (data : Bytes) : Option Bytes :=
  if link.connected = false then none
  else if link.use_tls = true ∧ link.isEncrypted = false then none
  else
    let maxMessageLength :=
      if MsgId.uploadFileReq.code ≤ reqId.code ∧ reqId.code ≤ MsgId.fileTransferCancel.code then
        60 * 1024
      else 2048
    if data = [] ∨ maxMessageLength < data.length then none
    else if 4 * 1024 * 1024 < link.bytesToWrite + data.length + 4 then none
    else some (be16 reqId.code ++ be16 (data.length % 2 ^ 16) ++ data)

/-- A call of `writeFrame`. -/
structure Write where
  link : Link
  reqId : MsgId
  data : Bytes

/-- The block of a call. -/
def Write.block (w : Write) : Option Bytes := w.link.writeFrame w.reqId w.data

/-- The bytes that calls write to the socket. -/
def written (writes : List Write) : Bytes := writes.flatMap fun w => w.block.getD []

/-- The frames of the calls that write one. -/
def framesOf (writes : List Write) : List Packet :=
  writes.filterMap fun w => w.block.map fun _ => ⟨w.reqId.code, w.data⟩

/-- The calls are for requests outside of the file range. -/
def Write.IsChat (w : Write) : Prop :=
  isClientRequestMessage w.reqId.code = true ∧ isFileTransferMessage w.reqId.code = false

theorem block_eq_some {w : Write} (hchat : w.IsChat) {block : Bytes} (h : w.block = some block) :
    block = (Packet.mk w.reqId.code w.data).encode ∧ CSession.IsRequest ⟨w.reqId.code, w.data⟩ := by
  obtain ⟨hrequest, hfile⟩ := hchat
  have hrange :
    ¬ (MsgId.uploadFileReq.code ≤ w.reqId.code ∧ w.reqId.code ≤ MsgId.fileTransferCancel.code) := by
    rintro ⟨hlow, hhigh⟩
    rw [isFileTransferMessage, decide_eq_true hlow, decide_eq_true hhigh] at hfile
    cases hfile
  unfold Write.block Link.writeFrame at h
  dsimp only at h
  rw [if_neg hrange] at h
  split at h
  · cases h
  · split at h
    · cases h
    · split at h
      · cases h
      · split at h
        · cases h
        · rename_i hlength _
          rw [not_or] at hlength
          have hpos := length_pos_iff.mpr hlength.1
          obtain rfl := Option.some.inj h
          have hle : w.data.length ≤ 2048 := Nat.not_lt.mp hlength.2
          exact ⟨sendNode_eq (by omega) w.reqId.code, hrequest, hfile, hpos, hle⟩

theorem written_eq {writes : List Write} (h : ∀ w ∈ writes, w.IsChat) :
    written writes = encodeAll (framesOf writes) ∧ ∀ p ∈ framesOf writes, CSession.IsRequest p := by
  induction writes with
  | nil => exact ⟨rfl, nofun⟩
  | cons w writes ih =>
    obtain ⟨hbytes, hall⟩ := ih fun v hv => h v (mem_cons_of_mem w hv)
    unfold written framesOf at *
    rw [flatMap_cons, filterMap_cons, hbytes]
    cases hb : w.block with
    | none => exact ⟨rfl, hall⟩
    | some block =>
      obtain ⟨rfl, hrequest⟩ := block_eq_some (h w mem_cons_self) hb
      refine ⟨rfl, ?_⟩
      intro p hp
      rcases mem_cons.mp hp with rfl | hp
      · exact hrequest
      · exact hall p hp

/-- **The server posts the frames of a stream however the reads split it**, on a session that is
authenticated, has budget left and whose posts are accepted.

* A read never reaches past the end of the receive buffer.
* When the stream has been read, or the session no longer reads, the frames of the longest prefix
  made of chat requests have been posted, in order and with their bodies.
* If a complete frame of another kind follows, the session is closed.
* If the stream is what `writeFrame` wrote for chat requests, all of their frames have been posted.
  -/
theorem requests_posted {s s' : CSession} {stream rest : Bytes} (h : s.Ready)
    (run : s.Reads stream s' rest)
    (granted : s'.closed ≠ some .rateLimited ∧ s'.closed ≠ some .queueFull) :
    (∀ q, s'.reading = some q →
      q.read_len < q.total_len ∧ q.total_len ≤ s'.data.length ∧ s'.data.length = sizeofData) ∧
    (rest = [] ∨ s'.reading = none →
      (∃ frames after, stream = encodeAll frames ++ after ∧
        (∀ p ∈ frames, CSession.IsRequest p) ∧
        (∀ frames', (∀ p ∈ frames', CSession.IsRequest p) → encodeAll frames' <+: stream →
          frames' <+: frames) ∧
        s'.posted = s.posted ++ frames ∧
        ∀ (q : Packet) (more : Bytes), q.Fits → ¬ CSession.IsRequest q →
          after = q.encode ++ more → s'.closed.isSome = true ∧ s'.reading = none) ∧
      ∀ writes : List Write, (∀ w ∈ writes, w.IsChat) → stream = written writes →
        s'.posted = s.posted ++ framesOf writes) := by
  have hgrant : ¬ s'.Denied := fun hdenied => hdenied.why.elim granted.1 granted.2
  constructor
  · intro q hq
    obtain ⟨got, -, hdenied | ⟨-, htail⟩⟩ := CSession.stands_reads h run
    · exact absurd hdenied hgrant
    · cases hscan : (CSession.receiver.scan got).2 with
      | refused =>
        rw [hscan] at htail
        exact nomatch htail.2.symm.trans hq
      | waiting b =>
        rw [hscan] at htail
        obtain ⟨hmore, hsize⟩ := htail.2.within hq
        exact ⟨hmore, hsize.trans htail.1.buffer.ge, htail.1.buffer⟩
  · intro hend
    obtain ⟨hposted, htail⟩ := CSession.stands_all h run hend hgrant
    constructor
    · obtain ⟨after, hstream, htakes, hafter⟩ := CSession.receiver.scan_spec stream
      refine ⟨_, after, hstream, fun p hp => CSession.takes_iff.mp (htakes p hp), ?_, hposted, ?_⟩
      · intro frames' hall hfirst
        exact Receiver.scan_longest (fun p hp => CSession.takes_iff.mpr (hall p hp)) hfirst
      · intro q more hfits hother hq
        have hrefused :=
          Receiver.scan_other hfits (fun hyes => hother (CSession.takes_iff.mp hyes)) more
        rw [← hq, hafter] at hrefused
        rw [(Prod.mk.inj hrefused).2] at htail
        exact htail
    · rintro writes hall rfl
      obtain ⟨hbytes, hrequests⟩ := written_eq hall
      rw [hposted, hbytes, ← append_nil (encodeAll _), Receiver.scan_encodeAll fun p hp =>
        CSession.takes_iff.mpr (hrequests p hp), CSession.receiver.scan_short (by decide),
        append_nil]

namespace Sample

/-- A session of user 7 with its budget untouched. -/
def session : CSession where
  data := List.replicate sizeofData 0
  user_uid := 7
  hash := 0
  valid := true
  chat_requests := ⟨200, 100, 200, 0⟩
  file_requests := ⟨256, 128, 256, 0⟩
  file_bytes := ⟨8388608, 4194304, 8388608, 0⟩
  recv_msg_node := ⟨0, []⟩
  reading := some ⟨0, HEAD_TOTAL_LEN, .head⟩
  closed := none
  posted := []

def turn : Turn := ⟨0, true⟩

/-- A heartbeat that arrives in reads of three, one and one bytes. -/
def afterHeartbeat : CSession :=
  ((session.onRead turn ⟨0, 4, .head⟩ [3, 255, 0]).onRead turn ⟨3, 4, .head⟩ [1]).onRead turn
    ⟨0, 1, .body 1⟩ [42]

theorem reads_heartbeat : session.Reads [3, 255, 0, 1, 42] afterHeartbeat [] :=
  have first : session.Reads [3, 255, 0, 1, 42] _ ([1] ++ [42]) :=
    .read turn (.start : session.Reads _ session ([3, 255, 0] ++ [1, 42])) rfl (by decide)
      (by decide)
  have second : session.Reads [3, 255, 0, 1, 42] _ ([42] ++ []) :=
    .read turn first (by decide +kernel) (by decide) (by decide)
  .read turn second (by decide +kernel) (by decide) (by decide)

end Sample

theorem requests_posted_sample : Sample.afterHeartbeat.posted = [⟨1023, [42]⟩] := by
  have hready : Sample.session.Ready :=
    ⟨⟨rfl, rfl, by decide, length_replicate⟩, rfl⟩
  have hopen : Sample.afterHeartbeat.closed = none := by decide +kernel
  have hposts :=
    (requests_posted hready Sample.reads_heartbeat (by rw [hopen]; decide)).2 (Or.inl rfl)
  have hwrites := hposts.2 [⟨⟨true, true, true, 0⟩, .heartBeatReq, [42]⟩] (by
    intro w hw
    obtain rfl := mem_singleton.mp hw
    exact ⟨by decide, by decide⟩) (by decide)
  exact hwrites

end DistributedChat.Client
