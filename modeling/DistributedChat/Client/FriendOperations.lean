import DistributedChat.Chat.Logic

/-!
# Friend operations

`submitFriendOperation` and `finishFriendOperation` of `client/network/TcpMgr.cpp`. One request at
a time waits for its response. The response, the timer and the loss of the connection end the wait;
a response may also come later, when another request waits.

1. The responses of the server repeat the id of their request: `Answers.request_id`.
2. Every call but the one that waits has one report: `Log.Ok`. Each step keeps that.
3. `friend_operations_complete_once`, for all runs.
-/

namespace DistributedChat.Client

open Lib Chat List

/-! ## The client -/

/-- A call of `submitFriendOperation`, and what it reads: the user and a new id. -/
structure Submission where
  request : MsgId
  peer : Uid
  remark : Bytes
  /-- Authenticated, connected, and encrypted if TLS is used. -/
  online : Bool
  uid : Uid
  name : Bytes
  id : Bytes

def Submission.isFriend (c : Submission) :
    Bool := c.request = .addFriendReq ∨ c.request = .authFriendReq

def Submission.payload (c : Submission) : Json :=
  .obj ([(ascii "touid", .int c.peer), (ascii "request_id", .str c.id)] ++ if c.request =
    .addFriendReq then
      [(ascii "uid", .int c.uid), (ascii "applyname", .str c.name),
        (ascii "bakname", .str c.remark)]
    else [(ascii "fromuid", .int c.uid), (ascii "back", .str c.remark)])

/-- `sig_friend_operation`. -/
structure Report where
  request : MsgId
  peer : Uid
  success : Bool
  message : String

/-- `_friend_peer`, `_friend_request`, `_friend_request_id`, and whether `_friend_timer` runs. -/
structure Slot where
  peer : Uid := 0
  request : MsgId := .addFriendReq
  id : Bytes := []
  timer : Bool := false

def submitFriendOperation (c : Submission) (s : Slot) : Slot × Option Report × Option Frame :=
  if ¬ c.isFriend then (s, none, none)
  else if ¬ c.online then (s, some ⟨c.request, c.peer, false, "尚未连接聊天服务器，请连接恢复后重试。"⟩, none)
  else if s.peer ≠ 0 then
    (s, some ⟨c.request, c.peer, false, "另一条好友请求正在处理中，请稍后重试。"⟩, none)
  else if c.peer ≤ 0 ∨ c.peer = c.uid ∨ 192 < c.remark.length then
    (s, some ⟨c.request, c.peer, false, "好友请求内容无效。"⟩, none)
  else (⟨c.peer, c.request, c.id, true⟩, none, some ⟨c.request, some c.payload⟩)

/-- `isDouble() && toInt(-1) == ErrorCode::ERR_OK`. -/
def isOk : Json → Bool
  | .int n => (Json.int n).int?.getD (-1) == 0
  | .real n integral text => (Json.real n integral text).int?.getD (-1) == 0
  | _ => false

def finishMessage (request : MsgId) (response : Json) : String :=
  if ¬ isOk (response.get "error") then
    "操作未完成（错误码 " ++ toString ((response.get "error").int?.getD (-1)) ++ "），请刷新好友列表后重试。"
  else if request = .authFriendReq then "已成为好友，可以开始聊天了。"
  else if response.get "notification_pending" matches .bool true then
    "申请已保存。实时通知暂未送达，对方可在「新的朋友」中刷新查看。"
  else "申请已发送，等待对方接受。"

def finishFriendOperation (request : MsgId) (response : Json) (s : Slot) : Slot × Option Report :=
  if s.peer = 0 ∨ request ≠ s.request then (s, none)
  else if (response.find "request_id").any fun id => id.toStr ≠ s.id then (s, none)
  else ({ s with peer := 0, timer := false },
    some ⟨request, s.peer, isOk (response.get "error"), finishMessage request response⟩)

/-- The handler of `timeout` of `_friend_timer`. -/
def friendTimeout (s : Slot) : Slot × Option Report :=
  ({ s with peer := 0, timer := false },
    some ⟨s.request, s.peer, false, "服务器尚未确认，请刷新「新的朋友」或重试；请勿重复点击。"⟩)

/-- The handler of `disconnected`. -/
def friendDisconnected (s : Slot) : Slot × Option Report :=
  if s.peer = 0 then (s, none)
  else ({ s with peer := 0, timer := false }, some ⟨s.request, s.peer, false, "连接已断开，请连接恢复后重试。"⟩)

/-! ## The server -/

/-- What `AddFriendCallback` and `AuthFriendCallback` may send for a frame. -/
inductive Answers (setup : Setup) : Frame → Json → Prop
  | add {server : ServerName} {uid touid : Uid} {data : Option Json} {root body : Json}
    {applyname : Bytes}
      (h : addFriendRequest data = some (root, touid, applyname))
      (hbody : Prog.Returns (.ok body)
        (addFriend setup server uid touid applyname (echoRequestId root
        (Json.null.setAll [("error", ErrorCode.ok.json), ("touid", .int touid)])))) :
      Answers setup ⟨.addFriendReq, data⟩ body
  | auth {uid touid : Uid} {data : Option Json} {root body : Json} {back_name : Bytes}
    {info : Option UserInfo}
      {accepted : Bool} (h : authFriendRequest data = some (root, touid, back_name))
      (hbody : Prog.Returns (.ok (body, accepted))
        (authFriend uid touid back_name info (match info with
        | none => (echoRequestId root (Json.null.setAll [("error", ErrorCode.ok.json),
            ("uid", .int touid)])).set "error" ErrorCode.uidInvalid.json
        | some u => (echoRequestId root (Json.null.setAll [("error", ErrorCode.ok.json),
            ("uid", .int touid)])).setAll
              [("name", .str u.name), ("nick", .str u.nick), ("icon", .str u.icon),
              ("sex", .int u.sex), ("uid", .int touid)]))) :
      Answers setup ⟨.authFriendReq, data⟩ body

/-- Whatever else is set, the id stays. -/
def Echoes (id : Option Json) : Except Unit Json → Prop
  | .error _ => True
  | .ok v => v.find "request_id" = id

section Server

variable {setup : Setup} {rtvalue : Json}

theorem find_set_ne {key : String} (hkey : ascii "request_id" ≠ ascii key) (x : Json) :
    (rtvalue.set key x).find "request_id" = rtvalue.find "request_id" := by
  rw [Json.find_set, if_neg hkey]

theorem echoes_notifyApplication (server : ServerName) (uid touid : Uid) (applyname : Bytes) :
    Prog.Ends (Echoes (rtvalue.find "request_id"))
    (notifyApplication setup server uid touid applyname rtvalue) := by
  have hpending : ∀ sent : Bool,
    Prog.Ends (Echoes (rtvalue.find "request_id")) (if sent then pure rtvalue
      else pure (rtvalue.set "notification_pending" (.bool true)) : Svc Json) := by
    intro sent
    cases sent with
    | true => exact rfl
    | false => exact find_set_ne (by decide) _
  refine Task.ends_andThen (fun _ => trivial) fun ip => ?_
  cases ip with
  | none => exact rfl
  | some ip =>
    refine Task.ends_andThen (fun _ => trivial) fun info => ?_
    dsimp only
    split
    · refine Task.ends_andThen (fun _ => trivial) fun peer => ?_
      cases peer with
      | none => exact rfl
      | some peer => exact Task.ends_andThen (fun _ => trivial) hpending
    · split
      · exact rfl
      · exact Task.ends_andThen (fun _ => trivial) hpending

theorem echoes_addFriend (server : ServerName) (uid touid : Uid) (applyname : Bytes) :
    Prog.Ends (Echoes (rtvalue.find "request_id"))
    (addFriend setup server uid touid applyname rtvalue) := by
  have herror : ∀ x, (rtvalue.set "error" x).find "request_id" = rtvalue.find "request_id" :=
    find_set_ne (by decide)
  unfold addFriend
  split
  · exact herror _
  · refine Task.ends_andThen (fun _ => trivial) fun relation => ?_
    cases relation with
    | none => exact herror _
    | some related =>
      cases related with
      | true => exact herror _
      | false =>
        refine Task.ends_andThen (fun _ => trivial) fun user => ?_
        cases user with
        | none => exact herror _
        | some user =>
          refine Task.ends_andThen (fun _ => trivial) fun applied => ?_
          cases applied with
          | true => exact echoes_notifyApplication server uid touid applyname
          | false => exact herror _

theorem echoes_authFriend (uid touid : Uid) (back_name : Bytes) (info : Option UserInfo) :
    Prog.Ends (fun r => Echoes (rtvalue.find "request_id") (r.map Prod.fst))
      (authFriend uid touid back_name info rtvalue) := by
  have herror : ∀ x, (rtvalue.set "error" x).find "request_id" = rtvalue.find "request_id" :=
    find_set_ne (by decide)
  unfold authFriend
  split
  · exact herror _
  · refine Task.ends_andThen (fun _ => trivial) fun relation => ?_
    cases relation with
    | none => exact herror _
    | some related =>
      cases related with
      | true => exact rfl
      | false =>
        refine Task.ends_andThen (fun _ => trivial) fun result => ?_
        cases result with
        | PendingMissing | StorageError => exact herror _
        | Success => exact rfl

/-- **Responses repeat the id** of their request. -/
theorem Answers.request_id {c : Submission} {body : Json} (hid : c.id.length = 36)
    (h : Answers setup ⟨c.request, some c.payload⟩ body) :
    body.find "request_id" = some (.str c.id) := by
  have hecho : ∀ v, (echoRequestId c.payload v).find "request_id" = some (.str c.id) := by
    intro v
    have hget : (c.payload.get "request_id").str? = some c.id := rfl
    simp only [echoRequestId, hget, hid, Nat.reduceLeDiff, if_true, Json.find_set]
  have hroot : ∀ {root}, object (some c.payload) = some root → root = c.payload := fun h =>
    (Option.some.inj (Option.filter_eq_some_iff.mp h).1).symm
  generalize hdata : some c.payload = data at h
  generalize c.request = request at h
  cases h with
  | add h hbody =>
    subst hdata
    simp only [addFriendRequest, Option.bind_eq_bind, Option.bind_eq_some_iff] at h
    obtain ⟨root, hobject, touid, -, applyname, -, -, -, heq⟩ := h
    cases heq
    rw [hroot hobject] at hbody
    exact ((echoes_addFriend _ _ _ _).of_returns hbody).trans (hecho _)
  | @auth _ _ _ _ _ _ info _ h hbody =>
    subst hdata
    simp only [authFriendRequest, Option.bind_eq_bind, Option.bind_eq_some_iff] at h
    obtain ⟨root, hobject, touid, -, back, -, heq⟩ := h
    cases heq
    rw [hroot hobject] at hbody
    refine ((echoes_authFriend _ _ _ _).of_returns hbody).trans ?_
    cases info with
    | none => exact (find_set_ne (by decide) _).trans (hecho _)
    | some u =>
      simp +decide only [Json.setAll, foldl_cons, foldl_nil, find_set_ne]
      exact hecho _

end Server

/-! ## Runs -/

/-- A report, the id of the call it is for, and of the call whose response it goes back to. -/
structure Entry where
  call : Bytes
  cause : Option Bytes
  report : Report

/-- The client, the calls so far and the reports. -/
structure Log where
  slot : Slot := {}
  calls : List Submission := []
  entries : List Entry := []
  /-- The calls up to the last time that the timer fired or the socket was disconnected. -/
  ended : List Submission := []

namespace Log

variable (l : Log)

def count (c : Submission) : ℕ := (l.entries.map Entry.call).count c.id

def submit (c : Submission) : Log :=
  let r := submitFriendOperation c l.slot
  { l with
    slot := r.1
    calls := l.calls ++ [c]
    entries := l.entries ++ (r.2.1.map fun report => ⟨c.id, none, report⟩).toList }

/-- What a handler leaves and reports, for the request it finds in the slot. -/
def handle (r : Slot × Option Report) (cause : Option Bytes) (ended : List Submission) : Log :=
  { l with
    slot := r.1
    entries := l.entries ++ (r.2.map fun report => ⟨l.slot.id, cause, report⟩).toList
    ended := ended }

/-- Ids are those of `QUuid`, and new. A response may come at any time after its call, and more than
once. -/
inductive Step (setup : Setup) : Log → Log → Prop
  | submit {l : Log} {c : Submission} (hid : c.id.length = 36)
    (hfresh : c.id ∉ l.calls.map Submission.id) :
      Step setup l (l.submit c)
  | response {l : Log} {c : Submission} {body : Json} (hc : c ∈ l.calls)
      (h : Answers setup ⟨c.request, some c.payload⟩ body) :
      Step setup l (l.handle (finishFriendOperation c.request body l.slot) (some c.id) l.ended)
  | timeout {l : Log} (h : l.slot.timer = true) :
    Step setup l (l.handle (friendTimeout l.slot) none l.calls)
  | disconnected {l : Log} : Step setup l (l.handle (friendDisconnected l.slot) none l.calls)

def Reachable (setup : Setup) : Log → Prop := Relation.ReflTransGen (Step setup) {}

def waiting : List Bytes := if l.slot.peer = 0 then [] else [l.slot.id]

structure Ok : Prop where
  ids : (l.calls.map Submission.id).Nodup
  length_id : ∀ c ∈ l.calls, c.id.length = 36
  slot : l.slot.peer ≠ 0 → ∃ c ∈ l.calls, l.slot = ⟨c.peer, c.request, c.id, true⟩
  timer : l.slot.timer = true → l.slot.peer ≠ 0
  /-- **One report** for each call but the one that waits. -/
  tally : (l.entries.map Entry.call ++ l.waiting).Perm
    ((l.calls.filter Submission.isFriend).map Submission.id)
  ended : ∀ c ∈ l.ended, c ∈ l.calls ∧ c.id ∉ l.waiting
  entries : ∀ e ∈ l.entries, ∃ c ∈ l.calls, e.call = c.id ∧ e.report.request = c.request ∧
    e.report.peer = c.peer ∧ (e.report.success = true → e.cause ≠ none) ∧ ∀ id, e.cause = some id →
      id = c.id

variable {l}

/-- A handler does nothing, or ends the wait with a report for the call that waits. -/
theorem Ok.handle (h : l.Ok) {r : Slot × Option Report} {cause : Option Bytes}
    {ended : List Submission}
    (hr : r = (l.slot, none) ∨ l.slot.peer ≠ 0 ∧ ∃ success message,
      r = ({ l.slot with peer := 0, timer := false },
        some ⟨l.slot.request, l.slot.peer, success, message⟩) ∧
      (success = true → cause ≠ none) ∧ ∀ id, cause = some id → id = l.slot.id)
    (hended : ended = l.ended ∨ r.1.peer = 0 ∧ ended = l.calls) : (l.handle r cause ended).Ok := by
  have hlater : ∀ c ∈ ended, c ∈ l.calls ∧ c.id ∉ (l.handle r cause ended).waiting := by
    intro c hc
    rcases hended with rfl | ⟨hpeer, rfl⟩
    · obtain ⟨hcalls, hwaiting⟩ := h.ended c hc
      rcases hr with rfl | ⟨-, success, message, rfl, -⟩
      · exact ⟨hcalls, hwaiting⟩
      · exact ⟨hcalls, not_mem_nil⟩
    · exact ⟨hc, by simp [waiting, Log.handle, hpeer]⟩
  rcases hr with rfl | ⟨hpeer, success, message, rfl, hsuccess, hcause⟩
  · have hentries : (l.handle (l.slot, none) cause ended).entries = l.entries := append_nil _
    exact ⟨h.ids, h.length_id, h.slot, h.timer, hentries ▸ h.tally, hlater, hentries ▸ h.entries⟩
  · obtain ⟨c, hc, hslot⟩ := h.slot hpeer
    refine ⟨h.ids, h.length_id, fun hzero => absurd rfl hzero, nofun, ?_, hlater, fun e he => ?_⟩
    · simpa [waiting, Log.handle, hpeer] using h.tally
    · rcases mem_append.mp he with he | he
      · exact h.entries e he
      · obtain rfl := mem_singleton.mp he
        rw [hslot] at hcause ⊢
        exact ⟨c, hc, rfl, rfl, rfl, hsuccess, hcause⟩

/-- A call is ignored, refused with a report, or waits from now on. -/
theorem submit_cases (c : Submission) (s : Slot) :
    (∃ report : Option Report, submitFriendOperation c s = (s, report, none) ∧ report.isSome =
      c.isFriend ∧
      ∀ r ∈ report, r.request = c.request ∧ r.peer = c.peer ∧ r.success = false) ∨
    c.isFriend = true ∧ s.peer = 0 ∧ c.peer ≠ 0 ∧
      submitFriendOperation c s =
      (⟨c.peer, c.request, c.id, true⟩, none, some ⟨c.request, some c.payload⟩) := by
  unfold submitFriendOperation
  split_ifs with hfriend honline hpeer hinvalid
  · exact Or.inl ⟨_, rfl, hfriend.symm, by simp⟩
  · exact Or.inl ⟨_, rfl, hfriend.symm, by simp⟩
  · exact Or.inr ⟨hfriend, not_not.mp hpeer, fun hzero => hinvalid (Or.inl hzero.le), rfl⟩
  · exact Or.inl ⟨_, rfl, hfriend.symm, by simp⟩
  · exact Or.inl ⟨none, rfl, by simpa using hfriend, nofun⟩

theorem Ok.submit (h : l.Ok) {c : Submission} (hid : c.id.length = 36)
    (hfresh : c.id ∉ l.calls.map Submission.id) : (l.submit c).Ok := by
  have hids : ((l.calls ++ [c]).map Submission.id).Nodup := by
    rw [map_append, map_singleton, ← concat_eq_append]
    exact h.ids.concat hfresh
  have hlength : ∀ c' ∈ l.calls ++ [c], c'.id.length = 36 := by
    simpa [or_imp, forall_and, hid] using h.length_id
  have hold : ∀ c' ∈ l.calls, c' ∈ l.calls ++ [c] := fun _ => mem_append_left _
  have hnew : c ∈ l.calls ++ [c] := mem_append_right _ (mem_singleton_self c)
  have hentries : ∀ e ∈ l.entries, ∃ c' ∈ l.calls ++ [c], _ := fun e he =>
    (h.entries e he).imp fun c' => And.imp_left (hold c')
  rcases submit_cases c l.slot with ⟨report, hr, hfriend, hreport⟩ | ⟨hfriend, hfree, hpeer, hr⟩
  · have hsubmit : l.submit c = { l with
        calls := l.calls ++ [c]
        entries := l.entries ++ (report.map fun report => ⟨c.id, none, report⟩).toList } := by
      unfold Log.submit
      rw [hr]
    rw [hsubmit]
    refine ⟨hids, hlength, fun hp => ?_, h.timer, ?_, fun c' hc' => ?_, fun e he => ?_⟩
    · exact (h.slot hp).imp fun c' => And.imp_left (hold c')
    · show (List.map Entry.call _ ++ l.waiting).Perm _
      rw [filter_append, map_append, map_append]
      cases report with
      | none => simpa [← hfriend, filter_singleton] using h.tally
      | some r =>
        rw [filter_singleton, ← hfriend, append_assoc]
        exact perm_middle.trans ((h.tally.cons c.id).trans (perm_append_singleton _ _).symm)
    · exact (h.ended c' hc').imp_left (hold c')
    · rcases mem_append.mp he with he | he
      · exact hentries e he
      · obtain ⟨r, hr, rfl⟩ : ∃ r, report = some r ∧ e = ⟨c.id, none, r⟩ := by
          simpa [eq_comm] using he
        obtain ⟨hrequest, hpeer, hfailed⟩ := hreport r hr
        exact ⟨c, hnew, rfl, hrequest, hpeer, by simp [hfailed], nofun⟩
  · have hsubmit : l.submit c = { l with
        slot := ⟨c.peer, c.request, c.id, true⟩
        calls := l.calls ++ [c] } := by
      simp [Log.submit, hr]
    rw [hsubmit]
    refine ⟨hids, hlength, fun _ => ⟨c, hnew, rfl⟩, fun _ => hpeer, ?_, fun c' hc' => ?_, hentries⟩
    · have hwaiting : l.waiting = [] := if_pos hfree
      have htally := h.tally.append_right [c.id]
      rw [hwaiting, append_nil] at htally
      simpa [waiting, hpeer, hfriend, filter_append] using htally
    · have hcalls := (h.ended c' hc').1
      refine ⟨hold c' hcalls, fun hwaiting => hfresh ?_⟩
      obtain heq : c'.id = c.id := by simpa [waiting, hpeer] using hwaiting
      exact heq ▸ mem_map_of_mem hcalls

theorem Ok.step {setup : Setup} {l' : Log} (h : l.Ok) (hstep : Step setup l l') : l'.Ok := by
  cases hstep with
  | submit hid hfresh => exact h.submit hid hfresh
  | @response c body hc hanswer =>
    refine h.handle ?_ (Or.inl rfl)
    unfold finishFriendOperation
    split_ifs with hslot hother
    · exact Or.inl rfl
    · exact Or.inl rfl
    · obtain ⟨hpeer, hrequest⟩ := not_or.mp hslot
      refine Or.inr
        ⟨hpeer, isOk (body.get "error"), finishMessage c.request body, ?_, fun _ => nofun, ?_⟩
      · rw [not_not.mp hrequest]
      · -- the response has the id of the slot
        rw [hanswer.request_id (h.length_id c hc)] at hother
        rintro _ ⟨⟩
        exact not_not.mp fun hne => hother (decide_eq_true hne)
  | timeout htimer =>
    exact h.handle (Or.inr ⟨h.timer htimer, _, _, rfl, nofun, nofun⟩) (Or.inr ⟨rfl, rfl⟩)
  | disconnected =>
    unfold friendDisconnected
    split_ifs with hpeer
    · exact h.handle (Or.inl rfl) (Or.inr ⟨hpeer, rfl⟩)
    · exact h.handle (Or.inr ⟨hpeer, _, _, rfl, nofun, nofun⟩) (Or.inr ⟨rfl, rfl⟩)

theorem ok_init : ({} : Log).Ok where
  ids := nodup_nil
  length_id := nofun
  slot h := absurd rfl h
  timer := nofun
  tally := .nil
  ended := nofun
  entries := nofun

end Log

/-- **Friend operations complete once and never cross.** In every run, whatever the order of calls,
responses, timeouts and disconnections:

* a call has at most one report,
* and exactly one as soon as the timer has fired or the socket was disconnected after it,
* a report names the request and the peer of its call; if it goes back to a response, as each
  success does, then to the response to that call. -/
theorem friend_operations_complete_once {setup : Setup} {l : Log} (h : l.Reachable setup) :
    (∀ c ∈ l.calls, l.count c ≤ 1) ∧
    (∀ c ∈ l.ended, c.request = .addFriendReq ∨ c.request = .authFriendReq → l.count c = 1) ∧
    ∀ e ∈ l.entries, ∃ c ∈ l.calls, e.call = c.id ∧ e.report.request = c.request ∧ e.report.peer =
    c.peer ∧
      (e.report.success = true → e.cause = some c.id) ∧ ∀ id, e.cause = some id → id = c.id := by
  have hok : l.Ok := h.rec Log.ok_init fun _ hstep ih => ih.step hstep
  have hnodup : (l.entries.map Entry.call).Nodup :=
    (hok.tally.nodup_iff.mpr (hok.ids.sublist (filter_sublist.map _))).of_append_left
  refine ⟨fun c _ => nodup_iff_count_le_one.mp hnodup c.id, fun c hc hfriend => ?_, fun e he => ?_⟩
  · obtain ⟨hcalls, hwaiting⟩ := hok.ended c hc
    have hmem := hok.tally.mem_iff.mpr
      (mem_map_of_mem (mem_filter.mpr ⟨hcalls, decide_eq_true hfriend⟩))
    exact count_eq_one_of_mem hnodup ((mem_append.mp hmem).resolve_right hwaiting)
  · obtain ⟨c, hc, hcall, hrequest, hpeer, hsuccess, hcause⟩ := hok.entries e he
    refine ⟨c, hc, hcall, hrequest, hpeer, fun hs => ?_, hcause⟩
    obtain ⟨id, hid⟩ := Option.ne_none_iff_exists'.mp (hsuccess hs)
    rw [hid, hcause id hid]

def Log.first : Submission := ⟨.addFriendReq, 2, [], true, 1, [], List.replicate 36 0⟩

/-- A call that times out. -/
theorem first_call_reported : ((({} : Log).submit Log.first).handle
    (friendTimeout (({} : Log).submit Log.first).slot) none [Log.first]).count Log.first = 1 :=
  (@friend_operations_complete_once ⟨[], id, id, fun _ => 0, id⟩ _ ((Relation.ReflTransGen.single
    (.submit (by decide) (by decide))).tail (.timeout rfl))).2.1 Log.first mem_cons_self
      (Or.inl rfl)

end DistributedChat.Client
