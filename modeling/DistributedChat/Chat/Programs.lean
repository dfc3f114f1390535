import DistributedChat.Chat.Conformance
import DistributedChat.Lib.Fallible

/-!
# Every program of the cluster keeps to the discipline

The remaining handlers of `LogicSystem`, the calls of other servers, the status server, and with
them every program `launch` starts. A handler other than the login runs only for a session that has
a user; the user it acts for is the user of the session, whatever the frame says.
-/

namespace DistributedChat.Chat

open Lib

variable {g : Ghost} (setup : Setup)

theorem quiet_Send_other {s : Sid} {body : Json} {msgid : MsgId}
    (h : msgid ≠ .textChatMsgRsp ∧ msgid ≠ .notifyTextChatMsgReq) :
    Tame g (CSession.Send setup s body msgid) := by
  refine quiet_Send setup ?_
  cases msgid with
  | textChatMsgRsp => exact absurd rfl h.1
  | notifyTextChatMsgReq => exact absurd rfl h.2
  | _ => trivial

/-! ## Search -/

theorem quiet_searchThrough {base_key : Bytes} (icon : Json → Option Json)
    {lookup : Svc (Option UserInfo)}
    {R : Set Fact → Option UserInfo → Prop} (hlookup : ∀ {g : Ghost}, Quiet g lookup R)
    (hcache : ∀ {g : Ghost} {user : UserInfo}, R g.know (some user) →
      g.MayCache (cString base_key) (.json (profileJson user.uid user))) :
    Tame g (searchThrough base_key icon lookup) := by
  refine (quiet_Get base_key).bind fun _ r _ _ => ?_
  cases r with
  | some info =>
    dsimp only
    split <;> exact .pure trivial
  | none =>
    refine hlookup.bind fun g₁ user _ huser => ?_
    cases user with
    | none => exact .pure trivial
    | some user => exact (quiet_Set_json (hcache huser)).bind fun _ _ _ _ => .pure trivial

theorem quiet_GetUserByUid (uid_str : Bytes) : Tame g (GetUserByUid uid_str) := by
  unfold GetUserByUid
  split
  · exact .pure trivial
  · split
    · exact .pure trivial
    · exact quiet_searchThrough _ (MysqlDao.quiet_GetUser _) fun {g user} h =>
        g.mayCache_profile (h user rfl).2

theorem quiet_GetUserByName (name : Bytes) : Tame g (GetUserByName name) :=
  quiet_searchThrough _ (MysqlDao.quiet_GetUserByName _) fun {g _} _ => g.mayCache _ rfl rfl

theorem quiet_SearchUserCallback (s : Sid) (data : Option Json) :
    Tame g (SearchUserCallback setup s data) := by
  unfold SearchUserCallback
  split
  · exact (quiet_Send_other setup (by decide)).bind fun _ _ _ _ => .pure trivial
  · have hend : ∀ (g : Ghost) (reply : Reply), Tame g (do
        let _ ← CSession.Send setup s reply.rtvalue .searchUserRsp
        if reply.thrown then throw) := by
      intro g reply
      refine (quiet_Send_other setup (by decide)).bind fun _ _ _ _ => ?_
      split
      · exact .throw
      · exact .pure trivial
    dsimp only
    split
    · exact hend g _
    · split
      · exact (quiet_GetUserByUid _).bind fun g₁ reply _ _ => hend g₁ reply
      · exact (quiet_GetUserByName _).bind fun g₁ reply _ _ => hend g₁ reply

/-! ## Friends -/

theorem quiet_notifyApplication (server : ServerName) (uid touid : Uid) (applyname : Bytes)
    (rtvalue : Json) :
    Tame g (notifyApplication setup server uid touid applyname rtvalue) := by
  refine (quiet_Get _).bind fun _ ip _ _ => ?_
  cases ip with
  | none => exact .pure trivial
  | some ip =>
    refine (quiet_GetBaseInfo (decimal uid) uid).bind fun _ info _ _ => ?_
    dsimp only
    split
    · refine (quiet_getSession server touid).bind fun _ peer _ _ => ?_
      cases peer with
      | none => exact .pure trivial
      | some peer =>
        refine (quiet_Send_other setup (by decide)).bind fun _ _ _ _ => ?_
        split <;> exact .pure trivial
    · cases ip with
      | json _ => exact .pure trivial
      | text target =>
        refine (Quiet.silent (e := .peer (.notify target _)) trivial fun _ => rfl).bind
          fun _ _ _ _ => ?_
        split <;> exact .pure trivial

variable {uid : Uid}

theorem quiet_addFriend (server : ServerName) (touid : Uid) (applyname : Bytes) (rtvalue : Json)
    (hacts : g.Acts uid) : Tame g (addFriend setup server uid touid applyname rtvalue) := by
  unfold addFriend
  dsimp only
  split
  · exact .pure trivial
  · refine (MysqlDao.quiet_CheckFriendRelation uid touid).bind fun g₁ r hle₁ _ => ?_
    rcases r with _ | _ | _
    · exact .pure trivial
    · refine (MysqlDao.quiet_GetUser touid).bind fun g₂ user hle₂ _ => ?_
      cases user with
      | none => exact .pure trivial
      | some _ =>
        have hacts₂ := (hle₁.trans hle₂).near.acts hacts
        refine (MysqlDao.quiet_AddFriendApply touid hacts₂).bind fun _ _ _ _ => ?_
        split
        · exact quiet_notifyApplication setup server uid touid applyname rtvalue
        · exact .pure trivial
    · exact .pure trivial

theorem quiet_AddFriendCallback {s : Sid} (data : Option Json) (hself : g.self = .session s)
    (hbound : Fact.bound s uid ∈ g.know) : Tame g (AddFriendCallback setup s data) := by
  unfold AddFriendCallback
  split
  · exact quiet_Close s
  · refine (quiet_getUserId_bound hbound).bind fun g₁ _ hle₁ ⟨huid, _⟩ => ?_
    subst huid
    refine (quiet_addFriend setup s.server _ _ _
      ⟨s, hle₁.self.trans hself, hle₁.know hbound⟩).bind fun _ _ _ _ => ?_
    exact (quiet_Send_other setup (by decide)).bind fun _ _ _ _ => .pure trivial

theorem quiet_notifyAcceptance (server : ServerName) (uid touid : Uid) :
    Tame g (notifyAcceptance setup server uid touid) := by
  refine (quiet_Get _).bind fun _ ip _ _ => ?_
  cases ip with
  | none => exact .pure trivial
  | some ip =>
    dsimp only
    split
    · refine (quiet_getSession server touid).bind fun _ peer _ _ => ?_
      cases peer with
      | none => exact .pure trivial
      | some peer =>
        refine (quiet_GetBaseInfo (decimal uid) uid).bind fun _ _ _ _ => ?_
        exact (quiet_Send_other setup (by decide)).bind fun _ _ _ _ => .pure trivial
    · cases ip with
      | json _ => exact .pure trivial
      | text target =>
        refine (Quiet.silent (e := .peer (.notify target _)) trivial fun _ => rfl).bind
          fun _ _ _ _ => ?_
        exact .pure trivial

theorem quiet_authFriend {touid : Uid} (back_name : Bytes) {info : Option UserInfo} (rtvalue : Json)
    (hacts : g.Acts uid) (huid : Fact.known uid ∈ g.know)
    (htouid : info ≠ none → Fact.known touid ∈ g.know) :
    Tame g (authFriend uid touid back_name info rtvalue) := by
  unfold authFriend
  split
  · exact .pure trivial
  · rename_i hguard
    obtain ⟨-, hne, hinfo⟩ : ¬ touid ≤ 0 ∧ ¬ touid = uid ∧ ¬ info = none := by
      simpa only [not_or] using hguard
    refine (MysqlDao.quiet_CheckFriendRelation uid touid).bind fun g₁ r hle₁ _ => ?_
    rcases r with _ | _ | _
    · exact .pure trivial
    · have hknown := hle₁.know (htouid hinfo)
      refine (MysqlDao.quiet_AddFriend back_name (Ne.symm hne) (hle₁.know huid) hknown
        ⟨uid, hle₁.near.acts hacts⟩).bind fun _ result _ _ => ?_
      cases result with
      | Success | PendingMissing | StorageError => exact .pure trivial
    · exact .pure trivial

theorem quiet_AuthFriendCallback {s : Sid} (data : Option Json) (hself : g.self = .session s)
    (hbound : Fact.bound s uid ∈ g.know) (hknown : Fact.known uid ∈ g.know) :
    Tame g (AuthFriendCallback setup s data) := by
  unfold AuthFriendCallback
  split
  · exact quiet_Close s
  · rename_i root touid back_name _
    refine (quiet_getUserId_bound hbound).bind fun g₁ _ hle₁ ⟨huid, _⟩ => ?_
    subst huid
    refine (quiet_GetBaseInfo (decimal touid) touid).bind fun g₂ info hle₂ htouid => ?_
    have hle₂ := hle₁.trans hle₂
    refine (quiet_authFriend back_name _ ⟨s, hle₂.self.trans hself, hle₂.know hbound⟩
      (hle₂.know hknown) htouid).bind fun g₃ r _ _ => ?_
    obtain ⟨rtvalue, accepted⟩ := r
    have hend : ∀ g : Ghost, Tame g (do
        let _ ← CSession.Send setup s rtvalue .authFriendRsp
        return ()) :=
      fun _ => (quiet_Send_other setup (by decide)).bind fun _ _ _ _ => .pure trivial
    dsimp only
    split
    · exact (quiet_notifyAcceptance setup s.server _ touid).bind fun g₄ _ _ _ => hend g₄
    · exact hend g₃

/-! ## Text messages -/

theorem valid_of_acceptsAll {sender receiver : Uid} {ms : List TextMessage} {bytes : ℕ}
    (h : acceptsAll sender receiver ms bytes = true) (hs : 0 < sender ∧ sender < 2 ^ 31)
    (hr : 0 < receiver ∧ receiver < 2 ^ 31) (hne : sender ≠ receiver) :
    ∀ m ∈ ms, m.sender_uid = sender ∧ m.receiver_uid = receiver ∧ m.Valid := by
  induction ms generalizing bytes with
  | nil => nofun
  | cons m ms ih =>
    simp only [acceptsAll] at h
    split at h
    · cases h
    · rename_i hguard
      split at h
      · cases h
      · intro m' hm'
        rcases List.mem_cons.mp hm' with rfl | hm'
        · simp only [not_or, not_not, not_lt] at hguard
          obtain ⟨hsender, hreceiver, hid, hidlen, hcontent, hlen⟩ := hguard
          exact ⟨hsender, hreceiver, ⟨hsender ▸ hs, hreceiver ▸ hr, hsender ▸ hreceiver ▸ hne,
            ⟨hid, hidlen⟩, ⟨hcontent, hlen⟩⟩⟩
        · exact ih h m' hm'

variable {f : Frame}

theorem quiet_accept {s : Sid} {sender receiver : Uid} (messages : List TextMessage)
    (hself : g.self = .session s) (hbound : Fact.bound s sender ∈ g.know)
    (hjob : g.job = some (.frame f))
    (hid : f.id = .textChatMsgReq) (hs : sender < 2 ^ 31) (hr : receiver < 2 ^ 31) :
    Quiet g (TextMessageService.accept MysqlDao.CheckFriendRelation MysqlDao.PersistTextMessages
      sender receiver messages) fun K result => result = .Accepted →
        (∀ m ∈ messages, Fact.stored m ∈ K) ∧ messages ≠ [] ∧ messages.length ≤ 50 ∧
          acceptsAll sender receiver messages 0 = true := by
  unfold TextMessageService.accept
  split
  · exact .pure nofun
  · rename_i hguard
    obtain ⟨hspos, hrpos, hne⟩ : ¬ sender ≤ 0 ∧ ¬ receiver ≤ 0 ∧ ¬ sender = receiver := by
      simpa only [not_or] using hguard
    split
    · exact .pure nofun
    · rename_i hsize
      obtain ⟨hnil, hlength⟩ : ¬ messages = [] ∧ ¬ 50 < messages.length := by
        simpa only [not_or] using hsize
      split
      · rename_i haccepts
        refine Quiet.recover ?_ fun _ _ => .pure nofun
        refine (MysqlDao.quiet_CheckFriendRelation sender receiver).bind fun g₁ r hle hchecked => ?_
        rcases r with _ | _ | _
        · exact .pure nofun
        · exact .pure nofun
        · have hms : ∀ m ∈ messages, g₁.MayInsert m := by
            intro m hm
            obtain ⟨hsender, hreceiver, hvalid⟩ := valid_of_acceptsAll haccepts
              ⟨not_le.mp hspos, hs⟩ ⟨not_le.mp hrpos, hr⟩ hne m hm
            refine ⟨f, hle.job.trans hjob, hid, ⟨s, hle.self.trans hself, ?_⟩, ?_, hvalid⟩
            · rw [hsender]
              exact hle.know hbound
            · rw [hsender, hreceiver]
              exact hchecked rfl
          refine (MysqlDao.quiet_PersistTextMessages hms).bind fun _ ok _ hstored => ?_
          split
          · rename_i hok
            exact .pure fun _ => ⟨hstored hok, hnil, not_lt.mp hlength, haccepts⟩
          · exact .pure nofun
      · exact .pure nofun

theorem quiet_TextChatMsgCallback {s : Sid} (hself : g.self = .session s)
    (hbound : Fact.bound s uid ∈ g.know)
    (hjob : g.job = some (.frame f)) (hid : f.id = .textChatMsgReq) :
    Tame g (TextChatMsgCallback setup s f.body) := by
  unfold TextChatMsgCallback
  split
  · exact quiet_Close s
  · rename_i touid texts hrequest
    have htouid : touid < 2 ^ 31 := by
      simp only [textChatRequest, Option.bind_eq_bind, Option.bind_eq_some_iff] at hrequest
      obtain ⟨_, -, touid', htouid, _, -, h⟩ := hrequest
      split at h
      · cases h
        exact int?_lt htouid
      · cases h
    refine (quiet_getUserId_bound hbound).bind fun g₁ uid' hle₁ ⟨huid, hlt⟩ => ?_
    subst huid
    dsimp only
    split
    · have hsound : (⟨.textChatMsgRsp, textChatReply uid' touid texts .InvalidMessage⟩ :
          OutFrame).Sound fun m => Fact.stored m ∈ g₁.know :=
        ⟨uid', touid, texts, .InvalidMessage, rfl, nofun⟩
      exact (quiet_Send setup hsound).bind fun _ _ _ _ => .pure trivial
    · rename_i messages hmessages
      refine (quiet_accept messages (hle₁.self.trans hself) (hle₁.know hbound)
        (hle₁.job.trans hjob) hid hlt htouid).bind fun g₂ result _ hresult => ?_
      -- the reply is sent whatever the result, and is true of the stored messages
      have hend : ∀ g' : Ghost, g₂.Le g' → Quiet g' (do
          let _ ← CSession.Send setup s (textChatReply uid' touid texts result) .textChatMsgRsp
          return ()) fun _ _ => True := by
        intro g' hle'
        have hsound : (⟨.textChatMsgRsp, textChatReply uid' touid texts result⟩ :
            OutFrame).Sound fun m => Fact.stored m ∈ g'.know :=
          ⟨uid', touid, texts, result, rfl, fun h => ⟨messages, hmessages, fun m hm =>
            hle'.know ((hresult h).1 m hm)⟩⟩
        exact (quiet_Send setup hsound).bind fun _ _ _ _ => .pure trivial
      split
      · rename_i haccepted
        obtain ⟨-, hnil, hlength, haccepts⟩ := hresult haccepted
        refine (Quiet.silent (e := .logic (.postNotification s.server touid messages))
          ⟨hnil, hlength, uid', haccepts⟩ fun _ => rfl).bind fun g₃ _ hle₃ _ => ?_
        exact hend g₃ hle₃
      · exact hend g₂ (.refl g₂)

theorem quiet_TextChatAckCallback {s : Sid} (hself : g.self = .session s)
    (hbound : Fact.bound s uid ∈ g.know)
    (hjob : g.job = some (.frame f)) (hid : f.id = .textChatMsgAck) :
    Tame g (TextChatAckCallback setup s f.body) := by
  unfold TextChatAckCallback
  split
  · exact quiet_Close s
  · rename_i sender_uid msgids hrequest
    split
    · exact quiet_Close s
    · rename_i ids hids
      refine (quiet_getUserId_bound hbound).bind fun g₁ uid' hle ⟨huid, _⟩ => ?_
      subst huid
      have hack : ∀ id ∈ ids, g₁.MayAcknowledge uid' sender_uid id := by
        intro id hmem
        obtain ⟨v, hv, hid'⟩ := mem_of_mapM hids id hmem
        exact ⟨f, hle.job.trans hjob, ⟨s, hle.self.trans hself, hle.know hbound⟩, hid, msgids,
          hrequest, v, hv, hid'⟩
      refine (MysqlDao.quiet_AcknowledgeTextMessages hack).bind fun _ _ _ _ => ?_
      split
      · exact (quiet_getUserId s).bind fun _ uid _ _ =>
          quiet_DeliverPendingTextMessages setup s uid
      · exact .pure trivial

/-! ## Heartbeat and resource credentials -/

theorem quiet_flushSnapshot (s : Sid) (snapshot : Json) :
    Tame g (flushSnapshot setup s snapshot) :=
  (quiet_Send_other setup (by decide)).bind fun _ _ _ _ => .pure trivial

theorem quiet_snapshotLoop (s : Sid) (key : String) (items : List Json) (snapshot : Json) :
    Tame g (snapshotLoop setup s key items snapshot) := by
  induction items generalizing g snapshot with
  | nil => exact .pure trivial
  | cons item items ih =>
    have hend : ∀ (g : Ghost) (snapshot : Json), Quiet g
        (if ((snapshot.set key ((snapshot.get key).append item)).get key).elements.length =
          20 then do
          let snapshot ← flushSnapshot setup s
            (snapshot.set key ((snapshot.get key).append item))
          snapshotLoop setup s key items snapshot
        else snapshotLoop setup s key items (snapshot.set key ((snapshot.get key).append item)))
        fun _ _ => True := by
      intro g snapshot
      split
      · exact (quiet_flushSnapshot setup s _).bind fun _ _ _ _ => ih _
      · exact ih _
    unfold snapshotLoop
    dsimp only
    split
    · exact (quiet_flushSnapshot setup s snapshot).bind fun g₁ snapshot _ _ => hend g₁ snapshot
    · exact hend g snapshot

theorem quiet_HeartbeatCallback (s : Sid) (data : Option Json) :
    Tame g (HeartbeatCallback setup s data) := by
  unfold HeartbeatCallback
  split
  · refine (quiet_getUserId s).bind fun _ uid _ _ => ?_
    refine (MysqlDao.quiet_GetApplyList uid 50).bind fun _ applications _ _ => ?_
    refine (quiet_snapshotLoop setup s _ _ _).bind fun _ snapshot _ _ => ?_
    refine (quiet_getUserId s).bind fun _ uid _ _ => ?_
    refine (MysqlDao.quiet_GetFriendList uid).bind fun _ friends _ _ => ?_
    refine (quiet_snapshotLoop setup s _ _ _).bind fun _ snapshot _ _ => ?_
    refine (quiet_getUserId s).bind fun _ uid _ _ => ?_
    refine (Quiet.silent (e := .peer (.pendingResources uid)) trivial fun _ => rfl).bind
      fun _ files _ _ => ?_
    cases files with
    | none => exact .throw
    | some files =>
      refine (quiet_snapshotLoop setup s _ _ _).bind fun _ snapshot _ _ => ?_
      exact (quiet_flushSnapshot setup s snapshot).bind fun _ _ _ _ => .pure trivial
  · exact (quiet_Send_other setup (by decide)).bind fun _ _ _ _ => .pure trivial

theorem quiet_ResourceTokenCallback (s : Sid) (data : Option Json) :
    Tame g (ResourceTokenCallback setup s data) := by
  unfold ResourceTokenCallback
  split
  · exact .throw
  · split
    · exact .throw
    · refine (quiet_getUserId s).bind fun _ uid _ _ => ?_
      refine (Quiet.call (e := .peer .newToken) (P := fun _ _ => True) (fun _ => trivial)
        fun _ _ => ⟨Ghost.le_learn _ _, trivial⟩).bind fun _ token _ _ => ?_
      refine (quiet_getUserId s).bind fun g₁ uid' _ _ => ?_
      refine (quiet_SetWithTtl (g₁.mayCache _ rfl rfl) TokenSeconds).bind fun g₂ ok _ _ => ?_
      have hend : ∀ (g : Ghost) (response : Json), Tame g (do
          let _ ← CSession.Send setup s response .resourceTokenRsp
          return ()) :=
        fun _ _ => (quiet_Send_other setup (by decide)).bind fun _ _ _ _ => .pure trivial
      cases ok with
      | true =>
        refine (quiet_SetWithTtl (g₂.mayCache _ rfl rfl) TokenSeconds).bind fun g₃ _ _ _ => ?_
        exact hend g₃ _
      | false => exact hend g₂ _

theorem quiet_ResourceRevokeCallback (s : Sid) (data : Option Json) :
    Tame g (ResourceRevokeCallback s data) :=
  (quiet_Del _).bind fun _ _ _ _ => quiet_Close s

/-! ## Jobs -/

theorem quiet_callback {s : Sid} {handler : Sid → Option Json → Svc Unit}
    (hhandler : callback setup f.id = some handler) (hlogin : f.id ≠ .chatLogin)
    (hself : g.self = .session s)
    (hbound : Fact.bound s uid ∈ g.know) (hknown : Fact.known uid ∈ g.know)
    (hjob : g.job = some (.frame f)) :
    Tame g (handler s f.body) := by
  cases hid : f.id <;> rw [hid] at hhandler <;> cases hhandler
  case chatLogin => exact absurd hid hlogin
  case searchUserReq => exact quiet_SearchUserCallback setup s f.body
  case addFriendReq => exact quiet_AddFriendCallback setup f.body hself hbound
  case authFriendReq => exact quiet_AuthFriendCallback setup f.body hself hbound hknown
  case textChatMsgReq => exact quiet_TextChatMsgCallback setup hself hbound hjob hid
  case textChatMsgAck => exact quiet_TextChatAckCallback setup hself hbound hjob hid
  case heartBeatReq => exact quiet_HeartbeatCallback setup s f.body
  case resourceTokenReq => exact quiet_ResourceTokenCallback setup s f.body
  case resourceRevokeReq => exact quiet_ResourceRevokeCallback s f.body

theorem Keeps.of_quiet {α : Type} {p : Svc α} (h : Tame g p) : Keeps g p fun _ _ => True :=
  h.keeps.weaken fun _ _ _ => trivial

theorem keeps_DealMsg {s : Sid} (hself : g.self = .session s) (hjob : g.job = some (.frame f)) :
    Keeps g (DealMsg setup s f) fun _ _ => True := by
  refine (quiet_isClosed s).keeps.bind fun g₁ _ hsame₁ _ => ?_
  split
  · exact .pure trivial
  · dsimp only
    split
    · exact .pure trivial
    · rename_i handler hhandler
      split
      · rename_i hlogin
        obtain rfl : LoginChatCallback setup = handler := by
          rw [hlogin] at hhandler
          exact Option.some.inj hhandler
        exact (keeps_LoginChatCallback setup f.body (hsame₁.self.trans hself)).recover
          fun _ _ => .of_quiet (quiet_Close s)
      · rename_i hlogin
        refine (quiet_getUserId s).keeps.bind fun g₂ uid hsame₂ ⟨_, _, hpos, _⟩ => ?_
        have hsame := hsame₁.trans hsame₂
        split
        · exact .of_quiet (quiet_Close s)
        · rename_i huid
          obtain ⟨hbound, hknown⟩ := hpos (not_le.mp huid)
          exact (Keeps.of_quiet
            (quiet_callback setup hhandler hlogin (hsame.self.trans hself) hbound
            hknown (hsame.job.trans hjob))).recover fun _ _ => .of_quiet (quiet_Close s)

theorem keeps_handleJob {s : Sid} {job : Job} (hself : g.self = .session s)
    (hjob : g.job = some job) : Keeps g (handleJob setup s job) fun _ _ => True := by
  cases job with
  | frame f => exact keeps_DealMsg setup hself hjob
  | wake uid =>
    refine (quiet_isClosed s).keeps.bind fun _ _ _ _ => ?_
    split
    · exact .pure trivial
    · exact .of_quiet (quiet_DeliverPendingTextMessages setup s uid)
  | tick => exact .of_quiet (quiet_tickVisit setup s)

theorem meets_runJob (s : Sid) :
    Meets discipline (fun g _ => g.Idle) { self := .session s } (runJob setup s) := by
  refine meets_call ⟨rfl, rfl, rfl⟩ fun job _ => ?_
  let g : Ghost := { self := .session s, job := some job }
  have hidle : g.Idle := ⟨rfl, rfl⟩
  have hjob : Keeps g (Task.recover (handleJob setup s job) fun _ => return ()) fun _ _ => True :=
    (keeps_handleJob setup rfl rfl).recover fun _ _ => .pure trivial
  refine Meets.andThen ((hjob hidle).weaken ?_)
  rintro g' r ⟨hsame, -⟩
  cases r with
  | error e => exact hsame.idle hidle
  | ok _ => exact ⟨⟨hsame.self, hsame.idle hidle⟩, fun _ _ => hsame.idle hidle⟩

/-! ## Other servers -/

theorem quiet_runNotification (server : ServerName) : Tame g (runNotification server) := by
  refine (Quiet.silent (e := .logic (.nextNotification server)) trivial fun _ => rfl).bind
    fun _ r _ _ => ?_
  exact quiet_NotifyRecipient server r.1 r.2

namespace ChatServiceImp

theorem quiet_NotifyAddFriend (server : ServerName) (request : AddFriendReq) :
    Tame g (NotifyAddFriend setup server request) := by
  unfold NotifyAddFriend
  split
  · exact .pure trivial
  · refine (MysqlDao.quiet_HasPendingFriendApply _ _).bind fun _ _ _ _ => ?_
    split
    · refine (quiet_getSession server _).bind fun _ r _ _ => ?_
      cases r with
      | none => exact .pure trivial
      | some s => exact quiet_Send_other setup (by decide)
    · exact .pure trivial

theorem quiet_NotifyAuthFriend (server : ServerName) (fromuid touid : Uid) :
    Tame g (NotifyAuthFriend setup server fromuid touid) := by
  unfold NotifyAuthFriend
  split
  · exact .pure trivial
  · refine (MysqlDao.quiet_AreFriends _ _).bind fun _ _ _ _ => ?_
    split
    · refine (quiet_getSession server _).bind fun _ r _ _ => ?_
      cases r with
      | none => exact .pure trivial
      | some s =>
        exact (quiet_GetBaseInfo (decimal fromuid) fromuid).bind fun _ _ _ _ =>
          quiet_Send_other setup (by decide)
    · exact .pure trivial

theorem quiet_NotifyTextChatMsg (server : ServerName) (request : TextChatMsgReq) :
    Tame g (NotifyTextChatMsg server request) := by
  unfold NotifyTextChatMsg
  split
  · exact .pure trivial
  · refine (MysqlDao.quiet_AreFriends _ _).bind fun _ _ _ _ => ?_
    split
    · refine (quiet_getSession server _).bind fun _ r _ _ => ?_
      cases r with
      | none => exact .pure trivial
      | some s => exact quiet_WakeDelivery server _
    · exact .pure trivial

end ChatServiceImp

theorem quiet_servePeer (server : ServerName) (request : PeerRequest) :
    Tame g (servePeer setup server request) := by
  cases request with
  | addFriend request => exact ChatServiceImp.quiet_NotifyAddFriend setup server request
  | authFriend fromuid touid =>
    exact ChatServiceImp.quiet_NotifyAuthFriend setup server fromuid touid
  | textChatMsg request => exact ChatServiceImp.quiet_NotifyTextChatMsg server request

/-! ## Health and tickets -/

theorem quiet_PublishHealth (server : ServerName) : Tame g (CServer.PublishHealth server) := by
  refine (Quiet.silent (e := .session (.sessionCount server)) trivial fun _ => rfl).bind
    fun g₁ _ _ _ => ?_
  exact (quiet_SetWithTtl (g₁.mayCache _ rfl rfl) 15).bind fun _ _ _ _ => .pure trivial

namespace StatusServiceImpl

theorem quiet_healthyServers (names : List ServerName) : Tame g (healthyServers names) := by
  induction names generalizing g with
  | nil => exact .pure trivial
  | cons name names ih =>
    refine (quiet_Get _).bind fun _ count _ _ => ?_
    refine ih.bind fun _ rest _ _ => ?_
    split
    · split
      · exact .pure trivial
      · split
        · exact .pure trivial
        · exact .pure trivial
    · exact .pure trivial

theorem quiet_getChatServer : Tame g (getChatServer setup) := by
  unfold getChatServer
  split
  · exact .pure trivial
  · refine (quiet_healthyServers setup.servers).bind fun _ healthy _ _ => ?_
    exact .silent trivial fun _ => rfl

theorem keeps_insertToken {uid : Uid} {token : Bytes} (server : ServerName) (huid : 0 < uid)
    (hfresh : Fact.fresh token ∈ g.know) :
    Keeps g (insertToken uid token server) fun _ _ => True := by
  intro _
  refine ⟨⟨token, uid, server, ticketToken_ticket token, hfresh, huid, rfl, rfl, rfl⟩,
    fun r _ => ?_⟩
  exact ⟨⟨rfl, rfl, rfl, rfl⟩, fun _ _ => trivial⟩

theorem keeps_GetChatServer (uid : Uid) : Keeps g (GetChatServer setup uid) fun _ _ => True := by
  unfold GetChatServer
  split
  · exact .pure trivial
  · rename_i huid
    refine (quiet_getChatServer setup).keeps.bind fun _ server _ _ => ?_
    cases server with
    | none => exact .pure trivial
    | some server =>
      have htoken : ∀ g : Ghost, Quiet g (call (.peer .newToken)) fun K token =>
          Fact.fresh token ∈ K :=
        fun g => .call (fun _ => trivial) fun _ _ => ⟨g.le_learn _, Or.inr rfl⟩
      refine (htoken _).keeps.bind fun _ token _ ⟨_, hfresh⟩ => ?_
      refine (keeps_insertToken server (not_le.mp huid) hfresh).bind fun _ _ _ _ => ?_
      split <;> exact .pure trivial

end StatusServiceImpl

/-! ## The programs the cluster starts -/

theorem meets_of_keeps {t : Worker} {p : Svc Unit} (h : Keeps { self := t } p fun _ _ => True) :
    Meets discipline (fun g _ => discipline.final g) ({ self := t } : Ghost) p :=
  (h ⟨rfl, rfl⟩).weaken fun _ _ hr => hr.1.idle ⟨rfl, rfl⟩

/-- **Every program of the cluster keeps to the discipline.** -/
theorem meets_launch {l : Launch} {s : Shared} {t : Worker} {p : Svc Unit}
    (h : launch setup l s = some (t, p)) :
    Meets discipline (fun g _ => discipline.final g) ({ self := t } : Ghost) p := by
  cases l with
  | job sid =>
    obtain ⟨-, h⟩ := Option.ite_none_right_eq_some.mp h
    cases h
    exact meets_runJob setup sid
  | accept server n =>
    cases h
    exact meets_of_keeps (.of_quiet (quiet_HandleAccept server))
  | close sid n =>
    obtain ⟨-, h⟩ := Option.ite_none_right_eq_some.mp h
    cases h
    exact meets_of_keeps (.of_quiet (quiet_Close sid))
  | notification server n =>
    cases h
    exact meets_of_keeps (.of_quiet (quiet_runNotification server))
  | publishHealth server n =>
    cases h
    exact meets_of_keeps (.of_quiet (quiet_PublishHealth server))
  | peer server n request =>
    cases h
    exact meets_of_keeps (.of_quiet ((quiet_servePeer setup server request).bind
      fun _ _ _ _ => .pure trivial))
  | getChatServer n uid =>
    cases h
    exact meets_of_keeps ((StatusServiceImpl.keeps_GetChatServer setup uid).bind
      fun _ _ _ _ => .pure trivial)

end DistributedChat.Chat
