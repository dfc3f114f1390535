import DistributedChat.Chat.Discipline

/-!
# Storage, delivery and login keep to the discipline

One specification for each function, proved along its text from those of the functions it calls:
here storage, sessions, delivery and login.
-/

namespace DistributedChat.Chat

open Lib

variable {α : Type} {g : Ghost} {P : Set Fact → α → Prop}

/-! ## Redis -/

theorem ticketToken_ticket (token : Bytes) :
    ticketToken (CHAT_TICKET_PREFIX ++ token) = some token := by
  unfold ticketToken
  rw [if_pos (List.isPrefixOf_iff_prefix.mpr (List.prefix_append _ _)), List.drop_left]

variable {key : Bytes}

theorem Ghost.mayCache (value : RedisValue) (hticket : ticketToken key = none)
    (hprofile : USER_BASE_INFO.isPrefixOf key = false) : g.MayCache key value := by
  refine ⟨hticket, fun h => ?_⟩
  rw [hprofile] at h
  cases h

variable {uid : Uid} {user : UserInfo}

theorem profileOf_profileJson : ProfileOf (.json (profileJson uid user)) uid := by
  refine ⟨profileJson uid user, rfl, ?_⟩
  simp +decide only
    [profileJson, Json.setAll, List.foldl_cons, List.foldl_nil, Json.get_set, if_true, if_false]

/-- What `GetBaseInfo` writes is the profile of the user it has just read. -/
theorem Ghost.mayCache_profile {x : Bytes} (h : Fact.known uid ∈ g.know) :
    g.MayCache (cString (USER_BASE_INFO ++ x)) (.json (profileJson uid user)) :=
  ⟨rfl, fun _ => ⟨uid, profileOf_profileJson, h⟩⟩

variable {value : RedisValue}

/-- A profile that `GetBaseInfo` accepts from the cache carries the uid asked for. -/
theorem profileUid_of_cachedProfile {x : Bytes} (h : cachedProfile value uid = some user) :
    profileUid (cString (USER_BASE_INFO ++ x)) value = some uid := by
  have hkey : USER_BASE_INFO.isPrefixOf (cString (USER_BASE_INFO ++ x)) = true := rfl
  simp only [cachedProfile, Option.bind_eq_bind, Option.bind_eq_some_iff] at h
  obtain ⟨root, hroot, found, hfound, _, -, _, -, _, -, _, -, _, -, _, -, h⟩ := h
  split at h
  · rename_i heq
    subst heq
    unfold profileUid
    rw [if_pos hkey, hroot, Option.bind_some, hfound]
  · cases h

theorem quiet_Get (key : Bytes) : Quiet g (RedisMgr.Get key) fun K r =>
    ∀ v uid, r = some v → profileUid (cString key) v = some uid → Fact.known uid ∈ K := by
  refine .call (fun _ => trivial) fun r _ => ?_
  cases r with
  | none => exact ⟨.refl g, fun _ _ h => by cases h⟩
  | some v =>
    refine ⟨g.le_learn _, ?_⟩
    rintro w uid hw hprofile
    cases hw
    exact Or.inr ⟨uid, hprofile, rfl⟩

theorem quiet_Set (h : g.MayCache (cString key) value.cString) :
    Tame g (RedisMgr.Set key value) :=
  .silent h fun _ => rfl

theorem quiet_Set_json {v : Json} (h : g.MayCache (cString key) (.json v)) :
    Tame g (RedisMgr.Set key (.json v)) :=
  quiet_Set h

theorem quiet_SetWithTtl (h : g.MayCache key value) (ttl_seconds : ℕ) :
    Tame g (RedisMgr.SetWithTtl key value ttl_seconds) := by
  unfold RedisMgr.SetWithTtl
  split
  · exact .pure trivial
  · exact .silent h fun _ => rfl

theorem quiet_Del (key : Bytes) : Tame g (RedisMgr.Del key) :=
  .silent trivial fun _ => rfl

/-! ## Connections -/

variable {body : Svc α}

/-- A connection goes back to the pool as it came, whether the body ends or throws. -/
theorem Quiet.withConnection {unavailable : α} (hunavailable : ∀ K, P K unavailable)
    (hbody : g.Idle →
      Meets discipline (fun g' r => g.Near g' ∧ ∀ a, r = .ok a → P g'.know a) g body) :
    Quiet g (Chat.withConnection unavailable body) P := by
  intro hidle
  refine Meets.andThen ⟨hidle.1, fun r _ => ?_⟩
  cases r with
  | false => exact Quiet.pure (hunavailable _) hidle
  | true =>
    refine Meets.ensuring ((hbody hidle).weaken ?_)
    rintro g' r ⟨hnear, hP⟩
    exact ⟨trivial, fun _ _ =>
      ⟨⟨⟨hnear.self, hnear.job, hidle.1.symm, hnear.closing⟩, hnear.know⟩, hP⟩⟩

theorem Quiet.caught {a : α} (hfailed : ∀ K, P K a) (hbody : Quiet g body P) :
    Quiet g (Chat.caught a body) P :=
  hbody.recover fun _ _ => .pure (hfailed _)

theorem Quiet.connected {a : α} (ha : ∀ K, P K a) (hbody : Quiet g body P) :
    Quiet g (Chat.withConnection a (Chat.caught a body)) P :=
  .withConnection ha fun hidle =>
    (Quiet.caught ha hbody hidle).weaken fun _ _ h => ⟨h.1.near, h.2⟩

theorem quiet_query {q : Query} (hallow : g.Idle → q.Allow g) (hmoves : ∀ c r, q.moves c r = c) :
    Quiet g (query q) fun K v => q.teaches (some v) ⊆ K := by
  intro hidle
  refine ⟨hallow hidle, fun r _ => ⟨⟨⟨rfl, rfl, hmoves _ r, rfl⟩, Set.subset_union_left⟩, ?_⟩⟩
  rintro v hv
  cases r with
  | none => cases hv
  | some w =>
    cases hv
    exact Set.subset_union_right

/-! ## `MysqlDao`, single statements -/

namespace MysqlDao

theorem quiet_AddFriendApply {a : Uid} (b : Uid) (h : g.Acts a) : Tame g (AddFriendApply a b) := by
  refine .connected (fun _ => trivial) ?_
  refine (quiet_query (q := .insertApply a b) (fun hidle => ⟨hidle.1, h⟩) fun c r => by
    cases r <;> rfl).bind fun _ _ _ _ => ?_
  exact .pure trivial

/-- A row that is found is a registered user's. -/
theorem quiet_GetUser (uid : Uid) : Quiet g (GetUser uid) fun K r =>
    ∀ user, r = some user → Fact.known uid ∈ K ∧ Fact.known user.uid ∈ K := by
  refine .connected (fun _ _ h => by cases h) ?_
  refine (quiet_query (q := .selectUser uid) (fun hidle => hidle.1) fun c r => by
    cases r <;> rfl).weaken ?_
  rintro K r hteaches user rfl
  exact ⟨hteaches (Or.inl rfl), hteaches (Or.inr rfl)⟩

theorem quiet_GetUserByName (name : Bytes) : Quiet g (GetUserByName name) fun K r =>
    ∀ user, r = some user → Fact.known user.uid ∈ K := by
  refine .connected (fun _ _ h => by cases h) ?_
  refine (quiet_query (q := .selectUserByName name) (fun hidle => hidle.1) fun c r => by
    cases r <;> rfl).weaken ?_
  rintro K r hteaches user rfl
  exact hteaches rfl

theorem quiet_GetApplyList (touid : Uid) (limit : ℕ) : Tame g (GetApplyList touid limit) := by
  refine .connected (fun _ => trivial) ?_
  refine (quiet_query (q := .selectApplyList touid limit) (fun hidle => hidle.1) fun c r => by
    cases r <;> rfl).bind fun _ _ _ _ => ?_
  exact .pure trivial

theorem quiet_friendInfos (rows : List (Uid × Bytes)) : Tame g (friendInfos rows) := by
  induction rows generalizing g with
  | nil => exact .pure trivial
  | cons row rest ih =>
    obtain ⟨friend_id, back⟩ := row
    refine (quiet_GetUser friend_id).bind fun _ user _ _ => ?_
    cases user with
    | none => exact ih
    | some user => exact ih.bind fun _ _ _ _ => .pure trivial

theorem quiet_GetFriendList (self_id : Uid) : Tame g (GetFriendList self_id) := by
  refine .connected (fun _ => trivial) ?_
  refine (quiet_query (q := .selectFriends self_id) (fun hidle => hidle.1) fun c r => by
    cases r <;> rfl).bind fun _ rows _ _ => ?_
  exact (quiet_friendInfos rows).bind fun _ _ _ _ => .pure trivial

/-- An answer `true` is a check the job has made of the two. -/
theorem quiet_CheckFriendRelation (a b : Uid) : Quiet g (CheckFriendRelation a b) fun K r =>
    r = some true → Fact.checked a b ∈ K := by
  refine .connected (fun _ h => by cases h) ?_
  refine (quiet_query (q := .countFriends a b) (fun hidle => hidle.1) fun c r => by
    cases r <;> rfl).bind fun _ n _ hteaches => ?_
  refine .pure fun hn => hteaches ⟨?_, rfl⟩
  simpa using hn

theorem quiet_AreFriends (a b : Uid) : Tame g (AreFriends a b) :=
  (quiet_CheckFriendRelation a b).bind fun _ _ _ _ => .pure trivial

theorem quiet_HasPendingFriendApply (a b : Uid) : Tame g (HasPendingFriendApply a b) := by
  refine .connected (fun _ => trivial) ?_
  exact (quiet_query (q := .selectPendingApply a b) (fun hidle => hidle.1) fun c r => by
    cases r <;> rfl).weaken fun _ _ _ => trivial

/-- Every message of the answer has a committed row. -/
theorem quiet_GetPendingTextMessages (receiver_uid : Uid) (limit : ℕ) :
    Quiet g (GetPendingTextMessages receiver_uid limit) fun K r =>
      ∀ ms, r = some ms → ∀ m ∈ ms, Fact.stored m ∈ K := by
  unfold GetPendingTextMessages
  split
  · exact .pure fun _ h => by cases h
  · refine .connected (fun _ _ h => by cases h) ?_
    refine (quiet_query (q := .selectPendingMessages receiver_uid limit) (fun hidle => hidle.1)
      fun c r => by cases r <;> rfl).bind fun _ rows _ hteaches => ?_
    refine .pure ?_
    rintro ms hms m hm
    cases hms
    exact hteaches ⟨m, hm, rfl⟩

end MysqlDao

/-! ## Transactions -/

/-- The form of a specification in the midst of a transaction. -/
def Within (g : Ghost) (p : Svc α) (P : Ghost → α → Prop) : Prop :=
  Meets discipline (fun g' r => g.Near g' ∧ ∀ a, r = .ok a → P g' a) g p

section Within

variable {β : Type} {R : Ghost → α → Prop} {Q : Ghost → β → Prop}

theorem Within.pure {a : α} (h : R g a) : Within g (Pure.pure a) R := by
  refine Meets.pure ⟨(Ghost.Le.refl g).near, ?_⟩
  rintro b hb
  cases hb
  exact h

theorem Within.throw : Within g (throw : Svc α) R :=
  Meets.throw ⟨(Ghost.Le.refl g).near, fun _ h => by cases h⟩

variable {p : Svc α}

theorem Within.weaken {R' : Ghost → α → Prop} (h : Within g p R)
    (hR : ∀ g' a, g.Near g' → R g' a → R' g' a) :
    Within g p R' :=
  Meets.weaken h fun g' _ hr => ⟨hr.1, fun a ha => hR g' a hr.1 (hr.2 a ha)⟩

theorem Within.bind {f : α → Svc β} (hp : Within g p R)
    (hf : ∀ g' a, g.Near g' → R g' a → Within g' (f a) Q) :
    Within g (p >>= f) Q := by
  refine Meets.andThen (Meets.weaken hp ?_)
  rintro g' (e | a) ⟨hnear, hR⟩
  · exact ⟨hnear, fun _ h => by cases h⟩
  · refine Meets.weaken (hf g' a hnear (hR a rfl)) ?_
    rintro g'' r ⟨hnear', hQ⟩
    exact ⟨hnear.trans hnear', hQ⟩

theorem Within.recover {f : Unit → Svc α} (hp : Within g p R)
    (hf : ∀ g', g.Near g' → Within g' (f ()) R) :
    Within g (Task.recover p f) R := by
  refine Meets.recover (Meets.weaken hp ?_)
  rintro g' (e | a) ⟨hnear, hR⟩
  · refine Meets.weaken (hf g' hnear) ?_
    rintro g'' r ⟨hnear', hQ⟩
    exact ⟨hnear.trans hnear', hQ⟩
  · exact ⟨hnear, hR⟩

theorem within_query {q : Query} (hallow : q.Allow g) :
    Within g (query q) fun g' v => g'.conn = q.moves g.conn (some v) := by
  refine ⟨hallow, fun r _ => ⟨⟨rfl, rfl, rfl, Set.subset_union_left⟩, ?_⟩⟩
  rintro v hv
  cases r with
  | none => cases hv
  | some w =>
    cases hv
    rfl

theorem within_begin (h : g.conn = .auto) :
    Within g (setAutoCommit false) fun g' _ => g'.conn = .opened := by
  refine ⟨h, fun r _ => ?_⟩
  cases r with
  | none => exact ⟨g.near_conn _, fun _ h => by cases h⟩
  | some _ => exact ⟨g.near_conn _, fun _ _ => rfl⟩

theorem within_end (h : g.conn = .opened ∨ g.conn = .over) :
    Within g (setAutoCommit true) fun _ _ => True := by
  refine ⟨h, fun r _ => ?_⟩
  cases r with
  | none | some _ => exact ⟨g.near_conn _, fun _ _ => trivial⟩

/-- After a commit the messages it wrote are stored. -/
theorem within_commit (h : g.conn.Committable) :
    Within g commit fun g' _ => g'.conn = .opened ∧ ∀ m ∈ g.conn.messages,
    Fact.stored m ∈ g'.know := by
  refine ⟨h, fun r _ => ?_⟩
  cases r with
  | none => exact ⟨g.near_conn _, fun _ h => by cases h⟩
  | some _ =>
    exact ⟨⟨rfl, rfl, rfl, Set.subset_union_left⟩, fun _ _ =>
      ⟨rfl, fun m hm => Or.inr ⟨m, hm, rfl⟩⟩⟩

/-- A rollback ends the transaction. -/
theorem within_rollback : Within g rollback fun g' _ => g'.conn = .over := by
  refine ⟨trivial, fun r _ => ?_⟩
  cases r with
  | none => exact ⟨g.near_conn _, fun _ h => by cases h⟩
  | some _ => exact ⟨g.near_conn _, fun _ _ => rfl⟩

end Within

namespace MysqlDao

/-- The two friend rows are written in one transaction, for a user who acts for the session. -/
theorem within_ExecuteFriendAcceptanceTransaction {a b : Uid} (back_name : Bytes)
    (hauto : g.conn = .auto)
    (hne : a ≠ b) (ha : Fact.known a ∈ g.know) (hb : Fact.known b ∈ g.know)
    (hacts : ∃ uid, g.Acts uid) :
    Within g (ExecuteFriendAcceptanceTransaction a b back_name) fun _ _ => True := by
  have hacts' : ∀ {g' : Ghost}, g.Near g' → ∃ uid, g'.Acts uid := fun hnear =>
    hacts.imp fun _ h => hnear.acts h
  refine (within_begin hauto).bind fun g₁ _ hnear₁ hopened => ?_
  refine Within.recover ?_ ?_
  · -- the two rows, the application, and the commit
    refine (within_query (q := .insertFriend a b back_name) ⟨hne, hnear₁.know ha, hnear₁.know hb,
      hacts' hnear₁, Or.inl hopened⟩).bind fun g₂ first hnear₂ hfirst => ?_
    rw [hopened] at hfirst
    have hnear₂ := hnear₁.trans hnear₂
    split
    · exact within_rollback.bind fun _ _ _ _ => .pure trivial
    · refine (within_query (q := .insertFriend b a []) ⟨hne.symm, hnear₂.know hb, hnear₂.know ha,
        hacts' hnear₂, Or.inr hfirst⟩).bind fun g₃ second hnear₃ hsecond => ?_
      rw [hfirst] at hsecond
      have hnear₃ := hnear₂.trans hnear₃
      split
      · exact within_rollback.bind fun _ _ _ _ => .pure trivial
      · refine (within_query (q := .acceptApply b a) ⟨hacts' hnear₃, hsecond⟩).bind
          fun g₄ accepted _ haccepted => ?_
        split
        · exact within_rollback.bind fun _ _ _ _ => .pure trivial
        · rename_i hone
          have hcommit : g₄.conn = .accepted a b := by
            rw [haccepted]
            exact if_pos (not_ne_iff.mp hone)
          refine (within_commit (hcommit ▸ trivial)).bind fun _ _ _ _ => ?_
          exact .pure trivial
  · intro g' _
    refine Within.bind (R := fun _ _ => True) ?_ fun _ _ _ _ => .throw
    exact (within_rollback.weaken fun _ _ _ _ => trivial).recover fun _ _ => .pure trivial

theorem quiet_AddFriend {a b : Uid} (back_name : Bytes) (hne : a ≠ b)
    (ha : Fact.known a ∈ g.know) (hb : Fact.known b ∈ g.know) (hacts : ∃ uid, g.Acts uid) :
    Tame g (AddFriend a b back_name) := by
  refine .withConnection (fun _ => trivial) fun hidle => ?_
  exact (within_ExecuteFriendAcceptanceTransaction back_name hidle.1 hne ha hb hacts).recover
    fun _ _ => .pure trivial

theorem within_undone {R : Ghost → Bool → Prop} {body : Svc Bool} (hbody : Within g body R)
    (hfalse : ∀ g', R g' false) : Within g (undone body) R := by
  refine hbody.recover fun g' _ => ?_
  refine Within.bind (R := fun _ _ => True) ?_ fun g'' _ _ _ => .pure (hfalse g'')
  refine Within.recover ?_ fun _ _ => .pure trivial
  exact within_rollback.bind fun _ _ _ hover => within_end (Or.inr hover)

/-- The loop inserts only messages that the job has checked. -/
theorem within_persistLoop (ms : List TextMessage)
    (hconn : g.conn = .opened ∨ ∃ vs, g.conn = .verified vs) (hms : ∀ m ∈ ms, g.MayInsert m) :
    Within g (persistLoop ms) fun g' ok => ok = true →
    (g'.conn = .opened ∨ ∃ vs, g'.conn = .verified vs) ∧
        g'.conn.messages = g.conn.messages ++ ms := by
  induction ms generalizing g with
  | nil => exact .pure fun _ => ⟨hconn, (List.append_nil _).symm⟩
  | cons m ms ih =>
    refine (within_query (q := .insertMessage m) ⟨hconn, hms m List.mem_cons_self⟩).bind
      fun g₁ _ hnear₁ hinserted => ?_
    refine (within_query (q := .verifyMessage m.sender_uid m.client_message_id)
      ⟨_, m, hinserted, rfl, rfl⟩).bind fun g₂ row hnear₂ hverified => ?_
    rw [hinserted] at hverified
    split
    · rename_i hrow
      have hconn₂ : g₂.conn = .verified (g.conn.messages ++ [m]) := by
        rw [hverified]
        exact if_pos hrow
      refine (ih (Or.inr ⟨_, hconn₂⟩) fun m' hm' => (hnear₁.trans hnear₂).mayInsert
        (hms m' (List.mem_cons_of_mem m hm'))).weaken fun g₃ ok _ hok htrue => ?_
      obtain ⟨hconn₃, hmessages⟩ := hok htrue
      refine ⟨hconn₃, ?_⟩
      rw [hmessages, hconn₂]
      exact List.append_assoc g.conn.messages [m] ms
    · exact .pure fun h => by cases h

/-- **When `PersistTextMessages` answers `true`, every message of the batch is stored.** -/
theorem quiet_PersistTextMessages {messages : List TextMessage}
    (hms : ∀ m ∈ messages, g.MayInsert m) :
    Quiet g (PersistTextMessages messages) fun K ok =>
      ok = true → ∀ m ∈ messages, Fact.stored m ∈ K := by
  unfold PersistTextMessages
  split
  · exact .pure fun h => by cases h
  · refine .withConnection (fun _ h => by cases h) fun hidle => ?_
    refine within_undone (R := fun g' ok => ok = true → ∀ m ∈ messages, Fact.stored m ∈ g'.know) ?_
      fun _ h => by cases h
    refine (within_begin hidle.1).bind fun g₁ _ hnear₁ hopened => ?_
    refine (within_persistLoop messages (Or.inl hopened) fun m hm =>
      hnear₁.mayInsert (hms m hm)).bind fun g₂ ok _ hok => ?_
    split
    · rename_i htrue
      obtain ⟨hconn, hmessages⟩ := hok htrue
      rw [hopened] at hmessages
      have hcommit : g₂.conn.Committable := by
        rcases hconn with h | ⟨vs, h⟩ <;> exact h ▸ trivial
      refine (within_commit hcommit).bind fun g₃ _ _ ⟨hopened₃, hstored⟩ => ?_
      refine (within_end (Or.inl hopened₃)).bind fun g₄ _ hnear₄ _ => .pure fun _ m hm => ?_
      exact hnear₄.know (hstored m (hmessages ▸ hm))
    · refine within_rollback.bind fun _ _ _ hover => ?_
      exact (within_end (Or.inr hover)).bind fun _ _ _ _ => .pure fun h => by cases h

/-- The loop acknowledges only what the frame names. -/
theorem within_acknowledgeLoop {r sender : Uid} (ids : List Bytes)
    (hconn : g.conn = .opened ∨ g.conn = .acknowledged)
    (hids : ∀ id ∈ ids, g.MayAcknowledge r sender id) :
    Within g (acknowledgeLoop r sender ids) fun g' _ =>
      g'.conn = .opened ∨ g'.conn = .acknowledged := by
  induction ids generalizing g with
  | nil => exact .pure hconn
  | cons id ids ih =>
    refine (within_query (q := .acknowledge r sender id) ⟨hconn, hids id List.mem_cons_self⟩).bind
      fun g₁ _ hnear₁ hconn₁ => ?_
    exact ih (Or.inr hconn₁) fun id' hid' =>
      hnear₁.mayAcknowledge (hids id' (List.mem_cons_of_mem id hid'))

/-- Acknowledgements are made for the receiver the session acts for. -/
theorem quiet_AcknowledgeTextMessages {r sender : Uid} {ids : List Bytes}
    (hids : ∀ id ∈ ids, g.MayAcknowledge r sender id) :
    Tame g (AcknowledgeTextMessages r sender ids) := by
  unfold AcknowledgeTextMessages
  split
  · exact .pure trivial
  · refine .withConnection (fun _ => trivial) fun hidle => ?_
    refine within_undone (R := fun _ _ => True) ?_ fun _ => trivial
    refine (within_begin hidle.1).bind fun g₁ _ hnear₁ hopened => ?_
    refine (within_acknowledgeLoop ids (Or.inl hopened) fun id hid =>
      hnear₁.mayAcknowledge (hids id hid)).bind fun g₂ _ _ hconn => ?_
    have hcommit : g₂.conn.Committable := by
      rcases hconn with h | h <;> exact h ▸ trivial
    refine (within_commit hcommit).bind fun g₃ _ _ ⟨hopened₃, _⟩ => ?_
    exact (within_end (Or.inl hopened₃)).bind fun _ _ _ _ => .pure trivial

end MysqlDao

/-! ## Sessions -/

theorem quiet_isClosed (s : Sid) : Tame g (isClosed s) :=
  .silent trivial fun _ => rfl

theorem quiet_getSession (server : ServerName) (uid : Uid) : Tame g (getSession server uid) :=
  .silent trivial fun _ => rfl

theorem quiet_getUserId (s : Sid) : Quiet g (getUserId s) fun K uid =>
    uid < 2 ^ 31 ∧ (0 < uid → Fact.bound s uid ∈ K ∧ Fact.known uid ∈ K) ∧
      (uid ≤ 0 → g.self = .session s → Fact.unbound s ∈ K) := by
  refine .call (fun _ => trivial) fun uid huid => ⟨g.le_learn _, huid.1, fun hpos => ?_, ?_⟩
  · exact ⟨Or.inr (Or.inl ⟨hpos, Or.inl rfl⟩), Or.inr (Or.inl ⟨hpos, Or.inr rfl⟩)⟩
  · exact fun hle hself => Or.inr (Or.inr ⟨hle, hself, rfl⟩)

theorem quiet_getUserId_bound {s : Sid} (h : Fact.bound s uid ∈ g.know) :
    Quiet g (getUserId s) fun _ r => r = uid ∧ r < 2 ^ 31 :=
  .call (fun _ => trivial) fun _ hr => ⟨g.le_learn _, hr.2 uid h, hr.1⟩

theorem meets_ClearSession {s : Sid} {Q : Ghost → Except Unit Unit → Prop}
    (hclosing : g.closing = some (s, .flagged))
    (hQ : Q { g with closing := none } (.ok ())) :
    Meets discipline Q g (CServer.ClearSession s) := by
  refine meets_call hclosing fun found _ => ?_
  cases found with
  | false => exact ⟨rfl, fun _ _ => hQ⟩
  | true =>
    refine meets_call rfl fun uid _ => ?_
    split
    · rename_i hpos
      refine meets_call ?_ fun _ _ => ⟨rfl, fun _ _ => hQ⟩
      exact congrArg (fun c => some (s, c)) (if_pos hpos)
    · rename_i hneg
      refine ⟨?_, fun _ _ => hQ⟩
      exact congrArg (fun c => some (s, c)) (if_neg hneg)

/-- A program that closes a session is afterwards where it was with its own job. -/
theorem quiet_Close (s : Sid) : Tame g (CSession.Close s) := by
  intro hidle
  refine meets_call hidle.2 fun closed _ => ?_
  cases closed with
  | true => exact Quiet.pure (P := fun _ _ => True) trivial hidle
  | false =>
    refine meets_ClearSession rfl ⟨⟨⟨rfl, rfl, rfl, hidle.2.symm⟩, Set.Subset.rfl⟩, fun _ _ => ?_⟩
    trivial

section Handlers

variable (setup : Setup)

variable {s : Sid}

/-- A frame goes out only if what it says is true. -/
theorem quiet_Send {body : Json} {msgid : MsgId}
    (h : (⟨msgid, body⟩ : OutFrame).Sound fun m => Fact.stored m ∈ g.know) :
    Tame g (CSession.Send setup s body msgid) := by
  unfold CSession.Send
  split
  · exact (quiet_Close s).bind fun _ _ _ _ => .pure trivial
  · refine (quiet_isClosed s).bind fun g₁ _ hle₁ _ => ?_
    split
    · exact .pure trivial
    · refine (quiet_isClosed s).bind fun g₂ _ hle₂ _ => ?_
      split
      · exact .pure trivial
      · refine .silent (h.mono fun m hm => (hle₁.trans hle₂).know hm) fun _ => rfl

theorem quiet_HandleAccept (server : ServerName) : Tame g (CServer.HandleAccept server) := by
  refine (Quiet.silent (e := .session (.newSession server)) trivial fun _ => rfl).bind
    fun _ s _ _ => ?_
  refine (Quiet.silent (e := .session (.insertSession s)) trivial fun _ => rfl).bind
    fun _ _ _ _ => ?_
  split
  · exact .pure trivial
  · exact quiet_Close s

/-! ## Profiles and delivery -/

theorem quiet_loadBaseInfo (x : Bytes) (uid : Uid) :
    Quiet g (loadBaseInfo (USER_BASE_INFO ++ x) uid) fun K r => r ≠ none → Fact.known uid ∈ K := by
  refine (MysqlDao.quiet_GetUser uid).bind fun g₁ r _ hknown => ?_
  cases r with
  | none => exact .pure fun h => absurd rfl h
  | some user =>
    have huid := (hknown user rfl).1
    refine (quiet_Set_json (g₁.mayCache_profile huid)).bind fun g₂ _ hle _ => ?_
    exact .pure fun _ => hle.know huid

/-- A profile is answered only for a registered user. -/
theorem quiet_GetBaseInfo (x : Bytes) (uid : Uid) :
    Quiet g (GetBaseInfo (USER_BASE_INFO ++ x) uid) fun K r => r ≠ none → Fact.known uid ∈ K := by
  refine (quiet_Get _).bind fun g₁ r _ hknown => ?_
  cases r with
  | none => exact quiet_loadBaseInfo x uid
  | some info =>
    dsimp only
    split
    · rename_i user huser
      exact .pure fun _ => hknown info uid rfl (profileUid_of_cachedProfile huser)
    · exact (quiet_Del _).bind fun _ _ _ _ => quiet_loadBaseInfo x uid

/-- Only stored messages are delivered. -/
theorem quiet_deliverLoop (s : Sid) (now : ℕ) (ms : List TextMessage) (window : DeliveryWindow)
    (hms : ∀ m ∈ ms, Fact.stored m ∈ g.know) : Tame g (deliverLoop setup s now ms window) := by
  induction ms generalizing g window with
  | nil => exact .pure trivial
  | cons m ms ih =>
    have hrest : ∀ m' ∈ ms, Fact.stored m' ∈ g.know := fun m' hm' =>
      hms m' (List.mem_cons_of_mem m hm')
    unfold deliverLoop
    split
    · have hsound : (⟨.notifyTextChatMsgReq, notification m⟩ : OutFrame).Sound fun m =>
          Fact.stored m ∈ g.know := ⟨m, rfl, hms m List.mem_cons_self⟩
      refine (quiet_Send setup hsound).bind fun g₁ sent hle _ => ?_
      split
      · exact ih _ fun m' hm' => hle.know (hrest m' hm')
      · exact .pure trivial
    · exact ih window hrest

theorem quiet_DeliverPendingTextMessages (s : Sid) (receiver_uid : Uid) :
    Tame g (DeliverPendingTextMessages setup s receiver_uid) := by
  refine (quiet_isClosed s).bind fun _ _ _ _ => ?_
  split
  · exact .pure trivial
  · refine (Quiet.silent (e := .logic (.delivery s)) trivial fun _ => rfl).bind
      fun _ state _ _ => ?_
    refine (Quiet.silent (e := .logic .steadyNow) trivial fun _ => rfl).bind fun _ now _ _ => ?_
    refine (MysqlDao.quiet_GetPendingTextMessages receiver_uid _).bind fun _ pending _ hstored => ?_
    cases pending with
    | none => exact .silent trivial fun _ => rfl
    | some pending =>
      refine (quiet_deliverLoop setup s now pending _ (hstored pending rfl)).bind fun _ _ _ _ => ?_
      exact .silent trivial fun _ => rfl

theorem quiet_WakeDelivery (server : ServerName) (uid : Uid) :
    Tame g (WakeDelivery server uid) := by
  refine (quiet_getSession server uid).bind fun _ r _ _ => ?_
  cases r with
  | none => exact .pure trivial
  | some s =>
    refine (quiet_isClosed s).bind fun _ _ _ _ => ?_
    split
    · exact .pure trivial
    · exact .silent trivial fun _ => rfl

theorem quiet_tickVisit (s : Sid) : Tame g (tickVisit setup s) := by
  refine (Quiet.silent (e := .logic .steadyNow) trivial fun _ => rfl).bind fun _ now _ _ => ?_
  refine (quiet_isClosed s).bind fun _ _ _ _ => ?_
  split
  · exact .silent trivial fun _ => rfl
  · refine (quiet_getUserId s).bind fun _ uid _ _ => ?_
    refine (quiet_getSession s.server uid).bind fun _ _ _ _ => ?_
    split
    · exact .silent trivial fun _ => rfl
    · refine (Quiet.silent (e := .logic (.delivery s)) trivial fun _ => rfl).bind
        fun _ state _ _ => ?_
      split
      · exact (quiet_getUserId s).bind fun _ uid _ _ => quiet_DeliverPendingTextMessages setup s uid
      · exact .pure trivial

theorem quiet_NotifyRecipient (server : ServerName) (touid : Uid) (messages : List TextMessage) :
    Tame g (NotifyRecipient server touid messages) := by
  refine (quiet_getSession server touid).bind fun _ r _ _ => ?_
  cases r with
  | some s => exact (quiet_WakeDelivery server touid).bind fun _ _ _ _ => .pure trivial
  | none =>
    refine (quiet_Get _).bind fun _ target _ _ => ?_
    cases target with
    | none => exact .pure trivial
    | some target =>
      dsimp only
      split
      · exact .pure trivial
      · cases target with
        | json _ => exact .pure trivial
        | text target =>
          refine (Quiet.silent (e := .peer (.notify target _)) trivial fun _ => rfl).bind
            fun _ _ _ _ => ?_
          exact .pure trivial

/-! ## Login -/

/-- The ticket that `GETDEL` answers is taken for this session. -/
theorem keeps_GetDel (token : Bytes) (hself : g.self = .session s) :
    Keeps g (RedisMgr.GetDel (CHAT_TICKET_PREFIX ++ token)) fun K r =>
      (Fact.unbound s ∈ g.know → Fact.unbound s ∈ K) ∧ ∀ v, r = some v →
      Fact.ticket token v ∈ K := by
  intro _
  refine ⟨⟨s, hself⟩, fun r _ => ?_⟩
  cases r with
  | none =>
    refine ⟨.refl g, ?_⟩
    rintro a ha
    cases ha
    exact ⟨fun h => h, fun _ h => by cases h⟩
  | some v =>
    have hnext : Call.next g (.redis (.getDel (CHAT_TICKET_PREFIX ++ token))) (some v) =
        { g with know := {f | f ∈ g.know ∧ ∀ k x, f ≠ .ticket k x} ∪ {.ticket token v} } := by
      simp only [Call.next, RedisCall.next, ticketToken_ticket]
    simp only [discipline, hnext]
    refine ⟨⟨rfl, rfl, rfl, rfl⟩, ?_⟩
    rintro a ha
    cases ha
    refine ⟨fun h => Or.inl ⟨h, fun _ _ => nofun⟩, ?_⟩
    rintro w hw
    cases hw
    exact Or.inr rfl

/-- What a login has established when it comes to bind the session. -/
structure LoginReady (g : Ghost) (s : Sid) (uid : Uid) : Prop where
  self : g.self = .session s
  unbound : Fact.unbound s ∈ g.know
  known : Fact.known uid ∈ g.know
  range : 0 < uid ∧ uid < 2 ^ 31
  ticket : ∃ token value, Fact.ticket token value ∈ g.know ∧ validTicket value uid s.server = true

variable {uid : Uid}

theorem LoginReady.mono {g g' : Ghost} (h : LoginReady g s uid) (hself : g'.self = g.self)
    (hknow : g.know ⊆ g'.know) : LoginReady g' s uid := by
  obtain ⟨token, value, hticket, hvalid⟩ := h.ticket
  exact ⟨hself.trans h.self, hknow h.unbound, hknow h.known, h.range, token, value, hknow hticket,
    hvalid⟩

theorem keeps_bind (h : LoginReady g s uid) {reply : Reply} :
    Keeps g (do
      call (.session (.setUserId s uid))
      let _ ← RedisMgr.Set (USERIPPREFIX ++ decimal uid) (.text s.server)
      call (.session (.setUserSession uid s))
      return reply) fun _ _ => True := by
  have hset : Keeps g (call (.session (.setUserId s uid))) fun K _ => Fact.bound s uid ∈ K := by
    intro _
    exact ⟨⟨h.self, h.unbound, h.known, h.range, h.ticket⟩, fun _ _ =>
      ⟨⟨rfl, rfl, rfl, rfl⟩, fun _ _ => Or.inr rfl⟩⟩
  refine hset.bind fun g₁ _ hsame₁ hbound => ?_
  have hcache : g₁.MayCache (cString (USERIPPREFIX ++ decimal uid))
      (RedisValue.text s.server).cString := g₁.mayCache _ rfl rfl
  refine (quiet_Set hcache).keeps.bind fun g₂ _ hsame₂ ⟨hknow, _⟩ => ?_
  have hallow : (SessionCall.setUserSession uid s).Allow g₂ :=
    ⟨hsame₂.self.trans (hsame₁.self.trans h.self), hknow hbound⟩
  refine (Quiet.silent (e := .session (.setUserSession uid s)) hallow fun _ => rfl).keeps.bind
    fun _ _ _ _ => ?_
  exact .pure trivial

/-- The session is bound to the user the ticket was issued to. -/
theorem keeps_bindSession (h : LoginReady g s uid) (user : UserInfo) :
    Keeps g (bindSession s uid user) fun _ _ => True := by
  refine (MysqlDao.quiet_GetApplyList uid 50).keeps.bind fun g₁ _ hsame₁ ⟨hknow₁, _⟩ => ?_
  have h := h.mono hsame₁.self hknow₁
  refine (MysqlDao.quiet_GetFriendList uid).keeps.bind fun g₂ _ hsame₂ ⟨hknow₂, _⟩ => ?_
  have h := h.mono hsame₂.self hknow₂
  refine (Quiet.silent (e := .peer (.pendingResources uid)) trivial fun _ => rfl).keeps.bind
    fun g₃ files hsame₃ ⟨hknow₃, _⟩ => ?_
  have h := h.mono hsame₃.self hknow₃
  cases files with
  | none => exact .pure trivial
  | some files => exact keeps_bind h

/-- From the token on, a login keeps to the discipline. -/
theorem keeps_login {root : Json} {token : Bytes} (hself : g.self = .session s)
    (hrange : uid < 2 ^ 31) :
    Keeps g (login s root uid token) fun _ _ => True := by
  refine (quiet_getUserId s).keeps.bind fun g₁ bound hsame₁ ⟨_, _, _, hunbound⟩ => ?_
  split
  · exact .pure trivial
  · rename_i hguard
    obtain ⟨hbound, hpos, -⟩ : ¬ 0 < bound ∧ ¬ uid ≤ 0 ∧ ¬ token = [] := by
      simpa only [not_or] using hguard
    have hself₁ := hsame₁.self.trans hself
    have hunbound := hunbound (not_lt.mp hbound) hself
    split
    · exact .pure trivial
    · split
      · exact .pure trivial
      · refine (keeps_GetDel token hself₁).bind fun g₂ v hsame₂ ⟨hkeep, hticket⟩ => ?_
        have hself₂ := hsame₂.self.trans hself₁
        have hunbound := hkeep hunbound
        cases v with
        | none => exact .pure trivial
        | some v =>
          have hticket := hticket v rfl
          dsimp only
          split
          · rename_i hvalid
            refine (quiet_GetBaseInfo (decimal uid) uid).keeps.bind
              fun g₃ user hsame₃ ⟨hknow₃, hknown⟩ => ?_
            cases user with
            | none => exact .pure trivial
            | some user =>
              exact keeps_bindSession ⟨hsame₃.self.trans hself₂, hknow₃ hunbound, hknown nofun,
                ⟨not_le.mp hpos, hrange⟩, token, v, hknow₃ hticket, hvalid⟩ user
          · exact .pure trivial

theorem int?_lt {v : Json} {n : ℤ} (h : v.int? = some n) : n < 2 ^ 31 := by
  unfold Json.int? at h
  have := (Option.filter_eq_some_iff.mp h).2
  exact (of_decide_eq_true this).2

/-- **The login callback keeps to the discipline on every request.** -/
theorem keeps_LoginChatCallback (data : Option Json) (hself : g.self = .session s) :
    Keeps g (LoginChatCallback setup s data) fun _ _ => True := by
  unfold LoginChatCallback
  split
  · exact (quiet_Close s).keeps.weaken fun _ _ _ => trivial
  · rename_i root uid token hrequest
    have hrange : uid < 2 ^ 31 := by
      simp only [loginRequest, Option.bind_eq_bind, Option.bind_eq_some_iff] at hrequest
      obtain ⟨_, -, uid', huid, _, -, h⟩ := hrequest
      cases h
      exact int?_lt huid
    refine (keeps_login hself hrange).bind fun g₁ reply _ _ => ?_
    have hsound : (⟨.chatLoginRsp, reply.rtvalue⟩ : OutFrame).Sound fun m =>
      Fact.stored m ∈ g₁.know := trivial
    refine (quiet_Send setup hsound).keeps.bind fun g₂ sent _ _ => ?_
    have hend : ∀ g' : Ghost, Keeps g' (if reply.thrown = true then Chat.throw else pure ())
        fun _ _ => True := by
      intro g'
      split
      · exact .throw
      · exact .pure trivial
    by_cases hsent : sent = true ∧ reply.authenticated = true
    · simp only [if_pos hsent]
      exact (quiet_DeliverPendingTextMessages setup s uid).keeps.bind fun g₃ _ _ _ => hend g₃
    · simp only [if_neg hsent]
      exact hend g₂

end Handlers

end DistributedChat.Chat
