import DistributedChat.Chat.LoginFrame
import DistributedChat.Chat.Statements

/-!
# Searching through the cache

A search for a user is answered from Redis if its key is there, and else from the table of users,
whose answer is cached under the key. The key of a search by name is the name as a C string, up to
its first NUL, while the database compares the whole name. Logins and friend operations fill the
same cache by `GetBaseInfo`.

1. What an entry of the cache can be: the profile of a user that a search of its key finds,
   `Genuine`.
2. Every search and every `GetBaseInfo`, interleaved with any others and with any faults, keeps the
   cache genuine: `genuine_inductive`.
3. So a search gets the answer of the table, exactly if searches with the same key find the same
   user: `search_through_cache_iff`.
-/

namespace DistributedChat.Chat

open Lib List

/-! ## Searches -/

/-- The answer of `SearchUserCallback`, before it is sent. -/
def searchReply (data : Option Json) : Svc Reply :=
  match (object data).bind fun root => (root.get "uid").str? with
  | none => return failed .null .jsonError
  | some uid_str =>
    if uid_str = [] then return failed .null .jsonError
    else if isPureDigit uid_str then GetUserByUid uid_str
    else GetUserByName uid_str

theorem SearchUserCallback_eq (setup : Setup) (s : Sid) (data : Option Json) :
    SearchUserCallback setup s data = (do
      let reply ← searchReply data
      let _ ← CSession.Send setup s reply.rtvalue .searchUserRsp
      if reply.thrown then throw : Svc Unit) := by
  unfold SearchUserCallback searchReply
  cases (object data).bind fun root => (root.get "uid").str? with
  | none => rfl
  | some uid_str =>
    by_cases h : uid_str = []
    · simp only [if_pos h]
    · by_cases h' : isPureDigit uid_str = true
      · simp only [if_neg h, if_pos h']
      · simp only [if_neg h, if_neg h']

def searchText (data : Option Json) : Option Bytes :=
  (object data).bind fun root => (root.get "uid").str?

/-- The user with a name, as the database compares names. -/
def Db.userByName (setup : Setup) (db : Db) (name : Bytes) : Option UserInfo :=
  (db.users.rows.find? fun r => setup.collationKey r.2.name = setup.collationKey name).map fun r =>
    { r.2 with uid := r.1, back := [] }

def IsName (text : Bytes) : Prop := text ≠ [] ∧ isPureDigit text = false

/-! ## Keys -/

theorem cString_append {a b : Bytes} (h : ∀ c ∈ a, c ≠ 0) : cString (a ++ b) = a ++ cString b := by
  unfold cString
  exact takeWhile_append_of_pos fun c hc => by simpa using h c hc

theorem cString_eq {a : Bytes} (h : ∀ c ∈ a, c ≠ 0) : cString a = a := by
  have hnil := cString_append (b := []) h
  rw [append_nil] at hnil
  rw [hnil]
  exact append_nil a

theorem cString_name (name : Bytes) : cString (NAME_INFO ++ name) = NAME_INFO ++ cString name :=
  cString_append (by decide +kernel)

theorem digits_ne_zero {text : Bytes} (h : isPureDigit text = true) : ∀ c ∈ text, c ≠ 0 := by
  intro c hc hzero
  simp only [isPureDigit, Bool.and_eq_true, all_eq_true] at h
  have := h.2 c hc
  rw [hzero] at this
  exact absurd this (by decide)

theorem cString_uid {text : Bytes} (h : isPureDigit text = true) :
    cString (USER_BASE_INFO ++ text) = USER_BASE_INFO ++ text := by
  rw [cString_append (by decide +kernel), cString_eq (digits_ne_zero h)]

theorem uid_ne_name (x y : Bytes) : USER_BASE_INFO ++ x ≠ NAME_INFO ++ y := by
  intro h
  have hhead := congrArg List.head? h
  rw [List.head?_append, List.head?_append, show USER_BASE_INFO.head? = some 117 by decide,
    show NAME_INFO.head? = some 110 by decide, Option.some_or, Option.some_or] at hhead
  exact absurd hhead (by decide)

/-! ## Decimal numbers -/

theorem decimal_natCast (n : ℕ) :
    decimal n = (Nat.toDigits 10 n).map fun c => UInt8.ofNat c.toNat := by
  show ascii (toString n) = _
  rw [Nat.toString_eq_ofList_toDigits, ascii, String.toList_ofList]

variable {n : ℕ}

theorem digit_bounds {c : Char} (h : c ∈ Nat.toDigits 10 n) : 48 ≤ c.toNat ∧ c.toNat ≤ 57 := by
  have hdigit := Nat.isDigit_of_mem_toDigits (by decide) (by decide) h
  simp only [Char.isDigit, Bool.and_eq_true, decide_eq_true_eq] at hdigit
  exact hdigit

theorem toNat_digit {c : Char} (h : c ∈ Nat.toDigits 10 n) :
    (UInt8.ofNat c.toNat).toNat = c.toNat := by
  have hbounds := digit_bounds h
  rw [UInt8.toNat_ofNat']
  omega

theorem decimal_bounds {c : UInt8} (h : c ∈ decimal n) : 48 ≤ c.toNat ∧ c.toNat ≤ 57 := by
  rw [decimal_natCast] at h
  obtain ⟨d, hd, rfl⟩ := mem_map.mp h
  rw [toNat_digit hd]
  exact digit_bounds hd

theorem fromChars_decimal (hlt : n < 2 ^ 31) : fromChars (decimal n) = some (n : ℤ) := by
  have hne : decimal n ≠ [] := by
    rw [decimal_natCast, ne_eq, map_eq_nil_iff]
    exact Nat.toDigits_ne_nil
  have hhead : (decimal n).head? ≠ some 45 := by
    intro h
    have := decimal_bounds (mem_of_mem_head? h)
    exact absurd this (by decide)
  have hvalue : (decimal n).foldl (fun n c => 10 * n + (c.toNat - 48)) 0 = n := by
    rw [decimal_natCast, foldl_map]
    refine (foldl_ext _ _ _ fun a c hc => ?_).trans
      (Nat.ofDigitChars_toDigits (by decide) (by decide))
    rw [toNat_digit hc]
    rfl
  have hchars : (decimal n).all (fun c => 48 ≤ c && c ≤ 57) = true := by
    refine all_eq_true.mpr fun c hc => ?_
    simpa [UInt8.le_iff_toNat_le] using decimal_bounds hc
  simp only [fromChars, if_neg hhead, hvalue]
  rw [if_pos]
  refine ⟨hne, hchars, ?_, ?_⟩ <;> omega

theorem fromChars_of_isPureDigit {uid : Uid} (hlt : uid < 2 ^ 31)
    (h : isPureDigit (cString (decimal uid)) = true) :
    fromChars (cString (decimal uid)) = some uid := by
  cases uid with
  | ofNat n =>
    have hplain : cString (decimal (Int.ofNat n)) = decimal n := by
      refine cString_eq fun c hc hzero => ?_
      have := decimal_bounds hc
      rw [hzero] at this
      exact absurd this (by decide)
    have hsmall : (n : ℤ) < 2 ^ 31 := hlt
    rw [hplain]
    exact fromChars_decimal (by omega)
  | negSucc n =>
    have hminus : decimal (Int.negSucc n) = 45 :: ascii (toString (n + 1)) := by
      show ascii ("-" ++ toString (n + 1)) = _
      rw [ascii, String.toList_append]
      rfl
    rw [hminus] at h
    exact absurd h (by simp [cString, isPureDigit])

/-! ## What the cache holds -/

section Cache

variable (setup : Setup) (db : Db) (Q : Bytes → Prop)

/-- An entry for a user or a name is the profile of a user a search finds. -/
structure Genuine (key : Bytes) (value : RedisValue) : Prop where
  uid : ∀ x, key = USER_BASE_INFO ++ x → isPureDigit x = true → ∃ uid user, fromChars x = some uid ∧
    db.user uid = some user ∧ value = .json (profileJson user.uid user)
  name : ∀ x, key = NAME_INFO ++ x → ∃ name user, Q name ∧ IsName name ∧ cString name = x ∧
    db.userByName setup name = some user ∧ value = .json (profileJson user.uid user)

def IsProfileKey (key : Bytes) : Prop := ∃ x, key = USER_BASE_INFO ++ x ∨ key = NAME_INFO ++ x

/-- Searches for the texts of `Q` by any workers, and the profiles that logins and friend operations
ask for, from an empty cache and with any faults. What else the servers do leaves the table of
users, and fills no profile. -/
def searching : System Worker Call Call.Answer (Except Unit Unit) Shared where
  init s := s.sql.db.users = db.users ∧ (∀ t, s.sql.pending t = none) ∧
    (∀ k, s.sql.locks k = none) ∧
    ∀ key, IsProfileKey key → s.redis key = none
  exec t e s r s' := ∃ p, perform setup t e p s = some (r, s')
  start _ _ p :=
    (∃ sid data, (∀ text, searchText data = some text → Q text) ∧
      p = SearchUserCallback setup sid data) ∨
    ∃ uid, uid < 2 ^ 31 ∧
      p = (do let _ ← GetBaseInfo (USER_BASE_INFO ++ decimal uid) uid : Svc Unit)
  stop _ _ s s' := s' = s
  env s s' := s'.sql.db.users = s.sql.db.users ∧ s'.sql.pending = s.sql.pending ∧
    s'.sql.locks = s.sql.locks ∧
    ∀ key, IsProfileKey key → s'.redis key = none ∨ s'.redis key = s.redis key

/-- What the programs write to the cache, and what the table answers. -/
def caching : Monitor Call Call.Answer where
  Ghost := Unit
  allow _
    | .redis (.get _) => True
    | .redis (.set key value) => Genuine setup db Q key value
    | .redis (.del _) => True
    | .db .getConnection => True
    | .db .returnConnection => True
    | .db (.query (.selectUser _)) => True
    | .db (.query (.selectUserByName _)) => True
    | .session _ => True
    | _ => False
  answer _
    | .db (.query (.selectUser uid)), r => ∀ found, r = some found → found = db.user uid
    | .db (.query (.selectUserByName name)), r =>
      ∀ found, r = some found → found = db.userByName setup name
    | _, _ => True
  next _ _ _ := ()

variable {setup db Q}

/-! ## The programs -/

/-- `p` writes genuine profiles only, and returns what `R` says. -/
abbrev Fills (setup : Setup) (db : Db) (Q : Bytes → Prop) {α : Type} (p : Svc α) (R : α → Prop) :
    Prop :=
  Meets (caching setup db Q) (fun _ r => ∀ a, r = .ok a → R a) () p

theorem Fills.andThen {α β : Type} {p : Svc α} {f : α → Svc β} {R : α → Prop} {R' : β → Prop}
    (h : Fills setup db Q p R) (hf : ∀ a, R a → Fills setup db Q (f a) R') :
    Fills setup db Q (p >>= f) R' := by
  refine Meets.andThen (Meets.weaken h fun _ r hr => ?_)
  cases r with
  | error e => exact nofun
  | ok a => exact hf a (hr a rfl)

theorem Fills.pure {α : Type} {a : α} {R : α → Prop} (h : R a) :
    Fills setup db Q (Pure.pure a) R := by
  rintro b hb
  cases hb
  exact h

theorem fills_session (c : SessionCall) : Fills setup db Q (call (.session c)) fun _ => True :=
  ⟨trivial, fun _ _ _ _ => trivial⟩

theorem fills_ClearSession (sid : Sid) :
    Fills setup db Q (CServer.ClearSession sid) fun _ => True := by
  refine (fills_session _).andThen fun listed _ => ?_
  cases listed with
  | false => exact fills_session _
  | true =>
    refine (fills_session _).andThen fun uid _ => ?_
    by_cases hpos : 0 < uid
    · simp only [if_pos hpos]
      exact (fills_session _).andThen fun _ _ => fills_session _
    · simp only [if_neg hpos]
      exact fills_session _

theorem fills_Close (sid : Sid) : Fills setup db Q (CSession.Close sid) fun _ => True := by
  refine (fills_session _).andThen fun closed _ => ?_
  split
  · exact .pure trivial
  · exact fills_ClearSession sid

theorem fills_Send (sid : Sid) (body : Json) (id : MsgId) :
    Fills setup db Q (CSession.Send setup sid body id) fun _ => True := by
  unfold CSession.Send
  split
  · exact (fills_Close sid).andThen fun _ _ => .pure trivial
  · refine (fills_session _).andThen fun _ _ => ?_
    split
    · exact .pure trivial
    · refine (fills_session _).andThen fun _ _ => ?_
      split
      · exact .pure trivial
      · exact fills_session _

theorem fills_Get (key : Bytes) : Fills setup db Q (RedisMgr.Get key) fun _ => True :=
  ⟨trivial, fun _ _ _ _ => trivial⟩

theorem fills_Del (key : Bytes) : Fills setup db Q (RedisMgr.Del key) fun _ => True :=
  ⟨trivial, fun _ _ _ _ => trivial⟩

variable {key : Bytes} {user : UserInfo}

theorem fills_Set (h : Genuine setup db Q (cString key) (.json (profileJson user.uid user))) :
    Fills setup db Q (RedisMgr.Set key (.json (profileJson user.uid user))) fun _ => True :=
  ⟨h, fun _ _ _ _ => trivial⟩

theorem fills_withConnection {body : Svc (Option UserInfo)} {R : UserInfo → Prop}
    (h : Fills setup db Q body fun found => ∀ user, found = some user → R user) :
    Fills setup db Q
    (withConnection none (caught none body)) fun found => ∀ user, found = some user → R user := by
  refine Meets.andThen ⟨trivial, fun available _ => ?_⟩
  cases available with
  | false =>
    intro found hfound
    cases hfound
    exact nofun
  | true =>
    refine Meets.ensuring (Meets.recover (Meets.weaken h fun _ r hr => ?_))
    cases r with
    | error e =>
      refine ⟨trivial, fun _ _ found hfound => ?_⟩
      cases hfound
      exact nofun
    | ok found => exact ⟨trivial, fun _ _ => hr⟩

theorem fills_GetUser (uid : Uid) :
    Fills setup db Q
    (MysqlDao.GetUser uid) fun found => ∀ user, found = some user → db.user uid = some user := by
  refine fills_withConnection ⟨trivial, fun r hr found hfound user huser => ?_⟩
  cases r with
  | none => cases hfound
  | some found' =>
    cases hfound
    exact (hr _ rfl).symm.trans huser

theorem fills_GetUserByName (name : Bytes) :
    Fills setup db Q (MysqlDao.GetUserByName name) fun found =>
    ∀ user, found = some user → db.userByName setup name = some user := by
  refine fills_withConnection ⟨trivial, fun r hr found hfound user huser => ?_⟩
  cases r with
  | none => cases hfound
  | some found' =>
    cases hfound
    exact (hr _ rfl).symm.trans huser

theorem fills_searchThrough (icon : Json → Option Json) {lookup : Svc (Option UserInfo)}
    {R : UserInfo → Prop}
    (hlookup : Fills setup db Q lookup fun found => ∀ user, found = some user → R user)
    (hgenuine : ∀ user, R user →
      Genuine setup db Q (cString key) (.json (profileJson user.uid user))) :
    Fills setup db Q (searchThrough key icon lookup) fun _ => True := by
  refine (fills_Get key).andThen fun info _ => ?_
  cases info with
  | some info =>
    dsimp only
    split <;> exact .pure trivial
  | none =>
    refine hlookup.andThen fun found hfound => ?_
    cases found with
    | none => exact .pure trivial
    | some user =>
      exact (fills_Set (hgenuine user (hfound user rfl))).andThen fun _ _ => .pure trivial

variable {uid : Uid}

theorem genuine_uid {x : Bytes} (hx : isPureDigit x = true → fromChars x = some uid)
    (huser : db.user uid = some user) :
    Genuine setup db Q (USER_BASE_INFO ++ x) (.json (profileJson user.uid user)) where
  uid y hy hdigits := by
    obtain rfl := append_cancel_left hy
    exact ⟨uid, user, hx hdigits, huser, rfl⟩
  name y hy := absurd hy (uid_ne_name x y)

theorem genuine_name {name : Bytes} (hQ : Q name) (hname : IsName name)
    (huser : db.userByName setup name = some user) :
    Genuine setup db Q (NAME_INFO ++ cString name) (.json (profileJson user.uid user)) where
  uid y hy := absurd hy.symm (uid_ne_name y _)
  name y hy := by
    obtain rfl := append_cancel_left hy
    exact ⟨name, user, hQ, hname, rfl, huser, rfl⟩

theorem fills_searchReply {data : Option Json}
    (hdata : ∀ text, searchText data = some text → Q text) :
    Fills setup db Q (searchReply data) fun _ => True := by
  unfold searchReply
  cases htext : (object data).bind fun root => (root.get "uid").str? with
  | none => exact .pure trivial
  | some text =>
    dsimp only
    by_cases hempty : text = []
    · rw [if_pos hempty]
      exact .pure trivial
    · rw [if_neg hempty]
      by_cases hdigits : isPureDigit text = true
      · rw [if_pos hdigits]
        unfold GetUserByUid
        cases huid : fromChars text with
        | none => exact .pure trivial
        | some uid =>
          dsimp only
          split
          · exact .pure trivial
          · refine fills_searchThrough _ (fills_GetUser uid) fun user huser => ?_
            rw [cString_uid hdigits]
            exact genuine_uid (fun _ => huid) huser
      · rw [if_neg hdigits]
        refine fills_searchThrough _ (fills_GetUserByName text) fun user huser => ?_
        rw [cString_name]
        exact genuine_name (hdata text htext) ⟨hempty, Bool.eq_false_iff.mpr hdigits⟩ huser

theorem fills_SearchUserCallback (sid : Sid) {data : Option Json}
    (hdata : ∀ text, searchText data = some text → Q text) :
    Fills setup db Q (SearchUserCallback setup sid data) fun _ => True := by
  rw [SearchUserCallback_eq]
  refine (fills_searchReply hdata).andThen fun reply _ => ?_
  refine (fills_Send sid _ _).andThen fun _ _ => ?_
  split
  · exact nofun
  · exact .pure trivial

theorem uid_of_user (h : db.user uid = some user) : user.uid = uid := by
  obtain ⟨u, -, rfl⟩ := Option.map_eq_some_iff.mp h
  rfl

theorem fills_GetBaseInfo (hlt : uid < 2 ^ 31) :
    Fills setup db Q (GetBaseInfo (USER_BASE_INFO ++ decimal uid) uid) fun _ => True := by
  have hload : Fills setup db Q (loadBaseInfo (USER_BASE_INFO ++ decimal uid) uid) fun _ =>
    True := by
    refine (fills_GetUser uid).andThen fun found hfound => ?_
    cases found with
    | none => exact .pure trivial
    | some user =>
      have huser := hfound user rfl
      have hkey : cString (USER_BASE_INFO ++ decimal uid) =
        USER_BASE_INFO ++ cString (decimal uid) :=
        cString_append (by decide +kernel)
      have hgenuine : Genuine setup db Q (cString (USER_BASE_INFO ++ decimal uid))
          (.json (profileJson user.uid user)) := by
        rw [hkey]
        exact genuine_uid (fromChars_of_isPureDigit hlt) huser
      rw [uid_of_user huser] at hgenuine
      have hset : Fills setup db Q
        (RedisMgr.Set (USER_BASE_INFO ++ decimal uid) (.json (profileJson uid user)))
          fun _ => True := ⟨hgenuine, fun _ _ _ _ => trivial⟩
      exact hset.andThen fun _ _ => .pure trivial
  refine (fills_Get _).andThen fun info _ => ?_
  cases info with
  | none => exact hload
  | some info =>
    dsimp only
    split
    · exact .pure trivial
    · exact (fills_Del _).andThen fun _ _ => hload

/-! ## Runs -/

/-- The table of users is the same, no transaction is open, and the cache is genuine. -/
structure CacheOk (setup : Setup) (db : Db) (Q : Bytes → Prop) (s : Shared) : Prop where
  users : s.sql.db.users = db.users
  pending : ∀ t, s.sql.pending t = none
  locks : ∀ k, s.sql.locks k = none
  genuine : ∀ key e, s.redis key = some e → IsProfileKey key → Genuine setup db Q key e.value

variable {s s' : Shared} {t : Worker}

theorem CacheOk.autoCommit (h : CacheOk setup db Q s) (t : Worker) : AutoCommit t s :=
  ⟨h.pending t, fun k hk => by rw [h.locks k] at hk; cases hk⟩

theorem CacheOk.same (h : CacheOk setup db Q s) (hredis : s'.redis = s.redis)
    (hsql : s'.sql = s.sql) :
    CacheOk setup db Q s' :=
  ⟨hsql ▸ h.users, hsql ▸ h.pending, hsql ▸ h.locks, hredis ▸ h.genuine⟩

theorem CacheOk.put (h : CacheOk setup db Q s) {entry : Option (Entry RedisValue)}
    (hentry : ∀ e, entry = some e → Genuine setup db Q key e.value) :
    CacheOk setup db Q (s.put key entry) := by
  refine ⟨h.users, h.pending, h.locks, fun k e he hk => ?_⟩
  by_cases hkey : k = key
  · subst hkey
    rw [show (s.put k entry).redis k = entry from Function.update_self ..] at he
    exact hentry e he
  · rw [show (s.put key entry).redis k = s.redis k from Function.update_of_ne hkey ..] at he
    exact h.genuine k e he hk

theorem CacheOk.withFault (h : CacheOk setup db Q s) (h' : CacheOk setup db Q s') (fault : Fault) :
    CacheOk setup db Q (withFault fault s s').2 := by
  cases fault with
  | ok | lost => exact h'
  | refused => exact h

theorem session_leaves {c : SessionCall} {p : Pick} {r : c.Answer}
    (h : c.perform p s = some (r, s')) :
    s'.redis = s.redis ∧ s'.sql = s.sql := by
  have hon : ∀ {α : Type} {sid : Sid} {read : Session → α} {f : Session → Session} {a : α},
      s.onSession sid read f = some (a, s') → s'.redis = s.redis ∧ s'.sql = s.sql := by
    intro α sid read f a hs
    obtain ⟨x, -, -, rfl⟩ := Shared.onSession_eq_some hs
    exact ⟨rfl, rfl⟩
  cases c with
  | newSession server | setUserId sid uid =>
    simp only [SessionCall.perform] at h
    split at h <;> cases h
    exact ⟨rfl, rfl⟩
  | insertSession sid =>
    simp only [SessionCall.perform] at h
    split at h
    · exact hon h
    · cases h
      exact ⟨rfl, rfl⟩
  | push sid frame | rmvUserSession uid sid =>
    cases h
    split <;> exact ⟨rfl, rfl⟩
  | sessionCount _ | getSession _ _ | setUserSession _ _ => cases h; exact ⟨rfl, rfl⟩
  | _ => exact hon h

theorem select_leaves (hauto : s.sql.pending t = none) {q : Query} {p : Pick} {r : Option q.Value}
    {v : q.Value}
    (hq : q.run setup s.now s.sql.db = some (v, [], [])) (hnote : s.noteCheck t q = s)
    (h : (DbCall.query q).perform setup t p s = some (r, s')) :
    s' = s ∧ (∀ a, r = some a → a = v) := by
  have hview : s.sql.view engine t = s.sql.db := by
    simp only [Transactions.view, Transactions.uncommitted, hauto, Option.getD_none,
      Engine.applyAll_nil]
  rcases Query.perform_cases h with ⟨rfl, rfl⟩ | ⟨a, ws, ks, hrun, -, rfl, hr⟩
  · exact ⟨rfl, by rintro _ ⟨⟩⟩
  · rw [hview, hq] at hrun
    cases hrun
    rw [hnote, Transactions.write_nil hauto]
    refine ⟨rfl, fun b hb => ?_⟩
    rcases hr with rfl | rfl
    · exact (Option.some.inj hb).symm
    · cases hb

theorem user_congr {db' : Db} (h : db'.users = db.users) (uid : Uid) :
    db'.user uid = db.user uid := by
  rw [Db.user, Db.user, h]

theorem userByName_congr {db' : Db} (h : db'.users = db.users) (name : Bytes) :
    db'.userByName setup name = db.userByName setup name := by
  rw [Db.userByName, Db.userByName, h]

/-- **The cache stays genuine.** -/
theorem genuine_inductive (setup : Setup) (db : Db) (Q : Bytes → Prop) :
    Inductive (searching setup db Q) (caching setup db Q) fun s _ => CacheOk setup db Q s where
  init s h := by
    obtain ⟨husers, hpending, hlocks, hempty⟩ := h
    refine ⟨husers, hpending, hlocks, fun key e he hkey => ?_⟩
    rw [hempty key hkey] at he
    cases he
  env s s' g h henv := by
    obtain ⟨husers, hpending, hlocks, hredis⟩ := henv
    refine ⟨husers.trans h.users, hpending ▸ h.pending, hlocks ▸ h.locks, fun key e he hkey => ?_⟩
    rcases hredis key hkey with hnone | hsame
    · rw [hnone] at he
      cases he
    · exact h.genuine key e (hsame ▸ he) hkey
  start s g t p h _ hp := by
    refine ⟨(), ?_, h⟩
    rcases hp with ⟨sid, data, hdata, rfl⟩ | ⟨uid, hlt, rfl⟩
    · exact Meets.weaken (fills_SearchUserCallback sid hdata) fun _ _ _ => trivial
    · have hfills :
        Fills setup db Q (do let _ ← GetBaseInfo (USER_BASE_INFO ++ decimal uid) uid : Svc Unit)
          fun _ => True := (fills_GetBaseInfo hlt).andThen fun _ _ => .pure trivial
      exact Meets.weaken hfills fun _ _ _ => trivial
  call s s' g t m e r h _ hallow hexec := by
    obtain ⟨p, hp⟩ := hexec
    cases e with
    | redis c =>
      cases c with
      | get key =>
        have hs : s' = s := by
          obtain ⟨fault, _, _, _, _, _⟩ := p
          cases fault <;> cases hp <;> rfl
        exact ⟨trivial, hs ▸ h⟩
      | set key value =>
        have hs : s' = (withFault p.fault s (s.put key (some ⟨value, none⟩))).2 :=
          congrArg Prod.snd (Option.some.inj hp).symm
        refine ⟨trivial, ?_⟩
        rw [hs]
        refine h.withFault (h.put fun e he => ?_) p.fault
        cases he
        exact hallow
      | del key =>
        have hs : s' = (withFault p.fault s (s.put key none)).2 :=
          congrArg Prod.snd (Option.some.inj hp).symm
        refine ⟨trivial, ?_⟩
        rw [hs]
        refine h.withFault (h.put fun e he => ?_) p.fault
        cases he
      | _ => cases hallow
    | db c =>
      cases c with
      | getConnection =>
        cases hp
        exact ⟨trivial, h⟩
      | returnConnection =>
        cases hp
        exact ⟨trivial, h.same rfl (h.autoCommit t).reset⟩
      | query q =>
        cases q with
        | selectUser uid =>
          obtain ⟨rfl, hr⟩ := select_leaves (h.pending t) rfl (by cases t <;> rfl) hp
          exact ⟨fun found hfound => (hr found hfound).trans (user_congr h.users uid), h⟩
        | selectUserByName name =>
          obtain ⟨rfl, hr⟩ := select_leaves (h.pending t) rfl (by cases t <;> rfl) hp
          exact ⟨fun found hfound => (hr found hfound).trans (userByName_congr h.users name), h⟩
        | _ => cases hallow
      | _ => cases hallow
    | session c =>
      obtain ⟨hredis, hsql⟩ := session_leaves hp
      exact ⟨trivial, h.same hredis hsql⟩
    | _ => cases hallow
  stop s s' g t m p h _ _ hstop := hstop ▸ h
  crash _ _ _ _ _ h := h.elim

end Cache

/-! ## Answers -/

section Answers

variable (setup : Setup)

/-- What a search answers from what it finds in the cache and in the table. -/
def answered (info : Option RedisValue) (icon : Json → Option Json) (found : Option UserInfo) :
    Reply :=
  let rtvalue := Json.null.set "error" ErrorCode.ok.json
  match info with
  | some info =>
    match cachedSearch info icon with
    | none => ⟨rtvalue, true, false⟩
    | some members => ⟨rtvalue.setAll members, false, false⟩
  | none =>
    match found with
    | none => failed rtvalue .uidInvalid
    | some user => ⟨rtvalue.setAll (foundUser user), false, false⟩

/-- The answer to a search of a worker that is not disturbed. -/
def answer (t : Worker) (data : Option Json) (s : Shared) : Option (Except Unit Reply) :=
  (Prog.run (alone setup t .null) (searchReply data) s).map Prod.fst

def uncached (s : Shared) : Shared := { s with redis := fun _ => none }

/-- The columns `uid` and `sex` are integers of 32 bits at most. -/
def Typed (db : Db) : Prop := ∀ uid u, db.users.get uid = some u →
  (-(2 ^ 31) ≤ uid ∧ uid < 2 ^ 31) ∧ -(2 ^ 31) ≤ u.sex ∧ u.sex < 2 ^ 31

/-- Names that are passed to Redis as one key find the same user. -/
def Unambiguous (db : Db) (Q : Bytes → Prop) : Prop :=
  ∀ name name', Q name → Q name' → IsName name → IsName name' → cString name = cString name' →
    ∀ user, db.userByName setup name' = some user → db.userByName setup name = some user

variable {setup} {db : Db} {Q : Bytes → Prop} {t : Worker} {s : Shared}

variable {key : Bytes} {icon : Json → Option Json}

theorem run_searchThrough {lookup : Svc (Option UserInfo)} {found : Option UserInfo}
    (hlookup : Prog.run (alone setup t .null) lookup s = some (.ok found, s)) :
    ∃ s', Prog.run (alone setup t .null) (searchThrough key icon lookup) s =
        some (.ok (answered (s.lookup (cString key)) icon found), s') ∧
      (s.lookup (cString key) = none → ∀ user, found = some user →
        s' = s.put (cString key) (some ⟨.json (profileJson user.uid user), none⟩)) := by
  have hget : Prog.run (alone setup t .null) (RedisMgr.Get key) s =
    some (.ok (s.lookup (cString key)), s) := rfl
  unfold searchThrough
  rw [Task.run_andThen hget]
  cases s.lookup (cString key) with
  | some info =>
    refine ⟨s, ?_, nofun⟩
    simp only [answered]
    cases cachedSearch info icon <;> rfl
  | none =>
    dsimp only
    rw [Task.run_andThen hlookup]
    cases found with
    | none => exact ⟨s, rfl, fun _ _ h => by cases h⟩
    | some user =>
      refine ⟨_, rfl, fun _ user' huser => ?_⟩
      cases huser
      rfl

theorem run_GetUserByName (h : AutoCommit t s) (name : Bytes) :
    Prog.run (alone setup t .null) (MysqlDao.GetUserByName name) s =
      some (.ok (s.sql.db.userByName setup name), s) := by
  refine run_withConnection h (Task.run_recover (run_query h ?_ rfl))
  cases t <;> rfl

theorem cachedMember_set (v : Json) (key : String) (x : Json) (key' : String) :
    cachedMember (v.set key x) key' = some ((v.set key x).get key') := by
  cases v <;> rfl

theorem cachedMember_profile (user : UserInfo) (key : String) :
    cachedMember (profileJson user.uid user) key = some ((profileJson user.uid user).get key) := by
  simp only [profileJson, Json.setAll, foldl_cons, foldl_nil, cachedMember_set]

theorem profile_found (user : UserInfo) :
    ∀ m ∈ foundUser user, (profileJson user.uid user).get m.1 = m.2 := by
  simp +decide only [foundUser, forall_mem_cons, profileJson, Json.setAll, foldl_cons, foldl_nil,
    Json.get_set, if_true, if_false, not_mem_nil, false_implies, implies_true, and_self]

variable {user : UserInfo}

theorem cachedSearch_profile (hicon : ∀ b, icon (.str b) = some (.str b))
    (huid : -(2 ^ 31) ≤ user.uid ∧ user.uid < 2 ^ 31)
    (hsex : -(2 ^ 31) ≤ user.sex ∧ user.sex < 2 ^ 31) :
    cachedSearch (.json (profileJson user.uid user)) icon = some (foundUser user) := by
  have hmembers := profile_found user
  simp only [foundUser, forall_mem_cons] at hmembers
  obtain ⟨hu, hname, hnick, hdesc, hs, hi, -⟩ := hmembers
  have hint : ∀ n : ℤ, -(2 ^ 31) ≤ n ∧ n < 2 ^ 31 → (Json.int n).asInt = some n := by
    intro n hn
    simp only [Json.asInt, Json.int?, Json.whole?, Option.filter_some, decide_eq_true_eq, if_pos hn]
  simp only [cachedSearch, RedisValue.parse, Option.getD_some, cachedMember_profile, hu, hname,
    hnick, hdesc, hs,
    hi, hint _ huid, hint _ hsex, Json.asString, hicon, Option.bind_eq_bind, Option.bind_some]
  rfl

variable {name : Bytes}

theorem user_of_userByName (h : db.userByName setup name = some user) :
    db.user user.uid = some user := by
  obtain ⟨r, hr, rfl⟩ := Option.map_eq_some_iff.mp h
  have hget : db.users.get r.1 = some r.2 := Table.get_eq_some.mpr (mem_of_find?_eq_some hr)
  show (db.users.get r.1).map _ = _
  rw [hget]
  rfl

theorem Typed.bounds (h : Typed db) {uid : Uid} (huser : db.user uid = some user) :
    (-(2 ^ 31) ≤ user.uid ∧ user.uid < 2 ^ 31) ∧ -(2 ^ 31) ≤ user.sex ∧ user.sex < 2 ^ 31 := by
  obtain ⟨u, hu, rfl⟩ := Option.map_eq_some_iff.mp huser
  exact h uid u hu

theorem answered_profile (h : Typed db) {uid : Uid} (huser : db.user uid = some user)
    (hicon : ∀ b, icon (.str b) = some (.str b)) :
    answered (some (.json (profileJson user.uid user))) icon (some user) = answered none icon
    (some user) := by
  obtain ⟨huid, hsex⟩ := h.bounds huser
  simp only [answered, cachedSearch_profile hicon huid hsex]

theorem answer_searchThrough (htyped : Typed db) (hicon : ∀ b, icon (.str b) = some (.str b))
    {lookup : Svc (Option UserInfo)} {found : Option UserInfo}
    (hrun : Prog.run (alone setup t .null) lookup s = some (.ok found, s))
    (hrun' : Prog.run (alone setup t .null) lookup (uncached s) = some (.ok found, uncached s))
    (hit : ∀ value, s.lookup (cString key) = some value → ∃ uid user, db.user uid = some user ∧
      value =
      .json (profileJson user.uid user) ∧ found = some user) :
    (Prog.run (alone setup t .null) (searchThrough key icon lookup) s).map Prod.fst =
      (Prog.run (alone setup t .null) (searchThrough key icon lookup) (uncached s)).map
      Prod.fst := by
  obtain ⟨s₁, hrun₁, -⟩ := @run_searchThrough setup t s key icon lookup found hrun
  obtain ⟨s₂, hrun₂, -⟩ := @run_searchThrough setup t (uncached s) key icon lookup found hrun'
  rw [hrun₁, hrun₂]
  have hmiss : (uncached s).lookup (cString key) = none := rfl
  rw [hmiss]
  cases hvalue : s.lookup (cString key) with
  | none => rfl
  | some value =>
    obtain ⟨uid, user, huser, rfl, rfl⟩ := hit value hvalue
    rw [answered_profile htyped huser hicon]
    rfl

theorem CacheOk.lookup (h : CacheOk setup db Q s) {value : RedisValue}
    (hvalue : s.lookup key = some value)
    (hkey : IsProfileKey key) : Genuine setup db Q key value := by
  obtain ⟨e, he, rfl, -⟩ := Shared.lookup_eq_some hvalue
  exact h.genuine key e he hkey

theorem CacheOk.getUserByUid_eq (h : CacheOk setup db Q s) (htyped : Typed db) (t : Worker)
    {text : Bytes}
    (hdigits : isPureDigit text = true) :
    (Prog.run (alone setup t .null) (GetUserByUid text) s).map Prod.fst =
      (Prog.run (alone setup t .null) (GetUserByUid text) (uncached s)).map Prod.fst := by
  have hauto := h.autoCommit t
  have hauto' : AutoCommit t (uncached s) := ⟨hauto.pending, hauto.locks⟩
  unfold GetUserByUid
  cases huid : fromChars text with
  | none => rfl
  | some uid =>
    by_cases hpos : uid ≤ 0
    · simp only [if_pos hpos]
      rfl
    · simp only [if_neg hpos]
      refine answer_searchThrough htyped ?_ (run_GetUser hauto uid) (run_GetUser hauto' uid) ?_
      · exact fun _ => rfl
      intro value hvalue
      rw [cString_uid hdigits] at hvalue
      obtain ⟨uid', user, huid', huser, hprofile⟩ :=
        (h.lookup hvalue ⟨text, Or.inl rfl⟩).uid text rfl hdigits
      cases huid.symm.trans huid'
      exact ⟨uid, user, huser, hprofile, (user_congr h.users uid).trans huser⟩

theorem CacheOk.getUserByName_eq (h : CacheOk setup db Q s) (htyped : Typed db)
    (hQ : Unambiguous setup db Q)
    (t : Worker) (hsearched : Q name) (hname : IsName name) :
    (Prog.run (alone setup t .null) (GetUserByName name) s).map Prod.fst =
      (Prog.run (alone setup t .null) (GetUserByName name) (uncached s)).map Prod.fst := by
  have hauto := h.autoCommit t
  have hauto' : AutoCommit t (uncached s) := ⟨hauto.pending, hauto.locks⟩
  refine answer_searchThrough htyped (fun _ => rfl) (run_GetUserByName hauto name)
    (run_GetUserByName hauto' name) ?_
  intro value hvalue
  rw [cString_name] at hvalue
  -- the entry is that of some search with the same key
  obtain ⟨name', user, hsearched', hname', hkey, huser, hprofile⟩ :=
    (h.lookup hvalue ⟨cString name, Or.inr rfl⟩).name _ rfl
  have hsame := hQ name name' hsearched hsearched' hname hname' hkey.symm user huser
  exact ⟨user.uid, user, user_of_userByName huser, hprofile,
    (userByName_congr h.users name).trans hsame⟩

theorem CacheOk.answer_eq (h : CacheOk setup db Q s) (htyped : Typed db)
    (hQ : Unambiguous setup db Q)
    (t : Worker) {data : Option Json} (hdata : ∀ text, searchText data = some text → Q text) :
    answer setup t data s = answer setup t data (uncached s) := by
  unfold answer searchReply
  cases htext : (object data).bind fun root => (root.get "uid").str? with
  | none => rfl
  | some text =>
    by_cases hempty : text = []
    · simp only [if_pos hempty]
      rfl
    · simp only [if_neg hempty]
      by_cases hdigits : isPureDigit text = true
      · simp only [if_pos hdigits]
        exact h.getUserByUid_eq htyped t hdigits
      · simp only [if_neg hdigits]
        exact h.getUserByName_eq htyped hQ t (hdata text htext)
          ⟨hempty, Bool.eq_false_iff.mpr hdigits⟩

/-! ## A filled cache -/

def asking (text : Bytes) : Option Json := some (.obj [(ascii "uid", .str text)])

theorem searchReply_asking (h : IsName name) : searchReply (asking name) = GetUserByName name := by
  obtain ⟨hne, hdigits⟩ := h
  show (if name = [] then _ else if isPureDigit name = true then _ else _) = _
  rw [if_neg hne, if_neg (Bool.eq_false_iff.mp hdigits)]

theorem answer_asking (hauto : AutoCommit t s) (h : IsName name) :
    answer setup t (asking name) s = some (.ok (answered (s.lookup (NAME_INFO ++ cString name)) some
      (s.sql.db.userByName setup name))) := by
  obtain ⟨s', hrun, -⟩ :=
    @run_searchThrough setup t s (NAME_INFO ++ name) some _ _ (run_GetUserByName hauto name)
  rw [answer, searchReply_asking h, GetUserByName, hrun, cString_name]
  rfl

theorem fresh_autoCommit (users : Table Uid UserInfo) (t : Worker) :
    AutoCommit t (Shared.fresh 0 0 users) :=
  ⟨rfl, fun _ => nofun⟩

/-- A state with the profile of a user under the key of a name that finds them. -/
def filled (db : Db) (name : Bytes) (user : UserInfo) : Shared :=
  (Shared.fresh 0 0 db.users).put (NAME_INFO ++ cString name)
    (some ⟨.json (profileJson user.uid user), none⟩)

theorem filled_lookup (name : Bytes) (user : UserInfo) :
    (filled db name user).lookup (NAME_INFO ++ cString name) = some
    (.json (profileJson user.uid user)) := by
  simp only [filled, Shared.lookup, Shared.put, ExpiringMap.find, Function.update_self]
  rfl

theorem reachable_filled (sid : Sid) (hQ : Q name) (hname : IsName name)
    (huser : db.userByName setup name = some user) :
    Reachable (searching setup db Q) ⟨filled db name user, fun _ => none⟩ := by
  have hstart : (searching setup db Q).start (.session sid) (Shared.fresh 0 0 db.users)
      (SearchUserCallback setup sid (asking name)) := by
    refine Or.inl ⟨sid, asking name, fun text htext => ?_, rfl⟩
    cases htext
    exact hQ
  have hsolo : Solo (searching setup db Q) (.session sid) (Shared.fresh 0 0 db.users) _ :=
    .start ⟨rfl, fun _ => rfl, fun _ => rfl, fun _ _ => rfl⟩ hstart
  rw [SearchUserCallback_eq, searchReply_asking hname] at hsolo
  obtain ⟨s', hrun, hput⟩ :=
    @run_searchThrough setup (.session sid) (Shared.fresh 0 0 db.users) (NAME_INFO ++ name) some
    _ _ (run_GetUserByName (fresh_autoCommit db.users (.session sid)) name)
  have hs' := hput rfl user huser
  rw [cString_name] at hs'
  subst hs'
  have hanswer : ∀ e s r s', alone setup (.session sid) .null e s = some (r, s') →
      (searching setup db Q).exec (.session sid) e s r s' := fun e s r s' h => ⟨_, h⟩
  exact (Solo.run hanswer hsolo hrun).finish rfl

/-- A hit on the profile of a user is the answer for another result of the table only if that result
is the user. -/
theorem found_of_answered (htyped : Typed db) (huser : db.user user.uid = some user)
    (h : answered (some (.json (profileJson user.uid user))) some (db.userByName setup name) =
      answered none some (db.userByName setup name)) : db.userByName setup name = some user := by
  obtain ⟨huid, hsex⟩ := htyped.bounds huser
  simp only [answered, cachedSearch_profile (fun _ => rfl) huid hsex] at h
  cases hfound : db.userByName setup name with
  | none =>
    -- a hit reports no error
    rw [hfound] at h
    have herror := congrArg (fun r : Reply => r.rtvalue.get "error") h
    simp +decide only [failed, foundUser, Json.setAll, foldl_cons, foldl_nil, Json.get_set, if_true,
      if_false] at herror
    exact absurd (Json.int.inj herror) (by decide)
  | some found =>
    rw [hfound] at h
    have huids := congrArg (fun r : Reply => r.rtvalue.get "uid") h
    simp +decide only
      [foundUser, Json.setAll, foldl_cons, foldl_nil, Json.get_set, if_true, if_false,
      Json.int.injEq] at huids
    have hother := user_of_userByName hfound
    rw [← huids, huser] at hother
    exact hother.symm

/-- A search that hits the profile another name left there, and is answered right, finds that user.
-/
theorem found_of_filled {name' : Bytes} (htyped : Typed db) (hname : IsName name)
    (hkey : cString name = cString name') (huser : db.userByName setup name' = some user)
    (h : answer setup t (asking name) (filled db name' user) =
      answer setup t (asking name) (uncached (filled db name' user))) : db.userByName setup name =
        some user := by
  have hauto : AutoCommit t (filled db name' user) := ⟨rfl, fun _ => nofun⟩
  have hauto' : AutoCommit t (uncached (filled db name' user)) := ⟨rfl, fun _ => nofun⟩
  have hhit : (filled db name' user).lookup (NAME_INFO ++ cString name) =
      some (.json (profileJson user.uid user)) := by
    rw [hkey]
    exact filled_lookup name' user
  rw [answer_asking hauto hname, answer_asking hauto' hname, hhit] at h
  exact found_of_answered htyped (user_of_userByName huser) (Except.ok.inj (Option.some.inj h))

/-- **A search through the cache answers as the table does, exactly if names with one key find one
user.** For any users, any runs of searches for the texts of `Q` and of other fills of the cache,
with any faults, and any state such a run reaches:

* if two names of `Q` that agree up to their first NUL find the same user or none, every search for
  a text of `Q` gets the answer it would get with an empty cache;
* if one of two such names finds a user that the other does not find, a search for the first fills
  the cache so that a search for the second gets the profile of that user. -/
theorem search_through_cache_iff (htyped : Typed db) :
    (∀ c, Reachable (searching setup db Q) c → ∀ t data,
      (∀ text, searchText data = some text → Q text) →
      answer setup t data c.shared = answer setup t data (uncached c.shared)) ↔
        Unambiguous setup db Q := by
  constructor
  · intro h name name' hQ hQ' hname hname' hkey user huser
    have hreach := reachable_filled ⟨[], []⟩ hQ' hname' huser
    have hasked : ∀ text, searchText (asking name) = some text → Q text := by
      intro text htext
      cases htext
      exact hQ
    have hsame := h _ hreach (.status 0) (asking name) hasked
    exact found_of_filled htyped hname hkey huser hsame
  · intro hQ c hc t data hdata
    obtain ⟨_, hcache, -⟩ := reachable_invariant (genuine_inductive setup db Q) hc
    exact hcache.answer_eq htyped hQ t hdata

theorem unambiguous_of_nulFree (hQ : ∀ name, Q name → ∀ c ∈ name, c ≠ 0) :
    Unambiguous setup db Q := by
  intro name name' hname hname' _ _ hkey user huser
  rw [cString_eq (hQ name hname), cString_eq (hQ name' hname')] at hkey
  rwa [hkey]

/-- One user, `bob`. -/
def onlyBob : Db where
  users := Table.empty.insert 1 ⟨ascii "bob", 1, [], [], [], 0, [], []⟩
  applies := .empty
  friends := .empty
  messages := .empty

theorem typed_onlyBob : Typed onlyBob := by
  intro uid u hu
  have hrow := Table.get_eq_some.mp hu
  cases mem_singleton.mp hrow
  decide

def bytewise : Setup := ⟨[], fun b => b, fun b => b, fun _ => 0, fun b => b⟩

theorem bob_searched_without_nul : Typed onlyBob ∧
    ∀ c, Reachable (searching bytewise onlyBob fun text => ∀ b ∈ text, b ≠ 0) c → ∀ t data,
      (∀ text, searchText data = some text → ∀ b ∈ text, b ≠ 0) →
        answer bytewise t data c.shared = answer bytewise t data (uncached c.shared) :=
  ⟨typed_onlyBob,
    (search_through_cache_iff typed_onlyBob).mpr (unambiguous_of_nulFree fun _ h => h)⟩

/-- After a search for `bob`, a search for `bob`, NUL, `x` finds `bob`; the table has no such user.
-/
theorem bob_answers_for_other_name : ∃ c, Reachable (searching bytewise onlyBob fun _ => True) c ∧
    ∃ data, answer bytewise (.status 0) data c.shared ≠ answer bytewise (.status 0) data
    (uncached c.shared) := by
  have huser : onlyBob.userByName bytewise (ascii "bob") =
    some ⟨ascii "bob", 1, [], [], [], 0, [], []⟩ := by decide
  have hname : IsName (ascii "bob") := ⟨by decide, by decide⟩
  have hother : IsName (ascii "bob" ++ [0, 120]) := ⟨by decide, by decide⟩
  refine ⟨_, reachable_filled ⟨[], []⟩ trivial hname huser, asking (ascii "bob" ++ [0, 120]),
    fun hsame => ?_⟩
  have hfound := found_of_filled typed_onlyBob hother (by decide) huser hsame
  exact absurd hfound (by decide)

end Answers

end DistributedChat.Chat
