import DistributedChat.Chat.Cluster
import DistributedChat.Lib.JsonSize

/-!
# The frame of a login

The answer to a login carries the profile, the applications, the friends and the pending files of
the user in one frame, and a frame holds at most 65535 bytes. `Send` closes the session instead of
sending a longer one.

A login is followed here from a state in which nothing stands in its way, with no other worker and
no fault in between.

1. The lists are read without a change of the state: `run_GetApplyList`, `run_GetFriendList`.
2. What is sent is `loginResponse` of the rows: `passes_bindSession`, `passes_login`.
3. How long its text is, row by row: `styledSize_loginResponse`.
4. The frame is sent or the session is closed, by this length.

The schema bounds the columns and the queries bound the rows, but not so that the text always fits:
a user with 74 friends cannot log in.
-/

namespace DistributedChat.Chat

open Lib

/-! ## The response -/

/-- The resource servers did not answer. -/
def unavailable : Json → Bool
  | .null => true
  | _ => false

/-- What a login answers to a user with these rows. -/
def loginResponse (uid : Uid) (user : UserInfo) (apply_list : List ApplyInfo)
    (friend_list : List UserInfo) (files : Json) : Json :=
  let rtvalue := Json.null.setAll [("error", ErrorCode.ok.json), ("uid", .int uid),
    ("name", .str user.name), ("email", .str user.email), ("nick", .str user.nick),
    ("desc", .str user.desc), ("sex", .int user.sex), ("icon", .str user.icon)]
  let rtvalue := appendAll rtvalue "apply_list" (apply_list.map applyJson)
  let rtvalue := appendAll rtvalue "friend_list" (friend_list.map friendJson)
  rtvalue.setAll [("pending_files", files), ("resources_unavailable", .bool (unavailable files))]

/-- The row of a user as `GetUser` returns it. -/
def Db.user (db : Db) (uid : Uid) : Option UserInfo :=
  (db.users.get uid).map fun u => { u with uid := uid, back := [] }

/-- A friend as `GetFriendList` returns them. -/
def Db.friend (db : Db) (row : Uid × Bytes) : Option UserInfo :=
  (db.user row.1).map fun u => { u with back := if row.2.length = 0 then u.name else row.2 }

/-- The profile of a user: the cached one, or the row. -/
def Shared.baseInfo (s : Shared) (uid : Uid) : Option UserInfo :=
  ((s.lookup (cString (USER_BASE_INFO ++ decimal uid))).bind (cachedProfile · uid)).or
    (s.sql.db.user uid)

/-- The response to a login of `uid` in a state. -/
def Shared.response (s : Shared) (uid : Uid) (user : UserInfo) (files : Json) : Json :=
  loginResponse uid user ((s.sql.db.applyList uid).take 50)
    ((s.sql.db.friendRows uid).filterMap s.sql.db.friend) files

/-! ## How long the response is -/

section Length

variable (quote : Bytes → ℕ)

/-- The length of an item of `apply_list`: its columns, as the writer quotes them, and what is
around them. -/
def applySize (a : ApplyInfo) : ℕ :=
  102 + quote a.name + Json.decimalSize a.uid + quote a.icon + quote a.nick + Json.decimalSize
    a.sex +
    quote a.desc + Json.decimalSize a.status

/-- The length of an item of `friend_list`. -/
def friendSize (u : UserInfo) : ℕ :=
  100 + quote u.name + Json.decimalSize u.uid + quote u.icon + quote u.nick + Json.decimalSize
    u.sex +
    quote u.desc + quote u.back

/-- The length of a list that is not empty; an empty one is not there. -/
def listLength (overhead : ℕ) (sizes : List ℕ) : ℕ :=
  if sizes = [] then 0 else overhead + (sizes.map (4 + ·)).sum

/-- The length of the response, from the columns of its rows. -/
def loginSize (uid : Uid) (user : UserInfo) (apply_list : List ApplyInfo)
    (friend_list : List UserInfo)
    (files : Json) : ℕ :=
  150 + Json.decimalSize uid + quote user.name + quote user.email + quote user.nick + quote
    user.desc +
    Json.decimalSize user.sex + quote user.icon + listLength 23 (apply_list.map (applySize quote)) +
    listLength 24 (friend_list.map (friendSize quote)) + Json.styledValue quote true 1 files +
    if unavailable files then 4 else 5

/-- The keys of the response need no escape. -/
def LoginKeys : Prop :=
  ∀ key ∈ ["error", "uid", "name", "email", "nick", "desc", "sex", "icon", "apply_list",
    "friend_list",
    "pending_files", "resources_unavailable", "back", "status"], quote (ascii key) = key.length + 2

variable {quote}

theorem LoginKeys.sizes (h : LoginKeys quote) :
    (quote (ascii "error") = 7 ∧ quote (ascii "uid") = 5 ∧ quote (ascii "name") = 6 ∧
      quote (ascii "email") = 7 ∧
      quote (ascii "nick") = 6 ∧ quote (ascii "desc") = 6 ∧ quote (ascii "sex") = 5 ∧ quote
      (ascii "icon") = 6) ∧
    (quote (ascii "apply_list") = 12 ∧ quote (ascii "friend_list") = 13 ∧
      quote (ascii "pending_files") = 15 ∧
      quote (ascii "resources_unavailable") = 23) ∧ quote (ascii "back") = 6 ∧
        quote (ascii "status") = 8 :=
  ⟨⟨h _ (by simp), h _ (by simp), h _ (by simp), h _ (by simp), h _ (by simp), h _ (by simp),
    h _ (by simp),
    h _ (by simp)⟩, ⟨h _ (by simp), h _ (by simp), h _ (by simp), h _ (by simp)⟩, h _ (by simp),
      h _ (by simp)⟩

/-- What `appendAll` adds to an object that does not have the key. -/
def listMember (key : String) (items : List Json) : List (Bytes × Json) :=
  if items = [] then [] else [(ascii key, .arr items)]

section Members

variable {ms : List (Bytes × Json)} {key key' : String} {items : List Json}

theorem filter_of_fresh (h : ascii key ∉ ms.map Prod.fst) :
    ms.filter (fun m => m.1 != ascii key) = ms := by
  refine List.filter_eq_self.mpr fun m hm => bne_iff_ne.mpr fun heq => h ?_
  exact heq ▸ List.mem_map_of_mem hm

theorem set_new (h : ascii key ∉ ms.map Prod.fst) (x : Json) :
    (Json.obj ms).set key x = .obj (ms ++ [(ascii key, x)]) := by
  rw [Json.set, filter_of_fresh h]

/-- An object that is built from nothing, with keys that differ. -/
theorem setAll_null {members : List (String × Json)} (keys : List String)
    (hkeys : members.map Prod.fst = keys) (h : (keys.map ascii).Nodup) (hne : members ≠ []) :
    Json.null.setAll members = .obj (members.map fun m => (ascii m.1, m.2)) := by
  subst hkeys
  induction members using List.reverseRecOn with
  | nil => exact absurd rfl hne
  | append_singleton members m ih =>
    rw [List.map_append, List.map_append, List.nodup_append] at h
    rw [Json.setAll, List.foldl_append]
    by_cases hempty : members = []
    · subst hempty
      rfl
    · rw [show List.foldl _ _ members = _ from ih hempty h.1]
      refine (set_new (fun hmem => ?_) m.2).trans (by simp)
      rw [List.map_map] at hmem
      exact h.2.2 _ (by rw [List.map_map]; exact hmem) _ (by simp) rfl

theorem fresh_append (h : ascii key ∉ ms.map Prod.fst) (hne : ascii key ≠ ascii key') :
    ascii key ∉ (ms ++ listMember key' items).map Prod.fst := by
  rw [List.map_append, List.mem_append, not_or]
  refine ⟨h, ?_⟩
  unfold listMember
  split
  · exact List.not_mem_nil
  · simpa using hne

theorem appendAll_obj (h : ascii key ∉ ms.map Prod.fst) (items : List Json) :
    appendAll (.obj ms) key items = .obj (ms ++ listMember key items) := by
  induction items using List.reverseRecOn with
  | nil => simp [appendAll, listMember]
  | append_singleton items x ih =>
    have hlookup : ms.lookup (ascii key) = none :=
      List.lookup_eq_none_iff.mpr fun m hm => bne_iff_ne.mpr fun heq =>
        h (heq ▸ List.mem_map_of_mem hm)
    rw [appendAll, List.foldl_append, show List.foldl _ _ items = _ from ih]
    by_cases hitems : items = []
    · subst hitems
      simp [listMember, Json.set, Json.get, Json.find, Json.append, Json.elements, hlookup,
        filter_of_fresh h]
    · simp [listMember, hitems, Json.set, Json.get, Json.find, Json.append, Json.elements, hlookup,
        filter_of_fresh h, List.lookup_append]

theorem sum_listMember : ((listMember key items).map (Json.styledMember quote 1)).sum =
    listLength (quote (ascii key) + 11) (items.map (Json.styledValue quote false 2)) := by
  cases items with
  | nil => rfl
  | cons x xs =>
    have hsum := Json.styledElements_eq quote (List.cons_ne_nil x xs) 2
    have hcongr : (List.map ((4 + ·) ∘ Json.styledValue quote false 2) xs).sum =
        (xs.map fun x => 4 + Json.styledValue quote false 2 x).sum := rfl
    simp only [listMember, reduceCtorEq, if_false, List.map_cons, List.map_nil, List.sum_cons,
      List.sum_nil,
      Json.styledMember, Json.styledValue, listLength, if_true, List.map_map, Nat.reduceAdd,
        hcongr] at hsum ⊢
    omega

end Members

/-! ### The members of the response -/

def loginMembers (uid : Uid) (user : UserInfo) : List (Bytes × Json) :=
  [(ascii "error", .int 0), (ascii "uid", .int uid), (ascii "name", .str user.name),
    (ascii "email", .str user.email), (ascii "nick", .str user.nick),
      (ascii "desc", .str user.desc),
    (ascii "sex", .int user.sex), (ascii "icon", .str user.icon)]

theorem fresh_profile {uid : Uid} {user : UserInfo} {key : Bytes} (h : key ∈ [ascii "apply_list",
    ascii "friend_list", ascii "pending_files", ascii "resources_unavailable"]) :
    key ∉ (loginMembers uid user).map Prod.fst := by
  revert key
  show ∀ key ∈ _,
    key ∉ [ascii "error", ascii "uid", ascii "name", ascii "email", ascii "nick", ascii "desc",
    ascii "sex", ascii "icon"]
  decide +kernel

theorem loginResponse_eq (uid : Uid) (user : UserInfo) (apply_list : List ApplyInfo)
    (friend_list : List UserInfo) (files : Json) :
    loginResponse uid user apply_list friend_list files =
      .obj (loginMembers uid user ++ listMember "apply_list" (apply_list.map applyJson) ++
        listMember "friend_list" (friend_list.map friendJson) ++ [(ascii "pending_files", files)] ++
          [(ascii "resources_unavailable", .bool (unavailable files))]) := by
  have hprofile : Json.null.setAll [("error", ErrorCode.ok.json), ("uid", .int uid),
      ("name", .str user.name), ("email", .str user.email), ("nick", .str user.nick),
      ("desc", .str user.desc), ("sex", .int user.sex), ("icon", .str user.icon)] =
      .obj (loginMembers uid user) :=
    setAll_null ["error", "uid", "name", "email", "nick", "desc", "sex", "icon"] rfl
      (by decide +kernel) (by simp)
  have hlists : ∀ key ∈ ["pending_files", "resources_unavailable"],
    ascii key ∉ (loginMembers uid user ++
      listMember "apply_list" (apply_list.map applyJson) ++
        listMember "friend_list" (friend_list.map friendJson)).map Prod.fst := by
    intro key hkey
    rcases List.mem_pair.mp hkey with rfl | rfl <;>
      exact fresh_append (fresh_append (fresh_profile (by simp)) (by decide +kernel))
        (by decide +kernel)
  have hflag : ascii "resources_unavailable" ∉ [ascii "pending_files"] := by decide +kernel
  unfold loginResponse
  dsimp only
  rw [hprofile, appendAll_obj (fresh_profile (by simp)),
    appendAll_obj (fresh_append (fresh_profile (by simp)) (by decide +kernel))]
  simp only [Json.setAll, List.foldl_cons, List.foldl_nil]
  rw [set_new (hlists _ (by simp)), set_new]
  rw [List.map_append, List.mem_append, not_or]
  exact ⟨hlists _ (by simp), hflag⟩

section

variable (hquote : LoginKeys quote)

include hquote

theorem styledValue_applyJson (a : ApplyInfo) :
    Json.styledValue quote false 2 (applyJson a) = applySize quote a := by
  obtain ⟨⟨-, huid, hname, -, hnick, hdesc, hsex, hicon⟩, -, -, hstatus⟩ := hquote.sizes
  have hjson : applyJson a = .obj [(ascii "name", .str a.name), (ascii "uid", .int a.uid),
      (ascii "icon", .str a.icon), (ascii "nick", .str a.nick), (ascii "sex", .int a.sex),
      (ascii "desc", .str a.desc), (ascii "status", .int a.status)] :=
    setAll_null ["name", "uid", "icon", "nick", "sex", "desc", "status"] rfl (by decide +kernel)
      (by simp)
  simp only [hjson, Json.styledValue, Json.styledMembers, List.isEmpty_cons, List.isEmpty_nil,
    Bool.false_eq_true,
    if_false, if_true, applySize]
  omega

theorem styledValue_friendJson (u : UserInfo) :
    Json.styledValue quote false 2 (friendJson u) = friendSize quote u := by
  obtain ⟨⟨-, huid, hname, -, hnick, hdesc, hsex, hicon⟩, -, hback, -⟩ := hquote.sizes
  have hjson : friendJson u = .obj [(ascii "name", .str u.name), (ascii "uid", .int u.uid),
      (ascii "icon", .str u.icon), (ascii "nick", .str u.nick), (ascii "sex", .int u.sex),
      (ascii "desc", .str u.desc), (ascii "back", .str u.back)] :=
    setAll_null ["name", "uid", "icon", "nick", "sex", "desc", "back"] rfl (by decide +kernel)
      (by simp)
  simp only [hjson, Json.styledValue, Json.styledMembers, List.isEmpty_cons, List.isEmpty_nil,
    Bool.false_eq_true,
    if_false, if_true, friendSize]
  omega

theorem sum_loginMembers (uid : Uid) (user : UserInfo) :
    ((loginMembers uid user).map (Json.styledMember quote 1)).sum =
    97 + Json.decimalSize uid + quote user.name +
      quote user.email + quote user.nick + quote user.desc + Json.decimalSize user.sex + quote
      user.icon := by
  obtain ⟨⟨herror, huid, hname, hemail, hnick, hdesc, hsex, hicon⟩, -⟩ := hquote.sizes
  have hzero : Json.decimalSize 0 = 1 := by decide +kernel
  simp only [loginMembers, List.map_cons, List.map_nil, List.sum_cons, List.sum_nil,
    Json.styledMember,
    Json.styledValue, hzero]
  omega

/-- **The response, row by row.** -/
theorem styledSize_loginResponse (uid : Uid) (user : UserInfo) (apply_list : List ApplyInfo)
    (friend_list : List UserInfo) (files : Json) :
    Json.styledSize quote (loginResponse uid user apply_list friend_list files) =
      loginSize quote uid user apply_list friend_list files := by
  obtain ⟨-, ⟨happly, hfriend, hfiles, hflag⟩, -⟩ := hquote.sizes
  have happlies : (apply_list.map applyJson).map (Json.styledValue quote false 2) =
      apply_list.map (applySize quote) := by
    simp only [List.map_map, Function.comp_def, styledValue_applyJson hquote]
  have hfriends : (friend_list.map friendJson).map (Json.styledValue quote false 2) =
      friend_list.map (friendSize quote) := by
    simp only [List.map_map, Function.comp_def, styledValue_friendJson hquote]
  rw [loginResponse_eq,
    Json.styledSize_obj quote (List.append_ne_nil_of_right_ne_nil _ (List.cons_ne_nil _ _))]
  simp only [List.map_append, List.sum_append]
  rw [sum_loginMembers hquote, sum_listMember, sum_listMember, happlies, hfriends, happly, hfriend]
  simp only [List.map_cons, List.map_nil, List.sum_cons, List.sum_nil, Json.styledMember,
    Json.styledValue, hfiles,
    hflag, loginSize, Nat.reduceAdd]
  omega

end

/-- The length of the response to a login of `uid`, from the rows of the tables. -/
def Shared.loginSize (s : Shared) (quote : Bytes → ℕ) (uid : Uid) (user : UserInfo)
    (files : Json) : ℕ :=
  Chat.loginSize quote uid user ((s.sql.db.applyList uid).take 50)
    ((s.sql.db.friendRows uid).filterMap s.sql.db.friend) files

end Length

/-! ## A run without others -/

section Alone

variable (setup : Setup)

variable {setup} {t : Worker} {sid : Sid} {files : Json} {s s' : Shared}

/-- The connection of a worker is in no transaction. -/
structure AutoCommit (t : Worker) (s : Shared) : Prop where
  pending : s.sql.pending t = none
  locks : ∀ k, s.sql.locks k ≠ some t

section

variable (h : AutoCommit t s)

include h

theorem AutoCommit.reset : s.sql.reset t = s.sql := by
  have hpending : Function.update s.sql.pending t none = s.sql.pending := by
    rw [← h.pending]
    exact Function.update_eq_self t s.sql.pending
  have hlocks :
    (fun k => if s.sql.locks k = some t then none else s.sql.locks k) = s.sql.locks := by
    funext k
    exact if_neg (h.locks k)
  show Transactions.mk _ _ _ = _
  rw [hpending, hlocks]

theorem run_query {q : Query} {v : q.Value} (hnote : s.noteCheck t q = s)
    (hq : q.run setup s.now s.sql.db = some (v, [], [])) :
    Prog.run (alone setup t files) (query q) s = some (.ok v, s) := by
  have hview : s.sql.view engine t = s.sql.db := by
    simp only [Transactions.view, Transactions.uncommitted, h.pending, Option.getD_none,
      Engine.applyAll_nil]
  have hwrite : s.sql.write engine t [] [] = s.sql := by
    simp only [Transactions.write, h.pending, Engine.applyAll_nil]
  have hperform : q.perform setup t .ok s = some (some v, s) := by
    simp only [Query.perform, hview, hq, List.not_mem_nil, false_implies, implies_true, if_true,
      hnote, hwrite, orLost]
  show ((alone setup t files (.db (.query q)) s).bind _) = _
  rw [show alone setup t files (.db (.query q)) s = some (some v, s) from hperform]
  rfl

theorem run_withConnection {α : Type} {unavailable a : α} {body : Svc α}
    (hbody : Prog.run (alone setup t files) body s = some (.ok a, s)) :
    Prog.run (alone setup t files) (withConnection unavailable body) s = some (.ok a, s) := by
  have hreturn :
    Prog.run (alone setup t files) (call (.db .returnConnection)) s = some (.ok (), s) := by
    show some (Except.ok (), { s with sql := s.sql.reset t }) = _
    rw [h.reset]
  exact (Task.run_andThen (a := true) rfl).trans (Task.run_ensuring hbody hreturn)

theorem run_GetUser (uid : Uid) :
    Prog.run (alone setup t files) (MysqlDao.GetUser uid) s = some
    (.ok (s.sql.db.user uid), s) := by
  refine run_withConnection h (Task.run_recover (run_query h ?_ rfl))
  cases t <;> rfl

theorem run_GetApplyList (uid : Uid) (limit : ℕ) :
    Prog.run (alone setup t files) (MysqlDao.GetApplyList uid limit) s =
      some (.ok (some ((s.sql.db.applyList uid).take limit)), s) := by
  refine run_withConnection h (Task.run_recover ?_)
  refine (Task.run_andThen (run_query h ?_ rfl)).trans rfl
  cases t <;> rfl

theorem run_friendInfos (rows : List (Uid × Bytes)) :
    Prog.run (alone setup t files) (MysqlDao.friendInfos rows) s =
      some (.ok (rows.filterMap s.sql.db.friend), s) := by
  induction rows with
  | nil => rfl
  | cons row rows ih =>
    obtain ⟨friend_id, back⟩ := row
    refine (Task.run_andThen (run_GetUser h friend_id)).trans ?_
    cases hu : s.sql.db.user friend_id with
    | none =>
      rw [List.filterMap_cons_none (by rw [Db.friend, hu]; rfl)]
      exact ih
    | some user =>
      have hfriend : s.sql.db.friend (friend_id, back) =
          some { user with back := if back.length = 0 then user.name else back } := by
        rw [Db.friend, hu]
        rfl
      rw [List.filterMap_cons_some hfriend]
      exact (Task.run_andThen ih).trans rfl

theorem run_GetFriendList (uid : Uid) :
    Prog.run (alone setup t files) (MysqlDao.GetFriendList uid) s =
      some (.ok (some ((s.sql.db.friendRows uid).filterMap s.sql.db.friend)), s) := by
  refine run_withConnection h (Task.run_recover ?_)
  refine (Task.run_andThen (run_query h ?_ rfl)).trans ?_
  · cases t <;> rfl
  · exact (Task.run_andThen (run_friendInfos h _)).trans rfl

end

/-! ## The steps of a login -/

/-- What a login leaves alone before it sends its answer. -/
structure Undisturbed (sid : Sid) (s s' : Shared) : Prop where
  sql : s'.sql = s.sql
  pushed : s'.history.pushed = s.history.pushed
  closed : (s'.sessions.get sid).map Session.closed = (s.sessions.get sid).map Session.closed

theorem Undisturbed.trans {s'' : Shared} (h : Undisturbed sid s s') (h' : Undisturbed sid s' s'') :
    Undisturbed sid s s'' :=
  ⟨h'.sql.trans h.sql, h'.pushed.trans h.pushed, h'.closed.trans h.closed⟩

theorem Undisturbed.update (s : Shared) {f : Session → Session}
    (hf : ∀ x, (f x).closed = x.closed) :
    Undisturbed sid s (s.update sid f) := by
  refine ⟨rfl, rfl, ?_⟩
  simp only [Shared.update, Table.get_update, if_true, Option.map_map]
  congr 1
  funext x
  exact hf x

theorem Undisturbed.autoCommit (h : Undisturbed sid s s') (hauto : AutoCommit t s) :
    AutoCommit t s' :=
  ⟨h.sql ▸ hauto.pending, h.sql ▸ hauto.locks⟩

theorem Undisturbed.response (h : Undisturbed sid s s') (uid : Uid) (user : UserInfo)
    (files : Json) :
    s'.response uid user files = s.response uid user files := by
  simp only [Shared.response, h.sql]

variable {x : Session}

theorem Undisturbed.session (h : Undisturbed sid s s') (hx : s.sessions.get sid = some x) :
    ∃ x', s'.sessions.get sid = some x' ∧ x'.closed = x.closed := by
  have hclosed := h.closed
  rw [hx] at hclosed
  exact Option.map_eq_some_iff.mp hclosed

theorem run_call {e : Call} {r : e.Answer} (h : alone setup t files e s = some (r, s')) :
    Prog.run (alone setup t files) (call e) s = some (.ok r, s') := by
  show (alone setup t files e s).bind _ = _
  rw [h]
  rfl

theorem onSession_of_get {α : Type} (hx : s.sessions.get sid = some x) (read : Session → α)
    (f : Session → Session) : s.onSession sid read f = some (read x, s.update sid f) := by
  simp only [Shared.onSession, hx, Option.map_some]

theorem get_update_self (hx : s.sessions.get sid = some x) (f : Session → Session) :
    (s.update sid f).sessions.get sid = some (f x) := by
  simp only [Shared.update, Table.get_update, if_true, hx, Option.map_some]

variable (setup t sid files)

/-- A part of the login ends with `a`, having sent nothing. -/
def Passes {α : Type} (p : Svc α) (s : Shared) (a : α) : Prop :=
  ∃ s', Prog.run (alone setup t files) p s = some (.ok a, s') ∧ Undisturbed sid s s'

variable {setup t sid files} {α β : Type}

theorem Passes.andThen {p : Svc α} {f : α → Svc β} {a : α} {b : β}
    (h : Passes setup t sid files p s a)
    (hf : ∀ s', Undisturbed sid s s' → Passes setup t sid files (f a) s' b) :
    Passes setup t sid files (p >>= f) s b := by
  obtain ⟨s', hrun, hs'⟩ := h
  obtain ⟨s'', hrun', hs''⟩ := hf s' hs'
  exact ⟨s'', (Task.run_andThen hrun).trans hrun', hs'.trans hs''⟩

theorem Passes.of_run {p : Svc α} {a : α}
    (h : Prog.run (alone setup t files) p s = some (.ok a, s)) :
    Passes setup t sid files p s a := ⟨s, h, rfl, rfl, rfl⟩

theorem passes_put {key : Bytes} {entry : Option (Entry RedisValue)} {e : Call} {r : e.Answer}
    (h : alone setup t files e s = some (r, s.put key entry)) :
    Passes setup t sid files (call e) s r := ⟨_, run_call h, rfl, rfl, rfl⟩

theorem passes_onSession (hx : s.sessions.get sid = some x) {c : SessionCall}
    {read : Session → c.Answer}
    {f : Session → Session} (hc : c.perform { files := some files } s = s.onSession sid read f)
    (hf : ∀ x, (f x).closed = x.closed) : Passes setup t sid files (call (.session c)) s (read x) :=
  ⟨_, run_call (hc.trans (onSession_of_get hx read f)), Undisturbed.update s hf⟩

/-! ## The profile -/

variable {uid : Uid} {user : UserInfo}

theorem passes_loadBaseInfo (h : AutoCommit t s) {key : Bytes}
    (hu : s.sql.db.user uid = some user) :
    Passes setup t sid files (loadBaseInfo key uid) s (some user) := by
  refine Passes.andThen (.of_run (run_GetUser h uid)) fun s' _ => ?_
  rw [hu]
  exact Passes.andThen (passes_put rfl) fun _ _ => .of_run rfl

theorem passes_GetBaseInfo (h : AutoCommit t s) (hu : s.baseInfo uid = some user) :
    Passes setup t sid files (GetBaseInfo (USER_BASE_INFO ++ decimal uid) uid) s (some user) := by
  have hget : Prog.run (alone setup t files) (RedisMgr.Get (USER_BASE_INFO ++ decimal uid)) s =
    some (.ok (s.lookup (cString (USER_BASE_INFO ++ decimal uid))), s) := rfl
  unfold Shared.baseInfo at hu
  unfold Passes GetBaseInfo
  rw [Task.run_andThen hget]
  cases hl : s.lookup (cString (USER_BASE_INFO ++ decimal uid)) with
  | none =>
    rw [hl] at hu
    exact passes_loadBaseInfo h hu
  | some info =>
    rw [hl, Option.bind_some] at hu
    cases hc : cachedProfile info uid with
    | some cached =>
      rw [hc] at hu
      cases hu
      simp only [hc]
      exact Passes.of_run rfl
    | none =>
      rw [hc] at hu
      simp only [hc]
      -- a profile that cannot be read is deleted first
      refine Passes.andThen (passes_put rfl) fun s' hs' => ?_
      exact passes_loadBaseInfo (hs'.autoCommit h) (by rw [hs'.sql]; exact hu)

/-! ## The lists -/

theorem passes_setUserId (hx : s.sessions.get sid = some x) (uid : Uid) :
    Passes setup t sid files (call (.session (.setUserId sid uid))) s () := by
  have hset : alone setup t files (.session (.setUserId sid uid)) s =
      some ((), (s.update sid fun x => { x with uid := uid }).record fun h =>
        { h with auths :=
          ⟨sid, uid, (x.ticket.getD ([], 0)).1, (x.ticket.getD ([], 0)).2⟩ :: h.auths }) := by
    simp only [alone, perform, SessionCall.perform, hx]
  have hupdate : Undisturbed sid s (s.update sid fun x => { x with uid := uid }) :=
    Undisturbed.update s fun _ => rfl
  exact ⟨_, run_call hset, rfl, rfl, hupdate.closed⟩

theorem passes_bindSession (h : AutoCommit t s) (uid : Uid) (user : UserInfo)
    (hx : s.sessions.get sid = some x) :
    Passes setup t sid files
    (bindSession sid uid user) s ⟨s.response uid user files, false, true⟩ := by
  unfold Passes bindSession
  rw [Task.run_andThen (run_GetApplyList h uid 50), Task.run_andThen (run_GetFriendList h uid)]
  refine Passes.andThen (a := some files) (.of_run rfl) fun s₁ hs₁ => ?_
  obtain ⟨x₁, hx₁, -⟩ := hs₁.session hx
  refine Passes.andThen (passes_setUserId hx₁ uid) fun s₂ _ => ?_
  refine Passes.andThen (passes_put rfl) fun s₃ _ => ?_
  exact Passes.andThen ⟨_, run_call rfl, rfl, rfl, rfl⟩ fun _ _ => .of_run rfl

/-! ## The ticket -/

/-- Nothing but the length of the answer stands in the way of the login: the session is open and not
bound, the request is for the protocol of the server, its ticket is stored and the user is known. -/
structure CanLogin (s : Shared) (sid : Sid) (root : Json) (uid : Uid) (token : Bytes)
    (user : UserInfo) : Prop where
  autoCommit : AutoCommit (.session sid) s
  session : ∃ x, s.sessions.get sid = some x ∧ x.closed = false ∧ x.uid ≤ 0
  uid_pos : 0 < uid
  token_ne : token ≠ []
  version : ((root.find "resource_protocol_version").getD (.int 0)).asInt = some 1
  ticket : ∃ v, s.lookup (CHAT_TICKET_PREFIX ++ token) = some v ∧
    validTicket v uid sid.server = true
  user : s.baseInfo uid = some user

theorem baseKey_ne_ticketKey (token : Bytes) (uid : Uid) :
    cString (USER_BASE_INFO ++ decimal uid) ≠ CHAT_TICKET_PREFIX ++ token := by
  intro h
  have hhead := congrArg List.head? h
  have hticket : (CHAT_TICKET_PREFIX ++ token).head? = some 99 := rfl
  have hbase : (cString (USER_BASE_INFO ++ decimal uid)).head? = some 117 := rfl
  rw [hticket, hbase] at hhead
  cases hhead

theorem Undisturbed.redeem (s : Shared) (key : Bytes) :
    Undisturbed sid s (s.redeem (.session sid) key) := by
  unfold Shared.redeem
  cases ticketToken key with
  | none => exact ⟨rfl, rfl, rfl⟩
  | some token =>
    have hupdate :
      Undisturbed sid s (s.update sid fun x => { x with ticket := some (token, s.now) }) :=
      Undisturbed.update s fun _ => rfl
    exact ⟨rfl, rfl, hupdate.closed⟩

theorem lookup_redeem (s : Shared) (key key' : Bytes) :
    (s.redeem (.session sid) key).lookup key' = s.lookup key' := by
  unfold Shared.redeem
  cases ticketToken key <;> rfl

variable {token : Bytes}

theorem run_GetDel {v : RedisValue} (hv : s.lookup (CHAT_TICKET_PREFIX ++ token) = some v) :
    ∃ s', Prog.run (alone setup (.session sid) files)
        (RedisMgr.GetDel (CHAT_TICKET_PREFIX ++ token)) s = some (.ok (some v), s') ∧
      Undisturbed sid s s' ∧ ∀ uid, s'.baseInfo uid = s.baseInfo uid := by
  have hput : Undisturbed sid s (s.put (CHAT_TICKET_PREFIX ++ token) none) := ⟨rfl, rfl, rfl⟩
  have hboth := hput.trans (Undisturbed.redeem _ (CHAT_TICKET_PREFIX ++ token))
  refine ⟨_, run_call ?_, hboth, fun uid => ?_⟩
  · simp only [alone, perform, RedisCall.perform, hv]
  · have hget : (s.put (CHAT_TICKET_PREFIX ++ token) none).redis
        (cString (USER_BASE_INFO ++ decimal uid)) =
        s.redis (cString (USER_BASE_INFO ++ decimal uid)) :=
      Function.update_of_ne (baseKey_ne_ticketKey token uid) none s.redis
    have hlookup : (s.put (CHAT_TICKET_PREFIX ++ token) none).lookup
        (cString (USER_BASE_INFO ++ decimal uid)) =
        s.lookup (cString (USER_BASE_INFO ++ decimal uid)) :=
      congrArg (Option.map Entry.value) (ExpiringMap.find_congr hget s.now)
    simp only [Shared.baseInfo, lookup_redeem, hlookup, hboth.sql]

/-- The rest of a login, once the ticket is redeemed. -/
theorem passes_profile (hauto : AutoCommit (.session sid) s) {x : Session}
    (huser : s.baseInfo uid = some user)
    (hx : s.sessions.get sid = some x) : Passes setup (.session sid) sid files (do
      match ← GetBaseInfo (USER_BASE_INFO ++ decimal uid) uid with
      | none => return failed .null .uidInvalid
      | some user => bindSession sid uid user) s ⟨s.response uid user files, false, true⟩ := by
  refine Passes.andThen (passes_GetBaseInfo hauto huser) fun s₁ hs₁ => ?_
  obtain ⟨x₁, hx₁, -⟩ := hs₁.session hx
  rw [← hs₁.response]
  exact passes_bindSession (hs₁.autoCommit hauto) uid user hx₁

theorem passes_login {root : Json} (h : CanLogin s sid root uid token user) :
    Passes setup (.session sid) sid files
    (login sid root uid token) s ⟨s.response uid user files, false, true⟩ := by
  obtain ⟨x, hx, -, hunbound⟩ := h.session
  obtain ⟨v, hv, hvalid⟩ := h.ticket
  have hcheck : ¬ (0 < x.uid ∨ uid ≤ 0 ∨ token = []) := by
    rintro (hbound | hneg | hempty)
    · exact absurd hbound (Int.not_lt.mpr hunbound)
    · exact absurd hneg (Int.not_le.mpr h.uid_pos)
    · exact h.token_ne hempty
  -- what is read of the session, the ticket and the profile
  have hid : alone setup (.session sid) files (.session (.getUserId sid)) s =
      some (x.uid, s.update sid fun x => x) := onSession_of_get hx _ _
  have hs₁ : Undisturbed sid s (s.update sid fun x => x) := Undisturbed.update s fun _ => rfl
  obtain ⟨s₂, hrun₂, hs₂, hbase⟩ : ∃ s₂, Prog.run (alone setup (.session sid) files)
      (RedisMgr.GetDel (CHAT_TICKET_PREFIX ++ token)) (s.update sid fun x => x) =
        some (.ok (some v), s₂) ∧ Undisturbed sid (s.update sid fun x => x) s₂ ∧
      ∀ uid, s₂.baseInfo uid = (s.update sid fun x => x).baseInfo uid := run_GetDel hv
  have hs₁₂ := hs₁.trans hs₂
  have huser : s₂.baseInfo uid = some user := (hbase uid).trans h.user
  obtain ⟨x₂, hx₂, -⟩ := hs₁₂.session hx
  have hrest : Passes setup (.session sid) sid files _ s₂ _ :=
    passes_profile (hs₁₂.autoCommit h.autoCommit) huser hx₂
  rw [hs₁₂.response] at hrest
  obtain ⟨s', hrun, hs'⟩ := hrest
  refine ⟨s', ?_, hs₁₂.trans hs'⟩
  unfold login getUserId
  rw [Task.run_andThen (run_call hid), if_neg hcheck]
  simp only [h.version, ne_eq, not_true_eq_false, if_false]
  rw [Task.run_andThen hrun₂]
  simp only [hvalid, if_true]
  exact hrun

/-! ## Sending -/

theorem passes_rmvUserSession (uid : Uid) :
    Passes setup t sid files (call (.session (.rmvUserSession uid sid))) s () := by
  have hupdate : Undisturbed sid s (s.update sid fun x => { x with cleared := true }) :=
    Undisturbed.update s fun _ => rfl
  refine ⟨_, run_call rfl, ?_⟩
  split_ifs
  · exact ⟨rfl, rfl, hupdate.closed⟩
  · exact hupdate

theorem passes_ClearSession (hx : s.sessions.get sid = some x) :
    Passes setup t sid files (CServer.ClearSession sid) s () := by
  have herase : ∀ s', Undisturbed sid s s' →
      Passes setup t sid files (call (.session (.eraseSession sid))) s' () := by
    intro s' hs'
    obtain ⟨x', hx', -⟩ := hs'.session hx
    exact passes_onSession (c := .eraseSession sid) hx' rfl fun _ => rfl
  unfold CServer.ClearSession
  refine Passes.andThen (passes_onSession hx rfl fun _ => rfl) fun s₁ hs₁ => ?_
  cases x.listed with
  | false => exact herase s₁ hs₁
  | true =>
    obtain ⟨x₁, hx₁, -⟩ := hs₁.session hx
    refine Passes.andThen (passes_onSession hx₁ rfl fun _ => rfl) fun s₂ hs₂ => ?_
    by_cases hbound : 0 < x₁.uid
    · simp only [if_pos hbound]
      exact Passes.andThen (passes_rmvUserSession x₁.uid) fun s₃ hs₃ =>
        herase s₃ ((hs₁.trans hs₂).trans hs₃)
    · simp only [if_neg hbound]
      exact herase s₂ (hs₁.trans hs₂)

section

variable (hx : s.sessions.get sid = some x) (hopen : x.closed = false)

include hx hopen

theorem run_Close :
    ∃ s', Prog.run (alone setup t files) (CSession.Close sid) s = some (.ok (), s') ∧
      s'.history.pushed = s.history.pushed ∧ ∃ x', s'.sessions.get sid = some x' ∧ x'.closed =
      true := by
  have hexchange : alone setup t files (.session (.exchangeClosed sid)) s =
      some (x.closed, s.update sid fun x =>
        { x with closed := true }) := onSession_of_get hx _ _
  have hclosed := get_update_self hx fun x =>
    { x with closed := true }
  obtain ⟨s', hrun, hs'⟩ : Passes setup t sid files (CServer.ClearSession sid) _ () :=
    passes_ClearSession hclosed
  refine ⟨s', ?_, hs'.pushed, hs'.session hclosed⟩
  unfold CSession.Close
  rw [Task.run_andThen (run_call hexchange), hopen]
  exact hrun

theorem run_Send_of_le {body : Json} (hsize : setup.size body ≤ 65535) (id : MsgId) :
    ∃ s', Prog.run (alone setup t files) (CSession.Send setup sid body id) s =
        some (.ok true, s') ∧ s'.history.pushed = (sid, ⟨id, body⟩) :: s.history.pushed ∧
      ∃ x', s'.sessions.get sid = some x' ∧ x'.closed = false := by
  have hread : ∀ {s : Shared}, s.sessions.get sid = some x →
      Prog.run (alone setup t files) (isClosed sid) s =
        some (.ok false, s.update sid fun x => x) := by
    intro s hx
    rw [← hopen]
    exact run_call (onSession_of_get hx _ _)
  have hx₁ := get_update_self hx fun x => x
  have hx₂ := get_update_self hx₁ fun x => x
  refine ⟨((s.update sid fun x => x).update sid fun x => x).record fun h =>
    { h with pushed := (sid, ⟨id, body⟩) :: h.pushed }, ?_, rfl, x, hx₂, hopen⟩
  unfold CSession.Send
  rw [if_neg (Nat.not_lt.mpr hsize), Task.run_andThen (hread hx)]
  simp only [Bool.false_eq_true, if_false]
  rw [Task.run_andThen (hread hx₁)]
  simp only [Bool.false_eq_true, if_false]
  exact run_call rfl

theorem run_Send_of_lt {body : Json} (hsize : 65535 < setup.size body) (id : MsgId) :
    ∃ s', Prog.run (alone setup t files) (CSession.Send setup sid body id) s =
        some (.ok false, s') ∧ s'.history.pushed = s.history.pushed ∧
      ∃ x', s'.sessions.get sid = some x' ∧ x'.closed = true := by
  obtain ⟨s', hrun, hs'⟩ : ∃ s', Prog.run (alone setup t files) (CSession.Close sid) s =
      some (.ok (), s') ∧ s'.history.pushed = s.history.pushed ∧
      ∃ x', s'.sessions.get sid = some x' ∧ x'.closed = true := run_Close hx hopen
  refine ⟨s', ?_, hs'⟩
  unfold CSession.Send
  rw [if_pos hsize, Task.run_andThen hrun]
  rfl

end

/-! ## The login -/

/-- **A login succeeds exactly if the rows of its user fit a frame.** Where nothing else stands in
its way, the login reaches a state `s'` in which

* the answer is queued and the session is open if `loginSize` is at most 65535, and the waiting
  messages are delivered next;
* otherwise the session is closed, nothing was queued, and the handler is done.

`loginSize` counts 150 bytes for the profile, 106 for each application and 104 for each friend, and
to that their columns: the digits of the numbers and the texts with their quotes and escapes. -/
theorem login_answered_iff {quote : Bytes → ℕ} (hsize : setup.size = Json.styledSize quote)
    (hquote : LoginKeys quote) {data : Option Json} {root : Json} {uid : Uid} {token : Bytes}
    {user : UserInfo} (hdata : loginRequest data = some (root, uid, token))
    (h : CanLogin s sid root uid token user) :
    ∃ s', Prog.run (alone setup (.session sid) files) (LoginChatCallback setup sid data) s =
        (if s.loginSize quote uid user files ≤ 65535 then
          Prog.run (alone setup (.session sid) files)
            (DeliverPendingTextMessages setup sid uid) s'
        else some (.ok (), s')) ∧
      (s'.history.pushed =
          (sid, ⟨.chatLoginRsp, s.response uid user files⟩) :: s.history.pushed ↔
        s.loginSize quote uid user files ≤ 65535) ∧
      ((s'.sessions.get sid).map Session.closed = some false ↔
        s.loginSize quote uid user files ≤ 65535) := by
  have hlength : s.loginSize quote uid user files = setup.size (s.response uid user files) := by
    rw [hsize]
    exact (styledSize_loginResponse hquote ..).symm
  rw [hlength]
  obtain ⟨s₁, hrun, hs₁⟩ : Passes setup (.session sid) sid files (login sid root uid token) s _ :=
    passes_login h
  obtain ⟨x, hx, hopen, -⟩ := h.session
  obtain ⟨x₁, hx₁, hopen₁⟩ := hs₁.session hx
  rw [hopen] at hopen₁
  unfold LoginChatCallback
  simp only [hdata]
  rw [Task.run_andThen hrun]
  by_cases hsize : setup.size (s.response uid user files) ≤ 65535
  · obtain ⟨s', hsend, hpushed, x', hx', hopen'⟩ : ∃ s', Prog.run
        (alone setup (.session sid) files) (CSession.Send setup sid _ .chatLoginRsp) s₁ = _ ∧ _ :=
      run_Send_of_le hx₁ hopen₁ hsize .chatLoginRsp
    refine ⟨s', ?_, ?_, ?_⟩
    · rw [Task.run_andThen hsend, if_pos hsize]
      exact Task.run_andThen_unit
    · rw [hpushed, hs₁.pushed]
      exact ⟨fun _ => hsize, fun _ => rfl⟩
    · rw [hx', Option.map_some, hopen']
      exact ⟨fun _ => hsize, fun _ => rfl⟩
  · obtain ⟨s', hsend, hpushed, x', hx', hclosed⟩ : ∃ s', Prog.run
        (alone setup (.session sid) files) (CSession.Send setup sid _ .chatLoginRsp) s₁ = _ ∧ _ :=
      run_Send_of_lt hx₁ hopen₁ (Nat.lt_of_not_le hsize) .chatLoginRsp
    refine ⟨s', ?_, ?_, ?_⟩
    · rw [Task.run_andThen hsend, if_neg hsize]
      rfl
    · rw [hpushed, hs₁.pushed]
      exact ⟨fun heq => absurd heq.symm (List.cons_ne_self _ _), fun hle => absurd hle hsize⟩
    · rw [hx', Option.map_some, hclosed]
      exact ⟨fun heq => by simp at heq, fun hle => absurd hle hsize⟩

end Alone

/-! ## The columns of the schema -/

/-- The number of characters of a text in UTF-8. -/
def characters (text : Bytes) : ℕ := text.countP fun b => b &&& 0xC0 != 0x80

/-- The columns of `user`. -/
def UserInfo.inColumns (u : UserInfo) : Bool :=
  characters u.name ≤ 64 && characters u.email ≤ 255 && characters u.nick ≤ 64 &&
    characters u.desc ≤ 255 && -128 ≤ u.sex && u.sex ≤ 127 && characters u.icon ≤ 512

/-- The rows of `user` and `friend` keep to their columns. -/
def Db.inColumns (db : Db) : Bool :=
  (db.users.rows.all fun r => 0 < r.1 && r.1 < 2 ^ 31 && r.2.inColumns) &&
    db.friends.rows.all fun r => characters r.2 ≤ 64

/-! ## A user with many friends -/

namespace Sample

/-- A deployment with the styled writer, for texts that need no escapes. -/
def styled : Setup :=
  ⟨[ascii "s1"], fun b => b, fun b => b, Json.styledSize Json.plainQuote, fun b => b⟩

def letters (n : ℕ) : Bytes := List.replicate n 97

/-- A user whose nick, description and icon fill their columns. -/
def profile (uid : Uid) : UserInfo where
  name := ascii "user" ++ decimal uid
  uid := uid
  email := ascii "user" ++ decimal uid ++ ascii "@example.com"
  nick := letters 64
  desc := letters 255
  sex := 0
  icon := letters 512

/-- The users 1, …, n, friends of user 1 apart from themselves. -/
def befriended (n : ℕ) : Db where
  users :=
    { rows := (List.range n).map fun i : ℕ => ((i : ℤ) + 1, profile (i + 1))
      nodup := by
        rw [List.map_map]
        refine List.Nodup.map ?_ List.nodup_range
        intro i j h
        simpa using h }
  applies := .empty
  friends :=
    { rows := (List.range (n - 1)).map fun i : ℕ => ((1, (i : ℤ) + 2), letters 64)
      nodup := by
        rw [List.map_map]
        refine List.Nodup.map ?_ List.nodup_range
        intro i j h
        simpa using h }
  messages := .empty

def session : Sid := ⟨ascii "s1", ascii "x"⟩

/-- User 1 has connected and holds a ticket. -/
def connected (n : ℕ) : Shared where
  now := 0
  steady := 0
  redis key :=
    if key = CHAT_TICKET_PREFIX ++ ascii "t" then
      some ⟨.json (StatusServiceImpl.ticket 1 (ascii "s1")), some 60⟩
    else none
  sql := ⟨befriended n, fun _ => none, fun _ => none⟩
  sessions := Table.empty.insert session { listed := true, started := true }
  registry _ _ := none
  wakes := []
  notifications := []
  cursor := 0
  history := {}

def request : Json :=
  Json.null.setAll
    [("uid", .int 1), ("token", .str (ascii "t")), ("resource_protocol_version", .int 1)]

theorem canLogin {n : ℕ} (h : (connected n).baseInfo 1 = some (profile 1)) :
    CanLogin (connected n) session request 1 (ascii "t") (profile 1) where
  autoCommit := ⟨rfl, fun _ h => by cases h⟩
  session := ⟨_, Table.get_eq_some.mpr List.mem_cons_self, rfl, Int.le_refl 0⟩
  uid_pos := by decide
  token_ne := by decide
  version := by decide +kernel
  ticket := ⟨.json (StatusServiceImpl.ticket 1 (ascii "s1")), rfl, by decide +kernel⟩
  user := h

end Sample

set_option maxRecDepth 10000 in
/-- A user with 60 such friends logs in. -/
theorem login_answered_iff_sample :
    CanLogin (Sample.connected 61) Sample.session Sample.request 1 (ascii "t") (Sample.profile 1) ∧
    ∃ s' : Shared, s'.history.pushed = [(Sample.session, ⟨.chatLoginRsp,
        (Sample.connected 61).response 1 (Sample.profile 1) (.arr [])⟩)] ∧
      (s'.sessions.get Sample.session).map Session.closed = some false := by
  have hready := Sample.canLogin (n := 61) (by decide +kernel)
  have hfits : (Sample.connected 61).loginSize Json.plainQuote 1 (Sample.profile 1)
    (.arr []) ≤ 65535 := by
    decide +kernel
  have hquote : LoginKeys Json.plainQuote := by
    unfold LoginKeys
    decide +kernel
  have hdata : loginRequest (some Sample.request) = some (Sample.request, 1, ascii "t") := rfl
  have hsize : Sample.styled.size = Json.styledSize Json.plainQuote := rfl
  obtain ⟨s', -, hpushed, hopen⟩ := login_answered_iff hsize hquote hdata hready
  exact ⟨hready, s', hpushed.mpr hfits, hopen.mpr hfits⟩

set_option maxRecDepth 10000 in
/-- **A user with friends enough cannot log in.** Every text of the database is within its column,
the user has 74 friends, no application and no pending file; the login closes the session and
answers nothing. -/
theorem login_locks_out :
    (Sample.befriended 75).inColumns = true ∧ ((Sample.befriended 75).friendRows 1).length = 74 ∧
    CanLogin (Sample.connected 75) Sample.session Sample.request 1 (ascii "t") (Sample.profile 1) ∧
    (Prog.run (alone Sample.styled (.session Sample.session) (.arr []))
      (LoginChatCallback Sample.styled Sample.session (some Sample.request))
      (Sample.connected 75)).any (fun r =>
        (r.2.sessions.get Sample.session).any Session.closed && r.2.history.pushed.isEmpty) =
          true := by
  refine ⟨by decide +kernel, by decide +kernel, Sample.canLogin (by decide +kernel), ?_⟩
  decide +kernel

end DistributedChat.Chat
