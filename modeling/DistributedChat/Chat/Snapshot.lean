import DistributedChat.Chat.Logic
import DistributedChat.Client.Framing
import DistributedChat.Lib.JsonSize

/-!
# The snapshots of a heartbeat

`HeartbeatCallback` of `servers/chat/service/LogicSystem.cpp` sends the applications, the friends
and the pending files of a user in as many frames as they need. One value collects the three lists;
it is sent and emptied before an item that would make it too long, and when a list has twenty items.

1. `Snapshot`: the value as three lists, and the length of its text as a sum over them.
2. `Collected`: what has been sent and what is still in the value are together the items so far.
3. `run_snapshotLoop` keeps this through the loop over one list, whichever it is.
-/

namespace DistributedChat.Chat

open Lib Function List
open Json (styledSize styledValue styledMember plainQuote)

/-! ## The value -/

inductive Part
  | applies
  | friends
  | files
  deriving DecidableEq, Repr

def Part.key : Part → String
  | .applies => "apply_list"
  | .friends => "friend_list"
  | .files => "pending_files"

theorem Part.key_injective {part part' : Part} (h : ascii part.key = ascii part'.key) :
    part = part' := by
  revert h
  cases part <;> cases part' <;> decide +kernel

theorem Part.key_ne_flag (part : Part) : ascii part.key ≠ ascii "resources_unavailable" := by
  cases part <;> decide +kernel

section Snapshot

variable (quote : Bytes → ℕ)

/-- The length of a list in the text of a snapshot. -/
def listSize (items : List Json) : ℕ := Json.styledValue quote true 1 (.arr items)

def listsSize (lists : Part → List Json) : ℕ :=
  listSize quote (lists .applies) + listSize quote (lists .friends) + listSize quote (lists .files)

/-- `v` has the three lists, and its text is longer than theirs by `rest`. -/
structure Snapshot (v : Json) (lists : Part → List Json) (flag : Option Json) (rest : ℕ) :
    Prop where
  members : ∃ ms, v = .obj ms ∧ (ms.map Prod.fst).Nodup
  list : ∀ part, v.find part.key = some (.arr (lists part))
  flag : v.find "resources_unavailable" = flag
  size : Json.styledSize quote v = listsSize quote lists + rest

variable {quote} {v : Json} {lists : Part → List Json} {flag : Option Json} {rest : ℕ}

theorem nodup_set {ms : List (Bytes × Json)} (h : (ms.map Prod.fst).Nodup) (key : String)
    (x : Json) :
    ∃ ms', (Json.obj ms).set key x = .obj ms' ∧ (ms'.map Prod.fst).Nodup := by
  refine ⟨_, rfl, ?_⟩
  rw [map_append, map_singleton]
  refine List.Nodup.append (h.sublist (filter_sublist.map Prod.fst)) (nodup_singleton _) ?_
  rw [disjoint_singleton]
  simp

theorem listsSize_update (lists : Part → List Json) (part : Part) (items : List Json) :
    listsSize quote (update lists part items) + listSize quote (lists part) =
      listsSize quote lists + listSize quote items := by
  unfold listsSize
  cases part <;> simp [update] <;> omega

theorem Snapshot.get (h : Snapshot quote v lists flag rest) (part : Part) :
    v.get part.key = .arr (lists part) := by
  unfold Json.get
  rw [h.list part]
  rfl

theorem Snapshot.set (h : Snapshot quote v lists flag rest) (part : Part) (items : List Json) :
    Snapshot quote (v.set part.key (.arr items)) (update lists part items) flag rest := by
  obtain ⟨ms, rfl, hkeys⟩ := h.members
  refine ⟨nodup_set hkeys part.key _, fun part' => ?_, ?_, ?_⟩
  · rw [Json.find_set]
    by_cases heq : part' = part
    · rw [heq, if_pos rfl, update_self]
    · rw [if_neg fun hkey => heq (Part.key_injective hkey), update_of_ne heq]
      exact h.list part'
  · rw [Json.find_set, if_neg (Ne.symm part.key_ne_flag)]
    exact h.flag
  · have hset := Json.styledSize_set quote hkeys (h.list part) (.arr items)
    have hupdate := @listsSize_update quote lists part items
    have hsize := h.size
    unfold listSize at hupdate
    omega

theorem Snapshot.setFlag (h : Snapshot quote v lists none rest) (b : Bool) :
    Snapshot quote (v.set "resources_unavailable" (.bool b)) lists (some (.bool b))
      (rest + styledMember quote 1 (ascii "resources_unavailable", .bool b)) := by
  obtain ⟨ms, rfl, hkeys⟩ := h.members
  have hne : ms ≠ [] := by
    rintro rfl
    cases h.list .applies
  refine ⟨nodup_set hkeys _ _, fun part => ?_, ?_, ?_⟩
  · rw [Json.find_set, if_neg part.key_ne_flag]
    exact h.list part
  · rw [Json.find_set, if_pos rfl]
  · rw [Json.styledSize_set_new quote hne h.flag, h.size, Nat.add_assoc]

/-- The value without its items. -/
def blank (v : Json) : Json :=
  v.setAll [("apply_list", .arr []), ("friend_list", .arr []), ("pending_files", .arr [])]

theorem Snapshot.blank (h : Snapshot quote v lists flag rest) :
    Snapshot quote (blank v) (fun _ => []) flag rest := by
  have hset := ((h.set .applies []).set .friends []).set .files []
  have hlists : update (update (update lists .applies []) .friends []) .files [] = fun _ => [] := by
    funext part
    cases part <;> simp [update]
  rw [hlists] at hset
  exact hset

theorem snapshot_blank_null : Snapshot quote (Chat.blank .null) (fun _ => []) none
      (quote (ascii "apply_list") + quote (ascii "friend_list") + quote (ascii "pending_files") +
        21) := by
  have hblank :
    Chat.blank .null = .obj [(ascii "apply_list", .arr []), (ascii "friend_list", .arr []),
      (ascii "pending_files", .arr [])] := rfl
  rw [hblank]
  refine ⟨⟨_, rfl, by decide +kernel⟩, fun part => ?_, rfl, ?_⟩
  · cases part <;> rfl
  · rw [Json.styledSize_obj quote (cons_ne_nil _ _)]
    simp [styledMember, listsSize, listSize, styledValue]
    omega

end Snapshot

/-! ## A heartbeat that is answered -/

/-- What the callback finds: its user, the rows of the queries and the pending files. -/
structure Stock where
  uid : Uid
  applications : List ApplyInfo
  friendRows : List (Uid × Bytes)
  users : Uid → Option UserInfo
  files : Json

/-- The effects of a heartbeat while the session is open and its queue takes every frame. -/
def Stock.answer (stock : Stock) : (e : Call) → List OutFrame → Option (e.Answer × List OutFrame)
  | .session (.isClosed _), frames => some (false, frames)
  | .session (.getUserId _), frames => some (stock.uid, frames)
  | .session (.push _ frame), frames => some (true, frames ++ [frame])
  | .db .getConnection, frames => some (true, frames)
  | .db .returnConnection, frames => some ((), frames)
  | .db (.query (.selectApplyList _ _)), frames => some (some stock.applications, frames)
  | .db (.query (.selectFriends _)), frames => some (some stock.friendRows, frames)
  | .db (.query (.selectUser uid)), frames => some (some (stock.users uid), frames)
  | .peer (.pendingResources _), frames => some (some stock.files, frames)
  | _, _ => none

/-- The friends as `GetFriendList` returns them. -/
def Stock.friends (stock : Stock) : List UserInfo :=
  stock.friendRows.filterMap fun row =>
    (stock.users row.1).map fun user =>
      { user with back := if row.2.length = 0 then user.name else row.2 }

def Stock.items (stock : Stock) : Part → List Json
  | .applies => stock.applications.map applyJson
  | .friends => stock.friends.map friendJson
  | .files => stock.files.elements

/-- What frames carry of a list. -/
def collected (frames : List OutFrame) (part : Part) : List Json :=
  frames.flatMap fun frame => (frame.body.get part.key).elements

theorem collected_concat (frames : List OutFrame) (frame : OutFrame) (part : Part) :
    collected (frames ++ [frame]) part = collected frames part ++
    (frame.body.get part.key).elements := by
  simp [collected]

section Run

variable {setup : Setup} {quote : Bytes → ℕ} {stock : Stock} {s : Sid}

/-- An item that is not too long, alone and in a list of the snapshot. -/
def Fits (quote : Bytes → ℕ) (item : Json) : Prop :=
  Json.styledSize quote item ≤ 11 * 1024 ∧
    ∀ items, listSize quote
      (items ++ [item]) ≤ listSize quote items + Json.styledSize quote item + 256

/-- What has been sent and what is in the value are the items `done`, at most `most` of a list in
the value. The frames are short enough if the items are. -/
structure Collected (quote : Bytes → ℕ) (fits : Prop) (most : ℕ) (done : Part → List Json)
    (flag : Option Json)
    (rest : ℕ) (v : Json) (frames : List OutFrame) : Prop where
  snapshot : ∃ lists, Snapshot quote v lists flag rest ∧
    ∀ part, (lists part).length ≤ most ∧ collected frames part ++ lists part = done part
  size : fits → Json.styledSize quote v ≤ 12 * 1024 + 256 + rest
  count : ∀ frame ∈ frames, frame.id = .heartbeatRsp ∧
    ∀ part : Part, (frame.body.get part.key).elements.length ≤ 20
  short : fits → ∀ frame ∈ frames, Json.styledSize quote frame.body ≤ 16 * 1024

/-- A part of the callback ends as `Q` says, unless an item was too long. -/
def Ran {α : Type} (fits : Prop) (Q : α → List OutFrame → Prop)
    (out : Option (Except Unit α × List OutFrame)) :
    Prop :=
  (out = none ∧ ¬ fits) ∨ ∃ a frames, out = some (.ok a, frames) ∧ Q a frames

variable {fits : Prop} {most rest : ℕ} {done : Part → List Json} {flag : Option Json} {v : Json}
  {frames : List OutFrame}

variable {α : Type}

theorem Ran.andThen {β : Type} {Q : β → List OutFrame → Prop} {p : Svc α} {f : α → Svc β}
    (h : Ran fits (fun a frames => Ran fits Q (Prog.run stock.answer (f a) frames))
      (Prog.run stock.answer p frames)) :
    Ran fits Q (Prog.run stock.answer (p >>= f : Svc β) frames) := by
  rcases h with ⟨hnone, hfits⟩ | ⟨a, frames', hrun, hrest⟩
  · refine Or.inl ⟨?_, hfits⟩
    refine (Prog.run_bind stock.answer p _ frames).trans ?_
    rw [hnone]
    rfl
  · rwa [Task.run_andThen hrun]

theorem Ran.weaken {Q Q' : α → List OutFrame → Prop} {out : Option (Except Unit α × List OutFrame)}
    (h : Ran fits Q out) (hQ : ∀ a frames, Q a frames → Q' a frames) : Ran fits Q' out := by
  rcases h with hnone | ⟨a, frames, hrun, ha⟩
  · exact Or.inl hnone
  · exact Or.inr ⟨a, frames, hrun, hQ a frames ha⟩

theorem Ran.step {β : Type} {Q : β → List OutFrame → Prop} {p : Svc α} {f : α → Svc β} {a : α}
    {frames' : List OutFrame} (hrun : Prog.run stock.answer p frames = some (.ok a, frames'))
    (h : Ran fits Q (Prog.run stock.answer (f a) frames')) :
    Ran fits Q (Prog.run stock.answer (p >>= f : Svc β) frames) := by
  rwa [Task.run_andThen hrun]

theorem run_flush (hsize : setup.size = styledSize quote) (hrest : rest ≤ 95)
    (h : Collected quote fits most done flag rest v frames) (hmost : most ≤ 20) :
    Ran fits (fun v' frames' => Collected quote fits 0 done flag rest v' frames' ∧
      styledSize quote v' = rest + 6) (Prog.run stock.answer (flushSnapshot setup s v) frames) := by
  obtain ⟨lists, hsnap, hlists⟩ := h.snapshot
  have hblank : styledSize quote (blank v) = rest + 6 :=
    hsnap.blank.size.trans (Nat.add_comm 6 rest)
  by_cases hlong : 65535 < styledSize quote v
  · refine Or.inl ⟨?_, fun hfits => ?_⟩
    · unfold flushSnapshot CSession.Send
      rw [hsize, if_pos hlong]
      rfl
    · have := h.size hfits
      omega
  · refine Or.inr ⟨blank v, frames ++ [⟨.heartbeatRsp, v⟩], ?_,
      ⟨⟨_, hsnap.blank, fun part => ?_⟩, fun _ => ?_, ?_, ?_⟩, ?_⟩
    · unfold flushSnapshot CSession.Send
      rw [hsize, if_neg hlong]
      rfl
    · rw [collected_concat, append_nil]
      show _ ∧ collected frames part ++ (v.get part.key).elements = done part
      rw [hsnap.get part]
      exact ⟨le_rfl, (hlists part).2⟩
    · omega
    · refine forall_mem_append.mpr ⟨h.count, forall_mem_singleton.mpr ⟨rfl, fun part => ?_⟩⟩
      show (v.get part.key).elements.length ≤ 20
      rw [hsnap.get part]
      exact (hlists part).1.trans hmost
    · intro hfits
      refine forall_mem_append.mpr ⟨h.short hfits, forall_mem_singleton.mpr ?_⟩
      have := h.size hfits
      show styledSize quote v ≤ _
      omega
    · exact hblank

theorem Collected.append (h : Collected quote fits 19 done flag rest v frames) (part : Part)
    (item : Json)
    (hitem : fits → Fits quote item)
    (hroom : fits → styledSize quote v + styledSize quote item ≤ 12 * 1024) :
    let v' := v.set part.key ((v.get part.key).append item)
    (v'.get part.key).elements.length ≤ 20 ∧ ∀ n, 19 ≤ n → (v'.get part.key).elements.length ≤ n →
      Collected quote fits n (update done part (done part ++ [item])) flag rest v' frames := by
  obtain ⟨lists, hsnap, hlists⟩ := h.snapshot
  have happend : (v.get part.key).append item = .arr (lists part ++ [item]) := by
    rw [hsnap.get part]
    rfl
  have hset := hsnap.set part (lists part ++ [item])
  have hget : (v.set part.key (.arr (lists part ++ [item]))).get part.key =
    .arr (lists part ++ [item]) := by
    rw [hset.get part, update_self]
  dsimp only
  rw [happend, hget]
  refine ⟨?_, fun n hn hlen => ⟨⟨_, hset, fun part' => ?_⟩, fun hfits => ?_, h.count, h.short⟩⟩
  · show (lists part ++ [item]).length ≤ _
    rw [length_append]
    exact Nat.succ_le_succ (hlists part).1
  · by_cases heq : part' = part
    · subst heq
      rw [update_self, update_self, ← append_assoc, (hlists part').2]
      exact ⟨hlen, rfl⟩
    · rw [update_of_ne heq, update_of_ne heq]
      exact ⟨(hlists part').1.trans hn, (hlists part').2⟩
  · have hgrow := (hitem hfits).2 (lists part)
    have hupdate := @listsSize_update quote lists part (lists part ++ [item])
    have hbefore := hsnap.size
    have hafter := hset.size
    have := hroom hfits
    omega

theorem Collected.mono (h : Collected quote fits most done flag rest v frames) {n : ℕ}
    (hn : most ≤ n) :
    Collected quote fits n done flag rest v frames := by
  obtain ⟨lists, hsnap, hlists⟩ := h.snapshot
  exact ⟨⟨lists, hsnap, fun part => ⟨(hlists part).1.trans hn, (hlists part).2⟩⟩, h.size, h.count,
    h.short⟩

/-- **The loop over a list sends or keeps its items, in order.** -/
theorem run_snapshotLoop (hsize : setup.size = styledSize quote) (hrest : rest ≤ 95) (part : Part)
    (items : List Json) (hitems : fits → ∀ item ∈ items, Fits quote item)
    (h : Collected quote fits 19 done flag rest v frames) :
    Ran fits (Collected quote fits 19 (update done part (done part ++ items)) flag rest)
      (Prog.run stock.answer (snapshotLoop setup s part.key items v) frames) := by
  induction items generalizing v frames done with
  | nil =>
    rw [append_nil, update_eq_self]
    exact Or.inr ⟨v, frames, rfl, h⟩
  | cons item items ih =>
    have hitem : fits → Fits quote item := fun hfits => hitems hfits item mem_cons_self
    have hdone : ∀ done' : Part → List Json, done' = update done part (done part ++ [item]) →
        update done' part (done' part ++ items) =
          update done part (done part ++ item :: items) := by
      rintro _ rfl
      rw [update_self, update_idem, append_assoc, singleton_append]
    have ih' : ∀ v frames,
      Collected quote fits 19 (update done part (done part ++ [item])) flag rest v frames →
        Ran fits (Collected quote fits 19 (update done part (done part ++ item :: items)) flag rest)
          (Prog.run stock.answer (snapshotLoop setup s part.key items v) frames) := by
      intro v frames h
      rw [← hdone _ rfl]
      exact ih (fun hfits item' hitem' => hitems hfits item' (mem_cons_of_mem _ hitem')) h
    -- the item is appended to a value that has room for it
    have happend : ∀ v frames, Collected quote fits 19 done flag rest v frames →
        (fits → styledSize quote v + styledSize quote item ≤ 12 * 1024) →
        Ran fits (Collected quote fits 19 (update done part (done part ++ item :: items)) flag rest)
          (Prog.run stock.answer
            (if ((v.set part.key ((v.get part.key).append item)).get part.key).elements.length =
              20 then do
              let snapshot ← flushSnapshot setup s (v.set part.key ((v.get part.key).append item))
              snapshotLoop setup s part.key items snapshot
            else do
              let snapshot ← pure (v.set part.key ((v.get part.key).append item))
              snapshotLoop setup s part.key items snapshot : Svc Json) frames) := by
      intro v frames h hroom
      obtain ⟨hlen, hafter⟩ := h.append part item hitem hroom
      by_cases hfull :
        ((v.set part.key ((v.get part.key).append item)).get part.key).elements.length = 20
      · rw [if_pos hfull]
        refine Ran.andThen ((run_flush hsize hrest (hafter 20 (by decide) hlen) le_rfl).weaken ?_)
        exact fun v' frames' h' => ih' v' frames' (h'.1.mono (Nat.zero_le _))
      · rw [if_neg hfull]
        exact ih' _ frames (hafter 19 le_rfl (by omega))
    unfold snapshotLoop
    by_cases hlong : 12 * 1024 < setup.size v + setup.size item
    · simp only [if_pos hlong]
      refine Ran.andThen ((run_flush hsize hrest h (by decide)).weaken fun v' frames' h' => ?_)
      refine happend v' frames' (h'.1.mono (Nat.zero_le _)) fun hfits => ?_
      have := (hitem hfits).1
      omega
    · simp only [if_neg hlong]
      exact happend v frames h fun _ => hsize ▸ not_lt.mp hlong

/-! ## The callback -/

theorem Stock.run_friendInfos (rows : List (Uid × Bytes)) (frames : List OutFrame) :
    Prog.run stock.answer (MysqlDao.friendInfos rows) frames =
      some (.ok (rows.filterMap fun row => (stock.users row.1).map fun user =>
        { user with back := if row.2.length = 0 then user.name else row.2 }), frames) := by
  induction rows with
  | nil => rfl
  | cons row rows ih =>
    obtain ⟨uid, back⟩ := row
    have huser : Prog.run stock.answer (MysqlDao.GetUser uid) frames =
      some (.ok (stock.users uid), frames) := rfl
    unfold MysqlDao.friendInfos
    rw [Task.run_andThen huser]
    cases hfound : stock.users uid with
    | none =>
      rw [filterMap_cons_none (by rw [hfound]; rfl)]
      exact ih
    | some user =>
      rw [filterMap_cons_some (by rw [hfound]; rfl)]
      dsimp only
      rw [Task.run_andThen ih]
      rfl

theorem Stock.run_GetFriendList (uid : Uid) (frames : List OutFrame) :
    Prog.run stock.answer (MysqlDao.GetFriendList uid) frames = some
    (.ok (some stock.friends), frames) := by
  have hconnection :
    Prog.run stock.answer (call (.db .getConnection)) frames = some (.ok true, frames) := rfl
  have hrows : Prog.run stock.answer (query (.selectFriends uid)) frames =
    some (.ok stock.friendRows, frames) := rfl
  unfold MysqlDao.GetFriendList withConnection
  rw [Task.run_andThen hconnection]
  refine Task.run_ensuring (Task.run_recover ?_) rfl
  rw [Task.run_andThen hrows, Task.run_andThen (stock.run_friendInfos stock.friendRows frames)]
  rfl

theorem Collected.setFlag (h : Collected quote fits most done none rest v frames) (b : Bool) :
    Collected quote fits most done (some (.bool b))
      (rest + styledMember quote 1 (ascii "resources_unavailable", .bool b))
      (v.set "resources_unavailable" (.bool b)) frames := by
  obtain ⟨lists, hsnap, hlists⟩ := h.snapshot
  have hset := hsnap.setFlag b
  refine ⟨⟨lists, hset, hlists⟩, fun hfits => ?_, h.count, h.short⟩
  have hbefore := h.size hfits
  have hsize := hsnap.size
  have hsize' := hset.size
  omega

/-- The lengths of the fixed parts of the text. -/
def PlainKeys (quote : Bytes → ℕ) : Prop :=
  ∀ key ∈ ["apply_list", "friend_list", "pending_files", "resources_unavailable"],
    quote (ascii key) = key.length + 2

theorem ran_HeartbeatCallback (hsize : setup.size = styledSize quote) (hquote : PlainKeys quote)
    {data : Option Json} {root : Json} (hdata : object data = some root)
    (hsync : root.get "sync_friends" = .bool true)
    (hitems : fits → ∀ part, ∀ item ∈ stock.items part, Fits quote item) :
    Ran fits (fun _ frames => ∃ flag rest v, Collected quote fits 0 stock.items flag rest v frames)
      (Prog.run stock.answer (HeartbeatCallback setup s data) []) := by
  obtain ⟨happly, hfriend, hfiles, hflag⟩ : quote (ascii "apply_list") = 12 ∧
    quote (ascii "friend_list") = 13 ∧
      quote (ascii "pending_files") = 15 ∧ quote (ascii "resources_unavailable") = 23 :=
    ⟨hquote _ (by simp), hquote _ (by simp), hquote _ (by simp), hquote _ (by simp)⟩
  have huid : ∀ frames, Prog.run stock.answer (getUserId s) frames = some (.ok stock.uid, frames) :=
    fun _ => rfl
  have happlications : ∀ frames, Prog.run stock.answer (MysqlDao.GetApplyList stock.uid 50) frames =
      some (.ok (some stock.applications), frames) := fun _ => rfl
  have hfile : ∀ frames, Prog.run stock.answer (call (.peer (.pendingResources stock.uid))) frames =
      some (.ok (some stock.files), frames) := fun _ => rfl
  have hstart : Collected quote fits 19 (fun _ => []) none 61 (blank .null) [] := by
    have hsnap := @snapshot_blank_null quote
    rw [happly, hfriend, hfiles] at hsnap
    refine ⟨⟨_, hsnap, fun part => ⟨Nat.zero_le _, rfl⟩⟩, fun _ => ?_, nofun, fun _ => nofun⟩
    have hblank : listsSize quote (fun _ => []) = 6 := rfl
    rw [hsnap.size, hblank]
    omega
  unfold HeartbeatCallback
  simp only [hdata, Option.map_some, hsync]
  refine Ran.step (huid []) (Ran.step (happlications []) ?_)
  refine Ran.andThen
    ((run_snapshotLoop hsize (by decide) .applies _ (fun h => hitems h .applies) hstart).weaken ?_)
  intro v₁ frames₁ h₁
  refine Ran.step (huid frames₁) (Ran.step (stock.run_GetFriendList stock.uid frames₁) ?_)
  refine Ran.andThen
    ((run_snapshotLoop hsize (by decide) .friends _ (fun h => hitems h .friends) h₁).weaken ?_)
  intro v₂ frames₂ h₂
  refine Ran.step (huid frames₂) (Ran.step (hfile frames₂) ?_)
  have hrest : ∀ b, 61 + styledMember quote 1 (ascii "resources_unavailable", .bool b) ≤ 95 := by
    intro b
    unfold styledMember styledValue
    rw [hflag]
    cases b <;> decide
  refine Ran.andThen ((run_snapshotLoop hsize (hrest _) .files _ (fun h => hitems h .files)
    (h₂.setFlag _)).weaken ?_)
  intro v₄ frames₄ h₄
  refine Ran.andThen ((run_flush hsize (hrest _) h₄ (by decide)).weaken fun v₅ frames₅ h₅ => ?_)
  have hdone : update (update (update (fun _ => []) .applies (stock.items .applies)) .friends
      (stock.items .friends)) .files (stock.items .files) = stock.items := by
    funext part
    cases part <;> simp [update]
  refine Or.inr ⟨(), frames₅, rfl, ?_⟩
  rw [← hdone]
  exact ⟨_, _, v₅, h₅.1⟩

/-- **Snapshots lose nothing and fit the frames of the client.** For every list of applications,
friends and pending files, if all frames are queued:

* the lists of the frames, one after the other, are the three lists,
* no list of a frame has more than twenty items,
* if no item is too long, alone or in the snapshot, every frame is one the client accepts; and then
  all frames are queued. -/
theorem snapshots_complete (hsize : setup.size = Json.styledSize quote) (hquote : PlainKeys quote)
    {data : Option Json} {root : Json} (hdata : object data = some root)
    (hsync : root.get "sync_friends" = .bool true) (stock : Stock) (s : Sid) :
    (∀ frames, Prog.run stock.answer (HeartbeatCallback setup s data) [] = some (.ok (), frames) →
      (∀ part, collected frames part = stock.items part) ∧
      (∀ frame ∈ frames, frame.id = .heartbeatRsp ∧
        ∀ part : Part, (frame.body.get part.key).elements.length ≤ 20) ∧
      ((∀ part, ∀ item ∈ stock.items part, Fits quote item) → ∀ frame ∈ frames,
        setup.size frame.body ≤ 16 * 1024 ∧ Client.Acceptable frame.id.code
        (setup.size frame.body))) ∧
    ((∀ part, ∀ item ∈ stock.items part, Fits quote item) →
      ∃ frames, Prog.run stock.answer (HeartbeatCallback setup s data) [] = some
      (.ok (), frames)) := by
  have hran := @ran_HeartbeatCallback setup quote stock s _ hsize hquote data root hdata hsync id
  constructor
  · intro frames hrun
    rcases hran with ⟨hnone, -⟩ | ⟨_, frames', hrun', flag, rest, v, h⟩
    · rw [hrun] at hnone
      cases hnone
    · obtain rfl : frames = frames' := by
        rw [hrun] at hrun'
        cases hrun'
        rfl
      obtain ⟨lists, -, hlists⟩ := h.snapshot
      refine ⟨fun part => ?_, h.count, fun hfits frame hframe => ?_⟩
      · have hempty : lists part = [] := eq_nil_of_length_eq_zero (Nat.le_zero.mp (hlists part).1)
        rw [← (hlists part).2, hempty, append_nil]
      · have hshort := h.short hfits frame hframe
        rw [hsize, (h.count frame hframe).1]
        refine ⟨hshort, .heartbeatRsp, by decide +kernel, Nat.succ_pos _, hshort⟩
  · intro hfits
    rcases hran with ⟨-, hnot⟩ | ⟨_, frames, hrun, -⟩
    · exact absurd hfits hnot
    · exact ⟨frames, hrun⟩

end Run

/-- An item in a list takes its own text at the indentation of the list and a few bytes more. -/
theorem listSize_concat (quote : Bytes → ℕ) (items : List Json) (item : Json) :
    listSize quote
    (items ++ [item]) ≤ listSize quote items + styledValue quote false 2 item + 7 := by
  have hconcat := Json.styledElements_concat quote 2 items item
  cases items with
  | nil =>
    simp [listSize, styledValue, Json.styledElements]
    omega
  | cons x xs =>
    simp only [isEmpty_cons, Bool.false_eq_true, if_false] at hconcat
    simp only [listSize, cons_append, styledValue, if_true, Nat.reduceAdd]
    rw [← cons_append, hconcat]
    omega

namespace Sample

def applicant : ApplyInfo := ⟨2, ascii "bob", ascii "hello", ascii "i.png", ascii "b", 0, 0⟩

def friend : UserInfo := ⟨ascii "eve", 4, ascii "e@b.cc", ascii "e", [], 1, ascii "e.png", []⟩

/-- User 1 has two applications and a friend, and the resource servers are down. -/
def stock : Stock where
  uid := 1
  applications := [applicant, { applicant with uid := 3, name := ascii "carol" }]
  friendRows := [(4, ascii "Eve")]
  users uid := if uid = 4 then some friend else none
  files := .null

def styledSetup : Setup := ⟨[], fun b => b, fun b => b, Json.styledSize Json.plainQuote, fun b => b⟩

def syncRequest : Json := .obj [(ascii "sync_friends", .bool true)]

theorem plainKeys : PlainKeys plainQuote := by
  unfold PlainKeys
  decide +kernel

theorem fits_of_le {item : Json} (hshort : styledSize plainQuote item ≤ 11 * 1024)
    (hembedded : styledValue plainQuote false 2 item + 7 ≤ styledSize plainQuote item + 256) :
    Fits plainQuote item := by
  refine ⟨hshort, fun items => ?_⟩
  have := listSize_concat plainQuote items item
  omega

theorem fits_stock : ∀ part, ∀ item ∈ stock.items part, Fits plainQuote item := by
  intro part item hitem
  have hsizes : ∀ item ∈ stock.items part, styledSize plainQuote item ≤ 11 * 1024 ∧
      styledValue plainQuote false 2 item + 7 ≤ styledSize plainQuote item + 256 := by
    cases part <;> decide +kernel
  exact fits_of_le (hsizes item hitem).1 (hsizes item hitem).2

end Sample

theorem snapshots_complete_sample :
    ∃ frames, Prog.run Sample.stock.answer
    (HeartbeatCallback Sample.styledSetup ⟨[], []⟩ (some Sample.syncRequest)) [] =
        some (.ok (), frames) ∧
      (∀ part, collected frames part = Sample.stock.items part) ∧
      ∀ frame ∈ frames, Sample.styledSetup.size frame.body ≤ 16 * 1024 := by
  have h := @snapshots_complete Sample.styledSetup plainQuote rfl Sample.plainKeys
    (some Sample.syncRequest)
    Sample.syncRequest rfl rfl Sample.stock ⟨[], []⟩
  obtain ⟨frames, hrun⟩ := h.2 Sample.fits_stock
  obtain ⟨hcollected, -, hshort⟩ := h.1 frames hrun
  exact ⟨frames, hrun, hcollected, fun frame hframe => (hshort Sample.fits_stock frame hframe).1⟩

end DistributedChat.Chat
