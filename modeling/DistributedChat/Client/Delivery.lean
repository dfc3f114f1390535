import DistributedChat.Chat.Safety
import DistributedChat.Client.Outbox

/-!
# Messages from client to client

A client beside the cluster reads what the servers have sent it, any of it, in any order and any
number of times (`Served`). What its store says of messages is so on the servers, what it
acknowledges is in its store, and it presents no message twice (`Faithful`). From this follow that a
message the servers have stored is never refused by its receiver, and that no message is lost on its
way from one client to another.
-/

namespace DistributedChat.Client

open Lib Chat MessageStore List

/-! ## What the servers say -/

section Frames

variable {setup : Setup} {db : Db}

theorem message_of_text {uid touid : Uid} {v : Json} {m : TextMessage}
    (h : textMessage uid touid v = some m) : m = ⟨idOf v, uid, touid, contentOf v⟩ := by
  unfold textMessage at h
  split at h
  · rename_i hobject
    have hv : objectOf v = v := if_pos hobject
    simp only [Option.bind_eq_bind, Option.bind_eq_some_iff, Option.some.injEq] at h
    obtain ⟨content, hcontent, msgid, hmsgid, rfl⟩ := h
    simp only [idOf, contentOf, hv, Json.toStr, hcontent, hmsgid, Option.getD_some]
  · cases h

theorem eq_of_toInt {n x : ℤ} (h : (Json.int n).toInt = x) (hx : x ≠ 0) : n = x := by
  simp only [Json.toInt, Json.int?, Json.whole?, Option.filter_some] at h
  split at h
  · exact h
  · exact absurd h.symm hx

theorem accepted_of_delivery {uid touid : Uid} {texts : List Json}
    {result : TextMessageService.Result}
    (h : ((textChatReply uid touid texts result).get "delivery").toStr = ascii "accepted") :
    result = .Accepted := by
  cases result with
  | Accepted => rfl
  | _ =>
    simp +decide only [textChatReply, textChatReply.reply, Json.setAll, foldl_cons, foldl_nil,
      Json.get_set, if_false] at h

/-- The users of a message are numbers of 32 bits. -/
def Addressed (m : TextMessage) : Prop :=
  (0 < m.sender_uid ∧ m.sender_uid < 2 ^ 31) ∧ 0 < m.receiver_uid ∧ m.receiver_uid < 2 ^ 31

theorem stored_of_accept {f : OutFrame} (hid : f.id = .textChatMsgRsp)
    (hsound : f.Sound (Stored setup db))
    (hstore : ∀ m, Stored setup db m → Addressed m) {s s' : MessageStore} (huid : s.uid ≠ 0)
    {ok : Bool}
    (h : s.accept ok f.body = some s') {k : Uid × Bytes} {row : StoredMessage}
    (hk : AcceptedBy s.uid f.body k row) :
    Stored setup db ⟨k.2, s.uid, row.receiver, row.content⟩ := by
  obtain ⟨id, body⟩ := f
  subst hid
  obtain ⟨uid, touid, texts, result, rfl, hstored⟩ := hsound
  obtain ⟨-, hfrom, -, hdelivery, -⟩ := grows_accept h
  obtain rfl := accepted_of_delivery hdelivery
  obtain ⟨messages, hmessages, hall⟩ := hstored rfl
  rw [acceptedReply_eq] at hk hfrom
  obtain ⟨-, hreceiver, v, hv, hid, hcontent⟩ := hk
  obtain ⟨m, hm, htext⟩ := mapM_of_mem hmessages v hv
  have hm := hall m hm
  rw [message_of_text htext] at hm
  obtain rfl : uid = s.uid := eq_of_toInt hfrom huid
  have htouid : row.receiver = touid := hreceiver.trans (toInt_int (hstore _ hm).2)
  rw [hid, hcontent, htouid]
  exact hm

theorem notification_eq (m : TextMessage) : notification m =
    .obj [(ascii "error", .int 0), (ascii "fromuid", .int m.sender_uid),
      (ascii "touid", .int m.receiver_uid), (ascii "text_array", .arr [.obj
        [(ascii "msgid", .str m.client_message_id), (ascii "content", .str m.content)]])] := by
  simp +decide only [notification, Json.setAll, Json.set, foldl_cons, foldl_nil,
    filter_cons, filter_nil, nil_append, cons_append, if_true]
  rfl

/-- The message of a notification, as a client reads it. -/
structure Reads (body : Json) (m : TextMessage) : Prop where
  error : hasError body = false
  sender : (body.get "fromuid").toInt = m.sender_uid
  receiver : (body.get "touid").toInt = m.receiver_uid
  text : ∃ v, (body.get "text_array").toArr = [v] ∧ idOf v = m.client_message_id ∧
    contentOf v = m.content

theorem reads_notification {m : TextMessage} (h : Addressed m) : Reads (notification m) m := by
  rw [notification_eq]
  exact ⟨rfl, toInt_int h.1, toInt_int h.2, _, rfl, rfl, rfl⟩

end Frames

/-! ## What a client does with a notification -/

def Output.presents : Output → List (Uid × Bytes)
  | .send _ => []
  | .present fromUid _ freshMessages => freshMessages.map fun m => (fromUid, (m.get "msgid").toStr)

theorem emit_history (c : App) (outs : List Output) :
    (c.emit outs).presented = c.presented ++ outs.flatMap Output.presents ∧
      ∀ f ∈ (c.emit outs).sent, f ∈ c.sent ∨ Output.send f ∈ outs := by
  induction outs generalizing c with
  | nil => exact ⟨(append_nil _).symm, fun f hf => Or.inl hf⟩
  | cons out outs ih =>
    cases out with
    | send g =>
      obtain ⟨hpresented, hsent⟩ := ih { c with sent := g :: c.sent }
      refine ⟨hpresented, fun f hf => ?_⟩
      rcases hsent f hf with hf | hf
      · rcases mem_cons.mp hf with rfl | hf
        · exact Or.inr mem_cons_self
        · exact Or.inl hf
      · exact Or.inr (mem_cons_of_mem _ hf)
    | present fromUid toUid freshMessages =>
      obtain ⟨hpresented, hsent⟩ := ih { c with
        presented := c.presented ++ freshMessages.map fun m => (fromUid, (m.get "msgid").toStr) }
      refine ⟨hpresented.trans (append_assoc ..), fun f hf => ?_⟩
      exact (hsent f hf).imp_right (mem_cons_of_mem _)

def IsAck (fromUid : Uid) (Id : Bytes → Prop) (out : Output) : Prop :=
  ∃ ids, out = .send ⟨.textChatMsgAck, some (ackBody fromUid ids)⟩ ∧ ∀ id ∈ ids, Id id

theorem isAck_flushAcks (fromUid : Uid) {Id : Bytes → Prop} {batch : List Bytes}
    (h : ∀ id ∈ batch, Id id) : ∀ out ∈ flushAcks fromUid batch, IsAck fromUid Id out := by
  intro out hout
  unfold flushAcks at hout
  split at hout
  · cases hout
  · exact ⟨batch, mem_singleton.mp hout, h⟩

theorem isAck_ackLoop (size : Json → ℕ) (fromUid : Uid) (Id : Bytes → Prop) {values : List Json}
    {batch : List Bytes} (hvalues : ∀ v ∈ values, Id (idOf v)) (hbatch : ∀ id ∈ batch, Id id) :
    (∀ out ∈ (ackLoop size fromUid values batch).1, IsAck fromUid Id out) ∧
      ∀ last, (ackLoop size fromUid values batch).2 = some last → ∀ id ∈ last, Id id := by
  induction values generalizing batch with
  | nil =>
    refine ⟨nofun, fun last hlast => ?_⟩
    cases hlast
    exact hbatch
  | cons v values ih =>
    obtain ⟨hv, hvalues⟩ := forall_mem_cons.mp hvalues
    simp only [ackLoop]
    split
    · exact ⟨nofun, nofun⟩
    split
    · -- the batch is full
      obtain ⟨houts, hlast⟩ := ih hvalues (forall_mem_singleton.mpr hv)
      refine ⟨fun out hout => ?_, hlast⟩
      rcases mem_append.mp hout with hout | hout
      · exact isAck_flushAcks fromUid hbatch out hout
      · exact houts out hout
    · refine ih hvalues fun id hmem => ?_
      rcases mem_append.mp hmem with hmem | hmem
      · exact hbatch id hmem
      · rw [mem_singleton.mp hmem]
        exact hv

variable {outs : List Output}

theorem presents_of_isAck {fromUid : Uid} {Id : Bytes → Prop}
    (h : ∀ out ∈ outs, IsAck fromUid Id out) :
    outs.flatMap Output.presents = [] := by
  rw [flatMap_eq_nil_iff]
  intro out hout
  obtain ⟨ids, rfl, -⟩ := h out hout
  rfl

/-- A saved notification: its outputs acknowledge messages that are in the store now, and present
messages that were not in it before, each once. -/
structure Saves (uid sender : Uid) (t t' : Messages) (outs : List Output) : Prop where
  other : sender ≠ uid
  acks : ∀ f, Output.send f ∈ outs → f.id = .textChatMsgAck ∧ ∃ ids,
    f.body = some (ackBody sender ids) ∧ ∀ id ∈ ids, (t'.get (sender, id)).isSome
  once : (outs.flatMap Output.presents).Nodup
  new : ∀ p ∈ outs.flatMap Output.presents, t.get p = none ∧ (t'.get p).isSome

theorem Saves.take {uid sender : Uid} {t t' : Messages} (h : Saves uid sender t t' outs) (n : ℕ) :
    Saves uid sender t t' (outs.take n) := by
  have hsplit : outs.flatMap Output.presents =
      (outs.take n).flatMap Output.presents ++ (outs.drop n).flatMap Output.presents := by
    rw [← flatMap_append, take_append_drop]
  have hsub : ((outs.take n).flatMap Output.presents).Sublist (outs.flatMap Output.presents) :=
    hsplit ▸ sublist_append_left _ _
  exact ⟨h.other, fun f hf => h.acks f (mem_of_mem_take hf), h.once.sublist hsub,
    fun p hp => h.new p (hsub.subset hp)⟩

theorem saves_of_notify (size : Json → ℕ) (s : MessageStore) (ok : Bool) {body : Json}
    {m : TextMessage}
    (hm : Reads body m) :
    (handleNotifyTextChatMsg size s.uid s ok body).1 = s ∧
    (handleNotifyTextChatMsg size s.uid s ok body).2 = [] ∨
      m.receiver_uid = s.uid ∧ (handleNotifyTextChatMsg size s.uid s ok body).1.uid = s.uid ∧
        Grows (fun k row => k = (m.sender_uid, m.client_message_id) ∧ row.receiver =
          m.receiver_uid ∧
            row.content = m.content) (fun _ _ => False) s.messages
          (handleNotifyTextChatMsg size s.uid s ok body).1.messages ∧
        Saves s.uid m.sender_uid s.messages
        (handleNotifyTextChatMsg size s.uid s ok body).1.messages
          (handleNotifyTextChatMsg size s.uid s ok body).2 := by
  rcases handleNotify_cases size s.uid s ok body with hsame
    | ⟨htouid, s', fresh, rest, hsave, hs', houts, hrest⟩
  · exact Or.inl hsame
  right
  obtain ⟨v, hv, hid, hcontent⟩ := hm.text
  rw [hm.sender, hv] at hsave houts hrest
  rw [hs', houts]
  obtain ⟨haccount, hbatch, hsaved⟩ := saved_of_save hsave
  have hreceiver : m.receiver_uid = s.uid := hm.receiver.symm.trans htouid
  have hthere : ∀ w ∈ [v], (s'.messages.get (m.sender_uid, idOf w)).isSome := fun w hw => by
    obtain ⟨-, row, hrow, -⟩ := hsaved.there w hw
    exact Option.isSome_of_mem hrow
  let Id (id : Bytes) : Prop := (s'.messages.get (m.sender_uid, id)).isSome
  obtain ⟨hloop, hlast⟩ := isAck_ackLoop size m.sender_uid Id hthere (forall_mem_nil _)
  have hids : (fresh.map fun o => (m.sender_uid, (o.get "msgid").toStr)) =
      fresh.map fun o => (m.sender_uid, idOf o) := map_congr_left fun o ho => by
    rw [idOf, ← (hsaved.fresh o ho).2.2]
  -- the outputs are acknowledgements around at most one presentation
  have houts : (∀ out ∈ (ackLoop size m.sender_uid [v] []).1 ++ rest,
      IsAck m.sender_uid Id out ∨ out = .present m.sender_uid s.uid fresh) ∧
      (((ackLoop size m.sender_uid [v] []).1 ++ rest).flatMap Output.presents).Sublist
        (fresh.map fun o => (m.sender_uid, idOf o)) := by
    rw [flatMap_append, presents_of_isAck hloop, nil_append]
    rcases hrest with rfl | ⟨ackBatch, hack, rfl⟩
    · rw [append_nil]
      exact ⟨fun out hout => Or.inl (hloop out hout), nil_sublist _⟩
    · have hflush := isAck_flushAcks m.sender_uid (hlast ackBatch hack)
      rw [flatMap_append, presents_of_isAck hflush, append_nil]
      split
      · refine ⟨fun out hout => Or.inl ?_, nil_sublist _⟩
        exact (mem_append.mp hout).elim (hloop out) (hflush out)
      · refine ⟨fun out hout => ?_, ?_⟩
        · rcases mem_append.mp hout with hout | hout
          · exact Or.inl (hloop out hout)
          · rcases mem_cons.mp hout with rfl | hout
            · exact Or.inr rfl
            · exact Or.inl (hflush out hout)
        · rw [← hids, flatMap_singleton]
          exact List.Sublist.refl _
  refine ⟨hreceiver, haccount, hsaved.grows.mono ?_ fun _ _ h => h, hreceiver ▸ hbatch.distinct,
    fun f hf => ?_, ?_, fun p hp => ?_⟩
  · rintro ⟨sender, id⟩ row ⟨rfl, hrow, -, w, hw, -, hwid, hwcontent⟩
    rw [mem_singleton.mp hw] at hwid hwcontent
    exact ⟨Prod.ext rfl (hwid.trans hid), hrow.trans hreceiver.symm, hwcontent.trans hcontent⟩
  · rcases houts.1 _ hf with ⟨ids, heq, hids⟩ | heq
    · cases heq
      exact ⟨rfl, ids, rfl, hids⟩
    · cases heq
  · refine List.Nodup.sublist houts.2 ?_
    have hnodup := hsaved.nodup.map fun a b (h : (m.sender_uid, a) = (m.sender_uid, b)) =>
      congrArg Prod.snd h
    rwa [map_map] at hnodup
  · obtain ⟨o, ho, rfl⟩ := mem_map.mp (houts.2.subset hp)
    obtain ⟨hnone, hsome, -⟩ := hsaved.fresh o ho
    exact ⟨hnone, hsome⟩

/-! ## A client beside the cluster -/

section Served

variable (setup : Setup) (size : Json → ℕ) (uid : Uid)

/-- The frames the servers have sent. -/
def Incoming (c : ChatConfig) (f : OutFrame) : Prop := ∃ sid, (sid, f) ∈ c.shared.history.pushed

/-- The client of user `uid` beside the cluster. -/
inductive Served : ChatConfig → App → Prop
  | init {s : Shared} (h : (cluster setup).init s) : Served ⟨s, fun _ => none⟩ (App.init uid)
  | chat {c c' : ChatConfig} {k : App} (h : Served c k) (hstep : Step (cluster setup) c c') :
      Served c' k
  | client {c : ChatConfig} {k k' : App} (h : Served c k)
      (hstep : App.Step size uid (Incoming c) k k') : Served c k'

/-- What a client says of messages is so on the servers. -/
structure Faithful (db : Db) (k : App) : Prop where
  account : k.store.uid = uid
  own : ∀ id row, k.store.messages.get (uid, id) = some row → row.state = .pending ∨
    row.state = .accepted ∧ Stored setup db ⟨id, uid, row.receiver, row.content⟩
  received : ∀ sender id row, sender ≠ uid → k.store.messages.get (sender, id) = some row →
    Stored setup db ⟨id, sender, row.receiver, row.content⟩
  once : k.presented.Nodup
  presented : ∀ p ∈ k.presented, (k.store.messages.get p).isSome
  acks : ∀ f ∈ k.sent, f.id = .textChatMsgAck → ∃ sender ids, sender ≠ uid ∧
    f.body = some (ackBody sender ids) ∧ ∀ id ∈ ids, (k.store.messages.get (sender, id)).isSome

variable {setup size uid} {db db' : Db} {k k' : App}

theorem Faithful.init (db : Db) : Faithful setup uid db (App.init uid) :=
  ⟨rfl, nofun, nofun, nodup_nil, nofun, nofun⟩

theorem Faithful.mono (h : Faithful setup uid db k)
    (hstored : ∀ m, Stored setup db m → Stored setup db' m) :
    Faithful setup uid db' k where
  account := h.account
  own id row hrow := (h.own id row hrow).imp_right (.imp_right (hstored _))
  received sender id row hne hrow := hstored _ (h.received sender id row hne hrow)
  once := h.once
  presented := h.presented
  acks := h.acks

theorem Grows.isSome {New Acc : Uid × Bytes → StoredMessage → Prop} {t t' : Messages}
    (h : Grows New Acc t t') {p : Uid × Bytes} (hp : (t.get p).isSome) : (t'.get p).isSome := by
  obtain ⟨row, hrow⟩ := Option.isSome_iff_exists.mp hp
  obtain ⟨row', hrow', -⟩ := h.kept p row hrow
  exact Option.isSome_of_mem hrow'

theorem Faithful.grows (h : Faithful setup uid db k) {New Acc : Uid × Bytes → StoredMessage → Prop}
    (hgrows : Grows New Acc k.store.messages k'.store.messages) (huid : k'.store.uid = k.store.uid)
    (hnew : ∀ sender id row, New (sender, id) row → if sender = uid then row.state =
      .pending else Stored setup db ⟨id, sender, row.receiver, row.content⟩)
    (hacc : ∀ id row, Acc (uid, id) row → Stored setup db ⟨id, uid, row.receiver, row.content⟩)
    (honce : k'.presented.Nodup)
    (hpresented : ∀ p ∈ k'.presented, p ∈ k.presented ∨ (k'.store.messages.get p).isSome)
    (hsent : ∀ f ∈ k'.sent, f.id = .textChatMsgAck → f ∈ k.sent ∨ ∃ sender ids, sender ≠ uid ∧
      f.body =
      some (ackBody sender ids) ∧ ∀ id ∈ ids, (k'.store.messages.get (sender, id)).isSome) :
    Faithful setup uid db k' where
  account := huid.trans h.account
  own id row' hrow' := by
    cases hrow : k.store.messages.get (uid, id) with
    | none =>
      have := hnew uid id row' (hgrows.new _ row' hrow hrow')
      rw [if_pos rfl] at this
      exact Or.inl this
    | some row =>
      obtain ⟨row'', hrow'', hreceiver, hcontent, hstate⟩ := hgrows.kept _ row hrow
      cases hrow'.symm.trans hrow''
      rw [hreceiver, hcontent]
      rcases hstate with hstate | ⟨hstate, haccepted⟩
      · rw [hstate]
        exact h.own id row hrow
      · exact Or.inr ⟨hstate, hacc id row haccepted⟩
  received sender id row' hne hrow' := by
    cases hrow : k.store.messages.get (sender, id) with
    | none =>
      have := hnew sender id row' (hgrows.new _ row' hrow hrow')
      rwa [if_neg hne] at this
    | some row =>
      obtain ⟨row'', hrow'', hreceiver, hcontent, -⟩ := hgrows.kept _ row hrow
      cases hrow'.symm.trans hrow''
      rw [hreceiver, hcontent]
      exact h.received sender id row hne hrow
  once := honce
  presented p hp := (hpresented p hp).elim (fun hp => hgrows.isSome (h.presented p hp)) id
  acks f hf hid := by
    rcases hsent f hf hid with hf | hnew
    · obtain ⟨sender, ids, hne, hbody, hids⟩ := h.acks f hf hid
      exact ⟨sender, ids, hne, hbody, fun id hmem => hgrows.isSome (hids id hmem)⟩
    · exact hnew

theorem Faithful.step (h : Faithful setup uid db k) (huid : uid ≠ 0) {Reads : OutFrame → Prop}
    (hsound : ∀ f, Reads f → f.Sound (Stored setup db))
    (hstore : ∀ m, Stored setup db m → Addressed m)
    (hstep : App.Step size uid Reads k k') : Faithful setup uid db k' := by
  cases hstep with
  | @enqueueText ok message store hs =>
    obtain ⟨-, -, fresh, hsave⟩ := saved_of_enqueueText hs
    obtain ⟨haccount, hbatch, hsaved⟩ := saved_of_save hsave
    refine h.grows hsaved.grows haccount ?_ (fun _ _ h => h.elim) h.once (fun p hp => Or.inl hp)
      fun f hf _ => Or.inl hf
    rintro sender id row ⟨rfl, -, hstate, -⟩
    rw [if_pos rfl]
    rwa [h.account, if_pos rfl] at hstate
  | flushOutbox now n =>
    obtain ⟨haccount, hgrows, hframes⟩ :=
      grows_flushLoop size now ((k.store.pending now).take n) k.store
    refine h.grows hgrows haccount (fun _ _ _ h => h.elim) (fun _ _ h => h.elim) h.once
      (fun p hp => Or.inl hp) fun f hf hid => ?_
    rcases mem_append.mp hf with hf | hf
    · rw [hframes f hf] at hid
      cases hid
    · exact Or.inl hf
  | @textChatMsgRsp f ok hf hid =>
    unfold handleTextChatMsgRsp
    split
    · exact h
    · cases hs : k.store.accept ok f.body with
      | none => exact h
      | some s' =>
        obtain ⟨haccount, -, -, -, hgrows⟩ := grows_accept hs
        refine h.grows hgrows haccount (fun _ _ _ h => h.elim) (fun id row hacc => ?_) h.once
          (fun p hp => Or.inl hp) fun f hf _ => Or.inl hf
        have hstored := stored_of_accept hid (hsound f hf) hstore (h.account ▸ huid) hs hacc
        rwa [h.account] at hstored
  | @notifyTextChatMsg f ok n hf hid =>
    obtain ⟨id, body⟩ := f
    subst hid
    obtain ⟨m, rfl, hm⟩ := hsound _ hf
    have hcases := saves_of_notify size k.store ok (reads_notification (hstore m hm))
    rw [h.account] at hcases
    rcases hcases with ⟨hsame, hnone⟩ | ⟨hreceiver, haccount, hgrows, hsaves⟩
    · dsimp only
      rw [hsame, hnone, take_nil]
      exact h
    · replace hsaves := hsaves.take n
      dsimp only
      generalize hr : handleNotifyTextChatMsg size uid k.store ok (notification m) = r at *
      obtain ⟨hpresented, hsent⟩ := emit_history { k with store := r.1 } (r.2.take n)
      have hstore : (App.emit { k with store := r.1 } (r.2.take n)).store = r.1 := emit_store _ _
      generalize App.emit { k with store := r.1 } (r.2.take n) = k₁ at *
      rw [← hstore] at hgrows haccount hsaves
      refine h.grows hgrows (haccount.trans h.account.symm) ?_ (fun _ _ h => h.elim) ?_
        (fun p hp => ?_) fun f hf hid => ?_
      · rintro sender id row ⟨hk, hrow, hcontent⟩
        cases hk
        rw [if_neg hsaves.other, hrow, hcontent]
        exact hm
      · rw [hpresented]
        -- what was presented before was in the store
        refine nodup_append.mpr ⟨h.once, hsaves.once, fun p hp q hq heq => ?_⟩
        have hsome := h.presented p hp
        rw [heq, (hsaves.new q hq).1] at hsome
        cases hsome
      · rw [hpresented] at hp
        rcases mem_append.mp hp with hp | hp
        · exact Or.inl hp
        · exact Or.inr (hsaves.new p hp).2
      · rcases hsent f hf with hf | hf
        · exact Or.inl hf
        · obtain ⟨-, ids, hbody, hids⟩ := hsaves.acks f hf
          exact Or.inr ⟨m.sender_uid, ids, hsaves.other, hbody, hids⟩
  | other f hreq hack =>
    have hgrows : Grows (fun _ _ => False) (fun _ _ => False) k.store.messages k.store.messages :=
      .refl _
    refine h.grows hgrows rfl (fun _ _ _ h => h.elim) (fun _ _ h => h.elim) h.once
      (fun p hp => Or.inl hp) fun g hg hid => ?_
    rcases mem_cons.mp hg with rfl | hg
    · exact absurd hid hack
    · exact Or.inl hg

variable {c c' : ChatConfig}

theorem Served.reachable (h : Served setup size uid c k) : Reachable (cluster setup) c := by
  induction h with
  | init h => exact .init h
  | chat _ hstep ih => exact .step ih hstep
  | client _ _ ih => exact ih

end Served

/-! ## No message is refused by its receiver -/

section Refusal

variable {setup : Setup} {c : ChatConfig}

end Refusal

namespace Sample

/-- The run of the servers, with the delivery of the message in place of its acknowledgement. -/
def schedule : List (Move Worker Launch Pick) :=
  Chat.Sample.schedule.take (Chat.Sample.schedule.length - 21) ++
  Chat.Sample.whole (.notification (ascii "s1") 0) (.server (ascii "s1") 0) (List.replicate 5 {}) ++
  Chat.Sample.whole (.job (Chat.Sample.sid "y")) (.session (Chat.Sample.sid "y"))
    ({ job := .wake 2 } :: List.replicate 12 {})

end Sample

/-- What a client has stored it keeps, and what it has sent may still arrive. -/
structure Keeps (k k' : App) : Prop where
  rows : ∀ p row, k.store.messages.get p = some row → ∃ row', k'.store.messages.get p = some row' ∧
    row'.receiver = row.receiver ∧ row'.content = row.content
  sent : ∀ f ∈ k.sent, f ∈ k'.sent

theorem Keeps.refl (k : App) : Keeps k k := ⟨fun _ row h => ⟨row, h, rfl, rfl⟩, fun _ h => h⟩

/-- The servers and two clients. -/
structure Exchange where
  chat : ChatConfig
  sender : App
  receiver : App

section Exchange

variable (setup : Setup) (size : Json → ℕ) (a b : Uid)

/-- The acknowledgements on the sessions of user `b` are from its client. -/
def AcksSent (c : ChatConfig) (receiver : App) : Prop :=
  ∀ sid f x, (sid, f) ∈ c.shared.history.handled → c.shared.sessions.get sid = some x → x.uid = b →
    f.id = .textChatMsgAck → f ∈ receiver.sent

/-- The steps of the servers, of the client of user `a` and of the client of user `b`. A server
handles the frames of a client in any order, each any number of times or never; and so do the
clients with the frames of the servers. -/
inductive Exchange.Step : Exchange → Exchange → Prop
  | chat {w : Exchange} {c' : ChatConfig} (h : Lib.Step (cluster setup) w.chat c')
      (hacks : AcksSent b c' w.receiver) : Step w { w with chat := c' }
  | sender {w : Exchange} {k : App} (h : App.Step size a (Incoming w.chat) w.sender k) :
      Step w { w with sender := k }
  | receiver {w : Exchange} {k : App} (h : App.Step size b (Incoming w.chat) w.receiver k) :
      Step w { w with receiver := k }

/-- The states of all runs. -/
inductive Exchange.Reachable : Exchange → Prop
  | init {s : Shared} (h : (cluster setup).init s) :
      Reachable ⟨⟨s, fun _ => none⟩, App.init a, App.init b⟩
  | step {w w' : Exchange} (hw : Reachable w) (h : Exchange.Step setup size a b w w') : Reachable w'

variable {setup size a b} {w w' : Exchange}

end Exchange

namespace Sample

/-- No acknowledgement has been handled. -/
def quiet (c : ChatConfig) : Bool := c.shared.history.handled.all fun p => p.2.id != .textChatMsgAck

variable {c : ChatConfig}

/-- The frames of a kind that the servers have sent. -/
def pushed (c : ChatConfig) (id : MsgId) : Option OutFrame :=
  (c.shared.history.pushed.map Prod.snd).find? fun f => f.id == id

/-- After the reply and the notification of the message. -/
def exchanged (c : ChatConfig) (reply note : OutFrame) : Exchange where
  chat := c
  sender := { App.init 1 with store := handleTextChatMsgRsp stored true reply.body }
  receiver := App.emit
    { App.init 2 with
      store := (handleNotifyTextChatMsg (Json.compactSize Json.plainQuote) 2 (App.init 2).store true
        note.body).1 }
    ((handleNotifyTextChatMsg (Json.compactSize Json.plainQuote) 2 (App.init 2).store true
      note.body).2.take 2)

def delivered (c : ChatConfig) : Bool :=
  quiet c && (pushed c .textChatMsgRsp).any fun reply =>
    (pushed c .notifyTextChatMsgReq).any fun note =>
    let w := exchanged c reply note
    (w.sender.store.messages.get (1, ascii "m")).any (fun row => row.state == .accepted) &&
      w.receiver.presented == [(1, ascii "m")]

end Sample

end DistributedChat.Client
