import DistributedChat.Client.Outbox

/-!
# Receipts of text messages

The handler of `ID_NOTIFY_TEXT_CHAT_MSG_REQ` in `client/network/TcpMgr.cpp` acknowledges the
messages it has saved. It collects their ids and sends them before their text would be longer than
1800 bytes.

1. What `save` has checked is what the loop asks for, so it never gives up (`ackLoop_spec`).
2. One id alone always fits, so no batch is sent empty.
3. A batch is what `TextChatAckCallback` of the server reads (`Receipt.read`).
-/

namespace DistributedChat.Client

open Lib Chat List

/-! ## The length of a receipt -/

/-- A writer that prints an id of at most 128 bytes with at most six bytes for each. -/
structure Compact (quote : Bytes → ℕ) : Prop where
  keys : quote (ascii "fromuid") = 9 ∧ quote (ascii "msgids") = 8
  id : ∀ id : Bytes, id.length ≤ 128 → quote id ≤ 6 * id.length + 2

theorem size_ackBody_single {quote : Bytes → ℕ} (hquote : Compact quote) {fromUid : Uid}
    (hfrom : 0 < fromUid ∧ fromUid < 2 ^ 31) {id : Bytes} (hid : id.length ≤ 128) :
    Json.compactSize quote (ackBody fromUid [id]) ≤ 1800 := by
  have hdigits := Json.decimalSize_le hfrom
  have htext := hquote.id id hid
  obtain ⟨hkey, hkey'⟩ := hquote.keys
  simp only [ackBody, map_cons, map_nil, Json.compactSize, Json.compactMembers,
    Json.compactElements, hkey, hkey']
  omega

/-! ## The loop -/

/-- A batch that can be sent. -/
structure Receipt (size : Json → ℕ) (fromUid : Uid) (ids : List Bytes) : Prop where
  nonempty : ids ≠ []
  short : size (ackBody fromUid ids) ≤ 1800
  id : ∀ id ∈ ids, id ≠ [] ∧ id.length ≤ 128

def ackFrame (fromUid : Uid) (ids : List Bytes) :
    Frame := ⟨.textChatMsgAck, some (ackBody fromUid ids)⟩

/-- The frames among the outputs of a handler. -/
def frames (outs : List Output) : List Frame :=
  outs.filterMap fun
    | .send f => some f
    | .present _ _ _ => none

theorem frames_append (outs outs' : List Output) :
    frames (outs ++ outs') = frames outs ++ frames outs' :=
  filterMap_append

theorem frames_flushAcks (fromUid : Uid) (ids : List Bytes) :
    frames (flushAcks fromUid ids) = if ids = [] then [] else [ackFrame fromUid ids] := by
  unfold flushAcks
  split_ifs <;> rfl

theorem Savable.acknowledged {value : Json} (h : Savable value) :
    ¬(((MessageStore.objectOf value).get "msgid").toStr = [] ∨
      ((MessageStore.objectOf value).get "content").str? = none) := by
  rintro (hid | hcontent)
  · exact h.id.1 hid
  · refine h.content.1 ?_
    rw [contentOf, Json.toStr, hcontent]
    rfl

section Loop

variable {size : Json → ℕ} {fromUid : Uid}

theorem Receipt.single
    (hsingle : ∀ id : Bytes, id.length ≤ 128 → size (ackBody fromUid [id]) ≤ 1800)
    {value : Json} (h : Savable value) : Receipt size fromUid [idOf value] where
  nonempty := cons_ne_nil _ _
  short := hsingle _ h.id.2
  id := by simpa using h.id

theorem ackLoop_cons {value : Json} (h : Savable value) (values : List Json) (batch : List Bytes) :
    ackLoop size fromUid (value :: values) batch = if 1800 < size
    (ackBody fromUid (batch ++ [idOf value])) then
        (flushAcks fromUid batch ++ (ackLoop size fromUid values [idOf value]).1,
          (ackLoop size fromUid values [idOf value]).2)
      else ackLoop size fromUid values (batch ++ [idOf value]) :=
  if_neg h.acknowledged

/-- **The loop sends or keeps every id, in order.** -/
theorem ackLoop_spec (hsingle : ∀ id : Bytes, id.length ≤ 128 → size (ackBody fromUid [id]) ≤ 1800)
    (values : List Json) (hvalues : ∀ v ∈ values, Savable v) (batch : List Bytes)
    (hbatch : batch = [] ∨ Receipt size fromUid batch) :
    ∃ (batches : List (List Bytes)) (last : List Bytes),
    (ackLoop size fromUid values batch).2 = some last ∧
      frames (ackLoop size fromUid values batch).1 = batches.map (ackFrame fromUid) ∧
      (∀ ids ∈ batches, Receipt size fromUid ids) ∧ (last = [] ∨ Receipt size fromUid last) ∧
      batches.flatten ++ last = batch ++ values.map idOf := by
  induction values generalizing batch with
  | nil => exact ⟨[], batch, rfl, rfl, nofun, hbatch, (append_nil _).symm⟩
  | cons value values ih =>
    have hvalue := hvalues value mem_cons_self
    have hrest : ∀ v ∈ values, Savable v := fun v hv => hvalues v (mem_cons_of_mem _ hv)
    have hone : Receipt size fromUid [idOf value] := .single hsingle hvalue
    by_cases hsize : 1800 < size (ackBody fromUid (batch ++ [idOf value]))
    · -- the batch is sent, and the id begins the next one
      simp only [ackLoop_cons hvalue, if_pos hsize]
      obtain ⟨batches, last, hlast, hsent, hbatches, hkept, hall⟩ :=
        ih hrest [idOf value] (.inr hone)
      have hfull : Receipt size fromUid batch := by
        refine hbatch.resolve_left ?_
        rintro rfl
        exact absurd hone.short (not_le.mpr hsize)
      refine ⟨batch :: batches, last, hlast, ?_, forall_mem_cons.mpr ⟨hfull, hbatches⟩, hkept, ?_⟩
      · rw [frames_append, frames_flushAcks, if_neg hfull.nonempty, hsent]
        rfl
      · rw [flatten_cons, append_assoc, hall]
        rfl
    · -- the id joins the batch
      simp only [ackLoop_cons hvalue, if_neg hsize]
      have hgrown : Receipt size fromUid (batch ++ [idOf value]) := by
        refine ⟨by simp, not_lt.mp hsize, ?_⟩
        intro id hid
        rcases mem_append.mp hid with hid | hid
        · rcases hbatch with rfl | hbatch
          · cases hid
          · exact hbatch.id id hid
        · exact hone.id id hid
      obtain ⟨batches, last, hlast, hsent, hbatches, hkept, hall⟩ := ih hrest _ (.inr hgrown)
      refine ⟨batches, last, hlast, hsent, hbatches, hkept, ?_⟩
      rw [hall, append_assoc]
      rfl

theorem acks_spec (hsingle : ∀ id : Bytes, id.length ≤ 128 → size (ackBody fromUid [id]) ≤ 1800)
    (values : List Json) (hvalues : ∀ v ∈ values, Savable v) :
    ∃ (batches : List (List Bytes)) (last : List Bytes),
    (ackLoop size fromUid values []).2 = some last ∧
      frames ((ackLoop size fromUid values []).1 ++ flushAcks fromUid last) = batches.map
      (ackFrame fromUid) ∧
      (∀ ids ∈ batches, Receipt size fromUid ids) ∧ batches.flatten = values.map idOf := by
  obtain ⟨batches, last, hlast, hsent, hbatches, hkept, hall⟩ :=
    ackLoop_spec hsingle values hvalues [] (.inl rfl)
  rcases hkept with rfl | hkept
  · refine ⟨batches, [], hlast, ?_, hbatches, ?_⟩
    · rw [frames_append, hsent, frames_flushAcks, if_pos rfl, append_nil]
    · simpa using hall
  · refine ⟨batches ++ [last], last, hlast, ?_, ?_, ?_⟩
    · rw [frames_append, hsent, frames_flushAcks, if_neg hkept.nonempty, map_append]
      rfl
    · simpa [or_imp, forall_and] using ⟨hbatches, hkept⟩
    · simpa using hall

end Loop

/-! ## The handler -/

section Handler

variable {size : Json → ℕ} {fromUid : Uid} {ids : List Bytes}

theorem Receipt.written (h : Receipt size fromUid ids) (hpos : 0 < size (ackBody fromUid ids)) :
    writeFrame size .textChatMsgAck (ackBody fromUid ids) = [ackFrame fromUid ids] := by
  have hshort := h.short
  rw [writeFrame, if_neg (by omega)]
  rfl

/-- **The server takes a receipt.** It passes the checks of `TextChatAckCallback`, which reads its
ids. -/
theorem Receipt.read (h : Receipt size fromUid ids) (hfrom : 0 < fromUid ∧ fromUid < 2 ^ 31)
    (hlength : ids.length ≤ 50) :
    ackRequest (some (ackBody fromUid ids)) = some (fromUid, ids.map .str) ∧
      (ids.map Json.str).mapM ackId = some ids := by
  constructor
  · have hint : (Json.int fromUid).int? = some fromUid := by
      rw [Json.int?, Json.whole?, Option.filter_some,
        if_pos (decide_eq_true ⟨le_trans (by decide) hfrom.1.le, hfrom.2⟩)]
    have hids : ids.map Json.str ≠ [] ∧ (ids.map Json.str).length ≤ MAX_TEXT_MESSAGES_PER_FRAME :=
      ⟨by simpa using h.nonempty, length_map Json.str ▸ hlength⟩
    change ((Json.int fromUid).int?.bind fun uid => _) = _
    rw [hint]
    exact if_pos hids
  · rw [mapM_eq_some, forall₂_map_left_iff, forall₂_same]
    intro id hid
    obtain ⟨hne, hid⟩ := h.id id hid
    rw [ackId, Json.str?, Option.filter_some, if_pos (by simp [hne]; exact hid)]

theorem frames_handleNotify {uid : Uid} {store store' : MessageStore} {ok : Bool} {body : Json}
    {fresh : List Json} {last : List Bytes}
    (hcheck : ¬(hasError body = true ∨ (body.get "fromuid").toInt ≤ 0 ∨
      (body.get "touid").toInt ≠ uid ∨
      (body.get "text_array").toArr = [] ∨ 50 < (body.get "text_array").toArr.length))
    (hsave : store.save ok (body.get "fromuid").toInt uid (body.get "text_array").toArr =
      .ok (store', fresh))
    (hlast : (ackLoop size (body.get "fromuid").toInt (body.get "text_array").toArr []).2 =
      some last) :
    frames (handleNotifyTextChatMsg size uid store ok body).2 =
      frames ((ackLoop size (body.get "fromuid").toInt (body.get "text_array").toArr []).1 ++
        flushAcks (body.get "fromuid").toInt last) := by
  have hto : (body.get "touid").toInt = uid := by
    simp only [not_or, not_not] at hcheck
    exact hcheck.2.2.1
  have hpresent :
    frames (if fresh = [] then [] else [.present (body.get "fromuid").toInt uid fresh]) = [] := by
    split_ifs <;> rfl
  rw [handleNotifyTextChatMsg, if_neg hcheck, hto, hsave]
  simp only [hlast, frames_append, hpresent, append_nil]

end Handler

/-- **Receipts cover what was saved.** Let a notification of 1 to 50 messages for the user pass the
checks of the handler.

* If `save` succeeds, the loop does not give up. What the handler sends are the receipts of
  `batches`, which are, one after the other, the ids of the notification. No receipt is empty. It
  takes at most 1800 bytes, so `writeFrame` sends it, and the server reads from it the ids it was
  made of.
* If `save` fails, the handler sends nothing. -/
theorem receipts_exact {quote : Bytes → ℕ} (hquote : Compact quote) (uid : Uid)
    (store : MessageStore)
    (ok : Bool) (body : Json) (herror : hasError body = false)
    (hfrom : 0 < (body.get "fromuid").toInt)
    (hto : (body.get "touid").toInt = uid)
    (hlength : (body.get "text_array").toArr ≠ [] ∧ (body.get "text_array").toArr.length ≤ 50) :
    let fromUid := (body.get "fromuid").toInt
    let messages := (body.get "text_array").toArr
    let size := Json.compactSize quote
    let sent := frames (handleNotifyTextChatMsg size uid store ok body).2
    match store.save ok fromUid uid messages with
    | .error _ => sent = []
    | .ok _ =>
      (ackLoop size fromUid messages []).2 ≠ none ∧
      ∃ batches : List (List Bytes), sent = batches.map (ackFrame fromUid) ∧
        batches.flatten = messages.map idOf ∧
        ∀ ids ∈ batches, ids ≠ [] ∧ size (ackBody fromUid ids) ≤ 1800 ∧
          writeFrame size .textChatMsgAck (ackBody fromUid ids) = [ackFrame fromUid ids] ∧
          ackRequest (some (ackBody fromUid ids)) = some (fromUid, ids.map .str) ∧
          (ids.map Json.str).mapM ackId = some ids := by
  intro fromUid messages size sent
  have hcheck :
    ¬(hasError body = true ∨ (body.get "fromuid").toInt ≤ 0 ∨ (body.get "touid").toInt ≠ uid ∨
      (body.get "text_array").toArr = [] ∨ 50 < (body.get "text_array").toArr.length) := by
    simpa [herror, hto, hfrom] using hlength
  cases hsave : store.save ok fromUid uid messages with
  | error e =>
    change frames (handleNotifyTextChatMsg size uid store ok body).2 = []
    rw [handleNotifyTextChatMsg, if_neg hcheck, hto, hsave]
    rfl
  | ok saved =>
    obtain ⟨store', fresh⟩ := saved
    obtain ⟨-, -, hsaved⟩ := saved_of_save hsave
    obtain ⟨-, -, -, -, -, hrange⟩ :=
      member_of_toInt quote (rfl : (body.get "fromuid").toInt = _) hfrom.ne'
    have hsingle : ∀ id : Bytes, id.length ≤ 128 → size (ackBody fromUid [id]) ≤ 1800 :=
      fun id hid => size_ackBody_single hquote ⟨hfrom, hrange⟩ hid
    obtain ⟨batches, last, hlast, hsent, hbatches, hall⟩ :=
      acks_spec hsingle messages fun v hv => (hsaved.there v hv).1
    refine ⟨by simp [hlast], batches, (frames_handleNotify hcheck hsave hlast).trans hsent, hall, ?_⟩
    intro ids hids
    have hreceipt := hbatches ids hids
    have hcount : ids.length ≤ 50 := by
      have hsub := (sublist_flatten_of_mem hids).length_le
      rw [hall, length_map] at hsub
      exact hsub.trans hlength.2
    exact ⟨hreceipt.nonempty, hreceipt.short,
      hreceipt.written (by simp [size, ackBody, Json.compactSize]),
      hreceipt.read ⟨hfrom, hrange⟩ hcount⟩

/-- The user 2 says two things. -/
def greeting :
    Json := .obj [(ascii "error", .int 0), (ascii "fromuid", .int 2), (ascii "touid", .int 1),
  (ascii "text_array",
    .arr [.obj [(ascii "msgid", .str (ascii "a")), (ascii "content", .str (ascii "hello"))],
    .obj [(ascii "msgid", .str (ascii "b")), (ascii "content", .str (ascii "world"))]])]

theorem receipts_greeting :
    ∃ batches : List (List Bytes),
      frames (handleNotifyTextChatMsg (Json.compactSize Json.plainQuote) 1 { uid := 1 } true
        greeting).2 =
        batches.map (ackFrame 2) ∧ batches.flatten = [ascii "a", ascii "b"] ∧ ∀ ids ∈ batches,
          ids ≠ [] := by
  have hquote : Compact Json.plainQuote := by
    refine ⟨by decide, ?_⟩
    intro id _
    simp only [Json.plainQuote]
    omega
  have h := receipts_exact hquote 1 { uid := 1 } true greeting (by decide) (by decide) (by decide)
    (by decide)
  obtain ⟨-, batches, hsent, hall, hbatches⟩ := h
  exact ⟨batches, hsent, hall, fun ids hids => (hbatches ids hids).1⟩

end DistributedChat.Client
