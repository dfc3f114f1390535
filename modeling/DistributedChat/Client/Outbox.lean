import DistributedChat.Chat.Logic
import DistributedChat.Client.TcpMgr
import DistributedChat.Lib.JsonSize

/-!
# How the store of a client changes

`Grows`: messages are saved and accepted, and nothing else happens to them. From this follows what
holds of the outbox in every state of a client: each message in it fits a frame, and the server
takes it.
-/

namespace DistributedChat.Client

open Lib Chat MessageStore List
open Json (compactSize plainQuote)

/-! ## Changes of the table -/

section Grows

variable (New Acc : Uid × Bytes → StoredMessage → Prop)

/-- New rows are as `New` says; a row keeps its receiver and content, and becomes accepted only as
`Acc` says. -/
structure Grows (t t' : Messages) : Prop where
  kept : ∀ k row, t.get k = some row → ∃ row', t'.get k = some row' ∧
    row'.receiver = row.receiver ∧ row'.content = row.content ∧
      (row'.state = row.state ∨ row'.state = .accepted ∧ Acc k row)
  new : ∀ k row, t.get k = none → t'.get k = some row → New k row

variable {New Acc} {t t' t'' : Messages}

theorem Grows.refl (t : Messages) : Grows New Acc t t where
  kept _ row h := ⟨row, h, rfl, rfl, Or.inl rfl⟩
  new _ _ hnone h := by
    rw [hnone] at h
    cases h

theorem Grows.trans (h : Grows New Acc t t') (h' : Grows New Acc t' t'')
    (hNew : ∀ k row row', New k row → row'.receiver = row.receiver → row'.content = row.content →
      (row'.state =
      row.state ∨ row'.state = .accepted ∧ Acc k row) → New k row')
    (hAcc : ∀ k row row', Acc k row' → row'.receiver = row.receiver → row'.content = row.content →
      Acc k row) :
    Grows New Acc t t'' where
  kept k row hrow := by
    obtain ⟨row', hrow', hreceiver, hcontent, hstate⟩ := h.kept k row hrow
    obtain ⟨row'', hrow'', hreceiver', hcontent', hstate'⟩ := h'.kept k row' hrow'
    refine ⟨row'', hrow'', hreceiver'.trans hreceiver, hcontent'.trans hcontent, ?_⟩
    rcases hstate' with hsame | ⟨haccepted, hacc⟩
    · rw [hsame]
      exact hstate
    · exact Or.inr ⟨haccepted, hAcc k row row' hacc hreceiver hcontent⟩
  new k row'' hnone hrow'' := by
    cases hrow' : t'.get k with
    | none => exact h'.new k row'' hrow' hrow''
    | some row' =>
      obtain ⟨row₁, hrow₁, hreceiver, hcontent, hstate⟩ := h'.kept k row' hrow'
      cases hrow''.symm.trans hrow₁
      exact hNew k row' row'' (h.new k row' hnone hrow') hreceiver hcontent hstate

theorem Grows.mono (h : Grows New Acc t t') {New' Acc' : Uid × Bytes → StoredMessage → Prop}
    (hNew : ∀ k row, New k row → New' k row) (hAcc : ∀ k row, Acc k row → Acc' k row) :
    Grows New' Acc' t t' where
  kept k row hrow := by
    obtain ⟨row', hrow', hreceiver, hcontent, hstate⟩ := h.kept k row hrow
    exact ⟨row', hrow', hreceiver, hcontent, hstate.imp_right fun h => ⟨h.1, hAcc k row h.2⟩⟩
  new k row hnone hrow := hNew k row (h.new k row hnone hrow)

end Grows

/-! ## Saving -/

/-- The id and the content of an element, as `save` reads them. -/
def idOf (value : Json) : Bytes := ((objectOf value).get "msgid").toStr

def contentOf (value : Json) : Bytes := ((objectOf value).get "content").toStr

/-- What `save` checks of an element. -/
structure Savable (value : Json) : Prop where
  id : idOf value ≠ [] ∧ (idOf value).length ≤ 128
  content : contentOf value ≠ [] ∧ (contentOf value).length ≤ 2048

theorem objectOf_objectOf (value : Json) : objectOf (objectOf value) = objectOf value := by
  cases value <;> rfl

/-- A row that `save` inserts for one of the elements. -/
def SavedFrom (uid sender receiver : Uid) (values : List Json) (k : Uid × Bytes)
    (row : StoredMessage) :
    Prop :=
  k.1 = sender ∧ row.receiver = receiver ∧
    row.state = (if sender = uid then MessageState.pending else .received) ∧
    ∃ v ∈ values, Savable v ∧ k.2 = idOf v ∧ row.content = contentOf v

/-- What a batch that was saved leaves behind. -/
structure Saved (uid sender receiver : Uid) (values : List Json) (t t' : Messages)
    (fresh : List Json) : Prop where
  grows : Grows (SavedFrom uid sender receiver values) (fun _ _ => False) t t'
  there : ∀ v ∈ values, Savable v ∧ ∃ row, t'.get (sender, idOf v) = some row ∧
    row.receiver = receiver ∧ row.content = contentOf v
  /-- The messages that were new have different ids, and are no longer new. -/
  nodup : (fresh.map idOf).Nodup
  fresh : ∀ o ∈ fresh, t.get (sender, idOf o) = none ∧ (t'.get (sender, idOf o)).isSome ∧
    o = objectOf o

section Save

variable {uid sender receiver : Uid} {t t' : Messages} {values fresh : List Json}

theorem savable_of_not {value : Json} (h : ¬ (idOf value = [] ∨ 128 < (idOf value).length ∨
    contentOf value = [] ∨ 2048 < (contentOf value).length)) : Savable value := by
  simp only [not_or, not_lt] at h
  exact ⟨⟨h.1, h.2.1⟩, h.2.2.1, h.2.2.2⟩

theorem saved_of_saveLoop (h : saveLoop uid sender receiver values t = .ok (t', fresh)) :
    Saved uid sender receiver values t t' fresh := by
  induction values generalizing t t' fresh with
  | nil =>
    cases h
    exact ⟨.refl t, nofun, nodup_nil, nofun⟩
  | cons value values ih =>
    simp only [saveLoop] at h
    split at h
    · cases h
    rename_i hcheck
    have hvalue : Savable value := savable_of_not hcheck
    have hmono : ∀ k row, SavedFrom uid sender receiver values k row →
        SavedFrom uid sender receiver (value :: values) k row := by
      rintro k row ⟨hk, hreceiver, hstate, v, hv, hrest⟩
      exact ⟨hk, hreceiver, hstate, v, mem_cons_of_mem _ hv, hrest⟩
    split at h
    · -- the message is there already
      rename_i row hrow
      split at h
      · cases h
      · rename_i hsame
        simp only [not_or, not_not] at hsame
        have hrest := ih h
        refine ⟨hrest.grows.mono hmono fun _ _ h => h, fun v hv => ?_, hrest.nodup, hrest.fresh⟩
        rcases mem_cons.mp hv with rfl | hv
        · obtain ⟨row', hrow', hreceiver, hcontent, -⟩ := hrest.grows.kept _ row hrow
          exact ⟨hvalue, row', hrow', hreceiver.trans hsame.1, hcontent.trans hsame.2⟩
        · exact hrest.there v hv
    · rename_i hnone
      obtain ⟨⟨t₁, fresh₁⟩, hloop, heq⟩ : ∃ r, saveLoop uid sender receiver values
          (t.insert (sender, idOf value) ⟨receiver, contentOf value,
            if sender = uid then .pending else .received, 0, 0⟩) = .ok r ∧
          (r.1, objectOf value :: r.2) = (t', fresh) := by
        cases hr : saveLoop uid sender receiver values
            (t.insert (sender, idOf value) ⟨receiver, contentOf value,
              if sender = uid then .pending else .received, 0, 0⟩) with
        | error e =>
          have h := h
          simp only [idOf, contentOf] at hr
          rw [hr] at h
          cases h
        | ok r =>
          simp only [idOf, contentOf] at hr
          rw [hr] at h
          exact ⟨r, rfl, Except.ok.inj h⟩
      cases heq
      have hrest := ih hloop
      have hget : ∀ k, (t.insert (sender, idOf value) ⟨receiver, contentOf value,
          if sender = uid then MessageState.pending else .received, 0, 0⟩).get k =
          if k = (sender, idOf value) then some ⟨receiver, contentOf value,
            if sender = uid then MessageState.pending else .received, 0, 0⟩ else t.get k :=
        fun k => Table.get_insert hnone k
      refine ⟨⟨fun k row hrow => ?_, fun k row hold hrow => ?_⟩, fun v hv => ?_, ?_, fun o ho => ?_⟩
      · have hne : k ≠ (sender, idOf value) := by
          rintro rfl
          rw [show t.get (sender, idOf value) = none from hnone] at hrow
          cases hrow
        exact hrest.grows.kept k row ((hget k).trans ((if_neg hne).trans hrow))
      · by_cases hk : k = (sender, idOf value)
        · obtain ⟨row', hrow', hreceiver, hcontent, hstate⟩ :=
            hrest.grows.kept k _ ((hget k).trans (if_pos hk))
          cases hrow.symm.trans hrow'
          exact ⟨congrArg Prod.fst hk, hreceiver, hstate.resolve_right fun h => h.2, value,
            mem_cons_self, hvalue, congrArg Prod.snd hk, hcontent⟩
        · exact hmono k row (hrest.grows.new k row ((hget k).trans ((if_neg hk).trans hold)) hrow)
      · rcases mem_cons.mp hv with rfl | hv
        · obtain ⟨row', hrow', hreceiver, hcontent, -⟩ :=
            hrest.grows.kept (sender, idOf v) _ ((hget _).trans (if_pos rfl))
          exact ⟨hvalue, row', hrow', hreceiver, hcontent⟩
        · exact hrest.there v hv
      · -- the new id was there for the rest of the batch
        refine nodup_cons.mpr ⟨fun hmem => ?_, hrest.nodup⟩
        obtain ⟨o, ho, heq⟩ := mem_map.mp hmem
        have hold := (hrest.fresh o ho).1
        rw [hget, heq, if_pos (by rw [show idOf (objectOf value) = idOf value from
          congrArg (fun v => (Json.get v "msgid").toStr) (objectOf_objectOf value)])] at hold
        cases hold
      · rcases mem_cons.mp ho with rfl | ho
        · have hid : idOf (objectOf value) = idOf value :=
            congrArg (fun v => (Json.get v "msgid").toStr) (objectOf_objectOf value)
          obtain ⟨row', hrow', -⟩ :=
            hrest.grows.kept (sender, idOf value) _ ((hget _).trans (if_pos rfl))
          exact ⟨hid ▸ hnone, by rw [hid, hrow']; rfl, (objectOf_objectOf value).symm⟩
        · obtain ⟨hold, hnew, hobject⟩ := hrest.fresh o ho
          rw [hget] at hold
          split at hold
          · cases hold
          · exact ⟨hold, hnew, hobject⟩

end Save

/-! ## The operations of the store -/

section Operations

variable {s s' : MessageStore} {ok : Bool}

/-- What the batch of a successful `save` has passed. -/
structure Batch (uid sender receiver : Uid) (values : List Json) : Prop where
  sender_pos : 0 < sender
  receiver_pos : 0 < receiver
  distinct : sender ≠ receiver
  own : sender = uid ∨ receiver = uid
  length : values ≠ [] ∧ values.length ≤ 50

theorem saved_of_save {sender receiver : Uid} {values fresh : List Json}
    (h : s.save ok sender receiver values = .ok (s', fresh)) :
    s'.uid = s.uid ∧ Batch s.uid sender receiver values ∧
      Saved s.uid sender receiver values s.messages s'.messages fresh := by
  unfold MessageStore.save at h
  split at h
  · cases h
  rename_i hcheck
  split at h
  · cases hr : saveLoop s.uid sender receiver values s.messages with
    | error e =>
      rw [hr] at h
      cases h
    | ok r =>
      rw [hr] at h
      cases h
      refine ⟨rfl, ?_, saved_of_saveLoop hr⟩
      simp only [not_or, not_lt, not_le, not_and, not_not] at hcheck
      obtain ⟨-, hsender, hreceiver, hne, hown, hvalues⟩ := hcheck
      exact ⟨hsender, hreceiver, hne, (Decidable.em (sender = s.uid)).imp_right hown, hvalues⟩
  · cases h

/-- A message that a response names as accepted. -/
def AcceptedBy (uid : Uid) (response : Json) (k : Uid × Bytes) (row : StoredMessage) : Prop :=
  k.1 = uid ∧ row.receiver = (response.get "touid").toInt ∧
    ∃ v ∈ (response.get "text_array").toArr, k.2 = idOf v ∧ row.content = contentOf v

theorem grows_update {t : Messages} {Acc : Uid × Bytes → StoredMessage → Prop} {k : Uid × Bytes}
    {f : StoredMessage → StoredMessage}
    (hf : ∀ row, t.get k = some row → (f row).receiver = row.receiver ∧
      (f row).content = row.content ∧
      ((f row).state = row.state ∨ (f row).state = .accepted ∧ Acc k row)) :
    Grows (fun _ _ => False) Acc t (t.update k f) where
  kept k' row hrow := by
    rw [Table.get_update]
    by_cases hk : k' = k
    · subst hk
      rw [if_pos rfl, hrow]
      exact ⟨f row, rfl, hf row hrow⟩
    · rw [if_neg hk]
      exact ⟨row, hrow, rfl, rfl, Or.inl rfl⟩
  new k' row hnone hrow := by
    rw [Table.get_update, hnone] at hrow
    split at hrow <;> cases hrow

theorem grows_acceptLoop {uid touid : Uid} {values : List Json} {t t' : Messages}
    (h : acceptLoop uid touid values t = some t') :
    Grows (fun _ _ => False) (fun k row => k.1 = uid ∧ row.receiver = touid ∧
      ∃ v ∈ values, k.2 = idOf v ∧ row.content = contentOf v) t t' := by
  induction values generalizing t with
  | nil =>
    cases h
    exact .refl _
  | cons value values ih =>
    simp only [acceptLoop] at h
    split at h
    · rename_i row hrow
      split at h
      · rename_i hsame
        have hfirst : Grows (fun _ _ => False) (fun k row => k.1 = uid ∧ row.receiver = touid ∧
            ∃ v ∈ value :: values, k.2 = idOf v ∧ row.content = contentOf v) t _ :=
          grows_update (k := (uid, idOf value)) (f := fun row => { row with state := .accepted })
            fun row' hrow' => by
              cases hrow.symm.trans hrow'
              exact ⟨rfl, rfl, Or.inr ⟨rfl, rfl, hsame.1, value, mem_cons_self, rfl, hsame.2⟩⟩
        refine hfirst.trans ((ih h).mono (fun _ _ h => h) ?_) (fun _ _ _ h => h.elim) ?_
        · rintro k row ⟨hk, hreceiver, v, hv, hrest⟩
          exact ⟨hk, hreceiver, v, mem_cons_of_mem _ hv, hrest⟩
        · rintro k row row' ⟨hk, hreceiver, v, hv, hid, hcontent⟩ hreceiver' hcontent'
          exact ⟨hk, hreceiver'.symm.trans hreceiver, v, hv, hid, hcontent'.symm.trans hcontent⟩
      · cases h
    · cases h

theorem grows_accept {response : Json} (h : s.accept ok response = some s') :
    s'.uid = s.uid ∧ (response.get "fromuid").toInt = s.uid ∧ (response.get "error").int? = some 0 ∧
      (response.get "delivery").toStr = ascii "accepted" ∧
      Grows (fun _ _ => False) (AcceptedBy s.uid response) s.messages s'.messages := by
  simp only [MessageStore.accept] at h
  split at h
  · cases h
  rename_i hcheck
  simp only [not_or, not_not] at hcheck
  obtain ⟨t, ht, rfl⟩ := Option.map_eq_some_iff.mp h
  refine ⟨rfl, hcheck.2.1, ?_, hcheck.2.2.2.1, grows_acceptLoop ht⟩
  have herror := hcheck.2.2.1
  cases hint : (response.get "error").int? with
  | none =>
    rw [hint] at herror
    cases herror
  | some n =>
    rw [hint] at herror
    exact congrArg some herror

theorem grows_attempted {message : Json} {now : ℤ} (h : s.attempted ok message now = some s') :
    s'.uid = s.uid ∧ Grows (fun _ _ => False) (fun _ _ => False) s.messages s'.messages := by
  simp only [MessageStore.attempted] at h
  split at h
  · split at h
    · cases h
      exact ⟨rfl, grows_update (f := fun row => row.retry now) fun _ _ => ⟨rfl, rfl, Or.inl rfl⟩⟩
    · cases h
  · cases h

theorem grows_flushLoop (size : Json → ℕ) (now : ℤ) (requests : List Json) (s : MessageStore) :
    (flushLoop size now requests s).1.uid = s.uid ∧
      Grows (fun _ _ => False) (fun _ _ => False) s.messages
      (flushLoop size now requests s).1.messages ∧
      ∀ f ∈ (flushLoop size now requests s).2, f.id = .textChatMsgReq := by
  induction requests generalizing s with
  | nil => exact ⟨rfl, .refl _, nofun⟩
  | cons message rest ih =>
    simp only [flushLoop]
    split
    · exact ⟨rfl, .refl _, nofun⟩
    · rename_i s₁ hs₁
      obtain ⟨huid, hgrows⟩ := grows_attempted hs₁
      obtain ⟨huid', hgrows', hframes⟩ := ih s₁
      refine ⟨huid'.trans huid,
        hgrows.trans hgrows' (fun _ _ _ h => h.elim) (fun _ _ _ h => h.elim),
        fun f hf => ?_⟩
      rcases mem_append.mp hf with hf | hf
      · unfold writeFrame at hf
        split at hf
        · cases hf
        · rw [mem_singleton.mp hf]
      · exact hframes f hf

end Operations

/-! ## The outbox -/

/-- A message of the account that the server can be sent. -/
structure Sendable (size : Json → ℕ) (uid : Uid) (id : Bytes) (row : StoredMessage) : Prop where
  id_ok : id ≠ [] ∧ id.length ≤ 128
  content_ok : row.content ≠ [] ∧ row.content.length ≤ 2048
  receiver_ok : 0 < row.receiver ∧ row.receiver < 2 ^ 31
  other : row.receiver ≠ uid
  fits : size (request uid row.receiver id row.content) ≤ 2048

theorem Sendable.congr {size : Json → ℕ} {uid : Uid} {id : Bytes} {row row' : StoredMessage}
    (h : Sendable size uid id row) (hreceiver : row'.receiver = row.receiver)
    (hcontent : row'.content = row.content) : Sendable size uid id row' := by
  obtain ⟨hid, hcont, hrec, hother, hfits⟩ := h
  exact ⟨hid, hcontent ▸ hcont, hreceiver ▸ hrec, hreceiver ▸ hother, by
    rw [hreceiver, hcontent]
    exact hfits⟩

/-- The store of user `uid`, whose outbox is in order. -/
structure OutboxOk (size : Json → ℕ) (uid : Uid) (s : MessageStore) : Prop where
  account : s.uid = uid
  own : ∀ id row, s.messages.get (uid, id) = some row → Sendable size uid id row

theorem OutboxOk.grows {size : Json → ℕ} {uid : Uid} {s s' : MessageStore} (h : OutboxOk size uid s)
    (huid : s'.uid = s.uid) {New Acc : Uid × Bytes → StoredMessage → Prop}
    (hgrows : Grows New Acc s.messages s'.messages)
    (hnew : ∀ id row, New (uid, id) row → Sendable size uid id row) : OutboxOk size uid s' := by
  refine ⟨huid.trans h.account, fun id row' hrow' => ?_⟩
  cases hrow : s.messages.get (uid, id) with
  | none => exact hnew id row' (hgrows.new _ row' hrow hrow')
  | some row =>
    obtain ⟨row'', hrow'', hreceiver, hcontent, -⟩ := hgrows.kept _ row hrow
    cases hrow'.symm.trans hrow''
    exact (h.own id row hrow).congr hreceiver hcontent

section Compact

variable {quote : Bytes → ℕ} {uid : Uid}

variable {v : Json} {key : String}

theorem mem_of_find {x : Json} (h : v.find key = some x) :
    ∃ ms, v = .obj ms ∧ (ascii key, x) ∈ ms := by
  cases v with
  | obj ms =>
    obtain ⟨ms₁, ms₂, rfl, -⟩ := lookup_eq_some_iff.mp h
    exact ⟨_, rfl, mem_append_right _ mem_cons_self⟩
  | _ => cases h

theorem member_of_toInt (quote : Bytes → ℕ) {n : ℤ} (h : (v.get key).toInt = n) (hn : n ≠ 0) :
    ∃ ms x, v = .obj ms ∧
    (ascii key, x) ∈ ms ∧ compactSize quote x = Json.decimalSize n ∧ n < 2 ^ 31 := by
  cases hfind : v.find key with
  | none =>
    rw [Json.get, hfind] at h
    exact absurd h.symm hn
  | some x =>
    rw [Json.get, hfind] at h
    obtain ⟨ms, rfl, hmem⟩ := mem_of_find hfind
    refine ⟨ms, x, rfl, hmem, ?_⟩
    simp only [Json.toInt, Json.int?, Option.getD_some] at h
    cases hwhole : x.whole? with
    | none =>
      rw [hwhole] at h
      exact absurd h.symm hn
    | some m =>
      rw [hwhole, Option.filter_some] at h
      split at h
      · rename_i hrange
        obtain rfl : m = n := h
        have hrange := of_decide_eq_true hrange
        refine ⟨?_, hrange.2⟩
        cases x with
        | int k =>
          cases hwhole
          rw [compactSize]
        | real k integral text =>
          cases integral with
          | true =>
            cases hwhole
            rw [compactSize, if_pos ⟨rfl, hrange⟩]
          | false => cases hwhole
        | _ => cases hwhole
      · exact absurd h.symm hn

theorem member_of_toStr {s : Bytes} (h : (v.get key).toStr = s) (hs : s ≠ []) :
    ∃ ms, v = .obj ms ∧ (ascii key, .str s) ∈ ms := by
  cases hfind : v.find key with
  | none =>
    rw [Json.get, hfind] at h
    exact absurd h.symm hs
  | some x =>
    rw [Json.get, hfind] at h
    obtain ⟨ms, rfl, hmem⟩ := mem_of_find hfind
    cases x with
    | str s' =>
      obtain rfl : s' = s := h
      exact ⟨ms, rfl, hmem⟩
    | _ => exact absurd h.symm hs

/-- The text of a request, as an element of its array. -/
def textOf (id content : Bytes) : Json :=
  .obj [(ascii "content", .str content), (ascii "msgid", .str id)]

variable {message : Json}

theorem size_request_le (quote : Bytes → ℕ) {value : Json} {receiver : Uid} (hvalue : Savable value)
    (huid : (message.get "fromuid").toInt = uid) (hne : uid ≠ 0)
    (hreceiver : (message.get "touid").toInt = receiver) (hne' : receiver ≠ 0) :
    compactSize quote (request uid receiver (idOf value) (contentOf value)) ≤
      compactSize quote (message.set "text_array" (.arr [value])) := by
  obtain ⟨ms, x, rfl, hx, hxsize, -⟩ := member_of_toInt quote huid hne
  obtain ⟨ms', y, hms, hy, hysize, -⟩ := member_of_toInt quote hreceiver hne'
  cases hms
  -- the element itself
  have hobject : objectOf value = value := by
    unfold objectOf
    split
    · rfl
    · rename_i hnot
      refine absurd ?_ hvalue.id.1
      simp only [idOf, objectOf, if_neg hnot]
      rfl
  obtain ⟨vs, hvs, hid⟩ :=
    member_of_toStr (rfl : ((objectOf value).get "msgid").toStr = idOf value) hvalue.id.1
  obtain ⟨vs', hvs', hcontent⟩ :=
    member_of_toStr
      (rfl : ((objectOf value).get "content").toStr = contentOf value) hvalue.content.1
  cases hvs.symm.trans hvs'
  have htext : compactSize quote
    (textOf (idOf value) (contentOf value)) ≤ compactSize quote value := by
    have hkeys : [ascii "content", ascii "msgid"].Nodup := by decide
    refine le_of_le_of_eq (Json.le_compactSize_obj quote (by simp) hkeys ?_)
      (congrArg _ (hobject.symm.trans hvs).symm)
    intro m hm
    rcases mem_cons.mp hm with rfl | hm
    · exact hcontent
    · rw [mem_singleton.mp hm]
      exact hid
  -- the members of the request among those of the message
  have hmembers : compactSize quote (.obj [(ascii "fromuid", x), (ascii "text_array", .arr [value]),
      (ascii "touid", y)]) ≤ compactSize quote ((Json.obj ms).set "text_array" (.arr [value])) := by
    have hkeys : [ascii "fromuid", ascii "text_array", ascii "touid"].Nodup := by decide
    have hfrom : (ascii "fromuid" != ascii "text_array") = true := by decide
    have hto : (ascii "touid" != ascii "text_array") = true := by decide
    refine Json.le_compactSize_obj quote (by simp) hkeys ?_
    intro m hm
    simp only [mem_cons, not_mem_nil, or_false] at hm
    rcases hm with rfl | rfl | rfl
    · exact mem_append_left _ (mem_filter.mpr ⟨hx, hfrom⟩)
    · exact mem_append_right _ (mem_singleton.mpr rfl)
    · exact mem_append_left _ (mem_filter.mpr ⟨hy, hto⟩)
  refine le_trans ?_ hmembers
  simp only [request, compactSize, Json.compactMembers, Json.compactElements, hxsize, hysize]
  have htext' : compactSize quote (.obj [(ascii "content", .str (contentOf value)),
    (ascii "msgid", .str (idOf value))]) ≤ compactSize quote value := htext
  simp only [compactSize, Json.compactMembers] at htext'
  omega

theorem saved_of_enqueueText {size : Json → ℕ} {s s' : MessageStore} {ok : Bool}
    (h : enqueueText size uid s ok message = some s') :
    (message.get "fromuid").toInt = uid ∧
    (∀ value ∈ (message.get "text_array").toArr,
      size (message.set "text_array" (.arr [value])) ≤ 2048) ∧
    ∃ fresh, s.save ok uid (message.get "touid").toInt (message.get "text_array").toArr = .ok
    (s', fresh) := by
  simp only [enqueueText] at h
  split at h
  · cases h
  rename_i hsize
  split at h
  · cases h
  rename_i huid
  have huid : (message.get "fromuid").toInt = uid := not_not.mp huid
  refine ⟨huid, fun value hvalue => ?_, ?_⟩
  · by_contra hlong
    exact hsize (any_eq_true.mpr ⟨value, hvalue, decide_eq_true (not_le.mp hlong)⟩)
  · split at h
    · cases h
    · rename_i store fresh hsave
      cases h
      exact ⟨fresh, huid ▸ hsave⟩

theorem OutboxOk.enqueueText {s s' : MessageStore} (h : OutboxOk (compactSize quote) uid s)
    {ok : Bool}
    (hs : enqueueText (compactSize quote) uid s ok message = some s') :
    OutboxOk (compactSize quote) uid s' := by
  obtain ⟨huid, hsize, fresh, hsave⟩ := saved_of_enqueueText hs
  obtain ⟨haccount, hbatch, hsaved⟩ := saved_of_save hsave
  refine h.grows haccount hsaved.grows ?_
  rintro id row ⟨-, hreceiver, -, v, hv, hsavable, rfl, hcontent⟩
  have hpos := hbatch.receiver_pos
  obtain ⟨-, -, -, -, -, hrange⟩ :=
    member_of_toInt quote (rfl : (message.get "touid").toInt = _) hpos.ne'
  have hfits := size_request_le quote hsavable huid hbatch.sender_pos.ne' rfl hpos.ne'
  exact ⟨hsavable.id, hcontent ▸ hsavable.content, hreceiver ▸ ⟨hpos, hrange⟩,
    hreceiver ▸ hbatch.distinct.symm, by
      rw [hreceiver, hcontent]
      exact hfits.trans (hsize v hv)⟩

/-- The two ways a notification can end: nothing happens, or its messages are saved and
acknowledged, and those that are new are presented. -/
theorem handleNotify_cases (size : Json → ℕ) (uid : Uid) (s : MessageStore) (ok : Bool)
    (body : Json) :
    (handleNotifyTextChatMsg size uid s ok body).1 = s ∧
    (handleNotifyTextChatMsg size uid s ok body).2 = [] ∨
      (body.get "touid").toInt = uid ∧ ∃ s' fresh rest,
        s.save ok (body.get "fromuid").toInt uid (body.get "text_array").toArr = .ok (s', fresh) ∧
        (handleNotifyTextChatMsg size uid s ok body).1 = s' ∧
        (handleNotifyTextChatMsg size uid s ok body).2 =
          (ackLoop size (body.get "fromuid").toInt (body.get "text_array").toArr []).1 ++ rest ∧
        (rest = [] ∨ ∃ ackBatch,
          (ackLoop size (body.get "fromuid").toInt (body.get "text_array").toArr []).2 =
          some ackBatch ∧
          rest = (if fresh = [] then [] else [.present (body.get "fromuid").toInt uid fresh]) ++
            flushAcks (body.get "fromuid").toInt ackBatch) := by
  simp only [handleNotifyTextChatMsg]
  split
  · exact Or.inl ⟨rfl, rfl⟩
  rename_i hcheck
  simp only [not_or, not_not] at hcheck
  have huid := hcheck.2.2.1
  rw [huid]
  split
  · exact Or.inl ⟨rfl, rfl⟩
  · rename_i s' fresh hsave
    refine Or.inr ⟨rfl, s', fresh, ?_⟩
    split
    · exact ⟨[], hsave, rfl, (append_nil _).symm, Or.inl rfl⟩
    · rename_i ackBatch hbatch
      exact ⟨_, hsave, rfl, append_assoc .., Or.inr ⟨ackBatch, hbatch, rfl⟩⟩

theorem emit_store (c : App) (outs : List Output) : (c.emit outs).store = c.store := by
  induction outs generalizing c with
  | nil => rfl
  | cons out outs ih =>
    cases out with
    | send f | present fromUid toUid freshMessages => exact ih _

variable {Incoming : OutFrame → Prop} {c : App}

theorem OutboxOk.step {c' : App} (h : OutboxOk (compactSize quote) uid c.store)
    (hstep : App.Step (compactSize quote) uid Incoming c c') :
    OutboxOk (compactSize quote) uid c'.store := by
  cases hstep with
  | enqueueText hs => exact h.enqueueText hs
  | flushOutbox now n =>
    obtain ⟨huid, hgrows, -⟩ := grows_flushLoop (compactSize quote) now
      ((c.store.pending now).take n) c.store
    exact h.grows huid hgrows fun _ _ h => h.elim
  | @textChatMsgRsp f ok hf hid =>
    unfold handleTextChatMsgRsp
    split
    · exact h
    · cases hs : c.store.accept ok f.body with
      | none => exact h
      | some s' =>
        obtain ⟨huid, -, -, -, hgrows⟩ := grows_accept hs
        exact h.grows huid hgrows fun _ _ h => h.elim
  | @notifyTextChatMsg f ok n hf hid =>
    rw [emit_store]
    rcases handleNotify_cases (compactSize quote) uid c.store ok f.body with
      ⟨hsame, -⟩ | ⟨-, s', fresh, -, hsave, hs', -⟩
    · dsimp only
      rw [hsame]
      exact h
    · -- the messages of a notification are from somebody else
      dsimp only
      rw [hs']
      obtain ⟨haccount, hbatch, hsaved⟩ := saved_of_save hsave
      refine h.grows haccount hsaved.grows ?_
      rintro id row ⟨hsender, -⟩
      exact absurd hsender.symm hbatch.distinct
  | other f hreq hack => exact h

theorem OutboxOk.run
    (hc : Relation.ReflTransGen (App.Step (compactSize quote) uid Incoming) (App.init uid) c) :
    OutboxOk (compactSize quote) uid c.store := by
  induction hc with
  | refl => exact ⟨rfl, nofun⟩
  | tail _ hstep ih => exact ih.step hstep

/-! ## What the server makes of a request -/

variable {id : Bytes}

theorem acceptedReply_eq (uid receiver : Uid) (texts : List Json) :
    textChatReply uid receiver texts .Accepted = .obj
    [(ascii "error", .int 0), (ascii "text_array", .arr texts),
        (ascii "fromuid", .int uid), (ascii "touid", .int receiver),
        (ascii "delivery", .str (ascii "accepted"))] := by
  simp +decide only [textChatReply, textChatReply.reply, Json.setAll, Json.set, foldl_cons,
    foldl_nil, filter_cons, filter_nil, nil_append, cons_append, if_true]
  rfl

theorem toInt_int {n : ℤ} (h : 0 < n ∧ n < 2 ^ 31) : (Json.int n).toInt = n := by
  have hrange : -(2 ^ 31) ≤ n ∧ n < 2 ^ 31 := ⟨le_trans (by decide) h.1.le, h.2⟩
  simp only [Json.toInt, Json.int?, Json.whole?, Option.filter_some, hrange, and_self, decide_true,
    if_true, Option.getD_some]

/-- A row that `pending` selects. -/
def Due (uid : Uid) (now : ℤ) (r : (Uid × Bytes) × StoredMessage) : Prop :=
  r.2.state = .pending ∧ r.1.1 = uid ∧ r.2.next_attempt ≤ now

instance decidableDue (uid : Uid) (now : ℤ) : DecidablePred (Due uid now) :=
  fun _ => inferInstanceAs (Decidable (_ ∧ _ ∧ _))

/-- A request of a message that is still pending. -/
def Waiting (s : MessageStore) (uid : Uid) (r : Json) : Prop :=
  ∃ id row, s.messages.get (uid, id) = some row ∧ row.state = .pending ∧ ∃ receiver content,
    r = request uid receiver id content

theorem Waiting.attempted {s s' : MessageStore} {r message : Json} {now : ℤ} (h : Waiting s uid r)
    (hs' : s.attempted true message now = some s') : Waiting s' uid r ∧ s'.uid = s.uid := by
  unfold MessageStore.attempted at hs'
  dsimp only at hs'
  split at hs'
  · obtain ⟨-, heq⟩ := Option.ite_none_right_eq_some.mp hs'
    cases heq
    obtain ⟨id, row, hrow, hstate, hr⟩ := h
    refine ⟨⟨id, ?_⟩, rfl⟩
    dsimp only
    rw [Table.get_update, hrow]
    split
    · exact ⟨row.retry now, rfl, hstate, hr⟩
    · exact ⟨row, rfl, hstate, hr⟩
  · cases hs'

end Compact

/-! One message of user 1 to user 2 is enqueued. -/

namespace Sample

def setup : Setup :=
  ⟨[ascii "s1"], fun b => b, fun b => b, Json.styledSize Json.plainQuote, fun b => b⟩

def message : Json :=
  .obj [(ascii "fromuid", .int 1), (ascii "touid", .int 2),
    (ascii "text_array", .arr [textOf (ascii "m") (ascii "hi")])]

def stored : MessageStore := ⟨1, Table.empty.insert (1, ascii "m") ⟨2, ascii "hi", .pending, 0, 0⟩⟩

end Sample

end DistributedChat.Client
