import DistributedChat.Chat.Database

/-!
# How the tables of the chat database change

`Evolves`: rows of `chat_message` appear and are acknowledged, and nothing else happens to them. Who
may insert and who may acknowledge is a parameter; the writes of a transaction evolve the table if
each of them is justified.

`FriendsOk`: friendship is mutual, and is there exactly where an application was accepted. The three
writes of an acceptance keep this only together.
-/

namespace DistributedChat.Chat

open Lib

/-! ## Messages -/

section Messages

variable (setup : Setup) (Ins : TextMessage → Prop) (Ack : MessageKey → Uid → Prop)

/-- Under the key of the message there is a row with its receiver and content. The key compares ids
by the collation, so the row may be that of another id. -/
def Stored (db : Db) (m : TextMessage) : Prop :=
  ∃ row, db.messages.get (messageKey setup m.sender_uid m.client_message_id) = some row ∧
    row.receiver_uid = m.receiver_uid ∧ row.content = m.content

structure Evolves (db db' : Db) : Prop where
  kept : ∀ key row, db.messages.get key = some row → ∃ row', db'.messages.get key = some row' ∧
    row'.message key.1 = row.message key.1 ∧ (row'.acknowledged_at = row.acknowledged_at ∨
        row.acknowledged_at = none ∧ Ack key row.receiver_uid)
  new : ∀ key row', db.messages.get key = none → db'.messages.get key = some row' →
    key = messageKey setup key.1 row'.client_message_id ∧ Ins (row'.message key.1) ∧
      (row'.acknowledged_at = none ∨ Ack key row'.receiver_uid)

def Write.Justified : Write → Prop
  | .insertMessage key row =>
    key = messageKey setup key.1 row.client_message_id ∧ row.acknowledged_at = none ∧ Ins
    (row.message key.1)
  | .acknowledge key receiver_uid _ => Ack key receiver_uid
  | _ => True

variable {setup Ins Ack} {db db' db'' : Db}

theorem Write.Justified.mono {Ins' : TextMessage → Prop} {Ack' : MessageKey → Uid → Prop}
    {w : Write}
    (h : w.Justified setup Ins Ack) (hins : ∀ m, Ins m → Ins' m)
    (hack : ∀ key receiver, Ack key receiver → Ack' key receiver) :
    w.Justified setup Ins' Ack' := by
  cases w with
  | insertMessage key row => exact ⟨h.1, h.2.1, hins _ h.2.2⟩
  | acknowledge key receiver now => exact hack _ _ h
  | _ => trivial

theorem Evolves.of_eq (h : db'.messages = db.messages) : Evolves setup Ins Ack db db' where
  kept key row hrow := ⟨row, h ▸ hrow, rfl, Or.inl rfl⟩
  new key row' hnone hrow' := by
    rw [h, hnone] at hrow'
    cases hrow'

theorem MessageRow.fields_of_message {sender : Uid} {row row' : MessageRow}
    (h : row'.message sender = row.message sender) :
    row'.client_message_id = row.client_message_id ∧ row'.receiver_uid = row.receiver_uid ∧
      row'.content = row.content := by
  simp only [MessageRow.message, TextMessage.mk.injEq, true_and] at h
  exact h

theorem Evolves.trans (h : Evolves setup Ins Ack db db') (h' : Evolves setup Ins Ack db' db'') :
    Evolves setup Ins Ack db db'' where
  kept key row hrow := by
    obtain ⟨row', hrow', hmessage, hack⟩ := h.kept key row hrow
    obtain ⟨row'', hrow'', hmessage', hack'⟩ := h'.kept key row' hrow'
    refine ⟨row'', hrow'', hmessage'.trans hmessage, ?_⟩
    rw [(MessageRow.fields_of_message hmessage).2.1] at hack'
    rcases hack with hack | hack
    · rcases hack' with hack' | ⟨hnone, hby⟩
      · exact Or.inl (hack'.trans hack)
      · exact Or.inr ⟨hack ▸ hnone, hby⟩
    · exact Or.inr hack
  new key row'' hnone hrow'' := by
    cases hget : db'.messages.get key with
    | none => exact h'.new key row'' hget hrow''
    | some row' =>
      obtain ⟨hkey, hins, hack⟩ := h.new key row' hnone hget
      obtain ⟨row, hrow, hmessage, hack'⟩ := h'.kept key row' hget
      obtain rfl : row = row'' := Option.some.inj (hrow.symm.trans hrow'')
      have hfields := MessageRow.fields_of_message hmessage
      refine ⟨hfields.1 ▸ hkey, hmessage ▸ hins, ?_⟩
      rw [hfields.2.1]
      rcases hack with hack | hack
      · rcases hack' with hack' | ⟨-, hby⟩
        · exact Or.inl (hack'.trans hack)
        · exact Or.inr hby
      · exact Or.inr hack

/-- A justified write is a lawful change of the message table. -/
theorem Evolves.apply {w : Write} (hw : w.Justified setup Ins Ack) :
    Evolves setup Ins Ack db (w.apply db) := by
  cases w with
  | insertApply a b | acceptApply a b | insertFriend a b back => exact .of_eq rfl
  | insertMessage k row =>
    obtain ⟨hkey, hnone, hins⟩ := hw
    have hget := Table.get_insert_or db.messages k row
    constructor
    · intro key old hold
      refine ⟨old, ?_, rfl, Or.inl rfl⟩
      by_cases h : key = k
      · rw [show ((Write.insertMessage k row).apply db).messages.get key = _ from hget key,
          if_pos h, ← h, hold]
        rfl
      · rw [show ((Write.insertMessage k row).apply db).messages.get key = _ from hget key,
          if_neg h, hold]
    · intro key new habsent hnew
      rw [show ((Write.insertMessage k row).apply db).messages.get key = _ from hget key] at hnew
      by_cases h : key = k
      · rw [if_pos h, ← h, habsent] at hnew
        obtain rfl : row = new := Option.some.inj hnew
        exact ⟨h ▸ hkey, h ▸ hins, Or.inl hnone⟩
      · rw [if_neg h, habsent] at hnew
        cases hnew
  | acknowledge k r now =>
    have hget := Table.get_update db.messages k (MessageRow.acknowledge r now)
    constructor
    · intro key old hold
      by_cases h : key = k
      · refine ⟨old.acknowledge r now, ?_, ?_, ?_⟩
        · rw [show ((Write.acknowledge k r now).apply db).messages.get key = _ from hget key,
            if_pos h, hold]
          rfl
        · unfold MessageRow.acknowledge
          split <;> rfl
        · unfold MessageRow.acknowledge
          split
          · rename_i hreceiver
            cases hack : old.acknowledged_at with
            | none => exact Or.inr ⟨rfl, hreceiver ▸ h ▸ hw⟩
            | some _ => exact Or.inl rfl
          · exact Or.inl rfl
      · refine ⟨old, ?_, rfl, Or.inl rfl⟩
        rw [show ((Write.acknowledge k r now).apply db).messages.get key = _ from hget key,
          if_neg h, hold]
    · intro key new habsent hnew
      rw [show ((Write.acknowledge k r now).apply db).messages.get key = _ from hget key,
        habsent] at hnew
      simp at hnew

/-- So are the writes of a whole transaction. -/
theorem Evolves.applyAll {ws : List Write} (hws : ∀ w ∈ ws, w.Justified setup Ins Ack) :
    Evolves setup Ins Ack db (engine.applyAll db ws) := by
  induction ws generalizing db with
  | nil => exact .of_eq rfl
  | cons w ws ih =>
    have hw := hws w List.mem_cons_self
    exact (Evolves.apply hw).trans (ih fun v hv => hws v (List.mem_cons_of_mem w hv))

theorem Stored.of_row {m : TextMessage} (h : Stored setup db m)
    (hrow : engine.row db' (.message (messageKey setup m.sender_uid m.client_message_id)) =
      engine.row db (.message (messageKey setup m.sender_uid m.client_message_id))) : Stored setup
        db' m := by
  obtain ⟨row, hget, hfields⟩ := h
  have hinj : Function.Injective (Option.map RowValue.message) :=
    Option.map_injective fun _ _ => RowValue.message.inj
  exact ⟨row, (hinj hrow).trans hget, hfields⟩

/-- Stored messages survive every lawful change. -/
theorem Stored.evolves {m : TextMessage} (h : Stored setup db m)
    (hdb : Evolves setup Ins Ack db db') : Stored setup db' m := by
  obtain ⟨row, hrow, hreceiver, hcontent⟩ := h
  obtain ⟨row', hrow', hmessage, -⟩ := hdb.kept _ row hrow
  obtain ⟨-, hreceiver', hcontent'⟩ := MessageRow.fields_of_message hmessage
  exact ⟨row', hrow', hreceiver'.trans hreceiver, hcontent'.trans hcontent⟩

end Messages

/-! ## Friends -/

structure FriendsOk (db : Db) : Prop where
  symm : ∀ a b, (db.friends.get (a, b)).isSome → (db.friends.get (b, a)).isSome
  irrefl : ∀ a, db.friends.get (a, a) = none
  status : ∀ k n, db.applies.get k = some n → n = 0 ∨ n = 1
  consent : ∀ a b, (db.friends.get (a, b)).isSome ↔
    db.applies.get (a, b) = some 1 ∨ db.applies.get (b, a) = some 1

variable {db : Db}

theorem FriendsOk.congr {db' : Db} (h : FriendsOk db) (hfriends : db'.friends = db.friends)
    (happlies : db'.applies = db.applies) : FriendsOk db' := by
  constructor
  · rw [hfriends]
    exact h.symm
  · rw [hfriends]
    exact h.irrefl
  · rw [happlies]
    exact h.status
  · rw [hfriends, happlies]
    exact h.consent

def Write.onMessages : Write → Bool
  | .insertMessage _ _ => true
  | .acknowledge _ _ _ => true
  | _ => false

theorem users_applyAll (db : Db) (ws : List Write) : (engine.applyAll db ws).users = db.users := by
  induction ws generalizing db with
  | nil => rfl
  | cons w ws ih =>
    refine (ih (w.apply db)).trans ?_
    cases w <;> rfl

theorem applies_applyAll {k : Uid × Uid} (h : (db.applies.get k).isSome) (ws : List Write) :
    ((engine.applyAll db ws).applies.get k).isSome := by
  induction ws generalizing db with
  | nil => exact h
  | cons w ws ih =>
    suffices hw : ((w.apply db).applies.get k).isSome from ih hw
    cases w with
    | insertApply a b =>
      rw [show ((Write.insertApply a b).apply db).applies.get k = _ from
        Table.get_insert_or db.applies (a, b) 0 k]
      split
      · rfl
      · exact h
    | acceptApply a b =>
      rw [show ((Write.acceptApply a b).apply db).applies.get k = _ from
        Table.get_update db.applies (a, b) _ k]
      split
      · rw [Option.isSome_map]
        exact h
      · exact h
    | _ => exact h

theorem known_applyAll (db : Db) (ws : List Write) (uid : Uid) :
    (engine.applyAll db ws).known uid = db.known uid := by
  unfold Db.known
  rw [users_applyAll]

/-- Writes to the messages leave friends and applications alone. -/
theorem FriendsOk.applyAll (h : FriendsOk db) {ws : List Write}
    (hws : ∀ w ∈ ws, w.onMessages = true) :
    FriendsOk (engine.applyAll db ws) := by
  induction ws generalizing db with
  | nil => exact h
  | cons w ws ih =>
    suffices h' : FriendsOk (w.apply db) from ih h' fun v hv => hws v (List.mem_cons_of_mem w hv)
    have hw := hws w List.mem_cons_self
    cases w with
    | insertMessage k row | acknowledge k r now => exact h.congr rfl rfl
    | _ => cases hw

/-- An application makes nobody a friend. -/
theorem FriendsOk.insertApply (h : FriendsOk db) (a b : Uid) :
    FriendsOk ((Write.insertApply a b).apply db) := by
  have hget : ∀ k n, n ≠ 0 →
      (((Write.insertApply a b).apply db).applies.get k = some n ↔ db.applies.get k = some n) := by
    intro k n hn
    rw [show ((Write.insertApply a b).apply db).applies.get k = _ from
      Table.get_insert_or db.applies (a, b) 0 k]
    by_cases hk : k = (a, b)
    · rw [if_pos hk, hk]
      cases db.applies.get (a, b) with
      | none => simpa using hn.symm
      | some m => simp
    · rw [if_neg hk]
  refine ⟨h.symm, h.irrefl, fun k n hn => ?_, fun x y => ?_⟩
  · by_cases h0 : n = 0
    · exact Or.inl h0
    · exact h.status k n ((hget k n h0).mp hn)
  · rw [hget _ 1 (by decide), hget _ 1 (by decide)]
    exact h.consent x y

variable {a b : Uid}

/-- Accepting an application adds both directions of the friendship. -/
theorem FriendsOk.accept (h : FriendsOk db) (hne : a ≠ b) (happly : (db.applies.get (b, a)).isSome)
    (x y : Bytes) :
    FriendsOk (engine.applyAll db
      [.insertFriend a b x, .insertFriend b a y, .acceptApply b a]) := by
  let db' := engine.applyAll db [.insertFriend a b x, .insertFriend b a y, .acceptApply b a]
  have hfriend : ∀ k, (db'.friends.get k).isSome ↔ k = (a, b) ∨ k = (b, a) ∨
    (db.friends.get k).isSome := by
    intro k
    have hget : db'.friends.get k = ((db.friends.insert (a, b) x).insert (b, a) y).get k := rfl
    rw [hget, Table.get_insert_or]
    by_cases h₁ : k = (b, a)
    · simp [h₁]
    · rw [if_neg h₁, Table.get_insert_or]
      by_cases h₂ : k = (a, b)
      · simp [h₂]
      · simp [h₁, h₂]
  have haccepted : ∀ k, db'.applies.get k = some 1 ↔ k = (b, a) ∨ db.applies.get k = some 1 := by
    intro k
    have hget : db'.applies.get k = (db.applies.update (b, a) fun status =>
        if status = 0 then 1 else status).get k := rfl
    rw [hget, Table.get_update]
    by_cases hk : k = (b, a)
    · obtain ⟨n, hn⟩ := Option.isSome_iff_exists.mp happly
      rcases h.status (b, a) n hn with rfl | rfl <;> simp [hk, hn]
    · simp [hk]
  have hstatus : ∀ k n, db'.applies.get k = some n → n = 0 ∨ n = 1 := by
    intro k n hn
    by_cases hk : db'.applies.get k = some 1
    · rw [hk] at hn
      exact Or.inr (Option.some.inj hn).symm
    · have hget : db'.applies.get k = (db.applies.update (b, a) fun status =>
          if status = 0 then 1 else status).get k := rfl
      have hne : k ≠ (b, a) := fun heq => hk ((haccepted k).mpr (Or.inl heq))
      rw [hget, Table.get_update, if_neg hne] at hn
      exact h.status k n hn
  refine ⟨fun c d hcd => ?_, fun c => ?_, hstatus, fun c d => ?_⟩
  · rw [hfriend] at hcd ⊢
    rcases hcd with heq | heq | hcd
    · cases heq
      exact Or.inr (Or.inl rfl)
    · cases heq
      exact Or.inl rfl
    · exact Or.inr (Or.inr (h.symm c d hcd))
  · rw [← Option.not_isSome_iff_eq_none, hfriend, h.irrefl c]
    rintro (heq | heq | hnone)
    · cases heq
      exact hne rfl
    · cases heq
      exact hne rfl
    · cases hnone
  · rw [hfriend, haccepted, haccepted, h.consent c d]
    simp only [Prod.mk.injEq]
    tauto

/-- Two different users are counted once for each direction. -/
theorem friendCount_eq (hne : a ≠ b) :
    db.friendCount a b = (if (db.friends.get (a, b)).isSome then 1 else 0) +
      if (db.friends.get (b, a)).isSome then 1 else 0 := by
  have hdisjoint : ∀ r ∈ db.friends.rows, ¬ (r.1 = (a, b) ∧ r.1 = (b, a)) := by
    rintro r - ⟨h₁, h₂⟩
    exact hne (congrArg Prod.fst (h₁.symm.trans h₂))
  rw [← db.friends.length_filter_key, ← db.friends.length_filter_key]
  unfold Db.friendCount
  generalize db.friends.rows = rows at hdisjoint
  induction rows with
  | nil => rfl
  | cons r rows ih =>
    have ih := ih fun r' hr' => hdisjoint r' (List.mem_cons_of_mem r hr')
    have hr := hdisjoint r List.mem_cons_self
    by_cases h₁ : r.1 = (a, b)
    · have h₂ : ¬ r.1 = (b, a) := fun h₂ => hr ⟨h₁, h₂⟩
      simp only [List.filter_cons, h₁, true_or, decide_true, if_true, List.length_cons, ih]
      rw [← h₁]
      simp only [h₂, decide_false, Bool.false_eq_true, if_false]
      omega
    · by_cases h₂ : r.1 = (b, a)
      · simp only [List.filter_cons, h₂, or_true, decide_true, if_true, List.length_cons, ih]
        rw [← h₂]
        simp only [h₁, decide_false, Bool.false_eq_true, if_false]
        omega
      · simp only [List.filter_cons, h₁, h₂, or_self, decide_false, Bool.false_eq_true,
          if_false, ih]

theorem friendCount_self (db : Db) (a : Uid) :
    db.friendCount a a = if (db.friends.get (a, a)).isSome then 1 else 0 := by
  rw [← db.friends.length_filter_key]
  simp only [Db.friendCount, or_self]

/-- `CheckFriendRelation` counts two rows only for friends in both directions. -/
theorem mutual_of_friendCount (h : db.friendCount a b = 2) : db.mutual a b = true := by
  unfold Db.mutual
  by_cases hne : a = b
  · subst hne
    rw [friendCount_self] at h
    split at h <;> cases h
  · rw [friendCount_eq hne] at h
    split at h <;> split at h <;> simp_all

end DistributedChat.Chat
