import DistributedChat.Chat.Steps

/-!
# The database effects keep the invariant

A statement of an open transaction changes the rows its connection sees and holds; the database
itself changes at a commit, and when an application is inserted. `takes_sql` says once what such a
change must satisfy.
-/

namespace DistributedChat.Chat

open Lib List
open Function (update_self)
open Transactions (uncommitted view uncommitted_finish mode_getD)

variable {setup : Setup} {t : Worker} {v : Vital} {m m' : Ghost}
  {sql' : Transactions Worker Db Write RowKey}

/-! ## From what is known to what may be written -/

variable {uid : Uid}

theorem Local.acts (hm : Local setup v t m) (h : m.Acts uid) :
    ∃ sid x, t = .session sid ∧ v.core sid = some x ∧ x.uid = uid ∧ 0 < uid := by
  obtain ⟨sid, hself, hbound⟩ := h
  obtain ⟨hpos, x, hx, huid⟩ := hm.facts _ hbound
  exact ⟨sid, x, hm.self.symm.trans hself, hx, huid, hpos⟩

theorem Local.actsAs (hm : Local setup v t m) (h : m.Acts uid) : ActsAs v t := by
  obtain ⟨sid, x, ht, hx, huid, hpos⟩ := hm.acts h
  exact ⟨sid, x, ht, hx, huid ▸ hpos⟩

theorem Local.job_of_core (hm : Local setup v t m) {j : Job} (hj : m.job = some j) {sid : Sid}
    {x : Core} (ht : t = .session sid) (hx : v.core sid = some x) : x.job = some j := by
  obtain ⟨sid', x', ht', hx', hjob⟩ := hm.job j hj
  cases ht.symm.trans ht'
  cases hx.symm.trans hx'
  exact hjob

theorem Local.insertsAs (hm : Local setup v t m) {msg : TextMessage} (h : m.MayInsert msg) :
    InsertsAs v t msg := by
  obtain ⟨f, hjob, hid, hacts, hchecked, hvalid⟩ := h
  obtain ⟨sid, x, ht, hx, huid, -⟩ := hm.acts hacts
  obtain ⟨x', hx', hmem⟩ := hm.facts _ hchecked sid ht
  cases hx.symm.trans hx'
  exact ⟨sid, x, f, ht, hx, hm.job_of_core hjob ht hx, hid, huid, hmem, hvalid⟩

variable {sender : Uid} {id : Bytes}

theorem Local.acknowledgesAs (hm : Local setup v t m) {r : Uid} (h : m.MayAcknowledge r sender id) :
    AcknowledgesAs setup v t (messageKey setup sender id) r ∧ ActsAs v t := by
  obtain ⟨f, hjob, hacts, hf⟩ := h
  obtain ⟨sid, x, ht, hx, huid, hpos⟩ := hm.acts hacts
  exact ⟨⟨sid, x, f, sender, id, ht, hx, hm.job_of_core hjob ht hx, huid, hpos, hf, rfl⟩,
    hm.actsAs hacts⟩

/-! ## Changes of the database -/

/-- The rows after a change: inserted ones are valid, acknowledged ones have been acknowledged by a
client of their receiver. -/
theorem World.rows (hw : World setup v) {db' : Db}
    (h : Evolves setup (InsertsAs v t) (AcknowledgesAs setup v t) v.sql.db db') :
    (∀ key row, db'.messages.get key = some row → RowOk setup key row) ∧
      ∀ key row, db'.messages.get key = some row → row.acknowledged_at ≠ none →
        AckHandled setup v key row.receiver_uid := by
  have hby : ∀ key r, AcknowledgesAs setup v t key r → AckHandled setup v key r := by
    rintro key r ⟨sid, x, f, sender, id, -, hx, hjob, huid, hpos, hf, hkey⟩
    exact ⟨sid, f, sender, id, hw.handled sid x f hx hjob, ⟨x, hx, huid⟩, hpos, hf, hkey⟩
  constructor
  · intro key row' hrow'
    cases hget : v.sql.db.messages.get key with
    | none =>
      obtain ⟨hkey, ⟨-, -, -, -, -, -, -, -, -, hvalid⟩, -⟩ := h.new key row' hget hrow'
      exact ⟨hkey, hvalid⟩
    | some row =>
      obtain ⟨row'', hrow'', hmessage, -⟩ := h.kept key row hget
      cases hrow'.symm.trans hrow''
      obtain ⟨hkey, hvalid⟩ := hw.messages key row hget
      exact ⟨(MessageRow.fields_of_message hmessage).1 ▸ hkey, hmessage ▸ hvalid⟩
  · intro key row' hrow' hack
    cases hget : v.sql.db.messages.get key with
    | none =>
      obtain ⟨-, -, hnone | hby'⟩ := h.new key row' hget hrow'
      · exact absurd hnone hack
      · exact hby key _ hby'
    | some row =>
      obtain ⟨row'', hrow'', hmessage, hsame⟩ := h.kept key row hget
      cases hrow'.symm.trans hrow''
      rw [(MessageRow.fields_of_message hmessage).2.1]
      rcases hsame with hsame | ⟨-, hby'⟩
      · exact hw.acked key row hget (hsame ▸ hack)
      · exact hby key _ hby'

/-- **A change of the database.** -/
theorem takes_sql (hw : World setup v) (hm : Local setup v t m)
    (hspares : v.sql.Spares engine t sql')
    (hlocked : sql'.Locked engine)
    (hevolves : Evolves setup (InsertsAs v t) (AcknowledgesAs setup v t) v.sql.db sql'.db)
    (htables : ActsAs v t ∨ sql'.db = v.sql.db) (hfriends : FriendsOk sql'.db)
    (husers : sql'.db.users = v.sql.db.users)
    (happlies : ∀ k, (v.sql.db.applies.get k).isSome → (sql'.db.applies.get k).isSome)
    (hself : m'.self = m.self)
    (hjob : m'.job = m.job)
    (hfacts : ∀ f ∈ m'.know, f ∈ m.know ∨ Holds setup { v with sql := sql' } t f)
    (hconn : ConnHolds setup sql' t m'.conn)
    (hwrites : ∀ w ∈ sql'.uncommitted t, w ∈ v.sql.uncommitted t ∨ WritesAs setup v t w ∧
      ActsAs v t) :
    Takes setup t v { v with sql := sql' } m' := by
  have hknown : ∀ uid, v.sql.db.known uid = true → sql'.db.known uid = true := by
    intro uid h
    unfold Db.known at h ⊢
    rw [husers]
    exact h
  have hstored : ∀ msg, Stored setup v.sql.db msg → Stored setup sql'.db msg := fun _ h =>
    h.evolves hevolves
  obtain ⟨hrows, hacked⟩ := hw.rows hevolves
  constructor
  · have hp : Preserves setup t v v := .refl t v
    exact { hp with
      known := hknown, evolves := hevolves, tables := htables, applies := happlies, sql := hspares }
  · exact {
      hw with
      users := fun sid x hx =>
        ⟨(hw.users sid x hx).1, fun hpos => hknown _ ((hw.users sid x hx).2 hpos)⟩
      cache := fun key e he hkey =>
        (hw.cache key e he hkey).imp fun uid h => ⟨h.1, hknown uid h.2⟩
      tickets := { hw.tickets with }
      locked := hlocked
      friends := hfriends
      messages := hrows
      acked := hacked
      pushed := fun p hp => (hw.pushed p hp).mono hstored }
  · refine ⟨hself.trans hm.self, fun f hf => ?_, fun j hj => hm.job j (hjob ▸ hj), hconn,
      fun w hw' => (hwrites w hw').elim (hm.writes w) id, hm.session⟩
    rcases hfacts f hf with hold | hnew
    · have hholds := hm.facts f hold
      cases f with
      | known uid => exact hknown uid hholds
      | stored msg => exact hstored msg hholds
      | _ => exact hholds
    · exact hnew

/-! ## Statements of a transaction -/

section Transaction

variable {ws₀ ws : List Write} {ks : List RowKey}

theorem takes_statement (hw : World setup v) (hm : Local setup v t m)
    (hpending : v.sql.pending t = some ws₀)
    (hkeys : ∀ w ∈ ws, w.key ∈ ks) (hfree : ∀ k ∈ ks, v.sql.Free t k)
    (hws : ∀ w ∈ ws, WritesAs setup v t w ∧ ActsAs v t) {c : Conn}
    (hconn : ConnHolds setup (v.sql.write engine t ws ks) t c) :
    Takes setup t v { v with sql := v.sql.write engine t ws ks } { m with conn := c } := by
  have hdb : (v.sql.write engine t ws ks).db = v.sql.db := by
    simp only [Transactions.write, hpending]
  refine takes_sql hw hm (Transactions.spares_write hkeys hfree) (hw.locked.write hkeys hfree)
    (.of_eq (by rw [hdb])) (Or.inr hdb) (hdb.symm ▸ hw.friends) (by rw [hdb])
      (fun k hk => by rw [hdb]; exact hk)
    rfl rfl (fun f hf => Or.inl hf) hconn fun w hw' => ?_
  rw [Transactions.uncommitted_write_of_some hpending, mem_append] at hw'
  refine hw'.imp (fun h => ?_) (hws w)
  rw [uncommitted, hpending]
  exact h

theorem view_write (hpending : v.sql.pending t = some ws₀) :
    (v.sql.write engine t ws ks).view engine t = engine.applyAll (v.sql.view engine t) ws := by
  have hdb : (v.sql.write engine t ws ks).db = v.sql.db := by
    simp only [Transactions.write, hpending]
  rw [view, view, Transactions.uncommitted_write_of_some hpending, hdb,
    engine.applyAll_append, uncommitted, hpending]
  rfl

theorem Held.write {msg : TextMessage} (h : Held setup v.sql t msg)
    (hpending : v.sql.pending t = some ws₀)
    (hws : ∀ w ∈ ws, WritesAs setup v t w ∧ ActsAs v t) :
    Held setup (v.sql.write engine t ws ks) t msg := by
  constructor
  · simp only [Transactions.write, hpending]
    split
    · rfl
    · exact h.1
  · rw [view_write hpending]
    exact h.2.evolves (Evolves.applyAll fun w hw => (hws w hw).1)

theorem MessagesOnly.write (h : MessagesOnly v.sql t) (hws : ∀ w ∈ ws, w.onMessages = true) :
    MessagesOnly (v.sql.write engine t ws ks) t := by
  obtain ⟨ws₀, hpending, hall⟩ := h
  refine ⟨ws₀ ++ ws, ?_, fun w hw => (mem_append.mp hw).elim (hall w) (hws w)⟩
  simp only [Transactions.write, hpending, update_self]

theorem MessagesOnly.of_opened (h : v.sql.pending t = some []) :
    MessagesOnly v.sql t := ⟨[], h, nofun⟩

end Transaction

theorem Local.fails (h : Local setup v t m) : Local setup v t { m with conn := .failing } :=
  { h with conn := trivial }

theorem known_view (h : v.sql.db.known uid = true) : (v.sql.view engine t).known uid = true :=
  (known_applyAll v.sql.db _ uid).trans h

section Outcomes

variable {q : Query}

theorem Query.perform_cases {fault : Fault} {s s' : Shared} {r : Option q.Value}
    (h : q.perform setup t fault s = some (r, s')) :
    (r = none ∧ s' = s) ∨ ∃ a ws ks, q.run setup s.now (s.sql.view engine t) = some (a, ws, ks) ∧
      (∀ k ∈ ks, s.sql.Free t k) ∧
      s' = { s.noteCheck t q with sql := s.sql.write engine t ws ks } ∧
      (r = some a ∨ r = none) := by
  unfold Query.perform at h
  cases hrun : q.run setup s.now (s.sql.view engine t) with
  | none =>
    rw [hrun] at h
    cases fault <;> cases h
    exact Or.inl ⟨rfl, rfl⟩
  | some result =>
    obtain ⟨a, ws, ks⟩ := result
    rw [hrun] at h
    cases fault with
    | refused =>
      cases h
      exact Or.inl ⟨rfl, rfl⟩
    | ok =>
      dsimp only at h
      split at h
      · rename_i hfree
        cases h
        exact Or.inr ⟨a, ws, ks, rfl, hfree, rfl, Or.inl rfl⟩
      · cases h
    | lost =>
      dsimp only at h
      split at h
      · rename_i hfree
        cases h
        exact Or.inr ⟨a, ws, ks, rfl, hfree, rfl, Or.inr rfl⟩
      · cases h

theorem takes_query {s s' : Shared} {fault : Fault} {r : Option q.Value} (hw : World setup s.vital)
    (hm : Local setup s.vital t m) (h : q.perform setup t fault s = some (r, s'))
    (hnote : s.noteCheck t q = s)
    (hteaches : ∀ r, q.teaches r = ∅) (hfails : ∀ c, q.moves c none = .failing) {ws₀ : List Write}
    (hpending : s.vital.sql.pending t = some ws₀)
    (hrun : ∀ a ws ks, q.run setup s.now (s.sql.view engine t) = some (a, ws, ks) → (∀ w ∈ ws,
      WritesAs setup s.vital t w ∧ ActsAs s.vital t) ∧
      ConnHolds setup (s.sql.write engine t ws ks) t (q.moves m.conn (some a))) :
    Takes setup t s.vital s'.vital ((DbCall.query q).next m r) := by
  have hnext : ∀ r, (DbCall.query q).next m r = { m with conn := q.moves m.conn r } := by
    intro r
    simp only [DbCall.next, Ghost.learn, hteaches, Set.union_empty]
  rw [hnext]
  rcases Query.perform_cases h with ⟨rfl, rfl⟩ | ⟨a, ws, ks, ha, hfree, rfl, rfl | rfl⟩
  · rw [hfails]
    exact hw.takes hm.fails
  · rw [hnote]
    obtain ⟨hws, hconn⟩ := hrun a ws ks ha
    exact takes_statement hw hm hpending (Query.run_keys setup ha) hfree hws hconn
  · rw [hnote, hfails]
    obtain ⟨hws, -⟩ := hrun a ws ks ha
    exact takes_statement hw hm hpending (Query.run_keys setup ha) hfree hws trivial

end Outcomes

variable {s s' : Shared} {fault : Fault} {a b : Uid}

theorem view_auto (h : s.sql.pending t = none) : s.sql.view engine t = s.sql.db := by
  simp [view, uncommitted, h]

theorem Local.auto (hm : Local setup v t m) (hconn : m.conn = .auto) : v.sql.pending t = none := by
  have := hm.conn
  rwa [hconn] at this

theorem takes_check (hw : World setup v) (hm : Local setup v t m) {sid : Sid}
    (ht : t = .session sid)
    (c : Uid × Uid × Bool) {F : Set Fact}
    (hF : ∀ f ∈ F, ∃ a b, f = .checked a b ∧ c = (a, b, true)) :
    Takes setup t v (v.setCore sid fun x => { x with checks := c :: x.checks }) (m.learn F) := by
  have hsame : SameCore v (v.setCore sid fun x => { x with checks := c :: x.checks }) :=
    sameCore_setCore fun _ => ⟨rfl, rfl, fun _ hc => mem_cons_of_mem _ hc⟩
  subst ht
  obtain ⟨x, hx⟩ := hm.session sid rfl
  have hself := Vital.setCore_self hx fun x => { x with checks := c :: x.checks }
  constructor
  · exact {
      Preserves.refl _ v with
      core := fun sid' y hne hy => (Vital.setCore_of_ne (fun h => hne (by rw [h])) _).trans hy
      bound := hsame.recore.forth }
  · exact hw.recore hsame.recore (fun _ h => h) (hsame.jobs hw)
  · refine ⟨hm.self, fun f hf => ?_, fun j hj => hsame.job (hm.job j hj), hm.conn, fun w hw =>
      hsame.writes (hm.writes w hw), hsame.session hm.session⟩
    rcases hf with hf | hf
    · have hholds := hm.facts f hf
      cases f with
      | ticket k y =>
        obtain ⟨sid', x', at_, ht, hx', hticket, hredeemed⟩ := hholds
        cases ht
        cases hx.symm.trans hx'
        exact ⟨sid, _, at_, rfl, hself, hticket, hredeemed⟩
      | _ => exact hsame.holds rfl rfl rfl hholds nofun
    · obtain ⟨a, b, rfl, rfl⟩ := hF f hf
      intro sid' hsid'
      cases hsid'
      exact ⟨_, hself, mem_cons_self⟩

section Calls

variable (hw : World setup s.vital) (hm : Local setup s.vital t m)

include hw hm

theorem takes_insertFriend {back : Bytes} {r : Option ℤ}
    (hallow : (Query.insertFriend a b back).Allow m)
    (h : (Query.insertFriend a b back).perform setup t fault s = some (r, s')) :
    Takes setup t s.vital s'.vital ((DbCall.query (.insertFriend a b back)).next m r) := by
  obtain ⟨hne, ha, hb, ⟨uid, hacts⟩, hconn⟩ := hallow
  have hknown : (s.sql.view engine t).known a ∧ (s.sql.view engine t).known b :=
    ⟨known_view (v := s.vital) (hm.facts _ ha), known_view (v := s.vital) (hm.facts _ hb)⟩
  have hstage := hm.conn
  have hwritten : ∀ ws ks, (∃ x, (Query.insertFriend a b back).run setup s.now
      (s.sql.view engine t) = some (x, ws, ks)) →
      ws = [.insertFriend a b (setup.storedBack back)] := by
    rintro ws ks ⟨x, hx⟩
    simp only [Query.run, if_pos hknown, Option.some.injEq, Prod.mk.injEq] at hx
    exact hx.2.1.symm
  have hws : ∀ w ∈ [Write.insertFriend a b (setup.storedBack back)],
      WritesAs setup s.vital t w ∧ ActsAs s.vital t := by
    rintro w hw'
    cases mem_singleton.mp hw'
    exact ⟨trivial, hm.actsAs hacts⟩
  rcases hconn with hconn | hconn
  · rw [hconn] at hstage
    refine takes_query hw hm h (by cases t <;> rfl) (fun r => by cases r <;> rfl)
      (fun _ => rfl) hstage
      fun x ws ks hx => ?_
    cases hwritten ws ks ⟨x, hx⟩
    refine ⟨hws, ?_⟩
    rw [hconn]
    refine ⟨hne, setup.storedBack back, ?_⟩
    simp only [Transactions.write, show s.sql.pending t = some [] from hstage, update_self,
      nil_append]
  · rw [hconn] at hstage
    obtain ⟨hne', x₀, hpending⟩ := hstage
    refine takes_query hw hm h (by cases t <;> rfl) (fun r => by cases r <;> rfl)
      (fun _ => rfl) hpending
      fun x ws ks hx => ?_
    cases hwritten ws ks ⟨x, hx⟩
    refine ⟨hws, ?_⟩
    rw [hconn]
    refine ⟨hne', x₀, setup.storedBack back, ?_⟩
    simp only [Transactions.write, show s.sql.pending t = _ from hpending, update_self]
    rfl

theorem takes_acceptApply {r : Option ℤ} (hallow : (Query.acceptApply a b).Allow m)
    (h : (Query.acceptApply a b).perform setup t fault s = some (r, s')) :
    Takes setup t s.vital s'.vital ((DbCall.query (.acceptApply a b)).next m r) := by
  obtain ⟨⟨uid, hacts⟩, hconn⟩ := hallow
  have hstage := hm.conn
  rw [hconn] at hstage
  obtain ⟨hne, x, y, hpending⟩ := hstage
  have hpending : s.sql.pending t = some [.insertFriend b a x, .insertFriend a b y] := hpending
  have happlies : (s.sql.view engine t).applies = s.sql.db.applies := by
    simp only [view, uncommitted, hpending]
    rfl
  refine takes_query hw hm h (by cases t <;> rfl) (fun r => by cases r <;> rfl)
    (fun _ => rfl) hpending
    fun n ws ks hn => ?_
  simp only [Query.run, happlies] at hn
  split at hn
  · rename_i hzero
    cases hn
    refine ⟨fun w hw' => ?_, hne, ?_, x, y, ?_⟩
    · cases mem_singleton.mp hw'
      exact ⟨trivial, hm.actsAs hacts⟩
    · simp only [Transactions.write, hpending, hzero, Option.isSome_some]
    · simp only [Transactions.write, hpending, update_self]
      rfl
  · cases hn
    exact ⟨by rintro _ ⟨⟩, trivial⟩

theorem takes_insertMessage {msg : TextMessage} {r : Option ℤ}
    (hallow : (Query.insertMessage msg).Allow m)
    (h : (Query.insertMessage msg).perform setup t fault s = some (r, s')) :
    Takes setup t s.vital s'.vital ((DbCall.query (.insertMessage msg)).next m r) := by
  obtain ⟨hconn, hmay⟩ := hallow
  have hstage := hm.conn
  -- the messages read back so far
  have honly : MessagesOnly s.vital.sql t ∧ ∀ m' ∈ m.conn.messages,
    Held setup s.vital.sql t m' := by
    rcases hconn with hconn | ⟨ms, hconn⟩
    · rw [hconn] at hstage ⊢
      exact ⟨.of_opened hstage, by rintro _ ⟨⟩⟩
    · rw [hconn] at hstage ⊢
      exact hstage
  obtain ⟨ws₀, hpending, -⟩ := honly.1
  refine takes_query hw hm h (by cases t <;> rfl) (fun r => by cases r <;> rfl)
    (fun _ => rfl) hpending
    fun n ws ks hn => ?_
  have hws : (∀ w ∈ ws, WritesAs setup s.vital t w ∧ ActsAs s.vital t) ∧ ∀ w ∈ ws,
    w.onMessages = true := by
    simp only [Query.run] at hn
    split at hn
    · split at hn
      · cases hn
        constructor
        · intro w hw'
          cases mem_singleton.mp hw'
          exact ⟨⟨rfl, rfl, hm.insertsAs hmay⟩, hm.actsAs hmay.choose_spec.2.2.1⟩
        · intro w hw'
          cases mem_singleton.mp hw'
          rfl
      · cases hn
        exact ⟨by rintro _ ⟨⟩, by rintro _ ⟨⟩⟩
    · cases hn
  exact ⟨hws.1, honly.1.write hws.2, fun m' hm' => (honly.2 m' hm').write hpending hws.1⟩

theorem takes_verifyMessage {r : Option (Option (Uid × Bytes))}
    (hallow : (Query.verifyMessage sender id).Allow m)
    (h : (Query.verifyMessage sender id).perform setup t fault s = some (r, s')) :
    Takes setup t s.vital s'.vital ((DbCall.query (.verifyMessage sender id)).next m r) := by
  obtain ⟨ms, msg, hconn, rfl, rfl⟩ := hallow
  have hstage := hm.conn
  rw [hconn] at hstage
  obtain ⟨honly, hheld⟩ := hstage
  obtain ⟨ws₀, hpending, -⟩ := show MessagesOnly s.vital.sql t from honly
  refine takes_query hw hm h (by cases t <;> rfl) (fun r => by cases r <;> rfl)
    (fun _ => rfl) hpending
    fun row ws ks hrow => ?_
  simp only [Query.run, Option.some.injEq, Prod.mk.injEq] at hrow
  obtain ⟨rfl, rfl, rfl⟩ := hrow
  refine ⟨by rintro _ ⟨⟩, ?_⟩
  rw [hconn]
  simp only [Query.moves]
  split
  · rename_i hmatch
    refine ⟨honly.write (by rintro _ ⟨⟩), fun m' hm' => ?_⟩
    rcases mem_append.mp hm' with hm' | hm'
    · exact (hheld m' hm').write hpending (by rintro _ ⟨⟩)
    · -- the message that was just read back, under its lock
      cases mem_singleton.mp hm'
      obtain ⟨row, hget, hfields⟩ := Option.map_eq_some_iff.mp hmatch
      constructor
      · simp only [Transactions.write, show s.sql.pending t = _ from hpending, mem_singleton,
          if_true]
      · have hview : (s.sql.write engine t [] [.message
            (messageKey setup msg.sender_uid msg.client_message_id)]).view engine t =
            s.sql.view engine t := view_write (v := s.vital) hpending
        rw [hview]
        exact ⟨row, hget, congrArg Prod.fst hfields, congrArg Prod.snd hfields⟩
  · trivial

theorem takes_acknowledge {receiver : Uid} {r : Option ℤ}
    (hallow : (Query.acknowledge receiver sender id).Allow m)
    (h : (Query.acknowledge receiver sender id).perform setup t fault s = some (r, s')) :
    Takes setup t s.vital s'.vital ((DbCall.query (.acknowledge receiver sender id)).next m r) := by
  obtain ⟨hconn, hmay⟩ := hallow
  have hstage := hm.conn
  have honly : MessagesOnly s.vital.sql t := by
    rcases hconn with hconn | hconn
    · rw [hconn] at hstage
      exact .of_opened hstage
    · rw [hconn] at hstage
      exact hstage
  obtain ⟨ws₀, hpending, -⟩ := show MessagesOnly s.vital.sql t from honly
  refine takes_query hw hm h (by cases t <;> rfl) (fun r => by cases r <;> rfl)
    (fun _ => rfl) hpending
    fun n ws ks hn => ?_
  have hws : (∀ w ∈ ws, WritesAs setup s.vital t w ∧ ActsAs s.vital t) ∧ ∀ w ∈ ws,
    w.onMessages = true := by
    simp only [Query.run] at hn
    split at hn
    · cases hn
      constructor
      · intro w hw'
        cases mem_singleton.mp hw'
        exact hm.acknowledgesAs hmay
      · intro w hw'
        cases mem_singleton.mp hw'
        rfl
    · cases hn
      exact ⟨by rintro _ ⟨⟩, by rintro _ ⟨⟩⟩
  exact ⟨hws.1, honly.write hws.2⟩

/-! ## Statements outside transactions -/

theorem takes_read {q : Query} {r : Option q.Value}
    (hconn : m.conn = .auto) (h : q.perform setup t fault s = some (r, s'))
    (hnote : s.noteCheck t q = s)
    (hmoves : ∀ r, q.moves .auto r = .auto) (hnone : q.teaches none = ∅)
    (hrun : ∃ a, q.run setup s.now s.sql.db = some (a, [], []) ∧ ∀ f ∈ q.teaches (some a),
      Holds setup s.vital t f) :
    Takes setup t s.vital s'.vital ((DbCall.query q).next m r) := by
  have hauto : s.sql.pending t = none := hm.auto hconn
  have hnext : ∀ r, (DbCall.query q).next m r = m.learn (q.teaches r) := by
    intro r
    simp only [DbCall.next, hconn, hmoves]
    rw [← hconn]
    rfl
  rw [hnext]
  have hempty : m.learn ∅ = m := by simp only [Ghost.learn, Set.union_empty]
  rcases Query.perform_cases h with ⟨rfl, rfl⟩ | ⟨a, ws, ks, ha, -, rfl, hr⟩
  · rw [hnone, hempty]
    exact hw.takes hm
  · rw [view_auto hauto] at ha
    obtain ⟨a', hrun, hfacts⟩ := hrun
    cases hrun.symm.trans ha
    rw [hnote, Transactions.write_nil hauto]
    rcases hr with rfl | rfl
    · exact hw.takes (hm.learns hfacts)
    · rw [hnone, hempty]
      exact hw.takes hm

theorem takes_countFriends {r : Option ℕ}
    (hconn : m.conn = .auto) (h : (Query.countFriends a b).perform setup t fault s = some (r, s')) :
    Takes setup t s.vital s'.vital ((DbCall.query (.countFriends a b)).next m r) := by
  have hauto : s.sql.pending t = none := hm.auto hconn
  have hnext : (DbCall.query (.countFriends a b)).next m r =
    m.learn ((Query.countFriends a b).teaches r) := by
    cases r <;> rfl
  rw [hnext]
  rcases Query.perform_cases h with ⟨rfl, rfl⟩ | ⟨n, ws, ks, hn, -, rfl, hr⟩
  · exact hw.takes (hm.learns (by rintro _ ⟨⟩))
  · rw [view_auto hauto] at hn
    simp only [Query.run, Option.some.injEq, Prod.mk.injEq] at hn
    obtain ⟨rfl, rfl, rfl⟩ := hn
    rw [Transactions.write_nil hauto]
    have hteaches : ∀ f ∈ (Query.countFriends a b).teaches r, f = .checked a b ∧
      s.sql.db.mutual a b = true := by
      rcases hr with rfl | rfl
      · rintro f ⟨htwo, rfl⟩
        exact ⟨rfl, mutual_of_friendCount htwo⟩
      · rintro _ ⟨⟩
    cases t with
    | session sid =>
      have hvital : ({ s.noteCheck (.session sid) (.countFriends a b) with sql := s.sql } :
          Shared).vital = s.vital.setCore sid fun x =>
            { x with checks := (a, b, s.sql.db.mutual a b) :: x.checks } :=
        s.vital_update sid fun _ => rfl
      rw [hvital]
      refine takes_check hw hm rfl _ fun f hf => ⟨a, b, (hteaches f hf).1, ?_⟩
      rw [(hteaches f hf).2]
    | server name n | status n =>
      refine hw.takes (hm.learns fun f hf => ?_)
      rw [(hteaches f hf).1]
      rintro _ ⟨⟩

theorem takes_insertApply {r : Option ℤ} (hallow : (Query.insertApply a b).Allow m)
    (h : (Query.insertApply a b).perform setup t fault s = some (r, s')) :
    Takes setup t s.vital s'.vital ((DbCall.query (.insertApply a b)).next m r) := by
  obtain ⟨hconn, hacts⟩ := hallow
  have hauto : s.sql.pending t = none := hm.auto hconn
  have hnext : (DbCall.query (.insertApply a b)).next m r = m := by
    cases r <;> simp [DbCall.next, Ghost.learn, Query.teaches, Query.moves]
  rw [hnext]
  rcases Query.perform_cases h with ⟨rfl, rfl⟩ | ⟨n, ws, ks, hn, hfree, rfl, -⟩
  · exact hw.takes hm
  · have hkeys := Query.run_keys setup hn
    have hws : ws = [.insertApply a b] := by
      obtain ⟨-, hn⟩ := Option.ite_none_right_eq_some.mp hn
      cases hn
      rfl
    subst hws
    have hdb : (s.sql.write engine t [.insertApply a b] ks).db =
      (Write.insertApply a b).apply s.sql.db := by
      simp only [Transactions.write, hauto]
      rfl
    have hpending : (s.sql.write engine t [.insertApply a b] ks).pending = s.sql.pending := by
      simp only [Transactions.write, hauto]
    have hnote : s.noteCheck t (.insertApply a b) = s := by cases t <;> rfl
    rw [hnote]
    refine takes_sql hw hm (Transactions.spares_write hkeys hfree) (hw.locked.write hkeys hfree)
      (.of_eq (by rw [hdb]; rfl)) (Or.inl (hm.actsAs hacts)) (hdb ▸ hw.friends.insertApply a b)
        (by rw [hdb]; rfl)
      (fun k hk => ?_) rfl rfl (fun f hf => Or.inl hf) ?_ fun w hw' => Or.inl ?_
    · rw [hdb]
      exact applies_applyAll hk [.insertApply a b]
    · rw [hconn]
      exact (congrFun hpending t).trans hauto
    · rw [uncommitted, hpending] at hw'
      exact hw'

end Calls

/-! ## Calls of the connection -/

theorem takes_finish (hw : World setup v) (hm : Local setup v t m) {mode : Option (List Write)}
    (hmode : mode.getD [] = []) {c : Conn}
    (hconn : ConnHolds setup (v.sql.finish t v.sql.db mode) t c) :
    Takes setup t v { v with sql := v.sql.finish t v.sql.db mode } { m with conn := c } := by
  refine takes_sql hw hm (Transactions.spares_finish fun _ _ _ _ => rfl) (hw.locked.finish _ hmode)
    (.of_eq rfl) (Or.inr rfl) hw.friends rfl (fun _ h => h) rfl rfl (fun f hf => Or.inl hf) hconn
      fun w hw' => ?_
  rw [uncommitted_finish, hmode] at hw'
  cases hw'

theorem FriendsOk.committed (hw : World setup v) (hm : Local setup v t m)
    (hcommit : m.conn.Committable) : FriendsOk (v.sql.view engine t) := by
  have hstage := hm.conn
  have hview : ∀ ws, v.sql.pending t = some ws →
    v.sql.view engine t = engine.applyAll v.sql.db ws := by
    intro ws hws
    simp only [view, uncommitted, hws, Option.getD_some]
  cases hc : m.conn with
  | opened =>
    rw [hc] at hstage
    rw [hview [] hstage]
    exact hw.friends
  | accepted a b =>
    rw [hc] at hstage
    obtain ⟨hne, happly, x, y, hpending⟩ := hstage
    rw [hview _ hpending]
    exact hw.friends.accept hne happly x y
  | verified ms =>
    rw [hc] at hstage
    obtain ⟨⟨ws, hpending, hall⟩, -⟩ := hstage
    rw [hview _ hpending]
    exact hw.friends.applyAll hall
  | acknowledged =>
    rw [hc] at hstage
    obtain ⟨ws, hpending, hall⟩ := hstage
    rw [hview _ hpending]
    exact hw.friends.applyAll hall
  | _ =>
    rw [hc] at hcommit
    exact hcommit.elim

theorem Local.committable (hm : Local setup v t m) (hcommit : m.conn.Committable) :
    (∃ ws, v.sql.pending t = some ws) ∧ ∀ msg ∈ m.conn.messages, Stored setup
    (v.sql.view engine t) msg := by
  have hstage := hm.conn
  cases hc : m.conn with
  | opened =>
    rw [hc] at hstage
    exact ⟨⟨_, hstage⟩, nofun⟩
  | accepted a b =>
    rw [hc] at hstage
    obtain ⟨-, -, x, y, hpending⟩ := hstage
    exact ⟨⟨_, hpending⟩, nofun⟩
  | verified ms =>
    rw [hc] at hstage
    obtain ⟨⟨ws, hpending, -⟩, hheld⟩ := hstage
    exact ⟨⟨ws, hpending⟩, fun msg hmsg => (hheld msg hmsg).2⟩
  | acknowledged =>
    rw [hc] at hstage
    obtain ⟨ws, hpending, -⟩ := hstage
    exact ⟨⟨ws, hpending⟩, nofun⟩
  | _ =>
    rw [hc] at hcommit
    exact hcommit.elim

theorem takes_commit (hw : World setup v) (hm : Local setup v t m) (hcommit : m.conn.Committable)
    (hself : m'.self = m.self) (hjob : m'.job = m.job)
    (hfacts : ∀ f ∈ m'.know, f ∈ m.know ∨ ∃ msg ∈ m.conn.messages, f = .stored msg)
    (hconn : m'.conn = .opened ∨ m'.conn = .failing) :
    Takes setup t v { v with sql := v.sql.commit engine t } m' := by
  obtain ⟨⟨ws, hpending⟩, hstored⟩ := hm.committable hcommit
  have hevolves : Evolves setup (InsertsAs v t) (AcknowledgesAs setup v t) v.sql.db
      (v.sql.view engine t) := Evolves.applyAll fun w hw' => (hm.writes w hw').1
  have htables : ActsAs v t ∨ v.sql.view engine t = v.sql.db := by
    cases hws : v.sql.uncommitted t with
    | nil => exact Or.inr (by rw [view, hws, Engine.applyAll_nil])
    | cons w ws => exact Or.inl (hm.writes w (hws ▸ mem_cons_self)).2
  refine takes_sql hw hm hw.locked.spares_commit hw.locked.commit hevolves htables
    (FriendsOk.committed hw hm hcommit) (users_applyAll _ _) (fun k hk => applies_applyAll hk _)
    hself hjob (fun f hf => ?_) ?_ fun w hw' => ?_
  · rcases hfacts f hf with hold | ⟨msg, hmsg, rfl⟩
    · exact Or.inl hold
    · exact Or.inr (hstored msg hmsg)
  · rcases hconn with hconn | hconn
    · rw [hconn]
      simp only [ConnHolds, Transactions.commit, Transactions.finish, Transactions.mode, hpending,
        update_self, Option.map_some]
    · rw [hconn]
      trivial
  · rw [Transactions.commit, uncommitted_finish, mode_getD] at hw'
    cases hw'

theorem takes_orLost {s₁ : Shared} {n : Option Unit → Ghost} {r : Option Unit}
    (h : some (orLost fault () s s₁) = some (r, s'))
    (hrefused : Takes setup t s.vital s.vital (n none))
    (hdone : ∀ r, Takes setup t s.vital s₁.vital (n r)) : Takes setup t s.vital s'.vital (n r) := by
  cases fault with
  | ok | lost =>
    cases h
    exact hdone _
  | refused =>
    cases h
    exact hrefused

theorem Local.over (hm : Local setup v t m) (h : v.sql.uncommitted t = []) :
    Local setup v t { m with conn := .over } :=
  { hm with conn := h }

section

variable (hw : World setup s.vital) (hm : Local setup s.vital t m)

include hw hm

theorem takes_setAutoCommit {on : Bool} (hallow : (DbCall.setAutoCommit on).Allow m)
    {r : Option Unit}
    (h : some (orLost fault () s { s with sql := s.sql.setAutoCommit engine t on }) =
      some (r, s')) :
    Takes setup t s.vital s'.vital ((DbCall.setAutoCommit on).next m r) := by
  have hstage := hm.conn
  cases on with
  | true =>
    have hempty : s.sql.uncommitted t = [] := by
      rcases hallow with hconn | hconn
      · rw [hconn] at hstage
        simp only [uncommitted, show s.sql.pending t = some [] from hstage, Option.getD_some]
      · rw [hconn] at hstage
        exact hstage
    have hsql : s.sql.setAutoCommit engine t true = s.sql.finish t s.sql.db none := by
      simp only [Transactions.setAutoCommit, if_true, view, hempty, Engine.applyAll_nil]
    refine takes_orLost h (hw.takes (hm.over hempty)) fun r => ?_
    rw [hsql]
    cases r with
    | none =>
      exact takes_finish (v := s.vital) hw hm rfl (uncommitted_finish ..)
    | some _ =>
      refine takes_finish (v := s.vital) hw hm rfl ?_
      exact update_self ..
  | false =>
    rw [show m.conn = .auto from hallow] at hstage
    have hempty : s.sql.uncommitted t = [] := by
      simp only [uncommitted, show s.sql.pending t = none from hstage, Option.getD_none]
    have hpending : (s.sql.setAutoCommit engine t false).pending t = some [] := by
      simp [Transactions.setAutoCommit, hempty]
    have hempty' : (s.sql.setAutoCommit engine t false).uncommitted t = [] := by
      simp only [uncommitted, hpending, Option.getD_some]
    have htakes : ∀ c, ConnHolds setup (s.sql.setAutoCommit engine t false) t c →
      Takes setup t s.vital
          { s.vital with sql := s.sql.setAutoCommit engine t false } { m with conn := c } := by
      intro c hc
      refine takes_sql hw hm (hw.locked.spares_setAutoCommit false) (hw.locked.setAutoCommit false)
        (.of_eq rfl) (Or.inr rfl) hw.friends rfl (fun _ h => h) rfl rfl (fun f hf => Or.inl hf) hc
          fun w hw' => ?_
      rw [hempty'] at hw'
      cases hw'
    refine takes_orLost h (hw.takes (hm.over hempty)) fun r => ?_
    cases r with
    | none => exact htakes .over hempty'
    | some _ => exact htakes .opened hpending

theorem takes_query_call {q : Query} {r : Option q.Value} (hallow : q.Allow m)
    (h : q.perform setup t fault s = some (r, s')) :
    Takes setup t s.vital s'.vital ((DbCall.query q).next m r) := by
  cases q with
  | selectUser uid =>
    refine takes_read hw hm hallow h (by cases t <;> rfl) (fun r => by cases r <;> rfl) rfl
      ⟨_, rfl, fun f hf => ?_⟩
    cases huser : s.sql.db.users.get uid with
    | none =>
      rw [huser] at hf
      cases hf
    | some user =>
      rw [huser] at hf
      have hknown : s.sql.db.known uid = true := by simp [Db.known, huser]
      rcases hf with rfl | rfl <;> exact hknown
  | selectUserByName name =>
    refine takes_read hw hm hallow h (by cases t <;> rfl) (fun r => by cases r <;> rfl) rfl
      ⟨_, rfl, fun f hf => ?_⟩
    cases hrow : s.sql.db.users.rows.find? fun r =>
        decide (setup.collationKey r.2.name = setup.collationKey name) with
    | none =>
      rw [hrow] at hf
      cases hf
    | some row =>
      rw [hrow] at hf
      cases hf
      have hget := Table.get_eq_some.mpr (mem_of_find?_eq_some hrow)
      simp only [Holds, Db.known, show s.vital.sql.db = s.sql.db from rfl, hget, Option.isSome_some]
  | selectApplyList touid limit | selectFriends self_id | selectPendingApply a b =>
    exact takes_read hw hm hallow h (by cases t <;> rfl) (fun r => by cases r <;> rfl) rfl
      ⟨_, rfl, by rintro _ ⟨⟩⟩
  | countFriends a b => exact takes_countFriends hw hm hallow h
  | insertApply a b => exact takes_insertApply hw hm hallow h
  | insertFriend a b back => exact takes_insertFriend hw hm hallow h
  | acceptApply a b => exact takes_acceptApply hw hm hallow h
  | insertMessage msg => exact takes_insertMessage hw hm hallow h
  | verifyMessage sender id => exact takes_verifyMessage hw hm hallow h
  | selectPendingMessages receiver limit =>
    refine takes_read hw hm hallow h (by cases t <;> rfl) (fun r => by cases r <;> rfl) rfl
      ⟨_, rfl, ?_⟩
    rintro f ⟨msg, hmsg, rfl⟩
    obtain ⟨⟨key, row⟩, hrow, rfl⟩ := mem_map.mp (mem_of_mem_take hmsg)
    have hget := Table.get_eq_some.mpr (mem_filter.mp hrow).1
    -- the row of a message stands under its own key
    obtain ⟨hplace, -⟩ := hw.messages key row hget
    exact ⟨row, hplace ▸ hget, rfl, rfl⟩
  | acknowledge receiver sender id => exact takes_acknowledge hw hm hallow h

/-- **The effects of a connection.** -/
theorem takes_db {c : DbCall} {p : Pick} {r : c.Answer} (hallow : c.Allow m)
    (h : c.perform setup t p s = some (r, s')) : Takes setup t s.vital s'.vital (c.next m r) := by
  cases c with
  | getConnection =>
    cases h
    exact hw.takes hm
  | returnConnection =>
    cases h
    exact takes_finish (v := s.vital) hw hm rfl (update_self ..)
  | setAutoCommit on => exact takes_setAutoCommit hw hm hallow h
  | commit =>
    refine takes_orLost h (hw.takes hm.fails) fun r => ?_
    cases r with
    | none => exact takes_commit hw hm hallow rfl rfl (fun f hf => Or.inl hf) (Or.inr rfl)
    | some _ => exact takes_commit hw hm hallow rfl rfl (fun f hf => hf) (Or.inl rfl)
  | rollback =>
    refine takes_orLost h (hw.takes hm.fails) fun r => ?_
    cases r with
    | none => exact takes_finish (v := s.vital) hw hm mode_getD trivial
    | some _ =>
      refine takes_finish (v := s.vital) hw hm mode_getD ?_
      exact (uncommitted_finish ..).trans mode_getD
  | query q => exact takes_query_call hw hm hallow h

end

end DistributedChat.Chat
