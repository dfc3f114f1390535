import DistributedChat.Chat.Statements

/-!
# The invariant holds in every run

Sessions, executors and peers, the environment, starts, ends and crashes. With the effects on Redis
and the database this makes the invariant inductive.
-/

namespace DistributedChat.Chat

open Lib Function List
open StatusServiceImpl (ticket)

variable {setup : Setup} {t : Worker} {v v' : Vital} {m : Ghost}

/-! ## Sessions -/

theorem Local.closing (hm : Local setup v t m) (c : Option (Sid × Clearing)) :
    Local setup v t { m with closing := c } := { hm with }

def Vital.addCore (v : Vital) (sid : Sid) : Vital :=
  { v with core := update v.core sid (some ⟨0, none, [], none⟩) }

theorem Vital.addCore_self (v : Vital) (sid : Sid) :
    (v.addCore sid).core sid = some ⟨0, none, [], none⟩ := update_self ..

variable {sid : Sid}

theorem Vital.addCore_of_ne (v : Vital) {sid' : Sid} (h : sid' ≠ sid) :
    (v.addCore sid).core sid' = v.core sid' := update_of_ne h ..

theorem takes_addCore (hw : World setup v) (hm : Local setup v t m) (hnew : v.core sid = none) :
    Takes setup t v (v.addCore sid) m := by
  have hkept : ∀ sid' x, v.core sid' = some x → (v.addCore sid).core sid' = some x := by
    intro sid' x hx
    have hne : sid' ≠ sid := by
      rintro rfl
      rw [hnew] at hx
      cases hx
    exact (v.addCore_of_ne hne).trans hx
  have hcases : ∀ sid' x, (v.addCore sid).core sid' = some x → x.uid = 0 ∧ x.job = none ∨
      v.core sid' = some x := by
    intro sid' x hx
    by_cases h : sid' = sid
    · subst h
      rw [v.addCore_self] at hx
      cases hx
      exact Or.inl ⟨rfl, rfl⟩
    · rw [v.addCore_of_ne h] at hx
      exact Or.inr hx
  have hp : Preserves setup t v (v.addCore sid) := {
    Preserves.refl t v with
    core := fun sid' x _ hx => hkept sid' x hx
    bound := fun sid' x hx _ => ⟨x, hkept sid' x hx, rfl⟩ }
  refine ⟨hp, ?_, Unharmed.program ?_ hm⟩
  · refine hw.recore ⟨hp.bound, fun sid' x hx => ?_⟩ (fun _ h => h) fun sid' x f hx hjob => ?_
    · exact (hcases sid' x hx).imp And.left fun hx => ⟨x, hx, rfl⟩
    · rcases hcases sid' x hx with ⟨-, hnone⟩ | hx
      · rw [hnone] at hjob
        cases hjob
      · exact hw.handled sid' x f hx hjob
  · exact {
      hp with
      stored := fun _ h => h
      core := fun sid' x _ hx => hkept sid' x hx
      fresh := fun _ _ h => h
      pending := rfl
      held := fun _ hk => ⟨hk, rfl⟩ }

theorem eq_of_validTicket {uid uid' : Uid} {server server' : ServerName}
    (h : validTicket (.json (ticket uid' server')) uid server = true) :
    uid' = uid ∧ server' = server := by
  have huid : (ticket uid' server').get "uid" = .int uid' := by
    simp +decide only [ticket, Json.setAll, foldl_cons, foldl_nil,
      Json.get_set, if_true, if_false]
  have hserver : (ticket uid' server').get "server" = .str server' := by
    simp +decide only [ticket, Json.setAll, foldl_cons, foldl_nil, Json.get_set, if_true]
  have hobject : object (RedisValue.json (ticket uid' server')).parse =
      some (ticket uid' server') := rfl
  simp only [validTicket, hobject, huid, hserver, Bool.and_eq_true, beq_iff_eq, Json.int?,
    Json.whole?, Option.filter_eq_some_iff, Option.some.injEq, Json.str?] at h
  exact ⟨h.1.1, h.2⟩

/-- The state after a login has set the user of its session. -/
def Vital.bind (v : Vital) (sid : Sid) (uid : Uid) (token : Bytes) (at_ : ℕ) : Vital :=
  { v.setCore sid (fun x => { x with uid := uid }) with auths := ⟨sid, uid, token, at_⟩ :: v.auths }

theorem takes_setUserId (hw : World setup v) (hm : Local setup v (.session sid) m) {uid : Uid}
    (hallow : (SessionCall.setUserId sid uid).Allow m) {x : Core} (hx : v.core sid = some x) :
    Takes setup (.session sid) v
    (v.bind sid uid (x.ticket.getD ([], 0)).1 (x.ticket.getD ([], 0)).2)
      { m with know := {f | f ∈ m.know ∧ f ≠ .unbound sid} ∪ {.bound sid uid} } := by
  obtain ⟨-, hunbound, hknown, hrange, token, value, hticket, hvalid⟩ := hallow
  obtain ⟨-, x₀, hx₀, hle⟩ := hm.facts _ hunbound
  cases hx.symm.trans hx₀
  obtain ⟨sid₀, x₁, at_, hsid, hx₁, hxticket, hredeemed⟩ := hm.facts _ hticket
  cases hsid
  cases hx.symm.trans hx₁
  rw [hxticket, Option.getD_some]
  have hself := Vital.setCore_self hx fun x => { x with uid := uid }
  have hother : ∀ sid' ≠ sid, (v.bind sid uid token at_).core sid' = v.core sid' :=
    fun sid' h => Vital.setCore_of_ne h _
  -- a session with a user is another one
  have hbound : ∀ sid' y, v.core sid' = some y → 0 < y.uid →
    (v.bind sid uid token at_).core sid' = some y := by
    intro sid' y hy hpos
    have hne : sid' ≠ sid := by
      rintro rfl
      cases hx.symm.trans hy
      exact absurd hpos (not_lt.mpr hle)
    exact (hother sid' hne).trans hy
  have hvalue : value = .json (ticket uid sid.server) := by
    obtain ⟨-, i, hi, -, hivalue, -⟩ := hredeemed
    obtain ⟨-, uid', server', hmade⟩ := hw.tickets.made i hi
    rw [hivalue] at hmade
    rw [hmade] at hvalid ⊢
    obtain ⟨rfl, rfl⟩ := eq_of_validTicket hvalid
    rfl
  constructor
  · exact {
      Preserves.refl _ v with
      core := fun sid' y hne hy => (hother sid' fun h => hne (by rw [h])).trans hy
      bound := fun sid' y hy hpos => ⟨y, hbound sid' y hy hpos, rfl⟩ }
  · exact {
      hw with
      handled := fun sid' y f hy hjob => by
        by_cases h : sid' = sid
        · subst h
          cases hself.symm.trans hy
          exact hw.handled sid' x f hx hjob
        · exact hw.handled sid' y f ((hother sid' h).symm.trans hy) hjob
      users := fun sid' y hy => by
        by_cases h : sid' = sid
        · subst h
          cases hself.symm.trans hy
          exact ⟨hrange.2, fun _ => hm.facts _ hknown⟩
        · exact hw.users sid' y ((hother sid' h).symm.trans hy)
      tickets := {
        hw.tickets with
        sessions := by
          refine nodup_cons.mpr ⟨fun hmem => ?_, hw.tickets.sessions⟩
          obtain ⟨a, ha, hsession⟩ := mem_map.mp hmem
          obtain ⟨hpos, -, y, hy, huid⟩ := hw.tickets.auth a ha
          rw [hsession] at hy
          cases hx.symm.trans hy
          rw [huid] at hle
          exact absurd hpos (not_lt.mpr hle)
        auth := fun a ha => by
          rcases mem_cons.mp ha with rfl | ha
          · exact ⟨hrange.1, hvalue ▸ hredeemed, _, hself, rfl⟩
          · obtain ⟨hpos, hredeemed', y, hy, huid⟩ := hw.tickets.auth a ha
            exact ⟨hpos, hredeemed', y, hbound _ y hy (huid ▸ hpos), huid⟩
        bound := fun sid' y hy hpos => by
          by_cases h : sid' = sid
          · exact ⟨_, mem_cons_self, h.symm⟩
          · obtain ⟨a, ha, hsession⟩ := hw.tickets.bound sid' y ((hother sid' h).symm.trans hy) hpos
            exact ⟨a, mem_cons_of_mem _ ha, hsession⟩ }
      acked := fun key row hrow hack => by
        obtain ⟨sid', f, sender, id, hf, ⟨y, hy, huid⟩, hpos, hrest⟩ := hw.acked key row hrow hack
        exact ⟨sid', f, sender, id, hf, ⟨y, hbound sid' y hy (huid ▸ hpos), huid⟩, hpos, hrest⟩ }
  · refine ⟨hm.self, fun f hf => ?_, fun j hj => ?_, hm.conn, fun w hw' => ?_, fun sid' h => ?_⟩
    · rcases hf with ⟨hf, hne⟩ | rfl
      · have hholds := hm.facts f hf
        cases f with
        | bound sid' uid' =>
          obtain ⟨hpos, y, hy, huid⟩ := hholds
          exact ⟨hpos, y, hbound sid' y hy (huid ▸ hpos), huid⟩
        | unbound sid' =>
          obtain ⟨hsid', -⟩ := hholds
          cases hsid'
          exact absurd rfl hne
        | ticket k y =>
          obtain ⟨sid', x', at', hsid', hx', hticket', hredeemed'⟩ := hholds
          cases hsid'
          cases hx.symm.trans hx'
          exact ⟨sid, _, at', rfl, hself, hticket', hredeemed'⟩
        | checked a b =>
          intro sid' hsid'
          obtain ⟨y, hy, hmem⟩ := hholds sid' hsid'
          cases hsid'
          cases hx.symm.trans hy
          exact ⟨_, hself, hmem⟩
        | _ => exact hholds
      · exact ⟨hrange.1, _, hself, rfl⟩
    · obtain ⟨sid', y, hsid', hy, hjob⟩ := hm.job j hj
      cases hsid'
      cases hx.symm.trans hy
      exact ⟨sid, _, rfl, hself, hjob⟩
    · -- a transaction needs a user, so there is none yet
      obtain ⟨-, sid', y, hsid', hy, hpos⟩ := hm.writes w hw'
      cases hsid'
      cases hx.symm.trans hy
      exact absurd hpos (not_lt.mpr hle)
    · cases h
      exact ⟨_, hself⟩

variable {s s' : Shared}

section

variable (hw : World setup s.vital) (hm : Local setup s.vital t m)

include hw hm

theorem takes_onSession {α : Type} {read : Session → α} {f : Session → Session} {a : α}
    (h : s.onSession sid read f = some (a, s')) (hf : ∀ x, (f x).core = x.core) :
    Takes setup t s.vital s'.vital m := by
  obtain ⟨x, -, -, rfl⟩ := Shared.onSession_eq_some h
  rw [s.vital_update_same sid hf]
  exact hw.takes hm

theorem takes_push {f : OutFrame} (hallow : f.Sound fun msg => Fact.stored msg ∈ m.know) :
    Takes setup t s.vital
      (s.record fun h => { h with pushed := (sid, f) :: h.pushed }).vital m := by
  refine ⟨{ Preserves.refl t s.vital with }, ?_, { hm with }⟩
  refine { hw with tickets := { hw.tickets with }, pushed := fun p hp' => ?_ }
  rcases mem_cons.mp hp' with rfl | hp'
  · exact hallow.mono fun msg hmsg => hm.facts _ hmsg
  · exact hw.pushed p hp'

/-- **The effects on sessions.** -/
theorem takes_session {c : SessionCall} {p : Pick} {r : c.Answer} (hallow : c.Allow m)
    (h : c.perform p s = some (r, s')) :
    c.Expect m r ∧ Takes setup t s.vital s'.vital (c.next m r) := by
  have hsame : Takes setup t s.vital s.vital m := hw.takes hm
  cases c with
  | newSession server =>
    obtain ⟨hnone, h⟩ := Option.ite_none_right_eq_some.mp h
    cases h
    refine ⟨trivial, ?_⟩
    have hcore : s.vital.core ⟨server, p.id⟩ = none := by
      simp only [Shared.vital, hnone, Option.map_none]
    have hvital : ({ s with sessions := s.sessions.insert ⟨server, p.id⟩ {} } : Shared).vital =
        s.vital.addCore ⟨server, p.id⟩ := by
      simp only [Shared.vital, Vital.addCore, Vital.mk.injEq, true_and, and_true]
      funext sid
      rw [Table.get_insert hnone]
      by_cases heq : sid = ⟨server, p.id⟩
      · rw [if_pos heq, heq, update_self]
        rfl
      · rw [if_neg heq, update_of_ne heq]
    rw [hvital]
    exact takes_addCore hw hm hcore
  | insertSession sid =>
    simp only [SessionCall.perform] at h
    split at h
    · exact ⟨trivial, takes_onSession hw hm h fun _ => rfl⟩
    · cases h
      exact ⟨trivial, hsame⟩
  | sessionCount server | getSession server uid | setUserSession uid sid =>
    cases h
    exact ⟨trivial, hsame⟩
  | isClosed sid => exact ⟨trivial, takes_onSession hw hm h fun _ => rfl⟩
  | getUserId sid =>
    obtain ⟨x, hx, rfl, rfl⟩ := Shared.onSession_eq_some h
    have hcore : s.vital.core sid = some x.core := by simp only [Shared.vital, hx, Option.map_some]
    refine ⟨⟨(hw.users sid x.core hcore).1, fun uid huid => ?_⟩, ?_⟩
    · obtain ⟨-, y, hy, rfl⟩ := hm.facts _ huid
      cases hcore.symm.trans hy
      rfl
    · rw [s.vital_update_same sid fun _ => rfl]
      refine hw.takes (hm.learns ?_)
      rintro f (⟨hpos, rfl | rfl⟩ | ⟨hle, hself, rfl⟩)
      · exact ⟨hpos, x.core, hcore, rfl⟩
      · exact (hw.users sid x.core hcore).2 hpos
      · exact ⟨hm.self.symm.trans hself, x.core, hcore, hle⟩
  | setUserId sid uid =>
    obtain rfl : t = .session sid := hm.self.symm.trans hallow.1
    simp only [SessionCall.perform] at h
    cases hx : s.sessions.get sid with
    | none =>
      rw [hx] at h
      cases h
    | some x =>
      rw [hx] at h
      cases h
      have hcore : s.vital.core sid = some x.core := by
        simp only [Shared.vital, hx, Option.map_some]
      have hvital := s.vital_update sid (f := fun x => { x with uid := uid })
        (F := fun x => { x with uid := uid }) fun _ => rfl
      refine ⟨trivial, ?_⟩
      have htakes := takes_setUserId hw hm hallow hcore
      rw [Vital.bind, ← hvital] at htakes
      exact htakes
  | exchangeClosed sid =>
    refine ⟨trivial, ?_⟩
    have htakes := takes_onSession hw hm h fun _ => rfl
    cases r with
    | true => exact htakes
    | false => exact ⟨htakes.frame, htakes.world, htakes.own.closing _⟩
  | findSession sid | clearUserId sid | eraseSession sid =>
    have htakes := takes_onSession hw hm h fun _ => rfl
    exact ⟨trivial, htakes.frame, htakes.world, htakes.own.closing _⟩
  | push sid f =>
    cases h
    refine ⟨trivial, ?_⟩
    cases p.flag with
    | true => exact takes_push hw hm hallow
    | false => exact hsame
  | rmvUserSession uid sid =>
    cases h
    have hvital : (s.update sid fun x => { x with cleared := true }).vital = s.vital :=
      s.vital_update_same sid fun _ => rfl
    have htakes : Takes setup t s.vital (s.update sid fun x => { x with cleared := true }).vital
        { m with closing := some (sid, .passed) } := by
      rw [hvital]
      exact hw.takes (hm.closing _)
    refine ⟨trivial, ?_⟩
    split <;> exact htakes

end

/-! ## Executors and peers -/

theorem takes_setJob (hw : World setup s.vital) (hm : Local setup s.vital (.session sid) m)
    (hidle : m.Idle)
    (job : Option Job) (checks : List (Uid × Uid × Bool) → List (Uid × Uid × Bool))
    (handled : List (Sid × Frame))
    (K : Set Fact) (hhandled : ∀ p ∈ s.vital.handled, p ∈ handled)
    (hjob : ∀ f, job = some (.frame f) → (sid, f) ∈ handled)
    (hK : ∀ f ∈ K, f ∈ m.know ∧ checks = id) :
    Takes setup (.session sid) s.vital
      { s.vital.setCore sid (fun x => { x with job := job, checks := checks x.checks }) with
        handled := handled }
      { m with job := job, know := K } := by
  obtain ⟨x, hx⟩ := hm.session sid rfl
  have hself := Vital.setCore_self hx fun x => { x with job := job, checks := checks x.checks }
  have hother : ∀ sid' ≠ sid, (s.vital.setCore sid fun x =>
      { x with job := job, checks := checks x.checks }).core sid' = s.vital.core sid' :=
    fun sid' h => Vital.setCore_of_ne h _
  have huid : ∀ sid' y, s.vital.core sid' = some y → ∃ y', (s.vital.setCore sid fun x =>
      { x with job := job, checks := checks x.checks }).core sid' = some y' ∧ y'.uid = y.uid ∧
        (checks = id → ∀ c ∈ y.checks, c ∈ y'.checks) := by
    intro sid' y hy
    by_cases h : sid' = sid
    · subst h
      cases hx.symm.trans hy
      exact ⟨_, hself, rfl, fun hid c hc => by rwa [hid]⟩
    · exact ⟨y, (hother sid' h).trans hy, rfl, fun _ _ hc => hc⟩
  have hback : ∀ sid' y', (s.vital.setCore sid fun x =>
      { x with job := job, checks := checks x.checks }).core sid' = some y' →
      ∃ y, s.vital.core sid' = some y ∧ y'.uid = y.uid := by
    intro sid' y' hy'
    by_cases h : sid' = sid
    · subst h
      cases hself.symm.trans hy'
      exact ⟨x, hx, rfl⟩
    · exact ⟨y', (hother sid' h).symm.trans hy', rfl⟩
  have hempty : s.vital.sql.uncommitted (.session sid) = [] := by
    have hconn := hm.conn
    rw [hidle.1] at hconn
    simp only [Transactions.uncommitted, show s.vital.sql.pending _ = none from hconn,
      Option.getD_none]
  constructor
  · exact {
      Preserves.refl _ s.vital with
      core := fun sid' y hne hy => (hother sid' fun h => hne (by rw [h])).trans hy
      bound := fun sid' y hy _ => (huid sid' y hy).imp fun _ h => ⟨h.1, h.2.1⟩
      handled := hhandled }
  · refine hw.recore ⟨fun sid' y hy _ => (huid sid' y hy).imp fun _ h => ⟨h.1, h.2.1⟩,
      fun sid' y' hy' => Or.inr (hback sid' y' hy')⟩ hhandled
      fun sid' y f hy hy' => ?_
    by_cases h : sid' = sid
    · subst h
      cases hself.symm.trans hy
      exact hjob f hy'
    · exact hhandled _ (hw.handled sid' y f ((hother sid' h).symm.trans hy) hy')
  · refine ⟨hm.self, fun f hf => ?_, fun j hj => ⟨sid, _, rfl, hself, hj⟩, hm.conn, fun w hw' => ?_,
      fun sid' h => ?_⟩
    · obtain ⟨hf, rfl⟩ := hK f hf
      have hholds := hm.facts f hf
      cases f with
      | ticket k y =>
        obtain ⟨sid', x', at_, hsid', hx', hticket, hredeemed⟩ := hholds
        cases hsid'
        cases hx.symm.trans hx'
        exact ⟨sid, _, at_, rfl, hself, hticket, hredeemed⟩
      | _ =>
        refine hholds.forth (fun sid' y hy => ?_) ?_ ?_ ?_ (by rintro _ _ ⟨⟩)
        · exact (huid sid' y hy).imp fun _ h => ⟨h.1, h.2.1, h.2.2 rfl⟩
        all_goals rfl
    · have hmem : w ∈ s.vital.sql.uncommitted (.session sid) := hw'
      rw [hempty] at hmem
      cases hmem
    · cases h
      exact ⟨_, hself⟩

theorem takes_nextJob (hw : World setup s.vital) (hm : Local setup s.vital (.session sid) m)
    (hidle : m.Idle)
    {job : Job} (h : s.takeJob sid job = some s') :
    Takes setup (.session sid) s.vital s'.vital { m with job := some job, know := ∅ } := by
  have hvital := s.vital_update sid (f := fun x => { x with job := some job, checks := [] })
    (F := fun x => { x with job := some job, checks := [] }) fun _ => rfl
  cases job with
  | frame f =>
    cases h
    have hf : ∀ f', some (Job.frame f) = some (.frame f') → (sid, f') ∈ (sid, f) ::
      s.vital.handled := by
      intro f' hf'
      cases hf'
      exact mem_cons_self
    have htakes := takes_setJob hw hm hidle (some (.frame f)) (fun _ => [])
      ((sid, f) :: s.vital.handled) ∅ (fun _ h => mem_cons_of_mem _ h) hf nofun
    rw [← hvital] at htakes
    exact htakes
  | wake uid =>
    obtain ⟨-, h⟩ := Option.ite_none_right_eq_some.mp h
    cases h
    have htakes := takes_setJob hw hm hidle (some (.wake uid)) (fun _ => []) s.vital.handled ∅
      (fun _ h => h) nofun nofun
    rw [← hvital] at htakes
    exact htakes
  | tick =>
    cases h
    have htakes := takes_setJob hw hm hidle (some .tick) (fun _ => []) s.vital.handled ∅
      (fun _ h => h) nofun nofun
    rw [← hvital] at htakes
    exact htakes

section

variable (hw : World setup s.vital) (hm : Local setup s.vital t m)

include hw hm

theorem takes_notifications (hvital : s'.vital = { s.vital with notifications := s'.notifications })
    (hbatch : ∀ n ∈ s'.notifications, n ∈ s.notifications ∨ BatchOk n.2.1 n.2.2) :
    Takes setup t s.vital s'.vital m := by
  rw [hvital]
  refine ⟨{ Preserves.refl t s.vital with }, ?_, { hm with }⟩
  exact { hw with
    tickets := { hw.tickets with }
    notifications := fun n hn => (hbatch n hn).elim (hw.notifications n) id }

theorem takes_logic {c : LogicCall} {p : Pick} {r : c.Answer} (hallow : c.Allow m)
    (h : c.perform p s = some (r, s')) :
    Takes setup t s.vital s'.vital (c.next m r) := by
  have hsame : Takes setup t s.vital s.vital m := hw.takes hm
  cases c with
  | nextJob sid =>
    obtain rfl : t = .session sid := hm.self.symm.trans hallow.1
    obtain ⟨s₁, hs₁, heq⟩ := Option.map_eq_some_iff.mp h
    cases heq
    exact takes_nextJob hw hm hallow.2 hs₁
  | jobDone sid =>
    obtain rfl : t = .session sid := hm.self.symm.trans hallow.1
    cases h
    have hvital := s.vital_update sid (f := fun x => { x with job := none })
      (F := fun x => { x with job := none }) fun _ => rfl
    have htakes := takes_setJob hw hm hallow.2 none id s.vital.handled m.know (fun _ h => h) nofun
      fun f hf => ⟨hf, rfl⟩
    simp only [id_eq] at htakes
    rw [← hvital] at htakes
    exact htakes
  | postWake sid uid =>
    cases h
    cases p.flag with
    | true | false => exact hsame
  | postNotification server touid messages =>
    cases h
    cases p.flag with
    | false => exact hsame
    | true =>
      refine takes_notifications hw hm rfl fun n hn => ?_
      rcases mem_append.mp hn with hn | hn
      · exact Or.inl hn
      · cases mem_singleton.mp hn
        exact Or.inr hallow
  | nextNotification server =>
    simp only [LogicCall.perform] at h
    split at h
    · cases h
    · split at h
      · cases h
        refine takes_notifications hw hm rfl fun n hn => Or.inl ?_
        exact mem_of_mem_eraseIdx hn
      · cases h
  | delivery sid => exact takes_onSession hw hm h fun _ => rfl
  | setDelivery sid state =>
    cases h
    have hvital : (s.update sid fun x => { x with delivery := state }).vital = s.vital :=
      s.vital_update_same sid fun _ => rfl
    rw [hvital]
    exact hsame
  | eraseDelivery sid =>
    cases h
    have hvital : (s.update sid fun x => { x with delivery := {} }).vital = s.vital :=
      s.vital_update_same sid fun _ => rfl
    rw [hvital]
    exact hsame
  | steadyNow =>
    cases h
    exact hsame

theorem takes_newToken {token : Bytes} (hnew : token ∉ s.history.tokens.map Prod.fst) :
    Takes setup t s.vital (s.record fun h => { h with tokens := (token, t) :: h.tokens }).vital
      (m.learn {.fresh token}) := by
  have hmono : ∀ p ∈ s.vital.tokens, p ∈ (token, t) :: s.vital.tokens := fun _ h =>
    mem_cons_of_mem _ h
  have hissued : ∀ i ∈ s.vital.issued, i.token ≠ token := by
    rintro i hi rfl
    obtain ⟨⟨t', ht'⟩, -⟩ := hw.tickets.made i hi
    exact hnew (mem_map_of_mem ht')
  refine ⟨{ Preserves.refl t s.vital with tokens := hmono }, ?_, ?_⟩
  · refine { hw with tickets :=
      { hw.tickets with tokens := nodup_cons.mpr ⟨hnew, hw.tickets.tokens⟩, made := ?_ } }
    exact fun i hi => (hw.tickets.made i hi).imp_left fun h => h.imp fun _ => hmono _
  · refine { hm with facts := fun f hf => ?_ }
    rcases hf with hf | rfl
    · have hholds := hm.facts f hf
      cases f with
      | fresh k => exact ⟨hmono _ hholds.1, hholds.2⟩
      | _ => exact hholds
    · exact ⟨mem_cons_self, hissued⟩

theorem takes_peer {c : PeerCall} {p : Pick} {r : c.Answer} (h : c.perform t p s = some (r, s')) :
    Takes setup t s.vital s'.vital (c.next m r) := by
  have hsame : Takes setup t s.vital s.vital m := hw.takes hm
  cases c with
  | notify server request | pendingResources uid =>
    cases h
    exact hsame
  | newToken =>
    simp only [PeerCall.perform] at h
    split at h
    · cases h
    · rename_i hnew
      cases h
      exact takes_newToken hw hm hnew
  | selectServer healthy =>
    simp only [PeerCall.perform] at h
    split at h
    · cases h
      exact hsame
    · cases h
      exact hsame

/-- **Every effect keeps the invariant.** -/
theorem takes_perform {e : Call} {p : Pick} {r : e.Answer} (hallow : e.Allow m)
    (h : perform setup t e p s = some (r, s')) :
    e.Expect m r ∧ Takes setup t s.vital s'.vital (e.next m r) := by
  cases e with
  | redis c =>
    obtain ⟨rfl, rfl⟩ : (c.perform t p.fault s).1 = r ∧ (c.perform t p.fault s).2 = s' := by
      rw [Option.some.inj h]
      exact ⟨rfl, rfl⟩
    exact ⟨trivial, takes_redis hw hm hallow p.fault⟩
  | db c => exact ⟨trivial, takes_db hw hm hallow h⟩
  | session c => exact takes_session hw hm hallow h
  | logic c => exact ⟨trivial, takes_logic hw hm hallow h⟩
  | peer c => exact ⟨trivial, takes_peer hw hm h⟩

end

/-! ## The environment, and the ends of programs -/

theorem Inv.init (setup : Setup) (now steady : ℕ) (users : Table Uid UserInfo) :
    Inv setup (Shared.fresh now steady users).vital fun _ => none := by
  have hcore : ∀ sid, (Shared.fresh now steady users).vital.core sid = none := fun _ => rfl
  have hredis : ∀ key, (Shared.fresh now steady users).vital.redis key = none := fun _ => rfl
  have hmessages : ∀ key, (Shared.fresh now steady users).vital.sql.db.messages.get key = none :=
    fun _ => rfl
  have hfriends : ∀ k, (Shared.fresh now steady users).vital.sql.db.friends.get k = none :=
    fun _ => rfl
  have happlies : ∀ k, (Shared.fresh now steady users).vital.sql.db.applies.get k = none :=
    fun _ => rfl
  refine ⟨?_, fun _ _ => nofun, fun _ _ => rfl⟩
  constructor
  · simp [hcore]
  · simp [hcore]
  · simp [hredis]
  · have hhistory : (Shared.fresh now steady users).history = {} := rfl
    constructor
    case entry => simp [hredis]
    case bound => simp [hcore]
    all_goals simp [Shared.vital, hhistory]
  · intro t w hw
    cases hw
  · constructor <;> simp [hfriends, happlies]
  · simp [hmessages]
  · simp [hmessages]
  · intro p hp
    cases hp
  · intro n hn
    cases hn

variable {g : Worker → Option Ghost}

theorem Inv.env (h : Inv setup s.vital g) (henv : Env s s') : Inv setup s'.vital g := by
  obtain ⟨now, steady, users, hnow, -, husers, rfl⟩ := henv
  have hknown : ∀ uid, s.vital.sql.db.known uid = true →
      ({ s.sql.db with users := users } : Db).known uid = true := husers
  have hall : ∀ t, Unharmed setup t s.vital
      { s.vital with now := now, sql :=
        { s.sql with db := { s.sql.db with users := users } } } := by
    intro t
    have hp : Preserves setup t s.vital s.vital := .refl t s.vital
    exact {
      hp with
      known := hknown
      stored := fun _ h => h
      core := fun _ _ _ hx => hx
      fresh := fun _ _ h => h
      pending := rfl
      held := fun k hk => ⟨hk, by cases k <;> rfl⟩ }
  refine ⟨?_, fun t m hm => (hall t).program (h.running t m hm), h.idle⟩
  have hw := h.world
  exact {
    hw with
    users := fun sid x hx =>
      ⟨(hw.users sid x hx).1, fun hpos => hknown _ ((hw.users sid x hx).2 hpos)⟩
    cache := fun key e he hkey =>
      (hw.cache key e he hkey).imp fun uid h => ⟨h.1, hknown uid h.2⟩
    tickets := {
      hw.tickets with
      entry := fun key e token he htoken => by
        obtain ⟨hnot, i, hi, htok, hvalue, hfrom, hexpire⟩ := hw.tickets.entry key e token he htoken
        exact ⟨hnot, i, hi, htok, hvalue, hfrom.trans hnow, hexpire⟩ }
    friends := hw.friends.congr rfl rfl }

theorem Inv.start (h : Inv setup s.vital g) (hfree : g t = none)
    (hsession : ∀ sid, t = .session sid → ∃ x, s.vital.core sid = some x) :
    Inv setup s.vital (Function.update g t (some { self := t })) := by
  have hpending := h.idle t hfree
  refine ⟨h.world, forall_set ⟨rfl, nofun, nofun, hpending, fun w hw => ?_, hsession⟩
    fun t' m _ hm => h.running t' m hm, forall_unset fun t' _ => h.idle t'⟩
  simp [Transactions.uncommitted, hpending] at hw

theorem Inv.stop (h : Inv setup s.vital g) (hm : g t = some m) (hidle : m.Idle) :
    Inv setup s.vital (Function.update g t none) := by
  refine ⟨h.world, forall_erased h.running, fun t' hnone => ?_⟩
  rcases update_cases hnone with ⟨rfl, -⟩ | ⟨-, hnone⟩
  · have hconn := (h.running t' m hm).conn
    rw [hidle.1] at hconn
    exact hconn
  · exact h.idle t' hnone

theorem Shared.core_crashed (s : Shared) (server : ServerName) (sid : Sid) :
    (s.crashed server).vital.core sid = (s.vital.core sid).map fun x =>
      if sid.server = server then { x with job := none } else x := by
  simp only [Shared.vital, Shared.crashed, Table.get_mapRows, Option.map_map]
  congr 1
  funext x
  simp only [comp]
  split <;> rfl

theorem Inv.crash (h : Inv setup s.vital g) (server : ServerName) :
    Inv setup (s.crashed server).vital fun t => if Worker.on server t then none else g t := by
  have hcore := s.core_crashed server
  have huid : ∀ sid x, s.vital.core sid = some x →
      ∃ x', (s.crashed server).vital.core sid = some x' ∧ x'.uid = x.uid := by
    intro sid x hx
    refine ⟨_, (hcore sid).trans (by rw [hx]; rfl), ?_⟩
    split <;> rfl
  have hback : ∀ sid x', (s.crashed server).vital.core sid = some x' →
      ∃ x, s.vital.core sid = some x ∧ x'.uid = x.uid ∧ (x'.job = x.job ∨ x'.job = none) := by
    intro sid x' hx'
    rw [hcore] at hx'
    obtain ⟨x, hx, rfl⟩ := Option.map_eq_some_iff.mp hx'
    refine ⟨x, hx, ?_⟩
    split
    · exact ⟨rfl, Or.inr rfl⟩
    · exact ⟨rfl, Or.inl rfl⟩
  have hw := h.world
  refine ⟨?_, fun t m hm => ?_, fun t hnone => ?_⟩
  · have hcores : World setup { s.vital with core := (s.crashed server).vital.core } := by
      refine hw.recore ⟨fun sid x hx _ => huid sid x hx, fun sid x' hx' => Or.inr ?_⟩ (fun _ h => h)
        fun sid x' f hx' hjob => ?_
      · exact (hback sid x' hx').imp fun _ h => ⟨h.1, h.2.1⟩
      · obtain ⟨x, hx, -, hsame | hnone⟩ := hback sid x' hx'
        · exact hw.handled sid x f hx (hsame ▸ hjob)
        · rw [hnone] at hjob
          cases hjob
    exact {
      hcores with
      tickets := { hcores.tickets with }
      locked := hw.locked.resetAll _
      notifications := fun n hn => hw.notifications n (mem_filter.mp hn).1 }
  · -- the workers of other servers
    by_cases hon : Worker.on server t = true
    · rw [if_pos hon] at hm
      cases hm
    · rw [if_neg hon] at hm
      have hp : Preserves setup t s.vital s.vital := .refl t s.vital
      refine Unharmed.program ?_ (h.running t m hm)
      exact {
        hp with
        stored := fun _ h => h
        core := fun sid x ht hx => by
          subst ht
          have hne : sid.server ≠ server := fun heq => hon (decide_eq_true heq)
          rw [hcore, hx, Option.map_some, if_neg hne]
        bound := fun sid x hx _ => huid sid x hx
        fresh := fun _ _ h => h
        pending := if_neg hon
        held := fun k hk => by
          refine ⟨?_, rfl⟩
          have hk : s.sql.locks k = some t := hk
          simp only [Shared.vital, Shared.crashed, Transactions.resetAll, hk, if_neg hon] }
  · by_cases hon : Worker.on server t = true
    · exact if_pos hon
    · rw [if_neg hon] at hnone
      exact (if_neg hon).trans (h.idle t hnone)

theorem session_of_launch {l : Launch} {p : Svc Unit} (h : launch setup l s = some (t, p)) :
    ∀ sid, t = .session sid → ∃ x, s.vital.core sid = some x := by
  rintro sid rfl
  cases l with
  | job sid' =>
    obtain ⟨hstarted, h⟩ := Option.ite_none_right_eq_some.mp h
    cases h
    obtain ⟨x, hx, -⟩ := (Option.any_eq_true ..).mp hstarted
    exact ⟨x.core, by simp only [Shared.vital, hx, Option.map_some]⟩
  | close sid' n =>
    simp only [launch] at h
    split at h <;> cases h
  | _ => cases h

/-- **The invariant is inductive.** -/
theorem inv_inductive (setup : Setup) :
    Inductive (cluster setup) discipline fun s g => Inv setup s.vital g where
  init := by
    rintro s ⟨now, steady, users, rfl⟩
    exact Inv.init setup now steady users
  env _ _ _ h henv := h.env henv
  start s g t p h hfree := by
    rintro ⟨l, hl⟩
    exact ⟨_, meets_launch setup hl, h.start hfree (session_of_launch hl)⟩
  call s s' g t m e r h hm hallow := by
    rintro ⟨p, hp⟩
    obtain ⟨hexpect, htakes⟩ := takes_perform h.world (h.running t m hm) hallow hp
    exact ⟨hexpect, h.update htakes⟩
  stop s s' g t m p h hm hmeets := by
    rintro ⟨⟨r, rfl⟩, rfl⟩
    exact h.stop hm hmeets
  crash s s' g K h := by
    rintro ⟨server, rfl, rfl⟩
    exact h.crash server

end DistributedChat.Chat
