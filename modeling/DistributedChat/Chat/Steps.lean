import DistributedChat.Chat.Invariant

/-!
# The effects keep the invariant

For each effect: a program that is allowed to perform it finds its answer as expected, and leaves
the invariant behind.
-/

namespace DistributedChat.Chat

open Lib List

variable {setup : Setup} {t : Worker} {v v' : Vital} {m : Ghost}

/-! ## Changes of the state that matters -/

namespace Vital

def setCore (v : Vital) (sid : Sid) (F : Core → Core) : Vital :=
  { v with core := fun sid' => if sid' = sid then (v.core sid').map F else v.core sid' }

def setRedis (v : Vital) (key : Bytes) (e : Option (Entry RedisValue)) : Vital :=
  { v with redis := Function.update v.redis key e }

theorem setRedis_self (v : Vital) (key : Bytes) (e : Option (Entry RedisValue)) :
    (v.setRedis key e).redis key = e := Function.update_self ..

theorem setRedis_of_ne (v : Vital) {key k : Bytes} (h : k ≠ key) (e : Option (Entry RedisValue)) :
    (v.setRedis key e).redis k = v.redis k := Function.update_of_ne h ..

theorem setCore_self {sid : Sid} {x : Core} (h : v.core sid = some x) (F : Core → Core) :
    (v.setCore sid F).core sid = some (F x) := by
  simp [setCore, h]

theorem setCore_of_ne {sid sid' : Sid} (h : sid' ≠ sid) (F : Core → Core) :
    (v.setCore sid F).core sid' = v.core sid' := by
  simp [setCore, h]

end Vital

theorem Shared.vital_update (s : Shared) (sid : Sid) {f : Session → Session} {F : Core → Core}
    (h : ∀ x, (f x).core = F x.core) : (s.update sid f).vital = s.vital.setCore sid F := by
  have hcore : ∀ sid', ((s.sessions.update sid f).get sid').map Session.core =
      if sid' = sid then ((s.sessions.get sid').map Session.core).map F
      else (s.sessions.get sid').map Session.core := by
    intro sid'
    rw [Table.get_update]
    split
    · rw [Option.map_map, Option.map_map]
      exact congrArg (fun k => Option.map k _) (funext h)
    · rfl
  simp only [Shared.vital, Shared.update, Vital.setCore, hcore]

theorem Shared.vital_update_same (s : Shared) (sid : Sid) {f : Session → Session}
    (h : ∀ x, (f x).core = x.core) : (s.update sid f).vital = s.vital := by
  rw [s.vital_update sid (F := id) h]
  simp only [Vital.setCore, Option.map_id, id_eq, ite_self]

/-! ## Redis -/

variable {token : Bytes}

theorem eq_of_ticketToken {key : Bytes} (h : ticketToken key = some token) :
    key = CHAT_TICKET_PREFIX ++ token := by
  unfold ticketToken at h
  split at h
  · rename_i hprefix
    obtain ⟨rest, rfl⟩ := isPrefixOf_iff_prefix.mp hprefix
    rw [drop_left] at h
    rw [Option.some.inj h]
  · cases h

/-- The uid that a reader of the entry takes for a user's is the one it was written with. -/
theorem World.known_of_profileUid (h : World setup v) {key : Bytes} {e : Entry RedisValue}
    {uid : Uid} (he : v.redis key = some e) (hprofile : profileUid key e.value = some uid) :
    v.sql.db.known uid = true := by
  unfold profileUid at hprofile
  split at hprofile
  · rename_i hkey
    obtain ⟨uid', ⟨root, hroot, hget⟩, hknown⟩ := h.cache key e he hkey
    rw [hroot, Option.bind_some, hget] at hprofile
    simp only [Json.int?, Json.whole?, Option.filter_eq_some_iff, Option.some.injEq] at hprofile
    rw [← hprofile.1]
    exact hknown
  · cases hprofile

/-- A key that is deleted, or set to something that is no ticket and, where profiles stand, to the
profile of a user that exists. -/
theorem World.setRedis (h : World setup v) {key : Bytes} {e : Option (Entry RedisValue)}
    (hcache : ∀ e', e = some e' → ticketToken key = none ∧
      (USER_BASE_INFO.isPrefixOf key = true →
        ∃ uid, ProfileOf e'.value uid ∧ v.sql.db.known uid = true)) :
    World setup (v.setRedis key e) where
  __ := h
  cache k e' he hkey := by
    rcases update_cases he with ⟨rfl, hnew⟩ | ⟨-, he⟩
    · exact (hcache e' hnew).2 hkey
    · exact h.cache k e' he hkey
  tickets := {
    h.tickets with
    entry := fun k e' token he htoken => by
      rcases update_cases he with ⟨rfl, hnew⟩ | ⟨-, he⟩
      · rw [(hcache e' hnew).1] at htoken
        cases htoken
      · exact h.tickets.entry k e' token he htoken }

theorem Preserves.setRedis (key : Bytes) (e : Option (Entry RedisValue)) :
    Preserves setup t v (v.setRedis key e) := { Preserves.refl t v with }

theorem Local.setRedis (h : Local setup v t m) (key : Bytes) (e : Option (Entry RedisValue)) :
    Local setup (v.setRedis key e) t m := { h with }

theorem takes_setRedis (hw : World setup v) (hm : Local setup v t m) {key : Bytes}
    {e : Option (Entry RedisValue)}
    (hcache : ∀ e', e = some e' → m.MayCache key e'.value) :
    Takes setup t v (v.setRedis key e) m where
  frame := .setRedis key e
  world := hw.setRedis fun e' he => ⟨(hcache e' he).1, fun hkey =>
    ((hcache e' he).2 hkey).imp fun uid h => ⟨h.1, hm.facts (.known uid) h.2⟩⟩
  own := hm.setRedis key e

variable {s : Shared}

/-- A session goes on with the same user and job; it may have taken a ticket or made a check. -/
structure SameCore (v v' : Vital) : Prop where
  forth : ∀ sid x, v.core sid = some x → ∃ x', v'.core sid = some x' ∧ x'.uid = x.uid ∧
    x'.job = x.job ∧ ∀ c ∈ x.checks, c ∈ x'.checks
  back : ∀ sid x', v'.core sid = some x' → ∃ x, v.core sid = some x ∧ x'.uid = x.uid ∧
    x'.job = x.job

variable {sid : Sid}

theorem sameCore_setCore {F : Core → Core}
    (hF : ∀ x, (F x).uid = x.uid ∧ (F x).job = x.job ∧ ∀ c ∈ x.checks, c ∈ (F x).checks) :
    SameCore v (v.setCore sid F) := by
  constructor
  · intro sid' x hx
    by_cases h : sid' = sid
    · subst h
      exact ⟨F x, Vital.setCore_self hx F, hF x⟩
    · exact ⟨x, (Vital.setCore_of_ne h F).trans hx, rfl, rfl, fun _ hc => hc⟩
  · intro sid' x' hx'
    by_cases h : sid' = sid
    · subst h
      simp only [Vital.setCore, if_true, Option.map_eq_some_iff] at hx'
      obtain ⟨x, hx, rfl⟩ := hx'
      exact ⟨x, hx, (hF x).1, (hF x).2.1⟩
    · rw [Vital.setCore_of_ne h F] at hx'
      exact ⟨x', hx', rfl, rfl⟩

theorem SameCore.writes (h : SameCore v v') {w : Write} (hw : WritesAs setup v t w ∧ ActsAs v t) :
    WritesAs setup v' t w ∧ ActsAs v' t := by
  refine ⟨hw.1.mono ?_ ?_, ?_⟩
  · rintro m ⟨sid, x, f, rfl, hx, hjob, hid, huid, hchecks, hvalid⟩
    obtain ⟨x', hx', huid', hjob', hchecks'⟩ := h.forth sid x hx
    exact ⟨sid, x', f, rfl, hx', hjob'.trans hjob, hid, huid'.trans huid, hchecks' _ hchecks,
      hvalid⟩
  · rintro key receiver ⟨sid, x, f, sender, id, rfl, hx, hjob, huid, hrest⟩
    obtain ⟨x', hx', huid', hjob', -⟩ := h.forth sid x hx
    exact ⟨sid, x', f, sender, id, rfl, hx', hjob'.trans hjob, huid'.trans huid, hrest⟩
  · obtain ⟨sid, x, rfl, hx, hpos⟩ := hw.2
    obtain ⟨x', hx', huid', -⟩ := h.forth sid x hx
    exact ⟨sid, x', rfl, hx', huid'.symm ▸ hpos⟩

theorem SameCore.job (h : SameCore v v') {j : Job}
    (hj : ∃ sid x, t = .session sid ∧ v.core sid = some x ∧ x.job = some j) :
    ∃ sid x, t = .session sid ∧ v'.core sid = some x ∧ x.job = some j := by
  obtain ⟨sid, x, rfl, hx, hjob⟩ := hj
  obtain ⟨x', hx', -, hjob', -⟩ := h.forth sid x hx
  exact ⟨sid, x', rfl, hx', hjob'.trans hjob⟩

theorem SameCore.session (h : SameCore v v')
    (hs : ∀ sid, t = .session sid → ∃ x, v.core sid = some x) :
    ∀ sid, t = .session sid → ∃ x, v'.core sid = some x := by
  intro sid hsid
  obtain ⟨x, hx⟩ := hs sid hsid
  exact (h.forth sid x hx).imp fun _ hx' => hx'.1

/-- Facts about sessions that go on with the same user and checks. -/
theorem Holds.forth
    (h : ∀ sid x, v.core sid = some x → ∃ x', v'.core sid = some x' ∧ x'.uid = x.uid ∧
      ∀ c ∈ x.checks, c ∈ x'.checks)
    (hsql : v'.sql = v.sql) (htokens : v'.tokens = v.tokens) (hissued : v'.issued = v.issued)
    {f : Fact}
    (hf : Holds setup v t f) (hnot : ∀ k y, f ≠ .ticket k y) : Holds setup v' t f := by
  cases f with
  | known uid | stored m =>
    simp only [Holds, hsql] at hf ⊢
    exact hf
  | bound sid uid =>
    obtain ⟨hpos, y, hy, huid⟩ := hf
    obtain ⟨y', hy', huid', -⟩ := h sid y hy
    exact ⟨hpos, y', hy', huid'.trans huid⟩
  | unbound sid =>
    obtain ⟨ht, y, hy, hle⟩ := hf
    obtain ⟨y', hy', huid', -⟩ := h sid y hy
    exact ⟨ht, y', hy', huid'.symm ▸ hle⟩
  | ticket k y => exact absurd rfl (hnot k y)
  | fresh k =>
    simp only [Holds, htokens, hissued] at hf ⊢
    exact hf
  | checked a b =>
    intro sid hsid
    obtain ⟨y, hy, hmem⟩ := hf sid hsid
    obtain ⟨y', hy', -, hchecks⟩ := h sid y hy
    exact ⟨y', hy', hchecks _ hmem⟩

theorem SameCore.holds (h : SameCore v v') (hsql : v'.sql = v.sql) (htokens : v'.tokens = v.tokens)
    (hissued : v'.issued = v.issued) {f : Fact} (hf : Holds setup v t f)
    (hnot : ∀ k y, f ≠ .ticket k y) : Holds setup v' t f :=
  hf.forth (fun sid x hx => (h.forth sid x hx).imp fun _ hx' => ⟨hx'.1, hx'.2.1, hx'.2.2.2⟩) hsql
    htokens hissued
    hnot

/-- A session with a user keeps it; none gets a user. -/
structure Recore (core core' : Sid → Option Core) : Prop where
  forth : ∀ sid x, core sid = some x → 0 < x.uid → ∃ x', core' sid = some x' ∧ x'.uid = x.uid
  back : ∀ sid x', core' sid = some x' → x'.uid = 0 ∨ ∃ x, core sid = some x ∧ x'.uid = x.uid

/-- Sessions that change otherwise: their users are as before, and the frames they handle are
recorded. -/
theorem World.recore (hw : World setup v) {core : Sid → Option Core} {handled : List (Sid × Frame)}
    (h : Recore v.core core) (hhandled : ∀ p ∈ v.handled, p ∈ handled)
    (hjobs : ∀ sid x f, core sid = some x → x.job = some (.frame f) → (sid, f) ∈ handled) :
    World setup { v with core := core, handled := handled } where
  __ := hw
  handled := hjobs
  users sid x' hx' := by
    rcases h.back sid x' hx' with hzero | ⟨x, hx, huid⟩
    · rw [hzero]
      exact ⟨by decide, fun hpos => absurd hpos (lt_irrefl 0)⟩
    · exact huid ▸ hw.users sid x hx
  tickets := {
    hw.tickets with
    auth := fun a ha => by
      obtain ⟨hpos, hredeemed, x, hx, huid⟩ := hw.tickets.auth a ha
      obtain ⟨x', hx', huid'⟩ := h.forth a.session x hx (huid ▸ hpos)
      exact ⟨hpos, hredeemed, x', hx', huid'.trans huid⟩
    bound := fun sid x' hx' hpos => by
      rcases h.back sid x' hx' with hzero | ⟨x, hx, huid⟩
      · exact absurd hpos (hzero.le.not_gt)
      · exact hw.tickets.bound sid x hx (huid ▸ hpos) }
  acked key row hrow hack := by
    obtain ⟨sid, f, sender, id, hf, ⟨x, hx, huid⟩, hpos, hrest⟩ := hw.acked key row hrow hack
    obtain ⟨x', hx', huid'⟩ := h.forth sid x hx (huid ▸ hpos)
    exact ⟨sid, f, sender, id, hhandled _ hf, ⟨x', hx', huid'.trans huid⟩, hpos, hrest⟩

theorem SameCore.recore (h : SameCore v v') : Recore v.core v'.core where
  forth sid x hx _ := (h.forth sid x hx).imp fun _ hx' => ⟨hx'.1, hx'.2.1⟩
  back sid x' hx' := Or.inr ((h.back sid x' hx').imp fun _ hx => ⟨hx.1, hx.2.1⟩)

theorem SameCore.jobs (h : SameCore v v') (hw : World setup v) (sid : Sid) (x : Core) (f : Frame)
    (hx : v'.core sid = some x) (hjob : x.job = some (.frame f)) : (sid, f) ∈ v.handled := by
  obtain ⟨x₀, hx₀, -, hjob₀⟩ := h.back sid x hx
  exact hw.handled sid x₀ f hx₀ (hjob₀ ▸ hjob)

/-! ## Taking a ticket -/

/-- The state after worker `.session sid` has taken the ticket of a token. -/
def Vital.take (v : Vital) (sid : Sid) (key token : Bytes) : Vital :=
  { ((v.setRedis key none).setCore sid fun x => { x with ticket := some (token, v.now) }) with
    redeemed := (token, sid) :: v.redeemed }

theorem sameCore_take (v : Vital) (sid : Sid) (key token : Bytes) :
    SameCore v (v.take sid key token) :=
  let h : SameCore v (v.setCore sid fun x => { x with ticket := some (token, v.now) }) :=
    sameCore_setCore fun _ => ⟨rfl, rfl, fun _ hc => hc⟩
  ⟨h.forth, h.back⟩

theorem TicketsOk.take (h : TicketsOk v) {key : Bytes} {e : Entry RedisValue}
    (he : v.redis key = some e)
    (htoken : ticketToken key = some token) : TicketsOk (v.take sid key token) := by
  have hsame := sameCore_take v sid key token
  have hmono : ∀ p ∈ v.redeemed, p ∈ (token, sid) :: v.redeemed := fun _ hp =>
    mem_cons_of_mem _ hp
  obtain ⟨hnot, i, hi, hitoken, -⟩ := h.entry key e token he htoken
  refine ⟨h.tokens, h.issued, ?_, h.made, ?_, ?_, h.sessions, ?_, ?_⟩
  · refine nodup_cons.mpr ⟨fun hmem => ?_, h.redeemed⟩
    obtain ⟨⟨k, sid'⟩, hp, rfl⟩ := mem_map.mp hmem
    exact hnot sid' hp
  · intro p hp
    rcases mem_cons.mp hp with rfl | hp
    · exact ⟨i, hi, hitoken⟩
    · exact h.taken p hp
  · intro k e' token' he' htoken'
    have hk : k ≠ key := by
      rintro rfl
      rw [show (v.take sid k token).redis k = none from v.setRedis_self k none] at he'
      cases he'
    rw [show (v.take sid key token).redis k = v.redis k from v.setRedis_of_ne hk none] at he'
    obtain ⟨hnot', hi'⟩ := h.entry k e' token' he' htoken'
    refine ⟨fun sid' hmem => ?_, hi'⟩
    rcases mem_cons.mp hmem with heq | hmem
    · -- the key of a token is the one that was taken
      cases heq
      exact hk ((eq_of_ticketToken htoken').trans (eq_of_ticketToken htoken).symm)
    · exact hnot' sid' hmem
  · intro a ha
    obtain ⟨hpos, hredeemed, x, hx, huid⟩ := h.auth a ha
    obtain ⟨x', hx', huid', -⟩ := hsame.forth a.session x hx
    exact ⟨hpos, hredeemed.mono (fun _ hi => hi) hmono, x', hx', huid'.trans huid⟩
  · intro sid' x' hx' hpos
    obtain ⟨x, hx, huid, -⟩ := hsame.back sid' x' hx'
    exact h.bound sid' x hx (huid ▸ hpos)

theorem takes_take (hw : World setup v) (hm : Local setup v (.session sid) m) {x : Core}
    (hx : v.core sid = some x) {key : Bytes} {e : Entry RedisValue} (he : v.redis key = some e)
    (hlive : e.live v.now = true) (htoken : ticketToken key = some token) :
    Takes setup (.session sid) v (v.take sid key token)
      { m with know := {f | f ∈ m.know ∧ ∀ k y, f ≠ .ticket k y} ∪ {.ticket token e.value} } := by
  have hsame := sameCore_take v sid key token
  have hself := Vital.setCore_self (v := v.setRedis key none) hx fun x =>
    { x with ticket := some (token, v.now) }
  obtain ⟨-, i, hi, hitoken, hvalue, hfrom, hexpire⟩ := hw.tickets.entry key e token he htoken
  constructor
  · exact {
      Preserves.refl _ v with
      core := fun sid' y hne hy => (Vital.setCore_of_ne (fun h => hne (by rw [h])) _).trans hy
      bound := hsame.recore.forth
      redeemed := fun _ h => mem_cons_of_mem _ h }
  · have hcores :=
      (show World setup (v.setRedis key none) from hw.setRedis nofun).recore hsame.recore
      (fun _ h => h) (hsame.jobs hw)
    exact { hcores with tickets := hw.tickets.take he htoken }
  · refine ⟨hm.self, fun f hf => ?_, fun j hj => hsame.job (hm.job j hj), hm.conn, fun w hw =>
      hsame.writes (hm.writes w hw), hsame.session hm.session⟩
    rcases hf with ⟨hf, hnot⟩ | rfl
    · exact hsame.holds rfl rfl rfl (hm.facts f hf) hnot
    · refine ⟨sid, _, v.now, rfl, hself, rfl, mem_cons_self, i, hi, hitoken, hvalue, hfrom, ?_⟩
      simpa [Entry.live, hexpire] using hlive

/-! ## Storing a ticket -/

def Vital.issue (v : Vital) (key token : Bytes) (value : RedisValue) : Vital :=
  { v.setRedis key (some ⟨value, some (v.now + StatusServiceImpl.CHAT_TICKET_TTL_SECONDS)⟩) with
    issued := ⟨token, value, v.now⟩ :: v.issued }

theorem TicketsOk.issue (h : TicketsOk v) {key : Bytes} {uid : Uid} {server : ServerName}
    (hkey : ticketToken key = some token) (htoken : (token, t) ∈ v.tokens)
    (hfresh : ∀ i ∈ v.issued, i.token ≠ token) :
    TicketsOk (v.issue key token (.json (StatusServiceImpl.ticket uid server))) := by
  have hmono : ∀ i ∈ v.issued, i ∈ (v.issue key token
      (.json (StatusServiceImpl.ticket uid server))).issued := fun _ hi => mem_cons_of_mem _ hi
  refine ⟨h.tokens, ?_, h.redeemed, ?_, ?_, ?_, h.sessions, ?_, h.bound⟩
  · refine nodup_cons.mpr ⟨fun hmem => ?_, h.issued⟩
    obtain ⟨i, hi, heq⟩ := mem_map.mp hmem
    exact hfresh i hi heq
  · intro i hi
    rcases mem_cons.mp hi with rfl | hi
    · exact ⟨⟨t, htoken⟩, uid, server, rfl⟩
    · exact h.made i hi
  · intro p hp
    obtain ⟨i, hi, heq⟩ := h.taken p hp
    exact ⟨i, hmono i hi, heq⟩
  · intro k e token' he htoken'
    by_cases hk : k = key
    · subst hk
      obtain rfl : token = token' := Option.some.inj (hkey.symm.trans htoken')
      cases (Vital.setRedis_self ..).symm.trans he
      refine ⟨fun sid hmem => ?_, _, mem_cons_self, rfl, rfl, le_rfl, rfl⟩
      -- what was taken had been issued
      obtain ⟨i, hi, heq⟩ := h.taken _ hmem
      exact hfresh i hi heq
    · obtain ⟨hnot, i, hi, hrest⟩ :=
        h.entry k e token' ((v.setRedis_of_ne hk _).symm.trans he) htoken'
      exact ⟨hnot, i, hmono i hi, hrest⟩
  · intro a ha
    obtain ⟨hpos, hredeemed, hcore⟩ := h.auth a ha
    exact ⟨hpos, hredeemed.mono hmono fun _ hp => hp, hcore⟩

theorem Local.forgets (h : Local setup v t m) {K : Set Fact} (hK : K ⊆ m.know) :
    Local setup v t { m with know := K } := { h with facts := fun f hf => h.facts f (hK hf) }

theorem takes_issue (hw : World setup v) (hm : Local setup v t m) {key : Bytes} {uid : Uid}
    {server : ServerName} (hkey : ticketToken key = some token)
    (hfresh : Fact.fresh token ∈ m.know) :
    Takes setup t v (v.issue key token (.json (StatusServiceImpl.ticket uid server)))
      { m with know := {f | f ∈ m.know ∧ ∀ token, f ≠ .fresh token} } := by
  obtain ⟨htoken, hnew⟩ := hm.facts _ hfresh
  have hmono : ∀ i ∈ v.issued, i ∈ (v.issue key token
      (.json (StatusServiceImpl.ticket uid server))).issued := fun _ hi => mem_cons_of_mem _ hi
  constructor
  · refine { Preserves.refl t v with issued := hmono, fresh := fun i hi => ?_ }
    rcases mem_cons.mp hi with rfl | hi
    · exact Or.inr htoken
    · exact Or.inl hi
  · refine { hw with
      cache := fun k e he hprofile => ?_, tickets := hw.tickets.issue hkey htoken hnew }
    by_cases hk : k = key
    · -- the key of a ticket is no key of a profile
      rw [hk, eq_of_ticketToken hkey] at hprofile
      cases hprofile
    · exact hw.cache k e ((v.setRedis_of_ne hk _).symm.trans he) hprofile
  · refine { hm with facts := fun f ⟨hf, hnot⟩ => ?_ }
    have hholds := hm.facts f hf
    cases f with
    | ticket k y =>
      obtain ⟨sid, x, at_, ht, hx, hticket, hredeemed⟩ := hholds
      exact ⟨sid, x, at_, ht, hx, hticket, hredeemed.mono hmono fun _ hp => hp⟩
    | fresh k => exact absurd rfl (hnot k)
    | _ => exact hholds

/-! ## Redis commands -/

theorem Shared.vital_issue (s : Shared) {key : Bytes} (h : ticketToken key = some token)
    (value : RedisValue) :
    ((s.put key (some ⟨value, some (s.now + StatusServiceImpl.CHAT_TICKET_TTL_SECONDS)⟩)).issue key
      value).vital = s.vital.issue key token value := by
  simp only [Shared.issue, h]
  rfl

theorem Shared.vital_redeem (s : Shared) (sid : Sid) {key : Bytes}
    (h : ticketToken key = some token) :
    ((s.put key none).redeem (.session sid) key).vital = s.vital.take sid key token := by
  have hupdate := (s.put key none).vital_update sid
    (f := fun x => { x with ticket := some (token, s.now) })
    (F := fun x => { x with ticket := some (token, s.now) }) fun _ => rfl
  have hcore := congrArg Vital.core hupdate
  simp only [Shared.redeem, h]
  exact congrArg (fun c => { s.vital.take sid key token with core := c }) hcore

theorem takes_withFault {s' : Shared} {fault : Fault} {n : Bool → Ghost}
    (hrefused : Takes setup t s.vital s.vital (n false))
    (hdone : ∀ b, Takes setup t s.vital s'.vital (n b)) :
    Takes setup t s.vital (withFault fault s s').2.vital (n (withFault fault s s').1) := by
  cases fault with
  | ok => exact hdone true
  | refused => exact hrefused
  | lost => exact hdone false

theorem takes_redis (hw : World setup s.vital) (hm : Local setup s.vital t m) {c : RedisCall}
    (hallow : c.Allow m)
    (fault : Fault) :
    Takes setup t s.vital (c.perform t fault s).2.vital (c.next m (c.perform t fault s).1) := by
  have hsame : Takes setup t s.vital s.vital m := hw.takes hm
  cases c with
  | get key =>
    cases fault with
    | ok =>
      cases hlookup : s.lookup key with
      | none => simpa only [RedisCall.perform, hlookup, RedisCall.next] using hsame
      | some value =>
        obtain ⟨e, he, rfl, -⟩ := Shared.lookup_eq_some hlookup
        simp only [RedisCall.perform, hlookup, RedisCall.next]
        refine hw.takes (hm.learns ?_)
        rintro f ⟨uid, hprofile, rfl⟩
        exact hw.known_of_profileUid he hprofile
    | refused | lost => exact hsame
  | getDel key =>
    obtain ⟨sid, hself⟩ := hallow
    obtain rfl : t = .session sid := hm.self.symm.trans hself
    have hdel : Takes setup (.session sid) s.vital (s.put key none).vital m :=
      takes_setRedis hw hm (by rintro _ ⟨⟩)
    cases hlookup : s.lookup key with
    | none => cases fault <;> simpa only [RedisCall.perform, hlookup, RedisCall.next] using hsame
    | some value =>
      cases fault with
      | refused => exact hsame
      | lost => simpa only [RedisCall.perform, hlookup, RedisCall.next] using hdel
      | ok =>
        obtain ⟨e, he, rfl, hlive⟩ := Shared.lookup_eq_some hlookup
        cases htoken : ticketToken key with
        | none =>
          simpa only [RedisCall.perform, hlookup, RedisCall.next, Shared.redeem, htoken] using hdel
        | some token =>
          obtain ⟨x, hx⟩ := hm.session sid rfl
          simp only [RedisCall.perform, hlookup, RedisCall.next, htoken, s.vital_redeem sid htoken]
          exact takes_take hw hm hx he hlive htoken
  | set key value | setEx key value ttl =>
    refine takes_withFault (n := fun _ => m) hsame fun _ => takes_setRedis hw hm ?_
    rintro e' he'
    cases he'
    exact hallow
  | setExNx key value ttl =>
    obtain ⟨token, uid, server, htoken, hfresh, -, rfl, rfl, -⟩ := hallow
    have hforget := hw.takes (hm.forgets (K := {f | f ∈ m.know ∧ ∀ token, f ≠ .fresh token})
      fun _ hf => hf.1)
    cases hlookup : s.lookup key with
    | some _ => simpa only [RedisCall.perform, hlookup, RedisCall.next] using hforget
    | none =>
      simp only [RedisCall.perform, hlookup, RedisCall.next]
      refine takes_withFault (n := fun _ => { m with
        know := {f | f ∈ m.know ∧ ∀ token, f ≠ .fresh token} }) hforget fun _ => ?_
      rw [s.vital_issue htoken]
      exact takes_issue hw hm htoken hfresh
  | del key =>
    exact takes_withFault (n := fun _ => m) hsame fun _ => takes_setRedis hw hm (by rintro _ ⟨⟩)

end DistributedChat.Chat
