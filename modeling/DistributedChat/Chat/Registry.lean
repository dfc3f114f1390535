import DistributedChat.Chat.Safety

/-!
# The registry of users

`UserMgr` of a server maps a user to the session that was bound to them last. A login sets the user
of its session, writes to Redis, and only then registers the session; `Close` may run between the
two. If `ClearSession` is past the registration by then, the login registers a session that nobody
will remove.

`Desk` is the part of the state this depends on. In runs where no login comes too late the registry
is right, but for sessions whose `Close` is under way: `registry_current`. `registry_stale` is a run
where one does.
-/

namespace DistributedChat.Chat

open Lib
open Function (update update_of_ne update_self)

/-! ## The state that matters -/

structure Seat where
  closed : Bool := false
  uid : Uid := 0
  listed : Bool := false
  started : Bool := false
  cleared : Bool := false

def Session.seat (x : Session) : Seat := ⟨x.closed, x.uid, x.listed, x.started, x.cleared⟩

structure Desk where
  seat : Sid → Option Seat
  registry : ServerName → Uid → Option Sid
  bound : ServerName → Uid → Option Sid

def Shared.desk (s : Shared) : Desk where
  seat sid := (s.sessions.get sid).map Session.seat
  registry := s.registry
  bound := s.history.bound

namespace Desk

def set (d : Desk) (sid : Sid) (F : Seat → Seat) : Desk :=
  { d with seat := fun sid' => if sid' = sid then (d.seat sid').map F else d.seat sid' }

theorem seat_set_self {d : Desk} {sid : Sid} {x : Seat} (h : d.seat sid = some x)
    (F : Seat → Seat) :
    (d.set sid F).seat sid = some (F x) := by
  simp [set, h]

theorem seat_set_of_ne {d : Desk} {sid sid' : Sid} (h : sid' ≠ sid) (F : Seat → Seat) :
    (d.set sid F).seat sid' = d.seat sid' := if_neg h

end Desk

variable {F : Seat → Seat}

theorem Shared.desk_update (s : Shared) (sid : Sid) {f : Session → Session}
    (h : ∀ x, (f x).seat = F x.seat) :
    (s.update sid f).desk = s.desk.set sid F := by
  have hseat : ∀ sid', ((s.sessions.update sid f).get sid').map Session.seat =
      if sid' = sid then ((s.sessions.get sid').map Session.seat).map F
      else (s.sessions.get sid').map Session.seat := by
    intro sid'
    rw [Table.get_update]
    split
    · rw [Option.map_map, Option.map_map]
      exact congrArg (fun k => Option.map k _) (funext h)
    · rfl
  simp only [Shared.desk, Shared.update, Desk.set, hseat]

theorem Shared.desk_update_same (s : Shared) (sid : Sid) {f : Session → Session}
    (h : ∀ x, (f x).seat = x.seat) : (s.update sid f).desk = s.desk := by
  rw [s.desk_update sid (F := id) h]
  simp only [Desk.set, Option.map_id, id_eq, ite_self]

theorem Shared.desk_insert {s : Shared} {sid : Sid} (h : s.sessions.get sid = none) :
    ({ s with sessions := s.sessions.insert sid {} } : Shared).desk =
      { s.desk with seat := Function.update s.desk.seat sid (some {}) } := by
  have hget : ∀ sid', ((s.sessions.insert sid {}).get sid').map Session.seat =
      Function.update s.desk.seat sid (some {}) sid' := by
    intro sid'
    rw [Table.get_insert h, Function.update_apply]
    split <;> rfl
  simp only [Shared.desk, hget]

/-! ## The invariant -/

/-- A started session is listed until it is cleared, a session with a user was started, and one that
is cleared is closed. -/
structure Seat.Ok (x : Seat) : Prop where
  listed : x.started = true → x.listed = true ∨ x.cleared = true
  started : 0 < x.uid → x.started = true
  closed : x.cleared = true → x.closed = true

/-- What a program that closes a session knows of it. -/
def Clearing.Holds (x : Seat) : Clearing → Prop
  | .flagged => True
  | .found => True
  | .read uid => 0 < uid ∧ x.uid = uid
  | .passed => x.cleared = true

structure Desk.Ok (d : Desk) (g : Worker → Option Ghost) : Prop where
  running : ∀ sid m, g (.session sid) = some m → ∃ x, d.seat sid = some x ∧ x.started = true
  closing : ∀ t m sid stage, g t = some m → m.closing = some (sid, stage) →
    ∃ x, d.seat sid = some x ∧ x.closed = true ∧ stage.Holds x
  seats : ∀ sid x, d.seat sid = some x → x.Ok
  registry : ∀ server uid sid, d.registry server uid = some sid → sid.server = server ∧
    ∃ x, d.seat sid = some x ∧ 0 < uid ∧ x.uid = uid ∧ x.cleared = false
  bound : ∀ server uid sid, d.bound server uid = some sid →
    ∃ x, d.seat sid = some x ∧ (x.cleared = false → d.registry server uid = some sid)

variable {d : Desk} {g : Worker → Option Ghost} {t : Worker} {m m' : Ghost} {sid : Sid}

/-- What the change of a seat must keep, with the registry after it. -/
structure Seat.Moves (registry : ServerName → Uid → Option Sid) (sid : Sid) (x x' : Seat) :
    Prop where
  started : x.started = true → x'.started = true
  closed : x.closed = true → x'.closed = true
  uid : 0 < x.uid → x'.uid = x.uid
  cleared : x.cleared = true → x'.cleared = true
  ok : x'.Ok
  registered : x'.cleared = true → x.cleared = true ∨ ∀ server uid, registry server uid ≠ some sid

theorem Clearing.Holds.moves {registry : ServerName → Uid → Option Sid} {x x' : Seat}
    {stage : Clearing} (h : stage.Holds x) (hx : Seat.Moves registry sid x x') :
    stage.Holds x' := by
  cases stage with
  | flagged | found => trivial
  | read uid => exact ⟨h.1, (hx.uid (h.2 ▸ h.1)).trans h.2⟩
  | passed => exact hx.cleared h

theorem Desk.Ok.change (h : d.Ok g) {registry : ServerName → Uid → Option Sid}
    (hF : ∀ x, d.seat sid = some x → Seat.Moves registry sid x (F x))
    (hback : ∀ server uid sid', registry server uid = some sid' → d.registry server uid = some sid')
    (hforth : ∀ server uid sid', d.registry server uid = some sid' → registry server uid =
      some sid' ∨ sid' =
      sid ∧ ∀ x, (F x).cleared = true) : ({ d.set sid F with registry := registry } : Desk).Ok
        g := by
  have hseat : ∀ sid' x, d.seat sid' = some x → ∃ x', (d.set sid F).seat sid' = some x' ∧
      (x' = x ∧ sid' ≠ sid ∨ sid' = sid ∧ x' = F x ∧ Seat.Moves registry sid x x') := by
    intro sid' x hx
    by_cases heq : sid' = sid
    · subst heq
      exact ⟨F x, Desk.seat_set_self hx F, Or.inr ⟨rfl, rfl, hF x hx⟩⟩
    · exact ⟨x, (Desk.seat_set_of_ne heq F).trans hx, Or.inl ⟨rfl, heq⟩⟩
  constructor
  · intro sid' m hm
    obtain ⟨x, hx, hstarted⟩ := h.running sid' m hm
    obtain ⟨x', hx', ⟨rfl, -⟩ | ⟨-, -, hmoves⟩⟩ := hseat sid' x hx
    · exact ⟨x', hx', hstarted⟩
    · exact ⟨x', hx', hmoves.started hstarted⟩
  · intro t m sid' stage hm hclosing
    obtain ⟨x, hx, hclosed, hstage⟩ := h.closing t m sid' stage hm hclosing
    obtain ⟨x', hx', ⟨rfl, -⟩ | ⟨-, -, hmoves⟩⟩ := hseat sid' x hx
    · exact ⟨x', hx', hclosed, hstage⟩
    · exact ⟨x', hx', hmoves.closed hclosed, hstage.moves hmoves⟩
  · intro sid' x' hx'
    by_cases heq : sid' = sid
    · subst heq
      simp only [Desk.set, if_true] at hx'
      obtain ⟨x, hx, rfl⟩ := Option.map_eq_some_iff.mp hx'
      exact (hF x hx).ok
    · exact h.seats sid' x' ((Desk.seat_set_of_ne heq F).symm.trans hx')
  · intro server uid sid' hreg
    obtain ⟨hserver, x, hx, hpos, huid, hcleared⟩ := h.registry server uid sid' (hback _ _ _ hreg)
    obtain ⟨x', hx', ⟨rfl, -⟩ | ⟨rfl, -, hmoves⟩⟩ := hseat sid' x hx
    · exact ⟨hserver, x', hx', hpos, huid, hcleared⟩
    · refine ⟨hserver, x', hx', hpos, (hmoves.uid (huid ▸ hpos)).trans huid, ?_⟩
      rw [← Bool.not_eq_true]
      intro hnew
      rcases hmoves.registered hnew with hold | hnot
      · rw [hcleared] at hold
        cases hold
      · exact hnot server uid hreg
  · intro server uid sid' hbound
    obtain ⟨x, hx, hreg⟩ := h.bound server uid sid' hbound
    obtain ⟨x', hx', ⟨rfl, hne⟩ | ⟨rfl, rfl, hmoves⟩⟩ := hseat sid' x hx
    · refine ⟨x', hx', fun hnot => ?_⟩
      exact (hforth server uid sid' (hreg hnot)).resolve_right fun h => hne h.1
    · refine ⟨F x, hx', fun hnot => ?_⟩
      have hold : x.cleared = false := by
        rw [← Bool.not_eq_true] at hnot ⊢
        exact fun hold => hnot (hmoves.cleared hold)
      refine (hforth server uid sid' (hreg hold)).resolve_right fun h => ?_
      rw [h.2 x] at hnot
      cases hnot

theorem Desk.Ok.set (h : d.Ok g)
    (hF : ∀ x, d.seat sid = some x → Seat.Moves d.registry sid x (F x)) :
    (d.set sid F).Ok g :=
  h.change hF (fun _ _ _ h => h) fun _ _ _ h => Or.inl h

theorem Desk.Ok.goes (h : d.Ok g) (hm : g t = some m)
    (hclosing : ∀ sid stage, m'.closing = some (sid, stage) → ∃ x, d.seat sid = some x ∧ x.closed =
      true ∧
      stage.Holds x) : d.Ok (update g t (some m')) := by
  refine ⟨fun sid n hn => ?_, fun t' n sid stage hn hn' => ?_, h.seats, h.registry, h.bound⟩
  · by_cases heq : Worker.session sid = t
    · exact h.running sid m (heq ▸ hm)
    · rw [update_of_ne heq] at hn
      exact h.running sid n hn
  · rcases update_cases hn with ⟨rfl, hnew⟩ | ⟨heq, hn⟩
    · cases hnew
      exact hclosing sid stage hn'
    · exact h.closing t' n sid stage hn hn'

theorem Desk.Ok.goes_same (h : d.Ok g) (hm : g t = some m) (hclosing : m'.closing = m.closing) :
    d.Ok (update g t (some m')) :=
  h.goes hm fun sid stage hstage => h.closing t m sid stage hm (hclosing ▸ hstage)

/-! ## The effects -/

section Effects

variable {setup : Setup} {s s' : Shared}

theorem Shared.seat_of_get {x : Session} (h : s.sessions.get sid = some x) :
    s.desk.seat sid = some x.seat := by
  simp only [Shared.desk, h, Option.map_some]

theorem Desk.Ok.onSession (h : s.desk.Ok g) (hm : g t = some m) {α : Type} {read : Session → α}
    {f : Session → Session} {F : Seat → Seat} {r : α} {n : α → Ghost}
    (hperform : s.onSession sid read f = some (r, s')) (hseat : ∀ x, (f x).seat = F x.seat)
    (hF : ∀ x, s.desk.seat sid = some x → x.Ok → Seat.Moves s.registry sid x (F x))
    (hnext : ∀ x, s.sessions.get sid = some x → ∀ sid' stage, (n (read x)).closing =
      some (sid', stage) →
      m.closing = some (sid', stage) ∨ sid' = sid ∧ (F x.seat).closed = true ∧ stage.Holds
      (F x.seat)) :
    s'.desk.Ok (update g t (some (n r))) := by
  obtain ⟨x, hx, rfl, rfl⟩ := Shared.onSession_eq_some hperform
  rw [s.desk_update sid hseat]
  have hmoved := h.set fun y hy => hF y hy (h.seats sid y hy)
  refine hmoved.goes hm fun sid' stage hstage => ?_
  rcases hnext x hx sid' stage hstage with hold | ⟨rfl, hclosed, hholds⟩
  · exact hmoved.closing t m sid' stage hm hold
  · exact ⟨F x.seat, Desk.seat_set_self (Shared.seat_of_get hx) F, hclosed, hholds⟩

theorem Desk.Ok.listed_of_registered (h : d.Ok g) {x : Seat} (hx : d.seat sid = some x)
    (hnot : x.listed = false ∨ x.uid ≤ 0) : ∀ server uid, d.registry server uid ≠ some sid := by
  intro server uid hreg
  obtain ⟨-, y, hy, hpos, huid, hcleared⟩ := h.registry server uid sid hreg
  cases hx.symm.trans hy
  have hok := h.seats sid x hx
  rcases hnot with hlisted | hle
  · rcases hok.listed (hok.started (huid ▸ hpos)) with hl | hc
    · rw [hlisted] at hl
      cases hl
    · rw [hcleared] at hc
      cases hc
  · exact absurd hpos (not_lt.mpr (huid ▸ hle))

theorem Seat.Moves.refl {x : Seat} (h : x.Ok) (registry : ServerName → Uid → Option Sid) :
    Seat.Moves registry sid x x :=
  ⟨fun h => h, fun h => h, fun _ => rfl, fun h => h, h, Or.inl⟩

/-- A closed seat is cleared once it is not registered. -/
theorem Seat.Ok.clear {x : Seat} (h : x.Ok) (hclosed : x.closed = true) {b : Bool}
    {registry : ServerName → Uid → Option Sid}
    (hb : b = true → ∀ server uid, registry server uid ≠ some sid) :
    Seat.Moves registry sid x { x with cleared := x.cleared || b } where
  started := id
  closed := id
  uid _ := rfl
  cleared hc := by simp [hc]
  ok := ⟨fun hs => (h.listed hs).imp_right fun hc => by simp [hc], h.started, fun _ => hclosed⟩
  registered hc := ((Bool.or_eq_true ..).mp hc).imp_right hb

theorem Desk.Ok.add (h : d.Ok g) (hnew : d.seat sid = none) :
    ({ d with seat := update d.seat sid (some {}) } : Desk).Ok g := by
  have hkept : ∀ sid' x, d.seat sid' = some x → update d.seat sid (some {}) sid' = some x := by
    intro sid' x hx
    have hne : sid' ≠ sid := by
      rintro rfl
      rw [hnew] at hx
      cases hx
    exact (update_of_ne hne ..).trans hx
  refine ⟨fun sid' m hm => ?_, fun t m sid' stage hm hstage => ?_, fun sid' x hx => ?_,
    fun server uid sid' hreg => ?_, fun server uid sid' hbound => ?_⟩
  · obtain ⟨x, hx, hstarted⟩ := h.running sid' m hm
    exact ⟨x, hkept sid' x hx, hstarted⟩
  · obtain ⟨x, hx, hrest⟩ := h.closing t m sid' stage hm hstage
    exact ⟨x, hkept sid' x hx, hrest⟩
  · by_cases heq : sid' = sid
    · subst heq
      dsimp only at hx
      rw [update_self] at hx
      cases hx
      exact ⟨nofun, fun hpos => absurd hpos (lt_irrefl 0), nofun⟩
    · exact h.seats sid' x ((update_of_ne heq ..).symm.trans hx)
  · obtain ⟨hserver, x, hx, hrest⟩ := h.registry server uid sid' hreg
    exact ⟨hserver, x, hkept sid' x hx, hrest⟩
  · obtain ⟨x, hx, hrest⟩ := h.bound server uid sid' hbound
    exact ⟨x, hkept sid' x hx, hrest⟩

theorem Desk.Ok.setUid (h : d.Ok g) (hm : g (.session sid) = some m) {x : Seat}
    (hx : d.seat sid = some x)
    (hnone : x.uid ≤ 0) (uid : Uid) : (d.set sid fun x => { x with uid := uid }).Ok g := by
  refine h.set fun y hy => ?_
  cases hx.symm.trans hy
  obtain ⟨y, hy, hstarted⟩ := h.running sid m hm
  cases hx.symm.trans hy
  have hok := h.seats sid x hx
  exact ⟨fun h => h, fun h => h, fun hpos => absurd hpos (not_lt.mpr hnone), fun h => h,
    ⟨hok.listed, fun _ => hstarted, hok.closed⟩, Or.inl⟩

theorem Desk.Ok.register (h : d.Ok g) {x : Seat} {uid : Uid} (hx : d.seat sid = some x)
    (hpos : 0 < uid) (huid : x.uid = uid) (hclear : x.cleared = false) :
    ({ d with
      registry := update d.registry sid.server
        (update (d.registry sid.server) uid (some sid))
      bound := update d.bound sid.server
        (update (d.bound sid.server) uid (some sid)) } : Desk).Ok g := by
  -- the place of the user on the server, or another one
  have hplace : ∀ (f : ServerName → Uid → Option Sid) server u,
      update f sid.server (update (f sid.server) uid (some sid)) server u =
        if server = sid.server ∧ u = uid then some sid else f server u := by
    intro f server u
    by_cases hs : server = sid.server
    · subst hs
      rw [update_self]
      by_cases hu : u = uid
      · subst hu
        simp
      · rw [update_of_ne hu, if_neg fun h => hu h.2]
    · rw [update_of_ne hs, if_neg fun h => hs h.1]
  refine ⟨h.running, h.closing, h.seats, fun server u sid' hreg => ?_,
    fun server u sid' hbound => ?_⟩
  · dsimp only at hreg
    rw [hplace] at hreg
    split at hreg
    · rename_i hat
      cases hreg
      exact ⟨hat.1.symm, x, hx, hat.2 ▸ hpos, hat.2 ▸ huid, hclear⟩
    · exact h.registry server u sid' hreg
  · dsimp only at hbound ⊢
    rw [hplace] at hbound ⊢
    split at hbound
    · rename_i hat
      cases hbound
      exact ⟨x, hx, fun _ => if_pos hat⟩
    · rename_i hnot
      rw [if_neg hnot]
      exact h.bound server u sid' hbound

theorem Desk.Ok.remove (h : d.Ok g) {x : Seat} {uid : Uid} (hx : d.seat sid = some x)
    (huid : x.uid = uid) (hclosed : x.closed = true) :
    ({ d.set sid (fun x => { x with cleared := true }) with
      registry := if d.registry sid.server uid = some sid then
        update d.registry sid.server (update (d.registry sid.server) uid none)
      else d.registry } : Desk).Ok g := by
  -- the place of the session becomes empty, every other one is as before
  have hplace : ∀ server u, (if d.registry sid.server uid = some sid then
        update d.registry sid.server (update (d.registry sid.server) uid none)
      else d.registry) server u =
      if d.registry server u = some sid then none else d.registry server u := by
    intro server u
    by_cases hreg : d.registry server u = some sid
    · obtain ⟨hserver, y, hy, hpos, hyuid, -⟩ := h.registry server u sid hreg
      cases hx.symm.trans hy
      obtain rfl : u = uid := hyuid.symm.trans huid
      subst hserver
      rw [if_pos hreg, if_pos hreg, update_self, update_self]
    · rw [if_neg hreg]
      split
      · rename_i hat
        by_cases hs : server = sid.server
        · subst hs
          have hu : u ≠ uid := fun hu => hreg (hu ▸ hat)
          rw [update_self, update_of_ne hu]
        · rw [update_of_ne hs]
      · rfl
  have hok := h.seats sid x hx
  refine h.change (fun y hy => ?_) (fun server u sid' hreg => ?_) fun server u sid' hreg => ?_
  · cases hx.symm.trans hy
    refine ⟨fun h => h, fun h => h, fun _ => rfl, fun _ => rfl,
      ⟨fun _ => Or.inr rfl, hok.started, fun _ => hclosed⟩, fun _ => Or.inr ?_⟩
    intro server u
    rw [hplace]
    split
    · nofun
    · assumption
  · rw [hplace] at hreg
    split at hreg
    · cases hreg
    · exact hreg
  · rw [hplace, hreg]
    by_cases heq : sid' = sid
    · exact Or.inr ⟨heq, fun _ => rfl⟩
    · exact Or.inl (if_neg fun h => heq (Option.some.inj h))

theorem seat_of_core {y : Core} (h : s.vital.core sid = some y) :
    ∃ x, s.desk.seat sid = some x ∧ x.uid = y.uid := by
  obtain ⟨x, hx, rfl⟩ := Option.map_eq_some_iff.mp h
  exact ⟨x.seat, Shared.seat_of_get hx, rfl⟩

variable {p : Pick}

theorem ok_session (h : s.desk.Ok g) (hm : g t = some m) (hlocal : Local setup s.vital t m)
    {c : SessionCall}
    (hallow : c.Allow m) {r : c.Answer}
    (htime : ∀ uid sid, c = .setUserSession uid sid → ∀ x, s.sessions.get sid = some x → x.cleared =
      false)
    (hp : c.perform p s = some (r, s')) : s'.desk.Ok (update g t (some (c.next m r))) := by
  cases c with
  | newSession server =>
    obtain ⟨hnew, hp⟩ := Option.ite_none_right_eq_some.mp hp
    cases hp
    have hseat : s.desk.seat ⟨server, p.id⟩ = none := by
      simp only [Shared.desk, hnew, Option.map_none]
    rw [Shared.desk_insert hnew]
    exact (h.add hseat).goes_same hm rfl
  | insertSession sid =>
    simp only [SessionCall.perform] at hp
    split at hp
    · refine h.onSession (F := fun x => { x with listed := true, started := true })
        (n := fun _ => m) hm hp (fun _ => rfl) (fun x hx hok => ?_) fun x _ _ _ h => Or.inl h
      exact ⟨fun _ => rfl, fun h => h, fun _ => rfl, fun h => h,
        ⟨fun _ => Or.inl rfl, fun _ => rfl, hok.closed⟩, Or.inl⟩
    · cases hp
      exact h.goes_same hm rfl
  | sessionCount server | getSession server uid =>
    cases hp
    exact h.goes_same hm rfl
  | isClosed sid =>
    exact h.onSession (F := id) (n := fun _ => m) hm hp (fun _ => rfl)
      (fun x _ hok => .refl hok _) fun x _ _ _ h => Or.inl h
  | getUserId sid =>
    exact h.onSession (F := id) (n := (SessionCall.getUserId sid).next m) hm hp (fun _ => rfl)
      (fun x _ hok => .refl hok _) fun x _ _ _ h => Or.inl h
  | setUserId sid uid =>
    obtain ⟨hself, hunbound, -⟩ := hallow
    obtain ⟨rfl, y, hy, hnone⟩ : t = .session sid ∧ _ := hlocal.facts _ hunbound
    obtain ⟨x, hx, huid⟩ := seat_of_core hy
    simp only [SessionCall.perform] at hp
    split at hp
    · cases hp
    · cases hp
      have hdesk : (s.update sid fun x => { x with uid := uid }).desk =
          s.desk.set sid fun x => { x with uid := uid } := s.desk_update sid fun _ => rfl
      show (s.update sid fun x => { x with uid := uid }).desk.Ok _
      rw [hdesk]
      exact (h.setUid hm hx (huid ▸ hnone) uid).goes_same hm rfl
  | exchangeClosed sid =>
    refine h.onSession (F := fun x => { x with closed := true })
      (n := (SessionCall.exchangeClosed sid).next m) hm hp (fun _ => rfl) (fun x hx hok => ?_)
      fun x _ sid' stage hstage => ?_
    · exact ⟨fun h => h, fun _ => rfl, fun _ => rfl, fun h => h,
        ⟨hok.listed, hok.started, fun _ => rfl⟩, Or.inl⟩
    · simp only [SessionCall.next] at hstage
      split at hstage
      · exact Or.inl hstage
      · cases hstage
        exact Or.inr ⟨rfl, rfl, trivial⟩
  | findSession sid =>
    obtain ⟨y, hy, hclosed, -⟩ := h.closing t m sid _ hm hallow
    refine h.onSession (F := fun x => { x with cleared := x.cleared || !x.listed })
      (n := (SessionCall.findSession sid).next m) hm hp (fun _ => rfl) (fun x hx hok => ?_)
      fun x hx sid' stage hstage => ?_
    · cases hx.symm.trans hy
      exact hok.clear hclosed fun hnot => h.listed_of_registered hx (Or.inl (by simpa using hnot))
    · cases hy.symm.trans (Shared.seat_of_get hx)
      cases hstage
      refine Or.inr ⟨rfl, hclosed, ?_⟩
      cases hlisted : x.listed with
      | true => simp [Clearing.Holds]
      | false => simp [Clearing.Holds, Session.seat, hlisted]
  | clearUserId sid =>
    obtain ⟨y, hy, hclosed, -⟩ := h.closing t m sid _ hm hallow
    refine h.onSession (F := fun x => { x with cleared := x.cleared || decide (x.uid ≤ 0) })
      (n := (SessionCall.clearUserId sid).next m) hm hp (fun _ => rfl) (fun x hx hok => ?_)
      fun x hx sid' stage hstage => ?_
    · cases hx.symm.trans hy
      exact hok.clear hclosed fun hle => h.listed_of_registered hx (Or.inr (of_decide_eq_true hle))
    · cases hy.symm.trans (Shared.seat_of_get hx)
      cases hstage
      refine Or.inr ⟨rfl, hclosed, ?_⟩
      by_cases hpos : 0 < x.uid
      · rw [if_pos hpos]
        exact ⟨hpos, rfl⟩
      · rw [if_neg hpos]
        simp only [Clearing.Holds, Session.seat, not_lt.mp hpos, decide_true, Bool.or_true]
  | eraseSession sid =>
    obtain ⟨y, hy, hclosed, hcleared⟩ := h.closing t m sid _ hm hallow
    refine h.onSession (F := fun x => { x with listed := false })
      (n := fun _ => { m with closing := none }) hm hp (fun _ => rfl) (fun x hx hok => ?_)
      fun _ _ _ _ => by rintro ⟨⟩
    cases hx.symm.trans hy
    exact ⟨fun h => h, fun h => h, fun _ => rfl, fun h => h,
      ⟨fun _ => Or.inr hcleared, hok.started, hok.closed⟩, Or.inl⟩
  | push sid f =>
    cases hp
    cases p.flag with
    | true | false => exact h.goes_same hm rfl
  | setUserSession uid sid =>
    obtain ⟨-, hbound⟩ := hallow
    obtain ⟨hpos, y, hy, huid⟩ := hlocal.facts _ hbound
    obtain ⟨x, hx, rfl⟩ := Option.map_eq_some_iff.mp hy
    cases hp
    exact (h.register (Shared.seat_of_get hx) hpos huid (htime uid sid rfl x hx)).goes_same hm rfl
  | rmvUserSession uid sid =>
    obtain ⟨x, hx, hclosed, hpos, huid⟩ := h.closing t m sid _ hm hallow
    have hremove := h.remove hx huid hclosed
    have hgoes : s'.desk = { s.desk.set sid (fun x => { x with cleared := true }) with
        registry := if s.desk.registry sid.server uid = some sid then
          update s.desk.registry sid.server
            (update (s.desk.registry sid.server) uid none)
        else s.desk.registry } := by
      have hdesk : (s.update sid fun x => { x with cleared := true }).desk =
          s.desk.set sid fun x => { x with cleared := true } := s.desk_update sid fun _ => rfl
      rw [← hdesk]
      simp only [SessionCall.perform, Option.some.injEq, Prod.mk.injEq] at hp
      rw [← hp.2]
      by_cases hat : s.registry sid.server uid = some sid
      · rw [if_pos hat, if_pos (show s.desk.registry sid.server uid = some sid from hat)]
        rfl
      · rw [if_neg hat, if_neg (show ¬ s.desk.registry sid.server uid = some sid from hat)]
        rfl
    rw [hgoes]
    refine hremove.goes hm fun sid' stage hstage => ?_
    cases hstage
    exact ⟨_, Desk.seat_set_self hx _, hclosed, rfl⟩

/-! ### Other effects -/

theorem Shared.desk_redeem (s : Shared) (t : Worker) (key : Bytes) :
    (s.redeem t key).desk = s.desk := by
  unfold Shared.redeem
  split
  · rename_i sid token _
    exact s.desk_update_same sid (f := fun x => { x with ticket := some (token, s.now) })
      fun _ => rfl
  · rfl

theorem Shared.desk_issue (s : Shared) (key : Bytes) (value : RedisValue) :
    (s.issue key value).desk = s.desk := by
  unfold Shared.issue
  split <;> rfl

theorem Shared.desk_noteCheck (s : Shared) (t : Worker) (q : Query) :
    (s.noteCheck t q).desk = s.desk := by
  unfold Shared.noteCheck
  split
  · rename_i sid a b
    exact s.desk_update_same sid
      (f := fun x => { x with checks := (a, b, s.sql.db.mutual a b) :: x.checks }) fun _ => rfl
  · rfl

theorem desk_withFault {s₁ : Shared} (h : s₁.desk = s.desk) (fault : Fault) :
    (withFault fault s s₁).2.desk = s.desk := by
  cases fault with
  | ok | lost => exact h
  | refused => rfl

theorem desk_redis (c : RedisCall) (t : Worker) (fault : Fault) :
    (c.perform t fault s).2.desk = s.desk := by
  cases c with
  | get key => cases fault <;> rfl
  | getDel key =>
    simp only [RedisCall.perform]
    split
    · rfl
    · rfl
    · exact (Shared.desk_redeem ..).trans rfl
    · rfl
  | set key value | setEx key value ttl | del key =>
    refine desk_withFault ?_ fault
    rfl
  | setExNx key value ttl =>
    simp only [RedisCall.perform]
    split
    · rfl
    · refine desk_withFault ?_ fault
      exact Shared.desk_issue ..

theorem desk_orLost {α : Type} {a : α} {s₁ : Shared} (h : s₁.desk = s.desk) (fault : Fault) :
    (orLost fault a s s₁).2.desk = s.desk := by
  cases fault with
  | ok | lost => exact h
  | refused => rfl

theorem desk_db {c : DbCall} {r : c.Answer} (h : c.perform setup t p s = some (r, s')) :
    s'.desk = s.desk := by
  have hlost : ∀ {α : Type} {a : α} {b : Option α} {s₁ : Shared},
      some (orLost p.fault a s s₁) = some (b, s') → s₁.desk = s.desk → s'.desk = s.desk := by
    intro α a b s₁ h hs
    have heq : (orLost p.fault a s s₁).2 = s' := congrArg Prod.snd (Option.some.inj h)
    rw [← heq]
    exact desk_orLost hs p.fault
  cases c with
  | getConnection | returnConnection =>
    cases h
    rfl
  | setAutoCommit on | commit | rollback => exact hlost h rfl
  | query q =>
    simp only [DbCall.perform, Query.perform] at h
    split at h
    · cases h
      rfl
    · cases h
    · split at h
      · exact hlost h (s.desk_noteCheck t q)
      · cases h

theorem desk_takeJob {job : Job} (h : s.takeJob sid job = some s') : s'.desk = s.desk := by
  have hsame : (s.update sid fun x => { x with job := some job, checks := [] }).desk = s.desk :=
    s.desk_update_same sid fun _ => rfl
  cases job with
  | frame f | tick =>
    cases h
    exact hsame
  | wake uid =>
    obtain ⟨-, h⟩ := Option.ite_none_right_eq_some.mp h
    cases h
    exact hsame

theorem desk_logic {c : LogicCall} {r : c.Answer} (h : c.perform p s = some (r, s')) :
    s'.desk = s.desk := by
  cases c with
  | nextJob sid =>
    obtain ⟨s₁, hs₁, heq⟩ := Option.map_eq_some_iff.mp h
    cases heq
    exact desk_takeJob hs₁
  | jobDone sid =>
    cases h
    exact s.desk_update_same sid (f := fun x => { x with job := none }) fun _ => rfl
  | postWake sid uid | postNotification server touid messages =>
    cases h
    cases p.flag <;> rfl
  | nextNotification server =>
    simp only [LogicCall.perform] at h
    split at h
    · cases h
    · split at h
      · cases h
        rfl
      · cases h
  | delivery sid =>
    obtain ⟨x, -, -, rfl⟩ := Shared.onSession_eq_some h
    exact s.desk_update_same sid fun _ => rfl
  | setDelivery sid state =>
    cases h
    exact s.desk_update_same sid (f := fun x => { x with delivery := state }) fun _ => rfl
  | eraseDelivery sid =>
    cases h
    exact s.desk_update_same sid (f := fun x => { x with delivery := {} }) fun _ => rfl
  | steadyNow =>
    cases h
    rfl

theorem desk_peer {c : PeerCall} {r : c.Answer} (h : c.perform t p s = some (r, s')) :
    s'.desk = s.desk := by
  cases c with
  | notify server request | pendingResources uid =>
    cases h
    rfl
  | newToken =>
    simp only [PeerCall.perform] at h
    split at h
    · cases h
    · cases h
      rfl
  | selectServer healthy_servers =>
    simp only [PeerCall.perform] at h
    split at h
    · cases h
      rfl
    · cases h
      rfl

theorem closing_next {e : Call} (he : ∀ c, e ≠ .session c) (r : e.Answer) :
    (e.next m r).closing = m.closing := by
  cases e with
  | redis c =>
    cases c with
    | get key => cases r <;> rfl
    | getDel key =>
      cases r with
      | none => rfl
      | some v =>
        simp only [Call.next, RedisCall.next]
        split <;> rfl
    | _ => rfl
  | db c =>
    cases c with
    | setAutoCommit on | commit | rollback => cases r <;> rfl
    | _ => rfl
  | session c => exact absurd rfl (he c)
  | logic c | peer c => cases c <;> rfl

end Effects

/-! ## Runs -/

variable {setup : Setup} {c : ChatConfig}

/-- The effect does not register a session that `ClearSession` has passed. -/
def inTime (s : Shared) : Call → Bool
  | .session (.setUserSession _ sid) => (s.sessions.get sid).all fun x => !x.cleared
  | _ => true

/-- The cluster, and the thread that has set the flag of each closed session. -/
structure Watch where
  shared : Shared
  closer : Sid → Option Worker := fun _ => none

def noteClose (t : Worker) (closer : Sid → Option Worker) :
    (e : Call) → e.Answer → Sid → Option Worker
  | .session (.exchangeClosed sid), closed => if closed then closer else update closer sid (some t)
  | _, _ => closer

/-- The cluster, as long as no login comes too late and no server crashes. -/
def orderly (setup : Setup) : System Worker Call Call.Answer (Except Unit Unit) Watch where
  init w := (cluster setup).init w.shared ∧ w.closer = fun _ => none
  exec t e w r w' := inTime w.shared e = true ∧ (cluster setup).exec t e w.shared r w'.shared ∧
    w'.closer = noteClose t w.closer e r
  start t w := (cluster setup).start t w.shared
  stop t p w w' := (cluster setup).stop t p w.shared w'.shared ∧ w'.closer = w.closer
  env w w' := (cluster setup).env w.shared w'.shared ∧ w'.closer = w.closer

variable {s : Shared}

/-! ### Sessions on the way -/

/-- A closed session is cleared, or the thread that closed it is on its way to that. -/
def Desk.Followed (d : Desk) (g : Worker → Option Ghost) (closer : Sid → Option Worker) : Prop :=
  ∀ sid x, d.seat sid = some x → x.closed = true → x.cleared = true ∨
    ∃ t m stage, closer sid = some t ∧ g t = some m ∧ m.closing = some (sid, stage)

section Followed

variable {d' : Desk} {closer : Sid → Option Worker} {s' : Shared} {p : Pick}

/-- A thread goes on: it closes no session, and those it was at are cleared or it is still at them.
-/
theorem Desk.Followed.goes (h : d.Followed g closer) (hm : g t = some m)
    (hseat : ∀ sid x', d'.seat sid = some x' → x'.closed = true →
      ∃ x, d.seat sid = some x ∧ x.closed = true ∧ (x.cleared = true → x'.cleared = true))
    (hclosing : ∀ sid stage, m.closing = some (sid, stage) →
      (∃ stage', m'.closing = some (sid, stage')) ∨ ∀ x', d'.seat sid = some x' → x'.cleared =
      true) :
    d'.Followed (update g t (some m')) closer := by
  intro sid x' hx' hclosed
  obtain ⟨x, hx, hclosed, hcleared⟩ := hseat sid x' hx' hclosed
  refine (h sid x hx hclosed).elim (fun hc => Or.inl (hcleared hc)) ?_
  rintro ⟨t', n, stage, hcloser, hn, hstage⟩
  by_cases heq : t' = t
  · subst heq
    cases hm.symm.trans hn
    exact (hclosing sid stage hstage).symm.imp (fun hall => hall x' hx') fun ⟨stage', hstage'⟩ =>
      ⟨t', m', stage', hcloser, update_self .., hstage'⟩
  · exact Or.inr ⟨t', n, stage, hcloser, (update_of_ne heq ..).trans hn, hstage⟩

theorem Desk.seat_set {sid' : Sid} {x' : Seat} (h : (d.set sid F).seat sid' = some x') :
    ∃ x, d.seat sid' = some x ∧ (x' = x ∨ sid' = sid ∧ x' = F x) := by
  by_cases heq : sid' = sid
  · subst heq
    simp only [Desk.set, if_true] at h
    obtain ⟨x, hx, rfl⟩ := Option.map_eq_some_iff.mp h
    exact ⟨x, hx, Or.inr ⟨rfl, rfl⟩⟩
  · exact ⟨x', (Desk.seat_set_of_ne heq F).symm.trans h, Or.inl rfl⟩

/-- A call on a session that does not set its flag. -/
theorem Desk.Followed.set (h : d.Followed g closer) (hm : g t = some m)
    (hseats : d'.seat = (d.set sid F).seat)
    (hF : ∀ x, (F x).closed = x.closed ∧ (x.cleared = true → (F x).cleared = true))
    (hclosing : ∀ sid' stage, m.closing = some (sid', stage) →
      (∃ stage', m'.closing = some (sid', stage')) ∨
      sid' = sid ∧ ∀ x, d.seat sid = some x → (F x).cleared = true) :
    d'.Followed (update g t (some m')) closer := by
  refine h.goes hm (fun sid' x' hx' hclosed => ?_) fun sid' stage hstage => ?_
  · rw [hseats] at hx'
    obtain ⟨x, hx, rfl | ⟨rfl, rfl⟩⟩ := Desk.seat_set hx'
    · exact ⟨x', hx, hclosed, id⟩
    · exact ⟨x, hx, (hF x).1 ▸ hclosed, (hF x).2⟩
  · refine (hclosing sid' stage hstage).imp_right ?_
    rintro ⟨rfl, hcleared⟩ x' hx'
    rw [hseats] at hx'
    simp only [Desk.set, if_true] at hx'
    obtain ⟨x, hx, rfl⟩ := Option.map_eq_some_iff.mp hx'
    exact hcleared x hx

theorem Desk.Followed.goes_same (h : d.Followed g closer) (hm : g t = some m)
    (hseats : d'.seat = d.seat)
    (hclosing : m'.closing = m.closing) : d'.Followed (update g t (some m')) closer :=
  h.goes hm (fun _ x hx hclosed => ⟨x, hseats ▸ hx, hclosed, id⟩)
    fun _ stage hstage => Or.inl ⟨stage, hclosing.trans hstage⟩

theorem Desk.Followed.onSession (h : s.desk.Followed g closer) (hm : g t = some m) {α : Type}
    {read : Session → α} {f : Session → Session} {r : α}
    (hp : s.onSession sid read f = some (r, s'))
    (hseat : ∀ x, (f x).seat = F x.seat)
    (hF : ∀ x, (F x).closed = x.closed ∧ (x.cleared = true → (F x).cleared = true))
    (hclosing : ∀ sid' stage, m.closing = some (sid', stage) →
      (∃ stage', m'.closing = some (sid', stage')) ∨
      sid' = sid ∧ ∀ x, s.desk.seat sid = some x → (F x).cleared = true) :
    s'.desk.Followed (update g t (some m')) closer := by
  obtain ⟨x, -, -, rfl⟩ := Shared.onSession_eq_some hp
  exact h.set hm (congrArg Desk.seat (s.desk_update sid hseat)) hF hclosing

/-- The flag of a session is set by one thread, which then is at closing it. -/
theorem followed_exchangeClosed (h : s.desk.Followed g closer) (hm : g t = some m)
    (hfree : m.closing = none)
    {closed : Bool} (hp : (SessionCall.exchangeClosed sid).perform p s = some (closed, s')) :
    s'.desk.Followed (update g t (some ((SessionCall.exchangeClosed sid).next m closed)))
      (noteClose t closer (.session (.exchangeClosed sid)) closed) := by
  obtain ⟨x₀, hx₀, rfl, rfl⟩ := Shared.onSession_eq_some hp
  intro sid' x' hx' hclosed
  rw [s.desk_update sid (F := fun x => { x with closed := true }) fun _ => rfl] at hx'
  obtain ⟨x, hx, hx'⟩ := Desk.seat_set hx'
  cases hold : x₀.closed with
  | true =>
    have hset : x.closed = true ∧ x'.cleared = x.cleared := by
      rcases hx' with rfl | ⟨rfl, rfl⟩
      · exact ⟨hclosed, rfl⟩
      · cases hx.symm.trans (Shared.seat_of_get hx₀)
        exact ⟨hold, rfl⟩
    rw [show (SessionCall.exchangeClosed sid).next m true = m from rfl, ← hm,
      Function.update_eq_self, hset.2]
    exact h sid' x hx hset.1
  | false =>
    by_cases heq : sid' = sid
    · subst heq
      exact Or.inr ⟨t, _, .flagged, update_self .., update_self .., rfl⟩
    · obtain rfl := hx'.resolve_right fun h => heq h.1
      refine (h sid' x' hx hclosed).imp_right ?_
      rintro ⟨t', n, stage, hcloser, hn, hstage⟩
      refine ⟨t', n, stage, (update_of_ne heq ..).trans hcloser, (update_of_ne ?_ ..).trans hn,
        hstage⟩
      rintro rfl
      cases hm.symm.trans hn
      rw [hfree] at hstage
      cases hstage

theorem followed_session (h : s.desk.Followed g closer) (hok : s.desk.Ok g) (hm : g t = some m)
    {c : SessionCall}
    (hallow : c.Allow m) {r : c.Answer} (hp : c.perform p s = some (r, s')) :
    s'.desk.Followed (update g t (some (c.next m r))) (noteClose t closer (.session c) r) := by
  have hsame : ∀ {m' : Ghost} {sid : Sid} {F : Seat → Seat}, m'.closing = m.closing → ∀ sid' stage,
      m.closing = some (sid', stage) → (∃ stage', m'.closing = some (sid', stage')) ∨
        sid' = sid ∧ ∀ x, s.desk.seat sid = some x → (F x).cleared = true :=
    fun hclosing _ stage hstage => Or.inl ⟨stage, hclosing.trans hstage⟩
  -- a thread that is at closing a session goes on with it
  have hon : ∀ {m' : Ghost} {sid : Sid} {stage₀ stage₁ : Clearing} {F : Seat → Seat},
      m.closing = some (sid, stage₀) → m'.closing = some (sid, stage₁) → ∀ sid' stage,
      m.closing = some (sid', stage) → (∃ stage', m'.closing = some (sid', stage')) ∨
        sid' = sid ∧ ∀ x, s.desk.seat sid = some x → (F x).cleared = true := by
    intro m' sid stage₀ stage₁ F hm hm' sid' stage hstage
    cases hm.symm.trans hstage
    exact Or.inl ⟨stage₁, hm'⟩
  cases c with
  | newSession server =>
    obtain ⟨hnew, hp⟩ := Option.ite_none_right_eq_some.mp hp
    cases hp
    rw [Shared.desk_insert hnew]
    refine h.goes hm (fun sid x hx hclosed => ?_) fun _ stage hstage => Or.inl ⟨stage, hstage⟩
    have hx : update s.desk.seat ⟨server, p.id⟩ (some {}) sid = some x := hx
    rcases update_cases hx with ⟨-, heq⟩ | ⟨-, hx⟩
    · cases heq
      cases hclosed
    · exact ⟨x, hx, hclosed, id⟩
  | insertSession sid =>
    simp only [SessionCall.perform] at hp
    split at hp
    · exact h.onSession (F := fun x => { x with listed := true, started := true }) hm hp
        (fun _ => rfl)
        (fun _ => ⟨rfl, id⟩) (hsame rfl)
    · cases hp
      exact h.goes_same hm rfl rfl
  | sessionCount server | getSession server uid | setUserSession uid sid =>
    cases hp
    exact h.goes_same hm rfl rfl
  | push sid f =>
    cases hp
    cases p.flag with
    | true | false => exact h.goes_same hm rfl rfl
  | isClosed sid | getUserId sid =>
    exact h.onSession (F := id) hm hp (fun _ => rfl) (fun _ => ⟨rfl, id⟩) (hsame rfl)
  | setUserId sid uid =>
    simp only [SessionCall.perform] at hp
    split at hp
    · cases hp
    · cases hp
      have hdesk : (s.update sid fun x => { x with uid := uid }).desk =
          s.desk.set sid fun x => { x with uid := uid } := s.desk_update sid fun _ => rfl
      exact h.set hm (congrArg Desk.seat hdesk) (fun _ => ⟨rfl, id⟩) (hsame rfl)
  | exchangeClosed sid => exact followed_exchangeClosed h hm hallow hp
  | findSession sid =>
    exact h.onSession (F := fun x => { x with cleared := x.cleared || !x.listed }) hm hp
      (fun _ => rfl)
      (fun x => ⟨rfl, fun hc => by simp [hc]⟩) (hon hallow rfl)
  | clearUserId sid =>
    exact h.onSession (F := fun x => { x with cleared := x.cleared || decide (x.uid ≤ 0) }) hm hp
      (fun _ => rfl)
      (fun x => ⟨rfl, fun hc => by simp [hc]⟩) (hon hallow rfl)
  | rmvUserSession uid sid =>
    refine h.set (F := fun x => { x with cleared := true }) hm ?_ (fun _ => ⟨rfl, fun _ => rfl⟩)
      (hon hallow rfl)
    have hdesk : (s.update sid fun x => { x with cleared := true }).desk =
        s.desk.set sid fun x => { x with cleared := true } := s.desk_update sid fun _ => rfl
    rw [← hdesk]
    simp only [SessionCall.perform, Option.some.injEq, Prod.mk.injEq] at hp
    rw [← hp.2]
    split <;> rfl
  | eraseSession sid =>
    obtain ⟨y, hy, -, hcleared⟩ := hok.closing t m sid _ hm hallow
    refine h.onSession (F := fun x => { x with listed := false }) hm hp (fun _ => rfl)
      (fun _ => ⟨rfl, id⟩)
      fun sid' stage hstage => Or.inr ?_
    cases (show m.closing = _ from hallow).symm.trans hstage
    refine ⟨rfl, fun x hx => ?_⟩
    cases hx.symm.trans hy
    exact hcleared

end Followed

theorem ok_perform {s' : Shared} {closer : Sid → Option Worker} (h : s.desk.Ok g)
    (hf : s.desk.Followed g closer)
    (hm : g t = some m) (hlocal : Local setup s.vital t m) {e : Call} (hallow : e.Allow m)
    (htime : inTime s e = true) {p : Pick} {r : e.Answer}
    (hp : perform setup t e p s = some (r, s')) :
    s'.desk.Ok (update g t (some (e.next m r))) ∧
      s'.desk.Followed (update g t (some (e.next m r))) (noteClose t closer e r) := by
  have hother : (∀ c, e ≠ .session c) → s'.desk = s.desk →
    s'.desk.Ok (update g t (some (e.next m r))) ∧
      s'.desk.Followed (update g t (some (e.next m r))) closer := by
    intro he hdesk
    rw [hdesk]
    exact ⟨h.goes_same hm (closing_next he r), hf.goes_same hm rfl (closing_next he r)⟩
  cases e with
  | redis c =>
    refine hother (by rintro _ ⟨⟩) ?_
    have heq : (c.perform t p.fault s).2 = s' := congrArg Prod.snd (Option.some.inj hp)
    rw [← heq]
    exact desk_redis c t p.fault
  | db c => exact hother (by rintro _ ⟨⟩) (desk_db hp)
  | session c =>
    refine ⟨ok_session h hm hlocal hallow (fun uid sid hc x hx => ?_) hp,
      followed_session hf h hm hallow hp⟩
    subst hc
    simpa only [inTime, hx, Option.all_some, Bool.not_eq_true'] using htime
  | logic c => exact hother (by rintro _ ⟨⟩) (desk_logic hp)
  | peer c => exact hother (by rintro _ ⟨⟩) (desk_peer hp)

theorem Desk.Ok.fewer (h : d.Ok g) {g' : Worker → Option Ghost}
    (hg : ∀ t m, g' t = some m → g t = some m) : d.Ok g' :=
  ⟨fun sid m hm => h.running sid m (hg _ m hm),
    fun t m sid stage hm => h.closing t m sid stage (hg t m hm), h.seats, h.registry, h.bound⟩

theorem Desk.Ok.starts (h : d.Ok g) (hclosing : m.closing = none)
    (hstarted : ∀ sid, t = .session sid → ∃ x, d.seat sid = some x ∧ x.started = true) :
    d.Ok (update g t (some m)) := by
  refine ⟨fun sid n hn => ?_, fun t' n sid stage hn hn' => ?_, h.seats, h.registry, h.bound⟩
  · by_cases heq : Worker.session sid = t
    · exact hstarted sid heq.symm
    · rw [update_of_ne heq] at hn
      exact h.running sid n hn
  · rcases update_cases hn with ⟨rfl, hnew⟩ | ⟨heq, hn⟩
    · cases hnew
      rw [hclosing] at hn'
      cases hn'
    · exact h.closing t' n sid stage hn hn'

theorem started_of_launch {l : Launch} {p : Svc Unit} (h : launch setup l s = some (t, p)) :
    ∀ sid, t = .session sid → ∃ x, s.desk.seat sid = some x ∧ x.started = true := by
  rintro sid rfl
  cases l with
  | job sid' =>
    obtain ⟨hstarted, h⟩ := Option.ite_none_right_eq_some.mp h
    cases h
    obtain ⟨x, hx, hx'⟩ := (Option.any_eq_true ..).mp hstarted
    exact ⟨x.seat, Shared.seat_of_get hx, hx'⟩
  | close sid' n =>
    simp only [launch] at h
    split at h <;> cases h
  | _ => cases h

theorem Desk.Ok.init (now steady : ℕ) (users : Table Uid UserInfo) :
    (Shared.fresh now steady users).desk.Ok fun _ => none := by
  have hseat : ∀ sid, (Shared.fresh now steady users).desk.seat sid = none := fun _ => rfl
  have hregistry : ∀ server uid, (Shared.fresh now steady users).desk.registry server uid = none :=
    fun _ _ => rfl
  have hbound : ∀ server uid, (Shared.fresh now steady users).desk.bound server uid = none :=
    fun _ _ => rfl
  constructor <;> simp [hseat, hregistry, hbound]

theorem ok_inductive (setup : Setup) : Inductive (orderly setup) discipline fun w g =>
    Inv setup w.shared.vital g ∧ w.shared.desk.Ok g ∧ w.shared.desk.Followed g w.closer where
  init := by
    rintro ⟨s, closer⟩ ⟨⟨now, steady, users, rfl⟩, -⟩
    exact ⟨Inv.init setup now steady users, .init now steady users, by rintro sid x ⟨⟩⟩
  env := by
    rintro ⟨s, closer⟩ ⟨s', closer'⟩ g ⟨hinv, hok, hfollowed⟩ ⟨henv, hcloser⟩
    obtain rfl : closer' = closer := hcloser
    refine ⟨hinv.env henv, ?_⟩
    obtain ⟨now, steady, users, -, -, -, rfl⟩ := henv
    exact ⟨hok, hfollowed⟩
  start := by
    rintro ⟨s, closer⟩ g t p ⟨hinv, hok, hfollowed⟩ hfree ⟨l, hl⟩
    refine ⟨_, meets_launch setup hl, hinv.start hfree (session_of_launch hl),
      hok.starts rfl (started_of_launch hl), fun sid x hx hclosed => ?_⟩
    refine (hfollowed sid x hx hclosed).imp_right ?_
    rintro ⟨t', m, stage, hcloser, hm, hstage⟩
    refine ⟨t', m, stage, hcloser, (update_of_ne ?_ ..).trans hm, hstage⟩
    rintro rfl
    cases hfree.symm.trans hm
  call := by
    rintro ⟨s, closer⟩ ⟨s', closer'⟩ g t m e r ⟨hinv, hok, hfollowed⟩ hm hallow
      ⟨htime, ⟨p, hp⟩, hcloser⟩
    obtain rfl : closer' = noteClose t closer e r := hcloser
    have hlocal := hinv.running t m hm
    obtain ⟨hexpect, htakes⟩ := takes_perform hinv.world hlocal hallow hp
    exact ⟨hexpect, hinv.update htakes, ok_perform hok hfollowed hm hlocal hallow htime hp⟩
  stop := by
    rintro ⟨s, closer⟩ ⟨s', closer'⟩ g t m p ⟨hinv, hok, hfollowed⟩ hm hmeets
      ⟨⟨⟨r, rfl⟩, hs⟩, hcloser⟩
    obtain rfl : s' = s := hs
    obtain rfl : closer' = closer := hcloser
    refine ⟨hinv.stop hm hmeets, hok.fewer fun t' n hn => ?_, fun sid x hx hclosed => ?_⟩
    · rcases update_cases hn with ⟨rfl, hnew⟩ | ⟨heq, hn⟩
      · cases hnew
      · exact hn
    · refine (hfollowed sid x hx hclosed).imp_right ?_
      rintro ⟨t', n, stage, hcloser, hn, hstage⟩
      refine ⟨t', n, stage, hcloser, (update_of_ne ?_ ..).trans hn, hstage⟩
      rintro rfl
      cases hm.symm.trans hn
      have hidle : m.Idle := hmeets
      rw [hidle.2] at hstage
      cases hstage
  crash := by
    rintro w w' g K - ⟨⟩

/-- **The registry, as long as no login comes too late.** The session last bound to a user is the
registered one while it is open, whatever other sessions of that user are closed. A registered
session has that user, and is open unless the thread that has closed it is still running. -/
theorem registry_current {c : Config Worker Call Call.Answer (Except Unit Unit) Watch}
    (hc : Reachable (orderly setup) c) (server : ServerName) (uid : Uid) :
    (∀ sid x, c.shared.shared.history.bound server uid = some sid →
      c.shared.shared.sessions.get sid = some x →
      x.closed = false → c.shared.shared.registry server uid = some sid) ∧
    ∀ sid, c.shared.shared.registry server uid = some sid →
      ∃ x, c.shared.shared.sessions.get sid = some x ∧ sid.server = server ∧ x.uid = uid ∧
        ((∀ t, c.shared.closer sid = some t → c.threads t = none) → x.closed = false) := by
  obtain ⟨g, ⟨-, h, hfollowed⟩, hthreads⟩ := reachable_invariant (ok_inductive setup) hc
  constructor
  · intro sid x hbound hx hopen
    obtain ⟨y, hy, hreg⟩ := h.bound server uid sid hbound
    cases (Shared.seat_of_get hx).symm.trans hy
    refine hreg ?_
    rw [← Bool.not_eq_true]
    intro hcleared
    have hclosed : x.closed = true := (h.seats sid x.seat hy).closed hcleared
    rw [hopen] at hclosed
    cases hclosed
  · intro sid hreg
    obtain ⟨hserver, y, hy, hpos, huid, hcleared⟩ := h.registry server uid sid hreg
    obtain ⟨x, hx, rfl⟩ := Option.map_eq_some_iff.mp hy
    refine ⟨x, hx, hserver, huid, fun hidle => ?_⟩
    rw [← Bool.not_eq_true]
    intro hclosed
    rcases hfollowed sid x.seat hy hclosed with hc | ⟨t, m, -, hcloser, hm, -⟩
    · rw [hcleared] at hc
      cases hc
    · rcases hthreads t with ⟨-, hnone⟩ | ⟨p, -, hp, -⟩
      · cases hm.symm.trans hnone
      · cases (hidle t hcloser).symm.trans hp

/-- Worker `t` in time. -/
def performInTime (setup : Setup) (t : Worker) (e : Call) (p : Pick) (w : Watch) :
    Option (e.Answer × Watch) :=
  if inTime w.shared e then
    (perform setup t e p w.shared).map fun r => (r.1, ⟨r.2, noteClose t w.closer e r.1⟩)
  else none

theorem orderly_playable (setup : Setup) :
    Playable (fun l w => launch setup l w.shared) (performInTime setup) (orderly setup) where
  launch l _ _ _ h := ⟨l, h⟩
  perform t e p w r w' h := by
    obtain ⟨htime, h⟩ := Option.ite_none_right_eq_some.mp h
    obtain ⟨⟨r', s'⟩, hr, heq⟩ := Option.map_eq_some_iff.mp h
    cases heq
    exact ⟨htime, ⟨p, hr⟩, rfl⟩
  finish _ a _ := ⟨⟨⟨a, rfl⟩, rfl⟩, rfl⟩

set_option maxRecDepth 10000 in
/-- Two users have logged in, and the session of the one is closed again. -/
theorem registry_current_sample : ∃ c, Reachable (orderly Sample.setup) c ∧
    c.shared.shared.registry (ascii "s1") 1 = none ∧ c.shared.closer (Sample.sid "x") ≠ none ∧
    c.shared.shared.registry (ascii "s1") 2 = some (Sample.sid "y") ∧
    ∃ x, c.shared.shared.sessions.get (Sample.sid "y") = some x ∧ x.uid = 2 ∧ x.closed = false := by
  have hplay : (play (fun l w => launch Sample.setup l w.shared) (performInTime Sample.setup)
      ⟨⟨Sample.start.shared, fun _ => none⟩, fun _ => none⟩
      (Sample.schedule ++ Sample.whole (.close (Sample.sid "x") 0) (.server (ascii "s1") 0)
        (List.replicate 5 {}))).any (fun c =>
          (c.shared.shared.registry (ascii "s1") 1 == none && c.shared.closer
            (Sample.sid "x") != none) &&
          (c.shared.shared.registry (ascii "s1") 2 == some (Sample.sid "y") &&
            c.shared.closer (Sample.sid "y") == none)) = true := by
    decide +kernel
  obtain ⟨c, hplay, h⟩ := (Option.any_eq_true ..).mp hplay
  simp only [Bool.and_eq_true, beq_iff_eq, bne_iff_ne] at h
  obtain ⟨⟨hgone, hcloser⟩, hreg, hopen⟩ := h
  have hc := (orderly_playable Sample.setup).play (.init ⟨⟨0, 0, _, rfl⟩, rfl⟩) hplay
  obtain ⟨x, hx, -, huid, hclosed⟩ := (registry_current hc (ascii "s1") 2).2 _ hreg
  refine ⟨c, hc, hgone, hcloser, hreg, x, hx, huid, hclosed fun t ht => ?_⟩
  rw [hopen] at ht
  cases ht

/-- A login whose session is closed before it is registered. -/
def Sample.late : List (Move Worker Launch Pick) :=
  whole (.publishHealth (ascii "s1") 0) (.server (ascii "s1") 0) [{}, {}] ++
  connect "x" ++ ticket 1 "t" ++
  -- up to the end of `SetUserId`
  .start (.job (Sample.sid "x")) ::
    .call (.session (Sample.sid "x")) { job := .frame (login 1 "t") } ::
    List.replicate 16 (.call (.session (Sample.sid "x")) {}) ++
  whole (.close (Sample.sid "x") 0) (.server (ascii "s1") 0) (List.replicate 5 {}) ++
  List.replicate 4 (.call (.session (Sample.sid "x")) {}) ++ [.finish (.session (Sample.sid "x"))]

set_option maxRecDepth 10000 in
/-- **A closed session stays registered.** No program runs for any session or on the server, and yet
the registered session of user 1 is closed. -/
theorem registry_stale : ∃ c, Reachable (cluster Sample.setup) c ∧
    (∀ sid x, c.shared.sessions.get sid = some x → c.threads (.session sid) = none) ∧
    c.threads (.server (ascii "s1") 0) = none ∧
    c.shared.registry (ascii "s1") 1 = some (Sample.sid "x") ∧
    ∃ x, c.shared.sessions.get (Sample.sid "x") = some x ∧ x.closed = true ∧ x.uid = 1 := by
  have hplay : (play (launch Sample.setup) (perform Sample.setup) Sample.start Sample.late).any
      (fun c => c.shared.sessions.rows.all (fun r => (c.threads (.session r.1)).isNone) &&
        ((c.threads (.server (ascii "s1") 0)).isNone &&
        (c.shared.registry (ascii "s1") 1 == some (Sample.sid "x") &&
        (c.shared.sessions.get (Sample.sid "x")).any fun x => x.closed && x.uid == 1))) = true := by
    decide +kernel
  obtain ⟨c, hplay, h⟩ := (Option.any_eq_true ..).mp hplay
  have hc := (cluster_playable Sample.setup).play Sample.reachable_start hplay
  simp only [Bool.and_eq_true, List.all_eq_true, Option.isNone_iff_eq_none, beq_iff_eq,
    Option.any_eq_true] at h
  obtain ⟨hidle, hserver, hreg, x, hx, hclosed, huid⟩ := h
  exact ⟨c, hc, fun sid y hy => hidle (sid, y) (Table.get_eq_some.mp hy), hserver, hreg, x, hx,
    hclosed, huid⟩

end DistributedChat.Chat
