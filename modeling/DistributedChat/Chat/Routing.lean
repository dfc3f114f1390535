import DistributedChat.Chat.Logic
import DistributedChat.Lib.RoundRobin

/-!
# Routing of logins

`StatusServiceImpl::getChatServer` reads the load of every configured server and takes the next of
the least loaded ones. A call holds `_server_mtx` to its end, so calls run one after another; all
they share is the cursor.

1. A call takes the turn of the cursor among `candidates`, and moves the cursor if there are any:
   `run_getChatServer`.
2. The candidates are the least loaded servers, in the order of their names: `mem_candidates`,
   `candidates_unique`.
3. While they stay the same, calls take turns: `calls_spec`.
-/

namespace DistributedChat.Chat

open Lib StatusServiceImpl List

/-- What `Get` finds in Redis, by key. -/
abbrev Health := Bytes → Option Bytes

/-- The answers to the effects of a call; the state is `_round_robin_cursor`, a `std::size_t`. -/
def routes (health : Health) : (e : Call) → ℕ → Option (e.Answer × ℕ)
  | .redis (.get key), cursor => some ((health key).map .text, cursor)
  | .peer (.selectServer healthy_servers), cursor =>
    match selectLeastLoaded healthy_servers cursor with
    | none => some (none, cursor)
    | some server => some (some server, (cursor + 1) % 2 ^ 64)
  | _, _ => none

def calls (setup : Setup) : List Health → ℕ → Option (List (Option ServerName) × ℕ)
  | [], cursor => some ([], cursor)
  | health :: rest, cursor =>
    match Prog.run (routes health) (getChatServer setup) cursor with
    | some (.ok chosen, cursor') => (calls setup rest cursor').map fun r => (chosen :: r.1, r.2)
    | _ => none

namespace Health

variable (health : Health) (servers : List ServerName)

/-- The load of a server, if it has published a valid one. -/
def load (name : ServerName) : Option ℕ :=
  match (health (cString (CHAT_HEALTH_PREFIX ++ name))).bind fromChars with
  | none => none
  | some n => if n < 0 then none else some n.toNat

/-- The servers with a load, as the loop of `getChatServer` lists them. -/
def loads : List (ServerName × ℕ) := servers.filterMap fun name => (health.load name).map (name, ·)

/-- The server has a load, and no server has a smaller one. -/
def Least (name : ServerName) : Prop :=
  name ∈ servers ∧ ∃ n, health.load name = some n ∧ ∀ other ∈ servers, ∀ m,
    health.load other = some m → n ≤ m

end Health

/-! ## The choice -/

section Choice

variable {loads loads' : List (ServerName × ℕ)} {name : ServerName}

/-- The order of `std::string`. -/
def NameLe : ServerName → ServerName → Prop := (@List.instLE UInt8 instLTUInt8).le

instance : DecidableRel NameLe := inferInstanceAs (DecidableLE (List UInt8))

instance : IsTrans ServerName NameLe := ⟨fun _ _ _ => List.le_trans⟩

instance : Std.Total NameLe := ⟨List.le_total⟩

instance : Std.Antisymm NameLe := ⟨fun _ _ => List.le_antisymm⟩

def minimum (loads : List (ServerName × ℕ)) : ℕ := loads.foldl (fun m s => min m s.2) (2 ^ 31 - 1)

def candidates (loads : List (ServerName × ℕ)) : List ServerName :=
  ((loads.filter fun s => s.2 = minimum loads).map Prod.fst).insertionSort NameLe

theorem selectLeastLoaded_eq (loads : List (ServerName × ℕ)) (cursor : ℕ) :
    selectLeastLoaded loads cursor = turn (candidates loads) cursor := rfl

theorem le_minimum_iff {n : ℕ} : n ≤ minimum loads ↔ n ≤ 2 ^ 31 - 1 ∧ ∀ s ∈ loads, n ≤ s.2 := by
  have hfold : ∀ a, n ≤ loads.foldl (fun m s => min m s.2) a ↔ n ≤ a ∧ ∀ s ∈ loads, n ≤ s.2 := by
    induction loads with
    | nil => simp
    | cons s loads ih => simp [ih, and_assoc]
  exact hfold _

theorem mem_candidates : name ∈ candidates loads ↔ (name, minimum loads) ∈ loads := by
  simp [candidates]

theorem candidates_ne_nil (hloads : loads ≠ []) (hint : ∀ s ∈ loads, s.2 ≤ 2 ^ 31 - 1) :
    candidates loads ≠ [] := by
  obtain ⟨s, hs, hmin⟩ := loads.toFinset.exists_min_image Prod.snd (by simpa using hloads)
  simp only [mem_toFinset] at hs hmin
  have heq : s.2 = minimum loads :=
    (le_minimum_iff.mpr ⟨hint s hs, hmin⟩).antisymm ((le_minimum_iff.mp le_rfl).2 s hs)
  have hmem : (s.1, minimum loads) ∈ loads := by rwa [← heq]
  exact ne_nil_of_mem (mem_candidates.mpr hmem)

theorem pairwise_candidates (loads : List (ServerName × ℕ)) : (candidates loads).Pairwise NameLe :=
  pairwise_insertionSort _ _

/-- **The order of the loads does not matter.** -/
theorem candidates_perm (h : loads.Perm loads') : candidates loads = candidates loads' := by
  have hmin : minimum loads = minimum loads' := by
    refine eq_of_forall_le_iff fun n => ?_
    simp only [le_minimum_iff, h.mem_iff]
  have hperm : (candidates loads).Perm (candidates loads') := by
    unfold candidates
    rw [hmin]
    exact ((perm_insertionSort _ _).trans ((h.filter _).map _)).trans (perm_insertionSort _ _).symm
  exact hperm.eq_of_pairwise' (pairwise_candidates _) (pairwise_candidates _)

end Choice

/-! ## A call -/

section Call

variable {health : Health} {servers : List ServerName} {name : ServerName} {n : ℕ}

theorem load_le (h : health.load name = some n) : n ≤ 2 ^ 31 - 1 := by
  unfold Health.load at h
  split at h
  · cases h
  · next value hvalue =>
    obtain ⟨text, -, hchars⟩ := Option.bind_eq_some_iff.mp hvalue
    simp only [fromChars, Option.ite_none_right_eq_some, Option.some.injEq] at hchars
    obtain ⟨⟨-, -, -, hlt⟩, heq⟩ := hchars
    rw [heq] at hlt
    split_ifs at h
    cases h
    omega

theorem mem_loads :
    (name, n) ∈ health.loads servers ↔ name ∈ servers ∧ health.load name = some n := by
  simp [Health.loads]

theorem loads_ne_nil : health.loads servers ≠ [] ↔ ∃ name ∈ servers, health.load name ≠ none := by
  simp [Health.loads, filterMap_eq_nil_iff]

theorem mem_candidates_loads :
    name ∈ candidates (health.loads servers) ↔ health.Least servers name := by
  rw [mem_candidates, mem_loads]
  refine and_congr_right fun hname =>
    ⟨fun h => ⟨_, h, fun other hother m hm => ?_⟩, fun ⟨n, hn, hmin⟩ => ?_⟩
  · exact (le_minimum_iff.mp le_rfl).2 (other, m) (mem_loads.mpr ⟨hother, hm⟩)
  · have hle : n ≤ minimum (health.loads servers) :=
      le_minimum_iff.mpr
        ⟨load_le hn, fun s hs => hmin s.1 (mem_loads.mp hs).1 s.2 (mem_loads.mp hs).2⟩
    have hge := (le_minimum_iff.mp le_rfl).2 (name, n) (mem_loads.mpr ⟨hname, hn⟩)
    rw [hn, hle.antisymm hge]

theorem nodup_candidates (h : servers.Nodup) : (candidates (health.loads servers)).Nodup := by
  have hloads : ((health.loads servers).map Prod.fst).Nodup := by
    refine h.sublist ?_
    unfold Health.loads
    induction servers with
    | nil => exact List.Sublist.slnil
    | cons name servers ih =>
      have ih := ih h.of_cons
      cases hload : health.load name with
      | none => simpa [hload] using ih.cons name
      | some n => simpa [hload] using ih
  exact (perm_insertionSort _ _).nodup_iff.mpr (hloads.sublist (filter_sublist.map _))

theorem run_healthyServers (servers : List ServerName) (cursor : ℕ) :
    Prog.run (routes health) (healthyServers servers) cursor = some
    (.ok (health.loads servers), cursor) := by
  induction servers with
  | nil => rfl
  | cons name names ih =>
    have hget : Prog.run (routes health) (RedisMgr.Get (CHAT_HEALTH_PREFIX ++ name)) cursor =
      some (.ok ((health (cString (CHAT_HEALTH_PREFIX ++ name))).map .text), cursor) := rfl
    unfold healthyServers
    rw [Task.run_andThen hget, Task.run_andThen ih]
    simp only [Health.loads, filterMap_cons, Health.load]
    cases health (cString (CHAT_HEALTH_PREFIX ++ name)) with
    | none => rfl
    | some text =>
      simp only [Option.map_some, Option.bind_some]
      cases fromChars text with
      | none => rfl
      | some value =>
        dsimp only
        split_ifs <;> rfl

/-- **A call** takes the turn of the cursor among the candidates, and moves the cursor if it is
successful. -/
theorem run_getChatServer (health : Health) (setup : Setup) (cursor : ℕ) :
    let chosen := turn (candidates (health.loads setup.servers)) cursor
    Prog.run (routes health) (getChatServer setup) cursor =
      some (.ok chosen, if chosen = none then cursor else (cursor + 1) % 2 ^ 64) := by
  intro chosen
  have hselect : routes health (.peer (.selectServer (health.loads setup.servers))) cursor =
      some (chosen, if chosen = none then cursor else (cursor + 1) % 2 ^ 64) := by
    unfold routes
    show (match chosen with
      | none => some (none, cursor)
      | some server => some (some server, (cursor + 1) % 2 ^ 64)) = _
    cases chosen <;> rfl
  unfold getChatServer
  by_cases hservers : setup.servers = []
  · have hnone : chosen = none := by
      show turn (candidates (health.loads setup.servers)) cursor = none
      rw [hservers]
      rfl
    rw [if_pos hservers, hnone]
    rfl
  · rw [if_neg hservers, Task.run_andThen (run_healthyServers setup.servers cursor)]
    show (routes health (.peer (.selectServer (health.loads setup.servers))) cursor).bind _ = _
    rw [hselect]
    rfl

theorem turn_eq_none_iff {l : List ServerName} {i : ℕ} : turn l i = none ↔ l = [] := by
  unfold turn
  rw [List.getElem?_eq_none_iff]
  cases l with
  | nil => simp
  | cons a l => simpa using Nat.mod_lt i (Nat.succ_pos l.length)

/-- **A call succeeds exactly when some server has a load**, with one of the least loaded servers.
-/
theorem turn_candidates (health : Health) (servers : List ServerName) (cursor : ℕ) :
    (turn (candidates (health.loads servers)) cursor ≠ none ↔ ∃ name ∈ servers,
      health.load name ≠ none) ∧
      ∀ name, turn (candidates (health.loads servers)) cursor = some name →
      health.Least servers name := by
  refine ⟨?_, fun name h => mem_candidates_loads.mp (mem_of_getElem? h)⟩
  rw [Ne, turn_eq_none_iff, ← loads_ne_nil]
  refine ⟨fun h hnil => h ?_, fun h => candidates_ne_nil h fun s hs => load_le (mem_loads.mp hs).2⟩
  rw [hnil]
  rfl

end Call

/-! ## Many calls -/

section Calls

variable {setup : Setup}

/-- **While the candidates stay the same, the successful calls take turns among them.** -/
theorem calls_spec (setup : Setup) (healths : List Health) (cursor : ℕ) :
    ∃ results cursor', calls setup healths cursor = some (results, cursor') ∧
      ∀ l, (∀ health ∈ healths, health.loads setup.servers ≠ [] →
        candidates (health.loads setup.servers) = l) →
        cursor + results.countP Option.isSome < 2 ^ 64 →
        results.filter Option.isSome = (List.range' cursor (results.countP Option.isSome)).map
        (turn l) := by
  induction healths generalizing cursor with
  | nil => exact ⟨[], cursor, rfl, fun _ _ _ => rfl⟩
  | cons health healths ih =>
    have hrun := run_getChatServer health setup cursor
    obtain ⟨results, cursor', hcalls, hturns⟩ :=
      ih (if turn (candidates (health.loads setup.servers)) cursor =
        none then cursor else (cursor + 1) % 2 ^ 64)
    refine ⟨_, cursor',
      by unfold calls; rw [hrun]; dsimp only; rw [hcalls]; rfl, fun l hl hwrap => ?_⟩
    have hturns := hturns l fun h hh => hl h (mem_cons_of_mem _ hh)
    cases hchosen : turn (candidates (health.loads setup.servers)) cursor with
    | none =>
      rw [hchosen, if_pos rfl] at hturns
      rw [hchosen] at hwrap
      simpa using hturns (by simpa using hwrap)
    | some name =>
      have hne : health.loads setup.servers ≠ [] := by
        intro hnil
        rw [hnil] at hchosen
        cases hchosen
      have hturn : turn l cursor = some name := by rw [← hl health mem_cons_self hne, hchosen]
      have hcount :
        (some name :: results).countP Option.isSome = results.countP Option.isSome + 1 := by simp
      rw [hchosen, hcount] at hwrap
      rw [hchosen, if_neg (by simp), Nat.mod_eq_of_lt (by omega)] at hturns
      rw [hcount, List.range'_succ, map_cons, hturn, ← hturns (by omega)]
      rfl

theorem candidates_unique {l l' : List ServerName} (hl : l.Pairwise NameLe)
    (hl' : l'.Pairwise NameLe)
    (hnodup : l.Nodup) (hnodup' : l'.Nodup) (h : ∀ name, name ∈ l ↔ name ∈ l') : l = l' :=
  ((perm_ext_iff_of_nodup hnodup hnodup').mpr h).eq_of_pairwise' hl hl'

/-- **Logins are shared out evenly.** For every set of configured servers, every contents of Redis
at each call and every cursor:

* a call returns a server exactly when some server has a valid load, and then one of the least
  loaded ones,
* the choice does not depend on the order of the loads, nor on the order of the servers in the map,
* in any sequence of calls in which the least loaded servers are `least` whenever a call succeeds
  and the cursor does not wrap around, each of them is chosen `n / k` times, rounded down or up, in
  the `n` successful calls. -/
theorem logins_balanced (setup : Setup) (hnodup : setup.servers.Nodup) :
    (∀ (health : Health) (cursor : ℕ), ∃ chosen cursor',
      Prog.run (routes health) (getChatServer setup) cursor = some (.ok chosen, cursor') ∧
      (chosen ≠ none ↔ ∃ name ∈ setup.servers, health.load name ≠ none) ∧
      ∀ name, chosen = some name → health.Least setup.servers name) ∧
    (∀ (loads loads' : List (ServerName × ℕ)) (cursor : ℕ), loads.Perm loads' →
      selectLeastLoaded loads cursor = selectLeastLoaded loads' cursor) ∧
    (∀ (servers : List ServerName) (health : Health) (cursor : ℕ), servers.Perm setup.servers →
      Prog.run (routes health) (getChatServer { setup with servers := servers }) cursor =
        Prog.run (routes health) (getChatServer setup) cursor) ∧
    ∀ (healths : List Health) (cursor : ℕ), ∃ results cursor',
      calls setup healths cursor = some (results, cursor') ∧
      ∀ least : Finset ServerName,
        (∀ health ∈ healths, (∃ name ∈ setup.servers, health.load name ≠ none) →
          ∀ name, health.Least setup.servers name ↔ name ∈ least) →
        cursor + results.countP Option.isSome < 2 ^ 64 →
        ∀ name ∈ least, results.count (some name) = results.countP Option.isSome / least.card ∨
          results.count (some name) = results.countP Option.isSome ⌈/⌉ least.card := by
  refine ⟨fun health cursor => ?_, fun loads loads' cursor h => ?_,
    fun servers health cursor h => ?_,
    fun healths cursor => ?_⟩
  · exact ⟨_, _, run_getChatServer health setup cursor, turn_candidates health setup.servers cursor⟩
  · rw [selectLeastLoaded_eq, selectLeastLoaded_eq, candidates_perm h]
  · have hloads : (health.loads servers).Perm (health.loads setup.servers) := h.filterMap _
    rw [run_getChatServer, run_getChatServer, candidates_perm hloads]
  · obtain ⟨results, cursor', hcalls, hturns⟩ := calls_spec setup healths cursor
    refine ⟨results, cursor', hcalls, fun least hleast hwrap name hname => ?_⟩
    -- The candidates of every successful call are the names of `least` in order.
    let l := least.toList.insertionSort NameLe
    have hmem : ∀ name, name ∈ l ↔ name ∈ least := by simp [l]
    have hnodup' : l.Nodup := (perm_insertionSort _ _).nodup_iff.mpr least.nodup_toList
    have hl := hturns l fun health hhealth hne =>
      candidates_unique (pairwise_candidates _) (pairwise_insertionSort _ _)
        (nodup_candidates hnodup) hnodup'
        fun name => by
          rw [mem_candidates_loads, hleast health hhealth (loads_ne_nil.mp hne) name, hmem]
    have hcount := count_turns hnodup' ((hmem name).mpr hname) cursor (results.countP Option.isSome)
    rw [← hl hwrap, count_filter rfl] at hcount
    have hlength : l.length = least.card := by simp [l]
    rwa [hlength] at hcount

def twoServers : Setup := ⟨[ascii "chat1", ascii "chat2"], id, id, fun _ => 0, id⟩

theorem two_servers_share_three_logins : twoServers.servers.Nodup ∧
    ∃ results cursor', calls twoServers (List.replicate 3 fun _ => some (ascii "7")) 5 = some
    (results, cursor') ∧
      (results.count (some (ascii "chat1")) = 1 ∨ results.count (some (ascii "chat1")) = 2) := by
  have hnodup : twoServers.servers.Nodup := by decide
  obtain ⟨results, cursor', hcalls, hshare⟩ :=
    (logins_balanced twoServers hnodup).2.2.2 (List.replicate 3 fun _ => some (ascii "7")) 5
  have hresults : calls twoServers (List.replicate 3 fun _ => some (ascii "7")) 5 =
    some ([some (ascii "chat2"), some (ascii "chat1"), some (ascii "chat2")], 8) := by
      decide +kernel
  cases hresults.symm.trans hcalls
  refine ⟨hnodup, _, _, hcalls, hshare twoServers.servers.toFinset ?_ (by decide) _ (by decide)⟩
  intro health hhealth _ name
  rw [eq_of_mem_replicate hhealth, mem_toFinset]
  exact ⟨And.left, fun h => ⟨h, 7, rfl, fun _ _ m hm => (Option.some.inj hm).le⟩⟩

end Calls

end DistributedChat.Chat
