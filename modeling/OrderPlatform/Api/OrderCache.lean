import OrderPlatform.Api.OrderInvariant

/-!
# The cache half of the invariant

What a Redis command of a request does to the values that are stored.  A value that was right
when it was stored stays right (`EntryOk.later`), a key tells what its value is a reading of
(`EntryOk.page_inv` and its relatives), and a command that stores only what it may store
(`CommandOk`) keeps the invariant (`Inv.redis`).
-/

namespace OrderPlatform

namespace OrderRoutes

open Async (Tid)
open Text (Json)

variable {ctx : ApiContext} {A : Assumptions} {h h' : History}

/-! ### What was read stays read -/

theorem Recent.later (g : h.Grows h') {v i : ℕ} (le : i ≤ h.commits.length) (r : Recent h v i) :
    Recent h' v i where
  raised := r.raised.trans g.bumped.length_le
  covers u mem := by
    obtain ⟨later, append⟩ := g.bumped
    rw [← append, List.take_append_of_le_length r.raised] at mem
    exact g.covers_of le (.inl (List.mem_of_mem_take mem)) (r.covers u mem)

theorem Recent.mono {v v' i : ℕ} (le : v' ≤ v) (r : Recent h v i) : Recent h v' i where
  raised := le.trans r.raised
  covers u mem := r.covers u (List.take_subset_take_left _ le mem)

/-- What is read now is recent enough for every version there has been. -/
theorem recent_latest {v : ℕ} (raised : v ≤ h.bumped.length) : Recent h v h.commits.length :=
  ⟨raised, fun u _ => h.covers_latest u⟩

theorem RowsAt.later {query : ListOrdersQuery} {user : Uuid} {i : ℕ} {rows : List OrderRow}
    (g : h.Grows h') (r : RowsAt ctx h query user i rows) : RowsAt ctx h' query user i rows := by
  obtain ⟨T, at_i, page⟩ := r
  exact ⟨T, g.states at_i, page⟩

theorem TotalAt.later {filter : OrderFilter} {i total : ℕ} (g : h.Grows h')
    (r : TotalAt ctx h filter i total) : TotalAt ctx h' filter i total := by
  obtain ⟨T, at_i, count⟩ := r
  exact ⟨T, g.states at_i, count⟩

theorem RowAt.later {id : String} {i : ℕ} {row : OrderRow} (g : h.Grows h')
    (r : RowAt h id i row) : RowAt h' id i row := by
  obtain ⟨T, at_i, found⟩ := r
  exact ⟨T, g.states at_i, found⟩

theorem RowsAt.le {query : ListOrdersQuery} {user : Uuid} {i : ℕ} {rows : List OrderRow}
    (r : RowsAt ctx h query user i rows) : i ≤ h.commits.length := by
  obtain ⟨T, at_i, _⟩ := r
  exact History.le_of_states at_i

theorem TotalAt.le {filter : OrderFilter} {i total : ℕ} (r : TotalAt ctx h filter i total) :
    i ≤ h.commits.length := by
  obtain ⟨T, at_i, _⟩ := r
  exact History.le_of_states at_i

theorem RowAt.le {id : String} {i : ℕ} {row : OrderRow} (r : RowAt h id i row) :
    i ≤ h.commits.length := by
  obtain ⟨T, at_i, _⟩ := r
  exact History.le_of_states at_i

theorem PageOf.later {v : ℕ} {query : ListOrdersQuery} {user : Uuid} {body : Json}
    (g : h.Grows h') (page : PageOf ctx A h v query user body) :
    PageOf ctx A h' v query user body := by
  cases page with
  | read i j rows total rowsAt totalAt recent =>
      exact .read i j rows total (rowsAt.later g) (totalAt.later g) fun answered =>
        ⟨(recent answered).1.later g rowsAt.le, (recent answered).2.later g totalAt.le⟩

theorem PageOf.mono {v v' : ℕ} {query : ListOrdersQuery} {user : Uuid} {body : Json}
    (le : A.answered = true → v' ≤ v) (page : PageOf ctx A h v query user body) :
    PageOf ctx A h v' query user body := by
  cases page with
  | read i j rows total rowsAt totalAt recent =>
      exact .read i j rows total rowsAt totalAt fun answered =>
        ⟨(recent answered).1.mono (le answered), (recent answered).2.mono (le answered)⟩

/-- **What was right when it was stored stays right**, unless the entry of an order has been
deleted since. -/
theorem EntryOk.later {key value : String} (g : h.Grows h')
    (kept : A.answered = true → ∀ d ∈ h'.deleted, d.2 = key → d ∈ h.deleted)
    (ok : EntryOk ctx A h key value) : EntryOk ctx A h' key value := by
  cases ok with
  | version value => exact .version value
  | page v query user body page => exact .page v query user body (page.later g)
  | count v query user i total totalAt recent =>
      exact .count v query user i total (totalAt.later g) fun answered =>
        (recent answered).later g totalAt.le
  | entity id i row rowAt fresh =>
      refine .entity id i row (rowAt.later g) fun answered coherent d mem same => ?_
      have old := kept answered d mem same
      exact g.covers_of rowAt.le (.inr ⟨id, same ▸ old⟩) (fresh answered coherent d old same)
  | record user key record ok => exact .record user key record ok

/-! ### What a key tells of its value -/

theorem EntryOk.page_inv {v : ℕ} {query : ListOrdersQuery} {user : Uuid} {value : String}
    (ok : EntryOk ctx A h
      (buildListCacheKey cacheNamespaces.ordersList v (query.listCacheQuery user)) value) :
    ∃ body, value = body.stringify ∧ PageOf ctx A h v query user body := by
  generalize hkey : buildListCacheKey cacheNamespaces.ordersList v (query.listCacheQuery user) =
    key at ok
  have family : familyOf key = .page := by rw [← hkey, familyOf_listKey]
  cases ok with
  | version => simp at family
  | page v' query' user' body page =>
      obtain ⟨rfl, rfl, rfl⟩ := listKey_inj hkey
      exact ⟨body, rfl, page⟩
  | count => simp [familyOf_countKey] at family
  | entity => simp at family
  | record => simp [familyOf_redisKey] at family

theorem EntryOk.count_inv {v : ℕ} {query : ListOrdersQuery} {user : Uuid} {value : String}
    (ok : EntryOk ctx A h (buildCountCacheKey cacheNamespaces.ordersList v
      (countCacheQuery (query.filter ctx user))) value) :
    ∃ i total, value = toString total ∧ TotalAt ctx h (query.filter ctx user) i total ∧
      (A.answered = true → Recent h v i) := by
  generalize hkey : buildCountCacheKey cacheNamespaces.ordersList v
    (countCacheQuery (query.filter ctx user)) = key at ok
  have family : familyOf key = .count := by rw [← hkey, familyOf_countKey]
  cases ok with
  | version => simp at family
  | page => simp [familyOf_listKey] at family
  | count v' query' user' i total totalAt recent =>
      obtain ⟨rfl, same⟩ := countKey_inj hkey
      exact ⟨i, total, rfl, same ▸ totalAt, recent⟩
  | entity => simp at family
  | record => simp [familyOf_redisKey] at family

theorem orderEntityKey_injective : Function.Injective orderEntityKey := by
  intro a b same
  have chars := congrArg String.toList same
  simp only [orderEntityKey, String.toList_append, List.append_cancel_left_eq] at chars
  exact String.toList_injective chars

theorem EntryOk.entity_inv {id : String} {value : String}
    (ok : EntryOk ctx A h (orderEntityKey id) value) :
    ∃ i row, value = (orderBody (some row)).stringify ∧ RowAt h id i row ∧
      (A.answered = true → A.coherent = true →
        ∀ d ∈ h.deleted, d.2 = orderEntityKey id → h.Covers i d.1) := by
  generalize hkey : orderEntityKey id = key at ok
  have family : familyOf key = .entity := by rw [← hkey, familyOf_entityKey]
  cases ok with
  | version => simp at family
  | page => simp [familyOf_listKey] at family
  | count => simp [familyOf_countKey] at family
  | entity id' i row rowAt fresh =>
      cases orderEntityKey_injective hkey
      exact ⟨i, row, rfl, rowAt, fresh⟩
  | record => simp [familyOf_redisKey] at family

theorem EntryOk.record_inv {user : Uuid} {key value : String}
    (ok : EntryOk ctx A h (buildRedisKey "orders:create" user.text key) value) :
    ∃ record : StoredRecord, value = record.serialized ∧ RecordOk user record := by
  generalize hkey : buildRedisKey "orders:create" user.text key = redisKey at ok
  have family : familyOf redisKey = .record := by rw [← hkey, familyOf_redisKey]
  cases ok with
  | version => simp at family
  | page => simp [familyOf_listKey] at family
  | count => simp [familyOf_countKey] at family
  | entity => simp at family
  | record user' key' record ok =>
      cases redisKey_inj hkey
      exact ⟨record, rfl, ok⟩

/-! ### What a command adds to the history -/

namespace History

variable {t : Tid} {c : Redis.Command} {r : Option c.Reply}

@[simp] theorem redis_commits : (h.redis t c r).commits = h.commits := by
  cases c <;> cases r <;> rfl

@[simp] theorem redis_readAt : (h.redis t c r).readAt = h.readAt := by
  cases c <;> cases r <;> rfl

theorem mem_deleted_redis {d : Tid × String} :
    d ∈ (h.redis t c r).deleted ↔
      d ∈ h.deleted ∨ ∃ key, c = .del key ∧ r.isSome ∧ d = (t, key) := by
  cases c <;> cases r <;> simp [redis]

theorem mem_bumped_redis {u : Tid} :
    u ∈ (h.redis t c r).bumped ↔ u ∈ h.bumped ∨ (∃ key, c = .incr key) ∧ r.isSome ∧ u = t := by
  cases c <;> cases r <;> simp [redis]

theorem redis_none : h.redis t c none = h := by
  cases c <;> rfl

theorem grows_redis : h.Grows (h.redis t c r) where
  commits := ⟨[], by simp, nofun⟩
  deleted := by cases c <;> cases r <;> simp [redis]
  bumped := by cases c <;> cases r <;> simp [redis]

end History

/-- A request that deletes the entry of an order or raises the version has committed before. -/
def Entitled (t : Tid) (h : History) : Redis.Command → Prop
  | .del key => familyOf key = .entity → h.Committed t
  | .incr _ => h.Committed t
  | _ => True

/-- What a command of a request looks like to a request. -/
theorem redis_rely {t u : Tid} {fault : Redis.Fault} {c : Redis.Command} {s : State}
    (own : u = t → Entitled t s.history c) : Rely u s (s.redis t fault c).2 where
  grows := History.grows_redis
  committed := by simp [State.redis, History.Committed]
  bumped mem := by
    rcases History.mem_bumped_redis.mp mem with old | ⟨⟨key, rfl⟩, _, rfl⟩
    · exact .inl old
    · exact .inr (own rfl)
  deleted id mem := by
    rcases History.mem_deleted_redis.mp mem with old | ⟨key, rfl, _, same⟩
    · exact .inl old
    · cases same
      exact .inr (own rfl (familyOf_entityKey id))
  readAt := congrFun History.redis_readAt u
  header := rfl
  opened := rfl
  released := rfl
  transaction _ := rfl
  holder _ _ := Iff.rfl
  locked _ _ _ := rfl
  generated _ := id
  unborn _ _ := id
  events := List.prefix_rfl

/-- A command leaves behind only values that were there or that it may store, and nothing where
it deletes. -/
private theorem stored_apply {c : Redis.Command} {store store' : Redis.Store} {r : c.Reply}
    (ok : CommandOk ctx A h c)
    (stored : ∀ key entry, store key = some entry → EntryOk ctx A h key entry.value)
    (happly : c.apply store = some (r, store')) (key : String) (entry : Redis.Entry)
    (after : store' key = some entry) : EntryOk ctx A h key entry.value ∧ c ≠ .del key := by
  refine ⟨?_, ?_⟩
  · by_cases other : key = c.key
    · subst other
      rcases Redis.Command.apply_key happly after with old | ⟨v, n, hc, rfl⟩ | incr
      · exact stored _ _ old
      · rcases hc with hc | hc
        · exact ((congrArg (CommandOk ctx A h) hc).mp ok).2
        · exact ((congrArg (CommandOk ctx A h) hc).mp ok).2
      · have version : c.key = versionKey := (congrArg (CommandOk ctx A h) incr).mp ok
        rw [version]
        exact .version _
    · rw [Redis.Command.apply_other happly other] at after
      exact stored _ _ after
  · rintro rfl
    cases happly
    simp at after

/-- What may be stored may be stored later, unless an entry has been deleted since. -/
theorem CommandOk.later {c : Redis.Command} (g : h.Grows h')
    (kept : A.answered = true → ∀ d ∈ h'.deleted, d ∈ h.deleted) (ok : CommandOk ctx A h c) :
    CommandOk ctx A h' c := by
  have later : ∀ {key value}, EntryOk ctx A h key value → EntryOk ctx A h' key value :=
    fun ok => ok.later g fun answered d mem _ => kept answered d mem
  cases c with
  | get key => trivial
  | set key value n => exact ⟨ok.1, later ok.2⟩
  | setNx key value n => exact ⟨ok.1, later ok.2⟩
  | del key => exact ok
  | incr key => exact ok

/-- The commands that may name the version counter. -/
private theorem version_of_key {c : Redis.Command} (ok : CommandOk ctx A h c) :
    c.key = versionKey → (∃ key, c = .get key) ∨ ∃ key, c = .incr key := by
  intro version
  cases c with
  | get key => exact .inl ⟨key, rfl⟩
  | set key value n => exact absurd version ok.1
  | setNx key value n => exact absurd version ok.1
  | del key => exact absurd version ok
  | incr key => exact .inr ⟨key, rfl⟩

/-- `INCR` on the version counter. -/
theorem apply_incr_version {s : State} (version : VersionOk s) :
    (Redis.Command.incr versionKey).apply s.server.store =
      some ((s.history.bumped.length : ℤ) + 1, Function.update s.server.store versionKey
        (some ⟨toString ((s.history.bumped.length : ℤ) + 1), none⟩)) := by
  rcases version with ⟨absent, empty⟩ | counter
  · simp only [Redis.Command.apply, absent, empty]
    rfl
  · simp only [Redis.Command.apply, counter, Redis.integerOf_toString]
    rfl

/-- The version that a reader of the counter finds. -/
theorem VersionOk.versionOf {s : State} (version : VersionOk s) :
    versionOf ((s.server.store versionKey).map Redis.Entry.value) = s.history.bumped.length := by
  rcases version with ⟨absent, empty⟩ | counter
  · simp [absent, empty]
  · rw [counter]
    exact versionOf_some _

/-- **An answered command keeps the version counter.** -/
private theorem VersionOk.redis {t : Tid} {c : Redis.Command} {s : State}
    (version : VersionOk s) (ok : CommandOk ctx A s.history c) :
    VersionOk (s.redis t .none c).2 := by
  cases hc : c.apply s.server.store with
  | none =>
      have same : (s.redis t .none c).2 = s := by
        simp only [State.redis, Redis.Server.call, hc, History.redis_none]
      exact same.symm ▸ version
  | some x =>
      obtain ⟨r, store⟩ := x
      have after : (s.redis t .none c).2 = { s with
          server := { s.server with store }
          history := s.history.redis t c (some r) } := by
        simp only [State.redis, Redis.Server.call, hc]
      rw [after]
      by_cases incr : ∃ key, c = .incr key
      · obtain ⟨key, rfl⟩ := incr
        cases (ok : key = versionKey)
        rw [apply_incr_version version] at hc
        cases hc
        right
        simp [History.redis]
      · have bumped : (s.history.redis t c (some r)).bumped = s.history.bumped := by
          cases c <;> first | rfl | exact absurd ⟨_, rfl⟩ incr
        have kept : store versionKey = s.server.store versionKey := by
          by_cases same : versionKey = c.key
          · rcases version_of_key ok same.symm with ⟨key, rfl⟩ | found
            · cases hc
              rfl
            · exact absurd found incr
          · exact Redis.Command.apply_other hc same
        simpa [VersionOk, bumped, kept] using version

/-- The stored values, and those on their way, after a command. -/
private theorem Inv.redis_cache (t : Tid) (fault : Redis.Fault) {c : Redis.Command} {s : State}
    (inv : Inv ctx A s) (ok : CommandOk ctx A s.history c) :
    (∀ key entry, (s.redis t fault c).2.server.store key = some entry →
      EntryOk ctx A (s.redis t fault c).2.history key entry.value) ∧
    (∀ c' ∈ (s.redis t fault c).2.server.inFlight,
      CommandOk ctx A (s.redis t fault c).2.history c') := by
  have here : (∀ key entry, s.server.store key = some entry →
      EntryOk ctx A s.history key entry.value) ∧
      ∀ c' ∈ s.server.inFlight, CommandOk ctx A s.history c' := ⟨inv.stored, inv.sent⟩
  cases fault with
  | none =>
      simp only [State.redis, Redis.Server.call]
      cases happly : c.apply s.server.store with
      | none => simpa only [History.redis_none] using here
      | some x =>
          refine ⟨fun key entry after => ?_, fun c' mem => ?_⟩
          · obtain ⟨value, kept⟩ := stored_apply ok inv.stored happly key entry after
            refine value.later History.grows_redis fun _ d mem same => ?_
            rcases History.mem_deleted_redis.mp mem with mem | ⟨key', del, _, rfl⟩
            · exact mem
            · exact absurd (same ▸ del) kept
          · cases late : A.answered with
            | true => simp [(inv.version late).2] at mem
            | false => exact (inv.sent c' mem).later History.grows_redis (by simp [late])
  | refused => simpa only [State.redis, Redis.Server.call, History.redis_none] using here
  | late =>
      simp only [State.redis, Redis.Server.call, History.redis_none, List.mem_cons]
      exact ⟨inv.stored, fun c' mem => mem.elim (fun same => same ▸ ok) (inv.sent c')⟩

/-- **A command that stores only what it may store keeps the invariant.** -/
theorem Inv.redis {t : Tid} {fault : Redis.Fault} {c : Redis.Command} {s : State}
    (inv : Inv ctx A s) (ok : CommandOk ctx A s.history c)
    (answered : A.answered = true → fault = .none) : Inv ctx A (s.redis t fault c).2 := by
  obtain ⟨stored, sent⟩ := inv.redis_cache t fault ok
  refine ⟨?_, inv.audited, inv.timely, inv.born, inv.held, ?_, stored, sent, ?_⟩
  · simpa [State.redis, History.states] using inv.latest
  · simpa [State.redis, History.states] using inv.owners
  · intro now
    cases answered now
    refine ⟨(inv.version now).1.redis ok, ?_⟩
    have empty := (inv.version now).2
    simp only [State.redis, Redis.Server.call]
    split <;> exact empty

/-! ### What the server does on its own -/

/-- Nobody minds what happens to the stored values alone. -/
theorem rely_server (u : Tid) (s : State) (server : Redis.Server) :
    Rely u s { s with server } where
  grows := .refl _
  committed := id
  bumped := .inl
  deleted _ := .inl
  readAt := rfl
  header := rfl
  opened := rfl
  released := rfl
  transaction _ := rfl
  holder _ _ := Iff.rfl
  locked _ _ _ := rfl
  generated _ := id
  unborn _ _ := id
  events := List.prefix_rfl

/-- An entry goes; it is not the version counter where that matters. -/
private theorem Inv.forget {s : State} (inv : Inv ctx A s) (key : String)
    (counter : A.answered = true → s.server.store versionKey ≠ none → key ≠ versionKey) :
    Inv ctx A { s with
      server := { s.server with store := Function.update s.server.store key none } } := by
  refine ⟨inv.latest, inv.audited, inv.timely, inv.born, inv.held, inv.owners, ?_, inv.sent, ?_⟩
  · intro key' entry after
    by_cases same : key' = key
    · subst same
      simp at after
    · exact inv.stored key' entry (by simpa [Function.update_of_ne same] using after)
  · intro answered
    obtain ⟨version, empty⟩ := inv.version answered
    refine ⟨?_, empty⟩
    by_cases same : versionKey = key
    · rcases version with ⟨absent, none⟩ | found
      · exact .inl ⟨by simp [same], none⟩
      · exact absurd same.symm (counter answered (by simp [found]))
    · simpa [VersionOk, Function.update_of_ne same] using version

/-- A command is executed late. -/
private theorem Inv.land {s : State} (inv : Inv ctx A s) {position : ℕ} {c : Redis.Command}
    (found : s.server.inFlight[position]? = some c) :
    Inv ctx A { s with
      server := ⟨((c.apply s.server.store).map Prod.snd).getD s.server.store,
        s.server.inFlight.eraseIdx position⟩ } := by
  have mem : c ∈ s.server.inFlight := List.mem_of_getElem? found
  have rest : ∀ c' ∈ s.server.inFlight.eraseIdx position, CommandOk ctx A s.history c' :=
    fun c' mem' => inv.sent c' (List.mem_of_mem_eraseIdx mem')
  have late : A.answered = true → False := fun answered => by simp [(inv.version answered).2] at mem
  refine ⟨inv.latest, inv.audited, inv.timely, inv.born, inv.held, inv.owners, ?_, rest,
    fun answered => (late answered).elim⟩
  cases happly : c.apply s.server.store with
  | none => exact inv.stored
  | some x =>
      exact fun key entry after =>
        (stored_apply (inv.sent c mem) inv.stored happly key entry after).1

/-- **What the server does on its own keeps the invariant.** -/
theorem Inv.redisEvent {s : State} (inv : Inv ctx A s) {e : Redis.Event} {server : Redis.Server}
    (allowed : (regime ctx A).event (.redis e) s) (hevent : s.server.event e = some server) :
    Inv ctx A { s with server } := by
  cases e with
  | expire key =>
      simp only [Redis.Server.event] at hevent
      split at hevent
      · rename_i ttl found
        cases hevent
        refine inv.forget key fun answered present => ?_
        rintro rfl
        rcases (inv.version answered).1 with ⟨absent, _⟩ | counter
        · exact present absent
        · rw [counter] at found
          cases found
      · cases hevent
  | evict key =>
      simp only [Redis.Server.event] at hevent
      split at hevent
      · cases hevent
        exact inv.forget key fun answered _ => allowed answered
      · cases hevent
  | land position =>
      obtain ⟨c, found, rfl⟩ := Option.map_eq_some_iff.mp hevent
      exact inv.land found

end OrderRoutes

end OrderPlatform
