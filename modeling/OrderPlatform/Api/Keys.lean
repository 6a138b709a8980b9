import OrderPlatform.Api.OrderService

/-!
# Which keys the order service uses

Five families of keys share one Redis: the version counter, pages, counts, single orders, and
idempotency records.  A few characters of a key tell its family (`familyOf`), so no key of one
family is a key of another, and within a family a key determines what it was built from.

* `familyOf` — the family of a key.
* `listCacheQuery_inj`, `countCacheQuery_inj`, `redisKey_inj` — what a key determines.
-/

namespace OrderPlatform

namespace OrderRoutes

/-- The families of keys. -/
inductive Family
  | version
  | page
  | count
  | entity
  | record
deriving DecidableEq

/-- The family of a key. -/
def familyOf (key : String) : Family :=
  match key.toList with
  | 'c' :: _ => .version
  | 'i' :: _ => .record
  | _ :: _ :: _ :: _ :: _ :: ':' :: _ => .entity
  | _ :: _ :: _ :: _ :: _ :: _ :: _ :: _ :: _ :: _ :: _ :: _ :: 'v' :: _ => .page
  | _ => .count

/-- The key of the list version. -/
def versionKey : String := namespaceVersionKey cacheNamespaces.ordersList

@[simp] theorem familyOf_versionKey : familyOf versionKey = .version := by decide

theorem familyOf_listKey (v : ℕ) (q : Query) :
    familyOf (buildListCacheKey cacheNamespaces.ordersList v q) = .page := by
  simp only [familyOf, buildListCacheKey, String.toList_append, List.append_assoc]
  rfl

theorem familyOf_countKey (v : ℕ) (q : Query) :
    familyOf (buildCountCacheKey cacheNamespaces.ordersList v q) = .count := by
  simp only [familyOf, buildCountCacheKey, String.toList_append, List.append_assoc]
  rfl

@[simp] theorem familyOf_entityKey (id : String) : familyOf (orderEntityKey id) = .entity := by
  simp only [familyOf, orderEntityKey, String.toList_append, List.append_assoc]
  rfl

theorem familyOf_redisKey (scope user key : String) :
    familyOf (buildRedisKey scope user key) = .record := by
  simp only [familyOf, buildRedisKey, String.toList_append, List.append_assoc]
  rfl

/-! ### Within a family -/

private theorem ne_star_of_mem {c : Char} {s : String} (mem : c ∈ s.toList) (other : c ≠ '*') :
    some s ≠ some "*" := by
  rintro h
  cases h
  exact other (by simpa using mem)

private theorem ne_star_of_head {s : String} (h : ∃ c, s.toList.head? = some c ∧ c.isDigit) :
    some s ≠ some "*" := by
  obtain ⟨c, head, digit⟩ := h
  refine ne_star_of_mem (List.mem_of_mem_head? head) ?_
  rintro rfl
  exact absurd digit (by decide)

private theorem status_ne_star (a : OrderStatus) : some a.text ≠ some "*" := by
  cases a <;> decide

private theorem uuid_ne_star (id : Uuid) : some id.text ≠ some "*" := by
  intro h
  have star := id.canonical '*' (by simp [Option.some.inj h])
  exact absurd star (by decide)

private theorem number_ne_star (n : ℕ) : some (toString n) ≠ some "*" := by
  intro h
  exact Text.notMem_repr (by decide : '*'.isDigit = false) n (by
    have text : n.repr = "*" := Option.some.inj h
    simp [text])

/-- The names of the properties that occur in cache queries. -/
private def propertyNames : List String :=
  ["page", "pageSize", "status", "customerEmail", "createdAfter", "createdBefore", "userId"]

private theorem plain_of {q : Query} (names : ∀ property ∈ q, property.1 ∈ propertyNames)
    (values : ∀ property ∈ q, property.2 ≠ some "*") : q.Plain := by
  have plain : ∀ name ∈ propertyNames, ':' ∉ name.toList ∧ '=' ∉ name.toList := by
    decide
  intro property mem
  obtain ⟨colon, equals⟩ := plain _ (names property mem)
  exact ⟨colon, equals, values property mem⟩

theorem mem_listCacheQuery {query : ListOrdersQuery} {user : Uuid}
    {property : String × Option String} :
    property ∈ query.listCacheQuery user ↔
      property = ("page", some (toString query.page)) ∨
      property = ("pageSize", some (toString query.pageSize)) ∨
      (∃ s, query.status = some s ∧ ("status", some s.text) = property) ∨
      (∃ s, query.customerEmail = some s ∧ ("customerEmail", some s) = property) ∨
      (∃ s, query.createdAfter = some s ∧ ("createdAfter", some s) = property) ∨
      (∃ s, query.createdBefore = some s ∧ ("createdBefore", some s) = property) ∨
      property = ("userId", some user.text) := by
  simp only [ListOrdersQuery.listCacheQuery, List.mem_append, List.mem_cons, List.not_mem_nil,
    or_false, Option.mem_toList, Option.map_eq_some_iff, or_assoc]

theorem listCacheQuery_plain (query : ListOrdersQuery) (user : Uuid) :
    (query.listCacheQuery user).Plain := by
  refine plain_of ?_ ?_
  · intro property mem
    rcases mem_listCacheQuery.mp mem with rfl | rfl | ⟨s, _, rfl⟩ | ⟨s, _, rfl⟩ | ⟨s, _, rfl⟩ |
      ⟨s, _, rfl⟩ | rfl <;> simp [propertyNames]
  · intro property mem
    rcases mem_listCacheQuery.mp mem with rfl | rfl | ⟨s, _, rfl⟩ | ⟨s, given, rfl⟩ |
      ⟨s, given, rfl⟩ | ⟨s, given, rfl⟩ | rfl
    · exact number_ne_star _
    · exact number_ne_star _
    · exact status_ne_star s
    · exact ne_star_of_mem (query.email s given) (by decide)
    · exact ne_star_of_head (query.after_digit s given)
    · exact ne_star_of_head (query.before_digit s given)
    · exact uuid_ne_star user

/-- What the property of a query says of the request. -/
private theorem property_iff (query : ListOrdersQuery) (user : Uuid) (w : String) :
    (("page", some w) ∈ query.listCacheQuery user ↔ w = toString query.page) ∧
    (("pageSize", some w) ∈ query.listCacheQuery user ↔ w = toString query.pageSize) ∧
    (("status", some w) ∈ query.listCacheQuery user ↔
      query.status.map OrderStatus.text = some w) ∧
    (("customerEmail", some w) ∈ query.listCacheQuery user ↔ query.customerEmail = some w) ∧
    (("createdAfter", some w) ∈ query.listCacheQuery user ↔ query.createdAfter = some w) ∧
    (("createdBefore", some w) ∈ query.listCacheQuery user ↔ query.createdBefore = some w) ∧
    (("userId", some w) ∈ query.listCacheQuery user ↔ w = user.text) := by
  simp [mem_listCacheQuery]

/-- **A page key determines the version, the request and its user.** -/
theorem listKey_inj {cacheNamespace : String} {v v' : ℕ} {query query' : ListOrdersQuery}
    {user user' : Uuid}
    (h : buildListCacheKey cacheNamespace v (query.listCacheQuery user) =
      buildListCacheKey cacheNamespace v' (query'.listCacheQuery user')) :
    v = v' ∧ query = query' ∧ user = user' := by
  have some_query : ∀ (query : ListOrdersQuery) (user : Uuid), query.listCacheQuery user ≠ [] :=
    fun _ _ => by simp [ListOrdersQuery.listCacheQuery]
  obtain ⟨version, perm⟩ := buildListCacheKey_inj (listCacheQuery_plain query user)
    (listCacheQuery_plain query' user') (some_query _ _) (some_query _ _) h
  have same : ∀ {P P' : String → Prop} (name : String),
      (∀ w, (name, some w) ∈ query.listCacheQuery user ↔ P w) →
      (∀ w, (name, some w) ∈ query'.listCacheQuery user' ↔ P' w) → ∀ w, P w ↔ P' w :=
    fun name hP hP' w => (hP w).symm.trans (perm.mem_iff.trans (hP' w))
  have of := property_iff query user
  have of' := property_iff query' user'
  have page := same "page" (fun w => (of w).1) fun w => (of' w).1
  have pageSize := same "pageSize" (fun w => (of w).2.1) fun w => (of' w).2.1
  have status := same "status" (fun w => (of w).2.2.1) fun w => (of' w).2.2.1
  have email := same "customerEmail" (fun w => (of w).2.2.2.1) fun w => (of' w).2.2.2.1
  have after := same "createdAfter" (fun w => (of w).2.2.2.2.1) fun w => (of' w).2.2.2.2.1
  have before := same "createdBefore" (fun w => (of w).2.2.2.2.2.1) fun w => (of' w).2.2.2.2.2.1
  have userId := same "userId" (fun w => (of w).2.2.2.2.2.2) fun w => (of' w).2.2.2.2.2.2
  have number : ∀ {n m : ℕ}, toString n = toString m → n = m := fun {n m} h => by
    have parsed := congrArg Text.parseInt h
    exact Int.ofNat_inj.mp (by simpa [toString] using parsed)
  refine ⟨version, ?_, Uuid.injective_text ((userId _).mp rfl)⟩
  cases query with
  | mk page₁ size₁ status₁ email₁ after₁ before₁ =>
      cases query' with
      | mk page₂ size₂ status₂ email₂ after₂ before₂ =>
          have samePage := number ((page _).mp rfl)
          have sameSize := number ((pageSize _).mp rfl)
          have sameStatus : status₁ = status₂ :=
            Option.map_injective (fun _ _ => OrderStatus.eq_of_text) (Option.ext status)
          have sameEmail := Option.ext email
          have sameAfter := Option.ext after
          have sameBefore := Option.ext before
          simp only at samePage sameSize sameEmail sameAfter sameBefore
          subst samePage sameSize sameStatus sameEmail sameAfter sameBefore
          rfl

theorem countCacheQuery_plain (ctx : ApiContext) (query : ListOrdersQuery) (user : Uuid) :
    (countCacheQuery (query.filter ctx user)).Plain := by
  refine plain_of ?_ ?_
  · intro property mem
    simp only [countCacheQuery, List.mem_cons, List.not_mem_nil, or_false] at mem
    rcases mem with rfl | rfl | rfl | rfl | rfl <;> simp [propertyNames]
  · intro property mem
    simp only [countCacheQuery, List.mem_cons, List.not_mem_nil, or_false] at mem
    rcases mem with rfl | rfl | rfl | rfl | rfl
    · exact uuid_ne_star user
    · intro star
      obtain ⟨s, _, text⟩ := Option.map_eq_some_iff.mp star
      exact status_ne_star s (congrArg some text)
    · intro star
      obtain ⟨s, given, lower⟩ := Option.map_eq_some_iff.mp star
      have sign := ctx.toLowerCase_at s (query.email s given)
      rw [lower] at sign
      exact absurd sign (by decide)
    · intro star
      exact ne_star_of_head (query.after_digit _ star) rfl
    · intro star
      exact ne_star_of_head (query.before_digit _ star) rfl

/-- **A count key determines the version and the filters.** -/
theorem countKey_inj {ctx : ApiContext} {cacheNamespace : String} {v v' : ℕ}
    {query query' : ListOrdersQuery} {user user' : Uuid}
    (h : buildCountCacheKey cacheNamespace v (countCacheQuery (query.filter ctx user)) =
      buildCountCacheKey cacheNamespace v' (countCacheQuery (query'.filter ctx user'))) :
    v = v' ∧ query.filter ctx user = query'.filter ctx user' := by
  obtain ⟨version, perm⟩ := buildCountCacheKey_inj (countCacheQuery_plain ctx query user)
    (countCacheQuery_plain ctx query' user') (by simp [countCacheQuery])
    (by simp [countCacheQuery]) h
  have same : ∀ name w, (name, w) ∈ countCacheQuery (query.filter ctx user) ↔
      (name, w) ∈ countCacheQuery (query'.filter ctx user') := fun _ _ => perm.mem_iff
  generalize query.filter ctx user = f at same
  generalize query'.filter ctx user' = f' at same
  have userId := same "userId" (some f.userId.text)
  have status := same "status" (f.status.map OrderStatus.text)
  have email := same "customerEmail" f.customerEmail
  have after := same "createdAfter" f.createdAfter
  have before := same "createdBefore" f.createdBefore
  simp only [countCacheQuery, List.mem_cons, Prod.mk.injEq, List.not_mem_nil, or_false,
    String.reduceEq, false_and, false_or, true_and, true_iff] at userId status email after before
  refine ⟨version, ?_⟩
  cases f with
  | mk user₁ status₁ email₁ after₁ before₁ =>
      cases f' with
      | mk user₂ status₂ email₂ after₂ before₂ =>
          simp_all only [Option.some.injEq, OrderFilter.mk.injEq, and_true]
          exact ⟨Uuid.injective_text userId,
            Option.map_injective (fun _ _ => OrderStatus.eq_of_text) status⟩

/-- **The key of an idempotency record determines the user.** -/
theorem redisKey_inj {scope : String} {user user' : Uuid} {key key' : String}
    (h : buildRedisKey scope user.text key = buildRedisKey scope user'.text key') :
    user = user' := by
  have chars := congrArg String.toList h
  simp only [buildRedisKey, String.toList_append, List.append_assoc,
    List.append_cancel_left_eq] at chars
  have colon : ∀ id : Uuid, ':' ∉ id.text.toList := fun id mem =>
    absurd (id.canonical _ mem) (by decide)
  exact Uuid.injective_text
    (String.toList_injective (Text.append_cons_inj (colon user) (colon user') chars).1)

end OrderRoutes

end OrderPlatform
