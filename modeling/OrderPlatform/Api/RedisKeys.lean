import Std.Data.String.ToInt
import OrderPlatform.Api.Keys
import OrderPlatform.Api.RateLimit

/-!
# All keys of the API

Seven families of keys share one Redis.  A `RedisKey` is a use of one, with what its text is built
from; what the code checks before it builds a text is a field.  `RedisKey.text_injective` says that
no two uses have the same text.

The first character of a text tells its family, up to the three families that begin with the name of
a namespace: there the part behind the name does.
-/

namespace OrderPlatform

namespace RedisKeys

open OrderRoutes (ListOrdersQuery orderEntityKey countCacheQuery listKey_inj countKey_inj)
open RateLimit (rateKey)
open AuthRoutes (failedIpKey)

/-- `CACHE_NAMESPACES`. -/
inductive CacheNamespace
  | ordersList
  | order
deriving DecidableEq

/-- The text of a namespace. -/
def CacheNamespace.text : CacheNamespace → String
  | ordersList => cacheNamespaces.ordersList
  | order => cacheNamespaces.order

/-- The use of a key. -/
inductive RedisKey (ctx : ApiContext)
  | version (cacheNamespace : String)
  | page (cacheNamespace : CacheNamespace) (version : ℕ) (query : ListOrdersQuery) (userId : Uuid)
  /-- The filter stands for the `WHERE` clause and its parameters. -/
  | count (cacheNamespace : CacheNamespace) (version : ℕ) (filter : OrderFilter)
      (validated : ∃ (query : ListOrdersQuery) (userId : Uuid), filter = query.filter ctx userId)
  /-- The identifier is the text of a UUID, in whatever case. -/
  | entity (id : String) (plain : ':' ∉ id.toList)
  | idempotency (scope userId key : String) (userPlain : ':' ∉ userId.toList)
      (keyPlain : ':' ∉ key.toList)
  | rate (clientId : String) (windowBucket : ℤ)
  | failedIp (clientId : String)

namespace RedisKey

variable {ctx : ApiContext}

/-- The key that is sent to Redis. -/
def text : RedisKey ctx → String
  | version cacheNamespace => namespaceVersionKey cacheNamespace
  | page cacheNamespace v query userId =>
      buildListCacheKey cacheNamespace.text v (query.listCacheQuery userId)
  | count cacheNamespace v filter _ =>
      buildCountCacheKey cacheNamespace.text v (countCacheQuery filter)
  | entity id _ => orderEntityKey id
  | idempotency scope userId key _ _ => buildRedisKey scope userId key
  | rate clientId windowBucket => rateKey clientId windowBucket
  | failedIp clientId => failedIpKey clientId

/-- The first character of the text. -/
def head : RedisKey ctx → Char
  | version _ => 'c'
  | page .. => 'o'
  | count .. => 'o'
  | entity .. => 'o'
  | idempotency .. => 'i'
  | rate .. => 'r'
  | failedIp _ => 'a'

theorem head_text (k : RedisKey ctx) : k.text.toList.head? = some k.head := by
  cases k with
  | version cacheNamespace => simp only [text, namespaceVersionKey, String.toList_append]; rfl
  | page cacheNamespace version query userId =>
      simp only [text, buildListCacheKey, String.toList_append, List.append_assoc]
      cases cacheNamespace <;> rfl
  | count cacheNamespace version filter validated =>
      simp only [text, buildCountCacheKey, String.toList_append, List.append_assoc]
      cases cacheNamespace <;> rfl
  | entity id plain => simp only [text, orderEntityKey, String.toList_append]; rfl
  | idempotency scope userId key userPlain keyPlain =>
      simp only [text, buildRedisKey, String.toList_append, List.append_assoc]; rfl
  | rate clientId windowBucket =>
      simp only [text, rateKey, String.toList_append, List.append_assoc]; rfl
  | failedIp clientId => simp only [text, failedIpKey, String.toList_append]; rfl

/-! ### Keys that begin with a namespace -/

/-- The name of a namespace, and what stands behind it. -/
def behind : RedisKey ctx → CacheNamespace × List Char
  | page cacheNamespace v query userId =>
      (cacheNamespace, 'v' :: ((toString v).toList ++ ":".toList ++
        (String.intercalate ":" ((sortedKeys (query.listCacheQuery userId)).map keyPart)).toList))
  | count cacheNamespace v filter _ =>
      (cacheNamespace, 'c' :: ("ount:v".toList ++ (toString v).toList ++ ":".toList ++
        (String.intercalate ":" ((sortedKeys (countCacheQuery filter)).map keyPart)).toList))
  | entity id _ => (.order, id.toList)
  | _ => (.order, [])

theorem text_behind {k : RedisKey ctx} (h : k.head = 'o') :
    k.text.toList = k.behind.1.text.toList ++ ':' :: k.behind.2 := by
  cases k with
  | page cacheNamespace version query userId =>
      simp only [text, buildListCacheKey, String.toList_append, List.append_assoc, behind]
      rfl
  | count cacheNamespace version filter validated =>
      simp only [text, buildCountCacheKey, String.toList_append, List.append_assoc, behind]
      rfl
  | entity id plain =>
      simp only [text, orderEntityKey, String.toList_append, List.append_assoc, behind]
      rfl
  | version cacheNamespace => cases h
  | idempotency scope userId key userPlain keyPlain => cases h
  | rate clientId windowBucket => cases h
  | failedIp clientId => cases h

/-- The text tells the namespace, and what stands behind it. -/
theorem behind_inj {k k' : RedisKey ctx} (h : k.head = 'o') (h' : k'.head = 'o')
    (same : k.text = k'.text) : k.behind = k'.behind := by
  have colon : ∀ cacheNamespace : CacheNamespace, ':' ∉ cacheNamespace.text.toList := by
    intro cacheNamespace
    cases cacheNamespace <;> decide
  have chars := congrArg String.toList same
  rw [text_behind h, text_behind h'] at chars
  obtain ⟨names, rest⟩ := Text.append_cons_inj (colon _) (colon _) chars
  have injective : Function.Injective CacheNamespace.text := by
    intro a b same
    cases a <;> cases b <;> first | rfl | exact absurd same (by decide)
  exact Prod.ext (injective (String.toList_injective names)) rest

end RedisKey

/-! ### Keys of one family -/

/-- The text of a rate key tells the client and the window. -/
theorem rateKey_inj {clientId clientId' : String} {windowBucket windowBucket' : ℤ}
    (h : rateKey clientId windowBucket = rateKey clientId' windowBucket') :
    clientId = clientId' ∧ windowBucket = windowBucket' := by
  have colon : ∀ n : ℤ, ':' ∉ n.repr.toList := by
    intro n
    rw [Int.repr_eq_if]
    split
    · exact Text.notMem_repr (by decide) _
    · rw [String.toList_append]
      exact fun mem => (List.mem_append.mp mem).elim (by decide)
        (Text.notMem_repr (by decide) _)
  have chars := congrArg String.toList h
  simp only [rateKey, String.toList_append, List.append_assoc, List.append_cancel_left_eq] at chars
  obtain ⟨client, window⟩ := Text.append_cons_inj_right (colon windowBucket) (colon windowBucket')
    chars
  exact ⟨String.toList_injective client, Int.repr_injective (String.toList_injective window)⟩

/-- The text of the key of an idempotency record tells what it was built from. -/
theorem buildRedisKey_inj {scope scope' userId userId' key key' : String}
    (userPlain : ':' ∉ userId.toList) (userPlain' : ':' ∉ userId'.toList)
    (keyPlain : ':' ∉ key.toList) (keyPlain' : ':' ∉ key'.toList)
    (h : buildRedisKey scope userId key = buildRedisKey scope' userId' key') :
    scope = scope' ∧ userId = userId' ∧ key = key' := by
  have chars := congrArg String.toList h
  simp only [buildRedisKey, String.toList_append, List.append_assoc, List.append_cancel_left_eq]
    at chars
  -- the key is what stands behind the last colon, and the user what stands before it
  have split : (scope.toList ++ ':' :: userId.toList) ++ ':' :: key.toList =
      (scope'.toList ++ ':' :: userId'.toList) ++ ':' :: key'.toList := by
    simpa using chars
  obtain ⟨front, keys⟩ := Text.append_cons_inj_right keyPlain keyPlain' split
  obtain ⟨scopes, users⟩ := Text.append_cons_inj_right userPlain userPlain' front
  exact ⟨String.toList_injective scopes, String.toList_injective users, String.toList_injective keys⟩

/-- A text behind a fixed front. -/
private theorem append_inj {front a b : String} (h : front ++ a = front ++ b) : a = b := by
  have chars := congrArg String.toList h
  rw [String.toList_append, String.toList_append, List.append_cancel_left_eq] at chars
  exact String.toList_injective chars

/-! ### All keys -/

/-- The seven kinds of keys that the services write. -/
inductive Family
  | version
  | page
  | count
  | entity
  | idempotency
  | rate
  | failedIp
deriving DecidableEq

/-- The family that the first character and what stands behind the namespace belong to. -/
def familyOf (head : Char) (behind : List Char) : Family :=
  if head = 'o' then
    if ':' ∈ behind then if behind.head? = some 'v' then .page else .count else .entity
  else if head = 'c' then .version
  else if head = 'i' then .idempotency
  else if head = 'r' then .rate
  else .failedIp

namespace RedisKey

variable {ctx : ApiContext}

/-- The kind of a key. -/
def family : RedisKey ctx → Family
  | version _ => .version
  | page .. => .page
  | count .. => .count
  | entity .. => .entity
  | idempotency .. => .idempotency
  | rate .. => .rate
  | failedIp _ => .failedIp

theorem family_eq (k : RedisKey ctx) : k.family = familyOf k.head k.behind.2 := by
  cases k with
  | page cacheNamespace version query userId =>
      have colon : ':' ∈ (page cacheNamespace version query userId : RedisKey ctx).behind.2 := by
        simp [behind]
      unfold familyOf
      rw [if_pos colon]
      rfl
  | count cacheNamespace version filter validated =>
      have colon : ':' ∈ (count cacheNamespace version filter validated : RedisKey ctx).behind.2 := by
        simp [behind]
      unfold familyOf
      rw [if_pos colon]
      rfl
  | entity id plain =>
      unfold familyOf
      rw [if_neg (show ':' ∉ (entity id plain : RedisKey ctx).behind.2 from plain)]
      rfl
  | version cacheNamespace => rfl
  | idempotency scope userId key userPlain keyPlain => rfl
  | rate clientId windowBucket => rfl
  | failedIp clientId => rfl

/-- **The text tells the family.** -/
theorem family_of_text {k k' : RedisKey ctx} (same : k.text = k'.text) : k.family = k'.family := by
  have heads : k.head = k'.head := by
    have chars := congrArg (fun text => text.toList.head?) same
    rw [head_text, head_text] at chars
    exact Option.some.inj chars
  rw [family_eq, family_eq, heads]
  by_cases namespaced : k.head = 'o'
  · rw [behind_inj namespaced (heads ▸ namespaced) same]
  · have namespaced' : k'.head ≠ 'o' := heads ▸ namespaced
    unfold familyOf
    rw [if_neg namespaced', if_neg namespaced']

/-- **No two uses of a key have the same text**: a text tells the family, and what the key was built
from.

The families are told apart by the beginnings of their texts (`family_of_text`), and within a family
everything that the key was built from can be read off the text. -/
theorem text_injective : Function.Injective (text : RedisKey ctx → String) := by
  intro k k' same
  have families := family_of_text same
  cases k with
  | version cacheNamespace =>
      cases k' with
      | version cacheNamespace' => exact congrArg version (append_inj same)
      | _ => cases families
  | page cacheNamespace v query userId =>
      cases k' with
      | page cacheNamespace' v' query' userId' =>
          obtain rfl := congrArg Prod.fst (behind_inj rfl rfl same)
          obtain ⟨rfl, rfl, rfl⟩ := listKey_inj same
          rfl
      | _ => cases families
  | count cacheNamespace v filter validated =>
      cases k' with
      | count cacheNamespace' v' filter' validated' =>
          obtain rfl := congrArg Prod.fst (behind_inj rfl rfl same)
          obtain ⟨query, userId, rfl⟩ := validated
          obtain ⟨query', userId', rfl⟩ := validated'
          obtain ⟨rfl, filters⟩ := countKey_inj same
          congr 1
      | _ => cases families
  | entity id plain =>
      cases k' with
      | entity id' plain' =>
          obtain rfl := String.toList_injective (congrArg Prod.snd (behind_inj rfl rfl same))
          rfl
      | _ => cases families
  | idempotency scope userId key plain keyPlain =>
      cases k' with
      | idempotency scope' userId' key' plain' keyPlain' =>
          obtain ⟨rfl, rfl, rfl⟩ := buildRedisKey_inj plain plain' keyPlain keyPlain' same
          rfl
      | _ => cases families
  | rate clientId windowBucket =>
      cases k' with
      | rate clientId' windowBucket' =>
          obtain ⟨rfl, rfl⟩ := rateKey_inj same
          rfl
      | _ => cases families
  | failedIp clientId =>
      cases k' with
      | failedIp clientId' => exact congrArg failedIp (append_inj same)
      | _ => cases families

end RedisKey

end RedisKeys

end OrderPlatform
