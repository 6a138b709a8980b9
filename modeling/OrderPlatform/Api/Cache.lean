import Mathlib.Data.List.Sort
import OrderPlatform.Api.Redis

/-!
# The cache-aside helpers

The three read wrappers (`withListCache`, `withEntityCache`, `withCountCache`), the two
write-path helpers (`invalidateListNamespace`, `invalidateEntity`) and the keys they use.
Every wrapper takes the fetcher as a program of its own, so what it does between the cache
read and the cache write stays visible to whoever interleaves it.

A list entry lives under a key that embeds the version of its namespace; raising the version
makes every older entry unreachable without touching it.  That is only as good as the keys
are distinct, and `buildListCacheKey_inj` and `buildCountCacheKey_inj` say how distinct they
are: a key determines the version and the query, except that a value `"*"` cannot be told
from an absent one.

* `CacheRead` — how the read phase of a wrapper ends.
* `withListCache`, `withEntityCache`, `withCountCache` — the wrappers.
* `buildListCacheKey`, `buildCountCacheKey` — the versioned keys.
-/

namespace OrderPlatform

open Async (Program)
open Text (Json)

/-- The values of the `X-Cache` response header. -/
inductive XCache
  | hit
  | miss
deriving DecidableEq

namespace cacheNamespaces

/-- `cacheNamespaces.ordersList`. -/
def ordersList : String := "orders-list"

/-- `cacheNamespaces.order`. -/
def order : String := "order"

end cacheNamespaces

/-! ### Keys -/

/-- The key under which the version of a namespace is counted. -/
def namespaceVersionKey (cacheNamespace : String) : String := "cache:ver:" ++ cacheNamespace

/-- A query object: property names with the text of their values, `none` for a value that is
`undefined` or `null`. -/
abbrev Query := List (String × Option String)

/-- `Object.keys(query).sort()`, with the values. -/
def sortedKeys (query : Query) : Query := query.insertionSort fun a b => a.1 ≤ b.1

/-- One part of a key: an absent value is `*`, and everything else is percent-encoded, so that no
value can contain a separator. -/
def encodedValue : Option String → String
  | none => "*"
  | some value => Text.encodeURIComponent value

/-- `key=value`, one part of a cache key. -/
def keyPart (property : String × Option String) : String :=
  property.1 ++ "=" ++ encodedValue property.2

/-- `{namespace}:v{version}:{k1}={v1}:{k2}={v2}...` -/
def buildListCacheKey (cacheNamespace : String) (version : ℕ) (query : Query) : String :=
  cacheNamespace ++ ":v" ++ toString version ++ ":" ++
    String.intercalate ":" ((sortedKeys query).map keyPart)

/-- `{namespace}:count:v{version}:{k1}={v1}:{k2}={v2}...` -/
def buildCountCacheKey (cacheNamespace : String) (version : ℕ) (query : Query) : String :=
  cacheNamespace ++ ":count:v" ++ toString version ++ ":" ++
    String.intercalate ":" ((sortedKeys query).map keyPart)

section Wrappers

variable {W : Type} {V : W → Type}

/-! ### Primitives -/

/-- `cacheGet`; a failing Redis makes it throw. -/
def cacheGet (key : String) : Api W V (Option String) := redis (.get key)

/-- `cacheSet`, always with a time to live. -/
def cacheSet (key value : String) (ttlSeconds : ℕ) : Api W V Unit :=
  redis (.set key value ttlSeconds)

/-- `cacheDelete`; the number of deleted keys is dropped. -/
def cacheDelete (key : String) : Api W V Unit := (redis (.del key)).bind fun _ => .done ()

/-- The version that the text of a version counter stands for. -/
def versionOf : Option String → ℕ
  | none => 0
  | some raw =>
      match Text.parseInt raw with
      | some parsed => if 0 ≤ parsed then parsed.toNat else 0
      | none => 0

/-- `cacheGetNamespaceVersion`: a version that has never been raised counts as 0. -/
def cacheGetNamespaceVersion (cacheNamespace : String) : Api W V ℕ :=
  (redis (.get (namespaceVersionKey cacheNamespace))).bind fun raw => .done (versionOf raw)

/-- `cacheBumpNamespaceVersion`: every page cached under the old version is out of reach after
it. -/
def cacheBumpNamespaceVersion (cacheNamespace : String) : Api W V ℤ :=
  redis (.incr (namespaceVersionKey cacheNamespace))

/-- `JSON.parse`, which throws on what is not JSON. -/
def jsonParse (text : String) : Api W V Json :=
  match Json.parse text with
  | some value => .done value
  | none => .thrown (.error "SyntaxError")

/-! ### Wrappers -/

/-- How the read phase of a wrapper ends: with a cached value, with the key under which the
fetched value will be written, or with an error that has been logged. -/
inductive CacheRead (α : Type)
  | served (value : α)
  | missed (cacheKey : String)
  | failed

/-- The options of `withListCache`. -/
structure ListCacheOptions (W : Type) (V : W → Type) where
  cacheNamespace : String
  query : Query
  /-- `reply.header("X-Cache", …)`. -/
  reply : XCache → Api W V Unit
  ttlSeconds : Option ℕ

/-- The read phase of `withListCache`. -/
def readList (options : ListCacheOptions W V) : Api W V (CacheRead Json) :=
  ((cacheGetNamespaceVersion options.cacheNamespace).bind fun version =>
    let cacheKey := buildListCacheKey options.cacheNamespace version options.query
    (cacheGet cacheKey).bind fun
      | some cached =>
          (options.reply .hit).bind fun _ =>
            (jsonParse cached).bind fun value => .done (.served value)
      | none => .done (.missed cacheKey)).attempt fun _ => .done .failed

/-- Cache-aside wrapper for paginated list endpoints. -/
def withListCache (ctx : ApiContext) (options : ListCacheOptions W V) (fetcher : Api W V Json) :
    Api W V Json :=
  if ctx.config.cacheEnabled then
    (readList options).bind fun
      | .served value => .done value
      | .missed cacheKey =>
          fetcher.bind fun result =>
            (((cacheSet cacheKey result.stringify
                (options.ttlSeconds.getD ctx.config.cacheTtlSeconds)).bind fun _ =>
              options.reply .miss).attempt fun _ => .done ()).bind fun _ => .done result
      | .failed => fetcher
  else fetcher

/-- The options of `withEntityCache`. -/
structure EntityCacheOptions (W : Type) (V : W → Type) where
  key : String
  reply : XCache → Api W V Unit
  ttlSeconds : Option ℕ

/-- The read phase of `withEntityCache`.  A failed read is followed by a fetch and a write
like a missed one. -/
def readEntity (options : EntityCacheOptions W V) : Api W V (CacheRead Json) :=
  ((cacheGet options.key).bind fun
    | some cached =>
        (options.reply .hit).bind fun _ =>
          (jsonParse cached).bind fun value => .done (.served value)
    | none => .done (.missed options.key)).attempt fun _ => .done (.missed options.key)

/-- Cache-aside wrapper for single-entity endpoints; `none` stands for `null`, from the
fetcher as well as from the cache. -/
def withEntityCache (ctx : ApiContext) (options : EntityCacheOptions W V)
    (fetcher : Api W V (Option Json)) : Api W V (Option Json) :=
  if ctx.config.cacheEnabled then
    (readEntity options).bind fun
      | .served .null => .done none
      | .served value => .done (some value)
      | _ =>
          fetcher.bind fun
            | none => .done none
            | some result =>
                (((cacheSet options.key result.stringify
                    (options.ttlSeconds.getD ctx.config.cacheTtlSeconds)).bind fun _ =>
                  options.reply .miss).attempt fun _ => .done ()).bind fun _ => .done (some result)
  else fetcher

/-- The options of `withCountCache`, which sets no header. -/
structure CountCacheOptions where
  cacheNamespace : String
  query : Query
  ttlSeconds : Option ℕ

/-- The count that a cached text stands for. -/
def countOf (cached : String) : Option ℕ :=
  match Text.parseInt cached with
  | some parsed => if 0 ≤ parsed then some parsed.toNat else none
  | none => none

/-- The read phase of `withCountCache`.  A text that is no count is treated as a miss. -/
def readCount (options : CountCacheOptions) : Api W V (CacheRead ℕ) :=
  ((cacheGetNamespaceVersion options.cacheNamespace).bind fun version =>
    let cacheKey := buildCountCacheKey options.cacheNamespace version options.query
    (cacheGet cacheKey).bind fun cached =>
      match cached.bind countOf with
      | some parsed => .done (.served parsed)
      | none => .done (.missed cacheKey)).attempt fun _ => .done .failed

/-- Cache an expensive count next to the list pages it belongs to. -/
def withCountCache (ctx : ApiContext) (options : CountCacheOptions) (fetcher : Api W V ℕ) :
    Api W V ℕ :=
  if ctx.config.cacheEnabled then
    (readCount options).bind fun
      | .served value => .done value
      | .missed cacheKey =>
          fetcher.bind fun value =>
            ((cacheSet cacheKey (toString value)
                (options.ttlSeconds.getD ctx.config.cacheListCountTtlSeconds)).attempt
              fun _ => .done ()).bind fun _ => .done value
      | .failed => fetcher
  else fetcher

/-! ### Invalidation -/

/-- Raise the version of a namespace; an error is logged and forgotten. -/
def invalidateListNamespace (ctx : ApiContext) (cacheNamespace : String) : Api W V Unit :=
  if ctx.config.cacheEnabled then
    ((cacheBumpNamespaceVersion cacheNamespace).bind fun _ => .done ()).attempt fun _ => .done ()
  else .done ()

/-- Delete one entity entry; an error is logged and forgotten. -/
def invalidateEntity (ctx : ApiContext) (key : String) : Api W V Unit :=
  if ctx.config.cacheEnabled then (cacheDelete key).attempt fun _ => .done () else .done ()

end Wrappers

/-! ### How distinct the keys are -/

/-- A query whose property names and values keep clear of the separators of a key. -/
def Query.Plain (query : Query) : Prop :=
  ∀ property ∈ query, ':' ∉ property.1.toList ∧ '=' ∉ property.1.toList ∧
    property.2 ≠ some "*"

theorem encodedValue_inj {a b : Option String} (ha : a ≠ some "*") (hb : b ≠ some "*")
    (h : encodedValue a = encodedValue b) : a = b := by
  have star : Text.encodeURIComponent "*" = "*" := by decide
  cases a with
  | none =>
      cases b with
      | none => rfl
      | some b =>
          have := Text.encodeURIComponent_injective (star.trans h)
          exact absurd (congrArg some this.symm) hb
  | some a =>
      cases b with
      | none =>
          have := Text.encodeURIComponent_injective (h.trans star.symm)
          exact absurd (congrArg some this) ha
      | some b => exact congrArg some (Text.encodeURIComponent_injective h)

theorem colon_notMem_encodedValue (a : Option String) : ':' ∉ (encodedValue a).toList := by
  cases a with
  | none => decide
  | some a => exact Text.colon_notMem_encodeURIComponent a

theorem keyPart_inj {a b : String × Option String} (ha : '=' ∉ a.1.toList ∧ a.2 ≠ some "*")
    (hb : '=' ∉ b.1.toList ∧ b.2 ≠ some "*") (h : keyPart a = keyPart b) : a = b := by
  have chars := congrArg String.toList h
  simp only [keyPart, String.toList_append, List.append_assoc] at chars
  obtain ⟨key, value⟩ := Text.append_cons_inj ha.1 hb.1 chars
  exact Prod.ext (String.toList_injective key)
    (encodedValue_inj ha.2 hb.2 (String.toList_injective value))

private theorem colon_notMem_keyPart {a : String × Option String} (ha : ':' ∉ a.1.toList) :
    ':' ∉ (keyPart a).toList := by
  have equals : ':' ∉ "=".toList := by decide
  simp only [keyPart, String.toList_append, List.mem_append, not_or]
  exact ⟨⟨ha, equals⟩, colon_notMem_encodedValue a.2⟩

/-- Parts that are pairwise distinguishable are distinguishable in a row. -/
private theorem map_keyPart_inj {q q' : Query} (hq : q.Plain) (hq' : q'.Plain)
    (h : q.map (String.toList ∘ keyPart) = q'.map (String.toList ∘ keyPart)) : q = q' := by
  induction q generalizing q' with
  | nil => simpa using h.symm
  | cons a q ih =>
      cases q' with
      | nil => simp at h
      | cons b q' =>
          simp only [List.map_cons, List.cons.injEq, Function.comp_apply] at h
          rw [keyPart_inj (hq a List.mem_cons_self).2 (hq' b List.mem_cons_self).2
              (String.toList_injective h.1),
            ih (fun c hc => hq c (List.mem_cons_of_mem _ hc))
              (fun c hc => hq' c (List.mem_cons_of_mem _ hc)) h.2]

theorem sortedKeys_perm (q : Query) : (sortedKeys q).Perm q := List.perm_insertionSort _ q

private theorem splitOn_parts {q : Query} (plain : q.Plain) (nonempty : q ≠ []) :
    (String.intercalate ":" (q.map keyPart)).toList.splitOn ':' =
      q.map (String.toList ∘ keyPart) := by
  rw [String.toList_intercalate, List.map_map]
  refine List.splitOn_intercalate ':' ?_ (by simpa using nonempty)
  intro part mem
  obtain ⟨a, ha, rfl⟩ := List.mem_map.mp mem
  exact colon_notMem_keyPart (plain a ha).1

/-- The part of a key behind the version determines the query. -/
private theorem perm_of_parts {q q' : Query} (hq : q.Plain) (hq' : q'.Plain) (some_q : q ≠ [])
    (some_q' : q' ≠ [])
    (h : (String.intercalate ":" ((sortedKeys q).map keyPart)).toList =
      (String.intercalate ":" ((sortedKeys q').map keyPart)).toList) : q.Perm q' := by
  have plain : ∀ {q : Query}, q.Plain → (sortedKeys q).Plain :=
    fun hq a ha => hq a ((sortedKeys_perm _).mem_iff.mp ha)
  have nonempty : ∀ {q : Query}, q ≠ [] → sortedKeys q ≠ [] := by
    intro q some_q empty
    have perm := sortedKeys_perm q
    rw [empty] at perm
    exact some_q perm.nil_eq.symm
  have parts := congrArg (List.splitOn ':') h
  rw [splitOn_parts (plain hq) (nonempty some_q), splitOn_parts (plain hq') (nonempty some_q')]
    at parts
  have sorted := map_keyPart_inj (plain hq) (plain hq') parts
  exact (sortedKeys_perm q).symm.trans (sorted ▸ sortedKeys_perm q')

private theorem versionedKey_inj {front : String} {v v' : ℕ} {q q' : Query} (hq : q.Plain)
    (hq' : q'.Plain) (some_q : q ≠ []) (some_q' : q' ≠ [])
    (h : front ++ toString v ++ ":" ++ String.intercalate ":" ((sortedKeys q).map keyPart) =
      front ++ toString v' ++ ":" ++ String.intercalate ":" ((sortedKeys q').map keyPart)) :
    v = v' ∧ q.Perm q' := by
  have chars := congrArg String.toList h
  have colon : ∀ n : ℕ, ':' ∉ (toString n).toList := fun n => Text.notMem_repr (by decide) n
  simp only [String.toList_append, List.append_assoc, List.append_cancel_left_eq] at chars
  obtain ⟨version, parts⟩ := Text.append_cons_inj (colon v) (colon v') chars
  refine ⟨?_, perm_of_parts hq hq' some_q some_q' parts⟩
  have same := congrArg Text.parseInt (String.toList_injective version)
  exact Int.ofNat_inj.mp (Option.some_inj.mp (by simpa [toString] using same))

/-- **A list key determines its version and its query.** -/
theorem buildListCacheKey_inj {cacheNamespace : String} {v v' : ℕ} {q q' : Query} (hq : q.Plain)
    (hq' : q'.Plain) (some_q : q ≠ []) (some_q' : q' ≠ [])
    (h : buildListCacheKey cacheNamespace v q = buildListCacheKey cacheNamespace v' q') :
    v = v' ∧ q.Perm q' := versionedKey_inj hq hq' some_q some_q' h

/-- **A count key determines its version and its filters.** -/
theorem buildCountCacheKey_inj {cacheNamespace : String} {v v' : ℕ} {q q' : Query} (hq : q.Plain)
    (hq' : q'.Plain) (some_q : q ≠ []) (some_q' : q' ≠ [])
    (h : buildCountCacheKey cacheNamespace v q = buildCountCacheKey cacheNamespace v' q') :
    v = v' ∧ q.Perm q' := versionedKey_inj hq hq' some_q some_q' h

/-! ### Counters as text -/

@[simp] theorem versionOf_none : versionOf none = 0 := rfl

@[simp] theorem versionOf_some (n : ℕ) : versionOf (some (toString n)) = n := by
  simp [versionOf, toString]

@[simp] theorem countOf_toString (n : ℕ) : countOf (toString n) = some n := by
  simp [countOf, toString]

end OrderPlatform
