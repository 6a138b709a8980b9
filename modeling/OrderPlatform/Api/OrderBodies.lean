import Mathlib.Logic.Equiv.Basic
import OrderPlatform.Api.Orders
import OrderPlatform.Text.JavaScript

/-!
# The body of a create request

What `POST /v1/orders` does with the text of its body before an order is made of it: `JSON.parse`,
the schema, and the hash that an `Idempotency-Key` is bound to.  Strings are those of JavaScript
here, with unpaired surrogates in them where the client wrote an escape for one.

What the schema promises is a field of `OrderItemBody` and `CreateOrderBody`.  Of an object it reads
the members that it declares, so their order and other members are of no matter
(`createOrderSchema_object`); and neither are blanks in the text (`JavaScript.parse_laid`).

* `createOrderSchema` — the schema.
* `acceptedBody_stringify` — a validated body written as JSON is accepted as this body.
* `bodyHash` — the hash of a validated body, for which `bodyHash_text` is the connection to
  `canonicalRequestHash`.
* `requestHash_identifies_order` — equal hashes, equal orders.
-/

namespace OrderPlatform

namespace OrderRoutes

open Utf16 (Units lit)
open JavaScript (Parsed)
open JsonText (Value Members)

/-! ### The schema -/

/-- `\s` -/
def isSpace (u : UInt16) : Bool :=
  (0x09 ≤ u.toNat && u.toNat ≤ 0x0d) || u = 0x20 || u = 0xa0 || u = 0x1680 ||
    (0x2000 ≤ u.toNat && u.toNat ≤ 0x200a) || u = 0x2028 || u = 0x2029 || u = 0x202f ||
    u = 0x205f || u = 0x3000 || u = 0xfeff

/-- `[^\s@]` -/
def isEmailUnit (u : UInt16) : Bool := !isSpace u && u ≠ 0x40

/-- `/^[^\s@]+@[^\s@]+\.[^\s@]+$/`: behind the sign stands a point that is neither the first nor the
last unit. -/
def matchesEmailRegex (s : Units) : Bool :=
  match s.dropWhile isEmailUnit with
  | [] => false
  | sign :: domain =>
      sign = 0x40 && !(s.takeWhile isEmailUnit).isEmpty && domain.all isEmailUnit &&
        (domain.drop 1).dropLast.contains 0x2e

/-- A validated item. -/
structure OrderItemBody where
  sku : Units
  quantity : ℕ
  unitPriceCents : ℕ
  sku_length : 1 ≤ sku.length ∧ sku.length ≤ 64
  quantity_range : 1 ≤ quantity ∧ quantity ≤ 1000
  price_range : 0 ≤ unitPriceCents ∧ unitPriceCents ≤ 100000000
deriving DecidableEq

/-- A validated body. -/
structure CreateOrderBody where
  customerEmail : Units
  items : List OrderItemBody
  email : matchesEmailRegex customerEmail = true
  items_length : 1 ≤ items.length ∧ items.length ≤ 100
deriving DecidableEq

/-- `z.string()` -/
def stringOf : Option Parsed → Option Units
  | some (.str s) => some s
  | _ => none

/-- `z.number().int().min(low).max(high)` -/
def integerOf (low high : ℕ) : Option Parsed → Option {n : ℕ // low ≤ n ∧ n ≤ high}
  | some (.num (.finite q)) =>
      if h : q = (q.num.toNat : ℚ) ∧ low ≤ q.num.toNat ∧ q.num.toNat ≤ high then
        some ⟨q.num.toNat, h.2⟩
      else none
  | _ => none

/-- `orderItemSchema`: the three properties in their ranges; other properties are dropped. -/
def orderItemSchema : Parsed → Option OrderItemBody
  | .obj members =>
      match stringOf (members.get? (lit "sku")), integerOf 1 1000 (members.get? (lit "quantity")),
        integerOf 0 100000000 (members.get? (lit "unitPriceCents")) with
      | some sku, some quantity, some price =>
          if h : 1 ≤ sku.length ∧ sku.length ≤ 64 then
            some ⟨sku, quantity, price, h, quantity.2, price.2⟩
          else none
      | _, _, _ => none
  | _ => none

/-- `createOrderSchema`: the email address and 1 to 100 items; other properties are dropped. -/
def createOrderSchema : Parsed → Option CreateOrderBody
  | .obj members =>
      match stringOf (members.get? (lit "customerEmail")), members.get? (lit "items") with
      | some email, some (.arr items) =>
          match items.toList.mapM orderItemSchema with
          | some items =>
              if h : matchesEmailRegex email = true ∧ 1 ≤ items.length ∧ items.length ≤ 100 then
                some ⟨email, items, h.1, h.2⟩
              else none
          | none => none
      | _, _ => none
  | _ => none

/-! ### The hash of a body -/

/-- `{ sku, quantity, unitPriceCents }`. -/
def OrderItemBody.toJson (item : OrderItemBody) : JavaScript.Json :=
  .object [(lit "sku", .str item.sku), (lit "quantity", .num item.quantity),
    (lit "unitPriceCents", .num item.unitPriceCents)]

namespace CreateOrderBody

/-- The items as they are serialised for the `jsonb` column. -/
def itemsJson (body : CreateOrderBody) : JavaScript.Json :=
  .array (body.items.map OrderItemBody.toJson)

/-- `{ customerEmail, items }`. -/
def toJson (body : CreateOrderBody) : JavaScript.Json :=
  .object [(lit "customerEmail", .str body.customerEmail), (lit "items", body.itemsJson)]

end CreateOrderBody

/-- `{ method: request.method, route, body }`. -/
def canonicalJson (request : FastifyRequest) (body : JavaScript.Json) : JavaScript.Json :=
  .object [(lit "method", .str (Utf16.units request.method.toList)),
    (lit "route", .str (Utf16.units (requestRoute request).toList)), (lit "body", body)]

/-- `canonicalRequestHash`.  The hash takes the text of a string. -/
def bodyHash (ctx : ApiContext) (request : FastifyRequest) (body : JavaScript.Json) : String :=
  ctx.sha256 (String.ofList (Utf16.decode (JavaScript.stringify (canonicalJson request body))))

/-- What the handler goes on with: the text of the body parsed and validated. -/
def acceptedBody (text : Units) : Option CreateOrderBody :=
  (JavaScript.parse text).bind createOrderSchema

/-- The hash that an `Idempotency-Key` is bound to by a request with this text as its body. -/
def requestHash (ctx : ApiContext) (request : FastifyRequest) (text : Units) : Option String :=
  (acceptedBody text).map fun body => bodyHash ctx request body.toJson

section

variable {ctx : ApiContext} {request request' : FastifyRequest}

/-! ### A validated body is accepted again -/

private theorem integerOf_number {low high n : ℕ} (range : low ≤ n ∧ n ≤ high)
    (small : high < 2 ^ 53) :
    integerOf low high (some (.num (JavaScript.number n))) = some ⟨n, range⟩ := by
  have exact_ : JavaScript.number n = .finite (n : ℚ) :=
    Double.round_natCast (lt_of_le_of_lt range.2 small)
  rw [exact_, integerOf, dif_pos]
  · rfl
  · exact ⟨rfl, range⟩

/-- An item is accepted as what it is. -/
theorem orderItemSchema_toJson (item : OrderItemBody) :
    orderItemSchema (item.toJson.map JavaScript.number) = some item := by
  obtain ⟨members, object, sku, quantity, price⟩ : ∃ m, item.toJson.map JavaScript.number = .obj m ∧
      m.get? (lit "sku") = some (.str item.sku) ∧
      m.get? (lit "quantity") = some (.num (JavaScript.number item.quantity)) ∧
      m.get? (lit "unitPriceCents") = some (.num (JavaScript.number item.unitPriceCents)) :=
    ⟨_, rfl, rfl, rfl, rfl⟩
  rw [object, orderItemSchema, sku, quantity, price,
    integerOf_number item.quantity_range (by norm_num), integerOf_number item.price_range (by norm_num)]
  exact dif_pos item.sku_length

/-- A body is accepted as what it is. -/
theorem createOrderSchema_toJson (body : CreateOrderBody) :
    createOrderSchema (body.toJson.map JavaScript.number) = some body := by
  obtain ⟨members, object, email, items⟩ : ∃ m, body.toJson.map JavaScript.number = .obj m ∧
      m.get? (lit "customerEmail") = some (.str body.customerEmail) ∧
      m.get? (lit "items") = some (body.itemsJson.map JavaScript.number) :=
    ⟨_, rfl, rfl, rfl⟩
  have mapped : ∀ l : List OrderItemBody,
      ((JsonText.Values.ofList (l.map OrderItemBody.toJson)).map JavaScript.number).toList.mapM
        orderItemSchema = some l := by
    intro l
    induction l with
    | nil => rfl
    | cons item l ih =>
        rw [List.map_cons, JsonText.Values.ofList, JsonText.Values.map, JsonText.Values.toList,
          List.mapM_cons, orderItemSchema_toJson, ih]
        rfl
  have validated := mapped body.items
  rw [object, createOrderSchema, email, items, CreateOrderBody.itemsJson, Value.array, Value.map,
    stringOf]
  dsimp only
  rw [validated]
  exact dif_pos ⟨body.email, body.items_length⟩

/-- **A validated body is written as a text that is accepted as this body.** -/
theorem acceptedBody_stringify (body : CreateOrderBody) :
    acceptedBody (JavaScript.stringify body.toJson) = some body := by
  rw [acceptedBody, JavaScript.parse_stringify, Option.bind_some, createOrderSchema_toJson]

/-! ### What the hash identifies -/

theorem OrderItemBody.toJson_injective : Function.Injective OrderItemBody.toJson := by
  rintro ⟨sku, quantity, price, _, _, _⟩ ⟨sku', quantity', price', _, _, _⟩ same
  simp only [toJson, Value.object, Members.ofList, Value.obj.injEq, Members.cons.injEq,
    Value.str.injEq, Value.num.injEq, Nat.cast_inj, true_and, and_true] at same
  obtain ⟨rfl, rfl, rfl⟩ := same
  rfl

theorem CreateOrderBody.toJson_inj {body body' : CreateOrderBody} :
    body.toJson = body'.toJson ↔
      body.customerEmail = body'.customerEmail ∧ body.items = body'.items := by
  constructor
  · intro same
    simp only [toJson, itemsJson, Value.object, Value.array, Members.ofList, Value.obj.injEq,
      Members.cons.injEq, Value.str.injEq, Value.arr.injEq, true_and, and_true] at same
    have items := congrArg JsonText.Values.toList same.2
    rw [JsonText.Values.toList_ofList, JsonText.Values.toList_ofList] at items
    exact ⟨same.1, List.map_injective_iff.mpr OrderItemBody.toJson_injective items⟩
  · rintro ⟨email, items⟩
    rw [toJson, toJson, itemsJson, itemsJson, email, items]

/-- **The request hash identifies the validated order.**  For equal method and route and all texts
that are accepted, the hashes are equal if and only if the orders have the same customer email and
the same items.

The hash is taken of a text, so the proof goes through three injections: the digest, the
serialisation, and the validated body.  Properties that the schema drops are gone before any of
them. -/
theorem requestHash_identifies_order (collisionFree : Function.Injective ctx.sha256)
    (method : request.method = request'.method) (route : requestRoute request = requestRoute request')
    {a b : Units} {body body' : CreateOrderBody} (accepted : acceptedBody a = some body)
    (accepted' : acceptedBody b = some body') :
    requestHash ctx request a = requestHash ctx request' b ↔
      body.customerEmail = body'.customerEmail ∧ body.items = body'.items := by
  rw [requestHash, requestHash, accepted, accepted', Option.map_some, Option.map_some,
    Option.some_inj, ← CreateOrderBody.toJson_inj]
  constructor
  · intro same
    have texts := String.ofList_injective (collisionFree same)
    have values := JavaScript.decode_stringify_injective texts
    simp only [canonicalJson, Value.object, Members.ofList, Value.obj.injEq, Members.cons.injEq,
      true_and, and_true] at values
    exact values.2.2
  · intro same
    rw [bodyHash, bodyHash, canonicalJson, canonicalJson, method, route, same]

/-! ### Two spellings of one order -/

/-- A function without collisions by which this text has this hash. -/
def hashing (text hash : String) (others : String → String) : String → String :=
  others ∘ Equiv.swap text hash

theorem hashing_injective {text hash : String} {others : String → String}
    (injective : Function.Injective others) : Function.Injective (hashing text hash others) :=
  injective.comp (Equiv.swap text hash).injective

def postRequest : FastifyRequest := ⟨"r1", "POST", some "/v1/orders", "/v1/orders", .missing, none⟩

/-- The text that is hashed for an order of one item, given what is written for its sku. -/
def exampleCanonical (sku : String) : String :=
  "\x7b\"method\":\"POST\",\"route\":\"/v1/orders\",\"body\":\x7b\"customerEmail\":\"a@b.co\"," ++
    "\"items\":[\x7b\"sku\":\"" ++ sku ++ "\",\"quantity\":1,\"unitPriceCents\":100\x7d]\x7d\x7d"

/-- SHA-256, as far as the two orders of the example are concerned. -/
def exampleSha256 : String → String :=
  hashing (exampleCanonical "x")
    "e472329e20e1911e7f15ecd74c9393ee308157d77dd2118b51fad80708e74292"
    (hashing (exampleCanonical "\\ud800")
      "1aa409a802b1a5e3981d1151765c851b1fdf9ccbd00076f234cc3450224d532e" id)

/-- An order of one item. -/
def oneItem (sku : Units) (length : 1 ≤ sku.length ∧ sku.length ≤ 64) : CreateOrderBody where
  customerEmail := lit "a@b.co"
  items := [⟨sku, 1, 100, length, by decide, by decide⟩]
  email := by decide
  items_length := ⟨le_rfl, by norm_num⟩

def compactText : Units :=
  lit ("\x7b\"customerEmail\":\"a@b.co\",\"items\":[\x7b\"sku\":\"x\",\"quantity\":1," ++
    "\"unitPriceCents\":100\x7d]\x7d")

/-- The same order with blanks, in another order, with a member of its own, an escape, and numerals
with a point and an exponent. -/
def respelledText : Units :=
  lit ("\x7b \"note\": null, \"items\": [\x7b\"unitPriceCents\": 1e2, \"quantity\": 1.0, " ++
    "\"sku\": \"\\u0078\"\x7d],\n\"customerEmail\": \"a@b.co\"\x7d")

/-- An order with an unpaired surrogate. -/
def surrogateText : Units :=
  lit ("\x7b\"customerEmail\":\"a@b.co\",\"items\":[\x7b\"sku\":\"\\ud800\",\"quantity\":1," ++
    "\"unitPriceCents\":100\x7d]\x7d")

/-- Two spellings of one order have one hash, and another order has another one. -/
theorem requestHash_identifies_respelled_order :
    requestHash (exampleContext exampleSha256) postRequest compactText =
        requestHash (exampleContext exampleSha256) postRequest respelledText ∧
      requestHash (exampleContext exampleSha256) postRequest compactText ≠
        requestHash (exampleContext exampleSha256) postRequest surrogateText := by
  have collisionFree : Function.Injective exampleSha256 :=
    hashing_injective (hashing_injective Function.injective_id)
  have compact : acceptedBody compactText = some (oneItem [0x78] (by decide)) := by decide +kernel
  have respelled : acceptedBody respelledText = some (oneItem [0x78] (by decide)) := by
    decide +kernel
  have surrogate : acceptedBody surrogateText = some (oneItem [0xd800] (by decide)) := by
    decide +kernel
  refine ⟨(requestHash_identifies_order collisionFree rfl rfl
    compact respelled).mpr ⟨rfl, rfl⟩, fun same => ?_⟩
  have equal := (requestHash_identifies_order collisionFree
    rfl rfl compact surrogate).mp same
  cases equal.2

/-! ### Bodies whose strings are texts -/

/-- The order that Postgres and the event are given: strings as the texts that they are written
as. -/
def OrderItemBody.text (item : OrderItemBody) : OrderItem :=
  ⟨String.ofList (Utf16.decode item.sku), item.quantity, item.unitPriceCents⟩

/-- The body with its texts read from code units, as the routes pass it on. -/
def CreateOrderBody.text (body : CreateOrderBody) : CreateOrder :=
  ⟨String.ofList (Utf16.decode body.customerEmail), body.items.map OrderItemBody.text⟩

/-- Every string of the body can be told from its text. -/
def CreateOrderBody.IsText (body : CreateOrderBody) : Prop :=
  Utf16.paired body.customerEmail = true ∧ ∀ item ∈ body.items, Utf16.paired item.sku = true

private theorem ofJson_str {s : Units} (pairs : Utf16.paired s = true) :
    JavaScript.ofJson (.str (String.ofList (Utf16.decode s))) = .str s := by
  rw [JavaScript.ofJson, String.toList_ofList, Utf16.units_decode pairs]

theorem OrderItemBody.ofJson_text {item : OrderItemBody} (pairs : Utf16.paired item.sku = true) :
    JavaScript.ofJson item.text.toJson = item.toJson := by
  have sku := ofJson_str pairs
  simp only [OrderItem.toJson, OrderItemBody.text, OrderItemBody.toJson, Text.Json.object,
    Text.Fields.ofList, Value.object, Members.ofList, JavaScript.ofJson, JavaScript.ofFields,
    lit] at sku ⊢
  rw [sku]

theorem CreateOrderBody.ofJson_itemsJson {body : CreateOrderBody}
    (pairs : ∀ item ∈ body.items, Utf16.paired item.sku = true) :
    JavaScript.ofJson body.text.itemsJson = body.itemsJson := by
  have items : ∀ l : List OrderItemBody, (∀ item ∈ l, Utf16.paired item.sku = true) →
      JavaScript.ofItems (.ofList ((l.map OrderItemBody.text).map OrderItem.toJson)) =
        .ofList (l.map OrderItemBody.toJson) := by
    intro l
    induction l with
    | nil => exact fun _ => rfl
    | cons item l ih =>
        intro pairs
        obtain ⟨first, others⟩ := List.forall_mem_cons.mp pairs
        rw [List.map_cons, List.map_cons, List.map_cons, Text.Items.ofList, JavaScript.ofItems,
          OrderItemBody.ofJson_text first, ih others, JsonText.Values.ofList]
  exact congrArg Value.arr (items body.items pairs)

theorem CreateOrderBody.ofJson_toJson {body : CreateOrderBody} (text : body.IsText) :
    JavaScript.ofJson body.text.toJson = body.toJson := by
  have email := ofJson_str text.1
  have items := CreateOrderBody.ofJson_itemsJson text.2
  simp only [CreateOrder.toJson, CreateOrderBody.toJson, Text.Json.object, Text.Fields.ofList,
    Value.object, Members.ofList, JavaScript.ofJson, JavaScript.ofFields, lit] at email ⊢
  rw [items]
  show Value.obj (.cons _ (.str (Utf16.units (String.ofList _).toList)) _) = _
  rw [email]

/-- **The hash of a body whose strings are texts** is that of the texts. -/
theorem bodyHash_text {body : CreateOrderBody} (text : body.IsText) :
    bodyHash ctx request body.toJson = canonicalRequestHash ctx request body.text.toJson := by
  have canonical : canonicalJson request body.toJson = JavaScript.ofJson (.object
      [("method", .str request.method), ("route", .str (requestRoute request)),
        ("body", body.text.toJson)]) := by
    simp only [canonicalJson, Text.Json.object, Text.Fields.ofList, Value.object, Members.ofList,
      JavaScript.ofJson, JavaScript.ofFields, CreateOrderBody.ofJson_toJson text, lit]
  rw [bodyHash, canonical, ← JavaScript.units_chars, Utf16.decode_units]
  rfl

end

end OrderRoutes

end OrderPlatform
