import Mathlib.Data.Nat.Notation
import Mathlib.Data.Int.Notation
import Mathlib.Logic.Function.Basic
import OrderPlatform.Text.Double

/-!
# Messages

A message as `amqplib` hands it to a consumer and takes it from a publisher: bytes, and properties
of which the header table is one.  A header value is a JavaScript value, and the numbers among them
are doubles.

* `JsNumber`, `HeaderValue`, `Headers` — header tables.
* `Properties`, `Message`.
* `DeadLettering` — what the broker itself does to the headers of a message whose time to live in a
  queue is over.
-/

namespace OrderPlatform

namespace Rabbit

/-- A JavaScript number. -/
abbrev JsNumber := Double.Number

namespace JsNumber

/-- `x + 1`. -/
def plusOne (x : JsNumber) : JsNumber := x.add (.finite 1)

/-- `x >= bound`. -/
def atLeast : JsNumber → ℤ → Bool
  | .nan, _ => false
  | .infinite negative, _ => !negative
  | .finite value, bound => decide ((bound : ℚ) ≤ value)

end JsNumber

/-- The value of a header.  What is neither a number nor a text nor `null` is known by how it is
written. -/
inductive HeaderValue
  | number (n : JsNumber)
  | text (s : String)
  | null
  | other (written : String)
deriving DecidableEq

/-- The headers of a message by name. -/
abbrev Headers := String → Option HeaderValue

/-- The properties that the services set or read. -/
structure Properties where
  contentType : Option String
  deliveryMode : Option ℕ
  messageId : Option String
  timestamp : Option ℤ
  type : Option String
  /-- A missing header table is an empty one. -/
  headers : Headers

/-- The content of a message, in bytes, with its properties. -/
structure Message where
  content : List UInt8
  properties : Properties

/-- A header of a message. -/
def Message.header (m : Message) (name : String) : Option HeaderValue := m.properties.headers name

/-- The headers that the broker keeps for itself, and what it does to a header table when it moves
a message out of a queue in which its time is over.  It writes no others, and the two headers of
the worker are not among them. -/
structure DeadLettering where
  own : List String
  stamp : Headers → Headers
  frame : ∀ headers, ∀ name ∉ own, stamp headers name = headers name
  retryCount : "x-retry-count" ∉ own
  lastError : "x-last-error" ∉ own

/-- The message with the headers that dead-lettering leaves it with. -/
def DeadLettering.apply (D : DeadLettering) (m : Message) : Message :=
  { m with properties := { m.properties with headers := D.stamp m.properties.headers } }

@[simp] theorem DeadLettering.apply_content (D : DeadLettering) (m : Message) :
    (D.apply m).content = m.content := rfl

theorem DeadLettering.apply_header (D : DeadLettering) (m : Message) {name : String}
    (other : name ∉ D.own) : (D.apply m).header name = m.header name :=
  D.frame m.properties.headers name other

end Rabbit

end OrderPlatform
