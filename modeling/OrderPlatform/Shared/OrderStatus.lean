import Mathlib.Data.Nat.Notation

/-!
# Order statuses

The statuses of an order and the transitions between them, shared by every service.
`orderStatusTransitions` has no cycle: `OrderStatus.remaining` counts the changes that may
still follow a status, and every transition uses one up.
-/

namespace OrderPlatform

/-- `orderStatuses`. -/
inductive OrderStatus
  | pending
  | confirmed
  | shipped
  | delivered
  | cancelled
deriving DecidableEq, Repr

namespace OrderStatus

/-- The status as it is written to the database and to JSON. -/
def text : OrderStatus → String
  | pending => "pending"
  | confirmed => "confirmed"
  | shipped => "shipped"
  | delivered => "delivered"
  | cancelled => "cancelled"

/-- The number of status changes that may still follow. -/
def remaining : OrderStatus → ℕ
  | pending => 3
  | confirmed => 2
  | shipped => 1
  | delivered => 0
  | cancelled => 0

theorem eq_of_text {a b : OrderStatus} (h : a.text = b.text) : a = b := by
  revert h
  cases a <;> cases b <;> decide

end OrderStatus

/-- Allowed order status transitions.  The terminal statuses `delivered` and `cancelled`
have none. -/
def orderStatusTransitions : OrderStatus → List OrderStatus
  | .pending => [.confirmed, .cancelled]
  | .confirmed => [.shipped, .cancelled]
  | .shipped => [.delivered]
  | .delivered => []
  | .cancelled => []

/-- Whether `current` may become `target`, or already is `target`. -/
def isAllowedOrderStatusTransition (current target : OrderStatus) : Bool :=
  if current = target then true else (orderStatusTransitions current).contains target

/-- A transition uses up one of the remaining changes. -/
theorem remaining_lt_of_transition {a b : OrderStatus} (h : b ∈ orderStatusTransitions a) :
    b.remaining < a.remaining := by
  revert h
  cases a <;> cases b <;> decide

theorem transition_of_allowed {a b : OrderStatus}
    (h : isAllowedOrderStatusTransition a b = true) (changed : a ≠ b) :
    b ∈ orderStatusTransitions a := by
  simpa [isAllowedOrderStatusTransition, changed] using h

end OrderPlatform
