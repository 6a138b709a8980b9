import Mathlib.Data.Nat.Notation
import Mathlib.Data.Int.Notation
import Mathlib.Logic.Function.Basic
import OrderPlatform.Api.Types
import OrderPlatform.Text.Component

/-!
# The Redis server and its client

`Redis.Command` holds the commands the API service issues and `Command.apply` what each does
to the key space; one command is atomic.  A client never sees more of the server than one
reply per command, and it may see less: a `Fault` is what can happen to a command on its
way.

* `Fault.none` — executed and answered.
* `Fault.refused` — never executed; the client gets an error.
* `Fault.late` — the client gets an error (a closed connection, a time limit), and the
  command is still on its way: it stays in `Server.inFlight`, from where it may be executed
  at any later moment, or never.

Between commands an entry may disappear.  `Event.expire` is the end of an entry's time to
live and needs an entry that has one; `Event.evict` is the server making room.

A program over `Op W V` awaits Redis commands and the operations `W` of whatever else it
works with.  `redis` is the client call: it throws where the command was not answered.
-/

namespace OrderPlatform

namespace Redis

/-- A stored value, with the time to live it was written with. -/
structure Entry where
  value : String
  ttl : Option ℕ
deriving DecidableEq

/-- The commands of the cache and of the idempotency records. -/
inductive Command
  | get (key : String)
  /-- `SET key value EX seconds`. -/
  | set (key value : String) (seconds : ℕ)
  /-- `SET key value EX seconds NX`. -/
  | setNx (key value : String) (seconds : ℕ)
  | del (key : String)
  | incr (key : String)
deriving DecidableEq

/-- The reply to a command that was executed.  `setNx` tells whether the key was free. -/
def Command.Reply : Command → Type
  | get _ => Option String
  | set .. => Unit
  | setNx .. => Bool
  | del _ => ℕ
  | incr _ => ℤ

/-- The key space. -/
abbrev Store := String → Option Entry

/-- The value of a key that `INCR` accepts: the decimal text of an integer. -/
def integerOf (text : String) : Option ℤ :=
  (Text.parseInt text).filter fun n => toString n = text

@[simp] theorem integerOf_toString (n : ℕ) : integerOf (toString (n : ℤ)) = some (n : ℤ) := by
  have parsed : Text.parseInt (toString (n : ℤ)) = some (n : ℤ) := Text.parseInt_repr n
  rw [integerOf, parsed]
  simp [Option.filter]

/-- Execute a command; `none` where Redis answers with an error. -/
def Command.apply : (c : Command) → Store → Option (c.Reply × Store)
  | get key, s => some ((s key).map Entry.value, s)
  | set key value seconds, s => some ((), Function.update s key (some ⟨value, some seconds⟩))
  | setNx key value seconds, s =>
      match s key with
      | none => some (true, Function.update s key (some ⟨value, some seconds⟩))
      | some _ => some (false, s)
  | del key, s => some ((if (s key).isSome then 1 else 0 : ℕ), Function.update s key none)
  | incr key, s =>
      match s key with
      | none => some ((1 : ℤ), Function.update s key (some ⟨toString (1 : ℤ), none⟩))
      | some entry =>
          (integerOf entry.value).map fun n =>
            (n + 1, Function.update s key (some ⟨toString (n + 1), entry.ttl⟩))

/-- The key a command is about. -/
def Command.key : Command → String
  | get key => key
  | set key _ _ => key
  | setNx key _ _ => key
  | del key => key
  | incr key => key

/-- What may happen to a command on its way. -/
inductive Fault
  | none
  | refused
  | late
deriving DecidableEq

/-- Redis as the order routes use it. -/
structure Server where
  store : Store
  /-- Commands whose caller has got an error and that may still be executed. -/
  inFlight : List Command

/-- The server after a start. -/
def Server.empty : Server := ⟨fun _ => none, []⟩

/-- A client call: the reply, or `none` for an error. -/
def Server.call (fault : Fault) (c : Command) (s : Server) : Option c.Reply × Server :=
  match fault with
  | .none =>
      match c.apply s.store with
      | some (reply, store) => (some reply, { s with store })
      | none => (none, s)
  | .refused => (none, s)
  | .late => (none, { s with inFlight := c :: s.inFlight })

/-- What the server does on its own. -/
inductive Event
  | expire (key : String)
  | evict (key : String)
  /-- Execute the command at a position of `Server.inFlight`. -/
  | land (position : ℕ)
deriving DecidableEq

/-- An event in a state: a key with a time to live expires, any key may be evicted, and a command
whose caller has given up is executed late. -/
def Server.event : Event → Server → Option Server
  | .expire key, s =>
      match s.store key with
      | some ⟨_, some _⟩ => some { s with store := Function.update s.store key none }
      | _ => none
  | .evict key, s =>
      if (s.store key).isSome then some { s with store := Function.update s.store key none }
      else none
  | .land position, s =>
      s.inFlight[position]?.map fun c =>
        ⟨((c.apply s.store).map Prod.snd).getD s.store, s.inFlight.eraseIdx position⟩

/-- `SET … NX` on a free key. -/
theorem Command.apply_setNx {key : String} {s : Store} (absent : s key = none) (value : String)
    (seconds : ℕ) :
    (setNx key value seconds).apply s =
      some (true, Function.update s key (some ⟨value, some seconds⟩)) := by
  simp only [apply, absent]
  rfl

/-- `SET … NX` on a key that is taken. -/
theorem Command.apply_setNx_of_taken {key : String} {s : Store} {entry : Entry}
    (taken : s key = some entry) (value : String) (seconds : ℕ) :
    (setNx key value seconds).apply s = some (false, s) := by
  simp only [apply, taken]
  rfl

/-! ### What a command leaves alone -/

/-- A command touches no key but its own. -/
theorem Command.apply_other {c : Command} {s s' : Store} {r : c.Reply} {key : String}
    (h : c.apply s = some (r, s')) (other : key ≠ c.key) : s' key = s key := by
  cases c with
  | get k => cases h; rfl
  | set k v n =>
      cases h
      exact Function.update_of_ne other _ _
  | setNx k v n =>
      simp only [apply] at h
      split at h
      · cases h
        exact Function.update_of_ne other _ _
      · cases h
        rfl
  | del k =>
      cases h
      exact Function.update_of_ne other _ _
  | incr k =>
      simp only [apply] at h
      split at h
      · cases h
        exact Function.update_of_ne other _ _
      · obtain ⟨n, _, hn⟩ := Option.map_eq_some_iff.mp h
        cases hn
        exact Function.update_of_ne other _ _

/-- What a command can leave at its own key: what was there, nothing, the value it was
given, or a counter. -/
theorem Command.apply_key {c : Command} {s s' : Store} {r : c.Reply}
    (h : c.apply s = some (r, s')) {entry : Entry} (after : s' c.key = some entry) :
    s c.key = some entry ∨ (∃ v n, (c = .set c.key v n ∨ c = .setNx c.key v n) ∧ entry = ⟨v, some n⟩) ∨
      c = .incr c.key := by
  cases c with
  | get k => cases h; exact .inl after
  | set k v n =>
      cases h
      simp only [key, Function.update_self, Option.some.injEq] at after
      exact .inr (.inl ⟨v, n, .inl rfl, after.symm⟩)
  | setNx k v n =>
      simp only [apply] at h
      split at h
      · cases h
        simp only [key, Function.update_self, Option.some.injEq] at after
        exact .inr (.inl ⟨v, n, .inr rfl, after.symm⟩)
      · cases h
        exact .inl after
  | del k =>
      cases h
      simp [key] at after
  | incr k => exact .inr (.inr rfl)

end Redis

/-- The operations of a program that uses Redis next to operations `W`. -/
inductive Op (W : Type)
  | redis (command : Redis.Command)
  | work (operation : W)

/-- A Redis command is answered by its reply, or by `none` for an error. -/
def Op.Reply {W : Type} (V : W → Type) : Op W → Type
  | redis command => Option command.Reply
  | work operation => V operation

/-- A program of the API service over Redis and the operations `W`. -/
abbrev Api (W : Type) (V : W → Type) (α : Type) := Async.Program (Op W) (Op.Reply V) ApiError α

section Client

variable {W : Type} {V : W → Type}

/-- `await ctx.redis.…`: issue a command and throw where it is not answered. -/
def redis (command : Redis.Command) : Api W V command.Reply :=
  .await (.redis command) fun
    | some reply => .done reply
    | none => .thrown .redis

/-- `await ctx.redis.….catch(() => undefined)`. -/
def redisIgnoring (command : Redis.Command) : Api W V Unit :=
  ((redis command).bind fun _ => .done ()).attempt fun _ => .done ()

end Client

end OrderPlatform
