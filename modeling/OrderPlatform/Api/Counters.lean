import Mathlib.Data.Int.Notation
import Mathlib.Data.Nat.Notation
import Mathlib.Logic.Function.Basic

/-!
# Counters in Redis

The failed logins of a client, and its requests, are counted under keys of their own, with `INCR`,
and a key is given a time to live with `EXPIRE`.  Here the moment of expiry matters, so a counter carries it,
and every command is executed at a moment: a counter whose time is over is gone (`live`).

A command may be refused, or its caller may get an error while the command is still on its way, as
in `OrderPlatform.Api.Redis`.  Times are milliseconds.
-/

namespace OrderPlatform

namespace Counters

/-- An integer under a key, and the moment at which the key expires, if it ever does. -/
structure Counter where
  value : ℤ
  expiresAt : Option ℤ
deriving DecidableEq

/-- The counters by key. -/
abbrev Store := String → Option Counter

/-- What the key holds at this moment. -/
def live (now : ℤ) (s : Store) (key : String) : Option Counter :=
  (s key).filter fun c => c.expiresAt.all fun moment => decide (now < moment)

/-- The commands that count attempts; `EXPIRE` is sent separately from `INCR`. -/
inductive Command
  | get (key : String)
  | incr (key : String)
  | expire (key : String) (seconds : ℤ)
  | ttl (key : String)
deriving DecidableEq

/-- `expire` tells whether there was a key to expire; `ttl` is in seconds, -1 for a key that does not
expire and -2 for no key. -/
def Command.Reply : Command → Type
  | get _ => Option String
  | incr _ => ℤ
  | expire _ _ => Bool
  | ttl _ => ℤ

/-- What `TTL` says of a key. -/
def secondsLeft (now : ℤ) : Option Counter → ℤ
  | none => -2
  | some c => c.expiresAt.elim (-1) fun moment => (moment - now + 500) / 1000

/-- Execute a command at this moment. -/
def Command.apply (now : ℤ) : (c : Command) → Store → c.Reply × Store
  | get key, s => ((live now s key).map fun c => toString c.value, s)
  | incr key, s =>
      let c := (live now s key).getD ⟨0, none⟩
      (c.value + 1, Function.update s key (some { c with value := c.value + 1 }))
  | expire key seconds, s =>
      ((live now s key).isSome, Function.update s key
        ((live now s key).map fun c => { c with expiresAt := some (now + seconds * 1000) }))
  | ttl key, s => (secondsLeft now (live now s key), s)

/-- What may happen to a command on its way. -/
inductive Fault
  | none
  | refused
  | late
deriving DecidableEq

/-- Redis as the counters use it. -/
structure Server where
  store : Store
  /-- Commands whose caller has got an error and that may still be executed. -/
  inFlight : List Command

/-- A client call: the reply, or `none` for an error. -/
def Server.call (now : ℤ) (fault : Fault) (c : Command) (s : Server) : Option c.Reply × Server :=
  match fault with
  | .none => (some (c.apply now s.store).1, { s with store := (c.apply now s.store).2 })
  | .refused => (none, s)
  | .late => (none, { s with inFlight := c :: s.inFlight })

/-- Execute the command at a position of `Server.inFlight`. -/
def Server.land (now : ℤ) (position : ℕ) (s : Server) : Option Server :=
  s.inFlight[position]?.map fun c =>
    ⟨(c.apply now s.store).2, s.inFlight.eraseIdx position⟩

end Counters

end OrderPlatform
