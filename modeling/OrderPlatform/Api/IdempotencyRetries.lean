import OrderPlatform.Async.Path
import OrderPlatform.Api.IdempotencyRelease

/-!
# How often a call claims its key

A call that does not get its key reads the record under it, and where there is none to answer from
it begins again.  The source means to do so once, but nothing counts: other clients that claim the key
and let it go between each `SET … NX` and the `GET` behind it keep the call at it
(`claims_again`).

`claims_iff` says when a call claims its key at most twice and then returns or throws: exactly when
the second `GET`, if it is answered, finds a text that `JSON.parse` accepts, be it a record or not.
What happens between the operations of the call is arbitrary, and so is what Redis holds.

The proof follows the rounds of a call: each round makes one claim, and it is followed by another
one only behind a `GET` that has found nothing to answer from (`round_cases`).  That a call with no
operation left is at its end is a fact about the tree of the call (`Program.Terminates`).
-/

namespace OrderPlatform

namespace IdempotentCalls

open Async (Tid Path Performed Program)
open Text (Json)

variable {ctx : ApiContext} {options : IdempotencyOptions} {requestHash : String} {t : Tid}
variable {s s' : State} {J : State → State → Prop} {log : List (Performed machine)}

/-! ### Claims -/

/-- `SET … NX`. -/
def isClaim : Op Work → Bool
  | .redis (.setNx ..) => true
  | _ => false

/-- How often a call has claimed its key. -/
def claims (log : List (Performed machine)) : ℕ := log.countP fun p => isClaim p.op

/-- A text that a call can answer from: one that is not empty, and that `JSON.parse` accepts. -/
def Answerable (text : String) : Prop :=
  text.isEmpty = false ∧ (JavaScript.parse (Utf16.units text.toList)).isSome = true

/-- A `GET` that is answered finds a text that can be answered from. -/
def Finds (p : Performed machine) : Prop :=
  ∀ key, p.op = .redis (.get key) → p.choice = .redis .none →
    ∃ entry, p.state.server.store key = some entry ∧ Answerable entry.value

/-- The `GET` behind the second claim finds such a text. -/
def Steady (log : List (Performed machine)) : Prop :=
  ∀ before p after, log = before ++ p :: after → claims before = 2 → Finds p

theorem claims_append (before after : List (Performed machine)) :
    claims (before ++ after) = claims before + claims after := List.countP_append

/-- Neither a claim nor a `GET`. -/
def Aside (o : Op Work) : Prop := isClaim o = false ∧ ∀ key, o ≠ .redis (.get key)

theorem claims_eq_zero (aside : ∀ p ∈ log, Aside p.op) : claims log = 0 :=
  List.countP_eq_zero.mpr fun p mem => ne_true_of_eq_false (aside p mem).1

theorem finds_of_aside (aside : ∀ p ∈ log, Aside p.op) : ∀ p ∈ log, Finds p :=
  fun p mem key same => absurd same ((aside p mem).2 key)

/-! ### The parts of a call -/

theorem redis_aside {c : Redis.Command} (aside : Aside (.redis c)) :
    (redis c : Api Work Work.Reply c.Reply).Only Aside := by
  refine ⟨aside, fun r => ?_⟩
  cases r <;> trivial

theorem redisIgnoring_aside {c : Redis.Command} (aside : Aside (.redis c)) :
    (redisIgnoring c : Api Work Work.Reply Unit).Only Aside := by
  unfold redisIgnoring
  refine Program.Only.attempt ?_ fun _ => trivial
  exact (redis_aside aside).bind fun _ => trivial

theorem process_aside (requestHash : String) : (process requestHash).Only Aside := by
  refine ⟨⟨rfl, nofun⟩, fun _ => ⟨⟨rfl, nofun⟩, fun r => ?_⟩⟩
  cases r <;> trivial

theorem del_aside (redisKey : String) :
    (redisIgnoring (.del redisKey) : Api Work Work.Reply Unit).Only Aside :=
  redisIgnoring_aside ⟨rfl, fun key other => by cases other⟩

theorem storeResult_aside (redisKey requestHash : String) (result : IdempotencyResult) :
    (storeResult redisKey requestHash result : Api Work Work.Reply Unit).Only Aside := by
  have either : ∀ (large : Prop) [Decidable large] {p q : Api Work Work.Reply Unit},
      p.Only Aside → q.Only Aside → (if large then p else q).Only Aside := by
    intro large _ p q first second
    split
    · exact first
    · exact second
  exact either _ (del_aside redisKey) (redis_aside ⟨rfl, fun key other => by cases other⟩)

theorem execute_aside (redisKey recordHash requestHash : String) :
    (execute redisKey recordHash (process requestHash)).Only Aside := by
  refine Program.Only.attempt ?_ fun e => (del_aside redisKey).bind fun _ => trivial
  refine (process_aside requestHash).bind fun result => ?_
  exact (storeResult_aside redisKey recordHash result).bind fun _ => trivial

/-! ### One round of a call -/

/-- A command, and what is done behind it. -/
theorem path_redis {α : Type} {c : Redis.Command} {f : c.Reply → machine.Task α}
    {task : machine.Task α} (path : Path J t ((redis c).bind f) s log task s') :
    (log = [] ∧ task = (redis c).bind f) ∨
      ∃ choice s₁ s₂ rest, log = ⟨choice, .redis c, s₁⟩ :: rest ∧
        ((rest = [] ∧ task = .thrown .redis) ∨
          ∃ v, exec t choice (.redis c) s₁ = some (some v, s₂) ∧
            Path J t (f v) s₂ rest task s') := by
  obtain ⟨rfl, rfl, _⟩ | ⟨choice, r, s₁, s₂, rest, rfl, _, done, later⟩ := path.await_inv
  · exact .inl ⟨rfl, rfl⟩
  · refine .inr ⟨choice, s₁, s₂, rest, rfl, ?_⟩
    cases r with
    | none =>
        obtain ⟨rfl, rfl, _⟩ := later.thrown_inv
        exact .inl ⟨rfl, rfl⟩
    | some v => exact .inr ⟨v, done, later⟩

section Reading

variable {choice : Choice} {key : String}

theorem get_answered {reply : Option String}
    (done : exec t choice (.redis (.get key)) s = some (some reply, s')) :
    choice = .redis .none ∧ reply = (s.server.store key).map Redis.Entry.value := by
  cases choice with
  | redis fault =>
      cases fault with
      | none => cases done; exact ⟨rfl, rfl⟩
      | refused => cases done
      | late => cases done
  | begins => cases done
  | resolves status body => cases done
  | throws error => cases done

theorem get_refused (done : exec t choice (.redis (.get key)) s = some (none, s')) :
    choice ≠ .redis .none := by
  rintro rfl
  cases done

/-- A `GET` that is answered finds what is read, or nothing. -/
theorem finds_iff {reply : Option String}
    (done : exec t choice (.redis (.get key)) s = some (some reply, s')) :
    Finds ⟨choice, .redis (.get key), s⟩ ↔ ∃ text, reply = some text ∧ Answerable text := by
  obtain ⟨rfl, rfl⟩ := get_answered done
  constructor
  · intro finds
    obtain ⟨entry, stored, readable⟩ := finds key rfl rfl
    exact ⟨entry.value, by rw [stored]; rfl, readable⟩
  · rintro ⟨text, read, readable⟩ key' same _
    cases same
    obtain ⟨entry, stored, rfl⟩ := Option.map_eq_some_iff.mp read
    exact ⟨entry, stored, readable⟩

/-- What a call does that has not got its key: it answers, or throws, or begins again because the
`GET` was answered without a text to answer from. -/
theorem read_cases {redisKey : String} {again task : machine.Task IdempotencyResult}
    (path : Path J t ((readExistingRecord redisKey requestHash).bind fun
      | some replay => .done replay
      | none => again) s log task s') :
    (claims log = 0 ∧ task ≠ .pending ∧ (task.Settled → task.Ended ∧ ∀ p ∈ log, Finds p)) ∨
      ∃ p front rest s₁, log = p :: front ++ rest ∧ claims (p :: front) = 0 ∧ ¬ Finds p ∧
        Path J t again s₁ rest task s' := by
  obtain ⟨rfl, rfl, _⟩ | ⟨choice, r, s₁, s₂, rest, rfl, _, done, later⟩ := path.await_inv
  · exact .inl ⟨rfl, nofun, fun settled => absurd rfl (settled.1 _ _)⟩
  · cases r with
    | none =>
        obtain ⟨rfl, rfl, _⟩ := later.thrown_inv
        refine .inl ⟨rfl, nofun, fun _ => ⟨.inr ⟨_, rfl⟩, ?_⟩⟩
        exact List.forall_mem_singleton.mpr fun key _ none => absurd none (get_refused done)
    | some reply =>
        have finds := finds_iff done
        cases reply with
        | none =>
            refine .inr ⟨_, [], rest, s₂, rfl, rfl, fun found => ?_, later⟩
            obtain ⟨_, none, _⟩ := finds.mp found
            cases none
        | some existing =>
            change Path (M := machine) J t
              (Program.bind (if existing.isEmpty then _ else _) _) _ _ _ _ at later
            -- an empty text counts as no record
            by_cases empty : existing.isEmpty = true
            · rw [if_pos empty] at later
              refine .inr ⟨_, [], rest, s₂, rfl, rfl, fun found => ?_, later⟩
              obtain ⟨_, same, readable⟩ := finds.mp found
              cases same
              rw [readable.1] at empty
              cases empty
            · rw [if_neg empty] at later
              cases parsed : JavaScript.read (Utf16.units existing.toList) with
              | none =>
                  rw [parsed] at later
                  -- a text that cannot be read is cleared, and the call begins again
                  have unreadable : ¬ Finds ⟨choice, .redis (.get redisKey), s₁⟩ := fun found => by
                    obtain ⟨_, same, readable⟩ := finds.mp found
                    cases same
                    have parses := readable.2
                    rw [JavaScript.isSome_parse, parsed] at parses
                    cases parses
                  obtain ⟨rfl, rfl, _⟩ | ⟨choice', r, s₃, s₄, rest, rfl, _, _, again⟩ :=
                    later.await_inv
                  · exact .inl ⟨rfl, nofun, fun settled => absurd rfl (settled.1 _ _)⟩
                  · refine .inr ⟨_, [_], rest, s₄, rfl, rfl, unreadable, ?_⟩
                    cases r with
                    | none => exact again
                    | some v => exact again
              | some json =>
                  rw [parsed] at later
                  have readable : Finds ⟨choice, .redis (.get redisKey), s₁⟩ := by
                    refine finds.mpr ⟨existing, rfl, eq_false_of_ne_true empty, ?_⟩
                    rw [JavaScript.isSome_parse, parsed]
                    rfl
                  cases replay : replayOf requestHash json with
                  | none =>
                      dsimp only at later
                      rw [replay] at later
                      obtain ⟨rfl, rfl, _⟩ := later.thrown_inv
                      refine .inl ⟨rfl, nofun, fun _ => ⟨.inr ⟨_, rfl⟩, ?_⟩⟩
                      exact List.forall_mem_singleton.mpr readable
                  | some answer =>
                      dsimp only at later
                      rw [replay] at later
                      obtain ⟨rfl, rfl, _⟩ := later.done_inv
                      refine .inl ⟨rfl, nofun, fun _ => ⟨.inl ⟨_, rfl⟩, ?_⟩⟩
                      exact List.forall_mem_singleton.mpr readable

end Reading

/-! ### Whole calls -/

/-- The call carries a well-formed key. -/
def Keyed (options : IdempotencyOptions) : Prop :=
  ∃ key, readIdempotencyKey options.request = some key ∧ matchesIdempotencyKeyRegex key = true

theorem redis_terminates (c : Redis.Command) :
    (redis c : Api Work Work.Reply c.Reply).Terminates := by
  intro r
  cases r <;> trivial

theorem del_terminates (redisKey : String) :
    (redisIgnoring (.del redisKey) : Api Work Work.Reply Unit).Terminates := by
  unfold redisIgnoring
  refine Program.Terminates.attempt ?_ fun _ => trivial
  exact (redis_terminates _).bind fun _ => trivial

theorem process_terminates (requestHash : String) : (process requestHash).Terminates := by
  intro _ r
  cases r <;> trivial

theorem storeResult_terminates (redisKey requestHash : String) (result : IdempotencyResult) :
    (storeResult redisKey requestHash result : Api Work Work.Reply Unit).Terminates := by
  have either : ∀ (large : Prop) [Decidable large] {p q : Api Work Work.Reply Unit},
      p.Terminates → q.Terminates → (if large then p else q).Terminates := by
    intro large _ p q first second
    split
    · exact first
    · exact second
  exact either _ (del_terminates redisKey) (redis_terminates (.set _ _ _))

theorem execute_terminates (redisKey recordHash requestHash : String) :
    (execute redisKey recordHash (process requestHash)).Terminates := by
  refine Program.Terminates.attempt ?_ fun e => (del_terminates redisKey).bind fun _ => trivial
  refine (process_terminates requestHash).bind fun result => ?_
  exact (storeResult_terminates redisKey recordHash result).bind fun _ => trivial

/-- A task that claims nothing, reads nothing and comes to an end. -/
theorem last_of_aside {task task' : machine.Task IdempotencyResult} (aside : task.Only Aside)
    (ends : task.Terminates) (path : Path J t task s log task' s') :
    claims log = 0 ∧ task' ≠ .pending ∧ (task'.Settled → task'.Ended ∧ ∀ p ∈ log, Finds p) := by
  have log_aside := path.only aside
  have left := path.terminates ends
  exact ⟨claims_eq_zero log_aside, left.ne_pending, fun settled =>
    ⟨left.ended settled, finds_of_aside log_aside⟩⟩

theorem claims_cons (p : Performed machine) (rest : List (Performed machine)) :
    claims (p :: rest) = claims [p] + claims rest := claims_append [p] rest

/-- **One round.**  Either it is the last one, or it ends with a `GET` that was answered without a
text to answer from. -/
theorem round_cases {attempts : ℕ} {task : machine.Task IdempotencyResult}
    (path : Path J t (withIdempotency ctx options (process requestHash) (attempts + 1))
      s log task s') :
    (claims log ≤ 1 ∧ task ≠ .pending ∧ (task.Settled → task.Ended ∧ ∀ p ∈ log, Finds p)) ∨
      Keyed options ∧ ∃ claim p front rest s₁, log = claim :: p :: front ++ rest ∧
        claims [claim] = 1 ∧ claims (p :: front) = 0 ∧ ¬ Finds p ∧
        Path J t (withIdempotency ctx options (process requestHash) attempts) s₁ rest task s' := by
  unfold withIdempotency at path
  split at path
  · obtain ⟨none, known⟩ := last_of_aside (process_aside _) (process_terminates _) path
    exact .inl ⟨by omega, known⟩
  · rename_i key sent
    by_cases valid : matchesIdempotencyKeyRegex key = true
    · rw [if_pos valid] at path
      obtain ⟨rfl, rfl⟩ | ⟨choice, s₁, s₂, rest, rfl, ⟨rfl, rfl⟩ | ⟨acquired, _, later⟩⟩ :=
        path_redis path
      · exact .inl ⟨Nat.zero_le 1, nofun, fun settled => absurd rfl (settled.1 _ _)⟩
      · refine .inl ⟨Nat.le_refl 1, nofun, fun _ => ⟨.inr ⟨_, rfl⟩, ?_⟩⟩
        exact List.forall_mem_singleton.mpr nofun
      · cases acquired with
        | true =>
            rw [if_pos rfl] at later
            obtain ⟨none, pends, settles⟩ :=
              last_of_aside (execute_aside _ _ _) (execute_terminates _ _ _) later
            refine .inl ⟨?_, pends, fun settled => ⟨(settles settled).1, ?_⟩⟩
            · rw [claims_cons, none]
              exact Nat.le_refl 1
            · exact List.forall_mem_cons.mpr ⟨nofun, (settles settled).2⟩
        | false =>
            rw [if_neg Bool.false_ne_true] at later
            obtain ⟨none, pends, settles⟩ | ⟨p, front, rest, s₃, rfl, none, lost, again⟩ :=
              read_cases later
            · refine .inl ⟨?_, pends, fun settled => ⟨(settles settled).1, ?_⟩⟩
              · rw [claims_cons, none]
                exact Nat.le_refl 1
              · exact List.forall_mem_cons.mpr ⟨nofun, (settles settled).2⟩
            · exact .inr ⟨⟨key, sent, valid⟩, _, p, front, rest, s₃, rfl, rfl, none, lost, again⟩
    · rw [if_neg valid] at path
      obtain ⟨rfl, rfl, _⟩ := path.done_inv
      exact .inl ⟨Nat.zero_le 1, nofun, fun _ => ⟨.inl ⟨_, rfl⟩, List.forall_mem_nil _⟩⟩

/-- A call with a key begins with a claim. -/
theorem keyed_claims (keyed : Keyed options) {attempts : ℕ} {task : machine.Task IdempotencyResult}
    (path : Path J t (withIdempotency ctx options (process requestHash) (attempts + 1))
      s log task s') (settled : task.Settled) : 1 ≤ claims log := by
  obtain ⟨key, sent, valid⟩ := keyed
  unfold withIdempotency at path
  rw [sent] at path
  dsimp only at path
  rw [if_pos valid] at path
  obtain ⟨rfl, rfl⟩ | ⟨choice, s₁, s₂, rest, rfl, _⟩ := path_redis path
  · exact absurd rfl (settled.1 _ _)
  · rw [claims_cons]
    exact Nat.le_add_right 1 _

/-- One claim, and then only operations that find what they look for. -/
theorem steady_append {front rest : List (Performed machine)} (few : claims front ≤ 1)
    (finds : ∀ p ∈ rest, Finds p) : Steady (front ++ rest) := by
  intro before p after same two
  rcases List.append_eq_append_iff.mp same with ⟨m, rfl, split⟩ | ⟨m, rfl, split⟩
  · refine finds p ?_
    rw [split]
    exact List.mem_append_right _ List.mem_cons_self
  · rw [claims_append] at few
    omega

/-- **When a call claims its key at most twice.**  Whatever happens between its operations, a call
claims its key at most twice and then returns or throws exactly when the `GET` behind its second
claim, if it is answered, finds a text that can be parsed.

Nothing is assumed of the other clients, of Redis or of the texts that are stored: `J` is any
interference.  The bound `attempts` is that of the model, the code has none, and the statement is
the same for each from two on.  The proof takes the call apart round by round (`round_cases`): a
round is the last one, or it ends with a `GET` that has found nothing to answer from, and the next
one begins. -/
theorem claims_iff {attempts : ℕ} (enough : 2 ≤ attempts) {task : machine.Task IdempotencyResult}
    (path : Path J t (withIdempotency ctx options (process requestHash) attempts) s log task s') :
    (Steady log → claims log ≤ 2 ∧ task ≠ .pending) ∧
      (task.Settled → (claims log ≤ 2 ∧ task.Ended ↔ Steady log)) := by
  obtain ⟨n, rfl⟩ := Nat.exists_eq_add_of_le' enough
  obtain ⟨few, pends, settles⟩ | ⟨keyed, claim, p, front, rest, s₁, rfl, one, none, lost, again⟩ :=
    round_cases path
  · refine ⟨fun _ => ⟨by omega, pends⟩, fun settled => ⟨fun _ => ?_, fun _ => ?_⟩⟩
    · have steady := steady_append few (List.forall_mem_nil _)
      rwa [List.append_nil] at steady
    · exact ⟨by omega, (settles settled).1⟩
  · have first : claims (claim :: p :: front) = 1 := by rw [claims_cons, one, none]
    obtain ⟨few, pends, settles⟩ |
      ⟨_, claim', p', front', rest', s₂, rfl, one', none', lost', again'⟩ := round_cases again
    · have two : claims (claim :: p :: front ++ rest) ≤ 2 := by
        rw [claims_append, first]
        omega
      refine ⟨fun _ => ⟨two, pends⟩, fun settled => ⟨fun _ => ?_, fun _ => ⟨two, ?_⟩⟩⟩
      · exact steady_append (by omega) (settles settled).2
      · exact (settles settled).1
    · have unsteady : ¬ Steady (claim :: p :: front ++ (claim' :: p' :: front' ++ rest')) := by
        intro steady
        refine lost' (steady ((claim :: p :: front) ++ [claim']) p' (front' ++ rest') ?_ ?_)
        · rw [List.append_assoc]
          rfl
        · rw [claims_append, first, one']
      refine ⟨fun steady => absurd steady unsteady, fun settled => ⟨?_, fun steady =>
        absurd steady unsteady⟩⟩
      rintro ⟨few, ended⟩
      exfalso
      cases n with
      | zero =>
          obtain ⟨_, rfl, _⟩ := again'.pending_inv
          rcases ended with ⟨_, lost⟩ | ⟨_, lost⟩
          · cases lost
          · cases lost
      | succ n =>
          have third := keyed_claims keyed again' settled
          rw [claims_append, claims_append, first, claims_cons, one', none'] at few
          omega

/-- A fraction, an exponent and an escaped pair of surrogates are read, a numeral that begins with a
zero is not. -/
example : Answerable "1.5" ∧ Answerable "-2e3" ∧ Answerable "\"\\ud83d\\ude00\"" ∧
    ¬Answerable "01" := by
  unfold Answerable
  decide +kernel

/-! ### A call that others keep at it -/

/-- What others do: the operations of other calls, and what the server does on its own. -/
inductive Elsewhere (t : Tid) : State → State → Prop
  | nothing (s : State) : Elsewhere t s s
  | operation {s s₁ s₂ : State} {u : Tid} {choice : Choice} {o : Op Work} {r : o.Reply Work.Reply}
      (before : Elsewhere t s s₁) (other : u ≠ t) (done : exec u choice o s₁ = some (r, s₂)) :
      Elsewhere t s s₂
  | event {s s₁ s₂ : State} {e : Redis.Event} (before : Elsewhere t s s₁)
      (happens : machine.event e s₁ = some s₂) : Elsewhere t s s₂

section Others

variable {k : IdempotencyKey}

/-- Another call claims a free key. -/
theorem claimed_elsewhere (absent : s.server.store k.redisKey = none) {u : Tid} (other : u ≠ t)
    (value : String) :
    ∃ s₁ entry, Elsewhere t s s₁ ∧ s₁.server.store k.redisKey = some entry := by
  have claim := exec_answered (t := u)
    (Redis.Command.apply_setNx absent value processingTtlSeconds)
  exact ⟨_, _, .operation (.nothing s) other claim, Function.update_self _ _ _⟩

/-- Another call lets the key go. -/
theorem released_elsewhere (s : State) {u : Tid} (other : u ≠ t) :
    ∃ s₁, Elsewhere t s s₁ ∧ s₁.server.store k.redisKey = none := by
  have release := exec_answered (t := u) (c := .del k.redisKey) (s := s) rfl
  exact ⟨_, .operation (.nothing s) other release, Function.update_self _ _ _⟩

/-- **A lost round.**  Another call has the key when this one claims it, and has let it go when
this one reads. -/
theorem lost_round (ctx : ApiContext) (call : Call k) {u : Tid} (other : u ≠ t)
    (absent : s.server.store k.redisKey = none) :
    ∃ (claim p : Performed machine) (s₂ : State), s₂.server.store k.redisKey = none ∧
      claims [claim, p] = 1 ∧ ∀ {attempts : ℕ} {rest : List (Performed machine)}
        {task : machine.Task IdempotencyResult} {s' : State},
        Path (Elsewhere t) t (withIdempotency ctx call.options
          (process (call.requestHash ctx)) attempts) s₂ rest task s' →
        Path (Elsewhere t) t (withIdempotency ctx call.options
          (process (call.requestHash ctx)) (attempts + 1)) s (claim :: p :: rest) task s' := by
  obtain ⟨s₁, entry, claimed, stored⟩ := claimed_elsewhere absent other ""
  have taken : (Redis.Command.setNx k.redisKey
      (StoredRecord.claim (call.requestHash ctx)).serialized processingTtlSeconds).apply
        s₁.server.store = some (false, s₁.server.store) := by
    simp only [Redis.Command.apply, stored]
    rfl
  obtain ⟨s₂, released, gone⟩ := released_elsewhere (k := k) s₁ other
  have found : (Redis.Command.get k.redisKey).apply s₂.server.store =
      some ((none : Option String), s₂.server.store) := by
    simp only [Redis.Command.apply, gone]
    rfl
  refine ⟨⟨.redis .none, .redis (.setNx k.redisKey
    (StoredRecord.claim (call.requestHash ctx)).serialized processingTtlSeconds), s₁⟩,
    ⟨.redis .none, .redis (.get k.redisKey), s₂⟩, s₂.reads t none, gone, rfl, ?_⟩
  intro attempts rest task s' path
  rw [withIdempotency_succ]
  exact .await claimed (exec_answered taken) (.await released (exec_answered found) path)

/-- However often a call may begin again: each time the others can have the key when it is claimed,
and have let it go when it is read. -/
theorem claims_again (ctx : ApiContext) (call : Call k) (attempts : ℕ)
    (absent : s.server.store k.redisKey = none) :
    ∃ log task s', Path (Elsewhere t) t (withIdempotency ctx call.options
        (process (call.requestHash ctx)) attempts) s log task s' ∧ claims log = attempts := by
  induction attempts generalizing s with
  | zero => exact ⟨[], _, s, .here (.nothing s), rfl⟩
  | succ attempts ih =>
      obtain ⟨claim, p, s₂, gone, one, extend⟩ := lost_round ctx call (Nat.succ_ne_self t) absent
      obtain ⟨log, task, s', path, many⟩ := ih gone
      refine ⟨claim :: p :: log, task, s', extend path, ?_⟩
      rw [show claim :: p :: log = [claim, p] ++ log from rfl, claims_append, one, many]
      exact Nat.add_comm 1 attempts

/-- A command that is answered, and what follows it. -/
theorem path_answered {α : Type} {c : Redis.Command} {reply : c.Reply} {store : Redis.Store}
    {f : (Op.redis c : Op Work).Reply Work.Reply → machine.Task α} {s₁ : State}
    {task : machine.Task α} (step : J s s₁)
    (apply : c.apply s₁.server.store = some (reply, store))
    (path : Path J t (f (some reply))
      (State.note t c (some reply) { s₁ with server := { s₁.server with store } }) log task s') :
    Path (M := machine) J t (.await (Op.redis c) f) s
      (⟨Choice.redis .none, Op.redis c, s₁⟩ :: log) task s' :=
  .await step (exec_answered apply) path

/-- The work is done: the response is stored, or the key is cleared where it is too large. -/
theorem path_afterWork (redisKey requestHash : String) (result : IdempotencyResult) (s : State) :
    ∃ (log : List (Performed machine)) (s' : State),
      Path (Elsewhere t) t (afterWork redisKey requestHash result) s log (.done result) s' ∧
        claims log = 0 := by
  by_cases large : TooLarge requestHash result
  · rw [afterWork_of_tooLarge large]
    exact ⟨_, _, path_answered (.nothing s) rfl (.here (.nothing _)), rfl⟩
  · rw [afterWork_of_fits large]
    exact ⟨_, _, path_answered (.nothing s) rfl (.here (.nothing _)), rfl⟩

/-- Work that resolves, and what follows it. -/
theorem path_worked {α : Type} {requestHash : String}
    {f : Except ApiError IdempotencyResult → machine.Task α} {status : ℤ} {body : Option Json}
    {task : machine.Task α}
    (path : Path (Elsewhere t) t (f (.ok ⟨.num status, body⟩))
      ((s.starts t).resolves ⟨t, requestHash, status, body⟩) log task s') :
    Path (M := machine) (Elsewhere t) t
      (.await (Op.work (.start requestHash)) fun _ => .await (Op.work (.finish requestHash)) f) s
      (⟨Choice.begins, Op.work (.start requestHash), s⟩ ::
        ⟨Choice.resolves status body, Op.work (.finish requestHash), s.starts t⟩ :: log) task s' :=
  .await (.nothing s) rfl (.await (.nothing _) rfl path)

/-- The work of a call resolves. -/
theorem path_execute (redisKey requestHash : String) (s : State) :
    ∃ (log : List (Performed machine)) (result : IdempotencyResult) (s' : State),
      Path (Elsewhere t) t (execute redisKey requestHash (process requestHash)) s log
        (.done result) s' ∧ claims log = 0 := by
  obtain ⟨log, s', path, none⟩ := path_afterWork (t := t) redisKey requestHash ⟨.num 201, none⟩
    ((s.starts t).resolves ⟨t, requestHash, 201, none⟩)
  rw [execute_process]
  refine ⟨_, _, s', path_worked path, ?_⟩
  rw [claims_cons, claims_cons _ log, none]
  rfl

/-- The last round: the key is free, and the work of the call resolves. -/
theorem won_round (ctx : ApiContext) (call : Call k) (attempts : ℕ)
    (absent : s.server.store k.redisKey = none) :
    ∃ (log : List (Performed machine)) (result : IdempotencyResult) (s' : State),
      Path (Elsewhere t) t (withIdempotency ctx call.options
        (process (call.requestHash ctx)) (attempts + 1)) s log (.done result) s' ∧
      claims log = 1 := by
  have free := Redis.Command.apply_setNx absent
    (StoredRecord.claim (call.requestHash ctx)).serialized processingTtlSeconds
  obtain ⟨log, result, s', path, none⟩ := path_execute (t := t) k.redisKey (call.requestHash ctx) _
  rw [withIdempotency_succ]
  refine ⟨_, result, s', path_answered (.nothing s) free path, ?_⟩
  rw [claims_cons, none]
  rfl

end Others

/-- A call that claims its key for the third time. -/
theorem third_claim :
    ∃ log task s', Path (Elsewhere 0) 0 (withIdempotency (exampleContext exampleSha256)
        (exampleCall "x").options
        (process ((exampleCall "x").requestHash (exampleContext exampleSha256))) 3)
        (State.initial fun _ => none) log task s' ∧ 2 < claims log := by
  obtain ⟨log, task, s', path, three⟩ := claims_again (t := 0) (exampleContext exampleSha256)
    (exampleCall "x") 3 (s := State.initial fun _ => none) rfl
  exact ⟨log, task, s', path, Nat.lt_of_lt_of_eq (Nat.lt_succ_self 2) three.symm⟩

/-- The second claim gets the key: two claims, and an end. -/
theorem claims_iff_of_second_claim :
    ∃ log task s', Path (Elsewhere 0) 0 (withIdempotency (exampleContext exampleSha256)
        (exampleCall "x").options
        (process ((exampleCall "x").requestHash (exampleContext exampleSha256))) 3)
        (State.initial fun _ => none) log task s' ∧ claims log = 2 ∧ Steady log := by
  obtain ⟨claim, p, s₂, gone, one, extend⟩ := lost_round (t := 0) (exampleContext exampleSha256)
    (exampleCall "x") (Nat.succ_ne_self 0) (s := State.initial fun _ => none) rfl
  obtain ⟨log, result, s', path, last⟩ := won_round (t := 0) (exampleContext exampleSha256)
    (exampleCall "x") 1 gone
  have two : claims (claim :: p :: log) = 2 := by
    rw [show claim :: p :: log = [claim, p] ++ log from rfl, claims_append, one, last]
  have run := extend path
  exact ⟨_, _, s', run, two, ((claims_iff (by decide) run).2 (Program.settled_done _)).mp
    ⟨Nat.le_of_eq two, .inl ⟨result, rfl⟩⟩⟩

end IdempotentCalls

end OrderPlatform
