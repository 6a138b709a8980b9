import OrderPlatform.Api.Lifecycle

/-!
# The drain

`onResponse` takes every response off the count, `onRequest` counts only the requests that it
accepts.  So the count falls short by the refusals that have been responded to (`Counted`): one
request that arrives during the drain is enough for `shutdown` to leave its loop while a request
is in flight (`drain_left_early`).  As long as no refusal has been responded to, the count is exact
(`drain_exact`).

The account is kept with a history of who has been accepted and who has been refused.  It is an
equation in every run, with the number of refusals that have been responded to on one side, so the
condition of `drain_exact` is exactly what makes that number zero.
-/

namespace OrderPlatform

namespace Lifecycle

open Async (Tid Discipline Regime)

variable {drainMs : ℤ} {t : Tid} {s s' : State}

/-! ### Where a request stands -/

/-- What the others leave alone of a request. -/
structure Rely (t : Tid) (s s' : State) : Prop where
  accepted : t ∈ s'.history.accepted ↔ t ∈ s.history.accepted
  refused : t ∈ s'.history.refused ↔ t ∈ s.history.refused
  responded : t ∈ s'.history.responded ↔ t ∈ s.history.responded

theorem Rely.refl (t : Tid) (s : State) : Rely t s s := ⟨Iff.rfl, Iff.rfl, Iff.rfl⟩

theorem Rely.trans {s'' : State} (h : Rely t s s') (h' : Rely t s' s'') : Rely t s s'' :=
  ⟨h'.accepted.trans h.accepted, h'.refused.trans h.refused, h'.responded.trans h.responded⟩

/-- A request that no hook has seen. -/
structure Fresh (t : Tid) (s : State) : Prop where
  accepted : t ∉ s.history.accepted
  refused : t ∉ s.history.refused
  responded : t ∉ s.history.responded

theorem Fresh.later (h : Fresh t s) (step : Rely t s s') : Fresh t s' :=
  ⟨mt step.accepted.mp h.accepted, mt step.refused.mp h.refused, mt step.responded.mp h.responded⟩

/-- A request that was accepted or refused, and not responded to. -/
structure Open (t : Tid) (counted : Bool) (s : State) : Prop where
  accepted : t ∈ s.history.accepted ↔ counted = true
  refused : t ∈ s.history.refused ↔ counted = false
  responded : t ∉ s.history.responded

theorem Open.later {counted : Bool} (h : Open t counted s) (step : Rely t s s') :
    Open t counted s' :=
  ⟨step.accepted.trans h.accepted, step.refused.trans h.refused, mt step.responded.mp h.responded⟩

/-- What is true when a request awaits something. -/
def Before (t : Tid) (c : Call) (s : State) : Prop :=
  match c with
  | .onRequest _ => Fresh t s
  | .handle => Open t true s
  | .onResponse .. => ∃ counted, Open t counted s
  | _ => True

/-- What the calls do, one case per call. -/
theorem exec_cases {choice : Choice} {c : Call} {r : c.Reply}
    (h : exec drainMs t choice c s = some (r, s')) :
    (∃ now request, c = .onRequest request ∧ s' = (onRequest t now request s).2) ∨
    (∃ now request status, c = .onResponse request status ∧
      s' = onResponse t now request status s) ∨
    (∃ deadline now s₁, s₁.history = s.history ∧ s₁.api.activeRequests = s.api.activeRequests ∧
      s₁.metrics = s.metrics ∧ s' = (test deadline now s₁).2) ∨ s' = s := by
  cases c with
  | onRequest request =>
      cases choice with
      | moment now => exact .inl ⟨now, request, rfl, (congrArg Prod.snd (Option.some.inj h)).symm⟩
      | moments first second => cases h
      | answers status => cases h
  | handle =>
      cases choice <;> cases h
      exact .inr (.inr (.inr rfl))
  | onResponse request status =>
      cases choice <;> cases h
      exact .inr (.inl ⟨_, request, status, rfl, rfl⟩)
  | shutdown =>
      cases choice with
      | moments first second =>
          simp only [exec] at h
          split at h
          · cases h
            exact .inr (.inr (.inr rfl))
          · exact .inr (.inr (.inl ⟨first + drainMs, second,
              { s with api := { s.api with shuttingDown := true } }, rfl, rfl, rfl,
              (congrArg Prod.snd (Option.some.inj h)).symm⟩))
      | moment now => cases h
      | answers status => cases h
  | drain deadline =>
      cases choice with
      | moment now =>
          exact .inr (.inr (.inl ⟨deadline, now, s, rfl, rfl, rfl,
            (congrArg Prod.snd (Option.some.inj h)).symm⟩))
      | moments first second => cases h
      | answers status => cases h

/-- The hook has accepted a request, or refused it. -/
theorem opened_of_onRequest {now : ℤ} {request : IncomingRequest}
    {r : Except HttpResponse (List (String × String))} (fresh : Fresh t s)
    (h : onRequest t now request s = (r, s')) : Open t r.isOk s' := by
  unfold onRequest at h
  split at h
  · cases h
    exact ⟨iff_of_false fresh.accepted Bool.false_ne_true, iff_of_true List.mem_cons_self rfl,
      fresh.responded⟩
  · cases h
    exact ⟨iff_of_true List.mem_cons_self rfl, iff_of_false fresh.refused Bool.false_ne_true.symm,
      fresh.responded⟩

/-- The test of the loop keeps all but what it notes of its end. -/
theorem test_history (deadline now : ℤ) (s : State) :
    (test deadline now s).2 =
      { s with history := { s.history with left := (test deadline now s).2.history.left } } := by
  unfold test
  split
  · rfl
  · rfl

theorem mem_cons_other {u : Tid} {l : List Tid} (other : u ≠ t) : u ∈ t :: l ↔ u ∈ l :=
  List.mem_cons.trans (or_iff_right other)

/-- **What a call does** is tolerated by all other requests. -/
theorem rely_of_exec {choice : Choice} {c : Call} {r : c.Reply} {u : Tid} (other : u ≠ t)
    (h : exec drainMs t choice c s = some (r, s')) : Rely u s s' := by
  rcases exec_cases h with ⟨now, request, _, rfl⟩ | ⟨now, request, status, _, rfl⟩ |
    ⟨deadline, now, s₁, history, _, _, rfl⟩ | rfl
  · unfold onRequest
    split
    · exact ⟨Iff.rfl, mem_cons_other other, Iff.rfl⟩
    · exact ⟨mem_cons_other other, Iff.rfl, Iff.rfl⟩
  · exact ⟨Iff.rfl, Iff.rfl, mem_cons_other other⟩
  · rw [test_history, history]
    exact ⟨Iff.rfl, Iff.rfl, Iff.rfl⟩
  · exact .refl u _

/-- What all requests agree on. -/
def discipline (drainMs : ℤ) : Discipline (machine drainMs) where
  inv := fun _ => True
  fresh := Fresh
  before := Before
  rely := Rely
  rely_refl := Rely.refl
  rely_trans := Rely.trans
  fresh_rely := Fresh.later

variable {R : Regime (machine drainMs)}

theorem environment : (discipline drainMs).Environment R where
  event := fun {e} _ _ _ _ _ => e.elim
  crash := fun _ _ => ⟨trivial, fun u _ => .refl u _⟩

section Rules

variable {Q : Unit → State → Prop} {E : Empty → State → Prop}

/-- A call awaited by a request or by `shutdown`. -/
theorem holds_await {c : Call} {k : c.Reply → Task Unit}
    (before : ∀ s', Rely t s s' → Before t c s')
    (next : ∀ s' choice r s'', Rely t s s' → exec drainMs t choice c s' = some (r, s'') →
      ((discipline drainMs).contract R t).Holds Q E (k r) s'') :
    ((discipline drainMs).contract R t).Holds Q E (.await c k) s := by
  intro s₁ rely₁
  refine ⟨before s₁ rely₁.2, fun choice r s₂ _ hexec => ?_⟩
  exact ⟨⟨trivial, fun u other => rely_of_exec other hexec⟩, next s₁ choice r s₂ rely₁.2 hexec⟩

/-- The response to a request, after which nothing is left to do. -/
private theorem holds_response {counted : Bool} {request : IncomingRequest} {status : ℕ}
    (waiting : Open t counted s) :
    ((discipline drainMs).contract R t).Holds (fun _ _ => True) (fun _ _ => True)
      (.await (.onResponse request status) .done) s :=
  holds_await (fun _ step => ⟨counted, waiting.later step⟩) fun _ _ _ _ _ _ _ _ => trivial

private theorem holds_respond (request : IncomingRequest) (fresh : Fresh t s) :
    ((discipline drainMs).contract R t).Holds (fun _ _ => True) (fun _ _ => True)
      (respond request) s := by
  refine holds_await (fun _ => fresh.later) ?_
  intro s₁ choice r s₂ step done
  cases choice with
  | moments first second => cases done
  | answers status => cases done
  | moment now =>
      have opened := opened_of_onRequest (fresh.later step) (Option.some.inj done)
      cases r with
      | error response => exact holds_response opened
      | ok headers =>
          refine holds_await (fun _ => opened.later) ?_
          intro s₃ choice' status s₄ step' done'
          cases choice' <;> cases done'
          exact holds_response (opened.later step')

private theorem holds_drainFrom (deadline : ℤ) (rounds : ℕ) (stays : Bool) :
    ((discipline drainMs).contract R t).Holds (fun _ _ => True) (fun _ _ => True)
      (drainFrom deadline rounds stays) s := by
  induction rounds generalizing stays s with
  | zero =>
      cases stays with
      | false => exact fun _ _ => trivial
      | true => exact trivial
  | succ rounds ih =>
      cases stays with
      | false => exact fun _ _ => trivial
      | true => exact holds_await (fun _ _ => trivial) fun _ _ stays _ _ _ => ih stays

private theorem holds_shutdown (rounds : ℕ) :
    ((discipline drainMs).contract R t).Holds (fun _ _ => True) (fun _ _ => True)
      (shutdown rounds) s := by
  refine holds_await (fun _ _ => trivial) ?_
  intro s₁ choice r s₂ step done
  match r with
  | none => exact fun _ _ => trivial
  | some (deadline, stays) => exact holds_drainFrom deadline rounds stays

end Rules

theorem handles :
    (discipline drainMs).Handles R (handler drainMs) (fun _ _ _ _ => True) fun _ _ _ _ => True := by
  intro t request s _ fresh
  cases request with
  | http request => exact holds_respond request fresh
  | shutdown rounds => exact holds_shutdown rounds

/-- The runs of the service. -/
abbrev Run (R : Regime (machine drainMs)) : Service drainMs → Service drainMs → Prop :=
  Async.Pool.Steps R (handler drainMs)

/-- An invariant of all runs, from what a call keeps. -/
theorem invariant_of_run {I : State → Prop} {p : Service drainMs}
    (run : Run R (Async.Pool.idle .initial) p) (initially : I .initial)
    (step : ∀ t c choice r s s', Before t c s → R.advance t choice c s →
      exec drainMs t choice c s = some (r, s') → I s → I s') : I p.shared := by
  have fresh : ∀ t, (discipline drainMs).fresh t State.initial := fun t =>
    ⟨List.not_mem_nil, List.not_mem_nil, List.not_mem_nil⟩
  refine (Discipline.sound_idle trivial fresh).invariant environment handles initially ?_ ?_ ?_ run
  · exact fun t choice c s r s' _ before allowed hexec here =>
      step t c choice r s s' before allowed hexec here
  · exact fun e => e.elim
  · exact fun _ _ _ _ here => here

/-! ### The count -/

/-- The refused requests that have been responded to. -/
def History.refusalsAnswered (h : History) : List Tid := h.refused.filter fun t => t ∈ h.responded

section Counting

variable {l r : List Tid}

/-- A thread that is answered leaves those that are not. -/
theorem length_unanswered (distinct : l.Nodup) (mem : t ∈ l) (waiting : t ∉ r) :
    (l.filter fun u => u ∉ t :: r).length + 1 = (l.filter fun u => u ∉ r).length := by
  have erased : (l.filter fun u => u ∉ t :: r) = (l.filter fun u => u ∉ r).erase t := by
    rw [(distinct.filter _).erase_eq_filter, List.filter_filter]
    refine List.filter_congr fun u _ => ?_
    by_cases same : u = t
    · simp [same]
    · simp [same]
  rw [erased, List.length_erase_of_mem (List.mem_filter.mpr ⟨mem, decide_eq_true waiting⟩)]
  exact Nat.succ_pred_eq_of_pos (List.length_pos_of_mem
    (List.mem_filter.mpr ⟨mem, decide_eq_true waiting⟩))

theorem unanswered_other (other : t ∉ l) :
    (l.filter fun u => u ∉ t :: r) = l.filter fun u => u ∉ r := by
  refine List.filter_congr fun u mem => ?_
  have ne : u ≠ t := fun same => other (same ▸ mem)
  rw [decide_eq_decide]
  exact not_congr (mem_cons_other ne)

/-- What is answered and what is not is everything. -/
theorem length_answered (l r : List Tid) :
    (l.filter fun u => u ∈ r).length + (l.filter fun u => u ∉ r).length = l.length := by
  rw [List.length_eq_length_filter_add (l := l) fun u => decide (u ∈ r)]
  congr 2
  exact List.filter_congr fun u _ => by simp

end Counting

/-- The count falls short by the refusals that were responded to. -/
structure Counted (s : State) : Prop where
  accepted : s.history.accepted.Nodup
  refused : s.history.refused.Nodup
  active : s.api.activeRequests =
    s.history.unanswered.length - s.history.refusalsAnswered.length
  gauge : s.metrics.inFlight = s.api.activeRequests

theorem Counted.onRequest (h : Counted s) (now : ℤ) (request : IncomingRequest) (fresh : Fresh t s) :
    Counted (onRequest t now request s).2 := by
  unfold Lifecycle.onRequest
  split
  · refine ⟨h.accepted, List.nodup_cons.mpr ⟨fresh.refused, h.refused⟩, h.active.trans ?_, h.gauge⟩
    unfold History.refusalsAnswered
    rw [List.filter_cons_of_neg (by simpa using fresh.responded)]
    rfl
  · refine ⟨List.nodup_cons.mpr ⟨fresh.accepted, h.accepted⟩, h.refused, ?_,
      congrArg (· + 1) h.gauge⟩
    have active := h.active
    unfold History.unanswered History.refusalsAnswered at active ⊢
    rw [List.filter_cons_of_pos (by simpa using fresh.responded), List.length_cons]
    show s.api.activeRequests + 1 = _
    rw [active]
    push_cast
    omega

theorem Counted.onResponse (h : Counted s) (now : ℤ) (request : IncomingRequest) (status : ℕ)
    {counted : Bool} (waiting : Open t counted s) :
    Counted (onResponse t now request status s) := by
  refine ⟨h.accepted, h.refused, ?_, congrArg (· - 1) h.gauge⟩
  show s.api.activeRequests - 1 =
    ((s.history.accepted.filter fun u => u ∉ t :: s.history.responded).length : ℤ) -
      ((s.history.refused.filter fun u => u ∈ t :: s.history.responded).length : ℤ)
  have active : s.api.activeRequests =
      ((s.history.accepted.filter fun u => u ∉ s.history.responded).length : ℤ) -
        ((s.history.refused.filter fun u => u ∈ s.history.responded).length : ℤ) := h.active
  -- of the refused ones, count those that are not responded to
  have now := length_answered s.history.refused (t :: s.history.responded)
  have earlier := length_answered s.history.refused s.history.responded
  cases counted with
  | true =>
      have one := length_unanswered h.accepted (waiting.accepted.mpr rfl) waiting.responded
      rw [unanswered_other (mt waiting.refused.mp Bool.false_ne_true.symm)] at now
      omega
  | false =>
      have one := length_unanswered h.refused (waiting.refused.mpr rfl) waiting.responded
      rw [unanswered_other (mt waiting.accepted.mp Bool.false_ne_true)]
      omega

theorem Counted.test (h : Counted s) (deadline now : ℤ) {s₁ : State}
    (history : s₁.history = s.history) (active : s₁.api.activeRequests = s.api.activeRequests)
    (metrics : s₁.metrics = s.metrics) : Counted (test deadline now s₁).2 := by
  rw [test_history, history]
  refine ⟨h.accepted, h.refused, active.trans h.active, ?_⟩
  show s₁.metrics.inFlight = s₁.api.activeRequests
  rw [metrics, active]
  exact h.gauge

theorem Counted.step {c : Call} {choice : Choice} {r : c.Reply} (h : Counted s)
    (before : Before t c s) (done : exec drainMs t choice c s = some (r, s')) : Counted s' := by
  rcases exec_cases done with ⟨now, request, rfl, rfl⟩ | ⟨now, request, status, rfl, rfl⟩ |
    ⟨deadline, now, s₁, history, active, metrics, rfl⟩ | rfl
  · exact h.onRequest now request before
  · obtain ⟨counted, waiting⟩ := before
    exact h.onResponse now request status waiting
  · exact h.test deadline now history active metrics
  · exact h

/-- **The count of every run.** -/
theorem Counted.of_run {p : Service drainMs} (run : Run R (Async.Pool.idle .initial) p) :
    Counted p.shared :=
  invariant_of_run run ⟨List.nodup_nil, List.nodup_nil, rfl, rfl⟩
    fun _ _ _ _ _ _ before _ done h => h.step before done

/-! ### The condition -/

/-- No response to a refused request is completed.  Such a request has not been counted, and
`onResponse` takes one off the count all the same. -/
def noRefusalAnswered (drainMs : ℤ) : Regime (machine drainMs) where
  advance := fun t _ c s =>
    match c with
    | .onResponse .. => t ∉ s.history.refused
    | _ => True
  event := fun _ _ => True
  crash := fun _ _ => True

/-- Without responses to refusals the loop is left early only when nothing is in flight. -/
structure Drained (h : History) : Prop where
  refusals : h.refusalsAnswered = []
  left : ∀ e ∈ h.left, e.moment < e.deadline → e.unanswered = 0

/-- A test of the loop, from an exact count. -/
theorem Drained.test (h : Drained s.history) (counted : Counted s) (deadline now : ℤ) {s₁ : State}
    (history : s₁.history = s.history) (active : s₁.api.activeRequests = s.api.activeRequests) :
    Drained (test deadline now s₁).2.history := by
  rw [← history] at h
  unfold Lifecycle.test
  split
  · exact h
  · rename_i leaves
    refine ⟨h.refusals, fun e mem early => ?_⟩
    rcases List.mem_cons.mp mem with rfl | mem
    · have idle : ¬ 0 < s₁.api.activeRequests := fun busy => leaves ⟨busy, early⟩
      have exact := counted.active
      rw [← history, ← active, h.refusals, List.length_nil] at exact
      show s₁.history.unanswered.length = 0
      omega
    · exact h.left e mem early

theorem Drained.of_run {p : Service drainMs}
    (run : Run (noRefusalAnswered drainMs) (Async.Pool.idle .initial) p) :
    Drained p.shared.history := by
  have both : Counted p.shared ∧ Drained p.shared.history := by
    refine invariant_of_run (I := fun s => Counted s ∧ Drained s.history) run
      ⟨⟨List.nodup_nil, List.nodup_nil, rfl, rfl⟩, rfl, fun e mem => absurd mem List.not_mem_nil⟩ ?_
    intro t c choice r s s' before allowed done ⟨counted, h⟩
    refine ⟨counted.step before done, ?_⟩
    rcases exec_cases done with ⟨now, request, rfl, rfl⟩ | ⟨now, request, status, rfl, rfl⟩ |
      ⟨deadline, now, s₁, history, active, _, rfl⟩ | rfl
    · have refusals := h.refusals
      unfold Lifecycle.onRequest
      split
      · refine ⟨?_, h.left⟩
        unfold History.refusalsAnswered at refusals ⊢
        rw [List.filter_cons_of_neg (by simpa using before.responded)]
        exact refusals
      · exact ⟨refusals, h.left⟩
    · refine ⟨?_, h.left⟩
      -- the thread that is responded to has not been refused
      have notRefused : t ∉ s.history.refused := allowed
      refine (List.filter_congr fun u mem => ?_).trans h.refusals
      have other : u ≠ t := fun same => notRefused (same ▸ mem)
      exact decide_eq_decide.mpr (mem_cons_other other)
    · exact h.test counted deadline now history active
    · exact h
  exact both.2

/-- **The drain is exact as long as no refusal is responded to.**  The count is the number of
accepted requests that have not been responded to, and the loop is left before its deadline only
when there are none.

In every run the count and the refusals that have been responded to add up (`Counted`); the
condition says that there are none of these. -/
theorem drain_exact {p : Service drainMs}
    (run : Run (noRefusalAnswered drainMs) (Async.Pool.idle .initial) p) :
    p.shared.api.activeRequests = p.shared.history.unanswered.length ∧
      0 ≤ p.shared.api.activeRequests ∧
      ∀ e ∈ p.shared.history.left, e.moment < e.deadline → e.unanswered = 0 := by
  have drained := Drained.of_run run
  have active := (Counted.of_run run).active
  rw [drained.refusals, List.length_nil] at active
  have active : p.shared.api.activeRequests = p.shared.history.unanswered.length := by omega
  refine ⟨active, ?_, drained.left⟩
  rw [active]
  exact Int.natCast_nonneg _

instance decidableNoRefusalAnsweredAdvance (t : Tid) (choice : Choice) (c : Call) (s : State) :
    Decidable ((noRefusalAnswered drainMs).advance t choice c s) := by
  unfold noRefusalAnswered
  dsimp only
  split
  · infer_instance
  · infer_instance

instance decidableNoRefusalAnsweredEvent (e : Empty) (s : State) :
    Decidable ((noRefusalAnswered drainMs).event e s) := .isTrue trivial

instance decidableNoRefusalAnsweredCrash (t : Tid) (s : State) :
    Decidable ((noRefusalAnswered drainMs).crash t s) := .isTrue trivial

/-- Every call may go as it likes. -/
def unrestricted (drainMs : ℤ) : Regime (machine drainMs) where
  advance := fun _ _ _ _ => True
  event := fun _ _ => True
  crash := fun _ _ => True

instance decidableUnrestrictedAdvance (t : Tid) (choice : Choice) (c : Call) (s : State) :
    Decidable ((unrestricted drainMs).advance t choice c s) := .isTrue trivial

instance decidableUnrestrictedEvent (e : Empty) (s : State) :
    Decidable ((unrestricted drainMs).event e s) := .isTrue trivial

instance decidableUnrestrictedCrash (t : Tid) (s : State) :
    Decidable ((unrestricted drainMs).crash t s) := .isTrue trivial

/-- A request for an order, and a health probe. -/
def exampleRequest : IncomingRequest := ⟨"r1", .missing, "GET", "/v1/orders"⟩

def exampleProbe : IncomingRequest := ⟨"r2", .missing, "GET", "/health/live"⟩

/-- A request arrives, and the service is asked to shut down. -/
def exampleMoves : List (Async.Move (machine 10000) Request) :=
  [.start 1 (.http exampleRequest), .advance 1 (.moment 0), .start 2 (.shutdown 3),
    .advance 2 (.moments 10 10)]

/-- A request is in flight when the shutdown begins, a probe is refused, the request is responded
to, and the loop is left. -/
theorem drain_exact_of_shutdown :
    ∃ p : Service 10000, Run (noRefusalAnswered _) (Async.Pool.idle .initial) p ∧
      p.shared.history.refused = [3] ∧ p.shared.history.left = [⟨10010, 260, 0⟩] ∧
      p.shared.api.activeRequests = 0 := by
  obtain ⟨p, run, refused, left, unanswered⟩ := Async.Pool.steps_of_check
    (noRefusalAnswered 10000) (handler 10000) (Async.Pool.idle .initial)
    (exampleMoves ++ [.start 3 (.http exampleProbe), .advance 3 (.moment 20),
      .advance 1 (.answers 200), .advance 1 (.moment 100), .advance 2 (.moment 260)])
    (fun p => p.shared.history.refused = [3] ∧ p.shared.history.left = [⟨10010, 260, 0⟩] ∧
      p.shared.history.unanswered = []) (by decide)
  refine ⟨p, run, refused, left, ?_⟩
  rw [(drain_exact run).1, unanswered]
  rfl

/-- **The loop is left while a request is in flight.**  A health probe that is refused during the
drain takes the request in flight off the count, and the next probe makes the count negative. -/
theorem drain_left_early :
    ∃ p : Service 10000, Run (unrestricted _) (Async.Pool.idle .initial) p ∧
      p.shared.history.unanswered = [1] ∧ p.shared.history.left = [⟨10010, 260, 1⟩] ∧
      p.shared.api.activeRequests = -1 := by
  obtain ⟨p, run, final⟩ := Async.Pool.steps_of_check
    (unrestricted 10000) (handler 10000) (Async.Pool.idle .initial)
    (exampleMoves ++ [.start 3 (.http exampleProbe), .advance 3 (.moment 20),
      .advance 3 (.moment 30), .advance 2 (.moment 260), .start 4 (.http exampleProbe),
      .advance 4 (.moment 270), .advance 4 (.moment 280)])
    (fun p => p.shared.history.unanswered = [1] ∧ p.shared.history.left = [⟨10010, 260, 1⟩] ∧
      p.shared.api.activeRequests = -1) (by decide)
  exact ⟨p, run, final⟩

end Lifecycle

end OrderPlatform
