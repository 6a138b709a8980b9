import OrderPlatform.Api.OrderWrites

/-!
# Runs of the order service

The four handlers keep the discipline (`handles`), so every run from the initial service does
(`sound_of_steps`), and so does every run from any moment of such a run on, where the answers
given to later requests may refer to that moment (`sound_from`).
-/

namespace OrderPlatform

namespace OrderRoutes

open Async (Tid Pool Move Discipline)
open Text (Json)

variable {ctx : ApiContext} {A : Assumptions} {base : State} {p q : Service ctx}

/-- What an answered request knows, when it was given a state that was reached before it began. -/
def Answer (ctx : ApiContext) (A : Assumptions) (base : State) (t : Tid) :
    Request → HttpResponse → State → Prop
  | .createOrder user _ _ _, response, s =>
      PostAnswer user response ∧ Effects ctx A t [] response s
  | .getOrder user id, response, s => Idle t (OrderAnswer A base user id response) s
  | .listOrders user request, response, s =>
      Idle t (ListAnswer ctx A request user base.history.bumped.length response) s
  | .patchOrder user id _, response, s =>
      PatchAnswer user response ∧ Effects ctx A t [orderEntityKey id] response s

/-- What a failed request knows: it has committed nothing, a `POST` provided that commands on
idempotency records are answered. -/
def Failure (A : Assumptions) (t : Tid) : Request → ApiError → State → Prop
  | .createOrder .., _, s => Abandoned A t s
  | _, _, s => Untouched t s

/-- **Every handler keeps the discipline.** -/
theorem handles : (discipline ctx A base).Handles (regime ctx A) (handler ctx)
    (Answer ctx A base) (Failure A) := by
  intro t request s inv fresh
  have here : (contract ctx A base t).rely s s := ⟨inv, Rely.refl t s⟩
  cases request with
  | createOrder user request data attempts => exact holds_createOrder fresh.session here
  | getOrder user id =>
      exact (holds_getOrder fresh.session here).mono (fun _ _ known => known)
        fun _ _ clean => clean.untouched
  | listOrders user request =>
      have reached : Idle t (Reached A base.history.bumped.length base.history.bumped.length) s :=
        ⟨fresh.session, fun _ => ⟨Nat.le_refl _, inv.2.bumped.length_le⟩⟩
      exact (holds_listOrders reached here).mono (fun _ _ known => known)
        fun _ _ clean => clean.untouched
  | patchOrder user id target => exact holds_patchOrder fresh.session here

theorem inv_initial : Inv ctx A State.initial where
  latest := rfl
  audited := audited_empty
  timely _ := timely_empty
  born := nofun
  held := nofun
  owners T mem id row found := by
    cases List.mem_singleton.mp mem
    cases found
  stored := nofun
  sent := nofun
  version _ := ⟨.inl ⟨rfl, rfl⟩, rfl⟩

theorem fresh_initial (t : Tid) : Fresh t State.initial where
  committed := by simp [State.initial, History.initial, History.Committed]
  bumped := nofun
  deleted _ := nofun
  opened := rfl
  released := rfl
  transaction := rfl
  header := rfl

/-- The environment leaves whoever works from a moment on in peace. -/
theorem environment_since : (discipline ctx A base).Environment (regime ctx A) :=
  environment.since Since.later

/-- The runs of the service. -/
abbrev Run (ctx : ApiContext) (A : Assumptions) : Service ctx → Service ctx → Prop :=
  Pool.Steps (regime ctx A) (handler ctx)

/-- **Every run keeps the discipline.** -/
theorem sound_of_run (run : Run ctx A (Service.initial ctx) p) :
    Discipline.Sound (discipline ctx A State.initial) (regime ctx A)
      (Answer ctx A State.initial) (Failure A) p := by
  have inv : (discipline ctx A State.initial).inv State.initial :=
    ⟨inv_initial, Since.initial State.initial⟩
  exact (Discipline.sound_idle inv fresh_initial).steps environment_since handles run

/-- **From any moment on**: the answers to requests that had not begun at `p` refer to `p`. -/
theorem sound_from (before : Run ctx A (Service.initial ctx) p) (run : Run ctx A p q) :
    Discipline.Sound (discipline ctx A p.shared) (regime ctx A)
      (fun t request response s => p.slot t = .free →
        Answer ctx A p.shared t request response s)
      (fun t request error s => p.slot t = .free → Failure A t request error s) q := by
  have now : Discipline.Sound (discipline ctx A p.shared) (regime ctx A)
      (fun t request response s => p.slot t = .free → Answer ctx A p.shared t request response s)
      (fun t request error s => p.slot t = .free → Failure A t request error s) p :=
    (sound_of_run before).since Since.later (Since.refl _) fun s _ => Since.initial s
  refine now.steps environment_since (fun t request s inv fresh => ?_) run
  exact (handles t request s inv fresh).mono (fun _ _ known _ => known) fun _ _ known _ => known

/-! ### Requests of the worked examples -/

def alice : Uuid :=
  ⟨"a11ce000-0000-4000-8000-000000000001", List.all_eq_true.mp (by decide)⟩

def bob : Uuid :=
  ⟨"b0b00000-0000-4000-8000-000000000002", List.all_eq_true.mp (by decide)⟩

/-- The identifiers that the requests draw. -/
def exampleId (n : Fin 10) : Uuid where
  text := "00000000-0000-4000-8000-00000000000" ++ String.ofList [Nat.digitChar n]
  canonical := by
    rw [← List.all_eq_true]
    revert n
    decide

/-- A request to create an order, without an idempotency key. -/
def posting (user : Uuid) : Request :=
  .createOrder user ⟨"r1", "POST", some "/v1/orders", "/v1/orders", .missing, none⟩
    ⟨"a@example.com", [⟨"x", 1, 100⟩]⟩ 1

def firstPage : ListOrdersQuery where
  page := 1
  pageSize := 20
  status := none
  customerEmail := none
  createdAfter := none
  createdBefore := none
  page_pos := Nat.le_refl 1
  pageSize_pos := by decide
  pageSize_le := by decide
  email := nofun
  after_digit := nofun
  before_digit := nofun

/-- The context of the worked examples; no request has an idempotency key. -/
def orderContext : ApiContext := exampleContext fun _ => ""

/-- A `POST` from its start to its end, nothing going wrong. -/
def postMoves (t : Tid) (user : Uuid) (orderId eventId createdId : Uuid) :
    List (Move (machine orderContext) Request) :=
  [.start t (posting user), .advance t (.fresh orderId), .advance t (.fresh eventId),
    .advance t (.time 0), .advance t .succeeds, .advance t .succeeds, .advance t .succeeds,
    .advance t (.fresh createdId), .advance t .succeeds, .advance t .succeeds,
    .advance t .succeeds, .advance t (.redis .none), .advance t .succeeds]

/-- A list request that finds nothing in the caches and these rows in Postgres. -/
def listMoves (t : Tid) (user : Uuid) (rows : List OrderRow) :
    List (Move (machine orderContext) Request) :=
  [.start t (.listOrders user firstPage), .advance t (.redis .none), .advance t (.redis .none),
    .pick t true, .advance t (.rows rows), .advance t (.redis .none), .advance t (.redis .none),
    .advance t .succeeds, .advance t (.redis .none), .advance t (.redis .none),
    .advance t .succeeds]

/-- The row that a `POST` of the user leaves when the clock of the database has not moved. -/
def exampleOrder (n : Fin 10) (user : Uuid) : OrderRow :=
  ⟨exampleId n, user, "a@example.com", .array [OrderItem.toJson ⟨"x", 1, 100⟩], 100, .pending,
    0, 0⟩

/-- A `PATCH` from its start to the row lock. -/
def lockMoves (t : Tid) (user id : Uuid) (target : OrderStatus) :
    List (Move (machine orderContext) Request) :=
  [.start t (.patchOrder user id.text target), .advance t .succeeds, .advance t .succeeds,
    .advance t .succeeds]

/-- The rest of a `PATCH` that changes the status. -/
def changeMoves (t : Tid) (eventId : Uuid) : List (Move (machine orderContext) Request) :=
  [.advance t .succeeds, .advance t (.fresh eventId), .advance t .succeeds, .advance t .succeeds,
    .pick t true, .advance t (.redis .none), .advance t (.redis .none), .advance t .succeeds]

/-- A `PATCH` from its start to its end, nothing going wrong. -/
def patchMoves (t : Tid) (user id : Uuid) (target : OrderStatus) (eventId : Uuid) :
    List (Move (machine orderContext) Request) :=
  lockMoves t user id target ++ changeMoves t eventId

end OrderRoutes

end OrderPlatform
