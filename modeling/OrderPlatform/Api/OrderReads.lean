import OrderPlatform.Api.OrderContract

/-!
# The reading handlers

What `GET /v1/orders` and `GET /v1/orders/:id` answer.  A reading handler is *idle*: it has no
transaction and publishes nothing, and all it knows is what the history says of the rows it has
found (`Idle`).

The list handler settles on a version before it looks for anything, and the count cache settles
on one of its own.  Both are versions that had been reached, so whatever is found under them, and
whatever is fetched after them, is recent enough for the version at which the request began.
-/

namespace OrderPlatform

namespace OrderRoutes

open Async (Tid Contract Program)
open Text (Json)

variable {ctx : ApiContext} {A : Assumptions} {base : State} {t : Tid} {s s' : State}

/-- A request without a transaction, and what it knows of the history. -/
def Idle (t : Tid) (X : History → Prop) (s : State) : Prop := Session t 0 none s ∧ X s.history

/-- What is known of a history is known of every continuation. -/
def Lasting (X : History → Prop) : Prop := ∀ {h h' : History}, h.Grows h' → X h → X h'

theorem Idle.later {X : History → Prop} (lasting : Lasting X) (known : Idle t X s)
    (step : Rely t s s') : Idle t X s' :=
  ⟨known.1.later step, lasting step.grows known.2⟩

theorem holds_reply {value : XCache} {X : History → Prop} (lasting : Lasting X)
    (known : Idle t X s) :
    (contract ctx A base t).Holds (fun _ => Idle t X) (fun _ _ => False) (header value) s :=
  holds_header (fun _ step => known.later lasting (rely_of step))
    (fun quiet db history same idle =>
      ⟨idle.1.step quiet same (by rw [db]; exact idle.1.transaction), history ▸ idle.2⟩)
    fun step idle => idle.later lasting step

/-- The write behind a miss: whatever becomes of it, what the request knows stays known. -/
theorem holds_writeBack {key value : String} {seconds : ℕ} {X : History → Prop}
    (lasting : Lasting X) (known : Idle t X s) (here : (contract ctx A base t).rely s s)
    (ok : ∀ s', (contract ctx A base t).rely s s' → Idle t X s' →
      (A.coherent = true → Coherent t s'.history (.set key value seconds)) →
        key ≠ versionKey ∧ EntryOk ctx A s'.history key value) :
    (contract ctx A base t).Holds (fun _ => Idle t X) (fun _ _ => False)
      (((cacheSet key value seconds).bind fun _ => header .miss).attempt fun _ => .done ()) s := by
  have later : ∀ s', (contract ctx A base t).rely s s' → Idle t X s' :=
    fun s' step => known.later lasting (rely_of step)
  refine Contract.Holds.recover _ (Contract.Holds.chain (Q := fun _ => Idle t X)
    (Contract.Holds.of_quiet (holds_set ?_ later ?_)) here ?_)
  · exact fun s' step => ok s' step (later s' step)
  · exact fun s' step _ _ => later s' step
  · exact fun _ s' known' _ => (holds_reply lasting known').mono (fun _ _ h => h)
      fun _ _ impossible => impossible.elim

/-! ### `GET /v1/orders` -/

/-- A version that had been reached, and is at least `w`. -/
def Reached (A : Assumptions) (w v : ℕ) (h : History) : Prop :=
  A.answered = true → w ≤ v ∧ v ≤ h.bumped.length

theorem Reached.lasting {w v : ℕ} : Lasting (Reached A w v) :=
  fun g reached answered => ⟨(reached answered).1, (reached answered).2.trans g.bumped.length_le⟩

/-- **The version of the order lists.** -/
theorem holds_cacheGetNamespaceVersion {w : ℕ}
    (reached : A.answered = true → w ≤ s.history.bumped.length) :
    (contract ctx A base t).quiet.Holds (fun v s' => Reached A w v s'.history) (fun _ _ => True)
      (cacheGetNamespaceVersion cacheNamespaces.ordersList) s := by
  refine Contract.Holds.map versionOf (holds_get ?_ fun _ _ _ => trivial)
  intro s' s'' interrupted later answered
  have version := ((inv_of interrupted).version answered).1.versionOf
  have before := (rely_of interrupted).grows.bumped.length_le
  have after := (rely_of later).grows.bumped.length_le
  simp only [versionKey] at version
  rw [version]
  exact ⟨(reached answered).trans before, after⟩

/-- A total that is recent enough for version `w`. -/
def TotalSince (ctx : ApiContext) (A : Assumptions) (filter : OrderFilter) (w total : ℕ)
    (h : History) : Prop :=
  ∃ i, TotalAt ctx h filter i total ∧ (A.answered = true → Recent h w i)

theorem TotalSince.lasting {filter : OrderFilter} {w total : ℕ} :
    Lasting (TotalSince ctx A filter w total) := by
  rintro h h' g ⟨i, totalAt, recent⟩
  exact ⟨i, totalAt.later g, fun answered => (recent answered).later g totalAt.le⟩

theorem TotalSince.mono {filter : OrderFilter} {w v total : ℕ} {h : History}
    (le : A.answered = true → w ≤ v) (found : TotalSince ctx A filter v total h) :
    TotalSince ctx A filter w total h := by
  obtain ⟨i, totalAt, recent⟩ := found
  exact ⟨i, totalAt, fun answered => (recent answered).mono (le answered)⟩

/-- The key under which a fetched count will be written. -/
private def CountKey (A : Assumptions) (filter : OrderFilter) (w : ℕ) (key : String)
    (h : History) : Prop :=
  ∃ v, key = buildCountCacheKey cacheNamespaces.ordersList v (countCacheQuery filter) ∧
    Reached A w v h

private theorem holds_readCount {request : ListOrdersQuery} {user : Uuid} {w : ℕ}
    (reached : A.answered = true → w ≤ s.history.bumped.length)
    (here : (contract ctx A base t).rely s s) :
    (contract ctx A base t).quiet.Holds
      (fun found s' =>
        match found with
        | .served total => TotalSince ctx A (request.filter ctx user) w total s'.history
        | .missed key => CountKey A (request.filter ctx user) w key s'.history
        | .failed => True)
      (fun _ _ => False)
      (readCount ⟨cacheNamespaces.ordersList, countCacheQuery (request.filter ctx user), none⟩)
      s := by
  refine Contract.Holds.recover _ (Contract.Holds.chain
    (holds_cacheGetNamespaceVersion reached) here ?_)
  intro v s₁ version here₁
  refine Contract.Holds.chain (Q := fun (cached : Option String) (s' : State) =>
    Reached A w v s'.history ∧ ∀ value, cached = some value →
      ∃ total, countOf value = some total ∧
        TotalSince ctx A (request.filter ctx user) v total s'.history)
    (holds_get ?_ fun _ _ _ => trivial) here₁ ?_
  · intro s' s'' interrupted later
    refine ⟨version.lasting ((rely_of interrupted).grows.trans (rely_of later).grows), ?_⟩
    intro value cached
    obtain ⟨entry, stored, rfl⟩ := Option.map_eq_some_iff.mp cached
    obtain ⟨i, total, text, totalAt, recent⟩ :=
      ((inv_of interrupted).stored _ entry stored).count_inv
    exact ⟨total, by rw [text, countOf_toString],
      TotalSince.lasting (rely_of later).grows ⟨i, totalAt, recent⟩⟩
  · rintro cached s₂ ⟨version₂, found⟩ here₂
    cases cached with
    | none => exact fun s₃ later => ⟨v, rfl, version₂.lasting (rely_of later).grows⟩
    | some value =>
        obtain ⟨total, count, since⟩ := found value rfl
        simp only [Option.bind_some, count]
        exact fun s₃ later => (since.mono fun answered => (version₂ answered).1).lasting
          (rely_of later).grows

private theorem holds_fetchCount {filter : OrderFilter} {v : ℕ} (session : Session t 0 none s)
    (raised : A.answered = true → v ≤ s.history.bumped.length) :
    (contract ctx A base t).quiet.Holds
      (fun total s' => TotalSince ctx A filter v total s'.history) (fun _ => Clean t 0)
      (fetchCount filter) s := by
  refine Contract.Holds.map (fun count => (countOf count).getD 0)
    ((holds_countOrders session raised).mono ?_ fun _ _ h => h)
  rintro text s' ⟨i, total, rfl, totalAt, recent⟩
  exact ⟨i, (countOf_toString total).symm ▸ totalAt, recent⟩

/-- **The count cache.** -/
private theorem holds_withCountCache {request : ListOrdersQuery} {user : Uuid} {w : ℕ}
    (idle : Idle t (Reached A w w) s) (here : (contract ctx A base t).rely s s) :
    (contract ctx A base t).quiet.Holds
      (fun total s' => TotalSince ctx A (request.filter ctx user) w total s'.history)
      (fun _ => Clean t 0)
      (withCountCache ctx ⟨cacheNamespaces.ordersList,
        countCacheQuery (request.filter ctx user), none⟩ (fetchCount (request.filter ctx user)))
      s := by
  unfold withCountCache
  split
  · refine Contract.Holds.chain (((holds_readCount (fun answered => (idle.2 answered).2)
      here).frame fun s' step => idle.later Reached.lasting (rely_of step)).mono
        (fun _ _ h => h) fun _ _ impossible => impossible.1.elim) here ?_
    rintro found s₁ ⟨known, idle₁⟩ here₁
    cases found with
    | served total => exact fun s₂ later => known.lasting (rely_of later).grows
    | failed => exact holds_fetchCount idle₁.1 fun answered => (idle₁.2 answered).2
    | missed key =>
        obtain ⟨v, rfl, version⟩ := known
        refine Contract.Holds.chain (((holds_fetchCount idle₁.1 fun answered =>
          (version answered).2).frame fun s' step => version.lasting (rely_of step).grows).mono
            (fun _ _ h => h) fun _ _ error => error.1) here₁ ?_
        rintro total s₂ ⟨since, version₂⟩ here₂
        have known : ∀ s₃, (contract ctx A base t).rely s₂ s₃ →
            TotalSince ctx A (request.filter ctx user) w total s₃.history := fun s₃ later =>
          (since.mono fun answered => (version₂ answered).1).lasting (rely_of later).grows
        refine Contract.Holds.map (fun _ => total) (Contract.Holds.recover _
          (holds_set ?_ known fun s₃ later _ _ => known s₃ later))
        intro s₃ later _
        obtain ⟨i, totalAt, recent⟩ := since.lasting (rely_of later).grows
        refine ⟨fun same => ?_, .count v request user i total totalAt recent⟩
        simpa [familyOf_countKey] using congrArg familyOf same
  · exact holds_fetchCount idle.1 fun answered => (idle.2 answered).2

theorem PageOf.lasting {w : ℕ} {request : ListOrdersQuery} {user : Uuid} {body : Json} :
    Lasting fun h => PageOf ctx A h w request user body := fun g page => page.later g

/-- **A page from Postgres.**  The rows and the total are read next to each other. -/
private theorem holds_fetchOrdersPage {request : ListOrdersQuery} {user : Uuid} {w : ℕ}
    (idle : Idle t (Reached A w w) s) (here : (contract ctx A base t).rely s s) :
    (contract ctx A base t).quiet.Holds
      (fun body s' => PageOf ctx A s'.history w request user body) (fun _ => Clean t 0)
      (fetchOrdersPage ctx request user) s := by
  refine Contract.Holds.map (fun x => pageBody request x.1 x.2)
    ((Contract.Holds.both (holds_selectOrders idle.1 fun answered => (idle.2 answered).2)
      (holds_withCountCache idle here)).mono ?_ fun _ _ error => error)
  rintro ⟨rows, total⟩ s' ⟨⟨i, rowsAt, recent⟩, j, totalAt, recent'⟩
  exact .read i j rows total rowsAt totalAt fun answered => ⟨recent answered, recent' answered⟩

/-- The key under which a fetched page will be written. -/
private def PageKey (A : Assumptions) (request : ListOrdersQuery) (user : Uuid) (w : ℕ)
    (key : String) (h : History) : Prop :=
  ∃ v, key = buildListCacheKey cacheNamespaces.ordersList v (request.listCacheQuery user) ∧
    Reached A w v h

/-- What the read phase of the list handler finds. -/
private def ListRead (ctx : ApiContext) (A : Assumptions) (request : ListOrdersQuery)
    (user : Uuid) (w : ℕ) : CacheRead Json → History → Prop
  | .served body, h => PageOf ctx A h w request user body
  | .missed key, h => PageKey A request user w key h
  | .failed, h => Reached A w w h

private theorem ListRead.lasting {request : ListOrdersQuery} {user : Uuid} {w : ℕ}
    {found : CacheRead Json} : Lasting (ListRead ctx A request user w found) := by
  intro h h' g known
  cases found with
  | served body => exact PageOf.later g known
  | missed key =>
      obtain ⟨v, same, version⟩ := known
      exact ⟨v, same, version.lasting g⟩
  | failed => exact Reached.lasting g known

private theorem holds_readList {request : ListOrdersQuery} {user : Uuid} {w : ℕ}
    (idle : Idle t (Reached A w w) s) (here : (contract ctx A base t).rely s s) :
    (contract ctx A base t).Holds
      (fun found => Idle t (ListRead ctx A request user w found)) (fun _ _ => False)
      (readList ⟨cacheNamespaces.ordersList, request.listCacheQuery user, header, none⟩) s := by
  refine Contract.Holds.recover _ (Contract.Holds.chain (Contract.Holds.of_quiet
    (((holds_cacheGetNamespaceVersion fun answered => (idle.2 answered).2).frame
      fun s' step => idle.later Reached.lasting (rely_of step)).mono (fun _ _ h => h)
        fun _ _ error => error.2)) here ?_)
  rintro v s₁ ⟨version, idle₁⟩ here₁
  refine Contract.Holds.chain (Q := fun (cached : Option String) =>
    Idle t fun h => Reached A w v h ∧ ∀ value, cached = some value →
      ∃ body : Json, value = body.stringify ∧ PageOf ctx A h v request user body)
    (Contract.Holds.of_quiet (holds_get ?_ fun s' step _ =>
      idle₁.later Reached.lasting (rely_of step))) here₁ ?_
  · intro s' s'' interrupted later
    refine ⟨(idle₁.1.later (rely_of interrupted)).later (rely_of later),
      version.lasting ((rely_of interrupted).grows.trans (rely_of later).grows), ?_⟩
    intro value cached
    obtain ⟨entry, stored, rfl⟩ := Option.map_eq_some_iff.mp cached
    obtain ⟨body, text, page⟩ := ((inv_of interrupted).stored _ entry stored).page_inv
    exact ⟨body, text, page.later (rely_of later).grows⟩
  · rintro cached s₂ ⟨session, version₂, found⟩ here₂
    cases cached with
    | none => exact fun s₃ later =>
        ⟨session.later (rely_of later), v, rfl, version₂.lasting (rely_of later).grows⟩
    | some value =>
        obtain ⟨body, rfl, page⟩ := found value rfl
        have idle₂ : Idle t (fun h => PageOf ctx A h w request user body) s₂ :=
          ⟨session, page.mono fun answered => (version₂ answered).1⟩
        refine Contract.Holds.chain ((holds_reply PageOf.lasting idle₂).mono (fun _ _ h => h)
          fun _ _ impossible => impossible.elim) here₂ fun _ s₃ idle₃ _ => ?_
        simp only [jsonParse, Json.parse_stringify]
        exact fun s₄ later => idle₃.later PageOf.lasting (rely_of later)

/-- What a list request answers. -/
def ListAnswer (ctx : ApiContext) (A : Assumptions) (request : ListOrdersQuery) (user : Uuid)
    (w : ℕ) (response : HttpResponse) (h : History) : Prop :=
  ∃ body, response = ⟨200, some body⟩ ∧ PageOf ctx A h w request user body

/-- **A list request** answers a page that is recent enough for every version that had been
reached when it began. -/
theorem holds_listOrders {request : ListOrdersQuery} {user : Uuid} {w : ℕ}
    (idle : Idle t (Reached A w w) s) (here : (contract ctx A base t).rely s s) :
    (contract ctx A base t).Holds
      (fun response => Idle t (ListAnswer ctx A request user w response)) (fun _ => Clean t 0)
      (listOrders ctx user request) s := by
  have fetch : ∀ {v s'}, Idle t (Reached A v v) s' → (contract ctx A base t).rely s' s' →
      (contract ctx A base t).Holds (fun body => Idle t fun h => PageOf ctx A h v request user body)
        (fun _ => Clean t 0) (fetchOrdersPage ctx request user) s' := fun idle' here' =>
    Contract.Holds.of_quiet (((holds_fetchOrdersPage idle' here').frame fun s'' step =>
      idle'.1.later (rely_of step)).mono (fun _ _ h => ⟨h.2, h.1⟩) fun _ _ error => error.1)
  refine Contract.Holds.map (fun body => (⟨200, some body⟩ : HttpResponse))
    (Contract.Holds.mono (Q := fun body => Idle t fun h => PageOf ctx A h w request user body)
      ?_ (fun body _ known => ⟨known.1, body, rfl, known.2⟩) fun _ _ error => error)
  unfold withListCache
  split
  · refine Contract.Holds.chain ((holds_readList idle here).mono (fun _ _ h => h)
      fun _ _ impossible => impossible.elim) here ?_
    rintro found s₁ known here₁
    cases found with
    | served body => exact fun s₂ later => Idle.later PageOf.lasting known (rely_of later)
    | failed => exact fetch known here₁
    | missed key =>
        obtain ⟨session, v, rfl, version⟩ := known
        refine Contract.Holds.chain (fetch ⟨session, fun answered =>
          ⟨Nat.le_refl v, (version answered).2⟩⟩ here₁) here₁ fun body s₂ idle₂ here₂ => ?_
        refine Contract.Holds.map (fun _ => body) ((holds_writeBack PageOf.lasting idle₂ here₂
          fun s₃ _ idle₃ _ => ⟨fun same => ?_, .page v request user body idle₃.2⟩).mono
            (fun _ s₃ idle₃ => ⟨idle₃.1, idle₃.2.mono fun answered => (version answered).1⟩)
              fun _ _ impossible => impossible.elim)
        simpa [familyOf_listKey] using congrArg familyOf same
  · exact fetch idle here

/-! ### `GET /v1/orders/:id` -/

/-- The row of an order, read at some committed state; in a coherent cache, after the commits of
all requests that had deleted the entry of the order at `base`. -/
def OrderOf (A : Assumptions) (base : State) (id : String) (row : OrderRow) (h : History) : Prop :=
  ∃ i, RowAt h id i row ∧ (A.answered = true → A.coherent = true →
    ∀ d ∈ base.history.deleted, d.2 = orderEntityKey id → d ∈ h.deleted ∧ h.Covers i d.1)

theorem OrderOf.lasting {id : String} {row : OrderRow} : Lasting (OrderOf A base id row) := by
  rintro h h' g ⟨i, rowAt, fresh⟩
  refine ⟨i, rowAt.later g, fun answered coherent d mem same => ?_⟩
  obtain ⟨deleted, covers⟩ := fresh answered coherent d mem same
  exact ⟨g.deleted.subset deleted, g.covers_of rowAt.le (.inr ⟨id, same ▸ deleted⟩) covers⟩

/-- The body that stands for an order. -/
def BodyOf (A : Assumptions) (base : State) (id : String) (body : Json) (h : History) : Prop :=
  ∃ row, body = orderBody (some row) ∧ OrderOf A base id row h

theorem BodyOf.lasting {id : String} {body : Json} : Lasting (BodyOf A base id body) := by
  rintro h h' g ⟨row, same, order⟩
  exact ⟨row, same, order.lasting g⟩

/-- What the fetcher finds: nothing, or the order with what is needed to write it back. -/
private def Fetched (t : Tid) (base : State) (id : String) (found : Option Json) (s : State) :
    Prop :=
  Session t 0 none s ∧ ∀ body, found = some body → ∃ row, body = orderBody (some row) ∧
    RowAt s.history id (s.history.readAt t) row ∧
      ∀ d ∈ base.history.deleted, d.2 = orderEntityKey id →
        d ∈ s.history.deleted ∧ s.history.Covers (s.history.readAt t) d.1

private theorem Fetched.later {id : String} {found : Option Json} (known : Fetched t base id found s)
    (step : Rely t s s') : Fetched t base id found s' := by
  refine ⟨known.1.later step, fun body same => ?_⟩
  obtain ⟨row, body, rowAt, fresh⟩ := known.2 body same
  rw [step.readAt]
  refine ⟨row, body, rowAt.later step.grows, fun d mem key => ?_⟩
  obtain ⟨deleted, covers⟩ := fresh d mem key
  exact ⟨step.grows.deleted.subset deleted,
    step.grows.covers_of rowAt.le (.inr ⟨id, key ▸ deleted⟩) covers⟩

/-- A fetched body may be answered. -/
private theorem Fetched.bodyOf {id : String} {body : Json}
    (known : Fetched t base id (some body) s) : BodyOf A base id body s.history := by
  obtain ⟨row, same, rowAt, fresh⟩ := known.2 body rfl
  exact ⟨row, same, _, rowAt, fun _ _ => fresh⟩

/-- A fetched body may be written back. -/
private theorem Fetched.entryOk {id : String} {body : Json} {seconds : ℕ}
    (known : Fetched t base id (some body) s)
    (coherent : A.coherent = true →
      Coherent t s.history (.set (orderEntityKey id) body.stringify seconds)) :
    EntryOk ctx A s.history (orderEntityKey id) body.stringify := by
  obtain ⟨row, rfl, rowAt, _⟩ := known.2 body rfl
  refine .entity id _ row rowAt fun _ on d mem same c later own => ?_
  refine coherent on (familyOf_entityKey id) c later ?_
  rwa [own, ← same]

private theorem holds_fetchOrder {id : String} (session : Session t 0 none s) :
    (contract ctx A base t).Holds (Fetched t base id) (fun _ => Clean t 0) (fetchOrder id) s := by
  refine Contract.Holds.map (fun (row : Option OrderRow) => row.map fun row => orderBody (some row))
    ((holds_selectOrder session).mono ?_ fun _ _ error => error)
  rintro row s' ⟨session', found⟩
  refine ⟨session', fun body same => ?_⟩
  obtain ⟨row, rfl, rfl⟩ := Option.map_eq_some_iff.mp same
  exact ⟨row, rfl, found row rfl⟩

/-- What the read phase of the entity cache finds. -/
private def EntityRead (A : Assumptions) (base : State) (id : String) :
    CacheRead Json → History → Prop
  | .served body, h => BodyOf A base id body h
  | .missed key, _ => key = orderEntityKey id
  | .failed, _ => True

private theorem holds_readEntity {id : String} (session : Session t 0 none s)
    (here : (contract ctx A base t).rely s s) :
    (contract ctx A base t).Holds (fun found => Idle t (EntityRead A base id found))
      (fun _ _ => False) (readEntity ⟨orderEntityKey id, header, none⟩) s := by
  refine Contract.Holds.recover _ (Contract.Holds.chain (Q := fun (cached : Option String) =>
    Idle t fun h => ∀ value, cached = some value →
      ∃ body : Json, value = body.stringify ∧ BodyOf A base id body h)
    (Contract.Holds.of_quiet (holds_get ?_ fun s' step _ =>
      ⟨session.later (rely_of step), rfl⟩)) here ?_)
  · intro s' s'' interrupted later
    refine ⟨(session.later (rely_of interrupted)).later (rely_of later), fun value cached => ?_⟩
    obtain ⟨entry, stored, rfl⟩ := Option.map_eq_some_iff.mp cached
    obtain ⟨i, row, text, rowAt, fresh⟩ := ((inv_of interrupted).stored _ entry stored).entity_inv
    refine ⟨_, text, BodyOf.lasting (rely_of later).grows ⟨row, rfl, i, rowAt, ?_⟩⟩
    intro answered coherent d mem same
    have deleted := (since_of interrupted).deleted.subset mem
    exact ⟨deleted, fresh answered coherent d deleted same⟩
  · rintro cached s₁ ⟨session₁, found⟩ here₁
    cases cached with
    | none => exact fun s₂ later => ⟨session₁.later (rely_of later), rfl⟩
    | some value =>
        obtain ⟨body, rfl, bodyOf⟩ := found value rfl
        have idle₁ : Idle t (BodyOf A base id body) s₁ := ⟨session₁, bodyOf⟩
        refine Contract.Holds.chain ((holds_reply BodyOf.lasting idle₁).mono (fun _ _ h => h)
          fun _ _ impossible => impossible.elim) here₁ fun _ s₂ idle₂ _ => ?_
        simp only [jsonParse, Json.parse_stringify]
        exact fun s₃ later => idle₂.later BodyOf.lasting (rely_of later)

/-- What the cache wrapper hands to the ownership check. -/
private def Found (A : Assumptions) (base : State) (id : String) (found : Option Json)
    (h : History) : Prop := ∀ body, found = some body → BodyOf A base id body h

private theorem Found.lasting {id : String} {found : Option Json} :
    Lasting (Found A base id found) := fun g known body same => (known body same).lasting g

private theorem holds_withEntityCache {id : String} (session : Session t 0 none s)
    (here : (contract ctx A base t).rely s s) :
    (contract ctx A base t).Holds (fun found => Idle t (Found A base id found)) (fun _ => Clean t 0)
      (withEntityCache ctx ⟨orderEntityKey id, header, none⟩ (fetchOrder id)) s := by
  have found_of : ∀ {found : Option Json} {s'}, Fetched t base id found s' →
      Idle t (Found A base id found) s' := by
    rintro found s' known
    refine ⟨known.1, ?_⟩
    rintro body rfl
    exact known.bodyOf
  unfold withEntityCache
  split
  · refine Contract.Holds.chain ((holds_readEntity session here).mono (fun _ _ h => h)
      fun _ _ impossible => impossible.elim) here ?_
    -- a miss and a failing cache end in the same fetch; only the write-back differs
    have fetch : ∀ {writeBack : Option Json → Route (Option Json)} {s₁},
        writeBack none = .done none →
        (∀ result, writeBack (some result) =
          (((cacheSet (orderEntityKey id) result.stringify
              ((none : Option ℕ).getD ctx.config.cacheTtlSeconds)).bind fun _ =>
            header .miss).attempt fun _ => .done ()).bind fun _ => .done (some result)) →
        Session t 0 none s₁ → (contract ctx A base t).rely s₁ s₁ →
        (contract ctx A base t).Holds (fun found => Idle t (Found A base id found))
          (fun _ => Clean t 0) ((fetchOrder id).bind writeBack) s₁ := by
      intro writeBack s₁ absent present session₁ here₁
      refine Contract.Holds.chain (holds_fetchOrder session₁) here₁ fun found s₂ known here₂ => ?_
      cases found with
      | none =>
          rw [absent]
          exact fun s₃ later => found_of (known.later (rely_of later))
      | some body =>
          rw [present]
          refine Contract.Holds.map (fun _ => some body) ((holds_writeBack Found.lasting
            (found_of known) here₂ fun s₃ later _ coherent => ⟨fun same => ?_,
              (known.later (rely_of later)).entryOk coherent⟩).mono (fun _ _ h => h)
                fun _ _ impossible => impossible.elim)
          simpa using congrArg familyOf same
    rintro found s₁ known here₁
    cases found with
    | served body =>
        obtain ⟨session₁, row, rfl, order⟩ := known
        refine fun s₂ later => ⟨session₁.later (rely_of later), ?_⟩
        rintro body ⟨⟩
        exact ⟨row, rfl, order.lasting (rely_of later).grows⟩
    | missed key => exact fetch rfl (fun _ => rfl) known.1 here₁
    | failed => exact fetch rfl (fun _ => rfl) known.1 here₁
  · exact (holds_fetchOrder session).mono (fun _ _ known => found_of known) fun _ _ error => error

/-- What a request for one order answers: the order, if it is the user's own. -/
def OrderAnswer (A : Assumptions) (base : State) (user : Uuid) (id : String)
    (response : HttpResponse) (h : History) : Prop :=
  response = orderNotFound ∨ ∃ row, OrderOf A base id row h ∧ row.userId = user ∧
    response = ⟨200, some (orderBody (some row))⟩

theorem OrderAnswer.lasting {user : Uuid} {id : String} {response : HttpResponse} :
    Lasting (OrderAnswer A base user id response) := by
  rintro h h' g (notFound | ⟨row, order, own, same⟩)
  · exact .inl notFound
  · exact .inr ⟨row, order.lasting g, own, same⟩

@[simp] theorem orderBody_order (row : OrderRow) :
    (orderBody (some row)).get? "order" = some row.toJson := by
  simp [orderBody, Json.object, Text.Fields.ofList, Json.get?, Text.Fields.get?]

@[simp] theorem toJson_userId (row : OrderRow) :
    row.toJson.get? "user_id" = some (.str row.userId.text) := by
  simp [OrderRow.toJson, Json.object, Text.Fields.ofList, Json.get?, Text.Fields.get?]

/-- The ownership check lets an order through to its user only. -/
theorem checkOwner_orderBody (user : Uuid) (row : OrderRow) :
    checkOwner user (some (orderBody (some row))) =
      if row.userId = user then .done ⟨200, some (orderBody (some row))⟩
      else .done orderNotFound := by
  have object : isFalsy (orderBody (some row)) = false := rfl
  obtain ⟨fields, order⟩ : ∃ fields, row.toJson = .obj fields := ⟨_, rfl⟩
  have owner : (row.toJson.get? "user_id" = some (.str user.text)) ↔ row.userId = user := by
    rw [toJson_userId, Option.some_inj, Json.str.injEq]
    exact Uuid.injective_text.eq_iff
  rw [order] at owner
  simp only [checkOwner, object, orderBody_order, order, owner, Bool.false_eq_true, if_false]

/-- How a `GET` goes that hits the cache. -/
theorem getOrder_hit (enabled : ctx.config.cacheEnabled = true) (user : Uuid)
    (id : String) :
    ∃ k, getOrder ctx user id = .await (.redis (.get (orderEntityKey id))) k ∧
      ∀ row, k (some (some (orderBody (some row)).stringify)) =
        .await (.work (.header .hit)) fun _ => checkOwner user (some (orderBody (some row))) := by
  unfold getOrder withEntityCache
  rw [if_pos enabled]
  refine ⟨_, rfl, fun row => congrArg (Async.Program.await _) (funext fun _ => ?_)⟩
  simp only [jsonParse, Json.parse_stringify]
  rfl

/-- **A request for one order.** -/
theorem holds_getOrder {user : Uuid} {id : String} (session : Session t 0 none s)
    (here : (contract ctx A base t).rely s s) :
    (contract ctx A base t).Holds (fun response => Idle t (OrderAnswer A base user id response))
      (fun _ => Clean t 0) (getOrder ctx user id) s := by
  refine Contract.Holds.chain (holds_withEntityCache session here) here ?_
  rintro found s₁ ⟨session₁, known⟩ here₁
  cases found with
  | none => exact fun s₂ later => ⟨session₁.later (rely_of later), .inl rfl⟩
  | some body =>
      obtain ⟨row, rfl, order⟩ := known body rfl
      rw [checkOwner_orderBody]
      split
      · rename_i own
        exact fun s₂ later => ⟨session₁.later (rely_of later),
          .inr ⟨row, order.lasting (rely_of later).grows, own, rfl⟩⟩
      · exact fun s₂ later => ⟨session₁.later (rely_of later), .inl rfl⟩

end OrderRoutes

end OrderPlatform
