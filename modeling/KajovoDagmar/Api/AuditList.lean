import KajovoDagmar.Audit.Transactions
import KajovoDagmar.Library.Keyset
import KajovoDagmar.Library.SqlText

/-! # The list of audit events

`audit_list` answers with a page of the events that pass its filters, newest first, and with the identifier below
which the next page begins.  Events are only appended, under larger identifiers, so whoever follows these
identifiers to the end has seen every event that passed the filters at the first request, once
(`audit_list_complete`). -/

namespace KajovoDagmar.Operations

/-- The filters of the request; a text that is empty does not filter. -/
structure AuditFilters where
  fromTime : Option DateTime := none
  toTime : Option DateTime := none
  area : Option String := none
  result : Option String := none
  actorType : Option String := none
  targetType : Option String := none
  correlationId : Option String := none
  eventName : Option String := none

namespace AuditFilters

/-- The lengths that the request is checked for. -/
def valid (f : AuditFilters) : Bool :=
  f.area.all (·.length ≤ 64) && f.result.all (·.length ≤ 32) && f.actorType.all (·.length ≤ 40) &&
    f.targetType.all (·.length ≤ 64) && f.correlationId.all (·.length ≤ 64) && f.eventName.all (·.length ≤ 100)

/-- A condition that is appended only `if value`. -/
def asked (value : Option String) (condition : String → Bool) : Bool :=
  value.all fun text => text.isEmpty || condition text

def accepts (f : AuditFilters) (e : AuditEvent) : Bool :=
  f.fromTime.all (·.le e.occurredAt) && f.toTime.all (e.occurredAt.le ·) &&
    asked f.area (fun area => SqlText.like e.eventType (area ++ "." ++ "%")) &&
    asked f.result (fun result => e.result = result) &&
    asked f.actorType (fun actorType => e.actorType = actorType) &&
    asked f.targetType (fun targetType => e.targetType = some targetType) &&
    asked f.correlationId (fun correlationId => e.correlationId = some correlationId) &&
    asked f.eventName (fun eventName => e.eventType = eventName)

theorem asked_iff {value : Option String} {condition : String → Bool} :
    asked value condition = true ↔ ∀ text ∈ value, text ≠ "" → condition text = true := by
  cases value with
  | none => simp [asked]
  | some text => simp [asked, or_iff_not_imp_left]

/-- An area is the beginning of an event type, up to a dot. -/
theorem like_area {area : String} (h : SqlText.Plain area) (eventType : String) :
    SqlText.like eventType (area ++ "." ++ "%") = true ↔ area.toList ++ ['.'] <+: eventType.toList := by
  have hpattern : (area ++ "." ++ "%").toList = (area.toList ++ ['.']) ++ ['%'] := by
    rw [String.toList_append, String.toList_append]
    rfl
  rw [SqlText.like, hpattern, SqlText.accepts_parse_iff]
  intro c hc
  rcases List.mem_append.mp hc with hc | hc
  · exact h c hc
  · rw [List.mem_singleton.mp hc]
    decide

/-- **An event is accepted** if it has what the fields that are given ask for. -/
theorem accepts_iff {f : AuditFilters} {e : AuditEvent} (harea : ∀ area ∈ f.area, SqlText.Plain area) :
    f.accepts e = true ↔ (∀ t ∈ f.fromTime, t.le e.occurredAt = true) ∧ (∀ t ∈ f.toTime, e.occurredAt.le t = true) ∧
      (∀ area ∈ f.area, area ≠ "" → area.toList ++ ['.'] <+: e.eventType.toList) ∧
      (∀ result ∈ f.result, result ≠ "" → e.result = result) ∧
      (∀ actorType ∈ f.actorType, actorType ≠ "" → e.actorType = actorType) ∧
      (∀ targetType ∈ f.targetType, targetType ≠ "" → e.targetType = some targetType) ∧
      (∀ correlationId ∈ f.correlationId, correlationId ≠ "" → e.correlationId = some correlationId) ∧
      ∀ eventName ∈ f.eventName, eventName ≠ "" → e.eventType = eventName := by
  have hlike : (∀ area ∈ f.area, area ≠ "" → SqlText.like e.eventType (area ++ "." ++ "%") = true) ↔
      ∀ area ∈ f.area, area ≠ "" → area.toList ++ ['.'] <+: e.eventType.toList :=
    forall₂_congr fun area hmem => by rw [like_area (harea area hmem)]
  unfold accepts
  simp only [Bool.and_eq_true, asked_iff, Option.all_eq_true, decide_eq_true_eq, and_assoc]
  rw [hlike]
  exact Iff.rfl

end AuditFilters

variable (rt : Runtime)

def auditView (row : AuditEvent) : Json := .obj
  [("id", .int row.id),
   ("occurred_at", .str (rt.isoformat row.occurredAt)),
   ("area", .str (String.ofList (row.eventType.toList.takeWhile fun c => c ≠ '.'))),
   ("event_name", .str row.eventType),
   ("actor_type", .str row.actorType),
   ("actor_id", .ofStr? (row.actorId.map rt.strUuid)),
   ("target_type", .ofStr? row.targetType),
   ("target_id", .ofStr? (row.targetId.map rt.strUuid)),
   ("result", .str row.result),
   ("correlation_id", .ofStr? row.correlationId),
   ("details", row.details),
   ("event_hash", .str row.eventHash)]

/-- `audit_list` over the committed events, with `next_before_id` beside the items; a request that is not valid
is refused. -/
def auditList (filters : AuditFilters) (limit : ℕ) (beforeId : Option ℕ) (events : List AuditEvent) :
    Option (Keyset.Page Json) :=
  if filters.valid ∧ 1 ≤ limit ∧ limit ≤ 100 ∧ beforeId.all (1 ≤ ·) then
    let found := events.filter fun e => beforeId.all (e.id < ·) && filters.accepts e
    let rows := (found.insertionSort fun a b => b.id ≤ a.id).take (limit + 1)
    let items := rows.take limit
    some ⟨items.map (auditView rt), if limit < rows.length then items.getLast?.map AuditEvent.id else none⟩
  else none

/-- The requests of a walk, each over the events that are committed when it is answered. -/
def pages (filters : AuditFilters) (limit : ℕ) (states : ℕ → AuditTransactions.State) (k : ℕ)
    (beforeId : Option ℕ) : Option (Keyset.Page Json) :=
  auditList rt filters limit beforeId (states k).committed

variable {rt} {filters : AuditFilters} {limit : ℕ}

theorem auditList_of_valid (hfilters : filters.valid = true) (hlimit : 1 ≤ limit ∧ limit ≤ 100)
    {beforeId : Option ℕ} (hbefore : ∀ b ∈ beforeId, 1 ≤ b) (events : List AuditEvent) :
    auditList rt filters limit beforeId events = some ((Keyset.Page.of AuditEvent.id limit
      ((Keyset.listing AuditEvent.id filters.accepts beforeId events).take (limit + 1))).map (auditView rt)) := by
  have hall : beforeId.all (1 ≤ ·) = true := by
    cases beforeId with
    | none => rfl
    | some b => exact decide_eq_true (hbefore b rfl)
  rw [auditList, if_pos ⟨hfilters, hlimit.1, hlimit.2, hall⟩]
  rfl

/-- Committed events are in the order of their identifiers. -/
theorem committed_ordered {s : AuditTransactions.State} {es : List (AppendLog.Event AuditTransactions.Append)}
    (hr : Runs.run (AuditTransactions.step rt) {} es = some s) : s.committed.Pairwise fun a b => a.id < b.id :=
  (@AppendLog.good_of_run _ _ (AuditTransactions.log rt) (fun _ => True) (fun _ _ _ => trivial)
    (fun _ _ _ _ => trivial) trivial _ _ hr).2.1

/-- **Following `next_before_id` lists every event that passed the filters at the first request**, once and newest
first, and comes to an end, whatever is appended between the requests. -/
theorem audit_list_complete (rt : Runtime) {filters : AuditFilters} {limit : ℕ} (hfilters : filters.valid = true)
    (hlimit : 1 ≤ limit ∧ limit ≤ 100) {states : ℕ → AuditTransactions.State}
    (hfirst : ∃ es, Runs.run (AuditTransactions.step rt) {} es = some (states 0))
    (hbetween : ∀ k, ∃ es, Runs.run (AuditTransactions.step rt) (states k) es = some (states (k + 1))) :
    ∃ events : List AuditEvent, (∀ e, e ∈ events ↔ e ∈ (states 0).committed ∧ filters.accepts e = true) ∧
      (events.Pairwise fun a b => b.id < a.id) ∧
      ∀ items, Keyset.Walk (pages rt filters limit states) 0 none items ↔ items = events.map (auditView rt) := by
  have hreached : ∀ k, ∃ es, Runs.run (AuditTransactions.step rt) {} es = some (states k) := by
    intro k
    induction k with
    | zero => exact hfirst
    | succ k ih =>
        obtain ⟨es, hes⟩ := ih
        obtain ⟨es', hes'⟩ := hbetween k
        exact ⟨es ++ es', Runs.run_append_eq_some.mpr ⟨_, hes, hes'⟩⟩
  have hsorted : ∀ k, (states k).committed.Pairwise fun a b => a.id < b.id := by
    intro k
    obtain ⟨es, hes⟩ := hreached k
    exact committed_ordered hes
  have hgrow : ∀ k, ∃ more, (states (k + 1)).committed = (states k).committed ++ more := by
    intro k
    obtain ⟨es, hes⟩ := hbetween k
    exact AppendLog.grows_of_run hes
  refine ⟨Keyset.listing AuditEvent.id filters.accepts none (states 0).committed, fun e => ?_,
    Keyset.listing_pairwise (hsorted 0) _ _, fun items => ?_⟩
  · rw [Keyset.mem_listing]
    exact and_congr_right fun _ => and_iff_right rfl
  · exact Keyset.walk_from hsorted hgrow hlimit.1
      (fun k before hbefore => auditList_of_valid hfilters hlimit hbefore _) 0 none (by simp) items

/-- One more event, which is appended after the first request. -/
def lateEvent : List (AppendLog.Event AuditTransactions.Append) :=
  [.begin 3, .act 3 (.lock (.service (.utc 1767225602000000) { actorType := "administrator" } "memory.created"
    "success" none (some 4) [])), .act 3 .read, .act 3 .insert, .commit 3]

/-- Two events in pages of one, and a third one that comes too late. -/
theorem audit_list_complete_lateEvent : ∃ s s' : AuditTransactions.State,
    s.committed.map AuditEvent.id = [2, 3] ∧ s'.committed.map AuditEvent.id = [2, 3, 4] ∧
      ∃ events : List AuditEvent,
        (∀ e, e ∈ events ↔ e ∈ s.committed ∧ ({} : AuditFilters).accepts e = true) ∧
        (events.Pairwise fun a b => b.id < a.id) ∧
        ∀ items, Keyset.Walk (pages (.sample 0 []) {} 1 fun k => if k = 0 then s else s') 0 none items ↔
          items = events.map (auditView (.sample 0 [])) := by
  have hrun : ((Runs.run (AuditTransactions.step (.sample 0 [])) {} AuditTransactions.failedHandler).any fun s =>
      decide (s.committed.map AuditEvent.id = [2, 3]) &&
        (Runs.run (AuditTransactions.step (.sample 0 [])) s lateEvent).any fun s' =>
          decide (s'.committed.map AuditEvent.id = [2, 3, 4])) = true := by decide +kernel
  obtain ⟨s, hs, hrest⟩ := (Option.any_eq_true _ _).mp hrun
  obtain ⟨hids, hlater⟩ := (Bool.and_eq_true _ _).mp hrest
  obtain ⟨s', hs', hids'⟩ := (Option.any_eq_true _ _).mp hlater
  refine ⟨s, s', of_decide_eq_true hids, of_decide_eq_true hids', ?_⟩
  have hbetween : ∀ k : ℕ, ∃ es, Runs.run (AuditTransactions.step (.sample 0 [])) (if k = 0 then s else s') es =
      some (if k + 1 = 0 then s else s') := by
    intro k
    cases k with
    | zero => exact ⟨lateEvent, hs'⟩
    | succ k => exact ⟨[], rfl⟩
  exact audit_list_complete (.sample 0 []) (by decide : ({} : AuditFilters).valid = true) (by decide) ⟨_, hs⟩ hbetween

end KajovoDagmar.Operations
