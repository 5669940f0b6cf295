import KajovoDagmar.Audit.Service
import KajovoDagmar.Library.HashChain
import KajovoDagmar.Library.JsonText
import KajovoDagmar.Db.Sample

/-! # Verifying the audit chain

`verify_chain` recomputes the hash of every event from its fields and the hash before it.  It
is the check of a hash chain, so the last hash commits to every hashed field of every event,
and a change under the stored hashes is reported with the first event that it concerns. -/

namespace KajovoDagmar

namespace AuditEvent

/-- The part of an event that `append` takes from its context. -/
def context (e : AuditEvent) : AuditContext :=
  { actorType := e.actorType, actorId := e.actorId, sessionId := e.sessionId
    networkContext := e.networkContext, correlationId := e.correlationId }

/-- The canonical form of an event that follows the given hash. -/
def canonical (rt : Runtime) (e : AuditEvent) (previousHash : Option String) : String :=
  AuditService.canonical rt e.occurredAt e.context e.eventType e.result e.targetType e.targetId
    e.details previousHash

/-- The canonical form of an event that follows the hash it stores. -/
def text (rt : Runtime) (e : AuditEvent) : String := e.canonical rt e.previousHash

/-- The identifiers in an event. -/
def ids (e : AuditEvent) : List Uuid :=
  e.actorId.toList ++ e.sessionId.toList ++ e.targetId.toList

/-- The events agree in every hashed field but the previous hash.  Details are dictionaries, in
which the order of the keys does not count. -/
structure SameContents (e e' : AuditEvent) : Prop where
  occurredAt : e.occurredAt = e'.occurredAt
  actorType : e.actorType = e'.actorType
  actorId : e.actorId = e'.actorId
  sessionId : e.sessionId = e'.sessionId
  eventType : e.eventType = e'.eventType
  targetType : e.targetType = e'.targetType
  targetId : e.targetId = e'.targetId
  result : e.result = e'.result
  networkContext : e.networkContext = e'.networkContext
  correlationId : e.correlationId = e'.correlationId
  details : Json.Same e.details e'.details

/-- The events agree in every hashed field. -/
def Agrees (e e' : AuditEvent) : Prop := e.SameContents e' ∧ e.previousHash = e'.previousHash

end AuditEvent

namespace AuditService

variable (rt : Runtime)

/-- `verify_chain` on the events that follow an event with the given hash. -/
def verifyFrom : Option String → List AuditEvent → Bool × Option ℕ
  | _, [] => (true, none)
  | previousHash, event :: events =>
    let expected := rt.sha256 (event.canonical rt previousHash)
    if event.previousHash ≠ previousHash ∨ event.eventHash ≠ expected then (false, some event.id)
    else verifyFrom (some event.eventHash) events

def verifyChain (events : List AuditEvent) : Bool × Option ℕ := verifyFrom rt none events

/-- The chain of the audit events. -/
def chain : HashChain.Scheme AuditEvent String where
  previous := AuditEvent.previousHash
  hash := AuditEvent.eventHash
  compute e previousHash := rt.sha256 (e.canonical rt previousHash)

variable {rt}

theorem verifyFrom_eq (p : Option String) (events : List AuditEvent) :
    verifyFrom rt p events = ((chain rt).firstBad p events).elim (true, none)
      fun e => (false, some e.id) := by
  induction events generalizing p with
  | nil => rfl
  | cons e events ih =>
      rw [verifyFrom, HashChain.Scheme.firstBad]
      split
      · next hbad =>
        have hbad' : (chain rt).previous e ≠ p ∨ (chain rt).hash e ≠ (chain rt).compute e p := hbad
        rw [if_pos hbad']
        rfl
      · next hgood =>
        have hgood' : ¬((chain rt).previous e ≠ p ∨ (chain rt).hash e ≠ (chain rt).compute e p) := hgood
        rw [if_neg hgood', ih]
        rfl

theorem verifyFrom_eq_true {p : Option String} {events : List AuditEvent} :
    verifyFrom rt p events = (true, none) ↔ (chain rt).Valid p events := by
  rw [verifyFrom_eq, ← HashChain.Scheme.firstBad_eq_none]
  cases (chain rt).firstBad p events with
  | none => simp
  | some e => simp

/-! ### The canonical form -/

/-- The texts of the times and identifiers of the events tell them apart, and the floats in
their details are those that Python prints. -/
structure Readable (rt : Runtime) (events : List AuditEvent) : Prop where
  times : ∀ e ∈ events, ∀ e' ∈ events,
    rt.isoformat e.occurredAt = rt.isoformat e'.occurredAt → e.occurredAt = e'.occurredAt
  ids : ∀ e ∈ events, ∀ e' ∈ events, ∀ u ∈ e.ids, ∀ v ∈ e'.ids, rt.strUuid u = rt.strUuid v → u = v
  details : ∀ e ∈ events, e.details.Printed

/-- No two canonical forms of the events have the same hash. -/
def CollisionFree (rt : Runtime) (events : List AuditEvent) : Prop :=
  ∀ e ∈ events, ∀ e' ∈ events, rt.sha256 (e.text rt) = rt.sha256 (e'.text rt) → e.text rt = e'.text rt

theorem ofStr?_same {o o' : Option String} (h : Json.Same (.ofStr? o) (.ofStr? o')) : o = o' := by
  cases o with
  | none =>
      cases o' with
      | none => rfl
      | some s' => simp [Json.Same, Json.ofStr?, Json.ofOption, Json.sortKeys] at h
  | some s =>
      cases o' with
      | none => simp [Json.Same, Json.ofStr?, Json.ofOption, Json.sortKeys] at h
      | some s' => simpa [Json.Same, Json.ofStr?, Json.ofOption, Json.sortKeys] using h

theorem str_same {s s' : String} (h : Json.Same (.str s) (.str s')) : s = s' := by
  simpa [Json.Same, Json.sortKeys] using h

/-- Optional identifiers with the same text are the same. -/
theorem strUuid_same {o o' : Option Uuid} (hids : ∀ u ∈ o, ∀ v ∈ o', rt.strUuid u = rt.strUuid v → u = v)
    (h : Json.Same (.ofStr? (o.map rt.strUuid)) (.ofStr? (o'.map rt.strUuid))) : o = o' := by
  have htexts := ofStr?_same h
  cases o with
  | none =>
      cases o' with
      | none => rfl
      | some v => simp at htexts
  | some u =>
      cases o' with
      | none => simp at htexts
      | some v => rw [hids u rfl v rfl (Option.some.inj htexts)]

/-- The canonical object of an event. -/
def fields (rt : Runtime) (e : AuditEvent) : List (String × Json) :=
  [("occurred_at", .str (rt.isoformat e.occurredAt)),
   ("actor_type", .str e.actorType),
   ("actor_id", .ofStr? (e.actorId.map rt.strUuid)),
   ("session_id", .ofStr? (e.sessionId.map rt.strUuid)),
   ("event_type", .str e.eventType),
   ("target_type", .ofStr? e.targetType),
   ("target_id", .ofStr? (e.targetId.map rt.strUuid)),
   ("result", .str e.result),
   ("network_context", .ofStr? e.networkContext),
   ("correlation_id", .ofStr? e.correlationId),
   ("details", e.details),
   ("previous_hash", .ofStr? e.previousHash)]

theorem text_eq (e : AuditEvent) : e.text rt = Json.dumpsSorted (.obj (fields rt e)) := rfl

theorem fields_printed {e : AuditEvent} (h : e.details.Printed) : (Json.obj (fields rt e)).Printed := by
  refine Json.printedEntries_iff.mpr fun kv hkv => ?_
  simp only [fields, List.mem_cons, List.not_mem_nil, or_false] at hkv
  rcases hkv with rfl | rfl | rfl | rfl | rfl | rfl | rfl | rfl | rfl | rfl | rfl | rfl <;>
    first | exact h | exact Json.printed_str _ | exact Json.printed_ofStr? _

/-- **The canonical form tells the hashed fields.** -/
theorem agrees_of_text {events : List AuditEvent} (hread : Readable rt events) {e e' : AuditEvent}
    (he : e ∈ events) (he' : e' ∈ events) (h : e.text rt = e'.text rt) : e.Agrees e' := by
  rw [text_eq, text_eq] at h
  have hsame := Json.same_of_dumpsSorted (fields_printed (hread.details e he))
    (fields_printed (hread.details e' he')) h
  -- each key stands once in the canonical form
  have hfield : ∀ (key : String) {v v' : Json}, (key, v) ∈ fields rt e →
      (∀ w, (key, w) ∈ fields rt e' → w = v') → Json.Same v v' := by
    intro key v v' hv hunique
    obtain ⟨w, hw, hs⟩ := hsame.entry hv
    rw [← hunique w hw]
    exact hs
  have hids : ∀ u ∈ e.ids, ∀ v ∈ e'.ids, rt.strUuid u = rt.strUuid v → u = v := hread.ids e he e' he'
  have hidText : ∀ (key : String) {o o' : Option Uuid}, (∀ u ∈ o, u ∈ e.ids) → (∀ v ∈ o', v ∈ e'.ids) →
      (key, .ofStr? (o.map rt.strUuid)) ∈ fields rt e →
      (∀ w, (key, w) ∈ fields rt e' → w = .ofStr? (o'.map rt.strUuid)) → o = o' := by
    intro key o o' ho ho' hv hunique
    exact strUuid_same (fun u hu v hv => hids u (ho u hu) v (ho' v hv)) (hfield key hv hunique)
  constructor
  · exact
      { occurredAt := hread.times e he e' he'
          (str_same (hfield "occurred_at" (by simp [fields]) (by simp [fields])))
        actorType := str_same (hfield "actor_type" (by simp [fields]) (by simp [fields]))
        actorId := hidText "actor_id" (by simp +contextual [AuditEvent.ids])
          (by simp +contextual [AuditEvent.ids]) (by simp [fields]) (by simp [fields])
        sessionId := hidText "session_id" (by simp +contextual [AuditEvent.ids])
          (by simp +contextual [AuditEvent.ids]) (by simp [fields]) (by simp [fields])
        eventType := str_same (hfield "event_type" (by simp [fields]) (by simp [fields]))
        targetType := ofStr?_same (hfield "target_type" (by simp [fields]) (by simp [fields]))
        targetId := hidText "target_id" (by simp +contextual [AuditEvent.ids])
          (by simp +contextual [AuditEvent.ids]) (by simp [fields]) (by simp [fields])
        result := str_same (hfield "result" (by simp [fields]) (by simp [fields]))
        networkContext := ofStr?_same (hfield "network_context" (by simp [fields]) (by simp [fields]))
        correlationId := ofStr?_same (hfield "correlation_id" (by simp [fields]) (by simp [fields]))
        details := hfield "details" (by simp [fields]) (by simp [fields]) }
  · exact ofStr?_same (hfield "previous_hash" (by simp [fields]) (by simp [fields]))

/-- The canonical form depends on the hashed fields only. -/
theorem canonical_of_same {e e' : AuditEvent} (h : e.SameContents e') (p : Option String) :
    e'.canonical rt p = e.canonical rt p := by
  obtain ⟨h₁, h₂, h₃, h₄, h₅, h₆, h₇, h₈, h₉, h₁₀, hdetails⟩ := h
  have hsorted : e'.details.sortKeys = e.details.sortKeys := hdetails.symm
  simp only [AuditEvent.canonical, canonical, AuditEvent.context, h₁, h₂, h₃, h₄, h₅, h₆, h₇, h₈, h₉,
    h₁₀, Json.dumpsSorted, Json.sortKeys, Json.sortKeysEntries, hsorted]

/-! ### Tampering -/

/-- The identifier and the stored hashes of an event are kept. -/
def KeepsHashes (e e' : AuditEvent) : Prop :=
  e'.id = e.id ∧ e'.previousHash = e.previousHash ∧ e'.eventHash = e.eventHash

/-- **Tampering is located**: accepted chains with the same last hash agree in every hashed
field of every event, and a change of hashed fields under the stored hashes is reported with the
first event that it concerns. -/
theorem tampering_located (rt : Runtime) :
    (∀ events events' : List AuditEvent, Readable rt (events ++ events') →
      CollisionFree rt (events ++ events') → verifyChain rt events = (true, none) →
      verifyChain rt events' = (true, none) →
      events.getLast?.map AuditEvent.eventHash = events'.getLast?.map AuditEvent.eventHash →
      List.Forall₂ AuditEvent.Agrees events events') ∧
    ∀ events changed : List AuditEvent, Readable rt (events ++ changed) →
      CollisionFree rt (events ++ changed) → verifyChain rt events = (true, none) →
      List.Forall₂ KeepsHashes events changed → ¬List.Forall₂ AuditEvent.Agrees events changed →
      ∃ pre e post pre' e' post', events = pre ++ e :: post ∧ changed = pre' ++ e' :: post' ∧
        List.Forall₂ AuditEvent.Agrees pre pre' ∧ ¬e.Agrees e' ∧
        verifyChain rt changed = (false, some e.id) := by
  constructor
  · intro events events' hread hfree haccepted haccepted' hlast
    refine (verifyFrom_eq_true.mp haccepted).agree (verifyFrom_eq_true.mp haccepted') ?_ ?_
    · intro e he e' he' hhash
      have hmem : e ∈ events ++ events' := List.mem_append_left _ he
      have hmem' : e' ∈ events ++ events' := List.mem_append_right _ he'
      exact agrees_of_text hread hmem hmem' (hfree e hmem e' hmem' hhash)
    · show events.getLast?.elim _ _ = events'.getLast?.elim _ _
      cases hl : events.getLast? <;> cases hl' : events'.getLast? <;> simp_all [chain]
  · intro events changed hread hfree haccepted hkeeps hchanged
    obtain ⟨pre, e, post, pre', e', post', rfl, rfl, hpre, hkept, hdiffers⟩ :=
      HashChain.Scheme.exists_first hkeeps hchanged
    refine ⟨pre, e, post, pre', e', post', rfl, rfl, hpre.imp fun _ _ h => h.2, hdiffers, ?_⟩
    have hbad : (chain rt).firstBad none (pre' ++ e' :: post') = some e' := by
      have hsame : ∀ x y q, x.SameContents y → (chain rt).compute y q = (chain rt).compute x q :=
        fun x y q h => congrArg rt.sha256 (canonical_of_same h q)
      refine HashChain.Scheme.firstBad_of_changed hsame (verifyFrom_eq_true.mp haccepted)
        (hpre.imp fun x y h => ⟨h.1.2, h.2.1⟩) hkept.2 fun hhash => hdiffers ?_
      have hmem : e ∈ pre ++ e :: post ++ (pre' ++ e' :: post') := by simp
      have hmem' : e' ∈ pre ++ e :: post ++ (pre' ++ e' :: post') := by simp
      exact agrees_of_text hread hmem hmem' (hfree e hmem e' hmem' hhash.symm)
    rw [verifyChain, verifyFrom_eq, hbad, ← hkept.1]
    rfl

/-! ### A tampered chain -/

/-- A first event, by the system. -/
def completedEvent : AuditEvent :=
  { id := 1, occurredAt := .utc 1767225600000000, actorType := "system", actorId := none
    sessionId := none, eventType := "backup.completed", targetType := none, targetId := none
    result := "success", networkContext := none, correlationId := none, details := .obj []
    previousHash := none
    eventHash := "37089dfbb8b0ef444b805b1a500d049eae1a3cd084e2784dbf0944efebb35634" }

/-- An event after it, by the given account and with the given details. -/
def deletedEvent (actorId : Uuid) (details : List (String × Json)) : AuditEvent :=
  { id := 2, occurredAt := .utc 1767225601500000, actorType := "administrator"
    actorId := some actorId, sessionId := none, eventType := "memory.deleted", targetType := none
    targetId := some 3, result := "success", networkContext := none, correlationId := none
    details := .obj details, previousHash := some completedEvent.eventHash
    eventHash := "bb46a777f704816a7a15df2fe56847d809ec1a6548d70b956048f70c645259c7" }

/-- The details as they were written and in the order of their keys. -/
def writtenDetails : List (String × Json) := [("version", .int 2), ("ratio", .float "0.5")]

def sortedDetails : List (String × Json) := [("ratio", .float "0.5"), ("version", .int 2)]

/-- The four events of two accepted chains and of a tampered one. -/
def sampleEvents : List AuditEvent :=
  [completedEvent, deletedEvent 1 writtenDetails, deletedEvent 1 sortedDetails,
    deletedEvent 4 writtenDetails]

/-- The runtime with the SHA-256 digests of the canonical forms of these events. -/
def digesting (rt : Runtime) : Runtime :=
  { rt with
    sha256 := fun s =>
      if s = completedEvent.text rt then completedEvent.eventHash
      else if s = (deletedEvent 1 writtenDetails).text rt then (deletedEvent 1 writtenDetails).eventHash
      else if s = (deletedEvent 4 writtenDetails).text rt then
        "f02a37efd9b182dfb2179fda13c8657c43edff90102911b1534cc81b783d24c1"
      else "" }

theorem text_digesting (e : AuditEvent) : e.text (digesting rt) = e.text rt := by
  simp only [AuditEvent.text, AuditEvent.canonical, canonical, digesting]

theorem readable_sample : Readable (.sample 0 []) sampleEvents where
  times := by decide +kernel
  ids := by decide +kernel
  details := by
    intro e he
    simp only [sampleEvents, List.mem_cons, List.not_mem_nil, or_false] at he
    have hfloat : Json.FloatText "0.5" := by decide +kernel
    rcases he with rfl | rfl | rfl | rfl <;>
      simp [completedEvent, deletedEvent, writtenDetails, sortedDetails, Json.Printed,
        Json.PrintedEntries, hfloat]

theorem Readable.of_subset {events events' : List AuditEvent} (h : Readable rt events)
    (hsub : events' ⊆ events) : Readable rt events' where
  times e he e' he' := h.times e (hsub he) e' (hsub he')
  ids e he e' he' := h.ids e (hsub he) e' (hsub he')
  details e he := h.details e (hsub he)

/-- The texts of the events are told apart by their actors. -/
theorem text_ne (hread : Readable rt sampleEvents) {e e' : AuditEvent} (he : e ∈ sampleEvents)
    (he' : e' ∈ sampleEvents) (h : e.actorId ≠ e'.actorId) : e.text rt ≠ e'.text rt :=
  fun htext => h (agrees_of_text hread he he' htext).1.actorId

/-- The canonical form does not show the order in which the details were written. -/
theorem reordered_text :
    (deletedEvent 1 sortedDetails).text rt = (deletedEvent 1 writtenDetails).text rt := by
  have hdetails : Json.Same (.obj writtenDetails) (.obj sortedDetails) := by rfl
  exact canonical_of_same ⟨rfl, rfl, rfl, rfl, rfl, rfl, rfl, rfl, rfl, rfl, hdetails⟩ _

/-- The runtime gives the SHA-256 digests of the sample events. -/
structure Digests (rt : Runtime) : Prop where
  completed : rt.sha256 (completedEvent.text rt) = completedEvent.eventHash
  deleted : rt.sha256 ((deletedEvent 1 writtenDetails).text rt) =
    (deletedEvent 1 writtenDetails).eventHash
  edited : rt.sha256 ((deletedEvent 4 writtenDetails).text rt) =
    "f02a37efd9b182dfb2179fda13c8657c43edff90102911b1534cc81b783d24c1"

theorem digests_digesting (hread : Readable rt sampleEvents) : Digests (digesting rt) := by
  have h₂₁ : (deletedEvent 1 writtenDetails).text rt ≠ completedEvent.text rt :=
    text_ne hread (by simp [sampleEvents]) (by simp [sampleEvents]) (by decide)
  have h₃₁ : (deletedEvent 4 writtenDetails).text rt ≠ completedEvent.text rt :=
    text_ne hread (by simp [sampleEvents]) (by simp [sampleEvents]) (by decide)
  have h₃₂ : (deletedEvent 4 writtenDetails).text rt ≠ (deletedEvent 1 writtenDetails).text rt :=
    text_ne hread (by simp [sampleEvents]) (by simp [sampleEvents]) (by decide)
  constructor
  · rw [text_digesting]
    simp only [digesting, if_true]
  · rw [text_digesting]
    simp only [digesting, h₂₁, if_false, if_true]
  · rw [text_digesting]
    simp only [digesting, h₃₁, h₃₂, if_false, if_true]

theorem Digests.collisionFree (h : Digests rt) : CollisionFree rt sampleEvents := by
  obtain ⟨h₁, h₂, h₃⟩ := h
  have h₁₂ : completedEvent.eventHash ≠ (deletedEvent 1 writtenDetails).eventHash := by decide
  have h₁₃ : completedEvent.eventHash ≠
      "f02a37efd9b182dfb2179fda13c8657c43edff90102911b1534cc81b783d24c1" := by decide
  have h₂₃ : (deletedEvent 1 writtenDetails).eventHash ≠
      "f02a37efd9b182dfb2179fda13c8657c43edff90102911b1534cc81b783d24c1" := by decide
  intro e he e' he'
  simp only [sampleEvents, List.mem_cons, List.not_mem_nil, or_false] at he he'
  rcases he with rfl | rfl | rfl | rfl <;> rcases he' with rfl | rfl | rfl | rfl <;>
    simp only [reordered_text, h₁, h₂, h₃, h₁₂, h₁₃, h₂₃, h₁₂.symm, h₁₃.symm, h₂₃.symm, implies_true,
      false_implies]

theorem Digests.accepted (h : Digests rt) {details : List (String × Json)}
    (htext : (deletedEvent 1 details).text rt = (deletedEvent 1 writtenDetails).text rt) :
    verifyChain rt [completedEvent, deletedEvent 1 details] = (true, none) := by
  have hsecond : (deletedEvent 1 details).eventHash = rt.sha256 ((deletedEvent 1 details).text rt) := by
    rw [htext, h.deleted]
    rfl
  exact verifyFrom_eq_true.mpr ⟨⟨rfl, h.completed.symm⟩, ⟨rfl, hsecond⟩, trivial⟩

/-- The order of the details may differ under the same last hash; another actor is reported. -/
theorem tampering_located_edited :
    List.Forall₂ AuditEvent.Agrees [completedEvent, deletedEvent 1 writtenDetails]
      [completedEvent, deletedEvent 1 sortedDetails] ∧
    ∃ pre e post pre' e' post', [completedEvent, deletedEvent 1 writtenDetails] = pre ++ e :: post ∧
      [completedEvent, deletedEvent 4 writtenDetails] = pre' ++ e' :: post' ∧
      List.Forall₂ AuditEvent.Agrees pre pre' ∧ ¬e.Agrees e' ∧
      verifyChain (digesting (.sample 0 [])) [completedEvent, deletedEvent 4 writtenDetails] =
        (false, some e.id) := by
  have hsub : ∀ x ∈ sampleEvents, [completedEvent, deletedEvent 1 writtenDetails] ++ [completedEvent, x] ⊆
      sampleEvents := by
    intro x hx
    simp [sampleEvents] at hx ⊢
    exact hx
  have hsorted := hsub (deletedEvent 1 sortedDetails) (by simp [sampleEvents])
  have hedited := hsub (deletedEvent 4 writtenDetails) (by simp [sampleEvents])
  have hread : Readable (digesting (.sample 0 [])) sampleEvents :=
    ⟨readable_sample.times, readable_sample.ids, readable_sample.details⟩
  have hdigests := digests_digesting readable_sample
  have hfree : ∀ events, events ⊆ sampleEvents → CollisionFree (digesting (.sample 0 [])) events :=
    fun events h e he e' he' => hdigests.collisionFree e (h he) e' (h he')
  constructor
  · exact (tampering_located _).1 _ _ (hread.of_subset hsorted) (hfree _ hsorted)
      (hdigests.accepted rfl) (hdigests.accepted reordered_text) rfl
  · refine (tampering_located _).2 _ _ (hread.of_subset hedited) (hfree _ hedited)
      (hdigests.accepted rfl) ?_ ?_
    · exact .cons ⟨rfl, rfl, rfl⟩ (.cons ⟨rfl, rfl, rfl⟩ .nil)
    · intro h
      have hactor := (List.forall₂_cons.mp (List.forall₂_cons.mp h).2).1.1.actorId
      exact absurd hactor (by decide)

end AuditService

end KajovoDagmar
