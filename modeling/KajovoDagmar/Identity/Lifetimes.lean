import KajovoDagmar.Identity.Sessions
import KajovoDagmar.Library.Runs

/-! # Lifetimes of sessions

A session is created with a sliding and an absolute end.  `resolve_session` moves the sliding one, never
beyond the absolute one, and only while the session lives; revocations end it.  A session that has ended
is found ended by every later request, whatever idle time is then in force. -/

namespace KajovoDagmar.IdentityService

/-! ### Operations -/

/-- The call of `resolve_session` for the cookie with the given digest. -/
structure Resolve where
  cookieDigest : String
  touch : Bool := true
  idleMinutes : ℤ := 30

/-- Revoked or expired. -/
def ended (now : Instant) (r : AuthSession) : Prop :=
  r.revokedAt.isSome ∨ r.expiresAt ≤ now ∨ r.absoluteExpiresAt ≤ now

instance (now : Instant) (r : AuthSession) : Decidable (ended now r) :=
  inferInstanceAs (Decidable (_ ∨ _ ∨ _))

/-- The session with the given digest. -/
def sessionOf (cookieDigest : String) (store : Store) : Option AuthSession :=
  (store.sessions.select fun r => r.secretDigest = cookieDigest).head?

/-- The activity that `resolve_session` records. -/
def activityAt (now : Instant) (idleMinutes : ℤ) (r : AuthSession) : Activity :=
  ⟨r.id, now, min (now + idleMinutes * 60 * microsPerSecond) r.absoluteExpiresAt⟩

/-- `resolve_session`, with `none` for its `UnauthorizedError`. -/
def resolve (a : Resolve) (now : Instant) (store : Store) : Option (AuthSession × Store) :=
  match sessionOf a.cookieDigest store with
  | none => none
  | some record =>
    if ended now record ∨ store.account.state ≠ "active" then none
    else if a.touch then
      let activity := activityAt now a.idleMinutes record
      some (touchSession activity record, publishTouch activity store)
    else some (record, store)

/-- `current_identity` for the cookie of a request, and the idle time that is set. -/
def currentIdentity (tokenDigest : String → String) (idle : ℤ) (cookie : Option String) (now : Instant)
    (store : Store) : Option (AuthSession × Store) :=
  match cookie.filter (· ≠ "") with
  | none => none
  | some cookie => resolve { cookieDigest := tokenDigest cookie, idleMinutes := idle } now store

/-- A row whose session is revoked. -/
def revokeRow (now : Instant) (reason : String) (r : AuthSession) : AuthSession :=
  { r with revokedAt := some now, revokeReason := some reason }

/-- `revoke_session` for the row with the given identifier. -/
def revokeSession (now : Instant) (reason : String) (sessionId : Uuid) (r : AuthSession) : AuthSession :=
  if r.id = sessionId then revokeRow now reason r else r

/-- The bulk revocation of a change, a reset or a synchronisation of the password. -/
def revokeSessions (now : Instant) (origin : Origin) (r : AuthSession) : AuthSession :=
  if r.revokedAt.isNone ∧ sparedSession origin ≠ some r.id then revokeRow now (revokeReason origin) r else r

theorem revokeSession_id (now : Instant) (reason : String) (sessionId : Uuid) (r : AuthSession) :
    (revokeSession now reason sessionId r).id = r.id := by
  unfold revokeSession
  split <;> rfl

theorem revokeSessions_id (now : Instant) (origin : Origin) (r : AuthSession) :
    (revokeSessions now origin r).id = r.id := by
  unfold revokeSessions
  split <;> rfl

inductive SessionOp where
  /-- `create_session`, with the random values of the given login. -/
  | create (a : Login)
  | resolve (a : Resolve)
  | identify (idle : ℤ) (cookie : Option String)
  | revoke (reason : String) (sessionId : Uuid)
  | revokeAll (origin : Origin)

section system

variable (tokenDigest : String → String)

/-- What an operation leaves, or `none` if it raises. -/
def SessionOp.perform (now : Instant) (store : Store) : SessionOp → Option Store
  | .create a => (createSession { a with createdAt := now } store.epoch store.sessions).map fun sessions =>
    { store with sessions := sessions }
  | .resolve a => (IdentityService.resolve a now store).map Prod.snd
  | .identify idle cookie => (currentIdentity tokenDigest idle cookie now store).map Prod.snd
  | .revoke reason sessionId => some { store with
      sessions := store.sessions.mapRows (revokeSession now reason sessionId)
        (revokeSession_id now reason sessionId) }
  | .revokeAll origin => some { store with
      sessions := store.sessions.mapRows (revokeSessions now origin) (revokeSessions_id now origin) }

/-- An operation at a time, and whether its transaction is committed. -/
structure SessionEvent where
  now : Instant
  op : SessionOp
  committed : Bool := true

/-- The store, and the time of the last operation. -/
structure Timeline where
  store : Store
  clock : Instant

/-- The clock does not go back. -/
def timelineStep (s : Timeline) (e : SessionEvent) : Option Timeline :=
  if s.clock ≤ e.now then
    some ⟨if e.committed then (e.op.perform tokenDigest e.now s.store).getD s.store else s.store, e.now⟩
  else none

end system

/-! ### What an operation does to the sessions -/

/-- The bounds of a session's life. -/
def Bounded (r : AuthSession) : Prop :=
  r.expiresAt ≤ r.absoluteExpiresAt ∧ r.absoluteExpiresAt ≤ r.createdAt + 12 * 3600 * microsPerSecond

/-- A row after an operation: still the session of its cookie, within its bounds, and ended if it was. -/
structure Continues (now : Instant) (r r' : AuthSession) : Prop where
  secretDigest : r'.secretDigest = r.secretDigest
  bounded : Bounded r → Bounded r'
  ended : ended now r → ended now r'

/-- The rows after an operation: those from before, and new ones after them. -/
def Extends (now : Instant) (store store' : Store) : Prop :=
  ∃ (f : AuthSession → AuthSession) (new : List AuthSession),
    store'.sessions.rows = store.sessions.rows.map f ++ new ∧
      (∀ r ∈ store.sessions, Continues now r (f r)) ∧ ∀ r ∈ new, Bounded r

theorem Continues.refl (now : Instant) (r : AuthSession) : Continues now r r := ⟨rfl, id, id⟩

theorem Extends.refl (now : Instant) (store : Store) : Extends now store store :=
  ⟨id, [], by simp, fun r _ => .refl now r, by simp⟩

theorem ended.mono {now now' : Instant} (h : now ≤ now') {r : AuthSession} (hr : ended now r) :
    ended now' r := by
  obtain hrevoked | hexpired | habsolute := hr
  · exact .inl hrevoked
  · exact .inr (.inl (hexpired.trans h))
  · exact .inr (.inr (habsolute.trans h))

theorem mem_of_sessionOf {cookieDigest : String} {store : Store} {r : AuthSession}
    (h : sessionOf cookieDigest store = some r) : r ∈ store.sessions ∧ r.secretDigest = cookieDigest := by
  have hmem := List.mem_filter.mp (List.mem_of_head? h)
  exact ⟨hmem.1, of_decide_eq_true hmem.2⟩

/-- The session of a cookie stays the session of it. -/
theorem Extends.sessionOf {now : Instant} {store store' : Store} (h : Extends now store store')
    {cookieDigest : String} {r : AuthSession} (hr : sessionOf cookieDigest store = some r) :
    ∃ r', IdentityService.sessionOf cookieDigest store' = some r' ∧ Continues now r r' := by
  obtain ⟨f, new, hrows, hcontinues, -⟩ := h
  refine ⟨f r, ?_, hcontinues r (mem_of_sessionOf hr).1⟩
  have hsame : (store.sessions.rows.map f).filter (fun x => x.secretDigest = cookieDigest) =
      (store.sessions.rows.filter fun x => x.secretDigest = cookieDigest).map f := by
    rw [List.filter_map]
    congr 1
    refine List.filter_congr fun x hx => ?_
    simp only [Function.comp]
    rw [(hcontinues x hx).secretDigest]
  unfold IdentityService.sessionOf Table.select at hr ⊢
  rw [hrows, List.filter_append, hsame, List.head?_append, List.head?_map, hr]
  rfl

theorem Extends.bounded {now : Instant} {store store' : Store} (h : Extends now store store')
    (hbounded : ∀ r ∈ store.sessions, Bounded r) : ∀ r ∈ store'.sessions, Bounded r := by
  obtain ⟨f, new, hrows, hcontinues, hnew⟩ := h
  intro r hr
  rw [Table.mem_def, hrows, List.mem_append] at hr
  rcases hr with hr | hr
  · obtain ⟨x, hx, rfl⟩ := List.mem_map.mp hr
    exact (hcontinues x hx).bounded (hbounded x hx)
  · exact hnew r hr

/-- A change of the rows in place. -/
theorem Extends.mapRows {now : Instant} {store : Store} {f : AuthSession → AuthSession}
    (hid : ∀ r, (f r).id = r.id) (h : ∀ r ∈ store.sessions, Continues now r (f r)) :
    Extends now store { store with sessions := store.sessions.mapRows f hid } :=
  ⟨f, [], by simp, h, by simp⟩

theorem createSession_extends {a : Login} {epoch : Epoch} {store : Store}
    {sessions : Table AuthSession.id} (h : createSession a epoch store.sessions = some sessions)
    (now : Instant) : Extends now store { store with sessions := sessions } := by
  refine ⟨id, [newSession a epoch], ?_, fun r _ => .refl now r, ?_⟩
  · rw [List.map_id]
    exact createSession_rows h
  · intro r hr
    obtain rfl := List.mem_singleton.mp hr
    unfold createSession at h
    split at h
    · next hidle =>
      obtain ⟨-, hle, -⟩ := hidle
      have hidle : a.idleMinutes * 60 * microsPerSecond ≤ 12 * 3600 * microsPerSecond := by
        unfold microsPerSecond
        omega
      exact ⟨Int.add_le_add_left hidle a.createdAt, le_refl _⟩
    · simp at h

theorem revokeRow_continues (now : Instant) (reason : String) (r : AuthSession) :
    Continues now r (revokeRow now reason r) := ⟨rfl, id, fun _ => .inl rfl⟩

/-- A session that has not ended is touched. -/
theorem touchSession_continues {now : Instant} {idleMinutes : ℤ} {record : AuthSession} {store : Store}
    (hrecord : record ∈ store.sessions) (hlives : ¬ended now record) :
    ∀ r ∈ store.sessions, Continues now r (touchSession (activityAt now idleMinutes record) r) := by
  intro r hr
  unfold touchSession
  split
  · next hid =>
    obtain rfl : r = record := Table.eq_of_key hr hrecord hid
    exact ⟨rfl, fun h => ⟨min_le_right _ _, h.2⟩, fun h => absurd h hlives⟩
  · exact .refl now r

theorem resolve_extends {a : Resolve} {now : Instant} {store store' : Store} {r : AuthSession}
    (h : resolve a now store = some (r, store')) : Extends now store store' := by
  unfold resolve at h
  split at h
  · simp at h
  · next record hrecord =>
    split at h
    · simp at h
    · next hrefused =>
      have hlives : ¬ended now record := fun hended => hrefused (.inl hended)
      split at h
      · obtain ⟨-, rfl⟩ := Prod.mk.inj (Option.some.inj h)
        exact .mapRows _ (touchSession_continues (mem_of_sessionOf hrecord).1 hlives)
      · obtain ⟨-, rfl⟩ := Prod.mk.inj (Option.some.inj h)
        exact .refl now store

theorem currentIdentity_extends {tokenDigest : String → String} {idle : ℤ} {cookie : Option String}
    {now : Instant} {store store' : Store} {r : AuthSession}
    (h : currentIdentity tokenDigest idle cookie now store = some (r, store')) :
    Extends now store store' := by
  unfold currentIdentity at h
  split at h
  · simp at h
  · exact resolve_extends h

variable {tokenDigest : String → String}

theorem perform_extends {op : SessionOp} {now : Instant} {store store' : Store}
    (h : op.perform tokenDigest now store = some store') : Extends now store store' := by
  cases op with
  | create a =>
      obtain ⟨sessions, hsessions, rfl⟩ := Option.map_eq_some_iff.mp h
      exact createSession_extends hsessions now
  | resolve a =>
      obtain ⟨⟨r, _⟩, hresolve, rfl⟩ := Option.map_eq_some_iff.mp h
      exact resolve_extends hresolve
  | identify idle cookie =>
      obtain ⟨⟨r, _⟩, hidentity, rfl⟩ := Option.map_eq_some_iff.mp h
      exact currentIdentity_extends hidentity
  | revoke reason sessionId =>
      obtain rfl := Option.some.inj h
      refine .mapRows _ fun r _ => ?_
      unfold revokeSession
      split
      · exact revokeRow_continues now reason r
      · exact .refl now r
  | revokeAll origin =>
      obtain rfl := Option.some.inj h
      refine .mapRows _ fun r _ => ?_
      unfold revokeSessions
      split
      · exact revokeRow_continues now (revokeReason origin) r
      · exact .refl now r

/-! ### Runs -/

/-- **Step lemma**: the sessions go on, and the clock with them. -/
theorem timelineStep_extends {s s' : Timeline} {e : SessionEvent} (h : timelineStep tokenDigest s e = some s') :
    s.clock ≤ s'.clock ∧ Extends s'.clock s.store s'.store := by
  unfold timelineStep at h
  split at h
  · next hclock =>
    obtain rfl := Option.some.inj h
    refine ⟨hclock, ?_⟩
    dsimp only
    split
    · rcases hperform : e.op.perform tokenDigest e.now s.store with _ | store'
      · exact .refl _ _
      · exact perform_extends hperform
    · exact .refl _ _
  · simp at h

/-- The session of the cookie was refused because it has ended. -/
def Refused (cookieDigest : String) (now : Instant) (store : Store) : Prop :=
  ∃ r, sessionOf cookieDigest store = some r ∧ ended now r

theorem Refused.resolve {a : Resolve} {now : Instant} {store : Store}
    (h : Refused a.cookieDigest now store) : IdentityService.resolve a now store = none := by
  obtain ⟨r, hr, hended⟩ := h
  unfold IdentityService.resolve
  rw [hr]
  exact if_pos (.inl hended)

/-- The end of a session is final. -/
theorem Refused.of_step {cookieDigest : String} {s s' : Timeline} {e : SessionEvent}
    (h : Refused cookieDigest s.clock s.store) (hs : timelineStep tokenDigest s e = some s') :
    Refused cookieDigest s'.clock s'.store := by
  obtain ⟨hclock, hextends⟩ := timelineStep_extends hs
  obtain ⟨r, hr, hended⟩ := h
  obtain ⟨r', hr', hcontinues⟩ := hextends.sessionOf hr
  exact ⟨r', hr', hcontinues.ended (hended.mono hclock)⟩

/-- **Sessions die and stay dead**: in every state that is reached without sessions at the start, they are
within their bounds; and when a session is refused at some time because it has ended, so it is at every
later time. -/
theorem sessions_stay_dead {s t : Timeline} {events : List SessionEvent} (hnone : s.store.sessions.rows = [])
    (hrun : Runs.run (timelineStep tokenDigest) s events = some t) :
    (∀ r ∈ t.store.sessions, r.expiresAt ≤ r.absoluteExpiresAt ∧
      r.absoluteExpiresAt ≤ r.createdAt + 12 * 3600 * microsPerSecond) ∧
    ∀ (cookieDigest : String) (now : Instant), t.clock ≤ now → Refused cookieDigest now t.store →
      ∀ (later : List SessionEvent) (u : Timeline),
        Runs.run (timelineStep tokenDigest) ⟨t.store, now⟩ later = some u →
        ∀ (a : Resolve) (now' : Instant), a.cookieDigest = cookieDigest → u.clock ≤ now' →
          resolve a now' u.store = none := by
  constructor
  · refine Runs.inv_of_run (I := fun s => ∀ r ∈ s.store.sessions, Bounded r) ?_ ?_ hrun
    · intro s e s' hbounded hs
      exact (timelineStep_extends hs).2.bounded hbounded
    · intro r hr
      rw [Table.mem_def, hnone] at hr
      exact absurd hr List.not_mem_nil
  · intro cookieDigest now _ hrefused later u hlater a now' hcookie hclock
    have hu : Refused cookieDigest u.clock u.store :=
      Runs.inv_of_run (I := fun s => Refused cookieDigest s.clock s.store)
        (fun s e s' h hs => h.of_step hs) hrefused hlater
    obtain ⟨r, hr, hended⟩ := hu
    exact Refused.resolve ⟨r, hcookie ▸ hr, hended.mono hclock⟩

/-- A session is created, and used once within its idle time. -/
def usedOnce : List SessionEvent :=
  [⟨0, .create sampleLogin, true⟩, ⟨60000000, .identify 10 (some "cookie of 101"), true⟩]

def emptyTimeline : Timeline := ⟨{ sampleStore with sessions := .empty }, 0⟩

/-- Ten minutes after its last use the session has expired, and a longer idle time does not help. -/
theorem sessions_stay_dead_usedOnce : ∃ t, Runs.run (timelineStep id) emptyTimeline usedOnce = some t ∧
    (∀ r ∈ t.store.sessions, r.expiresAt ≤ r.absoluteExpiresAt ∧
      r.absoluteExpiresAt ≤ r.createdAt + 12 * 3600 * microsPerSecond) ∧
    Refused "cookie of 101" 660000000 t.store ∧
    resolve { cookieDigest := "cookie of 101", idleMinutes := 120 } 660000001 t.store = none := by
  have hrun : (match Runs.run (timelineStep id) emptyTimeline usedOnce with
      | some t => decide (t.clock = 60000000) && (sessionOf "cookie of 101" t.store).any fun r =>
          decide (ended 660000000 r)
      | none => false) = true := by
    decide +kernel
  rcases ht : Runs.run (timelineStep id) emptyTimeline usedOnce with _ | t <;> simp only [ht] at hrun
  · simp at hrun
  · obtain ⟨hclock, hany⟩ := Bool.and_eq_true_iff.mp hrun
    obtain ⟨r, hr, hended⟩ := (Option.any_eq_true _ _).mp hany
    have hrefused : Refused "cookie of 101" 660000000 t.store := ⟨r, hr, of_decide_eq_true hended⟩
    have hclock' : t.clock = 60000000 := of_decide_eq_true hclock
    obtain ⟨hbounds, hdead⟩ := sessions_stay_dead rfl ht
    refine ⟨t, rfl, hbounds, hrefused, ?_⟩
    refine hdead "cookie of 101" 660000000 ?_ hrefused [] _ rfl _ 660000001 rfl ?_
    · rw [hclock']
      decide
    · exact (by decide : (660000000 : Instant) ≤ 660000001)

end KajovoDagmar.IdentityService
