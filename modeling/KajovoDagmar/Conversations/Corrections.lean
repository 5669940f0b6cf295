import KajovoDagmar.Conversations.Numbering
import KajovoDagmar.Db.Sample
import KajovoDagmar.Library.EditChain
import KajovoDagmar.Library.ReadCommitted

/-! # The revisions of a corrected message

The transactions of `correct_transcript` under READ COMMITTED.  The `SELECT … FOR UPDATE` of the message joined
with its conversation finds the two rows, waits for both and looks at them again as last committed.  What is
written is published by the commit, or rolled back where a constraint or the audit refuses it.

The revisions of a message are the chain of its edits (`EditRecord.Chain`): every correction that commits has
locked the message and starts from the content that stands (`Kept.publish`). -/

namespace KajovoDagmar

open ReadCommitted

namespace ConversationService

/-! ### The programs -/

/-- A call of `correct_transcript`, with the start of its transaction and the first reading of its clock. -/
structure Correction where
  accountId : Uuid
  messageId : Uuid
  request : TranscriptCorrection
  context : AuditContext
  began : DateTime
  tick : ℕ

/-- The rows that a correction locks. -/
inductive LockedRow where
  | message (id : Uuid)
  | conversation (id : Uuid)
deriving DecidableEq

/-- The points of a correction. -/
inductive CorrectionTxn where
  | opened (call : Correction)
  /-- The rows are found, and the message is to be locked. -/
  | found (call : Correction) (conversationId : Uuid)
  /-- The message is locked, and its conversation is to be locked. -/
  | locking (call : Correction) (conversationId : Uuid)
  | loaded (call : Correction) (message : ConversationMessage)
  | failed

/-- The committed rows, and the messages with the expected versions of the corrections that have committed. -/
structure CorrectionStore where
  db : Db
  commits : List (Uuid × ℤ) := []

namespace CorrectionTxn

variable (rt : Runtime)

/-- What is written for the loaded message. -/
def write (call : Correction) (message : ConversationMessage) : Work ConversationMessage := do
  let updated ← recordCorrection rt call.accountId message call.request call.context
  requestAnswer rt call.request updated

def publish (call : Correction) (message : ConversationMessage) (store : CorrectionStore) : Option CorrectionStore :=
  match write rt call message { db := store.db, began := call.began, tick := call.tick } with
  | (.ok _, session) => some ⟨session.db, store.commits ++ [(call.messageId, call.request.expectedMessageVersion)]⟩
  | (.error _, _) => none

/-- The rows as they are found. -/
def afterSelect (call : Correction) : Option ConversationMessage → CorrectionTxn
  | none => failed
  | some message => found call message.conversationId

/-- The check of the version of the locked message. -/
def afterLock (call : Correction) : Option ConversationMessage → CorrectionTxn
  | none => failed
  | some message =>
    if message.version ≠ call.request.expectedMessageVersion then failed else loaded call message

def stmt : CorrectionTxn → Stmt LockedRow CorrectionStore CorrectionTxn
  | opened call => .read fun store => afterSelect call (userMessage? store.db call.accountId call.messageId)
  | found call conversationId => .lock (.message call.messageId) fun _ => locking call conversationId
  | locking call conversationId => .lock (.conversation conversationId) fun store =>
    afterLock call (userMessage? store.db call.accountId call.messageId)
  | loaded call message => .commit (publish rt call message)
  | failed => .commit fun _ => none

def initial : CorrectionTxn → Bool
  | opened _ => true
  | _ => false

def step := ReadCommitted.step (stmt rt) initial

/-! ### What a correction knows -/

/-- A correction relies on the lock of its message. -/
def holds : CorrectionTxn → LockedRow → Prop
  | locking call _, k | loaded call _, k => k = .message call.messageId
  | _, _ => False

/-- The loaded message is the row as it stands, and has the expected version. -/
def knows (store : CorrectionStore) : CorrectionTxn → Prop
  | loaded call message =>
    store.db.conversationMessages.find? call.messageId = some message ∧
      message.version = call.request.expectedMessageVersion
  | _ => True

/-- The row of a message. -/
def rowOf (store : CorrectionStore) : LockedRow → Option ConversationMessage
  | .message id => store.db.conversationMessages.find? id
  | .conversation _ => none

theorem not_holds_afterSelect {call : Correction} {found : Option ConversationMessage} {k : LockedRow} :
    ¬holds (afterSelect call found) k := by
  cases found with
  | none => exact id
  | some message => exact id

theorem afterLock_some (call : Correction) (message : ConversationMessage) :
    afterLock call (some message) =
      if message.version ≠ call.request.expectedMessageVersion then failed else loaded call message := rfl

theorem holds_afterLock {call : Correction} {found : Option ConversationMessage} {k : LockedRow}
    (h : holds (afterLock call found) k) : k = .message call.messageId := by
  cases found with
  | none => exact h.elim
  | some message =>
      rw [afterLock_some] at h
      split at h
      · exact h.elim
      · exact h

theorem discipline : Discipline (stmt rt) initial holds where
  start := by
    intro t k ht
    cases t with
    | opened call => exact id
    | _ => simp [initial] at ht
  lock := by
    intro t k next store k' hstmt hk
    cases t with
    | found call conversationId =>
        obtain ⟨rfl, rfl⟩ := Stmt.lock.inj hstmt
        exact .inl hk
    | locking call conversationId =>
        obtain ⟨rfl, rfl⟩ := Stmt.lock.inj hstmt
        exact .inr (holds_afterLock hk)
    | _ => simp [stmt] at hstmt
  read := by
    intro t next store k hstmt hk
    cases t with
    | opened call =>
        obtain rfl := Stmt.read.inj hstmt
        exact absurd hk not_holds_afterSelect
    | _ => simp [stmt] at hstmt

/-! ### What is written -/

/-- The message as it is corrected. -/
def corrected (call : Correction) (message : ConversationMessage) : ConversationMessage :=
  { message with
    content := PythonText.strip call.request.correctedContent.val, version := message.version + 1 }

/-- The revision of a correction. -/
def revisionOf (id : Uuid) (call : Correction) (message : ConversationMessage) : MessageRevision :=
  { id := id
    messageId := message.id
    revisionNumber := (corrected call message).version
    originalContent := message.content
    revisedContent := (corrected call message).content
    reason := "transcript_correction"
    createdBy := call.accountId }

/-- The messages and their revisions. -/
def written (db : Db) : Table ConversationMessage.id × Table MessageRevision.id :=
  (db.conversationMessages, db.messageRevisions)

variable {rt}

theorem requestAnswer_keeps (request : TranscriptCorrection) (message : ConversationMessage) :
    Tx.Keeps (Same written) (requestAnswer rt request message) := by
  unfold requestAnswer
  split
  · refine Tx.Keeps.bind ?_ fun _ => Tx.Keeps.pure _
    unfold ConversationService.publish
    refine (Same.newUuid rt).bind fun id => (Tx.Keeps.gets _).bind fun began => ?_
    exact Relation.add_keeps (fun _ _ => rfl) _
  · exact Tx.Keeps.pure _

/-- A correction puts the corrected message in its place and adds a revision. -/
theorem write_ok {call : Correction} {message r : ConversationMessage} {s s' : Session}
    (h : write rt call message s = (.ok r, s')) :
    s'.db.conversationMessages = s.db.conversationMessages.put (corrected call message) ∧
      ∃ id, s'.db.messageRevisions.rows = s.db.messageRevisions.rows ++ [revisionOf id call message] := by
  obtain ⟨updated, s₁, hrecord, hrequest⟩ := Tx.bind_eq_ok h
  have hrequested : written s'.db = written s₁.db := (requestAnswer_keeps call.request updated).of_apply hrequest
  unfold recordCorrection at hrecord
  obtain ⟨u, s₂, hsave, hrecord⟩ := Tx.bind_eq_ok hrecord
  obtain rfl := Relation.save_eq_ok hsave
  obtain ⟨id, s₃, hid, hrecord⟩ := Tx.bind_eq_ok hrecord
  obtain ⟨-, rfl⟩ := Prod.mk.inj hid
  obtain ⟨u', s₄, hadd, hrecord⟩ := Tx.bind_eq_ok hrecord
  obtain ⟨t, ht, rfl⟩ := Relation.add_eq_ok hadd
  obtain ⟨e, s₅, happend, hpure⟩ := Tx.bind_eq_ok hrecord
  obtain ⟨-, rfl⟩ := Prod.mk.inj hpure
  have happended : written s₅.db = (s.db.conversationMessages.put (corrected call message), t) :=
    Tx.Keeps.of_apply (R := Same written) (AuditService.append_keeps fun _ _ => rfl) happend
  have hafter := hrequested.trans happended
  obtain ⟨hrows, -⟩ := Table.insert?_eq_some (Relation.insertRow_eq_ok ht).1
  have hrevisions : s'.db.messageRevisions = t := congrArg Prod.snd hafter
  rw [hrevisions]
  exact ⟨congrArg Prod.fst hafter, _, hrows⟩

theorem publish_eq_some {call : Correction} {message : ConversationMessage} {store store' : CorrectionStore}
    (h : publish rt call message store = some store') :
    store'.db.conversationMessages = store.db.conversationMessages.put (corrected call message) ∧
      (∃ id, store'.db.messageRevisions.rows =
        store.db.messageRevisions.rows ++ [revisionOf id call message]) ∧
      store'.commits = store.commits ++ [(call.messageId, call.request.expectedMessageVersion)] := by
  unfold publish at h
  split at h
  · next r session hwrite =>
    obtain rfl := Option.some.inj h
    obtain ⟨hmessages, hrevisions⟩ := write_ok hwrite
    exact ⟨hmessages, hrevisions, rfl⟩
  · cases h

theorem commit_cases {t : CorrectionTxn} {publish' : CorrectionStore → Option CorrectionStore}
    {store store' : CorrectionStore} (hstmt : stmt rt t = .commit publish') (h : publish' store = some store') :
    ∃ call message, t = loaded call message ∧ publish rt call message store = some store' := by
  cases t with
  | loaded call message =>
      obtain rfl := Stmt.commit.inj hstmt
      exact ⟨call, message, rfl, h⟩
  | failed =>
      obtain rfl := Stmt.commit.inj hstmt
      cases h
  | _ => simp [stmt] at hstmt

/-- A commit leaves the messages that it has not locked. -/
theorem commit_local : Local (stmt rt) holds rowOf knows := by
  intro t publish' store store' k hstmt hknows hstore hnot
  obtain ⟨call, message, rfl, hpublish⟩ := commit_cases hstmt hstore
  obtain ⟨hmessages, -, -⟩ := publish_eq_some hpublish
  cases k with
  | conversation id => rfl
  | message id =>
      have hne : id ≠ (corrected call message).id := by
        have hid : message.id = call.messageId := Table.key_of_find? hknows.1
        rintro rfl
        exact hnot (congrArg LockedRow.message hid)
      change store'.db.conversationMessages.find? id = _
      rw [hmessages]
      exact Table.find?_put_of_ne hne

theorem knows_stable : Stable holds rowOf knows := by
  intro t store store' hsame hknows
  cases t with
  | loaded call message => exact ⟨(hsame _ rfl).trans hknows.1, hknows.2⟩
  | _ => trivial

theorem knows_afterSelect {call : Correction} {found : Option ConversationMessage} {store : CorrectionStore} :
    knows store (afterSelect call found) := by
  cases found with
  | none => exact trivial
  | some message => exact trivial

theorem knows_afterLock {call : Correction} {store : CorrectionStore} :
    knows store (afterLock call (userMessage? store.db call.accountId call.messageId)) := by
  cases hmessage : userMessage? store.db call.accountId call.messageId with
  | none => exact trivial
  | some message =>
      rw [afterLock_some]
      split
      · exact trivial
      · next hversion => exact ⟨(Option.filter_eq_some_iff.mp hmessage).1, not_not.mp hversion⟩

/-- **Step lemma**: a correction knows the message that it has locked. -/
theorem asserted_of_step {s s' : State LockedRow CorrectionStore CorrectionTxn} {e : Event CorrectionTxn}
    (hheld : Held holds s) (h : Asserted knows s) (hs : step rt s e = some s') : Asserted knows s' := by
  refine Asserted.of_local commit_local knows_stable ?_ ?_ ?_ hheld h hs
  · intro store t ht
    cases t with
    | opened call => trivial
    | _ => simp [initial] at ht
  · intro store t k next hstmt _
    cases t with
    | found call conversationId =>
        obtain ⟨rfl, rfl⟩ := Stmt.lock.inj hstmt
        trivial
    | locking call conversationId =>
        obtain ⟨rfl, rfl⟩ := Stmt.lock.inj hstmt
        exact knows_afterLock
    | _ => simp [stmt] at hstmt
  · intro store t next hstmt _
    cases t with
    | opened call =>
        obtain rfl := Stmt.read.inj hstmt
        exact knows_afterSelect
    | _ => simp [stmt] at hstmt

/-- A correction that runs alone commits what `correct_transcript` writes. -/
theorem runs_alone {s : State LockedRow CorrectionStore CorrectionTxn} (h : Idle s) (i : ℕ) {call : Correction}
    {r : ConversationMessage} {session : Session}
    (hcorrect : correctTranscript rt call.accountId call.messageId call.request call.context
      { db := s.store.db, began := call.began, tick := call.tick } = (.ok r, session)) :
    ∃ t, Runs.run (step rt) s (whole i (.opened call) 3) = some t ∧ Idle t ∧
      t.store = ⟨session.db, s.store.commits ++ [(call.messageId, call.request.expectedMessageVersion)]⟩ := by
  rcases correctTranscript_cases rt call.accountId call.messageId call.request call.context
    { db := s.store.db, began := call.began, tick := call.tick } with ⟨d, -, hrefused⟩ | ⟨m, hm, hversion, hwrite⟩
  · rw [hrefused] at hcorrect
    simp at hcorrect
  have hselected : afterSelect call (userMessage? s.store.db call.accountId call.messageId) =
      found call m.conversationId := congrArg (afterSelect call) hm
  have hlocked : afterLock call (userMessage? s.store.db call.accountId call.messageId) = loaded call m :=
    (congrArg (afterLock call) hm).trans (if_neg (not_not_intro hversion))
  have hgoes : Goes (stmt rt) s.store (.opened call) 3 (loaded call m) := by
    refine .read rfl ?_
    rw [hselected]
    refine .lock rfl (.lock rfl ?_)
    rw [hlocked]
    exact .refl _
  refine h.run rfl hgoes rfl ?_
  rw [hwrite] at hcorrect
  unfold publish write
  rw [hcorrect]

end CorrectionTxn

/-! ### The chain of revisions -/

def messageEdits : EditRecord MessageRevision String where
  number := MessageRevision.revisionNumber
  before := MessageRevision.originalContent
  after := MessageRevision.revisedContent

/-- The revisions of a message, oldest first. -/
def revisionsOf (db : Db) (messageId : Uuid) : List MessageRevision :=
  db.messageRevisions.select fun r => r.messageId = messageId

/-- What holds of a message in every committed state. -/
structure Kept (messageId : Uuid) (original : String) (store : CorrectionStore) : Prop where
  chain : ∃ message, store.db.conversationMessages.find? messageId = some message ∧
    messageEdits.Chain original (revisionsOf store.db messageId) message.version message.content ∧
    ∀ base ∈ (store.commits.filter fun c => c.1 = messageId).map Prod.snd, base < message.version
  once : (store.commits.filter fun c => c.1 = messageId).Nodup

variable {rt : Runtime} {messageId : Uuid} {original : String}

/-- **Step lemma**: a correction that commits adds the next edit of its message, and no other had its base. -/
theorem Kept.publish {call : Correction} {message : ConversationMessage} {store store' : CorrectionStore}
    (h : Kept messageId original store) (hknows : CorrectionTxn.knows store (.loaded call message))
    (hpublish : CorrectionTxn.publish rt call message store = some store') : Kept messageId original store' := by
  obtain ⟨hmessages, ⟨id, hrevisions⟩, hcommits⟩ := CorrectionTxn.publish_eq_some hpublish
  obtain ⟨m, hfind, hchain, hbased⟩ := h.chain
  have hid : message.id = call.messageId := Table.key_of_find? hknows.1
  have hselect : revisionsOf store'.db messageId = revisionsOf store.db messageId ++
      [CorrectionTxn.revisionOf id call message].filter fun r => r.messageId = messageId := by
    unfold revisionsOf Table.select
    rw [hrevisions, List.filter_append]
  have hfilter : (store'.commits.filter fun c => c.1 = messageId) =
      (store.commits.filter fun c => c.1 = messageId) ++
        [(call.messageId, call.request.expectedMessageVersion)].filter fun c => c.1 = messageId := by
    rw [hcommits, List.filter_append]
  by_cases hsame : call.messageId = messageId
  · subst hsame
    obtain rfl : m = message := Option.some.inj (hfind.symm.trans hknows.1)
    have hnew : [CorrectionTxn.revisionOf id call m].filter (fun r => r.messageId = call.messageId) =
        [CorrectionTxn.revisionOf id call m] := List.filter_eq_self.mpr fun r hr => by
      rw [List.mem_singleton.mp hr]
      exact decide_eq_true hid
    have hbase : [(call.messageId, call.request.expectedMessageVersion)].filter
        (fun c => c.1 = call.messageId) = [(call.messageId, call.request.expectedMessageVersion)] := by simp
    rw [hnew] at hselect
    rw [hbase] at hfilter
    refine ⟨⟨CorrectionTxn.corrected call m, ?_, ?_, ?_⟩, ?_⟩
    · rw [hmessages, ← hid]
      exact Table.find?_put_self (r := CorrectionTxn.corrected call m) (hid ▸ hfind)
    · rw [hselect]
      exact hchain.edit rfl rfl
    · intro base hmem
      rw [hfilter, List.map_append, List.mem_append] at hmem
      rcases hmem with hold | hnew
      · exact (hbased base hold).trans (Int.lt_succ _)
      · rw [List.mem_singleton.mp hnew, ← hknows.2]
        exact Int.lt_succ _
    · rw [hfilter, List.nodup_append_comm]
      refine List.nodup_cons.mpr ⟨fun hmem => ?_, h.once⟩
      have hlt := hbased _ (List.mem_map_of_mem hmem)
      exact absurd hknows.2 hlt.ne'
  · have hnone : [CorrectionTxn.revisionOf id call message].filter (fun r => r.messageId = messageId) = [] :=
      List.filter_eq_nil_iff.mpr fun r hr => by
        rw [List.mem_singleton.mp hr]
        simpa [CorrectionTxn.revisionOf, hid] using hsame
    have hbase : [(call.messageId, call.request.expectedMessageVersion)].filter
        (fun c => c.1 = messageId) = [] := by simp [hsame]
    rw [hnone, List.append_nil] at hselect
    rw [hbase, List.append_nil] at hfilter
    refine ⟨⟨m, ?_, ?_, ?_⟩, ?_⟩
    · have hne : messageId ≠ (CorrectionTxn.corrected call message).id :=
        fun heq => hsame (hid.symm.trans heq.symm)
      rw [hmessages, Table.find?_put_of_ne hne]
      exact hfind
    · rw [hselect]
      exact hchain
    · rw [hfilter]
      exact hbased
    · rw [hfilter]
      exact h.once

/-- **Run lemma**: the revisions of a message stay the chain of its edits. -/
theorem kept_of_run {s t : State LockedRow CorrectionStore CorrectionTxn} {es : List (Event CorrectionTxn)}
    (hquiet : s.Quiet) (h : Kept messageId original s.store)
    (hrun : Runs.run (CorrectionTxn.step rt) s es = some t) : Kept messageId original t.store := by
  have hinv := Runs.inv_of_run (I := fun s => Held CorrectionTxn.holds s ∧ Asserted CorrectionTxn.knows s ∧
      Kept messageId original s.store) ?_ ⟨.of_quiet hquiet, .of_quiet hquiet, h⟩ hrun
  · exact hinv.2.2
  · rintro s e s' ⟨hheld, hasserted, hkept⟩ hs
    refine ⟨hheld.of_step (CorrectionTxn.discipline rt) hs, CorrectionTxn.asserted_of_step hheld hasserted hs, ?_⟩
    rcases store_eq_or_commit hs with hsame | ⟨i, u, publish', -, hu, hstmt, hpublish⟩
    · rw [hsame]
      exact hkept
    · obtain ⟨call, message, rfl, hpublish⟩ := CorrectionTxn.commit_cases hstmt hpublish
      exact hkept.publish (hasserted i _ hu) hpublish

/-! ### The history of a message -/

/-- The revisions lead from the original content to the content of the message. -/
structure Revised (original : String) (message : ConversationMessage) (revisions : List MessageRevision) : Prop where
  numbers : ∀ n, n ∈ revisions.map MessageRevision.revisionNumber ↔ 2 ≤ n ∧ n ≤ message.version
  once : (revisions.map MessageRevision.revisionNumber).Nodup
  first : ∀ r ∈ revisions, r.revisionNumber = 2 → r.originalContent = original
  linked : ∀ r ∈ revisions, ∀ r' ∈ revisions, r'.revisionNumber = r.revisionNumber + 1 →
    r'.originalContent = r.revisedContent
  last : ∀ r ∈ revisions, r.revisionNumber = message.version → r.revisedContent = message.content

theorem revised_of_chain {message : ConversationMessage} {revisions : List MessageRevision}
    (h : messageEdits.Chain original revisions message.version message.content) :
    Revised original message revisions where
  numbers := h.mem_numbers_iff
  once := h.nodup
  first _ hr hfirst := h.before_first hr hfirst
  linked _ hr _ hr' hnext := h.before_eq hr hr' hnext
  last _ hr hlast := h.after_eq hr hlast

/-- **The chain of revisions**: in every run of corrections, the revisions of a message lead from the content that
was stored to the content that stands, and no two corrections commit on one version. -/
theorem revisions_chained {s t : State LockedRow CorrectionStore CorrectionTxn} {es : List (Event CorrectionTxn)}
    {message : ConversationMessage} (hquiet : s.Quiet)
    (hstored : s.store.db.conversationMessages.find? message.id = some message) (hversion : message.version = 1)
    (hunrevised : revisionsOf s.store.db message.id = []) (hcommits : s.store.commits = [])
    (hrun : Runs.run (CorrectionTxn.step rt) s es = some t) :
    ∃ m, t.store.db.conversationMessages.find? message.id = some m ∧
      Revised message.content m (revisionsOf t.store.db message.id) ∧
      ∀ expected, t.store.commits.count (message.id, expected) ≤ 1 := by
  have hkept : Kept message.id message.content s.store := by
    refine ⟨⟨message, hstored, ?_, ?_⟩, ?_⟩
    · rw [hunrevised, hversion]
      exact .unedited
    · rw [hcommits]
      exact fun base hbase => absurd hbase List.not_mem_nil
    · rw [hcommits]
      exact List.nodup_nil
  obtain ⟨⟨m, hm, hchain, -⟩, honce⟩ := kept_of_run hquiet hkept hrun
  refine ⟨m, hm, revised_of_chain hchain, fun expected => ?_⟩
  have hcount := List.nodup_iff_count_le_one.mp honce (message.id, expected)
  rwa [List.count_filter (by simp)] at hcount

/-! ### Two corrections of one version -/

/-- The sample conversation after its first turn. -/
def turnStore : CorrectionStore := ⟨.sample (.singleton (.sample "Kdy přijede Jan?")), []⟩

def idleCorrections : State LockedRow CorrectionStore CorrectionTxn := ⟨turnStore, fun _ => none, fun _ => none⟩

/-- A correction of the first turn by account 1. -/
def turnCorrection (content : { s : String // validTurn s }) (tick : ℕ) : Correction where
  accountId := 1
  messageId := 3
  request := { expectedMessageVersion := 1, correctedContent := content }
  context := { actorType := "user", actorId := some 1 }
  began := .utc 1767268800000000
  tick := tick

/-- The second correction waits for the first and sees its version. -/
def rivalCorrections : List (Event CorrectionTxn) :=
  [.start 0 (.opened (turnCorrection ⟨"Kdy přijela Jana?", by decide⟩ 0)),
   .start 1 (.opened (turnCorrection ⟨"Kdy přijede Honza?", by decide⟩ 10)),
   .exec 0, .exec 1, .exec 0, .exec 0, .exec 0, .exec 1, .exec 1, .exec 1]

theorem revisions_chained_rivals : ∃ t,
    Runs.run (CorrectionTxn.step (.sample 1767268800000000 [])) idleCorrections rivalCorrections = some t ∧
      t.store.commits = [(3, 1)] ∧ ∃ m, t.store.db.conversationMessages.find? 3 = some m ∧
      Revised "Kdy přijede Jan?" m (revisionsOf t.store.db 3) ∧
        ∀ expected, t.store.commits.count (3, expected) ≤ 1 := by
  have hrun : ((Runs.run (CorrectionTxn.step (.sample 1767268800000000 [])) idleCorrections rivalCorrections).any
      fun t => decide (t.store.commits = [(3, 1)])) = true := by decide +kernel
  obtain ⟨t, ht, hcommits⟩ := (Option.any_eq_true _ _).mp hrun
  refine ⟨t, ht, of_decide_eq_true hcommits, ?_⟩
  have hstored : turnStore.db.conversationMessages.find? (ConversationMessage.sample "Kdy přijede Jan?").id =
      some (.sample "Kdy přijede Jan?") := rfl
  have hchained := revisions_chained (s := idleCorrections) (fun _ => rfl) hstored rfl rfl rfl ht
  exact hchained

end ConversationService

end KajovoDagmar
