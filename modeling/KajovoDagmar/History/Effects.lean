import KajovoDagmar.History.Service

/-! # What the history operations touch and where they refuse

Every operation of `HistoryService` raises its domain errors before it writes anything, and it
writes nothing but conversations, their links and audit events. -/

namespace KajovoDagmar.HistoryService

variable {rt : Runtime} {γ : Type} {view : Db → γ}

theorem detail_keeps (accountId conversationId : Uuid) (includeDeleted : Bool) :
    Tx.Keeps (Same view) (detail accountId conversationId includeDeleted) := by
  unfold detail
  refine (Tx.Keeps.gets _).bind fun row => ?_
  refine (Tx.Keeps.orRaise _ _).bind fun conversation => ?_
  exact (Tx.Keeps.gets _).bind fun messages => Tx.Keeps.pure _

theorem lockConversation_keeps (accountId conversationId : Uuid) :
    Tx.Keeps (Same view) (lockConversation accountId conversationId) :=
  (Tx.Keeps.gets _).bind fun _ => Tx.Keeps.orRaise _ _

/-! ### What the operations write -/

/-- A view of the database in which none of the tables that the history operations write shows
up. -/
structure Hidden (view : Db → γ) : Prop where
  conversations : ∀ t db, view { db with conversations := t } = view db
  conversationLinks : ∀ t db, view { db with conversationLinks := t } = view db
  auditEvents : ∀ t db, view { db with auditEvents := t } = view db

section frame

variable (hv : Hidden view)

include hv

theorem continueFrom_keeps (accountId conversationId : Uuid) (context : AuditContext) :
    Tx.Keeps (Same view) (continueFrom rt accountId conversationId context) := by
  unfold continueFrom insertContinuation
  refine (detail_keeps _ _ _).bind fun detail => ?_
  refine (Same.newUuid rt).bind fun id => ?_
  refine (Tx.Keeps.gets _).bind fun began => ?_
  refine (Relation.add_keeps hv.conversations _).bind fun _ => ?_
  refine (Same.newUuid rt).bind fun linkId => ?_
  refine (Relation.add_keeps hv.conversationLinks _).bind fun _ => ?_
  exact (AuditService.append_keeps hv.auditEvents).bind fun _ => Tx.Keeps.pure _

theorem softDelete_keeps (accountId conversationId : Uuid) (expectedVersion retentionDays : ℤ)
    (context : AuditContext) :
    Tx.Keeps (Same view)
      (softDelete rt accountId conversationId expectedVersion retentionDays context) := by
  unfold softDelete
  refine (lockConversation_keeps _ _).bind fun row => ?_
  refine (Tx.Keeps.raiseIf _ _).bind fun _ => ?_
  refine (Same.utcNow rt).bind fun deletedAt => ?_
  refine (Same.utcNow rt).bind fun now => ?_
  refine (Relation.save_keeps fun db => hv.conversations _ db).bind fun _ => ?_
  exact (AuditService.append_keeps hv.auditEvents).bind fun _ => Tx.Keeps.pure _

theorem restore_keeps (accountId conversationId : Uuid) (expectedVersion : ℤ)
    (context : AuditContext) :
    Tx.Keeps (Same view) (restore rt accountId conversationId expectedVersion context) := by
  unfold restore
  refine (lockConversation_keeps _ _).bind fun row => ?_
  refine (Tx.Keeps.raiseIf _ _).bind fun _ => ?_
  refine (Same.utcNow rt).bind fun now => ?_
  refine (Tx.Keeps.raiseIf _ _).bind fun _ => ?_
  refine (Relation.save_keeps fun db => hv.conversations _ db).bind fun _ => ?_
  exact (AuditService.append_keeps hv.auditEvents).bind fun _ => Tx.Keeps.pure _

end frame

/-! ### Where the operations refuse -/

theorem insertContinuation_noDomain (accountId : Uuid) (original : Conversation)
    (context : AuditContext) : NoDomain (insertContinuation rt accountId original context) := by
  unfold insertContinuation
  refine (newUuid_noDomain rt).bind fun id => ?_
  refine (Tx.RaisesOnly.gets _).bind fun began => ?_
  refine (Relation.add_noDomain _).bind fun _ => ?_
  refine (newUuid_noDomain rt).bind fun linkId => ?_
  refine (Relation.add_noDomain _).bind fun _ => ?_
  exact AuditService.append_noDomain.bind fun _ => Tx.RaisesOnly.pure _

theorem continueFrom_clean (accountId conversationId : Uuid) (context : AuditContext) :
    Tx.Clean Exc.IsDomain (Same view) (continueFrom rt accountId conversationId context) :=
  Tx.Clean.bind_of_keeps (detail_keeps _ _ _) fun _ => (insertContinuation_noDomain _ _ _).clean

theorem softDelete_clean (accountId conversationId : Uuid) (expectedVersion retentionDays : ℤ)
    (context : AuditContext) :
    Tx.Clean Exc.IsDomain (Same view)
      (softDelete rt accountId conversationId expectedVersion retentionDays context) := by
  unfold softDelete
  refine Tx.Clean.bind_of_keeps (lockConversation_keeps _ _) fun row => ?_
  refine Tx.Clean.bind_of_keeps (Tx.Keeps.raiseIf _ _) fun _ => ?_
  apply Tx.RaisesOnly.clean
  refine (utcNow_noDomain rt).bind fun deletedAt => ?_
  refine (utcNow_noDomain rt).bind fun now => ?_
  refine (Relation.save_noDomain _).bind fun _ => ?_
  exact AuditService.append_noDomain.bind fun _ => Tx.RaisesOnly.pure _

theorem restore_clean (accountId conversationId : Uuid) (expectedVersion : ℤ)
    (context : AuditContext) :
    Tx.Clean Exc.IsDomain (Same view) (restore rt accountId conversationId expectedVersion context) := by
  unfold restore
  refine Tx.Clean.bind_of_keeps (lockConversation_keeps _ _) fun row => ?_
  refine Tx.Clean.bind_of_keeps (Tx.Keeps.raiseIf _ _) fun _ => ?_
  refine Tx.Clean.bind_of_keeps (Same.utcNow rt) fun now => ?_
  refine Tx.Clean.bind_of_keeps (Tx.Keeps.raiseIf _ _) fun _ => ?_
  apply Tx.RaisesOnly.clean
  refine (Relation.save_noDomain _).bind fun _ => ?_
  exact AuditService.append_noDomain.bind fun _ => Tx.RaisesOnly.pure _

end KajovoDagmar.HistoryService
