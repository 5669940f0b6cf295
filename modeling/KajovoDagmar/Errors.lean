import KajovoDagmar.Library.Json

/-! # Domain errors

`DomainError` and its subclasses, and the exceptions a service call can end with.  An
exception other than a `DomainError` is a violated constraint of the database or carries the
value of `getattr(exc, "code", exc.__class__.__name__)`, which is all the program records of
it. -/

namespace KajovoDagmar

structure DomainError where
  code : String
  message : String
  statusCode : ℕ := 400
  details : Option Json := none
  durable : Bool := false
deriving Inhabited

namespace DomainError

/-- `ConflictError`. -/
def conflict (message : String) (details : Option Json := none) : DomainError :=
  ⟨"conflict", message, 409, details, false⟩

/-- `NotFoundError`. -/
def notFound (message : String) : DomainError := ⟨"not_found", message, 404, none, false⟩

/-- `UnauthorizedError`, the one subclass that is durable by construction. -/
def unauthorized (message : String := "Přihlášení je vyžadováno.") : DomainError :=
  ⟨"unauthorized", message, 401, none, true⟩

/-- `CapabilityUnavailableError`. -/
def capabilityUnavailable (capability reason : String) : DomainError :=
  ⟨"capability_unavailable", reason, 503, some (.obj [("capability", .str capability)]), false⟩

end DomainError

/-- What a service call can raise. -/
inductive Exc where
  | domain (e : DomainError)
  | integrity (constraint : String)
  | other (code : String)

namespace Exc

def IsDomain : Exc → Prop
  | domain _ => True
  | _ => False

instance : DecidablePred IsDomain
  | domain _ => isTrue trivial
  | integrity _ => isFalse id
  | other _ => isFalse id

/-- `getattr(exc, "durable", False)`. -/
def Durable : Exc → Prop
  | domain e => e.durable = true
  | _ => False

instance : DecidablePred Durable
  | domain e => inferInstanceAs (Decidable (e.durable = true))
  | integrity _ => isFalse id
  | other _ => isFalse id

/-- `getattr(exc, "code", exc.__class__.__name__)`; an `IntegrityError` carries the code under
which SQLAlchemy documents it. -/
def errorCode : Exc → String
  | domain e => e.code
  | integrity _ => "gkpj"
  | other code => code

/-- `if isinstance(exc, DomainError): exc.durable = True`. -/
def markDurable : Exc → Exc
  | domain e => domain { e with durable := true }
  | e => e

/-- The domain error that an outcome raises, if it does. -/
def refusal? {α : Type} : Except Exc α → Option DomainError
  | .error (.domain d) => some d
  | _ => none

theorem eq_of_refusal? {α σ : Type} {r : Except Exc α × σ} {d : DomainError}
    (h : refusal? r.1 = some d) : r = (.error (.domain d), r.2) := by
  obtain ⟨r, s⟩ := r
  unfold refusal? at h
  split at h
  · next d' hd =>
    obtain rfl := Option.some.inj h
    exact Prod.ext hd rfl
  · simp at h

/-- The unique constraint that an outcome violates, if it does. -/
def clash? {α : Type} : Except Exc α → Option String
  | .error (.integrity c) => some c
  | _ => none

theorem clash?_eq_some {α : Type} {r : Except Exc α} {c : String} (h : clash? r = some c) :
    r = .error (.integrity c) := by
  unfold clash? at h
  split at h
  · rw [Option.some.inj h]
  · simp at h

@[simp] theorem isDomain_domain (e : DomainError) : (domain e).IsDomain := trivial

@[simp] theorem not_isDomain_integrity (c : String) : ¬(integrity c).IsDomain := id

@[simp] theorem not_isDomain_other (c : String) : ¬(other c).IsDomain := id

@[simp] theorem isDomain_markDurable (e : Exc) : e.markDurable.IsDomain ↔ e.IsDomain := by
  cases e <;> rfl

/-- After `markDurable` the durable exceptions are exactly the domain errors. -/
@[simp] theorem durable_markDurable (e : Exc) : e.markDurable.Durable ↔ e.IsDomain := by
  cases e <;> simp [markDurable, Durable, IsDomain]

theorem Durable.isDomain {e : Exc} (h : e.Durable) : e.IsDomain := by
  cases e with
  | domain e => trivial
  | integrity c => exact h
  | other c => exact h

end Exc

end KajovoDagmar
