import Mathlib.Data.Nat.Notation

/-! # Programs over a database connection

A `Program` issues statements over one connection, commits, and runs commands outside of the
database.  What it has written since its last commit is `pending`; a statement sees the committed
store with that applied, and a commit publishes it.  Every statement and every commit may be refused
by the server, after which the transaction is rolled back, or may lose the connection, which leaves
open whether a commit has taken effect.

A program *records* an outcome when, between a store in which the outcome is open and the commit that
settles it, it writes nothing that concerns it.  `Recording.advances` is the step lemma of such a
program under all of these faults. -/

namespace Connection

/-- A program over the stores `σ`.  `τ` are the times at which statements run, `A` the answers of
commands and `α` the value that is returned. -/
inductive Program (σ τ A : Type) (α : Type) where
  | done (a : α)
  | raise (code : String)
  /-- A statement that, by what it sees, writes to the store, and goes on with what it has seen. -/
  | execute (write : τ → σ → σ → σ) (next : τ → σ → Program σ τ A α)
  | commit (next : Program σ τ A α)
  | command (next : Except String A → Program σ τ A α)

variable {σ τ A : Type} {α β : Type}

namespace Program

def bind : Program σ τ A α → (α → Program σ τ A β) → Program σ τ A β
  | done a, f => f a
  | raise code, _ => raise code
  | execute write next, f => execute write fun now s => (next now s).bind f
  | commit next, f => commit (next.bind f)
  | command next, f => command fun r => (next r).bind f

instance : Monad (Program σ τ A) where
  pure := done
  bind := bind

/-- A statement that only reads. -/
def query : Program σ τ A (τ × σ) := execute (fun _ _ s => s) fun now s => done (now, s)

def update (write : τ → σ → σ) : Program σ τ A PUnit.{1} :=
  execute (fun now _ => write now) fun _ _ => done ⟨⟩

/-- A command whose failure is raised. -/
def check : Program σ τ A A := command fun r => match r with
  | .ok a => done a
  | .error code => raise code

/-- The program is at its last commit. -/
def Last (p : Program σ τ A α) : Prop := ∃ a, p = commit (done a)

end Program

/-- What happens to the next statement: it succeeds, at some time and with an answer if it is a
command, it is refused, or the connection is lost, before or after a commit was applied. -/
inductive Outcome (τ A : Type) where
  | ok (now : τ) (answer : Except String A)
  | refused (code : String)
  | lost (applied : Bool) (code : String)

/-- The committed store, and what has been written since. -/
structure Conn (σ : Type) where
  committed : σ
  pending : σ → σ := id

/-- What a statement sees. -/
def Conn.view (c : Conn σ) : σ := c.pending c.committed

/-- The connection after its pending writes have been dropped. -/
def Conn.rollback (c : Conn σ) : Conn σ := { committed := c.committed }

/-- The connection after a commit. -/
def Conn.publish (c : Conn σ) : Conn σ := { committed := c.view }

/-- How a program goes on after a statement. -/
inductive Result (σ τ A : Type) (α : Type) where
  | next (p : Program σ τ A α)
  | raised (code : String) (lost : Bool)

/-- The next statement of a program. -/
def Program.advance : Program σ τ A α → Outcome τ A → Conn σ → Option (Result σ τ A α × Conn σ)
  | done _, _, _ => none
  | raise code, .ok _ _, c => some (.raised code false, c)
  | raise _, _, _ => none
  | execute write next, .ok now _, c =>
    some (.next (next now c.view), { c with pending := fun s => write now c.view (c.pending s) })
  | execute _ _, .refused code, c => some (.raised code false, c)
  | execute _ _, .lost _ code, c => some (.raised code true, c.rollback)
  | commit next, .ok _ _, c => some (.next next, c.publish)
  | commit _, .refused code, c => some (.raised code false, c)
  | commit _, .lost applied code, c =>
    some (.raised code true, if applied then c.publish else c.rollback)
  | command next, .ok _ answer, c => some (.next (next answer), c)
  | command _, _, _ => none

/-- A program that runs no commands and raises nothing itself. -/
inductive Sure : Program σ τ A α → Prop where
  | done (a : α) : Sure (.done a)
  | execute {write : τ → σ → σ → σ} {next : τ → σ → Program σ τ A α} (hnext : ∀ now s, Sure (next now s)) :
      Sure (.execute write next)
  | commit {next : Program σ τ A α} (hnext : Sure next) : Sure (.commit next)

theorem Sure.bind {p : Program σ τ A α} {f : α → Program σ τ A β} (hp : Sure p) (hf : ∀ a, Sure (f a)) :
    Sure (p >>= f) := by
  induction hp with
  | done a => exact hf a
  | execute _ ih => exact .execute ih
  | commit _ ih => exact .commit ih

/-- Only a lost connection is noticed as one. -/
theorem outcome_of_raised_lost {c c' : Conn σ} {p : Program σ τ A α} {o : Outcome τ A} {code : String}
    (h : p.advance o c = some (.raised code true, c')) : ∃ applied, o = .lost applied code := by
  cases o with
  | ok now answer => cases p <;> simp [Program.advance] at h
  | refused code => cases p <;> simp [Program.advance] at h
  | lost applied code' =>
      refine ⟨applied, ?_⟩
      cases p <;> simp [Program.advance] at h
      · rw [h.1]
      · rw [h.1]

/-- A sure program raises only what the server refuses. -/
theorem Sure.outcome {c c' : Conn σ} {p : Program σ τ A α} {o : Outcome τ A} {code : String} (hp : Sure p)
    (h : p.advance o c = some (.raised code false, c')) : o = .refused code := by
  cases o with
  | ok now answer => cases hp <;> simp [Program.advance] at h
  | refused code' =>
      cases hp <;> simp [Program.advance] at h
      · rw [h.1]
      · rw [h.1]
  | lost applied code' => cases hp <;> simp [Program.advance] at h

theorem Sure.next {c c' : Conn σ} {p p' : Program σ τ A α} {o : Outcome τ A} (hp : Sure p)
    (h : p.advance o c = some (.next p', c')) : Sure p' := by
  cases hp with
  | done a => exact absurd h (by simp [Program.advance])
  | execute hnext =>
      cases o with
      | ok now answer =>
          obtain ⟨hnext', -⟩ := Prod.mk.inj (Option.some.inj h)
          obtain rfl := Result.next.inj hnext'
          exact hnext now c.view
      | refused code => exact absurd h (by simp [Program.advance])
      | lost applied code => exact absurd h (by simp [Program.advance])
  | commit hnext =>
      cases o with
      | ok now answer =>
          obtain ⟨hnext', -⟩ := Prod.mk.inj (Option.some.inj h)
          obtain rfl := Result.next.inj hnext'
          exact hnext
      | refused code => exact absurd h (by simp [Program.advance])
      | lost applied code => exact absurd h (by simp [Program.advance])

/-! ### Programs that record an outcome -/

section recording

variable {ν : Type} (view : σ → ν) (Open Closed : ν → Prop)

/-- A write that does not concern the outcome. -/
def Keeps (write : σ → σ) : Prop := ∀ s, view (write s) = view s

/-- A write that settles the outcome. -/
def Settles (write : σ → σ) : Prop := ∀ s, Open (view s) → Closed (view (write s))

/-- A program that does not concern the outcome. -/
inductive Spares : Program σ τ A α → Prop where
  | done (a : α) : Spares (.done a)
  | raise (code : String) : Spares (.raise code)
  | execute {write : τ → σ → σ → σ} {next : τ → σ → Program σ τ A α} (hwrite : ∀ now s, Keeps view (write now s))
      (hnext : ∀ now s, Spares (next now s)) : Spares (.execute write next)
  | commit {next : Program σ τ A α} (hnext : Spares next) : Spares (.commit next)
  | command {next : Except String A → Program σ τ A α} (hnext : ∀ r, Spares (next r)) :
      Spares (.command next)

/-- A program that has settled the outcome and ends with the commit of that. -/
inductive Settled : Program σ τ A α → Prop where
  | raise (code : String) : Settled (.raise code)
  | execute {write : τ → σ → σ → σ} {next : τ → σ → Program σ τ A α} (hwrite : ∀ now s, Keeps view (write now s))
      (hnext : ∀ now s, Settled (next now s)) : Settled (.execute write next)
  | commit (a : α) : Settled (.commit (.done a))
  | command {next : Except String A → Program σ τ A α} (hnext : ∀ r, Settled (next r)) :
      Settled (.command next)

/-- A program that settles the outcome, unless it raises before that. -/
inductive Records : Program σ τ A α → Prop where
  | raise (code : String) : Records (.raise code)
  | execute {write : τ → σ → σ → σ} {next : τ → σ → Program σ τ A α} (hwrite : ∀ now s, Keeps view (write now s))
      (hnext : ∀ now s, Records (next now s)) : Records (.execute write next)
  | commit {next : Program σ τ A α} (hnext : Records next) : Records (.commit next)
  | command {next : Except String A → Program σ τ A α} (hnext : ∀ r, Records (next r)) :
      Records (.command next)
  | settle {write : τ → σ → σ → σ} {next : τ → σ → Program σ τ A α}
      (hwrite : ∀ now s, Settles view Open Closed (write now s)) (hnext : ∀ now s, Settled view (next now s)) :
      Records (.execute write next)

variable {view Open Closed}

theorem Keeps.id : Keeps view (fun s => s) := fun _ => rfl

theorem Keeps.comp {w w' : σ → σ} (hw' : Keeps view w') (hw : Keeps view w) : Keeps view fun s => w' (w s) :=
  fun s => (hw' (w s)).trans (hw s)

theorem Settles.comp_keeps {w w' : σ → σ} (hw' : Settles view Open Closed w') (hw : Keeps view w) :
    Settles view Open Closed fun s => w' (w s) := by
  intro s hs
  rw [← hw s] at hs
  exact hw' (w s) hs

theorem Keeps.comp_settles {w w' : σ → σ} (hw' : Keeps view w') (hw : Settles view Open Closed w) :
    Settles view Open Closed fun s => w' (w s) := by
  intro s hs
  have hclosed := hw s hs
  rw [← hw' (w s)] at hclosed
  exact hclosed

theorem Spares.query : Spares view (Program.query : Program σ τ A (τ × σ)) :=
  .execute (fun _ _ => .id) fun _ _ => .done _

theorem Spares.update {write : τ → σ → σ} (h : ∀ now, Keeps view (write now)) :
    Spares view (Program.update write : Program σ τ A PUnit.{1}) :=
  .execute (fun now _ => h now) fun _ _ => .done _

theorem Spares.check : Spares view (Program.check : Program σ τ A A) := by
  refine .command fun r => ?_
  cases r with
  | ok a => exact .done a
  | error code => exact .raise code

theorem Spares.bind {p : Program σ τ A α} {f : α → Program σ τ A β} (hp : Spares view p)
    (hf : ∀ a, Spares view (f a)) : Spares view (p >>= f) := by
  induction hp with
  | done a => exact hf a
  | raise code => exact .raise code
  | execute hwrite _ ih => exact .execute hwrite ih
  | commit _ ih => exact .commit ih
  | command _ ih => exact .command ih

/-- What comes before a program that records an outcome. -/
theorem Spares.records {p : Program σ τ A α} {f : α → Program σ τ A β} (hp : Spares view p)
    (hf : ∀ a, Records view Open Closed (f a)) : Records view Open Closed (p >>= f) := by
  induction hp with
  | done a => exact hf a
  | raise code => exact .raise code
  | execute hwrite _ ih => exact .execute hwrite ih
  | commit _ ih => exact .commit ih
  | command _ ih => exact .command ih

/-- A program that first settles the outcome. -/
theorem Records.update {write : τ → σ → σ} {f : PUnit.{1} → Program σ τ A β}
    (hwrite : ∀ now, Settles view Open Closed (write now)) (hf : Settled view (f ⟨⟩)) :
    Records view Open Closed (Program.update write >>= f) :=
  .settle (fun now _ => hwrite now) fun _ _ => hf

/-- What comes between the settling of the outcome and its commit. -/
theorem Settled.bind_query {f : τ × σ → Program σ τ A β} (hf : ∀ x, Settled view (f x)) :
    Settled view (Program.query >>= f) :=
  .execute (fun _ _ => .id) fun now s => hf (now, s)

theorem Settled.bind_update {write : τ → σ → σ} {f : PUnit.{1} → Program σ τ A β}
    (hwrite : ∀ now, Keeps view (write now)) (hf : Settled view (f ⟨⟩)) :
    Settled view (Program.update write >>= f) :=
  .execute (fun now _ => hwrite now) fun _ _ => hf

/-- A connection whose program has the outcome yet to settle, or has settled it and has the commit yet
to come. -/
def Recording (view : σ → ν) (Open Closed : ν → Prop) (c : Conn σ) (p : Program σ τ A α) : Prop :=
  Open (view c.committed) ∧
    (Keeps view c.pending ∧ Records view Open Closed p ∨
      Settles view Open Closed c.pending ∧ Settled view p)

/-- How a program that records an outcome goes on. -/
inductive Advances (view : σ → ν) (Open Closed : ν → Prop) (c : Conn σ) (p : Program σ τ A α)
    (o : Outcome τ A) : Result σ τ A α → Conn σ → Prop where
  | on {c' : Conn σ} {p' : Program σ τ A α} (h : Recording view Open Closed c' p') :
      Advances view Open Closed c p o (.next p') c'
  | recorded {a : α} (h : Closed (view c.view)) : Advances view Open Closed c p o (.next (.done a)) c.publish
  | raised {c' : Conn σ} {code : String} (h : Open (view c'.committed)) :
      Advances view Open Closed c p o (.raised code false) c'
  | lost {c' : Conn σ} {code : String} (h : Open (view c'.committed))
      (hnot : ¬(p.Last ∧ ∃ code, o = .lost true code)) : Advances view Open Closed c p o (.raised code true) c'
  /-- The commit has taken effect, although the program does not learn of it. -/
  | unheard {code : String} (h : Closed (view c.view)) :
      Advances view Open Closed c p o (.raised code true) c.publish

theorem not_last_execute {write : τ → σ → σ → σ} {next : τ → σ → Program σ τ A α} :
    ¬(Program.execute write next).Last := by
  rintro ⟨a, h⟩
  exact absurd h (by simp)

theorem Settled.advances {c c' : Conn σ} {p : Program σ τ A α} {o : Outcome τ A} {r : Result σ τ A α}
    (hopen : Open (view c.committed)) (hpending : Settles view Open Closed c.pending) (hp : Settled view p)
    (h : p.advance o c = some (r, c')) : Advances view Open Closed c p o r c' := by
  cases hp with
  | raise code =>
      cases o with
      | ok now answer =>
          obtain ⟨rfl, rfl⟩ := Prod.mk.inj (Option.some.inj h)
          exact .raised hopen
      | refused code => exact absurd h (by simp [Program.advance])
      | lost applied code => exact absurd h (by simp [Program.advance])
  | execute hwrite hnext =>
      cases o with
      | ok now answer =>
          obtain ⟨rfl, rfl⟩ := Prod.mk.inj (Option.some.inj h)
          exact .on ⟨hopen, .inr ⟨(hwrite now c.view).comp_settles hpending, hnext now c.view⟩⟩
      | refused code =>
          obtain ⟨rfl, rfl⟩ := Prod.mk.inj (Option.some.inj h)
          exact .raised hopen
      | lost applied code =>
          obtain ⟨rfl, rfl⟩ := Prod.mk.inj (Option.some.inj h)
          exact .lost hopen fun hlast => not_last_execute hlast.1
  | commit a =>
      have hclosed : Closed (view c.view) := hpending c.committed hopen
      cases o with
      | ok now answer =>
          obtain ⟨rfl, rfl⟩ := Prod.mk.inj (Option.some.inj h)
          exact .recorded hclosed
      | refused code =>
          obtain ⟨rfl, rfl⟩ := Prod.mk.inj (Option.some.inj h)
          exact .raised hopen
      | lost applied code =>
          obtain ⟨rfl, rfl⟩ := Prod.mk.inj (Option.some.inj h)
          cases applied with
          | true => exact .unheard hclosed
          | false =>
              refine .lost hopen ?_
              rintro ⟨-, code', hcode⟩
              exact absurd hcode (by simp)
  | command hnext =>
      cases o with
      | ok now answer =>
          obtain ⟨rfl, rfl⟩ := Prod.mk.inj (Option.some.inj h)
          exact .on ⟨hopen, .inr ⟨hpending, hnext answer⟩⟩
      | refused code => exact absurd h (by simp [Program.advance])
      | lost applied code => exact absurd h (by simp [Program.advance])

theorem Settled.not_done {a : α} : ¬Settled view (.done a : Program σ τ A α) := by
  rintro ⟨⟩

theorem Records.not_done {a : α} : ¬Records view Open Closed (.done a : Program σ τ A α) := by
  rintro ⟨⟩

theorem Records.advances {c c' : Conn σ} {p : Program σ τ A α} {o : Outcome τ A} {r : Result σ τ A α}
    (hopen : Open (view c.committed)) (hpending : Keeps view c.pending)
    (hp : Records view Open Closed p) (h : p.advance o c = some (r, c')) :
    Advances view Open Closed c p o r c' := by
  have hpublish : Open (view c.publish.committed) := by
    rw [Conn.publish, Conn.view, hpending]
    exact hopen
  cases hp with
  | raise code =>
      cases o with
      | ok now answer =>
          obtain ⟨rfl, rfl⟩ := Prod.mk.inj (Option.some.inj h)
          exact .raised hopen
      | refused code => exact absurd h (by simp [Program.advance])
      | lost applied code => exact absurd h (by simp [Program.advance])
  | execute hwrite hnext =>
      cases o with
      | ok now answer =>
          obtain ⟨rfl, rfl⟩ := Prod.mk.inj (Option.some.inj h)
          exact .on ⟨hopen, .inl ⟨(hwrite now c.view).comp hpending, hnext now c.view⟩⟩
      | refused code =>
          obtain ⟨rfl, rfl⟩ := Prod.mk.inj (Option.some.inj h)
          exact .raised hopen
      | lost applied code =>
          obtain ⟨rfl, rfl⟩ := Prod.mk.inj (Option.some.inj h)
          exact .lost hopen fun hlast => not_last_execute hlast.1
  | settle hwrite hnext =>
      cases o with
      | ok now answer =>
          obtain ⟨rfl, rfl⟩ := Prod.mk.inj (Option.some.inj h)
          exact .on ⟨hopen, .inr ⟨(hwrite now c.view).comp_keeps hpending, hnext now c.view⟩⟩
      | refused code =>
          obtain ⟨rfl, rfl⟩ := Prod.mk.inj (Option.some.inj h)
          exact .raised hopen
      | lost applied code =>
          obtain ⟨rfl, rfl⟩ := Prod.mk.inj (Option.some.inj h)
          exact .lost hopen fun hlast => not_last_execute hlast.1
  | @commit next hnext =>
      -- the outcome is still open, so this is not the last commit
      have hlast : ¬(Program.commit next).Last := by
        rintro ⟨a, heq⟩
        obtain rfl := Program.commit.inj heq
        exact hnext.not_done
      cases o with
      | ok now answer =>
          obtain ⟨rfl, rfl⟩ := Prod.mk.inj (Option.some.inj h)
          exact .on ⟨hpublish, .inl ⟨Keeps.id, hnext⟩⟩
      | refused code =>
          obtain ⟨rfl, rfl⟩ := Prod.mk.inj (Option.some.inj h)
          exact .raised hopen
      | lost applied code =>
          obtain ⟨rfl, rfl⟩ := Prod.mk.inj (Option.some.inj h)
          refine .lost ?_ fun hl => hlast hl.1
          cases applied with
          | true => exact hpublish
          | false => exact hopen
  | command hnext =>
      cases o with
      | ok now answer =>
          obtain ⟨rfl, rfl⟩ := Prod.mk.inj (Option.some.inj h)
          exact .on ⟨hopen, .inl ⟨hpending, hnext answer⟩⟩
      | refused code => exact absurd h (by simp [Program.advance])
      | lost applied code => exact absurd h (by simp [Program.advance])

/-- **Step lemma**: while a program records an outcome, every statement leaves the outcome open, unless
it is the commit that settles it. -/
theorem Recording.advances {c c' : Conn σ} {p : Program σ τ A α} {o : Outcome τ A} {r : Result σ τ A α}
    (hp : Recording view Open Closed c p) (h : p.advance o c = some (r, c')) :
    Advances view Open Closed c p o r c' := by
  obtain ⟨hopen, ⟨hpending, hrecords⟩ | ⟨hpending, hsettled⟩⟩ := hp
  · exact hrecords.advances hopen hpending h
  · exact hsettled.advances hopen hpending h

/-- The commit of the outcome that is lost although it has taken effect. -/
theorem Recording.closed_of_last {c : Conn σ} {p : Program σ τ A α} (hp : Recording view Open Closed c p)
    (hlast : p.Last) (code : String) :
    p.advance (.lost true code) c = some (.raised code true, c.publish) ∧
      Closed (view c.publish.committed) := by
  obtain ⟨a, rfl⟩ := hlast
  refine ⟨rfl, ?_⟩
  obtain ⟨hopen, ⟨-, hrecords⟩ | ⟨hpending, -⟩⟩ := hp
  · cases hrecords with
    | commit hnext => exact absurd hnext Records.not_done
  · exact hpending c.committed hopen

theorem Recording.not_done {c : Conn σ} {a : α} :
    ¬Recording view Open Closed c (.done a : Program σ τ A α) := by
  rintro ⟨-, ⟨-, hrecords⟩ | ⟨-, hsettled⟩⟩
  · exact hrecords.not_done
  · exact hsettled.not_done

end recording

end Connection
