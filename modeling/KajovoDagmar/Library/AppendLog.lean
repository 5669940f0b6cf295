import KajovoDagmar.Library.Runs
import Mathlib.Logic.Function.Basic
import Mathlib.Data.List.Induction

/-! # A log that transactions append to under one lock

Transactions run interleaved under READ COMMITTED.  To append a row, a transaction takes the
lock of the log, reads the latest row that it can see and inserts a row that is built from it
under the next number of a sequence.  The lock is kept to the end of the transaction, or until
the savepoint that took it is rolled back; numbers that were drawn are never given back.

Whatever holds of the empty log, is kept by appending a row that is built from the last one and
passes to prefixes holds of the committed rows in every state that is reached. -/

namespace AppendLog

universe u v

/-- How the rows `E` are built: the request `r` becomes `build r n latest` under the number
`n`. -/
structure Scheme (E : Type u) (R : Type v) where
  id : E → ℕ
  build : R → ℕ → Option E → E
  id_build : ∀ r n latest, id (build r n latest) = n

/-- What a savepoint (or the transaction outside of any) has written, and whether it has taken
the lock. -/
structure Level (E : Type u) where
  rows : List E := []
  locked : Bool := false

/-- The next statement of a transaction. -/
inductive Phase (E : Type u) (R : Type v) where
  | idle
  /-- The lock is taken: read the latest row. -/
  | locked (r : R)
  /-- The latest row has been read: insert. -/
  | seen (r : R) (latest : Option E)

/-- A transaction, with its innermost level first. -/
structure Txn (E : Type u) (R : Type v) where
  levels : List (Level E) := [{}]
  phase : Phase E R := .idle

/-- One statement of a transaction. -/
inductive Action (R : Type v) where
  | savepoint
  | release
  | rollbackTo
  | lock (r : R)
  | read
  | insert
  /-- The insertion is given up; a number may have been drawn for it. -/
  | skip

inductive Event (R : Type v) where
  | begin (i : ℕ)
  | act (i : ℕ) (a : Action R)
  | commit (i : ℕ)
  | rollback (i : ℕ)

structure State (E : Type u) (R : Type v) where
  /-- The committed rows, in the order of the commits. -/
  committed : List E := []
  next : ℕ := 1
  owner : Option ℕ := none
  txn : ℕ → Option (Txn E R) := fun _ => none

variable {E : Type u} {R : Type v}

/-- The row with the largest number. -/
def latestBy (id : E → ℕ) (rows : List E) : Option E :=
  rows.foldl (fun best e => match best with
    | none => some e
    | some b => if id b < id e then some e else some b) none

def Txn.locked (t : Txn E R) : Bool := t.levels.any Level.locked

/-- What a transaction has written, in order. -/
def ownRows : List (Level E) → List E
  | [] => []
  | l :: outer => ownRows outer ++ l.rows

def Txn.own (t : Txn E R) : List E := ownRows t.levels

/-- One statement of a transaction that sees the given committed rows. -/
def act (c : Scheme E R) (committed : List E) (next : ℕ) (t : Txn E R) :
    Action R → Option (Txn E R × ℕ)
  | .savepoint => match t.phase with
    | .idle => some ({ t with levels := {} :: t.levels }, next)
    | _ => none
  | .release => match t.phase, t.levels with
    | .idle, l :: m :: rest =>
      some ({ t with levels := { rows := m.rows ++ l.rows, locked := l.locked || m.locked } :: rest }, next)
    | _, _ => none
  | .rollbackTo => match t.levels with
    | _ :: m :: rest => some ({ levels := m :: rest }, next)
    | _ => none
  | .lock r => match t.phase, t.levels with
    | .idle, l :: rest => some ({ levels := { l with locked := true } :: rest, phase := .locked r }, next)
    | _, _ => none
  | .read => match t.phase with
    | .locked r => some ({ t with phase := .seen r (latestBy c.id (committed ++ t.own)) }, next)
    | _ => none
  | .insert => match t.phase, t.levels with
    | .seen r latest, l :: rest =>
      some ({ levels := { l with rows := l.rows ++ [c.build r next latest] } :: rest }, next + 1)
    | _, _ => none
  | .skip => match t.phase with
    | .idle => none
    | _ => some ({ t with phase := .idle }, next + 1)

/-- The lock is free for a transaction that asks for it. -/
def State.free (s : State E R) (i : ℕ) : Action R → Bool
  | .lock _ => s.owner.isNone || s.owner == some i
  | _ => true

/-- The transaction goes on as `t`. -/
def State.put (s : State E R) (i : ℕ) (t : Txn E R) (next : ℕ) : State E R :=
  { s with
    next := next
    owner := if t.locked then some i else if s.owner = some i then none else s.owner
    txn := Function.update s.txn i (some t) }

/-- The transaction has ended and leaves the given committed rows. -/
def State.finish (s : State E R) (i : ℕ) (committed : List E) : State E R :=
  { s with
    committed := committed
    owner := if s.owner = some i then none else s.owner
    txn := Function.update s.txn i none }

def step (c : Scheme E R) (s : State E R) : Event R → Option (State E R)
  | .begin i => if (s.txn i).isNone then some (s.put i {} s.next) else none
  | .act i a => (s.txn i).bind fun t => if s.free i a then
      (act c s.committed s.next t a).map fun tn => s.put i tn.1 tn.2 else none
  | .commit i => (s.txn i).bind fun t => match t.phase with
    | .idle => some (s.finish i (s.committed ++ t.own))
    | _ => none
  | .rollback i => (s.txn i).map fun _ => s.finish i s.committed

/-- What one step does. -/
inductive Moves (c : Scheme E R) (s : State E R) : Event R → State E R → Prop where
  | begin {i : ℕ} (hi : s.txn i = none) : Moves c s (.begin i) (s.put i {} s.next)
  | act {i : ℕ} {a : Action R} {t t' : Txn E R} {next : ℕ} (ht : s.txn i = some t)
      (hfree : s.free i a = true) (ha : act c s.committed s.next t a = some (t', next)) :
      Moves c s (.act i a) (s.put i t' next)
  | commit {i : ℕ} {t : Txn E R} (ht : s.txn i = some t) :
      Moves c s (.commit i) (s.finish i (s.committed ++ t.own))
  | rollback {i : ℕ} {t : Txn E R} (ht : s.txn i = some t) :
      Moves c s (.rollback i) (s.finish i s.committed)

variable {c : Scheme E R}

theorem moves_of_step {s s' : State E R} {e : Event R} (h : step c s e = some s') : Moves c s e s' := by
  cases e with
  | begin i =>
      simp only [step] at h
      split at h
      · next hi =>
        obtain rfl := Option.some.inj h
        exact .begin (Option.isNone_iff_eq_none.mp hi)
      · simp at h
  | act i a =>
      obtain ⟨t, ht, h⟩ := Option.bind_eq_some_iff.mp h
      split at h
      · next hfree =>
        obtain ⟨⟨t', next⟩, ha, rfl⟩ := Option.map_eq_some_iff.mp h
        exact .act ht hfree ha
      · simp at h
  | commit i =>
      obtain ⟨t, ht, h⟩ := Option.bind_eq_some_iff.mp h
      split at h
      · obtain rfl := Option.some.inj h
        exact .commit ht
      · simp at h
  | rollback i =>
      obtain ⟨t, ht, rfl⟩ := Option.map_eq_some_iff.mp h
      exact .rollback ht

/-! ### Numbers -/

/-- The numbers of the rows increase and have all been drawn. -/
def Ordered (c : Scheme E R) (next : ℕ) (rows : List E) : Prop :=
  rows.Pairwise (fun a b => c.id a < c.id b) ∧ ∀ e ∈ rows, c.id e < next

theorem Ordered.prefix {next : ℕ} {rows more : List E} (h : Ordered c next (rows ++ more)) :
    Ordered c next rows :=
  ⟨(List.pairwise_append.mp h.1).1, fun e he => h.2 e (List.mem_append_left _ he)⟩

theorem Ordered.mono {next next' : ℕ} {rows : List E} (h : Ordered c next rows) (hle : next ≤ next') :
    Ordered c next' rows :=
  ⟨h.1, fun e he => Nat.lt_of_lt_of_le (h.2 e he) hle⟩

theorem Ordered.concat {next : ℕ} {rows : List E} {e : E} (h : Ordered c next rows)
    (he : c.id e = next) : Ordered c (next + 1) (rows ++ [e]) := by
  constructor
  · rw [List.pairwise_append]
    refine ⟨h.1, List.pairwise_singleton _ _, ?_⟩
    intro a ha b hb
    obtain rfl := List.mem_singleton.mp hb
    rw [he]
    exact h.2 a ha
  · intro x hx
    rcases List.mem_append.mp hx with hx | hx
    · have hlt := h.2 x hx
      omega
    · obtain rfl := List.mem_singleton.mp hx
      omega

/-- The row with the largest number is the last one. -/
theorem latestBy_eq {id : E → ℕ} {rows : List E} (h : rows.Pairwise fun a b => id a < id b) :
    latestBy id rows = rows.getLast? := by
  induction rows using List.reverseRecOn with
  | nil => rfl
  | append_singleton rows e ih =>
      obtain ⟨hrows, -, hlt⟩ := List.pairwise_append.mp h
      have hlatest := ih hrows
      unfold latestBy at hlatest ⊢
      rw [List.foldl_append, hlatest, List.getLast?_append]
      cases hlast : rows.getLast? with
      | none => rfl
      | some b =>
          have hb : id b < id e := hlt b (List.mem_of_getLast? hlast) e List.mem_cons_self
          simp [hb]

/-! ### Invariants -/

section invariant

variable (Good : List E → Prop)

/-- What holds of a transaction in flight: rows are written under the lock and extend the
committed ones, and the row it has read is the latest one. -/
structure Txn.Sound (c : Scheme E R) (committed : List E) (next : ℕ) (t : Txn E R) : Prop where
  guarded : ∀ l ∈ t.levels, l.rows ≠ [] → l.locked = true
  busy : t.phase ≠ .idle → ∃ l rest, t.levels = l :: rest ∧ l.locked = true
  good : Good (committed ++ t.own)
  ordered : Ordered c next (committed ++ t.own)
  seen : ∀ r latest, t.phase = .seen r latest → latest = (committed ++ t.own).getLast?

structure Inv (c : Scheme E R) (s : State E R) : Prop where
  good : Good s.committed
  ordered : Ordered c s.next s.committed
  sound : ∀ i t, s.txn i = some t → t.Sound Good c s.committed s.next
  owner : ∀ i t, s.txn i = some t → t.locked = true → s.owner = some i

variable {Good}

theorem own_of_unlocked {levels : List (Level E)} (hguarded : ∀ l ∈ levels, l.rows ≠ [] → l.locked = true)
    (h : levels.any Level.locked = false) : ownRows levels = [] := by
  induction levels with
  | nil => rfl
  | cons l outer ih =>
      rw [List.any_cons, Bool.or_eq_false_iff] at h
      have hrows : l.rows = [] := by
        by_contra hne
        have hlocked := hguarded l List.mem_cons_self hne
        rw [h.1] at hlocked
        simp at hlocked
      rw [ownRows, ih (fun l hl => hguarded l (List.mem_cons_of_mem _ hl)) h.2, hrows]
      rfl

/-- A transaction without the lock has written nothing and is not about to. -/
theorem Txn.Sound.of_unlocked {committed : List E} {next : ℕ} {t : Txn E R}
    (h : t.Sound Good c committed next) (hlocked : t.locked = false) :
    t.own = [] ∧ t.phase = .idle := by
  refine ⟨own_of_unlocked h.guarded hlocked, ?_⟩
  by_contra hne
  obtain ⟨l, rest, hlevels, hl⟩ := h.busy hne
  rw [Txn.locked, hlevels, List.any_cons, hl] at hlocked
  simp at hlocked

theorem Txn.Sound.mono {committed : List E} {next next' : ℕ} {t : Txn E R}
    (h : t.Sound Good c committed next) (hle : next ≤ next') : t.Sound Good c committed next' :=
  ⟨h.guarded, h.busy, h.good, h.ordered.mono hle, h.seen⟩

/-- A transaction that has nothing of its own is sound on any good committed rows. -/
theorem Txn.Sound.on {committed committed' : List E} {next : ℕ} {t : Txn E R}
    (h : t.Sound Good c committed next) (hlocked : t.locked = false) (hgood : Good committed')
    (hordered : Ordered c next committed') : t.Sound Good c committed' next := by
  obtain ⟨hown, hphase⟩ := h.of_unlocked hlocked
  constructor
  · exact h.guarded
  · exact h.busy
  · rw [hown, List.append_nil]
    exact hgood
  · rw [hown, List.append_nil]
    exact hordered
  · intro r latest hseen
    rw [hphase] at hseen
    simp at hseen

section steps

variable (hshorter : ∀ rows more, Good (rows ++ more) → Good rows)
  (happend : ∀ rows r n, Good rows → Good (rows ++ [c.build r n rows.getLast?]))

include hshorter happend in
/-- One statement of a transaction keeps what holds of it. -/
theorem Txn.Sound.act {committed : List E} {next next' : ℕ} {t t' : Txn E R} {a : Action R}
    (h : t.Sound Good c committed next) (ha : act c committed next t a = some (t', next')) :
    t'.Sound Good c committed next' ∧ next ≤ next' := by
  obtain ⟨hguarded, hbusy, hgood, hordered, hseen⟩ := h
  obtain ⟨levels, phase⟩ := t
  cases a with
  | savepoint =>
      cases phase with
      | idle =>
          obtain ⟨rfl, rfl⟩ := Prod.mk.inj (Option.some.inj ha)
          have hown : ownRows ({} :: levels) = ownRows levels := List.append_nil _
          refine ⟨⟨?_, by simp, ?_, ?_, by simp⟩, Nat.le_refl _⟩
          · intro l hl hrows
            rcases List.mem_cons.mp hl with rfl | hl
            · exact absurd rfl hrows
            · exact hguarded l hl hrows
          · simpa only [Txn.own, hown] using hgood
          · simpa only [Txn.own, hown] using hordered
      | _ => simp [AppendLog.act] at ha
  | release =>
      cases phase with
      | idle =>
          match levels with
          | l :: m :: rest =>
              obtain ⟨rfl, rfl⟩ := Prod.mk.inj (Option.some.inj ha)
              have hown : ownRows ({ rows := m.rows ++ l.rows, locked := l.locked || m.locked } :: rest) =
                  ownRows (l :: m :: rest) := (List.append_assoc _ _ _).symm
              refine ⟨⟨?_, by simp, ?_, ?_, by simp⟩, Nat.le_refl _⟩
              · intro k hk hrows
                rcases List.mem_cons.mp hk with rfl | hk
                · -- one of the two levels has written, and has the lock
                  by_cases hl : l.rows = []
                  · have hm : m.rows ≠ [] := by simpa [hl] using hrows
                    simp [hguarded m (by simp) hm]
                  · simp [hguarded l (by simp) hl]
                · exact hguarded k (by simp [hk]) hrows
              · simpa only [Txn.own, hown] using hgood
              · simpa only [Txn.own, hown] using hordered
          | [] => simp [AppendLog.act] at ha
          | [l] => simp [AppendLog.act] at ha
      | _ => simp [AppendLog.act] at ha
  | rollbackTo =>
      match levels with
      | l :: m :: rest =>
          obtain ⟨rfl, rfl⟩ := Prod.mk.inj (Option.some.inj ha)
          have hown : committed ++ ownRows (l :: m :: rest) =
              committed ++ ownRows (m :: rest) ++ l.rows := (List.append_assoc _ _ _).symm
          simp only [Txn.own, hown] at hgood hordered
          refine ⟨⟨?_, by simp, hshorter _ _ hgood, hordered.prefix, by simp⟩, Nat.le_refl _⟩
          intro k hk hrows
          exact hguarded k (List.mem_cons_of_mem _ hk) hrows
      | [] => simp [AppendLog.act] at ha
      | [l] => simp [AppendLog.act] at ha
  | lock r =>
      cases phase with
      | idle =>
          match levels with
          | l :: rest =>
              obtain ⟨rfl, rfl⟩ := Prod.mk.inj (Option.some.inj ha)
              refine ⟨⟨?_, ?_, hgood, hordered, by simp⟩, Nat.le_refl _⟩
              · intro k hk hrows
                rcases List.mem_cons.mp hk with rfl | hk
                · rfl
                · exact hguarded k (List.mem_cons_of_mem _ hk) hrows
              · intro _
                exact ⟨_, _, rfl, rfl⟩
          | [] => simp [AppendLog.act] at ha
      | _ => simp [AppendLog.act] at ha
  | read =>
      cases phase with
      | locked r =>
          obtain ⟨rfl, rfl⟩ := Prod.mk.inj (Option.some.inj ha)
          refine ⟨⟨hguarded, fun _ => hbusy (by simp), hgood, hordered, ?_⟩, Nat.le_refl _⟩
          intro r' latest hphase
          obtain ⟨-, rfl⟩ := Phase.seen.inj hphase
          exact latestBy_eq hordered.1
      | _ => simp [AppendLog.act] at ha
  | insert =>
      cases phase with
      | seen r latest =>
          match levels with
          | l :: rest =>
              obtain ⟨rfl, rfl⟩ := Prod.mk.inj (Option.some.inj ha)
              have hlatest : latest = (committed ++ ownRows (l :: rest)).getLast? := hseen r latest rfl
              subst hlatest
              obtain ⟨l', rest', hlevels, hlocked⟩ := hbusy (by simp)
              obtain ⟨rfl, rfl⟩ := List.cons.inj hlevels
              have hown : committed ++ ownRows ({ l with rows := l.rows ++
                    [c.build r next (committed ++ ownRows (l :: rest)).getLast?] } :: rest) =
                  committed ++ ownRows (l :: rest) ++
                    [c.build r next (committed ++ ownRows (l :: rest)).getLast?] := by
                simp [ownRows]
              refine ⟨⟨?_, by simp, ?_, ?_, by simp⟩, Nat.le_succ _⟩
              · intro k hk hrows
                rcases List.mem_cons.mp hk with rfl | hk
                · exact hlocked
                · exact hguarded k (List.mem_cons_of_mem _ hk) hrows
              · simp only [Txn.own, hown]
                exact happend _ r next hgood
              · simp only [Txn.own, hown]
                exact hordered.concat (c.id_build _ _ _)
          | [] => simp [AppendLog.act] at ha
      | _ => simp [AppendLog.act] at ha
  | skip =>
      have hskip : some ({ levels := levels, phase := .idle }, next + 1) = some (t', next') := by
        cases phase with
        | idle => simp [AppendLog.act] at ha
        | _ => exact ha
      obtain ⟨rfl, rfl⟩ := Prod.mk.inj (Option.some.inj hskip)
      exact ⟨⟨hguarded, by simp, hgood, hordered.mono (Nat.le_succ _), by simp⟩, Nat.le_succ _⟩

/-- Only `lock` takes the lock. -/
theorem act_locked {committed : List E} {next next' : ℕ} {t t' : Txn E R} {a : Action R}
    (ha : act c committed next t a = some (t', next')) (hlocked : t'.locked = true) :
    t.locked = true ∨ ∃ r, a = .lock r := by
  obtain ⟨levels, phase⟩ := t
  cases a with
  | savepoint =>
      cases phase with
      | idle =>
          obtain ⟨rfl, rfl⟩ := Prod.mk.inj (Option.some.inj ha)
          exact .inl (by simpa [Txn.locked] using hlocked)
      | _ => simp [act] at ha
  | release =>
      cases phase with
      | idle =>
          match levels with
          | l :: m :: rest =>
              obtain ⟨rfl, rfl⟩ := Prod.mk.inj (Option.some.inj ha)
              exact .inl (by simpa [Txn.locked, or_assoc] using hlocked)
          | [] => simp [act] at ha
          | [l] => simp [act] at ha
      | _ => simp [act] at ha
  | rollbackTo =>
      match levels with
      | l :: m :: rest =>
          obtain ⟨rfl, rfl⟩ := Prod.mk.inj (Option.some.inj ha)
          left
          simp only [Txn.locked, List.any_cons, Bool.or_eq_true] at hlocked ⊢
          exact .inr hlocked
      | [] => simp [act] at ha
      | [l] => simp [act] at ha
  | lock r => exact .inr ⟨r, rfl⟩
  | read =>
      cases phase with
      | locked r =>
          obtain ⟨rfl, rfl⟩ := Prod.mk.inj (Option.some.inj ha)
          exact .inl hlocked
      | _ => simp [act] at ha
  | insert =>
      cases phase with
      | seen r latest =>
          match levels with
          | l :: rest =>
              obtain ⟨rfl, rfl⟩ := Prod.mk.inj (Option.some.inj ha)
              exact .inl hlocked
          | [] => simp [act] at ha
      | _ => simp [act] at ha
  | skip =>
      cases phase with
      | idle => simp [act] at ha
      | _ =>
          obtain ⟨rfl, rfl⟩ := Prod.mk.inj (Option.some.inj ha)
          exact .inl hlocked

omit hshorter happend in
theorem txn_put {s : State E R} {i j next : ℕ} {t u : Txn E R} (h : (s.put i t next).txn j = some u) :
    (j = i ∧ u = t) ∨ (j ≠ i ∧ s.txn j = some u) := by
  by_cases hj : j = i
  · subst hj
    simp only [State.put, Function.update_self, Option.some.injEq] at h
    exact .inl ⟨rfl, h.symm⟩
  · simp only [State.put, Function.update_of_ne hj] at h
    exact .inr ⟨hj, h⟩

theorem txn_finish {s : State E R} {i j : ℕ} {committed : List E} {u : Txn E R}
    (h : (s.finish i committed).txn j = some u) : j ≠ i ∧ s.txn j = some u := by
  by_cases hj : j = i
  · subst hj
    simp [State.finish] at h
  · simp only [State.finish, Function.update_of_ne hj] at h
    exact ⟨hj, h⟩

/-- The lock of one transaction is not that of another. -/
theorem Inv.not_locked {s : State E R} (h : Inv Good c s) {i j : ℕ} {t u : Txn E R}
    (ht : s.txn i = some t) (hu : s.txn j = some u) (hne : j ≠ i) (hlocked : t.locked = true) :
    u.locked = false := by
  by_contra hu'
  have hi := h.owner i t ht hlocked
  have hj := h.owner j u hu (by simpa using hu')
  exact hne (Option.some.inj (hj.symm.trans hi))

/-- A transaction goes on: the other ones keep what they know. -/
theorem Inv.put {s : State E R} (h : Inv Good c s) {i next : ℕ} {t : Txn E R}
    (hsound : t.Sound Good c s.committed next) (hle : s.next ≤ next)
    (hlock : t.locked = true → ∀ j, j ≠ i → s.owner ≠ some j) : Inv Good c (s.put i t next) where
  good := h.good
  ordered := h.ordered.mono hle
  sound j u hj := by
    rcases txn_put hj with ⟨rfl, rfl⟩ | ⟨-, hj⟩
    · exact hsound
    · exact (h.sound j u hj).mono hle
  owner j u hj hlocked := by
    rcases txn_put hj with ⟨rfl, rfl⟩ | ⟨hne, hj⟩
    · simp [State.put, hlocked]
    · have howner := h.owner j u hj hlocked
      have ht : t.locked = false := by
        by_contra ht
        exact hlock (by simpa using ht) j hne howner
      simp [State.put, ht, howner, hne]

theorem Inv.owner_finish {s : State E R} (h : Inv Good c s) {i j : ℕ} {committed : List E}
    {u : Txn E R} (hj : (s.finish i committed).txn j = some u) (hlocked : u.locked = true) :
    (s.finish i committed).owner = some j := by
  obtain ⟨hne, hj⟩ := txn_finish hj
  have howner := h.owner j u hj hlocked
  simp [State.finish, howner, hne]

include hshorter happend in
/-- **Step lemma.** -/
theorem Inv.of_step {s s' : State E R} {e : Event R} (h : Inv Good c s) (hs : step c s e = some s') :
    Inv Good c s' := by
  cases moves_of_step hs with
  | @begin i hi =>
      refine h.put ?_ (Nat.le_refl _) (by simp [Txn.locked])
      constructor
      · simp
      · simp
      · simpa [Txn.own, ownRows] using h.good
      · simpa [Txn.own, ownRows] using h.ordered
      · simp
  | @act i a t t' next ht hfree ha =>
      obtain ⟨hsound, hle⟩ := (h.sound i t ht).act hshorter happend ha
      refine h.put hsound hle fun hlocked j hne hj => ?_
      rcases act_locked ha hlocked with hlocked | ⟨r, rfl⟩
      · rw [h.owner i t ht hlocked] at hj
        exact hne (Option.some.inj hj).symm
      · simp only [State.free, hj, Option.isNone_some, Bool.false_or, beq_iff_eq,
          Option.some.injEq] at hfree
        exact hne hfree
  | @commit i t ht =>
      have hsound := h.sound i t ht
      refine ⟨hsound.good, hsound.ordered, ?_, ?_⟩
      · intro j u hj
        obtain ⟨hne, hj⟩ := txn_finish hj
        cases hlocked : t.locked with
        | true => exact (h.sound j u hj).on (h.not_locked ht hj hne hlocked) hsound.good hsound.ordered
        | false =>
            have hown := (hsound.of_unlocked hlocked).1
            show u.Sound Good c (s.committed ++ t.own) s.next
            rw [hown, List.append_nil]
            exact h.sound j u hj
      · exact fun j u hj => h.owner_finish hj
  | @rollback i t ht =>
      exact ⟨h.good, h.ordered, fun j u hj => h.sound j u (txn_finish hj).2,
        fun j u hj => h.owner_finish hj⟩

include hshorter happend in
/-- **Run lemma**: in every state that is reached from the empty log the committed rows are good
and in the order of their numbers. -/
theorem good_of_run (hnil : Good []) {es : List (Event R)} {s : State E R}
    (hr : Runs.run (step c) {} es = some s) : Good s.committed ∧ Ordered c s.next s.committed := by
  have hinv : Inv Good c s := by
    refine Runs.inv_of_run (fun s e s' h hs => h.of_step hshorter happend hs) ?_ hr
    exact ⟨hnil, ⟨List.Pairwise.nil, by simp⟩, by simp, by simp⟩
  exact ⟨hinv.good, hinv.ordered⟩

end steps

end invariant

/-- Committed rows stay, and rows are added behind them. -/
theorem grows_of_step {s s' : State E R} {e : Event R} (h : step c s e = some s') :
    ∃ more, s'.committed = s.committed ++ more := by
  cases moves_of_step h with
  | commit ht => exact ⟨_, rfl⟩
  | begin hi => exact ⟨[], (List.append_nil _).symm⟩
  | act ht hfree ha => exact ⟨[], (List.append_nil _).symm⟩
  | rollback ht => exact ⟨[], (List.append_nil _).symm⟩

theorem grows_of_run {s t : State E R} {es : List (Event R)} (hr : Runs.run (step c) s es = some t) :
    ∃ more, t.committed = s.committed ++ more := by
  refine Runs.inv_of_run (I := fun t => ∃ more, t.committed = s.committed ++ more) (fun u e u' hu hs => ?_)
    ⟨[], (List.append_nil _).symm⟩ hr
  obtain ⟨more, hmore⟩ := hu
  obtain ⟨new, hnew⟩ := grows_of_step hs
  exact ⟨more ++ new, by rw [hnew, hmore, List.append_assoc]⟩

end AppendLog
