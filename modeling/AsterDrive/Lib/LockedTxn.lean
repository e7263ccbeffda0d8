import AsterDrive.Lib.Interleave

/-!
# LockedTxn — transactions that serialize on one row lock

`Tx σ ε α` is the text of a transaction over a database `σ`: statements that read what is committed at
that moment (together with the transaction's own writes), questions whose answer the environment
chooses, the statement that takes the one row lock everybody contends for, writes, and a failure that
rolls back. `pure` is the commit. Processes run such texts one statement at a time (`system`); the lock
is held from the statement that takes it until the commit or the rollback.

Proof rules. `Holds p Q d` says what `p` does when nobody else commits: it ends with `Q`, or it fails.
`Guards I p` says that `p` writes nothing before it holds the lock, and that from any database with `I`
at the moment it gets the lock it commits one with `I` again. Both go through `bind`, and
`committed_invariant` turns `Guards I` for every text into an invariant of every interleaving: while a
transaction holds the lock no other one commits, so `Holds` tells what it will do.
-/

namespace AsterDrive.LockedTxn

variable {σ ε α β ρ : Type}

/-- The text of a transaction. -/
inductive Tx (σ ε α : Type) : Type
  | pure (a : α)
  | fail (e : ε)
  | read (k : σ → Tx σ ε α)
  | ask (k : Bool → Tx σ ε α)
  | lockRow (k : Tx σ ε α)
  | write (f : σ → σ) (k : Tx σ ε α)

namespace Tx

/-- One text after the other. -/
def bind : Tx σ ε α → (α → Tx σ ε β) → Tx σ ε β
  | pure a, f => f a
  | fail e, _ => fail e
  | read k, f => read fun s => (k s).bind f
  | ask k, f => ask fun b => (k b).bind f
  | lockRow k, f => lockRow (k.bind f)
  | write w k, f => write w (k.bind f)

instance : Monad (Tx σ ε) where
  pure := pure
  bind := bind

/-- A query. -/
def query (q : σ → Except ε α) : Tx σ ε α :=
  read fun s =>
    match q s with
    | .ok a => pure a
    | .error e => fail e

/-- A check that reads no table. -/
def check (x : Except ε α) : Tx σ ε α :=
  match x with
  | .ok a => pure a
  | .error e => fail e

/-- The environment refuses with `e`, or lets the transaction go on. -/
def mayRefuse (e : ε) : Tx σ ε Unit := ask fun b => if b then pure () else fail e

/-- Wait for the row lock. -/
def takeLock : Tx σ ε Unit := lockRow (pure ())

/-- An update statement. -/
def update (f : σ → σ) : Tx σ ε Unit := write f (pure ())

/-! ### What a text does while nobody else commits -/

def Holds : Tx σ ε α → (α → σ → Prop) → σ → Prop
  | pure a, Q, d => Q a d
  | fail _, _, _ => True
  | read k, Q, d => (k d).Holds Q d
  | ask k, Q, d => ∀ b, (k b).Holds Q d
  | lockRow k, Q, d => k.Holds Q d
  | write f k, Q, d => k.Holds Q (f d)

/-- What a text does before it has the lock: it ends with `Q`, fails, or takes the lock and then does
`R` from whatever database with `I` it finds. -/
def Before (I : σ → Prop) : Tx σ ε α → (α → Prop) → (α → σ → Prop) → Prop
  | pure a, Q, _ => Q a
  | fail _, _, _ => True
  | read k, Q, R => ∀ s, (k s).Before I Q R
  | ask k, Q, R => ∀ b, (k b).Before I Q R
  | lockRow k, _, R => ∀ s, I s → k.Holds R s
  | write _ _, _, _ => False

/-- The text changes the database only under the lock, and keeps `I`. -/
def Guards (I : σ → Prop) (p : Tx σ ε α) : Prop := p.Before I (fun _ => True) fun _ d => I d

section Rules

variable {I : σ → Prop} {p : Tx σ ε α} {f : α → Tx σ ε β} {d : σ}
variable {Q Q' : α → σ → Prop} {R : β → σ → Prop} {P P' : α → Prop} {T : β → Prop}

theorem Holds.mono (h : p.Holds Q d) (hQ : ∀ a d, Q a d → Q' a d) : p.Holds Q' d := by
  induction p generalizing d with
  | pure a => exact hQ a d h
  | fail e => trivial
  | read k ih => exact ih d h
  | ask k ih => exact fun b => ih b (h b)
  | lockRow k ih | write w k ih => exact ih h

theorem holds_bind : (p >>= f).Holds R d ↔ p.Holds (fun a d => (f a).Holds R d) d := by
  show (p.bind f).Holds R d ↔ _
  induction p generalizing d with
  | pure a | fail e => rfl
  | read k ih => exact ih d
  | ask k ih => exact forall_congr' fun b => ih b
  | lockRow k ih | write w k ih => exact ih

theorem before_bind (h : p.Before I (fun a => (f a).Before I T R) fun a d => (f a).Holds R d) :
    (p >>= f).Before I T R := by
  show (p.bind f).Before I T R
  induction p with
  | pure a => exact h
  | fail e => trivial
  | read k ih => exact fun s => ih s (h s)
  | ask k ih => exact fun b => ih b (h b)
  | lockRow k => exact fun s hs => (holds_bind).mpr (h s hs)
  | write w k => exact h.elim

/-! The statements, one rule each. -/

theorem holds_pure {a : α} : (Pure.pure a : Tx σ ε α).Holds Q d ↔ Q a d := Iff.rfl

theorem holds_query {q : σ → Except ε α} : (query q).Holds Q d ↔ ∀ a, q d = .ok a → Q a d := by
  show Holds (match q d with | .ok a => pure a | .error e => fail e) Q d ↔ _
  cases q d with
  | ok a | error e => simp [Holds]

theorem holds_check {x : Except ε α} : (check x : Tx σ ε α).Holds Q d ↔ ∀ a, x = .ok a → Q a d := by
  cases x with
  | ok a | error e => simp [check, Holds]

theorem holds_mayRefuse {e : ε} {Q : Unit → σ → Prop} : (mayRefuse e : Tx σ ε Unit).Holds Q d ↔ Q () d := by
  constructor
  · exact fun h => h true
  · intro h b
    cases b with
    | false => trivial
    | true => exact h

theorem holds_update {w : σ → σ} {Q : Unit → σ → Prop} : (update w : Tx σ ε Unit).Holds Q d ↔ Q () (w d) := Iff.rfl

theorem holds_takeLock {Q : Unit → σ → Prop} : (takeLock : Tx σ ε Unit).Holds Q d ↔ Q () d := Iff.rfl

theorem before_query {q : σ → Except ε α} (h : ∀ s a, q s = .ok a → P a) : (query q).Before I P Q := by
  intro s
  show Before I (match q s with | .ok a => pure a | .error e => fail e) P Q
  cases hq : q s with
  | ok a => exact h s a hq
  | error e => trivial

theorem before_check {x : Except ε α} (h : ∀ a, x = .ok a → P a) : (check x : Tx σ ε α).Before I P Q := by
  cases x with
  | ok a => exact h a rfl
  | error e => trivial

theorem before_takeLock {P : Unit → Prop} {Q : Unit → σ → Prop} (h : ∀ s, I s → Q () s) :
    (takeLock : Tx σ ε Unit).Before I P Q := h

theorem holds_forM {γ : Type} {l : List γ} {body : γ → Tx σ ε PUnit} {F : γ → Prop}
    (hbody : ∀ x ∈ l, (body x).Holds (fun _ d' => d' = d ∧ F x) d) :
    (l.forM body).Holds (fun _ d' => d' = d ∧ ∀ x ∈ l, F x) d := by
  induction l with
  | nil => exact ⟨rfl, by simp⟩
  | cons x xs ih =>
    show (body x >>= fun _ => xs.forM body).Holds _ d
    rw [holds_bind]
    refine (hbody x List.mem_cons_self).mono ?_
    rintro - d' ⟨rfl, hx⟩
    refine (ih fun y hy => hbody y (List.mem_cons_of_mem _ hy)).mono ?_
    rintro - d'' ⟨rfl, hxs⟩
    exact ⟨rfl, List.forall_mem_cons.mpr ⟨hx, hxs⟩⟩

theorem before_forM {γ : Type} {l : List γ} {body : γ → Tx σ ε PUnit} {P : PUnit → Prop} {Q : PUnit → σ → Prop}
    (hbody : ∀ x ∈ l, ∀ (P : PUnit → Prop) (Q : PUnit → σ → Prop), P () → (body x).Before I P Q)
    (hP : P ()) : (l.forM body).Before I P Q := by
  induction l with
  | nil => exact hP
  | cons x xs ih =>
    show (body x >>= fun _ => xs.forM body).Before I P Q
    refine before_bind (hbody x List.mem_cons_self _ _ ?_)
    exact ih fun y hy => hbody y (List.mem_cons_of_mem _ hy)

end Rules

end Tx

open Interleave

/-! ### Running the texts -/

/-- The committed database, and whether the row is locked. -/
structure Shared (σ : Type) where
  db : σ
  locked : Bool := false

/-- A connection: nothing to do, or in a transaction, with the writes it has made. -/
inductive Conn (σ ε : Type) : Type
  | idle
  | running (text : Tx σ ε Unit) (holder : Bool) (pending : σ → σ)

open Conn

/-- The choices of the scheduler: a request begins, the next statement runs (with the environment's
answer), the transaction is rolled back. -/
inductive Move (ρ : Type)
  | start (request : ρ)
  | next (answer : Bool)
  | rollback

/-- The transaction ends and gives the lock back. -/
def release (s : Shared σ) (holder : Bool) : Shared σ := { s with locked := s.locked && !holder }

/-- One statement. -/
def statement (answer : Bool) (s : Shared σ) (holder : Bool) (pending : σ → σ) :
    Tx σ ε Unit → Option (Shared σ × Conn σ ε)
  | .pure _ => some ({ release s holder with db := pending s.db }, .idle)
  | .fail _ => some (release s holder, .idle)
  | .read k => some (s, .running (k (pending s.db)) holder pending)
  | .ask k => some (s, .running (k answer) holder pending)
  | .lockRow k =>
    if holder then some (s, .running k true pending)
    else if s.locked then none
    else some ({ s with locked := true }, .running k true pending)
  | .write f k => some (s, .running k holder fun d => f (pending d))

/-- Connections that serve requests; `text` is the transaction of a request. -/
def system (text : ρ → Tx σ ε Unit) : System (Shared σ) (Conn σ ε) (Move ρ) where
  step
    | .start request, s, .idle => some (s, .running (text request) false id)
    | .next answer, s, .running p holder pending => statement answer s holder pending p
    | .rollback, s, .running _ holder _ => some (release s holder, .idle)
    | _, _, _ => none

/-- What holds of a connection: before the lock it has written nothing, and under the lock it is on its
way from what is committed to a database with `I`. -/
def Conn.Fine (I : σ → Prop) (s : Shared σ) : Conn σ ε → Prop
  | .idle => True
  | .running p false pending => pending = id ∧ p.Guards I
  | .running p true pending => s.locked = true ∧ p.Holds (fun _ d => I d) (pending s.db)

def Conn.holds : Conn σ ε → Bool
  | .running _ true _ => true
  | _ => false

/-- Two connections do not both hold the lock. -/
def Apart (p q : Conn σ ε) : Prop := ¬ (p.holds = true ∧ q.holds = true)

section Invariant

variable {I : σ → Prop} {text : ρ → Tx σ ε Unit} {s s' : Shared σ} {p p' q : Conn σ ε} {m : Move ρ}

/-- A connection that does not hold the lock does not read the shared state in its assertion. -/
theorem Conn.Fine.of_not_holds (h : q.Fine I s) (hq : q.holds = false) : q.Fine I s' := by
  cases q with
  | idle => trivial
  | running p holder pending =>
    cases holder with
    | false => exact h
    | true => simp [holds] at hq

/-- What a step does to the shared state: nothing, unless the moving connection held the lock or
takes it while it is free. -/
theorem step_shared (hI : I s.db) (hp : p.Fine I s) (h : (system text).step m s p = some (s', p')) :
    I s'.db ∧ (p.holds = false → s'.db = s.db ∧ (s.locked = true → s'.locked = true)) := by
  cases p with
  | idle =>
    cases m with
    | start request =>
      obtain ⟨rfl, rfl⟩ : s = s' ∧ _ = p' := by simpa [system] using h
      exact ⟨hI, fun _ => ⟨rfl, id⟩⟩
    | next answer | rollback => simp [system] at h
  | running p holder pending =>
    cases m with
    | start request => simp [system] at h
    | rollback =>
      obtain ⟨rfl, rfl⟩ : release s holder = s' ∧ idle = p' := by simpa [system] using h
      refine ⟨hI, fun hfree => ?_⟩
      cases holder with
      | false => exact ⟨rfl, by simp [release]⟩
      | true => simp [holds] at hfree
    | next answer =>
      simp only [system] at h
      cases p with
      | pure a =>
        obtain ⟨rfl, rfl⟩ : { release s holder with db := pending s.db } = s' ∧ idle = p' := by
          simpa [statement] using h
        cases holder with
        | false =>
          obtain ⟨rfl, -⟩ := hp
          exact ⟨hI, fun _ => ⟨rfl, by simp [release]⟩⟩
        | true => exact ⟨hp.2, fun hfree => by simp [holds] at hfree⟩
      | fail e =>
        obtain ⟨rfl, rfl⟩ : release s holder = s' ∧ idle = p' := by simpa [statement] using h
        refine ⟨hI, fun hfree => ?_⟩
        cases holder with
        | false => exact ⟨rfl, by simp [release]⟩
        | true => simp [holds] at hfree
      | read k | ask k | write f k =>
        obtain ⟨rfl, rfl⟩ : s = s' ∧ _ = p' := by simpa [statement] using h
        exact ⟨hI, fun _ => ⟨rfl, id⟩⟩
      | lockRow k =>
        simp only [statement] at h
        split_ifs at h with hholder hlocked
        · obtain ⟨rfl, rfl⟩ : s = s' ∧ _ = p' := by simpa using h
          exact ⟨hI, fun _ => ⟨rfl, id⟩⟩
        · obtain ⟨rfl, rfl⟩ : { s with locked := true } = s' ∧ _ = p' := by simpa using h
          exact ⟨hI, fun _ => ⟨rfl, fun _ => rfl⟩⟩

theorem step_own (htext : ∀ r, (text r).Guards I) (hI : I s.db) (hp : p.Fine I s)
    (h : (system text).step m s p = some (s', p')) : p'.Fine I s' := by
  cases p with
  | idle =>
    cases m with
    | start request =>
      obtain ⟨rfl, rfl⟩ : s = s' ∧ running (text request) false id = p' := by
        simpa [system] using h
      exact ⟨rfl, htext request⟩
    | next answer | rollback => simp [system] at h
  | running p holder pending =>
    cases m with
    | start request => simp [system] at h
    | rollback =>
      obtain ⟨rfl, rfl⟩ : release s holder = s' ∧ idle = p' := by simpa [system] using h
      trivial
    | next answer =>
      simp only [system] at h
      cases p with
      | pure a | fail e =>
        obtain ⟨-, rfl⟩ : _ = s' ∧ idle = p' := by simpa [statement] using h
        trivial
      | read k =>
        obtain ⟨rfl, rfl⟩ : s = s' ∧ running (k (pending s.db)) holder pending = p' := by
          simpa [statement] using h
        cases holder with
        | false => exact ⟨hp.1, hp.2 _⟩
        | true => exact hp
      | ask k =>
        obtain ⟨rfl, rfl⟩ : s = s' ∧ running (k answer) holder pending = p' := by
          simpa [statement] using h
        cases holder with
        | false | true => exact ⟨hp.1, hp.2 answer⟩
      | lockRow k =>
        simp only [statement] at h
        split_ifs at h with hholder hlocked
        · obtain ⟨rfl, rfl⟩ : s = s' ∧ running k true pending = p' := by simpa using h
          rw [hholder] at hp
          exact hp
        · obtain ⟨rfl, rfl⟩ : { s with locked := true } = s' ∧ running k true pending = p' := by
            simpa using h
          rw [Bool.not_eq_true] at hholder
          rw [hholder] at hp
          obtain ⟨rfl, hguards⟩ := hp
          exact ⟨rfl, hguards s.db hI⟩
      | write f k =>
        obtain ⟨rfl, rfl⟩ : s = s' ∧ running k holder (fun d => f (pending d)) = p' := by
          simpa [statement] using h
        cases holder with
        | false => exact hp.2.elim
        | true => exact hp

theorem step_holds (h : (system text).step m s p = some (s', p')) (hholds : p'.holds = true) :
    p.holds = true ∨ s.locked = false := by
  cases p with
  | idle =>
    cases m with
    | start request =>
      obtain ⟨-, rfl⟩ : s = s' ∧ running (text request) false id = p' := by
        simpa [system] using h
      simp [holds] at hholds
    | next answer | rollback => simp [system] at h
  | running p holder pending =>
    cases holder with
    | true => exact .inl rfl
    | false =>
      cases m with
      | start request => simp [system] at h
      | rollback =>
        obtain ⟨-, rfl⟩ : _ = s' ∧ idle = p' := by simpa [system] using h
        simp [holds] at hholds
      | next answer =>
        simp only [system] at h
        cases p with
        | lockRow k =>
          cases hlocked : s.locked with
          | false => exact .inr rfl
          | true => simp [statement, hlocked] at h
        | _ =>
          obtain ⟨-, rfl⟩ : _ = s' ∧ _ = p' := by simpa [statement] using h
          simp [holds] at hholds

/-- **Serialization.** If every text keeps `I` under the lock, `I` holds of what is committed in every
interleaving. -/
theorem committed_invariant (htext : ∀ r, (text r).Guards I) {c0 c : Config (Shared σ) (Conn σ ε)}
    (hI : I c0.shared.db) (hidle : ∀ i, c0.proc i = .idle)
    (h : Reach (system text) free c0 c) : I c.shared.db := by
  have h0 : Interleave.Holds (fun s => I s.db) (fun s p => Conn.Fine I s p) Apart c0 := by
    refine ⟨hI, fun i => ?_, fun i j _ => ?_⟩
    · rw [hidle i]
      trivial
    · rw [hidle i]
      simp [Apart, holds]
  refine (Reach.owicki ?_ ?_ h0 h).shared
  · intro s s' p p' m hI hp _ hstep
    exact ⟨(step_shared hI hp hstep).1, step_own htext hI hp hstep⟩
  · intro s s' p p' q m hI hp hq hpq _ _ hstep
    have hsymm : ∀ {x y : Conn σ ε}, Apart x y → Apart y x := fun hxy hyx => hxy hyx.symm
    obtain ⟨-, hkeep⟩ := step_shared hI hp hstep
    cases hqh : q.holds with
    | false =>
      have happart : Apart p' q := fun hboth => by simp [hqh] at hboth
      exact ⟨hq.of_not_holds hqh, happart, hsymm happart⟩
    | true =>
      -- the watcher holds the lock, so the connection that moves does not and cannot get it
      have hpfree : p.holds = false := by
        cases hph : p.holds with
        | false => rfl
        | true => exact absurd ⟨hph, hqh⟩ hpq
      obtain ⟨hdb, hlocked⟩ := hkeep hpfree
      have hqlocked : s.locked = true ∧ q.Fine I s' := by
        cases q with
        | idle => simp [holds] at hqh
        | running p holder pending =>
          cases holder with
          | false => simp [holds] at hqh
          | true => exact ⟨hq.1, hlocked hq.1, by rw [hdb]; exact hq.2⟩
      have happart : Apart p' q := by
        rintro ⟨hp', -⟩
        rcases step_holds hstep hp' with hph | hfree
        · simp [hpfree] at hph
        · simp [hqlocked.1] at hfree
      exact ⟨hqlocked.2, happart, hsymm happart⟩

end Invariant

end AsterDrive.LockedTxn
