import AsterDrive.Tunnel.Registry

/-!
# Remote/BindingRevisions — what the primary wants of a binding, and what the follower has of it

A follower's row of `master_bindings` takes the primary's state in two ways. A push
(`services/remote/master_binding.rs`, `sync_from_primary`) reads the row and writes it unless the message is older
than what it read. A round of the follower's loop (`services/remote/binding_control.rs`,
`tunnel/client.rs`) reads the row, pulls the state and writes it if it differs, reloads the registry, reconciles the
workers, and marks what it then finds in the row as applied.

Neither write is conditional on what was read. A write that comes after a newer one takes the row back
(`late_pull_takes_row_back`).
-/

namespace AsterDrive.Remote.BindingRevisions

open List Option Function

inductive ResolvedRemoteTransport
  | direct | reverseTunnel
  deriving DecidableEq

structure RemoteBindingDesiredState where
  name : String
  isEnabled : Bool
  resolvedTransport : ResolvedRemoteTransport
  desiredRevision : ℕ

/-- A row of `master_bindings`: the columns that follow the primary. -/
structure MasterBinding extends RemoteBindingDesiredState where
  appliedRevision : ℕ

/-- `str::trim` -/
def trim (text : String) : String :=
  String.ofList ((text.toList.dropWhile Tunnel.isWhitespace).reverse.dropWhile Tunnel.isWhitespace).reverse

def normalizeNonBlank (field value : String) : Except String String :=
  if trim value = "" then .error (field ++ " cannot be blank") else .ok (trim value)

def normalizeSyncInput (input : RemoteBindingDesiredState) : Except String RemoteBindingDesiredState := do
  let name ← normalizeNonBlank "name" input.name
  return { input with name }

/-- The states of a binding on the primary, by revision. The primary has normalized each name
(`normalize_create_input`, `normalize_update_input`). -/
structure History where
  state : ℕ → RemoteBindingDesiredState
  revision (r : ℕ) : (state r).desiredRevision = r
  name (r : ℕ) : normalizeNonBlank "name" (state r).name = .ok (state r).name

/-! ### The statements -/

/-- `sync_from_primary` after its read: what it writes, if anything. -/
def syncFromPrimary (existing : MasterBinding) (input : RemoteBindingDesiredState) :
    Except String (Option RemoteBindingDesiredState) := do
  let normalized ← normalizeSyncInput input
  if normalized.desiredRevision < existing.desiredRevision then return none else return some normalized

/-- `apply_desired_state` before its write. -/
def stateChanged (binding : MasterBinding) (desired : RemoteBindingDesiredState) : Bool :=
  binding.name != desired.name || binding.isEnabled != desired.isEnabled ||
    binding.resolvedTransport != desired.resolvedTransport || binding.desiredRevision != desired.desiredRevision

/-- The columns that a push sets. -/
def MasterBinding.sync (row : MasterBinding) (desired : RemoteBindingDesiredState) : MasterBinding :=
  { row with toRemoteBindingDesiredState := desired }

/-- The columns that a pull sets. -/
def MasterBinding.applyDesired (_row : MasterBinding) (desired : RemoteBindingDesiredState) : MasterBinding :=
  { toRemoteBindingDesiredState := desired, appliedRevision := 0 }

def markAppliedRevision (row : MasterBinding) (desiredRevision : ℕ) : MasterBinding :=
  if row.desiredRevision = desiredRevision ∧ row.appliedRevision < desiredRevision then
    { row with appliedRevision := desiredRevision }
  else row

/-! ### Pushes and rounds -/

/-- A push between its read and its write. -/
structure Push where
  existing : MasterBinding
  input : RemoteBindingDesiredState

/-- A round of the follower's loop, at the statement that is next. -/
inductive Round
  | pulling (binding : MasterBinding)
  | applying (desired : RemoteBindingDesiredState)
  | reloading (ready : Bool)
  /-- `loaded`: the revision that the registry took in, if it could. -/
  | reconciling (ready : Bool) (loaded : Option ℕ)
  | acknowledging (loaded reconciled : ℕ)
  | marking (desiredRevision : ℕ)

inductive PullOutcome
  | desired (revision : ℕ) | notFound | failed

structure Follower where
  row : MasterBinding
  pushes : ℕ → Option Push := fun _ => none
  rounds : ℕ → Option Round := fun _ => none
  /-- The revisions that a round has loaded into the registry and brought to the workers. -/
  reconciled : List ℕ

inductive FollowerAct
  | readPush (i revision : ℕ)
  | writePush (i : ℕ)
  | readRound (i : ℕ)
  | pull (i : ℕ) (outcome : PullOutcome)
  | apply (i : ℕ) (ok : Bool)
  /-- `others`: whether the other bindings were reconciled. -/
  | reload (i : ℕ) (ok others : Bool)
  | reconcile (i : ℕ) (ok : Bool)
  | acknowledge (i : ℕ)
  | mark (i : ℕ)
  | abandonPush (i : ℕ)
  | abandonRound (i : ℕ)

namespace Follower

def setPush (s : Follower) (i : ℕ) (push : Option Push) : Follower :=
  { s with pushes := Function.update s.pushes i push }

def setRound (s : Follower) (i : ℕ) (round : Option Round) : Follower :=
  { s with rounds := Function.update s.rounds i round }

@[simp] theorem pushes_setPush {s : Follower} {i j : ℕ} {push : Option Push} :
    (s.setPush i push).pushes j = if j = i then push else s.pushes j :=
  update_apply ..

@[simp] theorem rounds_setRound {s : Follower} {i j : ℕ} {round : Option Round} :
    (s.setRound i round).rounds j = if j = i then round else s.rounds j :=
  update_apply ..

def step (history : History) (s : Follower) : FollowerAct → Option Follower
  | .readPush i revision => some (s.setPush i (some ⟨s.row, history.state revision⟩))
  | .writePush i =>
    match s.pushes i with
    | some push =>
      match syncFromPrimary push.existing push.input with
      | .ok (some desired) => some { s.setPush i none with row := s.row.sync desired }
      | _ => some (s.setPush i none)
    | none => none
  | .readRound i => some (s.setRound i (some (.pulling s.row)))
  | .pull i outcome =>
    match s.rounds i with
    | some (.pulling binding) =>
      match outcome with
      | .desired revision =>
        if stateChanged binding (history.state revision) then
          some (s.setRound i (some (.applying (history.state revision))))
        else some (s.setRound i (some (.reloading true)))
      | .notFound => some (s.setRound i (some (.reloading true)))
      | .failed => some (s.setRound i (some (.reloading false)))
    | _ => none
  | .apply i ok =>
    match s.rounds i with
    | some (.applying desired) =>
      if ok then some { s.setRound i (some (.reloading true)) with row := s.row.applyDesired desired }
      else some (s.setRound i (some (.reloading false)))
    | _ => none
  | .reload i ok others =>
    match s.rounds i with
    | some (.reloading ready) =>
      if ok then some (s.setRound i (some (.reconciling (ready && others) (some s.row.desiredRevision))))
      else some (s.setRound i (some (.reconciling false none)))
    | _ => none
  | .reconcile i ok =>
    match s.rounds i with
    | some (.reconciling ready loaded) =>
      if ok then
        some { s.setRound i (if ready then loaded.map (.acknowledging · s.row.desiredRevision) else none) with
            reconciled := if loaded = some s.row.desiredRevision then s.row.desiredRevision :: s.reconciled else s.reconciled }
      else some (s.setRound i none)
    | _ => none
  | .acknowledge i =>
    match s.rounds i with
    | some (.acknowledging _ _) =>
      if s.row.desiredRevision ≤ s.row.appliedRevision then some (s.setRound i none)
      else some (s.setRound i (some (.marking s.row.desiredRevision)))
    | _ => none
  | .mark i =>
    match s.rounds i with
    | some (.marking desiredRevision) =>
      some { s.setRound i none with row := markAppliedRevision s.row desiredRevision }
    | _ => none
  | .abandonPush i => some (s.setPush i none)
  | .abandonRound i => some (s.setRound i none)

end Follower

def follower (history : History) : Lts Follower FollowerAct := ⟨Follower.step history⟩

/-- Nothing under way, and what was applied before was reconciled. -/
def Follower.start (row : MasterBinding) : Follower := { row, reconciled := [row.appliedRevision] }

namespace Follower

/-- The row is a state of the primary, and what is applied of it was reconciled. -/
structure Sound (history : History) (s : Follower) : Prop where
  content : s.row.toRemoteBindingDesiredState = history.state s.row.desiredRevision
  applied : s.row.appliedRevision ≤ s.row.desiredRevision
  reconciled : s.row.appliedRevision = 0 ∨ s.row.appliedRevision ∈ s.reconciled

/-- What a round is about to do fits the row: it writes nothing older, or acknowledges what it loaded and reconciled. -/
def Fits (row : MasterBinding) : Round → Prop
  | .applying desired => row.desiredRevision ≤ desired.desiredRevision
  | .acknowledging loaded reconciled => loaded = row.desiredRevision ∧ reconciled = row.desiredRevision
  | _ => True

instance {row : MasterBinding} {round : Round} : Decidable (Fits row round) := by
  cases round <;> unfold Fits <;> infer_instance

/-- No write is overtaken, and no row is acknowledged that has moved on since it was loaded. -/
def InOrder (s : Follower) : FollowerAct → Prop
  | .writePush i => ∀ push ∈ s.pushes i,
      s.row.desiredRevision ≤ push.existing.desiredRevision ∨ s.row.desiredRevision ≤ push.input.desiredRevision
  | .apply i _ | .acknowledge i => ∀ round ∈ s.rounds i, Fits s.row round
  | _ => True

instance (s : Follower) (a : FollowerAct) : Decidable (s.InOrder a) := by
  cases a <;> unfold InOrder <;> infer_instance

/-! ### The invariant -/

/-- What a round carries: states of the primary, and revisions that were reconciled. -/
def RoundKept (history : History) (reconciled : List ℕ) : Round → Prop
  | .applying desired => desired = history.state desired.desiredRevision
  | .acknowledging loaded worked => loaded = worked → worked ∈ reconciled
  | .marking desiredRevision => desiredRevision ∈ reconciled
  | _ => True

structure Kept (history : History) (s : Follower) : Prop extends s.Sound history where
  pushes : ∀ i, ∀ push ∈ s.pushes i, push.input = history.state push.input.desiredRevision
  rounds : ∀ i, ∀ round ∈ s.rounds i, RoundKept history s.reconciled round

variable {history : History} {s s' : Follower} {a : FollowerAct} {i r : ℕ} {row : MasterBinding}
  {push : Push} {next : Option Push} {round : Round} {next' : Option Round} {desired : RemoteBindingDesiredState}

theorem RoundKept.reconciled_cons (h : RoundKept history s.reconciled round) :
    RoundKept history (r :: s.reconciled) round := by
  cases round with
  | acknowledging loaded worked => exact fun heq => mem_cons_of_mem _ (h heq)
  | marking desiredRevision => exact mem_cons_of_mem _ h
  | applying desired => exact h
  | _ => trivial

theorem syncFromPrimary_ok (h : syncFromPrimary push.existing push.input = .ok (some desired)) :
    normalizeNonBlank "name" push.input.name = .ok desired.name ∧
      desired = { push.input with name := desired.name } ∧ push.existing.desiredRevision ≤ desired.desiredRevision := by
  obtain ⟨normalized, hnorm, h⟩ := bind_ok h
  obtain ⟨name, hname, hnorm⟩ := bind_ok hnorm
  cases hnorm
  split_ifs at h with hold
  · cases h
  · cases h
    exact ⟨hname, rfl, Nat.le_of_not_lt hold⟩

theorem Kept.syncFromPrimary (hs : s.Kept history) (hpush : s.pushes i = some push)
    (h : syncFromPrimary push.existing push.input = .ok (some desired)) :
    desired = history.state desired.desiredRevision ∧ push.existing.desiredRevision ≤ desired.desiredRevision ∧
      desired.desiredRevision = push.input.desiredRevision := by
  obtain ⟨hname, hdesired, hle⟩ := syncFromPrimary_ok h
  have hinput := hs.pushes i push hpush
  have hsame : desired.name = push.input.name := by
    have hnorm := history.name push.input.desiredRevision
    rw [← hinput, hname] at hnorm
    exact Except.ok.inj hnorm
  have hrevision : desired.desiredRevision = push.input.desiredRevision := by rw [hdesired]
  refine ⟨?_, hle, hrevision⟩
  rw [hrevision, ← hinput, hdesired, hsame]

theorem Kept.write (hs : s.Kept history) (hdesired : desired = history.state desired.desiredRevision)
    (hle : s.row.desiredRevision ≤ desired.desiredRevision) {applied : ℕ}
    (happlied : applied = 0 ∨ applied = s.row.appliedRevision) :
    Kept history { s with row := ⟨desired, applied⟩ } := by
  refine ⟨⟨hdesired, ?_, ?_⟩, hs.pushes, hs.rounds⟩
  · show applied ≤ desired.desiredRevision
    have := hs.applied
    omega
  · show applied = 0 ∨ applied ∈ s.reconciled
    rcases happlied with h0 | rfl
    · exact .inl h0
    · exact hs.reconciled

theorem Kept.setPush (hs : s.Kept history)
    (hpush : ∀ push ∈ next, push.input = history.state push.input.desiredRevision) : Kept history (s.setPush i next) := by
  refine ⟨⟨hs.content, hs.applied, hs.reconciled⟩, fun j push hj => ?_, hs.rounds⟩
  rw [pushes_setPush] at hj
  split_ifs at hj with hij
  · exact hpush push hj
  · exact hs.pushes j push hj

theorem Kept.setRound (hs : s.Kept history) (hround : ∀ round ∈ next', RoundKept history s.reconciled round) :
    Kept history (s.setRound i next') := by
  refine ⟨⟨hs.content, hs.applied, hs.reconciled⟩, hs.pushes, fun j round hj => ?_⟩
  rw [rounds_setRound] at hj
  split_ifs at hj with hij
  · exact hround round hj
  · exact hs.rounds j round hj

theorem Kept.reconcile (hs : s.Kept history) {c : Prop} [Decidable c] :
    Kept history { s with reconciled := if c then r :: s.reconciled else s.reconciled } := by
  split_ifs with hc
  · exact ⟨⟨hs.content, hs.applied, hs.reconciled.imp_right (mem_cons_of_mem _)⟩, hs.pushes,
      fun j round hj => (hs.rounds j round hj).reconciled_cons⟩
  · exact hs

theorem Kept.proceed (hs : s.Kept history) (hround : ∀ reconciled, RoundKept history reconciled round) :
    Kept history (s.setRound i (some round)) :=
  hs.setRound fun round' hround' => by
    cases hround'
    exact hround s.reconciled

theorem Kept.stop (hs : s.Kept history) : Kept history (s.setRound i none) := hs.setRound fun _ hround => nomatch hround

theorem kept_step (hs : s.Kept history) (hg : s.InOrder a) (h : s.step history a = some s') :
    s'.Kept history ∧ s.row.desiredRevision ≤ s'.row.desiredRevision := by
  cases a with simp only [step] at h
  | readPush i revision =>
    cases h
    refine ⟨hs.setPush fun push hpush => ?_, Nat.le_refl _⟩
    cases hpush
    show history.state revision = history.state (history.state revision).desiredRevision
    rw [history.revision]
  | writePush i =>
    split at h
    next push hpush =>
      have hnone : Kept history (s.setPush i none) := hs.setPush fun _ hp => nomatch hp
      split at h
      next desired hsync =>
        cases h
        obtain ⟨hdesired, hread, hrevision⟩ := hs.syncFromPrimary hpush hsync
        have hle : s.row.desiredRevision ≤ desired.desiredRevision := by
          have := hg push hpush
          omega
        exact ⟨hnone.write hdesired hle (.inr rfl), hle⟩
      next =>
        cases h
        exact ⟨hnone, Nat.le_refl _⟩
    next => cases h
  | readRound i =>
    cases h
    exact ⟨hs.proceed fun _ => trivial, Nat.le_refl _⟩
  | pull i outcome =>
    split at h
    next binding hround =>
      cases outcome with
      | desired revision =>
        dsimp only at h
        split_ifs at h
        · cases h
          refine ⟨hs.proceed fun _ => ?_, Nat.le_refl _⟩
          show history.state revision = history.state (history.state revision).desiredRevision
          rw [history.revision]
        · cases h
          exact ⟨hs.proceed fun _ => trivial, Nat.le_refl _⟩
      | notFound | failed =>
        cases h
        exact ⟨hs.proceed fun _ => trivial, Nat.le_refl _⟩
    next => cases h
  | apply i ok =>
    split at h
    next desired hround =>
      split_ifs at h
      · cases h
        have hle : s.row.desiredRevision ≤ desired.desiredRevision := hg _ hround
        have hdesired : desired = history.state desired.desiredRevision := hs.rounds i _ hround
        have hnext : Kept history (s.setRound i (some (.reloading true))) := hs.proceed fun _ => trivial
        exact ⟨hnext.write hdesired hle (.inl rfl), hle⟩
      · cases h
        exact ⟨hs.proceed fun _ => trivial, Nat.le_refl _⟩
    next => cases h
  | reload i ok others =>
    split at h
    next ready hround =>
      split_ifs at h
      all_goals
        cases h
        exact ⟨hs.proceed fun _ => trivial, Nat.le_refl _⟩
    next => cases h
  | reconcile i ok =>
    split at h
    next ready loaded hround =>
      by_cases hok : ok
      · rw [if_pos hok] at h
        cases h
        refine ⟨hs.reconcile.setRound fun round hnext => ?_, Nat.le_refl _⟩
        obtain ⟨-, hnext⟩ := ite_none_right_eq_some.mp hnext
        obtain ⟨loaded', hloaded, rfl⟩ := map_eq_some_iff.mp hnext
        intro heq
        show s.row.desiredRevision ∈ if loaded = some s.row.desiredRevision then _ else _
        rw [if_pos (hloaded.trans (congrArg some heq))]
        exact mem_cons_self
      · rw [if_neg hok] at h
        cases h
        exact ⟨hs.stop, Nat.le_refl _⟩
    next => cases h
  | acknowledge i =>
    split at h
    next loaded worked hround =>
      split_ifs at h
      · cases h
        exact ⟨hs.stop, Nat.le_refl _⟩
      · cases h
        obtain ⟨hloaded, hworked⟩ : loaded = s.row.desiredRevision ∧ worked = s.row.desiredRevision := hg _ hround
        refine ⟨hs.setRound fun round hnext => ?_, Nat.le_refl _⟩
        cases hnext
        show s.row.desiredRevision ∈ s.reconciled
        exact hworked ▸ hs.rounds i _ hround (hloaded.trans hworked.symm)
    next => cases h
  | mark i =>
    split at h
    next revision hround =>
      cases h
      have hnext : Kept history (s.setRound i none) := hs.stop
      show Kept history { s.setRound i none with row := markAppliedRevision s.row revision } ∧
        s.row.desiredRevision ≤ (markAppliedRevision s.row revision).desiredRevision
      rw [markAppliedRevision]
      split_ifs with hcas
      · exact ⟨⟨⟨hs.content, Nat.le_of_eq hcas.1.symm, .inr (hs.rounds i _ hround)⟩, hnext.pushes, hnext.rounds⟩,
          Nat.le_refl _⟩
      · exact ⟨hnext, Nat.le_refl _⟩
    next => cases h
  | abandonPush i =>
    cases h
    exact ⟨hs.setPush (fun _ hp => nomatch hp), Nat.le_refl _⟩
  | abandonRound i =>
    cases h
    exact ⟨hs.stop, Nat.le_refl _⟩

theorem kept_start (hcontent : row.toRemoteBindingDesiredState = history.state row.desiredRevision)
    (happlied : row.appliedRevision ≤ row.desiredRevision) : (start row).Kept history :=
  ⟨⟨hcontent, happlied, .inr mem_cons_self⟩, (fun _ _ h => nomatch h), (fun _ _ h => nomatch h)⟩

end Follower

/-- **A binding only moves forward**, in the runs in which no write is overtaken, and no round acknowledges a row that
has moved on since it was loaded. -/
theorem binding_moves_forward {history : History} {row : MasterBinding} {s : Follower}
    (hcontent : row.toRemoteBindingDesiredState = history.state row.desiredRevision)
    (happlied : row.appliedRevision ≤ row.desiredRevision)
    (h : (follower history).Reach Follower.InOrder (.start row) s) :
    s.Sound history ∧ ∀ a s', s.InOrder a → (follower history).step s a = some s' →
      s.row.desiredRevision ≤ s'.row.desiredRevision := by
  have hs : s.Kept history :=
    h.induct (Follower.kept_start hcontent happlied) fun hs hg hstep => (Follower.kept_step hs hg hstep).1
  exact ⟨hs.toSound, fun a s' hg hstep => (Follower.kept_step hs hg hstep).2⟩

/-- The primary names the binding anew with each revision. -/
def renamings : History where
  state r := ⟨if r = 1 then "edge" else if r = 2 then "edge-a" else "edge-b", true, .reverseTunnel, r⟩
  revision _ := rfl
  name r := by
    dsimp only
    split_ifs <;> decide

def firstRow : MasterBinding := { renamings.state 1 with appliedRevision := 1 }

/-- A push that is read and written, and a round that pulls a newer state and brings it to the workers. -/
def pushThenRound : List FollowerAct :=
  [.readPush 0 2, .writePush 0, .readRound 0, .pull 0 (.desired 3), .apply 0 true, .reload 0 true true, .reconcile 0 true,
    .acknowledge 0, .mark 0]

theorem binding_moves_forward_push_then_round :
    ∃ s, (follower renamings).run Follower.InOrder pushThenRound (.start firstRow) = some s ∧
      s.row.desiredRevision = 3 ∧ s.row.appliedRevision = 3 ∧ s.Sound renamings ∧
        ∀ a s', s.InOrder a → (follower renamings).step s a = some s' → s.row.desiredRevision ≤ s'.row.desiredRevision := by
  have hrun : ((follower renamings).run Follower.InOrder pushThenRound (.start firstRow)).map (fun s =>
      (s.row.desiredRevision, s.row.appliedRevision)) = some (3, 3) := by decide
  obtain ⟨s, hs, hdesired, happlied⟩ := map_pair_eq_some hrun
  exact ⟨s, hs, hdesired, happlied, binding_moves_forward rfl (by decide) (Lts.reach_of_run hs)⟩

/-- A round pulls revision 2, a push of revision 3 is written before the round writes. -/
def latePull : List FollowerAct := [.readRound 0, .pull 0 (.desired 2), .readPush 0 3, .writePush 0]

theorem late_pull_takes_row_back : ¬ ∀ history row s,
    row.toRemoteBindingDesiredState = History.state history row.desiredRevision → row.appliedRevision ≤ row.desiredRevision →
      (follower history).Reach Lts.free (.start row) s →
        s.Sound history ∧ ∀ a s', (follower history).step s a = some s' → s.row.desiredRevision ≤ s'.row.desiredRevision := by
  intro hforward
  have hrun : (((follower renamings).run Lts.free latePull (.start firstRow)).bind fun s =>
      (s.step renamings (.apply 0 true)).map fun s' => (s.row.desiredRevision, s'.row.desiredRevision)) = some (3, 2) := by
    decide
  obtain ⟨s, hs, hstep⟩ := bind_eq_some_iff.mp hrun
  obtain ⟨s', hs', hbefore, hafter⟩ := map_pair_eq_some hstep
  have hle := (hforward renamings firstRow s rfl (by decide) (Lts.reach_of_run hs)).2 (.apply 0 true) s' hs'
  omega

end AsterDrive.Remote.BindingRevisions
