import AsterDrive.Lib.Census
import AsterDrive.Auth.TotpReplay

/-!
# Auth.SingleUse — no time step is used by two operations

An accepted step is still recorded, or it lies behind every window of the clock, or its factor is gone (`accounted`).
A step that is matched late would find the record of its first use pruned; `Prompt` rules that out. That nothing is
pruned inside the window needs no condition.
-/

namespace AsterDrive.Auth.TotpReplay

open Totp List Option

variable {env : Env} {w w' w₀ : World} {i : ℕ} {op : Op}

/-! ### What the clock says about an operation -/

/-- Below the bound that the pruning would use now. -/
def Behind (w : World) (r : UsedStep) : Prop := (r.timeStep : ℤ) < w.clock / 30 - 3

/-- Removed, and its number is not given again. -/
def Gone (w : World) (factorId : ℕ) : Prop := factorId < w.factors.next ∧ w.factors.get factorId = none

/-- Nothing is written yet. -/
def Op.Unwritten (op : Op) : Prop := op.inserted = none ∧ op.droppedRows = []

def Phase.Holds (w : World) (op : Op) : Phase → Prop
  | .ready => op.Unwritten
  | .clocked now => op.Unwritten ∧ now ≤ w.clock
  | .prepared => op.Unwritten
  | .located _ => op.Unwritten
  | .matched used now => op.Unwritten ∧ 0 ≤ now ∧ now ≤ w.clock ∧ now / 30 ≤ used.timeStep + 1
  | .recorded _ now => op.droppedRows = [] ∧ 0 ≤ now ∧ now ≤ w.clock
  | .pruned => op.droppedRows = []
  | .stepsDropped factorId => factorId < w.factors.next ∧ ∀ r ∈ op.droppedRows, r.factorId = factorId
  | .factorDropped factorId => factorId < w.factors.next ∧ ∀ r ∈ op.droppedRows, r.factorId = factorId
  | .over => True

structure Op.Timed (w : World) (op : Op) : Prop where
  phase : op.phase.Holds w op
  pruned : ∀ r ∈ op.prunedRows, Behind w r

/-- Time and numbering only go forward. -/
structure World.Before (w w' : World) : Prop where
  clock : w.clock ≤ w'.clock
  next : w.factors.next ≤ w'.factors.next

variable {r : UsedStep}

theorem Behind.mono (h : Behind w r) (hle : w.clock ≤ w'.clock) : Behind w' r := by
  unfold Behind at *
  omega

theorem Op.Timed.mono (h : op.Timed w) (hle : w.Before w') : op.Timed w' := by
  obtain ⟨hclock, hnext⟩ := hle
  refine ⟨?_, fun r hr => (h.pruned r hr).mono hclock⟩
  have hphase := h.phase
  cases hp : op.phase with rw [hp] at hphase
  | ready | prepared | located _ | pruned | «over» =>
    exact hphase
  | clocked now =>
    exact ⟨hphase.1, by have := hphase.2; omega⟩
  | matched used now =>
    obtain ⟨hnew, hpos, hnow, hnear⟩ := hphase
    exact ⟨hnew, hpos, by omega, hnear⟩
  | recorded factorId now =>
    obtain ⟨hdropped, hpos, hnow⟩ := hphase
    exact ⟨hdropped, hpos, by omega⟩
  | stepsDropped factorId | factorDropped factorId =>
    exact ⟨by have := hphase.1; omega, hphase.2⟩

/-! ### What a statement does -/

/-- The effect of one statement of operation `i`. -/
inductive Effect (w : World) (i : ℕ) (op : Op) : Action → World → Prop
  | moved {a : Action} (phase : Phase) (hopen : op.phase ≠ .over) (hphase : phase.Holds w { op with phase := phase }) :
      Effect w i op a (w.setOp i { op with phase := phase })
  | recorded (used : UsedStep) (now : ℤ) (hphase : op.phase = .matched used now)
      (hfree : w.othersAllow i (Op.leavesKey used)) (hknown : w.factors.get used.factorId ≠ none)
      (hnew : used ∉ w.usedSteps) :
      Effect w i op .record (w.setOp i { op with phase := .recorded used.factorId now, inserted := some used })
  | pruned (factorId : ℕ) (now : ℤ) (rows : List UsedStep) (hphase : op.phase = .recorded factorId now)
      (hrows : ∀ r ∈ rows, (r.timeStep : ℤ) < replayGuardMinStep now) :
      Effect w i op .prune (w.setOp i { op with phase := .pruned, prunedRows := rows })
  | stepsDropped (factorId : ℕ) (rows : List UsedStep) (hopen : op.phase ≠ .over)
      (hknown : factorId < w.factors.next) (hrows : ∀ r ∈ rows, r.factorId = factorId) :
      Effect w i op .dropSteps (w.setOp i { op with phase := .stepsDropped factorId, droppedRows := rows })
  | committed (hphase : op.phase = .pruned) : Effect w i op .commit (commitRows w i op)
  | removed (factorId : ℕ) (hphase : op.phase = .factorDropped factorId) :
      Effect w i op .commit (removeFactor (commitRows w i op) factorId)

variable {now : ℤ}

theorem verified_holds {factor : MfaFactor} {code : String} (hop : op.Unwritten) (hnow : now ≤ w.clock) :
    (verified env factor code now).Holds w op := by
  unfold verified
  split
  · rename_i step hmatch
    have hverify : ∃ secret, verifyCodeMatchingStep env.hmacSha1 secret code now = .ok (some step) := by
      unfold matchingStep at hmatch
      cases hsecret : env.decryptSecret (factorAad factor.userId) factor.secretCiphertext with
      | error e => simp [hsecret, bind, Except.bind] at hmatch
      | ok secret => exact ⟨secret, by simpa [hsecret, bind, Except.bind] using hmatch⟩
    obtain ⟨secret, hverify⟩ := hverify
    obtain ⟨hpos, hnear, -⟩ := accepted_near hverify
    exact ⟨hop, hpos, hnow, hnear⟩
  all_goals trivial

variable {used : UsedStep}

theorem record_effect (hphase : op.phase = .matched used now)
    (h : record w i op used now = some w') : Effect w i op .record w' := by
  have hopen : op.phase ≠ .over := by simp [hphase]
  unfold record at h
  split_ifs at h with hfree hknown hused
  · cases h
    exact .moved .over hopen trivial
  · cases h
    exact .moved .over hopen trivial
  · cases h
    exact .recorded used now hphase (by simpa using hfree) (by simpa using hknown) hused

variable {factorId : ℕ}

theorem prune_effect (hphase : op.phase = .recorded factorId now)
    (h : prune w i op factorId now = some w') : Effect w i op .prune w' := by
  dsimp only [prune] at h
  split_ifs at h
  cases h
  refine .pruned factorId now _ hphase fun r hr => ?_
  simpa using (of_decide_eq_true (mem_filter.mp hr).2).2

theorem removalTarget_known (h : removalTarget w op = some factorId) :
    op.phase ≠ .over ∧ factorId < w.factors.next := by
  unfold removalTarget at h
  split at h
  · rename_i hphase
    obtain ⟨factor, hfind, rfl⟩ := map_eq_some_iff.mp h
    have hget := (filter_eq_some_iff.mp hfind).1
    exact ⟨by simp [hphase], w.factors.below factor (Table.mem_of_get hget)⟩
  · rename_i hphase
    obtain ⟨factor, hfind, rfl⟩ := map_eq_some_iff.mp h
    exact ⟨by simp [hphase], w.factors.below factor (mem_of_find?_eq_some hfind)⟩
  · cases h

theorem dropSteps_effect (htarget : removalTarget w op = some factorId)
    (h : dropSteps w i op factorId = some w') : Effect w i op .dropSteps w' := by
  obtain ⟨hopen, hknown⟩ := removalTarget_known htarget
  dsimp only [dropSteps] at h
  split_ifs at h
  cases h
  exact .stepsDropped factorId _ hopen hknown fun r hr => of_decide_eq_true (mem_filter.mp hr).2

theorem prepare_effect (hphase : op.phase = .ready) (hop : op.Unwritten) : Effect w i op .prepare (prepare env w i op) := by
  have hopen : op.phase ≠ .over := by simp [hphase]
  unfold prepare
  split
  · exact .moved .over hopen trivial
  · split
    · exact .moved .prepared hopen hop
    all_goals exact .moved .over hopen trivial

theorem findFactor_effect (hop : op.Timed w) (h : act env w i op .findFactor = some w') : Effect w i op .findFactor w' := by
  have hholds := hop.phase
  simp only [act] at h
  split at h
  · rename_i now hphase
    have hopen : op.phase ≠ .over := by simp [hphase]
    rw [hphase] at hholds
    split at h
    · cases h
      exact .moved .over hopen trivial
    · cases h
      exact .moved _ hopen (verified_holds hholds.1 hholds.2)
  · rename_i hphase
    have hopen : op.phase ≠ .over := by simp [hphase]
    rw [hphase] at hholds
    split at h
    · cases h
      exact .moved .over hopen trivial
    · cases h
      exact .moved (.located _) hopen hholds
  · cases h

theorem readClock_effect (hop : op.Timed w) (h : act env w i op .readClock = some w') : Effect w i op .readClock w' := by
  have hholds := hop.phase
  simp only [act] at h
  split at h
  · rename_i hphase
    rw [hphase] at hholds
    cases h
    exact .moved (.clocked w.clock) (by simp [hphase]) ⟨hholds, le_refl _⟩
  · rename_i hphase
    rw [hphase] at hholds
    cases h
    exact .moved _ (by simp [hphase]) (verified_holds hholds (le_refl _))
  · cases h

theorem commit_effect (h : act env w i op .commit = some w') : Effect w i op .commit w' := by
  simp only [act] at h
  split at h
  · cases h
    exact .committed (by assumption)
  · cases h
    exact .committed (by assumption)
  · cases h
    exact .removed _ (by assumption)
  · cases h

variable {a : Action}

/-- **Inversion.** -/
theorem act_effect (hop : op.Timed w) (h : act env w i op a = some w') : Effect w i op a w' := by
  have hholds := hop.phase
  cases a with
  | readClock => exact readClock_effect hop h
  | findFactor => exact findFactor_effect hop h
  | commit => exact commit_effect h
  | prepare =>
    simp only [act] at h
    split at h
    all_goals first | cases h; done | skip
    all_goals
      rename_i hphase
      rw [hphase] at hholds
      cases h
      exact prepare_effect hphase hholds
  | record =>
    simp only [act] at h
    split at h
    · rename_i hphase
      exact record_effect hphase h
    · cases h
  | prune =>
    simp only [act] at h
    split at h
    · rename_i hphase
      exact prune_effect hphase h
    · cases h
  | dropSteps =>
    obtain ⟨factorId, htarget, hdrop⟩ := bind_eq_some_iff.mp h
    exact dropSteps_effect htarget hdrop
  | dropFactor =>
    simp only [act] at h
    split at h
    · rename_i factorId hphase
      rw [hphase] at hholds
      unfold dropFactor at h
      split_ifs at h
      cases h
      exact .moved (.factorDropped factorId) (by simp [hphase]) hholds
    · cases h
  | rollback =>
    simp only [act] at h
    split at h
    · cases h
    · cases h
      exact .moved .over (by assumption) trivial

/-! ### The clock, in any run -/

def World.Timed (w : World) : Prop := ∀ op ∈ w.ops, op.Timed w

theorem Effect.before (h : Effect w i op a w') : w.Before w' := by
  cases h <;> exact ⟨le_refl _, Nat.le_refl _⟩

theorem Effect.timed (h : Effect w i op a w') (hop : op.Timed w) : ∃ op', w'.ops = w.ops.set i op' ∧ op'.Timed w' := by
  cases h with
  | moved phase hopen hphase =>
    have hmoved : Op.Timed w { op with phase := phase } := ⟨hphase, hop.pruned⟩
    exact ⟨_, rfl, hmoved.mono ⟨le_refl _, Nat.le_refl _⟩⟩
  | recorded used now hphase hfree hknown hnew =>
    have hholds := hop.phase
    rw [hphase] at hholds
    obtain ⟨⟨-, hdropped⟩, hpos, hnow, -⟩ := hholds
    exact ⟨_, rfl, ⟨hdropped, hpos, hnow⟩, hop.pruned⟩
  | pruned factorId now rows hphase hrows =>
    have hholds := hop.phase
    rw [hphase] at hholds
    obtain ⟨hdropped, hpos, hnow⟩ := hholds
    refine ⟨_, rfl, hdropped, fun r hr => ?_⟩
    have hlt := hrows r hr
    rw [replayGuardMinStep_eq hpos] at hlt
    show (r.timeStep : ℤ) < w.clock / 30 - 3
    omega
  | stepsDropped factorId rows hopen hknown hrows => exact ⟨_, rfl, ⟨hknown, hrows⟩, hop.pruned⟩
  | committed hphase | removed factorId hphase => exact ⟨_, rfl, trivial, hop.pruned⟩

variable {l : Label}

/-- **One step.** -/
theorem timed_step (hw : w.Timed) (h : step env w l = some w') : w'.Timed := by
  cases l with
  | tick seconds =>
    cases h
    have hle : w.clock ≤ w.clock + seconds := by omega
    intro op hop
    exact (hw op hop).mono ⟨hle, Nat.le_refl _⟩
  | enable userId secretCiphertext =>
    simp only [step] at h
    split_ifs at h
    cases h
    have hle : w.factors.next ≤ w.factors.next + 1 := Nat.le_succ _
    intro op hop
    exact (hw op hop).mono ⟨le_refl _, hle⟩
  | start purpose userId code =>
    cases h
    intro op hop
    rcases mem_append.mp hop with hold | hnew
    · exact (hw op hold).mono ⟨le_refl _, Nat.le_refl _⟩
    · obtain rfl := mem_singleton.mp hnew
      refine ⟨⟨rfl, rfl⟩, fun r hr => ?_⟩
      cases hr
  | act i action =>
    obtain ⟨op, hget, hact⟩ := bind_eq_some_iff.mp h
    have hop := hw op (mem_of_getElem? hget)
    have heffect := act_effect hop hact
    obtain ⟨op', hops, hop'⟩ := heffect.timed hop
    intro op2 hop2
    rw [hops] at hop2
    rcases mem_or_eq_of_mem_set hop2 with hold | rfl
    · exact (hw op2 hold).mono heffect.before
    · exact hop'

theorem timed_run {G : World → Label → Prop} (h₀ : w₀.ops = []) (h : (replays env).Reach G w₀ w) : w.Timed :=
  h.induct (I := World.Timed) (fun op hop => by simp [h₀] at hop) fun hw _ hstep => timed_step hw hstep

/-! ### Single use -/

/-- No step that an open operation has recorded is used by another one. -/
structure World.Single (w : World) : Prop where
  fresh : ∀ (j : ℕ) (op : Op), w.ops[j]? = some op → op.phase ≠ .over → ∀ r, op.inserted = some r → r ∉ w.accepted
  apart : ∀ (j k : ℕ) (op op' : Op), j ≠ k → w.ops[j]? = some op → w.ops[k]? = some op' → op.phase ≠ .over → op'.phase ≠ .over →
    ∀ r, op.inserted = some r → op'.inserted ≠ some r
  nodup : w.accepted.Nodup

/-- What is accepted cannot come back. -/
def World.Accounted (w : World) : Prop := ∀ r ∈ w.accepted, r ∈ w.usedSteps ∨ Behind w r ∨ Gone w r.factorId

variable {op' : Op} {j : ℕ}

theorem get_of_inserted {purpose : Purpose} {userId : ℕ} {code : String}
    (h : (w.ops ++ [⟨purpose, userId, code, .ready, none, [], []⟩])[j]? = some op) (hr : op.inserted = some r) :
    w.ops[j]? = some op := by
  refine (Census.of_append h).resolve_right ?_
  rintro rfl
  cases hr

theorem allows_of_othersAllow {leaves : Op → Bool} (h : w.othersAllow i leaves) (hj : j ≠ i)
    (hget : w.ops[j]? = some op') (hopen : op'.phase ≠ .over) : leaves op' := by
  have hmem : (op', j) ∈ w.ops.zipIdx := mem_zipIdx_iff_getElem?.mpr hget
  have hall := List.all_eq_true.mp h (op', j) hmem
  simp only [Bool.or_eq_true, beq_iff_eq] at hall
  rcases hall with (heq | hover) | hleaves
  · exact absurd heq hj
  · exact absurd hover hopen
  · exact hleaves

theorem World.Single.setOp (hw : w.Single) (hget : w.ops[i]? = some op) (hopen : op.phase ≠ .over)
    (hsame : op'.inserted = op.inserted) : (w.setOp i op').Single := by
  refine ⟨fun j op2 hj hopen2 r hr => ?_, fun j k op2 op3 hjk hj hk hopen2 hopen3 r hr => ?_, hw.nodup⟩
  · rcases Census.of_set hj with ⟨rfl, rfl⟩ | ⟨-, hj⟩
    · exact hw.fresh j op hget hopen r (hsame ▸ hr)
    · exact hw.fresh j op2 hj hopen2 r hr
  · rcases Census.of_set hj with ⟨rfl, rfl⟩ | ⟨-, hj'⟩
    · rcases Census.of_set hk with ⟨rfl, -⟩ | ⟨-, hk'⟩
      · exact absurd rfl hjk
      · exact hw.apart j k op op3 hjk hget hk' hopen hopen3 r (hsame ▸ hr)
    · rcases Census.of_set hk with ⟨rfl, rfl⟩ | ⟨-, hk'⟩
      · rw [hsame]
        exact hw.apart j k op2 op hjk hj' hget hopen2 hopen r hr
      · exact hw.apart j k op2 op3 hjk hj' hk' hopen2 hopen3 r hr

theorem World.Single.record (hw : w.Single) (hused : op'.inserted = some used)
    (hnew : used ∉ w.accepted) (hfree : w.othersAllow i (Op.leavesKey used)) : (w.setOp i op').Single := by
  have hother : ∀ {j op2}, j ≠ i → w.ops[j]? = some op2 → op2.phase ≠ .over → op2.inserted ≠ some used := by
    intro j op2 hj hget hopen
    have hleaves := allows_of_othersAllow hfree hj hget hopen
    exact (of_decide_eq_true hleaves).1
  refine ⟨fun j op2 hj hopen2 r hr => ?_, fun j k op2 op3 hjk hj hk hopen2 hopen3 r hr => ?_, hw.nodup⟩
  · rcases Census.of_set hj with ⟨rfl, rfl⟩ | ⟨-, hj⟩
    · obtain rfl := some.inj (hused.symm.trans hr)
      exact hnew
    · exact hw.fresh j op2 hj hopen2 r hr
  · rcases Census.of_set hj with ⟨rfl, rfl⟩ | ⟨hji, hj'⟩
    · obtain rfl := some.inj (hused.symm.trans hr)
      rcases Census.of_set hk with ⟨rfl, -⟩ | ⟨hki, hk'⟩
      · exact absurd rfl hjk
      · exact hother hki hk' hopen3
    · rcases Census.of_set hk with ⟨rfl, rfl⟩ | ⟨-, hk'⟩
      · rintro hr'
        obtain rfl := some.inj (hused.symm.trans hr')
        exact hother hji hj' hopen2 hr
      · exact hw.apart j k op2 op3 hjk hj' hk' hopen2 hopen3 r hr

theorem World.Single.commit (hw : w.Single) (hget : w.ops[i]? = some op) (hopen : op.phase ≠ .over) :
    (commitRows w i op).Single := by
  have hops : (commitRows w i op).ops = (w.setOp i { op with phase := .over }).ops := rfl
  refine ⟨fun j op2 hj hopen2 r hr => ?_, fun j k op2 op3 hjk hj hk hopen2 hopen3 r hr => ?_, ?_⟩
  · rw [hops] at hj
    rcases Census.of_set hj with ⟨-, rfl⟩ | ⟨hji, hj'⟩
    · exact absurd rfl hopen2
    · show r ∉ w.accepted ++ op.inserted.toList
      rw [mem_append, mem_toList]
      rintro (haccepted | hinserted)
      · exact hw.fresh j op2 hj' hopen2 r hr haccepted
      · exact hw.apart j i op2 op hji hj' hget hopen2 hopen r hr hinserted
  · rw [hops] at hj hk
    rcases Census.of_set hj with ⟨-, rfl⟩ | ⟨-, hj'⟩
    · exact absurd rfl hopen2
    · rcases Census.of_set hk with ⟨-, rfl⟩ | ⟨-, hk'⟩
      · exact absurd rfl hopen3
      · exact hw.apart j k op2 op3 hjk hj' hk' hopen2 hopen3 r hr
  · show (w.accepted ++ op.inserted.toList).Nodup
    cases hinserted : op.inserted with
    | none => simpa using hw.nodup
    | some used =>
      have hfresh := hw.fresh i op hget hopen used hinserted
      rw [toList_some, nodup_append]
      refine ⟨hw.nodup, nodup_singleton _, ?_⟩
      rintro a ha b hb rfl
      obtain rfl := mem_singleton.mp hb
      exact hfresh ha

theorem World.Single.removeFactor (hw : w.Single) : (removeFactor w factorId).Single := ⟨hw.fresh, hw.apart, hw.nodup⟩

theorem gone_insert {userId : ℕ} {secretCiphertext : String} (h : Gone w factorId) :
    (w.factors.insert (fun id => (⟨id, userId, secretCiphertext⟩ : MfaFactor)) fun _ => rfl).get factorId = none := by
  rw [SerialTable.get_insert]
  have hne : w.factors.next ≠ factorId := by
    have hlt := h.1
    omega
  rw [if_neg hne]
  exact h.2

/-- After a commit, what is accepted is recorded, or behind, or the transaction dropped it. -/
theorem accounted_commitRows (hw : w.Accounted) (hop : op.Timed w) (hr : r ∈ (commitRows w i op).accepted) :
    r ∈ (commitRows w i op).usedSteps ∨ Behind w r ∨ Gone w r.factorId ∨ r ∈ op.droppedRows := by
  have hstored : r ∈ w.usedSteps ++ op.inserted.toList ∨ Behind w r ∨ Gone w r.factorId := by
    rcases mem_append.mp hr with hold | hnew
    · rcases hw r hold with hused | hbehind | hgone
      · exact .inl (mem_append_left _ hused)
      · exact .inr (.inl hbehind)
      · exact .inr (.inr hgone)
    · exact .inl (mem_append_right _ hnew)
  rcases hstored with hrow | hbehind | hgone
  · by_cases hpruned : r ∈ op.prunedRows
    · exact .inr (.inl (hop.pruned r hpruned))
    · by_cases hdropped : r ∈ op.droppedRows
      · exact .inr (.inr (.inr hdropped))
      · exact .inl (mem_filter.mpr ⟨hrow, decide_eq_true ⟨hpruned, hdropped⟩⟩)
  · exact .inr (.inl hbehind)
  · exact .inr (.inr (.inl hgone))

theorem accounted_committed (hw : w.Accounted) (hop : op.Timed w) (hphase : op.phase = .pruned) :
    (commitRows w i op).Accounted := by
  have hdropped := hop.phase
  rw [hphase] at hdropped
  intro r hr
  rcases accounted_commitRows hw hop hr with hused | hbehind | hgone | hrow
  · exact .inl hused
  · exact .inr (.inl hbehind)
  · exact .inr (.inr hgone)
  · rw [show op.droppedRows = [] from hdropped] at hrow
    cases hrow

theorem accounted_removed (hw : w.Accounted) (hop : op.Timed w)
    (hphase : op.phase = .factorDropped factorId) : (removeFactor (commitRows w i op) factorId).Accounted := by
  have hholds := hop.phase
  rw [hphase] at hholds
  obtain ⟨hknown, hrows⟩ := hholds
  have hget : ∀ k, (removeFactor (commitRows w i op) factorId).factors.get k =
      (w.factors.get k).filter fun factor => !decide (factor.id = factorId) := fun k =>
    Table.get_deleteWhere w.factors.toTable _ k
  have hremoved : Gone (removeFactor (commitRows w i op) factorId) factorId := by
    refine ⟨hknown, ?_⟩
    rw [hget, filter_eq_none_iff]
    intro factor hfactor
    simp [Table.key_of_get hfactor]
  intro r hr
  rcases accounted_commitRows hw hop hr with hused | hbehind | hgone | hrow
  · by_cases hfactor : r.factorId = factorId
    · rw [hfactor]
      exact .inr (.inr hremoved)
    · exact .inl (mem_filter.mpr ⟨hused, by simpa using hfactor⟩)
  · exact .inr (.inl hbehind)
  · refine .inr (.inr ⟨hgone.1, ?_⟩)
    rw [hget, hgone.2]
    rfl
  · rw [hrows r hrow]
    exact .inr (.inr hremoved)

/-- **The late reading.** A step that is matched at most two steps ago and is not recorded was never accepted. -/
theorem not_accepted (hw : w.Accounted) (hop : op.Timed w)
    (hphase : op.phase = .matched used now) (hprompt : w.clock / 30 ≤ now / 30 + 2)
    (hknown : w.factors.get used.factorId ≠ none) (hnew : used ∉ w.usedSteps) : used ∉ w.accepted := by
  have hholds := hop.phase
  rw [hphase] at hholds
  obtain ⟨-, -, -, hnear⟩ := hholds
  intro haccepted
  rcases hw used haccepted with hused | hbehind | hgone
  · exact hnew hused
  · unfold Behind at hbehind
    omega
  · exact hknown hgone.2

theorem prompt_record (h : Prompt w (.act i .record)) (hget : w.ops[i]? = some op)
    (hphase : op.phase = .matched used now) : w.clock / 30 ≤ now / 30 + 2 := by
  have hread : (w.ops[i]?).bind Op.readAt = some now := by simp [hget, Op.readAt, hphase]
  simp only [Prompt, hread] at h
  exact h

theorem single_act {action : Action} (hw : w.Single) (haccounted : w.Accounted) (hop : op.Timed w)
    (hget : w.ops[i]? = some op) (hprompt : Prompt w (.act i action)) (h : act env w i op action = some w') :
    w'.Single ∧ w'.Accounted := by
  have heffect := act_effect hop h
  cases heffect with
  | moved phase hopen hphase | stepsDropped factorId rows hopen hknown hrows =>
    exact ⟨hw.setOp hget hopen rfl, haccounted⟩
  | recorded used now hphase hfree hknown hnew =>
    have hlate := prompt_record hprompt hget hphase
    have hfresh := not_accepted haccounted hop hphase hlate hknown hnew
    exact ⟨hw.record rfl hfresh hfree, haccounted⟩
  | pruned factorId now rows hphase hrows =>
    have hopen : op.phase ≠ .over := by simp [hphase]
    exact ⟨hw.setOp hget hopen rfl, haccounted⟩
  | committed hphase =>
    have hopen : op.phase ≠ .over := by simp [hphase]
    exact ⟨hw.commit hget hopen, accounted_committed haccounted hop hphase⟩
  | removed factorId hphase =>
    have hopen : op.phase ≠ .over := by simp [hphase]
    exact ⟨(hw.commit hget hopen).removeFactor, accounted_removed haccounted hop hphase⟩

/-- **One step.** -/
theorem single_step (hw : w.Single) (haccounted : w.Accounted) (htimed : w.Timed) (hprompt : Prompt w l)
    (h : step env w l = some w') : w'.Single ∧ w'.Accounted := by
  cases l with
  | tick seconds =>
    cases h
    have hle : w.clock ≤ w.clock + seconds := by omega
    refine ⟨⟨hw.fresh, hw.apart, hw.nodup⟩, fun r hr => ?_⟩
    rcases haccounted r hr with hused | hbehind | hgone
    · exact .inl hused
    · exact .inr (.inl (hbehind.mono hle))
    · exact .inr (.inr hgone)
  | enable userId secretCiphertext =>
    simp only [step] at h
    split_ifs at h
    cases h
    refine ⟨⟨hw.fresh, hw.apart, hw.nodup⟩, fun r hr => ?_⟩
    rcases haccounted r hr with hused | hbehind | hgone
    · exact .inl hused
    · exact .inr (.inl hbehind)
    · exact .inr (.inr ⟨Nat.lt_succ_of_lt hgone.1, gone_insert hgone⟩)
  | start purpose userId code =>
    cases h
    refine ⟨⟨fun j op hj hopen r hr => ?_, fun j k op op' hjk hj hk hopen hopen' r hr hr' => ?_, hw.nodup⟩, haccounted⟩
    · exact hw.fresh j op (get_of_inserted hj hr) hopen r hr
    · exact hw.apart j k op op' hjk (get_of_inserted hj hr) (get_of_inserted hk hr') hopen hopen' r hr hr'
  | act i action =>
    obtain ⟨op, hget, hact⟩ := bind_eq_some_iff.mp h
    exact single_act hw haccounted (htimed op (mem_of_getElem? hget)) hget hprompt hact

theorem single_run (h₀ : w₀.Idle) (h : (replays env).Reach Prompt w₀ w) : w.Single ∧ w.Accounted := by
  have hnone : ∀ (j : ℕ) (op : Op), w₀.ops[j]? ≠ some op := by simp [h₀.ops]
  refine h.strengthen (I := fun w => w.Single ∧ w.Accounted) (J := World.Timed) (fun hr => timed_run h₀.ops hr) ?_ ?_
  · refine ⟨⟨fun j op hj => absurd hj (hnone j op), fun j k op op' _ hj => absurd hj (hnone j op), ?_⟩, ?_⟩
    · rw [h₀.accepted]
      exact nodup_nil
    · intro r hr
      simp [h₀.accepted] at hr
  · intro w w' l hw htimed _ hprompt hstep
    exact single_step hw.1 hw.2 htimed hprompt hstep

/-! ### Rows that go -/

theorem lost_commitRows (hr : r ∈ w.usedSteps) (hlost : r ∉ (commitRows w i op).usedSteps) :
    r ∈ op.prunedRows ∨ r ∈ op.droppedRows := by
  by_cases hpruned : r ∈ op.prunedRows
  · exact .inl hpruned
  · by_cases hdropped : r ∈ op.droppedRows
    · exact .inr hdropped
    · refine absurd (mem_filter.mpr ⟨mem_append_left _ hr, ?_⟩) hlost
      exact decide_eq_true ⟨hpruned, hdropped⟩

theorem get_removeFactor (w : World) (factorId : ℕ) : (removeFactor w factorId).factors.get factorId = none := by
  show (w.factors.toTable.deleteWhere _).get factorId = none
  rw [Table.get_deleteWhere, filter_eq_none_iff]
  intro factor hfactor
  simp [Table.key_of_get hfactor]

/-- **One step.** A record goes when it is behind the window, or with its factor. -/
theorem row_lost (hw : w.Timed) (h : step env w l = some w') (hr : r ∈ w.usedSteps)
    (hlost : r ∉ w'.usedSteps) : Behind w' r ∨ w'.factors.get r.factorId = none := by
  cases l with
  | tick seconds | start purpose userId code =>
    cases h
    exact absurd hr hlost
  | enable userId secretCiphertext =>
    simp only [step] at h
    split_ifs at h
    cases h
    exact absurd hr hlost
  | act i action =>
    obtain ⟨op, hget, hact⟩ := bind_eq_some_iff.mp h
    have hop := hw op (mem_of_getElem? hget)
    have hholds := hop.phase
    cases act_effect hop hact with
    | moved | recorded | pruned | stepsDropped => exact absurd hr hlost
    | committed hphase =>
      rw [hphase] at hholds
      rcases lost_commitRows hr hlost with hpruned | hdropped
      · exact .inl (hop.pruned r hpruned)
      · rw [show op.droppedRows = [] from hholds] at hdropped
        cases hdropped
    | removed factorId hphase =>
      rw [hphase] at hholds
      by_cases hfactor : r.factorId = factorId
      · rw [hfactor]
        exact .inr (get_removeFactor _ factorId)
      · have hkept : r ∉ (commitRows w i op).usedSteps := fun hrow =>
          hlost (mem_filter.mpr ⟨hrow, by simpa using hfactor⟩)
        rcases lost_commitRows hr hkept with hpruned | hdropped
        · exact .inl (hop.pruned r hpruned)
        · exact absurd (hholds.2 r hdropped) hfactor

theorem Behind.refused (h : Behind w r) {later : ℤ} (hlater : w.clock ≤ later) (secret : List UInt8)
    (code : String) : verifyCodeMatchingStep env.hmacSha1 secret code later ≠ .ok (some r.timeStep) := by
  intro hmatch
  obtain ⟨-, hnear, -⟩ := accepted_near hmatch
  unfold Behind at h
  omega

/-- No time step of a factor is used by two committed operations, if each records its step at most two time steps
after it read the clock. In any run, what is pruned is not accepted at any later reading of the clock, and no other
record goes while its factor is there. -/
theorem code_used_once (h₀ : w₀.Idle) : (∀ {w}, (replays env).Reach Prompt w₀ w → w.accepted.Nodup) ∧
    (∀ {w}, (replays env).Reach Lts.free w₀ w → ∀ op ∈ w.ops, ∀ r ∈ op.prunedRows, ∀ later, w.clock ≤ later →
      ∀ secret code, verifyCodeMatchingStep env.hmacSha1 secret code later ≠ .ok (some r.timeStep)) ∧
    ∀ {w w' l}, (replays env).Reach Lts.free w₀ w → step env w l = some w' → ∀ r ∈ w.usedSteps, r ∉ w'.usedSteps →
      w'.factors.get r.factorId = none ∨ ∀ later, w'.clock ≤ later →
        ∀ secret code, verifyCodeMatchingStep env.hmacSha1 secret code later ≠ .ok (some r.timeStep) := by
  refine ⟨fun h => (single_run h₀ h).1.nodup, fun h op hop r hr later hlater secret code => ?_, fun h hstep r hr hlost => ?_⟩
  · exact ((timed_run h₀.ops h op hop).pruned r hr).refused hlater secret code
  · rcases row_lost (timed_run h₀.ops h) hstep hr hlost with hbehind | hgone
    · exact .inr fun later hlater secret code => hbehind.refused hlater secret code
    · exact .inl hgone

/-! ### One factor -/

def fixtureSecret : List UInt8 := "JBSWY3DPEHPK3PXP".toList.map fun c => UInt8.ofNat c.toNat

/-- The digests of the steps around the clock under the secret of the fixture. -/
def fixtureDigest : ℕ → List UInt8
  | 9 => [203, 2, 42, 224, 228, 107, 39, 42, 252, 17, 223, 240, 7, 40, 70, 198, 103, 138, 251, 49]
  | 10 => [41, 153, 195, 95, 254, 36, 173, 124, 102, 18, 183, 237, 15, 152, 143, 79, 93, 204, 65, 107]
  | 11 => [133, 160, 248, 141, 23, 71, 147, 75, 47, 103, 18, 3, 78, 109, 64, 154, 226, 193, 17, 179]
  | 13 => [178, 193, 25, 143, 42, 106, 180, 231, 54, 52, 24, 69, 76, 71, 160, 161, 44, 59, 82, 12]
  | 14 => [191, 69, 2, 79, 6, 45, 209, 21, 103, 42, 79, 183, 67, 103, 150, 79, 114, 209, 14, 156]
  | 15 => [80, 217, 9, 58, 93, 88, 192, 26, 198, 126, 219, 227, 179, 149, 60, 108, 142, 116, 150, 80]
  | _ => []

def fixtureCiphertext : String := "v1:AAECAwQFBgcICQoL:pt1VIrNAcBeWaV0OT5oopWy1VJSEeAF3WeFu3yRJ_EE"

def fixtureEnv : Env where
  hmacSha1 := fun _ message i => (fixtureDigest (message.foldl (fun n b => n * 256 + b.toNat) 0)).getD i 0
  decryptSecret := fun aad ciphertext =>
    if aad = "mfa_factor:7:totp" ∧ ciphertext = fixtureCiphertext then .ok fixtureSecret
    else .error (.databaseOperation { message := "failed to decrypt MFA secret" })

/-- User 7 has a factor; the clock stands at step 10. -/
def fixtureWorld : World where
  clock := 300
  factors := {
    rows := [⟨1, 7, fixtureCiphertext⟩]
    unique := by decide
    next := 2
    below := by decide }
  usedSteps := []
  ops := []
  accepted := []

theorem fixture_idle : fixtureWorld.Idle := ⟨rfl, rfl⟩

def login (i : ℕ) : List Label := [.act i .readClock, .act i .findFactor, .act i .record, .act i .prune, .act i .commit]

/-- The code of step 10 is used, sent again, and the code of step 14 is used two minutes later. -/
def replayed : List Label :=
  [.start .login 7 "738639", .start .regenerateRecoveryCodes 7 "738 639", .start .login 7 "862159"] ++ login 0 ++
    [.act 1 .prepare, .act 1 .findFactor, .act 1 .readClock, .act 1 .record, .tick 120] ++ login 2

theorem replayed_runs : ((replays fixtureEnv).run Prompt replayed fixtureWorld).map World.accepted =
    some [⟨1, 10⟩, ⟨1, 14⟩] := by decide

theorem code_used_once_replayed : ∃ w, (replays fixtureEnv).Reach Prompt fixtureWorld w ∧
    w.accepted = [⟨1, 10⟩, ⟨1, 14⟩] ∧ w.accepted.Nodup := by
  obtain ⟨w, hrun, haccepted⟩ := map_eq_some_iff.mp replayed_runs
  have hreach := Lts.reach_of_run hrun
  exact ⟨w, hreach, haccepted, (code_used_once fixture_idle).1 hreach⟩

/-- Two logins match the code of step 10. One records it, the code of step 14 prunes that, the other records it again. -/
def stalled : List Label :=
  [.start .login 7 "738639", .start .login 7 "738639", .start .login 7 "862159", .act 1 .readClock, .act 1 .findFactor] ++
    login 0 ++ [.tick 120] ++ login 2 ++ [.act 1 .record, .act 1 .prune, .act 1 .commit]

theorem stalled_runs : ((replays fixtureEnv).run Lts.free stalled fixtureWorld).map World.accepted =
    some [⟨1, 10⟩, ⟨1, 14⟩, ⟨1, 10⟩] := by decide

theorem code_used_twice : fixtureWorld.Idle ∧
    ∃ w, (replays fixtureEnv).Reach Lts.free fixtureWorld w ∧ ¬ w.accepted.Nodup := by
  obtain ⟨w, hrun, haccepted⟩ := map_eq_some_iff.mp stalled_runs
  refine ⟨fixture_idle, w, Lts.reach_of_run hrun, ?_⟩
  rw [haccepted]
  decide

end AsterDrive.Auth.TotpReplay
