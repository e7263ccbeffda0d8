import AsterDrive.Lib.Census
import AsterDrive.Auth.VerifyChallenge

/-!
# Auth.AttemptBudget — how many guesses a login flow allows

Whatever the calls do, one of them succeeds at most: `consume` tests and sets one column of one row. The budget of wrong
codes is another matter. The comparison with it is made on the row as it was read, and the row is not read again, so
that the bound holds in runs in which wrong codes take turns (`TakesTurns`).
-/

namespace AsterDrive.Auth.VerifyChallenge

open List Option Phase World Call

variable {w w' w₀ : World} {i j : ℕ} {call call' c : Call} {a : Action}

/-! ### What a statement does -/

/-- Nothing is compared yet. -/
def Phase.early : Phase → Bool
  | .ready | .clocked _ | .loaded _ => true
  | _ => false

/-- Between two statements, without anything read that is used later. -/
def Phase.plain : Phase → Bool
  | .checked | .began _ | .accepted _ => true
  | _ => false

/-- Why a call may end without a count. -/
def MayEnd (w : World) (call : Call) (a : Action) : Prop :=
  call.strands w a ∨ w.over ∨ call.phase.early ∨
    ∃ now flow, call.phase = .refused now flow ∧ ensureFlowActive flow now ≠ .ok ()

inductive Effect (w : World) (i : ℕ) (call : Call) : Action → World → Prop
  | begins {a : Action} (call' : Call) (hphase : call.phase.early) (hphase' : call'.phase.early)
      (hwrong : call'.wrong = call.wrong) : Effect w i call a (w.setCall i call')
  | goes {a : Action} (call' : Call) (hphase : call'.phase.plain) (hwrong : call'.wrong = call.wrong) :
      Effect w i call a (w.setCall i call')
  | opens (now : ℤ) (flow : MfaLoginFlow) (hload : loadActiveFlow w now = some flow) :
      Effect w i call .load (w.setCall i { call with phase := .opened now flow })
  | findsWrong {a : Action} (call' : Call) (hfinds : call.findsWrong a) (hphase : call'.phase = .checked)
      (hwrong : call'.wrong) : Effect w i call a (w.setCall i call')
  | refuses {a : Action} (now : ℤ) (flow : MfaLoginFlow) (hfinds : call.findsWrong a)
      (hphase : call.phase = .opened now flow) :
      Effect w i call a (w.setCall i { call with phase := .refused now flow, wrong := true })
  | expires {a : Action} (hstrands : call.strands w a) :
      Effect w i call a (w.setCall i { call with phase := .codeExpired })
  | consumes (now : ℤ) (flow : MfaLoginFlow) (hwriter : w.writer = none) (hrow : w.row = some flow)
      (hopen : flow.consumedAt = none) :
      Effect w i call .update { w.setCall i { call with phase := .consuming } with
        writer := some (i, { flow with consumedAt := some now }) }
  | counts (now : ℤ) (read flow : MfaLoginFlow) (consumeAt : Option ℤ) (hphase : call.phase = .refused now read)
      (hwriter : w.writer = none) (hrow : w.row = some flow) (hopen : flow.consumedAt = none)
      (hspent : ensureFlowActive read now = .ok () → mfaMaxAttempts ≤ read.attemptCount + 1 → consumeAt.isSome) :
      Effect w i call .update { w.setCall i { call with phase := .counting } with
        writer := some (i, { flow with attemptCount := flow.attemptCount + 1, consumedAt := consumeAt }) }
  | misses (now : ℤ) (read : MfaLoginFlow) (hphase : call.phase = .refused now read) (hover : w.over) :
      Effect w i call .update (w.setCall i { call with phase := .counting })
  | succeeds (hphase : call.phase = .consuming) :
      Effect w i call .commit ((commitFlow w i).setCall i { call with phase := .succeeded })
  | counted (hphase : call.phase = .counting) :
      Effect w i call .commit { (commitFlow w i).setCall i { call with phase := .rejected } with
        counted := if w.holds i then w.counted + 1 else w.counted }
  | rejects (hphase : call.phase = .codeExpired) :
      Effect w i call .commit (w.setCall i { call with phase := .rejected })
  | fails {a : Action} (hend : MayEnd w call a) : Effect w i call a (w.setCall i { call with phase := .failed })
  | aborts (hlive : call.live) : Effect w i call .abort ((releaseFlow w i).setCall i { call with phase := .failed })

theorem over_of_filter (h : (w.row.filter fun flow => flow.consumedAt = none) = none) : w.over := by
  unfold World.over
  cases hrow : w.row with
  | none => rfl
  | some flow =>
    rw [hrow, filter_eq_none_iff] at h
    have hconsumed := h flow rfl
    cases hat : flow.consumedAt with
    | none => simp [hat] at hconsumed
    | some consumedAt => simp [hat]

variable {flow : MfaLoginFlow}

theorem row_of_filter (h : (w.row.filter fun flow => flow.consumedAt = none) = some flow) :
    w.row = some flow ∧ flow.consumedAt = none := by
  obtain ⟨hrow, hopen⟩ := filter_eq_some_iff.mp h
  exact ⟨hrow, of_decide_eq_true hopen⟩

variable {now : ℤ} {answer : Answer}

theorem prepare_cases (h : prepare call now answer = some call') :
    call'.phase = .checked ∧ (call'.wrong = call.wrong ∨ call'.wrong) := by
  unfold prepare at h
  split at h
  · rename_i hit _ _
    cases h
    cases hit <;> simp
  · cases h
    exact ⟨rfl, .inl rfl⟩
  · rename_i hit _ _
    split_ifs at h
    · cases h
      exact ⟨rfl, .inl rfl⟩
    · cases h
      cases hit <;> simp
  · cases h
    exact ⟨rfl, .inl rfl⟩
  · cases h
    exact ⟨rfl, .inl rfl⟩
  · cases h

theorem prepare_effect (hphase : call.phase = .loaded now)
    (h : prepare call now answer = some call') : Effect w i call (.prepare answer) (w.setCall i call') := by
  obtain ⟨hchecked, hwrong | hwrong⟩ := prepare_cases h
  · exact .goes call' (by simp [hchecked, plain]) hwrong
  · have hfinds : call.findsWrong (.prepare answer) := by simp [findsWrong, hphase, h, hwrong]
    exact .findsWrong call' hfinds hchecked hwrong

theorem verify_effect (hphase : call.phase = .opened now flow)
    (h : act w i call (.verify answer) = some w') : Effect w i call (.verify answer) w' := by
  simp only [act, hphase] at h
  split at h
  · cases h
    exact .goes _ rfl rfl
  · rename_i hverify
    cases h
    exact .refuses now flow (by simp [findsWrong, hphase, hverify]) hphase
  · rename_i hverify
    cases h
    exact .expires (by simp [strands, hphase, hverify])
  · rename_i hverify
    cases h
    exact .fails (.inl (by simp [strands, hphase, hverify]))

theorem consume_effect (h : consume w i call now = some w') : Effect w i call .update w' := by
  unfold consume at h
  split_ifs at h with hwriter
  have hfree : w.writer = none := by simpa using hwriter
  split at h
  · rename_i hfilter
    cases h
    exact .fails (.inr (.inl (over_of_filter hfilter)))
  · rename_i flow hfilter
    obtain ⟨hrow, hopen⟩ := row_of_filter hfilter
    cases h
    exact .consumes now flow hfree hrow hopen

theorem increment_effect {read : MfaLoginFlow} {consumeAt : Option ℤ} (hphase : call.phase = .refused now read)
    (hspent : ensureFlowActive read now = .ok () → mfaMaxAttempts ≤ read.attemptCount + 1 → consumeAt.isSome)
    (h : incrementAttempts w i call consumeAt = some w') : Effect w i call .update w' := by
  unfold incrementAttempts at h
  split_ifs at h with hwriter
  have hfree : w.writer = none := by simpa using hwriter
  split at h
  · rename_i hfilter
    cases h
    exact .misses now read hphase (over_of_filter hfilter)
  · rename_i flow hfilter
    obtain ⟨hrow, hopen⟩ := row_of_filter hfilter
    cases h
    exact .counts now read flow consumeAt hphase hfree hrow hopen hspent

theorem recordFailure_effect {read : MfaLoginFlow} (hphase : call.phase = .refused now read)
    (h : recordFailure w i call now read = some w') : Effect w i call .update w' := by
  unfold recordFailure at h
  split at h
  · rename_i hplan
    cases h
    refine .fails (.inr (.inr (.inr ⟨now, read, hphase, fun hactive => ?_⟩)))
    rw [recordFailure_of_active hactive] at hplan
    cases hplan
  · rename_i transition hplan
    split_ifs at h with hfailed
    · exact increment_effect hphase (fun _ _ => rfl) h
    · refine increment_effect hphase (fun hactive hspent => ?_) h
      rw [recordFailure_of_active hactive, Except.ok.injEq] at hplan
      rw [← hplan, if_pos hspent] at hfailed
      exact absurd rfl hfailed

theorem load_effect (h : act w i call .load = some w') : Effect w i call .load w' := by
  simp only [act] at h
  split at h
  · rename_i hphase
    split at h
    · cases h
      exact .fails (.inr (.inr (.inl (by simp [hphase, early]))))
    · cases h
      exact .begins _ (by simp [hphase, early]) rfl rfl
  · rename_i hphase
    split at h
    · rename_i hload
      cases h
      exact .fails (.inl (by simp [strands, hphase, hload]))
    · rename_i flow hload
      cases h
      exact .opens _ flow hload
  · cases h

/-- **Inversion.** -/
theorem act_effect (h : act w i call a = some w') : Effect w i call a w' := by
  cases a with simp only [act] at h
  | load => exact load_effect h
  | readClock =>
    split at h
    · rename_i hphase
      cases h
      exact .begins _ (by simp [hphase, early]) rfl rfl
    · cases h
      exact .goes _ rfl rfl
    · cases h
  | prepare answer =>
    split at h
    · rename_i now hphase
      split at h
      · cases h
        exact .fails (.inr (.inr (.inl (by simp [hphase, early]))))
      · rename_i call' hprepare
        cases h
        exact prepare_effect hphase hprepare
    · cases h
  | verify answer =>
    cases hphase : call.phase with
    | opened now flow => exact verify_effect hphase h
    | _ => simp [act, hphase] at h
  | update =>
    split at h
    · exact consume_effect h
    · rename_i hphase
      exact recordFailure_effect hphase h
    · cases h
  | commit =>
    split at h
    · cases h
      exact .succeeds (by assumption)
    · cases h
      exact .counted (by assumption)
    · cases h
      exact .rejects (by assumption)
    · cases h
  | abort =>
    split_ifs at h with hlive
    cases h
    exact .aborts hlive

/-! ### The row and its holder -/

/-- Whoever consumes the flow holds its row, and only on a row that is not consumed. -/
structure World.Locked (w : World) : Prop where
  consuming : ∀ (j : ℕ) (c : Call), w.calls[j]? = some c → c.phase = .consuming →
    ∃ flow, w.writer = some (j, flow) ∧ flow.consumedAt.isSome
  opens : w.writer.isSome → w.over = false
  once : w.over ∨ w.successes = 0
  one : w.successes ≤ 1

theorem successes_setCall_le (hget : w.calls[i]? = some call) (hphase : call'.phase ≠ .succeeded) :
    (w.setCall i call').successes ≤ w.successes := by
  have hbalance := @Census.replaced Call w.calls i call call' (fun c => decide (c.phase = .succeeded)) hget
  simp only [hphase, decide_false, Bool.false_eq_true, if_false] at hbalance
  show (w.calls.set i call').countP _ ≤ w.calls.countP _
  omega

theorem successes_setCall_succ (hget : w.calls[i]? = some call) : (w.setCall i call').successes ≤ w.successes + 1 := by
  have hbalance := @Census.replaced Call w.calls i call call' (fun c => decide (c.phase = .succeeded)) hget
  show (w.calls.set i call').countP _ ≤ w.calls.countP _ + 1
  split_ifs at hbalance <;> omega

theorem commitFlow_cases (w : World) (i : ℕ) :
    (∃ flow, w.writer = some (i, flow) ∧ w.holds i ∧ commitFlow w i = { w with row := some flow, writer := none }) ∨
      (w.holds i = false ∧ commitFlow w i = w) := by
  unfold commitFlow holds
  cases hwriter : w.writer with
  | none => exact .inr ⟨rfl, rfl⟩
  | some held =>
    obtain ⟨j, flow⟩ := held
    by_cases hj : j = i
    · subst hj
      exact .inl ⟨flow, rfl, by simp, by simp⟩
    · exact .inr ⟨by simp [hj], by simp [hj]⟩

theorem releaseFlow_cases (w : World) (i : ℕ) :
    releaseFlow w i = w ∨ ((∃ flow, w.writer = some (i, flow)) ∧ releaseFlow w i = { w with writer := none }) := by
  unfold releaseFlow
  cases hwriter : w.writer with
  | none => exact .inl rfl
  | some held =>
    obtain ⟨j, flow⟩ := held
    by_cases hj : j = i
    · subst hj
      exact .inr ⟨⟨flow, rfl⟩, by simp⟩
    · exact .inl (by simp [hj])

theorem World.Locked.setCall (hw : w.Locked) (hget : w.calls[i]? = some call) (hphase : call'.phase ≠ .consuming)
    (hphase' : call'.phase ≠ .succeeded) : (w.setCall i call').Locked := by
  have hle := successes_setCall_le hget hphase'
  refine ⟨fun j c hj hc => ?_, hw.opens, ?_, Nat.le_trans hle hw.one⟩
  · rcases Census.of_set hj with ⟨-, rfl⟩ | ⟨-, hj'⟩
    · exact absurd hc hphase
    · exact hw.consuming j c hj' hc
  · rcases hw.once with hover | hnone
    · exact .inl hover
    · exact .inr (by omega)

theorem World.Locked.take {pending : MfaLoginFlow} (hw : w.Locked) (hget : w.calls[i]? = some call)
    (hwriter : w.writer = none) (hrow : w.row = some flow) (hopen : flow.consumedAt = none)
    (hpending : call'.phase = .consuming → pending.consumedAt.isSome) (hphase : call'.phase ≠ .succeeded) :
    ({ w.setCall i call' with writer := some (i, pending) } : World).Locked := by
  have hle := successes_setCall_le hget hphase
  have hover : w.over = false := by simp [World.over, hrow, hopen]
  refine ⟨fun j c hj hc => ?_, fun _ => hover, ?_, Nat.le_trans hle hw.one⟩
  · rcases Census.of_set hj with ⟨rfl, rfl⟩ | ⟨-, hj'⟩
    · exact ⟨pending, rfl, hpending hc⟩
    · obtain ⟨_, hheld, -⟩ := hw.consuming j c hj' hc
      rw [hwriter] at hheld
      cases hheld
  · rcases hw.once with hover' | hnone
    · exact .inl hover'
    · refine .inr ?_
      show (w.setCall i call').successes = 0
      omega

theorem World.Locked.publish (hw : w.Locked) (hget : w.calls[i]? = some call)
    (hwriter : w.writer = some (i, flow)) (hphase : call'.phase ≠ .consuming)
    (hdone : call'.phase = .succeeded → flow.consumedAt.isSome) (k : ℕ) :
    ({ ({ w with row := some flow, writer := none } : World).setCall i call' with counted := k } : World).Locked := by
  have hnone : w.successes = 0 := by
    rcases hw.once with hover | hnone
    · rw [hw.opens (by simp [hwriter])] at hover
      cases hover
    · exact hnone
  have hsucc := @successes_setCall_succ w i call call' hget
  refine ⟨fun j c hj hc => ?_, fun h => absurd h (by simp [World.setCall]), ?_, ?_⟩
  · rcases Census.of_set hj with ⟨-, rfl⟩ | ⟨hji, hj'⟩
    · exact absurd hc hphase
    · obtain ⟨_, hheld, -⟩ := hw.consuming j c hj' hc
      rw [hwriter] at hheld
      exact absurd (congrArg Prod.fst (some.inj hheld)).symm hji
  · by_cases hsucceeded : call'.phase = .succeeded
    · exact .inl (hdone hsucceeded)
    · refine .inr ?_
      have hle := successes_setCall_le hget hsucceeded
      show (w.setCall i call').successes = 0
      omega
  · show (w.setCall i call').successes ≤ 1
    omega

theorem World.Locked.release (hw : w.Locked) (hwriter : ∀ c, w.calls[i]? = some c → c.phase ≠ .consuming)
    (hheld : ∃ flow, w.writer = some (i, flow)) : ({ w with writer := none } : World).Locked := by
  obtain ⟨flow, hheld⟩ := hheld
  refine ⟨fun j c hj hc => ?_, fun h => absurd h (by simp), hw.once, hw.one⟩
  obtain ⟨_, hholds, -⟩ := hw.consuming j c hj hc
  rw [hheld] at hholds
  obtain rfl : i = j := congrArg Prod.fst (some.inj hholds)
  exact absurd hc (hwriter c hj)

theorem locked_effect (hw : w.Locked) (hget : w.calls[i]? = some call) (h : Effect w i call a w') : w'.Locked := by
  cases h with
  | begins call' hphase hphase' hwrong =>
    refine hw.setCall hget ?_ ?_ <;> rintro heq <;> simp [heq, early] at hphase'
  | goes call' hphase hwrong =>
    refine hw.setCall hget ?_ ?_ <;> rintro heq <;> simp [heq, plain] at hphase
  | opens now flow hload | refuses now flow hfinds hphase | expires hstrands | misses now read hphase hover
  | rejects hphase | fails hend => exact hw.setCall hget (by simp) (by simp)
  | findsWrong call' hfinds hphase hwrong => exact hw.setCall hget (by simp [hphase]) (by simp [hphase])
  | consumes now flow hwriter hrow hopen => exact hw.take hget hwriter hrow hopen (fun _ => rfl) (by simp)
  | counts now read flow consumeAt hphase hwriter hrow hopen hspent =>
    exact hw.take hget hwriter hrow hopen (fun h => by simp at h) (by simp)
  | succeeds hphase =>
    obtain ⟨flow, hwriter, hconsumed⟩ := hw.consuming i call hget hphase
    rcases commitFlow_cases w i with ⟨flow', hwriter', -, hcommit⟩ | ⟨hholds, -⟩
    · obtain ⟨-, rfl⟩ := some_pair_inj (hwriter.symm.trans hwriter')
      rw [hcommit]
      exact hw.publish hget hwriter (by simp) (fun _ => hconsumed) w.counted
    · simp [holds, hwriter] at hholds
  | counted hphase =>
    rcases commitFlow_cases w i with ⟨flow, hwriter, -, hcommit⟩ | ⟨-, hcommit⟩
    · rw [hcommit]
      exact hw.publish hget hwriter (by simp) (fun h => by simp at h) _
    · rw [hcommit]
      have hset : (w.setCall i { call with phase := .rejected }).Locked := hw.setCall hget (by simp) (by simp)
      exact ⟨hset.consuming, hset.opens, hset.once, hset.one⟩
  | aborts hlive =>
    have hset : (w.setCall i { call with phase := .failed }).Locked := hw.setCall hget (by simp) (by simp)
    rcases releaseFlow_cases w i with hkept | ⟨hheld, hreleased⟩
    · rw [hkept]
      exact hset
    · rw [hreleased]
      refine hset.release (fun c hc => ?_) hheld
      rcases Census.of_set hc with ⟨-, rfl⟩ | ⟨hne, -⟩
      · simp
      · exact absurd rfl hne

theorem get_append {method : MfaMethod} {code : String}
    (h : (w.calls ++ [({ method := method, code := code } : Call)])[j]? = some c) :
    w.calls[j]? = some c ∨ (c.phase = .ready ∧ c.wrong = false) := by
  refine (Census.of_append h).imp_right ?_
  rintro rfl
  exact ⟨rfl, rfl⟩

variable {l : Label}

/-- **One step.** -/
theorem locked_step (hw : w.Locked) (h : step w l = some w') : w'.Locked := by
  cases l with
  | tick seconds =>
    cases h
    exact ⟨hw.consuming, hw.opens, hw.once, hw.one⟩
  | start method code =>
    cases h
    have hcount : (w.calls ++ [({ method := method, code := code } : Call)]).countP
        (fun c : Call => decide (c.phase = .succeeded)) = w.successes := by
      rw [Census.joined]
      rfl
    refine ⟨fun j c hj hc => ?_, hw.opens, hw.once.imp_right hcount.trans, Nat.le_trans (Nat.le_of_eq hcount) hw.one⟩
    rcases get_append hj with hold | ⟨hready, -⟩
    · exact hw.consuming j c hold hc
    · rw [hc] at hready
      cases hready
  | deleteFlow =>
    simp only [step] at h
    split_ifs at h with hwriter
    cases h
    exact ⟨hw.consuming, fun h => absurd h hwriter, .inl rfl, hw.one⟩
  | act i action =>
    obtain ⟨call, hget, hact⟩ := bind_eq_some_iff.mp h
    exact locked_effect hw hget (act_effect hact)

theorem World.Fresh.locked (h : w.Fresh) : w.Locked := by
  refine ⟨fun j c hj => ?_, fun hwriter => ?_, .inr ?_, ?_⟩
  · simp [h.calls] at hj
  · simp [h.writer] at hwriter
  · simp [successes, h.calls]
  · simp [successes, h.calls]

theorem locked_run {G : World → Label → Prop} (h₀ : w₀.Fresh) (h : challenges.Reach G w₀ w) : w.Locked :=
  h.induct (I := World.Locked) h₀.locked fun hw _ hstep => locked_step hw hstep

/-! ### The budget -/

def Call.fails (call : Call) : Prop := call.wrong ∧ call.live

def Call.Holds (w : World) (j : ℕ) (call : Call) : Prop :=
  match call.phase with
  | .ready | .clocked _ | .loaded _ => call.wrong = false
  | .opened now flow => ensureFlowActive flow now = .ok () ∧ (call.wrong → w.over ∨ flow.attemptCount = w.counted)
  | .refused now flow =>
    call.wrong ∧ ensureFlowActive flow now = .ok () ∧ (w.over ∨ flow.attemptCount = w.counted)
  | .codeExpired => call.wrong → w.over
  | .counting =>
    call.wrong ∧ (w.over ∨ ∃ pending, w.writer = some (j, pending) ∧ pending.attemptCount = w.counted + 1 ∧
      (mfaMaxAttempts ≤ pending.attemptCount → pending.consumedAt.isSome))
  | _ => True

/-- What is known about the wrong codes together. -/
structure World.Tally (w : World) : Prop where
  row : ∀ flow, w.row = some flow → flow.consumedAt = none → flow.attemptCount = w.counted
  spare : w.over = false → w.counted < mfaMaxAttempts
  alone : w.over = false → ∀ (j k : ℕ) (c d : Call), w.calls[j]? = some c → w.calls[k]? = some d → c.fails → d.fails → j = k
  ahead : w.over = false → w.wrongs ≤ w.counted ∨
    (w.wrongs ≤ w.counted + 1 ∧ ∃ (j : ℕ) (c : Call), w.calls[j]? = some c ∧ c.fails)
  bound : w.wrongs ≤ mfaMaxAttempts

def World.Each (w : World) : Prop := ∀ (j : ℕ) (c : Call), w.calls[j]? = some c → c.Holds w j

theorem Call.Holds.of_over (h : c.Holds w j) (hover : w'.over) : c.Holds w' j := by
  unfold Call.Holds at *
  cases hphase : c.phase with rw [hphase] at h
  | ready | clocked _ | loaded _ =>
    exact h
  | opened now flow =>
    exact ⟨h.1, fun _ => .inl hover⟩
  | refused now flow =>
    exact ⟨h.1, h.2.1, .inl hover⟩
  | codeExpired => exact fun _ => hover
  | counting =>
    exact ⟨h.1, .inl hover⟩
  | _ => trivial

/-- A call that is not wrong awaits nothing, and neither does one that is not running. -/
theorem Call.Holds.of_quiet (h : c.Holds w j) (hquiet : ¬ c.fails) : c.Holds w' j := by
  have hnot : c.live → c.wrong = false := fun hlive => by
    by_cases hwrong : c.wrong
    · exact absurd ⟨hwrong, hlive⟩ hquiet
    · simpa using hwrong
  unfold Call.Holds at *
  unfold live at hnot
  cases hphase : c.phase with
  | ready | clocked _ | loaded _ =>
    rw [hphase] at h
    exact h
  | opened now flow =>
    rw [hphase] at h hnot
    exact ⟨h.1, fun hwrong => absurd hwrong (by simp [hnot rfl])⟩
  | refused now flow | counting =>
    rw [hphase] at h hnot
    exact absurd h.1 (by simp [hnot rfl])
  | codeExpired =>
    rw [hphase] at hnot
    exact fun hwrong => absurd hwrong (by simp [hnot rfl])
  | _ => trivial

/-- Nothing is counted and the flow is as it was; the call keeps the row if it has it. -/
theorem Call.Holds.frame (h : c.Holds w j) (hrow : w'.row = w.row) (hcounted : w'.counted = w.counted)
    (hwriter : ∀ pending, w.writer = some (j, pending) → w'.writer = some (j, pending)) : c.Holds w' j := by
  have hover : w'.over = w.over := by
    unfold World.over
    rw [hrow]
  unfold Call.Holds at *
  rw [hover, hcounted]
  cases hphase : c.phase with
  | counting =>
    rw [hphase] at h
    refine ⟨h.1, h.2.imp_right ?_⟩
    rintro ⟨pending, hheld, hcount⟩
    exact ⟨pending, hwriter pending hheld, hcount⟩
  | _ =>
    rw [hphase] at h
    exact h

theorem live_of_act (h : act w i call a = some w') : call.live := by
  unfold live
  cases hphase : call.phase with
  | succeeded | rejected | failed => cases a <;> simp [act, hphase, live, isOver] at h
  | _ => rfl

theorem wrongs_setCall (hget : w.calls[i]? = some call) :
    (w.setCall i call').wrongs + (if call.wrong then 1 else 0) = w.wrongs + if call'.wrong then 1 else 0 :=
  Census.replaced wrong hget

theorem get_setCall_self (hget : w.calls[i]? = some call) : (w.setCall i call').calls[i]? = some call' := by
  obtain ⟨hlt, -⟩ := List.getElem?_eq_some_iff.mp hget
  exact getElem?_set_self hlt

/-- The call that moves is wrong if it was, and goes on if it is wrong and the flow is not over. -/
theorem World.Tally.setCall (hw : w.Tally) (hget : w.calls[i]? = some call) (hlive : call.live)
    (hwrong : call'.wrong = call.wrong) (hend : call.wrong → call'.live ∨ w.over) : (w.setCall i call').Tally := by
  have hwrongs : (w.setCall i call').wrongs = w.wrongs := by
    have hbalance := @wrongs_setCall w i call call' hget
    rw [hwrong] at hbalance
    omega
  have hback : ∀ {j : ℕ} {c : Call}, (w.setCall i call').calls[j]? = some c → c.fails → ∃ d : Call, w.calls[j]? = some d ∧ d.fails := by
    intro j c hj hfails
    rcases Census.of_set hj with ⟨rfl, rfl⟩ | ⟨-, hj'⟩
    · exact ⟨call, hget, hwrong ▸ hfails.1, hlive⟩
    · exact ⟨c, hj', hfails⟩
  refine ⟨hw.row, hw.spare, fun hopen j k c d hj hk hc hd => ?_, fun hopen => ?_, hwrongs ▸ hw.bound⟩
  · obtain ⟨c', hj', hc'⟩ := hback hj hc
    obtain ⟨d', hk', hd'⟩ := hback hk hd
    exact hw.alone hopen j k c' d' hj' hk' hc' hd'
  · rw [hwrongs]
    refine (hw.ahead hopen).imp_right ?_
    rintro ⟨hle, j, c, hj, hfails⟩
    refine ⟨hle, ?_⟩
    by_cases hji : j = i
    · subst hji
      obtain rfl := some.inj (hget.symm.trans hj)
      have hlive' : call'.live := by
        rcases hend hfails.1 with hlive' | hover
        · exact hlive'
        · rw [show w.over = false from hopen] at hover
          cases hover
      exact ⟨j, call', get_setCall_self hget, hwrong ▸ hfails.1, hlive'⟩
    · refine ⟨j, c, ?_, hfails⟩
      exact (getElem?_set_ne (Ne.symm hji)).trans hj

theorem World.Tally.found (hw : w.Tally) (hget : w.calls[i]? = some call) (hright : call.wrong = false)
    (hopen : w.over = false) (hothers : w.othersQuiet i) (hwrong : call'.wrong) (hlive : call'.live) :
    (w.setCall i call').Tally := by
  have hquiet : ∀ {j : ℕ} {c : Call}, w.calls[j]? = some c → ¬ c.fails := by
    intro j c hj hfails
    by_cases hji : j = i
    · subst hji
      obtain rfl := some.inj (hget.symm.trans hj)
      exact absurd hfails.1 (by simp [hright])
    · have hmem : (c, j) ∈ w.calls.zipIdx := mem_zipIdx_iff_getElem?.mpr hj
      have hall := List.all_eq_true.mp hothers (c, j) hmem
      simp [hji, hfails.1, hfails.2] at hall
  have hle : w.wrongs ≤ w.counted := by
    rcases hw.ahead hopen with hle | ⟨-, j, c, hj, hfails⟩
    · exact hle
    · exact absurd hfails (hquiet hj)
  have hwrongs : (w.setCall i call').wrongs = w.wrongs + 1 := by
    have hbalance := @wrongs_setCall w i call call' hget
    rw [hright, hwrong] at hbalance
    simpa using hbalance
  have hspare := hw.spare hopen
  have halone : ∀ {j : ℕ} {c : Call}, (w.setCall i call').calls[j]? = some c → c.fails → j = i := by
    intro j c hj hfails
    rcases Census.of_set hj with ⟨rfl, -⟩ | ⟨-, hj'⟩
    · rfl
    · exact absurd hfails (hquiet hj')
  refine ⟨hw.row, hw.spare, fun _ j k c d hj hk hc hd => ?_, fun _ => .inr ⟨?_, ?_⟩, ?_⟩
  · exact (halone hj hc).trans (halone hk hd).symm
  · show (w.setCall i call').wrongs ≤ w.counted + 1
    omega
  · exact ⟨i, call', get_setCall_self hget, hwrong, hlive⟩
  · omega

theorem World.Each.setCall (hw : w.Each) (hrow : w'.row = w.row) (hcounted : w'.counted = w.counted)
    (hcalls : w'.calls = w.calls.set i call') (hholds : call'.Holds w' i)
    (hwriter : ∀ j pending, j ≠ i → w.writer = some (j, pending) → w'.writer = some (j, pending)) : w'.Each := by
  intro j c hj
  rw [hcalls, getElem?_set] at hj
  split_ifs at hj with hji hlt
  · cases hj
    exact hji ▸ hholds
  · exact (hw j c hj).frame hrow hcounted fun pending => hwriter j pending (Ne.symm hji)

theorem budget_setCall (hw : w.Tally) (heach : w.Each) (hget : w.calls[i]? = some call) (hlive : call.live)
    (hwrong : call'.wrong = call.wrong) (hend : call.wrong → call'.live ∨ w.over) (hholds : call'.Holds w i) :
    (w.setCall i call').Tally ∧ (w.setCall i call').Each :=
  ⟨hw.setCall hget hlive hwrong hend, heach.setCall rfl rfl rfl (hholds.frame rfl rfl fun _ h => h) fun _ _ _ h => h⟩

theorem budget_over (i : ℕ) (call' : Call) (heach : w.Each) (hbound : w'.wrongs ≤ mfaMaxAttempts) (hover : w'.over)
    (hcalls : w'.calls = w.calls.set i call') (hholds : call'.Holds w' i) : w'.Tally ∧ w'.Each := by
  have hnot : w'.over ≠ false := by simp [hover]
  refine ⟨⟨fun flow hrow hopen => ?_, fun h => absurd h hnot, fun h => absurd h hnot, fun h => absurd h hnot, hbound⟩, ?_⟩
  · simp [World.over, hrow, hopen] at hover
  · intro j c hj
    rw [hcalls, getElem?_set] at hj
    split_ifs at hj with hji hlt
    · cases hj
      exact hji ▸ hholds
    · exact (heach j c hj).of_over hover

theorem budget_succeeds (hw : w.Tally) (heach : w.Each) (hlocked : w.Locked) (hget : w.calls[i]? = some call)
    (hphase : call.phase = .consuming) :
    ((commitFlow w i).setCall i { call with phase := .succeeded }).Tally ∧
      ((commitFlow w i).setCall i { call with phase := .succeeded }).Each := by
  obtain ⟨flow, hwriter, hconsumed⟩ := hlocked.consuming i call hget hphase
  rcases commitFlow_cases w i with ⟨flow', hwriter', -, hcommit⟩ | ⟨hholds, -⟩
  · obtain ⟨-, rfl⟩ := some_pair_inj (hwriter.symm.trans hwriter')
    rw [hcommit]
    refine budget_over i { call with phase := .succeeded } heach ?_ hconsumed rfl trivial
    have hbalance := @wrongs_setCall w i call { call with phase := .succeeded } hget
    have hbound := hw.bound
    show (w.setCall i { call with phase := .succeeded }).wrongs ≤ mfaMaxAttempts
    dsimp only at hbalance
    omega
  · simp [holds, hwriter] at hholds

/-- **A count.** It closes the flow when it is the last one. -/
theorem budget_counted (hw : w.Tally) (heach : w.Each) (hlocked : w.Locked) (hget : w.calls[i]? = some call)
    (hphase : call.phase = .counting) :
    ({ (commitFlow w i).setCall i { call with phase := .rejected } with
        counted := if w.holds i then w.counted + 1 else w.counted } : World).Tally ∧
      ({ (commitFlow w i).setCall i { call with phase := .rejected } with
        counted := if w.holds i then w.counted + 1 else w.counted } : World).Each := by
  have hcounting := heach i call hget
  unfold Call.Holds at hcounting
  rw [hphase] at hcounting
  obtain ⟨hwrong, hawaits⟩ := hcounting
  have hfails : call.fails := ⟨hwrong, by simp [live, hphase, isOver]⟩
  have hwrongs : (w.setCall i { call with phase := .rejected }).wrongs = w.wrongs := by
    have hbalance := @wrongs_setCall w i call { call with phase := .rejected } hget
    dsimp only at hbalance
    omega
  have hbound : (w.setCall i { call with phase := .rejected }).wrongs ≤ mfaMaxAttempts := hwrongs ▸ hw.bound
  rcases commitFlow_cases w i with ⟨flow, hwriter, hholds, hcommit⟩ | ⟨hholds, hcommit⟩
  · have hopen := hlocked.opens (by simp [hwriter])
    obtain ⟨pending, hheld, hcount, hspent⟩ : ∃ pending, w.writer = some (i, pending) ∧
        pending.attemptCount = w.counted + 1 ∧ (mfaMaxAttempts ≤ pending.attemptCount → pending.consumedAt.isSome) := by
      rcases hawaits with hover | hawaits
      · rw [hopen] at hover
        cases hover
      · exact hawaits
    obtain ⟨-, rfl⟩ := some_pair_inj (hwriter.symm.trans hheld)
    rw [hcommit, hholds, if_pos rfl]
    by_cases hconsumed : flow.consumedAt.isSome
    · exact budget_over i { call with phase := .rejected } heach hbound hconsumed rfl trivial
    · -- the count was not the last one: no wrong call is left, and the row is at the new count
      have hquiet : ∀ {j : ℕ} {c : Call}, w.calls[j]? = some c → j ≠ i → ¬ c.fails := fun hj hji hc =>
        hji (hw.alone hopen _ i _ call hj hget hc hfails)
      have hnone : ∀ {j : ℕ} {c : Call}, (w.setCall i { call with phase := .rejected }).calls[j]? = some c → ¬ c.fails := by
        intro j c hj hc
        rcases Census.of_set hj with ⟨-, rfl⟩ | ⟨hji, hj'⟩
        · exact absurd hc.2 (by simp [live, isOver])
        · exact hquiet hj' hji hc
      have hle : w.wrongs ≤ w.counted + 1 := by
        rcases hw.ahead hopen with hle | ⟨hle, -⟩ <;> omega
      refine ⟨⟨fun flow' hrow _ => ?_, fun _ => ?_, fun _ j k c d hj _ hc _ => absurd hc (hnone hj),
        fun _ => .inl (Nat.le_trans (Nat.le_of_eq hwrongs) hle), hbound⟩, fun j c hj => ?_⟩
      · cases hrow
        exact hcount
      · show w.counted + 1 < mfaMaxAttempts
        by_contra hlast
        exact hconsumed (hspent (by omega))
      · rcases Census.of_set (l := w.calls) hj with ⟨rfl, rfl⟩ | ⟨hji, hj'⟩
        · trivial
        · exact (heach j c hj').of_quiet (hquiet hj' hji)
  · have hover : w.over := by
      rcases hawaits with hover | ⟨pending, hheld, -⟩
      · exact hover
      · simp [holds, hheld] at hholds
    rw [hcommit, hholds]
    exact budget_over i { call with phase := .rejected } heach hbound hover rfl trivial

theorem loaded_active (h : loadActiveFlow w now = some flow) :
    w.row = some flow ∧ ensureFlowActive flow now = .ok () := by
  obtain ⟨hrow, hactive⟩ := filter_eq_some_iff.mp h
  exact ⟨hrow, of_decide_eq_true hactive⟩

/-- **One action.** -/
theorem budget_effect (hw : w.Tally) (heach : w.Each) (hlocked : w.Locked) (hget : w.calls[i]? = some call)
    (hlive : call.live) (hturn : TakesTurns w (.act i a)) (h : Effect w i call a w') : w'.Tally ∧ w'.Each := by
  have hholds := heach i call hget
  unfold Call.Holds at hholds
  simp only [TakesTurns, hget] at hturn
  obtain ⟨hfair, hcounts⟩ := hturn
  cases h with
  | begins call' hphase hphase' hwrong =>
    have hright : call.wrong = false := by
      cases hp : call.phase <;> simp_all [early]
    refine budget_setCall hw heach hget hlive hwrong (fun h => absurd h (by simp [hright])) ?_
    unfold Call.Holds
    cases hp : call'.phase <;> simp_all [early]
  | goes call' hphase hwrong =>
    refine budget_setCall hw heach hget hlive hwrong (fun _ => .inl ?_) ?_
    · unfold live
      cases hp : call'.phase <;> simp_all [plain, isOver]
    · unfold Call.Holds
      cases hp : call'.phase <;> simp_all [plain]
  | opens now flow hload =>
    obtain ⟨hrow, hactive⟩ := loaded_active hload
    have hopen := (ensureFlowActive_ok_iff.mp hactive).1
    exact budget_setCall hw heach hget hlive rfl (fun _ => .inl rfl) ⟨hactive, fun _ => .inr (hw.row flow hrow hopen)⟩
  | findsWrong call' hfinds hphase hwrong =>
    have hlive' : call'.live := by simp [live, hphase, isOver]
    have hchecked : call'.Holds w i := by simp [Call.Holds, hphase]
    by_cases hright : call.wrong = false
    · obtain ⟨hopen, hothers, -⟩ := hfair ⟨hfinds, hright⟩
      exact ⟨hw.found hget hright hopen hothers hwrong hlive',
        heach.setCall rfl rfl rfl (hchecked.frame rfl rfl fun _ h => h) fun _ _ _ h => h⟩
    · have hsame : call'.wrong = call.wrong := by simp [hwrong, hright]
      exact budget_setCall hw heach hget hlive hsame (fun _ => .inl hlive') hchecked
  | refuses now flow hfinds hphase =>
    rw [hphase] at hholds
    obtain ⟨hactive, hcurrent⟩ := hholds
    by_cases hright : call.wrong = false
    · obtain ⟨hopen, hothers, hreads⟩ := hfair ⟨hfinds, hright⟩
      have hcount : flow.attemptCount = w.counted := by
        simp only [readsCurrent, hphase] at hreads
        cases hrow : w.row with
        | none => simp [hrow] at hreads
        | some row =>
          have hsame : row.attemptCount = flow.attemptCount := by simpa [hrow] using hreads
          have hunconsumed : row.consumedAt = none := by simpa [World.over, hrow] using hopen
          exact hsame.symm.trans (hw.row row hrow hunconsumed)
      have hrefused : Call.Holds w i { call with phase := .refused now flow, wrong := true } := ⟨rfl, hactive, .inr hcount⟩
      exact ⟨hw.found hget hright hopen hothers rfl rfl,
        heach.setCall rfl rfl rfl (hrefused.frame rfl rfl fun _ h => h) fun _ _ _ h => h⟩
    · have hwrong : call.wrong = true := by simpa using hright
      exact budget_setCall hw heach hget hlive hwrong.symm (fun _ => .inl rfl) ⟨rfl, hactive, hcurrent hwrong⟩
  | expires hstrands =>
    exact budget_setCall hw heach hget hlive rfl (fun _ => .inl rfl) fun hwrong => hcounts ⟨hwrong, hstrands⟩
  | consumes now flow hwriter hrow hopen =>
    have htally : (w.setCall i { call with phase := .consuming }).Tally := hw.setCall hget hlive rfl fun _ => .inl rfl
    refine ⟨⟨htally.row, htally.spare, htally.alone, htally.ahead, htally.bound⟩, ?_⟩
    refine heach.setCall rfl rfl rfl trivial fun j pending _ hheld => ?_
    rw [hwriter] at hheld
    cases hheld
  | counts now read flow consumeAt hphase hwriter hrow hopen hspent =>
    rw [hphase] at hholds
    obtain ⟨hwrong, hactive, hcurrent⟩ := hholds
    have hcount : flow.attemptCount = w.counted := hw.row flow hrow hopen
    have hread : read.attemptCount = w.counted := by
      rcases hcurrent with hover | hread
      · simp [World.over, hrow, hopen] at hover
      · exact hread
    have htally : (w.setCall i { call with phase := .counting }).Tally := hw.setCall hget hlive rfl fun _ => .inl rfl
    refine ⟨⟨htally.row, htally.spare, htally.alone, htally.ahead, htally.bound⟩, ?_⟩
    refine heach.setCall rfl rfl rfl ⟨hwrong, .inr ⟨_, rfl, ?_, fun hlast => ?_⟩⟩ fun j pending _ hheld => ?_
    · exact congrArg (· + 1) hcount
    · refine hspent hactive ?_
      dsimp only at hlast
      omega
    · rw [hwriter] at hheld
      cases hheld
  | misses now read hphase hover =>
    rw [hphase] at hholds
    exact budget_setCall hw heach hget hlive rfl (fun _ => .inl rfl) ⟨hholds.1, .inl hover⟩
  | succeeds hphase => exact budget_succeeds hw heach hlocked hget hphase
  | counted hphase => exact budget_counted hw heach hlocked hget hphase
  | rejects hphase =>
    rw [hphase] at hholds
    exact budget_setCall hw heach hget hlive rfl (fun hwrong => .inr (hholds hwrong)) trivial
  | fails hend =>
    refine budget_setCall hw heach hget hlive rfl (fun hwrong => .inr ?_) trivial
    rcases hend with hstrands | hover | hearly | ⟨now, flow, hphase, hinactive⟩
    · exact hcounts ⟨hwrong, hstrands⟩
    · exact hover
    · cases hp : call.phase <;> simp_all [early]
    · rw [hphase] at hholds
      exact absurd hholds.2.1 hinactive
  | aborts hlive =>
    have htally : (w.setCall i { call with phase := .failed }).Tally :=
      hw.setCall hget hlive rfl fun hwrong => .inr (hcounts ⟨hwrong, rfl⟩)
    rcases releaseFlow_cases w i with hkept | ⟨⟨flow, hheld⟩, hreleased⟩
    · rw [hkept]
      exact ⟨htally, heach.setCall rfl rfl rfl trivial fun _ _ _ h => h⟩
    · rw [hreleased]
      refine ⟨⟨htally.row, htally.spare, htally.alone, htally.ahead, htally.bound⟩, ?_⟩
      refine heach.setCall rfl rfl rfl trivial fun j pending hji hother => ?_
      rw [hheld] at hother
      exact absurd (congrArg Prod.fst (some.inj hother)).symm hji

/-- **One step.** -/
theorem budget_step (hw : w.Tally) (heach : w.Each) (hlocked : w.Locked) (hturn : TakesTurns w l)
    (h : step w l = some w') : w'.Tally ∧ w'.Each := by
  cases l with
  | tick seconds =>
    cases h
    exact ⟨⟨hw.row, hw.spare, hw.alone, hw.ahead, hw.bound⟩, fun j c hj => (heach j c hj).frame rfl rfl fun _ h => h⟩
  | start method code =>
    cases h
    have hcount : (w.calls ++ [({ method := method, code := code } : Call)]).countP wrong = w.wrongs := by
      rw [Census.joined]
      rfl
    have hold : ∀ {j : ℕ} {c : Call}, (w.calls ++ [({ method := method, code := code } : Call)])[j]? = some c →
        c.fails → w.calls[j]? = some c := by
      intro j c hj hfails
      rcases get_append hj with hold | ⟨-, hright⟩
      · exact hold
      · exact absurd hfails.1 (by simp [hright])
    refine ⟨⟨hw.row, hw.spare, fun hopen j k c d hj hk hc hd => ?_, fun hopen => ?_, ?_⟩, fun j c hj => ?_⟩
    · exact hw.alone hopen j k c d (hold hj hc) (hold hk hd) hc hd
    · show (w.calls ++ _).countP wrong ≤ w.counted ∨ (w.calls ++ _).countP wrong ≤ w.counted + 1 ∧ _
      rw [hcount]
      refine (hw.ahead hopen).imp_right ?_
      rintro ⟨hle, j, c, hj, hfails⟩
      refine ⟨hle, j, c, ?_, hfails⟩
      obtain ⟨hlt, -⟩ := List.getElem?_eq_some_iff.mp hj
      exact (getElem?_append_left hlt).trans hj
    · exact Nat.le_trans (Nat.le_of_eq hcount) hw.bound
    · rcases get_append hj with hold | ⟨hready, hright⟩
      · exact (heach j c hold).frame rfl rfl fun _ h => h
      · simp [Call.Holds, hready, hright]
  | deleteFlow =>
    simp only [step] at h
    split_ifs at h
    cases h
    have hnot : ({ w with row := none } : World).over ≠ false := by simp [World.over]
    refine ⟨⟨(fun flow hrow => nomatch hrow), fun h => absurd h hnot, fun h => absurd h hnot, fun h => absurd h hnot,
      hw.bound⟩, fun j c hj => (heach j c hj).of_over rfl⟩
  | act i action =>
    obtain ⟨call, hget, hact⟩ := bind_eq_some_iff.mp h
    exact budget_effect hw heach hlocked hget (live_of_act hact) hturn (act_effect hact)

theorem World.Fresh.budget (h : w.Fresh) : w.Tally ∧ w.Each := by
  obtain ⟨⟨expiresAt, hrow⟩, hwriter, hcalls, hcounted⟩ := h
  have hwrongs : w.wrongs = 0 := by simp [wrongs, hcalls]
  refine ⟨⟨fun flow hflow _ => ?_, fun _ => ?_, fun _ j k c d hj => ?_, fun _ => .inl ?_, ?_⟩, fun j c hj => ?_⟩
  · obtain rfl := some.inj (hrow.symm.trans hflow)
    exact hcounted.symm
  · simp [hcounted, mfaMaxAttempts]
  · simp [hcalls] at hj
  · omega
  · omega
  · simp [hcalls] at hj

theorem budget_run (h₀ : w₀.Fresh) (h : challenges.Reach TakesTurns w₀ w) : w.Tally ∧ w.Each := by
  refine h.strengthen (I := fun w => w.Tally ∧ w.Each) (J := World.Locked) (fun hr => locked_run h₀ hr) h₀.budget ?_
  intro w w' l hw hlocked _ hturn hstep
  exact budget_step hw.1 hw.2 hlocked hturn hstep

@[simp] theorem calls_commitFlow : (commitFlow w i).calls = w.calls := by
  rcases commitFlow_cases w i with ⟨_, -, -, hcommit⟩ | ⟨-, hcommit⟩ <;> rw [hcommit]

@[simp] theorem calls_releaseFlow : (releaseFlow w i).calls = w.calls := by
  rcases releaseFlow_cases w i with hkept | ⟨-, hreleased⟩
  · rw [hkept]
  · rw [hreleased]

theorem successes_effect (hget : w.calls[i]? = some call) (h : Effect w i call a w') :
    call.phase = .consuming ∨ w'.successes ≤ w.successes := by
  have hkept : ∀ call' : Call, call'.phase ≠ .succeeded →
      (w.calls.set i call').countP (fun c => decide (c.phase = .succeeded)) ≤ w.successes := fun call' hphase =>
    successes_setCall_le hget hphase
  cases h with
  | succeeds hphase => exact .inl hphase
  | begins call' hphase hphase' hwrong => exact .inr (hkept call' fun heq => by simp [heq, early] at hphase')
  | goes call' hphase hwrong => exact .inr (hkept call' fun heq => by simp [heq, plain] at hphase)
  | findsWrong call' hfinds hphase hwrong => exact .inr (hkept call' (by simp [hphase]))
  | counted hphase =>
    refine .inr ?_
    show ((commitFlow w i).calls.set i _).countP _ ≤ _
    rw [calls_commitFlow]
    exact hkept _ (by simp)
  | aborts hlive =>
    refine .inr ?_
    show ((releaseFlow w i).calls.set i _).countP _ ≤ _
    rw [calls_releaseFlow]
    exact hkept _ (by simp)
  | opens | refuses | expires | consumes | counts | misses | rejects | fails => exact .inr (hkept _ (by simp))

theorem first_success (hw : w.Tally) (hlocked : w.Locked) (h : step w l = some w')
    (hmore : w.successes < w'.successes) : w.successes = 0 ∧ w.counted < mfaMaxAttempts := by
  have hafter := (locked_step hlocked h).one
  refine ⟨by omega, ?_⟩
  cases l with
  | tick seconds =>
    cases h
    exact absurd hmore (Nat.lt_irrefl _)
  | start method code =>
    cases h
    have hcount : (w.calls ++ [({ method := method, code := code } : Call)]).countP
        (fun c : Call => decide (c.phase = .succeeded)) = w.successes := by
      rw [Census.joined]
      rfl
    exact absurd (hcount ▸ hmore) (Nat.lt_irrefl _)
  | deleteFlow =>
    simp only [step] at h
    split_ifs at h
    cases h
    exact absurd hmore (Nat.lt_irrefl _)
  | act i action =>
    obtain ⟨call, hget, hact⟩ := bind_eq_some_iff.mp h
    rcases successes_effect hget (act_effect hact) with hphase | hle
    · obtain ⟨flow, hwriter, -⟩ := hlocked.consuming i call hget hphase
      exact hw.spare (hlocked.opens (by simp [hwriter]))
    · omega

/-- One call succeeds at most. If wrong codes take turns, no more codes are found wrong than the flow allows, and a
call that succeeds does so before that many are counted and before any other. -/
theorem attempts_bounded (h₀ : w₀.Fresh) : (∀ {w}, challenges.Reach Lts.free w₀ w → w.successes ≤ 1) ∧
    ∀ {w}, challenges.Reach TakesTurns w₀ w → w.wrongs ≤ mfaMaxAttempts ∧
      ∀ {w' l}, step w l = some w' → w.successes < w'.successes → w.successes = 0 ∧ w.counted < mfaMaxAttempts := by
  refine ⟨fun h => (locked_run h₀ h).one, fun h => ⟨(budget_run h₀ h).1.bound, fun hstep hmore => ?_⟩⟩
  exact first_success (budget_run h₀ h).1 (locked_run h₀ h) hstep hmore

/-! ### A flow with a TOTP factor -/

def newFlow : World where
  clock := 1000
  row := some ⟨0, none, 1300⟩
  writer := none
  calls := []
  counted := 0

theorem newFlow_fresh : newFlow.Fresh := ⟨⟨1300, rfl⟩, rfl, rfl, rfl⟩

/-- Call `i` up to the flow as its transaction reads it. -/
def reads (i : ℕ) : List Label :=
  [.act i .readClock, .act i .load, .act i (.prepare .error), .act i .readClock, .act i .load]

/-- Call `i` from the comparison of its code on. -/
def ends (i : ℕ) (isMatch : Bool) : List Label :=
  [.act i (.verify (.totp isMatch true)), .act i .update, .act i .commit]

def starts (n : ℕ) : List Label := List.replicate n (.start .totp "123456")

/-- Four wrong codes and the right one, each after the other. -/
def inTurn : List Label :=
  starts 5 ++ (reads 0 ++ ends 0 false) ++ (reads 1 ++ ends 1 false) ++ (reads 2 ++ ends 2 false) ++
    (reads 3 ++ ends 3 false) ++ reads 4 ++ [.act 4 (.verify (.totp true true)), .act 4 .update]

theorem inTurn_runs : (challenges.run TakesTurns inTurn newFlow).map
    (fun w => (w.wrongs, w.successes, (step w (.act 4 .commit)).map World.successes)) = some (4, 0, some 1) := by
  decide

theorem attempts_bounded_inTurn : ∃ w, challenges.Reach TakesTurns newFlow w ∧ w.wrongs = 4 ∧ w.wrongs ≤ mfaMaxAttempts ∧
    ∃ w', step w (.act 4 .commit) = some w' ∧ w'.successes = 1 ∧ w.successes = 0 ∧ w.counted < mfaMaxAttempts := by
  obtain ⟨w, hrun, hends⟩ := map_eq_some_iff.mp inTurn_runs
  have hreach := Lts.reach_of_run hrun
  obtain ⟨hwrongs, hsuccess⟩ := Prod.mk.inj hends
  obtain ⟨hnone, hcommit⟩ := Prod.mk.inj hsuccess
  obtain ⟨w', hstep, hone⟩ := map_eq_some_iff.mp hcommit
  obtain ⟨hbound, hfirst⟩ := (attempts_bounded newFlow_fresh).2 hreach
  have hmore : w.successes < w'.successes := by omega
  exact ⟨w, hreach, hwrongs, hbound, w', hstep, hone, (hfirst hstep hmore).1, (hfirst hstep hmore).2⟩

/-- Seven calls read the flow. Six codes are wrong, and all six are counted; then the seventh is right. -/
def atOnce : List Label :=
  starts 7 ++ reads 0 ++ reads 1 ++ reads 2 ++ reads 3 ++ reads 4 ++ reads 5 ++ reads 6 ++ ends 0 false ++ ends 1 false ++
    ends 2 false ++ ends 3 false ++ ends 4 false ++ ends 5 false ++ [.act 6 (.verify (.totp true true)), .act 6 .update]

theorem atOnce_runs : (challenges.run Lts.free atOnce newFlow).map
    (fun w => (w.wrongs, w.counted, (step w (.act 6 .commit)).map World.successes)) = some (6, 6, some 1) := by
  decide

theorem attempts_exceeded : newFlow.Fresh ∧ ∃ w, challenges.Reach Lts.free newFlow w ∧ mfaMaxAttempts < w.wrongs ∧
    mfaMaxAttempts ≤ w.counted ∧ ∃ w', step w (.act 6 .commit) = some w' ∧ w'.successes = 1 := by
  obtain ⟨w, hrun, hwrongs, hrest⟩ := map_pair_eq_some atOnce_runs
  obtain ⟨hcounted, hcommit⟩ := Prod.mk.inj hrest
  obtain ⟨w', hstep, hone⟩ := map_eq_some_iff.mp hcommit
  refine ⟨newFlow_fresh, w, Lts.reach_of_run hrun, ?_, ?_, w', hstep, hone⟩
  · rw [hwrongs]
    decide
  · rw [hcounted]
    decide

end AsterDrive.Auth.VerifyChallenge
