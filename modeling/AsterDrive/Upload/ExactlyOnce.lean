import AsterDrive.Upload.LifecycleMoves

/-!
# ExactlyOnce — one session becomes at most one file

At any time the session has at most one owner: the worker whose conditional update moved the row to
`Assembling`, until it has published the file or said on the row that it failed. While there is an
owner that has not published, the row is `Assembling`, `Failed` or gone, so nobody else can claim it;
once the file is published the row is `Completed` or gone, for good.

The same argument is used where commits may get lost (`lossy`), as long as `mark_session_failed` does
not write over a completed row; an owner may then end an assembly that was published.
-/

namespace AsterDrive.Upload.Lifecycle

open Interleave Db List Option

variable {κ : Type} (cfg : Setup κ)

/-- The file `f` was published, and nothing else happened to the content tables. -/
def IsOut (db : Db) (f : File) : Prop := ∃ b, Published cfg.place.scope.resource cfg.db f b db

/-- Nothing is published, and the row does not say otherwise. -/
structure Before (s : State) : Prop where
  db : s.db = cfg.db
  session : ∀ u, s.session = some u → u.status ≠ .completed

/-- The file is published, and the row, while it is there, names it. -/
structure After (s : State) (f : File) : Prop where
  out : IsOut cfg s.db f
  session : ∀ u, s.session = some u → u.status = .completed ∧ u.fileId = some f.id

def Phase (s : State) : Prop := Before cfg s ∨ ∃ f, After cfg s f

/-- Nobody can claim the session. -/
def Taken (s : State) : Prop := ∀ u, s.session = some u → u.status = .assembling ∨ u.status = .failed

def Pc.owns (p : Pc) : Prop := p.works = true ∨ p.ends = true

/-- What holds of a worker by its role. -/
structure Role (lossy : Prop) (s : State) (p : Pc) : Prop where
  sound : p.Sound cfg
  works : p.works = true → s.db = cfg.db ∧ Taken s
  ends : p.ends = true → (s.db = cfg.db ∧ Taken s) ∨ (lossy ∧ ∃ f, After cfg s f)
  file : ∀ f, p.file = some f → IsOut cfg s.db f
  seen : ∀ u, p.seen = some u → u.status = .completed → ∃ f, IsOut cfg s.db f ∧ u.fileId = some f.id

/-- No two workers own the session. -/
def Apart (p q : Pc) : Prop := ¬ (p.owns ∧ q.owns)

/-- The steps that are allowed: commits are not lost, or no completed row is marked as failed. -/
def Allowed (lossy : Prop) (s : State) (p : Pc) (a : Act κ) : Prop :=
  (∀ etag message, a = .lostCommit etag message → lossy) ∧
    (lossy → ∀ job e u, p = .mark job e → a = .ok → s.session = some u → u.status ≠ .completed)

section

variable {cfg} {lossy : Prop} {s s' : State} {p p' q : Pc} {f : File} {u u' : UploadSession} {a : Act κ}

theorem IsOut.fresh (h : IsOut cfg cfg.db f) : False := by
  obtain ⟨b, hb⟩ := h
  have hlen := congrArg List.length hb.rows
  simp at hlen

theorem IsOut.get (h : IsOut cfg s.db f) : s.db.files.get f.id = some f := by
  obtain ⟨b, hb⟩ := h
  apply Table.get_of_mem
  rw [hb.rows]
  simp

theorem IsOut.find (h : IsOut cfg s.db f) (hu : u.fileId = some f.id) : findFileBySession s.db u = .ok f := by
  unfold findFileBySession
  simp only [hu, h.get]

theorem Phase.before (h : Phase cfg s) (hu : s.session = some u) (hstatus : u.status ≠ .completed) :
    Before cfg s := by
  rcases h with h | ⟨f, hf⟩
  · exact h
  · exact absurd (hf.session u hu).1 hstatus

theorem Phase.after (h : Phase cfg s) (hu : s.session = some u) (hstatus : u.status = .completed) :
    ∃ f, IsOut cfg s.db f ∧ u.fileId = some f.id := by
  rcases h with h | ⟨f, hf⟩
  · exact absurd hstatus (h.session u hu)
  · exact ⟨f, hf.out, (hf.session u hu).2⟩

theorem Before.of_session (h : Before cfg s) (hdb : s'.db = s.db)
    (hses : ∀ u, s'.session = some u → u.status ≠ .completed) : Before cfg s' :=
  ⟨hdb.trans h.db, hses⟩

theorem Taken.of_failed (hu : s.session = some u) (hfailed : u.status = .failed) : Taken s := by
  intro r hr
  obtain rfl : u = r := some.inj (hu.symm.trans hr)
  exact .inr hfailed

theorem Taken.ne_live (h : Taken s) (hu : s.session = some u) : u.status ≠ cfg.liveStatus := by
  intro hlive
  unfold Setup.liveStatus at hlive
  rcases h u hu with hu | hu <;> rw [hu] at hlive <;> split_ifs at hlive

theorem liveStatus_ne : cfg.liveStatus ≠ .completed := by
  unfold Setup.liveStatus
  split_ifs <;> simp

/-! ### What the steps do to the phase and to the roles -/

/-- A step that publishes nothing. -/
structure Mild (cfg : Setup κ) (s s' : State) : Prop where
  db : s'.db = s.db
  before : Before cfg s → Before cfg s'
  after : ∀ f, After cfg s f → After cfg s' f

theorem Mild.of_same (hdb : s'.db = s.db) (hses : ∀ r', s'.session = some r' →
      ∃ r, s.session = some r ∧ r'.status = r.status ∧ r'.fileId = r.fileId) : Mild cfg s s' := by
  refine ⟨hdb, fun h => h.of_session hdb ?_, fun f h => ⟨hdb ▸ h.out, ?_⟩⟩
  · intro r' hr'
    obtain ⟨r, hr, hstatus, _⟩ := hses r' hr'
    rw [hstatus]
    exact h.session r hr
  · intro r' hr'
    obtain ⟨r, hr, hstatus, hfile⟩ := hses r' hr'
    rw [hstatus, hfile]
    exact h.session r hr

theorem Mild.of_open (hdb : s'.db = s.db) (hu : s.session = some u) (hu' : s'.session = some u')
    (hopen : u.status ≠ .completed) (hopen' : u'.status ≠ .completed) : Mild cfg s s' := by
  refine ⟨hdb, fun h => h.of_session hdb ?_, ?_⟩
  · intro r hr
    obtain rfl : u' = r := some.inj (hu'.symm.trans hr)
    exact hopen'
  · intro f h
    exact absurd (h.session u hu).1 hopen

theorem Mild.phase (h : Mild cfg s s') (hphase : Phase cfg s) : Phase cfg s' :=
  hphase.imp h.before fun ⟨f, hf⟩ => ⟨f, h.after f hf⟩

/-- A step, as far as the ownership of the session is concerned. -/
inductive Outcome (cfg : Setup κ) (lossy : Prop) (s : State) (p p' : Pc) (s' : State) : Prop
  | mild (h : Mild cfg s s') (htaken : Taken s → Taken s') (hp : Keeps s p p')
  | claimed (job : Job) (h : Mild cfg s s') (hbefore : Before cfg s) (hfree : ¬ Taken s)
      (htaken : Taken s') (hp : p' = .stage job)
  | restored (h : Mild cfg s s') (hends : p.ends = true) (hp : Plain p')
  | out (f : File) (hworks : p.works = true) (hafter : After cfg s' f) (hclosed : p'.works = false)
      (hfile : ∀ g, p'.file = some g → g = f) (hseen : p'.seen = none)
      (hends : p'.ends = true → lossy)

theorem Taken.of_status (hu : s.session = some u) (hu' : s'.session = some u')
    (hstatus : u'.status = u.status) (h : Taken s) : Taken s' := by
  intro r hr
  obtain rfl : u' = r := some.inj (hu'.symm.trans hr)
  rw [hstatus]
  exact h u hu

theorem runPublication_out {v : Verified} {etag : String} {db : Db}
    (hhonest : v.publication.Honest cfg.db) (hdb : s.db = cfg.db)
    (h : runPublication cfg v etag s = .ok (f, u, db)) :
    After cfg { s with session := some u, db } f := by
  obtain ⟨⟨b, hb, _⟩, r, _, _, rfl⟩ := Publication.publish_ok (hdb ▸ hhonest) h
  rw [hdb] at hb
  refine ⟨⟨b, hb⟩, ?_⟩
  intro x hx
  cases hx
  exact ⟨rfl, rfl⟩

theorem afterCommit_roles (cfg : Setup κ) (job : Job) (v : Verified) (f : File) :
    (afterCommit cfg job v f).works = false ∧ (∀ g, (afterCommit cfg job v f).file = some g → g = f) ∧
      (afterCommit cfg job v f).seen = none ∧ (afterCommit cfg job v f).ends = false := by
  unfold afterCommit
  split_ifs
  all_goals exact ⟨rfl, fun g hg => (some.inj hg).symm, rfl, rfl⟩

theorem Moves.outcome (hphase : Phase cfg s) (hrole : Role cfg lossy s p) (hg : Allowed lossy s p a)
    (h : Moves cfg a s p p' s') : Outcome cfg lossy s p p' s' := by
  have hsame : s'.session = s.session → ∀ r', s'.session = some r' →
      ∃ r, s.session = some r ∧ r'.status = r.status ∧ r'.fileId = r.fileId :=
    fun hses r' hr' => ⟨r', hses ▸ hr', rfl, rfl⟩
  cases h with
  | quiet calm hdb hses hp =>
    refine .mild (.of_same hdb (hsame hses)) ?_ hp
    intro htaken r hr
    exact htaken r (hses ▸ hr)
  | deleted path htarget hs hp =>
    subst hs
    exact .mild (.of_same rfl (hsame rfl)) id hp
  | touched u u' calm hdb hu hu' hstatus hfile hexpires hp =>
    refine .mild (.of_same hdb ?_) (.of_status hu hu' hstatus) hp
    intro r' hr'
    obtain rfl : u' = r' := some.inj (hu'.symm.trans hr')
    exact ⟨u, hu, hstatus, hfile⟩
  | failed u u' calm hdb hu hu' hstatus hfailed hp =>
    refine .mild (.of_open hdb hu hu' hstatus ?_) (fun _ => .of_failed hu' hfailed) hp.keeps
    rw [hfailed]
    simp
  | claimed job now u u' hclaim ha calm hdb hu hu' hlive hstatus hp =>
    have hopen : u.status ≠ .completed := hlive ▸ liveStatus_ne
    refine .claimed job (.of_open hdb hu hu' hopen ?_) (hphase.before hu hopen) ?_ ?_ hp
    · rw [hstatus]
      simp
    · exact fun htaken => htaken.ne_live hu hlive
    · intro r hr
      obtain rfl : u' = r := some.inj (hu'.symm.trans hr)
      exact .inl hstatus
  | restored u u' hends calm hdb hu hu' hasm hlive hp =>
    refine .restored (.of_open hdb hu hu' ?_ (hlive ▸ liveStatus_ne)) hends hp
    rw [hasm]
    simp
  | marked job e u u' hmark ha calm hdb hu hu' hfailed hp =>
    -- the row is not completed: nothing is published yet, or the step would not be allowed
    have hopen : u.status ≠ .completed := by
      rcases hrole.ends (by rw [hmark]; rfl) with ⟨_, htaken⟩ | ⟨hlossy, _⟩
      · rcases htaken u hu with hu | hu <;> simp [hu]
      · exact hg.2 hlossy job e u hmark ha hu
    refine .mild (.of_open hdb hu hu' hopen ?_) (fun _ => .of_failed hu' hfailed) hp.keeps
    rw [hfailed]
    simp
  | published job v etag f u db hpublish hcommit hs hp =>
    subst hpublish hs hp
    have hafter := runPublication_out hrole.sound (hrole.works rfl).1 hcommit
    obtain ⟨hworks, hfile, hseen, hends⟩ := afterCommit_roles cfg job v f
    exact .out f rfl hafter hworks hfile hseen (by simp [hends])
  | lost job v etag message f u db hpublish ha hcommit hs hp =>
    subst hpublish hs hp
    have hafter := runPublication_out hrole.sound (hrole.works rfl).1 hcommit
    exact .out f rfl hafter rfl (by simp [Pc.file]) rfl fun _ => hg.1 etag message ha
  | forgotten calm hdb hses hp =>
    refine .mild (.of_same hdb ?_) ?_ hp.keeps
    · simp [hses]
    · intro _ r hr
      simp [hses] at hr

theorem step_own (hlaw : cfg.DigestsAgree) (hphase : Phase cfg s) (hrole : Role cfg lossy s p)
    (hg : Allowed lossy s p a) (h : step cfg a s p = some (s', p')) :
    Phase cfg s' ∧ Role cfg lossy s' p' := by
  have hsound := step_sound hlaw hrole.sound h
  cases (step_turn hrole.sound h).moves.outcome hphase hrole hg with
  | mild hm htaken hp =>
    refine ⟨hm.phase hphase, hsound, ?_, ?_, ?_, ?_⟩
    · intro hworks
      obtain ⟨hdb, ht⟩ := hrole.works (hp.works hworks)
      exact ⟨hm.db.trans hdb, htaken ht⟩
    · intro hends
      rcases hp.ends hends with hends | hends
      · obtain ⟨hdb, ht⟩ := hrole.works hends
        exact .inl ⟨hm.db.trans hdb, htaken ht⟩
      · rcases hrole.ends hends with ⟨hdb, ht⟩ | ⟨hlossy, f, hf⟩
        · exact .inl ⟨hm.db.trans hdb, htaken ht⟩
        · exact .inr ⟨hlossy, f, hm.after f hf⟩
    · intro f hf
      rw [hm.db]
      rcases hp.file f hf with hf | ⟨u, rfl, hfound⟩
      · exact hrole.file f hf
      · -- a completed row was loaded, and its file is the published one
        obtain ⟨g, hg', hid⟩ := hrole.seen u rfl hrole.sound
        rw [hg'.find hid] at hfound
        exact Except.ok.inj hfound ▸ hg'
    · intro u hu hstatus
      rw [hm.db]
      rcases hp.seen u hu with hu | hu
      · exact hrole.seen u hu hstatus
      · exact hphase.after hu hstatus
  | claimed job hm hbefore hfree htaken hp =>
    subst hp
    refine ⟨hm.phase hphase, hsound, ?_, ?_, ?_, ?_⟩
    · exact fun _ => ⟨hm.db.trans hbefore.db, htaken⟩
    · simp [Pc.ends]
    · simp [Pc.file]
    · simp [Pc.seen]
  | restored hm hends hp =>
    refine ⟨hm.phase hphase, hsound, ?_, ?_, ?_, ?_⟩
    · simp [hp.works]
    · simp [hp.ends]
    · simp [hp.file]
    · simp [hp.seen]
  | out f hworks hafter hclosed hfile hseen hends =>
    refine ⟨.inr ⟨f, hafter⟩, hsound, ?_, ?_, ?_, ?_⟩
    · simp [hclosed]
    · exact fun he => .inr ⟨hends he, f, hafter⟩
    · intro g hg'
      exact hfile g hg' ▸ hafter.out
    · simp [hseen]

theorem Role.of_mild (h : Role cfg lossy s q) (hm : Mild cfg s s')
    (htaken : q.owns → Taken s → Taken s') : Role cfg lossy s' q := by
  refine ⟨h.sound, ?_, ?_, ?_, ?_⟩
  · intro hworks
    obtain ⟨hdb, ht⟩ := h.works hworks
    exact ⟨hm.db.trans hdb, htaken (.inl hworks) ht⟩
  · intro hends
    rcases h.ends hends with ⟨hdb, ht⟩ | ⟨hlossy, f, hf⟩
    · exact .inl ⟨hm.db.trans hdb, htaken (.inr hends) ht⟩
    · exact .inr ⟨hlossy, f, hm.after f hf⟩
  · rw [hm.db]
    exact h.file
  · rw [hm.db]
    exact h.seen

theorem step_other (hphase : Phase cfg s) (hrole : Role cfg lossy s p) (hq : Role cfg lossy s q)
    (hpq : Apart p q) (hg : Allowed lossy s p a) (h : step cfg a s p = some (s', p')) :
    Role cfg lossy s' q ∧ Apart p' q := by
  cases (step_turn hrole.sound h).moves.outcome hphase hrole hg with
  | mild hm htaken hp =>
    refine ⟨hq.of_mild hm fun _ => htaken, fun ⟨hp', hq'⟩ => hpq ⟨?_, hq'⟩⟩
    exact hp'.elim (fun hw => .inl (hp.works hw)) hp.ends
  | claimed job hm hbefore hfree htaken hp =>
    refine ⟨hq.of_mild hm fun _ _ => htaken, fun ⟨_, hq'⟩ => hfree ?_⟩
    rcases hq' with hw | he
    · exact (hq.works hw).2
    · rcases hq.ends he with ⟨_, ht⟩ | ⟨_, f, hf⟩
      · exact ht
      · exact (IsOut.fresh (hbefore.db ▸ hf.out)).elim
  | restored hm hends hp =>
    refine ⟨hq.of_mild hm fun hq' _ => absurd ⟨.inr hends, hq'⟩ hpq, fun ⟨hp', _⟩ => ?_⟩
    rcases hp' with hw | he
    · simp [hp.works] at hw
    · simp [hp.ends] at he
  | out f hworks hafter _ _ _ _ =>
    have hdb : s.db = cfg.db := (hrole.works hworks).1
    have hidle : ¬ q.owns := fun hq' => hpq ⟨.inl hworks, hq'⟩
    refine ⟨⟨hq.sound, ?_, ?_, ?_, ?_⟩, fun ⟨_, hq'⟩ => hidle hq'⟩
    · exact fun hw => absurd (.inl hw) hidle
    · exact fun he => absurd (.inr he) hidle
    · intro g hg'
      exact (IsOut.fresh (hdb ▸ hq.file g hg')).elim
    · intro u hu hstatus
      obtain ⟨g, hg', _⟩ := hq.seen u hu hstatus
      exact (IsOut.fresh (hdb ▸ hg')).elim

theorem Apart.symm (h : Apart p q) : Apart q p := fun ⟨hq, hp⟩ => h ⟨hp, hq⟩

/-- **One owner, one publication.** In every reachable state. -/
theorem reach_owned {clock : ℕ} {objects : List String} {G : State → Pc → Act κ → Prop}
    {c : Config State Pc} (hlaw : cfg.DigestsAgree) (hopen : cfg.row.status ≠ .completed)
    (hG : ∀ s p a, G s p a → Allowed lossy s p a)
    (h : Reach (system cfg) G (start cfg clock objects) c) :
    Holds (Phase cfg) (Role cfg lossy) Apart c := by
  refine Reach.owicki ?_ ?_ ?_ h
  · intro s s' p p' a hphase hrole hg hstep
    exact step_own hlaw hphase hrole (hG s p a hg) hstep
  · intro s s' p p' q a hphase hrole hq hpq _ hg hstep
    obtain ⟨hrole', hpq'⟩ := step_other hphase hrole hq hpq (hG s p a hg) hstep
    exact ⟨hrole', hpq', hpq'.symm⟩
  · refine ⟨.inl ⟨rfl, ?_⟩, fun i => ⟨trivial, ?_, ?_, ?_, ?_⟩, fun i j _ => ?_⟩
    · intro u hu
      cases hu
      exact hopen
    · simp [start, Pc.works]
    · simp [start, Pc.ends]
    · simp [start, Pc.file]
    · simp [start, Pc.seen]
    · rintro ⟨hi | hi, _⟩
      · simp [start, Pc.works] at hi
      · simp [start, Pc.ends] at hi

end

/-! ### Exactly once -/

def Act.losesCommit : Act κ → Bool
  | .lostCommit _ _ => true
  | _ => false

/-- A transaction that fails has no effect. -/
def Certain (_ : State) (_ : Pc) (a : Act κ) : Prop := a.losesCommit = false

instance (s : State) (p : Pc) (a : Act κ) : Decidable (Certain s p a) := inferInstanceAs (Decidable (_ = _))

/-- What the session has come to: the file it created, if any, is what its row and every answer name,
and the workspace was charged for that file only. -/
structure HasCreated (cfg : Setup κ) (c : Config State Pc) (created : Option File) : Prop where
  rows : c.shared.db.files.rows = cfg.db.files.rows ++ created.toList
  named : ∀ u, c.shared.session = some u → u.status = .completed → ∃ f, created = some f ∧ u.fileId = some f.id
  charged : Charged cfg.place.scope.resource (created.elim 0 fun f => (f.size : ℤ)) cfg.db c.shared.db
  answers : ∀ i f, c.proc i = .returned (.ok f) → created = some f

section

variable {cfg} {lossy : Prop} {c : Config State Pc} {f g : File} {s s' : State} {p p' : Pc} {a : Act κ}

theorem Certain.allowed (h : Certain s p a) : Allowed False s p a := by
  refine ⟨?_, False.elim⟩
  rintro etag message rfl
  simp [Certain, Act.losesCommit] at h

theorem IsOut.unique (hf : IsOut cfg s.db f) (hg : IsOut cfg s.db g) : f = g := by
  obtain ⟨b, hb⟩ := hf
  obtain ⟨b', hb'⟩ := hg
  have hrows := hb.rows.symm.trans hb'.rows
  exact singleton_inj.mp (append_cancel_left hrows)

theorem hasCreated_none (h : Holds (Phase cfg) (Role cfg lossy) Apart c)
    (hbefore : Before cfg c.shared) : HasCreated cfg c none := by
  refine ⟨?_, ?_, ?_, ?_⟩
  · rw [hbefore.db]
    simp
  · intro u hu hstatus
    exact absurd hstatus (hbefore.session u hu)
  · intro w x hx
    refine ⟨x, by rw [hbefore.db]; exact hx, ?_⟩
    simp
  · intro i f hf
    have hout := (h.each i).file f (by rw [hf]; rfl)
    exact (IsOut.fresh (hbefore.db ▸ hout)).elim

theorem hasCreated_some (h : Holds (Phase cfg) (Role cfg lossy) Apart c)
    (hf : IsOut cfg c.shared.db f) : HasCreated cfg c (some f) := by
  obtain ⟨b, hb⟩ := id hf
  refine ⟨hb.rows, ?_, hb.used, ?_⟩
  · intro u hu hstatus
    obtain ⟨g, hg, hid⟩ := h.shared.after hu hstatus
    exact ⟨f, rfl, hf.unique hg ▸ hid⟩
  · intro i g hg
    have hout := (h.each i).file g (by rw [hg]; rfl)
    rw [hf.unique hout]

theorem step_isOut (hphase : Phase cfg s) (hrole : Role cfg lossy s p) (hg : Allowed lossy s p a)
    (hf : IsOut cfg s.db f) (h : step cfg a s p = some (s', p')) : IsOut cfg s'.db f := by
  cases (step_turn hrole.sound h).moves.outcome hphase hrole hg with
  | mild hm _ _ | claimed _ hm _ _ _ _ | restored hm _ _ => exact hm.db ▸ hf
  | out _ hworks _ _ _ _ _ => exact (IsOut.fresh ((hrole.works hworks).1 ▸ hf)).elim

theorem reach_isOut {clock : ℕ} {objects : List String} {G : State → Pc → Act κ → Prop}
    {c' : Config State Pc} (hlaw : cfg.DigestsAgree) (hopen : cfg.row.status ≠ .completed)
    (hG : ∀ s p a, G s p a → Allowed lossy s p a)
    (h : Reach (system cfg) G (start cfg clock objects) c) (hf : IsOut cfg c.shared.db f)
    (h' : Reach (system cfg) G c c') : IsOut cfg c'.shared.db f := by
  induction h' with
  | refl => exact hf
  | @step c1 c2 i a h1 hg hfire ih =>
    obtain ⟨s', p', hstep, rfl⟩ := fire_eq_some hfire
    have hc := reach_owned hlaw hopen hG (h.trans h1)
    exact step_isOut hc.shared (hc.each i) (hG _ _ _ hg) ih hstep

end

/-- **Completion is exactly-once.** Whatever the complete calls, ingests, cancellations, terminations
and cleanup passes do and in whichever order, the session has created at most one file, and the file
it has created is the one it has created ever after. -/
theorem completion_exactly_once {clock : ℕ} {objects : List String} {c : Config State Pc}
    (hlaw : cfg.DigestsAgree) (hopen : cfg.row.status ≠ .completed)
    (h : Reach (system cfg) Certain (start cfg clock objects) c) :
    ∃ created, HasCreated cfg c created ∧
      ∀ f, created = some f → ∀ c', Reach (system cfg) Certain c c' → HasCreated cfg c' (some f) := by
  have hallowed : ∀ s p (a : Act κ), Certain s p a → Allowed False s p a := fun _ _ _ => Certain.allowed
  have hc := reach_owned hlaw hopen hallowed h
  rcases hc.shared with hbefore | ⟨f, hafter⟩
  · refine ⟨none, hasCreated_none hc hbefore, ?_⟩
    simp
  · refine ⟨some f, hasCreated_some hc hafter.out, ?_⟩
    rintro g hg c' h'
    cases hg
    have hc' := reach_owned hlaw hopen hallowed (h.trans h')
    exact hasCreated_some hc' (reach_isOut hlaw hopen hallowed h hafter.out h')

/-! ### A run -/

/-- A relayed multipart session of one byte, in an empty workspace. -/
def relayedByte : Setup ℕ where
  row :=
    { id := "u1", totalSize := 1, chunkSize := 5, totalChunks := 1, receivedCount := 1
      status := .uploading, sessionKind := .providerRelayMultipart
      objectTempKey := some "files/u1", objectMultipartId := some "m1", expiresAt := 100 }
  place :=
    { scope := .personal 1, folderId := none, filename := "a.txt", mimeType := "text/plain"
      policyId := 1, hashPrefix := "s3", nextCopyName := fun name => name ++ " (1)" }
  db := emptyDb
  hash := toString
  length := id
  contentPath := fun hash => "ca/" ++ hash
  providerSize := 1

/-- Two calls plan and claim; the one that loses is refused, a third one finds the file. -/
def threeCalls : List (ℕ × Act ℕ) :=
  [(0, .complete), (1, .complete), (0, .choosePlan none), (1, .choosePlan none), (0, .ok), (1, .ok),
    (0, .ok), (1, .ok), (0, .stagedTemp), (0, .measured 1), (0, .tick), (0, .commit "etag"),
    (2, .complete), (2, .choosePlan none), (2, .ok)]

def publishedByte : File :=
  { id := 1, ownerUserId := some 1, teamId := none, folderId := none, name := "a.txt", blobId := 1
    size := 1, mimeType := "text/plain", updatedAt := 10 }

theorem relayedByte_digestsAgree : relayedByte.DigestsAgree := fun _ _ hx => absurd hx not_mem_nil

theorem completion_exactly_once_threeCalls : ∃ c, Reach (system relayedByte) Certain (start relayedByte 10 []) c ∧
      c.proc 0 = .returned (.ok publishedByte) ∧ c.proc 2 = .returned (.ok publishedByte) ∧
      HasCreated relayedByte c (some publishedByte) := by
  have hrun : ((system relayedByte).run Certain (start relayedByte 10 []) threeCalls).isSome := rfl
  have hreach := reach_run_get hrun
  obtain ⟨created, hcreated, _⟩ := completion_exactly_once relayedByte relayedByte_digestsAgree (by decide) hreach
  have hzero : (((system relayedByte).run Certain (start relayedByte 10 []) threeCalls).get hrun).proc 0
      = .returned (.ok publishedByte) := rfl
  exact ⟨_, hreach, hzero, rfl, hcreated.answers 0 publishedByte hzero ▸ hcreated⟩

end AsterDrive.Upload.Lifecycle
