import AsterDrive.Upload.ExactlyOnce

/-!
# SafeCleanup — who may delete the object at the temp key

Multipart and resumable completions publish the object at `object_temp_key` itself, and cancellation,
termination and cleanup passes delete that key. They are kept apart by the row alone: a worker that
is about to delete the key saw or wrote a row that nobody can claim any more (`Gone`).

That holds as long as no step is careless (`Careful`): `mark_session_failed` must not write over a
completed row, and the row must not have expired by the time it is claimed. `published_lost` is a run
in which a lost commit ends in a careless write and a cancel call deletes the published object.
-/

namespace AsterDrive.Upload.Lifecycle

open Interleave Db UploadSessionKind

variable {κ : Type} (cfg : Setup κ)

namespace Setup

/-- The kinds and sizes for which the object at the temp key becomes the blob's object. -/
def PublishesTemp : Prop :=
  cfg.kind.expectsMultipartId = true ∨ (cfg.kind.isProviderResumable = true ∧ cfg.providerSize = cfg.row.totalSize)

/-- The temp key is new, and whatever is referenced is stored. -/
structure Sane (objects : List String) : Prop where
  digests : cfg.DigestsAgree
  opened : cfg.row.status ≠ .completed
  fresh : ∀ key, cfg.row.objectTempKey = some key → ¬ Known cfg.db key
  apart : ∀ key body, cfg.row.objectTempKey = some key → cfg.contentPath (cfg.hash body) ≠ key
  stored : ∀ path, Live cfg.db path → path ∈ objects

end Setup

def Pc.marks : Pc → Act κ → Bool
  | .mark _ _, .ok => true
  | _, _ => false

def Pc.claims : Pc → Act κ → Bool
  | .claim _ _, .ok => true
  | _, _ => false

/-- No completed row is marked as failed, and no expired row is claimed. -/
def Careful (s : State) (p : Pc) (a : Act κ) : Prop :=
  ∀ u ∈ s.session, (p.marks a = true → u.status ≠ .completed) ∧ (p.claims a = true → s.clock < u.expiresAt)

instance (s : State) (p : Pc) (a : Act κ) : Decidable (Careful s p a) :=
  inferInstanceAs (Decidable (∀ u ∈ s.session, _))

/-- Nothing is published, and nobody can claim the session any more. -/
structure Gone (s : State) : Prop where
  db : s.db = cfg.db
  session : ∀ u, s.session = some u → u.status = .failed ∨
    ((u.status = .uploading ∨ u.status = .presigned) ∧ u.expiresAt ≤ s.clock)

/-- The workers that are about to delete the object at the temp key. -/
def Pc.collects : Pc → Bool
  | .sweep u => u.status ≠ .assembling
  | .abort _ _ | .delete _ _ => true
  | _ => false

/-- Publishing `v` makes the temp key live only where it may. -/
def Verified.FitsTemp (v : Verified) : Prop :=
  ∀ key, cfg.row.objectTempKey = some key → v.storagePath = key → cfg.PublishesTemp

/-- What a worker knows about the object that it may delete. -/
def Pc.Safe : Pc → Prop
  | .verify _ => cfg.kind.isPresignedSingle = true ∨ cfg.kind.isProviderResumable = true
  | .reject _ _ | .clear _ _ => ¬ cfg.PublishesTemp
  | .transit _ | .claim _ _ | .stage _ =>
    cfg.kind.isProviderResumable = true → cfg.providerSize = cfg.row.totalSize
  | .measure _ v => ¬ Live cfg.db v.storagePath ∧ v.FitsTemp cfg
  | .publish _ v => (v.cleanup.deletes = true → ¬ Live cfg.db v.storagePath) ∧ v.FitsTemp cfg
  | .discard _ path _ => ¬ Live cfg.db path
  | .rollback _ v _ | .cleanup _ v _ => ¬ Live cfg.db v.storagePath
  | _ => True

/-- The shared part of the invariant. -/
structure Intact (s : State) : Prop where
  phase : Phase cfg s
  temp : ∀ key, cfg.row.objectTempKey = some key → Live s.db key → cfg.PublishesTemp
  stored : s.db = cfg.db → ∀ path, Live cfg.db path → path ∈ s.objects
  destroyed : s.destroyed = []

/-- What holds of each worker. -/
structure Tidy (s : State) (p : Pc) : Prop where
  role : Role cfg True s p
  safe : p.Safe cfg
  gone : p.collects = true → Gone cfg s

section

variable {cfg} {objects : List String} {s s' : State} {p p' q : Pc} {a : Act κ} {u : UploadSession} {path : String}

theorem Careful.allowed (h : Careful s p a) : Allowed True s p a := by
  refine ⟨fun _ _ _ => trivial, ?_⟩
  rintro - job e u rfl rfl hu
  exact (h u hu).1 rfl

theorem single_not_publishesTemp (h : cfg.kind.isPresignedSingle = true) : ¬ cfg.PublishesTemp := by
  unfold Setup.PublishesTemp
  cases hkind : cfg.kind <;>
    simp_all [isPresignedSingle, expectsMultipartId, isProviderResumable]

theorem resumable_not_publishesTemp (h : cfg.kind.isProviderResumable = true)
    (hsize : cfg.providerSize ≠ cfg.row.totalSize) : ¬ cfg.PublishesTemp := by
  unfold Setup.PublishesTemp
  cases hkind : cfg.kind <;>
    simp_all [expectsMultipartId, isProviderResumable]

theorem not_live_of_new (hdb : s.db = cfg.db) (hnew : cfg.isNewPath s path = true) : ¬ Live cfg.db path := by
  rintro ⟨b, hb, hpath, _⟩
  unfold Setup.isNewPath at hnew
  rw [decide_eq_true_eq] at hnew
  exact hnew.2 b (hdb ▸ hb) hpath

theorem fitsTemp_of_new {v : Verified} (hnew : cfg.isNewPath s v.storagePath = true) :
    v.FitsTemp cfg := by
  intro key hkey hpath
  unfold Setup.isNewPath at hnew
  rw [decide_eq_true_eq, hpath] at hnew
  exact absurd hkey hnew.1

theorem runPublication_assembling {v : Verified} {etag : String} {f : File} {db : Db}
    (hhonest : v.publication.Honest s.db) (h : runPublication cfg v etag s = .ok (f, u, db)) :
    ∃ r, s.session = some r ∧ r.status = .assembling := by
  obtain ⟨_, r, hr, hstatus, _⟩ := Publication.publish_ok hhonest h
  exact ⟨r, hr, hstatus⟩

theorem Gone.step (h : Gone cfg s) (hrole : Role cfg True s p) (hg : Careful s p a)
    (hm : Moves cfg a s p p' s') : Gone cfg s' := by
  have hfailed : ∀ r, s'.db = s.db → s'.session = some r → r.status = .failed → Gone cfg s' := by
    intro r hdb hr hstatus
    refine ⟨hdb.trans h.db, fun r' hr' => .inl ?_⟩
    obtain rfl : r = r' := Option.some.inj (hr.symm.trans hr')
    exact hstatus
  have hclaimed : ∀ r, s.session = some r → r.status ≠ .assembling := by
    intro r hr hstatus
    rcases h.session r hr with hr | ⟨hr | hr, _⟩ <;> simp [hstatus] at hr
  cases hm with
  | quiet calm hdb hses _ =>
    refine ⟨hdb.trans h.db, fun r hr => ?_⟩
    rcases h.session r (hses ▸ hr) with hr | ⟨hr, hexp⟩
    · exact .inl hr
    · exact .inr ⟨hr, hexp.trans calm.clock⟩
  | deleted path _ hs _ =>
    subst hs
    exact ⟨h.db, h.session⟩
  | touched u u' calm hdb hu hu' hstatus _ hexpires _ =>
    refine ⟨hdb.trans h.db, fun r hr => ?_⟩
    obtain rfl : u' = r := Option.some.inj (hu'.symm.trans hr)
    rw [hstatus, hexpires]
    exact (h.session u hu).imp id fun ⟨hr, hexp⟩ => ⟨hr, hexp.trans calm.clock⟩
  | failed u u' _ hdb _ hu' _ hstatus _ | marked _ _ u u' _ _ _ hdb _ hu' hstatus _ =>
    exact hfailed u' hdb hu' hstatus
  | claimed job now u u' hclaim ha calm hdb hu hu' hlive hstatus hp =>
    subst hclaim ha
    have hnow := (hg u hu).2 rfl
    rcases h.session u hu with hr | ⟨_, hexp⟩
    · rw [hr] at hlive
      unfold Setup.liveStatus at hlive
      split_ifs at hlive
    · omega
  | restored u u' _ _ _ hu _ hasm _ _ => exact absurd hasm (hclaimed u hu)
  | published job v etag f u db hpublish hcommit _ _ | lost job v etag message f u db hpublish _ hcommit _ _ =>
    subst hpublish
    obtain ⟨r, hr, hasm⟩ := runPublication_assembling (h.db ▸ hrole.sound) hcommit
    exact absurd hasm (hclaimed r hr)
  | forgotten _ hdb hses _ =>
    refine ⟨hdb.trans h.db, fun r hr => ?_⟩
    simp [hses] at hr

theorem Gone.of_expired (hphase : Phase cfg s) (hu : s.session = some u)
    (hexpired : u.isExpired s.clock = true) (hstatus : u.status ≠ .assembling) : Gone cfg s := by
  unfold UploadSession.isExpired at hexpired
  rw [decide_eq_true_eq] at hexpired
  refine ⟨(hphase.before hu hexpired.2).db, fun r hr => ?_⟩
  obtain rfl : u = r := Option.some.inj (hu.symm.trans hr)
  have hexp : u.expiresAt ≤ s.clock := hexpired.1.le
  cases hcase : u.status with
  | uploading => exact .inr ⟨.inl rfl, hexp⟩
  | presigned => exact .inr ⟨.inr rfl, hexp⟩
  | failed => exact .inl rfl
  | assembling => exact absurd hcase hstatus
  | completed => exact absurd hcase hexpired.2

theorem Gone.of_failed (hphase : Phase cfg s) (hu : s.session = some u) (hstatus : u.status = .failed) :
    Gone cfg s := by
  refine ⟨(hphase.before hu (by simp [hstatus])).db, fun r hr => .inl ?_⟩
  obtain rfl : u = r := Option.some.inj (hu.symm.trans hr)
  exact hstatus

/-- **What is about to be deleted is not referenced.** -/
theorem target_not_live (hsane : cfg.Sane objects) (hI : Intact cfg s) (hA : Tidy cfg s p)
    (htarget : p.target cfg = some path) : ¬ Live s.db path := by
  have hworks : p.works = true → s.db = cfg.db := fun h => (hA.role.works h).1
  have hsafe := hA.safe
  cases p with
  | reject u e | clear job f => exact fun hlive => hsafe (hI.temp path htarget hlive)
  | discard job target e | cleanup job v e =>
    cases htarget
    rw [hworks rfl]
    exact hsafe
  | delete origin u =>
    rw [(hA.gone rfl).db]
    exact fun hlive => hsane.fresh path htarget hlive.known
  | _ => simp [Pc.target] at htarget

theorem Intact.calm (h : Intact cfg s) (hphase : Phase cfg s') (calm : Calm s s') (hdb : s'.db = s.db) :
    Intact cfg s' := by
  refine ⟨hphase, ?_, ?_, ?_⟩
  · rw [hdb]
    exact h.temp
  · intro hdb' path hlive
    exact calm.objects path (h.stored (hdb ▸ hdb') path hlive)
  · rw [calm.destroyed]
    exact h.destroyed

theorem Intact.delete (h : Intact cfg s) (hphase : Phase cfg (s.deleteObject path))
    (hdead : ¬ Live s.db path) : Intact cfg (s.deleteObject path) := by
  refine ⟨hphase, h.temp, ?_, ?_⟩
  · intro hdb q hq
    have hne : q ≠ path := by
      rintro rfl
      exact hdead (hdb ▸ hq)
    have hmem : q ∈ s.objects := h.stored hdb q hq
    show q ∈ s.objects.filter fun x => x ≠ path
    simpa using ⟨hmem, hne⟩
  · show (if path ∈ s.objects ∧ Live s.db path then path :: s.destroyed else s.destroyed) = []
    rw [if_neg fun hlive => hdead hlive.2]
    exact h.destroyed

theorem Intact.commit {v : Verified} {etag : String} {f : File} {db : Db} (hsane : cfg.Sane objects)
    (h : Intact cfg s) (hdb : s.db = cfg.db) (hhonest : v.publication.Honest cfg.db)
    (hfits : v.FitsTemp cfg) (hphase : Phase cfg { s with session := some u, db })
    (hok : runPublication cfg v etag s = .ok (f, u, db)) :
    Intact cfg { s with session := some u, db } := by
  have hafter := runPublication_out hhonest hdb hok
  obtain ⟨⟨b, hb, hrow⟩, _⟩ := Publication.publish_ok (hdb ▸ hhonest) hok
  refine ⟨hphase, ?_, ?_, h.destroyed⟩
  · intro key hkey hlive
    rcases hb.live hrow hlive with hknown | hpath
    · exact absurd (hdb ▸ hknown) (hsane.fresh key hkey)
    · exact hfits key hkey hpath.symm
  · intro hdb'
    exact (IsOut.fresh (hdb' ▸ hafter.out)).elim

theorem step_intact (hsane : cfg.Sane objects) (hI : Intact cfg s) (hA : Tidy cfg s p)
    (hphase : Phase cfg s') (hm : Moves cfg a s p p' s') : Intact cfg s' := by
  cases hm with
  | quiet calm hdb _ _ | touched _ _ calm hdb _ _ _ _ _ _ | failed _ _ calm hdb _ _ _ _ _
  | claimed _ _ _ _ _ _ calm hdb _ _ _ _ _ | restored _ _ _ calm hdb _ _ _ _ _
  | marked _ _ _ _ _ _ calm hdb _ _ _ _ | forgotten calm hdb _ _ => exact hI.calm hphase calm hdb
  | deleted path htarget hs _ =>
    subst hs
    exact hI.delete hphase (target_not_live hsane hI hA htarget)
  | published job v etag f u db hpublish hcommit hs _ | lost job v etag message f u db hpublish _ hcommit hs _ =>
    subst hpublish hs
    exact hI.commit hsane (hA.role.works rfl).1 hA.role.sound hA.safe.2 hphase hcommit

theorem contentVerified_storagePath (job : Job) (s : State) (body : κ) :
    (contentVerified cfg job s body).storagePath = cfg.contentPath (cfg.hash body) := by
  unfold contentVerified
  split_ifs <;> rfl

theorem contentVerified_deletes {job : Job} {body : κ} (h : (contentVerified cfg job s body).cleanup.deletes = true) :
    cfg.contentPath (cfg.hash body) ∉ s.objects := by
  unfold contentVerified at h
  split_ifs at h with hingest
  · intro hmem
    simp [hmem, UploadCleanupPlan.deletes] at h
  · simp [UploadCleanupPlan.deletes] at h

theorem Pc.safe_of_dull (h : p.dull = true) : p.Safe cfg := by
  cases p <;> trivial

theorem step_safe (hsane : cfg.Sane objects) (hI : Intact cfg s) (hA : Tidy cfg s p)
    (h : Edge cfg s s' p p') : p'.Safe cfg := by
  have hsafe := hA.safe
  have hworks : p.works = true → s.db = cfg.db := fun h => (hA.role.works h).1
  have htemp : ∀ key, cfg.row.objectTempKey = some key → ¬ Live cfg.db key :=
    fun key hkey hlive => hsane.fresh key hkey hlive.known
  cases h with
  | stay | claim job now | stage job now | unreferenced job v e => exact hsafe
  | dull _ hdull => exact Pc.safe_of_dull hdull
  | lookup u _ | cancel _ _ | terminate _ _ | sweep _ _ _ | abortSwept _ _ | abortFailed _ _ _ _ _ _
  | delete _ _ => exact trivial
  | verify u hkind => exact hkind
  | reject u e hsize =>
    rcases hsafe with hsingle | hresumable
    · exact single_not_publishesTemp hsingle
    · exact resumable_not_publishesTemp hresumable (hsize hresumable)
  | transit _ job hsize => exact hsize
  | ingest job now hkind =>
    intro hresumable
    simp [hkind, isProviderResumable] at hresumable
  | multipart job key hkey hkind =>
    refine ⟨htemp key hkey, fun _ _ _ => .inl hkind⟩
  | resumable job key hkey hkind =>
    refine ⟨fun _ => htemp key hkey, fun _ _ _ => .inr ⟨hkind, hsafe hkind⟩⟩
  | copied job path hnew => exact ⟨not_live_of_new (hworks rfl) hnew, fitsTemp_of_new hnew⟩
  | prepared job v hnew _ =>
    exact ⟨fun _ => not_live_of_new (hworks rfl) hnew, fitsTemp_of_new hnew⟩
  | content job body =>
    refine ⟨fun hdeletes hlive => contentVerified_deletes hdeletes ?_, fun key hkey hpath => ?_⟩
    · rw [contentVerified_storagePath] at hlive
      exact hI.stored (hworks rfl) _ hlive
    · rw [contentVerified_storagePath] at hpath
      exact absurd hpath (hsane.apart key body hkey)
  | spoiledNew job path e hnew => exact not_live_of_new (hworks rfl) hnew
  | spoiledContent job body e hlinked =>
    exact fun hlive => hlinked (hI.stored (hworks rfl) _ hlive)
  | measured job v => exact ⟨fun _ => hsafe.1, hsafe.2⟩
  | mismatch job v e => exact hsafe.1
  | rollback job v e hplan => exact hsafe.1 (by rw [hplan]; rfl)
  | cleanup job v e hplan =>
    refine hsafe.1 ?_
    rcases hplan with hplan | hplan <;> rw [hplan] <;> rfl
  | clear job v f hkind => exact single_not_publishesTemp hkind

theorem Pc.collects_of_dull (h : p.dull = true) : p.collects = false := by
  cases p <;> first | rfl | simp [Pc.dull] at h

theorem step_gone (hI : Intact cfg s) (hA : Tidy cfg s p) (hphase : Phase cfg s') (hg : Careful s p a)
    (hm : Moves cfg a s p p' s') (h : Edge cfg s s' p p') (hp : p'.collects = true) :
    Gone cfg s' := by
  have hstep : Gone cfg s → Gone cfg s' := fun hgone => hgone.step hA.role hg hm
  cases h with
  | stay => exact hstep (hA.gone hp)
  | dull _ hdull => simp [Pc.collects_of_dull hdull] at hp
  | sweep u hses hexpired =>
    refine hstep (.of_expired hI.phase hses hexpired ?_)
    simpa [Pc.collects] using hp
  | abortSwept u hstatus => exact hstep (hA.gone (by simpa [Pc.collects] using hstatus))
  | abortFailed _ origin u r hses hfailed => exact .of_failed hphase hses hfailed
  | delete origin u => exact hstep (hA.gone rfl)
  | _ => simp [Pc.collects] at hp

end

/-- **Cleanup destroys nothing that is published**, in every state of a run whose steps are careful. -/
theorem cleanup_spares_published {clock : ℕ} {objects : List String} {c : Config State Pc}
    (hsane : cfg.Sane objects) (h : Reach (system cfg) Careful (start cfg clock objects) c) :
    c.shared.destroyed = [] := by
  have hc : Holds (Intact cfg) (Tidy cfg) Apart c := by
    refine Reach.owicki ?_ ?_ ?_ h
    · intro s s' p p' a hI hA hg hstep
      obtain ⟨hphase, hrole⟩ := step_own hsane.digests hI.phase hA.role hg.allowed hstep
      have hm := (step_turn hA.role.sound hstep).moves
      have he := (step_turn hA.role.sound hstep).edge
      exact ⟨step_intact hsane hI hA hphase hm, hrole, step_safe hsane hI hA he, step_gone hI hA hphase hg hm he⟩
    · intro s s' p p' q a hI hA hq hpq _ hg hstep
      obtain ⟨hrole, hpq'⟩ := step_other hI.phase hA.role hq.role hpq hg.allowed hstep
      have hm := (step_turn hA.role.sound hstep).moves
      have hgone : q.collects = true → Gone cfg s' := fun hcol =>
        (hq.gone hcol).step hA.role hg hm
      exact ⟨⟨hrole, hq.safe, hgone⟩, hpq', hpq'.symm⟩
    · have hown : Holds (Phase cfg) (Role cfg True) Apart (start cfg clock objects) :=
        reach_owned hsane.digests hsane.opened (fun _ _ _ => Careful.allowed) .refl
      refine ⟨⟨hown.shared, ?_, fun _ => hsane.stored, rfl⟩, fun i => ⟨hown.each i, trivial, ?_⟩, hown.pair⟩
      · exact fun key hkey hlive => absurd hlive.known (hsane.fresh key hkey)
      · simp [start, Pc.collects]
  exact hc.shared.destroyed

/-! ### Runs -/

theorem relayedByte_sane : relayedByte.Sane [] := by
  have hempty : ∀ path, ¬ Known emptyDb path := fun path ⟨b, hb, _⟩ => absurd hb List.not_mem_nil
  refine ⟨relayedByte_digestsAgree, by decide, fun key _ => hempty key, ?_, ?_⟩
  · rintro key body hkey hpath
    obtain rfl : "files/u1" = key := Option.some.inj hkey
    have hchar := congrArg (fun s : String => s.toList.head?) hpath
    simp [relayedByte] at hchar
  · exact fun path hlive => absurd hlive.known (hempty path)

/-- The commit gets lost, and the worker dies before it marks the row; a cancel call and a pass over
expired sessions find the row completed. -/
def lostThenSwept : List (ℕ × Act ℕ) :=
  [(0, .complete), (0, .choosePlan none), (0, .ok), (0, .ok), (0, .stagedTemp), (0, .measured 1),
    (0, .lostCommit "etag" "timeout"), (0, .crash), (1, .cancel), (3, .advance 200), (2, .sweep)]

theorem cleanup_spares_published_swept : ∃ c, Reach (system relayedByte) Careful (start relayedByte 10 []) c ∧
      c.shared.db.files.rows.length = 1 ∧ c.proc 2 = .finished ∧ c.shared.destroyed = [] := by
  have hrun : ((system relayedByte).run Careful (start relayedByte 10 []) lostThenSwept).isSome := rfl
  have hreach := reach_run_get hrun
  exact ⟨_, hreach, rfl, rfl, cleanup_spares_published relayedByte relayedByte_sane hreach⟩

/-- The same commit gets lost, but the worker lives: it marks the completed row as failed, so that a
cancel call takes the session for one that may be cleaned up. -/
def lostThenCancelled : List (ℕ × Act ℕ) :=
  [(0, .complete), (0, .choosePlan none), (0, .ok), (0, .ok), (0, .stagedTemp), (0, .measured 1),
    (0, .lostCommit "etag" "timeout"), (0, .ok), (0, .ok), (1, .cancel), (1, .ok), (1, .ok), (1, .ok)]

/-- **A published object is deleted** by the cancellation of its session. -/
theorem published_lost : ¬ ∀ (cfg : Setup ℕ) (clock : ℕ) (objects : List String) (c : Config State Pc),
      cfg.Sane objects → Reach (system cfg) free (start cfg clock objects) c → c.shared.destroyed = [] := by
  intro hall
  have hrun : ((system relayedByte).run free (start relayedByte 10 []) lostThenCancelled).isSome := rfl
  have hdestroyed := hall relayedByte 10 [] _ relayedByte_sane (reach_run_get hrun)
  have hlost : (((system relayedByte).run free (start relayedByte 10 []) lostThenCancelled).get
      hrun).shared.destroyed = ["files/u1"] := rfl
  rw [hlost] at hdestroyed
  simp at hdestroyed

end AsterDrive.Upload.Lifecycle
