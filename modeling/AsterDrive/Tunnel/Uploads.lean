import AsterDrive.Tunnel.Responses

/-!
# Tunnel/Uploads — the frames of a request that the primary queues

The body task reads the request body and queues it, chunk by chunk. `UploadStep` is everything that a step
can do to it. `Conveys` relates what was read so far to the body as it was given to the first node: the two
ends agree as long as the payload bridge does not meet an error, which it turns into an end
(`BridgeAct.fail`). `Uploaded` is the invariant of one request.
-/

namespace AsterDrive.Tunnel

open List Option Primary Response

/-- Everything that a step of the registry can do to the body of request `r`; `failing`: the payload bridge meets an
error. -/
inductive UploadStep (failing : Prop) (r : ℕ) (req req' : Request) : Prop
  | same (h : req'.upload = req.upload) (hphase : req'.response.phase = .starting → req.response.phase = .starting)
  | queued (hold : req.response.phase = .starting) (hphase : req'.response.phase ≠ .starting)
      (h : req'.upload = { req.upload with task := .sending, sent := req.upload.sent ++ [req.start] })
  | bridged (act : BridgeAct) (reader : BodyReader) (hact : act = .fail → failing)
      (hbridge : req.upload.reader.bridge act = some reader) (hphase : req'.response = req.response)
      (h : req'.upload = { req.upload with reader })
  | gaveUp (n : ℕ) (result : ReadResult) (reader : BodyReader) (message : String) (htask : req.upload.task = .sending)
      (hread : req.upload.reader.read n = some (result, reader)) (hphase : req'.response = req.response)
      (h : req'.upload = { req.upload with reader, task := .reporting message })
  | chunk (n : ℕ) (bytes : List UInt8) (reader : BodyReader) (htask : req.upload.task = .sending)
      (hread : req.upload.reader.read n = some (.bytes bytes, reader)) (hphase : req'.response = req.response)
      (h : req'.upload = { req.upload with reader, sent := req.upload.sent ++ [.requestBody r bytes] })
  | ended (n : ℕ) (reader : BodyReader) (htask : req.upload.task = .sending)
      (hread : req.upload.reader.read n = some (.eof, reader)) (hphase : req'.response = req.response)
      (h : req'.upload = { req.upload with reader, task := .finished, sent := req.upload.sent ++ [.requestEnd r] })
  | reported (message : String) (errors : List Frame) (htask : req.upload.task = .reporting message)
      (herrors : ∀ f ∈ errors, f.kind = .error ∧ f.requestId = r) (hphase : req'.response = req.response)
      (h : req'.upload = { req.upload with task := .finished, sent := req.upload.sent ++ errors })
  | aborted (message : String) (hphase : req'.response = req.response) (habort : req.response.phase ≠ .starting)
      (h : req'.upload = { req.upload with sent := req.upload.sent ++ [.ofError r message] })

/-- The tasks that are to send an error frame belong to requests that have started. -/
def AbortsStarted (s : Primary) : Prop :=
  ∀ abort ∈ s.aborts, abort.requestId < s.next ∧
    ∀ req, s.requests abort.requestId = some req → req.response.phase ≠ .starting

section Steps

variable {validHeader : String × String → Bool} {s s' : Primary} {r r1 : ℕ} {req req1 req1' : Request}
  {failing : Prop} {a : PrimaryAct}

/-- Where a request comes from: the same request before the step, or it has just begun. -/
def Began (s : Primary) (r : ℕ) (req : Request) : Prop :=
  req.response = {} ∧ req.start.kind = .requestStart ∧ req.start.requestId = r ∧ s.next = r ∧
    req.upload.task = .unstarted ∧ req.upload.sent = [] ∧ req.upload.reader.opens req.upload.original

def Uploads (failing : Prop) (s : Primary) (r : ℕ) (req' : Request) : Prop :=
  (∃ req, s.requests r = some req ∧ req'.start = req.start ∧ UploadStep failing r req req') ∨ Began s r req'

theorem uploads_of_set (hreq : s'.requests r = some req) (h1 : s.requests r1 = some req1)
    (hset : ∀ r', s'.requests r' = if r' = r1 then some req1' else s.requests r')
    (hstart : req1'.start = req1.start)
    (hstep : UploadStep failing r1 req1 req1') : Uploads failing s r req := by
  rw [hset] at hreq
  split_ifs at hreq with hid
  · subst hid
    cases hreq
    exact .inl ⟨req1, h1, hstart, hstep⟩
  · exact .inl ⟨req, hreq, rfl, .same rfl id⟩

theorem uploads_of_response {res : Response} (hreq : s'.requests r = some req) (h1 : s.requests r1 = some req1)
    (hset : ∀ r', s'.requests r' = if r' = r1 then some { req1 with response := res } else s.requests r')
    (hphase : res.phase = .starting → req1.response.phase = .starting) : Uploads failing s r req :=
  uploads_of_set hreq h1 hset rfl (.same rfl hphase)

theorem phase_of_read {res res' : Response} {senders : Bool} (h : res.read senders = some res') : res'.phase = res.phase := by
  obtain ⟨-, h⟩ := ite_none_right_eq_some.mp h
  split at h
  · cases h
    rfl
  · cases h
    rfl
  · cases h
    rfl
  · obtain ⟨-, h⟩ := ite_none_left_eq_some.mp h
    cases h
    rfl

theorem phase_failFor (res : Response) (message : String) : (res.failFor message).phase = res.phase := by
  unfold failFor
  split_ifs <;> rfl

theorem uploads_of_taken {frame : Frame} (h : Taken validHeader frame s s') (hreq : s'.requests r = some req) :
    Uploads failing s r req := by
  cases h with
  | unknown => exact .inl ⟨req, hreq, rfl, .same rfl id⟩
  | ignored req1 h1 | start req1 h1 | item req1 h1 =>
    exact uploads_of_response hreq h1 (fun _ => requests_setResponse) id

/-- **What a step can do to the body of a request.** -/
theorem upload_step (h : primaryStep validHeader s a = some s') (haborts : AbortsStarted s)
    (hreq : s'.requests r = some req) :
    Uploads (∃ r, a = .bridge r .fail) s r req := by
  cases effect h with
  | began hopens h =>
    simp only [beginSend, ite_none_left_eq_some, some.injEq] at h
    obtain ⟨-, rfl⟩ := h
    by_cases hid : r = s.next
    · subst hid
      obtain rfl : _ = req := by simpa using hreq
      exact .inr ⟨rfl, rfl, rfl, rfl, rfl, rfl, hopens⟩
    · exact .inl ⟨req, by simpa [hid] using hreq, rfl, .same rfl id⟩
  | queued h1 hphase => exact uploads_of_set hreq h1 (fun _ => requests_enqueue) rfl (.queued hphase (by simp) rfl)
  | upload h1 hu =>
    refine uploads_of_set hreq h1 (fun _ => requests_setRequest) rfl ?_
    cases hu with
    | bridged act reader hbridge => exact .bridged act reader (fun hact => ⟨_, by rw [hact]⟩) hbridge rfl rfl
    | gaveUp n result reader message htask hread => exact .gaveUp n result reader message htask hread rfl rfl
    | unreported message htask => exact .reported message [] htask (by simp) rfl (by simp)
  | @sent _ r1 _ _ _ h1 _ hu =>
    refine uploads_of_set hreq h1 (fun _ => requests_enqueue) rfl ?_
    cases hu with
    | chunk n bytes reader htask hread => exact .chunk n bytes reader htask hread rfl rfl
    | ended n reader htask hread => exact .ended n reader htask hread rfl rfl
    | reported message htask => exact .reported message [.ofError r1 message] htask (by simp [Frame.ofError]) rfl rfl
  | opened h1 => exact uploads_of_response hreq h1 (fun _ => requests_setResponse) (by simp)
  | dropped h1 =>
    exact uploads_of_response hreq h1 (fun _ => requests_dropPending) (by simp [removePending, finish])
  | finished h1 => exact uploads_of_response hreq h1 (fun _ => requests_setResponse) (by simp [finish])
  | read h1 hread =>
    exact uploads_of_response hreq h1 (fun _ => requests_setResponse) (by simp [phase_of_read hread])
  | abandoned h1 =>
    exact uploads_of_response hreq h1 (fun _ => requests_setResponse) (by simp [removePending, finish])
  | @abortSent i abort req1 habort hopen h1 =>
    exact uploads_of_set hreq h1 (fun _ => requests_enqueue) rfl
      (.aborted abort.message rfl ((haborts abort (mem_of_getElem? habort)).2 req1 h1) rfl)
  | received => exact uploads_of_taken (takeFrame_taken validHeader s _) hreq
  | delivered hhandling h1 => exact uploads_of_response hreq h1 (fun _ => requests_setResponse) id
  | unregistered =>
    obtain ⟨req1, h1, rfl⟩ := map_eq_some_iff.mp hreq
    exact .inl ⟨req1, h1, rfl, .same rfl (by simp [phase_failFor])⟩
  | abortLost | forwarded | undelivered | stopped | queueDropped => exact .inl ⟨req, hreq, rfl, .same rfl id⟩

theorem aborts_step (h : primaryStep validHeader s a = some s') :
    s.next ≤ s'.next ∧ ∀ abort ∈ s'.aborts, abort ∈ s.aborts ∨
      ∃ req, s.requests abort.requestId = some req ∧ req.response.phase ≠ .starting := by
  have hkeep : ∀ {t : Primary}, s.next = t.next → t.aborts = s.aborts → s.next ≤ t.next ∧
      ∀ abort ∈ t.aborts, abort ∈ s.aborts ∨
        ∃ req, s.requests abort.requestId = some req ∧ req.response.phase ≠ .starting := by
    intro t hnext haborts
    exact ⟨Nat.le_of_eq hnext, fun abort hmem => .inl (haborts ▸ hmem)⟩
  cases effect h with
  | began hopens h =>
    simp only [beginSend, ite_none_left_eq_some, some.injEq] at h
    obtain ⟨-, rfl⟩ := h
    exact ⟨Nat.le_succ _, fun _ => .inl⟩
  | queued | upload | sent | opened | dropped | finished | read | forwarded | delivered | stopped | unregistered
  | queueDropped => exact hkeep rfl rfl
  | @abandoned r req1 h1 hphase =>
    refine ⟨Nat.le_refl _, fun abort hmem => ?_⟩
    rcases mem_append.mp hmem with hold | hnew
    · exact .inl hold
    · obtain rfl := mem_singleton.mp hnew
      exact .inr ⟨req1, h1, by simp [hphase]⟩
  | abortLost | abortSent => exact ⟨Nat.le_refl _, fun abort hmem => .inl (mem_of_mem_eraseIdx hmem)⟩
  | @received frame =>
    have htaken := takeFrame_taken validHeader s frame
    generalize s.takeFrame validHeader frame = t at htaken
    cases htaken with
    | unknown | ignored | item => exact hkeep rfl rfl
    | start req1 h1 hpending htx start aborts hstart haborts =>
      refine ⟨Nat.le_refl _, fun abort hmem => ?_⟩
      by_cases hawaits : req1.response.awaitsStart = true
      · exact .inl ((hstart hawaits).2 ▸ hmem)
      · rcases haborts abort hmem with hold | hid
        · exact .inl hold
        · refine .inr ⟨req1, hid ▸ h1, fun hphase => hawaits ?_⟩
          simp [awaitsStart, hphase]
  | @undelivered hd req1 hhandling h1 hreceiving =>
    refine ⟨Nat.le_refl _, fun abort hmem => ?_⟩
    rcases mem_append.mp hmem with hold | hnew
    · exact .inl hold
    · obtain ⟨message, -, rfl⟩ := map_eq_some_iff.mp (mem_toList.mp hnew)
      refine .inr ⟨req1, h1, fun hphase => ?_⟩
      simp [receiving, hphase] at hreceiving

theorem UploadStep.not_starting (h : UploadStep failing r req req1) (hphase : req1.response.phase = .starting) :
    req.response.phase = .starting := by
  cases h with
  | same _ hback => exact hback hphase
  | queued hold => exact hold
  | bridged _ _ _ _ hsame | gaveUp _ _ _ _ _ _ hsame | chunk _ _ _ _ _ hsame | ended _ _ _ _ hsame
  | reported _ _ _ _ hsame | aborted _ hsame => exact hsame ▸ hphase

theorem AbortsStarted.step (hs : AbortsStarted s) (hknown : Known s) (h : primaryStep validHeader s a = some s') :
    AbortsStarted s' := by
  obtain ⟨hnext, hfrom⟩ := aborts_step h
  intro abort hmem
  -- before the step the request was there and had started
  have hold : abort.requestId < s.next ∧ ∀ req, s.requests abort.requestId = some req → req.response.phase ≠ .starting := by
    rcases hfrom abort hmem with hin | ⟨req1, h1, hphase⟩
    · exact hs abort hin
    · refine ⟨?_, fun req hreq => ?_⟩
      · by_contra hle
        simp [hknown.fresh _ (Nat.le_of_not_lt hle)] at h1
      · obtain rfl : req1 = req := some.inj (h1.symm.trans hreq)
        exact hphase
  refine ⟨Nat.lt_of_lt_of_le hold.1 hnext, fun req hreq hphase => ?_⟩
  rcases upload_step h hs hreq with ⟨req1, h1, -, hstep⟩ | ⟨-, -, -, hnew, -⟩
  · exact hold.2 req1 h1 (hstep.not_starting hphase)
  · exact absurd hold.1 (by omega)

end Steps

/-! ### What is read of a body -/

/-- What was read so far, and what is left, make up the original body. Once the writer of a bridge is gone nothing is
left; while it is there, either the payload goes on or its connection is lost. -/
def Conveys (original : Source) (out : List UInt8) : BodyReader → Prop
  | .direct source => out ++ source.rest = original.rest ∧ source.ending = original.ending
  | .bridged payload buffer true =>
    (out ++ buffer ++ payload.rest = original.rest ∧ payload.ending = original.ending) ∨ payload = ⟨[], .fails⟩
  | .bridged _ buffer false => out ++ buffer = original.rest ∧ original.ending = .clean

section Conveys

variable {original : Source} {out : List UInt8} {reader reader' : BodyReader} {result : ReadResult} {n : ℕ}

theorem conveys_of_opens (h : reader.opens original) : Conveys original [] reader := by
  rcases h with rfl | rfl
  · exact ⟨rfl, rfl⟩
  · exact .inl ⟨rfl, rfl⟩

theorem takeBytes_eq_some {available chunk rest : List UInt8} (h : takeBytes n available = some (chunk, rest)) :
    chunk ++ rest = available := by
  unfold takeBytes at h
  split_ifs at h
  cases h
  exact take_append_drop n available

/-- A read takes bytes from the front, and an end of the reader is the end of the original body. -/
theorem Conveys.read (hc : Conveys original out reader) (h : reader.read n = some (result, reader')) :
    (∃ chunk, result = .bytes chunk ∧ Conveys original (out ++ chunk) reader') ∨
    (result = .eof ∧ Conveys original out reader' ∧ out = original.rest ∧ original.ending = .clean) ∨
    (result = .error ∧ Conveys original out reader') := by
  unfold BodyReader.read at h
  split at h
  · cases h
    obtain ⟨hbytes, hending⟩ := hc
    exact .inr (.inl ⟨rfl, ⟨hbytes, hending⟩, by simpa using hbytes, hending.symm⟩)
  · cases h
    exact .inr (.inr ⟨rfl, hc⟩)
  · obtain ⟨⟨chunk, rest⟩, htake, heq⟩ := map_eq_some_iff.mp h
    cases heq
    obtain ⟨hbytes, hending⟩ := hc
    refine .inl ⟨chunk, rfl, ?_, hending⟩
    rw [← hbytes, append_assoc]
    exact congrArg (out ++ ·) (takeBytes_eq_some htake)
  · cases h
    exact .inr (.inl ⟨rfl, hc, by simpa using hc.1, hc.2⟩)
  · simp at h
  · rename_i payload buffer writer hne1 hne2
    obtain ⟨⟨chunk, rest⟩, htake, heq⟩ := map_eq_some_iff.mp h
    cases heq
    have hbuffer : out ++ chunk ++ rest = out ++ buffer := by
      rw [append_assoc, takeBytes_eq_some htake]
    refine .inl ⟨chunk, rfl, ?_⟩
    cases writer with
    | true =>
      rcases hc with ⟨hbytes, hending⟩ | hlost
      · exact .inl ⟨by rw [hbuffer, hbytes], hending⟩
      · exact .inr hlost
    | false => exact ⟨by rw [hbuffer, hc.1], hc.2⟩

theorem Conveys.bridge {act : BridgeAct} (hc : Conveys original out reader) (h : reader.bridge act = some reader')
    (hact : act ≠ .fail) : Conveys original out reader' := by
  unfold BodyReader.bridge at h
  split at h
  · rename_i n rest ending buffer
    split_ifs at h with hn
    cases h
    rcases hc with ⟨hbytes, hending⟩ | hlost
    · refine .inl ⟨?_, hending⟩
      rw [← hbytes]
      simp
    · cases hlost
      simp at hn
      omega
  · rename_i buffer
    cases h
    rcases hc with ⟨hbytes, hending⟩ | hlost
    · exact ⟨by simpa using hbytes, hending.symm⟩
    · simp at hlost
  · exact absurd rfl hact
  · cases h
    exact .inr rfl
  · simp at h

end Conveys

/-- The order of the frames of a request: one start, and nothing but error frames after the end. -/
def InOrder (frames : List Frame) : Prop :=
  frames.Pairwise fun a b => (a.kind = .requestStart → b.kind ≠ .requestStart) ∧ (a.kind = .requestEnd → b.kind = .error)

def hasKind (kind : FrameKind) (frames : List Frame) : Prop := ∃ f ∈ frames, f.kind = kind

theorem hasKind_append {kind : FrameKind} {fs gs : List Frame} :
    hasKind kind (fs ++ gs) ↔ hasKind kind fs ∨ hasKind kind gs := by
  simp only [hasKind, mem_append, or_and_right, exists_or]

/-- The frames of request `r` that were queued. -/
structure Uploaded (r : ℕ) (req : Request) : Prop where
  start : req.start.kind = .requestStart ∧ req.start.requestId = r
  ids : ∀ f ∈ req.upload.sent, f.requestId = r
  unstarted : req.response.phase = .starting → req.upload.task = .unstarted ∧ req.upload.sent = []
  idle : req.upload.task = .unstarted → ∀ f ∈ req.upload.sent, f.kind = .error
  unfinished : req.upload.task ≠ .finished → ¬ hasKind .requestEnd req.upload.sent
  inOrder : InOrder req.upload.sent

/-- What they carry of the body. -/
structure Conveyed (u : Upload) : Prop where
  conveys : u.task = .unstarted ∨ u.task = .sending → Conveys u.original (payload .requestBody u.sent) u.reader
  ended : hasKind .requestEnd u.sent → u.original.ending = .clean ∧ payload .requestBody u.sent = u.original.rest

theorem inOrder_append {fs : List Frame} {f : Frame} (h : InOrder fs)
    (hstart : f.kind = .requestStart → ¬ hasKind .requestStart fs)
    (hend : f.kind ≠ .error → ¬ hasKind .requestEnd fs) : InOrder (fs ++ [f]) := by
  refine pairwise_append.mpr ⟨h, pairwise_singleton _ _, ?_⟩
  intro a ha b hb
  obtain rfl := mem_singleton.mp hb
  refine ⟨fun hkind hb => hstart hb ⟨a, ha, hkind⟩, fun hkind => ?_⟩
  by_contra hb
  exact hend hb ⟨a, ha, hkind⟩

theorem payload_errors {errors : List Frame} (h : ∀ f ∈ errors, f.kind = .error) : payload .requestBody errors = [] := by
  refine flatMap_eq_nil_iff.mpr fun f hf => ?_
  simp [h f hf]

theorem hasKind_end_errors {fs errors : List Frame} (h : ∀ f ∈ errors, f.kind = .error) :
    hasKind .requestEnd (fs ++ errors) ↔ hasKind .requestEnd fs := by
  rw [hasKind_append, or_iff_left]
  rintro ⟨f, hf, hkind⟩
  simp [h f hf] at hkind

theorem hasKind_end_body {fs : List Frame} {r : ℕ} {bytes : List UInt8} :
    hasKind .requestEnd (fs ++ [.requestBody r bytes]) ↔ hasKind .requestEnd fs := by
  rw [hasKind_append, or_iff_left]
  rintro ⟨f, hf, hkind⟩
  simp [mem_singleton.mp hf, Frame.requestBody] at hkind

namespace Uploaded

variable {r : ℕ} {req req' : Request} {failing : Prop}

theorem not_starting (hu : Uploaded r req) (htask : req.upload.task ≠ .unstarted) : req.response.phase ≠ .starting :=
  fun h => htask (hu.unstarted h).1

theorem errors {errors : List Frame} {task : BodyTask} (hu : Uploaded r req) (hphase : req.response.phase ≠ .starting)
    (htask : task = req.upload.task ∨ task = .finished) (herrors : ∀ f ∈ errors, f.kind = .error ∧ f.requestId = r) :
    Uploaded r { req with upload := { req.upload with task, sent := req.upload.sent ++ errors } } := by
  refine
    { start := hu.start
      ids := fun f hf => ?_
      unstarted := fun h => absurd h hphase
      idle := fun htask' f hf => ?_
      unfinished := fun h hkind => ?_
      inOrder := ?_ }
  · rcases mem_append.mp hf with hf | hf
    · exact hu.ids f hf
    · exact (herrors f hf).2
  · rcases mem_append.mp hf with hold | hnew
    · rcases htask with rfl | rfl
      · exact hu.idle htask' f hold
      · simp at htask'
    · exact (herrors f hnew).1
  · rcases htask with rfl | rfl
    · exact hu.unfinished h ((hasKind_end_errors fun f hf => (herrors f hf).1).mp hkind)
    · exact h rfl
  · refine pairwise_append.mpr ⟨hu.inOrder, ?_, fun a ha b hb => ?_⟩
    · refine pairwise_of_forall_mem_list fun a ha b hb => ?_
      simp [(herrors a ha).1]
    · simp [(herrors b hb).1]

/-- **Step lemma.** -/
theorem step (hu : Uploaded r req) (hstart : req'.start = req.start) (h : UploadStep failing r req req') :
    Uploaded r req' := by
  obtain ⟨start', response', upload'⟩ := req'
  obtain rfl : start' = req.start := hstart
  cases h with
  | same hsame hphase =>
    obtain rfl : upload' = req.upload := hsame
    exact ⟨hu.start, hu.ids, fun h => hu.unstarted (hphase h), hu.idle, hu.unfinished, hu.inOrder⟩
  | queued hold hphase hset =>
    obtain rfl : upload' = _ := hset
    have hnil := (hu.unstarted hold).2
    have hkind : req.start.kind = .requestStart := hu.start.1
    exact
      { start := hu.start
        ids := by simpa [hnil] using hu.start.2
        unstarted := fun h => absurd h hphase
        idle := by simp
        unfinished := fun _ => by simp [hnil, hasKind, hkind]
        inOrder := by simp [hnil, InOrder] }
  | bridged act reader hact hbridge hphase hset =>
    obtain rfl : upload' = _ := hset
    obtain rfl : response' = req.response := hphase
    exact ⟨hu.start, hu.ids, hu.unstarted, hu.idle, hu.unfinished, hu.inOrder⟩
  | gaveUp n result reader message htask hread hphase hset =>
    obtain rfl : upload' = _ := hset
    obtain rfl : response' = req.response := hphase
    have hstarted := hu.not_starting (by simp [htask])
    exact ⟨hu.start, hu.ids, fun h => absurd h hstarted, by simp, fun _ => hu.unfinished (by simp [htask]), hu.inOrder⟩
  | chunk n bytes reader htask hread hphase hset =>
    obtain rfl : upload' = _ := hset
    obtain rfl : response' = req.response := hphase
    have hstarted := hu.not_starting (by simp [htask])
    have hnone := hu.unfinished (by simp [htask])
    refine
      { start := hu.start
        ids := fun f hf => ?_
        unstarted := fun h => absurd h hstarted
        idle := fun h => by simp [htask] at h
        unfinished := fun _ => (hasKind_end_body).not.mpr hnone
        inOrder := inOrder_append hu.inOrder (by simp [Frame.requestBody]) fun _ => hnone }
    rcases mem_append.mp hf with hf | hf
    · exact hu.ids f hf
    · simp [mem_singleton.mp hf, Frame.requestBody]
  | ended n reader htask hread hphase hset =>
    obtain rfl : upload' = _ := hset
    obtain rfl : response' = req.response := hphase
    have hstarted := hu.not_starting (by simp [htask])
    have hnone := hu.unfinished (by simp [htask])
    refine
      { start := hu.start
        ids := fun f hf => ?_
        unstarted := fun h => absurd h hstarted
        idle := by simp
        unfinished := by simp
        inOrder := inOrder_append hu.inOrder (by simp [Frame.requestEnd]) fun _ => hnone }
    rcases mem_append.mp hf with hf | hf
    · exact hu.ids f hf
    · simp [mem_singleton.mp hf, Frame.requestEnd]
  | reported message errors htask herrors hphase hset =>
    obtain rfl : upload' = _ := hset
    obtain rfl : response' = req.response := hphase
    exact hu.errors (hu.not_starting (by simp [htask])) (.inr rfl) herrors
  | aborted message hphase hstarted hset =>
    obtain rfl : upload' = _ := hset
    obtain rfl : response' = req.response := hphase
    exact hu.errors hstarted (.inl rfl) (by simp [Frame.ofError])

theorem began {s : Primary} (h : Began s r req) : Uploaded r req := by
  obtain ⟨hres, hkind, hid, -, htask, hsent, hopens⟩ := h
  exact
    { start := ⟨hkind, hid⟩
      ids := by simp [hsent]
      unstarted := fun _ => ⟨htask, hsent⟩
      idle := by simp [hsent]
      unfinished := by simp [hsent, hasKind]
      inOrder := by simp [hsent, InOrder] }

end Uploaded

namespace Conveyed

variable {r : ℕ} {req req' : Request} {failing : Prop}

theorem errors {u : Upload} {errors : List Frame} {task : BodyTask} (hc : Conveyed u)
    (htask : task = u.task ∨ task = .finished) (herrors : ∀ f ∈ errors, f.kind = .error) :
    Conveyed { u with task, sent := u.sent ++ errors } := by
  have hsame : payload .requestBody (u.sent ++ errors) = payload .requestBody u.sent := by
    rw [payload_append, payload_errors herrors, append_nil]
  refine ⟨fun h => ?_, fun h => ?_⟩
  · change Conveys _ (payload _ (u.sent ++ errors)) _
    rw [hsame]
    rcases htask with rfl | rfl
    · exact hc.conveys h
    · simp at h
  · change _ ∧ payload _ (u.sent ++ errors) = _
    rw [hsame]
    exact hc.ended ((hasKind_end_errors herrors).mp h)

/-- **Step lemma.** -/
theorem step (hc : Conveyed req.upload) (hu : Uploaded r req) (h : UploadStep failing r req req') (hok : ¬ failing) :
    Conveyed req'.upload := by
  cases h with
  | same hsame hphase =>
    rw [hsame]
    exact hc
  | queued hold hphase hset =>
    rw [hset]
    obtain ⟨htask, hnil⟩ := hu.unstarted hold
    have hkind : req.start.kind = .requestStart := hu.start.1
    refine ⟨fun _ => ?_, fun h => ?_⟩
    · have hconveys := hc.conveys (.inl htask)
      simpa [hnil, hkind] using hconveys
    · simp [hnil, hasKind, hkind] at h
  | bridged act reader hact hbridge hphase hset =>
    rw [hset]
    exact ⟨fun h => (hc.conveys h).bridge hbridge fun hfail => hok (hact hfail), hc.ended⟩
  | gaveUp n result reader message htask hread hphase hset =>
    rw [hset]
    exact ⟨by simp, fun h => absurd h (hu.unfinished (by simp [htask]))⟩
  | chunk n bytes reader htask hread hphase hset =>
    rw [hset]
    have hnone := hu.unfinished (by simp [htask])
    refine ⟨fun _ => ?_, fun h => absurd (hasKind_end_body.mp h) hnone⟩
    rcases (hc.conveys (.inr htask)).read hread with ⟨chunk, hresult, hconveys⟩ | ⟨hresult, -⟩ | ⟨hresult, -⟩
    · cases hresult
      simpa [Frame.requestBody] using hconveys
    · simp at hresult
    · simp at hresult
  | ended n reader htask hread hphase hset =>
    rw [hset]
    refine ⟨by simp, fun _ => ?_⟩
    rcases (hc.conveys (.inr htask)).read hread with ⟨chunk, hresult, -⟩ | ⟨-, -, hall, hclean⟩ | ⟨hresult, -⟩
    · simp at hresult
    · exact ⟨hclean, by simpa [Frame.requestEnd] using hall⟩
    · simp at hresult
  | reported message errors htask herrors hphase hset =>
    rw [hset]
    exact hc.errors (.inr rfl) fun f hf => (herrors f hf).1
  | aborted message hphase hstarted hset =>
    rw [hset]
    exact hc.errors (.inl rfl) (by simp [Frame.ofError])

theorem began {s : Primary} (h : Began s r req) : Conveyed req.upload := by
  obtain ⟨-, -, -, -, -, hsent, hopens⟩ := h
  exact ⟨fun _ => by simpa [hsent] using conveys_of_opens hopens, fun h => by simp [hsent, hasKind] at h⟩

end Conveyed

/-! ### The request channel -/

/-- The frames of request `r` that were queued. -/
def Primary.sentOf (s : Primary) (r : ℕ) : List Frame :=
  match s.requests r with
  | some req => req.upload.sent
  | none => []

theorem sentOf_of_requests {s : Primary} {r : ℕ} {req : Request} (h : s.requests r = some req) :
    s.sentOf r = req.upload.sent := by
  simp [sentOf, h]

section Queue

variable {validHeader : String × String → Bool} {s s' : Primary} {r r1 : ℕ} {req req1 req1' : Request} {a : PrimaryAct}

/-- The same frames are added to what was queued for a request and to the channel. -/
def Queued (s s' : Primary) : Prop :=
  (s'.status = .closed ↔ s.status = .closed) ∧ ∀ r, ∃ frames, s'.sentOf r = s.sentOf r ++ frames ∧
    framesOf r s'.requestQueue = framesOf r s.requestQueue ++ frames ∧ (s.status = .closed → frames = [])

theorem queued_of_same (hstatus : s'.status = .closed ↔ s.status = .closed) (hqueue : s'.requestQueue = s.requestQueue)
    (hsent : ∀ r, s'.sentOf r = s.sentOf r) : Queued s s' :=
  ⟨hstatus, fun r => ⟨[], by simp [hsent], by simp [hqueue], fun _ => rfl⟩⟩

theorem queued_of_set (h1 : s.requests r1 = some req1)
    (hset : ∀ r', s'.requests r' = if r' = r1 then some req1' else s.requests r')
    (hstatus : s'.status = s.status) (hqueue : s'.requestQueue = s.requestQueue)
    (hsent : req1'.upload.sent = req1.upload.sent) : Queued s s' := by
  refine queued_of_same (by rw [hstatus]) hqueue fun r => ?_
  by_cases hid : r = r1
  · subst hid
    simp [sentOf, hset, h1, hsent]
  · simp [sentOf, hset, hid]

theorem queued_of_enqueue {frame : Frame} (h1 : s.requests r1 = some req1)
    (hset : ∀ r', s'.requests r' = if r' = r1 then some req1' else s.requests r')
    (hstatus : s'.status = s.status) (hopen : s.status ≠ .closed) (hqueue : s'.requestQueue = s.requestQueue ++ [frame])
    (hsent : req1'.upload.sent = req1.upload.sent ++ [frame]) (hframe : frame.requestId = r1) : Queued s s' := by
  refine ⟨by rw [hstatus], fun r => ?_⟩
  by_cases hid : r = r1
  · subst hid
    refine ⟨[frame], by simp [sentOf, hset, h1, hsent], ?_, fun h => absurd h hopen⟩
    simp [hqueue, framesOf_cons, hframe]
  · refine ⟨[], by simp [sentOf, hset, hid], ?_, fun _ => rfl⟩
    have hne : frame.requestId ≠ r := fun h => hid (h.symm.trans hframe)
    simp [hqueue, framesOf_cons, hne]

theorem queued_of_taken {frame : Frame} (h : Taken validHeader frame s s') : Queued s s' := by
  cases h with
  | unknown => exact queued_of_same Iff.rfl rfl fun _ => rfl
  | ignored req1 h1 | start req1 h1 | item req1 h1 =>
    exact queued_of_set h1 (fun _ => requests_setResponse) rfl rfl rfl

/-- Every step but two: the one that takes a frame from the channel and the one that drops it. -/
theorem queue_step (h : primaryStep validHeader s a = some s')
    (huploaded : ∀ r req, s.requests r = some req → req.start.requestId = r) (hfresh : s.requests s.next = none)
    (hforward : a ≠ .forward) (hdrop : a ≠ .dropQueue) : Queued s s' := by
  cases effect h with
  | began hopens h =>
    simp only [beginSend, ite_none_left_eq_some, some.injEq] at h
    obtain ⟨-, rfl⟩ := h
    refine queued_of_same Iff.rfl rfl fun r => ?_
    by_cases hid : r = s.next
    · subst hid
      simp [sentOf, hfresh]
    · simp [sentOf, hid]
  | queued h1 hphase hopen =>
    exact queued_of_enqueue h1 (fun _ => requests_enqueue) rfl hopen rfl rfl (huploaded _ _ h1)
  | upload h1 hu =>
    refine queued_of_set h1 (fun _ => requests_setRequest) rfl rfl ?_
    cases hu with
    | bridged | gaveUp | unreported => rfl
  | sent h1 hopen hu =>
    refine queued_of_enqueue h1 (fun _ => requests_enqueue) rfl hopen rfl ?_ hu.requestId
    cases hu with
    | chunk | ended | reported => rfl
  | dropped h1 => exact queued_of_set h1 (fun _ => requests_dropPending) rfl rfl rfl
  | opened h1 | finished h1 | read h1 | abandoned h1 | delivered _ h1 =>
    exact queued_of_set h1 (fun _ => requests_setResponse) rfl rfl rfl
  | abortLost | undelivered => exact queued_of_same Iff.rfl rfl fun _ => rfl
  | abortSent habort hopen h1 => exact queued_of_enqueue h1 (fun _ => requests_enqueue) rfl hopen rfl rfl rfl
  | forwarded => exact absurd rfl hforward
  | received => exact queued_of_taken (takeFrame_taken validHeader s _)
  | stopped hrun => exact queued_of_same (by simp [hrun]) rfl fun _ => rfl
  | unregistered hclosing =>
    refine queued_of_same (by simp [hclosing]) rfl fun r => ?_
    cases hreq : s.requests r <;> simp [sentOf, failStreamRequestsForLane, hreq]
  | queueDropped => exact absurd rfl hdrop

end Queue

end AsterDrive.Tunnel
