import AsterDrive.Tunnel.RequestBody

/-!
# Tunnel/Turns — what each end of a lane can take next

The follower can take some frames and not others, and a frame that it cannot take closes the lane. `Turn` is what it
is ready for, `Turn.takeAll` reads the frames that are on their way: as long as it yields a turn the follower will not
object to any of them (`take_turn`). `Reply` is the same for the answer of one request on the way back.
-/

namespace AsterDrive.Tunnel

open Option Follower ServePhase

/-! ### The way to the follower -/

/-- What the follower is ready for; `gone`: it has left the lane, and takes nothing. -/
inductive Turn
  | idle
  | body (r : ℕ)
  | wait (r : ℕ)
  | drain (r : ℕ)
  | gone
  deriving DecidableEq

def ServePhase.turn : ServePhase → Turn
  | .idle => .idle
  | .reading r => .body r
  | .waiting r | .responding r => .wait r
  | .draining r => .drain r
  | .stopped _ => .gone

namespace Turn

section Take

variable (isAllowedTunnelTarget validMethod : String → Bool)

/-- `none`: the follower closes the lane over the frame. -/
def take : Turn → Frame → Option Turn
  | .idle, frame =>
    if frame.kind = .requestStart then
      match frame.method, frame.pathAndQuery with
      | some method, some pathAndQuery =>
        if !isAllowedTunnelTarget pathAndQuery then some (.drain frame.requestId)
        else if !validMethod method then some .gone
        else some (.body frame.requestId)
      | _, _ => some .gone
    else none
  | .body r, frame =>
    if frame.requestId = r then
      match frame.kind with
      | .requestBody => some (.body r)
      | .requestEnd => some (.wait r)
      | .error => some .idle
      | _ => none
    else none
  | .wait _, _ => none
  | .drain r, frame =>
    if frame.requestId = r then
      match frame.kind with
      | .requestBody => some (.drain r)
      | .requestEnd | .error => some .idle
      | _ => none
    else none
  | .gone, _ => some .gone

/-- The frames that are on their way, one after the other. -/
def takeAll (t : Turn) (frames : List Frame) : Option Turn := frames.foldlM (take isAllowedTunnelTarget validMethod) t

end Take

variable {isAllowedTunnelTarget validMethod : String → Bool} {t t' : Turn} {fs gs : List Frame} {frame : Frame} {r : ℕ}

@[simp] theorem takeAll_nil : t.takeAll isAllowedTunnelTarget validMethod [] = some t := rfl

@[simp] theorem takeAll_cons : t.takeAll isAllowedTunnelTarget validMethod (frame :: fs) =
    (t.take isAllowedTunnelTarget validMethod frame).bind fun t => t.takeAll isAllowedTunnelTarget validMethod fs := by
  rfl

theorem takeAll_append : t.takeAll isAllowedTunnelTarget validMethod (fs ++ gs) =
    (t.takeAll isAllowedTunnelTarget validMethod fs).bind fun t => t.takeAll isAllowedTunnelTarget validMethod gs := by
  simp only [takeAll, List.foldlM_append]
  rfl

theorem takeAll_snoc {t'' : Turn} (h : t.takeAll isAllowedTunnelTarget validMethod fs = some t')
    (hframe : t'.take isAllowedTunnelTarget validMethod frame = some t'') :
    t.takeAll isAllowedTunnelTarget validMethod (fs ++ [frame]) = some t'' := by
  rw [takeAll_append, h]
  simp [hframe]

theorem takeAll_left (h : t.takeAll isAllowedTunnelTarget validMethod (fs ++ gs) = some t') :
    ∃ t'', t.takeAll isAllowedTunnelTarget validMethod fs = some t'' := by
  rw [takeAll_append] at h
  obtain ⟨t'', hfs, -⟩ := bind_eq_some_iff.mp h
  exact ⟨t'', hfs⟩

@[simp] theorem takeAll_gone : Turn.gone.takeAll isAllowedTunnelTarget validMethod fs = some .gone := by
  induction fs with
  | nil => rfl
  | cons frame fs ih => simpa [take] using ih

theorem takeAll_wait (h : (Turn.wait r).takeAll isAllowedTunnelTarget validMethod fs = some t) : fs = [] ∧ t = .wait r := by
  cases fs with
  | nil => exact ⟨rfl, by simpa using h.symm⟩
  | cons frame fs => simp [take] at h

end Turn

section Take

variable {isAllowedTunnelTarget validMethod : String → Bool} {f f' : Follower} {frame : Frame} {t : Turn} {r : ℕ}

/-- A start that the follower refuses, since its target is forbidden. -/
def Frame.forbidden (isAllowedTunnelTarget : String → Bool) (frame : Frame) : Prop :=
  frame.kind = .requestStart ∧ ∃ pathAndQuery, frame.pathAndQuery = some pathAndQuery ∧
    isAllowedTunnelTarget pathAndQuery = false

instance (isAllowedTunnelTarget : String → Bool) (frame : Frame) : Decidable (frame.forbidden isAllowedTunnelTarget) :=
  match h : frame.pathAndQuery with
  | none => isFalse fun hf => by simp [Frame.forbidden, h] at hf
  | some pathAndQuery =>
    decidable_of_iff (frame.kind = .requestStart ∧ isAllowedTunnelTarget pathAndQuery = false) (by simp [Frame.forbidden, h])

/-- **A frame that the turn allows.** The follower takes it, goes on to the next turn, and writes an answer only to a start
that it refuses. -/
theorem take_turn (h : f.take isAllowedTunnelTarget validMethod frame = some f')
    (hlocal : ∀ r, f.phase = .reading r → f.locals r ≠ none)
    (ht : f.phase.turn.take isAllowedTunnelTarget validMethod frame = some t) :
    f'.phase.turn = t ∧ (∀ message, f'.phase ≠ .stopped (.violation message)) ∧ (f'.outbox = f.outbox ∨
        f.phase = .idle ∧ frame.forbidden isAllowedTunnelTarget ∧ f'.phase = .draining frame.requestId ∧
          f'.outbox = errorResponseFrames frame.requestId 403 forbiddenTunnelTargetBody) := by
  unfold take at h
  cases hphase : f.phase with simp only [hphase, turn, Turn.take] at h ht
  | idle =>
    obtain ⟨hkind, ht⟩ := ite_none_right_eq_some.mp ht
    rw [if_pos hkind] at h
    cases h
    unfold takeStart
    cases hmethod : frame.method with
    | none =>
      simp only [hmethod] at ht
      cases ht
      exact ⟨rfl, by simp [stop], .inl rfl⟩
    | some method =>
      cases hpath : frame.pathAndQuery with
      | none =>
        simp only [hmethod, hpath] at ht
        cases ht
        exact ⟨rfl, by simp [stop], .inl rfl⟩
      | some pathAndQuery =>
        simp only [hmethod, hpath] at ht ⊢
        split_ifs at ht ⊢ with hallowed hvalid
        · cases ht
          exact ⟨rfl, by simp, .inr ⟨trivial, ⟨hkind, pathAndQuery, hpath, by simpa using hallowed⟩, rfl, rfl⟩⟩
        · cases ht
          exact ⟨rfl, by simp [stop], .inl rfl⟩
        · cases ht
          exact ⟨rfl, by simp, .inl rfl⟩
  | reading r =>
    obtain ⟨hid, ht⟩ := ite_none_right_eq_some.mp ht
    obtain ⟨l, hl⟩ := ne_none_iff_exists'.mp (hlocal r hphase)
    rw [takeBody, if_neg (not_not.mpr hid)] at h
    cases hkind : frame.kind with simp only [hkind, hl] at h ht
    | requestBody =>
      cases ht
      split_ifs at h
      · cases h
        exact ⟨by simp [accept, setLocal, hphase, turn], by simp [accept, setLocal, hphase], .inl rfl⟩
      · cases h
        exact ⟨by simp [accept, setLocal, hphase, turn], by simp [accept, setLocal, hphase], .inl rfl⟩
      · cases h
        exact ⟨by simp [accept, hphase, turn], by simp [accept, hphase], .inl rfl⟩
    | requestEnd =>
      cases ht
      cases h
      exact ⟨rfl, by simp, .inl rfl⟩
    | error =>
      cases ht
      cases h
      exact ⟨rfl, by simp, .inl (by simp [abortLocal_outbox, accept])⟩
    | _ => simp [hkind] at ht
  | waiting r | responding r => simp [hphase, turn, Turn.take] at ht
  | draining r =>
    obtain ⟨hid, ht⟩ := ite_none_right_eq_some.mp ht
    cases h
    rw [takeDrained, if_neg (not_not.mpr hid)]
    cases hkind : frame.kind with
    | requestBody =>
      simp only [hkind] at ht
      cases ht
      exact ⟨by simp [accept, hphase, turn], by simp [accept, hphase], .inl rfl⟩
    | requestEnd | error =>
      simp only [hkind] at ht
      cases ht
      exact ⟨rfl, by simp, .inl rfl⟩
    | _ => simp [hkind] at ht
  | stopped exit => simp [hphase] at h

end Take

/-! ### The way back -/

/-- What the answer of one request has come to. -/
inductive Reply
  | unheard | started | ended | failed

namespace Reply

section Hear

variable (validHeader : String × String → Bool)

/-- `none`: no follower answers like this. -/
def hear : Reply → Frame → Option Reply
  | .unheard, frame =>
    match frame.kind with
    | .responseStart =>
      if (frame.status.any fun status => 100 ≤ status ∧ status < 1000) ∧ frame.headers.all validHeader then some .started
      else none
    | .error => some .failed
    | _ => none
  | .started, frame =>
    match frame.kind with
    | .responseBody => some .started
    | .responseEnd => some .ended
    | _ => none
  | _, _ => none

example (frame : Frame) : hear validHeader .ended frame = none := by simp only [hear]

def hearAll (a : Reply) (frames : List Frame) : Option Reply := frames.foldlM (hear validHeader) a

end Hear

variable {validHeader : String × String → Bool} {a a' b : Reply} {fs gs : List Frame} {frame : Frame} {r : ℕ}

@[simp] theorem hearAll_nil : a.hearAll validHeader [] = some a := rfl

@[simp] theorem hearAll_cons :
    a.hearAll validHeader (frame :: fs) = (a.hear validHeader frame).bind fun a => a.hearAll validHeader fs := by
  rfl

theorem hearAll_append (h : a.hearAll validHeader fs = some a') :
    a.hearAll validHeader (fs ++ gs) = a'.hearAll validHeader gs := by
  simp only [hearAll] at h
  simp [hearAll, List.foldlM_append, h]

theorem hearAll_over (h : a.hearAll validHeader fs = some b) (hover : a = .ended ∨ a = .failed) : fs = [] ∧ b = a := by
  cases fs with
  | nil => exact ⟨rfl, by simpa using h.symm⟩
  | cons frame fs => rcases hover with rfl | rfl <;> simp [hear] at h

theorem hear_unheard (h : Reply.unheard.hear validHeader frame = some b) :
    frame.kind = .responseStart ∧ validStart validHeader frame ∧ b = .started ∨ frame.kind = .error ∧ b = .failed := by
  cases hkind : frame.kind with
  | responseStart =>
    simp only [hear, hkind] at h
    obtain ⟨⟨hstatus, hheaders⟩, hb⟩ := ite_none_right_eq_some.mp h
    obtain ⟨status, hsome, hrange⟩ := (any_eq_true _ _).mp hstatus
    obtain ⟨hlow, hhigh⟩ : 100 ≤ status ∧ status < 1000 := by simpa using hrange
    exact .inl ⟨rfl, ⟨status, hsome, hlow, hhigh, hheaders⟩, (some.inj hb).symm⟩
  | error =>
    simp only [hear, hkind] at h
    exact .inr ⟨rfl, (some.inj h).symm⟩
  | _ => simp [hear, hkind] at h

theorem hear_started (h : Reply.started.hear validHeader frame = some b) :
    frame.kind = .responseBody ∧ b = .started ∨ frame.kind = .responseEnd ∧ b = .ended := by
  cases hkind : frame.kind with
  | responseBody =>
    simp only [hear, hkind] at h
    exact .inl ⟨rfl, (some.inj h).symm⟩
  | responseEnd =>
    simp only [hear, hkind] at h
    exact .inr ⟨rfl, (some.inj h).symm⟩
  | _ => simp [hear, hkind] at h

theorem hearAll_chunks (body : List UInt8) :
    Reply.started.hearAll validHeader (bodyChunkFrames r body) = some .started := by
  unfold bodyChunkFrames
  induction body.toChunks remoteTunnelStreamChunkSize with
  | nil => rfl
  | cons chunk rest ih => simpa [hear, Frame.responseBody] using ih

theorem hearAll_refused {status : ℕ} (hlow : 100 ≤ status) (hhigh : status < 1000) (body : List UInt8) :
    Reply.unheard.hearAll validHeader (errorResponseFrames r status body) = some .ended := by
  have hend : Reply.started.hearAll validHeader (bodyChunkFrames r body ++ [.responseEnd r]) = some .ended :=
    (hearAll_append (hearAll_chunks body)).trans rfl
  simp only [errorResponseFrames, hearAll_cons]
  simpa [hear, hlow, hhigh] using hend

end Reply

end AsterDrive.Tunnel
