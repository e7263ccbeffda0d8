import Mathlib.Data.List.Infix
import Mathlib.Data.Int.Notation
import Mathlib.Tactic.Common
import Mathlib.Algebra.Group.Nat.Defs
import Mathlib.Algebra.Group.Int.Defs

/-!
# Archive/RangeReader — a stored object as a file that can be read and sought

`StorageRangeReader` reads blocks of an object through `get_range` and keeps the last one. A call gives what the same call
gives on a `Cursor` over the content (`range_reader_cursor`), as long as the statistics of the reader hold: they count the
bytes that were fetched in a `u64`, and a call that would overflow it fails. Numbers are `u64` where they do not say `i64`,
and `usize` has 64 bits.
-/

namespace AsterDrive.Archive

open List

inductive IoErrorKind
  | invalidInput | invalidData | unexpectedEof | other
  deriving DecidableEq

structure IoError where
  kind : IoErrorKind
  message : String

inductive SeekFrom
  | start (offset : ℕ)
  | fromEnd (offset : ℤ)
  | current (offset : ℤ)

/-- A call of `Read::read` with a buffer of `length` bytes, or of `Seek::seek`. -/
inductive Call
  | read (length : ℕ)
  | seek (pos : SeekFrom)

inductive Reply
  | gave (bytes : List UInt8)
  | moved (position : ℕ)
  | failed (kind : IoErrorKind)
  deriving DecidableEq

def Reply.ofRead : Except IoError (List UInt8) → Reply
  | .ok bytes => gave bytes
  | .error e => failed e.kind

def Reply.ofSeek : Except IoError ℕ → Reply
  | .ok position => moved position
  | .error e => failed e.kind

/-- `StorageRangeReader` with its `RangeReaderStats`. -/
structure RangeReader where
  size : ℕ
  blockSize : ℕ
  position : ℕ := 0
  bufferStart : ℕ := 0
  buffer : List UInt8 := []
  rangeRequestCount : ℕ := 0
  rangeBytesRead : ℕ := 0
  deriving DecidableEq

open RangeReader

namespace RangeReader

/-- `with_block_size`. -/
def withBlockSize (size blockSize : ℕ) : RangeReader where
  size := size
  blockSize := max blockSize 1

-- `get_range` and `read_to_end` of what it gives
variable (getRange : ℕ → ℕ → Except IoError (List UInt8))

def refill (r : RangeReader) : RangeReader × Except IoError Unit :=
  if r.size ≤ r.position then ({ r with bufferStart := r.size, buffer := [] }, .ok ())
  else
    let blockStart := r.position / r.blockSize * r.blockSize
    let length := min (r.size - blockStart) r.blockSize
    match getRange blockStart length with
    | .error e => (r, .error e)
    | .ok bytes =>
      let message := "archive range read returned " ++ toString bytes.length ++ " bytes for requested length " ++ toString length
      if length < bytes.length then (r, .error ⟨.invalidData, message⟩)
      else if bytes.length < length then (r, .error ⟨.unexpectedEof, message⟩)
      else if 2 ^ 64 ≤ r.rangeRequestCount + 1 then (r, .error ⟨.other, "archive range request counter overflow"⟩)
      else if 2 ^ 64 ≤ r.rangeBytesRead + bytes.length then
        ({ r with rangeRequestCount := r.rangeRequestCount + 1 }, .error ⟨.other, "archive range byte counter overflow"⟩)
      else
        ({ r with
            rangeRequestCount := r.rangeRequestCount + 1
            rangeBytesRead := r.rangeBytesRead + bytes.length
            bufferStart := blockStart
            buffer := bytes }, .ok ())

def positionInBuffer (r : RangeReader) : Option ℕ :=
  if r.position < r.bufferStart then none
  else if r.position - r.bufferStart < r.buffer.length then some (r.position - r.bufferStart) else none

/-- The loop of `read`. A round gives at least one byte, so that `length` rounds fill the buffer of the caller. -/
def readLoop : ℕ → RangeReader → ℕ → RangeReader × Except IoError (List UInt8)
  | 0, r, _ => (r, .ok [])
  | rounds + 1, r, length =>
    if length = 0 ∨ r.size ≤ r.position then (r, .ok [])
    else
      match if r.positionInBuffer = none then r.refill getRange else (r, .ok ()) with
      | (r, .error e) => (r, .error e)
      | (r, .ok ()) =>
        match r.positionInBuffer with
        | none => (r, .ok [])
        | some offset =>
          let copied := (r.buffer.drop offset).take length
          if 2 ^ 64 ≤ r.position + copied.length then (r, .error ⟨.other, "archive range reader position overflow"⟩)
          else
            let rest := readLoop rounds { r with position := r.position + copied.length } (length - copied.length)
            (rest.1, rest.2.map (copied ++ ·))

def read (r : RangeReader) (length : ℕ) : RangeReader × Except IoError (List UInt8) := readLoop getRange length r length

def seekFromBase (base : ℕ) (offset : ℤ) : Except IoError ℕ :=
  if 0 ≤ offset then
    if base + offset.toNat < 2 ^ 64 then .ok (base + offset.toNat) else .error ⟨.invalidInput, "seek target overflow"⟩
  else if offset.natAbs ≤ base then .ok (base - offset.natAbs)
  else .error ⟨.invalidInput, "seek before start of archive"⟩

def seek (r : RangeReader) (pos : SeekFrom) : RangeReader × Except IoError ℕ :=
  let next : Except IoError ℕ :=
    match pos with
    | .start offset => .ok offset
    | .fromEnd offset => seekFromBase r.size offset
    | .current offset => seekFromBase r.position offset
  match next with
  | .ok next => ({ r with position := next }, .ok next)
  | .error e => (r, .error e)

/-- A call, with the position after it. -/
def call (r : RangeReader) : Call → RangeReader × Reply × ℕ
  | .read length => ((r.read getRange length).1, .ofRead (r.read getRange length).2, (r.read getRange length).1.position)
  | .seek pos => ((r.seek pos).1, .ofSeek (r.seek pos).2, (r.seek pos).1.position)

/-- A run of calls: the reader after it, and what the calls gave. -/
def run (r : RangeReader) : List Call → RangeReader × List (Reply × ℕ)
  | [] => (r, [])
  | c :: calls =>
    let next := r.call getRange c
    let rest := run next.1 calls
    (rest.1, next.2 :: rest.2)

end RangeReader

/-- `std::io::Cursor` over the content. -/
structure Cursor where
  content : List UInt8
  position : ℕ := 0

namespace Cursor

/-- `checked_add_signed`. -/
def seekFromBase (base : ℕ) (offset : ℤ) : Except IoError ℕ :=
  if 0 ≤ base + offset ∧ base + offset < 2 ^ 64 then .ok (base + offset).toNat
  else .error ⟨.invalidInput, "invalid seek to a negative or overflowing position"⟩

def seek (c : Cursor) (pos : SeekFrom) : Cursor × Except IoError ℕ :=
  let next : Except IoError ℕ :=
    match pos with
    | .start offset => .ok offset
    | .fromEnd offset => seekFromBase c.content.length offset
    | .current offset => seekFromBase c.position offset
  match next with
  | .ok next => ({ c with position := next }, .ok next)
  | .error e => (c, .error e)

def read (c : Cursor) (length : ℕ) : Cursor × List UInt8 :=
  let bytes := (c.content.drop c.position).take length
  ({ c with position := c.position + bytes.length }, bytes)

def call (c : Cursor) : Call → Cursor × Reply × ℕ
  | .read length => ((c.read length).1, .gave (c.read length).2, (c.read length).1.position)
  | .seek pos => ((c.seek pos).1, .ofSeek (c.seek pos).2, (c.seek pos).1.position)

def run (c : Cursor) : List Call → Cursor × List (Reply × ℕ)
  | [] => (c, [])
  | x :: calls =>
    let next := c.call x
    let rest := run next.1 calls
    (rest.1, next.2 :: rest.2)

end Cursor

/-! ### The same calls -/

/-- A `seek` is given numbers of its type. -/
def Call.InRange : Call → Prop
  | .seek (.start offset) => offset < 2 ^ 64
  | _ => True

instance : DecidablePred Call.InRange
  | .seek (.start offset) => inferInstanceAs (Decidable (offset < 2 ^ 64))
  | .seek (.fromEnd _) | .seek (.current _) | .read _ => .isTrue trivial

section

variable {getRange : ℕ → ℕ → Except IoError (List UInt8)} {content : List UInt8} {r r' : RangeReader} {c : Cursor}
variable {length rounds : ℕ} {x : Call}

/-- The driver gives exactly the bytes that are asked for. -/
def Exact (getRange : ℕ → ℕ → Except IoError (List UInt8)) (content : List UInt8) : Prop :=
  ∀ first length, first + length ≤ content.length → getRange first length = .ok ((content.drop first).take length)

/-- The reader is one over the content, and its buffer a piece of it. -/
structure Reads (content : List UInt8) (r : RangeReader) : Prop where
  size : r.size = content.length
  small : content.length < 2 ^ 64
  block : 0 < r.blockSize
  position : r.position < 2 ^ 64
  buffer : r.buffer <+: content.drop r.bufferStart
  counted : r.rangeRequestCount ≤ r.rangeBytesRead

/-- The counter of the bytes is at its end. -/
def Exhausted (r : RangeReader) : Prop := 2 ^ 64 ≤ r.rangeBytesRead + r.blockSize

theorem refill_spec (hx : Exact getRange content) (hr : Reads content r) (hpos : r.position < r.size) :
    (∃ r', r.refill getRange = (r', .ok ()) ∧ Reads content r' ∧ r'.position = r.position ∧ r'.bufferStart ≤ r.position ∧
      r.position < r'.bufferStart + r'.buffer.length) ∨
    ∃ r' e, r.refill getRange = (r', .error e) ∧ e.kind = .other ∧ Exhausted r' := by
  have hstart : r.position / r.blockSize * r.blockSize ≤ r.position := Nat.div_mul_le_self _ _
  have hnext : r.position < r.position / r.blockSize * r.blockSize + r.blockSize := by
    have hlt := Nat.lt_div_mul_add hr.block (a := r.position)
    omega
  have hsize := hr.size
  have hbytes := hx (r.position / r.blockSize * r.blockSize)
    (min (r.size - r.position / r.blockSize * r.blockSize) r.blockSize) (by omega)
  have hlength : ((content.drop (r.position / r.blockSize * r.blockSize)).take
      (min (r.size - r.position / r.blockSize * r.blockSize) r.blockSize)).length =
      min (r.size - r.position / r.blockSize * r.blockSize) r.blockSize := by
    rw [length_take, length_drop, ← hsize]
    omega
  rw [refill, if_neg (by omega)]
  dsimp only
  rw [hbytes]
  dsimp only
  rw [hlength, if_neg (by omega), if_neg (by omega)]
  have hcounted := hr.counted
  have hblock := hr.block
  split_ifs with hcount hread
  · refine .inr ⟨_, _, rfl, rfl, ?_⟩
    unfold Exhausted
    omega
  · refine .inr ⟨_, _, rfl, rfl, ?_⟩
    unfold Exhausted
    dsimp only
    omega
  · refine .inl ⟨_, rfl, ⟨hsize, hr.small, hblock, hr.position, take_prefix _ _, ?_⟩, rfl, hstart, ?_⟩
    · dsimp only
      omega
    · dsimp only
      omega

theorem fill_spec (hx : Exact getRange content) (hr : Reads content r) (hpos : r.position < r.size) :
    (∃ r', (if r.positionInBuffer = none then r.refill getRange else (r, .ok ())) = (r', .ok ()) ∧ Reads content r' ∧
      r'.position = r.position ∧ r'.positionInBuffer = some (r.position - r'.bufferStart) ∧ r'.bufferStart ≤ r.position ∧
      r.position < r'.bufferStart + r'.buffer.length) ∨
    ∃ r' e, (if r.positionInBuffer = none then r.refill getRange else (r, .ok ())) = (r', .error e) ∧ e.kind = .other ∧ Exhausted r' := by
  have hfound : ∀ {s : RangeReader}, s.bufferStart ≤ s.position → s.position < s.bufferStart + s.buffer.length →
      s.positionInBuffer = some (s.position - s.bufferStart) := by
    intro s hle hlt
    rw [positionInBuffer, if_neg (by omega), if_pos (by omega)]
  by_cases hin : r.bufferStart ≤ r.position ∧ r.position < r.bufferStart + r.buffer.length
  · have hsome := hfound hin.1 hin.2
    exact .inl ⟨r, by rw [if_neg (by simp [hsome])], hr, rfl, hsome, hin⟩
  · have hnone : r.positionInBuffer = none := by
      unfold positionInBuffer
      split_ifs
      · rfl
      · omega
      · rfl
    rw [if_pos hnone]
    rcases refill_spec hx hr hpos with ⟨r', heq, hr', hsame, hle, hlt⟩ | hfailed
    · exact .inl ⟨r', heq, hr', hsame, hsame ▸ hfound (hsame ▸ hle) (hsame ▸ hlt), hle, hlt⟩
    · exact .inr hfailed

theorem readLoop_spec (hx : Exact getRange content) (hr : Reads content r) (hrounds : length ≤ rounds) :
    (∃ r', r.readLoop getRange rounds length = (r', .ok ((content.drop r.position).take length)) ∧ Reads content r' ∧
      r'.position = r.position + ((content.drop r.position).take length).length) ∨
    ∃ r' e, r.readLoop getRange rounds length = (r', .error e) ∧ e.kind = .other ∧ Exhausted r' := by
  induction rounds generalizing r length with
  | zero =>
    obtain rfl := Nat.le_zero.mp hrounds
    exact .inl ⟨r, rfl, hr, rfl⟩
  | succ rounds ih =>
    have hsize := hr.size
    by_cases hdone : length = 0 ∨ r.size ≤ r.position
    · have hnothing : (content.drop r.position).take length = [] := by
        rcases hdone with rfl | hend
        · rfl
        · rw [drop_of_length_le (by omega), take_nil]
      exact .inl ⟨r, by rw [readLoop, if_pos hdone, hnothing], hr, by rw [hnothing]; rfl⟩
    · simp only [readLoop]
      rw [if_neg hdone]
      rcases fill_spec hx hr (by omega) with ⟨r1, heq, hr1, hsame, hin, hle, hlt⟩ | ⟨r', e, heq, hkind, hfull⟩
      · -- what is copied is the beginning of what is to be read
        have hprefix : (r1.buffer.drop (r.position - r1.bufferStart)).take length <+: content.drop r.position := by
          have hdrop := hr1.buffer.drop (r.position - r1.bufferStart)
          rw [drop_drop, Nat.add_sub_cancel' hle] at hdrop
          exact ( take_prefix _ _).trans hdrop
        have hlength : ((r1.buffer.drop (r.position - r1.bufferStart)).take length).length =
            min length (r1.buffer.length - (r.position - r1.bufferStart)) := by
          rw [length_take, length_drop]
        have hcopied := prefix_iff_eq_take.mp hprefix
        have hfits := hprefix.length_le
        rw [length_drop] at hfits
        have hsmall := hr.small
        rw [heq]
        dsimp only
        rw [hin]
        dsimp only
        rw [hsame]
        generalize (r1.buffer.drop (r.position - r1.bufferStart)).take length = copied at hlength hcopied hfits ⊢
        rw [if_neg (by omega)]
        have hmoved : Reads content { r1 with position := r.position + copied.length } :=
          ⟨hr1.size, hr1.small, hr1.block, by dsimp only; omega, hr1.buffer, hr1.counted⟩
        have hsplit : (content.drop r.position).take length =
            copied ++ (content.drop (r.position + copied.length)).take (length - copied.length) := by
          rw [← drop_drop, ← Nat.add_sub_cancel' (show copied.length ≤ length by omega), take_add, ← hcopied,
            Nat.add_sub_cancel_left]
        rcases ih hmoved (show length - copied.length ≤ rounds by omega) with ⟨r', hrest, hr', hposition⟩ | ⟨r', e, hrest, hkind, hfull⟩
        · refine .inl ⟨r', by rw [hrest, hsplit]; rfl, hr', ?_⟩
          rw [hposition, hsplit, length_append]
          dsimp only
          omega
        · exact .inr ⟨r', e, by rw [hrest]; rfl, hkind, hfull⟩
      · exact .inr ⟨r', e, by rw [heq], hkind, hfull⟩

/-! ### Runs -/

/-- The reader and the cursor are at the same place. -/
structure Synced (r : RangeReader) (c : Cursor) : Prop where
  reads : Reads c.content r
  position : r.position = c.position

theorem seekFromBase_eq {base : ℕ} {offset : ℤ} (hbase : base < 2 ^ 64) :
    (∃ n < 2 ^ 64, seekFromBase base offset = .ok n ∧ Cursor.seekFromBase base offset = .ok n) ∨
    ∃ e e', seekFromBase base offset = .error e ∧ Cursor.seekFromBase base offset = .error e' ∧ e.kind = e'.kind := by
  unfold seekFromBase Cursor.seekFromBase
  by_cases hrange : 0 ≤ base + offset ∧ base + offset < 2 ^ 64
  · rw [if_pos hrange]
    by_cases hoffset : 0 ≤ offset
    · rw [if_pos hoffset, if_pos (by omega)]
      exact .inl ⟨_, by omega, rfl, congrArg _ (by omega)⟩
    · rw [if_neg hoffset, if_pos (by omega)]
      exact .inl ⟨_, by omega, rfl, congrArg _ (by omega)⟩
  · rw [if_neg hrange]
    by_cases hoffset : 0 ≤ offset
    · rw [if_pos hoffset, if_neg (by omega)]
      exact .inr ⟨_, _, rfl, rfl, rfl⟩
    · rw [if_neg hoffset, if_neg (by omega)]
      exact .inr ⟨_, _, rfl, rfl, rfl⟩

theorem Synced.moved (h : Synced r c) {n : ℕ} (hn : n < 2 ^ 64) : Synced { r with position := n } { c with position := n } :=
  ⟨⟨h.reads.size, h.reads.small, h.reads.block, hn, h.reads.buffer, h.reads.counted⟩, rfl⟩

theorem Synced.seek (h : Synced r c) {pos : SeekFrom} (hrange : (Call.seek pos).InRange) :
    (r.call getRange (.seek pos)).2 = (c.call (.seek pos)).2 ∧ Synced (r.call getRange (.seek pos)).1 (c.call (.seek pos)).1 := by
  have hboth : ∀ {base : ℕ} {offset : ℤ}, base < 2 ^ 64 → (∃ n < 2 ^ 64, seekFromBase base offset = .ok n ∧
      Cursor.seekFromBase base offset = .ok n) ∨ ∃ e e', seekFromBase base offset = .error e ∧
      Cursor.seekFromBase base offset = .error e' ∧ e.kind = e'.kind := seekFromBase_eq
  cases pos with
  | start offset => exact ⟨rfl, h.moved hrange⟩
  | fromEnd offset =>
    have hsize := @hboth _ offset h.reads.small
    rw [← h.reads.size] at hsize
    simp only [RangeReader.call, Cursor.call, RangeReader.seek, Cursor.seek, ← h.reads.size]
    rcases hsize with ⟨n, hn, hr, hc⟩ | ⟨e, e', hr, hc, hkind⟩
    · rw [hr, hc]
      exact ⟨rfl, h.moved hn⟩
    · rw [hr, hc]
      exact ⟨by rw [Reply.ofSeek, Reply.ofSeek, hkind, h.position], h⟩
  | current offset =>
    simp only [RangeReader.call, Cursor.call, RangeReader.seek, Cursor.seek, ← h.position]
    rcases @hboth _ offset h.reads.position with ⟨n, hn, hr, hc⟩ | ⟨e, e', hr, hc, hkind⟩
    · rw [hr, hc]
      exact ⟨rfl, h.moved hn⟩
    · rw [hr, hc]
      exact ⟨by rw [Reply.ofSeek, Reply.ofSeek, hkind]; exact congrArg _ h.position, h⟩

/-- **A call** gives the same on both, or the counter of the reader is at its end. -/
theorem Synced.call (hx : Exact getRange c.content) (h : Synced r c) (hrange : x.InRange) :
    ((r.call getRange x).2 = (c.call x).2 ∧ Synced (r.call getRange x).1 (c.call x).1) ∨
      (r.call getRange x).2.1 = .failed .other ∧ Exhausted (r.call getRange x).1 := by
  cases x with
  | seek pos => exact .inl (h.seek hrange)
  | read length =>
    simp only [RangeReader.call, RangeReader.read, Cursor.call, Cursor.read]
    rcases readLoop_spec hx h.reads (Nat.le_refl length) with ⟨r', heq, hr', hposition⟩ | ⟨r', e, heq, hkind, hfull⟩
    · rw [heq, ← h.position]
      exact .inl ⟨by rw [hposition]; rfl, hr', hposition⟩
    · rw [heq]
      exact .inr ⟨congrArg _ hkind, hfull⟩

theorem Cursor.content_call (c : Cursor) (x : Call) : (c.call x).1.content = c.content := by
  cases x with
  | read length => rfl
  | seek pos =>
    simp only [Cursor.call, Cursor.seek]
    split
    · rfl
    · rfl

end

/-- **The reader behaves like a cursor over the content** in every run, up to the call where the counter of the bytes that
were fetched is at its end. -/
theorem range_reader_cursor (getRange : ℕ → ℕ → Except IoError (List UInt8)) (content : List UInt8) (blockSize : ℕ)
    (hsmall : content.length < 2 ^ 64) (hx : Exact getRange content) (calls : List Call) (hcalls : ∀ x ∈ calls, x.InRange) :
    ((withBlockSize content.length blockSize).run getRange calls).2 = (Cursor.run ⟨content, 0⟩ calls).2 ∨
      ∃ before x after, calls = before ++ x :: after ∧
        ((withBlockSize content.length blockSize).run getRange before).2 = (Cursor.run ⟨content, 0⟩ before).2 ∧
        (((withBlockSize content.length blockSize).run getRange before).1.call getRange x).2.1 = .failed .other ∧
        Exhausted (((withBlockSize content.length blockSize).run getRange before).1.call getRange x).1 := by
  have hstart : Synced (withBlockSize content.length blockSize) ⟨content, 0⟩ :=
    ⟨⟨rfl, hsmall, Nat.lt_of_lt_of_le Nat.one_pos (Nat.le_max_right _ _), (show 0 < 2 ^ 64 by decide), nil_prefix, Nat.le_refl _⟩, rfl⟩
  generalize withBlockSize content.length blockSize = r at hstart ⊢
  have hcontent : Exact getRange (Cursor.mk content 0).content := hx
  generalize (⟨content, 0⟩ : Cursor) = c at hstart hcontent ⊢
  induction calls generalizing r c with
  | nil => exact .inl rfl
  | cons x calls ih =>
    rcases hstart.call hcontent (hcalls x mem_cons_self) with ⟨hreply, hsynced⟩ | hfailed
    · rcases ih (fun y hy => hcalls y (mem_cons_of_mem _ hy)) _ _ hsynced (by rwa [Cursor.content_call]) with
        hall | ⟨before, y, after, rfl, hbefore, hfailed, hfull⟩
      · exact .inl (congrArg₂ _ hreply hall)
      · exact .inr ⟨x :: before, y, after, rfl, congrArg₂ _ hreply hbefore, hfailed, hfull⟩
    · exact .inr ⟨[], x, calls, rfl, rfl, hfailed⟩

/-! ### The end of the counter -/

section

/-- Two bytes that are read in blocks of one, over and over: a round fetches both. -/
def twoBytes (first length : ℕ) : Except IoError (List UInt8) := .ok (([0, 0] : List UInt8).drop first |>.take length)

def again : List Call := [.read 2, .seek (.start 0)]

/-- The reader after `fetched` bytes. -/
def counting (fetched : ℕ) : RangeReader := ⟨2, 1, 0, 1, [0], fetched, fetched⟩

theorem counting_again {fetched : ℕ} (h : fetched + 2 < 2 ^ 64) :
    ((counting fetched).run twoBytes again).1 = counting (fetched + 2) := by
  have hfirst : ¬2 ^ 64 ≤ fetched + 1 := by omega
  have hsecond : ¬2 ^ 64 ≤ fetched + 1 + 1 := by omega
  have hfirst' : ¬18446744073709551615 ≤ fetched := by omega
  have hsecond' : ¬18446744073709551614 ≤ fetched := by omega
  simp [counting, again, RangeReader.run, RangeReader.call, RangeReader.read, RangeReader.seek, RangeReader.readLoop,
    RangeReader.refill, RangeReader.positionInBuffer, twoBytes, hfirst, hsecond, hfirst', hsecond']

theorem counting_last : ((counting (2 ^ 64 - 2)).call twoBytes (.read 2)).2.1 = .failed .other := by decide

variable {getRange : ℕ → ℕ → Except IoError (List UInt8)}

theorem RangeReader.run_append (r : RangeReader) (before after : List Call) :
    r.run getRange (before ++ after) = (((r.run getRange before).1.run getRange after).1,
      (r.run getRange before).2 ++ ((r.run getRange before).1.run getRange after).2) := by
  induction before generalizing r with
  | nil => rfl
  | cons c before ih => rw [cons_append, run, run, ih]; rfl

theorem Cursor.run_append (c : Cursor) (before after : List Call) :
    c.run (before ++ after) = (((c.run before).1.run after).1, (c.run before).2 ++ ((c.run before).1.run after).2) := by
  induction before generalizing c with
  | nil => rfl
  | cons x before ih => rw [cons_append, Cursor.run, Cursor.run, ih]; rfl

theorem counting_rounds (n fetched : ℕ) (h : fetched + 2 * n < 2 ^ 64) :
    ((counting fetched).run twoBytes (List.replicate n again).flatten).1 = counting (fetched + 2 * n) := by
  induction n generalizing fetched with
  | zero => rfl
  | succ n ih =>
    rw [replicate_succ, flatten_cons, run_append, counting_again (by omega), ih _ (by omega)]
    exact congrArg counting (by omega)

end

theorem counting_differs {r : RangeReader} {c : Cursor} {before : List Call}
    (h : (r.run twoBytes before).1 = counting (2 ^ 64 - 2)) :
    (r.run twoBytes (before ++ [.read 2])).2 ≠ (c.run (before ++ [.read 2])).2 := by
  rw [run_append, Cursor.run_append, h]
  generalize c.run before = done
  intro heq
  have hlast := (append_inj' heq rfl).2
  exact nomatch (counting_last).symm.trans (congrArg Prod.fst (List.cons.inj hlast).1)

/-- A long run of reads and seeks over two bytes. -/
theorem counter_at_its_end : ∃ calls, (∀ x ∈ calls, Call.InRange x) ∧ Exact twoBytes [0, 0] ∧
      ((withBlockSize 2 1).run twoBytes calls).2 ≠ (Cursor.run ⟨[0, 0], 0⟩ calls).2 := by
  have hround : ∀ x ∈ again, Call.InRange x := by decide
  have hstart : ((withBlockSize 2 1).run twoBytes again).1 = counting 2 := by decide
  obtain ⟨rounds, hrounds⟩ : ∃ n : ℕ, 2 + 2 * n = 2 ^ 64 - 2 := ⟨2 ^ 63 - 2, by decide⟩
  refine ⟨(again ++ (List.replicate rounds again).flatten) ++ [.read 2], fun x hx => ?_, fun first length _ => rfl,
    counting_differs ?_⟩
  · simp only [mem_append, mem_flatten, mem_singleton] at hx
    rcases hx with (hx | ⟨_, hl, hx⟩) | rfl
    · exact hround x hx
    · exact hround x (eq_of_mem_replicate hl ▸ hx)
    · exact trivial
  · rw [run_append, hstart, counting_rounds _ _ (by omega), hrounds]

/-- Three blocks of two bytes, read across the blocks and after a seek from the end. -/
theorem range_reader_cursor_five :
    ((withBlockSize 5 2).run (fun first length => .ok (([1, 2, 3, 4, 5] : List UInt8).drop first |>.take length))
      [.read 3, .seek (.fromEnd (-1)), .read 4, .seek (.current (-6))]).2 =
      (Cursor.run ⟨[1, 2, 3, 4, 5], 0⟩ [.read 3, .seek (.fromEnd (-1)), .read 4, .seek (.current (-6))]).2 := by
  rcases range_reader_cursor (fun first length => .ok (([1, 2, 3, 4, 5] : List UInt8).drop first |>.take length)) [1, 2, 3, 4, 5] 2
    (by decide) (fun _ _ _ => rfl) [.read 3, .seek (.fromEnd (-1)), .read 4, .seek (.current (-6))] (by decide) with
    hall | _
  · exact hall
  · decide

end AsterDrive.Archive
