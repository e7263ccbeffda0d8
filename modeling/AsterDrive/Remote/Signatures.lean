import AsterDrive.Lib.Decimal
import AsterDrive.Remote.RequestAuth

/-!
# Remote/Signatures — what the signatures of the remote protocol stand for

`remote_protocol/auth.rs` signs requests, responses and presigned accesses with one key. The text that is signed has a line
for each field, and the three kinds differ in the number of lines. So a text stands for one message, and a signature is
accepted for one message only. A verifier that does not know the digest of a body takes two of them
(`Check.messages`).
-/

namespace AsterDrive.Remote

open List

/-- `internal_response_mac`. -/
def responseCanonical (nonce bodySha256 : String) : String := String.intercalate "\n" ["response", nonce, bodySha256]

/-- `presigned_request_mac`. -/
def presignedCanonical (method requestTarget accessKey : String) (expiresAt : ℤ) : String :=
  String.intercalate "\n" [method, requestTarget, accessKey, toString expiresAt]

section Verifiers

variable (mac : String → String → List UInt8)

def verifyInternalResponseSignature (secretKey nonce bodySha256 providedSignature : String) : Bool :=
  match decodeSignature providedSignature with
  | none => false
  | some decoded => mac secretKey (responseCanonical nonce bodySha256) = decoded

def verifyPresignedRequestSignature (secretKey method requestTarget accessKey : String) (expiresAt : ℤ)
    (providedSignature : String) : Bool :=
  match decodeSignature providedSignature with
  | none => false
  | some decoded => mac secretKey (presignedCanonical method requestTarget accessKey expiresAt) = decoded

/-! ### Messages -/

inductive Message
  | request (method pathAndQuery : String) (timestamp : ℤ) (nonce : String) (contentLength : Option ℕ) (bodySha256 : String)
  | response (nonce bodySha256 : String)
  | presigned (method requestTarget accessKey : String) (expiresAt : ℤ)

/-- The text that is signed. -/
def Message.canonical : Message → String
  | request method pathAndQuery timestamp nonce contentLength bodySha256 =>
    Remote.canonical method pathAndQuery timestamp nonce contentLength bodySha256
  | response nonce bodySha256 => responseCanonical nonce bodySha256
  | presigned method requestTarget accessKey expiresAt => presignedCanonical method requestTarget accessKey expiresAt

/-- No field has a line break. -/
def Message.SingleLine : Message → Prop
  | request method pathAndQuery _ nonce _ bodySha256 =>
    ∀ field ∈ [method, pathAndQuery, nonce, bodySha256], '\n' ∉ field.toList
  | response nonce bodySha256 => ∀ field ∈ [nonce, bodySha256], '\n' ∉ field.toList
  | presigned method requestTarget accessKey _ => ∀ field ∈ [method, requestTarget, accessKey], '\n' ∉ field.toList

/-- What a verifier is asked. -/
inductive Verification
  | request (method pathAndQuery : String) (timestamp : ℤ) (nonce : String) (contentLength : Option ℕ)
      (bodySha256 : Option String)
  | response (nonce bodySha256 : String)
  | presigned (method requestTarget accessKey : String) (expiresAt : ℤ)

def Verification.verify (secretKey providedSignature : String) : Verification → Bool
  | request method pathAndQuery timestamp nonce contentLength bodySha256 =>
    verifyInternalRequestSignature mac secretKey method pathAndQuery timestamp nonce contentLength bodySha256 providedSignature
  | response nonce bodySha256 => verifyInternalResponseSignature mac secretKey nonce bodySha256 providedSignature
  | presigned method requestTarget accessKey expiresAt =>
    verifyPresignedRequestSignature mac secretKey method requestTarget accessKey expiresAt providedSignature

/-- The messages that the verifier accepts a signature for. -/
def Verification.messages : Verification → List Message
  | request method pathAndQuery timestamp nonce contentLength (some digest) =>
    [.request method pathAndQuery timestamp nonce contentLength digest]
  | request method pathAndQuery timestamp nonce contentLength none =>
    [.request method pathAndQuery timestamp nonce contentLength "",
      .request method pathAndQuery timestamp nonce contentLength emptyBodySha256]
  | response nonce bodySha256 => [.response nonce bodySha256]
  | presigned method requestTarget accessKey expiresAt => [.presigned method requestTarget accessKey expiresAt]

end Verifiers

section

variable {mac : String → String → List UInt8} {m m' : Message} {v v' : Verification} {secretKey signature : String}

theorem lines_inj {lines lines' : List String} (h : ∀ line ∈ lines, '\n' ∉ line.toList)
    (h' : ∀ line ∈ lines', '\n' ∉ line.toList) (hne : lines ≠ []) (hne' : lines' ≠ [])
    (heq : String.intercalate "\n" lines = String.intercalate "\n" lines') : lines = lines' := by
  have hsplit : ∀ {lines : List String}, (∀ line ∈ lines, '\n' ∉ line.toList) → lines ≠ [] →
      (String.intercalate "\n" lines).toList.splitOn '\n' = lines.map String.toList := by
    intro lines h hne
    rw [String.toList_intercalate]
    refine splitOn_intercalate _ (fun line hline => ?_) (by simpa using hne)
    obtain ⟨text, htext, rfl⟩ := mem_map.mp hline
    exact h text htext
  have hmap : lines.map String.toList = lines'.map String.toList := by rw [← hsplit h hne, ← hsplit h' hne', heq]
  exact map_injective_iff.mpr (fun _ _ => String.toList_inj.mp) hmap

theorem contentLength_line {contentLength : Option ℕ} : '\n' ∉ ((contentLength.map toString).getD "").toList := by
  cases contentLength with
  | none => simp
  | some n => exact Decimal.notMem_repr rfl

theorem contentLength_inj {a b : Option ℕ} (h : (a.map toString).getD "" = (b.map toString).getD "") : a = b := by
  have hsome : ∀ n : ℕ, toString n ≠ "" := fun n h => Decimal.repr_ne_nil (congrArg String.toList h)
  cases a with
  | none =>
    cases b with
    | none => rfl
    | some n => exact absurd h.symm (hsome n)
  | some m =>
    cases b with
    | none => exact absurd h (hsome m)
    | some n => exact congrArg some (Decimal.repr_inj (congrArg String.toList h))

/-- The lines of a message. -/
def Message.lines : Message → List String
  | request method pathAndQuery timestamp nonce contentLength bodySha256 =>
    [method, pathAndQuery, toString timestamp, nonce, (contentLength.map toString).getD "", bodySha256]
  | response nonce bodySha256 => ["response", nonce, bodySha256]
  | presigned method requestTarget accessKey expiresAt => [method, requestTarget, accessKey, toString expiresAt]

theorem Message.lines_single (h : m.SingleLine) : m.lines ≠ [] ∧ ∀ line ∈ m.lines, '\n' ∉ line.toList := by
  have hnumber : ∀ x : ℤ, '\n' ∉ (toString x).toList := fun x => Decimal.notMem_toString_int rfl (by decide)
  cases m with simp only [SingleLine, lines, forall_mem_cons] at h ⊢
  | request method pathAndQuery timestamp nonce contentLength bodySha256 =>
    exact ⟨cons_ne_nil _ _, h.1, h.2.1, hnumber _, h.2.2.1, contentLength_line, h.2.2.2⟩
  | response nonce bodySha256 =>
    exact ⟨cons_ne_nil _ _, by decide, h⟩
  | presigned method requestTarget accessKey expiresAt =>
    exact ⟨cons_ne_nil _ _, h.1, h.2.1, h.2.2.1, hnumber _, h.2.2.2⟩

theorem Message.lines_inj (h : m.lines = m'.lines) : m = m' := by
  have htime : ∀ {a b : ℤ}, toString a = toString b → a = b := fun h => Decimal.toString_int_inj (congrArg String.toList h)
  cases m <;> cases m' <;> simp only [lines, List.cons.injEq, reduceCtorEq, and_false, and_true] at h
  · obtain ⟨rfl, rfl, htimestamp, rfl, hlength, rfl⟩ := h
    rw [htime htimestamp, contentLength_inj hlength]
  · obtain ⟨-, rfl, rfl⟩ := h
    rfl
  · obtain ⟨rfl, rfl, rfl, hexpires⟩ := h
    rw [htime hexpires]

theorem Message.canonical_inj (h : m.SingleLine) (h' : m'.SingleLine) (heq : m.canonical = m'.canonical) : m = m' := by
  have htext : ∀ m : Message, m.canonical = String.intercalate "\n" m.lines := fun m => by cases m <;> rfl
  rw [htext, htext] at heq
  exact lines_inj (Remote.lines_inj (lines_single h).2 (lines_single h').2 (lines_single h).1 (lines_single h').1 heq)

theorem verify_iff : v.verify mac secretKey signature = true ↔
    ∃ decoded, decodeSignature signature = some decoded ∧ ∃ m ∈ v.messages, mac secretKey m.canonical = decoded := by
  have hcodes : ∀ {l : List Message} {decoded : List UInt8}, (∃ d, some decoded = some d ∧ ∃ m ∈ l, mac secretKey m.canonical = d) ↔
      l.any (fun m => mac secretKey m.canonical = decoded) = true := by
    intro l decoded
    simp only [Option.some.injEq, exists_eq_left', any_eq_true, decide_eq_true_eq]
  cases v with
  | request method pathAndQuery timestamp nonce contentLength bodySha256 =>
    unfold Verification.verify verifyInternalRequestSignature
    cases decodeSignature signature with
    | none => simp
    | some decoded =>
      rw [hcodes]
      cases bodySha256 with
      | none | some digest => rfl
  | response nonce bodySha256 =>
    unfold Verification.verify verifyInternalResponseSignature
    cases decodeSignature signature with
    | none => simp
    | some decoded =>
      rw [hcodes]
      exact iff_of_eq (congrArg (· = true) (Bool.or_false _).symm)
  | presigned method requestTarget accessKey expiresAt =>
    unfold Verification.verify verifyPresignedRequestSignature
    cases decodeSignature signature with
    | none => simp
    | some decoded =>
      rw [hcodes]
      exact iff_of_eq (congrArg (· = true) (Bool.or_false _).symm)

end

/-- **A signature is for one message.** Different messages, of the same kind or of different kinds, have different texts; and
where the code is injective, two verifiers accept one signature only if there is a message that both accept it for. -/
theorem signing_canonicals : (∀ m m' : Message, m.SingleLine → m'.SingleLine → m.canonical = m'.canonical → m = m') ∧
    ∀ (mac : String → String → List UInt8) (secretKey : String), Function.Injective (mac secretKey) →
      ∀ (v v' : Verification) (signature : String), (∀ m ∈ v.messages, m.SingleLine) → (∀ m ∈ v'.messages, m.SingleLine) →
        v.verify mac secretKey signature = true → v'.verify mac secretKey signature = true →
        ∃ m ∈ v.messages, m ∈ v'.messages := by
  refine ⟨fun m m' => Message.canonical_inj, fun mac secretKey hmac v v' signature hv hv' h h' => ?_⟩
  obtain ⟨decoded, hdecoded, m, hm, hcode⟩ := (verify_iff).mp h
  obtain ⟨decoded', hdecoded', m', hm', hcode'⟩ := (verify_iff).mp h'
  obtain rfl := Option.some.inj (hdecoded.symm.trans hdecoded')
  obtain rfl := Message.canonical_inj (hv m hm) (hv' m' hm') (hmac (hcode.trans hcode'.symm))
  exact ⟨m, hm, hm'⟩

end AsterDrive.Remote
