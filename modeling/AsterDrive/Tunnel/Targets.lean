import AsterDrive.Lib.Decimal
import Mathlib.Data.List.Infix
import Mathlib.Data.List.TakeDrop

/-!
# Tunnel/Targets — which paths a tunnel request may name

`is_allowed_tunnel_target` looks at the text of the request; the follower puts it behind its base URL, and the HTTP client
parses the whole again. Texts are their UTF-8 bytes here: the filter decodes lossily, which neither makes nor takes an
ASCII byte, and the parser only looks for ASCII bytes. The parser has the states that a text with the base URL goes through.
-/

namespace AsterDrive.Tunnel.Targets

open List Option

abbrev Bytes := List UInt8

def ascii (text : String) : Bytes := text.toList.map fun c => UInt8.ofNat c.toNat

/-! ### The filter -/

def internalStorageBasePath : Bytes := ascii "/api/v1/internal/storage"

def hexValue (c : UInt8) : Option UInt8 :=
  if 48 ≤ c ∧ c ≤ 57 then some (c - 48)
  else if 65 ≤ c ∧ c ≤ 70 then some (c - 55)
  else if 97 ≤ c ∧ c ≤ 102 then some (c - 87)
  else none

/-- `percent_decode_str`. -/
def percentDecode : Bytes → Bytes
  | 37 :: high :: low :: rest =>
    match hexValue high, hexValue low with
    | some h, some l => (h * 16 + l) :: percentDecode rest
    | _, _ => 37 :: percentDecode (high :: low :: rest)
  | c :: rest => c :: percentDecode rest
  | [] => []

/-- `split('/')`. -/
def splitSlash (path : Bytes) : List Bytes := path.splitOn 47

def isInternalStoragePath (path : Bytes) : Bool :=
  path == internalStorageBasePath || (internalStorageBasePath ++ [47]).isPrefixOf path

def isAllowedTunnelTarget (pathAndQuery : Bytes) : Bool :=
  let path := pathAndQuery.takeWhile (· != 63)
  if path.isEmpty || path.head? != some 47 || path.contains 35 || path.contains 92 then false
  else
    let decoded := percentDecode path
    if decoded.contains 92 || (splitSlash decoded).any fun segment => segment == ascii "." || segment == ascii ".." then false
    else isInternalStoragePath path && isInternalStoragePath decoded

/-! ### The parser -/

/-- C0 controls and the space. -/
def isBlank (c : UInt8) : Bool := c ≤ 32

def trimEnd : Bytes → Bytes
  | [] => []
  | c :: rest => if isBlank c && (trimEnd rest).isEmpty then [] else c :: trimEnd rest

def isTabOrNewline (c : UInt8) : Bool := c == 9 || c == 10 || c == 13

/-- The text that the states of the parser see. -/
def clean (text : Bytes) : Bytes := (trimEnd (text.dropWhile isBlank)).filter fun c => !isTabOrNewline c

def isSeparator (c : UInt8) : Bool := c == 47 || c == 92

/-- The query or the fragment begins. -/
def endsPath (c : UInt8) : Bool := c == 63 || c == 35

def isSingleDot (segment : Bytes) : Bool := [ascii ".", ascii "%2e", ascii "%2E"].contains segment

def isDoubleDot (segment : Bytes) : Bool :=
  [ascii "..", ascii ".%2e", ascii ".%2E", ascii "%2e.", ascii "%2E.", ascii "%2e%2e", ascii "%2e%2E", ascii "%2E%2e",
    ascii "%2E%2E"].contains segment

def hexDigit (n : UInt8) : UInt8 := if n < 10 then n + 48 else n + 55

/-- The path percent-encode set. -/
def encodeByte (c : UInt8) : Bytes :=
  if c ≤ 32 || 127 ≤ c || [34, 60, 62, 94, 96, 123, 125].contains c then [37, hexDigit (c / 16), hexDigit (c % 16)] else [c]

/-- The buffer of the path state, from separator to separator. -/
def segments : Bytes → Bytes → List Bytes
  | buffer, [] => [buffer]
  | buffer, c :: rest => if isSeparator c then buffer :: segments [] rest else segments (buffer ++ encodeByte c) rest

/-- What the path state does with its buffer: at a separator, or at the end of the path. -/
def flush (path : List Bytes) (segment : Bytes) (more : Bool) : List Bytes :=
  if isDoubleDot segment then if more then path.dropLast else path.dropLast ++ [[]]
  else if isSingleDot segment then if more then path else path ++ [[]]
  else path ++ [segment]

def resolve : List Bytes → List Bytes → List Bytes
  | path, [] => path
  | path, [last] => flush path last false
  | path, segment :: next :: rest => resolve (flush path segment true) (next :: rest)

structure Url where
  authority : Bytes
  path : List Bytes

def parse (text : Bytes) : Option Url :=
  let text := clean text
  if (ascii "http://").isPrefixOf text then
    let rest := (text.drop 7).dropWhile isSeparator
    let path := (rest.dropWhile fun c => !isSeparator c && !endsPath c).takeWhile fun c => !endsPath c
    some ⟨rest.takeWhile fun c => !isSeparator c && !endsPath c, resolve [] (segments [] (path.drop 1))⟩
  else none

/-- Host and port of the base URL. -/
def authority (port : ℕ) : Bytes := ascii "127.0.0.1:" ++ ascii (toString port)

def localBaseUrl (port : ℕ) : Bytes := ascii "http://" ++ authority port

def baseSegments : List Bytes := [ascii "api", ascii "v1", ascii "internal", ascii "storage"]

/-- The request goes to the base URL, to the internal storage API. -/
def StaysInside (port : ℕ) (pathAndQuery : Bytes) : Prop :=
  ∃ url, parse (localBaseUrl port ++ pathAndQuery) = some url ∧ url.authority = authority port ∧ baseSegments <+: url.path

/-! ### How far a path climbs -/

/-- The segments of what begins with a separator. -/
def segmentsOf : Bytes → List Bytes
  | [] => []
  | _ :: rest => segments [] rest

/-- The segments behind the base path, as the parser comes to them. -/
def tail (pathAndQuery : Bytes) : List Bytes :=
  let rest := (trimEnd (pathAndQuery.drop internalStorageBasePath.length)).filter fun c => !isTabOrNewline c
  segmentsOf (rest.takeWhile fun c => !endsPath c)

/-- One level up: from what is left, or out of it. -/
def up : ℕ × List Bytes → ℕ × List Bytes
  | (climbed, []) => (climbed + 1, [])
  | (climbed, kept) => (climbed, kept.dropLast)

def move (reached : ℕ × List Bytes) (segment : Bytes) (more : Bool) : ℕ × List Bytes :=
  let moved := if isDoubleDot segment then up reached else reached
  if isDoubleDot segment || isSingleDot segment then if more then moved else (moved.1, moved.2 ++ [[]])
  else (reached.1, reached.2 ++ [segment])

/-- By how many levels the segments climb out of where they begin, and what they leave behind that. -/
def climb : ℕ × List Bytes → List Bytes → ℕ × List Bytes
  | reached, [] => reached
  | reached, [last] => move reached last false
  | reached, segment :: next :: rest => climb (move reached segment true) (next :: rest)

/-- The path does not climb out of the base path, or it comes back into it by name. -/
def Returns (pathAndQuery : Bytes) : Prop :=
  baseSegments.drop (4 - (climb (0, []) (tail pathAndQuery)).1) <+: (climb (0, []) (tail pathAndQuery)).2

section

variable {base path rest : List Bytes} {reached : ℕ × List Bytes} {segment : Bytes} {more : Bool} {x : Bytes} {port : ℕ}

/-- Where the parser is, when it has climbed out of `base` so far. -/
def place (base : List Bytes) (reached : ℕ × List Bytes) : List Bytes := base.take (base.length - reached.1) ++ reached.2

theorem place_up : place base (up reached) = (place base reached).dropLast := by
  obtain ⟨climbed, kept⟩ := reached
  cases kept with
  | nil =>
    simp only [place, up, append_nil]
    rw [dropLast_eq_take, length_take, take_take]
    congr 1
    omega
  | cons s kept => exact (dropLast_append_of_ne_nil (cons_ne_nil s kept)).symm

theorem place_append {l : List Bytes} : place base (reached.1, reached.2 ++ l) = place base reached ++ l :=
  (append_assoc ..).symm

theorem place_move : place base (move reached segment more) = flush (place base reached) segment more := by
  unfold move flush
  by_cases hdouble : isDoubleDot segment
  · cases more with
    | true => simp [hdouble, place_up]
    | false => simp [hdouble, place_append, place_up]
  · by_cases hsingle : isSingleDot segment
    · cases more with
      | true => simp [hdouble, hsingle]
      | false => simp [hdouble, hsingle, place_append]
    · simp [hdouble, hsingle, place_append]

/-- **The parser ends where the climb says.** -/
theorem place_climb : place base (climb reached path) = resolve (place base reached) path := by
  induction path generalizing reached with
  | nil => rfl
  | cons segment rest ih =>
    cases rest with
    | nil => exact place_move
    | cons next rest => rw [climb, resolve, ih, place_move]

theorem prefix_place : base <+: place base reached ↔ base.drop (base.length - reached.1) <+: reached.2 := by
  nth_rewrite 1 [← take_append_drop (base.length - reached.1) base]
  exact prefix_append_right_inj _

theorem trimEnd_append {l : Bytes} (h : ∀ c ∈ l, isBlank c = false) : trimEnd (l ++ x) = l ++ trimEnd x := by
  induction l with
  | nil => rfl
  | cons c l ih =>
    have hc : isBlank c = false := h c mem_cons_self
    rw [cons_append, trimEnd, hc, ih fun d hd => h d (mem_cons_of_mem _ hd)]
    rfl

/-! ### The URL of an allowed target -/

/-- The bytes of a host and a port. -/
def isPlain (c : UInt8) : Bool := !isBlank c && !isSeparator c && !endsPath c

theorem plain_authority : ∀ c ∈ authority port, isPlain c = true := by
  have hdigit : ∀ n, n < 58 → 48 ≤ n → isPlain (UInt8.ofNat n) = true := by decide
  intro c hc
  rcases mem_append.mp hc with hc | hc
  · have hhost : ∀ c ∈ ascii "127.0.0.1:", isPlain c = true := by decide +kernel
    exact hhost c hc
  · obtain ⟨d, hd, rfl⟩ := List.mem_map.mp hc
    have hisDigit : d.isDigit = true := by
      by_contra hnot
      exact Decimal.notMem_repr (by simpa using hnot) hd
    simp only [Char.isDigit, Bool.and_eq_true, decide_eq_true_eq] at hisDigit
    exact hdigit d.toNat (Nat.lt_succ_of_le hisDigit.2) hisDigit.1

theorem exists_rest (h : isAllowedTunnelTarget x = true) : ∃ rest, x = internalStorageBasePath ++ rest ∧
    (rest = [] ∨ (∃ r, rest = 47 :: r) ∨ ∃ r, rest = 63 :: r) := by
  have hpath : isInternalStoragePath (x.takeWhile (· != 63)) = true := by
    unfold isAllowedTunnelTarget at h
    dsimp only at h
    split_ifs at h
    exact (Bool.and_eq_true_iff.mp h).1
  have hx := takeWhile_append_dropWhile (p := (· != (63 : UInt8))) (l := x)
  rcases Bool.or_eq_true_iff.mp hpath with heq | hprefix
  · refine ⟨x.dropWhile (· != 63), by rw [← beq_iff_eq.mp heq]; exact hx.symm, ?_⟩
    cases hrest : x.dropWhile (· != 63) with
    | nil => exact .inl rfl
    | cons c r =>
      have hc := head_dropWhile_not (· != (63 : UInt8)) (by rw [hrest]; exact cons_ne_nil _ _)
      simp only [hrest, head_cons] at hc
      exact .inr (.inr ⟨r, by simpa using hc⟩)
  · obtain ⟨r, hr⟩ := isPrefixOf_iff_prefix.mp hprefix
    refine ⟨47 :: (r ++ x.dropWhile (· != 63)), ?_, .inr (.inl ⟨_, rfl⟩)⟩
    conv_lhs => rw [← hx, ← hr]
    simp

theorem resolve_base {p : Bytes} (h : p = [] ∨ ∃ r, p = 47 :: r) :
    resolve [] (segments [] ((internalStorageBasePath ++ p).drop 1)) = resolve baseSegments (segmentsOf p) := by
  rcases h with rfl | ⟨r, rfl⟩
  · decide
  · have hsegments : segments [] ((internalStorageBasePath ++ 47 :: r).drop 1) = baseSegments ++ segments [] r := rfl
    rw [hsegments, segmentsOf]
    cases segments [] r with
    | nil => decide
    | cons s l => rfl

theorem parse_allowed (h : isAllowedTunnelTarget x = true) :
    parse (localBaseUrl port ++ x) = some ⟨authority port, resolve baseSegments (tail x)⟩ := by
  obtain ⟨rest, rfl, hrest⟩ := exists_rest h
  have hplain : ∀ c ∈ authority port, isBlank c = false ∧ isSeparator c = false ∧ endsPath c = false := by
    intro c hc
    have hc := plain_authority c hc
    simpa [isPlain, and_assoc] using hc
  have hhttp : ∀ c ∈ ascii "http://" ++ (authority port ++ internalStorageBasePath), isBlank c = false := by
    have hscheme : ∀ c ∈ ascii "http://", isBlank c = false := by decide +kernel
    have hbase : ∀ c ∈ internalStorageBasePath, isBlank c = false := by decide +kernel
    intro c hc
    rcases mem_append.mp hc with hc | hc
    · exact hscheme c hc
    · exact (mem_append.mp hc).elim (fun hc => (hplain c hc).1) (hbase c)
  have htabs : ∀ {l : Bytes}, (∀ c ∈ l, isBlank c = false) → l.filter (fun c => !isTabOrNewline c) = l := by
    intro l hl
    refine filter_eq_self.mpr fun c hc => ?_
    have hblank := hl c hc
    simp only [isTabOrNewline, Bool.not_eq_true', Bool.or_eq_false_iff, beq_eq_false_iff_ne]
    refine ⟨⟨?_, ?_⟩, ?_⟩
    all_goals
      rintro rfl
      exact absurd hblank (by decide)
  -- the base URL and the base path go through as they are
  have hclean : clean (localBaseUrl port ++ (internalStorageBasePath ++ rest)) =
      ascii "http://" ++ (authority port ++ (internalStorageBasePath ++ (trimEnd rest).filter fun c => !isTabOrNewline c)) := by
    have hsplit : localBaseUrl port ++ (internalStorageBasePath ++ rest) =
        ascii "http://" ++ (authority port ++ internalStorageBasePath) ++ rest := by
      simp only [localBaseUrl, append_assoc]
    have hstart : (ascii "http://" ++ (authority port ++ internalStorageBasePath) ++ rest).dropWhile isBlank =
        ascii "http://" ++ (authority port ++ internalStorageBasePath) ++ rest := rfl
    rw [clean, hsplit, hstart, trimEnd_append hhttp, filter_append, htabs hhttp]
    simp only [append_assoc]
  have hauthority : ∀ {l : Bytes}, (authority port ++ l).dropWhile isSeparator = authority port ++ l := fun {l} => rfl
  have hends : ∀ c ∈ authority port, (!isSeparator c && !endsPath c) = true := by
    intro c hc
    obtain ⟨-, hsep, hend⟩ := hplain c hc
    rw [hsep, hend]
    rfl
  have hpath : ∀ {l : Bytes}, (internalStorageBasePath ++ l).takeWhile (fun c => !endsPath c) =
      internalStorageBasePath ++ l.takeWhile fun c => !endsPath c := fun {l} => rfl
  have hscheme : ∀ {l : Bytes}, (ascii "http://").isPrefixOf (ascii "http://" ++ l) = true ∧
      (ascii "http://" ++ l).drop 7 = l := fun {l} => ⟨rfl, rfl⟩
  have hstop : ∀ {l : Bytes}, (internalStorageBasePath ++ l).takeWhile (fun c => !isSeparator c && !endsPath c) = [] ∧
      (internalStorageBasePath ++ l).dropWhile (fun c => !isSeparator c && !endsPath c) = internalStorageBasePath ++ l :=
    fun {l} => ⟨rfl, rfl⟩
  unfold parse
  rw [hclean]
  dsimp only
  rw [if_pos hscheme.1, hscheme.2, hauthority, takeWhile_append_of_pos hends, hstop.1, append_nil,
    dropWhile_append_of_pos hends, hstop.2, hpath, resolve_base, tail, drop_left]
  -- what is left begins like what was there
  rcases hrest with rfl | ⟨r, rfl⟩ | ⟨r, rfl⟩
  · exact .inl rfl
  · exact .inr ⟨_, rfl⟩
  · exact .inl rfl

/-- **Exactly the targets that do not climb out, or come back by name, stay inside.** -/
theorem tunnel_target_inside (port : ℕ) (x : Bytes) :
    (isAllowedTunnelTarget x = true → StaysInside port x) ↔ (isAllowedTunnelTarget x = true → Returns x) := by
  refine imp_congr_right fun h => ?_
  have hparse := @parse_allowed x port h
  have hplace : resolve baseSegments (tail x) = place baseSegments (climb (0, []) (tail x)) :=
    (@place_climb baseSegments (tail x) (0, [])).symm
  rw [hplace] at hparse
  have hiff : baseSegments <+: place baseSegments (climb (0, []) (tail x)) ↔ Returns x := prefix_place
  rw [← hiff]
  constructor
  · rintro ⟨url, hurl, -, hprefix⟩
    obtain rfl := some.inj (hparse.symm.trans hurl)
    exact hprefix
  · exact fun hprefix => ⟨_, hparse, rfl, hprefix⟩

/-- A tab between two dots: the filter sees no dot segment, the parser does. -/
theorem tab_climbs_out : ¬ ∀ port x, isAllowedTunnelTarget x = true → StaysInside port x := by
  intro hall
  obtain ⟨url, hurl, -, hprefix⟩ := hall 3000 (ascii "/api/v1/internal/storage/.\t./.\t./admin/users") (by decide +kernel)
  have hparsed : (parse (localBaseUrl 3000 ++ ascii "/api/v1/internal/storage/.\t./.\t./admin/users")).map Url.path =
      some [ascii "api", ascii "v1", ascii "admin", ascii "users"] := by decide +kernel
  rw [hurl] at hparsed
  rw [some.inj hparsed] at hprefix
  exact absurd hprefix (by decide)

end

end AsterDrive.Tunnel.Targets
