import Duckspout.Lib.Fallible
import Duckspout.Lib.Pieces
import Duckspout.Replication.Boot
import Mathlib.Data.List.TakeWhile

/-! Postgres DSNs (`duckspout-fleet/src/dsn.rs`): where a DSN points, and the same DSN pointed elsewhere.

    A DSN is a `scheme://` URI or a sequence of `key=value` tokens, the latter with or without a `postgres:` prefix. Reader
    and rewriter both take whatever has `://` in it for a URI. A token's value may have it too: such a DSN is read, and
    rewritten, in the middle of that value. -/

namespace Duckspout

open Pieces

/-- A port. -/
abbrev Port := Fin (2 ^ 16)

/-- `str::parse::<u16>`: what a `u64` is read from, and small enough. -/
def parseU16 (text : List Char) : Except String Port := do
  let n ← parseU64 text
  if h : n < 2 ^ 16 then .ok ⟨n, h⟩ else .error "number too large to fit in target type"

/-- `u16::to_string`. -/
def renderU16 (port : Port) : List Char := Nat.toDigits 10 port

def defaultPort : Port := 5432

def uriMark : List Char := "://".toList

section

variable (debug : List Char → String)

/-- The `postgres:` or `postgresql:` a keyword DSN may begin with. -/
def keywordPrefix (dsn : List Char) : List Char :=
  (["postgresql:".toList, "postgres:".toList].find? fun start => decide (start <+: dsn)).getD []

/-- The key and the value of a token. -/
def keywordPair (dsn token : List Char) : Except String (List Char × List Char) :=
  match splitOnce ['='] token with
  | some pair => .ok pair
  | none =>
    .error ("postgres DSN " ++ debug dsn ++ " is neither a `scheme://` URI nor libpq keyword/value pairs (token " ++
      debug token ++ " has no `=`)")

/-- The pairs of a keyword DSN, in order. -/
def keywordTokens (dsn : List Char) : Except String (List (List Char × List Char)) := do
  let body := dsn.drop (keywordPrefix dsn).length
  let pairs ← (tokens isWhitespace body).mapM (keywordPair debug dsn)
  if pairs = [] then .error ("postgres DSN " ++ debug dsn ++ " is empty") else .ok pairs

/-- The value of the first pair with the key. -/
def keywordValue (pairs : List (List Char × List Char)) (key : List Char) : Option (List Char) :=
  pairs.findSome? fun pair => if pair.1 = key then some pair.2 else none

/-- The end of a URI's authority. -/
def endsAuthority (c : Char) : Bool := c = '/' ∨ c = '?'

/-- A port as it is written, or the error that quotes it. -/
def readPort (dsn port : List Char) : Except String Port :=
  match parseU16 port with
  | .ok port => .ok port
  | .error _ => .error ("postgres DSN " ++ debug dsn ++ " has a non-numeric port " ++ debug port)

/-- The address of a URI, its user information taken off. -/
def uriAddress (dsn hostPort : List Char) : Except String (List Char × Port) :=
  if hostPort.head? = some '[' ∨ hostPort.count ':' > 1 then
    .error ("postgres DSN " ++ debug dsn ++ " names an IPv6 host, which this fleet runner does not support: its fault " ++
      "links address their upstream as a plain \"host:port\" string (crate::link), which cannot carry one — use an " ++
      "IPv4 address or a hostname")
  else
    match rsplitOnce ':' hostPort with
    | some (host, port) => (readPort debug dsn port).map fun port => (host, port)
    | none => .ok (hostPort, defaultPort)

/-- Where a DSN points. -/
def postgresHostPort (dsn : List Char) : Except String (List Char × Port) :=
  match splitOnce uriMark dsn with
  | some (_, rest) =>
    let authority := rest.takeWhile (!endsAuthority ·)
    uriAddress debug dsn (((rsplitOnce '@' authority).map (·.2)).getD authority)
  | none => do
    let keywords ← keywordTokens debug dsn
    match keywordValue keywords "host".toList with
    | none => .error ("postgres DSN " ++ debug dsn ++ " names no host")
    | some host =>
      match keywordValue keywords "port".toList with
      | some port => (readPort debug dsn port).map fun port => (host, port)
      | none => .ok (host, defaultPort)

/-- A pair that is not of the address. -/
def isOther (pair : List Char × List Char) : Bool := pair.1 ≠ "host".toList ∧ pair.1 ≠ "port".toList

def renderPair (pair : List Char × List Char) : List Char := pair.1 ++ '=' :: pair.2

/-- The DSN with another address. -/
def rewritePostgresHostPort (dsn host : List Char) (port : Port) : Except String (List Char) :=
  match splitOnce uriMark dsn with
  | some (scheme, rest) =>
    let authority := rest.takeWhile (!endsAuthority ·)
    let tail := rest.dropWhile (!endsAuthority ·)
    let userinfo := ((rsplitOnce '@' authority).map fun x => x.1 ++ ['@']).getD []
    .ok (scheme ++ uriMark ++ userinfo ++ (host ++ ':' :: renderU16 port) ++ tail)
  | none => do
    let keywords ← keywordTokens debug dsn
    let rendered := (keywords.filter isOther).map renderPair
    .ok (keywordPrefix dsn ++
      [' '].intercalate (renderPair ("host".toList, host) :: renderPair ("port".toList, renderU16 port) :: rendered))

end

/-! ### The two forms -/

/-- A `scheme://` URI: no `=` and no blank stand before the mark. -/
def IsUri (dsn : List Char) : Prop :=
  ∃ scheme rest, dsn = scheme ++ uriMark ++ rest ∧ ∀ c ∈ scheme, c ≠ '=' ∧ isWhitespace c = false

/-- The parts of a URI: up to its first mark, the user information with its `@`, the address, and what follows the
    authority. -/
structure UriForm (dsn scheme userinfo address tail : List Char) : Prop where
  parts : dsn = scheme ++ uriMark ++ (userinfo ++ address ++ tail)
  plain : ∀ c ∈ scheme, c ≠ '=' ∧ isWhitespace c = false
  first : ¬ uriMark <:+: (scheme ++ uriMark).dropLast
  user : userinfo = [] ∨ userinfo.getLast? = some '@'
  authority : ∀ c ∈ userinfo ++ address, endsAuthority c = false
  host : '@' ∉ address
  rest : ∀ c ∈ tail.head?, endsAuthority c = true

/-- The pairs of a keyword DSN: what is not a URI and has `key=value` tokens. -/
structure KeywordForm (dsn : List Char) (pairs : List (List Char × List Char)) : Prop where
  notUri : ¬ IsUri dsn
  nonempty : pairs ≠ []
  tokens : tokens isWhitespace (dsn.drop (keywordPrefix dsn).length) = pairs.map renderPair
  keys : ∀ pair ∈ pairs, '=' ∉ pair.1

/-- A hostname or an IPv4 address. -/
def IsHost (host : List Char) : Prop := host ≠ [] ∧ ∀ c ∈ host, c.isAlphanum ∨ c = '.' ∨ c = '-' ∨ c = '_'

/-! ### What a rewrite must keep -/

/-- The rewritten DSN has the form and the fields of the DSN, its address apart. -/
structure KeepsFields (dsn rewritten host : List Char) (port : Port) : Prop where
  uri : ∀ scheme userinfo address tail, UriForm dsn scheme userinfo address tail →
    UriForm rewritten scheme userinfo (host ++ ':' :: renderU16 port) tail
  keyword : ∀ pairs, KeywordForm dsn pairs → keywordPrefix rewritten = keywordPrefix dsn ∧
    ∃ pairs', KeywordForm rewritten pairs' ∧ pairs'.filter isOther = pairs.filter isOther ∧
      ∀ pair ∈ pairs', (pair.1 = "host".toList → pair.2 = host) ∧ (pair.1 = "port".toList → pair.2 = renderU16 port)

/-- A keyword DSN has a host, and its port is a number if it has one. -/
def NamesAddress (pairs : List (List Char × List Char)) (host : List Char) : Prop :=
  keywordValue pairs "host".toList = some host ∧
    ∀ text, keywordValue pairs "port".toList = some text → ∃ port, parseU16 text = .ok port

section

variable (debug : List Char → String)

def IsAccepted (dsn : List Char) : Prop := ∃ address, postgresHostPort debug dsn = .ok address

/-- A keyword DSN points at its host. An accepted DSN can be pointed at any address and keeps its other fields, and what
    it was pointed at before leaves no trace. -/
structure MovesOnlyAddress (dsn : List Char) : Prop where
  keyword : ∀ pairs host, KeywordForm dsn pairs → NamesAddress pairs host →
    ∃ port, postgresHostPort debug dsn = .ok (host, port)
  rewrite : IsAccepted debug dsn → ∀ host port, IsHost host → ∃ rewritten,
    rewritePostgresHostPort debug dsn host port = .ok rewritten ∧
    postgresHostPort debug rewritten = .ok (host, port) ∧ KeepsFields dsn rewritten host port ∧
    ∀ host' port', IsHost host' →
      rewritePostgresHostPort debug rewritten host' port' = rewritePostgresHostPort debug dsn host' port'

end

/-! ### Characters -/

section

variable {host : List Char} {port : Port} {c : Char}

theorem isDigit_renderU16 (port : Port) : ∀ c ∈ renderU16 port, c.isDigit = true :=
  fun _ hc => Nat.isDigit_of_mem_toDigits (by decide) (by decide) hc

theorem parseU16_renderU16 (port : Port) : parseU16 (renderU16 port) = .ok port := by
  have hread := parseU64_renderU64 ⟨port, port.isLt.trans (by decide)⟩
  rw [trim_digits (isDigit_renderU64 _)] at hread
  have hsame : renderU64 ⟨port, port.isLt.trans (by decide)⟩ = renderU16 port := rfl
  rw [parseU16, ← hsame, hread]
  exact dif_pos port.isLt

theorem not_isWhitespace_of_isAlphanum (h : c.isAlphanum = true) : isWhitespace c = false := by
  have hrange {lo hi : UInt32} (hc : lo ≤ c.val ∧ c.val ≤ hi) : lo.toNat ≤ c.toNat ∧ c.toNat ≤ hi.toNat :=
    ⟨UInt32.le_iff_toNat_le.mp hc.1, UInt32.le_iff_toNat_le.mp hc.2⟩
  have hbounds : 48 ≤ c.toNat ∧ c.toNat ≤ 122 := by
    rcases Bool.or_eq_true_iff.mp h with halpha | hdigit
    · rcases Bool.or_eq_true_iff.mp halpha with hupper | hlower
      · have hupper : 65 ≤ c.toNat ∧ c.toNat ≤ 90 := hrange (of_decide_eq_true hupper)
        omega
      · obtain ⟨hlo, hhi⟩ := Bool.and_eq_true_iff.mp hlower
        have hlower : 97 ≤ c.toNat ∧ c.toNat ≤ 122 := hrange ⟨of_decide_eq_true hlo, of_decide_eq_true hhi⟩
        omega
    · obtain ⟨hlo, hhi⟩ : 48 ≤ c.toNat ∧ c.toNat ≤ 57 := Char.isDigit_iff_toNat.mp hdigit
      omega
  simp only [isWhitespace, Bool.or_eq_false_iff, Bool.and_eq_false_iff, decide_eq_false_iff_not, beq_eq_false_iff_ne]
  omega

/-- A character of a host is no blank and separates nothing. -/
theorem host_char (h : c.isAlphanum ∨ c = '.' ∨ c = '-' ∨ c = '_') :
    isWhitespace c = false ∧ c ∉ [':', '/', '?', '@', '['] := by
  constructor
  · rcases h with h | rfl | rfl | rfl
    · exact not_isWhitespace_of_isAlphanum h
    · rfl
    · rfl
    · rfl
  · intro hmem
    simp only [List.mem_cons, List.not_mem_nil, or_false] at hmem
    rcases hmem with rfl | rfl | rfl | rfl | rfl <;> revert h <;> decide

/-- A character of an address is no blank, and of what separates it is only the colon. -/
theorem address_char (hhost : IsHost host) (hc : c ∈ host ++ ':' :: renderU16 port) :
    isWhitespace c = false ∧ c ∉ ['/', '?', '@', '['] := by
  rcases List.mem_append.mp hc with hc | hc
  · obtain ⟨hblank, hnot⟩ := host_char (hhost.2 c hc)
    exact ⟨hblank, fun hmem => hnot (List.mem_cons_of_mem _ hmem)⟩
  · rcases List.mem_cons.mp hc with rfl | hc
    · exact ⟨rfl, by decide⟩
    · have halphanum : c.isAlphanum = true := by simp [Char.isAlphanum, isDigit_renderU16 port c hc]
      obtain ⟨hblank, hnot⟩ := host_char (.inl halphanum)
      exact ⟨hblank, fun hmem => hnot (List.mem_cons_of_mem _ hmem)⟩

theorem colon_not_mem_host (hhost : IsHost host) : ':' ∉ host := fun h =>
  (host_char (hhost.2 _ h)).2 List.mem_cons_self

theorem colon_not_mem_port (port : Port) : ':' ∉ renderU16 port := fun h => by
  have hdigit := isDigit_renderU16 port _ h
  revert hdigit
  decide

end

/-! ### URIs -/

section

variable {debug : List Char → String} {dsn scheme userinfo address tail host : List Char} {port : Port}

theorem uriMark_ne_nil : uriMark ≠ [] := by decide

theorem UriForm.splitOnce (h : UriForm dsn scheme userinfo address tail) :
    splitOnce uriMark dsn = some (scheme, userinfo ++ address ++ tail) :=
  (splitOnce_eq_some uriMark_ne_nil).mpr ⟨h.parts, h.first⟩

theorem UriForm.takeWhile (h : UriForm dsn scheme userinfo address tail) :
    (userinfo ++ address ++ tail).takeWhile (!endsAuthority ·) = userinfo ++ address := by
  have hall : ∀ c ∈ userinfo ++ address, (!endsAuthority c) = true := fun c hc => by rw [h.authority c hc]; rfl
  have htail : tail.takeWhile (!endsAuthority ·) = [] := by
    cases tail with
    | nil => rfl
    | cons c tail => simp [h.rest c rfl]
  rw [List.takeWhile_append_of_pos hall, htail, List.append_nil]

theorem UriForm.dropWhile (h : UriForm dsn scheme userinfo address tail) :
    (userinfo ++ address ++ tail).dropWhile (!endsAuthority ·) = tail := by
  have hsplit := List.takeWhile_append_dropWhile (p := (!endsAuthority ·)) (l := userinfo ++ address ++ tail)
  rw [h.takeWhile] at hsplit
  exact List.append_cancel_left hsplit

theorem UriForm.rsplitOnce (h : UriForm dsn scheme userinfo address tail) :
    userinfo = [] ∧ rsplitOnce '@' (userinfo ++ address) = none ∨
      rsplitOnce '@' (userinfo ++ address) = some (userinfo.dropLast, address) ∧ userinfo.dropLast ++ ['@'] = userinfo := by
  rcases h.user with rfl | huser
  · exact .inl ⟨rfl, rsplitOnce_eq_none.mpr (by simpa using h.host)⟩
  · have hlast : userinfo.dropLast ++ ['@'] = userinfo := List.dropLast_append_getLast? _ huser
    refine .inr ⟨rsplitOnce_eq_some.mpr ⟨?_, h.host⟩, hlast⟩
    rw [← List.singleton_append, ← List.append_assoc, hlast]

/-- A URI is read at its address. -/
theorem UriForm.postgresHostPort (h : UriForm dsn scheme userinfo address tail) :
    postgresHostPort debug dsn = uriAddress debug dsn address := by
  simp only [Duckspout.postgresHostPort, h.splitOnce, h.takeWhile]
  rcases h.rsplitOnce with ⟨rfl, hsplit⟩ | ⟨hsplit, -⟩
  · rw [hsplit]
    rfl
  · rw [hsplit]
    rfl

/-- A URI is rewritten at its address. -/
theorem UriForm.rewrite (h : UriForm dsn scheme userinfo address tail) : rewritePostgresHostPort debug dsn host port =
    .ok (scheme ++ uriMark ++ (userinfo ++ (host ++ ':' :: renderU16 port) ++ tail)) := by
  simp only [rewritePostgresHostPort, h.splitOnce, h.takeWhile, h.dropWhile]
  rcases h.rsplitOnce with ⟨rfl, hsplit⟩ | ⟨hsplit, hlast⟩
  · rw [hsplit]
    simp
  · rw [hsplit]
    simp only [Option.map_some, Option.getD_some, hlast, List.append_assoc]

theorem UriForm.moved (h : UriForm dsn scheme userinfo address tail) (hhost : IsHost host) (port : Port) :
    UriForm (scheme ++ uriMark ++ (userinfo ++ (host ++ ':' :: renderU16 port) ++ tail)) scheme userinfo
      (host ++ ':' :: renderU16 port) tail where
  parts := rfl
  plain := h.plain
  first := h.first
  user := h.user
  authority c hc := by
    rcases List.mem_append.mp hc with hc | hc
    · exact h.authority c (List.mem_append_left _ hc)
    · obtain ⟨-, hnot⟩ := address_char hhost hc
      simp only [List.mem_cons, not_or] at hnot
      simp [endsAuthority, hnot.1, hnot.2.1]
  host hat := (address_char hhost hat).2 (by decide)
  rest := h.rest

/-- A new address is read as it was written. -/
theorem uriAddress_moved (hhost : IsHost host) (port : Port) :
    uriAddress debug dsn (host ++ ':' :: renderU16 port) = .ok (host, port) := by
  have hbracket : (host ++ ':' :: renderU16 port).head? ≠ some '[' := fun h =>
    (address_char hhost (List.mem_of_mem_head? h)).2 (by decide)
  have hcolons : (host ++ ':' :: renderU16 port).count ':' = 1 := by
    rw [List.count_append, List.count_cons_self, List.count_eq_zero.mpr (colon_not_mem_host hhost),
      List.count_eq_zero.mpr (colon_not_mem_port port)]
  rw [uriAddress, if_neg (not_or.mpr ⟨hbracket, by omega⟩), rsplitOnce_eq_some.mpr ⟨rfl, colon_not_mem_port port⟩]
  simp [readPort, parseU16_renderU16, Except.map]

/-- The first mark of a URI ends its scheme. -/
theorem plain_of_isUri (h : IsUri dsn) {rest : List Char} (hsplit : Pieces.splitOnce uriMark dsn = some (scheme, rest)) :
    ∀ c ∈ scheme, c ≠ '=' ∧ isWhitespace c = false := by
  obtain ⟨before, behind, hdsn, hplain⟩ := h
  obtain ⟨hparts, hfirst⟩ := (splitOnce_eq_some uriMark_ne_nil).mp hsplit
  have hbefore : before ++ uriMark <+: dsn := ⟨behind, hdsn.symm⟩
  have hscheme : (scheme ++ uriMark).dropLast <+: dsn := (List.dropLast_prefix _).trans ⟨rest, hparts.symm⟩
  have hle : scheme.length ≤ before.length := by
    by_contra hlt
    refine hfirst (List.IsInfix.trans ⟨before, [], by simp⟩ (List.prefix_of_prefix_length_le hbefore hscheme ?_).isInfix)
    simp only [List.length_append, List.length_dropLast]
    omega
  have hstart : scheme <+: before := List.prefix_of_prefix_length_le ((List.prefix_append scheme _).trans ⟨rest, hparts.symm⟩)
    ((List.prefix_append before _).trans hbefore) hle
  exact fun c hc => hplain c (hstart.subset hc)

/-- Every URI has the parts of one. -/
theorem exists_uriForm (h : IsUri dsn) : ∃ scheme userinfo address tail, UriForm dsn scheme userinfo address tail := by
  have hmark : uriMark <:+: dsn := by
    obtain ⟨before, behind, hdsn, -⟩ := h
    exact ⟨before, behind, hdsn.symm⟩
  cases hsplit : Pieces.splitOnce uriMark dsn with
  | none => exact absurd hmark ((splitOnce_eq_none uriMark_ne_nil).mp hsplit)
  | some x =>
    obtain ⟨scheme, rest⟩ := x
    obtain ⟨hparts, hfirst⟩ := (splitOnce_eq_some uriMark_ne_nil).mp hsplit
    have hrest := List.takeWhile_append_dropWhile (p := (!endsAuthority ·)) (l := rest)
    have hauthority : ∀ c ∈ rest.takeWhile (!endsAuthority ·), endsAuthority c = false := fun c hc => by
      simpa using List.mem_takeWhile_imp hc
    have htail : ∀ c ∈ (rest.dropWhile (!endsAuthority ·)).head?, endsAuthority c = true := by
      intro c hc
      have hend := List.head?_dropWhile_not (!endsAuthority ·) rest
      rw [Option.mem_def.mp hc] at hend
      simpa using hend
    cases huser : Pieces.rsplitOnce '@' (rest.takeWhile (!endsAuthority ·)) with
    | none =>
      exact ⟨scheme, [], _, _, {
        parts := by rw [List.nil_append, hrest, hparts]
        plain := plain_of_isUri h hsplit
        first := hfirst
        user := .inl rfl
        authority := by simpa using hauthority
        host := rsplitOnce_eq_none.mp huser
        rest := htail }⟩
    | some y =>
      obtain ⟨user, address⟩ := y
      obtain ⟨hat, hhost⟩ := rsplitOnce_eq_some.mp huser
      have hboth : user ++ ['@'] ++ address = rest.takeWhile (!endsAuthority ·) := by rw [hat]; simp
      exact ⟨scheme, user ++ ['@'], address, _, {
        parts := by rw [hboth, hrest, hparts]
        plain := plain_of_isUri h hsplit
        first := hfirst
        user := .inr (by simp)
        authority := by rw [hboth]; exact hauthority
        host := hhost
        rest := htail }⟩

end

/-! ### Keyword DSNs -/

section

variable {debug : List Char → String} {dsn host : List Char} {port : Port} {pairs : List (List Char × List Char)}

theorem mapM_keywordPair {ts : List (List Char)} : ts.mapM (keywordPair debug dsn) = .ok pairs ↔
    ts = pairs.map renderPair ∧ ∀ pair ∈ pairs, '=' ∉ pair.1 := by
  induction ts generalizing pairs with
  | nil =>
    rw [List.mapM_nil]
    cases pairs with
    | nil => simp [pure, Except.pure]
    | cons pair pairs => simp [pure, Except.pure]
  | cons token ts ih =>
    have hpair {pair : List Char × List Char} :
        keywordPair debug dsn token = .ok pair ↔ token = renderPair pair ∧ '=' ∉ pair.1 := by
      rw [keywordPair, renderPair, ← splitOnce_singleton]
      cases Pieces.splitOnce ['='] token with
      | none => simp
      | some found => simp
    simp only [List.mapM_cons, Fallible.bind_eq_ok, hpair, ih]
    constructor
    · rintro ⟨pair, ⟨rfl, hkey⟩, rest, ⟨rfl, hkeys⟩, hpure⟩
      cases hpure
      exact ⟨rfl, List.forall_mem_cons.mpr ⟨hkey, hkeys⟩⟩
    · rintro ⟨heq, hkeys⟩
      cases pairs with
      | nil => cases heq
      | cons pair rest =>
        obtain ⟨rfl, rfl⟩ := List.cons.inj heq
        obtain ⟨hkey, hkeys⟩ := List.forall_mem_cons.mp hkeys
        exact ⟨pair, ⟨rfl, hkey⟩, rest, ⟨rfl, hkeys⟩, rfl⟩

theorem keywordTokens_eq_ok : keywordTokens debug dsn = .ok pairs ↔ pairs ≠ [] ∧
    tokens isWhitespace (dsn.drop (keywordPrefix dsn).length) = pairs.map renderPair ∧ ∀ pair ∈ pairs, '=' ∉ pair.1 := by
  simp only [keywordTokens, Fallible.bind_eq_ok, mapM_keywordPair]
  constructor
  · rintro ⟨found, ⟨htokens, hkeys⟩, h⟩
    split_ifs at h with hempty
    cases h
    exact ⟨hempty, htokens, hkeys⟩
  · rintro ⟨hempty, htokens, hkeys⟩
    exact ⟨pairs, ⟨htokens, hkeys⟩, if_neg hempty⟩

theorem KeywordForm.keywordTokens (h : KeywordForm dsn pairs) : keywordTokens debug dsn = .ok pairs :=
  keywordTokens_eq_ok.mpr ⟨h.nonempty, h.tokens, h.keys⟩

/-- A keyword DSN without a mark is read at its first host and its first port. -/
theorem KeywordForm.postgresHostPort (h : KeywordForm dsn pairs) (hmark : ¬ uriMark <:+: dsn)
    (hhost : keywordValue pairs "host".toList = some host) : postgresHostPort debug dsn =
      match keywordValue pairs "port".toList with
      | some port => (readPort debug dsn port).map fun port => (host, port)
      | none => .ok (host, defaultPort) := by
  simp only [Duckspout.postgresHostPort, (splitOnce_eq_none uriMark_ne_nil).mpr hmark,
    h.keywordTokens, bind, Except.bind, hhost]

/-- The pairs of a rewritten keyword DSN. -/
def movedPairs (pairs : List (List Char × List Char)) (host : List Char) (port : Port) : List (List Char × List Char) :=
  ("host".toList, host) :: ("port".toList, renderU16 port) :: pairs.filter isOther

/-- The text of a rewritten keyword DSN. -/
def movedText (start : List Char) (pairs : List (List Char × List Char)) (host : List Char) (port : Port) : List Char :=
  start ++ [' '].intercalate ((movedPairs pairs host port).map renderPair)

theorem KeywordForm.rewrite (h : KeywordForm dsn pairs) (hmark : ¬ uriMark <:+: dsn) :
    rewritePostgresHostPort debug dsn host port = .ok (movedText (keywordPrefix dsn) pairs host port) := by
  simp only [rewritePostgresHostPort, (splitOnce_eq_none uriMark_ne_nil).mpr hmark, h.keywordTokens, bind, Except.bind]
  rfl

theorem keywordPrefix_mem (dsn : List Char) :
    keywordPrefix dsn ∈ ["postgresql:".toList, "postgres:".toList, []] := by
  rw [keywordPrefix]
  cases hfind : ["postgresql:".toList, "postgres:".toList].find? fun start => decide (start <+: dsn) with
  | none => simp
  | some start => exact List.mem_append_left [[]] (List.mem_of_find?_eq_some hfind)

theorem keywordPrefix_starts (dsn : List Char) : keywordPrefix dsn <+: dsn := by
  rw [keywordPrefix]
  cases hfind : ["postgresql:".toList, "postgres:".toList].find? fun start => decide (start <+: dsn) with
  | none => exact List.nil_prefix
  | some start => simpa using List.find?_some hfind

theorem keywordPrefix_char : ∀ start ∈ ["postgresql:".toList, "postgres:".toList, []],
    ∀ c ∈ start, isWhitespace c = false ∧ c ≠ '/' := by
  have hlong : ∀ c ∈ "postgresql:".toList, isWhitespace c = false ∧ c ≠ '/' :=
    List.forall_iff_forall_mem.mp (by decide)
  have hshort : ∀ c ∈ "postgres:".toList, isWhitespace c = false ∧ c ≠ '/' :=
    List.forall_iff_forall_mem.mp (by decide)
  exact List.forall_mem_cons.mpr ⟨hlong, List.forall_mem_cons.mpr ⟨hshort, by simp⟩⟩

/-- The prefix ends where the first mark does, or before. -/
theorem keywordPrefix_length_le {scheme rest : List Char} (hparts : dsn = scheme ++ uriMark ++ rest) :
    (keywordPrefix dsn).length ≤ (scheme ++ uriMark).length := by
  by_contra hlt
  have hinside : scheme ++ uriMark <+: keywordPrefix dsn :=
    List.prefix_of_prefix_length_le ⟨rest, hparts.symm⟩ (keywordPrefix_starts dsn) (not_le.mp hlt).le
  have hslash : '/' ∈ keywordPrefix dsn := hinside.subset (List.mem_append_right _ (by decide))
  exact (keywordPrefix_char _ (keywordPrefix_mem dsn) _ hslash).2 rfl

/-- The new pairs are solid, and no character of a mark is in them. -/
theorem newPair_char (hhost : IsHost host) (port : Port) {pair : List Char × List Char}
    (h : pair = ("host".toList, host) ∨ pair = ("port".toList, renderU16 port)) :
    ∀ c ∈ renderPair pair, isWhitespace c = false ∧ c ≠ '/' ∧ c ≠ ':' := by
  have hplain {c : Char} (hc : c.isAlphanum ∨ c = '.' ∨ c = '-' ∨ c = '_') :
      isWhitespace c = false ∧ c ≠ '/' ∧ c ≠ ':' := by
    obtain ⟨hblank, hnot⟩ := host_char hc
    simp only [List.mem_cons, not_or] at hnot
    exact ⟨hblank, hnot.2.1, hnot.1⟩
  have hkey : ∀ c ∈ "host=".toList ++ "port=".toList, isWhitespace c = false ∧ c ≠ '/' ∧ c ≠ ':' :=
    List.forall_iff_forall_mem.mp (by decide)
  rcases h with rfl | rfl
  · change ∀ c ∈ "host=".toList ++ host, _
    refine List.forall_mem_append.mpr ⟨fun c hc => hkey c (List.mem_append_left _ hc), ?_⟩
    exact fun c hc => hplain (hhost.2 c hc)
  · change ∀ c ∈ "port=".toList ++ renderU16 port, _
    refine List.forall_mem_append.mpr ⟨fun c hc => hkey c (List.mem_append_right _ hc), ?_⟩
    exact fun c hc => hplain (.inl (by simp [Char.isAlphanum, isDigit_renderU16 port c hc]))

/-- The prefix stays where it is. -/
theorem keywordPrefix_moved : keywordPrefix (movedText (keywordPrefix dsn) pairs host port) = keywordPrefix dsn := by
  have hstart (start : List Char) (hmem : start ∈ ["postgresql:".toList, "postgres:".toList, []]) (rest : List Char) :
      keywordPrefix (start ++ 'h' :: rest) = start := by
    simp only [List.mem_cons, List.not_mem_nil, or_false] at hmem
    rcases hmem with rfl | rfl | rfl <;> simp [keywordPrefix, List.find?]
  exact hstart _ (keywordPrefix_mem dsn) _

theorem filter_movedPairs : (movedPairs pairs host port).filter isOther = pairs.filter isOther := by
  rw [movedPairs, List.filter_cons_of_neg (by simp [isOther]), List.filter_cons_of_neg (by simp [isOther]),
    List.filter_filter]
  simp only [Bool.and_self]

theorem movedPairs_moved {host' : List Char} {port' : Port} :
    movedPairs (movedPairs pairs host port) host' port' = movedPairs pairs host' port' := by
  rw [movedPairs, filter_movedPairs, movedPairs]

/-- The tokens of a rewritten keyword DSN, wherever its prefix is counted. -/
theorem tokens_moved (h : KeywordForm dsn pairs) (hhost : IsHost host) {start : List Char}
    (hstart : ∀ c ∈ start, isWhitespace c = false) : tokens isWhitespace (movedText start pairs host port) =
      (start ++ renderPair ("host".toList, host)) :: renderPair ("port".toList, renderU16 port) ::
        (pairs.filter isOther).map renderPair := by
  have htext : movedText start pairs host port = [' '].intercalate
      ((start ++ renderPair ("host".toList, host)) :: renderPair ("port".toList, renderU16 port) ::
        (pairs.filter isOther).map renderPair) := by
    simp [movedText, movedPairs, List.intercalate_cons_cons]
  rw [htext]
  refine tokens_intercalate rfl (List.forall_mem_cons.mpr ⟨⟨by simp [renderPair], ?_⟩,
    List.forall_mem_cons.mpr ⟨⟨by simp [renderPair], ?_⟩, ?_⟩⟩)
  · exact List.forall_mem_append.mpr ⟨hstart, fun c hc => (newPair_char hhost port (.inl rfl) c hc).1⟩
  · exact fun c hc => (newPair_char hhost port (.inr rfl) c hc).1
  · intro t ht
    have htoken := (List.filter_sublist.map renderPair).subset ht
    rw [← h.tokens] at htoken
    obtain ⟨pair, -, rfl⟩ := List.mem_map.mp ht
    exact ⟨by simp [renderPair], (infix_of_mem_tokens htoken).2⟩

/-- A rewritten keyword DSN has no mark where the DSN has none. -/
theorem mark_moved (h : KeywordForm dsn pairs) (hmark : ¬ uriMark <:+: dsn) (hhost : IsHost host) (port : Port) :
    ¬ uriMark <:+: movedText (keywordPrefix dsn) pairs host port := by
  have hstart := keywordPrefix_char _ (keywordPrefix_mem dsn)
  rintro ⟨before, behind, htext⟩
  have hsolid : ∀ c ∈ uriMark, isWhitespace c = false := List.forall_iff_forall_mem.mp (by decide)
  obtain ⟨t, ht, hin⟩ := exists_token before behind uriMark_ne_nil hsolid
  rw [htext, tokens_moved h hhost fun c hc => (hstart c hc).1] at ht
  have hslash : '/' ∈ t := hin.subset (by decide)
  rcases List.mem_cons.mp ht with rfl | ht
  · rcases List.mem_append.mp hslash with hmem | hmem
    · exact (hstart _ hmem).2 rfl
    · exact (newPair_char hhost port (.inl rfl) _ hmem).2.1 rfl
  · rcases List.mem_cons.mp ht with rfl | ht
    · exact (newPair_char hhost port (.inr rfl) _ hslash).2.1 rfl
    · have htoken := (List.filter_sublist.map renderPair).subset ht
      rw [← h.tokens] at htoken
      exact hmark (hin.trans ((infix_of_mem_tokens htoken).1.trans (List.drop_suffix _ _).isInfix))

/-- A rewritten keyword DSN is one, of the new pairs. -/
theorem keywordForm_moved (h : KeywordForm dsn pairs) (hmark : ¬ uriMark <:+: dsn) (hhost : IsHost host) (port : Port) :
    KeywordForm (movedText (keywordPrefix dsn) pairs host port) (movedPairs pairs host port) where
  notUri := by
    rintro ⟨before, behind, htext, -⟩
    exact mark_moved h hmark hhost port ⟨before, behind, htext.symm⟩
  nonempty := List.cons_ne_nil _ _
  tokens := by
    rw [keywordPrefix_moved, movedText, List.drop_left]
    have hblank : ∀ c ∈ ([] : List Char), isWhitespace c = false := by simp
    exact tokens_moved h hhost hblank
  keys := by
    have hnew : '=' ∉ "host".toList ∧ '=' ∉ "port".toList := by decide
    refine List.forall_mem_cons.mpr ⟨hnew.1, List.forall_mem_cons.mpr ⟨hnew.2, ?_⟩⟩
    exact fun pair hpair => h.keys pair (List.mem_of_mem_filter hpair)

theorem postgresHostPort_moved (h : KeywordForm dsn pairs) (hmark : ¬ uriMark <:+: dsn) (hhost : IsHost host) (port : Port) :
    postgresHostPort debug (movedText (keywordPrefix dsn) pairs host port) = .ok (host, port) := by
  have hform := keywordForm_moved h hmark hhost port
  have hhostValue : keywordValue (movedPairs pairs host port) "host".toList = some host := rfl
  have hportValue : keywordValue (movedPairs pairs host port) "port".toList = some (renderU16 port) := rfl
  rw [hform.postgresHostPort (mark_moved h hmark hhost port) hhostValue, hportValue]
  simp [readPort, parseU16_renderU16, Except.map]

end

/-! ### Where a DSN moves -/

section

variable {debug : List Char → String} {dsn : List Char}

/-- A URI moves. -/
theorem movesOnlyAddress_of_uri (huri : IsUri dsn) : MovesOnlyAddress debug dsn where
  keyword _ _ h := absurd huri h.notUri
  rewrite _ host port hhost := by
    obtain ⟨scheme, userinfo, address, tail, h⟩ := exists_uriForm huri
    refine ⟨_, h.rewrite, ?_, ⟨fun scheme' userinfo' address' tail' h' => ?_, fun _ h' => absurd huri h'.notUri⟩, ?_⟩
    · rw [(h.moved hhost port).postgresHostPort, uriAddress_moved hhost]
    · have hsame : rewritePostgresHostPort debug dsn host port = _ := h.rewrite
      rw [h'.rewrite, Except.ok.injEq] at hsame
      exact hsame ▸ h'.moved hhost port
    · intro host' port' _
      rw [(h.moved hhost port).rewrite, h.rewrite]

/-- A keyword DSN without a mark moves. -/
theorem movesOnlyAddress_of_keyword {pairs : List (List Char × List Char)} (h : KeywordForm dsn pairs)
    (hmark : ¬ uriMark <:+: dsn) : MovesOnlyAddress debug dsn where
  keyword pairs' host h' hnames := by
    rw [h'.postgresHostPort hmark hnames.1]
    cases hport : keywordValue pairs' "port".toList with
    | none => exact ⟨_, rfl⟩
    | some text =>
      obtain ⟨port, hparse⟩ := hnames.2 text hport
      exact ⟨port, by simp [readPort, hparse, Except.map]⟩
  rewrite _ host port hhost := by
    have hmoved := keywordForm_moved h hmark hhost port
    have hstay := mark_moved h hmark hhost port
    refine ⟨_, h.rewrite hmark, postgresHostPort_moved h hmark hhost port, ⟨?_, fun pairs' h' => ?_⟩, ?_⟩
    · intro scheme userinfo address tail huri
      exact absurd ⟨scheme, _, huri.parts.symm⟩ hmark
    · have htokens : keywordTokens debug dsn = .ok pairs := h.keywordTokens
      have hsame : pairs' = pairs := Except.ok.inj (h'.keywordTokens.symm.trans htokens)
      refine ⟨keywordPrefix_moved, _, hmoved, hsame ▸ filter_movedPairs, ?_⟩
      have hne : "host".toList ≠ "port".toList := by decide
      refine List.forall_mem_cons.mpr ⟨⟨fun _ => rfl, fun hkey => absurd hkey hne⟩,
        List.forall_mem_cons.mpr ⟨⟨fun hkey => absurd hkey hne.symm, fun _ => rfl⟩, fun pair hpair => ?_⟩⟩
      have hother := List.of_mem_filter hpair
      simp only [isOther, decide_eq_true_eq] at hother
      exact ⟨fun hkey => absurd hkey hother.1, fun hkey => absurd hkey hother.2⟩
    · intro host' port' _
      rw [hmoved.rewrite hstay, h.rewrite hmark, keywordPrefix_moved, movedText, movedPairs_moved, movedText]

/-- A keyword DSN with a mark does not move: an address longer than the DSN ends up inside a token that is none of its
    pairs. -/
theorem not_movesOnlyAddress {pairs : List (List Char × List Char)} (h : KeywordForm dsn pairs)
    (hmark : uriMark <:+: dsn) (haccepted : IsAccepted debug dsn) : ¬ MovesOnlyAddress debug dsn := by
  intro hmoves
  have hhost : IsHost (List.replicate (dsn.length + 1) 'a') :=
    ⟨by simp, fun c hc => .inl ((List.mem_replicate.mp hc).2 ▸ by decide)⟩
  generalize hlong : List.replicate (dsn.length + 1) 'a' = host at hhost
  have hlength : dsn.length < host.length := by simp [← hlong]
  obtain ⟨rewritten, hrewrite, -, hkeeps, -⟩ := hmoves.rewrite haccepted host 0 hhost
  obtain ⟨hstart, pairs', hform, hothers, haddress⟩ := hkeeps.keyword pairs h
  -- the address lands behind the first mark
  cases hsplit : Pieces.splitOnce uriMark dsn with
  | none => exact absurd hmark ((splitOnce_eq_none uriMark_ne_nil).mp hsplit)
  | some x =>
    obtain ⟨scheme, rest⟩ := x
    obtain ⟨hparts, -⟩ := (splitOnce_eq_some uriMark_ne_nil).mp hsplit
    obtain ⟨userinfo, tail, htext⟩ : ∃ userinfo tail,
        rewritten = scheme ++ uriMark ++ userinfo ++ (host ++ ':' :: renderU16 0) ++ tail := by
      simp only [rewritePostgresHostPort, hsplit] at hrewrite
      exact ⟨_, _, (Except.ok.inj hrewrite).symm⟩
    have hbody : rewritten.drop (keywordPrefix rewritten).length =
        (scheme ++ uriMark).drop (keywordPrefix dsn).length ++ userinfo ++ (host ++ ':' :: renderU16 0) ++ tail := by
      rw [hstart, htext, List.append_assoc, List.append_assoc,
        List.drop_append_of_le_length (keywordPrefix_length_le hparts)]
      simp only [List.append_assoc]
    have hsolid : ∀ c ∈ host ++ ':' :: renderU16 0, isWhitespace c = false := fun c hc => (address_char hhost hc).1
    obtain ⟨t, ht, hin⟩ :=
      exists_token ((scheme ++ uriMark).drop (keywordPrefix dsn).length ++ userinfo) tail (by simp) hsolid
    rw [← hbody, hform.tokens] at ht
    obtain ⟨pair, hpair, rfl⟩ := List.mem_map.mp ht
    have hcolon : ':' ∈ renderPair pair := hin.subset (by simp)
    by_cases hother : isOther pair = true
    · -- a pair that was kept is too short for the address
      have hold : pair ∈ pairs.filter isOther := hothers ▸ List.mem_filter.mpr ⟨hpair, hother⟩
      have htoken : renderPair pair ∈ tokens isWhitespace (dsn.drop (keywordPrefix dsn).length) :=
        h.tokens ▸ List.mem_map_of_mem (List.mem_of_mem_filter hold)
      have hshort := ((infix_of_mem_tokens htoken).1.trans (List.drop_suffix _ _).isInfix).length_le
      have hlarge := hin.length_le
      rw [List.length_append] at hlarge
      omega
    · -- a new keyword has no colon
      have hnew : pair = ("host".toList, host) ∨ pair = ("port".toList, renderU16 0) := by
        rw [isOther, decide_eq_true_eq, not_and_or, not_not, not_not] at hother
        obtain ⟨hh, hp⟩ := haddress pair hpair
        rcases hother with hkey | hkey
        · exact .inl (Prod.ext hkey (hh hkey))
        · exact .inr (Prod.ext hkey (hp hkey))
      exact (newPair_char hhost 0 hnew _ hcolon).2.2 rfl

/-- An accepted URI, or a keyword DSN that is accepted or names its address. -/
def Addressed (debug : List Char → String) (dsn : List Char) : Prop :=
  (IsUri dsn ∧ IsAccepted debug dsn) ∨
    ∃ pairs, KeywordForm dsn pairs ∧ (IsAccepted debug dsn ∨ ∃ host, NamesAddress pairs host)

/-- **A rewrite moves only the address, except of a keyword DSN with `://` in it.** -/
theorem dsn_moves_iff (debug : List Char → String) (dsn : List Char) (h : Addressed debug dsn) :
    MovesOnlyAddress debug dsn ↔ ¬ ((∃ pairs, KeywordForm dsn pairs) ∧ uriMark <:+: dsn) := by
  constructor
  · rintro hmoves ⟨⟨pairs, hform⟩, hmark⟩
    refine not_movesOnlyAddress hform hmark ?_ hmoves
    rcases h with ⟨-, haccepted⟩ | ⟨pairs', hform', haccepted | ⟨host, hnames⟩⟩
    · exact haccepted
    · exact haccepted
    · obtain ⟨port, hread⟩ := hmoves.keyword pairs' host hform' hnames
      exact ⟨_, hread⟩
  · intro hnot
    rcases h with ⟨huri, -⟩ | ⟨pairs, hform, -⟩
    · exact movesOnlyAddress_of_uri huri
    · exact movesOnlyAddress_of_keyword hform fun hmark => hnot ⟨⟨pairs, hform⟩, hmark⟩

end

def composeDsn : List Char := "postgres://duckspout@127.0.0.1:5432/duckspout_catalog?sslmode=disable".toList

theorem dsn_moves_iff_compose : MovesOnlyAddress String.ofList composeDsn := by
  have huri : IsUri composeDsn := ⟨"postgres".toList,
    "duckspout@127.0.0.1:5432/duckspout_catalog?sslmode=disable".toList, by decide, List.forall_iff_forall_mem.mp (by decide)⟩
  have haccepted : IsAccepted String.ofList composeDsn := ⟨("127.0.0.1".toList, 5432), by decide +kernel⟩
  exact (dsn_moves_iff String.ofList composeDsn (.inl ⟨huri, haccepted⟩)).mpr fun ⟨⟨_, hform⟩, _⟩ => hform.notUri huri

def passwordDsn : List Char := "host=db password=a://b".toList

/-- The password is read for the address, and rewritten. -/
theorem password_taken_for_address :
    KeywordForm passwordDsn [("host".toList, "db".toList), ("password".toList, "a://b".toList)] ∧
    postgresHostPort String.ofList passwordDsn = .ok ("b".toList, 5432) ∧
    rewritePostgresHostPort String.ofList passwordDsn "127.0.0.1".toList 34567 =
      .ok "host=db password=a://127.0.0.1:34567".toList ∧
    ¬ MovesOnlyAddress String.ofList passwordDsn := by
  have hsplit : Pieces.splitOnce uriMark passwordDsn = some ("host=db password=a".toList, "b".toList) := by
    decide +kernel
  have hform : KeywordForm passwordDsn [("host".toList, "db".toList), ("password".toList, "a://b".toList)] :=
    { notUri := fun huri => (plain_of_isUri huri hsplit '=' (by decide)).1 rfl
      nonempty := List.cons_ne_nil _ _
      tokens := by decide +kernel
      keys := by decide }
  have hread : postgresHostPort String.ofList passwordDsn = .ok ("b".toList, 5432) := by decide +kernel
  refine ⟨hform, hread, by decide +kernel, fun hmoves => ?_⟩
  have hnoPort : keywordValue [("host".toList, "db".toList), ("password".toList, "a://b".toList)] "port".toList = none := by
    decide
  obtain ⟨port, hport⟩ := hmoves.keyword _ "db".toList hform
    ⟨by decide, fun text htext => by cases hnoPort.symm.trans htext⟩
  rw [hread] at hport
  exact absurd (Prod.mk.inj (Except.ok.inj hport)).1 (by decide)

end Duckspout
