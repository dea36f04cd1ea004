import IronHarness.Lib.Lines
import IronHarness.Lib.Literal

/-!
# The host allowlist

`parse_allowed_hosts`, `HostAllowlist` and the host gate of `AccessPolicy` (io_core/policy.py), on the text of
`IRONHARNESS_ALLOWED_HOSTS` as it stands in the environment, where a byte that is no UTF-8 is a lone surrogate.  The
tables of Unicode that `casefold`, `isdigit` and `int` read are a parameter.  The gate passes a pair exactly when a
part of the text names it (`checkHost_iff`), and a part that can name no pair makes the parsing fail.
-/

namespace IronHarness.Policy

open PyLiteral (PyStr CodePoint ofChar char?)

/-! ### Strings -/

def colon : CodePoint := ofChar ':'

def comma : CodePoint := ofChar ','

/-- `str.isspace` of one code point; no surrogate is white space. -/
def isSpace (c : CodePoint) : Bool := (char? c).any TextLines.isSpace

/-- `not text.strip()` -/
def isBlank (text : PyStr) : Bool := text.all isSpace

/-- `text.strip()` -/
def strip (text : PyStr) : PyStr := (text.dropWhile isSpace).rdropWhile isSpace

/-- What the interpreter knows about code points: the full case folding, the digits of `isdigit`, the values of those
that `int` takes, and the number of digits at which `int` gives up. -/
structure Unicode where
  casefold : CodePoint → PyStr
  isDigit : CodePoint → Bool
  decimal : CodePoint → Option Nat
  maxStrDigits : Nat

variable (u : Unicode)

/-- `text.casefold()` -/
def Unicode.fold (text : PyStr) : PyStr := text.flatMap u.casefold

/-- `text.isdigit()` -/
def Unicode.isdigit (text : PyStr) : Bool := !text.isEmpty && text.all u.isDigit

/-- `int(text)` of digits, `none` where it raises. -/
def Unicode.int (text : PyStr) : Option Nat :=
  if u.maxStrDigits < text.length then none
  else text.foldlM (fun n c => (u.decimal c).map (10 * n + ·)) 0

/-- `text.rpartition(":")` -/
def rpartition (text : PyStr) : PyStr × Bool × PyStr :=
  if colon ∈ text then ((text.rdropWhile (· != colon)).dropLast, true, text.rtakeWhile (· != colon))
  else ([], false, text)

/-! ### Parsing -/

/-- The `ValueError`s, with the part they quote. -/
inductive ParseError where
  /-- "IRONHARNESS_ALLOWED_HOSTS: IPv6 literals are not supported (got …); use an IPv4 address or a hostname" -/
  | ipv6 (part : PyStr)
  /-- "invalid port in IRONHARNESS_ALLOWED_HOSTS entry …" -/
  | port (part : PyStr)
  /-- `int` on digits that are no decimals, or on too many of them. -/
  | int (digits : PyStr)
  deriving DecidableEq, Repr

abbrev Entry := PyStr × Option Nat

/-- What the loop does with one part of the text. -/
def parsePart (part : PyStr) : Except ParseError (Option Entry) :=
  let part := strip part
  if part.isEmpty then .ok none
  else if 1 < part.count colon then .error (.ipv6 part)
  else
    let (host, sep, port) := rpartition part
    if !sep then .ok (some (u.fold part, none))
    else if !u.isdigit port then .error (.port part)
    else match u.int port with
      | none => .error (.int port)
      | some n => .ok (some (u.fold (strip host), some n))

/-- The loop over the parts. -/
def parseParts : List PyStr → Except ParseError (List Entry)
  | [] => .ok []
  | part :: parts => do
    let entry ← parsePart u part
    let entries ← parseParts parts
    return entry.toList ++ entries

/-- `(raw or "").split(",")` -/
def parts (raw : Option PyStr) : List PyStr := (raw.getD []).splitOn comma

def parseAllowedHosts (raw : Option PyStr) : Except ParseError (List Entry) := parseParts u (parts raw)

/-! ### The gate -/

structure HostAllowlist where
  entries : List Entry

def HostAllowlist.parse (raw : Option PyStr) : Except ParseError HostAllowlist :=
  (parseAllowedHosts u raw).map HostAllowlist.mk

def HostAllowlist.restricted (hosts : HostAllowlist) : Bool := !hosts.entries.isEmpty

def HostAllowlist.allows (hosts : HostAllowlist) (host : PyStr) (port : Int) : Bool :=
  let key := u.fold host
  hosts.entries.any fun (h, p) => h == key && (p.isNone || p.map Int.ofNat == some port)

/-- The details of the denial: what the event and the exception tell. -/
structure PolicyViolation where
  rule : String
  host : PyStr
  port : Int

/-- `AccessPolicy.check_host`: the outcome and the events on the hook. -/
def checkHost (hosts : HostAllowlist) (host : PyStr) (port : Int) :
    Except PolicyViolation Unit × List PolicyViolation :=
  if !hosts.restricted || hosts.allows u host port then (.ok (), [])
  else
    let details := ⟨"allowed_hosts", host, port⟩
    (.error details, [details])

/-- `AccessPolicy.from_env` and then its gate: an error of the parsing comes before any connection. -/
def gate (raw : Option PyStr) (host : PyStr) (port : Int) :
    Except ParseError (Except PolicyViolation Unit × List PolicyViolation) :=
  (HostAllowlist.parse u raw).map fun hosts => checkHost u hosts host port

/-! ### What a part names -/

/-- A text that `isdigit` and `int` take, and its value. -/
def Unicode.Numeral (digits : PyStr) (n : Nat) : Prop := u.isdigit digits = true ∧ u.int digits = some n

/-- The part is the host, or the host, a colon and the port; white space around the part and around the host in it
does not count, nor does case. -/
def Names (part host : PyStr) (port : Int) : Prop :=
  (colon ∉ strip part ∧ u.fold (strip part) = u.fold host) ∨
    ∃ before digits n, strip part = before ++ colon :: digits ∧ u.fold (strip before) = u.fold host ∧
      u.Numeral digits n ∧ (n : Int) = port

/-- Several colons, or something else than a numeral behind a colon. -/
def Malformed (part : PyStr) : Prop :=
  1 < part.count colon ∨ ∃ before digits, strip part = before ++ colon :: digits ∧ ∀ n, ¬ u.Numeral digits n

private theorem strip_eq_nil_iff (text : PyStr) : strip text = [] ↔ isBlank text = true := by
  rw [strip, List.rdropWhile_eq_nil_iff, isBlank, List.all_eq_true]
  constructor
  · intro h
    have hnil : text.dropWhile isSpace = [] := by
      by_contra hne
      have hhead := List.head_dropWhile_not isSpace hne
      have hspace := h _ (List.head_mem hne)
      simp [hhead] at hspace
    exact List.dropWhile_eq_nil_iff.1 hnil
  · intro h c hc
    exact h c (List.dropWhile_subset _ hc)

/-- White space holds no colon. -/
private theorem count_strip (text : PyStr) : (strip text).count colon = text.count colon := by
  have hspace : ∀ c, isSpace c = true → c ≠ colon := by
    rintro _ h rfl
    revert h
    decide
  have hfront : (text.dropWhile isSpace).count colon = text.count colon := by
    conv => rhs; rw [← List.takeWhile_append_dropWhile (p := isSpace) (l := text), List.count_append]
    have hnone : colon ∉ text.takeWhile isSpace := fun hmem => hspace colon (List.mem_takeWhile_imp hmem) rfl
    rw [List.count_eq_zero_of_not_mem hnone, Nat.zero_add]
  have hback : ∀ text : PyStr, (text.rdropWhile isSpace).count colon = text.count colon := by
    intro text
    conv => rhs; rw [← List.rdropWhile_append_rtakeWhile (p := isSpace) (l := text), List.count_append]
    have hnone : colon ∉ text.rtakeWhile isSpace := fun hmem => hspace colon (List.mem_rtakeWhile_imp hmem) rfl
    rw [List.count_eq_zero_of_not_mem hnone, Nat.add_zero]
  rw [strip, hback, hfront]

private theorem rpartition_colon {before port : PyStr} (h : colon ∉ port) :
    rpartition (before ++ colon :: port) = (before, true, port) := by
  have hall : ∀ c ∈ port.reverse, (c != colon) = true := by
    intro c hc
    simp only [bne_iff_ne, ne_eq]
    rintro rfl
    exact h (List.mem_reverse.1 hc)
  rw [rpartition, if_pos (by simp)]
  have htake : (before ++ colon :: port).rtakeWhile (· != colon) = port := by
    rw [List.rtakeWhile, List.reverse_append, List.reverse_cons, List.append_assoc,
      List.takeWhile_append_of_pos hall]
    simp
  have hdrop : (before ++ colon :: port).rdropWhile (· != colon) = before ++ [colon] := by
    rw [List.rdropWhile, List.reverse_append, List.reverse_cons, List.append_assoc,
      List.dropWhile_append_of_pos hall]
    simp
  rw [htake, hdrop, List.dropLast_concat]

/-! ### One part -/

section Part

variable {u} {part : PyStr}

/-- Behind the test of the colons the text splits in one way. -/
private theorem split_colon {text before port : PyStr} (h : text = before ++ colon :: port)
    (hcount : text.count colon ≤ 1) : colon ∉ before ∧ colon ∉ port := by
  subst h
  rw [List.count_append, List.count_cons_self] at hcount
  exact ⟨List.count_eq_zero.1 (by omega), List.count_eq_zero.1 (by omega)⟩

private theorem parsePart_blank (h : isBlank part = true) : parsePart u part = .ok none := by
  rw [parsePart, (strip_eq_nil_iff part).2 h]
  rfl

private theorem parsePart_several (h : 1 < part.count colon) : parsePart u part = .error (.ipv6 (strip part)) := by
  have hne : strip part ≠ [] := by
    intro hnil
    rw [← count_strip, hnil] at h
    simp at h
  simp [parsePart, hne, count_strip, h]

private theorem parsePart_bare (hne : isBlank part ≠ true) (h : colon ∉ strip part) :
    parsePart u part = .ok (some (u.fold (strip part), none)) := by
  have hnil : strip part ≠ [] := fun hnil => hne ((strip_eq_nil_iff part).1 hnil)
  have hcount : (strip part).count colon = 0 := List.count_eq_zero.2 h
  simp [parsePart, hnil, hcount, rpartition, h]

private theorem parsePart_colon {before port : PyStr} (h : strip part = before ++ colon :: port)
    (hcount : part.count colon ≤ 1) :
    parsePart u part =
      if !u.isdigit port then .error (.port (strip part))
      else match u.int port with
        | none => .error (.int port)
        | some n => .ok (some (u.fold (strip before), some n)) := by
  rw [← count_strip] at hcount
  have hsplit : rpartition (before ++ colon :: port) = (before, true, port) := rpartition_colon (split_colon h hcount).2
  have hfew : ¬ 1 < (strip part).count colon := by omega
  have hne : (strip part).isEmpty = false := by simp [h]
  rw [← h] at hsplit
  simp only [parsePart, hne, hfew, hsplit, Bool.false_eq_true, if_false, Bool.not_true]

/-- A malformed part raises. -/
private theorem parsePart_malformed (h : Malformed u part) : ∃ e, parsePart u part = .error e := by
  by_cases hcount : 1 < part.count colon
  · exact ⟨_, parsePart_several hcount⟩
  · obtain hcount' | ⟨before, port, hpart, hnone⟩ := h
    · exact absurd hcount' hcount
    · rw [parsePart_colon hpart (Nat.not_lt.1 hcount)]
      by_cases hdigit : u.isdigit port = true
      · cases hint : u.int port with
        | none => exact ⟨.int port, by simp [hdigit]⟩
        | some n => exact absurd ⟨hdigit, hint⟩ (hnone n)
      · exact ⟨.port (strip part), by simp [hdigit]⟩

/-- The entry lets a pair pass. -/
def Entry.Passes (u : Unicode) (e : Entry) (host : PyStr) (port : Int) : Prop :=
  e.1 = u.fold host ∧ ∀ p ∈ e.2, (p : Int) = port

private theorem passes_bare_iff (h : colon ∉ strip part) (host : PyStr) (port : Int) :
    Entry.Passes u (u.fold (strip part), none) host port ↔ Names u part host port := by
  constructor
  · rintro ⟨hkey, _⟩
    exact .inl ⟨h, hkey⟩
  · rintro (⟨_, hkey⟩ | ⟨before, digits, n, hpart, _⟩)
    · exact ⟨hkey, fun q hq => by cases hq⟩
    · exact absurd (by simp [hpart]) h

private theorem passes_colon_iff {before digits : PyStr} {n : Nat} (h : strip part = before ++ colon :: digits)
    (hcount : part.count colon ≤ 1) (hnumeral : u.Numeral digits n) (host : PyStr) (port : Int) :
    Entry.Passes u (u.fold (strip before), some n) host port ↔ Names u part host port := by
  constructor
  · rintro ⟨hkey, hp⟩
    exact .inr ⟨before, digits, n, h, hkey, hnumeral, hp n rfl⟩
  · rintro (⟨hno, _⟩ | ⟨before', digits', n', h', hkey, ⟨_, hint'⟩, hp⟩)
    · exact absurd (by simp [h]) hno
    · -- the colon is the only one, so both are cut there
      have hone : (strip part).count colon ≤ 1 := by rwa [count_strip]
      have hsplit : rpartition (strip part) = (before, true, digits) := by
        rw [h, rpartition_colon (split_colon h hone).2]
      have hsplit' : rpartition (strip part) = (before', true, digits') := by
        rw [h', rpartition_colon (split_colon h' hone).2]
      rw [hsplit] at hsplit'
      simp only [Prod.mk.injEq, true_and] at hsplit'
      obtain ⟨rfl, rfl⟩ := hsplit'
      rw [hnumeral.2] at hint'
      cases hint'
      exact ⟨hkey, fun q hq => by cases hq; exact hp⟩

/-- A part that is read skips exactly when it is blank; else its entry lets the pairs pass that it names. -/
private theorem parsePart_ok {entry : Option Entry} (h : parsePart u part = .ok entry) :
    (entry = none ∧ isBlank part = true) ∨
      ∃ e, entry = some e ∧ isBlank part ≠ true ∧
        ∀ host port, Entry.Passes u e host port ↔ Names u part host port := by
  by_cases hblank : isBlank part = true
  · rw [parsePart_blank hblank] at h
    cases h
    exact .inl ⟨rfl, hblank⟩
  right
  -- what is read is not malformed
  have hcount : part.count colon ≤ 1 := by
    by_contra hcount
    rw [parsePart_several (by omega)] at h
    cases h
  by_cases hcolon : colon ∈ strip part
  · obtain ⟨before, digits, hpart⟩ := List.append_of_mem hcolon
    obtain ⟨n, hnumeral⟩ : ∃ n, u.Numeral digits n := by
      by_contra hnone
      have hbad : Malformed u part := .inr ⟨before, digits, hpart, fun n hn => hnone ⟨n, hn⟩⟩
      obtain ⟨e, he⟩ := parsePart_malformed hbad
      rw [he] at h
      cases h
    rw [parsePart_colon hpart hcount] at h
    simp only [hnumeral.1, Bool.not_true, Bool.false_eq_true, if_false, hnumeral.2] at h
    cases h
    exact ⟨_, rfl, hblank, passes_colon_iff hpart hcount hnumeral⟩
  · rw [parsePart_bare hblank hcolon] at h
    cases h
    exact ⟨_, rfl, hblank, passes_bare_iff hcolon⟩

end Part

/-! ### The loop -/

variable {u}

private theorem parseParts_cons {part : PyStr} {parts : List PyStr} {entries : List Entry}
    (h : parseParts u (part :: parts) = .ok entries) :
    ∃ entry later, parsePart u part = .ok entry ∧ parseParts u parts = .ok later ∧
      entries = entry.toList ++ later := by
  rw [parseParts] at h
  cases hpart : parsePart u part with
  | error e =>
    rw [hpart] at h
    cases h
  | ok entry =>
    rw [hpart] at h
    cases hlater : parseParts u parts with
    | error e =>
      rw [hlater] at h
      cases h
    | ok later =>
      rw [hlater] at h
      cases h
      exact ⟨entry, later, rfl, rfl, rfl⟩

private theorem parseParts_blank {parts : List PyStr} (h : ∀ part ∈ parts, isBlank part = true) :
    parseParts u parts = .ok [] := by
  induction parts with
  | nil => rfl
  | cons part parts ih =>
    rw [parseParts, parsePart_blank (h part List.mem_cons_self), ih fun p hp => h p (List.mem_cons_of_mem part hp)]
    rfl

/-- The entries of a text that parses let the pairs pass that its parts name. -/
private theorem parseParts_ok {parts : List PyStr} {entries : List Entry} (h : parseParts u parts = .ok entries)
    (host : PyStr) (port : Int) :
    (∃ e ∈ entries, Entry.Passes u e host port) ↔
      ∃ part ∈ parts, isBlank part ≠ true ∧ Names u part host port := by
  induction parts generalizing entries with
  | nil =>
    cases h
    simp
  | cons part parts ih =>
    obtain ⟨entry, later, hpart, hlater, rfl⟩ := parseParts_cons h
    have hrest := ih hlater
    obtain ⟨rfl, hblank⟩ | ⟨e, rfl, hne, hnames⟩ := parsePart_ok hpart
    · simp [hrest, hblank]
    · simp [hrest, hnames, hne]

private theorem parseParts_ne_nil {parts : List PyStr} {entries : List Entry} (h : parseParts u parts = .ok entries)
    {part : PyStr} (hmem : part ∈ parts) (hne : isBlank part ≠ true) : entries ≠ [] := by
  induction parts generalizing entries with
  | nil => cases hmem
  | cons first parts ih =>
    obtain ⟨entry, later, hfirst, hlater, rfl⟩ := parseParts_cons h
    obtain ⟨rfl, hblank⟩ | ⟨e, rfl, _, _⟩ := parsePart_ok hfirst
    · obtain rfl | hmem := List.mem_cons.1 hmem
      · exact absurd hblank hne
      · exact ih hlater hmem
    · simp

private theorem parseParts_malformed {parts : List PyStr} {part : PyStr} (hmem : part ∈ parts)
    (h : Malformed u part) : ∃ e, parseParts u parts = .error e := by
  cases hparse : parseParts u parts with
  | error e => exact ⟨e, rfl⟩
  | ok entries =>
    induction parts generalizing entries with
    | nil => cases hmem
    | cons first parts ih =>
      obtain ⟨entry, later, hfirst, hlater, _⟩ := parseParts_cons hparse
      obtain rfl | hmem := List.mem_cons.1 hmem
      · obtain ⟨e, he⟩ := parsePart_malformed h
        rw [he] at hfirst
        cases hfirst
      · obtain ⟨e, he⟩ := ih hmem later hlater
        cases he

/-! ### The gate -/

private theorem allows_iff (hosts : HostAllowlist) (host : PyStr) (port : Int) :
    hosts.allows u host port = true ↔ ∃ e ∈ hosts.entries, Entry.Passes u e host port := by
  rw [HostAllowlist.allows, List.any_eq_true]
  refine exists_congr fun ⟨h, p⟩ => and_congr_right fun _ => ?_
  cases p <;> simp [Entry.Passes]

private theorem checkHost_ok_iff (hosts : HostAllowlist) (host : PyStr) (port : Int) :
    (checkHost u hosts host port).1 = .ok () ↔ hosts.entries = [] ∨ hosts.allows u host port = true := by
  unfold checkHost HostAllowlist.restricted
  by_cases hempty : hosts.entries = []
  · simp [hempty]
  · by_cases hallows : hosts.allows u host port = true <;> simp [hempty, hallows]

/-- A denial is told to the hook before it is raised, and nothing else is told. -/
theorem checkHost_events (hosts : HostAllowlist) (host : PyStr) (port : Int) :
    (checkHost u hosts host port).2 = match (checkHost u hosts host port).1 with
      | .ok _ => []
      | .error details => [details] := by
  unfold checkHost
  split <;> rfl

theorem gate_error {raw : Option PyStr} {e : ParseError} (h : parseAllowedHosts u raw = .error e)
    (host : PyStr) (port : Int) : gate u raw host port = .error e := by
  rw [gate, HostAllowlist.parse, h]
  rfl

theorem gate_ok {raw : Option PyStr} {entries : List Entry} (h : parseAllowedHosts u raw = .ok entries)
    (host : PyStr) (port : Int) : gate u raw host port = .ok (checkHost u ⟨entries⟩ host port) := by
  rw [gate, HostAllowlist.parse, h]
  rfl

/-- A text without a part lets every pair pass; one with a part that raises no error lets a pair pass when a part
names it; a malformed part always raises. -/
theorem checkHost_iff (u : Unicode) (raw : Option PyStr) :
    ((∀ part ∈ parts raw, isBlank part = true) →
      ∀ host port, ∃ events, gate u raw host port = .ok (.ok (), events)) ∧
    ((∃ part ∈ parts raw, isBlank part ≠ true) →
      (∃ e, ∀ host port, gate u raw host port = .error e) ∨
      ∀ host port, ∃ outcome events, gate u raw host port = .ok (outcome, events) ∧
        (outcome = .ok () ↔ ∃ part ∈ parts raw, isBlank part ≠ true ∧ Names u part host port)) ∧
    ((∃ part ∈ parts raw, Malformed u part) → ∃ e, ∀ host port, gate u raw host port = .error e) := by
  refine ⟨fun hblank host port => ?_, fun ⟨part, hmem, hne⟩ => ?_, fun ⟨part, hmem, hbad⟩ => ?_⟩
  · have hparse : parseAllowedHosts u raw = .ok [] := parseParts_blank hblank
    exact ⟨[], gate_ok hparse host port⟩
  · cases hparse : parseAllowedHosts u raw with
    | error e => exact .inl ⟨e, gate_error hparse⟩
    | ok entries =>
      right
      intro host port
      have hentries : entries ≠ [] := parseParts_ne_nil hparse hmem hne
      refine ⟨(checkHost u ⟨entries⟩ host port).1, _, gate_ok hparse host port, ?_⟩
      rw [checkHost_ok_iff, allows_iff, or_iff_right hentries, parseParts_ok hparse]
  · obtain ⟨e, he⟩ := parseParts_malformed hmem hbad
    exact ⟨e, gate_error he⟩

/-! An entry with a colon names a host and a port: the very text of it as a host is denied. -/

/-- The tables on the ASCII characters. -/
def ascii : Unicode where
  casefold c := [((char? c).map fun ch => ofChar ch.toLower).getD c]
  isDigit c := (char? c).any Char.isDigit
  decimal c := (char? c).bind fun ch => if ch.isDigit then some (ch.toNat - '0'.toNat) else none
  maxStrDigits := 4300

def points (text : String) : PyStr := text.toList.map ofChar

theorem pair_as_host_denied :
    (∃ part ∈ parts (some (points "plc:502")), ascii.fold (strip part) = ascii.fold (points "plc:502")) ∧
      gate ascii (some (points "plc:502")) (points "plc:502") 502 =
        .ok (.error ⟨"allowed_hosts", points "plc:502", 502⟩, [⟨"allowed_hosts", points "plc:502", 502⟩]) := by
  constructor
  · exact ⟨points "plc:502", by decide, by decide⟩
  · have hparse : parseAllowedHosts ascii (some (points "plc:502")) = .ok [(points "plc", some 502)] := by decide
    exact gate_ok hparse _ _

end IronHarness.Policy
