import IronHarness.Lib.Hex
import IronHarness.Lib.Lines
import IronHarness.Lib.Utf8Stream
import IronHarness.Runner.Log

/-!
# The backup of main.py

`RealRepl.boot` up to the command that removes main.py, with `_backup_main` and `_pump` (ironbench/realhw.py).  The
output of the board is cut by the reads in any way; it is retained up to `MAX_SERIAL_TEXT` characters, behind which a
marker of the harness stands in the same text.  A board that answers the probe honestly loses its main.py without a
correct backup exactly where its answer does not fit into what is retained (`wiped_was_saved_iff`): the marker starts
with a newline, which ends the line that was cut off (`cut_answer_is_saved`).
-/

namespace IronHarness.Runner

open ByteText TextLines

/-! ### The driver -/

/-- What the driver retains, what its decoder holds back, and what the board is still going to send, read by read. -/
structure RealRepl where
  text : List Char
  truncated : Bool
  dec : Bytes
  coming : List Bytes

namespace RealRepl

/-- What `_pump` makes of the data of one read. -/
def ingest (r : RealRepl) (data : Bytes) : RealRepl :=
  if maxSerialText ≤ r.text.length then
    if r.truncated then r else { r with truncated := true, text := r.text ++ truncationMarker }
  else { r with text := r.text ++ (feed (r.dec ++ data)).1, dec := (feed (r.dec ++ data)).2 }

/-- `_pump`, at a moment where the data of `n` reads is waiting. -/
def pump : Nat → RealRepl → RealRepl
  | 0, r => r
  | n + 1, r =>
    match r.coming with
    | [] => r
    | data :: rest =>
      if data = [] then { r with coming := rest } else pump n (ingest { r with coming := rest } data)

/-- `_drain`: at most `n` pumps, until one of them brings nothing. -/
def drain : Nat → List Nat → RealRepl → RealRepl
  | 0, _, r => r
  | _ + 1, [], r => r
  | n + 1, waiting :: later, r =>
    if (r.pump waiting).text.length = r.text.length then r.pump waiting else drain n later (r.pump waiting)

end RealRepl

/-! ### The probe -/

def savedMark : List Char := "IH-BACKUP ".toList

def absentMark : List Char := "IH-BACKUP-ABSENT".toList

/-- What the text behind the probe says. -/
inductive Answer
  | absent
  | saved (data : Bytes)
  | waiting
  deriving DecidableEq

def parseAnswer (text : List Char) : Answer :=
  if (find absentMark text).isSome then .absent
  else
    match find savedMark text with
    | none => .waiting
    | some idx =>
      let rest := text.drop (idx + savedMark.length)
      match find ['\n'] rest with
      | none => .waiting
      | some nl =>
        match fromHex (strip (rest.take nl)) with
        | none => .waiting
        | some data => .saved data

def probeQuietSec : ℚ := 2

def probeTotalCap : ℚ := 10

def probeMaxBytes : Nat := 256 * 1024

/-- One pass of the loop: the clock at its head, the reads that are waiting for each pump of its drain, and the clock
behind the drain. -/
structure Pass where
  now : ℚ
  waiting : List Nat
  later : ℚ

inductive Status
  | saved (data : Bytes)
  | absent
  | unknown
  deriving DecidableEq

/-- The loop of `_backup_main`; `none` where the link fails, behind the last pass. -/
def probeLoop (mark : Nat) (started : ℚ) : List Pass → ℚ → RealRepl → Option Status
  | [], _, _ => none
  | pass :: passes, deadline, r =>
    if deadline ≤ pass.now then some .unknown
    else
      let r' := r.drain 6 pass.waiting
      let deadline' :=
        if r.text.length < r'.text.length ∧ r'.text.length - mark < probeMaxBytes then
          min (pass.later + probeQuietSec) (started + probeTotalCap)
        else deadline
      match parseAnswer (r'.text.drop mark) with
      | .absent => some .absent
      | .saved data => some (.saved data)
      | .waiting => probeLoop mark started passes deadline' r'

/-! ### Up to the removal -/

/-- The clock and the reads of a run, and whether main.py.backup can be written; `left` is what a failed write leaves. -/
structure Staging where
  settle : List Nat
  started : ℚ
  passes : List Pass
  writable : Bool
  left : Option Bytes

def interruptKeys : Bytes := [3, 3]

def probeLines : List Bytes :=
  ["import binascii, os\r\n",
    "print('IH-BACK' + 'UP', binascii.hexlify(open('main.py', 'rb').read()).decode()) if 'main.py' in os.listdir() else print('IH-BACK' + 'UP-ABSENT')\r\n"].map
    fun line => encode line.toList

def removeMain : Bytes := encode "import os; os.remove('main.py') if 'main.py' in os.listdir() else None\r\n".toList

/-- What `boot` has written to the board when REMOVE_MAIN is written or an exception is raised before it, and what
main.py.backup then holds. -/
structure Wipe where
  written : List Bytes
  backup : Option Bytes

/-- `boot` with a backup_dir, where main.py.backup holds `old`. -/
def boot (old : Option Bytes) (s : Staging) (r : RealRepl) : Wipe :=
  let r := r.drain 6 s.settle
  let written := interruptKeys :: probeLines
  match probeLoop r.text.length s.started s.passes (s.started + probeQuietSec) r with
  | none => ⟨written, old⟩
  | some .unknown => ⟨written, old⟩
  | some .absent => ⟨written ++ [removeMain], old⟩
  | some (.saved data) => if s.writable then ⟨written ++ [removeMain], some data⟩ else ⟨written, s.left⟩

/-! ### What is retained -/

/-- What is retained of the reads, from a text of `size` characters on. -/
def retained : Nat → Bytes → List Bytes → List Char
  | _, _, [] => []
  | size, held, data :: rest =>
    if data = [] then retained size held rest
    else if maxSerialText ≤ size then []
    else (feed (held ++ data)).1 ++ retained (size + (feed (held ++ data)).1.length) (feed (held ++ data)).2 rest

/-- The text of all the board is going to send. -/
def RealRepl.future (r : RealRepl) : List Char := (feed (r.dec ++ r.coming.flatten)).1

/-- What of it will be retained. -/
def RealRepl.kept (r : RealRepl) : List Char := retained r.text.length r.dec r.coming

private theorem retained_full {size : Nat} (h : maxSerialText ≤ size) (held : Bytes) (coming : List Bytes) :
    retained size held coming = [] := by
  induction coming with
  | nil => rfl
  | cons data rest ih =>
    by_cases hdata : data = []
    · rw [retained, if_pos hdata, ih]
    · rw [retained, if_neg hdata, if_pos h]

private theorem retained_prefix_of (size : Nat) (held : Bytes) (coming : List Bytes) :
    retained size held coming <+: (feed (held ++ coming.flatten)).1 := by
  induction coming generalizing size held with
  | nil => exact List.nil_prefix
  | cons data rest ih =>
    rw [List.flatten_cons, ← List.append_assoc, feed_append]
    by_cases hdata : data = []
    · have hskip := ih size held
      rwa [retained, if_pos hdata, ← feed_append, hdata, List.append_nil]
    · by_cases hfull : maxSerialText ≤ size
      · rw [retained_full hfull]
        exact List.nil_prefix
      · rw [retained, if_neg hdata, if_neg hfull]
        exact (List.prefix_append_right_inj _).2 (ih _ _)

private theorem RealRepl.kept_prefix (r : RealRepl) : r.kept <+: r.future := retained_prefix_of _ _ _

/-- The text behind the probe is what was retained of the output, with nothing or the marker behind it; `r` is the
driver when the probe starts, `r'` later. -/
structure Heard (r r' : RealRepl) (heard : List Char) : Prop where
  kept : heard ++ r'.kept = r.kept
  text : r'.text = r.text ++ heard ∨
    r'.text = r.text ++ heard ++ truncationMarker ∧ r'.truncated = true ∧ maxSerialText ≤ r'.text.length

theorem Heard.refl (r : RealRepl) : Heard r r [] := ⟨rfl, Or.inl (by simp)⟩

theorem Heard.ingest {r r' : RealRepl} {heard : List Char} {data : Bytes} {rest : List Bytes} (h : Heard r r' heard)
    (hcoming : r'.coming = data :: rest) (hdata : data ≠ []) :
    ∃ heard', Heard r (RealRepl.ingest { r' with coming := rest } data) heard' := by
  have hkept := h.kept
  unfold RealRepl.kept at hkept
  rw [hcoming, retained, if_neg hdata] at hkept
  unfold RealRepl.ingest
  by_cases hfull : maxSerialText ≤ r'.text.length
  · rw [if_pos hfull, List.append_nil] at hkept
    simp only [if_pos hfull]
    by_cases htruncated : r'.truncated = true
    · rw [if_pos htruncated]
      refine ⟨heard, ?_, h.text⟩
      show heard ++ retained r'.text.length r'.dec rest = r.kept
      rw [retained_full hfull, List.append_nil]
      exact hkept
    · rw [if_neg htruncated]
      have hlong : maxSerialText ≤ (r'.text ++ truncationMarker).length := by
        rw [List.length_append]
        omega
      refine ⟨heard, ?_, ?_⟩
      · show heard ++ retained (r'.text ++ truncationMarker).length r'.dec rest = r.kept
        rw [retained_full hlong, List.append_nil]
        exact hkept
      · rcases h.text with htext | ⟨-, htext, -⟩
        · exact Or.inr ⟨by rw [htext], rfl, hlong⟩
        · exact absurd htext htruncated
  · rw [if_neg hfull] at hkept
    simp only [if_neg hfull]
    rcases h.text with htext | ⟨-, -, hlong⟩
    · refine ⟨heard ++ (feed (r'.dec ++ data)).1, ?_, Or.inl (by simp [htext])⟩
      show heard ++ (feed (r'.dec ++ data)).1 ++ retained (r'.text ++ (feed (r'.dec ++ data)).1).length _ rest = r.kept
      rw [List.length_append, List.append_assoc]
      exact hkept
    · exact absurd hlong hfull

theorem Heard.pump {r r' : RealRepl} {heard : List Char} (h : Heard r r' heard) (n : Nat) :
    ∃ heard', Heard r (r'.pump n) heard' := by
  induction n generalizing r' heard with
  | zero => exact ⟨heard, h⟩
  | succ n ih =>
    unfold RealRepl.pump
    cases hcoming : r'.coming with
    | nil => exact ⟨heard, h⟩
    | cons data rest =>
      by_cases hdata : data = []
      · simp only [if_pos hdata]
        have hkept := h.kept
        unfold RealRepl.kept at hkept
        rw [hcoming, retained, if_pos hdata] at hkept
        exact ⟨heard, hkept, h.text⟩
      · simp only [if_neg hdata]
        obtain ⟨heard', h'⟩ := h.ingest hcoming hdata
        exact ih h'

theorem Heard.drain {r r' : RealRepl} {heard : List Char} (h : Heard r r' heard) (n : Nat) (waiting : List Nat) :
    ∃ heard', Heard r (r'.drain n waiting) heard' := by
  induction n generalizing r' heard waiting with
  | zero => exact ⟨heard, h⟩
  | succ n ih =>
    cases waiting with
    | nil => exact ⟨heard, h⟩
    | cons now later =>
      obtain ⟨heard', h'⟩ := h.pump now
      unfold RealRepl.drain
      split
      · exact ⟨heard', h'⟩
      · exact ih h' later

/-- The text behind the probe. -/
theorem Heard.behind {r r' : RealRepl} {heard : List Char} (h : Heard r r' heard) :
    r'.text.drop r.text.length = heard ∨
      r'.text.drop r.text.length = heard ++ truncationMarker ∧ heard = r.kept := by
  rcases h.text with htext | ⟨htext, -, hfull⟩
  · left
    rw [htext, List.drop_left]
  · right
    rw [htext, List.append_assoc, List.drop_left]
    have hkept := h.kept
    unfold RealRepl.kept at hkept
    rw [retained_full hfull, List.append_nil] at hkept
    exact ⟨rfl, hkept⟩

private theorem Heard.heard_prefix {r r' : RealRepl} {heard : List Char} (h : Heard r r' heard) : heard <+: r.kept := by
  rw [← h.kept]
  exact List.prefix_append _ _

/-- What the probe loop answers, it has read off the text behind the probe. -/
private theorem Heard.probeLoop {r r' : RealRepl} {heard : List Char} (h : Heard r r' heard) {started deadline : ℚ}
    {passes : List Pass} {status : Status} (hstatus : status ≠ .unknown)
    (hloop : probeLoop r.text.length started passes deadline r' = some status) :
    ∃ r'' heard', Heard r r'' heard' ∧ ((status = .absent ∧ parseAnswer (r''.text.drop r.text.length) = .absent) ∨
      ∃ data, status = .saved data ∧ parseAnswer (r''.text.drop r.text.length) = .saved data) := by
  induction passes generalizing r' heard deadline with
  | nil => simp [Runner.probeLoop] at hloop
  | cons pass passes ih =>
    obtain ⟨heard', h'⟩ := h.drain 6 pass.waiting
    unfold Runner.probeLoop at hloop
    split at hloop
    · exact absurd (Option.some.inj hloop).symm hstatus
    · dsimp only at hloop
      split at hloop
      · rename_i hanswer
        exact ⟨_, heard', h', Or.inl ⟨(Option.some.inj hloop).symm, hanswer⟩⟩
      · rename_i data hanswer
        exact ⟨_, heard', h', Or.inr ⟨data, (Option.some.inj hloop).symm, hanswer⟩⟩
      · exact ih h' hloop

/-! ### The answer of an honest board -/

/-- All that the board sends behind the probe answers for a main.py with the bytes `data`, or for none. -/
inductive Answers (text : List Char) : Option Bytes → Prop
  | absent (hmark : find savedMark text = none) (habsent : (find absentMark text).isSome) : Answers text none
  | present {data : Bytes} {before eol after : List Char}
      (htext : text = before ++ savedMark ++ (hex data ++ (eol ++ '\n' :: after))) (heol : eol = [] ∨ eol = ['\r'])
      (hfirst : find savedMark text = some before.length) (hpresent : find absentMark text = none) :
      Answers text (some data)

/-- The digits of main.py are within what is retained. -/
def HexRetained (main : Option Bytes) (text kept : List Char) : Prop :=
  ∀ data pos, main = some data → find savedMark text = some pos →
    pos + savedMark.length + 2 * data.length ≤ kept.length

section

variable {data out : Bytes} {eol after rest : List Char}

private theorem hex_not_space {c : Char} (h : c ∈ hex data) : isSpace c = false := by
  have hdigit : ∀ n, n < 16 → isSpace (Nat.digitChar n) = false := by decide
  obtain ⟨b, -, hc⟩ := List.mem_flatMap.1 h
  have hb := b.toNat_lt
  rcases List.mem_pair.1 hc with rfl | rfl
  · exact hdigit _ (by omega)
  · exact hdigit _ (by omega)

private theorem newline_notin_hex (heol : eol = [] ∨ eol = ['\r']) : '\n' ∉ hex data ++ eol := by
  intro hmem
  rcases List.mem_append.1 hmem with hmem | hmem
  · exact absurd (hex_not_space hmem) (by decide)
  · rcases heol with rfl | rfl
    · simp at hmem
    · simp at hmem

private theorem fromHex_line (heol : eol = [] ∨ eol = ['\r']) : fromHex (strip (hex data ++ eol)) = some data := by
  have hstrip : strip (hex data ++ eol) = hex data := by
    have hself : strip (hex data) = hex data := strip_eq_self fun c hc => hex_not_space hc
    rcases heol with rfl | rfl
    · rw [List.append_nil, hself]
    · rw [strip_concat (by decide), hself]
  rw [hstrip, fromHex_hex]

/-- A line that the board has ended is the whole answer. -/
private theorem line_complete (heol : eol = [] ∨ eol = ['\r']) (hrest : rest <+: hex data ++ (eol ++ '\n' :: after))
    {nl : Nat}
    (hnl : find ['\n'] rest = some nl) : fromHex (strip (rest.take nl)) = some data ∧ 2 * data.length ≤ nl := by
  rw [← List.append_assoc] at hrest
  obtain ⟨more, hmore⟩ := hrest
  have hwhole := find_append hnl more
  rw [hmore, find_singleton_append (newline_notin_hex heol)] at hwhole
  have hline : rest.take nl = hex data ++ eol := by
    have hle := (find_eq_some hnl).2
    have htake : (rest ++ more).take nl = rest.take nl := List.take_append_of_le_length (by omega)
    rw [← htake, hmore, ← Option.some.inj hwhole, List.take_left]
  have hlength : (hex data ++ eol).length = nl := Option.some.inj hwhole
  rw [hline]
  refine ⟨fromHex_line heol, ?_⟩
  rw [List.length_append, length_hex] at hlength
  omega

/-- What is left of the answer when it is cut off gives the bytes of main.py only if no digit is missing. -/
private theorem line_cut (heol : eol = [] ∨ eol = ['\r']) (hrest : rest <+: hex data ++ (eol ++ '\n' :: after))
    (hopen : '\n' ∉ rest) (hout : fromHex (strip rest) = some out) : out = data ↔ 2 * data.length ≤ rest.length := by
  have hfront : rest <+: hex data ++ eol := by
    rw [← List.append_assoc] at hrest
    by_cases hle : rest.length ≤ (hex data ++ eol).length
    · exact List.prefix_of_prefix_length_le hrest (List.prefix_append ..) hle
    · have hlong : hex data ++ eol ++ ['\n'] <+: rest := by
        apply List.prefix_of_prefix_length_le _ hrest
        · rw [List.length_append, List.length_singleton]
          omega
        · rw [← List.singleton_append (x := '\n') (l := after), ← List.append_assoc]
          exact List.prefix_append _ after
      exact absurd (hlong.subset (by simp)) hopen
  by_cases hall : 2 * data.length ≤ rest.length
  · have hline : ∃ eol', rest = hex data ++ eol' ∧ (eol' = [] ∨ eol' = ['\r']) := by
      obtain ⟨eol', rfl⟩ : hex data <+: rest :=
        List.prefix_of_prefix_length_le (List.prefix_append _ eol) hfront (by rwa [length_hex])
      have htail := (List.prefix_append_right_inj _).1 hfront
      rcases heol with rfl | rfl
      · exact ⟨[], by rw [List.prefix_nil.1 htail], Or.inl rfl⟩
      · exact ⟨eol', rfl, by simpa [List.prefix_cons_iff, or_comm] using htail⟩
    obtain ⟨eol', rfl, heol'⟩ := hline
    rw [fromHex_line heol'] at hout
    exact ⟨fun _ => hall, fun _ => (Option.some.inj hout).symm⟩
  · have hdigits : rest = (hex data).take rest.length := by
      have hprefix : rest <+: hex data :=
        List.prefix_of_prefix_length_le hfront (List.prefix_append ..) (by rw [length_hex]; omega)
      exact List.prefix_iff_eq_take.1 hprefix
    have hself : strip rest = rest := by
      apply strip_eq_self
      intro c hc
      rw [hdigits] at hc
      exact hex_not_space (List.mem_of_mem_take hc)
    rw [hself, hdigits] at hout
    have hless := fromHex_take_hex (by omega) hout
    constructor
    · rintro rfl
      omega
    · intro hle
      exact absurd hle hall

end

section

variable {r r' : RealRepl} {heard : List Char} {data out : Bytes}

private theorem savedMark_notin_marker : find savedMark truncationMarker.tail = none := by decide +kernel

private theorem absentMark_notin_marker : find absentMark truncationMarker.tail = none := by decide +kernel

/-- The marker of the harness is no answer. -/
private theorem Heard.find_mark (h : Heard r r' heard) {mark : List Char} (hmark : '\n' ∉ mark)
    (hnone : find mark truncationMarker.tail = none) :
    find mark (r'.text.drop r.text.length) = find mark heard := by
  rcases h.behind with hbehind | ⟨hbehind, -⟩
  · rw [hbehind]
  · rw [hbehind, show truncationMarker = '\n' :: truncationMarker.tail from rfl]
    exact find_break hmark hnone

private theorem Heard.not_absent (h : Heard r r' heard) (hpresent : find absentMark r.future = none) :
    parseAnswer (r'.text.drop r.text.length) ≠ .absent := by
  have hheard : find absentMark heard = none := by
    by_contra hfound
    obtain ⟨pos, hpos⟩ := Option.ne_none_iff_exists'.1 hfound
    obtain ⟨more, hmore⟩ := h.heard_prefix.trans r.kept_prefix
    have hwhole := find_append hpos more
    rw [hmore, hpresent] at hwhole
    cases hwhole
  unfold parseAnswer
  rw [h.find_mark (by decide) absentMark_notin_marker, hheard, Option.isSome_none, if_neg Bool.false_ne_true]
  split
  · simp
  · dsimp only
    split
    · simp
    · split <;> simp

private theorem parseAnswer_saved {text : List Char} (h : parseAnswer text = .saved out) :
    ∃ idx nl, find savedMark text = some idx ∧ find ['\n'] (text.drop (idx + savedMark.length)) = some nl ∧
      fromHex (strip ((text.drop (idx + savedMark.length)).take nl)) = some out := by
  unfold parseAnswer at h
  split at h
  · cases h
  · split at h
    · cases h
    · rename_i idx hidx
      dsimp only at h
      split at h
      · cases h
      · rename_i nl hnl
        split at h
        · cases h
        · rename_i bytes hbytes
          obtain rfl : bytes = out := by simpa using h
          exact ⟨idx, nl, hidx, hnl, hbytes⟩

/-- What is saved is main.py exactly if all its digits are retained. -/
private theorem Heard.saved_iff (h : Heard r r' heard) (hhonest : Answers r.future (some data))
    (hsaved : parseAnswer (r'.text.drop r.text.length) = .saved out) :
    out = data ↔ HexRetained (some data) r.future r.kept := by
  obtain ⟨idx, nl, hidx, hnl, hout⟩ := parseAnswer_saved hsaved
  rw [h.find_mark (by decide) savedMark_notin_marker] at hidx
  obtain ⟨-, hle⟩ := find_eq_some hidx
  obtain ⟨more, hmore⟩ := h.heard_prefix.trans r.kept_prefix
  have hshorter := h.heard_prefix.length_le
  cases hhonest with
  | @present _ before eol after htext heol hfirst hpresent =>
    have hbefore : idx = before.length := by
      have hwhole := find_append hidx more
      rw [hmore, hfirst] at hwhole
      exact (Option.some.inj hwhole).symm
    have hrest : heard.drop (idx + savedMark.length) <+: hex data ++ (eol ++ '\n' :: after) := by
      have hdrop : r.future.drop (idx + savedMark.length) = hex data ++ (eol ++ '\n' :: after) := by
        rw [htext, hbefore, ← List.length_append, List.drop_left]
      rw [← hdrop, ← hmore, List.drop_append_of_le_length hle]
      exact List.prefix_append _ _
    have hcondition : HexRetained (some data) r.future r.kept ↔
        idx + savedMark.length + 2 * data.length ≤ r.kept.length := by
      constructor
      · intro hall
        exact hall data idx rfl (by rw [hfirst, hbefore])
      · intro hall data' pos hmain hpos
        rw [hfirst, ← hbefore] at hpos
        rwa [← Option.some.inj hpos, ← Option.some.inj hmain]
    rw [hcondition]
    -- the newline that ends the line is one of the board, or the first character of the marker
    have hcomplete : ∀ nl', find ['\n'] (heard.drop (idx + savedMark.length)) = some nl' →
        fromHex (strip ((heard.drop (idx + savedMark.length)).take nl')) = some out →
        (out = data ↔ idx + savedMark.length + 2 * data.length ≤ r.kept.length) := by
      intro nl' hnl' hout'
      obtain ⟨hline, hlength⟩ := line_complete heol hrest hnl'
      obtain ⟨-, hin⟩ := find_eq_some hnl'
      rw [List.length_drop] at hin
      have hdata : out = data := Option.some.inj (hout'.symm.trans hline)
      have hroom : idx + savedMark.length + 2 * data.length ≤ r.kept.length := by
        simp only [List.length_singleton] at hin
        omega
      exact iff_of_true hdata hroom
    rcases h.behind with hbehind | ⟨hbehind, hall⟩
    · rw [hbehind] at hnl hout
      exact hcomplete nl hnl hout
    · rw [hbehind, List.drop_append_of_le_length hle] at hnl hout
      by_cases hopen : '\n' ∈ heard.drop (idx + savedMark.length)
      · cases hnl' : find ['\n'] (heard.drop (idx + savedMark.length)) with
        | none => exact absurd hopen (find_singleton_eq_none.1 hnl')
        | some nl' =>
          have hsame := find_append hnl' truncationMarker
          rw [hsame] at hnl
          obtain rfl : nl' = nl := Option.some.inj hnl
          have hin := (find_eq_some hnl').2
          rw [List.take_append_of_le_length (by omega)] at hout
          exact hcomplete nl' hnl' hout
      · rw [show truncationMarker = '\n' :: truncationMarker.tail from rfl, find_singleton_append hopen] at hnl
        rw [← Option.some.inj hnl, List.take_left] at hout
        rw [line_cut heol hrest hopen hout, List.length_drop, ← hall]
        omega

end

/-! ### A wiped main.py was saved -/

private theorem removeMain_notin_probe : removeMain ∉ interruptKeys :: probeLines := by
  have hkeys : interruptKeys = encode "\x03\x03".toList := rfl
  simp only [hkeys, probeLines, removeMain, List.map_cons, List.map_nil, List.mem_cons, List.not_mem_nil, encode_inj,
    String.toList_inj]
  decide +kernel

private theorem boot_saved {old : Option Bytes} {s : Staging} {r : RealRepl} {data : Bytes}
    (hwritable : s.writable = true)
    (hloop : probeLoop (r.drain 6 s.settle).text.length s.started s.passes (s.started + probeQuietSec)
      (r.drain 6 s.settle) = some (.saved data)) :
    boot old s r = ⟨interruptKeys :: probeLines ++ [removeMain], some data⟩ := by
  unfold boot
  dsimp only
  rw [hloop]
  exact if_pos hwritable

/-- The board is wiped behind a probe that found no main.py, or that found one and saved it. -/
private theorem boot_wipes {old : Option Bytes} {s : Staging} {r : RealRepl} (h : removeMain ∈ (boot old s r).written) :
    ∃ r' heard, Heard (r.drain 6 s.settle) r' heard ∧
      (parseAnswer (r'.text.drop (r.drain 6 s.settle).text.length) = .absent ∨
        ∃ out, parseAnswer (r'.text.drop (r.drain 6 s.settle).text.length) = .saved out ∧
          (boot old s r).backup = some out) := by
  unfold boot at h ⊢
  dsimp only at h ⊢
  split at h
  · exact absurd h removeMain_notin_probe
  · exact absurd h removeMain_notin_probe
  · rename_i hloop
    obtain ⟨r', heard, hheard, ⟨-, habsent⟩ | ⟨_, hstatus, -⟩⟩ := (Heard.refl _).probeLoop (by simp) hloop
    · exact ⟨r', heard, hheard, Or.inl habsent⟩
    · cases hstatus
  · rename_i out hloop
    obtain ⟨r', heard, hheard, ⟨hstatus, -⟩ | ⟨_, hstatus, hsaved⟩⟩ := (Heard.refl _).probeLoop (by simp) hloop
    · cases hstatus
    · obtain rfl := Status.saved.inj hstatus
      split at h
      · rename_i hwritable
        exact ⟨r', heard, hheard, Or.inr ⟨out, hsaved, by rw [if_pos hwritable]⟩⟩
      · exact absurd h removeMain_notin_probe

/-- In every run that writes REMOVE_MAIN to an honest board, main.py did not exist or is what main.py.backup holds,
exactly if no digit of it was discarded. -/
theorem wiped_was_saved_iff {main old : Option Bytes} {s : Staging} {r : RealRepl}
    (hhonest : Answers (r.drain 6 s.settle).future main) (hwiped : removeMain ∈ (boot old s r).written) :
    (main = none ∨ (boot old s r).backup = main) ↔
      HexRetained main (r.drain 6 s.settle).future (r.drain 6 s.settle).kept := by
  cases main with
  | none =>
    constructor
    · intro _ data pos hmain
      cases hmain
    · intro _
      exact Or.inl rfl
  | some data =>
    obtain ⟨r', heard, h, habsent | ⟨out, hsaved, hbackup⟩⟩ := boot_wipes hwiped
    · cases hhonest with
      | present _ _ _ hpresent => exact absurd habsent (h.not_absent hpresent)
    · rw [hbackup, ← h.saved_iff hhonest hsaved]
      simp

/-- What the board sends is retained as a whole where it fits below the cap. -/
private theorem retained_all {size : Nat} {held : Bytes} {coming : List Bytes} (hheld : feed held = ([], held))
    (hfits : size + (feed (held ++ coming.flatten)).1.length < maxSerialText) :
    retained size held coming = (feed (held ++ coming.flatten)).1 := by
  induction coming generalizing size held with
  | nil => simp [retained, hheld]
  | cons data rest ih =>
    rw [List.flatten_cons, ← List.append_assoc] at hfits ⊢
    by_cases hdata : data = []
    · rw [hdata, List.append_nil] at hfits ⊢
      rw [retained, if_pos rfl, ih hheld hfits]
    · rw [feed_append (held ++ data), List.length_append] at hfits
      rw [retained, if_neg hdata, if_neg (by omega), feed_append (held ++ data), ih (feed_held _) (by omega)]

/-- An answer that fits below the cap is retained. -/
theorem Answers.hexRetained {r : RealRepl} {main : Option Bytes} (h : Answers r.future main)
    (hheld : feed r.dec = ([], r.dec)) (hfits : r.text.length + r.future.length < maxSerialText) :
    HexRetained main r.future r.kept := by
  have hkept : r.kept = r.future := retained_all hheld hfits
  intro data pos hmain hpos
  cases h with
  | absent => cases hmain
  | present htext heol hfirst =>
    rw [hfirst] at hpos
    rw [hkept, htext, ← Option.some.inj hpos, ← Option.some.inj hmain]
    simp only [List.length_append, length_hex]
    omega

/-- A board with a main.py of one byte, whose answer comes in two reads. -/
def letterBoard : RealRepl := ⟨[], false, [], ["IH-BACKUP 6".toList, "1\r\n>>> ".toList].map encode⟩

def letterMain : Bytes := [0x61]

def twoPasses : Staging := ⟨[], 0, [⟨0, [1], 1⟩, ⟨1, [1], 2⟩], true, none⟩

theorem wiped_was_saved_letter :
    removeMain ∈ (boot none twoPasses letterBoard).written ∧
      (boot none twoPasses letterBoard).backup = some letterMain ∧
      ((some letterMain = none ∨ (boot none twoPasses letterBoard).backup = some letterMain) ↔
        HexRetained (some letterMain) letterBoard.future letterBoard.kept) := by
  have hboot : boot none twoPasses letterBoard = ⟨interruptKeys :: probeLines ++ [removeMain], some letterMain⟩ :=
    boot_saved rfl (by decide +kernel)
  have hwiped : removeMain ∈ (boot none twoPasses letterBoard).written := by
    rw [hboot]
    simp
  have htext : letterBoard.future = [] ++ savedMark ++ (hex letterMain ++ (['\r'] ++ '\n' :: ">>> ".toList)) := by
    decide +kernel
  have hhonest : Answers (letterBoard.drain 6 twoPasses.settle).future (some letterMain) :=
    Answers.present htext (Or.inr rfl) (by decide +kernel) (by decide +kernel)
  exact ⟨hwiped, by rw [hboot], wiped_was_saved_iff hhonest hwiped⟩

/-- A driver that has retained `text`; the answer for a main.py of two bytes comes in two reads. -/
def cutBoard (text : List Char) : RealRepl :=
  ⟨text, false, [], ["IH-BACKUP 61".toList, "62\r\n>>> ".toList].map encode⟩

def cutMain : Bytes := [0x61, 0x62]

def twoReads : Staging := ⟨[], 0, [⟨0, [2], 1⟩], true, none⟩

private theorem cutBoard_answers (text : List Char) : Answers (cutBoard text).future (some cutMain) := by
  have htext : (cutBoard text).future = [] ++ savedMark ++ (hex cutMain ++ (['\r'] ++ '\n' :: ">>> ".toList)) := by
    show (cutBoard []).future = _
    decide +kernel
  exact Answers.present htext (Or.inr rfl) (by rw [htext]; decide +kernel) (by rw [htext]; decide +kernel)

private theorem cutBoard_drain {text : List Char} (h : text.length + 1 = maxSerialText) :
    ((cutBoard text).drain 6 [2]).text = text ++ ("IH-BACKUP 61".toList ++ truncationMarker) := by
  have hfeed : feed ([] ++ encode "IH-BACKUP 61".toList) = ("IH-BACKUP 61".toList, []) := by decide +kernel
  have hlong : maxSerialText ≤ (text ++ "IH-BACKUP 61".toList).length := by
    rw [List.length_append, show "IH-BACKUP 61".toList.length = 12 from rfl]
    omega
  have hfirst : ∀ coming, RealRepl.ingest ⟨text, false, [], coming⟩ (encode "IH-BACKUP 61".toList) =
      ⟨text ++ "IH-BACKUP 61".toList, false, [], coming⟩ := by
    intro coming
    simp only [RealRepl.ingest, if_neg (show ¬ maxSerialText ≤ text.length by omega), hfeed]
  have hsecond : ∀ coming, RealRepl.ingest ⟨text ++ "IH-BACKUP 61".toList, false, [], coming⟩
      (encode "62\r\n>>> ".toList) = ⟨text ++ "IH-BACKUP 61".toList ++ truncationMarker, true, [], coming⟩ := by
    intro coming
    simp only [RealRepl.ingest, if_pos hlong, Bool.false_eq_true, if_false]
  have hpump : (cutBoard text).pump 2 = ⟨text ++ "IH-BACKUP 61".toList ++ truncationMarker, true, [], []⟩ := by
    have hsome : ∀ piece : List Char, piece ≠ [] → encode piece ≠ [] := fun _ => mt encode_eq_nil.1
    simp only [cutBoard, List.map_cons, List.map_nil, RealRepl.pump, if_neg (hsome _ (by decide : "IH-BACKUP 61".toList ≠ [])),
      if_neg (hsome _ (by decide : "62\r\n>>> ".toList ≠ [])), hfirst, hsecond]
  rw [RealRepl.drain, hpump, RealRepl.drain]
  split
  · rw [List.append_assoc]
  · rw [List.append_assoc]

/-- main.py is wiped and half of it was saved. -/
private theorem cutBoard_wiped {text : List Char} (h : text.length + 1 = maxSerialText) :
    boot none twoReads (cutBoard text) = ⟨interruptKeys :: probeLines ++ [removeMain], some [0x61]⟩ := by
  have hanswer : parseAnswer ("IH-BACKUP 61".toList ++ truncationMarker) = .saved [0x61] := by decide +kernel
  have hearly : ¬ 0 + probeQuietSec ≤ (0 : ℚ) := by decide +kernel
  apply boot_saved rfl
  show probeLoop text.length 0 twoReads.passes (0 + probeQuietSec) (cutBoard text) = some (.saved [0x61])
  simp only [twoReads, probeLoop, if_neg hearly, cutBoard_drain h, List.drop_left, hanswer]

/-- One character short of the cap. -/
def fullText : List Char := List.replicate (maxSerialText - 1) '.'

theorem cut_answer_is_saved :
    Answers ((cutBoard fullText).drain 6 twoReads.settle).future (some cutMain) ∧
      removeMain ∈ (boot none twoReads (cutBoard fullText)).written ∧
      (boot none twoReads (cutBoard fullText)).backup = some [0x61] ∧ cutMain ≠ [0x61] := by
  have hlength : fullText.length + 1 = maxSerialText := by
    rw [fullText, List.length_replicate]
    decide
  rw [cutBoard_wiped hlength]
  exact ⟨cutBoard_answers fullText, by simp, rfl, by decide⟩

end IronHarness.Runner
