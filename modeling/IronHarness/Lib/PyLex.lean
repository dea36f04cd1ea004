import Mathlib.Data.List.Basic

/-!
# Tokens of a Python text

How an interpreter of Python cuts a text with `\n` for its newlines into tokens: one pass over the characters
(`step`), which keeps the mode it is in, what stands in front of the next token and how deep the brackets are, and
emits the characters of the tokens with the places where logical lines begin and where white space parts two tokens.
From these the words are cut by maximal munch (`group`).  Comments and blank lines leave nothing behind.  Replacement
fields of an f-string are text of the literal.

Apart from white space, texts of the same tokens spell the same characters (`spelled_of_tokens`).  The facts below say
what can be spelled from where: a literal spells the characters that stand in it (`literal_spells`), code never spells
the `#` of a comment (`not_spelled_comment`), and nothing is spelled that does not stand there (`mem_spelled`).
-/

namespace PyLex

/-! ### Characters -/

/-- White space between tokens. -/
def isBlank (c : Char) : Bool := c == ' ' || c == '\t' || c == '\x0b' || c == '\x0c'

inductive Quote where
  | single
  | double
  deriving DecidableEq

def Quote.char : Quote → Char
  | .single => '\''
  | .double => '"'

def quote? (c : Char) : Option Quote :=
  if c = '\'' then some .single else if c = '"' then some .double else none

def isLetter (c : Char) : Bool := c.isAlpha || c == '_' || 0x80 ≤ c.toNat

/-- What a bracket adds to the depth. -/
def nesting (c : Char) : Int :=
  if c = '(' ∨ c = '[' ∨ c = '\x7b' then 1 else if c = ')' ∨ c = ']' ∨ c = '\x7d' then -1 else 0

/-! ### The pass over the characters -/

inductive Sign where
  | line (column : Nat)
  | gap
  | char (c : Char)
  | quote (c : Char)
  | text (c : Char)
  deriving DecidableEq

/-- What stands in front of the next token: the begin of a logical line, white space, or nothing. -/
inductive Pending where
  | line (column : Nat)
  | space
  | glued
  deriving DecidableEq

inductive Mode where
  | code
  | slash
  | comment
  | quote (q : Quote)
  | quotes (q : Quote)
  | literal (q : Quote) (triple : Bool) (closing : Nat)
  | escape (q : Quote) (triple : Bool)
  deriving DecidableEq

structure State where
  mode : Mode
  pending : Pending
  depth : Int
  deriving DecidableEq

def start : State := ⟨.code, .line 0, 0⟩

namespace Pending

def signs : Pending → List Sign
  | line column => [.line column]
  | space => [.gap]
  | glued => []

/-- Behind a blank; a tab goes to the next multiple of eight. -/
def blank (c : Char) : Pending → Pending
  | line column => .line (if c = '\t' then (column / 8 + 1) * 8 else column + 1)
  | _ => .space

/-- Behind a newline that ends no logical line. -/
def continued : Pending → Pending
  | line _ => .line 0
  | _ => .space

/-- Behind a newline, which ends the logical line unless it stands in brackets. -/
def newline (depth : Int) (p : Pending) : Pending := if depth = 0 then .line 0 else p.continued

end Pending

/-- A character outside of comments and literals. -/
def State.code (s : State) (c : Char) : State × List Sign :=
  if c = '\n' then ({ s with mode := .code, pending := s.pending.newline s.depth }, [])
  else if isBlank c then ({ s with mode := .code, pending := s.pending.blank c }, [])
  else if c = '#' then ({ s with mode := .comment }, [])
  else if c = '\\' then ({ s with mode := .slash }, [])
  else match quote? c with
    | some q => ({ s with mode := .quote q, pending := .glued }, s.pending.signs ++ [.quote c])
    | none => ({ mode := .code, pending := .glued, depth := s.depth + nesting c }, s.pending.signs ++ [.char c])

/-- A character in a literal; a newline ends one that is not triple quoted. -/
def State.literal (s : State) (q : Quote) (triple : Bool) (closing : Nat) (c : Char) : State × List Sign :=
  if c = '\\' then ({ s with mode := .escape q triple }, [.text c])
  else if c = q.char then
    ({ s with mode := if triple && closing < 2 then .literal q triple (closing + 1) else .code }, [.text c])
  else if c = '\n' && !triple then s.code c
  else ({ s with mode := .literal q triple 0 }, [.text c])

def step (s : State) (c : Char) : State × List Sign :=
  match s.mode with
  | .code => s.code c
  | .slash =>
    if c = '\n' then ({ s with mode := .code, pending := s.pending.continued }, [])
    else
      -- the backslash is a token of its own, and no character of the language
      let (next, signs) := State.code { s with pending := .glued } c
      (next, s.pending.signs ++ .char '\\' :: signs)
  | .comment => if c = '\n' then s.code c else (s, [])
  | .quote q => if c = q.char then ({ s with mode := .quotes q }, [.text c]) else s.literal q false 0 c
  | .quotes q => if c = q.char then ({ s with mode := .literal q true 0 }, [.text c]) else s.code c
  | .literal q triple closing => s.literal q triple closing c
  | .escape q triple => ({ s with mode := .literal q triple 0 }, [.text c])

def after (s : State) : List Char → State
  | [] => s
  | c :: text => after (step s c).1 text

def signs (s : State) : List Char → List Sign
  | [] => []
  | c :: text => (step s c).2 ++ signs (step s c).1 text

/-! ### Words -/

inductive Token where
  | newline
  | indent
  | dedent
  | mismatch
  | word (text : List Char)
  deriving DecidableEq

/-- The operators of two and three characters; `..` on the way to `...`. -/
def operators : List String :=
  [":=", "<<", "<=", "<<=", ">>", ">=", ">>=", "**", "*=", "**=", "+=", "-=", "->", "&=", "|=", "//", "/=", "//=",
    "%=", "^=", "@=", "==", "!=", "..", "..."]

def stringPrefixes : List String := ["r", "u", "b", "f", "rb", "br", "rf", "fr"]

/-- Whether a character continues the word in front of it. -/
def continues (word : List Char) (c : Char) : Bool :=
  match word with
  | [] => false
  | first :: rest =>
    if word.any fun d => (quote? d).isSome then false
    else if isLetter first then isLetter c || c.isDigit
    else if first.isDigit || (first == '.' && rest.any Char.isDigit) then
      isLetter c || c.isDigit || c == '.' ||
        -- the sign of an exponent
        ((c == '+' || c == '-') && (word.getLast? == some 'e' || word.getLast? == some 'E') &&
          !(['0', 'x'].isPrefixOf word || ['0', 'X'].isPrefixOf word))
    else (word == ['.'] && c.isDigit) || operators.any fun operator => operator.toList == word ++ [c]

/-- The word so far, which is kept backwards. -/
def flush (acc : List Char) : List Token := if acc.isEmpty then [] else [.word acc.reverse]

/-- Back to the column of a line: the columns still open, with the steps to there. -/
def dedent (column : Nat) : List Nat → List Nat × List Token
  | [] => ([], if column = 0 then [] else [.mismatch])
  | top :: below =>
    if column < top then
      let (left, steps) := dedent column below
      (left, .dedent :: steps)
    else (top :: below, if column = top then [] else [.mismatch])

/-- From the columns that are open (the last one first, without the first column) to that of a line. -/
def indentation (column : Nat) (columns : List Nat) : List Nat × List Token :=
  if columns.headD 0 < column then (column :: columns, [.indent]) else dedent column columns

/-- The tokens, behind the columns of the indentation that are open and the characters `acc` of a word (backwards).
A logical line begins with its newline. -/
def group (indents : List Nat) (acc : List Char) : List Sign → List Token
  | [] => flush acc ++ indents.map fun _ => .dedent
  | .line column :: rest =>
    flush acc ++ .newline :: (indentation column indents).2 ++ group (indentation column indents).1 [] rest
  | .gap :: rest => flush acc ++ group indents [] rest
  | .char c :: rest =>
    if continues acc.reverse c then group indents (c :: acc) rest else flush acc ++ group indents [c] rest
  | .quote c :: rest =>
    if String.ofList acc.reverse ∈ stringPrefixes then group indents (c :: acc) rest
    else flush acc ++ group indents [c] rest
  | .text c :: rest => group indents (c :: acc) rest

/-- The lexer ends a text with a newline. -/
def ended : List Char → List Char
  | [] => []
  | [c] => if c = '\n' then [c] else [c, '\n']
  | c :: d :: rest => c :: ended (d :: rest)

/-- The tokens of a text, without comments and blank lines. -/
def tokens (text : List Char) : List Token := group [] [] (signs start (ended text))

/-! ### Runs -/

theorem after_append (s : State) (a b : List Char) : after s (a ++ b) = after (after s a) b := by
  induction a generalizing s with
  | nil => rfl
  | cons c a ih => exact ih _

theorem signs_append (s : State) (a b : List Char) : signs s (a ++ b) = signs s a ++ signs (after s a) b := by
  induction a generalizing s with
  | nil => rfl
  | cons c a ih => rw [List.cons_append, signs, ih, signs, after, List.append_assoc]

theorem ended_append (a : List Char) {b : List Char} (hb : b ≠ []) : ended (a ++ b) = a ++ ended b := by
  induction a with
  | nil => rfl
  | cons c a ih =>
    obtain ⟨d, rest, hd⟩ := List.exists_cons_of_ne_nil (List.append_ne_nil_of_right_ne_nil a hb)
    rw [List.cons_append, hd, ended, ← hd, ih, List.cons_append]

/-! ### What tokens spell -/

/-- The characters of a sign, with `none` for the begin of a logical line. -/
def Sign.spelled : Sign → List (Option Char)
  | line _ => [none]
  | gap => []
  | char c | quote c | text c => [some c]

def Token.spelled : Token → List (Option Char)
  | newline => [none]
  | indent | dedent | mismatch => []
  | word text => text.map some

def spelled (s : State) (text : List Char) : List (Option Char) := (signs s text).flatMap Sign.spelled

@[simp] theorem spelled_nil (s : State) : spelled s [] = [] := rfl

theorem spelled_cons (s : State) (c : Char) (text : List Char) :
    spelled s (c :: text) = (step s c).2.flatMap Sign.spelled ++ spelled (step s c).1 text := List.flatMap_append

theorem spelled_append (s : State) (a b : List Char) : spelled s (a ++ b) = spelled s a ++ spelled (after s a) b := by
  rw [spelled, signs_append, List.flatMap_append]
  rfl

private theorem spelled_flush (acc : List Char) : (flush acc).flatMap Token.spelled = acc.reverse.map some := by
  unfold flush
  split
  · rename_i hempty
    rw [List.isEmpty_iff.1 hempty]
    rfl
  · simp [Token.spelled]

private theorem spelled_dedent (column : Nat) (columns : List Nat) :
    (dedent column columns).2.flatMap Token.spelled = [] := by
  induction columns with
  | nil =>
    rw [dedent]
    split <;> rfl
  | cons top below ih =>
    rw [dedent]
    split
    · exact ih
    · dsimp only
      split <;> rfl

private theorem spelled_indentation (column : Nat) (columns : List Nat) :
    (indentation column columns).2.flatMap Token.spelled = [] := by
  unfold indentation
  split
  · rfl
  · exact spelled_dedent column columns

/-- The words are cut from the characters, and none is lost. -/
theorem spelled_group (indents : List Nat) (acc : List Char) (l : List Sign) :
    (group indents acc l).flatMap Token.spelled = acc.reverse.map some ++ l.flatMap Sign.spelled := by
  induction l generalizing indents acc with
  | nil =>
    have hdedents : (indents.map fun _ => Token.dedent).flatMap Token.spelled = [] := by simp [Token.spelled]
    rw [group, List.flatMap_append, spelled_flush, hdedents]
    rfl
  | cons sign l ih =>
    cases sign with
    | line column =>
      rw [group, List.append_assoc, List.flatMap_append, spelled_flush, List.cons_append, List.flatMap_cons,
        List.flatMap_append, spelled_indentation, ih]
      rfl
    | gap =>
      rw [group, List.flatMap_append, spelled_flush, ih]
      rfl
    | char c =>
      rw [group]
      split
      · simp [ih, Sign.spelled]
      · simp [spelled_flush, ih, Sign.spelled]
    | quote c =>
      rw [group]
      split
      · simp [ih, Sign.spelled]
      · simp [spelled_flush, ih, Sign.spelled]
    | text c =>
      rw [group]
      simp [ih, Sign.spelled]

theorem spelled_of_tokens {a b : List Char} (h : tokens a = tokens b) :
    spelled start (ended a) = spelled start (ended b) := by
  have hspelled := congrArg (List.flatMap Token.spelled) h
  simpa [tokens, spelled_group, spelled] using hspelled

/-! ### What a step does -/

/-- Whether a character stands in a literal. -/
def Mode.inside : Mode → Bool
  | quote _ | literal _ _ _ | escape _ _ => true
  | code | slash | comment | quotes _ => false

private theorem code_cases (s : State) (c : Char) :
    ((s.code c).2 = [] ∧ (s.code c).1.mode.inside = false) ∨
      (∃ q, quote? c = some q ∧ (s.code c).2 = s.pending.signs ++ [.quote c]) ∨
      (c ≠ '#' ∧ (s.code c).1.mode.inside = false ∧ (s.code c).2 = s.pending.signs ++ [.char c]) := by
  unfold State.code
  split
  · exact .inl ⟨rfl, rfl⟩
  split
  · exact .inl ⟨rfl, rfl⟩
  split
  · exact .inl ⟨rfl, rfl⟩
  rename_i hhash
  split
  · exact .inl ⟨rfl, rfl⟩
  cases hq : quote? c with
  | some q => exact .inr (.inl ⟨q, rfl, rfl⟩)
  | none => exact .inr (.inr ⟨hhash, rfl, rfl⟩)

/-- In a literal every character is emitted, but for a newline that ends it. -/
theorem inside_step {s : State} (h : s.mode.inside = true) (c : Char) :
    (step s c).2 = [.text c] ∨ (c = '\n' ∧ (step s c).2 = [] ∧ (step s c).1.mode.inside = false) := by
  have hliteral : ∀ q triple closing, (s.literal q triple closing c).2 = [.text c] ∨
      (c = '\n' ∧ (s.literal q triple closing c).2 = [] ∧ (s.literal q triple closing c).1.mode.inside = false) := by
    intro q triple closing
    unfold State.literal
    split
    · exact .inl rfl
    split
    · exact .inl rfl
    split
    · rename_i hnewline
      obtain ⟨rfl, -⟩ : c = '\n' ∧ triple = false := by simpa using hnewline
      exact .inr ⟨rfl, rfl, rfl⟩
    · exact .inl rfl
  cases hmode : s.mode with
  | code | slash | comment | quotes q => simp [hmode, Mode.inside] at h
  | quote q =>
    simp only [step, hmode]
    split
    · exact .inl rfl
    · exact hliteral q false 0
  | literal q triple closing =>
    simp only [step, hmode]
    exact hliteral q triple closing
  | escape q triple =>
    simp only [step, hmode]
    exact .inl trivial

/-- A character that means nothing in a literal. -/
def Bland (c : Char) : Prop := quote? c = none ∧ c ≠ '\\' ∧ c ≠ '\n'

private theorem Bland.ne_quote {c : Char} (h : Bland c) (q : Quote) : c ≠ q.char := by
  rintro rfl
  have hnone := h.1
  cases q <;> exact absurd hnone (by decide)

theorem bland_hash : Bland '#' := by
  refine ⟨?_, ?_, ?_⟩ <;> decide

theorem literal_step {s : State} {q : Quote} {triple : Bool} (h : s.mode = .literal q triple 0) {c : Char}
    (hc : Bland c) : step s c = (s, [.text c]) := by
  have hs : { s with mode := .literal q triple 0 } = s := by rw [← h]
  simp [step, h, State.literal, hc.2.1, hc.2.2, hc.ne_quote q, hs]

theorem literal_run {s : State} {q : Quote} {triple : Bool} (h : s.mode = .literal q triple 0) {w : List Char}
    (hw : ∀ c ∈ w, Bland c) (text : List Char) : spelled s (w ++ text) = w.map some ++ spelled s text := by
  induction w with
  | nil => rfl
  | cons c w ih =>
    rw [List.cons_append, spelled_cons, literal_step h (hw c List.mem_cons_self),
      ih fun d hd => hw d (List.mem_cons_of_mem c hd)]
    rfl

/-- The spelling of a `#` behind bland characters. -/
def SpellsHash (l : List (Option Char)) : Prop :=
  ∃ (w : List Char) (y : List (Option Char)), (∀ c ∈ w, Bland c) ∧ l = w.map some ++ some '#' :: y

theorem SpellsHash.head {l : List (Option Char)} (h : SpellsHash l) :
    ∃ c rest, l = some c :: rest ∧ Bland c ∧ (c ≠ '#' → SpellsHash rest) := by
  obtain ⟨w, y, hw, rfl⟩ := h
  cases w with
  | nil => exact ⟨'#', y, rfl, bland_hash, fun hne => absurd rfl hne⟩
  | cons c w =>
    exact ⟨c, _, rfl, hw c List.mem_cons_self, fun _ => ⟨w, y, fun d hd => hw d (List.mem_cons_of_mem c hd), rfl⟩⟩

/-- The first character that is emitted behind what is pending. -/
theorem SpellsHash.emitted {p : Pending} {c : Char} {emitted : List Sign} {rest : List (Option Char)} {sign : Sign}
    (hsign : sign.spelled = [some c])
    (h : SpellsHash ((p.signs ++ sign :: emitted).flatMap Sign.spelled ++ rest)) :
    Bland c ∧ (c ≠ '#' → SpellsHash (emitted.flatMap Sign.spelled ++ rest)) := by
  obtain ⟨d, l, heq, hd, hrest⟩ := h.head
  rw [List.flatMap_append, List.flatMap_cons, hsign] at heq
  cases p with
  | line column => simp [Pending.signs, Sign.spelled] at heq
  | space | glued =>
    simp only [Pending.signs, Sign.spelled, List.flatMap_cons, List.flatMap_nil, List.nil_append,
      List.cons_append, List.cons.injEq, Option.some.injEq] at heq
    obtain ⟨rfl, rfl⟩ := heq
    exact ⟨hd, hrest⟩

private theorem not_spellsHash_code {s : State} {c : Char} {rest : List (Option Char)}
    (hrest : (s.code c).1.mode.inside = false → ¬ SpellsHash rest) :
    ¬ SpellsHash ((s.code c).2.flatMap Sign.spelled ++ rest) := by
  intro h
  rcases code_cases s c with ⟨hnone, hmode⟩ | ⟨q, hq, hemit⟩ | ⟨hhash, hmode, hemit⟩
  · rw [hnone] at h
    exact hrest hmode h
  · rw [hemit] at h
    have hbland := (SpellsHash.emitted rfl h).1.1
    rw [hq] at hbland
    cases hbland
  · rw [hemit] at h
    exact hrest hmode ((SpellsHash.emitted rfl h).2 hhash)

/-- Outside of literals the `#` of a comment is not spelled. -/
theorem not_spelled_comment {s : State} (h : s.mode.inside = false) (text : List Char) :
    ¬ SpellsHash (spelled s text) := by
  induction text generalizing s with
  | nil =>
    intro hspells
    obtain ⟨c, rest, heq, -⟩ := hspells.head
    cases heq
  | cons c text ih =>
    rw [spelled_cons]
    cases hmode : s.mode with
    | quote q | literal q triple closing | escape q triple => simp [hmode, Mode.inside] at h
    | code =>
      simp only [step, hmode]
      exact not_spellsHash_code ih
    | slash =>
      simp only [step, hmode]
      split
      · exact ih rfl
      · intro hspells
        exact absurd rfl (SpellsHash.emitted rfl hspells).1.2.1
    | comment =>
      simp only [step, hmode]
      split
      · exact not_spellsHash_code ih
      · exact ih h
    | quotes q =>
      simp only [step, hmode]
      split
      · rename_i hq
        intro hspells
        exact absurd hq ((SpellsHash.emitted (p := .glued) rfl hspells).1.ne_quote q)
      · exact not_spellsHash_code ih

/-- A literal spells the `#` that stands in it, behind what stands in front of that. -/
theorem literal_spells {s : State} {q : Quote} {triple : Bool} (h : s.mode = .literal q triple 0) {w : List Char}
    (hw : ∀ c ∈ w, Bland c) {text : List Char} {y : List (Option Char)}
    (hspelled : spelled s text = w.map some ++ some '#' :: y) : w ++ ['#'] <+: text := by
  cases text with
  | nil => simp at hspelled
  | cons d text =>
    have hspells : SpellsHash (spelled s (d :: text)) := ⟨w, y, hw, hspelled⟩
    have hinside : s.mode.inside = true := by rw [h]; rfl
    rw [spelled_cons] at hspelled hspells
    rcases inside_step hinside d with hemit | ⟨-, hemit, hout⟩
    · rw [hemit] at hspelled
      cases w with
      | nil =>
        obtain ⟨rfl, -⟩ : d = '#' ∧ _ := by simpa [Sign.spelled] using hspelled
        exact ⟨text, rfl⟩
      | cons c w =>
        obtain ⟨rfl, hrest⟩ : d = c ∧ _ := by simpa [Sign.spelled] using hspelled
        rw [literal_step h (hw d List.mem_cons_self)] at hrest
        have hprefix := literal_spells h (fun e he => hw e (List.mem_cons_of_mem d he)) hrest
        rwa [List.cons_append, List.cons_prefix_cons, and_iff_right rfl]
    · rw [hemit] at hspells
      exact absurd hspells (not_spelled_comment hout text)

private theorem mem_spelled_code {s : State} {c d : Char} (h : some c ∈ (s.code d).2.flatMap Sign.spelled) : c = d := by
  have hpending : some c ∉ s.pending.signs.flatMap Sign.spelled := by
    cases s.pending <;> simp [Pending.signs, Sign.spelled]
  rcases code_cases s d with ⟨hnone, -⟩ | ⟨q, -, hemit⟩ | ⟨-, -, hemit⟩
  · simp [hnone] at h
  · rw [hemit, List.flatMap_append, List.mem_append] at h
    simpa [hpending, Sign.spelled] using h
  · rw [hemit, List.flatMap_append, List.mem_append] at h
    simpa [hpending, Sign.spelled] using h

private theorem mem_spelled_step {s : State} {c d : Char} (h : some c ∈ (step s d).2.flatMap Sign.spelled) :
    c = d ∨ c = '\\' := by
  by_cases hinside : s.mode.inside = true
  · rcases inside_step hinside d with hemit | ⟨-, hemit, -⟩
    · rw [hemit] at h
      exact .inl (by simpa [Sign.spelled] using h)
    · simp [hemit] at h
  · cases hmode : s.mode with
    | quote q | literal q triple closing | escape q triple => simp [hmode, Mode.inside] at hinside
    | code =>
      simp only [step, hmode] at h
      exact .inl (mem_spelled_code h)
    | slash =>
      simp only [step, hmode] at h
      split at h
      · simp at h
      · rw [List.flatMap_append, List.flatMap_cons, List.mem_append, List.mem_append] at h
        rcases h with h | h | h
        · cases hpending : s.pending <;> simp [hpending, Pending.signs, Sign.spelled] at h
        · exact .inr (by simpa [Sign.spelled] using h)
        · exact .inl (mem_spelled_code h)
    | comment =>
      simp only [step, hmode] at h
      split at h
      · exact .inl (mem_spelled_code h)
      · simp at h
    | quotes q =>
      simp only [step, hmode] at h
      split at h
      · exact .inl (by simpa [Sign.spelled] using h)
      · exact .inl (mem_spelled_code h)

/-- Nothing is spelled that does not stand in the text, but for a backslash that was held back. -/
theorem mem_spelled {s : State} {text : List Char} {c : Char} (h : some c ∈ spelled s text) : c ∈ text ∨ c = '\\' := by
  induction text generalizing s with
  | nil => cases h
  | cons d text ih =>
    rw [spelled_cons, List.mem_append] at h
    rcases h with h | h
    · rcases mem_spelled_step h with rfl | hslash
      · exact .inl List.mem_cons_self
      · exact .inr hslash
    · exact (ih h).imp_left (List.mem_cons_of_mem d)

/-! ### Lines -/

/-- The states in which a line can begin. -/
def AtLine (s : State) : Prop :=
  (s.mode = .code ∧ (s.pending = .line 0 ∨ s.pending = .space)) ∨ ∃ q triple, s.mode = .literal q triple 0

theorem atLine_start : AtLine start := .inl ⟨rfl, .inl rfl⟩

private theorem continued_cases (p : Pending) : p.continued = .line 0 ∨ p.continued = .space := by
  cases p with
  | line column => exact .inl rfl
  | space | glued => exact .inr rfl

private theorem newline_cases (depth : Int) (p : Pending) : p.newline depth = .line 0 ∨ p.newline depth = .space := by
  unfold Pending.newline
  split
  · exact .inl rfl
  · exact continued_cases p

theorem atLine_newline (s : State) : AtLine (step s '\n').1 := by
  have hcode : AtLine (s.code '\n').1 := .inl ⟨rfl, newline_cases s.depth s.pending⟩
  have hliteral : ∀ q triple closing, AtLine (s.literal q triple closing '\n').1 := by
    intro q triple closing
    have hq : '\n' ≠ q.char := by cases q <;> decide
    cases triple with
    | false => simpa [State.literal, hq] using hcode
    | true => exact .inr ⟨q, true, by simp [State.literal, hq]⟩
  cases hmode : s.mode with
  | code | comment => simpa [step, hmode] using hcode
  | slash =>
    simp only [step, hmode, if_pos]
    exact .inl ⟨rfl, continued_cases s.pending⟩
  | quote q =>
    have hq : '\n' ≠ q.char := by cases q <;> decide
    simpa [step, hmode, hq] using hliteral q false 0
  | quotes q =>
    have hq : '\n' ≠ q.char := by cases q <;> decide
    simpa [step, hmode, hq] using hcode
  | literal q triple closing => simpa [step, hmode] using hliteral q triple closing
  | escape q triple => exact .inr ⟨q, triple, by simp [step, hmode]⟩

private theorem continued_blank (c : Char) (p : Pending) : (p.blank c).continued = p.continued := by cases p <;> rfl

private theorem blanks_run {s : State} (h : s.mode = .code) {w : List Char} (hw : ∀ c ∈ w, isBlank c = true) :
    signs s w = [] ∧ ∃ p, p.continued = s.pending.continued ∧ after s w = { s with pending := p } := by
  induction w generalizing s with
  | nil => exact ⟨rfl, s.pending, rfl, rfl⟩
  | cons c w ih =>
    have hblank := hw c List.mem_cons_self
    have hnewline : c ≠ '\n' := by
      rintro rfl
      exact absurd hblank (by decide)
    have hstep : step s c = ({ s with pending := s.pending.blank c }, []) := by
      simp [step, h, State.code, hnewline, hblank]
    obtain ⟨hsigns, p, hp, hafter⟩ := ih (s := { s with pending := s.pending.blank c }) h
      fun d hd => hw d (List.mem_cons_of_mem c hd)
    refine ⟨by rw [signs, hstep, hsigns, List.append_nil], p, hp.trans (continued_blank c _), ?_⟩
    rw [after, hstep, hafter]

private theorem comment_run {s : State} (h : s.mode = .comment) {text : List Char} (htext : '\n' ∉ text) :
    signs s text = [] ∧ after s text = s := by
  induction text with
  | nil => exact ⟨rfl, rfl⟩
  | cons c text ih =>
    obtain ⟨hc, htext⟩ := not_or.1 (mt List.mem_cons.2 htext)
    have hstep : step s c = (s, []) := by simp [step, h, Ne.symm hc]
    rw [signs, after, hstep]
    exact ih htext

/-- A line that is a comment leaves nothing but its newline. -/
theorem comment_line {s : State} (h : s.mode = .code) {w text : List Char} (hw : ∀ c ∈ w, isBlank c = true)
    (htext : '\n' ∉ text) :
    signs s (w ++ '#' :: text) = [] ∧ (after s (w ++ '#' :: text)).mode = .comment ∧
      step (after s (w ++ '#' :: text)) '\n' = ({ s with pending := s.pending.newline s.depth }, []) := by
  obtain ⟨hsigns, p, hp, hafter⟩ := blanks_run h hw
  have hhash : step { s with pending := p } '#' = ({ s with pending := p, mode := .comment }, []) := by
    rw [step, h]
    rfl
  obtain ⟨hcomment, hstay⟩ := comment_run (s := { s with pending := p, mode := .comment }) rfl htext
  have hall : after s (w ++ '#' :: text) = { s with pending := p, mode := .comment } := by
    rw [after_append, hafter, after, hhash, hstay]
  have hnewline : p.newline s.depth = s.pending.newline s.depth := by rw [Pending.newline, Pending.newline, hp]
  refine ⟨?_, ?_, ?_⟩
  · rw [signs_append, hsigns, hafter, signs, hhash, hcomment]
    rfl
  · rw [hall]
  · rw [hall, ← hnewline, h]
    rfl

/-! ### Behind a continuation -/

/-- The state with white space for what is pending. -/
def State.spaced (s : State) : State := { s with pending := .space }

/-- A logical line is due. -/
structure Waiting (s : State) : Prop where
  mode : s.mode = .code ∨ s.mode = .slash ∨ s.mode = .comment
  depth : s.depth = 0
  pending : ∃ column, s.pending = .line column

private theorem waiting_iff (s : State) :
    Waiting s ↔ (s.mode = .code ∨ s.mode = .slash ∨ s.mode = .comment) ∧ s.depth = 0 ∧
      ∃ column, s.pending = .line column :=
  ⟨fun h => ⟨h.mode, h.depth, h.pending⟩, fun h => ⟨h.1, h.2.1, h.2.2⟩⟩

/-- What is emitted next begins the logical line, and does not where white space is pending. -/
def Parted (s t : State) (c : Char) : Prop :=
  ∃ d l r, (step s c).2.flatMap Sign.spelled = none :: l ∧ (step t c).2.flatMap Sign.spelled = some d :: r

private theorem Waiting.code {s : State} (h : Waiting s) {c : Char} (hc : c ≠ '\n') :
    ((s.code c).2 = [] ∧ Waiting (s.code c).1 ∧ s.spaced.code c = ((s.code c).1.spaced, [])) ∨
      ∃ d l r, (s.code c).2.flatMap Sign.spelled = none :: l ∧
        (s.spaced.code c).2.flatMap Sign.spelled = some d :: r := by
  obtain ⟨hmode, hdepth, column, hpending⟩ := h
  unfold State.code
  rw [if_neg hc, if_neg hc]
  split
  · refine .inl ⟨rfl, ⟨.inl rfl, hdepth, ?_⟩, rfl⟩
    rw [hpending]
    exact ⟨_, rfl⟩
  split
  · exact .inl ⟨rfl, ⟨.inr (.inr rfl), hdepth, column, hpending⟩, rfl⟩
  split
  · exact .inl ⟨rfl, ⟨.inr (.inl rfl), hdepth, column, hpending⟩, rfl⟩
  cases quote? c with
  | some q =>
    simp only [hpending]
    exact .inr ⟨c, _, _, rfl, rfl⟩
  | none =>
    simp only [hpending]
    exact .inr ⟨c, _, _, rfl, rfl⟩

theorem Waiting.step {s : State} (h : Waiting s) {c : Char} (hc : c ≠ '\n') :
    ((step s c).2 = [] ∧ Waiting (step s c).1 ∧ step s.spaced c = ((step s c).1.spaced, [])) ∨ Parted s s.spaced c := by
  unfold Parted
  rcases h.mode with hmode | hmode | hmode
  · have hspaced : s.spaced.mode = .code := hmode
    simp only [PyLex.step, hmode, hspaced]
    exact h.code hc
  · have hspaced : s.spaced.mode = .slash := hmode
    obtain ⟨column, hpending⟩ := h.pending
    simp only [PyLex.step, hmode, hspaced, if_neg hc, hpending]
    exact .inr ⟨'\\', _, _, rfl, rfl⟩
  · have hspaced : s.spaced.mode = .comment := hmode
    simp only [PyLex.step, hmode, hspaced, if_neg hc]
    exact .inl ⟨trivial, h, trivial⟩

theorem Waiting.line {s : State} (h : Waiting s) {line : List Char} (hline : '\n' ∉ line) :
    (signs s line = [] ∧ Waiting (after s line) ∧ signs s.spaced line = [] ∧
        after s.spaced line = (after s line).spaced) ∨
      (signs s line ≠ [] ∧ ∃ d l r, spelled s line = none :: l ∧ spelled s.spaced line = some d :: r) := by
  induction line generalizing s with
  | nil => exact .inl ⟨rfl, h, rfl, rfl⟩
  | cons c line ih =>
    obtain ⟨hc, hline⟩ := not_or.1 (mt List.mem_cons.2 hline)
    rcases h.step (Ne.symm hc) with ⟨hnone, hnext, hspaced⟩ | ⟨d, l, r, hs, hspaced⟩
    · have hsigns : signs s.spaced (c :: line) = signs (PyLex.step s c).1.spaced line := by
        rw [signs, hspaced, List.nil_append]
      have hafter : after s.spaced (c :: line) = after (PyLex.step s c).1.spaced line := by rw [after, hspaced]
      rw [spelled, spelled, hsigns, hafter, signs, hnone, List.nil_append]
      exact ih hnext hline
    · refine .inr ⟨?_, d, l ++ spelled (PyLex.step s c).1 line, r ++ spelled (PyLex.step s.spaced c).1 line, ?_, ?_⟩
      · intro hnil
        rw [signs, List.append_eq_nil_iff] at hnil
        rw [hnil.1] at hs
        cases hs
      · rw [spelled_cons, hs, List.cons_append]
      · rw [spelled_cons, hspaced, List.cons_append]

/-- A newline begins a logical line in both, unless it is continued once more. -/
theorem Waiting.newline {s : State} (h : Waiting s) :
    (PyLex.step s '\n').2 = [] ∧ (PyLex.step s.spaced '\n').2 = [] ∧ Waiting (PyLex.step s '\n').1 ∧
      (PyLex.step s '\n').1.mode = .code ∧
      (PyLex.step s.spaced '\n').1 = if s.mode = .slash then (PyLex.step s '\n').1.spaced else (PyLex.step s '\n').1 := by
  obtain ⟨hmode, hdepth, column, hpending⟩ := h
  rcases hmode with hmode | hmode | hmode
  · simp [PyLex.step, State.spaced, State.code, hmode, hdepth, Pending.newline, waiting_iff]
  · simp [PyLex.step, State.spaced, hmode, hdepth, hpending, Pending.continued, waiting_iff]
  · simp [PyLex.step, State.spaced, State.code, hmode, hdepth, Pending.newline, waiting_iff]

end PyLex
