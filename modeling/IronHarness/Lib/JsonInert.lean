import IronHarness.Lib.JsonCut
import IronHarness.Lib.Replace

/-!
# JSON texts inside another language

A printed JSON text may be embedded where some words must not stand, such as those that end a script.  Each of them is
respelled: behind its first character, `<`, the second one is written as an escape.  These characters stand in the
strings only, so the text is the printed one with other spellings (`respell_dumpsWith`), which still loads as the same
value (`loads_dumpsWith`), and the words are gone (`TextReplace.Replaced.absent`).  What stands outside the strings
names no float that is not finite where the value has none (`unquoted_dumpsWith`).
-/

namespace JsonText

open TextReplace

variable {F : Type}

/-! ### Respelled strings -/

/-- A character that stands for itself in a string. -/
def Verbatim (c : Char) : Prop := c ≠ '"' ∧ c ≠ '\\' ∧ ¬ c.toNat < 0x20

theorem Spells.append {body s : List Char} (h : Spells body s) {p : List Char} (hp : ∀ c ∈ p, Verbatim c) :
    Spells (p ++ body) (p ++ s) := by
  induction p with
  | nil => exact h
  | cons c p ih => exact .plain (hp c List.mem_cons_self) (ih fun d hd => hp d (List.mem_cons_of_mem c hd))

private theorem Spells.of_append {p body s : List Char} (hp : ∀ c ∈ p, Verbatim c) (h : Spells (p ++ body) s) :
    ∃ s', s = p ++ s' ∧ Spells body s' := by
  induction p generalizing s with
  | nil => exact ⟨s, rfl, h⟩
  | cons c p ih =>
    have hc := hp c List.mem_cons_self
    rw [List.cons_append] at h
    generalize htext : c :: (p ++ body) = text at h
    cases h with
    | nil => cases htext
    | plain hd hrest =>
      obtain ⟨rfl, rfl⟩ := List.cons.inj htext
      obtain ⟨s', rfl, hs'⟩ := ih (fun d hd => hp d (List.mem_cons_of_mem c hd)) hrest
      exact ⟨s', rfl, hs'⟩
    | escaped code hcode hplain hrest =>
      rw [List.cons_append] at htext
      exact absurd (List.cons.inj htext).1 hc.2.1

/-- A word that starts with `<` and is respelled with an escape in the place of its second character. -/
structure Respelling where
  second : Char
  tail : List Char
  code : List Char
  plain : Verbatim second ∧ ∀ c ∈ tail, Verbatim c ∧ c ≠ '<'
  second_ne : second ≠ '<'
  reads : ∀ r, scanEscape (code ++ r) = some (second, r)
  code_plain : '<' ∉ code ∧ ∀ d ∈ code.tail, d ≠ '"' ∧ d ≠ '\\'

namespace Respelling

variable (w : Respelling)

def word : List Char := '<' :: w.second :: w.tail

def respelled : List Char := '<' :: '\\' :: (w.code ++ w.tail)

def respell (text : List Char) : List Char := replace w.word w.respelled text

variable {w}

private theorem notMem_tail : '<' ∉ w.second :: w.tail := by
  rw [List.mem_cons, not_or]
  exact ⟨fun h => w.second_ne h.symm, fun h => (w.plain.2 '<' h).2 rfl⟩

private theorem quote_notMem : '"' ∉ w.word := by
  rw [word, List.mem_cons, List.mem_cons, not_or, not_or]
  exact ⟨by decide, fun h => w.plain.1.1 h.symm, fun h => (w.plain.2 '"' h).1.1 rfl⟩

/-- A respelled string is the same string. -/
theorem spells {body s : List Char} (h : Spells body s) : Spells (w.respell body) s := by
  have hlt : Verbatim '<' := ⟨by decide, by decide, by decide⟩
  have hplain : ∀ c ∈ w.second :: w.tail, Verbatim c := by
    intro c hc
    rcases List.mem_cons.1 hc with rfl | hc
    · exact w.plain.1
    · exact (w.plain.2 c hc).1
  induction h with
  | nil => exact .nil
  | @plain c body s hc h ih =>
    by_cases hpre : w.word <+: c :: body
    · obtain ⟨r, hr⟩ := hpre
      rw [word, List.cons_append] at hr
      obtain ⟨rfl, rfl⟩ := List.cons.inj hr
      rw [respell, word, replace_append notMem_tail] at ih
      obtain ⟨s', rfl, hs'⟩ := Spells.of_append hplain ih
      have hhit : w.respell ('<' :: (w.second :: w.tail ++ r)) = w.respelled ++ w.respell r :=
        @replace_hit _ _ w.word _ (List.cons_ne_nil _ _) r
      rw [hhit, respelled, List.cons_append, List.cons_append, List.append_assoc]
      apply Spells.plain hlt
      exact .escaped w.code w.reads w.code_plain (hs'.append fun c hc => (w.plain.2 c hc).1)
    · have hmiss : w.respell (c :: body) = c :: w.respell body := replace_miss hpre
      rw [hmiss]
      exact .plain hc ih
  | @escaped code c body s hcode hcodePlain h ih =>
    have hnone : '<' ∉ '\\' :: code := by
      rw [List.mem_cons, not_or]
      exact ⟨by decide, hcodePlain.1⟩
    have hskip : w.respell ('\\' :: code ++ body) = '\\' :: code ++ w.respell body := replace_append hnone body
    rw [hskip]
    exact .escaped code hcode hcodePlain ih

private theorem respell_quoteWith (body : String → List Char) (s : String) (r : List Char) :
    w.respell (quoteWith body s ++ r) = quoteWith (fun s => w.respell (body s)) s ++ w.respell r := by
  have hquote : w.respell ('"' :: (body s ++ '"' :: r)) = '"' :: w.respell (body s ++ '"' :: r) :=
    replace_append (a := ['"']) (by decide) _
  have hstop : w.respell (body s ++ '"' :: r) = w.respell (body s) ++ '"' :: w.respell r :=
    @replace_stop _ _ w.word _ (List.cons_ne_nil _ _) _ quote_notMem (body s) r
  simp only [quoteWith, List.cons_append, List.append_assoc, List.nil_append]
  rw [hquote, hstop]

private theorem respell_append {a : List Char} (ha : '<' ∉ a) (r : List Char) : w.respell (a ++ r) = a ++ w.respell r :=
  replace_append ha r

private theorem respell_cons {c : Char} (hc : c ≠ '<') (r : List Char) : w.respell (c :: r) = c :: w.respell r :=
  replace_append (a := [c]) (by simpa using hc.symm) r

end Respelling

/-! ### Respelled texts -/

private theorem lt_notMem_number {l : NumLit} (h : l.valid = true) : '<' ∉ l.text := by
  intro hmem
  have := text_numberChars h '<' hmem
  revert this
  decide

private theorem lt_notMem_float [JsonFloat F] (x : F) : '<' ∉ (JsonFloat.lit x).text := by
  have hvalid := JsonFloat.lit_valid x
  cases hl : JsonFloat.lit x with
  | nan => decide
  | inf neg => cases neg <;> decide
  | num l =>
    rw [hl, FloatLit.valid, Bool.and_eq_true] at hvalid
    exact lt_notMem_number hvalid.1

section

variable (w : Respelling) (body : String → List Char)

mutual

/-- Respelling a text respells its strings. -/
theorem respell_dumpsWith [JsonFloat F] (v : Value F) (r : List Char) :
    w.respell (dumpsWith body v ++ r) = dumpsWith (fun s => w.respell (body s)) v ++ w.respell r := by
  match v with
  | .null =>
    rw [dumpsWith, dumpsWith]
    exact Respelling.respell_append (by decide) r
  | .bool true =>
    rw [dumpsWith, dumpsWith]
    exact Respelling.respell_append (by decide) r
  | .bool false =>
    rw [dumpsWith, dumpsWith]
    exact Respelling.respell_append (by decide) r
  | .int n =>
    rw [dumpsWith, dumpsWith]
    exact Respelling.respell_append (lt_notMem_number (intLit_valid n)) r
  | .float x =>
    rw [dumpsWith, dumpsWith]
    exact Respelling.respell_append (lt_notMem_float x) r
  | .str s =>
    rw [dumpsWith, dumpsWith]
    exact Respelling.respell_quoteWith body s r
  | .arr [] =>
    rw [dumpsWith, dumpsWith]
    exact Respelling.respell_append (by decide) r
  | .arr (v :: vs) =>
    rw [dumpsWith, dumpsWith, List.cons_append, Respelling.respell_cons (by decide), List.append_assoc,
      respell_dumpsWith v, respell_dumpsElemsWith vs, List.cons_append, List.append_assoc]
  | .obj [] =>
    rw [dumpsWith, dumpsWith]
    exact Respelling.respell_append (by decide) r
  | .obj ((k, v) :: fs) =>
    rw [dumpsWith, dumpsWith, List.cons_append, Respelling.respell_cons (by decide), List.append_assoc,
      Respelling.respell_quoteWith, List.cons_append, List.cons_append, Respelling.respell_cons (by decide),
      Respelling.respell_cons (by decide), List.append_assoc, respell_dumpsWith v, respell_dumpsFieldsWith fs]
    simp only [List.cons_append, List.append_assoc]

private theorem respell_dumpsElemsWith [JsonFloat F] (vs : List (Value F)) (r : List Char) :
    w.respell (dumpsElemsWith body vs ++ r) = dumpsElemsWith (fun s => w.respell (body s)) vs ++ w.respell r := by
  match vs with
  | [] =>
    rw [dumpsElemsWith, dumpsElemsWith]
    exact Respelling.respell_append (by decide) r
  | v :: vs =>
    rw [dumpsElemsWith, dumpsElemsWith, List.cons_append, List.cons_append, Respelling.respell_cons (by decide),
      Respelling.respell_cons (by decide), List.append_assoc, respell_dumpsWith v, respell_dumpsElemsWith vs]
    simp only [List.cons_append, List.append_assoc]

private theorem respell_dumpsFieldsWith [JsonFloat F] (fs : List (String × Value F)) (r : List Char) :
    w.respell (dumpsFieldsWith body fs ++ r) = dumpsFieldsWith (fun s => w.respell (body s)) fs ++ w.respell r := by
  match fs with
  | [] =>
    rw [dumpsFieldsWith, dumpsFieldsWith]
    exact Respelling.respell_append (by decide) r
  | (k, v) :: fs =>
    rw [dumpsFieldsWith, dumpsFieldsWith, List.cons_append, List.cons_append, Respelling.respell_cons (by decide),
      Respelling.respell_cons (by decide), List.append_assoc, Respelling.respell_quoteWith, List.cons_append,
      List.cons_append, Respelling.respell_cons (by decide), Respelling.respell_cons (by decide), List.append_assoc,
      respell_dumpsWith v, respell_dumpsFieldsWith fs]
    simp only [List.cons_append, List.append_assoc]

end

end

/-! ### Outside the strings -/

/-- The text without its strings, their quotes included; `inString` says where the text starts. -/
def unquoted : Bool → List Char → List Char
  | _, [] => []
  | true, '\\' :: _ :: r => unquoted true r
  | inString, c :: r =>
    if c = '"' then unquoted (!inString) r
    else if inString then unquoted true r
    else c :: unquoted false r

private theorem unquoted_bare {p : List Char} (hp : '"' ∉ p) (r : List Char) :
    unquoted false (p ++ r) = p ++ unquoted false r := by
  induction p with
  | nil => rfl
  | cons c p ih =>
    rw [List.mem_cons, not_or] at hp
    rw [List.cons_append, unquoted, if_neg (Ne.symm hp.1), if_neg (by decide), ih hp.2, List.cons_append]
    simp

private theorem unquoted_inside {p : List Char} (hp : ∀ c ∈ p, c ≠ '"' ∧ c ≠ '\\') (r : List Char) :
    unquoted true (p ++ r) = unquoted true r := by
  induction p with
  | nil => rfl
  | cons c p ih =>
    have hc := hp c List.mem_cons_self
    rw [List.cons_append, unquoted, if_neg hc.1, if_pos rfl, ih fun d hd => hp d (List.mem_cons_of_mem c hd)]
    intro _ _ _ hslash
    exact absurd hslash hc.2

private theorem unquoted_spells {body s : List Char} (h : Spells body s) (r : List Char) :
    unquoted true (body ++ '"' :: r) = unquoted false r := by
  induction h with
  | nil => rw [List.nil_append, unquoted, if_pos rfl, Bool.not_true]; simp
  | plain hc h ih =>
    rw [← ih]
    exact unquoted_inside (p := [_]) (by simpa using ⟨hc.1, hc.2.1⟩) _
  | @escaped code c body s hcode hplain h ih =>
    cases code with
    | nil =>
      have hnone := hcode []
      simp [scanEscape] at hnone
    | cons d code =>
      have hskip : ∀ r, unquoted true ('\\' :: d :: r) = unquoted true r := fun _ => rfl
      have hcode := unquoted_inside (p := code) hplain.2
      rw [List.cons_append, List.cons_append, List.cons_append, List.cons_append, hskip, List.append_assoc,
        hcode, ih]

private theorem unquoted_quoteWith {body : String → List Char} {s : String} (h : Spells (body s) s.toList)
    (r : List Char) :
    unquoted false (quoteWith body s ++ r) = unquoted false r := by
  have hstart : ∀ r, unquoted false ('"' :: r) = unquoted true r := by
    intro r
    rw [unquoted, if_pos rfl, Bool.not_false]
    simp
  rw [quoteWith, List.cons_append, List.append_assoc, hstart]
  exact unquoted_spells h r

/-- The floats of the value have a literal. -/
def Value.finite [JsonFloat F] : Value F → Prop
  | .float x => ∃ l, JsonFloat.lit x = .num l
  | .arr items => elemsFinite items
  | .obj fields => fieldsFinite fields
  | _ => True
where
  elemsFinite : List (Value F) → Prop
    | [] => True
    | v :: vs => v.finite ∧ elemsFinite vs
  fieldsFinite : List (String × Value F) → Prop
    | [] => True
    | (_, v) :: fs => v.finite ∧ fieldsFinite fs

/-- A text in which no name of a float that is not finite can stand. -/
def Named (p : List Char) : Prop := 'N' ∉ p ∧ 'I' ∉ p

/-- What the text adds to the text outside the strings names no float that is not finite. -/
def Adds (text : List Char) : Prop := ∃ p, Named p ∧ ∀ r, unquoted false (text ++ r) = p ++ unquoted false r

theorem Named.append {p q : List Char} (hp : Named p) (hq : Named q) : Named (p ++ q) := by
  unfold Named at *
  simp only [List.mem_append, not_or]
  exact ⟨⟨hp.1, hq.1⟩, hp.2, hq.2⟩

theorem Adds.append {a b : List Char} (ha : Adds a) (hb : Adds b) : Adds (a ++ b) := by
  obtain ⟨p, hp, hpa⟩ := ha
  obtain ⟨q, hq, hqb⟩ := hb
  refine ⟨p ++ q, hp.append hq, ?_⟩
  intro r
  rw [List.append_assoc, hpa, hqb, List.append_assoc]

private theorem adds_bare {p : List Char} (hquote : '"' ∉ p) (hp : Named p) : Adds p := ⟨p, hp, unquoted_bare hquote⟩

private theorem adds_quoteWith {body : String → List Char} {s : String} (h : Spells (body s) s.toList) :
    Adds (quoteWith body s) := ⟨[], by simp [Named], unquoted_quoteWith h⟩

private theorem adds_number {l : NumLit} (h : l.valid = true) : Adds l.text := by
  have hchars := text_numberChars h
  apply adds_bare
  · intro hmem
    exact (numberChar (hchars '"' hmem)).1.1 rfl
  · constructor
    · intro hmem
      have := hchars 'N' hmem
      revert this
      decide
    · intro hmem
      have := hchars 'I' hmem
      revert this
      decide

section

variable {body : String → List Char}

mutual

private theorem adds_dumpsWith [JsonFloat F] (hbody : ∀ s, Spells (body s) s.toList) (v : Value F) (hv : v.finite) :
    Adds (dumpsWith body v) := by
  match v with
  | .null =>
    rw [dumpsWith]
    exact adds_bare (by decide) ⟨by decide, by decide⟩
  | .bool true =>
    rw [dumpsWith]
    exact adds_bare (by decide) ⟨by decide, by decide⟩
  | .bool false =>
    rw [dumpsWith]
    exact adds_bare (by decide) ⟨by decide, by decide⟩
  | .int n =>
    rw [dumpsWith]
    exact adds_number (intLit_valid n)
  | .float x =>
    obtain ⟨l, hl⟩ := hv
    have hvalid := JsonFloat.lit_valid x
    rw [hl, FloatLit.valid, Bool.and_eq_true] at hvalid
    rw [dumpsWith, hl, FloatLit.text]
    exact adds_number hvalid.1
  | .str s =>
    rw [dumpsWith]
    exact adds_quoteWith (hbody s)
  | .arr [] =>
    rw [dumpsWith]
    exact adds_bare (by decide) ⟨by decide, by decide⟩
  | .arr (v :: vs) =>
    have hopen : Adds ['['] := adds_bare (by decide) ⟨by decide, by decide⟩
    rw [dumpsWith]
    exact hopen.append ((adds_dumpsWith hbody v hv.1).append (adds_dumpsElemsWith hbody vs hv.2))
  | .obj [] =>
    rw [dumpsWith]
    exact adds_bare (by decide) ⟨by decide, by decide⟩
  | .obj ((k, v) :: fs) =>
    have hopen : Adds ['{'] := adds_bare (by decide) ⟨by decide, by decide⟩
    have hcolon : Adds [':', ' '] := adds_bare (by decide) ⟨by decide, by decide⟩
    rw [dumpsWith]
    exact hopen.append ((adds_quoteWith (hbody k)).append
      (hcolon.append ((adds_dumpsWith hbody v hv.1).append (adds_dumpsFieldsWith hbody fs hv.2))))

private theorem adds_dumpsElemsWith [JsonFloat F] (hbody : ∀ s, Spells (body s) s.toList) (vs : List (Value F))
    (hvs : Value.finite.elemsFinite vs) : Adds (dumpsElemsWith body vs) := by
  match vs with
  | [] =>
    rw [dumpsElemsWith]
    exact adds_bare (by decide) ⟨by decide, by decide⟩
  | v :: vs =>
    have hcomma : Adds [',', ' '] := adds_bare (by decide) ⟨by decide, by decide⟩
    rw [dumpsElemsWith]
    exact hcomma.append ((adds_dumpsWith hbody v hvs.1).append (adds_dumpsElemsWith hbody vs hvs.2))

private theorem adds_dumpsFieldsWith [JsonFloat F] (hbody : ∀ s, Spells (body s) s.toList)
    (fs : List (String × Value F))
    (hfs : Value.finite.fieldsFinite fs) : Adds (dumpsFieldsWith body fs) := by
  match fs with
  | [] =>
    rw [dumpsFieldsWith]
    exact adds_bare (by decide) ⟨by decide, by decide⟩
  | (k, v) :: fs =>
    have hcomma : Adds [',', ' '] := adds_bare (by decide) ⟨by decide, by decide⟩
    have hcolon : Adds [':', ' '] := adds_bare (by decide) ⟨by decide, by decide⟩
    rw [dumpsFieldsWith]
    exact hcomma.append ((adds_quoteWith (hbody k)).append
      (hcolon.append ((adds_dumpsWith hbody v hfs.1).append (adds_dumpsFieldsWith hbody fs hfs.2))))

end

end

/-- Outside its strings, the text of a value without such floats names no float that is not finite. -/
theorem unquoted_dumpsWith [JsonFloat F] {body : String → List Char} (hbody : ∀ s, Spells (body s) s.toList)
    {v : Value F} (hv : v.finite) : Named (unquoted false (dumpsWith body v)) := by
  obtain ⟨p, hp, hadds⟩ := adds_dumpsWith hbody v hv
  have hall := hadds []
  rw [List.append_nil, unquoted, List.append_nil] at hall
  rwa [hall]

end JsonText
