import IronHarness.Lib.JsonLines
import IronHarness.Lib.JsonPrefix
import IronHarness.Lib.Bytes
import IronHarness.Lib.LineEnds

/-!
# A file of objects that breaks off

Objects are written one on a line, and the writer dies inside the last one.  A cut between two characters costs the object
that is cut, which is counted, and no other (`load_torn`).  A cut inside a character costs the whole file, which is no
UTF-8 any more (`decode_torn`).
-/

namespace ByteText

private theorem encode_front {a b : List Char} (h : encode a <+: encode b) : a <+: b := by
  obtain ⟨rest, hrest⟩ := h
  have hpieces : a.map some ++ pieces rest = b.map some := by
    have hwhole := pieces_encode b []
    rwa [List.append_nil, ← hrest, pieces_encode, show pieces [] = [] from rfl, List.append_nil] at hwhole
  have hfront : a.map some <+: b.map some := ⟨_, hpieces⟩
  obtain ⟨a', ha', heq⟩ := List.prefix_map_iff.1 hfront
  rw [List.map_inj_right fun _ _ => Option.some.inj] at heq
  rwa [heq]

/-- A file that breaks off inside a line: it reads up to a character of the line, or it does not read at all. -/
theorem decode_torn (text line : List Char) (n : Nat) :
    (∃ k, (encode line).take n = encode (line.take k) ∧
      decode (encode text ++ (encode line).take n) = some (text ++ line.take k)) ∨
    ((∀ k, (encode line).take n ≠ encode (line.take k)) ∧ decode (encode text ++ (encode line).take n) = none) := by
  by_cases hcut : ∃ k, (encode line).take n = encode (line.take k)
  · obtain ⟨k, hk⟩ := hcut
    refine .inl ⟨k, hk, ?_⟩
    rw [hk, ← encode_append, decode_encode]
  · refine .inr ⟨fun k hk => hcut ⟨k, hk⟩, ?_⟩
    rw [Option.eq_none_iff_forall_ne_some]
    intro read hread
    have hbytes := encode_of_decode hread
    have hfront : encode text <+: encode read := ⟨_, hbytes.symm⟩
    obtain ⟨p, rfl⟩ := encode_front hfront
    rw [encode_append] at hbytes
    have hp : (encode line).take n = encode p := (List.append_cancel_left hbytes).symm
    have hline : p <+: line := encode_front (hp ▸ List.take_prefix n (encode line))
    rw [List.prefix_iff_eq_take.1 hline] at hp
    exact hcut ⟨p.length, hp⟩

end ByteText

namespace TextLines

private theorem universal_of_notMem {text : List Char} (h : '\r' ∉ text) : universal text = text := by
  fun_induction universal text with
  | case1 r ih => exact absurd List.mem_cons_self h
  | case2 r hr ih => exact absurd List.mem_cons_self h
  | case3 c r hc hr ih => rw [ih fun hmem => h (List.mem_cons_of_mem c hmem)]
  | case4 => rfl

private theorem return_notMem_plain {line : Line} (h : Plain line) : '\r' ∉ line := by
  intro hmem
  exact absurd (h '\r' hmem) (by decide)

private theorem splitlinesAux_lone {acc line : Line} (h : ∀ c ∈ line, isBoundary c = false) :
    splitlinesAux acc line = if acc.isEmpty && line.isEmpty then [] else [acc.reverse ++ line] := by
  induction line generalizing acc with
  | nil => cases acc <;> simp [splitlinesAux]
  | cons c line ih =>
    have hc : isBoundary c = false := h c List.mem_cons_self
    have hret : c ≠ '\r' := by
      rintro rfl
      revert hc
      decide
    rw [splitlinesAux, if_neg (by simp [hc]), ih fun d hd => h d (List.mem_cons_of_mem c hd)]
    · simp
    · rintro r' rfl
      exact fun _ => hret rfl

/-- A line without a newline is a line. -/
theorem splitlines_lone {line : Line} (h : ∀ c ∈ line, isBoundary c = false) (hne : line ≠ []) :
    splitlines line = [line] := by
  rw [splitlines, splitlinesAux_lone h, if_neg (by simp [hne])]
  rfl

end TextLines

namespace JsonLines

open JsonText TextLines

variable {F : Type} [JsonFloat F] {prep : Line → Line} {keep : Fields F → Bool}

/-- A cut object is one line, which is no object. -/
theorem load_front (hprep : Prep prep) {row : Fields F} (hnodup : (Value.obj row).keysNodup) {p q : Line}
    (hpq : dumps (.obj row) = p ++ q) (hp : p ≠ []) (hq : q ≠ []) : load prep keep [p] = ([], 1) := by
  obtain ⟨t, ht⟩ := dumps_obj_braces row
  obtain ⟨t', rfl⟩ : ∃ t', p = '{' :: t' := by
    cases p with
    | nil => exact absurd rfl hp
    | cons c t' =>
      rw [ht, List.cons_append] at hpq
      rw [← (List.cons.inj hpq).1]
      exact ⟨t', rfl⟩
  obtain ⟨t'', hprep', hfront⟩ := hprep.front t'
  obtain ⟨u, rfl⟩ := hfront
  have hcut : dumps (.obj row) = ('{' :: t'') ++ (u ++ q) := by
    rw [hpq]
    simp
  have hnone : (loads ('{' :: t'') : Option (Value F)) = none :=
    loads_cut_obj hnodup hcut (List.cons_ne_nil _ _) (List.append_ne_nil_of_right_ne_nil u hq)
  rw [load, hprep', isBlank_brace, hnone]
  rfl

private theorem boundary_of_plain {line : Line} (h : Plain line) (hnone : ∀ c ∈ line, isSeparator c = false) :
    ∀ c ∈ line, isBoundary c = false := by
  intro c hc
  have hplain := h c hc
  have h1 : ¬ (0x0A ≤ c.toNat ∧ c.toNat ≤ 0x0D) := by omega
  have h2 : ¬ (0x1C ≤ c.toNat ∧ c.toNat ≤ 0x1E) := by omega
  simp [isBoundary, hnone c hc, h1, h2]

/-- Whole objects and the first `k` characters of one more: a whole one is read, and a cut one is counted. -/
theorem load_torn (hprep : Prep prep) {rows : List (Fields F)} {row : Fields F}
    (hnodup : ∀ r ∈ rows ++ [row], (Value.obj r).keysNodup) (hsep : ∀ r ∈ rows ++ [row], hasSeparator r = false) (k : Nat) :
    load prep keep (splitlines (universal (text rows ++ (dumps (.obj row)).take k))) =
      if k = 0 then (rows.filter keep, 0)
      else if k < (dumps (.obj row)).length then (rows.filter keep, 1)
      else ((rows ++ [row]).filter keep, 0) := by
  obtain ⟨hrows, hone⟩ := List.forall_mem_append.1 hnodup
  obtain ⟨hrowsseps, hrowsep⟩ := List.forall_mem_append.1 hsep
  have hrow := List.forall_mem_singleton.1 hone
  have hplain : Plain (dumps (.obj row)) := dumps_no_control _
  have hnone : ∀ c ∈ dumps (.obj row), isSeparator c = false := by
    have hany := dumps_any_separator row
    rw [List.forall_mem_singleton.1 hrowsep, List.any_eq_false] at hany
    exact fun c hc => Bool.eq_false_iff.2 (hany c hc)
  have hbound := boundary_of_plain hplain hnone
  have hcut : ∀ c ∈ (dumps (.obj row)).take k, isBoundary c = false := fun c hc => hbound c (List.mem_of_mem_take hc)
  have hret : '\r' ∉ text rows ++ (dumps (.obj row)).take k := by
    rw [List.mem_append, not_or]
    constructor
    · rw [text, join, List.mem_flatMap]
      rintro ⟨line, hline, hmem⟩
      rcases List.mem_append.1 hmem with hmem | hmem
      · exact return_notMem_plain (plain_lines rows line hline) hmem
      · exact absurd (List.mem_singleton.1 hmem) (by decide)
    · exact fun hmem => return_notMem_plain hplain (List.mem_of_mem_take hmem)
  rw [universal_of_notMem hret, text, splitlines_join_append (plain_lines rows) (no_separators hrowsseps), load_append,
    load_rows hprep hrows]
  by_cases hzero : k = 0
  · subst hzero
    have hnil : splitlines ((dumps (.obj row)).take 0) = [] := rfl
    rw [if_pos rfl, hnil]
    simp [load]
  · rw [if_neg hzero]
    have hne : (dumps (.obj row)).take k ≠ [] := by
      obtain ⟨t, ht⟩ := dumps_obj_braces row
      rw [ht, List.take_cons (Nat.pos_of_ne_zero hzero)]
      exact List.cons_ne_nil _ _
    rw [splitlines_lone hcut hne]
    by_cases hlt : k < (dumps (.obj row)).length
    · have hback : (dumps (.obj row)).drop k ≠ [] := by
        intro hnil
        rw [List.drop_eq_nil_iff] at hnil
        omega
      rw [if_pos hlt, load_front hprep hrow (List.take_append_drop k _).symm hne hback]
      simp
    · rw [if_neg hlt, List.take_of_length_le (by omega)]
      have hlast : load prep keep [dumps (.obj row)] = ([row].filter keep, 0) := load_rows hprep hone
      rw [hlast, List.filter_append]
      rfl

end JsonLines
