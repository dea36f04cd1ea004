import IronHarness.Lib.Lines

/-!
# Lines of a text that comes in chunks

`scan` cuts a text into lines from left to right, carrying the current line and whether the last character was a
carriage return, so that it can go on where the text before has ended.  Each line of a whole text has a last piece,
the part in the chunk where it ends, and the last pieces are lines of the chunks, in order (`pieces_sublist`).
-/

namespace TextLines

variable {α : Type} {char : α → Char} {tag : α → Nat}

/-- `str.splitlines` after `acc`, the characters of the current line backwards, and perhaps a carriage return. -/
def scan (char : α → Char) : List α → Bool → List α → List (List α)
  | acc, _, [] => if acc.isEmpty then [] else [acc.reverse]
  | acc, cr, x :: xs =>
    if cr && char x == '\n' then scan char acc false xs
    else if isBoundary (char x) then acc.reverse :: scan char [] (char x == '\r') xs
    else scan char (x :: acc) false xs

section Scan

variable {acc xs : List α} {cr : Bool} {x : α}

private theorem scan_boundary (hskip : (cr && char x == '\n') = false) (hx : isBoundary (char x) = true) :
    scan char acc cr (x :: xs) = acc.reverse :: scan char [] (char x == '\r') xs := by
  simp [scan, hskip, hx]

private theorem scan_push (hskip : (cr && char x == '\n') = false) (hx : isBoundary (char x) = false) :
    scan char acc cr (x :: xs) = scan char (x :: acc) false xs := by
  simp [scan, hskip, hx]

end Scan

/-- The lines of the characters. -/
theorem map_scan (acc : List α) (cr : Bool) (xs : List α) :
    (scan char acc cr xs).map (List.map char) = scan id (acc.map char) cr (xs.map char) := by
  induction xs generalizing acc cr with
  | nil =>
    cases acc <;> simp [scan]
  | cons x xs ih =>
    simp only [scan, List.map_cons, id]
    split
    · exact ih acc false
    · split
      · simp only [List.map_cons, List.map_reverse, ih]
        rfl
      · exact ih (x :: acc) false

private theorem splitlinesAux_of_ne {c : Char} {r : List Char} (acc : List Char) (h : ¬ (c = '\r' ∧ r.head? = some '\n')) :
    splitlinesAux acc (c :: r) =
      if isBoundary c then acc.reverse :: splitlinesAux [] r else splitlinesAux (c :: acc) r := by
  rw [splitlinesAux]
  rintro r' rfl rfl
  exact h ⟨rfl, rfl⟩

/-- After a carriage return a newline belongs to the boundary. -/
theorem scan_eq_splitlines (text : List Char) :
    (∀ acc, scan id acc false text = splitlinesAux acc text) ∧
      scan id [] true text = splitlinesAux [] (if text.head? = some '\n' then text.tail else text) := by
  induction text with
  | nil => exact ⟨fun acc => rfl, rfl⟩
  | cons c text ih =>
    have hfalse : ∀ acc, scan id acc false (c :: text) = splitlinesAux acc (c :: text) := by
      intro acc
      by_cases hcr : c = '\r'
      · subst hcr
        rw [scan]
        simp only [id, Bool.false_and, Bool.false_eq_true, if_false]
        rw [if_pos (by decide), show ('\r' == '\r') = true from rfl, ih.2]
        cases text with
        | nil => rfl
        | cons d text =>
          by_cases hd : d = '\n'
          · subst hd
            rfl
          · rw [splitlinesAux_of_ne acc (by simp [hd])]
            simp [hd, isBoundary]
      · rw [splitlinesAux_of_ne acc (by simp [hcr]), scan]
        simp only [id, Bool.false_and, Bool.false_eq_true, if_false, beq_false_of_ne hcr, ih.1]
    refine ⟨hfalse, ?_⟩
    by_cases hc : c = '\n'
    · subst hc
      exact ih.1 []
    · have hstep : scan id [] true (c :: text) = scan id [] false (c :: text) := by
        simp [scan, hc]
      rw [hstep, hfalse []]
      simp [hc]

theorem splitlines_eq_scan (text : List Char) : splitlines text = scan id [] false text :=
  ((scan_eq_splitlines text).1 []).symm

/-! ### The last pieces of the lines -/

/-- The chunks have the tags `n`, `n + 1` and so on. -/
def Tagged (tag : α → Nat) : Nat → List (List α) → Prop
  | _, [] => True
  | n, chunk :: chunks => (∀ x ∈ chunk, tag x = n) ∧ Tagged tag (n + 1) chunks

/-- The part of a line, given backwards, in the chunk where it ends. -/
def pieceOf (tag : α → Nat) : List α → List α
  | [] => []
  | x :: acc => ((x :: acc).takeWhile fun y => tag y = tag x).reverse

/-- The part of a line in the chunk where it ends. -/
def lastPiece (tag : α → Nat) (line : List α) : List α := pieceOf tag line.reverse

theorem getLast_lastPiece (line : List α) : (lastPiece tag line).getLast? = line.getLast? := by
  rw [← List.head?_reverse, ← List.head?_reverse, lastPiece]
  cases line.reverse with
  | nil => rfl
  | cons x acc => simp [pieceOf]

/-- A line that ended before the chunk `n` has its last piece among the lines of the chunks before. -/
private def credit (tag : α → Nat) (n : Nat) : List α → List (List α)
  | [] => []
  | x :: acc => if tag x = n then [] else [pieceOf tag (x :: acc)]

private theorem piece_eq {n : Nat} {acc : List α} (h : credit tag n acc = []) :
    (acc.takeWhile fun y => tag y = n).reverse = pieceOf tag acc := by
  cases acc with
  | nil => rfl
  | cons x acc =>
    by_cases hx : tag x = n
    · subst hx
      rfl
    · simp [credit, hx] at h

private theorem credit_cases (tag : α → Nat) (n : Nat) (acc : List α) :
    credit tag n acc = [] ∨ (credit tag n acc = [pieceOf tag acc] ∧ acc ≠ [] ∧ acc.takeWhile (fun y => tag y = n) = []) := by
  cases acc with
  | nil => exact .inl rfl
  | cons x acc =>
    by_cases hx : tag x = n
    · exact .inl (by simp [credit, hx])
    · exact .inr ⟨by simp [credit, hx], by simp, by simp [hx]⟩

/-- The end of the text, or of a chunk: the current line, if any, is a line. -/
private theorem flush_sublist (n : Nat) (acc : List α) (cr : Bool) :
    (if acc.isEmpty then [] else [pieceOf tag acc]).Sublist
      (credit tag n acc ++ scan char (acc.takeWhile fun y => tag y = n) cr []) := by
  rcases credit_cases tag n acc with hnil | ⟨hpiece, hne, -⟩
  · rw [hnil, List.nil_append, scan, piece_eq hnil]
    cases acc with
    | nil => simp
    | cons x acc =>
      have hx : tag x = n := by
        by_contra hx
        simp [credit, hx] at hnil
      simp [hx]
  · rw [hpiece, if_neg (by simpa using hne)]
    exact List.sublist_append_left _ _

private theorem credit_succ {n : Nat} {acc : List α} (h : ∀ x ∈ acc, tag x < n) :
    credit tag n acc = if acc.isEmpty then [] else [pieceOf tag acc] := by
  cases acc with
  | nil => rfl
  | cons x acc =>
    have hx := h x (by simp)
    simp [credit, Nat.ne_of_lt hx]

private theorem takeWhile_old {n : Nat} {acc : List α} (h : ∀ x ∈ acc, tag x < n) :
    acc.takeWhile (fun y => tag y = n) = [] := by
  cases acc with
  | nil => rfl
  | cons x acc =>
    have hx := h x (by simp)
    simp [Nat.ne_of_lt hx]

/-- One chunk, with the line that is under way: `cr'` is what the chunk alone knows of the carriage return. -/
private theorem chunk_sublist {n : Nat} {rest : List (List α)} (hrest : ∀ (acc : List α) (cr : Bool),
      (∀ x ∈ acc, tag x < n + 1) → (cr = true → acc = []) →
      ((scan char acc cr rest.flatten).map (lastPiece tag)).Sublist
        ((if acc.isEmpty then [] else [pieceOf tag acc]) ++ rest.flatMap (scan char [] false)))
    (xs : List α) (hxs : ∀ x ∈ xs, tag x = n) (acc : List α) (cr cr' : Bool) (hacc : ∀ x ∈ acc, tag x < n + 1)
    (hcr : cr = true → acc = []) (hcr' : cr' = true → cr = true) :
    ((scan char acc cr (xs ++ rest.flatten)).map (lastPiece tag)).Sublist
      (credit tag n acc ++
        (scan char (acc.takeWhile fun y => tag y = n) cr' xs ++ rest.flatMap (scan char [] false))) := by
  induction xs generalizing acc cr cr' with
  | nil =>
    rw [List.nil_append, ← List.append_assoc]
    exact (hrest acc cr hacc hcr).trans ((flush_sublist n acc cr').append_right _)
  | cons x xs ih =>
    have hx := hxs x (by simp)
    have hxs' : ∀ y ∈ xs, tag y = n := fun y hy => hxs y (List.mem_cons_of_mem _ hy)
    have hempty : ∀ y ∈ ([] : List α), tag y < n + 1 := by simp
    rw [List.cons_append]
    by_cases hskip : (cr && char x == '\n') = true
    · -- the newline of a boundary that began in the chunk before
      have hstep : scan char acc cr (x :: (xs ++ rest.flatten)) = scan char acc false (xs ++ rest.flatten) := by
        simp [scan, hskip]
      rw [Bool.and_eq_true, beq_iff_eq] at hskip
      obtain rfl := hcr hskip.1
      have htail := ih hxs' [] false false hempty (by simp) (by simp)
      rw [hstep]
      cases cr' with
      | true => simpa [scan, hskip.2] using htail
      | false =>
        have hboundary : isBoundary (char x) = true := by rw [hskip.2]; decide
        have hnot : (char x == '\r') = false := by rw [hskip.2]; decide
        rw [List.takeWhile_nil, scan_boundary (by simp) hboundary, hnot]
        exact htail.trans (List.Sublist.append_left (List.sublist_cons_self _ _) _)
    · rw [Bool.not_eq_true] at hskip
      have hskip' : (cr' && char x == '\n') = false := by
        rw [Bool.eq_false_iff]
        intro h
        rw [Bool.and_eq_true] at h
        rw [hcr' h.1, h.2] at hskip
        cases hskip
      cases hboundary : isBoundary (char x) with
      | true =>
        rw [scan_boundary hskip hboundary, scan_boundary hskip' hboundary, List.map_cons, lastPiece,
          List.reverse_reverse]
        have htail := ih hxs' [] (char x == '\r') (char x == '\r') hempty (fun _ => rfl) fun h => h
        rcases credit_cases tag n acc with hnil | ⟨hpiece, -, -⟩
        · rw [hnil, piece_eq hnil]
          exact htail.cons_cons _
        · rw [hpiece]
          exact (htail.trans (List.sublist_cons_self _ _)).cons_cons _
      | false =>
        rw [scan_push hskip hboundary, scan_push hskip' hboundary]
        have hacc' : ∀ y ∈ x :: acc, tag y < n + 1 := by
          intro y hy
          rcases List.mem_cons.1 hy with rfl | hy
          · omega
          · exact hacc y hy
        have hcredit : credit tag n (x :: acc) = [] := by
          simp [credit, hx]
        have htail := ih hxs' (x :: acc) false false hacc' (by simp) (by simp)
        rw [hcredit, List.takeWhile_cons_of_pos (by simpa using hx)] at htail
        exact htail.trans (List.sublist_append_right _ _)

private theorem chunks_sublist {n : Nat} {chunks : List (List α)} (htagged : Tagged tag n chunks) (acc : List α) (cr : Bool)
    (hacc : ∀ x ∈ acc, tag x < n) (hcr : cr = true → acc = []) :
    ((scan char acc cr chunks.flatten).map (lastPiece tag)).Sublist
      ((if acc.isEmpty then [] else [pieceOf tag acc]) ++ chunks.flatMap (scan char [] false)) := by
  induction chunks generalizing n acc cr with
  | nil =>
    rw [List.flatten_nil, scan]
    cases acc with
    | nil => simp
    | cons x acc => simp [lastPiece]
  | cons chunk chunks ih =>
    have hchunk := chunk_sublist (fun acc cr hacc hcr => ih htagged.2 acc cr hacc hcr) chunk htagged.1 acc cr false
      (fun x hx => Nat.lt_succ_of_lt (hacc x hx)) hcr (by simp)
    rw [credit_succ hacc, takeWhile_old hacc] at hchunk
    simpa using hchunk

/-- The last pieces of the lines of a text are lines of its chunks, in order. -/
theorem pieces_sublist {n : Nat} {chunks : List (List α)} (htagged : Tagged tag n chunks) :
    ((scan char [] false chunks.flatten).map (lastPiece tag)).Sublist (chunks.flatMap (scan char [] false)) := by
  have h : ((scan char [] false chunks.flatten).map (lastPiece tag)).Sublist _ :=
    chunks_sublist htagged [] false (by simp) (by simp)
  simpa using h

end TextLines
