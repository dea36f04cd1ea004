import IronHarness.Journal.Append

/-!
# The names of the lock files

The writer of `name` locks `name.lock`.  A reader is given the name of the live file or of a part and derives the
name of the lock by removing a number at the end.  For a part this is the lock of the writer (`readerLock_part`); for
the live file it is, unless the name of the journal itself ends in a number (`readerLock_eq_iff`).
-/

namespace IronHarness.Journal

/-- The zeros of the decimal digits of Unicode; the other nine digits follow each of them. -/
def decimalZeros : List Nat :=
  [0x30, 0x660, 0x6f0, 0x7c0, 0x966, 0x9e6, 0xa66, 0xae6, 0xb66, 0xbe6, 0xc66, 0xce6, 0xd66, 0xde6, 0xe50, 0xed0,
    0xf20, 0x1040, 0x1090, 0x17e0, 0x1810, 0x1946, 0x19d0, 0x1a80, 0x1a90, 0x1b50, 0x1bb0, 0x1c40, 0x1c50, 0xa620,
    0xa8d0, 0xa900, 0xa9d0, 0xa9f0, 0xaa50, 0xabf0, 0xff10, 0x104a0, 0x10d30, 0x11066, 0x110f0, 0x11136, 0x111d0,
    0x112f0, 0x11450, 0x114d0, 0x11650, 0x116c0, 0x11730, 0x118e0, 0x11950, 0x11c50, 0x11d50, 0x11da0, 0x11f50,
    0x16a60, 0x16ac0, 0x16b50, 0x1d7ce, 0x1d7d8, 0x1d7e2, 0x1d7ec, 0x1d7f6, 0x1e140, 0x1e2f0, 0x1e4f0, 0x1e950,
    0x1fbf0]

/-- The class `\d` of a pattern. -/
def isDecimal (c : Char) : Bool := decimalZeros.any fun z => z ≤ c.toNat && c.toNat < z + 10

/-- Where `\d+$` matches, what it leaves: `$` is the end of the text, or the place before a newline at its end. -/
def digitsEnd (cs : List Char) : Option (List Char) :=
  let rest := cs.dropWhile isDecimal
  if rest.length < cs.length ∧ (rest = [] ∨ rest = ['\n']) then some rest else none

/-- `re.sub(r"\.\d+$", "", name)`.  What a match leaves has no dot, so there is no second one. -/
def stripNumber : List Char → List Char
  | [] => []
  | c :: cs =>
    if c = '.' then
      match digitsEnd cs with
      | some rest => rest
      | none => c :: stripNumber cs
    else c :: stripNumber cs

/-- The lock file of `reader_sidecar_lock`. -/
def readerLock (file : String) : String := lockName (String.ofList (stripNumber file.toList))

/-- The name is a name, a dot and decimal digits, and maybe a newline. -/
def EndsInNumber (name : String) : Prop :=
  ∃ front digits rest, name.toList = front ++ '.' :: (digits ++ rest) ∧ digits ≠ [] ∧
    (∀ d ∈ digits, isDecimal d = true) ∧ (rest = [] ∨ rest = ['\n'])

/-! ### The pattern -/

variable {cs rest digits : List Char} {name : String}

private theorem dot_not_decimal : isDecimal '.' = false := by decide

private theorem newline_not_decimal : isDecimal '\n' = false := by decide

private theorem isDecimal_of_isDigit {c : Char} (h : c.isDigit = true) : isDecimal c = true := by
  have hrange : 0x30 ≤ c.toNat ∧ c.toNat < 0x30 + 10 := by
    simp only [Char.isDigit, Bool.and_eq_true, decide_eq_true_eq, ge_iff_le, UInt32.le_iff_toNat_le] at h
    have h1 : 0x30 ≤ c.toNat := h.1
    have h2 : c.toNat ≤ 0x39 := h.2
    omega
  unfold isDecimal
  rw [List.any_eq_true]
  exact ⟨0x30, by simp [decimalZeros], by simpa using hrange⟩

private theorem digitsEnd_eq_some_iff :
    digitsEnd cs = some rest ↔ ∃ digits, cs = digits ++ rest ∧ digits ≠ [] ∧ (∀ d ∈ digits, isDecimal d = true) ∧
      (rest = [] ∨ rest = ['\n']) := by
  unfold digitsEnd
  dsimp only
  constructor
  · intro h
    split at h
    · rename_i hcond
      obtain rfl := Option.some.inj h
      obtain ⟨hlen, hrest⟩ := hcond
      have hsplit := List.takeWhile_append_dropWhile (p := isDecimal) (l := cs)
      refine ⟨cs.takeWhile isDecimal, hsplit.symm, ?_, ?_, hrest⟩
      · intro hnil
        rw [hnil, List.nil_append] at hsplit
        rw [hsplit] at hlen
        exact Nat.lt_irrefl _ hlen
      · intro d hd
        exact List.mem_takeWhile_imp hd
    · cases h
  · rintro ⟨digits, rfl, hne, hall, hrest⟩
    have hstop : rest.dropWhile isDecimal = rest := by
      rcases hrest with rfl | rfl
      · rfl
      · rw [List.dropWhile_cons, newline_not_decimal]
        rfl
    have hdrop : (digits ++ rest).dropWhile isDecimal = rest := by
      rw [List.dropWhile_append_of_pos hall, hstop]
    rw [hdrop, if_pos]
    have := List.length_pos_iff.2 hne
    simp only [List.length_append]
    exact ⟨by omega, hrest⟩

/-- A dot stops the digits. -/
private theorem digitsEnd_dot (front tail : List Char) : digitsEnd (front ++ '.' :: tail) = none := by
  rw [Option.eq_none_iff_forall_ne_some]
  intro rest h
  obtain ⟨digits, hsplit, -, hall, hrest⟩ := digitsEnd_eq_some_iff.1 h
  have hdot : '.' ∈ digits ++ rest := by
    rw [← hsplit]
    simp
  rcases List.mem_append.1 hdot with hdot | hdot
  · have := hall '.' hdot
    rw [dot_not_decimal] at this
    cases this
  · rcases hrest with rfl | rfl
    · cases hdot
    · simp at hdot

/-- The number at the end of a name is removed. -/
private theorem stripNumber_append (front : List Char) (h : digitsEnd digits = some rest) :
    stripNumber (front ++ '.' :: digits) = front ++ rest := by
  induction front with
  | nil =>
    rw [List.nil_append, stripNumber, if_pos rfl, h]
    rfl
  | cons c front ih =>
    rw [List.cons_append, stripNumber, ih]
    split
    · rw [digitsEnd_dot]
      rfl
    · rfl

/-- A name without a number at its end stays as it is. -/
private theorem stripNumber_self (h : ∀ front tail, cs = front ++ '.' :: tail → digitsEnd tail = none) :
    stripNumber cs = cs := by
  induction cs with
  | nil => rfl
  | cons c cs ih =>
    have hrest : stripNumber cs = cs := by
      apply ih
      intro front tail hsplit
      exact h (c :: front) tail (by rw [hsplit]; rfl)
    rw [stripNumber, hrest]
    split
    · rename_i hc
      rw [h [] cs (by rw [hc]; rfl)]
    · rfl

private theorem endsInNumber_iff :
    EndsInNumber name ↔ ∃ front tail rest, name.toList = front ++ '.' :: tail ∧ digitsEnd tail = some rest := by
  constructor
  · rintro ⟨front, digits, rest, hname, hne, hall, hrest⟩
    exact ⟨front, digits ++ rest, rest, hname, digitsEnd_eq_some_iff.2 ⟨digits, rfl, hne, hall, hrest⟩⟩
  · rintro ⟨front, tail, rest, hname, hend⟩
    obtain ⟨digits, rfl, hne, hall, hrest⟩ := digitsEnd_eq_some_iff.1 hend
    exact ⟨front, digits, rest, hname, hne, hall, hrest⟩

/-! ### The lock of a reader -/

private theorem lockName_inj {a b : String} (h : lockName a = lockName b) : a = b := by
  have hlist := congrArg String.toList h
  simp only [lockName, String.toList_append, List.append_cancel_right_eq] at hlist
  exact String.toList_inj.1 hlist

/-- The reader of the live file takes the lock of the writer unless the name ends in a number. -/
theorem readerLock_eq_iff : readerLock name = lockName name ↔ ¬ EndsInNumber name := by
  rw [endsInNumber_iff]
  constructor
  · rintro h ⟨front, tail, rest, hname, hend⟩
    have hstrip : stripNumber name.toList = name.toList := by
      have := congrArg String.toList (lockName_inj h)
      rwa [String.toList_ofList] at this
    rw [hname, stripNumber_append front hend] at hstrip
    obtain ⟨digits, rfl, hne, -, -⟩ := digitsEnd_eq_some_iff.1 hend
    have hlen := congrArg List.length hstrip
    simp only [List.length_append, List.length_cons] at hlen
    omega
  · intro h
    rw [readerLock, stripNumber_self, String.ofList_toList]
    intro front tail hname
    rw [Option.eq_none_iff_forall_ne_some]
    intro rest hend
    exact h ⟨front, tail, rest, hname, hend⟩

private theorem toList_partName (name : String) (i : Nat) :
    (partName name i).toList = name.toList ++ '.' :: Nat.toDigits 10 i := by
  rw [partName, String.toList_append, String.toList_append, ← Nat.toList_repr, List.append_assoc]
  rfl

/-- The reader of a part takes the lock of the writer. -/
theorem readerLock_part (name : String) (i : Nat) : readerLock (partName name i) = lockName name := by
  have hend : digitsEnd (Nat.toDigits 10 i) = some [] := by
    rw [digitsEnd_eq_some_iff]
    refine ⟨Nat.toDigits 10 i, (List.append_nil _).symm, ?_, ?_, Or.inl rfl⟩
    · exact Nat.toDigits_ne_nil
    · intro d hd
      exact isDecimal_of_isDigit (Nat.isDigit_of_mem_toDigits (by decide) (by decide) hd)
  rw [readerLock, toList_partName, stripNumber_append _ hend, List.append_nil, String.ofList_toList]

/-- The reader of the live file of a journal whose name ends in a number: its lock is not the name of the journal
with something after it. -/
private theorem readerLock_ne_append (hname : EndsInNumber name) (tail : List Char) :
    (readerLock name).toList ≠ name.toList ++ tail := by
  obtain ⟨front, digits, rest, hsplit, hne, hall, hrest⟩ := hname
  intro h
  obtain ⟨d, digits, rfl⟩ := List.exists_cons_of_ne_nil hne
  have hend : digitsEnd (d :: digits ++ rest) = some rest :=
    digitsEnd_eq_some_iff.2 ⟨_, rfl, hne, hall, hrest⟩
  have hlock : (readerLock name).toList = front ++ (rest ++ ".lock".toList) := by
    rw [readerLock, lockName, String.toList_append, String.toList_ofList, hsplit, stripNumber_append front hend,
      List.append_assoc]
  rw [hlock, hsplit, List.append_assoc, List.append_cancel_left_eq] at h
  rcases hrest with rfl | rfl
  · have hd : 'l' = d := (List.cons.inj (List.cons.inj h).2).1
    have := hall d List.mem_cons_self
    rw [← hd] at this
    revert this
    decide
  · have : '\n' = '.' := (List.cons.inj h).1
    revert this
    decide

/-- A file that is not of the journal: neither its live file nor a part. -/
def Foreign (name file : String) : Prop := file ≠ name ∧ ∀ i, file ≠ partName name i

theorem Foreign.ne {file : String} (h : Foreign name file) (i : Nat) : file ≠ fileName name i := by
  unfold fileName
  split
  · exact h.1
  · exact h.2 i

theorem foreign_lockName (name : String) : Foreign name (lockName name) :=
  ⟨lockName_ne_self name, lockName_ne_partName name⟩

/-- The lock of a reader is no file of the journal. -/
theorem foreign_readerLock (name : String) (i : Nat) : Foreign name (readerLock (fileName name i)) := by
  rcases Nat.eq_zero_or_pos i with rfl | hi
  · rw [fileName_zero]
    by_cases hname : EndsInNumber name
    · constructor
      · intro h
        apply readerLock_ne_append hname []
        rw [h, List.append_nil]
      · intro k h
        apply readerLock_ne_append hname ('.' :: Nat.toDigits 10 k)
        rw [h, toList_partName]
    · rw [readerLock_eq_iff.2 hname]
      exact foreign_lockName name
  · rw [fileName_of_pos hi, readerLock_part]
    exact foreign_lockName name

end IronHarness.Journal
