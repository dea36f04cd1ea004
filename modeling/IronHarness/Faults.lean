import Mathlib.Algebra.Order.Floor.Semiring
import Mathlib.Data.List.Nodup
import Mathlib.Data.Rat.Floor
import IronHarness.Lib.Bytes

/-!
# Scripted faults on a line

`FaultyTransport` (io_core/faults.py) counts the operations on a transport, and each `Fault` acts in its window of
operation numbers with its probability.  The random generator is a parameter (`Rng`); what is used of it is that a
sample has distinct positions in range and that a bit number is in range (`Rng.Lawful`).
-/

namespace IronHarness.Faults

open ByteText

inductive Action
  | drop
  | corrupt
  | delay
  | disconnect
  deriving DecidableEq, Repr

/-- The fields of a fault before `__post_init__` has looked at them. -/
structure FaultFields where
  action : String
  afterOps : Int
  count : Option Int
  probability : ℚ
  ratio : ℚ
  seconds : ℚ

/-- A fault that `__post_init__` accepts. -/
structure Fault where
  action : Action
  afterOps : Nat
  count : Option Nat
  probability : ℚ
  ratio : ℚ
  seconds : ℚ
  count_pos : ∀ n, count = some n → 1 ≤ n
  probability_mem : 0 ≤ probability ∧ probability ≤ 1
  ratio_mem : 0 ≤ ratio ∧ ratio ≤ 1
  seconds_nonneg : 0 ≤ seconds

def actionOf : String → Option Action
  | "drop" => some .drop
  | "corrupt" => some .corrupt
  | "delay" => some .delay
  | "disconnect" => some .disconnect
  | _ => none

/-- What `__post_init__` refuses, in its order. -/
inductive FaultError
  | unknownAction (action : String)
  | probability
  | ratio
  | seconds
  | afterOps
  | count
  deriving DecidableEq, Repr

/-- `Fault(**fields)` -/
def Fault.of (fields : FaultFields) : Except FaultError Fault :=
  match actionOf fields.action with
  | none => .error (.unknownAction fields.action)
  | some action =>
    if hprobability : 0 ≤ fields.probability ∧ fields.probability ≤ 1 then
      if hratio : 0 ≤ fields.ratio ∧ fields.ratio ≤ 1 then
        if hseconds : fields.seconds < 0 then .error .seconds
        else if fields.afterOps < 0 then .error .afterOps
        else if hcount : ∃ n, fields.count = some n ∧ n < 1 then .error .count
        else .ok
          { action := action, afterOps := fields.afterOps.toNat, count := fields.count.map Int.toNat,
            probability := fields.probability, ratio := fields.ratio, seconds := fields.seconds
            count_pos := by
              intro n hn
              obtain ⟨k, hk, rfl⟩ := Option.map_eq_some_iff.1 hn
              have hnot : ¬ k < 1 := fun hlt => hcount ⟨k, hk, hlt⟩
              omega
            probability_mem := hprobability, ratio_mem := hratio
            seconds_nonneg := not_lt.1 hseconds }
      else .error .ratio
    else .error .probability

theorem Fault.isOk_of_iff (fields : FaultFields) :
    (∃ f, Fault.of fields = .ok f) ↔ (actionOf fields.action).isSome ∧ (0 ≤ fields.probability ∧ fields.probability ≤ 1) ∧
      (0 ≤ fields.ratio ∧ fields.ratio ≤ 1) ∧ 0 ≤ fields.seconds ∧ 0 ≤ fields.afterOps ∧
      ∀ n, fields.count = some n → 1 ≤ n := by
  unfold Fault.of
  constructor
  · rintro ⟨f, hf⟩
    split at hf
    · cases hf
    · rename_i action haction
      split_ifs at hf with hprobability hratio hseconds hafter hcount
      refine ⟨by simp [haction], hprobability, hratio, not_lt.1 hseconds, not_lt.1 hafter, ?_⟩
      intro n hn
      by_contra hlt
      exact hcount ⟨n, hn, not_le.1 hlt⟩
  · rintro ⟨haction, hprobability, hratio, hseconds, hafter, hcount⟩
    obtain ⟨action, haction⟩ := Option.isSome_iff_exists.1 haction
    have hnone : ¬ ∃ n, fields.count = some n ∧ n < 1 := fun ⟨n, hn, hlt⟩ => absurd (hcount n hn) (not_le.2 hlt)
    rw [haction]
    simp only [dif_pos hprobability, dif_pos hratio, dif_neg (not_lt.2 hseconds), if_neg (not_lt.2 hafter), dif_neg hnone]
    exact ⟨_, rfl⟩

/-! ### The random generator -/

/-- `random.Random`: each call gives a value and the generator behind it. -/
structure Rng (G : Type) where
  random : G → ℚ × G
  /-- `sample(range(n), k)` -/
  sample : Nat → Nat → G → List Nat × G
  randrange : Nat → G → Nat × G

/-- What the documentation of `random` says of the three calls. -/
structure Rng.Lawful {G : Type} (rng : Rng G) : Prop where
  random : ∀ g, 0 ≤ (rng.random g).1 ∧ (rng.random g).1 < 1
  sample : ∀ n k g, k ≤ n → (rng.sample n k g).1.Nodup ∧ (rng.sample n k g).1.length = k ∧
    ∀ pos ∈ (rng.sample n k g).1, pos < n
  randrange : ∀ n g, 0 < n → (rng.randrange n g).1 < n

/-! ### The transport -/

section

variable {G : Type} (rng : Rng G) (scaled : Nat → ℚ → Nat)

/-- The number of bytes to corrupt in data that is not empty; `scaled` is `int(len(data) * ratio)`, whose product is
rounded. -/
def corruptCount (ratio : ℚ) (length : Nat) : Nat :=
  max 1 (min (if scaled length ratio = 0 then 1 else scaled length ratio) length)

/-- The loop over the positions of `_corrupt`. -/
def flipBits : List Nat → Bytes → G → Bytes × G
  | [], out, g => (out, g)
  | pos :: positions, out, g =>
    let (bit, g) := rng.randrange 8 g
    flipBits positions (out.modify pos fun b => b ^^^ ((1 : UInt8) <<< UInt8.ofNat bit)) g

/-- `_corrupt` -/
def corrupt (data : Bytes) (ratio : ℚ) (g : G) : Bytes × G :=
  if data = [] ∨ ratio ≤ 0 then (data, g)
  else
    let (positions, g) := rng.sample data.length (corruptCount scaled ratio data.length) g
    flipBits rng positions data g

/-- The operation number `n` is in the window of the fault. -/
def Fault.InWindow (f : Fault) (n : Nat) : Prop := f.afterOps < n ∧ ∀ c, f.count = some c → n ≤ f.afterOps + c

instance (f : Fault) (n : Nat) : Decidable (f.InWindow n) :=
  match h : f.count with
  | none => decidable_of_iff (f.afterOps < n) ⟨fun hlt => ⟨hlt, by simp [h]⟩, And.left⟩
  | some c => decidable_of_iff (f.afterOps < n ∧ n ≤ f.afterOps + c)
      ⟨fun hboth => ⟨hboth.1, by simpa [h] using hboth.2⟩, fun hwindow => ⟨hwindow.1, hwindow.2 c h⟩⟩

/-- The loop of `_active`: a generator value is drawn for each fault in its window, and for no other. -/
def active (n : Nat) : List Fault → G → List Fault × G
  | [], g => ([], g)
  | f :: faults, g =>
    if f.InWindow n then
      let (drawn, g) := rng.random g
      let (rest, g) := active n faults g
      (if drawn < f.probability then f :: rest else rest, g)
    else active n faults g

structure FaultyTransport (G : Type) where
  faults : List Fault
  ops : Nat
  rng : G

inductive Op
  | write (data : Bytes)
  | read (size : Nat)
  deriving DecidableEq

/-- What becomes of an operation: `ConnectionLost`, nothing or an empty read without the target, or the operation on
the target; and the delays before it. -/
inductive Fate
  | lost
  | dropped (delays : List ℚ)
  | passed (delays : List ℚ) (op : Op)
  deriving DecidableEq

/-- The second loop of `write`. -/
def corruptAll : List Fault → Bytes → G → Bytes × G
  | [], data, g => (data, g)
  | f :: faults, data, g =>
    if f.action = .corrupt then
      let (data, g) := corrupt rng scaled data f.ratio g
      corruptAll faults data g
    else corruptAll faults data g

def delaysOf (faults : List Fault) : List ℚ := (faults.filter fun f => f.action = .delay).map Fault.seconds

/-- `write` and `read`, with the number that the operation gets. -/
def FaultyTransport.op (t : FaultyTransport G) (op : Op) : Fate × FaultyTransport G :=
  let n := t.ops + 1
  let (faults, g) := active rng n t.faults t.rng
  if faults.any fun f => f.action = .disconnect then (.lost, { t with ops := n, rng := g })
  else if faults.any fun f => f.action = .drop then (.dropped (delaysOf faults), { t with ops := n, rng := g })
  else
    match op with
    | .read size => (.passed (delaysOf faults) (.read size), { t with ops := n, rng := g })
    | .write data =>
      let (data, g) := corruptAll rng scaled faults data g
      (.passed (delaysOf faults) (.write data), { t with ops := n, rng := g })

/-- The fates of the operations of a script. -/
def FaultyTransport.script (t : FaultyTransport G) : List Op → List Fate
  | [] => []
  | op :: ops => (t.op rng scaled op).1 :: (t.op rng scaled op).2.script ops

end

/-! ### Corruption -/

/-- Of the data, the bytes at the positions have one bit flipped, and the others are the same. -/
structure Flipped (positions : List Nat) (data out : Bytes) : Prop where
  length : out.length = data.length
  same : ∀ i ∉ positions, out[i]? = data[i]?
  flipped : ∀ i ∈ positions, ∃ bit < 8, out[i]? = (data[i]?).map fun b => b ^^^ ((1 : UInt8) <<< UInt8.ofNat bit)

/-- What the faults that act on a write make of its data: each corruption flips one bit in so many bytes. -/
inductive Corrupted (scaled : Nat → ℚ → Nat) : List Fault → Bytes → Bytes → Prop
  | nil (data : Bytes) : Corrupted scaled [] data data
  | other (f : Fault) (hf : f.action ≠ .corrupt) {faults : List Fault} {data out : Bytes}
      (h : Corrupted scaled faults data out) : Corrupted scaled (f :: faults) data out
  | clean (f : Fault) {faults : List Fault} {data out : Bytes} (hclean : data = [] ∨ f.ratio = 0)
      (h : Corrupted scaled faults data out) : Corrupted scaled (f :: faults) data out
  | corrupt (f : Fault) (hf : f.action = .corrupt) {faults : List Fault} {data mid out : Bytes} {positions : List Nat}
      (hdata : data ≠ []) (hratio : 0 < f.ratio) (hnodup : positions.Nodup) (hin : ∀ pos ∈ positions, pos < data.length)
      (hcount : positions.length = corruptCount scaled f.ratio data.length) (hflipped : Flipped positions data mid)
      (h : Corrupted scaled faults mid out) : Corrupted scaled (f :: faults) data out

theorem Corrupted.length {scaled : Nat → ℚ → Nat} {faults : List Fault} {data out : Bytes} (h : Corrupted scaled faults data out) :
    out.length = data.length := by
  induction h with
  | nil data => rfl
  | other f hf h ih => exact ih
  | clean f hclean h ih => exact ih
  | corrupt f hf hdata hratio hnodup hin hcount hflipped h ih => exact ih.trans hflipped.length

private theorem corruptCount_le {scaled : Nat → ℚ → Nat} {ratio : ℚ} {length : Nat} (h : 0 < length) :
    corruptCount scaled ratio length ≤ length := by
  unfold corruptCount
  omega

section

variable {G : Type} {rng : Rng G} {scaled : Nat → ℚ → Nat}

private theorem flipBits_flipped (hrng : rng.Lawful) {positions : List Nat} (hnodup : positions.Nodup) (data : Bytes)
    (g : G) :
    Flipped positions data (flipBits rng positions data g).1 := by
  induction positions generalizing data g with
  | nil => exact ⟨rfl, fun i _ => rfl, by simp⟩
  | cons pos positions ih =>
    obtain ⟨hpos, hnodup⟩ := List.nodup_cons.1 hnodup
    rw [flipBits]
    dsimp only
    have hbit := hrng.randrange 8 g (by omega)
    generalize (rng.randrange 8 g).1 = bit at hbit ⊢
    generalize hnext : data.modify pos (fun b => b ^^^ ((1 : UInt8) <<< UInt8.ofNat bit)) = next
    have hat : ∀ i, next[i]? =
        if pos = i then (data[i]?).map (fun b => b ^^^ ((1 : UInt8) <<< UInt8.ofNat bit)) else data[i]? := by
      intro i
      rw [← hnext, List.getElem?_modify]
      split
      · rfl
      · simp
    obtain ⟨hlength, hsame, hflipped⟩ := ih hnodup next (rng.randrange 8 g).2
    constructor
    · rw [hlength, ← hnext, List.length_modify]
    · intro i hi
      have hne : pos ≠ i := fun heq => hi (heq ▸ List.mem_cons_self)
      have hrest : i ∉ positions := fun hmem => hi (List.mem_cons_of_mem pos hmem)
      rw [hsame i hrest, hat, if_neg hne]
    · intro i hi
      rcases List.mem_cons.1 hi with rfl | hrest
      · refine ⟨bit, hbit, ?_⟩
        rw [hsame i hpos, hat, if_pos rfl]
      · have hne : pos ≠ i := fun heq => hpos (heq ▸ hrest)
        obtain ⟨bit', hbit', heq⟩ := hflipped i hrest
        refine ⟨bit', hbit', ?_⟩
        rw [heq, hat, if_neg hne]

private theorem corruptAll_corrupted (hrng : rng.Lawful) (faults : List Fault) (data : Bytes) (g : G) :
    Corrupted scaled faults data (corruptAll rng scaled faults data g).1 := by
  induction faults generalizing data g with
  | nil => exact .nil data
  | cons f faults ih =>
    rw [corruptAll]
    by_cases hf : f.action = .corrupt
    · rw [if_pos hf]
      dsimp only
      unfold corrupt
      by_cases hclean : data = [] ∨ f.ratio ≤ 0
      · rw [if_pos hclean]
        exact .clean f (hclean.imp_right fun hle => le_antisymm hle f.ratio_mem.1) (ih data g)
      · rw [if_neg hclean]
        obtain ⟨hdata, hratio⟩ := not_or.1 hclean
        have hlen : 0 < data.length := List.length_pos_iff.2 hdata
        obtain ⟨hnodup, hcount, hin⟩ := hrng.sample data.length (corruptCount scaled f.ratio data.length) g (corruptCount_le hlen)
        exact .corrupt f hf hdata (not_le.1 hratio) hnodup hin hcount (flipBits_flipped hrng hnodup data _) (ih _ _)
    · rw [if_neg hf]
      exact .other f hf (ih data g)

/-! ### The faults that act -/

/-- Operation `n` meets the faults in `acting`: those of its windows, all the certain ones among them. -/
structure Acting (faults : List Fault) (n : Nat) (acting : List Fault) : Prop where
  sublist : acting.Sublist (faults.filter fun f => f.InWindow n ∧ 0 < f.probability)
  certain : (faults.filter fun f => f.InWindow n ∧ f.probability = 1).Sublist acting

private theorem active_acting (hrng : rng.Lawful) (n : Nat) (faults : List Fault) (g : G) :
    Acting faults n (active rng n faults g).1 := by
  induction faults generalizing g with
  | nil => exact ⟨List.Sublist.refl _, List.Sublist.refl _⟩
  | cons f faults ih =>
    rw [active]
    by_cases hwindow : f.InWindow n
    · rw [if_pos hwindow]
      dsimp only
      obtain ⟨hnonneg, hlt⟩ := hrng.random g
      obtain ⟨hsub, hcertain⟩ := ih (rng.random g).2
      by_cases hdrawn : (rng.random g).1 < f.probability
      · rw [if_pos hdrawn]
        have hpos : 0 < f.probability := lt_of_le_of_lt hnonneg hdrawn
        constructor
        · rw [List.filter_cons_of_pos (by simp [hwindow, hpos])]
          exact hsub.cons_cons f
        · by_cases hone : f.probability = 1
          · rw [List.filter_cons_of_pos (by simp [hwindow, hone])]
            exact hcertain.cons_cons f
          · rw [List.filter_cons_of_neg (by simp [hone])]
            exact hcertain.cons f
      · rw [if_neg hdrawn]
        constructor
        · by_cases hpos : 0 < f.probability
          · rw [List.filter_cons_of_pos (by simp [hwindow, hpos])]
            exact hsub.cons f
          · rw [List.filter_cons_of_neg (by simp [hpos])]
            exact hsub
        · have hone : f.probability ≠ 1 := by
            intro hone
            rw [hone] at hdrawn
            exact hdrawn hlt
          rw [List.filter_cons_of_neg (by simp [hone])]
          exact hcertain
    · rw [if_neg hwindow]
      obtain ⟨hsub, hcertain⟩ := ih g
      rw [← List.filter_cons_of_neg (a := f) (by simp [hwindow])] at hsub hcertain
      exact ⟨hsub, hcertain⟩

/-- Faults that are certain or impossible act by their windows alone. -/
theorem Acting.eq {faults acting : List Fault} {n : Nat} (h : Acting faults n acting)
    (hcertain : ∀ f ∈ faults, f.probability = 0 ∨ f.probability = 1) :
    acting = faults.filter fun f => f.InWindow n ∧ f.probability = 1 := by
  have hsame : (faults.filter fun f => f.InWindow n ∧ 0 < f.probability) =
      faults.filter fun f => f.InWindow n ∧ f.probability = 1 := by
    apply List.filter_congr
    intro f hf
    rcases hcertain f hf with hp | hp <;> simp [hp]
  rw [← hsame]
  have hsub := h.certain
  rw [← hsame] at hsub
  exact h.sublist.antisymm hsub

/-- The fate of an operation that meets the faults. -/
inductive Meets (scaled : Nat → ℚ → Nat) (acting : List Fault) : Op → Fate → Prop
  | lost (op : Op) (h : ∃ f ∈ acting, f.action = .disconnect) : Meets scaled acting op .lost
  | dropped (op : Op) (hup : ∀ f ∈ acting, f.action ≠ .disconnect) (h : ∃ f ∈ acting, f.action = .drop) :
      Meets scaled acting op (.dropped (delaysOf acting))
  | read (size : Nat) (hup : ∀ f ∈ acting, f.action ≠ .disconnect) (hkept : ∀ f ∈ acting, f.action ≠ .drop) :
      Meets scaled acting (.read size) (.passed (delaysOf acting) (.read size))
  | write (data out : Bytes) (hup : ∀ f ∈ acting, f.action ≠ .disconnect) (hkept : ∀ f ∈ acting, f.action ≠ .drop)
      (h : Corrupted scaled acting data out) : Meets scaled acting (.write data) (.passed (delaysOf acting) (.write out))

private theorem op_meets (hrng : rng.Lawful) (t : FaultyTransport G) (op : Op) :
    ∃ acting, Acting t.faults (t.ops + 1) acting ∧ Meets scaled acting op (t.op rng scaled op).1 ∧
      (t.op rng scaled op).2.faults = t.faults ∧ (t.op rng scaled op).2.ops = t.ops + 1 := by
  have hacting := active_acting hrng (t.ops + 1) t.faults t.rng
  refine ⟨_, hacting, ?_⟩
  unfold FaultyTransport.op
  dsimp only
  generalize active rng (t.ops + 1) t.faults t.rng = acting
  split
  · rename_i hlost
    exact ⟨.lost op (by simpa using hlost), rfl, rfl⟩
  · rename_i hup
    split
    · rename_i hdrop
      exact ⟨.dropped op (by simpa using hup) (by simpa using hdrop), rfl, rfl⟩
    · rename_i hkept
      cases op with
      | read size => exact ⟨.read size (by simpa using hup) (by simpa using hkept), rfl, rfl⟩
      | write data =>
        exact ⟨.write data _ (by simpa using hup) (by simpa using hkept) (corruptAll_corrupted hrng _ data _), rfl, rfl⟩

theorem Meets.clear {op : Op} {fate : Fate} (h : Meets scaled [] op fate) : fate = .passed [] op := by
  cases h with
  | lost op hdown => simp at hdown
  | dropped op hup hdrop => simp at hdrop
  | read size hup hkept => rfl
  | write data out hup hkept hcorrupted =>
    cases hcorrupted
    rfl

private theorem script_length (t : FaultyTransport G) (ops : List Op) :
    (t.script rng scaled ops).length = ops.length := by
  induction ops generalizing t with
  | nil => rfl
  | cons op ops ih => rw [FaultyTransport.script, List.length_cons, List.length_cons, ih]

/-- The operations of a script are numbered on from those the transport has seen. -/
private theorem script_acting (hrng : rng.Lawful) {ops : List Op} (t : FaultyTransport G) {i : Nat} {op : Op}
    {fate : Fate}
    (hop : ops[i]? = some op) (hfate : (t.script rng scaled ops)[i]? = some fate) :
    ∃ acting, Acting t.faults (t.ops + i + 1) acting ∧ Meets scaled acting op fate := by
  induction ops generalizing t i with
  | nil => cases hop
  | cons first ops ih =>
    obtain ⟨acting, hacting, hmeets, hfaults, hnumber⟩ := op_meets hrng t first
    rw [FaultyTransport.script] at hfate
    cases i with
    | zero =>
      obtain rfl := Option.some.inj hop
      obtain rfl := Option.some.inj hfate
      exact ⟨acting, hacting, hmeets⟩
    | succ i =>
      obtain ⟨acting, hacting, hmeets⟩ := ih (t.op rng scaled first).2 hop hfate
      rw [hfaults, hnumber] at hacting
      have hplace : t.ops + 1 + i + 1 = t.ops + (i + 1) + 1 := by omega
      exact ⟨acting, hplace ▸ hacting, hmeets⟩

/-- Each operation of a script has one fate.  The `i`-th meets faults whose windows hold `i + 1`, all the certain ones
among them, and no others where every fault is certain or impossible; outside all windows the target gets the operation
as it is. -/
theorem script_meets (hrng : rng.Lawful) (faults : List Fault) (g : G) (ops : List Op) :
    (FaultyTransport.script rng scaled ⟨faults, 0, g⟩ ops).length = ops.length ∧
    ∀ i op fate, ops[i]? = some op → (FaultyTransport.script rng scaled ⟨faults, 0, g⟩ ops)[i]? = some fate →
      (∃ acting, Acting faults (i + 1) acting ∧ Meets scaled acting op fate ∧
        ((∀ f ∈ faults, f.probability = 0 ∨ f.probability = 1) →
          acting = faults.filter fun f => f.InWindow (i + 1) ∧ f.probability = 1)) ∧
      ((∀ f ∈ faults, ¬ f.InWindow (i + 1)) → fate = .passed [] op) := by
  refine ⟨script_length _ ops, ?_⟩
  intro i op fate hop hfate
  obtain ⟨acting, hacting, hmeets⟩ := script_acting hrng ⟨faults, 0, g⟩ hop hfate
  rw [show (⟨faults, 0, g⟩ : FaultyTransport G).ops = 0 from rfl, Nat.zero_add] at hacting
  refine ⟨⟨acting, hacting, hmeets, hacting.eq⟩, ?_⟩
  intro hout
  have hnone : (faults.filter fun f => f.InWindow (i + 1) ∧ 0 < f.probability) = [] :=
    List.filter_eq_nil_iff.2 fun f hf => by simp [hout f hf]
  have hempty : acting = [] := List.sublist_nil.1 (hnone ▸ hacting.sublist)
  rw [hempty] at hmeets
  exact hmeets.clear

end

/-- Draws nothing at random. -/
def Rng.still : Rng Unit where
  random := fun g => (0, g)
  sample := fun _ k g => (List.range k, g)
  randrange := fun _ g => (0, g)

private theorem Rng.still_lawful : Rng.still.Lawful where
  random := fun _ => ⟨le_refl _, one_pos⟩
  sample := fun n k g hk => ⟨List.nodup_range, List.length_range, fun pos hpos => by
    have hlt : pos < k := List.mem_range.1 hpos
    omega⟩
  randrange := fun _ _ h => h

/-- A second write that is corrupted, and a third operation that finds the line down. -/
def noisyThenDown : List Fault :=
  [{ action := .corrupt, afterOps := 1, count := some 1, probability := 1, ratio := 1 / 4, seconds := 0,
     count_pos := by simp, probability_mem := by norm_num, ratio_mem := by norm_num, seconds_nonneg := le_refl _ },
   { action := .disconnect, afterOps := 2, count := none, probability := 1, ratio := 0, seconds := 0,
     count_pos := by simp, probability_mem := by norm_num, ratio_mem := by norm_num, seconds_nonneg := le_refl _ }]

theorem script_meets_noisyThenDown :
    FaultyTransport.script Rng.still (fun n r => ⌊n * r⌋₊) ⟨noisyThenDown, 0, ()⟩
      [.write [65, 66], .write [65, 66], .read 1] = [.passed [] (.write [65, 66]), .passed [] (.write [64, 66]), .lost] ∧
    ∃ acting, Acting noisyThenDown 2 acting ∧
      Meets (fun n r => ⌊n * r⌋₊) acting (.write [65, 66]) (.passed [] (.write [64, 66])) := by
  have hfates : FaultyTransport.script Rng.still (fun n r => ⌊n * r⌋₊) ⟨noisyThenDown, 0, ()⟩
      [.write [65, 66], .write [65, 66], .read 1] =
        [.passed [] (.write [65, 66]), .passed [] (.write [64, 66]), .lost] := by
    decide +kernel
  obtain ⟨-, hmeets⟩ := @script_meets Unit Rng.still (fun n r => ⌊n * r⌋₊) Rng.still_lawful noisyThenDown ()
    [.write [65, 66], .write [65, 66], .read 1]
  obtain ⟨⟨acting, hacting, hmeets, -⟩, -⟩ := hmeets 1 (.write [65, 66]) (.passed [] (.write [64, 66])) rfl
    (by rw [hfates]; rfl)
  exact ⟨hfates, acting, hacting, hmeets⟩

end IronHarness.Faults
