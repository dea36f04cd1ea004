import Mathlib.Logic.Function.Basic
import IronHarness.Session.Registry

/-!
# Connections, each with at most one owner

What the registries are for: a name has a connection or not, and its read side has at most one owner, a background
reader, a transfer or a monitor.  A reader belongs to a serial connection; a transfer or a monitor may outlive the
connection it was begun on.  `Represents` says that the registries of a session are such a table, name by name.
-/

namespace IronHarness.Session

inductive Owner
  | reader
  | call (u : Use)
  deriving DecidableEq, Repr

structure Slot where
  conn : Option (Kind × Handle)
  owner : Option Owner
  reader_serial : owner = some .reader → ∃ h, conn = some (.serial, h)

namespace Slot

def empty : Slot := ⟨none, none, fun h => nomatch h⟩

def connect (s : Slot) (kind : Kind) (h : Handle) (hfree : s.conn = none) : Slot :=
  ⟨some (kind, h), s.owner, fun howner => by
    obtain ⟨h', hconn⟩ := s.reader_serial howner
    rw [hfree] at hconn
    cases hconn⟩

def disconnect (s : Slot) (hreader : s.owner ≠ some .reader) : Slot :=
  ⟨none, s.owner, fun howner => absurd howner hreader⟩

/-- The owner `o` goes, if it is the owner. -/
def drop (s : Slot) (o : Owner) : Slot :=
  ⟨s.conn, if s.owner = some o then none else s.owner, fun howner => by
    split at howner
    · cases howner
    · exact s.reader_serial howner⟩

def attach (s : Slot) (hserial : ∃ h, s.conn = some (.serial, h)) : Slot := ⟨s.conn, some .reader, fun _ => hserial⟩

def lend (s : Slot) (u : Use) : Slot := ⟨s.conn, some (.call u), fun h => nomatch h⟩

theorem drop_owner_ne (s : Slot) (o : Owner) : (s.drop o).owner ≠ some o := by
  unfold drop
  dsimp only
  split
  · intro h
    cases h
  · rename_i hne
    exact hne

/-- The raw serial transport of the connection. -/
def base (s : Slot) : Option Handle :=
  match s.conn with
  | some (.serial, h) => some h
  | _ => none

theorem base_isSome (s : Slot) : s.base.isSome ↔ s.conn.map Prod.fst = some .serial := by
  unfold base
  split
  · rename_i h hconn
    simp [hconn]
  · rename_i hother
    constructor
    · intro h
      cases h
    · intro h
      obtain ⟨⟨kind, handle⟩, hconn, rfl⟩ := Option.map_eq_some_iff.1 h
      exact absurd hconn (hother handle)

end Slot

/-! ### One name of the registries -/

/-- What the registries say of one name. -/
@[ext]
structure Row where
  transport : Option Handle
  kind : Option Kind
  base : Option Handle
  reader : Option Handle
  inUse : Use → Prop

def Registry.row (r : Registry) (name : String) : Row :=
  ⟨r.transports.lookup name, r.kinds.lookup name, r.serialBase.lookup name, r.readers.lookup name,
    fun u => name ∈ r.inUse u⟩

def Slot.row (s : Slot) : Row :=
  ⟨s.conn.map Prod.snd, s.conn.map Prod.fst, s.base, if s.owner = some .reader then s.base else none,
    fun u => s.owner = some (.call u)⟩

variable {r r' : Registry} {name other : String} {u : Use}

private theorem lookup_insert_update {α : Type} (l : AList fun _ : String => α) (name : String) (a : α)
    (other : String) :
    (l.insert name a).lookup other = Function.update l.lookup name (some a) other := by
  by_cases hne : other = name
  · subst hne
    rw [AList.lookup_insert, Function.update_self]
  · rw [AList.lookup_insert_ne hne, Function.update_of_ne hne]

theorem lookup_erase_update {α : Type} (l : AList fun _ : String => α) (name other : String) :
    (l.erase name).lookup other = Function.update l.lookup name none other := by
  by_cases hne : other = name
  · subst hne
    rw [AList.lookup_erase, Function.update_self]
  · rw [AList.lookup_erase_ne hne, Function.update_of_ne hne]

private theorem row_empty (name : String) : Registry.empty.row name = Slot.empty.row := by
  unfold Registry.row Slot.row
  congr 1
  funext u
  cases u <;> simp [Registry.empty, Registry.inUse, Slot.empty]

private theorem row_insert (r : Registry) (kind : Kind) (name : String) (h : Handle) :
    (r.insert kind name h).row = Function.update r.row name
      { r.row name with transport := some h, kind := some kind,
                        base := if kind = .serial then some h else (r.row name).base } := by
  funext other
  have huse : (r.insert kind name h).inUse = r.inUse := by
    funext u
    cases u <;> rfl
  unfold Registry.row
  rw [huse]
  unfold Registry.insert
  dsimp only
  rw [lookup_insert_update, lookup_insert_update]
  by_cases hne : other = name
  · subst hne
    by_cases hkind : kind = .serial
    · simp [hkind]
    · simp [hkind]
  · by_cases hkind : kind = .serial
    · simp [hne, hkind]
    · simp [hne, hkind]

private theorem row_delete (r : Registry) (name : String) :
    (r.delete name).row = Function.update r.row name { r.row name with transport := none, kind := none, base := none } := by
  funext other
  have huse : (r.delete name).inUse = r.inUse := by
    funext u
    cases u <;> rfl
  unfold Registry.row
  rw [huse]
  unfold Registry.delete
  dsimp only
  rw [lookup_erase_update, lookup_erase_update, lookup_erase_update]
  by_cases hne : other = name
  · subst hne
    simp
  · simp [hne]

private theorem row_addReader (r : Registry) (name : String) (base : Handle) :
    (r.addReader name base).row = Function.update r.row name { r.row name with reader := some base } := by
  funext other
  have huse : (r.addReader name base).inUse = r.inUse := by
    funext u
    cases u <;> rfl
  unfold Registry.row
  rw [huse]
  unfold Registry.addReader
  dsimp only
  rw [lookup_insert_update]
  by_cases hne : other = name
  · subst hne
    simp
  · simp [hne]

private theorem row_dropReader (r : Registry) (name : String) :
    (r.dropReader name).row = Function.update r.row name { r.row name with reader := none } := by
  funext other
  have huse : (r.dropReader name).inUse = r.inUse := by
    funext u
    cases u <;> rfl
  unfold Registry.row
  rw [huse]
  unfold Registry.dropReader
  dsimp only
  rw [lookup_erase_update]
  by_cases hne : other = name
  · subst hne
    simp
  · simp [hne]

theorem mem_inUse_add {v : Use} : other ∈ (r.add name u).inUse v ↔ (other = name ∧ v = u) ∨ other ∈ r.inUse v := by
  cases u <;> cases v <;> simp [Registry.add, Registry.inUse]

theorem mem_inUse_discard {v : Use} : other ∈ (r.discard name u).inUse v ↔ ¬ (other = name ∧ v = u) ∧ other ∈ r.inUse v := by
  cases u <;> cases v <;> simp [Registry.discard, Registry.inUse]

private theorem row_add (r : Registry) (name : String) (u : Use) :
    (r.add name u).row = Function.update r.row name
      { r.row name with inUse := fun v => v = u ∨ (r.row name).inUse v } := by
  funext other
  have hrest : (r.add name u).transports = r.transports ∧ (r.add name u).kinds = r.kinds ∧
      (r.add name u).serialBase = r.serialBase ∧ (r.add name u).readers = r.readers := by
    cases u <;> exact ⟨rfl, rfl, rfl, rfl⟩
  unfold Registry.row
  rw [hrest.1, hrest.2.1, hrest.2.2.1, hrest.2.2.2]
  by_cases hne : other = name
  · subst hne
    simp [mem_inUse_add]
  · simp [hne, mem_inUse_add]

private theorem row_discard (r : Registry) (name : String) (u : Use) :
    (r.discard name u).row = Function.update r.row name
      { r.row name with inUse := fun v => v ≠ u ∧ (r.row name).inUse v } := by
  funext other
  have hrest : (r.discard name u).transports = r.transports ∧ (r.discard name u).kinds = r.kinds ∧
      (r.discard name u).serialBase = r.serialBase ∧ (r.discard name u).readers = r.readers := by
    cases u <;> exact ⟨rfl, rfl, rfl, rfl⟩
  unfold Registry.row
  rw [hrest.1, hrest.2.1, hrest.2.2.1, hrest.2.2.2]
  by_cases hne : other = name
  · subst hne
    simp [mem_inUse_discard]
  · simp [hne, mem_inUse_discard]

private theorem row_clear (r : Registry) (name : String) :
    r.clear.row name = { r.row name with transport := none, kind := none, base := none, reader := none } := by
  have huse : r.clear.inUse = r.inUse := by
    funext u
    cases u <;> rfl
  unfold Registry.row
  rw [huse]
  simp [Registry.clear]

/-! ### The registries as a table of slots -/

/-- The registries say of every name what its slot says. -/
def Represents (r : Registry) (slots : String → Slot) : Prop := r.row = Slot.row ∘ slots

variable {slots : String → Slot}

theorem represents_empty : Represents Registry.empty fun _ => Slot.empty := by
  funext name
  exact row_empty name

/-- A change of one row that is a change of its slot. -/
theorem Represents.update {row : Row} {slot : Slot} (hr : Represents r slots)
    (hrow : r'.row = Function.update r.row name row) (hslot : slot.row = row) :
    Represents r' (Function.update slots name slot) := by
  unfold Represents
  rw [hrow, hr, Function.comp_update, hslot]

section

variable (hr : Represents r slots)
include hr

private theorem Represents.row_eq (name : String) : r.row name = (slots name).row := congrFun hr name

theorem Represents.transport (name : String) : r.transports.lookup name = (slots name).conn.map Prod.snd :=
  congrArg Row.transport (hr.row_eq name)

theorem Represents.kindOf (name : String) : r.kinds.lookup name = (slots name).conn.map Prod.fst :=
  congrArg Row.kind (hr.row_eq name)

theorem Represents.base (name : String) : r.serialBase.lookup name = (slots name).base :=
  congrArg Row.base (hr.row_eq name)

theorem Represents.reader (name : String) :
    r.readers.lookup name = if (slots name).owner = some .reader then (slots name).base else none :=
  congrArg Row.reader (hr.row_eq name)

theorem Represents.inUse (name : String) (u : Use) : name ∈ r.inUse u ↔ (slots name).owner = some (.call u) :=
  iff_of_eq (congrFun (congrArg Row.inUse (hr.row_eq name)) u)

theorem Represents.mem_readers (name : String) : name ∈ r.readers ↔ (slots name).owner = some .reader := by
  rw [← AList.lookup_isSome, hr.reader]
  split
  · rename_i howner
    obtain ⟨h, hconn⟩ := (slots name).reader_serial howner
    simp [Slot.base, hconn, howner]
  · rename_i howner
    simp [howner]

theorem Represents.owner_none (hreader : name ∉ r.readers) (htransfer : name ∉ r.transfers)
    (hmonitor : name ∉ r.monitors) : (slots name).owner = none := by
  rw [hr.mem_readers] at hreader
  rw [show r.transfers = r.inUse .transfer from rfl, hr.inUse] at htransfer
  rw [show r.monitors = r.inUse .monitor from rfl, hr.inUse] at hmonitor
  match howner : (slots name).owner with
  | none => rfl
  | some .reader => exact absurd howner hreader
  | some (.call .transfer) => exact absurd howner htransfer
  | some (.call .monitor) => exact absurd howner hmonitor

theorem Represents.conn_none (hfree : r.transports.lookup name = none) : (slots name).conn = none := by
  rw [hr.transport] at hfree
  exact Option.map_eq_none_iff.1 hfree

theorem Represents.serial_of_base {base : Handle} (hbase : r.serialBase.lookup name = some base) :
    ∃ h, (slots name).conn = some (.serial, h) := by
  rw [hr.base] at hbase
  have hserial := (Slot.base_isSome (slots name)).1 (by rw [hbase]; rfl)
  obtain ⟨⟨kind, h⟩, hconn, rfl⟩ := Option.map_eq_some_iff.1 hserial
  exact ⟨h, hconn⟩

/-! ### What the locked sections do to a slot -/

theorem Represents.insert (kind : Kind) (h : Handle) (hfree : (slots name).conn = none) :
    Represents (r.insert kind name h) (Function.update slots name ((slots name).connect kind h hfree)) := by
  apply hr.update (row_insert r kind name h)
  have hbase : (slots name).base = none := by
    unfold Slot.base
    rw [hfree]
  have howner : (slots name).owner ≠ some .reader := by
    intro howner
    obtain ⟨h', hconn⟩ := (slots name).reader_serial howner
    rw [hfree] at hconn
    cases hconn
  rw [hr.row_eq]
  refine Row.ext rfl rfl ?_ ?_ rfl
  · show Slot.base _ = if kind = .serial then some h else (slots name).base
    rw [hbase]
    cases kind <;> rfl
  · show (if (slots name).owner = some .reader then _ else none) = if (slots name).owner = some .reader then _ else none
    rw [if_neg howner, if_neg howner]

theorem Represents.dropReader (name : String) :
    Represents (r.dropReader name) (Function.update slots name ((slots name).drop .reader)) := by
  apply hr.update (row_dropReader r name)
  rw [hr.row_eq]
  refine Row.ext rfl rfl rfl ?_ ?_
  · exact if_neg (Slot.drop_owner_ne _ _)
  · funext u
    by_cases howner : (slots name).owner = some .reader
    · simp [Slot.row, Slot.drop, howner]
    · simp [Slot.row, Slot.drop, howner]

theorem Represents.close (name : String) : Represents ((r.dropReader name).delete name)
    (Function.update slots name (((slots name).drop .reader).disconnect (Slot.drop_owner_ne _ _))) := by
  have hrow : ((r.dropReader name).delete name).row = Function.update r.row name
      { r.row name with transport := none, kind := none, base := none, reader := none } := by
    rw [row_delete, row_dropReader, Function.update_self, Function.update_idem]
  apply hr.update hrow
  rw [hr.row_eq]
  refine Row.ext rfl rfl rfl ?_ ?_
  · exact if_neg (Slot.drop_owner_ne (slots name) .reader)
  · funext u
    by_cases howner : (slots name).owner = some .reader
    · simp [Slot.row, Slot.drop, Slot.disconnect, howner]
    · simp [Slot.row, Slot.drop, Slot.disconnect, howner]

theorem Represents.addReader {base : Handle} (hbase : r.serialBase.lookup name = some base)
    (howner : (slots name).owner = none) (hserial : ∃ h, (slots name).conn = some (.serial, h)) :
    Represents (r.addReader name base) (Function.update slots name ((slots name).attach hserial)) := by
  apply hr.update (row_addReader r name base)
  rw [hr.base] at hbase
  rw [hr.row_eq]
  refine Row.ext rfl rfl rfl hbase ?_
  funext u
  simp [Slot.row, Slot.attach, howner]

theorem Represents.add (u : Use) (howner : (slots name).owner = none) :
    Represents (r.add name u) (Function.update slots name ((slots name).lend u)) := by
  apply hr.update (row_add r name u)
  rw [hr.row_eq]
  refine Row.ext rfl rfl rfl ?_ ?_
  · simp [Slot.row, Slot.lend, howner]
  · funext v
    simp [Slot.row, Slot.lend, howner, eq_comm]

theorem Represents.discard (name : String) (u : Use) :
    Represents (r.discard name u) (Function.update slots name ((slots name).drop (.call u))) := by
  apply hr.update (row_discard r name u)
  rw [hr.row_eq]
  by_cases howner : (slots name).owner = some (.call u)
  · refine Row.ext rfl rfl rfl ?_ ?_
    · simp [Slot.row, Slot.drop, howner]
    · funext v
      simp [Slot.row, Slot.drop, howner, eq_comm]
  · have hdrop : ((slots name).drop (.call u)).owner = (slots name).owner := if_neg howner
    refine Row.ext rfl rfl rfl ?_ ?_
    · show (if ((slots name).drop (.call u)).owner = some .reader then _ else none) = _
      rw [hdrop]
      rfl
    · funext v
      show (((slots name).drop (.call u)).owner = some (.call v)) = (v ≠ u ∧ (slots name).owner = some (.call v))
      rw [hdrop, eq_iff_iff]
      constructor
      · intro hv
        refine ⟨?_, hv⟩
        rintro rfl
        exact howner hv
      · exact And.right

theorem Represents.clear :
    Represents r.clear fun name => ((slots name).drop .reader).disconnect (Slot.drop_owner_ne _ _) := by
  funext name
  rw [row_clear, hr.row_eq]
  refine Row.ext rfl rfl rfl ?_ ?_
  · exact (if_neg (Slot.drop_owner_ne (slots name) .reader)).symm
  · funext u
    by_cases howner : (slots name).owner = some .reader
    · simp [Slot.row, Slot.drop, Slot.disconnect, howner]
    · simp [Slot.row, Slot.drop, Slot.disconnect, howner]

end

end IronHarness.Session
