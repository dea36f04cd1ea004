import IronHarness.Lib.JsonRoundTrip
import IronHarness.Lib.JsonRules

/-!
# The dictionaries of a loaded text

Whatever the text is, no dictionary of the value it loads as has a key twice (`loads_keysNodup`).
-/

namespace JsonText

variable {F : Type}

/-- Fields of a dictionary. -/
structure IsDict (fields : List (String × Value F)) : Prop where
  nodup : (fields.map Prod.fst).Nodup
  values : ∀ f ∈ fields, f.2.keysNodup

theorem isDict_iff (fields : List (String × Value F)) : IsDict fields ↔ (Value.obj fields).keysNodup := by
  constructor
  · rintro ⟨hnodup, hvalues⟩
    exact ⟨hnodup, (fieldsNodup_iff fields).2 hvalues⟩
  · rintro ⟨hnodup, hvalues⟩
    exact ⟨hnodup, (fieldsNodup_iff fields).1 hvalues⟩

theorem IsDict.setField {fields : List (String × Value F)} (h : IsDict fields) (key : String) {value : Value F}
    (hvalue : value.keysNodup) : IsDict (setField fields key value) := by
  unfold JsonText.setField
  split
  · constructor
    · rw [List.map_map, List.map_congr_left (g := Prod.fst)]
      · exact h.nodup
      · rintro ⟨k, v⟩ -
        by_cases hk : k = key
        · simp [hk]
        · simp [hk]
    · intro f hf
      obtain ⟨g, hg, rfl⟩ := List.mem_map.1 hf
      dsimp only
      split
      · exact hvalue
      · exact h.values g hg
  · rename_i hnew
    constructor
    · rw [List.map_append, List.nodup_append]
      refine ⟨h.nodup, by simp, ?_⟩
      intro k hk k' hk' heq
      obtain ⟨f, hf, rfl⟩ := List.mem_map.1 hk
      obtain rfl : k' = key := by simpa using hk'
      exact hnew (List.any_eq_true.2 ⟨f, hf, by simpa using heq⟩)
    · intro f hf
      rcases List.mem_append.1 hf with hf | hf
      · exact h.values f hf
      · obtain rfl := List.mem_singleton.1 hf
        exact hvalue

private theorem isDict_toDict {members : List (String × Value F)} (h : ∀ m ∈ members, m.2.keysNodup) :
    IsDict (toDict members) := by
  have hfold : ∀ acc : List (String × Value F), IsDict acc →
      IsDict (members.foldl (fun fields m => JsonText.setField fields m.1 m.2) acc) := by
    induction members with
    | nil => exact fun acc hacc => hacc
    | cons m members ih =>
      intro acc hacc
      rw [List.foldl_cons]
      exact ih (fun m' hm' => h m' (List.mem_cons_of_mem m hm')) _ (hacc.setField m.1 (h m List.mem_cons_self))
  exact hfold [] ⟨List.nodup_nil, by simp⟩

private theorem scanAtom_keysNodup [JsonFloat F] {cs r : List Char} {v : Value F} (h : scanAtom cs = some (v, r)) :
    v.keysNodup := by
  unfold scanAtom at h
  iterate 6
    split at h
    · obtain ⟨rfl, -⟩ := Prod.mk.inj (Option.some.inj h)
      trivial
  obtain ⟨⟨l, r'⟩, -, heq⟩ := Option.map_eq_some_iff.1 h
  obtain ⟨rfl, -⟩ := Prod.mk.inj heq
  unfold numberValue
  split <;> trivial

/-- The values that the scanners read have no key twice. -/
theorem scan_keysNodup [JsonFloat F] (n : Nat) :
    (∀ cs r (v : Value F), scanValue n cs = some (v, r) → v.keysNodup) ∧
    (∀ cs r (vs : List (Value F)), scanElems n cs = some (vs, r) → ∀ v ∈ vs, v.keysNodup) ∧
    (∀ cs r (fs : List (String × Value F)), scanFields n cs = some (fs, r) → ∀ f ∈ fs, f.2.keysNodup) := by
  induction n with
  | zero =>
    refine ⟨?_, ?_, ?_⟩
    · intro cs r v hscan
      cases hscan
    · intro cs r vs hscan
      cases hscan
    · intro cs r fs hscan
      cases hscan
  | succ n ih =>
    obtain ⟨ihv, ihe, ihf⟩ := ih
    refine ⟨?_, ?_, ?_⟩
    · intro cs r v hscan
      cases scanValue_iff.1 hscan with
      | str | emptyArr => trivial
      | arr _ hv hvs => exact ⟨ihv _ _ _ hv, (elemsNodup_iff _).2 (ihe _ _ _ hvs)⟩
      | emptyObj => exact ⟨List.nodup_nil, trivial⟩
      | obj _ _ hv hfs =>
        rw [← isDict_iff]
        apply isDict_toDict
        rw [List.forall_mem_cons]
        exact ⟨ihv _ _ _ hv, ihf _ _ _ hfs⟩
      | atom _ hv => exact scanAtom_keysNodup hv
    · intro cs r vs hscan
      cases scanElems_iff.1 hscan with
      | close => exact List.forall_mem_nil _
      | next _ _ hv hvs =>
        rw [List.forall_mem_cons]
        exact ⟨ihv _ _ _ hv, ihe _ _ _ hvs⟩
    · intro cs r fs hscan
      cases scanFields_iff.1 hscan with
      | close => exact List.forall_mem_nil _
      | next _ _ _ hv hfs =>
        rw [List.forall_mem_cons]
        exact ⟨ihv _ _ _ hv, ihf _ _ _ hfs⟩

theorem loads_keysNodup [JsonFloat F] {text : List Char} {v : Value F} (h : loads text = some v) : v.keysNodup := by
  obtain ⟨⟨v', r⟩, hscan, hend⟩ := Option.bind_eq_some_iff.1 h
  dsimp only at hend
  split at hend
  · obtain rfl := Option.some.inj hend
    exact (scan_keysNodup _).1 _ _ _ hscan
  · cases hend

end JsonText
