import IronHarness.Lib.Tally

/-!
# Buckets and dictionaries

Rows collected under their keys, in the order in which the keys come, and a dictionary that a loop fills.  A bucket is
the rows with its key (`bucket_eq`), and of several values assigned to one key the last one stays (`lookup_ofItems`).
-/

namespace Tally

section Buckets

variable {K R : Type*} [DecidableEq K] {key : R → K}

/-- `out[k].append(r)`, where a new key starts with no rows. -/
def put (k : K) (r : R) : List (K × List R) → List (K × List R)
  | [] => [(k, [r])]
  | (k', rs) :: rest => if k' = k then (k', rs ++ [r]) :: rest else (k', rs) :: put k r rest

def bucket (key : R → K) (rs : List R) : List (K × List R) := rs.foldl (fun out r => put (key r) r out) []

private theorem put_of_not_mem {k : K} {r : R} {out : List (K × List R)} (h : k ∉ out.map Prod.fst) :
    put k r out = out ++ [(k, [r])] := by
  induction out with
  | nil => rfl
  | cons b out ih =>
    rw [List.map_cons, List.mem_cons, not_or] at h
    rw [put, if_neg (Ne.symm h.1), ih h.2, List.cons_append]

private theorem put_of_mem {k : K} {r : R} {ks : List K} {rows : K → List R} (hnodup : ks.Nodup) (h : k ∈ ks) :
    put k r (ks.map fun k' => (k', rows k')) = ks.map fun k' => (k', if k' = k then rows k' ++ [r] else rows k') := by
  induction ks with
  | nil => cases h
  | cons k₀ ks ih =>
    rw [List.nodup_cons] at hnodup
    rw [List.map_cons, List.map_cons, put]
    by_cases hk : k₀ = k
    · subst hk
      rw [if_pos rfl, if_pos rfl, List.cons_inj_right]
      apply List.map_congr_left
      intro k' hk'
      rw [if_neg]
      rintro rfl
      exact hnodup.1 hk'
    · rw [if_neg hk, if_neg hk, ih hnodup.2 ((List.mem_cons.1 h).resolve_left (Ne.symm hk))]

variable [BEq K] [LawfulBEq K]

omit [DecidableEq K] in
private theorem nodup_eraseDups (ks : List K) : ks.eraseDups.Nodup := by
  induction ks using List.reverseRecOn with
  | nil => simp
  | append_singleton ks k ih =>
    rw [List.eraseDups_append, List.nodup_append]
    refine ⟨ih, ?_, ?_⟩
    · by_cases hk : k ∈ ks <;> simp [List.removeAll, hk, List.eraseDups_cons]
    · intro a ha b hb
      by_cases hk : k ∈ ks
      · simp [List.removeAll, hk] at hb
      · simp only [List.removeAll, List.elem_eq_mem, hk, decide_false, Bool.not_false, List.filter_cons_of_pos,
          List.filter_nil, List.eraseDups_cons, List.eraseDups_nil, List.mem_singleton] at hb
        rintro rfl
        rw [hb, List.mem_eraseDups] at ha
        exact hk ha

/-- A bucket is the rows with its key. -/
theorem bucket_eq (key : R → K) (rs : List R) :
    bucket key rs = (rs.map key).eraseDups.map fun k => (k, rs.filter fun r => key r = k) := by
  induction rs using List.reverseRecOn with
  | nil => rfl
  | append_singleton rs r ih =>
    rw [bucket, List.foldl_append, ← bucket, ih, List.foldl_cons, List.foldl_nil, List.map_append, List.map_singleton,
      List.eraseDups_append]
    by_cases hk : key r ∈ rs.map key
    · rw [put_of_mem (nodup_eraseDups _) (List.mem_eraseDups.2 hk)]
      have hnew : [key r].removeAll (rs.map key) = [] := by
        simpa [List.removeAll] using hk
      rw [hnew, List.eraseDups_nil, List.append_nil]
      apply List.map_congr_left
      intro k _
      by_cases hr : k = key r
      · simp [hr, List.filter_append]
      · simp [hr, Ne.symm hr, List.filter_append]
    · have hnot : key r ∉ ((rs.map key).eraseDups.map fun k => (k, rs.filter fun r => key r = k)).map Prod.fst := by
        simpa [Function.comp_def] using hk
      have hnew : [key r].removeAll (rs.map key) = [key r] := by
        simpa [List.removeAll] using hk
      have hown : (rs.filter fun r' => key r' = key r) = [] := by
        apply List.filter_eq_nil_iff.2
        intro r' hr' heq
        exact hk (List.mem_map.2 ⟨r', hr', by simpa using heq⟩)
      rw [put_of_not_mem hnot, hnew, List.map_append]
      congr 1
      · apply List.map_congr_left
        intro k hmem
        have hne : key r ≠ k := by
          rintro rfl
          exact hk (List.mem_eraseDups.1 hmem)
        simp [List.filter_append, hne]
      · rw [List.eraseDups_cons]
        simp [hown]

end Buckets

/-! ### Dictionaries -/

section Dictionaries

variable {K V : Type*} [DecidableEq K]

/-- `d[k] = v` -/
def assign (k : K) (v : V) : List (K × V) → List (K × V)
  | [] => [(k, v)]
  | (k', v') :: rest => if k' = k then (k', v) :: rest else (k', v') :: assign k v rest

/-- A dictionary filled item by item. -/
def ofItems (items : List (K × V)) : List (K × V) := items.foldl (fun d item => assign item.1 item.2 d) []

private theorem mem_keys_assign {k k' : K} {v : V} {d : List (K × V)} :
    k' ∈ (assign k v d).map Prod.fst ↔ k' = k ∨ k' ∈ d.map Prod.fst := by
  induction d with
  | nil => simp [assign]
  | cons item d ih =>
    rw [assign]
    split
    · rename_i hk
      simp [hk]
    · rw [List.map_cons, List.mem_cons, ih, List.map_cons, List.mem_cons]
      exact or_left_comm

private theorem nodup_assign {k : K} {v : V} {d : List (K × V)} (h : (d.map Prod.fst).Nodup) :
    ((assign k v d).map Prod.fst).Nodup := by
  induction d with
  | nil => simp [assign]
  | cons item d ih =>
    rw [List.map_cons, List.nodup_cons] at h
    rw [assign]
    split
    · rw [List.map_cons, List.nodup_cons]
      exact h
    · rename_i hk
      rw [List.map_cons, List.nodup_cons, mem_keys_assign, not_or]
      exact ⟨⟨hk, h.1⟩, ih h.2⟩

theorem nodup_ofItems (items : List (K × V)) : ((ofItems items).map Prod.fst).Nodup := by
  induction items using List.reverseRecOn with
  | nil => simp [ofItems]
  | append_singleton items item ih =>
    rw [ofItems, List.foldl_append, ← ofItems]
    exact nodup_assign ih

variable [BEq K] [LawfulBEq K]

theorem lookup_cons_ite (k k₀ : K) (v₀ : V) (d : List (K × V)) :
    ((k₀, v₀) :: d).lookup k = if k = k₀ then some v₀ else d.lookup k := by
  rw [List.lookup_cons]
  by_cases h : k = k₀
  · rw [h, BEq.rfl, if_pos rfl]
  · rw [beq_eq_false_iff_ne.2 h, if_neg h]

private theorem lookup_assign {k k' : K} {v : V} {d : List (K × V)} :
    (assign k v d).lookup k' = if k' = k then some v else d.lookup k' := by
  induction d with
  | nil => exact lookup_cons_ite k' k v []
  | cons item d ih =>
    obtain ⟨k₀, v₀⟩ := item
    rw [assign]
    by_cases hk : k₀ = k
    · subst hk
      rw [if_pos rfl, lookup_cons_ite, lookup_cons_ite]
      by_cases h : k' = k₀ <;> simp [h]
    · rw [if_neg hk, lookup_cons_ite, lookup_cons_ite, ih]
      by_cases h : k' = k₀
      · subst h
        simp [hk]
      · simp [h]

/-- Of several values for one key the last one stays. -/
theorem lookup_ofItems (items : List (K × V)) (k : K) : (ofItems items).lookup k = items.reverse.lookup k := by
  induction items using List.reverseRecOn with
  | nil => rfl
  | append_singleton items item ih =>
    obtain ⟨k₀, v₀⟩ := item
    rw [ofItems, List.foldl_append, ← ofItems, List.foldl_cons, List.foldl_nil, lookup_assign, ih, List.reverse_append,
      List.reverse_singleton, List.singleton_append, lookup_cons_ite]

end Dictionaries

/-- Where the keys are distinct, a key is looked up in any order. -/
theorem lookup_perm {K V : Type*} [DecidableEq K] [BEq K] [LawfulBEq K] {d d' : List (K × V)} (hperm : d.Perm d')
    (hnodup : (d.map Prod.fst).Nodup) (k : K) : d.lookup k = d'.lookup k := by
  have hmem : ∀ (d : List (K × V)), (d.map Prod.fst).Nodup → ∀ v, d.lookup k = some v ↔ (k, v) ∈ d := by
    intro d hd v
    induction d with
    | nil => simp
    | cons item d ih =>
      obtain ⟨k₀, v₀⟩ := item
      rw [List.map_cons, List.nodup_cons] at hd
      rw [lookup_cons_ite, List.mem_cons, Prod.mk.injEq]
      by_cases h : k = k₀
      · subst h
        have hnot : (k, v) ∉ d := fun hv => hd.1 (List.mem_map.2 ⟨_, hv, rfl⟩)
        simp [hnot, eq_comm]
      · simp [h, ih hd.2]
  have hnodup' : (d'.map Prod.fst).Nodup := (hperm.map Prod.fst).nodup_iff.1 hnodup
  ext v
  rw [hmem d hnodup, hmem d' hnodup', hperm.mem_iff]

theorem lookup_sortedItems {K V : Type*} [LinearOrder K] [BEq K] [LawfulBEq K] {d : List (K × V)} (hnodup : (d.map Prod.fst).Nodup) (k : K) :
    (sortedItems d).lookup k = d.lookup k :=
  (lookup_perm (List.mergeSort_perm _ _).symm hnodup k).symm

end Tally
