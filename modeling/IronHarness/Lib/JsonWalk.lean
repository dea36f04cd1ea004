import IronHarness.Lib.JsonDict
import IronHarness.Lib.JsonInert
import Mathlib.Data.List.Induction

/-!
# Walking through a value with a stack

A value is changed in place: a stack holds the paths of the dictionaries and lists that are still to be visited; each
visit rewrites the plain values that the container holds and puts the containers in it on the stack.  When the stack is
empty every plain value has been rewritten, however deep it was (`walk_eq`).
-/

namespace JsonText

variable {F : Type}

/-! ### Containers -/

/-- `isinstance(value, (dict, list))` -/
def Value.isContainer : Value F → Bool
  | .arr _ => true
  | .obj _ => true
  | _ => false

/-- The values that a container holds, in order. -/
def Value.held : Value F → List (Value F)
  | .arr items => items
  | .obj fields => fields.map Prod.snd
  | _ => []

/-- The container with other values in the places of those it holds. -/
def Value.withHeld : Value F → List (Value F) → Value F
  | .arr _, held => .arr held
  | .obj fields, held => .obj ((fields.map Prod.fst).zip held)
  | value, _ => value

section

variable {v node : Value F} {held held' : List (Value F)} {path : List Nat} {i : Nat}

private theorem held_withHeld (h : held.length = v.held.length) : (v.withHeld held).held = held := by
  cases v with
  | arr items => rfl
  | obj fields =>
    simp only [Value.held, List.length_map] at h
    simp [Value.withHeld, Value.held, List.map_snd_zip, h]
  | _ => exact (List.length_eq_zero_iff.1 h).symm

private theorem withHeld_held (v : Value F) : v.withHeld v.held = v := by
  cases v with
  | obj fields => simp [Value.withHeld, Value.held, List.zip_map']
  | _ => rfl

private theorem withHeld_withHeld (h : held.length = v.held.length) :
    (v.withHeld held).withHeld held' = v.withHeld held' := by
  cases v with
  | obj fields =>
    simp only [Value.held, List.length_map] at h
    simp [Value.withHeld, List.map_fst_zip, h]
  | _ => rfl

/-! ### Paths -/

/-- The part of a value at a path. -/
def Value.at : List Nat → Value F → Option (Value F)
  | [], v => some v
  | i :: path, v => v.held[i]?.bind (Value.at path)

/-- The value changed at a path. -/
def Value.modifyAt (f : Value F → Value F) : List Nat → Value F → Value F
  | [], v => f v
  | i :: path, v => v.withHeld (v.held.modify i (Value.modifyAt f path))

private theorem modifyAt_append (f : Value F → Value F) (p q : List Nat) (v : Value F) :
    v.modifyAt f (p ++ q) = v.modifyAt (Value.modifyAt f q) p := by
  induction p generalizing v with
  | nil => rfl
  | cons i p ih =>
    have hfun : Value.modifyAt f (p ++ q) = Value.modifyAt (Value.modifyAt f q) p := funext ih
    rw [List.cons_append, Value.modifyAt, Value.modifyAt, hfun]

private theorem at_append (p q : List Nat) (v : Value F) : v.at (p ++ q) = (v.at p).bind (Value.at q) := by
  induction p generalizing v with
  | nil => rfl
  | cons i p ih =>
    rw [List.cons_append, Value.at, Value.at]
    cases v.held[i]? with
    | none => rfl
    | some w => exact ih w

private theorem at_modifyAt (f : Value F → Value F) (h : v.at path = some node) :
    (v.modifyAt f path).at path = some (f node) := by
  induction path generalizing v with
  | nil =>
    obtain rfl := Option.some.inj h
    rfl
  | cons i path ih =>
    obtain ⟨w, hw, hnode⟩ := Option.bind_eq_some_iff.1 h
    rw [Value.modifyAt, Value.at, held_withHeld (List.length_modify _ _ _), List.getElem?_modify, hw]
    simpa using ih hnode

private theorem modifyAt_modifyAt (f g : Value F → Value F) (path : List Nat) (v : Value F) :
    (v.modifyAt f path).modifyAt g path = v.modifyAt (fun w => g (f w)) path := by
  induction path generalizing v with
  | nil => rfl
  | cons i path ih =>
    have hfun : Value.modifyAt g path ∘ Value.modifyAt f path = Value.modifyAt (fun w => g (f w)) path := funext ih
    rw [Value.modifyAt, Value.modifyAt, Value.modifyAt, withHeld_withHeld (List.length_modify _ _ _),
      held_withHeld (List.length_modify _ _ _), List.modify_modify_eq, hfun]

/-- Only what a function makes of the part at the path counts. -/
theorem modifyAt_congr {f g : Value F → Value F} (h : v.at path = some node) (hfg : f node = g node) :
    v.modifyAt f path = v.modifyAt g path := by
  induction path generalizing v with
  | nil =>
    obtain rfl := Option.some.inj h
    exact hfg
  | cons i path ih =>
    obtain ⟨w, hw, hnode⟩ := Option.bind_eq_some_iff.1 h
    rw [Value.modifyAt, Value.modifyAt]
    congr 1
    apply List.ext_getElem?
    intro j
    rw [List.getElem?_modify, List.getElem?_modify]
    split
    · rename_i hij
      rw [← hij, hw, Option.map_eq_map, Option.map_eq_map, Option.map_some, Option.map_some, ih hnode]
    · rfl

private theorem modify_middle {α : Type} (f : α → α) (a : List α) (x : α) (b : List α) :
    (a ++ x :: b).modify a.length f = a ++ f x :: b := by
  induction a with
  | nil => rfl
  | cons y a ih => rw [List.cons_append, List.length_cons, List.modify_succ_cons, ih, List.cons_append]

private theorem modifyAt_id (path : List Nat) (v : Value F) : v.modifyAt (fun w => w) path = v := by
  induction path generalizing v with
  | nil => rfl
  | cons i path ih =>
    have hfun : Value.modifyAt (F := F) (fun w => w) path = id := funext ih
    rw [Value.modifyAt, hfun, List.modify_id, withHeld_held]

end

/-! ### The walk -/

section

variable (leaf : Value F → Value F)

/-- The places of the containers that a container holds. -/
def containersFrom (i : Nat) : List (Value F) → List Nat
  | [] => []
  | v :: vs => if v.isContainer then i :: containersFrom (i + 1) vs else containersFrom (i + 1) vs

/-- The loop over the stack, its top first; `none` where it takes more than `n` passes. -/
def walk : Nat → List (List Nat) → Value F → Option (Value F)
  | _, [], v => some v
  | 0, _ :: _, _ => none
  | n + 1, path :: stack, v =>
    match v.at path with
    | none => none
    | some node =>
      if node.isContainer then
        walk n (((containersFrom 0 node.held).map (path ++ [·])).reverse ++ stack)
          (v.modifyAt (fun node => node.withHeld (node.held.map leaf)) path)
      else walk n stack v

/-- The number of containers in a value. -/
def Value.containers : Value F → Nat
  | .arr items => 1 + elems items
  | .obj fields => 1 + ofFields fields
  | _ => 0
where
  elems : List (Value F) → Nat
    | [] => 0
    | v :: vs => v.containers + elems vs
  ofFields : List (String × Value F) → Nat
    | [] => 0
    | (_, v) :: fs => v.containers + ofFields fs

/-- Every plain value rewritten, at any depth. -/
def Value.deep : Value F → Value F
  | .arr items => .arr (elems items)
  | .obj fields => .obj (ofFields fields)
  | value => leaf value
where
  elems : List (Value F) → List (Value F)
    | [] => []
    | v :: vs => v.deep :: elems vs
  ofFields : List (String × Value F) → List (String × Value F)
    | [] => []
    | (k, v) :: fs => (k, v.deep) :: ofFields fs

private theorem deep_container {v : Value F} (h : v.isContainer = true) :
    v.deep leaf = v.withHeld (v.held.map (Value.deep leaf)) := by
  have helems : ∀ items : List (Value F), Value.deep.elems leaf items = items.map (Value.deep leaf) := by
    intro items
    induction items with
    | nil => rfl
    | cons v vs ih => rw [Value.deep.elems, ih, List.map_cons]
  have hfields : ∀ fields : List (String × Value F), Value.deep.ofFields leaf fields =
      (fields.map Prod.fst).zip ((fields.map Prod.snd).map (Value.deep leaf)) := by
    intro fields
    induction fields with
    | nil => rfl
    | cons f fs ih => rw [Value.deep.ofFields, ih]; rfl
  cases v with
  | arr items => rw [Value.deep, helems]; rfl
  | obj fields => rw [Value.deep, hfields]; rfl
  | _ => cases h

private theorem deep_keys (fields : List (String × Value F)) :
    (Value.deep.ofFields leaf fields).map Prod.fst = fields.map Prod.fst := by
  induction fields with
  | nil => rfl
  | cons f fs ih => rw [Value.deep.ofFields, List.map_cons, ih, List.map_cons]

private theorem deep_plain {v : Value F} (h : v.isContainer = false) : v.deep leaf = leaf v := by
  cases v with
  | arr items => cases h
  | obj fields => cases h
  | _ => rfl

variable {leaf}

private theorem containers_eq {v : Value F} (h : v.isContainer = true) :
    v.containers = 1 + Value.containers.elems v.held := by
  have hfields : ∀ fields : List (String × Value F),
      Value.containers.ofFields fields = Value.containers.elems (fields.map Prod.snd) := by
    intro fields
    induction fields with
    | nil => rfl
    | cons f fs ih => rw [Value.containers.ofFields, ih]; rfl
  cases v with
  | arr items => rfl
  | obj fields => rw [Value.containers, hfields]; rfl
  | _ => cases h

private theorem elems_snoc (pre : List (Value F)) (v : Value F) :
    Value.containers.elems (pre ++ [v]) = v.containers + Value.containers.elems pre := by
  induction pre with
  | nil => rfl
  | cons w pre ih =>
    rw [List.cons_append, Value.containers.elems, ih, Value.containers.elems]
    omega

private theorem containers_le_elems {v : Value F} {vs : List (Value F)} (h : v ∈ vs) :
    v.containers ≤ Value.containers.elems vs := by
  induction vs with
  | nil => cases h
  | cons w vs ih =>
    rw [Value.containers.elems]
    rcases List.mem_cons.1 h with rfl | h
    · exact Nat.le_add_right _ _
    · exact Nat.le_add_left_of_le (ih h)

private theorem containersFrom_snoc (i : Nat) (pre : List (Value F)) (v : Value F) :
    containersFrom i (pre ++ [v]) = containersFrom i pre ++ if v.isContainer then [i + pre.length] else [] := by
  induction pre generalizing i with
  | nil => simp [containersFrom]
  | cons w pre ih =>
    have hplace : i + 1 + pre.length = i + (pre.length + 1) := by omega
    rw [List.cons_append, containersFrom, containersFrom, ih, hplace, List.length_cons]
    split
    · rfl
    · rfl

/-- What the walk does with one container on the top of the stack and all that is below it. -/
theorem walk_container (hleaf : ∀ v : Value F, v.isContainer = true → leaf v = v) (node : Value F) :
    ∀ (n : Nat) (path : List Nat) (stack : List (List Nat)) (v : Value F), v.at path = some node →
      node.isContainer = true →
      walk leaf (n + node.containers) (path :: stack) v = walk leaf n stack (v.modifyAt (Value.deep leaf) path) := by
  induction hm : node.containers using Nat.strong_induction_on generalizing node with
  | _ m ih =>
    intro n path stack v hat hnode
    have hcount := containers_eq hnode
    have hone : n + m = n + Value.containers.elems node.held + 1 := by omega
    -- the containers at the end of `held` have been walked through, those in front of it are on the stack
    have hgo : ∀ (pre post : List (Value F)) (v' : Value F), node.held = pre ++ post →
        v'.at path = some (node.withHeld (pre.map leaf ++ post.map (Value.deep leaf))) →
        walk leaf (n + Value.containers.elems pre) (((containersFrom 0 pre).map (path ++ [·])).reverse ++ stack) v' =
          walk leaf n stack (v'.modifyAt (fun _ => node.deep leaf) path) := by
      intro pre
      induction pre using List.reverseRecOn with
      | nil =>
        intro post v' hheld hat'
        have hsame : v'.modifyAt (fun _ => node.deep leaf) path = v' := by
          rw [modifyAt_congr (g := fun w => w) hat', modifyAt_id]
          rw [deep_container leaf hnode, hheld]
          rfl
        rw [hsame]
        rfl
      | append_singleton pre x ihpre =>
        intro post v' hheld hat'
        have hpost : node.held = pre ++ x :: post := by rw [hheld, List.append_assoc, List.singleton_append]
        rw [List.map_append, List.map_singleton, List.append_assoc, List.singleton_append] at hat'
        rw [containersFrom_snoc, Nat.zero_add, elems_snoc]
        by_cases hx : x.isContainer = true
        · have hheld' : (pre.map leaf ++ leaf x :: post.map (Value.deep leaf)).length = node.held.length := by
            rw [hpost]
            simp
          rw [hleaf x hx] at hat' hheld'
          have hsmall : x.containers < m := by
            have hle : x.containers ≤ Value.containers.elems node.held := containers_le_elems (by rw [hpost]; simp)
            omega
          have hatx : v'.at (path ++ [pre.length]) = some x := by
            rw [at_append, hat', Option.bind_some, Value.at, held_withHeld hheld', List.getElem?_append_right (by simp)]
            simp [Value.at]
          have hat'' : (v'.modifyAt (Value.deep leaf) (path ++ [pre.length])).at path =
              some (node.withHeld (pre.map leaf ++ (x :: post).map (Value.deep leaf))) := by
            rw [modifyAt_append, at_modifyAt _ hat', Value.modifyAt, held_withHeld hheld', withHeld_withHeld hheld']
            have hmiddle := modify_middle (Value.deep leaf) (pre.map leaf) x (post.map (Value.deep leaf))
            rw [List.length_map] at hmiddle
            exact congrArg (fun held => some (node.withHeld held)) hmiddle
          have hpasses : n + (x.containers + Value.containers.elems pre) =
              n + Value.containers.elems pre + x.containers := by omega
          rw [if_pos hx, List.map_append, List.reverse_append, List.map_singleton, List.reverse_singleton,
            List.singleton_append, List.cons_append, hpasses, ih x.containers hsmall x rfl _ _ _ _ hatx hx,
            ihpre (x :: post) _ hpost hat'', modifyAt_append, modifyAt_modifyAt]
        · rw [Bool.not_eq_true] at hx
          have hzero : x.containers = 0 := by
            cases x with
            | arr items => cases hx
            | obj fields => cases hx
            | _ => rfl
          rw [← deep_plain leaf hx] at hat'
          rw [hx, hzero, Nat.zero_add]
          simp only [Bool.false_eq_true, ↓reduceIte, List.append_nil]
          exact ihpre (x :: post) v' hpost hat'
    rw [hone, walk, hat]
    simp only [hnode, ↓reduceIte]
    have hstart : (v.modifyAt (fun node => node.withHeld (node.held.map leaf)) path).at path =
        some (node.withHeld (node.held.map leaf ++ [].map (Value.deep leaf))) := by
      rw [at_modifyAt _ hat, List.map_nil, List.append_nil]
    rw [hgo node.held [] _ (List.append_nil _).symm hstart, modifyAt_modifyAt]
    congr 1
    exact modifyAt_congr hat rfl

mutual

theorem keysNodup_deep (hnodup : ∀ v : Value F, v.keysNodup → (leaf v).keysNodup) (v : Value F)
    (hv : v.keysNodup) : (v.deep leaf).keysNodup := by
  match v with
  | .arr items => exact elemsNodup_deep hnodup items hv
  | .obj fields =>
    refine ⟨?_, fieldsNodup_deep hnodup fields hv.2⟩
    rw [deep_keys]
    exact hv.1
  | .null => exact hnodup _ hv
  | .bool b => exact hnodup _ hv
  | .int n => exact hnodup _ hv
  | .float x => exact hnodup _ hv
  | .str s => exact hnodup _ hv

private theorem elemsNodup_deep (hnodup : ∀ v : Value F, v.keysNodup → (leaf v).keysNodup) (vs : List (Value F))
    (hvs : Value.keysNodup.elemsNodup vs) : Value.keysNodup.elemsNodup (Value.deep.elems leaf vs) := by
  match vs with
  | [] => trivial
  | v :: vs => exact ⟨keysNodup_deep hnodup v hvs.1, elemsNodup_deep hnodup vs hvs.2⟩

private theorem fieldsNodup_deep (hnodup : ∀ v : Value F, v.keysNodup → (leaf v).keysNodup)
    (fs : List (String × Value F)) (hfs : Value.keysNodup.fieldsNodup fs) :
    Value.keysNodup.fieldsNodup (Value.deep.ofFields leaf fs) := by
  match fs with
  | [] => trivial
  | (k, v) :: fs => exact ⟨keysNodup_deep hnodup v hfs.1, fieldsNodup_deep hnodup fs hfs.2⟩

end

mutual

/-- Where rewriting leaves no float that is not finite at one place, it leaves none at any depth. -/
theorem finite_deep [JsonFloat F] (hfinite : ∀ v : Value F, v.isContainer = false → (leaf v).finite)
    (v : Value F) : (v.deep leaf).finite := by
  match v with
  | .arr items => exact elemsFinite_deep hfinite items
  | .obj fields => exact fieldsFinite_deep hfinite fields
  | .null => exact hfinite _ rfl
  | .bool b => exact hfinite _ rfl
  | .int n => exact hfinite _ rfl
  | .float x => exact hfinite _ rfl
  | .str s => exact hfinite _ rfl

private theorem elemsFinite_deep [JsonFloat F] (hfinite : ∀ v : Value F, v.isContainer = false → (leaf v).finite)
    (vs : List (Value F)) : Value.finite.elemsFinite (Value.deep.elems leaf vs) := by
  match vs with
  | [] => trivial
  | v :: vs => exact ⟨finite_deep hfinite v, elemsFinite_deep hfinite vs⟩

private theorem fieldsFinite_deep [JsonFloat F] (hfinite : ∀ v : Value F, v.isContainer = false → (leaf v).finite)
    (fs : List (String × Value F)) :
    Value.finite.fieldsFinite (Value.deep.ofFields leaf fs) := by
  match fs with
  | [] => trivial
  | (k, v) :: fs => exact ⟨finite_deep hfinite v, fieldsFinite_deep hfinite fs⟩

end

/-- The walk from the top of a value ends, with every plain value in a container rewritten. -/
theorem walk_eq (hleaf : ∀ v : Value F, v.isContainer = true → leaf v = v) (v : Value F) :
    walk leaf (1 + v.containers) [[]] v = some (if v.isContainer then v.deep leaf else v) := by
  by_cases hv : v.isContainer = true
  · rw [if_pos hv, walk_container hleaf v 1 [] [] v rfl hv]
    rfl
  · rw [Nat.add_comm, walk, if_neg hv]
    simp [Value.at, hv, walk]

end

end JsonText
