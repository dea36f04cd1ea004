import Mathlib.Data.List.Basic

/-!
# Programs that leave a trace

A program that does things one after the other, each of which is put down, and returns a value or raises an exception;
what is put down before an exception stays.  Where a property of traces waits for an event (`Awaits`), the parts of a
program that do not come to the event can be taken off from the front (`Awaits.bind`, `Awaits.tryExcept`).
-/

/-- What a program returns or raises, and what it has done. -/
structure Traced (ε σ α : Type) where
  result : Except ε α
  trace : List σ

namespace Traced

variable {ε σ α β : Type}

instance : Monad (Traced ε σ) where
  pure a := ⟨.ok a, []⟩
  bind x f :=
    match x.result with
    | .ok a => ⟨(f a).result, x.trace ++ (f a).trace⟩
    | .error e => ⟨.error e, x.trace⟩

def emit (s : σ) : Traced ε σ Unit := ⟨.ok (), [s]⟩

def raise (e : ε) : Traced ε σ α := ⟨.error e, []⟩

/-- `try: x`, `except catches: handler`, `else: rest`. -/
def tryExcept (x : Traced ε σ α) (catches : ε → Bool) (handler : ε → Traced ε σ β) (rest : α → Traced ε σ β) :
    Traced ε σ β :=
  match x.result with
  | .ok a => ⟨(rest a).result, x.trace ++ (rest a).trace⟩
  | .error e => if catches e then ⟨(handler e).result, x.trace ++ (handler e).trace⟩ else ⟨.error e, x.trace⟩

/-- `try: x`, `finally: y`; what `y` raises replaces what `x` raises. -/
def tryFinally (x : Traced ε σ α) (y : Traced ε σ Unit) : Traced ε σ α :=
  match y.result with
  | .ok _ => ⟨x.result, x.trace ++ y.trace⟩
  | .error e => ⟨.error e, x.trace ++ y.trace⟩

section

variable {x : Traced ε σ α} {f : α → Traced ε σ β} {catches : ε → Bool} {handler : ε → Traced ε σ β} {a : α} {e : ε}

@[simp] theorem result_pure : (pure a : Traced ε σ α).result = .ok a := rfl

@[simp] theorem trace_pure : (pure a : Traced ε σ α).trace = [] := rfl

@[simp] theorem result_emit (s : σ) : (emit s : Traced ε σ Unit).result = .ok () := rfl

@[simp] theorem trace_emit (s : σ) : (emit s : Traced ε σ Unit).trace = [s] := rfl

@[simp] theorem result_raise : (raise e : Traced ε σ α).result = .error e := rfl

@[simp] theorem trace_raise : (raise e : Traced ε σ α).trace = [] := rfl

private theorem bind_eq : x >>= f = x.tryExcept (fun _ => false) raise f := by
  show (match x.result with
    | .ok a => ⟨(f a).result, x.trace ++ (f a).trace⟩
    | .error e => ⟨.error e, x.trace⟩ : Traced ε σ β) = _
  unfold tryExcept
  cases x.result <;> rfl

theorem tryExcept_ok (h : x.result = .ok a) :
    x.tryExcept catches handler f = ⟨(f a).result, x.trace ++ (f a).trace⟩ := by
  unfold tryExcept
  rw [h]

theorem tryExcept_caught (h : x.result = .error e) (hcatch : catches e = true) :
    x.tryExcept catches handler f = ⟨(handler e).result, x.trace ++ (handler e).trace⟩ := by
  unfold tryExcept
  rw [h]
  exact if_pos hcatch

theorem tryExcept_raised (h : x.result = .error e) (hcatch : catches e = false) :
    x.tryExcept catches handler f = ⟨.error e, x.trace⟩ := by
  unfold tryExcept
  rw [h]
  simp [hcatch]

@[simp] theorem tryExcept_pure (a : α) : (pure a : Traced ε σ α).tryExcept catches handler f = f a := rfl

@[simp] theorem tryExcept_raise (e : ε) :
    (raise e : Traced ε σ α).tryExcept catches handler f = if catches e then handler e else raise e := by
  unfold tryExcept
  split
  · rename_i heq
    cases heq
  · rename_i heq
    cases heq
    rfl

theorem bind_ok (h : x.result = .ok a) : x >>= f = ⟨(f a).result, x.trace ++ (f a).trace⟩ := by
  rw [bind_eq, tryExcept_ok h]

theorem bind_error (h : x.result = .error e) : x >>= f = ⟨.error e, x.trace⟩ := by
  rw [bind_eq, tryExcept_raised h rfl]

end

private theorem id_map_eq (x : Traced ε σ α) : id <$> x = x := by
  obtain ⟨result, trace⟩ := x
  cases result with
  | ok a => exact congrArg (Traced.mk (.ok a)) (List.append_nil trace)
  | error e => rfl

private theorem bind_bind {γ : Type} (x : Traced ε σ α) (f : α → Traced ε σ β) (g : β → Traced ε σ γ) :
    x >>= f >>= g = x >>= fun a => f a >>= g := by
  cases hx : x.result with
  | error e => simp [bind_error, hx]
  | ok a =>
    cases hf : (f a).result with
    | ok b => simp [bind_ok, hx, hf]
    | error e => simp [bind_ok, bind_error, hx, hf]

instance : LawfulMonad (Traced ε σ) := LawfulMonad.mk' (Traced ε σ) id_map_eq (fun _ _ => rfl) bind_bind

@[simp] theorem raise_bind (e : ε) (f : α → Traced ε σ β) : raise e >>= f = raise e := rfl

theorem result_tryExcept {x : Traced ε σ α} {catches : ε → Bool} {handler : ε → Traced ε σ β}
    {f : α → Traced ε σ β} {r : Except ε β} :
    (x.tryExcept catches handler f).result = r ↔
      (∃ a, x.result = .ok a ∧ (f a).result = r) ∨ (∃ e, x.result = .error e ∧ catches e = true ∧ (handler e).result = r) ∨
        ∃ e, x.result = .error e ∧ catches e = false ∧ .error e = r := by
  cases hresult : x.result with
  | ok a =>
    rw [tryExcept_ok hresult]
    simp
  | error e =>
    cases hcatch : catches e with
    | true =>
      rw [tryExcept_caught hresult hcatch]
      simp [hcatch]
    | false =>
      rw [tryExcept_raised hresult hcatch]
      simp [hcatch]

theorem result_bind {x : Traced ε σ α} {f : α → Traced ε σ β} {r : Except ε β} :
    (x >>= f).result = r ↔ (∃ a, x.result = .ok a ∧ (f a).result = r) ∨ ∃ e, x.result = .error e ∧ .error e = r := by
  rw [bind_eq, result_tryExcept]
  simp

theorem trace_tryExcept (x : Traced ε σ α) (catches : ε → Bool) (handler : ε → Traced ε σ β)
    (f : α → Traced ε σ β) :
    ∃ rest, (x.tryExcept catches handler f).trace = x.trace ++ rest ∧
      (rest = [] ∨ (∃ a, rest = (f a).trace) ∨ ∃ e, rest = (handler e).trace) := by
  cases hresult : x.result with
  | ok a =>
    rw [tryExcept_ok hresult]
    exact ⟨_, rfl, Or.inr (Or.inl ⟨a, rfl⟩)⟩
  | error e =>
    cases hcatch : catches e with
    | true =>
      rw [tryExcept_caught hresult hcatch]
      exact ⟨_, rfl, Or.inr (Or.inr ⟨e, rfl⟩)⟩
    | false =>
      rw [tryExcept_raised hresult hcatch]
      exact ⟨[], (List.append_nil _).symm, Or.inl rfl⟩

theorem trace_bind (x : Traced ε σ α) (f : α → Traced ε σ β) :
    ∃ rest, (x >>= f).trace = x.trace ++ rest ∧ (rest = [] ∨ ∃ a, rest = (f a).trace) := by
  cases hresult : x.result with
  | ok a =>
    rw [bind_ok hresult]
    exact ⟨_, rfl, Or.inr ⟨a, rfl⟩⟩
  | error e =>
    rw [bind_error hresult]
    exact ⟨[], (List.append_nil _).symm, Or.inl rfl⟩

/-! ### Events that a program does not come to -/

/-- The program does nothing of this kind. -/
def Avoids (p : σ → Prop) (x : Traced ε σ α) : Prop := ∀ s ∈ x.trace, ¬ p s

section

variable {p : σ → Prop} {x : Traced ε σ α}

theorem avoids_pure (a : α) : Avoids p (pure a : Traced ε σ α) := by
  simp [Avoids]

theorem avoids_raise (e : ε) : Avoids p (raise e : Traced ε σ α) := by
  simp [Avoids]

theorem avoids_emit {s : σ} (h : ¬ p s) : Avoids p (emit s : Traced ε σ Unit) := by
  simpa [Avoids] using h

theorem Avoids.tryExcept {catches : ε → Bool} {handler : ε → Traced ε σ β} {rest : α → Traced ε σ β}
    (hx : Avoids p x) (hhandler : ∀ e, Avoids p (handler e)) (hrest : ∀ a, Avoids p (rest a)) :
    Avoids p (x.tryExcept catches handler rest) := by
  intro s hs
  cases hresult : x.result with
  | ok a =>
    rw [tryExcept_ok hresult] at hs
    exact (List.mem_append.1 hs).elim (hx s) (hrest a s)
  | error e =>
    cases hcatch : catches e with
    | true =>
      rw [tryExcept_caught hresult hcatch] at hs
      exact (List.mem_append.1 hs).elim (hx s) (hhandler e s)
    | false =>
      rw [tryExcept_raised hresult hcatch] at hs
      exact hx s hs

theorem Avoids.bind {f : α → Traced ε σ β} (hx : Avoids p x) (hf : ∀ a, Avoids p (f a)) : Avoids p (x >>= f) := by
  rw [bind_eq]
  exact hx.tryExcept avoids_raise hf

end

/-! ### Properties that wait for an event -/

/-- A property of traces that fails until an event of the kind `p`, and does not look at what was before. -/
structure Awaits (p : σ → Prop) (T : List σ → Prop) : Prop where
  skip : ∀ {a b : List σ}, (∀ s ∈ a, ¬ p s) → (T (a ++ b) ↔ T b)
  fails : ¬ T []

section

variable {p : σ → Prop} {T : List σ → Prop} {x : Traced ε σ α}

theorem Awaits.not_of_avoids (h : Awaits p T) (hx : Avoids p x) : ¬ T x.trace := by
  have hskip := h.skip (b := []) hx
  rw [List.append_nil] at hskip
  exact fun ht => h.fails (hskip.1 ht)

theorem Awaits.tryExcept {catches : ε → Bool} {handler : ε → Traced ε σ β} {rest : α → Traced ε σ β} (h : Awaits p T)
    (hx : Avoids p x) :
    T (x.tryExcept catches handler rest).trace ↔
      (∃ a, x.result = .ok a ∧ T (rest a).trace) ∨
        ∃ e, x.result = .error e ∧ catches e = true ∧ T (handler e).trace := by
  cases hresult : x.result with
  | ok a =>
    rw [tryExcept_ok hresult]
    simp [h.skip hx]
  | error e =>
    cases hcatch : catches e with
    | true =>
      rw [tryExcept_caught hresult hcatch]
      simp [h.skip hx, hcatch]
    | false =>
      rw [tryExcept_raised hresult hcatch]
      simp [h.not_of_avoids hx, hcatch]

theorem Awaits.bind {f : α → Traced ε σ β} (h : Awaits p T) (hx : Avoids p x) :
    T (x >>= f).trace ↔ ∃ a, x.result = .ok a ∧ T (f a).trace := by
  rw [bind_eq, h.tryExcept hx]
  simp

end

/-! ### What is raised leaves a trace -/

/-- A program that raises has done something before. -/
def Loud (x : Traced ε σ α) : Prop := ∀ e, x.result = .error e → x.trace ≠ []

section

variable {x : Traced ε σ α} {a : α} {e : ε}

private theorem loud_of_ok (h : x.result = .ok a) : x.Loud := by
  intro e he
  rw [h] at he
  cases he

theorem loud_of_trace (h : x.trace ≠ []) : x.Loud := fun _ _ => h

private theorem loud_iff_of_error (h : x.result = .error e) : x.Loud ↔ x.trace ≠ [] :=
  ⟨fun hloud => hloud e h, loud_of_trace⟩

@[simp] theorem loud_pure (a : α) : (pure a : Traced ε σ α).Loud := loud_of_ok rfl

@[simp] theorem not_loud_raise (e : ε) : ¬ (raise e : Traced ε σ α).Loud := fun h => h e rfl rfl

@[simp] theorem loud_emit (s : σ) : (emit s : Traced ε σ Unit).Loud := loud_of_ok rfl

theorem loud_tryExcept {catches : ε → Bool} {handler : ε → Traced ε σ β} {rest : α → Traced ε σ β} :
    (x.tryExcept catches handler rest).Loud ↔
      (x.trace = [] → ∀ e, x.result = .error e → catches e = true ∧ (handler e).Loud) ∧
        (x.trace = [] → ∀ a, x.result = .ok a → (rest a).Loud) := by
  cases hresult : x.result with
  | ok a =>
    rw [tryExcept_ok hresult]
    by_cases htrace : x.trace = []
    · simp [Loud, htrace]
    · simp [Loud, htrace]
  | error e =>
    cases hcatch : catches e with
    | true =>
      rw [tryExcept_caught hresult hcatch]
      by_cases htrace : x.trace = []
      · simp [Loud, htrace, hcatch]
      · simp [Loud, htrace]
    | false =>
      rw [tryExcept_raised hresult hcatch]
      simp [Loud, hcatch]

theorem loud_bind {f : α → Traced ε σ β} :
    (x >>= f).Loud ↔ x.Loud ∧ (x.trace = [] → ∀ a, x.result = .ok a → (f a).Loud) := by
  rw [bind_eq, loud_tryExcept]
  apply and_congr_left'
  simp only [Bool.false_eq_true, false_and, imp_false]
  exact ⟨fun h e he htrace => h htrace e he, fun h htrace e he => h e he htrace⟩

@[simp] theorem loud_emit_bind (s : σ) (f : Unit → Traced ε σ β) : (emit s >>= f).Loud := by
  rw [loud_bind]
  simp

theorem loud_tryFinally {y : Traced ε σ Unit} :
    (x.tryFinally y).Loud ↔ (y.trace = [] → x.Loud) ∧ (x.trace = [] → y.Loud) := by
  unfold tryFinally
  cases hy : y.result with
  | ok =>
    by_cases htrace : y.trace = []
    · simp [Loud, hy, htrace]
    · simp [Loud, hy, htrace]
  | error e =>
    by_cases htrace : y.trace = []
    · have hraised : y.Loud ↔ y.trace ≠ [] := loud_iff_of_error hy
      constructor
      · intro h
        have hx : x.trace ≠ [] := by simpa [htrace] using h e rfl
        exact ⟨fun _ => loud_of_trace hx, fun hnil => absurd hnil hx⟩
      · rintro ⟨-, h⟩
        apply loud_of_trace
        by_cases hx : x.trace = []
        · exact absurd htrace (hraised.1 (h hx))
        · simp [hx]
    · simp [Loud, hy, htrace]

end

end Traced
