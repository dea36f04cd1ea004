import IronHarness.Lib.Doubles
import Mathlib.Algebra.Order.Group.Defs
import Mathlib.Algebra.Order.Group.Int
import Mathlib.Data.List.Pairwise
import Mathlib.Tactic.Abel

/-!
# The rate limiter

`RateLimiter` (io_core/limits.py): a fixed window that begins with the first call behind the last one.  A run is the
list of the clock values that its calls see, under the lock; time is any ordered group, and the difference of two
readings is rounded, as that of floats is.  Two windows begin at least `per` apart as the limiter computes it, so a
stretch of length `per` meets three of them at most, and a third one only where the rounding lets two begin in it
(`acquire_bounds`); that does happen (`rounded_up_to_window`).
-/

namespace IronHarness.Limits

variable {T : Type} [AddCommGroup T] [LinearOrder T]

structure RateLimiter (T : Type) where
  maxCalls : Nat
  perSeconds : T
  windowStart : Option T
  used : Nat

/-- `RateLimiter(max_calls, per_seconds)` -/
def newLimiter (maxCalls : Nat) (perSeconds : T) : RateLimiter T := ⟨maxCalls, perSeconds, none, 0⟩

/-- The window is over, or there was none; `round` is the rounding of the difference. -/
def RateLimiter.isOver (l : RateLimiter T) (round : T → T) (now : T) : Bool :=
  match l.windowStart with
  | none => true
  | some start => decide (l.perSeconds ≤ round (now - start))

/-- What a denied call raises: its number in the window, the window and the limit. -/
structure RateLimitExceeded (T : Type) where
  used : Nat
  perSeconds : T
  maxCalls : Nat

def RateLimiter.acquire (l : RateLimiter T) (round : T → T) (now : T) :
    Except (RateLimitExceeded T) Unit × RateLimiter T :=
  let l := if l.isOver round now then { l with windowStart := some now, used := 0 } else l
  let l := { l with used := l.used + 1 }
  if l.maxCalls < l.used then (.error ⟨l.used, l.perSeconds, l.maxCalls⟩, l) else (.ok (), l)

/-- A call: when it was, the start of the window it was counted in, and whether it was granted. -/
structure Call (T : Type) where
  now : T
  window : Option T
  granted : Bool

/-- The calls of a run. -/
def calls (round : T → T) (l : RateLimiter T) : List T → List (Call T)
  | [] => []
  | now :: later =>
    let r := l.acquire round now
    ⟨now, r.2.windowStart, r.1.isOk⟩ :: calls round r.2 later

/-- The limiter behind the calls of a run. -/
def RateLimiter.after (l : RateLimiter T) (round : T → T) (nows : List T) : RateLimiter T :=
  nows.foldl (fun l now => (l.acquire round now).2) l

/-- What is relied on of the rounding: it is monotone, it changes neither zero nor the length of the window, and it does
not take up to that length what is half of it at most. -/
structure Rounding (round : T → T) (perSeconds : T) : Prop where
  mono : Monotone round
  zero : round 0 = 0
  length : round perSeconds = perSeconds
  half : ∀ x, x + x ≤ perSeconds → round x < perSeconds

theorem rounding_id [IsOrderedAddMonoid T] {per : T} (hper : 0 < per) : Rounding id per := by
  refine ⟨monotone_id, rfl, rfl, fun x hhalf => ?_⟩
  by_contra hle
  rw [not_lt, id] at hle
  exact absurd (hhalf.trans hle) (not_le.2 (lt_add_of_pos_left x (hper.trans_le hle)))

/-- Floats are integers in units of the least of them, and their difference is rounded to 53 bits. -/
private theorem rounding_double {per : Int} (hper : 0 < per) (h : Doubles.double per = per) :
    Rounding Doubles.double per :=
  ⟨fun _ _ => Doubles.double_mono, Doubles.double_zero, h, fun _ => Doubles.double_lt_of_half hper⟩

theorem calls_append (round : T → T) (l : RateLimiter T) (before later : List T) :
    calls round l (before ++ later) = calls round l before ++ calls round (l.after round before) later := by
  induction before generalizing l with
  | nil => rfl
  | cons now before ih =>
    rw [List.cons_append, calls, ih]
    rfl

private theorem length_calls (round : T → T) (l : RateLimiter T) (nows : List T) :
    (calls round l nows).length = nows.length := by
  induction nows generalizing l with
  | nil => rfl
  | cons now nows ih => rw [calls, List.length_cons, List.length_cons, ih]

/-! ### One call -/

section Acquire

variable {round : T → T} {l : RateLimiter T} {now : T}

/-- A call that begins a window. -/
private theorem acquire_over (h : l.isOver round now = true) (hmax : 1 ≤ l.maxCalls) :
    l.acquire round now = (.ok (), { l with windowStart := some now, used := 1 }) := by
  unfold RateLimiter.acquire
  rw [if_pos h]
  dsimp only
  rw [if_neg (Nat.not_lt.2 hmax)]

/-- A call within the window is granted as long as fewer than the limit were made. -/
private theorem acquire_within (h : l.isOver round now = false) :
    (l.acquire round now).2 = { l with used := l.used + 1 } ∧
      ((l.acquire round now).1.isOk = true ↔ l.used < l.maxCalls) := by
  unfold RateLimiter.acquire
  rw [if_neg (show ¬ l.isOver round now = true by simp [h])]
  dsimp only
  by_cases hfull : l.maxCalls < l.used + 1
  · rw [if_pos hfull]
    refine ⟨rfl, ?_⟩
    simp only [Except.isOk, Except.toBool, Bool.false_eq_true, false_iff]
    omega
  · rw [if_neg hfull]
    refine ⟨rfl, ?_⟩
    simp only [Except.isOk, Except.toBool, true_iff]
    omega

private theorem acquire_params (round : T → T) (l : RateLimiter T) (hmax : 1 ≤ l.maxCalls) (now : T) :
    (l.acquire round now).2.maxCalls = l.maxCalls ∧ (l.acquire round now).2.perSeconds = l.perSeconds := by
  cases hover : l.isOver round now with
  | true =>
    rw [acquire_over hover hmax]
    exact ⟨rfl, rfl⟩
  | false =>
    rw [(acquire_within hover).1]
    exact ⟨rfl, rfl⟩

private theorem isOver_iff {start : T} (h : l.windowStart = some start) :
    l.isOver round now = true ↔ l.perSeconds ≤ round (now - start) := by
  unfold RateLimiter.isOver
  rw [h]
  simp only [decide_eq_true_eq]

end Acquire

private theorem after_params (round : T → T) (l : RateLimiter T) (hmax : 1 ≤ l.maxCalls) (nows : List T) :
    (l.after round nows).maxCalls = l.maxCalls ∧ (l.after round nows).perSeconds = l.perSeconds := by
  induction nows generalizing l with
  | nil => exact ⟨rfl, rfl⟩
  | cons now nows ih =>
    obtain ⟨hcalls, hper⟩ := acquire_params round l hmax now
    have hrest := ih (l.acquire round now).2 (by omega)
    rw [hcalls, hper] at hrest
    exact hrest

/-! ### Windows -/

section Windows

variable {round : T → T} {l : RateLimiter T}

/-- A call within the window is not rounded up to its end. -/
private theorem within_of_not_isOver {now : T} (h : l.isOver round now = false) :
    ∃ start, l.windowStart = some start ∧ round (now - start) < l.perSeconds := by
  cases hstart : l.windowStart with
  | none => simp [RateLimiter.isOver, hstart] at h
  | some start =>
    refine ⟨start, rfl, ?_⟩
    by_contra hlate
    rw [(isOver_iff hstart).2 (not_lt.1 hlate)] at h
    cases h

/-- Behind a call there is a window; it begins with the call, or had begun before. -/
private theorem acquire_window (hround : Rounding round l.perSeconds) (hmax : 1 ≤ l.maxCalls) (hper : 0 < l.perSeconds)
    (now : T) : ∃ window, (l.acquire round now).2.windowStart = some window ∧ round (now - window) < l.perSeconds ∧
      (window = now ∨ l.windowStart = some window) := by
  cases hover : l.isOver round now with
  | true =>
    rw [acquire_over hover hmax]
    refine ⟨now, rfl, ?_, .inl rfl⟩
    rwa [sub_self, hround.zero]
  | false =>
    rw [(acquire_within hover).1]
    obtain ⟨start, hstart, hbefore⟩ := within_of_not_isOver hover
    exact ⟨start, hstart, hbefore, .inr hstart⟩

/-- A call is counted in a window that has begun, with a call or before the run, and is not over. -/
private theorem window_contains (hround : Rounding round l.perSeconds) (hmax : 1 ≤ l.maxCalls) (hper : 0 < l.perSeconds)
    {nows : List T} (hsorted : nows.Pairwise (· ≤ ·))
    (h : ∀ start, l.windowStart = some start → ∀ now ∈ nows, start ≤ now) {c : Call T} (hc : c ∈ calls round l nows) :
    ∃ window, c.window = some window ∧ window ≤ c.now ∧ round (c.now - window) < l.perSeconds ∧ c.now ∈ nows ∧
      (window ∈ nows ∨ l.windowStart = some window) := by
  induction nows generalizing l with
  | nil => cases hc
  | cons now nows ih =>
    obtain ⟨hfirst, hsorted⟩ := List.pairwise_cons.1 hsorted
    obtain ⟨hcalls, hsame⟩ := acquire_params round l hmax now
    obtain ⟨window, hwindow, hend, hbegun⟩ := acquire_window hround hmax hper now
    have hle : window ≤ now := by
      rcases hbegun with rfl | hbegun
      · exact le_refl window
      · exact h window hbegun now List.mem_cons_self
    have hfrom : window ∈ now :: nows ∨ l.windowStart = some window := by
      rcases hbegun with rfl | hbegun
      · exact .inl List.mem_cons_self
      · exact .inr hbegun
    rw [calls, List.mem_cons] at hc
    rcases hc with rfl | hc
    · exact ⟨window, hwindow, hle, hend, List.mem_cons_self, hfrom⟩
    · have hlater : ∀ start, (l.acquire round now).2.windowStart = some start → ∀ later ∈ nows, start ≤ later := by
        intro start hstart later hlater
        rw [hwindow] at hstart
        obtain rfl := Option.some.inj hstart
        exact hle.trans (hfirst later hlater)
      obtain ⟨window', hwindow', hle', hend', hnow', hfrom'⟩ :=
        ih (by rwa [hsame]) (by omega) (by rwa [hsame]) hsorted hlater hc
      rw [hsame] at hend'
      refine ⟨window', hwindow', hle', hend', List.mem_cons_of_mem _ hnow', ?_⟩
      rcases hfrom' with hfrom' | hfrom'
      · exact .inl (List.mem_cons_of_mem _ hfrom')
      · rw [hwindow] at hfrom'
        obtain rfl := Option.some.inj hfrom'
        exact hfrom

variable [IsOrderedAddMonoid T]

/-- What the limiter holds to be behind the window is not before its start. -/
private theorem start_le_of_apart (hround : Rounding round l.perSeconds) (hper : 0 < l.perSeconds) {start now : T}
    (h : l.perSeconds ≤ round (now - start)) : start < now := by
  by_contra hle
  have hround' := hround.mono (sub_nonpos.2 (not_lt.1 hle))
  rw [hround.zero] at hround'
  exact absurd (h.trans hround') (not_le.2 hper)

/-- Every later call is counted in this window, or in one that begins behind it. -/
private theorem window_cases (hround : Rounding round l.perSeconds) {start : T} (hmax : 1 ≤ l.maxCalls)
    (hper : 0 < l.perSeconds) (h : l.windowStart = some start) {nows : List T} {c : Call T}
    (hc : c ∈ calls round l nows) :
    ∃ window, c.window = some window ∧ (window = start ∨ l.perSeconds ≤ round (window - start)) := by
  induction nows generalizing l start with
  | nil => cases hc
  | cons now nows ih =>
    rw [calls, List.mem_cons] at hc
    obtain ⟨hcalls, hsame⟩ := acquire_params round l hmax now
    cases hover : l.isOver round now with
    | true =>
      have hstart := (isOver_iff h).1 hover
      have hnew : (l.acquire round now).2.windowStart = some now := by rw [acquire_over hover hmax]
      rcases hc with rfl | hc
      · exact ⟨now, hnew, .inr hstart⟩
      · obtain ⟨window, hwindow, hlater⟩ := ih (by rwa [hsame]) (by omega) (by rwa [hsame]) hnew hc
        rw [hsame] at hlater
        refine ⟨window, hwindow, .inr ?_⟩
        rcases hlater with rfl | hlater
        · exact hstart
        · have hle := start_le_of_apart hround hper hlater
          exact hstart.trans (hround.mono (sub_le_sub_right hle.le start))
    | false =>
      have hnew : (l.acquire round now).2.windowStart = some start := by rw [(acquire_within hover).1, ← h]
      rcases hc with rfl | hc
      · exact ⟨start, hnew, .inl rfl⟩
      · have hlater := ih (by rwa [hsame]) (by omega) (by rwa [hsame]) hnew hc
        rwa [hsame] at hlater

/-- Two windows are the same or, as the limiter computes it, at least `per` apart. -/
private theorem windows_apart (hround : Rounding round l.perSeconds) (hmax : 1 ≤ l.maxCalls) (hper : 0 < l.perSeconds)
    (nows : List T) :
    (calls round l nows).Pairwise fun c c' => ∃ window window', c.window = some window ∧ c'.window = some window' ∧
      (window' = window ∨ l.perSeconds ≤ round (window' - window)) := by
  induction nows generalizing l with
  | nil => exact List.Pairwise.nil
  | cons now nows ih =>
    obtain ⟨hcalls, hsame⟩ := acquire_params round l hmax now
    have hrest := ih (l := (l.acquire round now).2) (by rwa [hsame]) (by omega) (by rwa [hsame])
    rw [hsame] at hrest
    rw [calls, List.pairwise_cons]
    refine ⟨fun c hc => ?_, hrest⟩
    obtain ⟨start, hstart, -⟩ := acquire_window hround hmax hper now
    obtain ⟨window, hwindow, hcase⟩ := window_cases (by rwa [hsame]) (by omega) (by rwa [hsame]) hstart hc
    rw [hsame] at hcase
    exact ⟨start, window, hstart, hwindow, hcase⟩

/-- Any two calls are counted in the same window, or in two that are `per` apart. -/
private theorem windows_cases (hround : Rounding round l.perSeconds) (hmax : 1 ≤ l.maxCalls) (hper : 0 < l.perSeconds)
    {nows : List T} {c c' : Call T} (hc : c ∈ calls round l nows) (hc' : c' ∈ calls round l nows) {window window' : T}
    (hwindow : c.window = some window) (hwindow' : c'.window = some window') :
    window' = window ∨ l.perSeconds ≤ round (window' - window) ∨ l.perSeconds ≤ round (window - window') := by
  have hpair : (calls round l nows).Pairwise fun c c' => ∀ window window', c.window = some window →
      c'.window = some window' →
      window' = window ∨ l.perSeconds ≤ round (window' - window) ∨ l.perSeconds ≤ round (window - window') := by
    apply (windows_apart hround hmax hper nows).imp
    rintro c c' ⟨start, start', hstart, hstart', hcase⟩ window window' hwindow hwindow'
    obtain rfl := Option.some.inj (hwindow.symm.trans hstart)
    obtain rfl := Option.some.inj (hwindow'.symm.trans hstart')
    rcases hcase with rfl | hfar
    · exact .inl rfl
    · exact .inr (.inl hfar)
  have hsymm : Std.Symm fun c c' : Call T => ∀ window window', c.window = some window → c'.window = some window' →
      window' = window ∨ l.perSeconds ≤ round (window' - window) ∨ l.perSeconds ≤ round (window - window') := by
    refine ⟨fun c c' hcase window window' hwindow hwindow' => ?_⟩
    rcases hcase window' window hwindow' hwindow with rfl | hfar | hfar
    · exact .inl rfl
    · exact .inr (.inr hfar)
    · exact .inr (.inl hfar)
  refine List.Pairwise.forall_of_forall ?_ hpair hc hc' window window' hwindow hwindow'
  intro c _ window window' hwindow hwindow'
  exact .inl (Option.some.inj (hwindow'.symm.trans hwindow))

/-! ### Counting -/

/-- The granted calls of a kind. -/
def grants (kind : Call T → Bool) (cs : List (Call T)) : Nat := cs.countP fun c => c.granted && kind c

omit [AddCommGroup T] [LinearOrder T] [IsOrderedAddMonoid T] in
private theorem grants_mono {kind kind' : Call T → Bool} {cs : List (Call T)}
    (h : ∀ c ∈ cs, kind c = true → kind' c = true) :
    grants kind cs ≤ grants kind' cs := by
  apply List.countP_mono_left
  intro c hc hcounted
  obtain ⟨hgranted, hkind⟩ := Bool.and_eq_true_iff.1 hcounted
  exact Bool.and_eq_true_iff.2 ⟨hgranted, h c hc hkind⟩

omit [AddCommGroup T] [LinearOrder T] [IsOrderedAddMonoid T] in
/-- The calls of a kind are those with a property and those without. -/
private theorem grants_split (kind split : Call T → Bool) (cs : List (Call T)) :
    grants kind cs = grants (fun c => kind c && split c) cs + grants (fun c => kind c && !split c) cs := by
  have hsplit := List.countP_eq_countP_filter_add cs (fun c => c.granted && kind c) split
  simpa only [List.countP_filter, grants, ← Bool.and_assoc] using hsplit

/-- No call is counted in a window that is over. -/
private theorem grants_window_past (hround : Rounding round l.perSeconds) (hmax : 1 ≤ l.maxCalls)
    (hper : 0 < l.perSeconds)
    {start present : T} (h : l.windowStart = some present) (hpast : l.perSeconds ≤ round (present - start))
    (nows : List T) : grants (fun c => c.window = some start) (calls round l nows) = 0 := by
  have hlt : start < present := start_le_of_apart hround hper hpast
  apply List.countP_eq_zero.2
  intro c hc hcount
  have hwindow : c.window = some start := by simpa using (Bool.and_eq_true_iff.1 hcount).2
  obtain ⟨window, hwindow', hcase⟩ := window_cases hround hmax hper h hc
  rw [hwindow] at hwindow'
  obtain rfl := Option.some.inj hwindow'
  rcases hcase with rfl | hlater
  · exact lt_irrefl _ hlt
  · exact lt_irrefl _ (hlt.trans (start_le_of_apart hround hper hlater))

/-- At most the limit is granted in one window; `used` calls were made in the present one before. -/
private theorem grants_window_le (hround : Rounding round l.perSeconds) (hmax : 1 ≤ l.maxCalls)
    (hper : 0 < l.perSeconds)
    (nows : List T) (start : T) :
    grants (fun c => c.window = some start) (calls round l nows) ≤
      if l.windowStart = some start then l.maxCalls - l.used else l.maxCalls := by
  induction nows generalizing l with
  | nil => simp [calls, grants]
  | cons now nows ih =>
    obtain ⟨hcalls, hsame⟩ := acquire_params round l hmax now
    have hrest := ih (l := (l.acquire round now).2) (by rwa [hsame]) (by omega) (by rwa [hsame])
    rw [hcalls] at hrest
    rw [calls, grants, List.countP_cons]
    cases hover : l.isOver round now with
    | true =>
      rw [acquire_over hover hmax] at hrest ⊢
      dsimp only at hrest ⊢
      by_cases hnow : now = start
      · -- the call begins the window that is counted
        subst hnow
        have hother : ¬ l.windowStart = some now := by
          intro hstart
          exact absurd (start_le_of_apart hround hper ((isOver_iff hstart).1 hover)) (lt_irrefl now)
        rw [if_pos rfl] at hrest
        rw [if_neg hother]
        simp only [grants] at hrest
        simp only [Except.isOk, Except.toBool, decide_true, Bool.and_self, if_true]
        omega
      · have hhead : ¬ some now = some start := fun heq => hnow (Option.some.inj heq)
        rw [if_neg hhead] at hrest
        simp only [hhead, decide_false, Bool.and_false, Bool.false_eq_true, if_false, Nat.add_zero]
        split
        · -- the window that is counted is over
          rename_i hstart
          have hlate := (isOver_iff hstart).1 hover
          have hnone := grants_window_past (l := { l with windowStart := some now, used := 1 }) hround hmax hper rfl
            hlate nows
          exact Nat.le_trans (Nat.le_of_eq hnone) (Nat.zero_le _)
        · exact hrest
    | false =>
      obtain ⟨hstate, hgranted⟩ := acquire_within hover
      rw [hstate] at hrest ⊢
      dsimp only at hrest ⊢
      simp only [grants] at hrest
      by_cases hstart : l.windowStart = some start
      · rw [if_pos hstart] at hrest ⊢
        by_cases hfree : l.used < l.maxCalls
        · rw [if_pos (by simp [hstart, hgranted.2 hfree])]
          omega
        · rw [if_neg (by simp [hgranted, hfree])]
          omega
      · rw [if_neg hstart] at hrest ⊢
        simpa [hstart] using hrest

/-- Calls whose windows are not apart share one, so at most the limit is granted of them. -/
private theorem grants_le_of_close (hround : Rounding round l.perSeconds) (hmax : 1 ≤ l.maxCalls)
    (hper : 0 < l.perSeconds)
    (nows : List T) {kind : Call T → Bool} (hsome : ∀ c ∈ calls round l nows, ∃ window, c.window = some window)
    (hclose : ∀ c ∈ calls round l nows, ∀ c' ∈ calls round l nows, kind c = true → kind c' = true → ∀ window window',
      c.window = some window → c'.window = some window' → round (window' - window) < l.perSeconds) :
    grants kind (calls round l nows) ≤ l.maxCalls := by
  by_cases hempty : ∃ c ∈ calls round l nows, kind c = true
  · obtain ⟨c, hc, hkind⟩ := hempty
    obtain ⟨start, hstart⟩ := hsome c hc
    have hcount : grants kind (calls round l nows) ≤ grants (fun c => c.window = some start) (calls round l nows) := by
      apply grants_mono
      intro c' hc' hkind'
      obtain ⟨start', hstart'⟩ := hsome c' hc'
      rcases windows_cases hround hmax hper hc hc' hstart hstart' with rfl | hfar | hfar
      · exact decide_eq_true hstart'
      · exact absurd (hclose c hc c' hc' hkind hkind' start start' hstart hstart') (not_lt.2 hfar)
      · exact absurd (hclose c' hc' c hc hkind' hkind start' start hstart' hstart) (not_lt.2 hfar)
    have hwindow := grants_window_le hround hmax hper nows start
    split at hwindow <;> omega
  · have hnone : grants kind (calls round l nows) = 0 := by
      apply List.countP_eq_zero.2
      intro c hc hcounted
      exact hempty ⟨c, hc, (Bool.and_eq_true_iff.1 hcounted).2⟩
    omega

/-! ### A stretch of time -/

/-- A reading before the start of a stretch and two behind it, the last within the stretch, that lie `per` apart as the
limiter computes it. -/
def ThreeApart (round : T → T) (per : T) (nows : List T) (t : T) (within : T → Bool) : Prop :=
  ∃ a ∈ nows, ∃ b ∈ nows, ∃ c ∈ nows, a < t ∧ t < b ∧ within c = true ∧ per ≤ round (b - a) ∧ per ≤ round (c - b)

/-- The window of a call had begun by `t`. -/
def begunBy (t : T) (c : Call T) : Bool := c.window.any fun window => decide (window ≤ t)

/-- The window of a call began in the first half of the stretch of length `per` behind `t`. -/
def inFirstHalf (t per : T) (c : Call T) : Bool :=
  c.window.any fun window => decide ((window - t) + (window - t) ≤ per)

/-- Behind the first half of a stretch less than half of it is left. -/
private theorem rest_le_half {t per b c : T} (hb : per ≤ (b - t) + (b - t))
    (hc : c ≤ t + per) : (c - b) + (c - b) ≤ per := by
  have hc' : c - t ≤ per := sub_le_iff_le_add'.2 hc
  calc
    (c - b) + (c - b) = ((c - t) + (c - t)) - ((b - t) + (b - t)) := by abel
    _ ≤ (per + per) - per := sub_le_sub (add_le_add hc' hc') hb
    _ = per := by abel

section Stretch

variable {nows : List T} {t : T} {within : T → Bool}

omit [IsOrderedAddMonoid T] in
/-- In the run of a new limiter a window begins with a call. -/
private theorem window_mem (hround : Rounding round l.perSeconds) (hmax : 1 ≤ l.maxCalls) (hper : 0 < l.perSeconds)
    (hsorted : nows.Pairwise (· ≤ ·)) (hfresh : l.windowStart = none) {c : Call T} (hc : c ∈ calls round l nows) :
    ∃ window ∈ nows, c.window = some window ∧ window ≤ c.now ∧ round (c.now - window) < l.perSeconds ∧
      c.now ∈ nows := by
  have hnone : ∀ start, ¬ l.windowStart = some start := by
    intro start hstart
    rw [hfresh] at hstart
    cases hstart
  obtain ⟨window, hwindow, hle, hend, hnow, hfrom⟩ :=
    window_contains hround hmax hper hsorted (fun start hstart => absurd hstart (hnone start)) hc
  rcases hfrom with hfrom | hfrom
  · exact ⟨window, hfrom, hwindow, hle, hend, hnow⟩
  · exact absurd hfrom (hnone window)

/-- The windows that had begun by the start of a stretch are one at most. -/
private theorem grants_begun_le (hround : Rounding round l.perSeconds) (hmax : 1 ≤ l.maxCalls)
    (hper : 0 < l.perSeconds) (hsorted : nows.Pairwise (· ≤ ·)) (hfresh : l.windowStart = none)
    (hafter : ∀ x, within x = true → t ≤ x) :
    grants (fun c => within c.now && begunBy t c) (calls round l nows) ≤ l.maxCalls := by
  have hmem := fun c (hc : c ∈ calls round l nows) => window_mem hround hmax hper hsorted hfresh hc
  refine grants_le_of_close hround hmax hper nows (fun c hc => ?_) ?_
  · obtain ⟨window, -, hwindow, -⟩ := hmem c hc
    exact ⟨window, hwindow⟩
  · intro c hc c' _ hkind hkind' window window' hwindow hwindow'
    obtain ⟨start, -, hstart, -, hend, -⟩ := hmem c hc
    obtain rfl : window = start := Option.some.inj (hwindow.symm.trans hstart)
    simp only [begunBy, hwindow, hwindow', Option.any_some, Bool.and_eq_true, decide_eq_true_eq] at hkind hkind'
    -- the window has not passed when its call comes, which is behind the start of the other
    have hle : window' ≤ c.now := hkind'.2.trans (hafter c.now hkind.1)
    exact (hround.mono (sub_le_sub_right hle window)).trans_lt hend

/-- The windows that begin in a stretch are two at most, one in each half of it. -/
private theorem grants_behind_le (hround : Rounding round l.perSeconds) (hmax : 1 ≤ l.maxCalls)
    (hper : 0 < l.perSeconds) (hsorted : nows.Pairwise (· ≤ ·)) (hfresh : l.windowStart = none)
    (hbefore : ∀ x, within x = true → x ≤ t + l.perSeconds) :
    grants (fun c => within c.now && !begunBy t c) (calls round l nows) ≤ 2 * l.maxCalls := by
  have hmem := fun c (hc : c ∈ calls round l nows) => window_mem hround hmax hper hsorted hfresh hc
  have hsome : ∀ c ∈ calls round l nows, ∃ window, c.window = some window := by
    intro c hc
    obtain ⟨window, -, hwindow, -⟩ := hmem c hc
    exact ⟨window, hwindow⟩
  rw [grants_split (fun c => within c.now && !begunBy t c) (inFirstHalf t l.perSeconds)]
  have hfirst : grants (fun c => (within c.now && !begunBy t c) && inFirstHalf t l.perSeconds c) (calls round l nows) ≤
      l.maxCalls := by
    refine grants_le_of_close hround hmax hper nows hsome ?_
    intro c hc c' _ hkind hkind' window window' hwindow hwindow'
    simp only [begunBy, inFirstHalf, hwindow, hwindow', Option.any_some, Bool.and_eq_true, Bool.not_eq_true',
      decide_eq_false_iff_not, decide_eq_true_eq, not_le] at hkind hkind'
    have hle : window' - window ≤ window' - t := sub_le_sub_left hkind.1.2.le window'
    exact hround.half _ ((add_le_add hle hle).trans hkind'.2)
  have hsecond : grants (fun c => (within c.now && !begunBy t c) && !inFirstHalf t l.perSeconds c)
      (calls round l nows) ≤ l.maxCalls := by
    refine grants_le_of_close hround hmax hper nows hsome ?_
    intro c _ c' hc' hkind hkind' window window' hwindow hwindow'
    obtain ⟨start, -, hstart, hle, -⟩ := hmem c' hc'
    obtain rfl : window' = start := Option.some.inj (hwindow'.symm.trans hstart)
    simp only [begunBy, inFirstHalf, hwindow, hwindow', Option.any_some, Bool.and_eq_true, Bool.not_eq_true',
      decide_eq_false_iff_not, not_le] at hkind hkind'
    exact hround.half _ (rest_le_half hkind.2.le (hle.trans (hbefore c'.now hkind'.1.1)))
  omega

/-- A stretch of length `per` meets three windows at most. -/
private theorem grants_stretch_le (hround : Rounding round l.perSeconds) (hmax : 1 ≤ l.maxCalls)
    (hper : 0 < l.perSeconds)
    (hsorted : nows.Pairwise (· ≤ ·)) (hfresh : l.windowStart = none)
    (hwithin : ∀ x, within x = true → t ≤ x ∧ x ≤ t + l.perSeconds) :
    grants (fun c => within c.now) (calls round l nows) ≤ 3 * l.maxCalls := by
  rw [grants_split (fun c => within c.now) (begunBy t)]
  have hbegun := grants_begun_le hround hmax hper hsorted hfresh fun x hx => (hwithin x hx).1
  have hbehind := grants_behind_le hround hmax hper hsorted hfresh fun x hx => (hwithin x hx).2
  omega

/-- Without three readings that are apart, a stretch of length `per` meets two windows at most. -/
theorem grants_stretch_le_two (hround : Rounding round l.perSeconds) (hmax : 1 ≤ l.maxCalls) (hper : 0 < l.perSeconds)
    (hsorted : nows.Pairwise (· ≤ ·)) (hfresh : l.windowStart = none)
    (hwithin : ∀ x, within x = true → t ≤ x ∧ x ≤ t + l.perSeconds)
    (hthree : ¬ ThreeApart round l.perSeconds nows t within) :
    grants (fun c => within c.now) (calls round l nows) ≤ 2 * l.maxCalls := by
  have hmem := fun c (hc : c ∈ calls round l nows) => window_mem hround hmax hper hsorted hfresh hc
  rw [grants_split (fun c => within c.now) (begunBy t)]
  by_cases hempty : ∃ c ∈ calls round l nows, begunBy t c = true
  · -- one window had begun by the start of the stretch, and one more begins in it
    obtain ⟨c₀, hc₀, hbegun₀⟩ := hempty
    obtain ⟨w₀, hw₀, hwindow₀, -⟩ := hmem c₀ hc₀
    simp only [begunBy, hwindow₀, Option.any_some, decide_eq_true_eq] at hbegun₀
    have hbegun := grants_begun_le hround hmax hper hsorted hfresh fun x hx => (hwithin x hx).1
    have hbehind : grants (fun c => within c.now && !begunBy t c) (calls round l nows) ≤ l.maxCalls := by
      refine grants_le_of_close hround hmax hper nows (fun c hc => ?_) ?_
      · obtain ⟨window, -, hwindow, -⟩ := hmem c hc
        exact ⟨window, hwindow⟩
      intro c hc c' hc' hkind hkind' window window' hwindow hwindow'
      obtain ⟨w, hw, hstart, -⟩ := hmem c hc
      obtain rfl : window = w := Option.some.inj (hwindow.symm.trans hstart)
      obtain ⟨w', -, hstart', hle', -, hnow'⟩ := hmem c' hc'
      obtain rfl : window' = w' := Option.some.inj (hwindow'.symm.trans hstart')
      simp only [begunBy, hwindow, hwindow', Option.any_some, Bool.and_eq_true, Bool.not_eq_true',
        decide_eq_false_iff_not, not_le] at hkind hkind'
      by_contra hfar
      rw [not_lt] at hfar
      have hapart : l.perSeconds ≤ round (window - w₀) := by
        rcases windows_cases hround hmax hper hc₀ hc hwindow₀ hwindow with rfl | happ | happ
        · exact absurd hkind.2 (not_lt.2 hbegun₀)
        · exact happ
        · exact absurd ((start_le_of_apart hround hper happ).trans_le hbegun₀) (not_lt.2 hkind.2.le)
      rcases hbegun₀.lt_or_eq with hlt | rfl
      · have hreach := hfar.trans (hround.mono (sub_le_sub_right hle' window))
        exact hthree ⟨w₀, hw₀, window, hw, c'.now, hnow', hlt, hkind.2, hkind'.1, hapart, hreach⟩
      · -- the one that had begun does so with the stretch, which has no room for two more
        rcases le_total ((window - w₀) + (window - w₀)) l.perSeconds with hhalf | hhalf
        · exact absurd hapart (not_le.2 (hround.half _ hhalf))
        · have hrest := rest_le_half hhalf (hle'.trans (hwithin _ hkind'.1).2)
          exact absurd hfar (not_le.2 (hround.half _ hrest))
    omega
  · have hnone : grants (fun c => within c.now && begunBy t c) (calls round l nows) = 0 := by
      apply List.countP_eq_zero.2
      intro c hc hcounted
      exact hempty ⟨c, hc, (Bool.and_eq_true_iff.1 (Bool.and_eq_true_iff.1 hcounted).2).2⟩
    have hbehind := grants_behind_le hround hmax hper hsorted hfresh fun x hx => (hwithin x hx).2
    omega

/-- Where differences are exact, no three readings are apart. -/
theorem not_threeApart_id (per : T) (nows : List T) (hbefore : ∀ x, within x = true → x ≤ t + per) :
    ¬ ThreeApart id per nows t within := by
  rintro ⟨a, -, b, -, c, -, -, hb, hc, -, hfar⟩
  have hlt : c < per + b := (hbefore c hc).trans_lt (by rw [add_comm]; gcongr)
  exact absurd (le_sub_iff_add_le.1 hfar) (not_le.2 hlt)

end Stretch

end Windows

/-! ### Denied calls -/

/-- A limiter that is used up does not count on. -/
theorem calls_full (round : T → T) (l : RateLimiter T) (hmax : 1 ≤ l.maxCalls) (used : Nat) (h : l.maxCalls ≤ l.used)
    (h' : l.maxCalls ≤ used) (nows : List T) : calls round { l with used := used } nows = calls round l nows := by
  induction nows generalizing l used with
  | nil => rfl
  | cons now nows ih =>
    rw [calls, calls]
    cases hover : l.isOver round now with
    | true =>
      have hover' : RateLimiter.isOver { l with used := used } round now = true := hover
      rw [acquire_over hover hmax, acquire_over hover' hmax]
    | false =>
      have hover' : RateLimiter.isOver { l with used := used } round now = false := hover
      obtain ⟨hstate, hgranted⟩ := acquire_within hover
      obtain ⟨hstate', hgranted'⟩ := acquire_within hover'
      have hdenied : (l.acquire round now).1.isOk = false := by
        rw [Bool.eq_false_iff, ne_eq, hgranted]
        omega
      have hdenied' : (RateLimiter.acquire { l with used := used } round now).1.isOk = false := by
        rw [Bool.eq_false_iff, ne_eq, hgranted']
        show ¬ used < l.maxCalls
        omega
      rw [hstate, hstate', hdenied, hdenied']
      have hnext := ih { l with used := l.used + 1 } hmax (used + 1) (by show l.maxCalls ≤ l.used + 1; omega)
        (by show l.maxCalls ≤ used + 1; omega)
      rw [← hnext]

/-- A denied call leaves no mark on the calls behind it. -/
private theorem calls_denied {round : T → T} {l : RateLimiter T} (hmax : 1 ≤ l.maxCalls) {now : T}
    (hdenied : (l.acquire round now).1.isOk = false) (later : List T) : calls round (l.acquire round now).2 later = calls round l later := by
  cases hover : l.isOver round now with
  | true =>
    rw [acquire_over hover hmax] at hdenied
    cases hdenied
  | false =>
    obtain ⟨hstate, hgranted⟩ := acquire_within hover
    rw [Bool.eq_false_iff, ne_eq, hgranted] at hdenied
    rw [hstate]
    exact calls_full round l hmax (l.used + 1) (by omega) (by omega) later

variable [IsOrderedAddMonoid T]

/-- A window grants at most the limit; a stretch of its length without one of its ends at most twice the limit, unless
three readings are apart, and at most thrice the limit then; a call behind a window is granted; and a denied call may be
left out. -/
theorem acquire_bounds (round : T → T) (maxCalls : Nat) (perSeconds : T) (hround : Rounding round perSeconds)
    (hmax : 1 ≤ maxCalls) (hper : 0 < perSeconds) (nows : List T) (hsorted : nows.Pairwise (· ≤ ·)) :
    (∀ start, grants (fun c => c.window = some start) (calls round (newLimiter maxCalls perSeconds) nows) ≤ maxCalls) ∧
      (∀ t, ∀ within ∈ [fun x => decide (t ≤ x) && decide (x < t + perSeconds),
          fun x => decide (t < x) && decide (x ≤ t + perSeconds)],
        grants (fun c => within c.now) (calls round (newLimiter maxCalls perSeconds) nows) ≤ 3 * maxCalls ∧
        (¬ ThreeApart round perSeconds nows t within →
          grants (fun c => within c.now) (calls round (newLimiter maxCalls perSeconds) nows) ≤ 2 * maxCalls)) ∧
      ∀ before now later, nows = before ++ now :: later →
        (∀ start, ((newLimiter maxCalls perSeconds).after round before).windowStart = some start →
          start + perSeconds ≤ now →
          (((newLimiter maxCalls perSeconds).after round before).acquire round now).1 = .ok ()) ∧
        ((((newLimiter maxCalls perSeconds).after round before).acquire round now).1 ≠ .ok () →
          calls round (newLimiter maxCalls perSeconds) (before ++ later) =
            (calls round (newLimiter maxCalls perSeconds) nows).eraseIdx before.length) := by
  refine ⟨fun start => ?_, ?_, ?_⟩
  · exact grants_window_le (l := newLimiter maxCalls perSeconds) hround hmax hper nows start
  · intro t within hwithin
    have hends : ∀ x, within x = true → t ≤ x ∧ x ≤ t + perSeconds := by
      simp only [List.mem_cons, List.not_mem_nil, or_false] at hwithin
      rcases hwithin with rfl | rfl
      · simp only [Bool.and_eq_true, decide_eq_true_eq]
        exact fun x h => ⟨h.1, h.2.le⟩
      · simp only [Bool.and_eq_true, decide_eq_true_eq]
        exact fun x h => ⟨h.1.le, h.2⟩
    exact ⟨grants_stretch_le (l := newLimiter maxCalls perSeconds) hround hmax hper hsorted rfl hends,
      grants_stretch_le_two (l := newLimiter maxCalls perSeconds) hround hmax hper hsorted rfl hends⟩
  · rintro before now later rfl
    obtain ⟨hcalls, hsame⟩ := after_params round (newLimiter maxCalls perSeconds) hmax before
    have hone : 1 ≤ ((newLimiter maxCalls perSeconds).after round before).maxCalls := by
      rw [hcalls]
      exact hmax
    constructor
    · intro start hstart hlate
      have hreach : perSeconds ≤ round (now - start) := by
        have hmono := hround.mono (le_sub_iff_add_le'.2 hlate)
        rwa [hround.length] at hmono
      rw [acquire_over ((isOver_iff hstart).2 (by rwa [hsame])) hone]
    · intro hdenied
      have hdenied' : (((newLimiter maxCalls perSeconds).after round before).acquire round now).1.isOk = false := by
        cases hresult : (((newLimiter maxCalls perSeconds).after round before).acquire round now).1 with
        | ok u => exact absurd hresult hdenied
        | error e => rfl
      rw [calls_append, calls_append, calls, calls_denied hone hdenied',
        ← length_calls round (newLimiter maxCalls perSeconds) before, List.eraseIdx_append_of_length_le (Nat.le_refl _)]
      simp

/-- One call in 10 s: the second is denied and may be left out, the third is behind the window. -/
theorem acquire_bounds_one :
    grants (fun c => c.window = some 0) (calls Doubles.double (newLimiter 1 (10 : Int)) [0, 9, 10]) ≤ 1 ∧
      calls Doubles.double (newLimiter 1 (10 : Int)) [0, 10] =
        (calls Doubles.double (newLimiter 1 (10 : Int)) [0, 9, 10]).eraseIdx 1 := by
  have h := acquire_bounds Doubles.double 1 (10 : Int) (rounding_double (by decide) (by decide)) (by decide) (by decide)
    [0, 9, 10] (by decide)
  have hdenied : (((newLimiter 1 (10 : Int)).after Doubles.double [0]).acquire Doubles.double 9).1 ≠ .ok () := nofun
  exact ⟨h.1 0, (h.2.2 [0] 9 [10] rfl).2 hdenied⟩

/-- Two calls in 10 s, in units of a second over `2 ^ 51`: the windows at `-3` and at `10 s - 4` are less than 10 s
apart, but the difference is rounded to that, so five calls are granted in a stretch of 10 s. -/
theorem rounded_up_to_window :
    let per : Int := 10 * 2 ^ 51
    let nows : List Int := [-per, -3, -2, -2, per - 4, per - 4]
    Rounding Doubles.double per ∧ nows.Pairwise (· ≤ ·) ∧
      ¬ grants (fun c => decide (-3 ≤ c.now) && decide (c.now < -3 + per))
        (calls Doubles.double (newLimiter 2 per) nows) ≤ 2 * 2 := by
  exact ⟨rounding_double (by decide) (by decide +kernel), by decide, by decide +kernel⟩

end IronHarness.Limits
