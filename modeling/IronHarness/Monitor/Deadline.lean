import IronHarness.Monitor.Window
import Mathlib.Algebra.Order.Archimedean.Basic
import Mathlib.Data.Rat.Floor
import Mathlib.Tactic.Linarith

/-!
# The monitor window under the idle deadline

On a connection with the default limits a read is refused when no operation has succeeded for 600 s.  The polls of
`in_waiting` are no operations, so a device that is silent for longer and then speaks ends the window with an
`OperationTimeout`, whatever the window has left (`silence_is_fatal`).  On a port that does not fail that is the only
way: the window ends by one of its own stop conditions exactly where no such silence ends within it
(`monitor_ends_iff`).
-/

namespace IronHarness.Monitor

open ByteText

def defaultTransportDeadlineSec : ℚ := 600

/-- A connection opened with the default limits, whose last operation succeeded at `started`. -/
def opened (started : ℚ) : Option DeadlineTransport := some ⟨defaultTransportDeadlineSec, some started⟩

/-- The loop sleeps at the end of the turn. -/
def Turn.Sleeps (t : Turn) : Prop := t.waiting = some 0 ∨ t.reply = .ok 0

/-- A port that does not fail, and a clock: `monotonic` does not go back, and a sleep takes its 50 ms. -/
structure Healthy (start : ℚ) (turns : Nat → Turn) : Prop where
  reply : ∀ i, ∃ available, (turns i).reply = .ok available
  start : start ≤ (turns 0).now
  checked : ∀ i, (turns i).now ≤ (turns i).checked
  finished : ∀ i, (turns i).checked ≤ (turns i).finished
  stamp : ∀ i, (turns i).finished ≤ (turns i).stamp
  next : ∀ i, (turns i).stamp ≤ (turns (i + 1)).now
  sleep : ∀ i, (turns i).Sleeps → (turns i).now + 1 / 20 ≤ (turns (i + 1)).now

private theorem Healthy.now_le {start : ℚ} {turns : Nat → Turn} (h : Healthy start turns) (i : Nat) :
    (turns i).now ≤ (turns (i + 1)).now := by
  linarith [h.checked i, h.finished i, h.stamp i, h.next i]

/-! ### What arrives

What the turns say, without the loop: how much has arrived before a turn, when the last byte did, and when the last
operation of the connection was. -/

section Arrivals

variable (round : ℚ → ℚ) (r : Request) (device : Nat → UInt8) (start started : ℚ) (turns : Nat → Turn)

def Turn.available (t : Turn) : Nat :=
  match t.reply with
  | .ok available => available
  | .error _ => 0

/-- What a poll brings, of what there is still room for. -/
def Turn.arrives (t : Turn) (remaining : Nat) : Nat :=
  match readSize remaining t.waiting with
  | none => 0
  | some size => min size t.available

def captured : Nat → Nat
  | 0 => 0
  | i + 1 => captured i + (turns i).arrives (r.maxBytes - captured i)

def lastArrival : Nat → ℚ
  | 0 => start
  | i + 1 =>
    if (turns i).arrives (r.maxBytes - captured r turns i) = 0 then lastArrival i else (turns i).stamp

def lastOperation : Nat → ℚ
  | 0 => started
  | i + 1 => if (turns i).waiting = some 0 then lastOperation i else (turns i).finished

/-- One of the four stop conditions holds at the head of a turn. -/
def StopsAt (i : Nat) : Prop :=
  r.maxBytes ≤ captured r turns i ∨ round (start + r.maxSeconds) ≤ (turns i).now ∨
    r.isQuiet (round ((turns i).now - lastArrival r start turns i)) = true ∨
      ∃ needle, r.needle = some needle ∧ needle <:+: sent device (captured r turns i)

/-- A poll that finds something to read finds it at most 600 s after the last operation. -/
def FreshAt (i : Nat) : Prop :=
  (turns i).waiting ≠ some 0 →
    round ((turns i).checked - lastOperation started turns i) ≤ defaultTransportDeadlineSec

/-- No silence of more than 600 s ends before a stop condition holds. -/
def KeptFresh : Prop := ∀ i, (∀ k ≤ i, ¬ StopsAt round r device start turns k) → FreshAt round started turns i

end Arrivals

/-! ### The loop follows the arrivals -/

section Loop

variable {round : ℚ → ℚ} {r : Request} {device : Nat → UInt8} {start started : ℚ} {turns : Nat → Turn} {n : Nat}
  {w : Window}

/-- The window before a turn, while the loop goes on. -/
structure Window.Follows (w : Window) (r : Request) (device : Nat → UInt8) (start started : ℚ) (turns : Nat → Turn)
    (i : Nat) : Prop where
  sound : w.Sound r device
  delivered : w.port.delivered = captured r turns i
  lastData : w.lastData = lastArrival r start turns i
  wrapper : w.port.wrapper = opened (lastOperation started turns i)

theorem Window.Follows.length (h : w.Follows r device start started turns n) :
    w.buf.length = captured r turns n := by
  rw [h.sound.device, length_sent, h.delivered]

theorem Window.Follows.buf (h : w.Follows r device start started turns n) :
    w.buf = sent device (captured r turns n) := by
  rw [← h.delivered]
  exact h.sound.device

/-- A read of a healthy port is refused for its staleness or succeeds. -/
theorem Window.Follows.read (h : w.Follows r device start started turns n) (hport : Healthy start turns)
    {size : Nat} :
    (defaultTransportDeadlineSec < round ((turns n).checked - lastOperation started turns n) ∧
      w.port.read round device (turns n) size = .error .operationTimeout) ∨
    (round ((turns n).checked - lastOperation started turns n) ≤ defaultTransportDeadlineSec ∧
      w.port.read round device (turns n) size =
        .ok ((List.range' (captured r turns n) (min size (turns n).available)).map device,
          ⟨captured r turns n + min size (turns n).available, opened (turns n).finished⟩)) := by
  obtain ⟨available, hreply⟩ := hport.reply n
  by_cases hstale : defaultTransportDeadlineSec < round ((turns n).checked - lastOperation started turns n)
  · left
    refine ⟨hstale, ?_⟩
    simp only [Port.read, Port.check, h.wrapper, opened, DeadlineTransport.check, if_pos hstale]
  · right
    refine ⟨not_lt.1 hstale, ?_⟩
    simp only [Port.read, Port.check, h.wrapper, opened, DeadlineTransport.check, if_neg hstale, hreply,
      Turn.available, h.delivered, Option.map_some]

/-- What the loop does at a turn whose stop conditions do not hold. -/
theorem Window.Follows.turn (h : w.Follows r device start started turns n) (hport : Healthy start turns)
    (hgo : ¬ StopsAt round r device start turns n) :
    (FreshAt round started turns n ∧
      ((∃ w', w.turn round r device start (turns n) = .running w' ∧ w'.Follows r device start started turns (n + 1)) ∨
        (∃ w', w.turn round r device start (turns n) = .returned .pattern w') ∧
          StopsAt round r device start turns (n + 1))) ∨
    (¬ FreshAt round started turns n ∧ w.turn round r device start (turns n) = .raised .operationTimeout) := by
  obtain ⟨hfull, -⟩ | ⟨-, hlate, -⟩ | ⟨-, -, hquiet, -⟩ | ⟨-, -, -, hstep⟩ := w.turn_cases round r device start (turns n)
  · exact absurd (.inl (h.length ▸ hfull)) hgo
  · exact absurd (.inr (.inl hlate)) hgo
  · exact absurd (.inr (.inr (.inl (h.lastData ▸ hquiet)))) hgo
  obtain ⟨hidle, hw⟩ | ⟨size, hsize, hread⟩ := hstep
  · left
    refine ⟨fun hbusy => absurd hidle hbusy, .inl ?_⟩
    have harrives : (turns n).arrives (r.maxBytes - captured r turns n) = 0 := by
      simp [Turn.arrives, hidle, readSize]
    refine ⟨w, hw, h.sound, ?_, ?_, ?_⟩
    · rw [h.delivered, captured, harrives, Nat.add_zero]
    · rw [h.lastData, lastArrival, if_pos harrives]
    · rw [h.wrapper, lastOperation, if_pos hidle]
  have hbusy : (turns n).waiting ≠ some 0 := by
    intro hidle
    rw [hidle] at hsize
    cases hsize
  have harrives : (turns n).arrives (r.maxBytes - captured r turns n) = min size (turns n).available := by
    rw [← h.length, Turn.arrives, hsize]
  obtain ⟨hstale, hraises⟩ | ⟨hfresh, hok⟩ := @Window.Follows.read round _ _ _ _ _ _ _ h hport size
  · right
    obtain ⟨fault, hfault, hw⟩ | ⟨chunk, port, hread, -⟩ := hread
    · rw [hraises] at hfault
      cases hfault
      exact ⟨fun hfresh => absurd (hfresh hbusy) (not_le.2 hstale), hw⟩
    · rw [hraises] at hread
      cases hread
  obtain ⟨fault, hfault, -⟩ | ⟨chunk, port, hread, hw⟩ := hread
  · rw [hok] at hfault
    cases hfault
  rw [hok] at hread
  cases hread
  left
  refine ⟨fun _ => hfresh, ?_⟩
  obtain ⟨hnil, htake⟩ | ⟨grown, rfl, hne, ⟨needle, -, -, htake⟩ | ⟨-, htake⟩⟩ := w.take_cases r (turns n).stamp _ _
  · left
    have hturn := hw.trans htake
    have hzero : min size (turns n).available = 0 := by simpa using hnil
    refine ⟨_, hturn, h.sound.turn hturn, ?_, ?_, ?_⟩
    · rw [captured, harrives]
    · rw [lastArrival, harrives, if_pos hzero]
      exact h.lastData
    · rw [lastOperation, if_neg hbusy]
  · right
    have hturn := hw.trans htake
    have hexact := h.sound.turn_returned hturn
    refine ⟨⟨_, hturn⟩, .inr (.inr (.inr ?_))⟩
    obtain ⟨found, hfound, hin⟩ := hexact.pattern.1 rfl
    refine ⟨found, hfound, ?_⟩
    rw [hexact.device] at hin
    rwa [captured, harrives]
  · left
    have hturn := hw.trans htake
    have hpos : min size (turns n).available ≠ 0 := by
      intro hzero
      apply hne
      simp [hzero]
    refine ⟨_, hturn, h.sound.turn hturn, ?_, ?_, ?_⟩
    · rw [captured, harrives]
    · rw [lastArrival, harrives, if_neg hpos]
    · rw [lastOperation, if_neg hbusy]

/-- Where a stop condition holds the loop returns. -/
theorem Window.Follows.returns (h : w.Follows r device start started turns n)
    (hstops : StopsAt round r device start turns n) :
    ∃ reason w', w.turn round r device start (turns n) = .returned reason w' := by
  obtain ⟨-, hw⟩ | ⟨-, -, hw⟩ | ⟨-, -, -, hw⟩ | ⟨hlt, hnow, hquiet, -⟩ := w.turn_cases round r device start (turns n)
  · exact ⟨_, _, hw⟩
  · exact ⟨_, _, hw⟩
  · exact ⟨_, _, hw⟩
  · obtain hfull | hlate | hq | ⟨needle, hneedle, hin⟩ := hstops
    · rw [h.length] at hlt
      omega
    · exact absurd hlate (not_le.2 hnow)
    · rw [h.lastData, hq] at hquiet
      cases hquiet
    · exact absurd (h.buf ▸ hin) (h.sound.absent needle hneedle)

/-- A loop that goes on has met no stop condition. -/
private theorem follows_of_running (hport : Healthy start turns)
    (h : monitorWindow round r device start (opened started) turns n = .running w) :
    w.Follows r device start started turns n ∧ ∀ k < n, ¬ StopsAt round r device start turns k := by
  induction n generalizing w with
  | zero =>
    cases h
    exact ⟨⟨r.sound_start device start _, rfl, rfl, rfl⟩, by omega⟩
  | succ n ih =>
    match hn : monitorWindow round r device start (opened started) turns n with
    | .running v =>
      obtain ⟨hv, hbefore⟩ := ih hn
      rw [monitorWindow_succ_of_running hn] at h
      have hgo : ¬ StopsAt round r device start turns n := by
        intro hstops
        obtain ⟨reason, w', hw⟩ := hv.returns hstops
        rw [hw] at h
        cases h
      obtain ⟨-, ⟨w', hw, hnext⟩ | ⟨⟨w', hw⟩, -⟩⟩ | ⟨-, hw⟩ := hv.turn hport hgo
      · rw [hw] at h
        cases h
        refine ⟨hnext, ?_⟩
        intro k hk
        rcases Nat.lt_succ_iff_lt_or_eq.1 hk with hlt | rfl
        · exact hbefore k hlt
        · exact hgo
      · rw [hw] at h
        cases h
      · rw [hw] at h
        cases h
    | .returned _ _ =>
      rw [monitorWindow, hn] at h
      cases h
    | .raised _ =>
      rw [monitorWindow, hn] at h
      cases h

/-- A loop that has ended did so at one of the turns. -/
private theorem ended_at {wrapper : Option DeadlineTransport}
    (h : ∀ w, monitorWindow round r device start wrapper turns n ≠ .running w) :
    ∃ i < n, ∃ w, monitorWindow round r device start wrapper turns i = .running w ∧
      w.turn round r device start (turns i) = monitorWindow round r device start wrapper turns n := by
  induction n with
  | zero => exact absurd rfl (h _)
  | succ n ih =>
    match hn : monitorWindow round r device start wrapper turns n with
    | .running v => exact ⟨n, Nat.lt_succ_self n, v, hn, (monitorWindow_succ_of_running hn).symm⟩
    | .returned reason v =>
      obtain ⟨i, hi, w, hw, hturn⟩ := ih (by simp [hn])
      refine ⟨i, Nat.lt_succ_of_lt hi, w, hw, ?_⟩
      rw [hturn, monitorWindow, hn]
    | .raised fault =>
      obtain ⟨i, hi, w, hw, hturn⟩ := ih (by simp [hn])
      refine ⟨i, Nat.lt_succ_of_lt hi, w, hw, ?_⟩
      rw [hturn, monitorWindow, hn]

/-- How a loop ends on a port that does not fail: by a stop condition, or by a read after too long a silence. -/
private theorem ended_cases (hport : Healthy start turns)
    (h : ∀ w, monitorWindow round r device start (opened started) turns n ≠ .running w) :
    (∃ reason w, monitorWindow round r device start (opened started) turns n = .returned reason w ∧
      ∃ i ≤ n, StopsAt round r device start turns i) ∨
    (monitorWindow round r device start (opened started) turns n = .raised .operationTimeout ∧
      ∃ i < n, (∀ k ≤ i, ¬ StopsAt round r device start turns k) ∧ ¬ FreshAt round started turns i) := by
  obtain ⟨i, hi, w, hw, hturn⟩ := ended_at h
  rw [← hturn]
  obtain ⟨hfollows, hbefore⟩ := follows_of_running hport hw
  by_cases hstops : StopsAt round r device start turns i
  · left
    obtain ⟨reason, w', hret⟩ := hfollows.returns hstops
    exact ⟨reason, w', hret, i, Nat.le_of_lt hi, hstops⟩
  obtain ⟨-, ⟨w', hrun, -⟩ | ⟨⟨w', hret⟩, hstops'⟩⟩ | ⟨hstale, hraise⟩ := hfollows.turn hport hstops
  · exact absurd (hturn.symm.trans hrun) (h w')
  · left
    exact ⟨.pattern, w', hret, i + 1, hi, hstops'⟩
  · right
    refine ⟨hraise, i, hi, ?_, hstale⟩
    intro k hk
    rcases Nat.lt_or_eq_of_le hk with hlt | rfl
    · exact hbefore k hlt
    · exact hstops

/-! ### The loop ends -/

/-- A turn that does not sleep brings a byte. -/
private theorem arrives_pos (hport : Healthy start turns) {i remaining : Nat} (hremaining : 0 < remaining)
    (hawake : ¬ (turns i).Sleeps) : 0 < (turns i).arrives remaining := by
  obtain ⟨available, hreply⟩ := hport.reply i
  have hsome : available ≠ 0 := by
    rintro rfl
    exact hawake (.inr hreply)
  have havail : (turns i).available = available := by
    simp only [Turn.available, hreply]
  unfold Turn.arrives
  split
  · rename_i hsize
    unfold readSize at hsize
    split at hsize
    · rename_i hidle
      exact absurd (.inl hidle) hawake
    · cases hsize
    · cases hsize
  · rename_i size hsize
    have hpos := readSize_pos hsize hremaining
    omega

/-- Every turn brings a byte or takes 50 ms. -/
private theorem turns_le (hport : Healthy start turns) (hgo : ∀ k < n, ¬ StopsAt round r device start turns k) :
    (n : ℚ) ≤ captured r turns n + 20 * ((turns n).now - start) := by
  induction n with
  | zero =>
    have := hport.start
    simp only [Nat.cast_zero, captured]
    linarith
  | succ n ih =>
    have hn := ih fun k hk => hgo k (Nat.lt_succ_of_lt hk)
    have hroom : captured r turns n < r.maxBytes := by
      by_contra hfull
      exact hgo n (Nat.lt_succ_self n) (.inl (Nat.not_lt.1 hfull))
    rw [captured]
    push_cast
    by_cases hsleeps : (turns n).Sleeps
    · have hslept := hport.sleep n hsleeps
      have hmore : (0 : ℚ) ≤ ((turns n).arrives (r.maxBytes - captured r turns n) : ℕ) := Nat.cast_nonneg _
      linarith
    · have hone : (1 : ℚ) ≤ ((turns n).arrives (r.maxBytes - captured r turns n) : ℕ) := by
        exact_mod_cast arrives_pos hport (by omega) hsleeps
      have hmono := hport.now_le n
      linarith

private theorem exists_ended (round : ℚ → ℚ) (r : Request) (device : Nat → UInt8) (started : ℚ)
    (hport : Healthy start turns) :
    ∃ n, ∀ w, monitorWindow round r device start (opened started) turns n ≠ .running w := by
  by_contra hruns
  push Not at hruns
  obtain ⟨n, hn⟩ := exists_nat_gt ((r.maxBytes : ℚ) + 20 * (round (start + r.maxSeconds) - start))
  obtain ⟨w, hw⟩ := hruns (n + 1)
  obtain ⟨v, hv⟩ := hruns n
  obtain ⟨-, hgo⟩ := follows_of_running hport hw
  have hfollows := (follows_of_running hport hv).1
  have hle : (captured r turns n : ℚ) ≤ r.maxBytes := by
    rw [← hfollows.length]
    exact_mod_cast hfollows.sound.le
  have hnow : (turns n).now < round (start + r.maxSeconds) := by
    by_contra hlate
    exact hgo n (Nat.lt_succ_self n) (.inr (.inl (not_lt.1 hlate)))
  have hturns := turns_le hport fun k hk => hgo k (Nat.lt_succ_of_lt hk)
  linarith

/-- A silence of more than 600 s that ends within the window is fatal. -/
private theorem silence_is_fatal (hport : Healthy start turns) {i : Nat}
    (hgo : ∀ k ≤ i, ¬ StopsAt round r device start turns k) (hstale : ¬ FreshAt round started turns i) :
    monitorWindow round r device start (opened started) turns (i + 1) = .raised .operationTimeout := by
  by_cases hend : ∀ w, monitorWindow round r device start (opened started) turns i ≠ .running w
  · obtain ⟨reason, w, -, j, hj, hstops⟩ | ⟨hraise, -⟩ := ended_cases hport hend
    · exact absurd hstops (hgo j hj)
    · rw [monitorWindow, hraise]
  · push Not at hend
    obtain ⟨w, hw⟩ := hend
    rw [monitorWindow_succ_of_running hw]
    obtain ⟨hfresh, -⟩ | ⟨-, hraise⟩ := (follows_of_running hport hw).1.turn hport (hgo i (Nat.le_refl i))
    · exact absurd hfresh hstale
    · exact hraise

/-- On a port that does not fail a monitor ends by one of its stop conditions, and without an `OperationTimeout`, if
and only if no silence of more than 600 s ends before a stop condition holds. -/
theorem monitor_ends_iff (hport : Healthy start turns) :
    ((∃ n reason w, monitorWindow round r device start (opened started) turns n = .returned reason w) ∧
      ∀ n, monitorWindow round r device start (opened started) turns n ≠ .raised .operationTimeout) ↔
    KeptFresh round r device start started turns := by
  constructor
  · rintro ⟨-, hnever⟩ i hgo
    by_contra hstale
    exact hnever (i + 1) (silence_is_fatal hport hgo hstale)
  · intro hkept
    have hraises : ∀ n, monitorWindow round r device start (opened started) turns n ≠ .raised .operationTimeout := by
      intro n hraise
      obtain ⟨reason, w, hret, -⟩ | ⟨-, i, -, hgo, hstale⟩ :=
        ended_cases (n := n) hport (by rw [hraise]; simp)
      · rw [hraise] at hret
        cases hret
      · exact hstale (hkept i hgo)
    obtain ⟨n, hend⟩ := exists_ended round r device started hport
    obtain ⟨reason, w, hret, -⟩ | ⟨hraise, -⟩ := ended_cases hport hend
    · exact ⟨⟨n, reason, w, hret⟩, hraises⟩
    · exact absurd hraise (hraises n)

end Loop

/-! ### A device that is silent at first

Nothing is there to read at the first polls of a window of an hour; from then on one byte at every poll. -/

def hourRequest : Request := ⟨65536, 3600, none, none, by decide, by decide, okRequest.quiet_mem, by simp⟩

def silentTurns (polls i : Nat) : Turn :=
  let bytes := if i < polls then 0 else 1
  ⟨i / 20, some bytes, i / 20, .ok bytes, i / 20, i / 20⟩

private theorem silentTurns_healthy (polls : Nat) : Healthy 0 (silentTurns polls) where
  reply := fun i => ⟨_, rfl⟩
  start := by simp [silentTurns]
  checked := fun i => le_refl _
  finished := fun i => le_refl _
  stamp := fun i => le_refl _
  next := by
    intro i
    simp only [silentTurns]
    push_cast
    linarith
  sleep := by
    intro i _
    simp only [silentTurns]
    push_cast
    linarith

private theorem silentTurns_waiting {polls i : Nat} : (silentTurns polls i).waiting = some 0 ↔ i < polls := by
  simp [silentTurns]

private theorem captured_silentTurns {r : Request} {polls i : Nat} (hi : i ≤ polls) :
    captured r (silentTurns polls) i = 0 := by
  induction i with
  | zero => rfl
  | succ i ih =>
    have hwaiting := silentTurns_waiting.2 (show i < polls by omega)
    rw [captured, ih (by omega), Turn.arrives, hwaiting]
    rfl

private theorem lastOperation_silentTurns {polls i : Nat} :
    lastOperation 0 (silentTurns polls) i = if i ≤ polls then 0 else ((i - 1 : Nat) : ℚ) / 20 := by
  induction i with
  | zero => simp [lastOperation]
  | succ i ih =>
    rw [lastOperation]
    by_cases hi : i < polls
    · rw [if_pos (silentTurns_waiting.2 hi), ih, if_pos (by omega), if_pos (by omega)]
    · rw [if_neg (mt silentTurns_waiting.1 hi), if_neg (by omega), Nat.add_sub_cancel]
      rfl

/-- After five seconds of silence the monitor goes on. -/
theorem monitor_ends_iff_five_seconds :
    ∃ n reason w, monitorWindow id hourRequest (fun _ => 0x41) 0 (opened 0) (silentTurns 100) n = .returned reason w := by
  refine ((monitor_ends_iff (silentTurns_healthy 100)).2 ?_).1
  intro i _ hbusy
  have hi : 100 ≤ i := by simpa using mt silentTurns_waiting.2 hbusy
  rw [lastOperation_silentTurns, defaultTransportDeadlineSec]
  simp only [silentTurns]
  split
  · obtain rfl : i = 100 := by omega
    norm_num
  · rw [Nat.cast_sub (by omega), id]
    push_cast
    linarith

/-- After ten minutes and a second of silence it raises an `OperationTimeout` at the first byte. -/
theorem late_device_times_out : ¬ ∀ (r : Request) (device : Nat → UInt8) (start : ℚ) (turns : Nat → Turn),
    Healthy start turns →
      (∃ n reason w, monitorWindow id r device start (opened start) turns n = .returned reason w) ∧
        ∀ n, monitorWindow id r device start (opened start) turns n ≠ .raised .operationTimeout := by
  intro hclaim
  have hport := silentTurns_healthy 12020
  apply (hclaim hourRequest (fun _ => 0x41) 0 (silentTurns 12020) hport).2 12021
  apply silence_is_fatal hport
  · intro k hk
    rintro (hfull | hlate | hquiet | ⟨needle, hneedle, -⟩)
    · rw [captured_silentTurns hk] at hfull
      exact absurd hfull (by decide)
    · have hk' : (k : ℚ) ≤ 12020 := by exact_mod_cast hk
      simp only [silentTurns, hourRequest, id] at hlate
      linarith
    · cases hquiet
    · cases hneedle
  · intro hfresh
    have hlate := hfresh (by simp [silentTurns_waiting])
    rw [lastOperation_silentTurns, if_pos (Nat.le_refl _), defaultTransportDeadlineSec] at hlate
    simp only [silentTurns] at hlate
    norm_num at hlate

end IronHarness.Monitor
