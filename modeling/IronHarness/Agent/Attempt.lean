import IronHarness.Agent.Chat
import Mathlib.Logic.Relation

/-!
# An attempt of the agent

`solve_attempt` (ironbench/agent.py): the loop of the turns, each with its retries.  An attempt goes from place to place;
the place where it ends decides its outcome (`solveAttempt_final`).  So it is a result, or an abort for a status code,
exactly where no reply that it gets to is fatal (`attempt_handled_iff`).
-/

namespace IronHarness.Agent

open Python (Json Exc Libraries points)

/-! ### The loop -/

/-- The part of `SolveConfig` that the loop reads. -/
structure SolveConfig where
  maxIterations : Nat
  bounds : 1 ≤ maxIterations ∧ maxIterations ≤ 1000

inductive ErrorKind
  | none
  | infra
  | timeout
  | run
  deriving DecidableEq

structure TaskResult where
  passed : Bool
  error : Option PyLiteral.PyStr
  errorKind : ErrorKind

def isInfraError (result : TaskResult) : Bool := result.errorKind = .infra

inductive AttemptError
  /-- "LLM error: ..." -/
  | llm (e : Exc)
  /-- "environment not ready, attempt stopped: ..." -/
  | environment (error : Option PyLiteral.PyStr)
  /-- "iteration limit (...) exhausted" -/
  | exhausted (maxIterations : Nat)

structure AttemptResult where
  solved : Bool
  iterations : Nat
  error : Option AttemptError
  errorKind : ErrorKind

inductive Outcome
  | returned (result : AttemptResult)
  /-- `SystemExit` -/
  | aborted (code : Nat)
  | raised (e : Exc)

section

variable (lib : Libraries) (cfg : SolveConfig) (replies : Nat → Reply) (results : Nat → TaskResult)

/-- The calls of one turn, from the given one on, with `left` tries after the next: the outcome of the last call, and the
number of calls so far. -/
def ask : Nat → Nat → Except Exc Json × Nat
  | left, call =>
    match chat lib (replies call), left with
    | .ok response, _ => (.ok response, call + 1)
    | .error e, left + 1 => if transient e then ask left (call + 1) else (.error e, call + 1)
    | .error e, 0 => (.error e, call + 1)

/-- `error_kind`, where the LLM has not failed -/
def attemptKind (solved : Bool) (runKind : Option ErrorKind) : ErrorKind :=
  if solved then .none else runKind.getD .run

/-- The turns that are left.  The messages are left out: the replies are arbitrary. -/
def solveLoop : Nat → Nat → Nat → Nat → Option ErrorKind → Outcome
  | 0, iterations, _, _, runKind =>
    .returned ⟨false, iterations, some (.exhausted cfg.maxIterations), attemptKind false runKind⟩
  | left + 1, iterations, call, runs, runKind =>
    match ask lib replies 2 call with
    | (.error (.http code), _) =>
      if code ∈ abortCodes then .aborted code
      else .returned ⟨false, iterations + 1, some (.llm (.http code)), .infra⟩
    | (.error e, _) => if transient e then .returned ⟨false, iterations + 1, some (.llm e), .infra⟩ else .raised e
    | (.ok response, call) =>
      match extractCode response with
      | .error e => .raised e
      | .ok none => solveLoop left (iterations + 1) call runs runKind
      | .ok (some code) =>
        match writeText code with
        | .error e => .raised e
        | .ok _ =>
          let result := results runs
          let runKind := some result.errorKind
          if result.passed then .returned ⟨true, iterations + 1, none, attemptKind true runKind⟩
          else if isInfraError result then
            .returned ⟨false, iterations + 1, some (.environment result.error), attemptKind false runKind⟩
          else solveLoop left (iterations + 1) call (runs + 1) runKind

/-- `solve_attempt`; the replies and the results of the runs are numbered. -/
def solveAttempt : Outcome := solveLoop lib cfg replies results cfg.maxIterations 0 0 0 none

/-! ### The places of an attempt -/

/-- Where an attempt waits for a reply: how many of this turn were refused, how many turns and runs are behind it. -/
structure Place where
  reply : Nat
  refused : Nat
  turns : Nat
  runs : Nat

/-- The place behind a turn, where there is one. -/
def nextTurn (place : Place) (runs : Nat) : Option Place :=
  if place.turns + 1 < cfg.maxIterations then some ⟨place.reply + 1, 0, place.turns + 1, runs⟩ else none

/-- The firmware of a run is neither right nor without its environment. -/
def goesOn (result : TaskResult) : Bool := !result.passed && !isInfraError result

def next (place : Place) : Option Place :=
  match kindOf lib (replies place.reply) with
  | .refused => if place.refused < 2 then some ⟨place.reply + 1, place.refused + 1, place.turns, place.runs⟩ else none
  | .prose => nextTurn cfg place place.runs
  | .code => if goesOn (results place.runs) then nextTurn cfg place (place.runs + 1) else none
  | .fatal | .aborts => none

def Leads (a b : Place) : Prop := Relation.ReflTransGen (fun a b => next lib cfg replies results a = some b) a b

/-- The attempt gets to this place. -/
def Reached (place : Place) : Prop := Leads lib cfg replies results ⟨0, 0, 0, 0⟩ place

/-- The outcome of an attempt that ends at a place. -/
inductive Final (place : Place) : Outcome → Prop
  | raised (e : Exc) (h : kindOf lib (replies place.reply) = .fatal) : Final place (.raised e)
  | aborted (code : Nat) (hcode : code ∈ abortCodes) (h : replies place.reply = .status code) : Final place (.aborted code)
  | llm (e : Exc) (h : kindOf lib (replies place.reply) = .refused) (hrefused : place.refused = 2) :
      Final place (.returned ⟨false, place.turns + 1, some (.llm e), .infra⟩)
  | judged (result : AttemptResult) (hnext : next lib cfg replies results place = none)
      (h : kindOf lib (replies place.reply) = .prose ∨ kindOf lib (replies place.reply) = .code)
      (herror : ∀ e, result.error ≠ some (.llm e)) : Final place (.returned result)

/-- The attempt returns or is aborted for a status code, and an error of the LLM is one of the environment, behind three
refused replies of a turn. -/
structure Handled (outcome : Outcome) : Prop where
  noRaise : ∀ e, outcome ≠ .raised e
  aborts : ∀ code, outcome = .aborted code → code ∈ abortCodes ∧
    ∃ place, Reached lib cfg replies results place ∧ replies place.reply = .status code
  llm : ∀ result, outcome = .returned result → ((∃ e, result.error = some (.llm e)) ↔
    ∃ place, Reached lib cfg replies results place ∧ place.refused = 2 ∧ kindOf lib (replies place.reply) = .refused)
  infra : ∀ result e, outcome = .returned result → result.error = some (.llm e) →
    result.solved = false ∧ result.errorKind = .infra

end

variable {lib : Libraries} {cfg : SolveConfig} {replies : Nat → Reply} {results : Nat → TaskResult}

/-- A reply is refused exactly where its exception is retried. -/
private theorem refused_iff {reply : Reply} :
    kindOf lib reply = .refused ↔ ∃ e, chat lib reply = .error e ∧ transient e = true := by
  have hspec := chat_spec lib reply
  constructor
  · intro hkind
    rwa [hkind] at hspec
  · rintro ⟨e, hchat, htransient⟩
    cases hkind : kindOf lib reply with
    | refused => rfl
    | fatal =>
      rw [hkind, hchat] at hspec
      rcases hspec with ⟨e', he, hnot, -⟩ | ⟨text, e', htext, -⟩
      · cases he
        rw [htransient] at hnot
        cases hnot
      · cases htext
    | aborts =>
      rw [hkind, hchat] at hspec
      obtain ⟨code, hcode, he⟩ := hspec
      cases he
      exact absurd hcode (of_decide_eq_true htransient)
    | prose =>
      rw [hkind, hchat] at hspec
      obtain ⟨text, htext, -⟩ := hspec
      cases htext
    | code =>
      rw [hkind, hchat] at hspec
      obtain ⟨text, code, htext, -⟩ := hspec
      cases htext

/-- The calls of a turn end at the first reply that is not refused, or at the third one. -/
private theorem ask_spec (left refused call turns runs : Nat) (hleft : left + refused = 2) :
    ∃ place : Place, Leads lib cfg replies results ⟨call, refused, turns, runs⟩ place ∧ place.turns = turns ∧
      place.runs = runs ∧ ask lib replies left call = (chat lib (replies place.reply), place.reply + 1) ∧
      (kindOf lib (replies place.reply) = .refused → place.refused = 2) := by
  induction left generalizing refused call with
  | zero =>
    refine ⟨⟨call, refused, turns, runs⟩, .refl, rfl, rfl, ?_, fun _ => by simpa using hleft⟩
    unfold ask
    cases chat lib (replies call) <;> rfl
  | succ left ih =>
    by_cases hkind : kindOf lib (replies call) = .refused
    · obtain ⟨e, hchat, htransient⟩ := refused_iff.1 hkind
      obtain ⟨place, hleads, hturns, hruns, hask, hlast⟩ := ih (refused + 1) (call + 1) (by omega)
      have hnext : next lib cfg replies results ⟨call, refused, turns, runs⟩ =
          some ⟨call + 1, refused + 1, turns, runs⟩ := by
        have hlt : refused < 2 := by omega
        simp only [next, hkind, hlt, if_true]
      refine ⟨place, hleads.head hnext, hturns, hruns, ?_, hlast⟩
      unfold ask
      simp only [hchat, htransient, if_true]
      exact hask
    · refine ⟨⟨call, refused, turns, runs⟩, .refl, rfl, rfl, ?_, fun h => absurd h hkind⟩
      unfold ask
      cases hchat : chat lib (replies call) with
      | ok response => rfl
      | error e =>
        have htransient : transient e = false := by
          rw [← Bool.not_eq_true]
          exact fun h => hkind (refused_iff.2 ⟨e, hchat, h⟩)
        simp [htransient]

section

variable {fine : Kind}

private theorem countKind_ne_aborts (key : String) (usage : Json) (h : fine ≠ .aborts) :
    countKind lib key usage fine ≠ .aborts := by
  unfold countKind
  split
  · exact h
  · split
    · exact h
    · simp
    · simp

private theorem usageKind_ne_aborts (payload : Json) (h : fine ≠ .aborts) : usageKind lib payload fine ≠ .aborts := by
  unfold usageKind
  split
  · exact h
  · exact countKind_ne_aborts _ _ (countKind_ne_aborts _ _ h)
  · simp

private theorem textKind_ne_aborts (text : Option Json) : textKind text ≠ .aborts := by
  unfold textKind
  split
  · simp
  · split
    · simp
    · split <;> simp
  · simp

end

private theorem kindOf_body_ne_aborts (payload : Json) : kindOf lib (.body payload) ≠ .aborts := by
  simp only [kindOf]
  split
  · simp
  · simp
  · unfold messageKind
    split
    · simp
    · exact usageKind_ne_aborts _ (textKind_ne_aborts _)
    · simp

private theorem kindOf_aborts {reply : Reply} (h : kindOf lib reply = .aborts) :
    ∃ code ∈ abortCodes, reply = .status code := by
  cases reply with
  | body payload => exact absurd h (kindOf_body_ne_aborts payload)
  | status code =>
    by_cases hmem : code ∈ abortCodes
    · exact ⟨code, hmem, rfl⟩
    · rw [kindOf, if_neg hmem] at h
      cases h
  | broken => cases h

section

variable {left turns : Nat} {start place : Place}

/-- What is left behind a turn that ends without a verdict of its own. -/
private theorem rest_final (runs : Nat) (runKind : Option ErrorKind) (hleft : turns + (left + 1) = cfg.maxIterations)
    (hleads : Leads lib cfg replies results start place) (hturns : place.turns = turns)
    (hkind : kindOf lib (replies place.reply) = .prose ∨ kindOf lib (replies place.reply) = .code)
    (hnext : next lib cfg replies results place = nextTurn cfg place runs)
    (ih : ∀ left', left = left' + 1 → ∀ call runs runKind, ∃ last,
      Leads lib cfg replies results ⟨call, 0, turns + 1, runs⟩ last ∧ Final lib cfg replies results last
        (solveLoop lib cfg replies results (left' + 1) (turns + 1) call runs runKind)) :
    ∃ last, Leads lib cfg replies results start last ∧ Final lib cfg replies results last
      (solveLoop lib cfg replies results left (turns + 1) (place.reply + 1) runs runKind) := by
  cases left with
  | zero =>
    have hnone : nextTurn cfg place runs = none := if_neg (by omega)
    exact ⟨place, hleads, .judged _ (hnext.trans hnone) hkind (by simp)⟩
  | succ left' =>
    have hsome : nextTurn cfg place runs = some ⟨place.reply + 1, 0, turns + 1, runs⟩ := by
      rw [← hturns]
      exact if_pos (by omega)
    obtain ⟨last, hlast, hfinal⟩ := ih left' rfl (place.reply + 1) runs runKind
    exact ⟨last, (hleads.tail (hnext.trans hsome)).trans hlast, hfinal⟩

/-- One turn, by what becomes of its last reply. -/
private theorem turn_final (call runs : Nat) (runKind : Option ErrorKind)
    (hleft : turns + (left + 1) = cfg.maxIterations)
    (ih : ∀ left', left = left' + 1 → ∀ call runs runKind, ∃ last,
      Leads lib cfg replies results ⟨call, 0, turns + 1, runs⟩ last ∧ Final lib cfg replies results last
        (solveLoop lib cfg replies results (left' + 1) (turns + 1) call runs runKind)) :
    ∃ last, Leads lib cfg replies results ⟨call, 0, turns, runs⟩ last ∧ Final lib cfg replies results last
      (solveLoop lib cfg replies results (left + 1) turns call runs runKind) := by
  obtain ⟨place, hleads, hturns, hruns, hask, hlast⟩ :=
    @ask_spec lib cfg replies results 2 0 call turns runs rfl
  have hspec := chat_spec lib (replies place.reply)
  rw [solveLoop, hask]
  cases hkind : kindOf lib (replies place.reply) with
  | fatal =>
    rw [hkind] at hspec
    rcases hspec with ⟨e, hchat, hnot, hhttp⟩ | ⟨text, e, hchat, hcode⟩
    · rw [hchat]
      refine ⟨place, hleads, ?_⟩
      cases e with
      | http code => exact absurd rfl (hhttp code)
      | _ => first | exact .raised _ hkind | cases hnot
    · rw [hchat]
      refine ⟨place, hleads, ?_⟩
      rcases hcode with hextract | ⟨code, hextract, hwrite⟩
      · simp only [hextract]
        exact .raised _ hkind
      · simp only [hextract, hwrite]
        exact .raised _ hkind
  | refused =>
    rw [hkind] at hspec
    obtain ⟨e, hchat, htransient⟩ := hspec
    rw [hchat]
    refine ⟨place, hleads, ?_⟩
    subst hturns
    cases e with
    | http code =>
      simp only [of_decide_eq_true htransient, if_false]
      exact .llm _ hkind (hlast hkind)
    | _ => first | exact .llm _ hkind (hlast hkind) | cases htransient
  | aborts =>
    obtain ⟨code, hmem, hreply⟩ := kindOf_aborts hkind
    refine ⟨place, hleads, ?_⟩
    rw [hreply]
    simp only [chat, hmem, if_true]
    exact .aborted code hmem hreply
  | prose =>
    rw [hkind] at hspec
    obtain ⟨text, hchat, hextract⟩ := hspec
    rw [hchat]
    simp only [hextract]
    have hnext : next lib cfg replies results place = nextTurn cfg place runs := by
      simp only [next, hkind, hruns]
    exact rest_final runs runKind hleft hleads hturns (.inl hkind) hnext ih
  | code =>
    rw [hkind] at hspec
    obtain ⟨text, code, hchat, hextract, hwrite⟩ := hspec
    rw [hchat]
    simp only [hextract, hwrite]
    by_cases hpassed : (results runs).passed = true
    · have hnext : next lib cfg replies results place = none := by
        simp [next, hkind, hruns, goesOn, hpassed]
      rw [if_pos hpassed]
      exact ⟨place, hleads, .judged _ hnext (.inr hkind) (by simp)⟩
    · rw [if_neg hpassed]
      by_cases hinfra : isInfraError (results runs) = true
      · have hnext : next lib cfg replies results place = none := by
          simp [next, hkind, hruns, goesOn, hinfra]
        rw [if_pos hinfra]
        exact ⟨place, hleads, .judged _ hnext (.inr hkind) (by simp)⟩
      · have hnext : next lib cfg replies results place = nextTurn cfg place (runs + 1) := by
          simp [next, hkind, hruns, goesOn, hpassed, hinfra]
        rw [if_neg hinfra]
        exact rest_final (runs + 1) _ hleft hleads hturns (.inr hkind) hnext ih

end

private theorem solveLoop_final (left turns call runs : Nat) (runKind : Option ErrorKind)
    (hleft : turns + (left + 1) = cfg.maxIterations) :
    ∃ last, Leads lib cfg replies results ⟨call, 0, turns, runs⟩ last ∧ Final lib cfg replies results last
      (solveLoop lib cfg replies results (left + 1) turns call runs runKind) := by
  induction left generalizing turns call runs runKind with
  | zero => exact turn_final call runs runKind hleft fun left' h => by cases h
  | succ left ih =>
    refine turn_final call runs runKind hleft fun left' h call runs runKind => ?_
    cases h
    exact ih (turns + 1) call runs runKind (by omega)

private theorem solveAttempt_final :
    ∃ place, Reached lib cfg replies results place ∧
      Final lib cfg replies results place (solveAttempt lib cfg replies results) := by
  obtain ⟨left, hleft⟩ := Nat.exists_eq_add_of_le' cfg.bounds.1
  have := @solveLoop_final lib cfg replies results left 0 0 0 none (by omega)
  rw [← hleft] at this
  exact this

/-! ### Replies that are not fatal -/

private theorem next_unique : Relator.RightUnique fun a b => next lib cfg replies results a = some b :=
  fun _ _ _ hb hc => Option.some.inj (hb.symm.trans hc)

private theorem eq_of_leads {a b : Place} (h : Leads lib cfg replies results a b)
    (hnext : next lib cfg replies results a = none) :
    a = b := by
  rcases h.cases_head with rfl | ⟨c, hc, -⟩
  · rfl
  · cases hnext.symm.trans hc

/-- An attempt ends at one place only. -/
private theorem reached_unique {a b : Place} (ha : Reached lib cfg replies results a)
    (hb : Reached lib cfg replies results b)
    (hnextA : next lib cfg replies results a = none) (hnextB : next lib cfg replies results b = none) : a = b := by
  rcases Relation.ReflTransGen.total_of_right_unique next_unique ha hb with h | h
  · exact eq_of_leads h hnextA
  · exact (eq_of_leads h hnextB).symm

private theorem next_fatal {place : Place} (h : kindOf lib (replies place.reply) = .fatal) :
    next lib cfg replies results place = none := by
  simp only [next, h]

private theorem next_refused {place : Place} (h : kindOf lib (replies place.reply) = .refused)
    (hrefused : place.refused = 2) :
    next lib cfg replies results place = none := by
  simp [next, h, hrefused]

private theorem next_status {place : Place} {code : Nat} (hcode : code ∈ abortCodes)
    (h : replies place.reply = .status code) :
    next lib cfg replies results place = none := by
  simp only [next, h, kindOf, hcode, if_true]

private theorem Final.next_eq_none {place : Place} {outcome : Outcome}
    (h : Final lib cfg replies results place outcome) :
    next lib cfg replies results place = none := by
  cases h with
  | raised e h => exact next_fatal h
  | aborted code hcode h => exact next_status hcode h
  | llm e h hrefused => exact next_refused h hrefused
  | judged result hnext h herror => exact hnext

/-- An attempt is handled exactly where no reply that it gets to raises what nothing catches: a nesting that `json.loads`
does not bear; a message that is no mapping; a `usage` that is not empty and no mapping; an infinite number of tokens; or,
where the number of tokens is read, a text that is no string or code with a lone surrogate. -/
theorem attempt_handled_iff (lib : Libraries) (cfg : SolveConfig) (replies : Nat → Reply) (results : Nat → TaskResult) :
    Handled lib cfg replies results (solveAttempt lib cfg replies results) ↔
      ∀ place, Reached lib cfg replies results place → kindOf lib (replies place.reply) ≠ .fatal := by
  obtain ⟨last, hreached, hfinal⟩ :=
    @solveAttempt_final lib cfg replies results
  have hlast := hfinal.next_eq_none
  generalize solveAttempt lib cfg replies results = outcome at hfinal
  constructor
  · rintro hhandled place hplace hfatal
    obtain rfl := reached_unique hplace hreached (next_fatal hfatal) hlast
    cases hfinal with
    | raised e h => exact hhandled.noRaise e rfl
    | aborted code hcode h =>
      rw [h, kindOf, if_pos hcode] at hfatal
      cases hfatal
    | llm e h hrefused => cases hfatal.symm.trans h
    | judged result hnext h herror =>
      rcases h with h | h
      · cases hfatal.symm.trans h
      · cases hfatal.symm.trans h
  · intro hall
    cases hfinal with
    | raised e h => exact absurd h (hall last hreached)
    | aborted code hcode h =>
      refine ⟨by simp, ?_, by simp, by simp⟩
      rintro code' heq
      cases heq
      exact ⟨hcode, last, hreached, h⟩
    | llm e h hrefused =>
      refine ⟨by simp, by simp, ?_, ?_⟩
      · rintro result heq
        cases heq
        exact ⟨fun _ => ⟨last, hreached, hrefused, h⟩, fun _ => ⟨e, rfl⟩⟩
      · rintro result e' heq -
        cases heq
        exact ⟨rfl, rfl⟩
    | judged result hnext h herror =>
      refine ⟨by simp, by simp, ?_, ?_⟩
      · rintro result' heq
        cases heq
        constructor
        · rintro ⟨e, he⟩
          exact absurd he (herror e)
        · rintro ⟨place, hplace, hrefused, hkind⟩
          obtain rfl := reached_unique hplace hreached (next_refused hkind hrefused) hlast
          rcases h with h | h
          · cases hkind.symm.trans h
          · cases hkind.symm.trans h
      · rintro result' e heq he
        cases heq
        exact absurd he (herror e)

/-- `int` and `float` read no text, and `json.loads` bears a nesting of 900. -/
def plainLibraries : Libraries := ⟨fun _ => none, fun _ => none, .finite, 900⟩

/-- `{"choices": [{"message": null}]}` -/
def nullMessage : Json := .obj [(points "choices", .arr [.obj [(points "message", .null)]])]

theorem null_message_raises :
    ¬ ∀ (lib : Libraries) (cfg : SolveConfig) (bodies : Nat → Json) (results : Nat → TaskResult),
      Handled lib cfg (fun n => .body (bodies n)) results (solveAttempt lib cfg (fun n => .body (bodies n)) results) := by
  intro hclaim
  have hhandled := hclaim plainLibraries ⟨5, by decide⟩ (fun _ => nullMessage) fun _ => ⟨false, none, .none⟩
  exact hhandled.noRaise .attribute rfl

end IronHarness.Agent
