import Mathlib.Algebra.BigOperators.Group.List.Basic
import Mathlib.Algebra.Order.Ring.Nat

/-!
# Lossy queues

A queue that hands out its elements in order, in pieces, and may also drop some of them from its front.  The
history records what became of every element that has left; together with what is pending it is the stream that
has arrived (`stream_arrive`, `stream_deliver`, `stream_lose`), so nothing is duplicated, reordered or forgotten.
-/

namespace LossyFifo

variable {α : Type*}

/-- What became of a piece that has left the queue. -/
inductive Fate
  | delivered
  | lost
  deriving DecidableEq, Repr

structure Fifo (α : Type*) where
  history : List (Fate × List α)
  pending : List α

def empty : Fifo α := ⟨[], []⟩

/-- Everything that has arrived, in order. -/
def stream (f : Fifo α) : List α := f.history.flatMap (·.2) ++ f.pending

/-- The pieces handed out, in order. -/
def delivered (f : Fifo α) : List (List α) :=
  (f.history.filter (·.1 = .delivered)).map (·.2)

/-- The number of elements dropped. -/
def lostCount (f : Fifo α) : Nat := ((f.history.filter (·.1 = .lost)).map (·.2.length)).sum

def arrive (xs : List α) (f : Fifo α) : Fifo α := { f with pending := f.pending ++ xs }

private def leave (fate : Fate) (n : Nat) (f : Fifo α) : Fifo α :=
  ⟨f.history ++ [(fate, f.pending.take n)], f.pending.drop n⟩

/-- The first `n` pending elements are handed out as one piece. -/
def deliver (n : Nat) (f : Fifo α) : Fifo α := leave .delivered n f

/-- The first `n` pending elements are dropped. -/
def lose (n : Nat) (f : Fifo α) : Fifo α := leave .lost n f

theorem stream_arrive (xs : List α) (f : Fifo α) : stream (arrive xs f) = stream f ++ xs := by
  simp [stream, arrive]

private theorem stream_leave (fate : Fate) (n : Nat) (f : Fifo α) : stream (leave fate n f) = stream f := by
  simp [stream, leave]

theorem stream_deliver (n : Nat) (f : Fifo α) : stream (deliver n f) = stream f := stream_leave _ n f

theorem stream_lose (n : Nat) (f : Fifo α) : stream (lose n f) = stream f := stream_leave _ n f

@[simp] theorem pending_arrive (xs : List α) (f : Fifo α) : (arrive xs f).pending = f.pending ++ xs := rfl

@[simp] theorem pending_deliver (n : Nat) (f : Fifo α) : (deliver n f).pending = f.pending.drop n := rfl

@[simp] theorem pending_lose (n : Nat) (f : Fifo α) : (lose n f).pending = f.pending.drop n := rfl

@[simp] theorem delivered_arrive (xs : List α) (f : Fifo α) : delivered (arrive xs f) = delivered f := rfl

@[simp] theorem delivered_deliver (n : Nat) (f : Fifo α) :
    delivered (deliver n f) = delivered f ++ [f.pending.take n] := by
  simp [delivered, deliver, leave, List.filter_append]

@[simp] theorem delivered_lose (n : Nat) (f : Fifo α) : delivered (lose n f) = delivered f := by
  simp [delivered, lose, leave, List.filter_append]

@[simp] theorem lostCount_arrive (xs : List α) (f : Fifo α) : lostCount (arrive xs f) = lostCount f := rfl

@[simp] theorem lostCount_deliver (n : Nat) (f : Fifo α) : lostCount (deliver n f) = lostCount f := by
  simp [lostCount, deliver, leave, List.filter_append]

theorem lostCount_lose {n : Nat} {f : Fifo α} (h : n ≤ f.pending.length) :
    lostCount (lose n f) = lostCount f + n := by
  simp [lostCount, lose, leave, List.filter_append, h]

/-- Every element that has arrived is pending, lost or in exactly one delivered piece. -/
theorem length_stream (f : Fifo α) :
    (stream f).length = (delivered f).flatten.length + lostCount f + f.pending.length := by
  obtain ⟨history, pending⟩ := f
  simp only [stream, delivered, lostCount, List.length_append]
  induction history with
  | nil => simp
  | cons entry rest ih =>
    obtain ⟨fate, piece⟩ := entry
    cases fate <;> simp_all <;> omega

end LossyFifo
