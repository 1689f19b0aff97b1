/-! # Spans

A `Span` is a half-open range of character offsets into a text. That it does not run backwards is
part of the type, so a span computed from a start and a length needs no check. Spans that come from
outside as two integers are checked by `Span.ofInts`, which says what is wrong with a pair it
refuses. -/

namespace TimeJournal

/-- A half-open range of character offsets: `start` lies in it, `stop` does not. -/
@[ext] structure Span where
  start : Nat
  stop : Nat
  start_le_stop : start ≤ stop := by omega
  deriving DecidableEq, Repr

namespace Span

/-- What is wrong with a pair of integers that is no span. -/
inductive Fault where
  | negativeStart (start : Int)
  | stopBeforeStart (start stop : Int)
  deriving DecidableEq, Repr

/-- The wording of a fault. -/
def Fault.message : Fault → String
  | .negativeStart start => s!"Span start must be >= 0, got {start}"
  | .stopBeforeStart start stop => s!"Span end ({stop}) must be >= start ({start})"

/-- The span of a pair of integers; a negative start is reported before a reversed pair. -/
def ofInts (start stop : Int) : Except Fault Span :=
  if hs : start < 0 then .error (.negativeStart start)
  else if he : stop < start then .error (.stopBeforeStart start stop)
  else .ok ⟨start.toNat, stop.toNat, by omega⟩

/-- The span of `length` characters that begins at `start`. -/
def ofLength (start length : Nat) : Span := ⟨start, start + length, by omega⟩

@[simp] theorem ofLength_start (start length : Nat) : (ofLength start length).start = start := rfl

@[simp] theorem ofLength_stop (start length : Nat) :
    (ofLength start length).stop = start + length := rfl

/-- The number of characters in a span. -/
def length (s : Span) : Nat := s.stop - s.start

/-- Two spans meet when they share an offset, touching ends included: a caret at either end of a
token selects that token. -/
def Meets (a b : Span) : Prop := max a.start b.start ≤ min a.stop b.stop

instance (a b : Span) : Decidable (a.Meets b) := by
  unfold Meets; infer_instance

theorem Meets.symm {a b : Span} (h : a.Meets b) : b.Meets a := by
  unfold Meets at *; omega

end Span

end TimeJournal
