import PyLwip.Common.Heapq
import Mathlib.Data.Int.Order.Basic

/-!
# Scheduled tasks, and the order the heap compares them in

`schedule_task` pushes the tuple `(task.abs_time, task.priority, task)`.
Tuples compare lexicographically: the first elements that are not equal
decide. On equal times and priorities the third elements are compared, and
a `_Task` is itself a tuple, so the comparison goes on to the action, its
arguments and the future — none of which need have an order.
-/

namespace PyLwip

/-- The exceptions the modelled code meets. `other` is any exception an
action or a user's comparison raises that the code has no name for. -/
inductive PyError
  | typeError
  | valueError
  | overflowError
  | runtimeError
  | invalidStateError
  | stopped
  | other (tag : ℕ)
deriving DecidableEq

/-! ## Python's comparisons -/

/-- How the interpreter compares two objects. `eq` is true on one and the
same object and `__eq__` elsewhere; `lt` raises `TypeError` where neither
operand has an order. -/
class RichCompare (O : Type) where
  eq : O → O → Except PyError Bool
  lt : O → O → Except PyError Bool

/-- A function object: equal to itself alone, and without an order. -/
structure Callable where
  id : ℕ
deriving DecidableEq

instance : RichCompare Callable where
  eq f g := .ok (decide (f = g))
  lt _ _ := .error .typeError

variable {T O : Type}

section Compare

variable [RichCompare O]

/-- `==` of two tuples. -/
def tupleEq : List O → List O → Except PyError Bool
  | [], [] => .ok true
  | [], _ :: _ => .ok false
  | _ :: _, [] => .ok false
  | a :: as, b :: bs => do
    if ← RichCompare.eq a b then tupleEq as bs else .ok false

/-- `<` of two tuples: the first elements that are not equal decide, and
where there are none the shorter tuple is less. -/
def tupleLt : List O → List O → Except PyError Bool
  | [], [] => .ok false
  | [], _ :: _ => .ok true
  | _ :: _, [] => .ok false
  | a :: as, b :: bs => do
    if ← RichCompare.eq a b then tupleLt as bs else RichCompare.lt a b

/-- Every entry of the first dictionary has an equal one in the second. -/
def dictSub : List (String × O) → List (String × O) → Except PyError Bool
  | [], _ => .ok true
  | (k, v) :: rest, d =>
    match d.lookup k with
    | none => .ok false
    | some w => do
      if ← RichCompare.eq v w then dictSub rest d else .ok false

/-- `==` of two dictionaries. -/
def dictEq (c d : List (String × O)) : Except PyError Bool :=
  if c.length = d.length then dictSub c d else .ok false

end Compare

/-! ## The task -/

/-- `_Task`: the scheduled call and its future, which is known by its
identity. Two tasks never share a future, so the future also tells whether
two tasks are the same object. -/
structure Task (T O : Type) where
  absTime : T
  priority : ℤ
  action : O
  args : List O
  kwargs : List (String × O)
  future : ℕ
deriving DecidableEq

namespace Task

/-- What the queue promises to sort by. -/
def key (t : Task T O) : T ×ₗ ℤ := toLex (t.absTime, t.priority)

section Compare

variable [RichCompare O] [DecidableEq T]

/-- `==` of two tasks. Futures are compared by identity. -/
def eq (t u : Task T O) : Except PyError Bool :=
  if t.future = u.future then .ok true
  else if t.absTime ≠ u.absTime then .ok false
  else if t.priority ≠ u.priority then .ok false
  else do
    if ← RichCompare.eq t.action u.action then
      if ← tupleEq t.args u.args then
        if ← dictEq t.kwargs u.kwargs then .ok (decide (t.future = u.future)) else .ok false
      else .ok false
    else .ok false

variable [LT T] [DecidableLT T]

/-- `<` of two tasks, element by element. Neither two dictionaries nor two
futures have an order. -/
def lt (t u : Task T O) : Except PyError Bool :=
  if t.absTime ≠ u.absTime then .ok (decide (t.absTime < u.absTime))
  else if t.priority ≠ u.priority then .ok (decide (t.priority < u.priority))
  else do
    if ← RichCompare.eq t.action u.action then
      if ← tupleEq t.args u.args then
        if ← dictEq t.kwargs u.kwargs then
          if t.future = u.future then .ok false else .error .typeError
        else .error .typeError
      else tupleLt t.args u.args
    else RichCompare.lt t.action u.action

/-- `<` of two heap entries `(task.abs_time, task.priority, task)`. -/
def entryLt (t u : Task T O) : Except PyError Bool :=
  if t.absTime ≠ u.absTime then .ok (decide (t.absTime < u.absTime))
  else if t.priority ≠ u.priority then .ok (decide (t.priority < u.priority))
  else do
    if ← t.eq u then .ok false else t.lt u

end Compare

section Order

variable [LinearOrder T]

theorem key_lt_iff {t u : Task T O} :
    t.key < u.key ↔ t.absTime < u.absTime ∨ t.absTime = u.absTime ∧ t.priority < u.priority := by
  simp [key, Prod.Lex.toLex_lt_toLex]

theorem absTime_le_of_key_le {t u : Task T O} (h : t.key ≤ u.key) : t.absTime ≤ u.absTime := by
  rcases Prod.Lex.toLex_le_toLex.mp h with h | ⟨h, -⟩
  · exact h.le
  · exact h.le

theorem key_le_of_absTime_le {t u : Task T O} (h : t.absTime ≤ u.absTime)
    (hprio : t.priority ≤ u.priority) : t.key ≤ u.key := by
  refine Prod.Lex.toLex_le_toLex.mpr ?_
  rcases h.lt_or_eq with h | h
  · exact .inl h
  · exact .inr ⟨h, hprio⟩

variable [RichCompare O]

/-- **Entries compare by time and priority wherever these differ.** -/
theorem entryLt_keyedOn (s : Task T O → Prop) : Heapq.KeyedOn entryLt (key (O := O)) s where
  lt_true t u _ _ h := by
    rcases key_lt_iff.mp h with h | ⟨heq, h⟩
    · simp [entryLt, h.ne, h]
    · simp [entryLt, heq, h.ne, h]
  lt_false t u _ _ h := by
    rcases key_lt_iff.mp h with h | ⟨heq, h⟩
    · simp [entryLt, h.ne', h.le]
    · simp [entryLt, heq, h.ne', h.le]

omit [LinearOrder T] in
/-- A task is not less than itself. -/
theorem entryLt_same [DecidableEq T] [LT T] [DecidableLT T] {t u : Task T O}
    (htime : t.absTime = u.absTime) (hprio : t.priority = u.priority)
    (hfut : t.future = u.future) : t.entryLt u = .ok false := by
  rw [entryLt, if_neg (by simp [htime]), if_neg (by simp [hprio]), Task.eq, if_pos hfut]
  rfl

end Order

end Task

end PyLwip
