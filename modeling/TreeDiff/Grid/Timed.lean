import TreeDiff.Policy
import TreeDiff.Time

/-!
# Calls and the clock

* `TimedCall`: a call of a policy; a comparison stands with the reading of the clock just before it.
* `Policy.timed`: the policy that reads the clock before each comparison and writes its calls to a
  log.
-/

namespace TreeDiff

/-- A call of a policy by a search, where a comparison begins at a given instant. -/
inductive TimedCall (α β δ : Type) where
  | compare (x : α) (y : β) (now : Instant)
  | cost (d : δ)
  deriving DecidableEq

namespace TimedCall

variable {α β δ : Type}

/-- The call without the instant. -/
def call : TimedCall α β δ → Call α β δ
  | compare x y _ => .compare x y
  | cost d => .cost d

/-- The elements that are compared, if the call is a comparison. -/
def pair? : TimedCall α β δ → Option (α × β)
  | compare x y _ => some (x, y)
  | cost _ => none

/-- The call is a comparison that begins when the limit has come. -/
def isLate (limit : Instant) : TimedCall α β δ → Bool
  | compare _ _ now => now.reaches limit
  | cost _ => false

/-- One of the calls is a comparison that begins when the limit has come. -/
def AnyLate (limit : Instant) (calls : List (TimedCall α β δ)) : Prop :=
  ∃ c ∈ calls, c.isLate limit = true

theorem not_anyLate_nil (limit : Instant) : ¬ AnyLate limit ([] : List (TimedCall α β δ)) := by
  rintro ⟨c, hc, -⟩
  cases hc

theorem anyLate_cons {limit : Instant} {c : TimedCall α β δ} {calls : List (TimedCall α β δ)} :
    AnyLate limit (c :: calls) ↔ c.isLate limit = true ∨ AnyLate limit calls := by
  simp [AnyLate]

theorem anyLate_singleton {limit : Instant} {c : TimedCall α β δ} :
    AnyLate limit [c] ↔ c.isLate limit = true := by
  simp [AnyLate]

theorem anyLate_append {limit : Instant} {calls calls' : List (TimedCall α β δ)} :
    AnyLate limit (calls ++ calls') ↔ AnyLate limit calls ∨ AnyLate limit calls' := by
  simp only [AnyLate, List.mem_append, or_and_right, exists_or]

/-- Only comparisons begin too late. -/
theorem AnyLate.exists_pair {limit : Instant} {calls : List (TimedCall α β δ)}
    (h : AnyLate limit calls) : ∃ p, p ∈ calls.filterMap pair? := by
  obtain ⟨c, hc, hlate⟩ := h
  cases c with
  | compare x y now => exact ⟨(x, y), List.mem_filterMap.2 ⟨_, hc, rfl⟩⟩
  | cost d => cases hlate

/-- The calls before the first comparison that begins too late. -/
def inTime (limit : Instant) (calls : List (TimedCall α β δ)) : List (TimedCall α β δ) :=
  calls.takeWhile fun c => !c.isLate limit

/-- A log of the calls without their instants. -/
def trace (calls : List (TimedCall α β δ)) : Array (Call α β δ) := (calls.map call).toArray

@[simp] theorem trace_nil : trace ([] : List (TimedCall α β δ)) = #[] := rfl

theorem trace_concat (calls : List (TimedCall α β δ)) (c : TimedCall α β δ) :
    trace (calls ++ [c]) = (trace calls).push c.call := by
  simp [trace]

/-- After a comparison that begins too late, no call is in time. -/
theorem inTime_append_of_anyLate {limit : Instant} {calls : List (TimedCall α β δ)}
    (h : AnyLate limit calls) (calls' : List (TimedCall α β δ)) :
    inTime limit (calls ++ calls') = inTime limit calls := by
  induction calls with
  | nil => exact absurd h (not_anyLate_nil limit)
  | cons c calls ih =>
    unfold inTime at ih ⊢
    rw [List.cons_append, List.takeWhile_cons, List.takeWhile_cons]
    rcases anyLate_cons.1 h with hlate | hlate
    · rw [if_neg (by simp [hlate]), if_neg (by simp [hlate])]
    · rw [ih hlate]

theorem inTime_append_of_not_anyLate {limit : Instant} {calls : List (TimedCall α β δ)}
    (h : ¬ AnyLate limit calls) (calls' : List (TimedCall α β δ)) :
    inTime limit (calls ++ calls') = calls ++ inTime limit calls' := by
  refine List.takeWhile_append_of_pos fun c hc => ?_
  have hlate : ¬ c.isLate limit = true := fun hlate => h ⟨c, hc, hlate⟩
  simpa using hlate

theorem inTime_singleton_of_late {limit : Instant} {c : TimedCall α β δ}
    (h : c.isLate limit = true) : inTime limit [c] = [] := by
  simp [inTime, h]

theorem inTime_of_not_anyLate {limit : Instant} {calls : List (TimedCall α β δ)}
    (h : ¬ AnyLate limit calls) : inTime limit calls = calls := by
  simpa [inTime] using inTime_append_of_not_anyLate h []

end TimedCall

/-- The policy that reads the clock before each comparison, and writes its calls to a log before it
answers. -/
def Policy.timed {σ α β δ : Type} (P : Policy (Attempt σ) α β δ) (clock : Attempt σ Instant) :
    Policy (Attempt (σ × Array (TimedCall α β δ))) α β δ where
  delete := P.delete
  insert := P.insert
  compare x y := do
    let now ← Attempt.onFst clock
    Attempt.record (.compare x y now)
    Attempt.onFst (P.compare x y)
  cost d := do
    Attempt.record (.cost d)
    Attempt.onFst (P.cost d)
  ceiling := P.ceiling

end TreeDiff
