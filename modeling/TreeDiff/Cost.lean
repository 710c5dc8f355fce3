/-!
# Costs and the faults of their arithmetic

A cost is a natural number. The costs that can be recorded end at a ceiling, which is a parameter
of everything that adds costs up; `maxCost` is the ceiling in use. A sum above the ceiling ends the
computation that asked for it.

* `Fault`: the two ways in which a computation ends without an answer, `Fault.message` their text.
* `addCosts ceiling x y`: the sum of two costs, a fault above the ceiling.
* `Attempt σ`: computations with a state `σ` that a fault may end. The state survives the fault.
* Any monad `m` with an instance of `MonadLiftT (Except Fault) m` can be charged with costs: the
  search of the edit graph and the differ of trees are written for all of them.
-/

namespace TreeDiff

/-- The largest cost that can be recorded, `2 ^ 64 - 1`. -/
def maxCost : Nat := UInt64.size - 1

/-- Reasons for which a computation ends without an answer. -/
inductive Fault
  /-- A sum of costs lies above the ceiling. -/
  | costOverflow
  /-- A deadline lies beyond the last instant of the clock. -/
  | deadlineOverflow
  deriving DecidableEq

/-- The text of a fault. -/
def Fault.message : Fault → String
  | .costOverflow => "attempt to add with overflow"
  | .deadlineOverflow => "overflow when adding duration to instant"

/-- The cost `c` if it does not exceed the ceiling. -/
def withinCeiling (ceiling c : Nat) : Except Fault Nat :=
  if c ≤ ceiling then .ok c else .error .costOverflow

/-- The sum of two costs, a fault above the ceiling. -/
def addCosts (ceiling x y : Nat) : Except Fault Nat := withinCeiling ceiling (x + y)

theorem withinCeiling_eq_ok_iff {ceiling c r : Nat} :
    withinCeiling ceiling c = .ok r ↔ c ≤ ceiling ∧ c = r := by
  unfold withinCeiling
  split <;> simp [*]

theorem withinCeiling_eq_error_iff {ceiling c : Nat} {e : Fault} :
    withinCeiling ceiling c = .error e ↔ ceiling < c ∧ e = .costOverflow := by
  unfold withinCeiling
  split
  · have hle : ¬ ceiling < c := by omega
    simp [hle]
  · have hlt : ceiling < c := by omega
    simp [hlt, eq_comm]

theorem addCosts_eq_ok_iff {ceiling x y r : Nat} :
    addCosts ceiling x y = .ok r ↔ x + y ≤ ceiling ∧ x + y = r :=
  withinCeiling_eq_ok_iff

theorem addCosts_eq_error_iff {ceiling x y : Nat} {e : Fault} :
    addCosts ceiling x y = .error e ↔ ceiling < x + y ∧ e = .costOverflow :=
  withinCeiling_eq_error_iff

/-! ## Computations with a state -/

/-- A computation with a state `σ` that a fault may end. -/
abbrev Attempt (σ α : Type) : Type := EStateM Fault σ α

namespace Attempt

variable {σ ρ α : Type}

instance decEqResult [DecidableEq σ] [DecidableEq α] : DecidableEq (EStateM.Result Fault σ α)
  | .ok a s, .ok b t => decidable_of_iff (a = b ∧ s = t) (by simp)
  | .error e s, .error f t => decidable_of_iff (e = f ∧ s = t) (by simp)
  | .ok _ _, .error _ _ => .isFalse nofun
  | .error _ _, .ok _ _ => .isFalse nofun

/-- An answer or a fault, whatever the state, which stays as it is. -/
def ofExcept : Except Fault α → Attempt σ α
  | .ok a => pure a
  | .error e => throw e

instance : MonadLift (Except Fault) (Attempt σ) := ⟨ofExcept⟩

instance : LawfulMonadLift (Except Fault) (Attempt σ) where
  monadLift_pure _ := rfl
  monadLift_bind x f := by cases x <;> rfl

@[simp] theorem ofExcept_ok (a : α) : (ofExcept (.ok a) : Attempt σ α) = pure a := rfl

@[simp] theorem ofExcept_error (e : Fault) : (ofExcept (.error e) : Attempt σ α) = throw e := rfl

/-- The computation `x` on the first component of a larger state. -/
def onFst (x : Attempt σ α) : Attempt (σ × ρ) α := fun s =>
  match x s.1 with
  | .ok a s' => .ok a (s', s.2)
  | .error e s' => .error e (s', s.2)

/-- Adds an entry to a log that stands beside the state. -/
def record (entry : ρ) : Attempt (σ × Array ρ) Unit := fun s => .ok () (s.1, s.2.push entry)

/-- Changes what stands beside the state. -/
def beside (f : ρ → ρ) : Attempt (σ × ρ) Unit := fun s => .ok () (s.1, f s.2)

/-- The computation on the first component, with its answers written to the log. -/
def logged (x : Attempt σ ρ) : Attempt (σ × Array ρ) ρ := do
  let a ← onFst x
  record a
  return a

theorem onFst_apply (x : Attempt σ α) (s : σ) (r : ρ) :
    onFst x (s, r) = match x s with
      | .ok a s' => .ok a (s', r)
      | .error e s' => .error e (s', r) := rfl

theorem logged_apply (x : Attempt σ ρ) (s : σ) (log : Array ρ) :
    logged x (s, log) = match x s with
      | .ok a s' => .ok a (s', log.push a)
      | .error e s' => .error e (s', log) := by
  unfold logged
  simp only [bind, EStateM.bind, onFst_apply]
  cases x s <;> rfl

end Attempt

end TreeDiff
