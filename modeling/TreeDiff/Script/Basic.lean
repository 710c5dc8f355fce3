import TreeDiff.Cost

/-!
# Scripts with cumulative costs

A script is a list of edits in which every edit carries the cost of the script from there on. The
first annotation is thus the cost of the whole script, and a script in front of which an edit is
put is shared with the longer script.

* `Script.cons`: the script with an edit and its own cost put in front, in exact arithmetic.
* `Script.prepend`: the same under a ceiling. It is a fault if and only if the exact total lies
  above the ceiling (`Script.prepend_eq_ok_iff`, `Script.prepend_eq_error_iff`).
* `Script.cheaper`: the cheaper of two scripts, the first one if they cost the same.
* `Script.ofPrices`: the exact script of a list of edits with their own costs.
-/

namespace TreeDiff

/-- A list of edits, each with the cost of the script from there on. -/
structure Script (δ : Type) where
  entries : List (δ × Nat)
  deriving DecidableEq

namespace Script

variable {δ ε : Type}

/-- The script without an edit. -/
def empty : Script δ := ⟨[]⟩

def isEmpty (s : Script δ) : Bool := s.entries.isEmpty

/-- The number of edits. -/
def length (s : Script δ) : Nat := s.entries.length

/-- The cost of the whole script. -/
def total (s : Script δ) : Nat :=
  match s.entries with
  | [] => 0
  | (_, c) :: _ => c

/-- The edits without their annotations. -/
def edits (s : Script δ) : List δ := s.entries.map Prod.fst

/-- The annotations, front to back. -/
def cumulative (s : Script δ) : List Nat := s.entries.map Prod.snd

/-- The script with `d`, of the own cost `c`, in front of `s`. -/
def cons (d : δ) (c : Nat) (s : Script δ) : Script δ := ⟨(d, c + s.total) :: s.entries⟩

/-- The script with `d`, of the own cost `c`, in front of `s`; a fault if its cost lies above the
ceiling. -/
def prepend (ceiling : Nat) (d : δ) (c : Nat) (s : Script δ) : Except Fault (Script δ) := do
  let t ← addCosts ceiling c s.total
  return ⟨(d, t) :: s.entries⟩

/-- The script of a list of edits with their own costs. -/
def ofPrices (ps : List (δ × Nat)) : Script δ := ps.foldr (fun p s => cons p.1 p.2 s) empty

/-- The cheaper of two scripts, the first one if they cost the same. -/
def cheaper (s t : Script δ) : Script δ := if t.total < s.total then t else s

/-- The script with its edits changed and its annotations kept. -/
def map (f : δ → ε) (s : Script δ) : Script ε := ⟨s.entries.map fun p => (f p.1, p.2)⟩

@[simp] theorem total_empty : (empty : Script δ).total = 0 := rfl

@[simp] theorem edits_empty : (empty : Script δ).edits = [] := rfl

@[simp] theorem total_cons (d : δ) (c : Nat) (s : Script δ) : (cons d c s).total = c + s.total :=
  rfl

@[simp] theorem edits_cons (d : δ) (c : Nat) (s : Script δ) :
    (cons d c s).edits = d :: s.edits := rfl

@[simp] theorem total_cheaper (s t : Script δ) : (s.cheaper t).total = min s.total t.total := by
  unfold cheaper
  split <;> omega

theorem cheaper_eq_or (s t : Script δ) : s.cheaper t = s ∨ s.cheaper t = t := by
  unfold cheaper
  split <;> simp

theorem prepend_eq_ok_iff {ceiling c : Nat} {d : δ} {s r : Script δ} :
    prepend ceiling d c s = .ok r ↔ c + s.total ≤ ceiling ∧ cons d c s = r := by
  unfold prepend addCosts withinCeiling
  split <;> simp [*, cons, bind, Except.bind, pure, Except.pure]

theorem prepend_eq_error_iff {ceiling c : Nat} {d : δ} {s : Script δ} {e : Fault} :
    prepend ceiling d c s = .error e ↔ ceiling < c + s.total ∧ e = .costOverflow := by
  unfold prepend addCosts withinCeiling
  split
  · simp [bind, Except.bind, pure, Except.pure]
    omega
  · simp [bind, Except.bind, eq_comm]
    omega

theorem edits_of_prepend {ceiling c : Nat} {d : δ} {s t : Script δ}
    (h : prepend ceiling d c s = .ok t) : t.edits = d :: s.edits := by
  rw [← (prepend_eq_ok_iff.1 h).2, edits_cons]

@[simp] theorem ofPrices_nil : ofPrices ([] : List (δ × Nat)) = empty := rfl

@[simp] theorem ofPrices_cons (p : δ × Nat) (ps : List (δ × Nat)) :
    ofPrices (p :: ps) = cons p.1 p.2 (ofPrices ps) := rfl

theorem edits_ofPrices (ps : List (δ × Nat)) : (ofPrices ps).edits = ps.map Prod.fst := by
  induction ps with
  | nil => rfl
  | cons p ps ih => rw [ofPrices_cons, edits_cons, ih, List.map_cons]

end Script

end TreeDiff
