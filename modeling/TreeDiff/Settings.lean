import TreeDiff.Script.Basic
import TreeDiff.Time

/-!
# Settings of a search

* `TieBreak`: which of several moves of the same total cost a search takes. With `edits` it is the
  first cheapest of deletion, insertion and match; with `diagonal` the match comes first.
* `Settings`: the tie break and the time that a search may take, if it is limited.
* `Timeout`: the report of a search that ran out of time.
* `Interrupt m τ`: what a search asks before it solves a position; an answer ends the search.
  `Interrupt.never` lets it go on, `Interrupt.deadline` reads a clock. `Interrupt.onFst` asks the
  question of a part of the state.
-/

namespace TreeDiff

/-- The moves that win among moves of the same total cost. -/
inductive TieBreak
  /-- Deletion, then insertion, then the match. -/
  | edits
  /-- The match, then deletion, then insertion. -/
  | diagonal
  deriving DecidableEq

namespace TieBreak

variable {δ : Type}

/-- The script taken among those that begin with a deletion, an insertion and, if there is one, a
match: the first cheapest in the order of the tie break. -/
def pick (tie : TieBreak) (delete insert : Script δ) (both : Option (Script δ)) : Script δ :=
  match tie, both with
  | _, none => delete.cheaper insert
  | .edits, some s => (delete.cheaper insert).cheaper s
  | .diagonal, some s => s.cheaper (delete.cheaper insert)

theorem total_pick_none (tie : TieBreak) (delete insert : Script δ) :
    (tie.pick delete insert none).total = min delete.total insert.total := by
  cases tie <;> simp [pick]

theorem total_pick_some (tie : TieBreak) (delete insert both : Script δ) :
    (tie.pick delete insert (some both)).total =
      min (min delete.total insert.total) both.total := by
  cases tie <;> simp [pick, Nat.min_comm]

/-- What holds of all candidates holds of the one that is picked. -/
theorem pick_ind (tie : TieBreak) {p : Script δ → Prop} {delete insert : Script δ}
    {both : Option (Script δ)} (hdelete : p delete) (hinsert : p insert)
    (hboth : ∀ s, both = some s → p s) : p (tie.pick delete insert both) := by
  have hcheaper : ∀ {s t}, p s → p t → p (s.cheaper t) := by
    intro s t hs ht
    rcases s.cheaper_eq_or t with h | h
    · rwa [h]
    · rwa [h]
  cases both with
  | none => cases tie <;> exact hcheaper hdelete hinsert
  | some s =>
    cases tie with
    | edits => exact hcheaper (hcheaper hdelete hinsert) (hboth s rfl)
    | diagonal => exact hcheaper (hboth s rfl) (hcheaper hdelete hinsert)

/-- The name of a tie break in the description of settings. -/
def text : TieBreak → String
  | .edits => "PreferEdits"
  | .diagonal => "PreferDiagonal"

end TieBreak

/-- The tie break of a search and the time it may take. -/
structure Settings where
  tieBreak : TieBreak := .edits
  deadline : Option Duration := none
  deriving DecidableEq

/-- The description of settings. -/
def Settings.text (s : Settings) : String :=
  let deadline := match s.deadline with
    | none => "None"
    | some d => "Some(" ++ d.text ++ ")"
  "SolverOptions \x7b tie_break: " ++ s.tieBreak.text ++ ", deadline: " ++ deadline ++ " \x7d"

/-! ## Running out of time -/

/-- The number of positions that had a script when the time ran out, and the number of all. -/
structure Timeout where
  solved : Nat
  total : Nat
  deriving DecidableEq

/-- The text of a timeout. -/
def Timeout.message (t : Timeout) : String :=
  "edit graph search exceeded its deadline after solving " ++ toString t.solved ++ " of " ++
    toString t.total ++ " positions"

/-- The question asked before a position is solved, given the number of positions that have a
script and the number of all. An answer ends the search. -/
abbrev Interrupt (m : Type → Type) (τ : Type) : Type := (solved total : Nat) → m (Option τ)

namespace Interrupt

variable {m : Type → Type} [Monad m]

/-- The search goes on. There is no answer that could end it. -/
def never : Interrupt m Empty := fun _ _ => pure none

/-- The search ends as soon as the clock has come to the limit. Without a limit the clock is not
read. -/
def deadline (clock : m Instant) : (limit : Option Instant) → Interrupt m Timeout
  | none => fun _ _ => pure none
  | some limit => fun solved total => do
    return if (← clock).reaches limit then some ⟨solved, total⟩ else none

/-- The question asked of the first component of a larger state. -/
def onFst {σ ρ τ : Type} (interrupt : Interrupt (Attempt σ) τ) : Interrupt (Attempt (σ × ρ)) τ :=
  fun solved total => (interrupt solved total).onFst

end Interrupt

/-- The instant at which a search that starts now has to end, if its time is limited. A fault if
the clock does not reach it. -/
def Settings.limit {m : Type → Type} [Monad m] [MonadLiftT (Except Fault) m] (s : Settings)
    (clock : m Instant) : m (Option Instant) :=
  match s.deadline with
  | none => pure none
  | some d => do
    let now ← clock
    return some (← now.after d)

end TreeDiff
