import Mathlib.Algebra.GroupWithZero.Nat
import TreeDiff.Grid.Chart
import TreeDiff.Proofs.Grid.Logs
import TreeDiff.Proofs.Grid.Protocol

/-!
# The account of a timeout

When a search runs out of time, the positions it has solved are those of all complete rows and those
before the position that was next. The number of the comparisons made so far says which position
that was: each position above the first row and behind the first column takes one.

* `Policy.forgetting_chartedSearch`: the search does the same without the chart.
* `Row.Has`: the scripts of a row, and the number that it keeps.
* `Compared`, `Charted`: the number of the comparisons in the log, and the lengths of the rows of
  the chart. One lemma for each step says how they go on.
* `Struck`: the state in which a search ends early. `Policy.ending_chartedSearch` is the run, by
  positions, `Policy.ending_chartedCell`, and rows, `Policy.ending_chartedRow`.
* `Timeout.Accounts`: what the number of comparisons and the chart say of a timeout.
* `Policy.accountsFor_of_search`: each timeout of a search is accounted for.
-/

namespace TreeDiff

variable {σ κ ρ α β γ δ ε τ : Type}

/-! ## The chart does not matter -/

section

open Attempt

theorem Chart.forgetting_corner (x : Attempt σ (Script δ)) :
    (forgetting σ (Chart δ)).Rel (fun _ => True) (Chart.corner x) x :=
  forgetting_onFst_beside x Chart.newRow

theorem Chart.forgetting_next (x : Attempt σ (Script δ)) :
    (forgetting σ (Chart δ)).Rel (fun _ => True) (Chart.next x) x :=
  forgetting_onFst_beside x Chart.push

namespace Policy

variable (P : Policy (Attempt σ) α β δ) (tie : TieBreak) (interrupt : Interrupt (Attempt σ) τ)

theorem forgetting_chartedBorder (qs : List (Priced β δ)) :
    (forgetting σ (Chart δ)).Rel (fun _ => True) (P.chartedBorder qs) (liftM (P.border qs)) := by
  let S := (forgetting σ (Chart δ)).comap (Attempt (σ × Chart δ)) (Except Fault)
  have hcorner : S.Rel (fun _ => True) (Chart.corner (pure .empty)) (pure .empty) :=
    Chart.forgetting_corner (pure .empty)
  have hborder : P.border qs = pure Script.empty >>= fun corner =>
      qs.foldrM (fun y row => return row.push (← P.prepend y row.first)) (.start corner 0) := by
    rw [pure_bind]
    rfl
  rw [hborder]
  refine S.bind hcorner fun corner _ => ?_
  refine (S.tracking Unit).foldrM (I := fun _ _ => True) (J := fun _ _ => True) qs trivial
    fun y ys row _ _ => ?_
  exact S.bind (Chart.forgetting_next (liftM (P.prepend y row.first))) fun s _ => S.pure trivial

theorem forgetting_chartedCell (total : Nat) (x : Priced α δ) (p : Priced β δ × Script δ × Script δ)
    (row : Row δ) :
    ((forgetting σ (Chart δ)).exceptT τ).Rel (fun _ => True)
      (P.chartedCell tie interrupt total x p row) (P.nextCell tie interrupt total x p row) := by
  obtain ⟨y, lost, both⟩ := p
  unfold chartedCell nextCell
  refine Simulation.bind _ ((forgetting σ _).exceptT_liftM (forgetting_onFst _)) fun o _ => ?_
  cases o with
  | some t => exact Simulation.exceptT_throw _ _ t
  | none =>
    exact Simulation.bind _ ((forgetting σ _).exceptT_liftM (Chart.forgetting_next _)) fun s _ =>
      Simulation.pure _ trivial

theorem forgetting_chartedRow (total : Nat) (qs : List (Priced β δ)) (x : Priced α δ)
    (below : Row δ) :
    ((forgetting σ (Chart δ)).exceptT τ).Rel (fun _ => True)
      (P.chartedRow tie interrupt total qs x below)
      (P.nextRow tie interrupt total qs x below) := by
  unfold chartedRow nextRow
  refine Simulation.bind _ ((forgetting σ _).exceptT_liftM
    (Chart.forgetting_corner (liftM (P.prepend x below.last)))) fun corner _ => ?_
  exact (((forgetting σ (Chart δ)).exceptT τ).tracking Unit).foldrM (I := fun _ _ => True)
    (J := fun _ _ => True) _ trivial fun p _ row _ _ =>
      P.forgetting_chartedCell tie interrupt total x p row

theorem forgetting_chartedSearch (xs : List α) (ys : List β) :
    ((forgetting σ (Chart δ)).exceptT τ).Rel (fun _ => True) (chartedSearch P tie interrupt xs ys)
      (search P tie interrupt xs ys) := by
  unfold chartedSearch search
  refine Simulation.bind _ ((forgetting σ _).exceptT_liftM (forgetting_onFst _)) fun ps _ => ?_
  refine Simulation.bind _ ((forgetting σ _).exceptT_liftM (forgetting_onFst _)) fun qs _ => ?_
  refine Simulation.bind _ ((forgetting σ _).exceptT_liftM (P.forgetting_chartedBorder qs))
    fun border _ => ?_
  refine Simulation.bind (R := fun _ => True) _ (Q := fun _ => True) ?_ fun row _ =>
    Simulation.pure _ trivial
  exact (((forgetting σ (Chart δ)).exceptT τ).tracking Unit).foldrM (I := fun _ _ => True)
    (J := fun _ _ => True) _ trivial fun x _ below _ _ =>
      P.forgetting_chartedRow tie interrupt _ qs x below

end Policy

end

/-! ## Rows and their counts -/

/-- The row has the scripts of `j` positions on top of its first one, above `rows` complete rows. -/
structure Row.Has (row : Row δ) (rows columns j : Nat) : Prop where
  length_rest : row.rest.length = j
  solved : row.solved = rows * (columns + 1) + (j + 1)

namespace Row.Has

variable {row : Row δ} {s : Script δ} {rows columns j : Nat}

theorem start (s : Script δ) (rows columns : Nat) :
    (Row.start s (rows * (columns + 1))).Has rows columns 0 := ⟨rfl, rfl⟩

theorem push (h : row.Has rows columns j) : (row.push s).Has rows columns (j + 1) where
  length_rest := by rw [Row.push, List.length_cons, h.length_rest]
  solved := by rw [Row.push, h.solved, Nat.add_assoc]

/-- The number of positions in the rows up to a complete one. -/
theorem solved_of_complete (h : row.Has rows columns columns) :
    row.solved = (rows + 1) * (columns + 1) := by
  rw [h.solved, Nat.succ_mul]

end Row.Has

/-! ## The log and the chart -/

/-- The log has `c` comparisons. -/
def Compared (c : Nat) (s : σ × Array (Call α β δ)) : Prop := s.2.toList.countP (!·.isCost) = c

namespace Compared

variable {P : Policy (Attempt σ) α β δ} {c : Nat} {s s' : σ × Array (Call α β δ)}

theorem onFst {x : Attempt σ γ} {a : γ} (h : Compared c s) (hrun : x.onFst s = .ok a s') :
    Compared c s' := by
  obtain ⟨-, hlog⟩ := Attempt.onFst_eq_ok_iff.1 hrun
  unfold Compared at h ⊢
  rwa [← hlog]

theorem cost {d : δ} {k : Nat} (h : Compared c s) (hrun : P.traced.cost d s = .ok k s') :
    Compared c s' := by
  obtain ⟨-, hlog⟩ := Policy.traced_cost_eq_ok_iff.1 hrun
  unfold Compared at h ⊢
  simp [← hlog, h]

theorem compare {x : α} {y : β} {o : Option δ} (h : Compared c s)
    (hrun : P.traced.compare x y s = .ok o s') : Compared (c + 1) s' := by
  obtain ⟨-, hlog⟩ := Policy.traced_compare_eq_ok_iff.1 hrun
  unfold Compared at h ⊢
  simp [← hlog, h]

/-- A position makes one comparison. -/
theorem cell {tie : TieBreak} {x : Priced α δ} {y : Priced β δ} {lost gained both script : Script δ}
    (h : Compared c s) (hrun : P.traced.cell tie x y lost gained both s = .ok script s') :
    Compared (c + 1) s' := by
  obtain ⟨-, -, -, -, ⟨hcompare, -⟩ | ⟨d, k, s₁, -, hcompare, hcost, -⟩⟩ := Policy.cell_cases hrun
  · exact h.compare hcompare
  · exact (h.compare hcompare).cost hcost

/-- The prices of the elements make none. -/
theorem priced (edit : ε → δ) {l : List ε} {ps : List (Priced ε δ)} (h : Compared c s)
    (hrun : (l.mapM fun e => return ⟨e, edit e, ← P.traced.cost (edit e)⟩ :
      Attempt (σ × Array (Call α β δ)) (List (Priced ε δ))) s = .ok ps s') :
    ps.length = l.length ∧ Compared c s' := by
  let price : Attempt (σ × Array (Call α β δ)) (List (Priced ε δ)) :=
    l.mapM fun e => return ⟨e, edit e, ← P.traced.cost (edit e)⟩
  have hprice : ((Attempt.leading Empty _).comap (Attempt _) (Attempt _)).Rel (Compared c)
      (fun ps => ps.map Priced.item = l ∧ ∀ p ∈ ps, p.Of edit fun _ _ => True) (Compared c)
      price price :=
    Tracking.priced _ (A := fun _ => Compared c) l fun e _ _ =>
      Attempt.leading_liftM fun _ _ _ hs hcost => ⟨trivial, hs.cost hcost⟩
  obtain ⟨⟨hitems, -⟩, hs'⟩ := hprice s ps s' h (Attempt.run_liftM_eq_ok_iff.2 hrun)
  rw [← hitems, List.length_map]
  exact ⟨rfl, hs'⟩

end Compared

/-- The state has the property `A`, and the rows of the chart have these lengths. -/
def Charted (A : κ → Prop) (lengths : List Nat) (s : κ × Chart δ) : Prop :=
  A s.1 ∧ s.2.map List.length = lengths

namespace Charted

variable {A B : κ → Prop} {lengths : List Nat} {k : Nat} {s s' : κ × Chart δ}

theorem onFst {x : Attempt κ γ} {Q : γ → Prop} {a : γ}
    (hx : ∀ s a s', A s → x s = .ok a s' → Q a ∧ B s') (h : Charted A lengths s)
    (hrun : x.onFst s = .ok a s') : Q a ∧ Charted B lengths s' := by
  obtain ⟨hrun, hchart⟩ := Attempt.onFst_eq_ok_iff.1 hrun
  obtain ⟨ha, hB⟩ := hx _ _ _ h.1 hrun
  exact ⟨ha, hB, by rw [← hchart, h.2]⟩

theorem corner {x : Attempt κ (Script δ)} {a : Script δ}
    (hx : ∀ s a s', A s → x s = .ok a s' → B s') (h : Charted A lengths s)
    (hrun : Chart.corner x s = .ok a s') : Charted B (1 :: lengths) s' := by
  obtain ⟨b, s₁, hfst, hrun⟩ := Attempt.bind_eq_ok_iff.1 hrun
  obtain ⟨-, hB, hlengths⟩ := h.onFst (Q := fun _ => True) (B := B)
    (fun s a s' hs hrun => ⟨trivial, hx s a s' hs hrun⟩) hfst
  cases hrun
  exact ⟨hB, by simp [Chart.newRow, hlengths]⟩

theorem next {x : Attempt κ (Script δ)} {a : Script δ}
    (hx : ∀ s a s', A s → x s = .ok a s' → B s') (h : Charted A (k :: lengths) s)
    (hrun : Chart.next x s = .ok a s') : Charted B ((k + 1) :: lengths) s' := by
  obtain ⟨b, s₁, hfst, hrun⟩ := Attempt.bind_eq_ok_iff.1 hrun
  obtain ⟨-, hB, hlengths⟩ := h.onFst (Q := fun _ => True) (B := B)
    (fun s a s' hs hrun => ⟨trivial, hx s a s' hs hrun⟩) hfst
  cases hrun
  refine ⟨hB, ?_⟩
  obtain ⟨row, rows, hchart, hrow, hrows⟩ := List.map_eq_cons_iff.1 hlengths
  simp [hchart, Chart.push, hrow, hrows]

end Charted

/-! ## The account of a search -/

/-- The timeout of a search on `rows` and `columns` elements that has found the time run out at the
position `j + 1` of the row above `k + 1` complete ones, after all comparisons before it. -/
def Struck (rows columns : Nat) (t : Timeout) (s : (σ × Array (Call α β δ)) × Chart δ) : Prop :=
  ∃ k j, k < rows ∧ j < columns ∧
    t = ⟨(k + 1) * (columns + 1) + (j + 1), (rows + 1) * (columns + 1)⟩ ∧
    Charted (Compared (k * columns + j)) ((j + 1) :: List.replicate (k + 1) (columns + 1)) s

/-- Runs that return a script keep account of the comparisons and of the chart, and runs that end
early leave the account of their timeout. -/
abbrev striking (σ α β δ : Type) (rows columns : Nat) :
    Tracking ((σ × Array (Call α β δ)) × Chart δ)
      (ExceptT Timeout (Attempt ((σ × Array (Call α β δ)) × Chart δ)))
      (ExceptT Timeout (Attempt ((σ × Array (Call α β δ)) × Chart δ))) :=
  Attempt.ending (Struck rows columns)

/-- The interrupt reports the position before which it was asked. -/
def Interrupt.Reports (interrupt : Interrupt (Attempt σ) Timeout) : Prop :=
  ∀ solved total s t s', interrupt solved total s = .ok (some t) s' → t = ⟨solved, total⟩

theorem Interrupt.reports_deadline (clock : Attempt σ Instant) (limit : Option Instant) :
    (Interrupt.deadline clock limit).Reports := by
  intro solved total s t s' hrun
  cases limit with
  | none => cases hrun
  | some limit =>
    obtain ⟨now, s₁, -, hnow⟩ := Attempt.bind_eq_ok_iff.1 hrun
    cases hreaches : now.reaches limit with
    | false =>
      rw [hreaches] at hnow
      cases hnow
    | true =>
      rw [hreaches] at hnow
      cases hnow
      rfl

namespace Policy

open Attempt

variable (P : Policy (Attempt σ) α β δ) (tie : TieBreak) {interrupt : Interrupt (Attempt σ) Timeout}
  {rows columns : Nat}

/-- The row for the empty suffix gets a script for every position, without a comparison. -/
theorem ending_chartedBorder (qs : List (Priced β δ)) :
    ((striking σ α β δ rows columns).comap (Attempt _) (Attempt _)).Rel
      (Charted (Compared 0) []) (fun row => row.Has 0 qs.length qs.length)
      (Charted (Compared 0) [qs.length + 1])
      (P.traced.chartedBorder qs) (P.traced.chartedBorder qs) := by
  unfold chartedBorder
  refine Tracking.bind _ (Q := fun _ => True) (B := Charted (Compared 0) [1])
    (ending_liftM fun s a s' hs hrun => ⟨trivial, hs.corner ?_ hrun⟩) fun corner _ => ?_
  · rintro s a s' hs ⟨⟩
    exact hs
  · refine Tracking.foldrM _ (I := fun ys (row : Row δ) => row.Has 0 qs.length ys.length)
      (J := fun ys => Charted (Compared 0) [ys.length + 1]) qs ?_ fun y ys row _ hrow => ?_
    · simpa using Row.Has.start corner 0 qs.length
    · refine Tracking.bind _ (Q := fun _ => True) (ending_liftM fun s a s' hs hrun =>
        ⟨trivial, hs.next ?_ hrun⟩) fun s _ => Tracking.pure _ hrow.push fun _ hk => hk
      intro s a s' hs hrun
      obtain ⟨-, rfl⟩ := liftM_except_eq_ok_iff.1 hrun
      exact hs

/-- A position gets its script after one comparison, or finds the time run out. -/
theorem ending_chartedCell (hreports : interrupt.Reports) {k j : Nat} (hk : k < rows)
    (hj : j < columns) (x : Priced α δ) (p : Priced β δ × Script δ × Script δ) {row : Row δ}
    (hrow : row.Has (k + 1) columns j) :
    (striking σ α β δ rows columns).Rel
      (Charted (Compared (k * columns + j)) ((j + 1) :: List.replicate (k + 1) (columns + 1)))
      (fun r => r.Has (k + 1) columns (j + 1))
      (Charted (Compared (k * columns + (j + 1)))
        ((j + 2) :: List.replicate (k + 1) (columns + 1)))
      (P.traced.chartedCell tie interrupt.onFst ((rows + 1) * (columns + 1)) x p row)
      (P.traced.chartedCell tie interrupt.onFst ((rows + 1) * (columns + 1)) x p row) := by
  obtain ⟨y, lost, both⟩ := p
  unfold chartedCell
  have hask : ∀ s o s', Compared (k * columns + j) s →
      (interrupt.onFst row.solved ((rows + 1) * (columns + 1)) :
        Attempt (σ × Array (Call α β δ)) _) s = .ok o s' →
      (∀ t, o = some t → t = ⟨row.solved, (rows + 1) * (columns + 1)⟩) ∧
        Compared (k * columns + j) s' := by
    intro s o s' hs hrun
    refine ⟨?_, hs.onFst hrun⟩
    rintro t rfl
    exact hreports _ _ _ _ _ (onFst_eq_ok_iff.1 hrun).1
  refine Tracking.bind _
    (Q := fun o => ∀ t, o = some t → t = ⟨row.solved, (rows + 1) * (columns + 1)⟩)
    (B := Charted (Compared (k * columns + j))
      ((j + 1) :: List.replicate (k + 1) (columns + 1)))
    (ending_liftM fun _ _ _ hs hrun => Charted.onFst hask hs hrun) fun o ho => ?_
  cases o with
  | some t =>
    refine ending_throw fun s hs => ⟨k, j, hk, hj, ?_, hs⟩
    rw [ho t rfl, hrow.solved]
  | none =>
    refine Tracking.bind _ (Q := fun _ => True) (ending_liftM fun s a s' hs hrun =>
      ⟨trivial, hs.next (fun _ _ _ hs hrun => hs.cell hrun) hrun⟩) fun s _ => ?_
    exact Tracking.pure _ hrow.push fun _ hk => hk

/-- A row gets a script for every position, or finds the time run out. -/
theorem ending_chartedRow (hreports : interrupt.Reports) {k : Nat} (hk : k < rows)
    {qs : List (Priced β δ)} (hqs : qs.length = columns) (x : Priced α δ) {below : Row δ}
    (hbelow : below.Has k columns columns) :
    (striking σ α β δ rows columns).Rel
      (Charted (Compared (k * columns)) (List.replicate (k + 1) (columns + 1)))
      (fun r => r.Has (k + 1) columns columns)
      (Charted (Compared ((k + 1) * columns)) (List.replicate (k + 2) (columns + 1)))
      (P.traced.chartedRow tie interrupt.onFst ((rows + 1) * (columns + 1)) qs x below)
      (P.traced.chartedRow tie interrupt.onFst ((rows + 1) * (columns + 1)) qs x below) := by
  unfold chartedRow
  have hcells : (qs.zip (below.scripts.zip below.rest)).length = columns := by
    simp [Row.scripts, hbelow.length_rest, hqs]
  refine Tracking.bind _ (Q := fun _ => True) (B := Charted (Compared (k * columns))
    (1 :: List.replicate (k + 1) (columns + 1)))
    (ending_liftM fun s a s' hs hrun => ⟨trivial, hs.corner ?_ hrun⟩) fun corner _ => ?_
  · intro s a s' hs hrun
    obtain ⟨-, rfl⟩ := liftM_except_eq_ok_iff.1 hrun
    exact hs
  · have hrow := Tracking.foldrM (striking σ α β δ rows columns)
      (I := fun l row => row.Has (k + 1) columns l.length)
      (J := fun l => Charted (Compared (k * columns + l.length))
        ((l.length + 1) :: List.replicate (k + 1) (columns + 1)))
      (f := P.traced.chartedCell tie interrupt.onFst ((rows + 1) * (columns + 1)) x)
      (g := P.traced.chartedCell tie interrupt.onFst ((rows + 1) * (columns + 1)) x)
      (b := .start corner below.solved) (qs.zip (below.scripts.zip below.rest)) ?_ ?_
    · rw [hcells, ← Nat.succ_mul] at hrow
      exact hrow
    · rw [hbelow.solved_of_complete]
      exact Row.Has.start corner (k + 1) columns
    · intro p l row hl hrow
      have hlt : l.length + 1 ≤ columns := hcells ▸ hl.length_le
      exact P.ending_chartedCell tie hreports hk hlt x p hrow

theorem ending_chartedSearch (hreports : interrupt.Reports) (xs : List α) (ys : List β) :
    (striking σ α β δ xs.length ys.length).Rel (Charted (Compared 0) []) (fun _ => True)
      (fun _ => True) (chartedSearch P.traced tie interrupt.onFst xs ys)
      (chartedSearch P.traced tie interrupt.onFst xs ys) := by
  unfold chartedSearch
  refine Tracking.bind _ (B := Charted (Compared 0) []) (Q := fun ps => ps.length = xs.length)
    (ending_liftM fun _ _ _ hs hrun => Charted.onFst (Q := fun ps => ps.length = xs.length)
      (fun _ _ _ hs hrun => hs.priced P.delete hrun) hs hrun) fun ps hps => ?_
  refine Tracking.bind _ (B := Charted (Compared 0) []) (Q := fun qs => qs.length = ys.length)
    (ending_liftM fun _ _ _ hs hrun => Charted.onFst (Q := fun qs => qs.length = ys.length)
      (fun _ _ _ hs hrun => hs.priced P.insert hrun) hs hrun) fun qs hqs => ?_
  refine Tracking.bind _ (P.ending_chartedBorder qs) fun border hborder => ?_
  rw [hqs] at hborder ⊢
  have hrows := Tracking.foldrM (striking σ α β δ xs.length ys.length)
    (I := fun ps (row : Row δ) => row.Has ps.length ys.length ys.length)
    (J := fun ps => Charted (Compared (ps.length * ys.length))
      (List.replicate (ps.length + 1) (ys.length + 1)))
    (f := P.traced.chartedRow tie interrupt.onFst ((xs.length + 1) * (ys.length + 1)) qs)
    (g := P.traced.chartedRow tie interrupt.onFst ((xs.length + 1) * (ys.length + 1)) qs)
    (b := border) ps hborder fun p ps' below hp hbelow => by
      have hlt : ps'.length + 1 ≤ xs.length := hps ▸ hp.length_le
      exact P.ending_chartedRow tie hreports hlt hqs p hbelow
  simp only [List.length_nil, Nat.zero_mul, Nat.zero_add, List.replicate_one] at hrows
  exact Tracking.bind _ hrows fun row _ => Tracking.pure _ trivial fun _ _ => trivial

end Policy

/-! ## The account of a timeout -/

/-- The number of positions that have a script. -/
def Chart.positions (chart : Chart δ) : Nat := (chart.map List.length).sum

/-- The account of the timeout of a search on `rows` and `columns` elements that has made a number
of comparisons, and has found the scripts of the chart. -/
structure Timeout.Accounts (t : Timeout) (rows columns comparisons : Nat) (chart : Chart δ) :
    Prop where
  rows_pos : 1 ≤ rows
  columns_pos : 1 ≤ columns
  comparisons_lt : comparisons < rows * columns
  total_eq : t.total = (rows + 1) * (columns + 1)
  solved_eq : t.solved =
    (comparisons / columns + 1) * (columns + 1) + comparisons % columns + 1
  /-- The first row and the rows above it are complete, but for the last one. -/
  lengths : chart.map List.length = (comparisons % columns + 1) ::
    List.replicate (comparisons / columns + 1) (columns + 1)
  solved_eq_positions : t.solved = chart.positions
  le_solved : columns + 2 ≤ t.solved
  solved_lt : t.solved < t.total

/-- The quotient and the remainder of the comparisons are the complete rows and the positions of the
last one. -/
theorem Struck.accounts {rows columns : Nat} {t : Timeout} {s : (σ × Array (Call α β δ)) × Chart δ}
    (h : Struck rows columns t s) :
    t.Accounts rows columns (s.1.2.toList.countP (!·.isCost)) s.2 := by
  obtain ⟨k, j, hk, hj, rfl, hcompared, hlengths⟩ := h
  have hpos : 0 < columns := by omega
  have hdiv : (k * columns + j) / columns = k := by
    rw [Nat.mul_comm, Nat.mul_add_div hpos, Nat.div_eq_of_lt hj, Nat.add_zero]
  have hmod : (k * columns + j) % columns = j := by
    rw [Nat.mul_comm, Nat.mul_add_mod, Nat.mod_eq_of_lt hj]
  have hrow : (k + 1) * columns ≤ rows * columns := Nat.mul_le_mul_right columns hk
  have htotal : (k + 2) * (columns + 1) ≤ (rows + 1) * (columns + 1) :=
    Nat.mul_le_mul_right (columns + 1) (Nat.succ_le_succ hk)
  have hfirst : columns + 1 ≤ (k + 1) * (columns + 1) := Nat.le_mul_of_pos_left _ (Nat.succ_pos k)
  rw [Nat.succ_mul] at hrow htotal
  unfold Compared at hcompared
  rw [hcompared]
  constructor
  · omega
  · exact hpos
  · omega
  · rfl
  · rw [hdiv, hmod, Nat.add_assoc]
  · rw [hdiv, hmod, hlengths]
  · rw [Chart.positions, hlengths, List.sum_cons, List.sum_replicate_nat, Nat.add_comm]
  · dsimp only
    omega
  · dsimp only
    omega

/-- The search from `s`, which ends with the timeout `t` in `s'`, makes calls and fills a chart that
account for the timeout. -/
def Policy.AccountsFor (P : Policy (Attempt σ) α β δ) (tie : TieBreak) (clock : Attempt σ Instant)
    (limit : Option Instant) (xs : List α) (ys : List β) (s s' : σ) (t : Timeout) : Prop :=
  ∃ calls chart,
    (search P.traced tie (.deadline clock.onFst limit) xs ys).run (s, #[]) =
      .ok (.error t) (s', calls) ∧
    (chartedSearch P.traced tie (.deadline clock.onFst limit) xs ys).run ((s, #[]), []) =
      .ok (.error t) ((s', calls), chart) ∧
    t.Accounts xs.length ys.length (calls.toList.countP (!·.isCost)) chart

/-- The timeout of a call is the one of its search, which starts when the limit is known. -/
theorem exists_search_of_timeout {P : Policy (Attempt σ) α β δ} {clock : Attempt σ Instant}
    {settings : Settings} {xs : List α} {ys : List β} {s s' : σ} {t : Timeout}
    (h : (cheapestEditsWithin clock P settings xs ys).run s = .ok (.error t) s') :
    ∃ limit s₁, settings.limit clock s = .ok limit s₁ ∧
      (search P settings.tieBreak (.deadline clock limit) xs ys).run s₁ = .ok (.error t) s' := by
  unfold cheapestEditsWithin at h
  rw [Settings.limit_liftM, Attempt.run_liftM_bind] at h
  cases hlimit : settings.limit clock s with
  | error e s₁ =>
    rw [hlimit] at h
    cases h
  | ok limit s₁ =>
    rw [hlimit] at h
    dsimp only at h
    rw [Attempt.run_bind] at h
    refine ⟨limit, s₁, rfl, ?_⟩
    cases hsearch : (search P settings.tieBreak (.deadline clock limit) xs ys).run s₁ with
    | error e s₂ =>
      rw [hsearch] at h
      cases h
    | ok x s₂ =>
      rw [hsearch] at h
      cases x with
      | ok script => cases h
      | error u =>
        cases h
        rfl

/-- Each timeout of a search is accounted for. -/
theorem Policy.accountsFor_of_search {P : Policy (Attempt σ) α β δ} {tie : TieBreak}
    {clock : Attempt σ Instant} {limit : Option Instant} {xs : List α} {ys : List β} {s s' : σ}
    {t : Timeout}
    (h : (search P tie (.deadline clock limit) xs ys).run s = .ok (.error t) s') :
    P.AccountsFor tie clock limit xs ys s s' t := by
  obtain ⟨calls, hcalls⟩ := exists_trace h #[]
  have hforget := P.traced.forgetting_chartedSearch tie (Interrupt.deadline clock limit).onFst xs ys
  obtain ⟨chart, hchart⟩ := Attempt.exists_run_of_forgetting hforget hcalls []
  have hstruck := P.ending_chartedSearch tie (Interrupt.reports_deadline clock limit) xs ys
    ((s, #[]), []) _ _ ⟨rfl, rfl⟩ hchart
  rw [Interrupt.onFst_deadline] at hcalls hchart
  exact ⟨calls, chart, hcalls, hchart, hstruck.accounts⟩

end TreeDiff
