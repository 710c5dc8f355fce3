import TreeDiff.Proofs.Grid.Optimum
import TreeDiff.Proofs.Grid.Paths

/-!
# Segments of paths

A path can be cut anywhere, and each part is a path for the elements that it uses up. Paths one
after the other are a path, so no segment of a cheapest path can be replaced by a cheaper one.

* `Path.append_iff`: paths one after the other.
* `Path.mem_cases`: what an edit of a path stands for.
* `Policy.optimum_append_le`: the optimum of two pairs of sequences, one after the other.
* `Policy.Path.pathCost_segment`: the segments of a cheapest path are cheapest paths.
-/

namespace TreeDiff

variable {α β δ : Type}

namespace Path

variable {delete : α → δ} {insert : β → δ} {matched : α → β → δ → Prop} {xs xs' : List α}
  {ys ys' : List β} {steps steps' : List (Step δ)}

theorem append (h : Path delete insert matched xs ys steps)
    (h' : Path delete insert matched xs' ys' steps') :
    Path delete insert matched (xs ++ xs') (ys ++ ys') (steps ++ steps') := by
  induction h with
  | done => exact h'
  | delete x _ ih => exact .delete x ih
  | insert y _ ih => exact .insert y ih
  | both hd _ ih => exact .both hd ih

/-- A path can be cut after any step. -/
theorem append_iff : Path delete insert matched xs ys (steps ++ steps') ↔
    ∃ xs₁ xs₂ ys₁ ys₂, xs = xs₁ ++ xs₂ ∧ ys = ys₁ ++ ys₂ ∧
      Path delete insert matched xs₁ ys₁ steps ∧ Path delete insert matched xs₂ ys₂ steps' := by
  constructor
  · intro h
    induction steps generalizing xs ys with
    | nil => exact ⟨[], xs, [], ys, rfl, rfl, .done, h⟩
    | cons step steps ih =>
      cases h with
      | delete x h =>
        obtain ⟨xs₁, xs₂, ys₁, ys₂, rfl, rfl, h₁, h₂⟩ := ih h
        exact ⟨x :: xs₁, xs₂, ys₁, ys₂, rfl, rfl, .delete x h₁, h₂⟩
      | insert y h =>
        obtain ⟨xs₁, xs₂, ys₁, ys₂, rfl, rfl, h₁, h₂⟩ := ih h
        exact ⟨xs₁, xs₂, y :: ys₁, ys₂, rfl, rfl, .insert y h₁, h₂⟩
      | both hd h =>
        obtain ⟨xs₁, xs₂, ys₁, ys₂, rfl, rfl, h₁, h₂⟩ := ih h
        exact ⟨_ :: xs₁, xs₂, _ :: ys₁, ys₂, rfl, rfl, .both hd h₁, h₂⟩
  · rintro ⟨xs₁, xs₂, ys₁, ys₂, rfl, rfl, h₁, h₂⟩
    exact h₁.append h₂

/-- An edit of a path loses or gains an element of one sequence, or matches one of each. -/
theorem mem_cases {d : δ} (h : Path delete insert matched xs ys steps)
    (hd : d ∈ steps.map Step.edit) :
    (∃ x ∈ xs, d = delete x) ∨ (∃ y ∈ ys, d = insert y) ∨ ∃ x ∈ xs, ∃ y ∈ ys, matched x y d := by
  obtain ⟨step, hstep, rfl⟩ := List.mem_map.1 hd
  obtain ⟨s, t, rfl⟩ := List.append_of_mem hstep
  obtain ⟨xs₁, xs₂, ys₁, ys₂, rfl, rfl, -, h⟩ := append_iff.1 h
  cases h with
  | delete x h => exact .inl ⟨x, List.mem_append_right xs₁ List.mem_cons_self, rfl⟩
  | insert y h => exact .inr (.inl ⟨y, List.mem_append_right ys₁ List.mem_cons_self, rfl⟩)
  | both hmatch h =>
    exact .inr (.inr ⟨_, List.mem_append_right xs₁ List.mem_cons_self, _,
      List.mem_append_right ys₁ List.mem_cons_self, hmatch⟩)

end Path

/-! ## Cheapest paths -/

namespace Policy

variable (P : Policy Id α β δ)

theorem pathCost_append (steps steps' : List (Step δ)) :
    P.pathCost (steps ++ steps') = P.pathCost steps + P.pathCost steps' := by
  simp only [pathCost_eq_sum, List.map_append, List.sum_append]

/-- Cheapest paths one after the other are a path. -/
theorem optimum_append_le (xs xs' : List α) (ys ys' : List β) :
    P.optimum (xs ++ xs') (ys ++ ys') ≤ P.optimum xs ys + P.optimum xs' ys' := by
  obtain ⟨steps, hpath, hcost⟩ := (P.isLeast_optimum xs ys).1
  obtain ⟨steps', hpath', hcost'⟩ := (P.isLeast_optimum xs' ys').1
  rw [← hcost, ← hcost', ← pathCost_append]
  exact Path.optimum_le (hpath.append hpath')

variable {P}

/-- A segment of a cheapest path is a cheapest path for the elements that it uses up. -/
theorem Path.pathCost_segment {xs : List α} {ys : List β} {s t u : List (Step δ)}
    (h : P.Path xs ys (s ++ (t ++ u))) (hcost : P.pathCost (s ++ (t ++ u)) = P.optimum xs ys) :
    ∃ us vs, us <:+: xs ∧ vs <:+: ys ∧ P.Path us vs t ∧ P.pathCost t = P.optimum us vs := by
  obtain ⟨xs₁, xs₂, ys₁, ys₂, rfl, rfl, hs, htu⟩ := TreeDiff.Path.append_iff.1 h
  obtain ⟨us, xs₃, vs, ys₃, rfl, rfl, ht, hu⟩ := TreeDiff.Path.append_iff.1 htu
  refine ⟨us, vs, ?_, ?_, ht, ?_⟩
  · exact ⟨xs₁, xs₃, List.append_assoc _ _ _⟩
  · exact ⟨ys₁, ys₃, List.append_assoc _ _ _⟩
  · have hs_le : P.optimum xs₁ ys₁ ≤ P.pathCost s := Path.optimum_le hs
    have ht_le : P.optimum us vs ≤ P.pathCost t := Path.optimum_le ht
    have hu_le : P.optimum xs₃ ys₃ ≤ P.pathCost u := Path.optimum_le hu
    have hwhole := P.optimum_append_le xs₁ (us ++ xs₃) ys₁ (vs ++ ys₃)
    have hrest := P.optimum_append_le us xs₃ vs ys₃
    rw [pathCost_append, pathCost_append] at hcost
    omega

end Policy

end TreeDiff
