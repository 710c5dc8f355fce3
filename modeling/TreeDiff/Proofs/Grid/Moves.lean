import TreeDiff.Grid.Moves
import TreeDiff.Proofs.Grid.Rows

/-!
# The moves of a search

The script picked at a position is a cheapest candidate, and no cheapest candidate comes before it
in the order of the tie break (`TieBreak.exists_candidate_eq_pick`).

A search with `Policy.stepping` writes the moves beside the edits and is otherwise the same search:
what it returns is the script without them (`search_stepping`). So a statement on the moves that a
search takes is one on the edits of the search with `Policy.stepping`. Each function of the search
is shown to treat scripts with moves as it treats the scripts without them, from the candidates of a
position (`Policy.cell_stepping`) to the rows.
-/

namespace TreeDiff

variable {m : Type → Type} {α β δ δ' ε ε' ρ ρ' τ : Type}

/-! ## The candidates of a position -/

namespace TieBreak

/-- The candidate that begins with a move. -/
def candidate (delete insert : Script δ) (both : Option (Script δ)) : Move → Option (Script δ)
  | .delete => some delete
  | .insert => some insert
  | .both => both

section

variable {delete insert s t : Script δ} {move : Move}

theorem candidate_cases (h : candidate delete insert (some s) move = some t) :
    move = .both ∧ t = s ∨ candidate delete insert none move = some t := by
  cases move with
  | delete => exact .inr h
  | insert => exact .inr h
  | both =>
    cases h
    exact .inl ⟨rfl, rfl⟩

theorem candidate_of_none (h : candidate delete insert none move = some t) :
    move ≠ .both ∧ (delete.cheaper insert).total ≤ t.total ∧
      candidate delete insert (some s) move = some t := by
  rw [Script.total_cheaper]
  cases move with
  | delete =>
    cases h
    exact ⟨nofun, Nat.min_le_left _ _, rfl⟩
  | insert =>
    cases h
    exact ⟨nofun, Nat.min_le_right _ _, rfl⟩
  | both => cases h

end

theorem precedes_both {move : Move} (h : move ≠ .both) : edits.Precedes move .both := by
  cases move <;> first | decide | contradiction

theorem both_precedes {move : Move} (h : move ≠ .both) : diagonal.Precedes .both move := by
  cases move <;> first | decide | contradiction

/-- Without a match, the deletion comes first if it is as cheap as the insertion. -/
theorem exists_candidate_eq_cheaper (tie : TieBreak) (delete insert : Script δ) :
    ∃ move, candidate delete insert none move = some (delete.cheaper insert) ∧
      ∀ move' s, candidate delete insert none move' = some s →
        s.total ≤ (delete.cheaper insert).total → move' = move ∨ tie.Precedes move move' := by
  unfold Script.cheaper
  by_cases hlt : insert.total < delete.total
  · rw [if_pos hlt]
    refine ⟨.insert, rfl, fun move' s hs hle => ?_⟩
    cases move' with
    | delete =>
      cases hs
      omega
    | insert => exact .inl rfl
    | both => cases hs
  · rw [if_neg hlt]
    refine ⟨.delete, rfl, fun move' s hs _ => ?_⟩
    cases move' with
    | delete => exact .inl rfl
    | insert => exact .inr tie.delete_precedes_insert
    | both => cases hs

/-- The script that is picked is a cheapest candidate, and its move comes before the moves of all
other cheapest candidates. -/
theorem exists_candidate_eq_pick (tie : TieBreak) (delete insert : Script δ)
    (both : Option (Script δ)) :
    ∃ move, candidate delete insert both move = some (tie.pick delete insert both) ∧
      ∀ move' s, candidate delete insert both move' = some s →
        s.total ≤ (tie.pick delete insert both).total → move' = move ∨ tie.Precedes move move' := by
  obtain ⟨move, hmove, hfirst⟩ := tie.exists_candidate_eq_cheaper delete insert
  cases both with
  | none =>
    have hpick : tie.pick delete insert none = delete.cheaper insert := by cases tie <;> rfl
    rw [hpick]
    exact ⟨move, hmove, hfirst⟩
  | some s =>
    obtain ⟨hedit, -, hmove'⟩ := candidate_of_none (s := s) hmove
    cases tie with
    | edits =>
      by_cases hlt : s.total < (delete.cheaper insert).total
      · have hpick : edits.pick delete insert (some s) = s := if_pos hlt
        rw [hpick]
        refine ⟨.both, rfl, fun move' t ht hle => ?_⟩
        rcases candidate_cases ht with ⟨rfl, -⟩ | ht
        · exact .inl rfl
        · have hge := (candidate_of_none (s := s) ht).2.1
          omega
      · have hpick : edits.pick delete insert (some s) = delete.cheaper insert := if_neg hlt
        rw [hpick]
        refine ⟨move, hmove', fun move' t ht hle => ?_⟩
        rcases candidate_cases ht with ⟨rfl, -⟩ | ht
        · exact .inr (precedes_both hedit)
        · exact hfirst move' t ht hle
    | diagonal =>
      by_cases hlt : (delete.cheaper insert).total < s.total
      · have hpick : diagonal.pick delete insert (some s) = delete.cheaper insert := if_pos hlt
        rw [hpick]
        refine ⟨move, hmove', fun move' t ht hle => ?_⟩
        rcases candidate_cases ht with ⟨rfl, rfl⟩ | ht
        · omega
        · exact hfirst move' t ht hle
      · have hpick : diagonal.pick delete insert (some s) = s := if_neg hlt
        rw [hpick]
        refine ⟨.both, rfl, fun move' t ht _ => ?_⟩
        rcases candidate_cases ht with ⟨rfl, -⟩ | ht
        · exact .inl rfl
        · exact .inr (both_precedes (candidate_of_none (s := s) ht).1)

/-- An insertion is picked only if it is cheaper than the deletion. -/
theorem pick_cases (tie : TieBreak) (delete insert : Script δ) (both : Option (Script δ)) :
    tie.pick delete insert both = delete ∨
      (tie.pick delete insert both = insert ∧ insert.total < delete.total) ∨
      both = some (tie.pick delete insert both) := by
  obtain ⟨move, hmove, hfirst⟩ := tie.exists_candidate_eq_pick delete insert both
  cases move with
  | delete => exact .inl (Option.some.inj hmove).symm
  | both => exact .inr (.inr hmove)
  | insert =>
    refine .inr (.inl ⟨(Option.some.inj hmove).symm, ?_⟩)
    rw [Option.some.inj hmove]
    by_contra hle
    rcases hfirst .delete delete rfl (Nat.not_lt.1 hle) with hdelete | hprecedes
    · cases hdelete
    · exact Nat.lt_asymm hprecedes tie.delete_precedes_insert

theorem total_pick_le_insert (tie : TieBreak) (delete insert : Script δ)
    (both : Option (Script δ)) : (tie.pick delete insert both).total ≤ insert.total := by
  cases both with
  | none =>
    rw [total_pick_none]
    omega
  | some s =>
    rw [total_pick_some]
    omega

end TieBreak

/-! ## Scripts without their moves -/

namespace Script

variable (f : δ' → δ)

@[simp] theorem total_map (s : Script δ') : (s.map f).total = s.total := by
  obtain ⟨entries⟩ := s
  cases entries <;> rfl

@[simp] theorem edits_map (s : Script δ') : (s.map f).edits = s.edits.map f := by
  simp [edits, map]

theorem cheaper_map (s t : Script δ') : (s.map f).cheaper (t.map f) = (s.cheaper t).map f := by
  unfold cheaper
  rw [total_map, total_map]
  split <;> rfl

theorem prepend_map (ceiling c : Nat) (d : δ') (s : Script δ') :
    (s.map f).prepend ceiling (f d) c = Script.map f <$> s.prepend ceiling d c := by
  unfold prepend
  rw [total_map, map_bind]
  rfl

end Script

theorem TieBreak.pick_map (tie : TieBreak) (f : δ' → δ) (delete insert : Script δ')
    (both : Option (Script δ')) :
    tie.pick (delete.map f) (insert.map f) (both.map (Script.map f)) =
      (tie.pick delete insert both).map f := by
  cases tie <;> cases both <;> simp [pick, Script.cheaper_map]

/-- The row with the edits of its scripts changed. -/
def Row.map (f : δ' → δ) (row : Row δ') : Row δ :=
  ⟨row.first.map f, row.rest.map (Script.map f), row.solved⟩

theorem Row.scripts_map (f : δ' → δ) (row : Row δ') :
    (row.map f).scripts = row.scripts.map (Script.map f) := rfl

theorem Row.last_map (f : δ' → δ) (row : Row δ') : (row.map f).last = row.last.map f := by
  simp only [last, map, List.getLastD_eq_getLast?, List.getLast?_map]
  cases row.rest.getLast? <;> rfl

/-- The element with its edit without the move. -/
def Priced.plain (p : Priced ε (Step δ)) : Priced ε δ := ⟨p.item, p.edit.edit, p.price⟩

/-! ## Folds over changed lists -/

theorem foldrM_map_comm [Monad m] [LawfulMonad m] {f : ε → ρ → m ρ} {f' : ε' → ρ' → m ρ'}
    (g : ε' → ε) (h : ρ' → ρ) (hf : ∀ e r, f (g e) (h r) = h <$> f' e r) (l : List ε') (b : ρ') :
    (l.map g).foldrM f (h b) = h <$> l.foldrM f' b := by
  induction l with
  | nil => simp
  | cons e l ih =>
    rw [List.map_cons, List.foldrM_cons, List.foldrM_cons, ih, map_bind, bind_map_left]
    simp only [hf]

/-! ## The search -/

namespace Policy

variable [Monad m] [LawfulMonad m] (P : Policy m α β δ)

theorem deletions_stepping (xs : List α) :
    P.deletions xs = List.map Priced.plain <$> P.stepping.deletions xs := by
  unfold deletions
  induction xs with
  | nil => simp
  | cons x xs ih =>
    simp only [List.mapM_cons, ih]
    simp [stepping, Priced.plain]

theorem insertions_stepping (ys : List β) :
    P.insertions ys = List.map Priced.plain <$> P.stepping.insertions ys := by
  unfold insertions
  induction ys with
  | nil => simp
  | cons y ys ih =>
    simp only [List.mapM_cons, ih]
    simp [stepping, Priced.plain]

omit [LawfulMonad m] in
theorem prepend_stepping (p : Priced ε (Step δ)) (s : Script (Step δ)) :
    P.prepend p.plain (s.map Step.edit) = Script.map Step.edit <$> P.stepping.prepend p s :=
  Script.prepend_map Step.edit P.ceiling p.price p.edit s

omit [LawfulMonad m] in
theorem border_stepping (qs : List (Priced β (Step δ))) :
    P.border (qs.map Priced.plain) = Row.map Step.edit <$> P.stepping.border qs := by
  unfold border
  refine foldrM_map_comm Priced.plain (Row.map Step.edit) (fun q row => ?_) qs
    (.start .empty 0)
  rw [map_bind]
  simp only [Row.map, prepend_stepping, bind_map_left]
  rfl

variable [MonadLiftT (Except Fault) m] [LawfulMonadLiftT (Except Fault) m]

theorem matching_stepping (x : α) (y : β) (s : Script (Step δ)) :
    P.matching x y (s.map Step.edit) =
      Option.map (Script.map Step.edit) <$> P.stepping.matching x y s := by
  unfold matching
  rw [map_bind]
  simp only [stepping, bind_assoc, pure_bind]
  refine bind_congr fun o => ?_
  cases o with
  | none => simp
  | some d =>
    have hprepend := fun c => Script.prepend_map Step.edit P.ceiling c ⟨.both, d⟩ s
    simp [hprepend, liftM_map]

/-- The candidates of a position, and the one that is picked. -/
theorem cell_stepping (tie : TieBreak) (x : Priced α (Step δ)) (y : Priced β (Step δ))
    (lost gained both : Script (Step δ)) :
    P.cell tie x.plain y.plain (lost.map Step.edit) (gained.map Step.edit) (both.map Step.edit) =
      Script.map Step.edit <$> P.stepping.cell tie x y lost gained both := by
  unfold cell
  rw [prepend_stepping, prepend_stepping]
  have hitems : x.plain.item = x.item ∧ y.plain.item = y.item := ⟨rfl, rfl⟩
  rw [hitems.1, hitems.2, matching_stepping]
  simp [liftM_map, TieBreak.pick_map]

theorem nextCell_stepping (tie : TieBreak) (interrupt : Interrupt m τ) (total : Nat)
    (x : Priced α (Step δ)) (y : Priced β (Step δ)) (lost both : Script (Step δ))
    (row : Row (Step δ)) :
    P.nextCell tie interrupt total x.plain (y.plain, lost.map Step.edit, both.map Step.edit)
        (row.map Step.edit) =
      Row.map Step.edit <$> P.stepping.nextCell tie interrupt total x (y, lost, both) row := by
  rw [nextCell_eq, nextCell_eq, map_bind]
  refine bind_congr fun _ => ?_
  have hfirst : (row.map Step.edit).first = row.first.map Step.edit := rfl
  rw [hfirst, cell_stepping]
  simp [liftM_map]
  rfl

theorem nextRow_stepping (tie : TieBreak) (interrupt : Interrupt m τ) (total : Nat)
    (qs : List (Priced β (Step δ))) (x : Priced α (Step δ)) (below : Row (Step δ)) :
    P.nextRow tie interrupt total (qs.map Priced.plain) x.plain (below.map Step.edit) =
      Row.map Step.edit <$> P.stepping.nextRow tie interrupt total qs x below := by
  unfold nextRow
  rw [Row.last_map, prepend_stepping, liftM_map, map_bind, bind_map_left]
  refine bind_congr fun corner => ?_
  have hzip : (qs.map Priced.plain).zip
      ((below.map Step.edit).scripts.zip (below.map Step.edit).rest) =
        (qs.zip (below.scripts.zip below.rest)).map
          (Prod.map Priced.plain (Prod.map (Script.map Step.edit) (Script.map Step.edit))) := by
    have hrest : (below.map Step.edit).rest = below.rest.map (Script.map Step.edit) := rfl
    rw [Row.scripts_map, hrest, List.zip_map, List.zip_map]
  rw [hzip]
  exact foldrM_map_comm _ (Row.map Step.edit)
    (fun e row => P.nextCell_stepping tie interrupt total x e.1 e.2.1 e.2.2 row) _
    (.start corner below.solved)

end Policy

/-- A search that writes the moves beside the edits returns the same script with its moves. -/
theorem search_stepping [Monad m] [LawfulMonad m] [MonadLiftT (Except Fault) m]
    [LawfulMonadLiftT (Except Fault) m] (P : Policy m α β δ) (tie : TieBreak)
    (interrupt : Interrupt m τ) (xs : List α) (ys : List β) :
    search P tie interrupt xs ys =
      Script.map Step.edit <$> search P.stepping tie interrupt xs ys := by
  unfold search
  rw [P.deletions_stepping, liftM_map, map_bind, bind_map_left]
  refine bind_congr fun ps => ?_
  rw [P.insertions_stepping, liftM_map, map_bind, bind_map_left]
  refine bind_congr fun qs => ?_
  rw [P.border_stepping, liftM_map, map_bind, bind_map_left]
  refine bind_congr fun border => ?_
  dsimp only
  rw [foldrM_map_comm Priced.plain (Row.map Step.edit) (P.nextRow_stepping tie interrupt _ qs),
    bind_map_left, map_bind]
  simp only [map_pure]
  rfl

end TreeDiff
