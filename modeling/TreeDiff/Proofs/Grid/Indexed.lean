import TreeDiff.Grid.Indexed
import TreeDiff.Proofs.Grid.Exact
import TreeDiff.Proofs.Grid.Timeout
import TreeDiff.Proofs.Mirror

/-!
# The search by numbers does what the search does

The search by numbers goes through arrays, and has an operation without a result at almost every
step. It keeps the rows of the search, each turned around: the script for a suffix stands at the
length of the suffix. So a row of which the last script is for the suffix of the length `j` has
`j + 1` entries, and all places that a position looks at are filled.

* `Slip.entry_eq`, `Slip.minus_eq`, `Slip.expect_eq`, `Slip.last_eq`: operations with a result.
* `Row.array`: the row as an array.
* `Guarded.safe`: the computations that do not slip.
* `TieBreak.apply_choose`: the move that is chosen leads to the script that is picked.
* `Stands`: what a position reads. `Policy.indexedCell_eq` is the position.
* `HoldsRow`: what the loops keep. `Policy.mirrors_indexedCell` is the step of the inner loop, and
  `Policy.mirrors_indexedRow` the one of the outer loop.
* `indexedSearch_eq`: the whole search.
-/

namespace TreeDiff

variable {m : Type → Type} {α β γ γ' δ ε τ : Type}

/-! ## Results and errors -/

namespace Slip

theorem entry_eq {xs : Array γ} {i : Nat} {x : γ} (h : xs[i]? = some x) : entry xs i = .ok x := by
  unfold entry
  rw [h]

theorem minus_eq {x y : Nat} (h : y ≤ x) : minus x y = .ok (x - y) := if_pos h

theorem expect_eq {xs : Array γ} {n : Nat} (h : xs.size = n) : expect xs n = .ok () := if_pos h

theorem last_eq {xs : Array γ} {x : γ} (h : xs.back? = some x) : last xs = .ok x := by
  unfold last
  rw [h]

end Slip

/-- Nothing goes on from an error. -/
theorem bind_liftM_error [Monad m] [LawfulMonad m] {ρ : Type} [MonadLiftT (Except ρ) m]
    [LawfulMonadLiftT (Except ρ) m] {x : Except ρ γ} {x' : Except ρ γ'} {e : ρ}
    (hx : x = .error e) (hx' : x' = .error e) (f : γ → m ε) (f' : γ' → m ε) :
    (liftM x >>= f) = liftM x' >>= f' := by
  -- an error is one of a computation without results
  have herror : ∀ {κ : Type} {y : Except ρ κ} (g : κ → m ε), y = .error e →
      (liftM y >>= g) = liftM (Except.error e : Except ρ Empty) >>= Empty.elim := by
    rintro κ y g rfl
    have hbind : (Except.error e : Except ρ κ) =
        (Except.error e : Except ρ Empty) >>= Empty.elim := rfl
    rw [hbind, liftM_bind, bind_assoc]
    exact bind_congr fun a => a.elim
  rw [herror f hx, herror f' hx']

/-! ## Rows as arrays -/

namespace Row

variable {row : Row δ} {s : Script δ} {solved : Nat}

/-- The scripts of a row, each at the length of its suffix. -/
def array (row : Row δ) : Array (Script δ) := row.scripts.reverse.toArray

theorem array_start : (start s solved).array = #[s] := rfl

theorem array_push : (row.push s).array = row.array.push s := by
  unfold array scripts push
  rw [List.reverse_cons, List.push_toArray]

theorem size_array : row.array.size = row.rest.length + 1 := by
  simp [array, scripts]

/-- The script at a length stands as far from the end of the row. -/
theorem getElem?_array {n j : Nat} (hrow : row.rest.length = n) (hj : j ≤ n) :
    row.array[j]? = row.scripts[n - j]? := by
  have hlength : row.scripts.length = n + 1 := by rw [scripts, List.length_cons, hrow]
  unfold array
  rw [List.getElem?_toArray, List.getElem?_reverse (by omega), hlength, Nat.add_sub_cancel]

theorem getElem?_array_length {n : Nat} (hrow : row.rest.length = n) :
    row.array[n]? = some row.first := by
  rw [getElem?_array hrow le_rfl, Nat.sub_self]
  rfl

theorem getElem?_array_zero : row.array[0]? = some row.last := by
  rw [getElem?_array rfl (Nat.zero_le _), Nat.sub_zero]
  unfold scripts last
  cases h : row.rest using List.reverseRecOn <;> simp

theorem back?_array : row.array.back? = some row.first := by
  rw [Array.back?_eq_getElem?, size_array]
  exact getElem?_array_length rfl

end Row

/-! ## Computations without a slip -/

section

variable [Monad m] [LawfulMonad m]

/-- The computations that do not slip. -/
def Guarded.safe (τ : Type) (m : Type → Type) [Monad m] [LawfulMonad m] :
    Embedding (ExceptT τ m) (Guarded τ m) where
  map x := ExceptT.mk (liftM x.run)
  map_pure a := by
    rw [ExceptT.run_pure, liftM_pure]
    rfl
  map_bind y g := by
    refine ExceptT.ext ?_
    rw [ExceptT.run_mk, ExceptT.run_bind, ExceptT.run_bind, ExceptT.run_mk, liftM_bind]
    refine bind_congr fun r => ?_
    cases r with
    | ok a => rfl
    | error t => exact liftM_pure _

namespace Guarded

theorem run_safe (x : ExceptT τ m γ) : ((safe τ m).map x).run.run = Except.ok <$> x.run := rfl

theorem safe_liftM (x : m γ) : (safe τ m).map (liftM x) = liftM x := by
  refine ExceptT.ext ?_
  show (liftM (Except.ok <$> x : m _) : ExceptT Slip m _) =
    Except.ok <$> (liftM x : ExceptT Slip m γ)
  rw [map_eq_pure_bind, map_eq_pure_bind, liftM_bind]
  exact bind_congr fun a => liftM_pure _

theorem safe_liftM_except [MonadLiftT (Except Fault) m] (x : Except Fault γ) :
    (safe τ m).map (liftM x) = liftM x :=
  safe_liftM (liftM x : m γ)

theorem safe_throw (t : τ) : (safe τ m).map (throw t : ExceptT τ m γ) = throw t := by
  refine ExceptT.ext ?_
  show (liftM (pure (Except.error t) : m (Except τ γ)) : ExceptT Slip m _) = pure _
  exact liftM_pure _

/-- The question before a position does not slip. -/
theorem mirrors_check (interrupt : Interrupt m τ) (solved total : Nat) :
    (safe τ m).Mirrors Eq (Policy.indexedCheck interrupt solved total)
      (interrupt.check solved total) := by
  unfold Policy.indexedCheck Interrupt.check
  rw [← safe_liftM]
  refine Embedding.Mirrors.bind (Embedding.Mirrors.map_self _) fun o o' ho => ?_
  subst ho
  cases o with
  | none => exact Embedding.Mirrors.pure rfl
  | some t =>
    dsimp only
    rw [← safe_throw]
    exact Embedding.Mirrors.map_self _

end Guarded

end

/-! ## One position -/

/-- The move that is chosen leads to the script that is picked. -/
theorem TieBreak.apply_choose {κ : Type} (tie : TieBreak) (f : Choice δ → κ) (g : Script δ → κ)
    {viaDelete viaInsert : Script δ} (both : Option (δ × Nat × Script δ))
    (hdelete : f .delete = g viaDelete) (hinsert : f .insert = g viaInsert)
    (hboth : ∀ d price s, both = some (d, price, s) → f (.both d price) = g s) :
    f (tie.choose viaDelete.total viaInsert.total
        (both.map fun p => (p.1, p.2.1, p.2.2.total))) =
      g (tie.pick viaDelete viaInsert (both.map fun p => p.2.2)) := by
  have hedit : f (if viaInsert.total < viaDelete.total then .insert else .delete) =
      g (viaDelete.cheaper viaInsert) := by
    unfold Script.cheaper
    split <;> assumption
  have htotal : (if viaInsert.total < viaDelete.total then viaInsert.total else viaDelete.total) =
      (viaDelete.cheaper viaInsert).total := by
    unfold Script.cheaper
    split <;> rfl
  obtain _ | ⟨d, price, s⟩ := both
  · cases tie <;> exact hedit
  · have hs := hboth d price s rfl
    simp only [choose, pick, Option.map_some, htotal]
    generalize viaDelete.cheaper viaInsert = edit at hedit
    cases tie with
    | edits =>
      dsimp only
      by_cases hlt : s.total < edit.total
      · rw [if_pos hlt, Script.cheaper, if_pos hlt, hs]
      · rw [if_neg hlt, Script.cheaper, if_neg hlt, hedit]
    | diagonal =>
      dsimp only
      by_cases hle : s.total ≤ edit.total
      · rw [if_pos hle, Script.cheaper, if_neg (Nat.not_lt.2 hle), hs]
      · rw [if_neg hle, Script.cheaper, if_pos (Nat.not_le.1 hle), hedit]

/-- What a position reads: its heads, with the numbers that they have, and the scripts of the
positions that it may move to. -/
structure Stands (xs : Array α) (ys : Array β) (qs : Array (Priced β δ))
    (previous current : Array (Script δ)) (i rb : Nat) (x : Priced α δ) (y : Priced β δ)
    (lost gained both : Script δ) : Prop where
  pos : 1 ≤ rb
  le : rb ≤ ys.size
  first : xs[i]? = some x.item
  second : ys[ys.size - rb]? = some y.item
  priced : qs[ys.size - rb]? = some y
  lost : previous[rb]? = some lost
  gained : current[rb - 1]? = some gained
  both : previous[rb - 1]? = some both

/-- A script gets one more edit if and only if the costs can be added. -/
theorem Script.addCosts_and_prepend (ceiling c : Nat) (d : δ) (s : Script δ) :
    (∃ e, addCosts ceiling c s.total = .error e ∧ s.prepend ceiling d c = .error e) ∨
      ∃ r, addCosts ceiling c s.total = .ok r.total ∧ s.prepend ceiling d c = .ok r := by
  cases hsum : addCosts ceiling c s.total with
  | error e => exact .inl ⟨e, rfl, prepend_eq_error_iff.2 (addCosts_eq_error_iff.1 hsum)⟩
  | ok t =>
    obtain ⟨hle, rfl⟩ := addCosts_eq_ok_iff.1 hsum
    exact .inr ⟨s.cons d c, rfl, prepend_eq_ok_iff.2 ⟨hle, rfl⟩⟩

namespace Policy

variable [Monad m] [LawfulMonad m] [MonadLiftT (Except Fault) m] [LawfulMonadLiftT (Except Fault) m]
  (P : Policy m α β δ) (tie : TieBreak) {xs : Array α} {ys : Array β} {qs : Array (Priced β δ)}
  {previous current : Array (Script δ)} {i rb : Nat} {x : Priced α δ} {y : Priced β δ}
  {lost gained both viaDelete viaInsert : Script δ}

/-- The script that takes the chosen move is the one that is picked. -/
theorem indexedMove_choose (h : Stands xs ys qs previous current i rb x y lost gained both)
    (hdelete : P.prepend x lost = .ok viaDelete) (hinsert : P.prepend y gained = .ok viaInsert)
    (found : Option (δ × Nat × Script δ))
    (hfound : ∀ d price s, found = some (d, price, s) → both.prepend P.ceiling d price = .ok s) :
    (P.indexedMove x y previous current rb (tie.choose viaDelete.total viaInsert.total
        (found.map fun p => (p.1, p.2.1, p.2.2.total))) : Guarded τ m (Script δ)) =
      pure (tie.pick viaDelete viaInsert (found.map fun p => p.2.2)) := by
  refine tie.apply_choose (P.indexedMove x y previous current rb) pure found ?_ ?_ ?_
  · rw [indexedMove, bind_liftM_ok (Slip.entry_eq h.lost)]
    exact liftM_of_ok hdelete
  · rw [indexedMove, bind_liftM_ok (Slip.minus_eq h.pos), bind_liftM_ok (Slip.entry_eq h.gained)]
    exact liftM_of_ok hinsert
  · intro d price s hs
    rw [indexedMove, bind_liftM_ok (Slip.minus_eq h.pos), bind_liftM_ok (Slip.entry_eq h.both)]
    exact liftM_of_ok (hfound d price s hs)

/-- What comes after the comparison. -/
theorem indexedMatch_bind (h : Stands xs ys qs previous current i rb x y lost gained both)
    (hdelete : P.prepend x lost = .ok viaDelete) (hinsert : P.prepend y gained = .ok viaInsert) :
    (P.indexedMatch xs ys previous i (ys.size - rb) rb >>= fun found =>
        P.indexedMove x y previous current rb
          (tie.choose viaDelete.total viaInsert.total found) : Guarded τ m (Script δ)) =
      liftM (P.compare x.item y.item >>= P.afterCompare tie viaDelete viaInsert both) := by
  unfold indexedMatch
  rw [bind_liftM_ok (Slip.entry_eq h.first), bind_liftM_ok (Slip.entry_eq h.second), bind_assoc,
    liftM_bind]
  refine bind_congr fun o => ?_
  cases o with
  | none =>
    dsimp only [afterCompare]
    rw [pure_bind, liftM_pure]
    exact P.indexedMove_choose tie h hdelete hinsert none nofun
  | some d =>
    dsimp only [afterCompare]
    rw [bind_assoc, liftM_bind]
    refine bind_congr fun price => ?_
    rw [bind_assoc, bind_liftM_ok (Slip.minus_eq h.pos), bind_assoc,
      bind_liftM_ok (Slip.entry_eq h.both), bind_assoc]
    obtain ⟨e, hsum, hs⟩ | ⟨s, hsum, hs⟩ := both.addCosts_and_prepend P.ceiling price d
    · rw [liftM_bind]
      exact bind_liftM_error hsum hs _ _
    · rw [bind_liftM_ok hsum, pure_bind, bind_liftM_ok hs, liftM_pure]
      refine P.indexedMove_choose tie h hdelete hinsert (some (d, price, s)) ?_
      rintro _ _ _ ⟨⟩
      exact hs

/-- A position gets the script that it should get. -/
theorem indexedCell_eq (h : Stands xs ys qs previous current i rb x y lost gained both) :
    (P.indexedCell tie xs ys qs x i previous current rb : Guarded τ m (Script δ)) =
      liftM (P.cell tie x y lost gained both) := by
  unfold indexedCell
  rw [bind_liftM_ok (Slip.minus_eq h.le), bind_liftM_ok (Slip.entry_eq h.priced),
    bind_liftM_ok (Slip.entry_eq h.lost)]
  -- each of the two sums may lie above the ceiling, which ends both computations
  obtain ⟨e, hsum, hdelete⟩ | ⟨viaDelete, hsum, hdelete⟩ :=
    lost.addCosts_and_prepend P.ceiling x.price x.edit
  · unfold cell
    rw [liftM_bind]
    exact bind_liftM_error hsum hdelete _ _
  rw [bind_liftM_ok hsum, bind_liftM_ok (Slip.minus_eq h.pos),
    bind_liftM_ok (Slip.entry_eq h.gained)]
  obtain ⟨e, hsum, hinsert⟩ | ⟨viaInsert, hsum, hinsert⟩ :=
    gained.addCosts_and_prepend P.ceiling y.price y.edit
  · unfold cell prepend
    rw [bind_liftM_ok hdelete, liftM_bind]
    exact bind_liftM_error hsum hinsert _ _
  · rw [bind_liftM_ok hsum, P.cell_eq_of_ok tie both hdelete hinsert]
    exact P.indexedMatch_bind tie h hdelete hinsert

end Policy

/-! ## The search -/

theorem liftM_foldrM {k : Type → Type} [Monad k] [LawfulMonad k] [Monad m] [LawfulMonad m]
    [MonadLiftT k m] [LawfulMonadLiftT k m] (f : ε → γ → k γ) (b : γ) (l : List ε) :
    (liftM (l.foldrM f b) : m γ) = l.foldrM (fun e c => liftM (f e c)) b := by
  induction l with
  | nil => exact liftM_pure b
  | cons e l ih =>
    rw [List.foldrM_cons, List.foldrM_cons, liftM_bind, ih]

theorem getElem?_of_reverse {l : List γ} {j : Nat} {a : γ} (h : l.reverse[j]? = some a) :
    j < l.length ∧ l[l.length - 1 - j]? = some a := by
  have hj : j < l.length := by
    rw [← List.length_reverse]
    exact (List.getElem?_eq_some_iff.1 h).1
  exact ⟨hj, by rwa [← List.getElem?_reverse hj]⟩

theorem Priced.length_eq {ps : List (Priced ε δ)} {l : List ε} (hps : ps.map Priced.item = l) :
    ps.length = l.length := by
  rw [← hps, List.length_map]

/-- An element with its price stands where the element does. -/
theorem Priced.getElem?_item {ps : List (Priced ε δ)} {l : List ε} {j : Nat} {p : Priced ε δ}
    (hps : ps.map Priced.item = l) (h : ps[j]? = some p) : l[j]? = some p.item := by
  rw [← hps, List.getElem?_map, h]
  rfl

/-- A complete row has an entry for each element of the second sequence, beside the one before. -/
theorem Row.Has.length_zip {row : Row δ} {rows columns : Nat} {qs : List (Priced β δ)}
    (h : row.Has rows columns columns) (hqs : qs.length = columns) :
    (qs.zip (row.scripts.zip row.rest)).length = columns := by
  rw [List.length_zip, List.length_zip, Row.scripts, List.length_cons, h.length_rest, hqs]
  omega

/-- The array holds the scripts of the row, which are those of `j` positions on top of the first
one. -/
def HoldsRow (rows columns j : Nat) (scripts : Array (Script δ)) (row : Row δ) : Prop :=
  scripts = row.array ∧ row.Has rows columns j

/-- The position `j + 1` of the row `k + 1` reads its heads, the scripts of the row below and the
one that the row has got last. -/
theorem Stands.of_rows {xs : List α} {ys : List β} {ps : List (Priced α δ)} {qs : List (Priced β δ)}
    {k j : Nat} {x : Priced α δ} {y : Priced β δ} {lost both : Script δ} {below row : Row δ}
    (hps : ps.map Priced.item = xs) (hqs : qs.map Priced.item = ys)
    (hx : ps.reverse[k]? = some x) (hbelow : below.Has k ys.length ys.length)
    (hy : (qs.zip (below.scripts.zip below.rest)).reverse[j]? = some (y, lost, both))
    (hrow : row.Has (k + 1) ys.length j) :
    Stands xs.toArray ys.toArray qs.toArray below.array row.array (xs.length - (k + 1)) (j + 1) x y
      lost row.first both := by
  have hxs : ps.length = xs.length := Priced.length_eq hps
  have hys : qs.length = ys.length := Priced.length_eq hqs
  obtain ⟨hk, hx⟩ := getElem?_of_reverse hx
  obtain ⟨hj, hy⟩ := getElem?_of_reverse hy
  rw [hbelow.length_zip hys] at hj hy
  obtain ⟨hy, hy'⟩ := List.getElem?_zip_eq_some.1 hy
  obtain ⟨hlost, hboth⟩ := List.getElem?_zip_eq_some.1 hy'
  have hplace : ys.length - (j + 1) = ys.length - 1 - j := by omega
  constructor
  · exact Nat.succ_pos j
  · exact hj
  · rw [List.getElem?_toArray, ← hxs, Nat.sub_add_eq, Nat.sub_right_comm]
    exact Priced.getElem?_item hps hx
  · rw [List.getElem?_toArray, List.size_toArray, hplace]
    exact Priced.getElem?_item hqs hy
  · rw [List.getElem?_toArray, List.size_toArray, hplace]
    exact hy
  · rw [Row.getElem?_array hbelow.length_rest hj, hplace]
    exact hlost
  · exact Row.getElem?_array_length hrow.length_rest
  · have hnext : ys.length - j = ys.length - 1 - j + 1 := by omega
    rw [Nat.add_sub_cancel, Row.getElem?_array hbelow.length_rest hj.le, hnext]
    exact hboth

namespace Policy

variable [Monad m] [LawfulMonad m] [MonadLiftT (Except Fault) m] [LawfulMonadLiftT (Except Fault) m]
  (P : Policy m α β δ) (tie : TieBreak) (interrupt : Interrupt m τ) {xs : List α} {ys : List β}
  {ps : List (Priced α δ)} {qs : List (Priced β δ)}

theorem mirrors_indexedBorder :
    (Guarded.safe τ m).Mirrors (HoldsRow 0 qs.length qs.length) (P.indexedBorder qs.toArray)
      (liftM (P.border qs)) := by
  unfold indexedBorder border
  rw [liftM_foldrM]
  have hstart : HoldsRow 0 qs.length 0 #[Script.empty] (Row.start (Script.empty : Script δ) 0) :=
    ⟨rfl, by simpa using Row.Has.start (Script.empty : Script δ) 0 qs.length⟩
  refine Embedding.Mirrors.foldrM (I := HoldsRow 0 qs.length) (by simp) rfl ?_ hstart
  rintro j ⟨y, rb⟩ y' previous row hy hy' ⟨rfl, hrow⟩
  rw [List.getElem?_zipIdx, hy', Option.map_some, Option.some_inj, Prod.mk.injEq] at hy
  obtain ⟨rfl, rfl⟩ := hy
  dsimp only
  rw [Nat.zero_add, bind_liftM_ok (Slip.entry_eq (Row.getElem?_array_length hrow.length_rest)),
    liftM_bind, ← Guarded.safe_liftM_except]
  refine (Embedding.Mirrors.map_self _).bind fun s _ hs => ?_
  subst hs
  rw [liftM_pure]
  exact .pure ⟨Row.array_push.symm, hrow.push⟩

/-- One position of a row, with the question before it. -/
theorem mirrors_indexedCell {k j i : Nat} {x : Priced α δ} {y : Priced β δ}
    {lost both : Script δ} {previous : Array (Script δ)} {row : Row δ}
    (hrow : row.Has (k + 1) ys.length j)
    (hstands : Stands xs.toArray ys.toArray qs.toArray previous row.array i (j + 1) x y lost
      row.first both) :
    (Guarded.safe τ m).Mirrors (HoldsRow (k + 1) ys.length (j + 1))
      (do
        Slip.expect row.array (j + 1)
        indexedCheck interrupt ((k + 1) * (ys.length + 1) + (j + 1))
          ((xs.length + 1) * (ys.length + 1))
        return row.array.push
          (← P.indexedCell tie xs.toArray ys.toArray qs.toArray x i previous row.array (j + 1)))
      (P.nextCell tie interrupt ((xs.length + 1) * (ys.length + 1)) x (y, lost, both) row) := by
  have hsize : row.array.size = j + 1 := by rw [Row.size_array, hrow.length_rest]
  rw [Policy.nextCell_eq, bind_liftM_ok (Slip.expect_eq hsize), ← hrow.solved]
  refine (Guarded.mirrors_check interrupt _ _).bind fun _ _ _ => ?_
  rw [P.indexedCell_eq tie hstands, ← Guarded.safe_liftM]
  refine (Embedding.Mirrors.map_self _).bind fun s _ hs => ?_
  subst hs
  exact .pure ⟨Row.array_push.symm, hrow.push⟩

/-- One row: the loop keeps the row as an array. -/
theorem mirrors_indexedRow {k : Nat} {x : Priced α δ} {below : Row δ}
    (hps : ps.map Priced.item = xs) (hqs : qs.map Priced.item = ys)
    (hx : ps.reverse[k]? = some x) (hbelow : below.Has k ys.length ys.length) :
    (Guarded.safe τ m).Mirrors (HoldsRow (k + 1) ys.length ys.length)
      (P.indexedRow tie interrupt xs.toArray ys.toArray ps.toArray qs.toArray below.array (k + 1))
      (P.nextRow tie interrupt ((xs.length + 1) * (ys.length + 1)) qs x below) := by
  have hxs : ps.length = xs.length := Priced.length_eq hps
  have hys : qs.length = ys.length := Priced.length_eq hqs
  obtain ⟨hk, hx'⟩ := getElem?_of_reverse hx
  have hentry : ps.toArray[xs.toArray.size - (k + 1)]? = some x := by
    rwa [List.getElem?_toArray, List.size_toArray, ← hxs, Nat.sub_add_eq, Nat.sub_right_comm]
  have hsize : below.array.size = ys.toArray.size + 1 := by
    rw [Row.size_array, hbelow.length_rest, List.size_toArray]
  have hle : k + 1 ≤ xs.toArray.size := by rwa [List.size_toArray, ← hxs]
  unfold indexedRow nextRow
  rw [bind_liftM_ok (Slip.expect_eq hsize), bind_liftM_ok (Slip.minus_eq hle),
    bind_liftM_ok (Slip.entry_eq hentry), bind_liftM_ok (Slip.entry_eq Row.getElem?_array_zero),
    ← Guarded.safe_liftM_except]
  refine (Embedding.Mirrors.map_self _).bind fun corner _ hcorner => ?_
  subst hcorner
  have hzip : (qs.zip (below.scripts.zip below.rest)).length = ys.length :=
    hbelow.length_zip hys
  have hstart : HoldsRow (k + 1) ys.length 0 #[corner] (Row.start corner below.solved) := by
    refine ⟨Row.array_start.symm, ?_⟩
    rw [hbelow.solved_of_complete]
    exact Row.Has.start corner (k + 1) ys.length
  refine Embedding.Mirrors.foldrM List.length_range' hzip ?_ hstart
  rintro j rb ⟨y, lost, both⟩ current row hrb hy ⟨rfl, hrow⟩
  have hj : j < ys.length := hzip ▸ (getElem?_of_reverse hy).1
  rw [List.getElem?_range' hj, Option.some_inj, Nat.one_mul, Nat.add_comm] at hrb
  subst hrb
  exact P.mirrors_indexedCell tie interrupt hrow (.of_rows hps hqs hx hbelow hy hrow)

omit [MonadLiftT (Except Fault) m] [LawfulMonadLiftT (Except Fault) m] in
theorem mirrors_priced {cost : δ → m Nat} (edit : ε → δ) (l : List ε) :
    (Guarded.safe τ m).Mirrors (fun ps ps' => ps = ps' ∧ ps.map Priced.item = l)
      (liftM (l.mapM fun e => return ⟨e, edit e, ← cost (edit e)⟩ : m (List (Priced ε δ))))
      (liftM (l.mapM fun e => return ⟨e, edit e, ← cost (edit e)⟩ : m (List (Priced ε δ)))) := by
  have hcost : ∀ e l', e :: l' <:+ l →
      (((Guarded.safe τ m).mirroring.tracking Unit).comap m m).Rel (fun _ => True) (fun _ => True)
        (fun _ => True) (cost (edit e)) (cost (edit e)) :=
    fun e _ _ => Embedding.mirroring_self _ (Guarded.safe_liftM (cost (edit e)))
  have hpriced := (((Guarded.safe τ m).mirroring.tracking Unit).comap m m).priced
    (K := fun _ _ => True) (A := fun _ _ => True) l hcost
  exact Embedding.Mirrors.mono hpriced fun _ _ h => ⟨h.1, h.2.1⟩

end Policy

variable [Monad m] [LawfulMonad m] [MonadLiftT (Except Fault) m] [LawfulMonadLiftT (Except Fault) m]
  (P : Policy m α β δ) (tie : TieBreak) (interrupt : Interrupt m τ) (xs : List α) (ys : List β)

/-- The search by numbers does what the search does, and does not slip. -/
theorem indexedSearch_eq :
    indexedSearch P tie interrupt xs ys =
      (Guarded.safe τ m).map (search P tie interrupt xs ys) := by
  refine Embedding.Mirrors.eq_map ?_
  rw [search_eq]
  unfold indexedSearch Policy.deletions Policy.insertions Policy.topRow
  refine (Policy.mirrors_priced P.delete xs).bind fun ps _ hps => ?_
  obtain ⟨rfl, hps⟩ := hps
  refine (Policy.mirrors_priced P.insert ys).bind fun qs _ hqs => ?_
  obtain ⟨rfl, hqs⟩ := hqs
  have hxs : ps.length = xs.length := Priced.length_eq hps
  have hys : qs.length = ys.length := Priced.length_eq hqs
  rw [bind_assoc]
  refine (P.mirrors_indexedBorder).bind fun previous border hborder => ?_
  rw [hys] at hborder
  have hrows : (Guarded.safe τ m).Mirrors (HoldsRow xs.length ys.length ys.length)
      ((List.range' 1 xs.length).foldlM
        (P.indexedRow tie interrupt xs.toArray ys.toArray ps.toArray qs.toArray) previous)
      (ps.foldrM (P.nextRow tie interrupt ((xs.length + 1) * (ys.length + 1)) qs) border) := by
    refine Embedding.Mirrors.foldrM (I := fun k => HoldsRow k ys.length ys.length)
      List.length_range' hxs ?_ hborder
    rintro k ra x previous below hra hx ⟨rfl, hbelow⟩
    have hk : k < xs.length := hxs ▸ (getElem?_of_reverse hx).1
    rw [List.getElem?_range' hk, Option.some_inj, Nat.one_mul, Nat.add_comm] at hra
    subst hra
    exact P.mirrors_indexedRow tie interrupt hps hqs hx hbelow
  refine hrows.bind ?_
  rintro _ row ⟨rfl, -⟩
  rw [liftM_of_ok (Slip.last_eq Row.back?_array)]
  exact .pure rfl

end TreeDiff
