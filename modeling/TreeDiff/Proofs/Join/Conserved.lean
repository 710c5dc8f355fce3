import Mathlib.Algebra.BigOperators.Group.Finset.Defs
import Mathlib.Algebra.FreeMonoid.Basic
import Mathlib.Algebra.Ring.Int.Defs
import TreeDiff.Join.Rules

/-!
# What compacting conserves

A measure takes values to a monoid, and a list of values to the product of their measures, in
order. The monoid need not be commutative: the measure may be the list of the parts of a value, and
then the product says which parts there are, how often and in which order. If no join of two values
changes the product, then compacting a list does not change it either, and the same is true of
values in wrappers, where an absent value counts for nothing.

* `measured`, `Join.Conserves`: the product over a list, and the joins that leave it alone.
* `Agree`: two functions agree on whatever a computation answers. Said in this way, the results hold
  of joins with effects as well.
* `Wrapped.measure`: a measure of values in wrappers, and `Join.Conserves.lift`.
* `Join.Conserves.foldlM_keep`: the kept values and those still to come, at every moment.
* `compact_conserves`: compacted lists, and what this means for words in chains and for balances.
-/

namespace TreeDiff

variable {m : Type → Type} [Monad m] {α β γ ε M : Type}

/-! ## Functions of an answer -/

/-- The two functions agree on whatever the computation answers. -/
def Agree (p : m β) (f g : β → γ) : Prop := (fun b => (b, f b)) <$> p = (fun b => (b, g b)) <$> p

section

variable [LawfulMonad m] {p : m β} {f g : β → γ}

theorem agree_pure {b : β} (h : f b = g b) : Agree (pure b : m β) f g := by
  simp [Agree, h]

/-- What comes after the computation may use either function. -/
theorem Agree.bind_congr (h : Agree p f g) (k : β → γ → m ε) :
    (p >>= fun b => k b (f b)) = p >>= fun b => k b (g b) := by
  have hk := congrArg (· >>= fun q => k q.1 q.2) h
  simpa only [bind_map_left] using hk

theorem Agree.map {k : ε → β} {p : m ε} (h : Agree p (fun e => f (k e)) fun e => g (k e)) :
    Agree (k <$> p) f g := by
  have hk := h.bind_congr fun e c => pure (k e, c)
  simpa [Agree] using hk

theorem agree_id_iff {p : Id β} : Agree p f g ↔ f p.run = g p.run := by
  constructor
  · intro h
    exact (Prod.mk.inj h).2
  · intro h
    exact Prod.ext rfl h

end

/-! ## Measures -/

/-- The product of the measures of the values of a list, in order. -/
def measured [Monoid M] (μ : α → M) (xs : List α) : M := (xs.map μ).prod

section

variable [Monoid M] (μ : α → M)

@[simp] theorem measured_nil : measured μ [] = 1 := rfl

@[simp] theorem measured_cons (x : α) (xs : List α) :
    measured μ (x :: xs) = μ x * measured μ xs := by
  simp [measured]

@[simp] theorem measured_append (xs ys : List α) :
    measured μ (xs ++ ys) = measured μ xs * measured μ ys := by
  simp [measured]

theorem measured_map (f : β → α) (xs : List β) :
    measured μ (xs.map f) = measured (fun x => μ (f x)) xs := by
  simp [measured, Function.comp_def]

end

/-- Whatever becomes of two values has the product of their measures. -/
def Join.Conserves [Monoid M] (join : Join m α) (μ : α → M) : Prop :=
  ∀ x y, Agree (join x y) (fun j => measured μ j.toList) fun _ => μ x * μ y

/-- The measure of a value in wrappers is the one of the value inside. An absent value has none. -/
def Wrapped.measure [Monoid M] (μ : α → M) : (ws : List Wrapper) → Wrapped α ws → M
  | [] => μ
  | .option :: ws => fun x => x.elim 1 (Wrapped.measure μ ws)
  | .boxed :: ws => fun x => Wrapped.measure μ ws x.value

namespace Join.Conserves

variable [LawfulMonad m] [Monoid M] {join : Join m α} {μ : α → M}

theorem option (h : join.Conserves μ) : join.option.Conserves fun x => x.elim 1 μ := by
  intro x y
  match x, y with
  | some x, some y =>
    have hmap : Agree (Joined.map some <$> join x y)
        (fun j => measured (fun x : Option α => x.elim 1 μ) j.toList) fun _ => μ x * μ y := by
      apply Agree.map
      simpa [measured_map] using h x y
    simpa [Join.option] using hmap
  | none, y => exact agree_pure (by simp [Joined.toList])
  | some x, none => exact agree_pure (by simp [Joined.toList])

theorem boxed (h : join.Conserves μ) : join.boxed.Conserves fun x => μ x.value := by
  intro x y
  have hmap : Agree (Joined.map Boxed.mk <$> join x.value y.value)
      (fun j => measured (fun x : Boxed α => μ x.value) j.toList)
      fun _ => μ x.value * μ y.value := by
    apply Agree.map
    simpa [measured_map] using h x.value y.value
  simpa [Join.boxed] using hmap

/-- Joins of wrapped values conserve what the join of the values inside conserves. -/
theorem lift (h : join.Conserves μ) (ws : List Wrapper) :
    (join.lift ws).Conserves (Wrapped.measure μ ws) := by
  induction ws with
  | nil => exact h
  | cons w ws ih =>
    cases w with
    | option => exact ih.option
    | boxed => exact ih.boxed

/-- A value that arrives is added to the measure of the kept values, whatever it does to them. -/
theorem keep (h : join.Conserves μ) (kept : List α) (x : α) :
    Agree (keep join kept x) (fun kept' => measured μ kept'.reverse)
      fun _ => measured μ kept.reverse * μ x := by
  cases kept with
  | nil => exact agree_pure (by simp)
  | cons last below =>
    have hmap : Agree ((fun j => j.toList.reverse ++ below) <$> join last x)
        (fun kept' => measured μ kept'.reverse)
        fun _ => measured μ below.reverse * (μ last * μ x) := by
      apply Agree.map
      have hbelow := (h last x).bind_congr
        fun j c => (pure (j, measured μ below.reverse * c) : m _)
      simpa [Agree] using hbelow
    simpa [TreeDiff.keep, mul_assoc] using hmap

/-- At every moment the kept values and those still to come have the measure of the whole list. -/
theorem foldlM_keep (h : join.Conserves μ) (kept xs : List α) :
    Agree (xs.foldlM (TreeDiff.keep join) kept) (fun kept' => measured μ kept'.reverse)
      fun _ => measured μ kept.reverse * measured μ xs := by
  induction xs generalizing kept with
  | nil => exact agree_pure (by simp)
  | cons x xs ih =>
    have hnext := (h.keep kept x).bind_congr fun kept' c =>
      (fun kept'' => (kept'', c * measured μ xs)) <$> xs.foldlM (TreeDiff.keep join) kept'
    simp only [Agree] at ih ⊢
    simp only [List.foldlM_cons, map_bind, ih, hnext, measured_cons, mul_assoc]

theorem compact (h : join.Conserves μ) (xs : List α) :
    Agree (compact join xs) (measured μ) fun _ => measured μ xs := by
  have hreverse : Agree (List.reverse <$> xs.foldlM (TreeDiff.keep join) []) (measured μ)
      fun _ => measured μ xs := by
    apply Agree.map
    simpa using h.foldlM_keep [] xs
  simpa [TreeDiff.compact] using hreverse

end Join.Conserves

/-! ## Words and balances -/

/-- Two chains have the words of the first one and then those of the second. -/
theorem conserves_chainJoin (c d : List String) :
    measured FreeMonoid.ofList (chainJoin c d).run.toList =
      FreeMonoid.ofList c * FreeMonoid.ofList d := by
  unfold chainJoin
  split
  · split <;> simp [Joined.toList]
  · simp [Joined.toList]

theorem conserves_balanceJoin (x y : Int) :
    measured Multiplicative.ofAdd (balanceJoin x y).run.toList =
      Multiplicative.ofAdd x * Multiplicative.ofAdd y := by
  unfold balanceJoin
  by_cases hzero : x + y = 0
  · simp [Joined.toList, ← ofAdd_add, hzero]
  · rw [if_neg hzero]
    split <;> simp [Joined.toList]

/-- **Compacting conserves measures.** If no join of two values changes the product of their
measures, compacting a list does not either, in any wrappers and with any effects. So a list of
chains keeps its words, each one once and in order, and a list of changes keeps its sum. -/
theorem compact_conserves :
    (∀ {m : Type → Type} [Monad m] [LawfulMonad m] {α M : Type} [Monoid M] {join : Join m α}
      {μ : α → M}, join.Conserves μ → ∀ (ws : List Wrapper) (xs : List (Wrapped α ws)),
        Agree (compact (join.lift ws) xs) (measured (Wrapped.measure μ ws))
          fun _ => measured (Wrapped.measure μ ws) xs) ∧
    (∀ {α M : Type} [Monoid M] {join : Join Id α} {μ : α → M},
      (∀ x y, measured μ (join x y).run.toList = μ x * μ y) →
        ∀ (ws : List Wrapper) (xs : List (Wrapped α ws)),
          measured (Wrapped.measure μ ws) (compact (join.lift ws) xs).run =
            measured (Wrapped.measure μ ws) xs) ∧
    (∀ cs : List (List String), (compact chainJoin cs).run.flatten = cs.flatten) ∧
    ∀ xs : List Int, (compact balanceJoin xs).run.sum = xs.sum := by
  have hpure : ∀ {α M : Type} [Monoid M] {join : Join Id α} {μ : α → M},
      (∀ x y, measured μ (join x y).run.toList = μ x * μ y) → join.Conserves μ :=
    fun h x y => agree_id_iff.2 (h x y)
  refine ⟨fun h ws xs => (h.lift ws).compact xs,
    fun h ws xs => agree_id_iff.1 (((hpure h).lift ws).compact xs), fun cs => ?_, fun xs => ?_⟩
  · have hwords := agree_id_iff.1 ((hpure conserves_chainJoin).compact cs)
    simpa [measured, ← FreeMonoid.ofList_flatten] using hwords
  · have hsum := agree_id_iff.1 ((hpure conserves_balanceJoin).compact xs)
    simpa [measured, ← ofAdd_list_prod] using hsum

/-- Chains that may be absent. -/
theorem compact_conserves_words :
    (∀ c d, measured FreeMonoid.ofList (chainJoin c d).run.toList =
      FreeMonoid.ofList c * FreeMonoid.ofList d) ∧
    measured (Wrapped.measure FreeMonoid.ofList [.option])
        (compact (chainJoin.lift [.option]) [some ["ab"], some ["bc", "c"], none, some ["x"]]).run =
      measured (Wrapped.measure FreeMonoid.ofList [.option])
        [some ["ab"], some ["bc", "c"], none, some ["x"]] ∧
    (compact (chainJoin.lift [.option]) [some ["ab"], some ["bc", "c"], none, some ["x"]]).run =
      [some ["ab", "bc", "c"], none, some ["x"]] :=
  ⟨conserves_chainJoin, compact_conserves.2.1 conserves_chainJoin [.option] _, rfl⟩

end TreeDiff
