import Mathlib.Data.List.ReduceOption
import TreeDiff.Join.Rules

/-!
# Lists of wrapped values

A list of values that may be absent is compacted run by run: the absent values stay where they are,
and the values between them are compacted as if they were lists of their own. A list of boxed values
is compacted as if the values were not boxed. Both are equations between computations, so they also
say which pairs the join of the values inside is asked about, and in which order.

* `runs`, `ofRuns`: a list cut at its absent values, and put together again.
* `keep_option_some`: the last run kept is a list of kept values of its own, on top of an absent
  value. The run may be empty, as all of its values may have cancelled out.
* `foldlM_keep_ofRuns`: all runs one after the other.
* `compact_option`, `compact_boxed`: lists of values in one wrapper.
* `Asks`, `Join.calls`: computations that do no more than add to a log, and the pairs that a
  join is asked about.
* `Join.asks_compact`: a log changes nothing else.
* `compact_lift`: lists of values in any wrappers.
-/

namespace TreeDiff

variable {α : Type}

/-! ## Runs -/

/-- The values between the absent ones. -/
def runs (xs : List (Option α)) : List (List α) := (xs.splitOnP Option.isNone).map List.reduceOption

/-- The runs with an absent value between any two of them. -/
def ofRuns (rs : List (List α)) : List (Option α) := [none].intercalate (rs.map (List.map some))

theorem runs_none (xs : List (Option α)) : runs (none :: xs) = [] :: runs xs := by
  rw [runs, List.splitOnP_cons_eq_if_modifyHead]
  rfl

theorem runs_some (x : α) (xs : List (Option α)) :
    runs (some x :: xs) = (runs xs).modifyHead (x :: ·) := by
  obtain ⟨run, rest, hsplit⟩ := List.exists_cons_of_ne_nil (List.splitOnP_ne_nil Option.isNone xs)
  rw [runs, runs, List.splitOnP_cons_eq_if_modifyHead, hsplit]
  exact congrArg (· :: _) (List.reduceOption_cons_of_some x run)

theorem ofRuns_cons_cons (run next : List α) (rest : List (List α)) :
    ofRuns (run :: next :: rest) = run.map some ++ none :: ofRuns (next :: rest) := by
  simp [ofRuns, List.intercalate_cons_cons]

theorem ofRuns_singleton (run : List α) : ofRuns [run] = run.map some := by
  simp [ofRuns]

/-- A list is put together from its runs. -/
theorem ofRuns_runs (xs : List (Option α)) : ofRuns (runs xs) = xs := by
  induction xs with
  | nil => rfl
  | cons x xs ih =>
    obtain ⟨run, rest, hruns⟩ : ∃ run rest, runs xs = run :: rest :=
      List.exists_cons_of_ne_nil fun h => List.splitOnP_ne_nil _ xs (List.map_eq_nil_iff.1 h)
    rw [hruns] at ih
    cases x with
    | none =>
      rw [runs_none, hruns, ofRuns_cons_cons, ih]
      rfl
    | some x =>
      rw [runs_some, hruns, List.modifyHead_cons]
      cases rest with
      | nil => rw [ofRuns_singleton, List.map_cons, ← ofRuns_singleton, ih]
      | cons next rest =>
        rw [ofRuns_cons_cons, List.map_cons, List.cons_append, ← ofRuns_cons_cons, ih]

/-! ## Folds -/

section

variable {m : Type → Type} [Monad m] [LawfulMonad m] (join : Join m α)

/-- A fold over changed values is a fold over the values themselves, if every step is one on changed
states. -/
theorem foldlM_map_of_step {β σ τ : Type} {f : α → β} {view : σ → τ} {step : σ → α → m σ}
    {step' : τ → β → m τ} (hstep : ∀ s x, step' (view s) (f x) = view <$> step s x) (xs : List α)
    (s : σ) : (xs.map f).foldlM step' (view s) = view <$> xs.foldlM step s := by
  induction xs generalizing s with
  | nil => simp
  | cons x xs ih =>
    rw [List.map_cons, List.foldlM_cons, hstep, bind_map_left, List.foldlM_cons, map_bind]
    simp only [ih]

/-! ## Values that may be absent -/

/-- An absent value is kept as it is, whatever has been kept before. -/
theorem keep_option_none (stack : List (Option α)) :
    keep join.option stack none = pure (none :: stack) := by
  cases stack with
  | nil => rfl
  | cons last below => cases last <;> simp [keep, Join.option, Joined.toList]

/-- The values kept of a run are a list of kept values of their own, as long as there is nothing or
an absent value below them. -/
theorem keep_option_some {below : List (Option α)} (hbelow : ∀ y ∈ below.head?, y = none)
    (kept : List α) (x : α) :
    keep join.option (kept.map some ++ below) (some x) =
      (fun kept' => kept'.map some ++ below) <$> keep join kept x := by
  cases kept with
  | cons last kept => simp [keep, Join.option]
  | nil =>
    cases below with
    | nil => simp [keep]
    | cons y below =>
      obtain rfl := hbelow y rfl
      simp [keep, Join.option, Joined.toList]

/-- A run is compacted on top of what is below it. -/
theorem foldlM_keep_run {below : List (Option α)} (hbelow : ∀ y ∈ below.head?, y = none)
    (run : List α) :
    (run.map some).foldlM (keep join.option) below =
      (fun run' => (run'.map some).reverse ++ below) <$> compact join run := by
  simpa [compact] using foldlM_map_of_step (keep_option_some join hbelow) run []

/-- The runs are compacted one after the other, each on top of the absent value before it. -/
theorem foldlM_keep_ofRuns {below : List (Option α)} (hbelow : ∀ y ∈ below.head?, y = none)
    (rs : List (List α)) :
    (ofRuns rs).foldlM (keep join.option) below =
      (fun rs' => (ofRuns rs').reverse ++ below) <$> rs.mapM (compact join) := by
  induction rs generalizing below with
  | nil => simp [ofRuns]
  | cons run rest ih =>
    cases rest with
    | nil => simp [ofRuns_singleton, foldlM_keep_run join hbelow]
    | cons next rest =>
      -- the absent value after the run closes it: later runs do not reach below that value
      have hnext : ∀ run' : List α, (none :: ofRuns (next :: rest)).foldlM (keep join.option)
          ((run'.map some).reverse ++ below) = (fun rs' => (ofRuns rs').reverse ++
            none :: ((run'.map some).reverse ++ below)) <$> (next :: rest).mapM (compact join) := by
        intro run'
        rw [List.foldlM_cons, keep_option_none, pure_bind]
        exact ih fun y hy => (Option.mem_some.1 hy).symm
      rw [ofRuns_cons_cons, List.foldlM_append, foldlM_keep_run join hbelow, bind_map_left]
      simp [hnext, List.mapM_cons, ofRuns_cons_cons]

/-- A list of values that may be absent is compacted run by run. -/
theorem compact_option (xs : List (Option α)) :
    compact join.option xs = ofRuns <$> (runs xs).mapM (compact join) := by
  have hbelow : ∀ y ∈ ([] : List (Option α)).head?, y = none := nofun
  have hruns := foldlM_keep_ofRuns join hbelow (runs xs)
  rw [ofRuns_runs] at hruns
  simp [compact, hruns]

/-! ## Boxed values -/

theorem keep_boxed (kept : List α) (x : α) :
    keep join.boxed (kept.map .mk) ⟨x⟩ = List.map .mk <$> keep join kept x := by
  cases kept with
  | nil => simp [keep]
  | cons last below => simp [keep, Join.boxed]

/-- A list of boxed values is compacted as the values themselves. -/
theorem compact_boxed (xs : List α) :
    compact join.boxed (xs.map .mk) = List.map .mk <$> compact join xs := by
  have hfold := foldlM_map_of_step (keep_boxed join) xs []
  rw [List.map_nil] at hfold
  simp [compact, hfold]

end

/-! ## Calls -/

section

variable {β γ : Type} {p : StateT (Array γ) Id β} {x y : β} {calls calls' : List γ}

/-- The computation answers `x`, and adds `calls` to the log. -/
def Asks (p : StateT (Array γ) Id β) (x : β) (calls : List γ) : Prop :=
  ∀ log, (p.run log).run = (x, log ++ calls.toArray)

theorem asks_pure (x : β) : Asks (pure x) x ([] : List γ) := by
  intro log
  simp

theorem Asks.bind {β' : Type} {f : β → StateT (Array γ) Id β'} {x' : β'} (hp : Asks p x calls)
    (hf : Asks (f x) x' calls') : Asks (p >>= f) x' (calls ++ calls') := by
  intro log
  rw [StateT.run_bind, Id.run_bind, hp log, hf]
  simp

theorem Asks.map {β' : Type} (f : β → β') (hp : Asks p x calls) : Asks (f <$> p) (f x) calls := by
  intro log
  rw [StateT.run_map, Id.run_map, hp log]

theorem Asks.mapM {δ : Type} {f : δ → StateT (Array γ) Id β} {g : δ → β} {calls : δ → List γ}
    (hf : ∀ a, Asks (f a) (g a) (calls a)) (as : List δ) :
    Asks (as.mapM f) (as.map g) (as.flatMap calls) := by
  induction as with
  | nil => exact asks_pure []
  | cons a as ih =>
    rw [List.mapM_cons, List.flatMap_cons]
    simpa using (hf a).bind (ih.map (g a :: ·))

/-- The log tells what a computation answers and what it adds. -/
theorem Asks.unique (hx : Asks p x calls) (hy : Asks p y calls') : x = y ∧ calls = calls' := by
  have hlog := (hx #[]).symm.trans (hy #[])
  simpa using hlog

end

namespace Join

variable (join : Join Id α)

/-- The pairs that the join of the values inside is asked about when a list is compacted. -/
def calls (ws : List Wrapper) (xs : List (Wrapped α ws)) : List (α × α) :=
  ((compact (join.traced.lift ws) xs).run #[]).run.2.toList

/-- Two wrapped values are joined as without a log. -/
theorem exists_asks_lift (ws : List Wrapper) (x y : Wrapped α ws) :
    ∃ calls, Asks (join.traced.lift ws x y) (join.lift ws x y).run calls := by
  induction ws with
  | nil =>
    refine ⟨[(x, y)], fun log => Prod.ext rfl ?_⟩
    exact Array.push_eq_append
  | cons w ws ih =>
    cases w with
    | boxed =>
      obtain ⟨calls, h⟩ := ih x.value y.value
      exact ⟨calls, h.map (Joined.map Boxed.mk)⟩
    | option =>
      match x, y with
      | some x, some y =>
        obtain ⟨calls, h⟩ := ih x y
        exact ⟨calls, h.map (Joined.map some)⟩
      | none, y => exact ⟨[], asks_pure _⟩
      | some x, none => exact ⟨[], asks_pure _⟩

theorem exists_asks_keep (ws : List Wrapper) (kept : List (Wrapped α ws)) (x : Wrapped α ws) :
    ∃ calls, Asks (keep (join.traced.lift ws) kept x) (keep (join.lift ws) kept x).run calls := by
  cases kept with
  | nil => exact ⟨[], asks_pure [x]⟩
  | cons last below =>
    obtain ⟨calls, h⟩ := join.exists_asks_lift ws last x
    refine ⟨calls, ?_⟩
    simpa [keep] using h.map (·.toList.reverse ++ below)

theorem exists_asks_foldlM (ws : List Wrapper) (kept xs : List (Wrapped α ws)) :
    ∃ calls, Asks (xs.foldlM (keep (join.traced.lift ws)) kept)
      (xs.foldlM (keep (join.lift ws)) kept).run calls := by
  induction xs generalizing kept with
  | nil => exact ⟨[], asks_pure kept⟩
  | cons x xs ih =>
    obtain ⟨calls, h⟩ := join.exists_asks_keep ws kept x
    obtain ⟨calls', h'⟩ := ih (keep (join.lift ws) kept x).run
    exact ⟨calls ++ calls', h.bind h'⟩

/-- A list is compacted as without a log. -/
theorem asks_compact (ws : List Wrapper) (xs : List (Wrapped α ws)) :
    Asks (compact (join.traced.lift ws) xs) (compact (join.lift ws) xs).run (join.calls ws xs) := by
  obtain ⟨calls, h⟩ := join.exists_asks_foldlM ws [] xs
  have hcompact : Asks (compact (join.traced.lift ws) xs) (compact (join.lift ws) xs).run calls := by
    simpa [compact] using h.map List.reverse
  have hcalls : join.calls ws xs = calls := by simp [Join.calls, hcompact #[]]
  rwa [hcalls]

end Join

/-- **Lists of wrapped values are compacted as the values inside.** In any wrappers, a list of values
that may be absent is cut at the absent values, the runs between them are compacted one after the
other, and put together again with the absent values between them. A list of boxed values is
compacted as the values themselves. The join of the values inside is asked about the same pairs in
the same order, and never about values of two runs. -/
theorem compact_lift (ws : List Wrapper) :
    (∀ {m : Type → Type} [Monad m] [LawfulMonad m] (join : Join m α),
      (∀ xs : List (Option (Wrapped α ws)), ofRuns (runs xs) = xs ∧
        compact (join.lift (.option :: ws)) xs =
          ofRuns <$> (runs xs).mapM (compact (join.lift ws))) ∧
      ∀ xs : List (Wrapped α ws),
        compact (join.lift (.boxed :: ws)) (xs.map Boxed.mk) =
          List.map Boxed.mk <$> compact (join.lift ws) xs) ∧
    ∀ join : Join Id α,
      (∀ xs : List (Option (Wrapped α ws)),
        (compact (join.lift (.option :: ws)) xs).run =
          ofRuns ((runs xs).map fun run => (compact (join.lift ws) run).run) ∧
        join.calls (.option :: ws) xs = (runs xs).flatMap (join.calls ws)) ∧
      ∀ xs : List (Wrapped α ws),
        (compact (join.lift (.boxed :: ws)) (xs.map Boxed.mk)).run =
          (compact (join.lift ws) xs).run.map Boxed.mk ∧
        join.calls (.boxed :: ws) (xs.map Boxed.mk) = join.calls ws xs := by
  refine ⟨fun join => ⟨fun xs => ⟨ofRuns_runs xs, compact_option (join.lift ws) xs⟩,
    compact_boxed (join.lift ws)⟩, fun join => ⟨fun xs => ?_, fun xs => ?_⟩⟩
  · have hruns := (Asks.mapM (join.asks_compact ws) (runs xs)).map ofRuns
    rw [← compact_option] at hruns
    exact (join.asks_compact (.option :: ws) xs).unique hruns
  · have hvalues := (join.asks_compact ws xs).map (List.map Boxed.mk)
    rw [← compact_boxed] at hvalues
    exact (join.asks_compact (.boxed :: ws) (xs.map Boxed.mk)).unique hvalues

/-- A run that cancels out, an absent value, and a run that becomes one value. -/
theorem compact_lift_balanceJoin :
    LawfulMonad (StateT (Array (Int × Int)) Id) ∧
    ((compact balanceJoin.traced.option [some 2, some (-2), none, some 1, some 1]).run #[]).run =
      ([none, some 2], #[(2, -2), (1, 1)]) := by
  have hlift := (((compact_lift []).1 balanceJoin.traced).1
    ([some 2, some (-2), none, some 1, some 1] : List (Option Int))).2
  exact ⟨inferInstance, (congrArg (fun p => (StateT.run p #[]).run) hlift).trans rfl⟩

end TreeDiff
