import TreeDiff.Proofs.Grid.Rows

/-!
# What a search keeps at every position

The search visits the positions of the edit graph row by row. What is true of the script of every
position is shown from the positions it may move to, once and for all: a `GridRule` gathers the
steps, and `GridRule.search` is the conclusion for the whole search. The rule speaks of two
searches at once, in two monads and related by a simulation; for a single search the simulation
forgets the second one. They may have different ceilings. A property of the state may change from
position to position.

* `search_map`, `search_map_right`: elements may be replaced in the sequences or in the policy.
* `Tracking.priced`: the prices of a list of elements. `Tracking.search`: searches are related, if
  prices and rows are.
* `GridRule`: the property `K` of prices, `I` of scripts and `J` of the state after each position,
  with one hypothesis for every kind of step. The hypothesis for a position knows how many positions
  have a script.
* `GridRule.rowRule`: it is a rule for the rows, as soon as the elements have their prices.
* `GridRule.search`: the scripts of the two searches are the same and have the property.
* `SearchRule`: the rule without a property of the state, and with the question before a position
  apart from the position; `SearchRule.search` is its conclusion.
-/

namespace TreeDiff

variable {m m₁ m₂ : Type → Type} {α β δ ε κ τ τ₁ τ₂ : Type}

/-! ## Equations of the search -/

section

variable [Monad m] [LawfulMonad m] [MonadLiftT (Except Fault) m] (P : Policy m α β δ)

/-- The element replaced by another one, with its edit and its price kept. -/
def Priced.map {α' : Type} (f : α' → α) (p : Priced α' δ) : Priced α δ :=
  ⟨f p.item, p.edit, p.price⟩

omit [MonadLiftT (Except Fault) m] in
theorem Policy.deletions_map {α' : Type} (f : α' → α) (xs : List α') :
    P.deletions (xs.map f) = List.map (Priced.map f) <$> (P.onFirst f).deletions xs := by
  unfold deletions
  induction xs with
  | nil => simp
  | cons x xs ih =>
    simp only [List.map_cons, List.mapM_cons, ih]
    simp [onFirst, Priced.map]

/-- The elements of the first sequence may be replaced in the sequence or in the policy. -/
theorem search_map {α' : Type} (tie : TieBreak) (interrupt : Interrupt m τ) (f : α' → α)
    (xs : List α') (ys : List β) :
    search P tie interrupt (xs.map f) ys = search (P.onFirst f) tie interrupt xs ys := by
  have hrow : ∀ total qs (p : Priced α' δ) (below : Row δ),
      P.nextRow tie interrupt total qs (p.map f) below =
        (P.onFirst f).nextRow tie interrupt total qs p below := fun _ _ _ _ => rfl
  unfold search
  rw [P.deletions_map, map_eq_pure_bind, liftM_bind, bind_assoc]
  refine bind_congr fun ps => ?_
  rw [liftM_pure, pure_bind, List.length_map]
  simp only [List.foldrM_map, hrow]
  rfl

omit [MonadLiftT (Except Fault) m] in
theorem Policy.insertions_map {β' : Type} (f : β' → β) (ys : List β') :
    P.insertions (ys.map f) = List.map (Priced.map f) <$> (P.onSecond f).insertions ys := by
  unfold insertions
  induction ys with
  | nil => simp
  | cons y ys ih =>
    simp only [List.map_cons, List.mapM_cons, ih]
    simp [onSecond, Priced.map]

/-- The elements of the second sequence may be replaced in the sequence or in the policy. -/
theorem search_map_right {β' : Type} (tie : TieBreak) (interrupt : Interrupt m τ) (f : β' → β)
    (xs : List α) (ys : List β') :
    search P tie interrupt xs (ys.map f) = search (P.onSecond f) tie interrupt xs ys := by
  have hborder : ∀ qs : List (Priced β' δ),
      P.border (qs.map (Priced.map f)) = (P.onSecond f).border qs := by
    intro qs
    unfold Policy.border
    rw [List.foldrM_map]
    rfl
  have hrow : ∀ total (qs : List (Priced β' δ)),
      P.nextRow tie interrupt total (qs.map (Priced.map f)) =
        (P.onSecond f).nextRow tie interrupt total qs := by
    intro total qs
    funext x below
    unfold Policy.nextRow
    refine bind_congr fun corner => ?_
    rw [List.zip_map_left, List.foldrM_map]
    rfl
  unfold search
  refine bind_congr fun ps => ?_
  rw [P.insertions_map, map_eq_pure_bind, liftM_bind, bind_assoc]
  refine bind_congr fun qs => ?_
  simp only [liftM_pure, pure_bind, List.length_map, hborder, hrow]

end

/-! ## The rule -/

/-- An element with the edit that `edit` gives it and a price with the property `K`. -/
def Priced.Of (edit : ε → δ) (K : δ → Nat → Prop) (q : Priced ε δ) : Prop :=
  ∃ e c, K (edit e) c ∧ q = ⟨e, edit e, c⟩

/-- Pricing the elements of a list, front to back, gives these elements with their prices. The state
may change from element to element; its property speaks of the elements that are left. -/
theorem Tracking.priced [Monad m₁] [LawfulMonad m₁] [Monad m₂] [LawfulMonad m₂]
    (T : Tracking κ m₁ m₂) {cost : δ → m₁ Nat} {cost' : δ → m₂ Nat} {edit : ε → δ}
    {K : δ → Nat → Prop} {A : List ε → κ → Prop} (l : List ε)
    (h : ∀ e l', e :: l' <:+ l →
      T.Rel (A (e :: l')) (K (edit e)) (A l') (cost (edit e)) (cost' (edit e))) :
    T.Rel (A l) (fun ps => ps.map Priced.item = l ∧ ∀ p ∈ ps, p.Of edit K) (A [])
      (l.mapM fun e => return ⟨e, edit e, ← cost (edit e)⟩)
      (l.mapM fun e => return ⟨e, edit e, ← cost' (edit e)⟩) := by
  induction l with
  | nil => exact T.pure ⟨rfl, nofun⟩ fun _ hk => hk
  | cons e l ih =>
    rw [List.mapM_cons, List.mapM_cons, bind_assoc, bind_assoc]
    refine T.bind (h e l List.suffix_rfl) fun c hc => ?_
    rw [pure_bind, pure_bind]
    have hl := ih fun e' l' hl' => h e' l' (hl'.trans (List.suffix_cons e l))
    refine T.bind hl fun ps hps => ?_
    obtain ⟨hitems, hof⟩ := hps
    refine T.pure ⟨by rw [List.map_cons, hitems], fun p hp => ?_⟩ fun _ hk => hk
    rcases List.mem_cons.1 hp with rfl | hp
    · exact ⟨e, c, hc, rfl⟩
    · exact hof p hp

variable [Monad m₁] [LawfulMonad m₁] [MonadLiftT (Except Fault) m₁]
  [LawfulMonadLiftT (Except Fault) m₁] [Monad m₂] [LawfulMonad m₂] [MonadLiftT (Except Fault) m₂]
  [LawfulMonadLiftT (Except Fault) m₂]

omit [LawfulMonadLiftT (Except Fault) m₁] [LawfulMonadLiftT (Except Fault) m₂] in
/-- Two searches are related, if the prices of their elements are and the rows for all elements with
such prices. The state has the property `A` of the elements that have no price yet, and `C` in the
end. -/
theorem Tracking.search {T : Tracking κ (ExceptT τ₁ m₁) (ExceptT τ₂ m₂)} {P : Policy m₁ α β δ}
    {P' : Policy m₂ α β δ} {tie : TieBreak} {interrupt : Interrupt m₁ τ₁}
    {interrupt' : Interrupt m₂ τ₂} {xs : List α} {ys : List β} {K : δ → Nat → Prop}
    {A : List α → List β → κ → Prop} {C : κ → Prop} {R : Script δ → Prop}
    (hdelete : P'.delete = P.delete) (hinsert : P'.insert = P.insert)
    (hloss : ∀ x xs', x :: xs' <:+ xs → (T.comap m₁ m₂).Rel (A (x :: xs') ys) (K (P.delete x))
      (A xs' ys) (P.cost (P.delete x)) (P'.cost (P.delete x)))
    (hgain : ∀ y ys', y :: ys' <:+ ys → (T.comap m₁ m₂).Rel (A [] (y :: ys')) (K (P.insert y))
      (A [] ys') (P.cost (P.insert y)) (P'.cost (P.insert y)))
    (hrows : ∀ ps qs, ps.map Priced.item = xs → (∀ p ∈ ps, p.Of P.delete K) →
      qs.map Priced.item = ys → (∀ q ∈ qs, q.Of P.insert K) →
      T.Rel (A [] []) (fun row => R row.first) C
        (P.topRow tie interrupt ((ps.length + 1) * (qs.length + 1)) ps qs)
        (P'.topRow tie interrupt' ((ps.length + 1) * (qs.length + 1)) ps qs)) :
    T.Rel (A xs ys) R C (search P tie interrupt xs ys) (search P' tie interrupt' xs ys) := by
  have hdeletions : (T.comap m₁ m₂).Rel (A xs ys)
      (fun ps => ps.map Priced.item = xs ∧ ∀ p ∈ ps, p.Of P.delete K) (A [] ys) (P.deletions xs)
      (P'.deletions xs) := by
    unfold Policy.deletions
    rw [hdelete]
    exact (T.comap m₁ m₂).priced (A := fun xs' => A xs' ys) xs hloss
  have hinsertions : (T.comap m₁ m₂).Rel (A [] ys)
      (fun qs => qs.map Priced.item = ys ∧ ∀ q ∈ qs, q.Of P.insert K) (A [] []) (P.insertions ys)
      (P'.insertions ys) := by
    unfold Policy.insertions
    rw [hinsert]
    exact (T.comap m₁ m₂).priced (A := A []) ys hgain
  rw [search_eq, search_eq]
  refine T.bind hdeletions fun ps ⟨hxs, hps⟩ => ?_
  refine T.bind hinsertions fun qs ⟨hys, hqs⟩ => ?_
  have htotal : (xs.length + 1) * (ys.length + 1) = (ps.length + 1) * (qs.length + 1) := by
    rw [← hxs, ← hys, List.length_map, List.length_map]
  rw [htotal]
  exact T.bind (hrows ps qs hxs hps hys hqs) fun row hrow => T.pure hrow fun _ hk => hk

/-- The steps of two searches on `xs` and `ys` are related, and keep the property `K` of prices and
the property `I` of the scripts of positions. The state has the property `J` of the position that
has been visited last; before the first position this is `J [] ys`. -/
structure GridRule (T : Tracking κ (ExceptT τ₁ m₁) (ExceptT τ₂ m₂)) (P : Policy m₁ α β δ)
    (P' : Policy m₂ α β δ) (tie : TieBreak) (interrupt : Interrupt m₁ τ₁)
    (interrupt' : Interrupt m₂ τ₂) (xs : List α) (ys : List β) (K : δ → Nat → Prop)
    (I : List α → List β → Script δ → Prop) (J : List α → List β → κ → Prop) : Prop where
  delete_eq : P'.delete = P.delete
  insert_eq : P'.insert = P.insert
  /-- The price of a deletion. -/
  loss : ∀ x ∈ xs, (T.comap m₁ m₂).Rel (J [] ys) (K (P.delete x)) (J [] ys)
    (P.cost (P.delete x)) (P'.cost (P.delete x))
  /-- The price of an insertion. -/
  gain : ∀ y ∈ ys, (T.comap m₁ m₂).Rel (J [] ys) (K (P.insert y)) (J [] ys)
    (P.cost (P.insert y)) (P'.cost (P.insert y))
  /-- The position at which both sequences are used up. -/
  done : I [] [] .empty
  /-- A position at which the second sequence is used up. -/
  delete : ∀ {x xs' c s}, x :: xs' <:+ xs → K (P.delete x) c → I xs' [] s →
    (T.comap (Except Fault) (Except Fault)).Rel (J xs' ys) (I (x :: xs') []) (J (x :: xs') [])
      (s.prepend P.ceiling (P.delete x) c) (s.prepend P'.ceiling (P.delete x) c)
  /-- A position at which the first sequence is used up. -/
  insert : ∀ {y ys' c s}, y :: ys' <:+ ys → K (P.insert y) c → I [] ys' s →
    (T.comap (Except Fault) (Except Fault)).Rel (J [] ys) (I [] (y :: ys')) (J [] ys)
      (s.prepend P.ceiling (P.insert y) c) (s.prepend P'.ceiling (P.insert y) c)
  /-- A position with two heads, with the question before it. -/
  position : ∀ {x xs' y ys' c c' lost gained both}, x :: xs' <:+ xs → y :: ys' <:+ ys →
    K (P.delete x) c → K (P.insert y) c' → I xs' (y :: ys') lost → I (x :: xs') ys' gained →
    I xs' ys' both → ∀ solved total,
    solved = (xs'.length + 1) * (ys.length + 1) + (ys'.length + 1) →
    total = (xs.length + 1) * (ys.length + 1) →
    T.Rel (J (x :: xs') ys') (I (x :: xs') (y :: ys')) (J (x :: xs') (y :: ys'))
      (do
        interrupt.check solved total
        P.cell tie ⟨x, P.delete x, c⟩ ⟨y, P.insert y, c'⟩ lost gained both)
      (do
        interrupt'.check solved total
        P'.cell tie ⟨x, P.delete x, c⟩ ⟨y, P.insert y, c'⟩ lost gained both)

namespace GridRule

variable {T : Tracking κ (ExceptT τ₁ m₁) (ExceptT τ₂ m₂)} {P : Policy m₁ α β δ}
  {P' : Policy m₂ α β δ} {tie : TieBreak} {interrupt : Interrupt m₁ τ₁}
  {interrupt' : Interrupt m₂ τ₂} {xs : List α} {ys : List β} {K : δ → Nat → Prop}
  {I : List α → List β → Script δ → Prop} {J : List α → List β → κ → Prop}
  (h : GridRule T P P' tie interrupt interrupt' xs ys K I J)
include h

/-- The rule for the elements with their prices. There is nothing to say of neighbours. -/
theorem rowRule {ps : List (Priced α δ)} {qs : List (Priced β δ)} (hxs : ps.map Priced.item = xs)
    (hps : ∀ p ∈ ps, p.Of P.delete K) (hys : qs.map Priced.item = ys)
    (hqs : ∀ q ∈ qs, q.Of P.insert K) :
    RowRule T P P' tie interrupt interrupt' ps qs
      { here := fun ps' qs' => I (ps'.map Priced.item) (qs'.map Priced.item) }
      (fun ps' qs' => J (ps'.map Priced.item) (qs'.map Priced.item)) where
  done := h.done
  delete := by
    intro p ps' s hp hs
    obtain ⟨x, c, hc, rfl⟩ := hps p (hp.subset List.mem_cons_self)
    have hx : x :: ps'.map Priced.item <:+ xs := hxs ▸ hp.map Priced.item
    rw [hys]
    exact Tracking.mono _ (h.delete hx hc hs) fun t ht => ⟨ht, trivial⟩
  insert := by
    intro q qs' s hq hs
    obtain ⟨y, c, hc, rfl⟩ := hqs q (hq.subset List.mem_cons_self)
    have hy : y :: qs'.map Priced.item <:+ ys := hys ▸ hq.map Priced.item
    rw [hys]
    exact Tracking.mono _ (h.insert hy hc hs) fun t ht => ⟨ht, trivial⟩
  position := by
    intro p ps' q qs' lost gained both hp hq hsquare solved total hsolved htotal
    obtain ⟨x, c, hc, rfl⟩ := hps p (hp.subset List.mem_cons_self)
    obtain ⟨y, c', hc', rfl⟩ := hqs q (hq.subset List.mem_cons_self)
    have hx : x :: ps'.map Priced.item <:+ xs := hxs ▸ hp.map Priced.item
    have hy : y :: qs'.map Priced.item <:+ ys := hys ▸ hq.map Priced.item
    have hposition := h.position hx hy hc hc' hsquare.here_lost hsquare.here_gained
      hsquare.here_both solved total
      (by rw [hsolved, ← hys, List.length_map, List.length_map, List.length_map])
      (by rw [htotal, ← hxs, ← hys, List.length_map, List.length_map])
    exact T.mono hposition fun s hs => ⟨hs, trivial, trivial⟩

/-- **The scripts of the two searches are the same and have the property.** -/
theorem search :
    T.Rel (J [] ys) (I xs ys) (J xs ys) (search P tie interrupt xs ys)
      (search P' tie interrupt' xs ys) := by
  refine Tracking.search (A := fun _ _ => J [] ys) h.delete_eq h.insert_eq
    (fun x _ hx => h.loss x (hx.subset List.mem_cons_self))
    (fun y _ hy => h.gain y (hy.subset List.mem_cons_self)) fun ps qs hxs hps hys hqs => ?_
  have hrow := (h.rowRule hxs hps hys hqs).topRow
  rw [hxs, hys] at hrow
  refine T.mono hrow fun row hrow => ?_
  have hfirst : I (ps.map Priced.item) (qs.map Priced.item) row.first := hrow.first
  rwa [hxs, hys] at hfirst

end GridRule

/-! ## The rule without a property of the state -/

/-- The steps of two searches on `xs` and `ys` are related, and keep the property `K` of prices and
the property `I` of the scripts of positions. -/
structure SearchRule (S : Simulation (ExceptT τ₁ m₁) (ExceptT τ₂ m₂)) (P : Policy m₁ α β δ)
    (P' : Policy m₂ α β δ) (tie : TieBreak) (interrupt : Interrupt m₁ τ₁)
    (interrupt' : Interrupt m₂ τ₂) (xs : List α) (ys : List β) (K : δ → Nat → Prop)
    (I : List α → List β → Script δ → Prop) : Prop where
  delete_eq : P'.delete = P.delete
  insert_eq : P'.insert = P.insert
  /-- The question before a position. -/
  check : ∀ solved total,
    S.Rel (fun _ => True) (interrupt.check solved total) (interrupt'.check solved total)
  /-- The price of a deletion. -/
  loss : ∀ x ∈ xs, (S.comap m₁ m₂).Rel (K (P.delete x)) (P.cost (P.delete x)) (P'.cost (P.delete x))
  /-- The price of an insertion. -/
  gain : ∀ y ∈ ys, (S.comap m₁ m₂).Rel (K (P.insert y)) (P.cost (P.insert y)) (P'.cost (P.insert y))
  /-- The position at which both sequences are used up. -/
  done : I [] [] .empty
  /-- A position at which the second sequence is used up. -/
  delete : ∀ {x xs' c s}, x :: xs' <:+ xs → K (P.delete x) c → I xs' [] s →
    (S.comap (Except Fault) (Except Fault)).Rel (I (x :: xs') [])
      (s.prepend P.ceiling (P.delete x) c) (s.prepend P'.ceiling (P.delete x) c)
  /-- A position at which the first sequence is used up. -/
  insert : ∀ {y ys' c s}, y :: ys' <:+ ys → K (P.insert y) c → I [] ys' s →
    (S.comap (Except Fault) (Except Fault)).Rel (I [] (y :: ys'))
      (s.prepend P.ceiling (P.insert y) c) (s.prepend P'.ceiling (P.insert y) c)
  /-- A position with two heads. -/
  cell : ∀ {x xs' y ys' c c' lost gained both}, x :: xs' <:+ xs → y :: ys' <:+ ys →
    K (P.delete x) c → K (P.insert y) c' → I xs' (y :: ys') lost → I (x :: xs') ys' gained →
    I xs' ys' both → (S.comap m₁ m₂).Rel (I (x :: xs') (y :: ys'))
      (P.cell tie ⟨x, P.delete x, c⟩ ⟨y, P.insert y, c'⟩ lost gained both)
      (P'.cell tie ⟨x, P.delete x, c⟩ ⟨y, P.insert y, c'⟩ lost gained both)

namespace SearchRule

variable {S : Simulation (ExceptT τ₁ m₁) (ExceptT τ₂ m₂)} {P : Policy m₁ α β δ}
  {P' : Policy m₂ α β δ} {tie : TieBreak} {interrupt : Interrupt m₁ τ₁}
  {interrupt' : Interrupt m₂ τ₂} {xs : List α} {ys : List β} {K : δ → Nat → Prop}
  {I : List α → List β → Script δ → Prop}
  (h : SearchRule S P P' tie interrupt interrupt' xs ys K I)
include h

theorem gridRule :
    GridRule (S.tracking Unit) P P' tie interrupt interrupt' xs ys K I (fun _ _ _ => True) :=
  { h with
    position := fun hx hy hc hc' hlost hgained hboth solved total _ _ =>
      S.bind (h.check solved total) fun _ _ => h.cell hx hy hc hc' hlost hgained hboth }

/-- **The scripts of the two searches are the same and have the property.** -/
theorem search : S.Rel (I xs ys) (search P tie interrupt xs ys) (search P' tie interrupt' xs ys) :=
  h.gridRule.search

end SearchRule

end TreeDiff
