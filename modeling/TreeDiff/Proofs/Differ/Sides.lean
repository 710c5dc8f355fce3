import TreeDiff.LabelRule
import TreeDiff.Pricing
import TreeDiff.Proofs.Differ.Returned
import TreeDiff.Proofs.Tree.Alike

/-!
# The two sides of a diff

Whatever the prices are, and whichever labels count as the same, a diff that is returned has the
first tree as its old side. Its new side has the shape of the second tree, and the labels of the
second tree but where a node is matched: there it has the label of the first tree, which counts as
the same.

* `Differ.Accepts`: a label is the same as another one, or stands in one of the trees of the first
  list and counts as the same.
* `Differ.Joins`: a diff has two given trees as its sides, up to such labels.
  `Differ.JoinsAll`: the same of a list of diffs and two lists of trees.
* `Differ.Joins.of_follows`: a node over a script of its children joins the trees if the matches of
  the script do. So all matches join the two trees, `Differ.returning_joins`.
* `Differ.returned_joins`: so does every diff that a call returns, within a limit of time or
  without one.
-/

namespace TreeDiff.Differ

variable {σ ℓ τ : Type}

/-! ## Diffs that join trees -/

section

variable {m : Type → Type} (D : Differ m ℓ) {as as' bs : List (Tree ℓ)} {a b : Tree ℓ} {d : Diff ℓ}
  {ds : List (Diff ℓ)} {l k : ℓ}

/-- The label `l` is `k`, or it stands in one of the trees and counts as the same as `k`. -/
def Accepts (as : List (Tree ℓ)) (l k : ℓ) : Prop :=
  l = k ∨ (∃ a ∈ as, a.HasLabel l) ∧ D.sameLabel l k = true

/-- The old side of the diff is `a`, and its new side is `b` up to labels that count as the same. -/
structure Joins (a b : Tree ℓ) (d : Diff ℓ) : Prop where
  before : d.before? = some a
  after : ∃ b', d.after? = some b' ∧ b'.Alike (D.Accepts [a]) b

/-- The old sides of the diffs, those that there are, are `as`, and their new sides are `bs` up to
labels that count as the same. -/
structure JoinsAll (as bs : List (Tree ℓ)) (ds : List (Diff ℓ)) : Prop where
  before : ds.filterMap Diff.before? = as
  after : List.Forall₂ (Tree.Alike (D.Accepts as)) (ds.filterMap Diff.after?) bs

variable {D}

theorem Accepts.mono (h : D.Accepts as l k)
    (hsub : ∀ l, (∃ a ∈ as, a.HasLabel l) → ∃ a ∈ as', a.HasLabel l) : D.Accepts as' l k :=
  h.imp_right fun ⟨hl, hsame⟩ => ⟨hsub l hl, hsame⟩

theorem joins_replace (a b : Tree ℓ) : D.Joins a b (.edit (.replace a b)) where
  before := by rw [Diff.before?_edit, Edit.before?_replace]
  after := ⟨b, by rw [Diff.after?_edit, Edit.after?_replace], .refl (fun _ => .inl rfl) b⟩

/-- A node is joined to a tree by the diffs that join their children. -/
theorem JoinsAll.merge (h : D.JoinsAll as b.children ds) (hl : D.sameLabel l b.label = true) :
    D.Joins (.node l as) b (.merge l ds) where
  before := by rw [Diff.before?_merge, h.before]
  after := by
    refine ⟨_, Diff.after?_merge l ds, ?_⟩
    rw [← b.node_label_children]
    refine .node (.inr ⟨⟨_, List.mem_singleton_self _, .root⟩, hl⟩) ?_
    refine h.after.imp fun b' c hb' => hb'.mono fun l' k hlk => hlk.mono ?_
    rintro l' ⟨a, ha, hl'⟩
    exact ⟨_, List.mem_singleton_self _, .child ha hl'⟩

/-- The script of a path joins the trees if its matches do. -/
theorem JoinsAll.of_follows {s : Script (Diff ℓ)}
    (h : Follows D.Joins as bs s) : D.JoinsAll as bs s.edits := by
  obtain ⟨steps, hpath, hedits⟩ := h
  rw [← hedits]
  constructor
  · have hdelete : ∀ a : Tree ℓ, (Diff.edit (.delete a)).before? = some (id a) := fun a => by
      rw [Diff.before?_edit, Edit.before?_delete, id]
    have hinsert : ∀ b : Tree ℓ, (Diff.edit (.insert b)).before? = none := fun b => by
      rw [Diff.before?_edit, Edit.before?_insert]
    rw [hpath.filterMap_old hdelete hinsert fun a b d hd => hd.2.2.before, List.map_id]
  · refine hpath.forall₂_new (fun a => by rw [Diff.after?_edit, Edit.after?_delete]) ?_ ?_
    · intro b
      exact ⟨b, by rw [Diff.after?_edit, Edit.after?_insert], .refl (fun _ => .inl rfl) b⟩
    · rintro a b d ⟨ha, -, hd⟩
      obtain ⟨b', hb', halike⟩ := hd.after
      refine ⟨b', hb', halike.mono fun l k hlk => hlk.mono ?_⟩
      rintro l ⟨a', ha', hl⟩
      obtain rfl := List.mem_singleton.1 ha'
      exact ⟨a', ha, hl⟩

/-- A matched node joins two trees if the matches of its children do. -/
theorem Joins.of_follows {s : Script (Diff ℓ)} (hl : D.sameLabel l b.label = true)
    (h : Follows D.Joins as b.children s) : D.Joins (.node l as) b (.merge l s.edits) :=
  (JoinsAll.of_follows h).merge hl

/-! ### Labels that are the same only if they are equal -/

theorem Accepts.eq (hsame : ∀ l k, D.sameLabel l k = true → l = k) (h : D.Accepts as l k) :
    l = k :=
  h.elim id fun hl => hsame l k hl.2

theorem Joins.after_eq (h : D.Joins a b d) (hsame : ∀ l k, D.sameLabel l k = true → l = k) :
    d.after? = some b := by
  obtain ⟨b', hb', halike⟩ := h.after
  rw [hb', (halike.mono fun _ _ hlk => hlk.eq hsame).eq]

theorem JoinsAll.after_eq (h : D.JoinsAll as bs ds)
    (hsame : ∀ l k, D.sameLabel l k = true → l = k) : ds.filterMap Diff.after? = bs := by
  have hafter : List.Forall₂ Eq (ds.filterMap Diff.after?) bs :=
    h.after.imp fun b' b hb' => (hb'.mono fun _ _ hlk => hlk.eq hsame).eq
  rwa [List.forall₂_eq_eq_eq] at hafter

end

/-! ## Calls -/

section

variable (D : Differ (Attempt σ) ℓ) (interrupt : Interrupt (Attempt σ) τ)

/-- Every match joins the two trees. -/
theorem returning_joins (a b : Tree ℓ) :
    (returning τ σ).Rel (fun o => ∀ d, o = some d → D.Joins a b d) (D.match? interrupt a b)
      (D.match? interrupt a b) :=
  D.returning_match? interrupt Joins.of_follows a b

/-- Every search joins the two lists of trees. -/
theorem returning_joinsAll (as bs : List (Tree ℓ)) :
    ((returning τ σ).exceptT τ).Rel (fun s => D.JoinsAll as bs s.edits)
      (D.searchScript interrupt (D.candidates interrupt as) bs)
      (D.searchScript interrupt (D.candidates interrupt as) bs) :=
  Simulation.mono _ (D.returning_searchScript interrupt Joins.of_follows as bs)
    fun _ hs => .of_follows hs

end

section

variable {D : Differ (Attempt σ) ℓ} {interrupt : Interrupt (Attempt σ) τ}
  {clock : Attempt σ Instant} {a b : Tree ℓ} {as bs : List (Tree ℓ)} {s s' : σ} {d : Diff ℓ}
  {ds : List (Diff ℓ)} {o : Option (Diff ℓ)} {r r' : Option τ}

/-- The match of two trees joins them, and so does the replacement that stands in for it. -/
theorem joins_getD (h : (D.match? interrupt a b).run r s = .ok (o, r') s') :
    D.Joins a b (o.getD (.edit (.replace a b))) := by
  cases o with
  | none => exact joins_replace a b
  | some d => exact D.returning_joins interrupt a b r s _ s' h d rfl

theorem joins_of_diffTrees (h : D.diffTrees a b s = .ok d s') : D.Joins a b d := by
  obtain ⟨o, hmatch, rfl⟩ := exists_match?_of_diffTrees h
  exact joins_getD hmatch

theorem joins_of_diffTreesWithin (h : (D.diffTreesWithin clock a b).run s = .ok (.ok d) s') :
    D.Joins a b d := by
  obtain ⟨limit, s₁, o, hmatch, rfl⟩ := exists_match?_of_diffTreesWithin h
  exact joins_getD hmatch

theorem joinsAll_of_diffSequences (h : D.diffSequences as bs s = .ok ds s') :
    D.JoinsAll as bs ds := by
  obtain ⟨script, hsearch, rfl⟩ := exists_search_of_diffSequences h
  exact D.returning_joinsAll _ as bs none s _ _ hsearch script rfl

theorem joinsAll_of_diffSequencesWithin
    (h : (D.diffSequencesWithin clock as bs).run s = .ok (.ok ds) s') : D.JoinsAll as bs ds := by
  obtain ⟨limit, s₁, script, hsearch, rfl⟩ := exists_search_of_diffSequencesWithin h
  exact D.returning_joinsAll _ as bs none s₁ _ _ hsearch script rfl

end

/-- **A diff that is returned has the two trees as its sides**, and a script of diffs the two lists,
up to labels that count as the same; exactly so if only equal labels do. -/
theorem returned_joins (D : Differ (Attempt σ) ℓ) (clock : Attempt σ Instant) :
    (∀ a b d s s', D.diffTrees a b s = .ok d s' ∨
        (D.diffTreesWithin clock a b).run s = .ok (.ok d) s' →
      D.Joins a b d ∧ ((∀ l k, D.sameLabel l k = true → l = k) → d.after? = some b)) ∧
    ∀ as bs ds s s', D.diffSequences as bs s = .ok ds s' ∨
        (D.diffSequencesWithin clock as bs).run s = .ok (.ok ds) s' →
      D.JoinsAll as bs ds ∧
        ((∀ l k, D.sameLabel l k = true → l = k) → ds.filterMap Diff.after? = bs) := by
  constructor
  · intro a b d s s' h
    have hjoins : D.Joins a b d := h.elim joins_of_diffTrees joins_of_diffTreesWithin
    exact ⟨hjoins, hjoins.after_eq⟩
  · intro as bs ds s s' h
    have hjoins : D.JoinsAll as bs ds :=
      h.elim joinsAll_of_diffSequences joinsAll_of_diffSequencesWithin
    exact ⟨hjoins, hjoins.after_eq⟩

/-- The differ for words as labels, of which one is not even the same as itself. -/
def exceptOdd : Differ (Attempt Instant) String where
  sameLabel := (LabelRule.exactExcept "odd").same
  cost := Pricing.cost { flat := true }

theorem eq_of_sameLabel_exceptOdd (l k : String) (h : exceptOdd.sameLabel l k = true) : l = k :=
  (of_decide_eq_true h).1

theorem returned_joins_exceptOdd :
    (exceptOdd.Joins (.node "root" [.leaf "odd"]) (.node "root" [.leaf "odd"])
        (.merge "root" [.edit (.delete (.leaf "odd")), .edit (.insert (.leaf "odd"))]) ∧
      (Diff.merge "root" [.edit (.delete (.leaf "odd")), .edit (.insert (.leaf "odd"))]).after? =
        some (.node "root" [.leaf "odd"])) ∧
      exceptOdd.JoinsAll [.leaf "leaf"] [.leaf "odd", .leaf "leaf"]
        [.edit (.insert (.leaf "odd")), .merge "leaf" []] ∧
      [Diff.edit (.insert (.leaf "odd")), .merge "leaf" []].filterMap Diff.after? =
        [.leaf "odd", .leaf "leaf"] := by
  have htrees := (returned_joins exceptOdd get).1 (.node "root" [.leaf "odd"])
    (.node "root" [.leaf "odd"]) _ ⟨0⟩ ⟨0⟩ (.inl rfl)
  have hsequences := (returned_joins exceptOdd get).2 [.leaf "leaf"] [.leaf "odd", .leaf "leaf"] _
    ⟨0⟩ ⟨0⟩ (.inr rfl)
  exact ⟨⟨htrees.1, htrees.2 eq_of_sameLabel_exceptOdd⟩, hsequences.1,
    hsequences.2 eq_of_sameLabel_exceptOdd⟩

end TreeDiff.Differ
