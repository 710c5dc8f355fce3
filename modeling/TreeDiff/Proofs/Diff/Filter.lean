import TreeDiff.Diff.Kinds

/-!
# What filters admit

A filter is written with the letters of the kinds that it admits. Each string of these letters is a
filter, no other string is, and the letters that occur in it are all that matters. A diff passes the
filter if one of its edits does, wherever it stands.

* `KindSet.isSome_parse?_iff`, `KindSet.contains_parse?`: which strings are filters, and which kinds
  they admit.
* `KindSet.parse?_eq_iff`: the strings for the same filter.
* `Diff.HasEdit`: an edit stands somewhere in a diff. `Diff.mem_edits_iff` says that all edits that
  do are collected.
* `Diff.matchesFilter_iff`: a diff passes a filter if and only if one of its edits does.
* `Diff.filters_mean_letters`: filters as they are written, and the diffs that pass them.
-/

namespace TreeDiff

/-! ## Letters -/

theorem EditKind.exists_letter_iff {c : Char} :
    (∃ k : EditKind, c = k.letter) ↔ c = 'I' ∨ c = 'D' ∨ c = 'R' := by
  constructor
  · rintro ⟨k, rfl⟩
    cases k <;> simp [letter]
  · rintro (rfl | rfl | rfl)
    · exact ⟨.insert, rfl⟩
    · exact ⟨.delete, rfl⟩
    · exact ⟨.replace, rfl⟩

theorem EditKind.letter_injective {j k : EditKind} (h : j.letter = k.letter) : j = k := by
  have hj := ofLetter?_eq_some_iff.2 h
  rw [ofLetter?_eq_some_iff.2 rfl] at hj
  exact Option.some.inj hj

namespace KindSet

variable {s t : String} {f g : KindSet}

/-- A set is read from a first letter and the set that the other letters name. -/
theorem ofLetters?_cons_eq_some_iff {c : Char} {cs : List Char} :
    ofLetters? (c :: cs) = some f ↔
      ∃ k g, c = k.letter ∧ ofLetters? cs = some g ∧ single k ∪ g = f := by
  simp only [ofLetters?, Option.bind_eq_bind, Option.bind_eq_some_iff,
    EditKind.ofLetter?_eq_some_iff, Option.pure_def, Option.some.injEq]
  constructor
  · rintro ⟨k, hk, g, hg, h⟩
    exact ⟨k, g, hk, hg, h⟩
  · rintro ⟨k, g, hk, hg, h⟩
    exact ⟨k, hk, g, hg, h⟩

theorem exists_ofLetters?_iff {cs : List Char} :
    (∃ f, ofLetters? cs = some f) ↔ ∀ c ∈ cs, ∃ k : EditKind, c = k.letter := by
  induction cs with
  | nil => simp [ofLetters?]
  | cons c cs ih =>
    simp only [List.forall_mem_cons, ← ih, ofLetters?_cons_eq_some_iff]
    constructor
    · rintro ⟨_, k, g, hk, hg, -⟩
      exact ⟨⟨k, hk⟩, g, hg⟩
    · rintro ⟨⟨k, hk⟩, g, hg⟩
      exact ⟨_, k, g, hk, hg, rfl⟩

theorem contains_ofLetters? {cs : List Char} (h : ofLetters? cs = some f) (k : EditKind) :
    f.contains k = true ↔ k.letter ∈ cs := by
  induction cs generalizing f with
  | nil =>
    cases h
    simp
  | cons c cs ih =>
    obtain ⟨j, g, rfl, hg, rfl⟩ := ofLetters?_cons_eq_some_iff.1 h
    rw [contains_union, Bool.or_eq_true, contains_single, decide_eq_true_iff, ih hg,
      List.mem_cons]
    refine or_congr_left ⟨fun h => h ▸ rfl, fun h => (EditKind.letter_injective h).symm⟩

/-- A string is a filter if it has no characters but the three letters. -/
theorem isSome_parse?_iff :
    (parse? s).isSome = true ↔ ∀ c ∈ s.toList, c = 'I' ∨ c = 'D' ∨ c = 'R' := by
  rw [Option.isSome_iff_exists]
  refine exists_ofLetters?_iff.trans ?_
  simp only [EditKind.exists_letter_iff]

/-- A filter admits the kinds whose letters it has. -/
theorem contains_parse? (h : parse? s = some f) (k : EditKind) :
    f.contains k = true ↔ k.letter ∈ s.toList :=
  contains_ofLetters? h k

/-- Two strings are the same filter if they have the same letters. -/
theorem parse?_eq_iff (hs : parse? s = some f) (ht : parse? t = some g) :
    f = g ↔ ∀ c, c ∈ s.toList ↔ c ∈ t.toList := by
  have hletters : f = g ↔ ∀ k : EditKind, k.letter ∈ s.toList ↔ k.letter ∈ t.toList := by
    constructor
    · rintro rfl k
      rw [← contains_parse? hs, contains_parse? ht]
    · intro h
      refine ext_contains fun k => Bool.eq_iff_iff.2 ?_
      rw [contains_parse? hs, contains_parse? ht, h]
  rw [hletters]
  constructor
  · intro h c
    constructor
    · intro hc
      obtain ⟨k, rfl⟩ := exists_ofLetters?_iff.1 ⟨f, hs⟩ c hc
      exact (h k).1 hc
    · intro hc
      obtain ⟨k, rfl⟩ := exists_ofLetters?_iff.1 ⟨g, ht⟩ c hc
      exact (h k).2 hc
  · intro h k
    exact h k.letter

end KindSet

/-! ## Edits of a diff -/

namespace Diff

variable {ℓ : Type} {d : Diff ℓ} {e : Edit (Tree ℓ)}

/-- The edit stands somewhere in the diff. -/
inductive HasEdit (e : Edit (Tree ℓ)) : Diff ℓ → Prop
  /-- The diff is this edit. -/
  | here : HasEdit e (edit e)
  /-- The edit stands in the diff of a child. -/
  | child {l : ℓ} {d : Diff ℓ} {ds : List (Diff ℓ)} :
    d ∈ ds → HasEdit e d → HasEdit e (merge l ds)

theorem mem_edits_iff : e ∈ d.edits ↔ d.HasEdit e := by
  induction d using induct with
  | atEdit e' =>
    rw [edits_edit, List.mem_singleton]
    constructor
    · rintro rfl
      exact .here
    · rintro ⟨⟩
      rfl
  | atMerge l ds ih =>
    rw [edits_merge, editsAll_eq_flatMap, List.mem_flatMap]
    constructor
    · rintro ⟨d, hd, he⟩
      exact .child hd ((ih d hd).1 he)
    · rintro (_ | ⟨hd, he⟩)
      exact ⟨_, hd, (ih _ hd).2 he⟩

/-- A diff passes a filter if and only if one of its edits does. -/
theorem matchesFilter_iff {f : KindSet} :
    d.matchesFilter f = true ↔ ∃ e, d.HasEdit e ∧ e.matchesFilter f = true := by
  rw [matchesFilter, KindSet.intersects_iff]
  simp only [contains_kinds_iff, mem_edits_iff]
  constructor
  · rintro ⟨_, hf, e, he, rfl⟩
    exact ⟨e, he, hf⟩
  · rintro ⟨e, he, hf⟩
    exact ⟨e.kind, hf, e, he, rfl⟩

/-- An edit of one of the three kinds, whose letter the filter has. -/
theorem exists_matchesFilter_parse? {s : String} {f : KindSet} (h : KindSet.parse? s = some f) :
    (∃ e, d.HasEdit e ∧ e.matchesFilter f = true) ↔
      (∃ t, d.HasEdit (.insert t)) ∧ 'I' ∈ s.toList ∨
        (∃ t, d.HasEdit (.delete t)) ∧ 'D' ∈ s.toList ∨
        (∃ t u, d.HasEdit (.replace t u)) ∧ 'R' ∈ s.toList := by
  simp only [Edit.matchesFilter, KindSet.contains_parse? h]
  constructor
  · rintro ⟨e, he, hletter⟩
    cases e with
    | insert t => exact .inl ⟨⟨t, he⟩, hletter⟩
    | delete t => exact .inr (.inl ⟨⟨t, he⟩, hletter⟩)
    | replace t u => exact .inr (.inr ⟨⟨t, u, he⟩, hletter⟩)
  · rintro (⟨⟨t, he⟩, hletter⟩ | ⟨⟨t, he⟩, hletter⟩ | ⟨⟨t, u, he⟩, hletter⟩)
    · exact ⟨_, he, hletter⟩
    · exact ⟨_, he, hletter⟩
    · exact ⟨_, he, hletter⟩

/-- **Filters mean what is written**: a string is a filter if it has only the letters of the three
kinds, and the filter is the set of its letters. A diff passes it if an edit of a kind whose letter
it has stands somewhere in the diff, that is, if an edit does that passes it. -/
theorem filters_mean_letters (s : String) :
    ((KindSet.parse? s).isSome = true ↔ ∀ c ∈ s.toList, c = 'I' ∨ c = 'D' ∨ c = 'R') ∧
      (∀ t f g, KindSet.parse? s = some f → KindSet.parse? t = some g →
        (f = g ↔ ∀ c, c ∈ s.toList ↔ c ∈ t.toList)) ∧
      ∀ f, KindSet.parse? s = some f → ∀ d : Diff ℓ,
        (d.matchesFilter f = true ↔
          (∃ t, d.HasEdit (.insert t)) ∧ 'I' ∈ s.toList ∨
            (∃ t, d.HasEdit (.delete t)) ∧ 'D' ∈ s.toList ∨
            (∃ t u, d.HasEdit (.replace t u)) ∧ 'R' ∈ s.toList) ∧
        (d.matchesFilter f = true ↔ ∃ e, d.HasEdit e ∧ e.matchesFilter f = true) := by
  refine ⟨KindSet.isSome_parse?_iff, fun t f g => KindSet.parse?_eq_iff, fun f h d => ?_⟩
  exact ⟨matchesFilter_iff.trans (exists_matchesFilter_parse? h), matchesFilter_iff⟩

/-- Letters may be repeated, in any order. The deletion that stands beside the insertion does not
matter to this filter. -/
theorem filters_mean_letters_repeated :
    (∀ c, c ∈ "RIR".toList ↔ c ∈ "IR".toList) ∧
      ∃ e, (merge 0 [merge 1 [edit (.delete (.leaf 2)), edit (.insert (.leaf 3))]]).HasEdit e ∧
        e.matchesFilter ⟨true, false, true⟩ = true := by
  have hs : KindSet.parse? "RIR" = some ⟨true, false, true⟩ := by decide
  have ht : KindSet.parse? "IR" = some ⟨true, false, true⟩ := by decide
  obtain ⟨-, hletters, hfilter⟩ := filters_mean_letters (ℓ := Nat) "RIR"
  exact ⟨(hletters "IR" _ _ hs ht).1 rfl, (hfilter _ hs _).2.1 (by decide +kernel)⟩

end Diff

end TreeDiff
