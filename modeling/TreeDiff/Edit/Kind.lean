/-!
# Kinds of edits, and sets of them

* `EditKind`: insertion, deletion and replacement, each with the letter that names it.
* `KindSet`: a set of kinds. `KindSet.contains` is the view through which sets are compared
  (`KindSet.ext_contains`); union and intersection are described by it.
* `KindSet.parse?` reads a set from its letters, in any order and with repetitions; any other
  character is refused. `KindSet.letters` writes a set, in the order insertion, deletion,
  replacement, and `KindSet.bits` numbers it.
-/

namespace TreeDiff

/-- What an edit does. -/
inductive EditKind
  | insert
  | delete
  | replace
  deriving DecidableEq

namespace EditKind

/-- The letter of a kind. -/
def letter : EditKind → Char
  | .insert => 'I'
  | .delete => 'D'
  | .replace => 'R'

/-- The kind that a letter names. -/
def ofLetter? : Char → Option EditKind
  | 'I' => some .insert
  | 'D' => some .delete
  | 'R' => some .replace
  | _ => none

theorem ofLetter?_eq_some_iff {c : Char} {k : EditKind} :
    ofLetter? c = some k ↔ c = k.letter := by
  constructor
  · intro h
    unfold ofLetter? at h
    split at h <;> cases h <;> rfl
  · rintro rfl
    cases k <;> rfl

end EditKind

/-- A set of kinds of edits. -/
@[ext]
structure KindSet where
  insert : Bool
  delete : Bool
  replace : Bool
  deriving DecidableEq

namespace KindSet

/-- The set without a kind. -/
def empty : KindSet := ⟨false, false, false⟩

/-- The set of one kind. -/
def single : EditKind → KindSet
  | .insert => ⟨true, false, false⟩
  | .delete => ⟨false, true, false⟩
  | .replace => ⟨false, false, true⟩

/-- The set holds the kind. -/
def contains (s : KindSet) : EditKind → Bool
  | .insert => s.insert
  | .delete => s.delete
  | .replace => s.replace

/-- The kinds of either set. -/
def union (s t : KindSet) : KindSet :=
  ⟨s.insert || t.insert, s.delete || t.delete, s.replace || t.replace⟩

instance : Union KindSet := ⟨union⟩

/-- The two sets have a kind in common. -/
def intersects (s t : KindSet) : Bool :=
  s.insert && t.insert || s.delete && t.delete || s.replace && t.replace

/-- The set has no kind. -/
def isEmpty (s : KindSet) : Bool := !(s.insert || s.delete || s.replace)

theorem ext_contains {s t : KindSet} (h : ∀ k, s.contains k = t.contains k) : s = t :=
  KindSet.ext (h .insert) (h .delete) (h .replace)

@[simp] theorem contains_empty (k : EditKind) : empty.contains k = false := by
  cases k <;> rfl

@[simp] theorem contains_single (j k : EditKind) : (single j).contains k = decide (j = k) := by
  cases j <;> cases k <;> rfl

@[simp] theorem contains_union (s t : KindSet) (k : EditKind) :
    (s ∪ t).contains k = (s.contains k || t.contains k) := by
  cases k <;> rfl

theorem intersects_iff {s t : KindSet} :
    s.intersects t = true ↔ ∃ k, s.contains k = true ∧ t.contains k = true := by
  constructor
  · intro h
    simp only [intersects, Bool.or_eq_true, Bool.and_eq_true] at h
    rcases h with (h | h) | h
    · exact ⟨.insert, h⟩
    · exact ⟨.delete, h⟩
    · exact ⟨.replace, h⟩
  · rintro ⟨k, hs, ht⟩
    cases k <;> simp_all [contains, intersects]

theorem isEmpty_iff {s : KindSet} : s.isEmpty = true ↔ s = empty := by
  cases s
  simp [isEmpty, empty, and_assoc]

/-! ## Letters and numbers -/

/-- The set that the letters name, if each of them names a kind. -/
def ofLetters? : List Char → Option KindSet
  | [] => some empty
  | c :: cs => do
    let k ← EditKind.ofLetter? c
    return single k ∪ (← ofLetters? cs)

/-- The set that a string of letters names, if each of them names a kind. -/
def parse? (s : String) : Option KindSet := ofLetters? s.toList

/-- The letters of the kinds of a set, in the order insertion, deletion, replacement. -/
def letters (s : KindSet) : String :=
  String.ofList <| ([.insert, .delete, .replace].filter s.contains).map EditKind.letter

/-- The number of a set: 1 for insertion, 2 for deletion and 4 for replacement, added up. -/
def bits (s : KindSet) : Nat :=
  s.insert.toNat + 2 * s.delete.toNat + 4 * s.replace.toNat

end KindSet

end TreeDiff
