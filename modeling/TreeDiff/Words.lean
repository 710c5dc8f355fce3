import TreeDiff.LabelRule
import TreeDiff.Policy
import TreeDiff.Time

/-!
# Policies on words

Ready-made policies for sequences of words.

* `WordEdit`: insertions, deletions, copies and changes of words, and matches with a name and a
  cost of their own.
* `WordMatching`: rules by which two words match.
* `WordPrices`: the costs of edits, with exceptions for single words.
* `WordRules`: a rule of matching, prices, and the time that a comparison takes.
  `WordRules.policy` is the policy of the rules in a `WordSession`, in which time passes and only
  so many comparisons succeed.
-/

namespace TreeDiff

/-- An edit of a sequence of words. -/
inductive WordEdit where
  | insert (word : String)
  | delete (word : String)
  | copy (word : String)
  | change (old new : String)
  | named (name : String) (cost : Nat)
  deriving DecidableEq

/-- A row of a table of matches: two words, and the name and the cost of their match. -/
structure WordMatch where
  first : String
  second : String
  name : String
  cost : Nat

/-- Rules by which two words match. -/
inductive WordMatching where
  /-- Equal words are copied. -/
  | equal
  /-- Words that are equal up to the case of ASCII letters are copied or changed. -/
  | ignoreCase
  /-- Any two words are copied or changed. -/
  | always
  /-- No two words match. -/
  | never
  /-- The first row for two words names their match. -/
  | table (rows : List WordMatch)

/-- The edit that turns `x` into `y`: a copy if they are equal, a change otherwise. -/
def WordEdit.between (x y : String) : WordEdit := if x = y then .copy x else .change x y

/-- The match of two words, if the rule gives one. -/
def WordMatching.match? : WordMatching → String → String → Option WordEdit
  | .equal, x, y => if x = y then some (.copy x) else none
  | .ignoreCase, x, y => if equalIgnoringCase x y then some (.between x y) else none
  | .always, x, y => some (.between x y)
  | .never, _, _ => none
  | .table rows, x, y =>
    (rows.find? fun row => row.first = x ∧ row.second = y).map fun row => .named row.name row.cost

/-- The costs of edits of words. -/
structure WordPrices where
  /-- The costs of inserting or deleting single words, which take the place of the general ones. -/
  words : List (String × Nat) := []
  insert : Nat := 1
  delete : Nat := 1
  copy : Nat := 0
  change : Nat := 1

/-- The cost of an edit. A match with a name has its own cost. -/
def WordPrices.cost (p : WordPrices) : WordEdit → Nat
  | .insert w => (p.words.lookup w).getD p.insert
  | .delete w => (p.words.lookup w).getD p.delete
  | .copy _ => p.copy
  | .change _ _ => p.change
  | .named _ c => c

/-- The time, and the number of comparisons that may still succeed if it is limited. -/
structure WordSession where
  now : Instant
  matchesLeft : Option Nat

namespace WordSession

/-- Reads the clock of a session. -/
def clock : Attempt WordSession Instant := return (← get).now

/-- Lets time pass. -/
def pass (d : Duration) : Attempt WordSession Unit :=
  modify fun s => { s with now := s.now.later d }

/-- Uses up one of the comparisons that may still succeed; false if there is none. -/
def useMatch : Attempt WordSession Bool := do
  let s ← get
  match s.matchesLeft with
  | none => return true
  | some 0 => return false
  | some (n + 1) =>
    set { s with matchesLeft := some n }
    return true

end WordSession

/-- A rule of matching, prices, and the time that a comparison takes. -/
structure WordRules where
  matching : WordMatching
  prices : WordPrices
  delay : Duration

/-- The policy of the rules. A comparison takes its time first, then looks for a match, and needs
one of the comparisons left if there is a match. -/
def WordRules.policy (rules : WordRules) :
    Policy (Attempt WordSession) String String WordEdit where
  delete := .delete
  insert := .insert
  compare x y := do
    WordSession.pass rules.delay
    match rules.matching.match? x y with
    | none => return none
    | some d => return if ← WordSession.useMatch then some d else none
  cost d := return rules.prices.cost d

end TreeDiff
