import TreeDiff.Script.Basic

/-!
# Scripts with shared ends

A script is kept as a chain of nodes, and scripts that end alike have the nodes of the common end in
common. A node counts its owners: the scripts that begin with it and the nodes that it comes after.
It is given up with its last owner, which then owns the node after it no longer.

* `Linked`: a script as a link to its first node, beside its length.
* `Node`, `Nodes`: a node, and the nodes of all scripts. A node links to earlier nodes only, so that
  a chain ends.
* `Nodes.entries`, `Nodes.script`: what the chain of a link yields.
* `Nodes.prepend`: a script with one more edit in front, that shares all nodes of the shorter one.
* `Nodes.release`: gives up a script. It stops at the first node that has another owner.
* `Nodes.takeEdits`: gives up a script and hands over its edits, those of shared nodes as copies.
-/

namespace TreeDiff

/-- A script as a link to its first node, beside its length. -/
structure Linked where
  first : Option Nat
  length : Nat
  deriving DecidableEq

namespace Linked

/-- The script without a node. -/
def empty : Linked := ⟨none, 0⟩

def isEmpty (l : Linked) : Bool := l.first.isNone

end Linked

/-- An edit with the cost of the script from there on, and the script after it. -/
structure Node (δ : Type) where
  edit : δ
  cumulative : Nat
  rest : Linked
  /-- How many scripts and nodes link to the node. -/
  owners : Nat

/-- The nodes of scripts, by number. The number of a node that is given up is not used again. -/
structure Nodes (δ : Type) where
  cells : Array (Option (Node δ))
  /-- A node links to earlier nodes only. -/
  rest_lt : ∀ (i : Nat) (node : Node δ) (j : Nat),
    cells[i]? = some (some node) → node.rest.first = some j → j < i

namespace Nodes

variable {δ : Type} (ns : Nodes δ)

def empty : Nodes δ := ⟨#[], by simp⟩

/-- The node of a number, unless it is given up. -/
def get? (i : Nat) : Option (Node δ) := ns.cells[i]?.join

theorem get?_eq_some_iff {i : Nat} {node : Node δ} :
    ns.get? i = some node ↔ ns.cells[i]? = some (some node) := by
  simp [get?, Option.join_eq_some_iff]

theorem lt_of_get? {i j : Nat} {node : Node δ} (h : ns.get? i = some node)
    (hrest : node.rest.first = some j) : j < i :=
  ns.rest_lt i node j (ns.get?_eq_some_iff.1 h) hrest

/-- Decreases along a chain. -/
def height (link : Option Nat) : Nat := link.elim 0 (· + 1)

theorem height_rest_lt {i : Nat} {node : Node δ} (h : ns.get? i = some node) :
    height node.rest.first < height (some i) := by
  cases hrest : node.rest.first with
  | none => exact Nat.succ_pos i
  | some j => exact Nat.succ_lt_succ (ns.lt_of_get? h hrest)

/-! ## Reading -/

/-- The entries of the chain of a link, behind those that have been passed. -/
def walk (passed : Array (δ × Nat)) : Option Nat → Array (δ × Nat)
  | none => passed
  | some i =>
    match _h : ns.get? i with
    | none => passed
    | some node => walk (passed.push (node.edit, node.cumulative)) node.rest.first
termination_by link => height link
decreasing_by exact ns.height_rest_lt ‹_›

/-- The edits of the chain of a link with their annotations. -/
def entries (link : Option Nat) : List (δ × Nat) := (ns.walk #[] link).toList

/-- The script that a list of nodes stands for. -/
def script (l : Linked) : Script δ := ⟨ns.entries l.first⟩

/-- The cost of a script, as it stands at its first node. -/
def total (l : Linked) : Nat := (l.first.bind ns.get?).elim 0 Node.cumulative

/-! ## Changing one node -/

/-- Changes the node of a number, or gives it up, and leaves its link as it is. -/
def change (i : Nat) (f : Node δ → Option (Node δ))
    (hf : ∀ node node', f node = some node' → node'.rest = node.rest) : Nodes δ where
  cells := ns.cells.modify i (·.bind f)
  rest_lt j node k hcell hrest := by
    rw [Array.getElem?_modify] at hcell
    split at hcell
    · simp only [Option.map_eq_some_iff, Option.bind_eq_some_iff] at hcell
      obtain ⟨_, hold, old, rfl, hnode⟩ := hcell
      exact ns.rest_lt j old k hold (hf old node hnode ▸ hrest)
    · exact ns.rest_lt j node k hcell hrest

/-- Changes how many owners a node has. -/
def recount (i : Nat) (f : Nat → Nat) : Nodes δ :=
  ns.change i (fun node => some { node with owners := f node.owners }) (by rintro _ _ ⟨⟩; rfl)

/-- Gives up a node. -/
def giveUp (i : Nat) : Nodes δ := ns.change i (fun _ => none) nofun

/-- One more link like the given one. -/
def share : Option Nat → Nodes δ
  | none => ns
  | some i => ns.recount i (· + 1)

/-- One more node, which has one owner. A link to a node that is not there is left out. -/
def add (d : δ) (cumulative : Nat) (rest : Linked) : Nodes δ where
  cells := ns.cells.push
    (some ⟨d, cumulative, { rest with first := rest.first.filter (· < ns.cells.size) }, 1⟩)
  rest_lt i node j hcell hrest := by
    rw [Array.getElem?_push] at hcell
    split at hcell
    · cases hcell
      simp only [Option.filter_eq_some_iff, decide_eq_true_eq] at hrest
      omega
    · exact ns.rest_lt i node j hcell hrest

/-! ## Scripts -/

/-- The script with an edit of cost `c` in front of the script `l`, which stays. A fault, if its
cost lies above the ceiling. -/
def prepend (ceiling : Nat) (d : δ) (c : Nat) (l : Linked) : Attempt (Nodes δ) Linked := fun ns =>
  match addCosts ceiling c (ns.total l) with
  | .ok t => .ok ⟨some ns.cells.size, l.length + 1⟩ ((ns.share l.first).add d t l)
  | .error e => .error e ns

/-- Gives up a link, and with it the nodes that have no other owner. -/
def release (ns : Nodes δ) : Option Nat → Nodes δ
  | none => ns
  | some i =>
    match _h : ns.get? i with
    | none => ns
    | some node =>
      if node.owners = 1 then (ns.giveUp i).release node.rest.first
      else ns.recount i (· - 1)
termination_by link => height link
decreasing_by exact ns.height_rest_lt ‹_›

/-- Gives up a link to a node for a link to the node after it. The node is given up if it has no
other owner. -/
def advance (i : Nat) (node : Node δ) : Nodes δ :=
  if node.owners = 1 then ns.giveUp i else (ns.share node.rest.first).recount i (· - 1)

/-- Gives up a link and hands over the edits of its chain, behind those that have been passed. -/
def drain (passed : Array δ) (ns : Nodes δ) : Option Nat → Array δ × Nodes δ
  | none => (passed, ns)
  | some i =>
    match _h : ns.get? i with
    | none => (passed, ns)
    | some node => drain (passed.push node.edit) (ns.advance i node) node.rest.first
termination_by link => height link
decreasing_by exact ns.height_rest_lt ‹_›

/-- Gives up a script and hands over its edits. -/
def takeEdits (l : Linked) : List δ × Nodes δ :=
  let (edits, ns) := drain #[] ns l.first
  (edits.toList, ns)

end Nodes

end TreeDiff
