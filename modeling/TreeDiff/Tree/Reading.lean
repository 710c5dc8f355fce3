import TreeDiff.Tree.Basic

/-!
# Reading a tree from its text

The text is read once, from front to back. The nodes whose children are being read are kept on a
stack, the innermost one first.

* `Reader`: what has been read so far. `Reader.step` reads one more character.
* `Tree.ofText?`: the tree that a text stands for, if it is the text of a tree.
-/

namespace TreeDiff

namespace Reader

/-- A node whose list of children is open: its label, and the children that have been read, the
last one first. -/
structure Opened where
  label : String
  children : List (Tree String)

/-- What has been read since the last node was opened or the last child was done. -/
inductive Latest
  /-- A label, perhaps not all of it. -/
  | label (l : String)
  /-- A node with its children. -/
  | closed (t : Tree String)
  /-- The comma after a child. -/
  | comma

/-- The tree that has been read, if it ends here. -/
def Latest.tree? : Latest → Option (Tree String)
  | label l => some (.leaf l)
  | closed t => some t
  | comma => none

end Reader

/-- What has been read of the text of a tree. -/
structure Reader where
  latest : Reader.Latest
  opened : List Reader.Opened

namespace Reader

/-- Nothing has been read. -/
def start : Reader := ⟨.label "", []⟩

/-- The next character, if the text may go on with it: an opening parenthesis after a label, a comma
or a closing parenthesis after a child, the blank after a comma, or one more character of a
label. -/
def step (r : Reader) : Char → Option Reader
  | '(' => match r.latest with
    | .label l => some ⟨.label "", ⟨l, []⟩ :: r.opened⟩
    | _ => none
  | ',' => match r.latest.tree?, r.opened with
    | some t, o :: os => some ⟨.comma, ⟨o.label, t :: o.children⟩ :: os⟩
    | _, _ => none
  | ')' => match r.latest.tree?, r.opened with
    | some t, o :: os => some ⟨.closed (.node o.label (t :: o.children).reverse), os⟩
    | _, _ => none
  | c => match r.latest with
    | .label l => some ⟨.label (l.push c), r.opened⟩
    | .closed _ => none
    | .comma => if c = ' ' then some ⟨.label "", r.opened⟩ else none

/-- The next characters, if the text may go on with them. -/
def read (r : Reader) (cs : List Char) : Option Reader := cs.foldlM step r

/-- The tree that has been read, if no list of children is open. -/
def result? (r : Reader) : Option (Tree String) :=
  match r.opened with
  | [] => r.latest.tree?
  | _ :: _ => none

end Reader

/-- The tree of a text. -/
def Tree.ofText? (s : String) : Option (Tree String) := do
  let r ← Reader.start.read s.toList
  r.result?

end TreeDiff
