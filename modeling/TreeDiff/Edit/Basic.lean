import TreeDiff.Edit.Kind

/-!
# Edits

An edit inserts a value, deletes one, or replaces one by another.

* `Edit.before?`, `Edit.after?`: the values on the two sides of an edit.
* `Edit.mapM`: the edit with its values changed, the old one first.
* `Edit.kind`, `Edit.matchesFilter`: the kind of an edit, and whether a filter admits it.
* `Edit.textWith`: the text of an edit, a symbol for its kind and then its values.
-/

namespace TreeDiff

/-- An insertion, a deletion or a replacement of a value. -/
inductive Edit (α : Type) where
  | insert (new : α)
  | delete (old : α)
  | replace (old new : α)
  deriving DecidableEq

namespace Edit

variable {α β : Type}

/-- The value on the old side, if there is one. -/
def before? : Edit α → Option α
  | .insert _ => none
  | .delete old => some old
  | .replace old _ => some old

/-- The value on the new side, if there is one. -/
def after? : Edit α → Option α
  | .insert new => some new
  | .delete _ => none
  | .replace _ new => some new

@[simp] theorem before?_insert (new : α) : (insert new).before? = none := rfl

@[simp] theorem before?_delete (old : α) : (delete old).before? = some old := rfl

@[simp] theorem before?_replace (old new : α) : (replace old new).before? = some old := rfl

@[simp] theorem after?_insert (new : α) : (insert new).after? = some new := rfl

@[simp] theorem after?_delete (old : α) : (delete old).after? = none := rfl

@[simp] theorem after?_replace (old new : α) : (replace old new).after? = some new := rfl

/-- The edit with `f` run on its values, on the old one before the new one. -/
def mapM {m : Type → Type} [Monad m] (f : α → m β) : Edit α → m (Edit β)
  | .insert new => return .insert (← f new)
  | .delete old => return .delete (← f old)
  | .replace old new => do
    let old' ← f old
    return .replace old' (← f new)

def kind : Edit α → EditKind
  | .insert _ => .insert
  | .delete _ => .delete
  | .replace _ _ => .replace

/-- The filter admits edits of this kind. -/
def matchesFilter (e : Edit α) (filter : KindSet) : Bool := filter.contains e.kind

/-! ## Text -/

/-- The symbol of a kind of edits. -/
def symbol (e : Edit α) : Char :=
  match e.kind with
  | .insert => '+'
  | .delete => '-'
  | .replace => '~'

/-- The values of an edit: the only one, or the old one, an arrow and the new one. -/
def valuesWith (text : α → String) : Edit α → String
  | .insert new => text new
  | .delete old => text old
  | .replace old new => text old ++ " -> " ++ text new

/-- The text of an edit: its symbol and its values. -/
def textWith (text : α → String) (e : Edit α) : String :=
  String.singleton e.symbol ++ e.valuesWith text

end Edit

end TreeDiff
