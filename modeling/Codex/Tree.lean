import Mathlib.Data.List.Infix

/-!
# Trees of names

A finite tree whose inner nodes have named children, as a directory has.
-/

namespace Codex

inductive Tree (α L : Type) where
  | leaf (value : L)
  | node (children : List (α × Tree α L))

namespace Tree

variable {α L : Type} [DecidableEq α]

def children : Tree α L → List (α × Tree α L)
  | leaf _ => []
  | node children => children

def isNode : Tree α L → Bool
  | leaf _ => false
  | node _ => true

def get (tree : Tree α L) : List α → Option (Tree α L)
  | [] => some tree
  | name :: names => ((tree.children.find? (·.1 = name)).map (·.2)).bind (·.get names)

end Tree

end Codex
