import LojbanTree.Bracketed.Flat
import LojbanTree.Bracketed.Glyphs
import LojbanTree.Tree.Encoding
import LojbanTree.Tree.Processing

/-!
The text that shows a tree.
-/

namespace LojbanTree

/-- Raw output is set in by two blanks a level. -/
def rawLayout : Layout := .indented 2

namespace Tree

/-- The flat bracketed text of a processed tree. -/
def flatChars (options : Options) (tree : Tree) : List CodePoint :=
  Bracketed.flattenChars options.nodeLabels ((process options tree).encodeChars .compact)

/-- The code points of the text that shows a tree. -/
def renderChars (options : Options) (tree : Tree) : List CodePoint :=
  match options.style with
  | .raw => (strip options tree).encodeChars rawLayout
  | .condensed => (strip options tree).encodeChars .compact
  | .prettified =>
    if options.json then (process options tree).encodeChars .compact
    else Bracketed.shapeFrom 0 (flatChars options tree)

/-- The text that shows a tree. -/
def render (options : Options) (tree : Tree) : Text :=
  Text.ofList (renderChars options tree)

end Tree

end LojbanTree
