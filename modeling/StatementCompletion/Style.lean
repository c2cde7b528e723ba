import StatementCompletion.Text

/-!
# Code style

The settings that the layout of white space and the opening of new lines follow.
-/

namespace StatementCompletion

/-- How code is laid out.  The two numbers are not bounded here.  Where a number is a word of a
machine, the largest word has no successor, and a layout with it as `keepBlankLines`, which asks for
`keepBlankLines + 1`, is not the one that this style gives. -/
structure CodeStyle where
  /-- The columns of one level of indentation. -/
  indentSize : Nat := 4
  /-- Whether a level of indentation is one tab. -/
  useTabs : Bool := false
  /-- Whether an empty block stays on one line. -/
  keepSimpleBlocks : Bool := true
  /-- How many blank lines in a row are kept. -/
  keepBlankLines : Nat := 2
deriving DecidableEq

namespace CodeStyle

/-- One level of indentation. -/
def indentUnit (style : CodeStyle) : Text :=
  if style.useTabs then ['\t'] else List.replicate style.indentSize ' '

/-- The indentation of a line at a nesting depth. -/
def indent (style : CodeStyle) (depth : Nat) : Text :=
  style.indentUnit.times depth

end CodeStyle

end StatementCompletion
