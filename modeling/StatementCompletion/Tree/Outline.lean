import StatementCompletion.Tree.Search

/-!
# Printed trees

A tree prints as one line: the tag of each node with the quoted text of a leaf, the length of a
branch, or the quoted text and the message of an error; the children of a branch follow it in
brackets.  A cursor prints as the tag of its node and the span it covers.
-/

namespace StatementCompletion

/-- The digits of a number in base sixteen. -/
def hexDigits (n : Nat) : String :=
  String.ofList (Nat.toDigits 16 n)

/-- A character as it is written inside quotes. -/
def quotedChar (c : Char) : String :=
  match c with
  | '\x00' => "\\0"
  | '\t' => "\\t"
  | '\n' => "\\n"
  | '\r' => "\\r"
  | '"' => "\\\""
  | '\\' => "\\\\"
  | c =>
    if c.toNat < 0x20 ∨ c.toNat = 0x7f then "\\u\x7b" ++ hexDigits c.toNat ++ "\x7d"
    else String.singleton c

/-- A text in quotes. -/
def quotedText (text : Text) : String :=
  "\"" ++ String.join (text.map quotedChar) ++ "\""

namespace Node

mutual

/-- A tree on one line. -/
def outline : Node → String
  | .leaf kind text => kind.tag ++ ": " ++ quotedText text
  | .error problem text => "Error: " ++ quotedText text ++ " (" ++ problem.message ++ ")"
  | .branch kind children =>
    let head := kind.tag ++ ": " ++ toString (sizeAll children)
    match outlineAll children with
    | [] => head
    | parts => head ++ " [" ++ ", ".intercalate parts ++ "]"

/-- Trees, one line each. -/
def outlineAll : List Node → List String
  | [] => []
  | node :: rest => node.outline :: outlineAll rest

end

end Node

/-- The tag of the node and the span it covers. -/
def Cursor.label (c : Cursor) : String :=
  c.kind.tag ++ "@" ++ toString c.offset ++ ".." ++ toString c.stop

end StatementCompletion
