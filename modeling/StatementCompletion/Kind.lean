/-!
# Kinds of syntax

One enumeration names every building block of a Java source: the tokens, which are the leaves of a
syntax tree, and the constructs that its inner nodes stand for.  The predicates below sort the kinds
into the groups that the grammar, the layout and the repairs ask for.
-/

namespace StatementCompletion

/-- A building block of a Java source. -/
inductive Kind where
  /-- The end of the tokens. -/
  | endOfFile
  /-- A stray piece of text, or a missing piece of syntax. -/
  | error
  /-- Spaces, tabs and line breaks. -/
  | whitespace
  /-- A line comment: `// ...`. -/
  | lineComment
  /-- A block or doc comment: `/* ... */`. -/
  | blockComment
  /-- An identifier. -/
  | identifier
  /-- A number, whole or not: `12`, `0x1F`, `1.5f`. -/
  | numberLiteral
  /-- A string, closed or not: `"text"`. -/
  | stringLiteral
  /-- A character in quotes, closed or not: `'c'`. -/
  | charLiteral
  /-- One of the words `true` and `false`. -/
  | boolLiteral
  /-- The word `null`. -/
  | nullLiteral
  /-- The keyword `package`. -/
  | packageKeyword
  /-- The keyword `import`. -/
  | importKeyword
  /-- The keyword `class`. -/
  | classKeyword
  /-- The keyword `interface`. -/
  | interfaceKeyword
  /-- The keyword `enum`. -/
  | enumKeyword
  /-- The keyword `extends`. -/
  | extendsKeyword
  /-- The keyword `implements`. -/
  | implementsKeyword
  /-- The keyword `throws`. -/
  | throwsKeyword
  /-- The keyword `void`. -/
  | voidKeyword
  /-- A primitive type name: `int`, `boolean`, ... -/
  | primitiveType
  /-- A declaration modifier: `public`, `static`, `abstract`, ... -/
  | modifier
  /-- The keyword `synchronized`. -/
  | synchronizedKeyword
  /-- The keyword `if`. -/
  | ifKeyword
  /-- The keyword `else`. -/
  | elseKeyword
  /-- The keyword `while`. -/
  | whileKeyword
  /-- The keyword `do`. -/
  | doKeyword
  /-- The keyword `for`. -/
  | forKeyword
  /-- The keyword `switch`. -/
  | switchKeyword
  /-- The keyword `case`. -/
  | caseKeyword
  /-- The keyword `default`. -/
  | defaultKeyword
  /-- The keyword `try`. -/
  | tryKeyword
  /-- The keyword `catch`. -/
  | catchKeyword
  /-- The keyword `finally`. -/
  | finallyKeyword
  /-- The keyword `return`. -/
  | returnKeyword
  /-- The keyword `throw`. -/
  | throwKeyword
  /-- The keyword `break`. -/
  | breakKeyword
  /-- The keyword `continue`. -/
  | continueKeyword
  /-- The keyword `new`. -/
  | newKeyword
  /-- The keyword `this`. -/
  | thisKeyword
  /-- The keyword `super`. -/
  | superKeyword
  /-- The keyword `instanceof`. -/
  | instanceofKeyword
  /-- The token `(`. -/
  | leftParen
  /-- The token `)`. -/
  | rightParen
  /-- The token `{`. -/
  | leftBrace
  /-- The token `}`. -/
  | rightBrace
  /-- The token `[`. -/
  | leftBracket
  /-- The token `]`. -/
  | rightBracket
  /-- The token `;`. -/
  | semicolon
  /-- The token `,`. -/
  | comma
  /-- The token `.`. -/
  | dot
  /-- The token `:`. -/
  | colon
  /-- The token `?`. -/
  | question
  /-- The token `@`. -/
  | atSign
  /-- The token `->`. -/
  | arrow
  /-- The token `=`. -/
  | assign
  /-- A compound assignment operator: `+=`, `-=`, ... -/
  | compoundAssign
  /-- The token `==`. -/
  | equal
  /-- The token `!=`. -/
  | notEqual
  /-- The token `<`. -/
  | less
  /-- The token `>`. -/
  | greater
  /-- The token `<=`. -/
  | lessEqual
  /-- The token `>=`. -/
  | greaterEqual
  /-- The token `+`. -/
  | plus
  /-- The token `-`. -/
  | minus
  /-- The token `*`. -/
  | star
  /-- The token `/`. -/
  | slash
  /-- The token `%`. -/
  | percent
  /-- The token `&&`. -/
  | logicalAnd
  /-- The token `||`. -/
  | logicalOr
  /-- The token `&`. -/
  | bitAnd
  /-- The token `|`. -/
  | bitOr
  /-- The token `^`. -/
  | bitXor
  /-- The token `!`. -/
  | logicalNot
  /-- The token `~`. -/
  | bitNot
  /-- The token `++`. -/
  | increment
  /-- The token `--`. -/
  | decrement
  /-- The root of a parsed source. -/
  | file
  /-- The package clause, `package a.b;`. -/
  | packageDeclaration
  /-- An import clause, `import a.b.C;`. -/
  | importDeclaration
  /-- A class, interface or enum declaration. -/
  | classDeclaration
  /-- A method or constructor declaration. -/
  | method
  /-- A field declaration. -/
  | field
  /-- An enum constant: `RED` or `RED(1)`. -/
  | enumConstant
  /-- An instance or static initializer block. -/
  | initializer
  /-- The modifiers in front of a declaration. -/
  | modifierList
  /-- A type reference: `int`, `java.util.List<String>[]`. -/
  | typeReference
  /-- The parameters of a method, `(int a, String b)`. -/
  | parameterList
  /-- A formal parameter: `String b`. -/
  | parameter
  /-- The exceptions a method throws, `throws A, B`. -/
  | throwsList
  /-- Statements in braces. -/
  | codeBlock
  /-- A code block used as a statement. -/
  | blockStatement
  /-- An expression followed by `;`. -/
  | expressionStatement
  /-- A local variable declaration statement. -/
  | declarationStatement
  /-- One variable inside a declaration statement. -/
  | localVariable
  /-- The statement `if (..) .. else ..`. -/
  | ifStatement
  /-- The loop `while (..) ..`. -/
  | whileStatement
  /-- The loop `do .. while (..);`. -/
  | doWhileStatement
  /-- The loop `for (..; ..; ..) ..`. -/
  | forStatement
  /-- The loop `for (T x : xs) ..`. -/
  | foreachStatement
  /-- The statement `switch (..) { .. }`. -/
  | switchStatement
  /-- A label, `case x:` or `default:`. -/
  | switchLabel
  /-- The statement `try { .. } catch (..) { .. } finally { .. }`. -/
  | tryStatement
  /-- A section `catch (E e) { .. }`. -/
  | catchSection
  /-- The statement `synchronized (..) { .. }`. -/
  | synchronizedStatement
  /-- The statement `return ..;`. -/
  | returnStatement
  /-- The statement `throw ..;`. -/
  | throwStatement
  /-- The statement `break;`. -/
  | breakStatement
  /-- The statement `continue;`. -/
  | continueStatement
  /-- A semicolon on its own. -/
  | emptyStatement
  /-- An assignment, `a = b` or `a += b`. -/
  | assignment
  /-- A choice, `c ? a : b`. -/
  | conditionalExpression
  /-- Two operands with an operator between them. -/
  | binaryExpression
  /-- A type test, `x instanceof T`. -/
  | instanceofExpression
  /-- An operator in front of an operand. -/
  | unaryExpression
  /-- An operand with an operator behind it, `a++`. -/
  | postfixExpression
  /-- A cast, `(T) a`. -/
  | typeCast
  /-- An expression in parentheses. -/
  | parenthesized
  /-- A member of an operand, `a.b`. -/
  | fieldAccess
  /-- An element of an array, `a[i]`. -/
  | arrayAccess
  /-- A call, `f(a, b)`. -/
  | methodCall
  /-- The arguments of a call, `(a, b)`. -/
  | argumentList
  /-- A creation, `new T(..)` or `new T[n]`. -/
  | newExpression
  /-- The elements of an array, `{1, 2}`. -/
  | arrayInitializer
deriving DecidableEq

namespace Kind

/-! ## Groups of kinds -/

/-- White space and comments, which the grammar skips. -/
def isTrivia : Kind → Bool
  | .whitespace | .lineComment | .blockComment => true
  | _ => false

/-- Comments. -/
def isComment : Kind → Bool
  | .lineComment | .blockComment => true
  | _ => false

/-- Errors. -/
def isError : Kind → Bool
  | .error => true
  | _ => false

/-- Literal tokens. -/
def isLiteral : Kind → Bool
  | .numberLiteral | .stringLiteral | .charLiteral | .boolLiteral | .nullLiteral => true
  | _ => false

/-- Statements; a switch label counts as one. -/
def isStatement : Kind → Bool
  | .blockStatement | .expressionStatement | .declarationStatement | .ifStatement
  | .whileStatement | .doWhileStatement | .forStatement | .foreachStatement
  | .switchStatement | .switchLabel | .tryStatement | .synchronizedStatement
  | .returnStatement | .throwStatement | .breakStatement | .continueStatement
  | .emptyStatement => true
  | _ => false

/-- Members of a class, and classes. -/
def isMember : Kind → Bool
  | .classDeclaration | .method | .field | .enumConstant | .initializer => true
  | _ => false

/-- Expressions that are inner nodes. -/
def isExpression : Kind → Bool
  | .assignment | .conditionalExpression | .binaryExpression | .instanceofExpression
  | .unaryExpression | .postfixExpression | .typeCast | .parenthesized | .fieldAccess
  | .arrayAccess | .methodCall | .newExpression | .arrayInitializer => true
  | _ => false

/-- Statements that own a condition and a body. -/
def isControlStatement : Kind → Bool
  | .ifStatement | .whileStatement | .doWhileStatement | .forStatement | .foreachStatement => true
  | _ => false

/-- A comment is trivia. -/
theorem isTrivia_of_isComment {kind : Kind} (h : kind.isComment = true) : kind.isTrivia = true := by
  cases kind <;> simp_all [isComment, isTrivia]

/-- Trivia is no statement. -/
theorem isStatement_of_isTrivia {kind : Kind} (h : kind.isTrivia = true) :
    kind.isStatement = false := by
  cases kind <;> first | rfl | cases h

/-- A statement is no trivia. -/
theorem isTrivia_of_isStatement {kind : Kind} (h : kind.isStatement = true) :
    kind.isTrivia = false := by
  cases kind <;> first | rfl | cases h

end Kind

end StatementCompletion
