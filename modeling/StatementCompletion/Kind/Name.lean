import StatementCompletion.Kind

/-!
# Names of kinds

Every kind has a name for messages, such as "closing paren", and a tag, one word that identifies it
in a printed tree.
-/

namespace StatementCompletion.Kind

/-- The name of a kind in messages. -/
def name : Kind → String
  | .endOfFile => "end of file"
  | .error => "syntax error"
  | .whitespace => "whitespace"
  | .lineComment => "line comment"
  | .blockComment => "block comment"
  | .identifier => "identifier"
  | .numberLiteral => "number"
  | .stringLiteral => "string"
  | .charLiteral => "character"
  | .boolLiteral => "boolean"
  | .nullLiteral => "`null`"
  | .packageKeyword => "keyword `package`"
  | .importKeyword => "keyword `import`"
  | .classKeyword => "keyword `class`"
  | .interfaceKeyword => "keyword `interface`"
  | .enumKeyword => "keyword `enum`"
  | .extendsKeyword => "keyword `extends`"
  | .implementsKeyword => "keyword `implements`"
  | .throwsKeyword => "keyword `throws`"
  | .voidKeyword => "keyword `void`"
  | .primitiveType => "primitive type"
  | .modifier => "modifier"
  | .synchronizedKeyword => "keyword `synchronized`"
  | .ifKeyword => "keyword `if`"
  | .elseKeyword => "keyword `else`"
  | .whileKeyword => "keyword `while`"
  | .doKeyword => "keyword `do`"
  | .forKeyword => "keyword `for`"
  | .switchKeyword => "keyword `switch`"
  | .caseKeyword => "keyword `case`"
  | .defaultKeyword => "keyword `default`"
  | .tryKeyword => "keyword `try`"
  | .catchKeyword => "keyword `catch`"
  | .finallyKeyword => "keyword `finally`"
  | .returnKeyword => "keyword `return`"
  | .throwKeyword => "keyword `throw`"
  | .breakKeyword => "keyword `break`"
  | .continueKeyword => "keyword `continue`"
  | .newKeyword => "keyword `new`"
  | .thisKeyword => "keyword `this`"
  | .superKeyword => "keyword `super`"
  | .instanceofKeyword => "keyword `instanceof`"
  | .leftParen => "opening paren"
  | .rightParen => "closing paren"
  | .leftBrace => "opening brace"
  | .rightBrace => "closing brace"
  | .leftBracket => "opening bracket"
  | .rightBracket => "closing bracket"
  | .semicolon => "semicolon"
  | .comma => "comma"
  | .dot => "dot"
  | .colon => "colon"
  | .question => "question mark"
  | .atSign => "at sign"
  | .arrow => "arrow"
  | .assign => "assignment operator"
  | .compoundAssign => "compound assignment operator"
  | .equal => "equality operator"
  | .notEqual => "inequality operator"
  | .less => "less-than operator"
  | .greater => "greater-than operator"
  | .lessEqual => "less-equal operator"
  | .greaterEqual => "greater-equal operator"
  | .plus => "plus"
  | .minus => "minus"
  | .star => "star"
  | .slash => "slash"
  | .percent => "percent"
  | .logicalAnd => "logical and"
  | .logicalOr => "logical or"
  | .bitAnd => "bitwise and"
  | .bitOr => "bitwise or"
  | .bitXor => "bitwise xor"
  | .logicalNot => "logical not"
  | .bitNot => "bitwise not"
  | .increment => "increment"
  | .decrement => "decrement"
  | .file => "file"
  | .packageDeclaration => "package declaration"
  | .importDeclaration => "import declaration"
  | .classDeclaration => "class declaration"
  | .method => "method"
  | .field => "field"
  | .enumConstant => "enum constant"
  | .initializer => "initializer"
  | .modifierList => "modifier list"
  | .typeReference => "type"
  | .parameterList => "parameter list"
  | .parameter => "parameter"
  | .throwsList => "throws list"
  | .codeBlock => "code block"
  | .blockStatement => "block statement"
  | .expressionStatement => "expression statement"
  | .declarationStatement => "declaration statement"
  | .localVariable => "local variable"
  | .ifStatement => "`if` statement"
  | .whileStatement => "`while` statement"
  | .doWhileStatement => "`do` statement"
  | .forStatement => "`for` statement"
  | .foreachStatement => "`for-each` statement"
  | .switchStatement => "`switch` statement"
  | .switchLabel => "switch label"
  | .tryStatement => "`try` statement"
  | .catchSection => "catch section"
  | .synchronizedStatement => "`synchronized` statement"
  | .returnStatement => "`return` statement"
  | .throwStatement => "`throw` statement"
  | .breakStatement => "`break` statement"
  | .continueStatement => "`continue` statement"
  | .emptyStatement => "empty statement"
  | .assignment => "assignment"
  | .conditionalExpression => "conditional expression"
  | .binaryExpression => "binary expression"
  | .instanceofExpression => "`instanceof` expression"
  | .unaryExpression => "unary expression"
  | .postfixExpression => "postfix expression"
  | .typeCast => "type cast"
  | .parenthesized => "parenthesized expression"
  | .fieldAccess => "field access"
  | .arrayAccess => "array access"
  | .methodCall => "method call"
  | .argumentList => "argument list"
  | .newExpression => "`new` expression"
  | .arrayInitializer => "array initializer"

/-- The word that identifies a kind. -/
def tag : Kind → String
  | .endOfFile => "End"
  | .error => "Error"
  | .whitespace => "Whitespace"
  | .lineComment => "LineComment"
  | .blockComment => "BlockComment"
  | .identifier => "Ident"
  | .numberLiteral => "NumberLiteral"
  | .stringLiteral => "StringLiteral"
  | .charLiteral => "CharLiteral"
  | .boolLiteral => "BoolLiteral"
  | .nullLiteral => "NullLiteral"
  | .packageKeyword => "Package"
  | .importKeyword => "Import"
  | .classKeyword => "Class"
  | .interfaceKeyword => "Interface"
  | .enumKeyword => "Enum"
  | .extendsKeyword => "Extends"
  | .implementsKeyword => "Implements"
  | .throwsKeyword => "Throws"
  | .voidKeyword => "Void"
  | .primitiveType => "PrimitiveType"
  | .modifier => "Modifier"
  | .synchronizedKeyword => "Synchronized"
  | .ifKeyword => "If"
  | .elseKeyword => "Else"
  | .whileKeyword => "While"
  | .doKeyword => "Do"
  | .forKeyword => "For"
  | .switchKeyword => "Switch"
  | .caseKeyword => "Case"
  | .defaultKeyword => "Default"
  | .tryKeyword => "Try"
  | .catchKeyword => "Catch"
  | .finallyKeyword => "Finally"
  | .returnKeyword => "Return"
  | .throwKeyword => "Throw"
  | .breakKeyword => "Break"
  | .continueKeyword => "Continue"
  | .newKeyword => "New"
  | .thisKeyword => "This"
  | .superKeyword => "Super"
  | .instanceofKeyword => "Instanceof"
  | .leftParen => "LeftParen"
  | .rightParen => "RightParen"
  | .leftBrace => "LeftBrace"
  | .rightBrace => "RightBrace"
  | .leftBracket => "LeftBracket"
  | .rightBracket => "RightBracket"
  | .semicolon => "Semicolon"
  | .comma => "Comma"
  | .dot => "Dot"
  | .colon => "Colon"
  | .question => "Question"
  | .atSign => "At"
  | .arrow => "Arrow"
  | .assign => "Eq"
  | .compoundAssign => "AssignOp"
  | .equal => "EqEq"
  | .notEqual => "BangEq"
  | .less => "Lt"
  | .greater => "Gt"
  | .lessEqual => "LtEq"
  | .greaterEqual => "GtEq"
  | .plus => "Plus"
  | .minus => "Minus"
  | .star => "Star"
  | .slash => "Slash"
  | .percent => "Percent"
  | .logicalAnd => "AmpAmp"
  | .logicalOr => "PipePipe"
  | .bitAnd => "Amp"
  | .bitOr => "Pipe"
  | .bitXor => "Caret"
  | .logicalNot => "Bang"
  | .bitNot => "Tilde"
  | .increment => "PlusPlus"
  | .decrement => "MinusMinus"
  | .file => "File"
  | .packageDeclaration => "PackageDeclaration"
  | .importDeclaration => "ImportDeclaration"
  | .classDeclaration => "ClassDeclaration"
  | .method => "Method"
  | .field => "Field"
  | .enumConstant => "EnumConstant"
  | .initializer => "Initializer"
  | .modifierList => "ModifierList"
  | .typeReference => "Type"
  | .parameterList => "ParameterList"
  | .parameter => "Parameter"
  | .throwsList => "ThrowsList"
  | .codeBlock => "CodeBlock"
  | .blockStatement => "BlockStatement"
  | .expressionStatement => "ExpressionStatement"
  | .declarationStatement => "DeclarationStatement"
  | .localVariable => "LocalVariable"
  | .ifStatement => "IfStatement"
  | .whileStatement => "WhileStatement"
  | .doWhileStatement => "DoWhileStatement"
  | .forStatement => "ForStatement"
  | .foreachStatement => "ForeachStatement"
  | .switchStatement => "SwitchStatement"
  | .switchLabel => "SwitchLabel"
  | .tryStatement => "TryStatement"
  | .catchSection => "CatchSection"
  | .synchronizedStatement => "SynchronizedStatement"
  | .returnStatement => "ReturnStatement"
  | .throwStatement => "ThrowStatement"
  | .breakStatement => "BreakStatement"
  | .continueStatement => "ContinueStatement"
  | .emptyStatement => "EmptyStatement"
  | .assignment => "Assignment"
  | .conditionalExpression => "Conditional"
  | .binaryExpression => "Binary"
  | .instanceofExpression => "InstanceofExpression"
  | .unaryExpression => "Unary"
  | .postfixExpression => "Postfix"
  | .typeCast => "TypeCast"
  | .parenthesized => "Parenthesized"
  | .fieldAccess => "FieldAccess"
  | .arrayAccess => "ArrayAccess"
  | .methodCall => "MethodCall"
  | .argumentList => "ArgumentList"
  | .newExpression => "NewExpression"
  | .arrayInitializer => "ArrayInitializer"

/-- Every kind. -/
def all : List Kind :=
  [.endOfFile, .error, .whitespace, .lineComment, .blockComment, .identifier, .numberLiteral,
   .stringLiteral, .charLiteral, .boolLiteral, .nullLiteral, .packageKeyword, .importKeyword,
   .classKeyword, .interfaceKeyword, .enumKeyword, .extendsKeyword, .implementsKeyword,
   .throwsKeyword, .voidKeyword, .primitiveType, .modifier, .synchronizedKeyword, .ifKeyword,
   .elseKeyword, .whileKeyword, .doKeyword, .forKeyword, .switchKeyword, .caseKeyword,
   .defaultKeyword, .tryKeyword, .catchKeyword, .finallyKeyword, .returnKeyword, .throwKeyword,
   .breakKeyword, .continueKeyword, .newKeyword, .thisKeyword, .superKeyword, .instanceofKeyword,
   .leftParen, .rightParen, .leftBrace, .rightBrace, .leftBracket, .rightBracket, .semicolon,
   .comma, .dot, .colon, .question, .atSign, .arrow, .assign, .compoundAssign, .equal, .notEqual,
   .less, .greater, .lessEqual, .greaterEqual, .plus, .minus, .star, .slash, .percent, .logicalAnd,
   .logicalOr, .bitAnd, .bitOr, .bitXor, .logicalNot, .bitNot, .increment, .decrement, .file,
   .packageDeclaration, .importDeclaration, .classDeclaration, .method, .field, .enumConstant,
   .initializer, .modifierList, .typeReference, .parameterList, .parameter, .throwsList,
   .codeBlock, .blockStatement, .expressionStatement, .declarationStatement, .localVariable,
   .ifStatement, .whileStatement, .doWhileStatement, .forStatement, .foreachStatement,
   .switchStatement, .switchLabel, .tryStatement, .catchSection, .synchronizedStatement,
   .returnStatement, .throwStatement, .breakStatement, .continueStatement, .emptyStatement,
   .assignment, .conditionalExpression, .binaryExpression, .instanceofExpression, .unaryExpression,
   .postfixExpression, .typeCast, .parenthesized, .fieldAccess, .arrayAccess, .methodCall,
   .argumentList, .newExpression, .arrayInitializer]

/-- The kind that a word identifies. -/
def ofTag? (word : String) : Option Kind :=
  all.find? (·.tag = word)

end StatementCompletion.Kind
