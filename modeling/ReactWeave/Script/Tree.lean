/-!
# ReactWeave.Script.Tree

The **concrete syntax tree** of a piece of script.

A tree is lossless: the texts of its leaves, read from left to right, are the
text that was parsed, blanks and comments included. There are no positions;
the span of a part is where its text stands among the texts of its siblings,
so the spans of the parts of a node are ordered, disjoint and inside the span
of the node by construction.

* `Kind` names what a part is, `Role` what it is to the node that holds it.
* `Tree.text` gives the text back.
* `Tree.part?` looks a part up by its role.
-/

namespace ReactWeave.Script

/-- What a part of a tree is. Punctuation and keywords are `symbol`s; all other
kinds are named. -/
inductive Kind where
  | symbol | comment | htmlComment | hashBang | program
  | identifier | propertyIdentifier | privatePropertyIdentifier
  | shorthandPropertyIdentifier | shorthandPropertyIdentifierPattern | statementIdentifier
  | number | string | stringFragment | escapeSequence | templateString | templateSubstitution
  | regex | regexPattern | regexFlags | true | false | null | this | super | undefined | import
  | metaProperty | optionalChain
  | object | pair | method | spread | array | parens | parenthesized | sequence
  | arguments | call | member | subscript | new | await | yield | unary | update | binary | ternary
  | assignment | augmentedAssignment | arrowFunction | functionExpression | generatorFunction
  | classExpression | classHeritage | classBody | classStaticBlock | field | decorator
  | computedName
  | formalParameters | objectPattern | arrayPattern | pairPattern | restPattern
  | assignmentPattern | objectAssignmentPattern
  | expressionStatement | emptyStatement | block | variableDeclaration | lexicalDeclaration
  | variableDeclarator | functionDeclaration | generatorFunctionDeclaration
  | classDeclaration | ifStatement | elseClause | switchStatement | switchBody | switchCase
  | switchDefault | forStatement | forInStatement | whileStatement | doStatement | tryStatement
  | catchClause | finallyClause | withStatement | breakStatement | continueStatement
  | debuggerStatement | returnStatement | throwStatement | labeledStatement
  | importStatement | importClause | namespaceImport | namedImports | importSpecifier
  | importAttribute | exportStatement | exportClause | exportSpecifier | namespaceExport
  | jsxElement | jsxOpeningElement | jsxClosingElement | jsxSelfClosingElement | jsxAttribute
  | jsxExpression | jsxText | jsxNamespaceName | htmlCharacterReference
  deriving DecidableEq, Repr

/-- What a part is to the node that holds it. -/
inductive Role where
  | object | property | optionalChain | index | function | arguments | constructor
  | left | right | operator | argument | condition | consequence | alternative
  | key | value | name | kind | parameter | parameters | body | label | decorator | member
  | pattern | flags | declaration | source | alias | initializer | increment | handler | finalizer
  | openTag | closeTag | attribute
  deriving DecidableEq, Repr

/-- A concrete syntax tree. -/
inductive Tree where
  /-- Blanks between two tokens. -/
  | gap (text : List Char)
  /-- A leaf: a word, a mark, a number, a piece of a string, a comment. -/
  | token (kind : Kind) (role : Option Role) (text : List Char)
  /-- A construct and its parts, gaps and comments between them included. -/
  | node (kind : Kind) (role : Option Role) (parts : List Tree)
  deriving Repr

namespace Tree

mutual

/-- The text a tree was read from. -/
def text : Tree → List Char
  | gap t => t
  | token _ _ t => t
  | node _ _ parts => textOf parts

/-- The text of neighbouring trees. -/
def textOf : List Tree → List Char
  | [] => []
  | t :: ts => text t ++ textOf ts

end

/-- What the root of a tree is; a gap is nothing in particular. -/
def kind? : Tree → Option Kind
  | gap _ => none
  | token k _ _ => some k
  | node k _ _ => some k

/-- What the tree is to the node that holds it. -/
def role? : Tree → Option Role
  | gap _ => none
  | token _ r _ => r
  | node _ r _ => r

/-- The tree in another role. -/
def withRole (r : Role) : Tree → Tree
  | gap t => gap t
  | token k _ t => token k (some r) t
  | node k _ parts => node k (some r) parts

/-- The direct parts; a leaf has none. -/
def parts : Tree → List Tree
  | node _ _ ps => ps
  | _ => []

/-- Gaps and comments stand between the parts of a construct and are none of them. -/
def isTrivia : Tree → Bool
  | gap _ => true
  | token .comment _ _ => true
  | _ => false

/-- Whether the root is of kind `k`. -/
def isKind (k : Kind) (t : Tree) : Bool := t.kind? == some k

/-- Whether the tree is the mark or keyword `s`. -/
def isSymbol (s : List Char) : Tree → Bool
  | token .symbol _ t => t == s
  | _ => false

/-- The first direct part in a role. -/
def part? (t : Tree) (r : Role) : Option Tree :=
  t.parts.find? fun p => p.role? == some r

end Tree

end ReactWeave.Script
