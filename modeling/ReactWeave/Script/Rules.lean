import ReactWeave.Script.Lexis
import ReactWeave.Script.Reshape

/-!
# ReactWeave.Script.Rules

The **grammar of the script language**: statements, expressions, patterns,
functions, classes, modules and markup.

The grammar is purely syntactic. It accepts `return`, `await`, `yield` and
`super` anywhere, declarations without a value, and an assignment to an
optional member. Three rules deserve a word.

* An assignment is read wherever its left side is, so `a && b = c` is
  `a && (b = c)`.
* A brace where a statement or the body of an arrow function may start opens an
  object if it can be read as one that has a member other than a lone name, and
  a block otherwise. A reserved word behind the brace makes it a block.
* A list in parentheses, an array and an object are read as literals and put
  into the form of a pattern if what follows asks for it
  (`ReactWeave.Script.Reshape`).
-/

namespace ReactWeave.Script

open Grammar

/-- The rules of the language. -/
inductive Rule where
  | program | statement | block | expressionStatement | semicolon
  | declarator | functionRest | classRest | classBody | classMember | method | propertyName
  | switchBody | forHeader | importClause | exportClause | decorator | decorators
  | expressions | expression | element | ternary
  | coalesce | disjunction | conjunction | bitOr | bitXor | bitAnd | equality | relation | shift
  | sum | product | power | unary | operand | chain | primary | creation
  | parens | arguments | array | object | member | spread | string | template | regex
  | arrowBody | parameters | parameter | bindingTarget | bindingPattern
  | objectPattern | arrayPattern
  | jsx | jsxName | jsxAttribute | jsxChild | jsxExpression
  deriving DecidableEq, Repr

namespace Rules

/-- Grammars of the language. -/
abbrev G := Grammar Rule

/-! ## Tokens -/

/-- The mark `w`. -/
def mark (w : String) : G := token .symbol (Lexis.mark w.toList [])

/-- The mark `w`, not followed by one of the characters of `stop`. -/
def markBut (w stop : String) : G := token .symbol (Lexis.mark w.toList stop.toList)

/-- The keyword `w`. -/
def word (w : String) : G := token .symbol (Lexis.keyword w.toList)

/-- A name that is bound or referred to. -/
def identifier : G := token .identifier (Lexis.name Lexis.isIdentifier)

/-- Any word in the place of a member's name. -/
def memberName : G := token .propertyIdentifier (Lexis.name fun _ => true)

/-- A private member's name. -/
def privateName : G := token .privatePropertyIdentifier Lexis.privateName

/-- A word that stands for a value, as a leaf of its own kind. -/
def valueWord (k : Kind) (w : String) : G := token k (Lexis.keyword w.toList)

/-- Succeeds where a statement may not end without a semicolon. -/
def unfinished : G := absent (check Lexis.endsStatement)

/-- Items separated by commas, in which an item may be missing. -/
def commaList (item : G) : G :=
  seq (opt item) (many (seq (mark ",") (opt item)))

/-- One or more items separated by commas. -/
def commaList1 (item : G) : G :=
  seq item (many (seq (mark ",") item))

/-- Several expressions become one sequence. -/
def sequence (item : G) : G :=
  reshape (fun ts => some (Reshape.asSequence ts)) (commaList1 item)

/-! ## Operators -/

/-- How an operand goes on as the left operand of one of the operators. -/
def binaryWay (operator right : G) : Continuation × G :=
  (⟨.binary, Reshape.asPart .left⟩,
    seq (field .operator operator) (field .right right))

/-- A level of operators that group to the left. -/
def leftLevel (operators : List G) (next : Rule) : G :=
  grow (rule next) true [binaryWay (alts operators) (rule next)]

/-- The operators that combine with an assignment. -/
def compoundAssignment : G :=
  alts <| ["+=", "-=", "**=", "*=", "/=", "%=", "^=", "&&=", "||=", "??=", "&=", "|=", ">>>=",
    ">>=", "<<="].map mark

/-! ## Members of chains -/

/-- The question mark and dot of an optional member. -/
def optionalDot : G :=
  field .optionalChain (seq
    (absent (seq (mark "?.") (glued .number (Lexis.runOf Char.isDigit))))
    (token .optionalChain (Lexis.mark "?.".toList [])))

/-- A member's name behind a dot. -/
def property : G := field .property (alt privateName memberName)

/-- An index in brackets. -/
def index : G := seqs [mark "[", field .index (rule .expressions), mark "]"]

/-- A construct goes on, in this role, as a construct of this kind. -/
def goesOn (k : Kind) (r : Role) (rest : G) : Continuation × G :=
  (⟨k, Reshape.asPart r⟩, rest)

/-- Access to members, which binds closest. -/
def accessWays : List (Continuation × G) :=
  [goesOn .member .object (seq (mark ".") property),
    goesOn .member .object (seq optionalDot property),
    goesOn .subscript .object (seq (opt optionalDot) index),
    goesOn .call .function (field .arguments (rule .template))]

/-- Calls. -/
def callWays : List (Continuation × G) :=
  [goesOn .call .function (seq (opt optionalDot) (field .arguments (rule .arguments)))]

/-! ## Functions and classes -/

/-- A star, which makes a function a generator. -/
def star : G := mark "*"

/-- A function with these tokens in front of its parameters. -/
def function (k : Kind) (head : List G) : G :=
  node k (seqs (head ++ [rule .functionRest]))

/-- The kinds of functions whose name is `name`. -/
def functions (plain generator : Kind) (name : G) : G :=
  alt
    (function generator [opt (seq (word "async") unfinished), word "function", star, name])
    (function plain [opt (seq (word "async") unfinished), word "function", name])

/-- A word in front of a member's name that is not the name itself. -/
def modifier (w : String) : G :=
  seq (word w) (absent (alts (["(", ",", ":", "\x7d", "=", ";"].map mark)))

/-- The name of a declaration. -/
def declaredName : G := field .name identifier

/-! ## Objects and patterns -/

/-- A lone name in an object. -/
def shorthand (k : Kind) : G := token k (Lexis.name fun _ => true)

/-- A lone name with a default value, in a pattern. -/
def shorthandWithDefault (value : G) : G :=
  node .objectAssignmentPattern (seqs [field .left (shorthand .shorthandPropertyIdentifierPattern),
    markBut "=" "=>", field .right value])

/-- A pattern that may have a default value. -/
def withDefault (target : G) : G :=
  grow target false [goesOn .assignmentPattern .left
    (seq (markBut "=" "=>") (field .right (rule .expression)))]

/-- Succeeds in front of a brace that may open an object. -/
def mayOpenObject : G := check fun s =>
  match Lexis.behindGap s with
  | '{' :: rest =>
    let ahead := Lexis.behindGap rest
    Lexis.isLabel (ahead.take (Lexis.nameLength ahead))
  | _ => false

/-- Succeeds where no brace is next. -/
def noBrace : G := absent (mark "\x7b")

/-- An expression that starts with an object rather than a block. -/
def fromObject (body : G) : G :=
  seq mayOpenObject (reshape Reshape.startsWithMembers body)

/-! ## Statements -/

/-- The condition of a statement. -/
def condition : G :=
  reshape (fun ts => Reshape.complete ts) (reshape Reshape.asParenthesized (rule .parens))

/-- A statement that a word and a semicolon enclose. -/
def simple (k : Kind) (w : String) (body : G) : G :=
  node k (seqs [word w, body, rule .semicolon])

/-- A declaration of variables. -/
def declaration (k : Kind) (head : G) (close : G) : G :=
  node k (seqs [head, commaList1 (rule .declarator), close])

/-- The declarations of variables, closed by `close`. -/
def declarations (close : G) : G :=
  alts [declaration .variableDeclaration (word "var") close,
    declaration .lexicalDeclaration (field .kind (alt (word "let") (word "const"))) close]

/-- Succeeds unless `let of` is next, which in the head of a loop is a name and a keyword. -/
def declares : G := absent (seq (word "let") (word "of"))

/-- Succeeds where a statement may be an expression that no brace opens: `let [` always declares. -/
def notDeclared : G := seq noBrace (absent (seq (word "let") (mark "[")))

/-- The name under which a module exports something. -/
def exportName : G := alts [identifier, rule .string, word "default"]

/-- The module an import or export refers to. -/
def fromModule : G := seq (word "from") (field .source (rule .string))

/-- The names a clause of a module statement lists. -/
def nameList (item : G) : G :=
  seqs [mark "\x7b", opt (seq (commaList1 item) (opt (mark ","))), mark "\x7d"]

/-- A statement in which the body follows a condition. -/
def guarded (k : Kind) (w : String) (r : Role) : G :=
  node k (seqs [word w, field r condition, field .body (rule .statement)])

/-! ## Markup -/

/-- A closing angle bracket. -/
def closeAngle : G := mark ">"

/-- A name in markup. -/
def dashedName (k : Kind) : G := token k Lexis.dashedName

/-- A name with a name space in front. -/
def namespaced : G :=
  node .jsxNamespaceName (seqs [dashedName .identifier, mark ":", dashedName .identifier])

end Rules

open Rules in
/-- What each rule of the language reads. -/
def rules : Rule → Grammar Rule
  -- Programs
  | .program =>
    seqs [opt (token .hashBang Lexis.hashBang), many (rule .statement), gap,
      check List.isEmpty]
  -- Statements
  | .semicolon => alt (mark ";") (check Lexis.endsStatement)
  | .block => node .block (seqs [mark "\x7b", many (rule .statement), mark "\x7d"])
  | .expressionStatement =>
    node .expressionStatement (seq (rule .expressions) (rule .semicolon))
  | .statement => alts [
      node .emptyStatement (mark ";"),
      fromObject (rule .expressionStatement),
      rule .block,
      functions .functionDeclaration .generatorFunctionDeclaration declaredName,
      node .classDeclaration (seqs [rule .decorators, word "class", declaredName,
        rule .classRest]),
      declarations (rule .semicolon),
      node .ifStatement (seqs [word "if", field .condition condition,
        field .consequence (rule .statement),
        opt (field .alternative (node .elseClause (seq (word "else") (rule .statement))))]),
      node .switchStatement (seqs [word "switch", field .value condition,
        field .body (rule .switchBody)]),
      node .forInStatement (seqs [word "for", opt (word "await"), mark "(", rule .forHeader,
        mark ")", field .body (rule .statement)]),
      node .forStatement (seqs [word "for", mark "(",
        alts [seq declares (field .initializer (declarations (mark ";"))),
          seq (field .initializer (rule .expressions)) (mark ";"),
          field .initializer (node .emptyStatement (mark ";"))],
        alts [seq (field .condition (rule .expressions)) (mark ";"),
          field .condition (node .emptyStatement (mark ";"))],
        opt (field .increment (rule .expressions)), mark ")", field .body (rule .statement)]),
      guarded .whileStatement "while" .condition,
      node .doStatement (seqs [word "do", field .body (rule .statement), word "while",
        field .condition condition, opt (rule .semicolon)]),
      node .tryStatement (seqs [word "try", field .body (rule .block),
        opt (field .handler (node .catchClause (seqs [word "catch",
          opt (seqs [mark "(", field .parameter (alt (rule .bindingPattern) identifier),
            mark ")"]),
          field .body (rule .block)]))),
        opt (field .finalizer (node .finallyClause (seq (word "finally")
          (field .body (rule .block)))))]),
      guarded .withStatement "with" .object,
      simple .breakStatement "break" (opt (seq unfinished
        (field .label (token .statementIdentifier (Lexis.name Lexis.isIdentifier))))),
      simple .continueStatement "continue" (opt (seq unfinished
        (field .label (token .statementIdentifier (Lexis.name Lexis.isIdentifier))))),
      simple .debuggerStatement "debugger" empty,
      simple .returnStatement "return" (opt (seq unfinished (rule .expressions))),
      simple .throwStatement "throw" (rule .expressions),
      node .importStatement (seqs [word "import",
        alt (seq (rule .importClause) fromModule) (field .source (rule .string)),
        opt (node .importAttribute (seq (word "with") (rule .object))), rule .semicolon]),
      node .exportStatement (seqs [word "export",
        alts [seq (mark "*") fromModule,
          seq (node .namespaceExport (seqs [mark "*", word "as", exportName])) fromModule,
          seq (rule .exportClause) fromModule,
          rule .exportClause],
        rule .semicolon]),
      node .exportStatement (seqs [rule .decorators, word "export", opt (word "default"),
        field .declaration (alts [
          functions .functionDeclaration .generatorFunctionDeclaration declaredName,
          node .classDeclaration (seqs [rule .decorators, word "class", declaredName,
            rule .classRest]),
          declarations (rule .semicolon)])]),
      node .exportStatement (seqs [word "export", word "default",
        field .value (rule .expression), rule .semicolon]),
      node .labeledStatement (seqs [
        field .label (token .statementIdentifier (Lexis.name Lexis.isLabel)), mark ":",
        field .body (rule .statement)]),
      seq notDeclared (rule .expressionStatement),
      token .htmlComment Lexis.markupComment]
  | .declarator =>
    node .variableDeclarator (seq
      (field .name (alt (rule .bindingPattern) identifier))
      (opt (seq (markBut "=" "=>") (field .value (rule .expression)))))
  | .switchBody =>
    node .switchBody (seqs [mark "\x7b",
      many (alt
        (node .switchCase (seqs [word "case", field .value (rule .expressions), mark ":",
          many (field .body (rule .statement))]))
        (node .switchDefault (seqs [word "default", mark ":",
          many (field .body (rule .statement))]))),
      mark "\x7d"])
  | .forHeader =>
    seqs [
      alts [
        seqs [field .kind (word "var"), field .left (alt (rule .bindingPattern) identifier),
          opt (seq (markBut "=" "=>") (field .value (rule .operand)))],
        seqs [declares, field .kind (alt (word "let") (word "const")),
          field .left (alt (rule .bindingPattern) identifier)],
        reshape Reshape.asLoopTarget (rule .chain)],
      field .operator (alt (word "in") (word "of")),
      field .right (rule .expressions)]
  | .importClause =>
    let list := node .namedImports (nameList (node .importSpecifier (alt
      (seqs [field .name exportName, word "as", field .alias identifier])
      (field .name identifier))))
    let whole := node .namespaceImport (seqs [mark "*", word "as", identifier])
    node .importClause (alts [whole, list,
      seq identifier (opt (seq (mark ",") (alt whole list)))])
  | .exportClause =>
    node .exportClause (nameList (node .exportSpecifier (seq (field .name exportName)
      (opt (seq (word "as") (field .alias exportName))))))
  -- Functions and classes
  | .functionRest => seq (rule .parameters) (field .body (rule .block))
  | .parameters =>
    field .parameters (node .formalParameters (seqs [mark "(",
      opt (seq (commaList1 (rule .parameter)) (opt (mark ","))), mark ")"]))
  | .parameter => alt
      (node .restPattern (seq (mark "...") (rule .bindingTarget)))
      (withDefault (rule .bindingTarget))
  | .decorators => many (field .decorator (rule .decorator))
  | .decorator =>
    node .decorator (seq (mark "@") (alt
      (reshape Reshape.asParenthesized (rule .parens))
      (grow identifier true [goesOn .member .object (seq (mark ".") property),
        goesOn .call .function (field .arguments (rule .arguments))])))
  | .classRest => seq
      (opt (node .classHeritage (seq (word "extends") (rule .expression))))
      (field .body (rule .classBody))
  | .classBody =>
    node .classBody (seqs [mark "\x7b", many (rule .classMember), mark "\x7d"])
  | .classMember => alts [
      mark ";",
      field .member (node .classStaticBlock (seq (word "static") (field .body (rule .block)))),
      field .member (rule .method),
      seq (field .member (node .field (seqs [rule .decorators, opt (modifier "static"),
        field .property (rule .propertyName),
        opt (seq (markBut "=" "=>") (field .value (rule .expression)))])))
        (rule .semicolon)]
  | .method =>
    node .method (seqs [rule .decorators, opt (modifier "static"), opt (modifier "async"),
      opt (alts [modifier "get", modifier "set", star]),
      field .name (rule .propertyName), rule .parameters, field .body (rule .block)])
  | .propertyName => alts [
      memberName, privateName, rule .string, token .number Lexis.number,
      node .computedName (seqs [mark "[", rule .expression, mark "]"])]
  -- Expressions
  | .expressions => reshape Reshape.complete (sequence (rule .element))
  | .expression => reshape Reshape.complete (rule .element)
  | .element => rule .ternary
  | .ternary =>
    grow (rule .coalesce) false [goesOn .ternary .condition (seqs [
      seq (absent (alt (mark "??") optionalDot)) (mark "?"),
      field .consequence (rule .element), mark ":", field .alternative (rule .element)])]
  | .coalesce => leftLevel [markBut "??" "="] .disjunction
  | .disjunction => leftLevel [markBut "||" "="] .conjunction
  | .conjunction => leftLevel [markBut "&&" "="] .bitOr
  | .bitOr => leftLevel [markBut "|" "|="] .bitXor
  | .bitXor => leftLevel [markBut "^" "="] .bitAnd
  | .bitAnd => leftLevel [markBut "&" "&="] .equality
  | .equality => leftLevel [mark "===", mark "!==", mark "==", mark "!="] .relation
  | .relation => leftLevel [markBut "<=" "", markBut "<" "<=", mark ">=", markBut ">" ">=",
      word "instanceof", word "in"] .shift
  | .shift => leftLevel [markBut "<<" "=", markBut ">>>" "=", markBut ">>" ">="] .sum
  | .sum => leftLevel [markBut "+" "+=", markBut "-" "-="] .product
  | .product => leftLevel [markBut "*" "*=", markBut "/" "=", markBut "%" "="] .power
  | .power => grow (rule .unary) false [binaryWay (markBut "**" "=") (rule .power)]
  | .unary => alts [
      node .update (seq (field .operator (alt (mark "++") (mark "--")))
        (field .argument (rule .unary))),
      node .unary (seq
        (field .operator (alts [mark "!", mark "~", mark "-", mark "+", word "typeof",
          word "void", word "delete"]))
        (field .argument (rule .unary))),
      node .await (seq (word "await") (rule .unary)),
      node .yield (seq (word "yield") (opt (alt (seq star (rule .element))
        (seq unfinished (rule .element))))),
      grow (rule .operand) false [goesOn .update .argument (seq unfinished
        (field .operator (alt (mark "++") (mark "--"))))],
      seq privateName (ahead (word "in"))]
  | .operand =>
    grow (rule .chain) false [
      (⟨.assignment, Reshape.asTarget⟩, seq (markBut "=" "=>") (field .right (rule .element))),
      (⟨.augmentedAssignment, Reshape.asPlace⟩,
        seq (field .operator compoundAssignment) (field .right (rule .element)))]
  | .chain =>
    grow (alts [
      node .metaProperty (seqs [word "new", mark ".", word "target"]),
      rule .creation,
      node .metaProperty (seqs [word "import", mark ".", word "meta"]),
      seq (valueWord .import "import") (ahead (mark "(")),
      rule .primary]) true (accessWays ++ callWays)
  | .creation =>
    node .new (seqs [word "new",
      field .constructor (grow (alt (rule .creation) (rule .primary)) true accessWays),
      opt (field .arguments (rule .arguments))])
  | .primary => alts [
      functions .functionExpression .generatorFunction (opt declaredName),
      node .classExpression (seqs [rule .decorators, word "class", opt declaredName,
        rule .classRest]),
      node .arrowFunction (seqs [word "async", unfinished, field .parameter identifier, mark "=>",
        rule .arrowBody]),
      node .arrowFunction (seqs [word "async", unfinished,
        reshape Reshape.asParameters (rule .parens), mark "=>", rule .arrowBody]),
      node .arrowFunction (seqs [
        field .parameter (token .identifier (Lexis.name Lexis.isLabel)), mark "=>",
        rule .arrowBody]),
      reshape Reshape.asParenthesized (grow (rule .parens) false
        [(⟨.arrowFunction, Reshape.asParameters⟩, seq (mark "=>") (rule .arrowBody))]),
      rule .array, rule .object, rule .template, rule .string, token .number Lexis.number,
      valueWord .this "this", valueWord .super "super", valueWord .true "true",
      valueWord .false "false", valueWord .null "null", valueWord .undefined "undefined",
      identifier, rule .jsx, rule .regex]
  | .arrowBody => field .body (alts [
      fromObject (rule .expression), rule .block, seq noBrace (rule .element)])
  | .parens =>
    node .parens (seqs [mark "(", commaList (alt (rule .spread) (rule .element)), mark ")"])
  | .arguments =>
    node .arguments (seqs [mark "(",
      reshape Reshape.complete (commaList (alt (rule .spread) (rule .element))), mark ")"])
  | .array =>
    node .array (seqs [mark "[", commaList (alt (rule .spread) (rule .element)), mark "]"])
  | .spread => node .spread (seq (mark "...") (rule .element))
  | .object =>
    node .object (seqs [mark "\x7b", commaList (rule .member), mark "\x7d"])
  | .member => alts [
      rule .spread,
      node .pair (seqs [field .key (rule .propertyName), mark ":",
        field .value (rule .element)]),
      rule .method,
      shorthandWithDefault (rule .element),
      shorthand .shorthandPropertyIdentifier]
  | .string =>
    let quoted := fun (q : Char) => node .string (seqs [
      token .symbol (Lexis.mark [q] []),
      many (alt (glued .stringFragment (Lexis.stringFragment q))
        (glued .escapeSequence Lexis.escapeSequence)),
      glued .symbol (Lexis.mark [q] [])])
    alt (quoted '\x22') (quoted '\x27')
  | .template =>
    node .templateString (seqs [mark "\x60",
      many (alts [glued .stringFragment Lexis.templateFragment,
        glued .escapeSequence Lexis.escapeSequence,
        node .templateSubstitution (seqs [glued .symbol (Lexis.mark "$\x7b".toList []),
          rule .expressions, mark "\x7d"])]),
      glued .symbol (Lexis.mark "\x60".toList [])])
  | .regex =>
    node .regex (seqs [mark "/", field .pattern (glued .regexPattern Lexis.regexPattern),
      glued .symbol (Lexis.mark "/".toList []),
      opt (field .flags (glued .regexFlags
        (Lexis.runOf fun c => 97 ≤ c.toNat && c.toNat ≤ 122)))])
  -- Patterns
  | .bindingPattern => alt (rule .objectPattern) (rule .arrayPattern)
  | .bindingTarget => alt (rule .bindingPattern)
      (reshape Reshape.asBindingTarget (rule .chain))
  | .objectPattern =>
    node .objectPattern (seqs [mark "\x7b",
      commaList (alts [
        node .restPattern (seq (mark "...") (rule .bindingTarget)),
        node .pairPattern (seqs [field .key (rule .propertyName), mark ":",
          field .value (withDefault (rule .bindingTarget))]),
        shorthandWithDefault (rule .expression),
        shorthand .shorthandPropertyIdentifierPattern]),
      mark "\x7d"])
  | .arrayPattern =>
    node .arrayPattern (seqs [mark "[", commaList (rule .parameter), mark "]"])
  -- Markup
  | .jsx => alt
      (node .jsxSelfClosingElement (seqs [markBut "<" "/!", field .name (rule .jsxName),
        many (field .attribute (rule .jsxAttribute)), mark "/>"]))
      (node .jsxElement (seqs [
        field .openTag (node .jsxOpeningElement (seqs [markBut "<" "/!",
          opt (seq (field .name (rule .jsxName))
            (many (field .attribute (rule .jsxAttribute)))), closeAngle])),
        many (rule .jsxChild),
        field .closeTag (node .jsxClosingElement (seqs [mark "</",
          opt (field .name (rule .jsxName)), closeAngle]))]))
  | .jsxName => alts [
      namespaced,
      grow (dashedName .identifier) true
        [goesOn .member .object (seq (mark ".") (field .property memberName))]]
  | .jsxAttribute => alt
      (rule .jsxExpression)
      (node .jsxAttribute (seq
        (alt namespaced (dashedName .propertyIdentifier))
        (opt (seq (mark "=") (alts [token .string Lexis.attributeString, rule .jsxExpression,
          rule .jsx])))))
  | .jsxChild => alts [
      glued .jsxText Lexis.jsxText,
      token .htmlCharacterReference Lexis.characterReference,
      rule .jsxExpression,
      rule .jsx]
  | .jsxExpression =>
    node .jsxExpression (seqs [mark "\x7b",
      opt (alt (node .spread (seq (mark "...") (rule .expression))) (rule .expressions)),
      mark "\x7d"])

/-- Reads a whole text as a program: the blanks in front of it, and the tree of the rest. -/
def readProgram (s : List Char) : Option (List Char × Tree) :=
  match run Lexis.lexicon rules (256 * (s.length + 16)) (.rule .program) s with
  | some (ts, _) =>
    match ts with
    | .gap lead :: rest => some (lead, .node .program none rest)
    | rest => some ([], .node .program none rest)
  | none => none

end ReactWeave.Script
