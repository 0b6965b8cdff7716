import JavaAtlas.Java.Rule

/-!
# The grammar of Java

The rules by which a source text is read.  Keywords are contextual: a word is a
keyword only where the grammar could use it as one, and an identifier anywhere
else.  The grammar is more permissive than a compiler: modifiers stand in any
number and order, bodies may be missing, and assignments may stand wherever an
expression may.

Expressions are read flat.  Whether an operator binds more tightly than another
makes no difference to the declarations inside an expression, so the rules only
say which sequences of operands and operators are expressions.

Main definitions:

- `Symbol`: the recursive parts of the grammar.
- `Grammar.table`: the rule of each symbol.
-/

namespace JavaAtlas.Java

/-- The parts of the grammar that refer to each other. -/
inductive Symbol where
  | program
  | group
  | annotationMark
  | elementValue
  | type
  | annotatedType
  | simpleType
  | typeArguments
  | typeParameters
  | modifiers
  | typeDeclaration
  /-- A declaration of a type among the members of another one. -/
  | memberTypeDeclaration
  | annotationBodyDeclaration
  | classBody
  | interfaceBody
  | enumBody
  | annotationTypeBody
  | classMember
  | formalParameters
  | block
  | constructorBody
  | statement
  | topStatement
  | variableDeclarator
  | arrayInitializer
  | expression
  /-- An expression of a switch label, which ends before an arrow. -/
  | labelExpression
  | operand
  | step
  | arguments
  | creation
  | switchExpression
  | recordPattern
  | textLiteral
  deriving DecidableEq, Repr

namespace Grammar

open Rule

/-- A rule of this grammar. -/
abbrev Part := Rule Symbol

/-! ## Words and marks -/

/-- A keyword, or a word used as one. -/
def keyword (w : String) : Part := .token (.word w)

/-- A punctuation mark or an operator. -/
def mark (m : String) : Part := .token (.mark m)

/-- Any word. -/
def word : Part := .token (.name [])

/-- Any word but the given ones. -/
def wordExcept (reserved : List String) : Part := .token (.name reserved)

/-- One of the keywords. -/
def keywords (ws : List String) : Part := oneOf (ws.map keyword)

/-- One of the marks. -/
def markOf (ms : List String) : Part := oneOf (ms.map mark)

/-- Things in a row with commas between. -/
def commaSeparated (a : Part) : Part := separated a (mark ",")

/-- Things in a row with a separator between, which may be left out altogether.
One more separator may stand at the end, before one of the closing marks. -/
def listed (a : Part) (separator : String) (closing : List String) : Part :=
  maybe
      (a >> many (onlyIf (mark separator >> notAhead (markOf (separator :: closing)))
        (mark separator >> a))) >>
    maybe (mark separator)

/-- The names of the primitive types and of the missing type. -/
def primitiveWords : List String :=
  ["byte", "short", "int", "long", "char", "float", "double", "boolean", "void"]

/-- Words that begin an expression without being identifiers. -/
def operandWords : List String :=
  primitiveWords ++ ["new", "this", "super", "switch", "true", "false", "null"]

/-- Words that modify a declaration. -/
def modifierWords : List String :=
  [ "public", "protected", "private", "abstract", "static", "final", "strictfp", "default",
    "synchronized", "native", "transient", "volatile" ]

/-- Words that begin a declaration or a statement and are never identifiers there. -/
def statementWords : List String :=
  modifierWords ++
    [ "class", "interface", "enum", "import", "package", "if", "while", "for", "do", "break",
      "continue", "return", "throw", "try", "assert" ]

/-- Words that may name values but no types where an expression may begin. -/
def valueWords : List String :=
  ["open", "module", "record", "with", "sealed", "yield"]

/-- Words that are keywords where a statement begins and cannot name a type there. -/
def declarationWords : List String :=
  statementWords ++ valueWords

/-! ## Names and types -/

/-- A name with dots. -/
def qualifiedName : Part :=
  .node .name (word >> many (attempt (mark "." >> word)))

/-- A dotted name where the words after a dot must not begin something else. -/
def dotted : Part :=
  attempt
    (mark "." >> many (.symbol .annotationMark) >> wordExcept ["class", "this", "super", "new"])

/-- A type without dimensions. -/
def typeCore : Part :=
  .node .primitiveType (keywords primitiveWords) <|>
    wordExcept primitiveWords >> maybe (.symbol .typeArguments) >>
      many (dotted >> maybe (.symbol .typeArguments))

/-- Pairs of empty brackets. -/
def dimensions : Part :=
  .node .dimensions (some1 (many (.symbol .annotationMark) >> mark "[" >> mark "]"))

/-- Brackets begin, possibly behind annotations. -/
def typeArgument : Part :=
  many (.symbol .annotationMark) >>
    (mark "?" >> maybe ((keyword "extends" <|> keyword "super") >> .symbol .annotatedType) <|>
      .symbol .type)

/-- One type parameter with its bounds. -/
def typeParameter : Part :=
  many (.symbol .annotationMark) >> word >>
    maybe (keyword "extends" >> separated (.symbol .annotatedType) (mark "&"))

/-! ## Annotations and modifiers -/

/-- An annotation whose arguments are passed over. -/
def annotationSkipped : Part :=
  mark "@" >> word >> many (mark "." >> word) >> maybe (.symbol .group)

/-- The modifier `non-sealed`, written without blanks. -/
def nonSealed : Part :=
  onlyIf (keyword "non" >> .token (.touching "-") >> .token (.touching "sealed"))
    (keyword "non" >> .token (.touching "-") >> .token (.touching "sealed"))

/-- A modifier that is a word. -/
def modifierWord : Part :=
  keywords modifierWords <|> nonSealed <|>
    onlyIf (keyword "sealed" >> (word <|> mark "@")) (keyword "sealed")

/-- Modifiers, with the arguments of annotations passed over. -/
def modifiersSkipped : Part :=
  many (annotationSkipped <|> modifierWord)

/-- Arguments of an annotation: named values, or one value. -/
def annotationArguments : Part :=
  mark "(" >>
    maybe
      (onlyIf (word >> mark "=") (commaSeparated (word >> mark "=" >> .symbol .elementValue)) <|>
        .symbol .elementValue) >>
    mark ")"

/-! ## Declarations of types -/

/-- Types in a row. -/
def typeList : Part :=
  .node .typeList (commaSeparated (.symbol .annotatedType))

/-- The class that a class extends. -/
def superclass : Part :=
  .node .superclass (keyword "extends" >> .symbol .annotatedType)

/-- The interfaces that a class implements. -/
def superInterfaces : Part :=
  .node .superInterfaces (keyword "implements" >> typeList)

/-- The interfaces that an interface extends. -/
def extendsInterfaces : Part :=
  .node .extendsInterfaces (keyword "extends" >> typeList)

/-- The types that may extend a sealed type. -/
def permits : Part :=
  .node .permits (keyword "permits" >> typeList)

/-- A class. -/
def classDeclaration : Part :=
  .node .classDeclaration
    (maybe (.symbol .modifiers) >> keyword "class" >> word >>
      maybe (.symbol .typeParameters) >> maybe superclass >> maybe superInterfaces >>
      maybe permits >> .symbol .classBody)

/-- An interface. -/
def interfaceDeclaration : Part :=
  .node .interfaceDeclaration
    (maybe (.symbol .modifiers) >> keyword "interface" >> word >>
      maybe (.symbol .typeParameters) >> maybe extendsInterfaces >> maybe permits >>
      .symbol .interfaceBody)

/-- An enumeration. -/
def enumDeclaration : Part :=
  .node .enumDeclaration
    (maybe (.symbol .modifiers) >> keyword "enum" >> word >> maybe superInterfaces >>
      .symbol .enumBody)

/-- A record. -/
def recordDeclaration : Part :=
  .node .recordDeclaration
    (maybe (.symbol .modifiers) >> keyword "record" >> word >>
      maybe (.symbol .typeParameters) >> .symbol .formalParameters >>
      maybe superInterfaces >> .symbol .classBody)

/-- An annotation type. -/
def annotationTypeDeclaration : Part :=
  .node .annotationTypeDeclaration
    (maybe (.symbol .modifiers) >> mark "@interface" >> word >> .symbol .annotationTypeBody)

/-- A record declaration begins here; elsewhere the word may name a value. -/
def recordAhead : Part :=
  keyword "record" >> word >> markOf ["(", "<", "\x7b"]

/-- A declaration that the given keyword introduces behind modifiers. -/
def introducedBy (start declaration : Part) : Part :=
  onlyIf (modifiersSkipped >> start) declaration

/-- Declarations of every kind of type but records. -/
def commonTypeDeclarations : List Part :=
  [ introducedBy (keyword "class") classDeclaration,
    introducedBy (keyword "interface") interfaceDeclaration,
    introducedBy (mark "@interface") annotationTypeDeclaration,
    introducedBy (keyword "enum") enumDeclaration ]

/-- A constant of an enumeration. -/
def enumConstant : Part :=
  .node .enumConstant
    (maybe (.symbol .modifiers) >> wordExcept ("sealed" :: modifierWords) >>
      maybe (.symbol .arguments) >> maybe (.symbol .classBody))

/-! ## Members -/

/-- Variables in a row. -/
def declarators : Part :=
  commaSeparated (.symbol .variableDeclarator)

/-- The name of a variable with brackets after it. -/
def variableName : Part :=
  word >> maybe dimensions

/-- A field, or a constant of an interface. -/
def fieldDeclaration : Part :=
  .node .fieldDeclaration
    (maybe (.symbol .modifiers) >> .symbol .type >> declarators >> mark ";")

/-- The exceptions that a method declares. -/
def throwsClause : Part :=
  keyword "throws" >> commaSeparated (.symbol .annotatedType)

/-- A method with a body or without. -/
def methodDeclaration : Part :=
  .node .methodDeclaration
    (maybe (.symbol .modifiers) >>
      maybe (.symbol .typeParameters >> many (.symbol .annotationMark)) >>
      .symbol .type >> word >> .symbol .formalParameters >> maybe dimensions >>
      maybe throwsClause >> (.symbol .block <|> mark ";"))

/-- A method begins here. -/
def methodAhead : Part :=
  modifiersSkipped >> (mark "<" <|> .symbol .type >> word >> mark "(")

/-- A method, recognised by what follows its type. -/
def method : Part :=
  onlyIf methodAhead methodDeclaration

/-- A constructor with its parameters. -/
def constructorDeclaration : Part :=
  .node .constructorDeclaration
    (maybe (.symbol .modifiers) >> maybe (.symbol .typeParameters) >> word >>
      .symbol .formalParameters >> maybe throwsClause >> .symbol .constructorBody)

/-- The constructor of a record that names no parameters. -/
def compactConstructor : Part :=
  .node .constructorDeclaration (maybe (.symbol .modifiers) >> word >> .symbol .block)

/-- Either kind of constructor. -/
def constructors : List Part :=
  [ onlyIf
      (modifiersSkipped >> maybe (.symbol .typeParameters) >> wordExcept primitiveWords >>
        mark "(")
      constructorDeclaration,
    onlyIf (modifiersSkipped >> wordExcept primitiveWords >> mark "\x7b") compactConstructor ]

/-- An element of an annotation type. -/
def annotationElement : Part :=
  .node .annotationElement
    (maybe (.symbol .modifiers) >> .symbol .type >> word >> mark "(" >> mark ")" >>
      maybe dimensions >> maybe (keyword "default" >> .symbol .elementValue) >> mark ";")

/-! ## Parameters -/

/-- Words with dots before `this`. -/
def receiverQualifier : Part :=
  many (attempt (word >> mark "."))

/-- The parameter that stands for the object itself.  Behind annotations it needs
a qualifier; without one `this` is read as the name of an ordinary parameter. -/
def receiverParameter : Part :=
  let qualified := some1 (attempt (word >> mark "."))
  onlyIf
    (.symbol .type >> receiverQualifier >> keyword "this" <|>
      some1 annotationSkipped >> .symbol .type >> qualified >> keyword "this")
    (.node .receiverParameter
      (many (.symbol .annotationMark) >> .symbol .type >> receiverQualifier >> keyword "this"))

/-- A parameter that takes any number of arguments. -/
def spreadParameter : Part :=
  onlyIf (modifiersSkipped >> .symbol .type >> mark "...")
    (.node .spreadParameter
      (maybe (.symbol .modifiers) >> .symbol .type >> mark "..." >>
        many (.symbol .annotationMark) >> .symbol .variableDeclarator))

/-- A parameter that takes one argument. -/
def formalParameter : Part :=
  .node .formalParameter
    (maybe (.symbol .modifiers) >> .symbol .type >> variableName)

/-- A parameter of a method. -/
def parameter : Part :=
  spreadParameter <|> formalParameter

/-! ## Statements -/

/-- An expression in parentheses. -/
def condition : Part :=
  mark "(" >> .symbol .expression >> mark ")"

/-- A type may begin here, and no other expression. -/
def typeStart (reserved : List String) : Part :=
  ahead (keywords primitiveWords <|> wordExcept (operandWords ++ reserved))

/-- A declaration of local variables begins here. -/
def localVariableAhead : Part :=
  modifiersSkipped >> typeStart declarationWords >> .symbol .type >> wordExcept ["instanceof"]

/-- Local variables with their type. -/
def localVariables : Part :=
  maybe (.symbol .modifiers) >> .symbol .type >> declarators

/-- A statement that its first word gives away. -/
def statementOf (body : Part) : Part :=
  .node .statement body

/-- A conditional statement with all its branches. -/
def ifStatement : Part :=
  keyword "if" >> condition >> .symbol .statement >>
    many (onlyIf (keyword "else" >> keyword "if")
      (keyword "else" >> keyword "if" >> condition >> .symbol .statement)) >>
    maybe (keyword "else" >> .symbol .statement)

/-- A loop over a range of values or with a counter. -/
def forStatement : Part :=
  let enhanced :=
    onlyIf (notAhead (keywords valueWords) >> modifiersSkipped >> .symbol .type >>
        variableName >> mark ":")
      (maybe (.symbol .modifiers) >> .symbol .type >> variableName >> mark ":" >>
        .symbol .expression)
  let expressions := maybe (commaSeparated (.symbol .expression))
  let counted :=
    (onlyIf localVariableAhead localVariables <|> expressions) >> mark ";" >>
      maybe (.symbol .expression) >> mark ";" >> expressions
  keyword "for" >> mark "(" >> (enhanced <|> counted) >> mark ")" >> .symbol .statement

/-- A clause that handles exceptions. -/
def catchClause : Part :=
  keyword "catch" >> mark "(" >> maybe (.symbol .modifiers) >>
    separated (.symbol .type) (mark "|") >> variableName >> mark ")" >> .symbol .block

/-- A clause that always runs. -/
def finallyClause : Part :=
  keyword "finally" >> .symbol .block

/-- A value that exists before it is guarded: a plain name, or a member of an object. -/
def existingResource : Part :=
  let name := wordExcept operandWords
  let object :=
    oneOf
      [ keywords ["this", "super"], name >> maybe (.symbol .arguments), .symbol .creation,
        .symbol .textLiteral, condition ]
  let inner := many (attempt (.symbol .step >> ahead (markOf [".", "["])))
  attempt (name >> ahead (markOf [";", ")"])) <|>
    object >> inner >> mark "." >> wordExcept ["new", "class", "super"]

/-- A resource: a new variable, or a value that exists. -/
def resource : Part :=
  onlyIf (modifiersSkipped >> .symbol .type >> variableName >> mark "=")
      (maybe (.symbol .modifiers) >> .symbol .type >> variableName >> mark "=" >>
        .symbol .expression) <|>
    existingResource

/-- A guarded block, with resources or without. -/
def tryStatement : Part :=
  let withResources :=
    mark "(" >> notAhead (mark ";" <|> mark ")") >> listed resource ";" [")"] >> mark ")" >>
      .symbol .block >> many catchClause >> maybe finallyClause
  let plain :=
    .symbol .block >> (some1 catchClause >> maybe finallyClause <|> finallyClause)
  keyword "try" >> (withResources <|> plain)

/-- What may follow `yield` when it is a statement. -/
def yieldStatement : Part :=
  let literal :=
    oneOf [.token (.shape .number), .token (.shape .character), .token (.shape .text),
      .token (.shape .textHead)]
  let value :=
    oneOf
      [ wordExcept ["instanceof"], literal, markOf ["+", "-", "!", "~"],
        markOf ["++", "--"] >> (word <|> mark "("),
        mark "(" >> (mark ")" >> mark "->" <|> notAhead (mark ")")) ]
  onlyIf (keyword "yield" >> value) (keyword "yield" >> .symbol .expression >> mark ";")

/-- A statement that begins with a keyword. -/
def keywordStatements : List Part :=
  [ ifStatement,
    keyword "while" >> condition >> .symbol .statement,
    forStatement,
    keyword "do" >> .symbol .statement >> keyword "while" >> condition >> mark ";",
    keyword "break" >> maybe word >> mark ";",
    keyword "continue" >> maybe word >> mark ";",
    keyword "return" >> maybe (.symbol .expression) >> mark ";",
    yieldStatement,
    keyword "throw" >> .symbol .expression >> mark ";",
    onlyIf (keyword "synchronized" >> mark "(")
      (keyword "synchronized" >> condition >> .symbol .block),
    tryStatement,
    keyword "assert" >> .symbol .expression >> maybe (mark ":" >> .symbol .expression) >>
      mark ";" ]

/-- A package declaration. -/
def packageDeclaration : Part :=
  onlyIf (many annotationSkipped >> keyword "package")
    (.node .packageDeclaration
      (many (.symbol .annotationMark) >> keyword "package" >> qualifiedName >> mark ";"))

/-- An import of a type, of its static members, or of everything below a name. -/
def importDeclaration : Part :=
  .node .importDeclaration
    (keyword "import" >> maybe (keyword "static") >> qualifiedName >>
      maybe (mark "." >> mark "*") >> mark ";")

/-- A line of a module declaration. -/
def moduleDirective : Part :=
  let names := commaSeparated qualifiedName
  oneOf
    [ keyword "requires" >> many (keywords ["transitive", "static"]) >> qualifiedName >>
        mark ";",
      keywords ["exports", "opens"] >> qualifiedName >> maybe (keyword "to" >> names) >>
        mark ";",
      keyword "uses" >> qualifiedName >> mark ";",
      keyword "provides" >> qualifiedName >> keyword "with" >> names >> mark ";" ]

/-- A module declaration. -/
def moduleDeclaration : Part :=
  onlyIf (many annotationSkipped >> maybe (keyword "open") >> keyword "module" >> word)
    (.node .moduleDeclaration
      (many (.symbol .annotationMark) >> maybe (keyword "open") >> keyword "module" >>
        qualifiedName >> mark "\x7b" >> many moduleDirective >> mark "\x7d"))

/-- Statements, with `others` among the declarations. -/
def statements (others : List Part) : Part :=
  oneOf
    ([ mark ";", .symbol .block, .symbol .typeDeclaration, packageDeclaration,
        importDeclaration, moduleDeclaration ] ++
      keywordStatements.map statementOf ++ others ++
      [ onlyIf localVariableAhead (statementOf (localVariables >> mark ";")),
        statementOf
          (onlyIf (wordExcept (operandWords ++ declarationWords) >> mark ":")
            (word >> mark ":" >> .symbol .statement)),
        onlyIf (keyword "switch") (statementOf (.symbol .switchExpression)),
        onlyIf (notAhead (keywords statementWords))
          (statementOf (.symbol .expression >> mark ";")) ])

/-! ## Expressions -/

/-- Operators that assign a value. -/
def assignment : Part :=
  let shift := mark ">" >> .token (.touching ">") >> maybe (.token (.touching ">")) >>
    .token (.touching "=")
  (markOf ["=", "+=", "-=", "*=", "/=", "&=", "|=", "^=", "%=", "<<="] <|> onlyIf shift shift) >>
    .symbol .expression

/-- A member after a dot. -/
def afterDot : Part :=
  oneOf
    [ keyword "super" >> ahead (mark "."),
      .symbol .creation,
      keyword "this" >> maybe assignment,
      keyword "class",
      .symbol .typeArguments >> word >> .symbol .arguments,
      .symbol .textLiteral,
      word >> maybe (.symbol .arguments <|> assignment) ]

/-- The name of a method or a constructor after two colons. -/
def afterColons : Part :=
  maybe (.symbol .typeArguments) >> word

/-- Steps from an object to its parts. -/
def steps : Part :=
  many (.symbol .step)

/-- Names of parameters in parentheses. -/
def parameterNames : Part :=
  mark "(" >> wordExcept (operandWords ++ modifierWords) >> many (mark "," >> word) >> mark ")"

/-- A lambda expression up to its arrow. -/
def lambdaHead : Part :=
  onlyIf (wordExcept operandWords >> mark "->") (word >> mark "->") <|>
    onlyIf (ahead (mark "(" >> notAhead (mark "(")) >> .symbol .group >> mark "->")
      ((onlyIf parameterNames parameterNames <|>
        notAhead (mark "(" >> keywords valueWords) >> .symbol .formalParameters) >> mark "->")

/-- An operand may follow a type in parentheses; `ending` holds the words that
go on with an expression instead. -/
def operandAhead (ending : List String) : Part :=
  oneOf
    [ wordExcept ("instanceof" :: ending),
      .token (.shape .number), .token (.shape .character), .token (.shape .text),
      .token (.shape .textHead), markOf ["(", "!", "~"],
      markOf ["++", "--"] >>
        oneOf [wordExcept ("instanceof" :: ending), .token (.shape .number), mark "("] ]

/-- A type in parentheses before an operand.  A plain name in parentheses before
a sign is an operand itself. -/
def cast (ending : List String) : Part :=
  let plain :=
    mark "(" >> wordExcept (operandWords ++ valueWords) >> many (mark "." >> word) >> mark ")"
  let types := mark "(" >> separated (.symbol .annotatedType) (mark "&") >> mark ")"
  let begins := ahead (mark "(" >> (mark "@" <|> typeStart valueWords))
  onlyIf (attempt (attempt plain >> operandAhead ending) <|>
      attempt (begins >> notAhead plain >> types >>
        (operandAhead ending <|> markOf ["+", "-", "++", "--"])))
    types

/-- A type before two colons or before `.class`. -/
def typeLiteral : Part :=
  let begins :=
    ahead
      (keywords primitiveWords <|> mark "@" <|>
        wordExcept (operandWords ++ valueWords) >> many (attempt (mark "." >> word)) >>
          (mark "<" <|> mark "[" >> mark "]"))
  let ending := mark "::" >> afterColons <|> mark "." >> keyword "class"
  onlyIf (begins >> .symbol .annotatedType >> (mark "::" <|> mark "." >> keyword "class"))
    (.symbol .annotatedType >> ending >> steps)

/-- Operands: values, names, and what is built from them by steps. -/
def operand : Part :=
  oneOf
    [ .token (.shape .number) >> steps, .token (.shape .character) >> steps,
      .symbol .textLiteral >> steps,
      keywords ["true", "false", "null"] >> steps,
      mark "(" >> .symbol .expression >> mark ")" >> steps,
      .symbol .creation >> steps,
      .symbol .switchExpression,
      typeLiteral,
      keyword "this" >> steps,
      keyword "super" >> ahead (mark "." <|> mark "::") >> steps,
      wordExcept operandWords >> maybe (.symbol .arguments <|> assignment) >> steps ]

/-- A test of the type of the value before. -/
def typeTest (ending : List String) : Part :=
  let scopedName := word >> some1 (mark "." >> word) >> mark "("
  keyword "instanceof" >> maybe (keyword "final") >>
    (onlyIf (notAhead scopedName >> .symbol .simpleType >> mark "(") (.symbol .recordPattern) <|>
      .symbol .annotatedType >> maybe (wordExcept ("instanceof" :: ending)))

/-- An operand with what stands before and after it. -/
def unit (prefixes : List Part) (lambda : List Part) (ending : List String) : Part :=
  many (oneOf (markOf ["+", "-", "!", "~", "++", "--"] :: prefixes)) >>
    oneOf (lambda ++ [.symbol .operand]) >>
    many (markOf ["++", "--"] <|> typeTest ending)

/-- An operator between two operands, or both marks of a choice with the value
between them. -/
def operator : Part :=
  let greater :=
    mark ">" >>
      maybe
        (.token (.touching ">") >> maybe (.token (.touching ">")) <|> .token (.touching "="))
  oneOf
    [ markOf ["<", "<=", "==", "!=", "&&", "||", "+", "-", "*", "/", "&", "|", "^", "%", "<<"],
      greater,
      mark "?" >> .symbol .expression >> mark ":" ]

/-- Operands with operators between them. -/
def chain (u : Part) : Part :=
  u >> many (operator >> u)

/-- An expression that may hold lambda expressions anywhere. -/
def expression : Part :=
  chain
    (unit [onlyIf (lambdaHead >> notAhead (mark "\x7b")) lambdaHead, cast []]
      [onlyIf (lambdaHead >> mark "\x7b") (lambdaHead >> .symbol .block)] [])

/-- An expression that ends before an arrow or a guard. -/
def labelExpression : Part :=
  chain (unit [cast ["when"]] [] ["when"])

/-- The object that `new` creates. -/
def creation : Part :=
  let bracketsAhead := many annotationSkipped >> mark "[" >> mark "]"
  let lengths :=
    some1 (onlyIf (many annotationSkipped >> mark "[" >> notAhead (mark "]"))
      (many (.symbol .annotationMark) >> mark "[" >> .symbol .expression >> mark "]"))
  keyword "new" >> many (.symbol .annotationMark) >>
    maybe (.symbol .typeArguments >> many (.symbol .annotationMark)) >> .symbol .simpleType >>
    oneOf
      [ .symbol .arguments >> maybe (.symbol .classBody),
        onlyIf bracketsAhead (dimensions >> .symbol .arrayInitializer),
        lengths >> maybe (onlyIf bracketsAhead dimensions) ]

/-! ## Patterns and switches -/

/-- A type with type arguments, or a plain name, before parentheses. -/
def recordPatternAhead : Part :=
  notAhead (word >> some1 (mark "." >> word) >> mark "(") >> .symbol .simpleType >> mark "("

/-- A component of a record pattern. -/
def patternComponent : Part :=
  oneOf
    [ keyword "_",
      onlyIf recordPatternAhead (.symbol .recordPattern),
      .symbol .type >> word ]

/-- The label of a branch. -/
def switchLabel : Part :=
  let pattern :=
    oneOf
      [ onlyIf (typeStart [] >> .symbol .type >> wordExcept ["when", "instanceof"])
          (.symbol .type >> word),
        onlyIf (typeStart [] >> ahead recordPatternAhead >>
            attempt (.symbol .recordPattern >> (markOf [":", "->"] <|> keyword "when")))
          (.symbol .recordPattern) ]
  onlyIf (keyword "default" >> markOf [":", "->"]) (keyword "default") <|>
    keyword "case" >>
      (pattern <|> commaSeparated (.symbol .labelExpression)) >>
      maybe (keyword "when" >> .symbol .labelExpression)

/-- The branches of a switch: all with arrows, or all with colons. -/
def switchBlock : Part :=
  let body :=
    oneOf
      [ .symbol .block, statementOf (keyword "throw" >> .symbol .expression >> mark ";"),
        statementOf (.symbol .expression >> mark ";") ]
  let arrows := mark "->" >> body >> many (switchLabel >> mark "->" >> body)
  let colons := mark ":" >> many (switchLabel >> mark ":" <|> .symbol .statement)
  mark "\x7b" >> maybe (switchLabel >> (arrows <|> colons)) >> mark "\x7d"

/-! ## Constructors -/

/-- A call of another constructor at the beginning of a constructor. -/
def constructorCall : Part :=
  let own := maybe (.symbol .typeArguments) >> keywords ["this", "super"]
  let passed :=
    some1 (.symbol .group <|> .token (.other [";", "super", "(", ")", "\x7b", "\x7d"]))
  onlyIf (own >> mark "(") (statementOf (own >> .symbol .arguments >> mark ";")) <|>
    onlyIf (passed >> keyword "super" >> mark "(")
      (statementOf
        (.symbol .operand >> mark "." >> maybe (.symbol .typeArguments) >> keyword "super" >>
          .symbol .arguments >> mark ";"))

/-! ## The table -/

/-- The rule of each symbol. -/
def table : Symbol → Part
  | .program => many (.symbol .topStatement)
  | .group =>
    mark "(" >> many (.symbol .group <|> .token (.other ["(", ")"])) >> mark ")"
  | .annotationMark =>
    .node .annotationMark
      (mark "@" >> word >> many (mark "." >> word) >> maybe annotationArguments)
  | .elementValue =>
    oneOf
      [ .symbol .annotationMark,
        mark "\x7b" >> listed (.symbol .elementValue) "," ["\x7d"] >> mark "\x7d",
        .symbol .expression ]
  | .type => .node .type (typeCore >> maybe dimensions)
  | .annotatedType =>
    .node .type (many (.symbol .annotationMark) >> typeCore >> maybe dimensions)
  | .simpleType => .node .type typeCore
  | .typeArguments =>
    .node .typeArguments (mark "<" >> maybe (commaSeparated typeArgument) >> mark ">")
  | .typeParameters =>
    .node .typeParameters (mark "<" >> commaSeparated typeParameter >> mark ">")
  | .modifiers => .node .modifiers (some1 (.symbol .annotationMark <|> modifierWord))
  | .typeDeclaration =>
    oneOf (commonTypeDeclarations ++ [introducedBy recordAhead recordDeclaration])
  | .memberTypeDeclaration =>
    oneOf (commonTypeDeclarations ++ [introducedBy (keyword "record") recordDeclaration])
  | .annotationBodyDeclaration =>
    oneOf
      ([mark ";"] ++ commonTypeDeclarations ++
        [ onlyIf (modifiersSkipped >> .symbol .type >> word >> mark "(") annotationElement,
          fieldDeclaration ])
  | .classBody => .node .classBody (mark "\x7b" >> many (.symbol .classMember) >> mark "\x7d")
  | .interfaceBody =>
    .node .interfaceBody
      (mark "\x7b" >>
        many (oneOf [mark ";", .symbol .memberTypeDeclaration, method, fieldDeclaration]) >>
        mark "\x7d")
  | .enumBody =>
    .node .enumBody
      (mark "\x7b" >> listed enumConstant "," [";", "\x7d"] >>
        maybe (mark ";" >> many (.symbol .classMember)) >> mark "\x7d")
  | .annotationTypeBody =>
    .node .annotationTypeBody
      (mark "\x7b" >> many (.symbol .annotationBodyDeclaration) >> mark "\x7d")
  | .classMember =>
    oneOf
      ([ mark ";", .symbol .block,
          onlyIf (keyword "static" >> mark "\x7b")
            (.node .initializer (keyword "static" >> .symbol .block)),
          .symbol .memberTypeDeclaration ] ++
        constructors ++ [method, fieldDeclaration])
  | .formalParameters =>
    .node .formalParameters
      (mark "(" >>
        maybe
          (receiverParameter >> maybe (mark "," >> maybe (commaSeparated parameter)) <|>
            commaSeparated parameter) >>
        mark ")")
  | .block => .node .block (mark "\x7b" >> many (.symbol .statement) >> mark "\x7d")
  | .constructorBody =>
    .node .block
      (mark "\x7b" >> maybe constructorCall >> many (.symbol .statement) >> mark "\x7d")
  | .statement => statements []
  | .topStatement => statements [method]
  | .variableDeclarator =>
    .node .variableDeclarator
      (variableName >>
        maybe (mark "=" >> (.symbol .arrayInitializer <|> .symbol .expression)))
  | .arrayInitializer =>
    mark "\x7b" >> listed (.symbol .arrayInitializer <|> .symbol .expression) "," ["\x7d"] >>
      mark "\x7d"
  | .expression => expression
  | .labelExpression => labelExpression
  | .operand => operand
  | .step =>
    oneOf
      [ onlyIf (mark "." >> notAhead (maybe (.symbol .typeArguments) >> keyword "super" >>
            mark "(")) (mark "." >> afterDot),
        mark "[" >> .symbol .expression >> mark "]" >> maybe assignment,
        mark "::" >> afterColons ]
  | .arguments => mark "(" >> maybe (commaSeparated (.symbol .expression)) >> mark ")"
  | .creation => creation
  | .switchExpression => keyword "switch" >> condition >> switchBlock
  | .recordPattern =>
    .symbol .simpleType >> mark "(" >> maybe (commaSeparated patternComponent) >> mark ")"
  | .textLiteral =>
    .token (.shape .text) <|>
      .token (.shape .textHead) >> .symbol .expression >>
        many (.token (.shape .textMiddle) >> .symbol .expression) >> .token (.shape .textTail)

end Grammar

end JavaAtlas.Java
