import TeenyC.Grammar.Statement
import TeenyC.Proofs.Tree.Leaf

/-
  Syntax trees of Teeny programs, and the C text, the leaves and
  the reports that belong to each tree.

  Chains of operators lean to the left: the left operand of the
  last operator is the chain before it. Blank lines and layout
  leave no trace in a tree.

  The words of each block and the operators of each level are
  those of the grammar. That the rules read by the same words is
  proved here.

  Key definitions include:
    * `Block.divider`
    * `Block.ending`
    * `Block.head`
    * `Tree.multiplies`
    * `Tree.adds`
    * `Tree.compares`
    * `Tree.Operand`
    * `Tree.Factor`
    * `Tree.Chain`
    * `Tree.Term`
    * `Tree.Expression`
    * `Tree.Comparison`
    * `Tree.Simple`
    * `Tree.Statements`

  The reference code generator is:
    * `Tree.Statements.generate`
-/

namespace TeenyC

------------------------------------------------------------
-- Words of the Grammar
------------------------------------------------------------

namespace Block

/- The word that opens a block. -/
def opener : Block → Keyword
| .conditional => .ifKw
| .repetition => .whileKw

/- The word between a condition and what the block holds. -/
def divider : Block → Keyword
| .conditional => .thenKw
| .repetition => .repeatKw

/- The word that ends a block. -/
def ending : Block → Keyword
| .conditional => .endIf
| .repetition => .endWhile

/- What stands in C before the condition of a block. -/
def head : Block → String
| .conditional => "if("
| .repetition => "while("

/- The rules divide a block by the word of the grammar. -/
theorem separator_eq_divider (block : Block) :
    block.separator = block.divider := by
  cases block <;> rfl

/- The rules end a block by the word of the grammar. -/
theorem closer_eq_ending (block : Block) :
    block.closer = block.ending := by
  cases block <;> rfl

/- The rules open a block in C by its head. -/
theorem opening_eq_head (block : Block) :
    block.opening = block.head := by
  cases block <;> rfl

end Block

namespace Tree

/- The operators between factors. -/
def multiplies : Operator → Bool
| .times | .divide => true
| _ => false

/- The operators between terms, which are the signs of operands too. -/
def adds : Operator → Bool
| .plus | .minus => true
| _ => false

/- The operators between the expressions of a condition. -/
def compares : Operator → Bool
| .equal | .notEqual | .less | .lessEqual
| .greater | .greaterEqual => true
| _ => false

/- The rules read factors between the operators of the grammar. -/
theorem isMultiplicative_eq_multiplies (op : Operator) :
    op.isMultiplicative = multiplies op := by
  cases op <;> rfl

/- The rules read terms between the operators of the grammar. -/
theorem isAdditive_eq_adds (op : Operator) :
    op.isAdditive = adds op := by
  cases op <;> rfl

/- The rules compare by the operators of the grammar. -/
theorem isComparison_eq_compares (op : Operator) :
    op.isComparison = compares op := by
  cases op <;> rfl

------------------------------------------------------------
-- Operands and Factors
------------------------------------------------------------

/- An operator of one level. -/
abbrev Sign (level : Operator → Bool) :=
  {sign : Operator // level sign = true}

/- A number or a variable. -/
inductive Operand where
| number (text : String)
| variable (name : String)
deriving DecidableEq

namespace Operand

/- The leaf of an operand. -/
def leaf : Operand → Leaf
| .number text => .number text
| .variable name => .operand name

/- An operand is written in C as it is in Teeny. -/
def text (operand : Operand) : String :=
  operand.leaf.text

/- The report on an operand. -/
def event (operand : Operand) : Event :=
  .primary operand.leaf.kind operand.text

end Operand

/- An operand with at most one sign. -/
structure Factor where
  sign : Option (Sign adds)
  operand : Operand
deriving DecidableEq

namespace Factor

/- The leaf of a sign that may be missing. -/
def signLeaves : Option (Sign adds) → List Leaf
| none => []
| some sign => [.sign sign.1]

/- The text of a sign that may be missing. -/
def signText : Option (Sign adds) → String
| none => ""
| some sign => sign.1.spelling

/- The leaves of a factor. -/
def leaves (factor : Factor) : List Leaf :=
  signLeaves factor.sign ++ [factor.operand.leaf]

/- A sign stands close to its operand. -/
def text (factor : Factor) : String :=
  signText factor.sign ++ factor.operand.text

/- The reports on a factor. -/
def events (factor : Factor) : List Event :=
  [.unary, factor.operand.event]

end Factor

------------------------------------------------------------
-- Chains of Operators
------------------------------------------------------------

/- Items joined from left to right by operators of one level. -/
inductive Chain (level : Operator → Bool) (α : Type) where
| single (item : α)
| join (left : Chain level α) (sign : Sign level) (right : α)
deriving DecidableEq

/- What stands before an item of a chain: a chain and an operator. -/
abbrev Lead (level : Operator → Bool) (α : Type) :=
  Option (Chain level α × Sign level)

variable {level : Operator → Bool}
variable {α : Type}

namespace Chain

/- The leaves of a chain, given those of its items. -/
def leaves
    (item : α → List Leaf) : Chain level α → List Leaf
| .single first => item first
| .join left sign right =>
    leaves item left ++ .sign sign.1 :: item right

/- A joining operator has a blank on each side. -/
def text
    (item : α → String) : Chain level α → String
| .single first => item first
| .join left sign right =>
    text item left ++ (" " ++ sign.1.spelling ++ " ") ++ item right

/- The reports on a chain, given those on its items. -/
def events
    (item : α → List Event) : Chain level α → List Event
| .single first => item first
| .join left _ right => events item left ++ item right

/- The chain that an item makes with what stands before it. -/
def extend : Lead level α → α → Chain level α
| none, item => .single item
| some (left, sign), item => .join left sign item

end Chain

namespace Lead

/- The leaves before an item of a chain. -/
def leaves
    (item : α → List Leaf) : Lead level α → List Leaf
| none => []
| some (left, sign) => left.leaves item ++ [.sign sign.1]

/- An item's leaves follow those of what stands before it. -/
theorem leaves_extend
    (item : α → List Leaf)
    (lead : Lead level α)
    (last : α) :
    (Chain.extend lead last).leaves item =
      leaves item lead ++ item last := by
  rcases lead with - | ⟨left, sign⟩
  · rfl
  · simp [Chain.extend, Chain.leaves, leaves]

end Lead

------------------------------------------------------------
-- Expressions and Comparisons
------------------------------------------------------------

/- Factors joined by multiplicative operators. -/
abbrev Term := Chain multiplies Factor

/- The leaves of a term. -/
def Term.leaves (term : Term) : List Leaf :=
  Chain.leaves Factor.leaves term

/- The C text of a term. -/
def Term.text (term : Term) : String :=
  Chain.text Factor.text term

/- The reports on a term. -/
def Term.events (term : Term) : List Event :=
  .term :: Chain.events Factor.events term

/- Terms joined by additive operators. -/
abbrev Expression := Chain adds Term

/- The leaves of an expression. -/
def Expression.leaves (expression : Expression) : List Leaf :=
  Chain.leaves Term.leaves expression

/- The C text of an expression. -/
def Expression.text (expression : Expression) : String :=
  Chain.text Term.text expression

/- The reports on an expression. -/
def Expression.events (expression : Expression) : List Event :=
  .expression :: Chain.events Term.events expression

/- Expressions joined by comparing operators. -/
abbrev Comparands := Chain compares Expression

/- Expressions joined by at least one comparing operator. -/
structure Comparison where
  left : Comparands
  sign : Sign compares
  right : Expression
deriving DecidableEq

namespace Comparison

/- The chain that a comparison is. -/
def chain (comparison : Comparison) : Comparands :=
  .join comparison.left comparison.sign comparison.right

/- The leaves of a comparison. -/
def leaves (comparison : Comparison) : List Leaf :=
  comparison.chain.leaves Expression.leaves

/- The C text of a comparison. -/
def text (comparison : Comparison) : String :=
  comparison.chain.text Expression.text

/- The reports on a comparison. -/
def events (comparison : Comparison) : List Event :=
  .comparison :: comparison.chain.events Expression.events

end Comparison

------------------------------------------------------------
-- Statements
------------------------------------------------------------

/- A line of C with its break. -/
def codeLine (code : String) : String :=
  code ++ "\n"

/- A line starts with whatever its code starts with. -/
theorem codeLine_append
    (code more : String) :
    codeLine (code ++ more) = code ++ codeLine more := by
  simp [codeLine, String.append_assoc]

/- The statements that stand on one line. -/
inductive Simple where
| printText (contents : String)
| printValue (value : Expression)
| label (name : String)
| jump (name : String)
| assign (name : String) (value : Expression)
| input (name : String)
deriving DecidableEq

namespace Simple

/- The leaves of a simple statement. -/
def leaves : Simple → List Leaf
| .printText contents => [.keyword .print, .literal contents]
| .printValue value => .keyword .print :: Expression.leaves value
| .label name => [.keyword .label, .label name]
| .jump name => [.keyword .goto, .jump name]
| .assign name value =>
    .keyword .letKw :: .target name :: .sign .assign ::
      Expression.leaves value
| .input name => [.keyword .input, .target name]

/- The C text of a simple statement. -/
def text : Simple → String
| .printText contents =>
    codeLine ("printf(\"" ++ contents ++ "\\n\");")
| .printValue value =>
    codeLine
      ("printf(\"%.2f\\n\", (float)(" ++
        Expression.text value ++ "));")
| .label name => codeLine (name ++ ":;")
| .jump name => codeLine ("goto " ++ name ++ ";")
| .assign name value =>
    codeLine (name ++ " = " ++ Expression.text value ++ ";")
| .input name =>
    codeLine ("if(0 == scanf(\"%f\", &" ++ name ++ ")) \x7b") ++
      (codeLine (name ++ " = 0;") ++
        (codeLine "scanf(\"%*s\");" ++ codeLine "\x7d"))

/- A value is printed between what stands around it. -/
theorem text_printValue (value : Expression) :
    (printValue value).text =
      "printf(\"%.2f\\n\", (float)(" ++
        (Expression.text value ++ codeLine "));") := by
  rw [← codeLine_append, ← codeLine_append,
    ← String.append_assoc]
  rfl

/- A value is assigned between what stands around it. -/
theorem text_assign
    (name : String)
    (value : Expression) :
    (assign name value).text =
      name ++ " = " ++ (Expression.text value ++ codeLine ";") := by
  rw [← codeLine_append, ← codeLine_append,
    ← String.append_assoc]
  rfl

/- A variable is read from the input in four lines. -/
theorem append_text_input (text name : String) :
    text ++ (input name).text =
      text ++
        codeLine ("if(0 == scanf(\"%f\", &" ++ name ++ ")) \x7b") ++
        codeLine (name ++ " = 0;") ++
        codeLine "scanf(\"%*s\");" ++
        codeLine "\x7d" := by
  rw [String.append_assoc, String.append_assoc,
    String.append_assoc]
  rfl

/- The word that a simple statement starts with. -/
def keyword : Simple → Keyword
| .printText _ | .printValue _ => .print
| .label _ => .label
| .jump _ => .goto
| .assign _ _ => .letKw
| .input _ => .input

/- The reports on what a simple statement holds. -/
def heldEvents : Simple → List Event
| .printValue value | .assign _ value => Expression.events value
| .printText _ | .label _ | .jump _ | .input _ => []

/- The reports on a simple statement, its line end among them. -/
def events (simple : Simple) : List Event :=
  .statement (.keyword simple.keyword) :: simple.heldEvents ++
    [.newline]

/- The variable that a simple statement assigns to. -/
def target? : Simple → Option String
| .assign name _ | .input name => some name
| .printText _ | .printValue _ | .label _ | .jump _ => none

/- The expression that a simple statement holds. -/
def expression? : Simple → Option Expression
| .printValue value | .assign _ value => some value
| .printText _ | .label _ | .jump _ | .input _ => none

end Simple

/-
  A sequence of statements: none, or a first one and the rest.
  A block holds a condition and a sequence of its own.
-/
inductive Statements where
| done
| simple (first : Simple) (rest : Statements)
| block
    (kind : Block)
    (condition : Comparison)
    (inner rest : Statements)
deriving DecidableEq

namespace Statements

/- One sequence of statements after another. -/
def append : Statements → Statements → Statements
| .done, more => more
| .simple first rest, more => .simple first (rest.append more)
| .block kind condition inner rest, more =>
    .block kind condition inner (rest.append more)

/- The C text of statements, blocks in braces. -/
def text : Statements → String
| .done => ""
| .simple first rest => first.text ++ rest.text
| .block kind condition inner rest =>
    codeLine (kind.head ++ condition.text ++ ")\x7b") ++
      inner.text ++ codeLine "\x7d" ++ rest.text

/- The reports on statements, in source order. -/
def events : Statements → List Event
| .done => []
| .simple first rest => first.events ++ rest.events
| .block kind condition inner rest =>
    .statement (.keyword kind.opener) :: condition.events ++
      .newline :: inner.events ++ .newline :: rest.events

/- The variables that statements assign to, in source order. -/
def targets : Statements → List String
| .done => []
| .simple first rest => first.target?.toList ++ rest.targets
| .block _ _ inner rest => inner.targets ++ rest.targets

/- The declaration of a variable, as a line of C. -/
def declaration (name : String) : String :=
  codeLine ("float " ++ name ++ ";")

/- What stands before every program's declarations. -/
def preamble : String :=
  codeLine "#include <stdio.h>" ++ codeLine "int main(void)\x7b"

/- What stands after every program's statements. -/
def closing : String :=
  codeLine "return 0;" ++ codeLine "\x7d"

/-
  The C program of a syntax tree. Every variable is declared
  once, in the order of the first assignments.
-/
def generate (program : Statements) : String :=
  preamble ++
    String.join (program.targets.eraseDups.map declaration) ++
    program.text ++ closing

/- What is appended to statements is written after them. -/
theorem text_append
    (first more : Statements) :
    (first.append more).text = first.text ++ more.text := by
  induction first with
  | done => simp [append, text]
  | simple statement rest ih =>
      simp [append, text, ih, String.append_assoc]
  | block kind condition inner rest _ ih =>
      simp [append, text, ih, String.append_assoc]

/- What is appended to statements is reported after them. -/
theorem events_append
    (first more : Statements) :
    (first.append more).events = first.events ++ more.events := by
  induction first with
  | done => rfl
  | simple statement rest ih => simp [append, events, ih]
  | block kind condition inner rest _ ih =>
      simp [append, events, ih]

end Statements

end Tree

end TeenyC
