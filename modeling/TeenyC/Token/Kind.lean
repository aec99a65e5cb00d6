/-
  The kinds of token in a Teeny program, with their spellings
  and the names that diagnostics and token listings give them.

  Key definitions include:
    * `Keyword`
    * `Keyword.spelling`
    * `Keyword.ofSpelling?`
    * `Operator`
    * `Operator.spelling`
    * `Operator.isComparison`
    * `Operator.isAdditive`
    * `Operator.isMultiplicative`
    * `Kind`
    * `Kind.all`
    * `Kind.name`
    * `Kind.title`
    * `Kind.spell`
-/

namespace TeenyC

------------------------------------------------------------
-- Keywords
------------------------------------------------------------

/- The reserved words. -/
inductive Keyword where
| label
| goto
| print
| input
| letKw
| ifKw
| thenKw
| endIf
| whileKw
| repeatKw
| endWhile
deriving DecidableEq

namespace Keyword

/- The reserved words in the order of their listing. -/
def all : List Keyword :=
  [.label, .goto, .print, .input, .letKw, .ifKw, .thenKw,
    .endIf, .whileKw, .repeatKw, .endWhile]

/- A reserved word is written in capitals. -/
def spelling : Keyword → String
| .label => "LABEL"
| .goto => "GOTO"
| .print => "PRINT"
| .input => "INPUT"
| .letKw => "LET"
| .ifKw => "IF"
| .thenKw => "THEN"
| .endIf => "ENDIF"
| .whileKw => "WHILE"
| .repeatKw => "REPEAT"
| .endWhile => "ENDWHILE"

/- The word in mixed case. -/
def title : Keyword → String
| .label => "Label"
| .goto => "Goto"
| .print => "Print"
| .input => "Input"
| .letKw => "Let"
| .ifKw => "If"
| .thenKw => "Then"
| .endIf => "EndIf"
| .whileKw => "While"
| .repeatKw => "Repeat"
| .endWhile => "EndWhile"

/- The reserved word with a given spelling; case matters. -/
def ofSpelling? (word : String) : Option Keyword :=
  all.find? fun reserved => reserved.spelling == word

end Keyword

------------------------------------------------------------
-- Operators
------------------------------------------------------------

/- The operator signs, the assignment sign among them. -/
inductive Operator where
| assign
| plus
| minus
| times
| divide
| equal
| notEqual
| less
| lessEqual
| greater
| greaterEqual
deriving DecidableEq

namespace Operator

/- The operators in the order of their listing. -/
def all : List Operator :=
  [.assign, .plus, .minus, .times, .divide, .equal, .notEqual,
    .less, .lessEqual, .greater, .greaterEqual]

/- An operator is written with one or two signs. -/
def spelling : Operator → String
| .assign => "="
| .plus => "+"
| .minus => "-"
| .times => "*"
| .divide => "/"
| .equal => "=="
| .notEqual => "!="
| .less => "<"
| .lessEqual => "<="
| .greater => ">"
| .greaterEqual => ">="

/- The operator's name in capitals. -/
def name : Operator → String
| .assign => "EQ"
| .plus => "PLUS"
| .minus => "MINUS"
| .times => "ASTERISK"
| .divide => "SLASH"
| .equal => "EQEQ"
| .notEqual => "NOTEQ"
| .less => "LT"
| .lessEqual => "LTEQ"
| .greater => "GT"
| .greaterEqual => "GTEQ"

/- The operator's name in mixed case. -/
def title : Operator → String
| .assign => "Eq"
| .plus => "Plus"
| .minus => "Minus"
| .times => "Asterisk"
| .divide => "Slash"
| .equal => "EqEq"
| .notEqual => "NotEq"
| .less => "Lt"
| .lessEqual => "LtEq"
| .greater => "Gt"
| .greaterEqual => "GtEq"

/- The operators that compare two values. -/
def isComparison : Operator → Bool
| .equal | .notEqual | .less | .lessEqual
| .greater | .greaterEqual => true
| .assign | .plus | .minus | .times | .divide => false

/- The operators that join terms, and that may stand as signs. -/
def isAdditive : Operator → Bool
| .plus | .minus => true
| _ => false

/- The operators that join factors. -/
def isMultiplicative : Operator → Bool
| .times | .divide => true
| _ => false

end Operator

------------------------------------------------------------
-- Kinds
------------------------------------------------------------

/- The kinds of token. -/
inductive Kind where
| eof
| newline
| number
| ident
| string
| keyword (word : Keyword)
| operator (sign : Operator)
deriving DecidableEq

namespace Kind

/- Every kind, in the order of its listing. -/
def all : List Kind :=
  [.eof, .newline, .number, .ident, .string] ++
    Keyword.all.map .keyword ++ Operator.all.map .operator

/- The kind's name in capitals, as diagnostics and listings give it. -/
def name : Kind → String
| .eof => "EOF"
| .newline => "NEWLINE"
| .number => "NUMBER"
| .ident => "IDENT"
| .string => "STRING"
| .keyword word => word.spelling
| .operator sign => sign.name

/- The kind's name in mixed case. -/
def title : Kind → String
| .eof => "Eof"
| .newline => "Newline"
| .number => "Number"
| .ident => "Ident"
| .string => "String"
| .keyword word => word.title
| .operator sign => sign.title

instance : ToString Kind where
  toString := name

/- The kinds that compare two values. -/
def isComparison : Kind → Bool
| .operator sign => sign.isComparison
| _ => false

/- The kinds that join terms, and that may stand as signs. -/
def isAdditive : Kind → Bool
| .operator sign => sign.isAdditive
| _ => false

/- The kinds that join factors. -/
def isMultiplicative : Kind → Bool
| .operator sign => sign.isMultiplicative
| _ => false

/- The kind of a word: a reserved word, or else an identifier. -/
def ofWord (word : String) : Kind :=
  match Keyword.ofSpelling? word with
  | some reserved => .keyword reserved
  | none => .ident

/-
  How a token of this kind is written, given its text: a string
  stands in double quotes, every other text stands as it is.
-/
def spell
    (kind : Kind)
    (text : List Char) : List Char :=
  match kind with
  | .string => '"' :: text ++ ['"']
  | _ => text

/- A word is never a string. -/
theorem ofWord_ne_string (word : String) :
    ofWord word ≠ .string := by
  unfold ofWord
  split <;> simp

/- A word is never the end of input. -/
theorem ofWord_ne_eof (word : String) :
    ofWord word ≠ .eof := by
  unfold ofWord
  split <;> simp

/- Only a string is written otherwise than its text. -/
theorem spell_of_ne_string
    {kind : Kind}
    (hKind : kind ≠ .string)
    (text : List Char) :
    kind.spell text = text := by
  cases kind with
  | string => exact absurd rfl hKind
  | eof | newline | number | ident => rfl
  | keyword | operator => rfl

end Kind

end TeenyC
