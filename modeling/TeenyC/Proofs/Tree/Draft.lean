import TeenyC.Proofs.Tree.Spelling

/-
  Syntax trees under construction.

  A draft is what is known of a program's tree after some of its
  words: the blocks that are open, the finished statements of
  the innermost one, and the spot in the line that has been
  begun. A draft reads a word by growing, or tells what the word
  fails to be. One word settles what comes next, so a sequence
  of words leads to at most one draft.

  Key definitions include:
    * `Tree.Frame`
    * `Tree.Spot`
    * `Tree.Draft`
    * `Tree.Draft.read`
    * `Tree.Draft.Path`

  That one word settles what comes next is stated by:
    * `Tree.Draft.Path.leaves_begin`
    * `Tree.Draft.Path.not_refused`
-/

namespace TeenyC

namespace Tree

------------------------------------------------------------
-- Drafts
------------------------------------------------------------

/- An open block, and the statements before it. -/
structure Frame where
  before : Statements
  kind : Block
  condition : Comparison
deriving DecidableEq

/- What an expression that has been begun belongs to. -/
inductive Site where
| print
| assign (name : String)
| condition
    (kind : Block)
    (lead : Lead compares Expression)
deriving DecidableEq

/- The words that a name must follow. -/
inductive Naming where
| label
| jump
| assign
| input
deriving DecidableEq

/- A place within a line. -/
inductive Spot where
| margin
| printed
| naming (naming : Naming)
| assigned (name : String)
| operand
    (site : Site)
    (sum : Lead adds Term)
    (product : Lead multiplies Factor)
    (sign : Option (Sign adds))
| joint
    (site : Site)
    (sum : Lead adds Term)
    (term : Term)
| lineEnd (last : Simple)
| opened (kind : Block) (condition : Comparison)
| closed
| finished
deriving DecidableEq

/- A tree under construction, its open blocks innermost first. -/
structure Draft where
  frames : List Frame
  done : Statements
  spot : Spot
deriving DecidableEq

/- What a word means to a draft. -/
abbrev Verdict := Except GrammarCause (Leaf × Draft)

namespace Naming

/- The word before the name. -/
def keyword : Naming → Keyword
| .label => .label
| .jump => .goto
| .assign => .letKw
| .input => .input

/- The leaf of the name. -/
def leaf (naming : Naming) (name : String) : Leaf :=
  match naming with
  | .label => .label name
  | .jump => .jump name
  | .assign | .input => .target name

/- The spot after the name. -/
def next (naming : Naming) (name : String) : Spot :=
  match naming with
  | .label => .lineEnd (.label name)
  | .jump => .lineEnd (.jump name)
  | .assign => .assigned name
  | .input => .lineEnd (.input name)

end Naming

/- The spot after the word that begins a line. -/
def Spot.begun? : Keyword → Option Spot
| .print => some .printed
| .ifKw =>
    some (.operand (.condition .conditional none) none none none)
| .whileKw =>
    some (.operand (.condition .repetition none) none none none)
| .label => some (.naming .label)
| .goto => some (.naming .jump)
| .letKw => some (.naming .assign)
| .input => some (.naming .input)
| .thenKw | .endIf | .repeatKw | .endWhile => none

namespace Draft

------------------------------------------------------------
-- Growing
------------------------------------------------------------

/- The draft of a program of which nothing has been read. -/
def start : Draft where
  frames := []
  done := .done
  spot := .margin

/- The draft of a program that has been read. -/
def whole (program : Statements) : Draft where
  frames := []
  done := program
  spot := .finished

/- The draft at another spot of the line. -/
def move (draft : Draft) (spot : Spot) : Draft :=
  { draft with spot := spot }

/- The draft after a simple statement. -/
def add (draft : Draft) (last : Simple) : Draft where
  frames := draft.frames
  done := draft.done.append (.simple last .done)
  spot := .margin

/- The draft inside a block that is opened. -/
def push
    (draft : Draft)
    (kind : Block)
    (condition : Comparison) : Draft where
  frames :=
    { before := draft.done
      kind := kind
      condition := condition } :: draft.frames
  done := .done
  spot := .margin

/- The draft after the innermost block. -/
def pop (draft : Draft) : Draft :=
  match draft.frames with
  | [] => draft.move .margin
  | frame :: outer =>
      { frames := outer
        done :=
          frame.before.append
            (.block frame.kind frame.condition draft.done .done)
        spot := .margin }

/- The blocks that are open, the innermost first. -/
def blocks (draft : Draft) : List Block :=
  draft.frames.map Frame.kind

------------------------------------------------------------
-- Reading
------------------------------------------------------------

/- A line break is required. -/
def readLineEnd
    (next : Draft)
    (kind : Kind) : Verdict :=
  if kind = .newline then .ok (.newline, next)
  else .error (.expected .newline)

/- A line, a blank line, or the end of the program may begin. -/
def readMargin
    (draft : Draft)
    (kind : Kind) : Verdict :=
  match kind with
  | .newline => .ok (.newline, draft)
  | .eof =>
      if draft.frames = [] then
        .ok (.finish, whole draft.done)
      else .error .statement
  | .keyword word =>
      match Block.outer? draft.blocks kind, Spot.begun? word with
      | some _, _ => .ok (.keyword word, draft.move .closed)
      | none, some spot => .ok (.keyword word, draft.move spot)
      | none, none => .error .statement
  | _ => .error .statement

/- An operand is required, or its sign if it has none yet. -/
def readOperand
    (draft : Draft)
    (site : Site)
    (sum : Lead adds Term)
    (product : Lead multiplies Factor)
    (sign : Option (Sign adds))
    (word : Word) : Verdict :=
  let joint operand : Spot :=
    .joint site sum
      (.extend product { sign := sign, operand := operand })
  match word.1, sign with
  | .number, _ =>
      .ok (.number word.2, draft.move (joint (.number word.2)))
  | .ident, _ =>
      .ok (.operand word.2, draft.move (joint (.variable word.2)))
  | .operator op, none =>
      if hLevel : adds op = true then
        .ok
          (.sign op,
            draft.move
              (.operand site sum product (some ⟨op, hLevel⟩)))
      else .error .operand
  | _, _ => .error .operand

/- The word between a condition and its block is required. -/
def readSeparator
    (draft : Draft)
    (block : Block)
    (lead : Lead compares Expression)
    (last : Expression)
    (kind : Kind) : Verdict :=
  match lead with
  | none => .error .comparison
  | some (left, sign) =>
      if kind = .keyword block.divider then
        .ok
          (.keyword block.divider,
            draft.move
              (.opened block
                { left := left, sign := sign, right := last }))
      else .error (.expected (.keyword block.divider))

/- What may follow an expression depends on its site. -/
def readExpressionEnd
    (draft : Draft)
    (site : Site)
    (last : Expression)
    (kind : Kind) : Verdict :=
  match site, kind with
  | .print, _ => readLineEnd (draft.add (.printValue last)) kind
  | .assign name, _ =>
      readLineEnd (draft.add (.assign name last)) kind
  | .condition block lead, .operator op =>
      if hLevel : compares op = true then
        .ok
          (.sign op,
            draft.move
              (.operand
                (.condition block
                  (some (.extend lead last, ⟨op, hLevel⟩)))
                none none none))
      else draft.readSeparator block lead last kind
  | .condition block lead, _ =>
      draft.readSeparator block lead last kind

/- An operator may follow a factor, or what follows its expression. -/
def readJoint
    (draft : Draft)
    (site : Site)
    (sum : Lead adds Term)
    (term : Term)
    (kind : Kind) : Verdict :=
  match kind with
  | .operator op =>
      if hLevel : multiplies op = true then
        .ok
          (.sign op,
            draft.move
              (.operand site sum (some (term, ⟨op, hLevel⟩))
                none))
      else if hLevel : adds op = true then
        .ok
          (.sign op,
            draft.move
              (.operand site
                (some (.extend sum term, ⟨op, hLevel⟩))
                none none))
      else
        draft.readExpressionEnd site (.extend sum term) kind
  | _ => draft.readExpressionEnd site (.extend sum term) kind

/-
  Read a word: name its part and grow the draft by it, or tell
  what it fails to be.
-/
def read
    (draft : Draft)
    (word : Word) : Verdict :=
  match draft.spot with
  | .margin => draft.readMargin word.1
  | .printed =>
      if word.1 = .string then
        .ok
          (.literal word.2,
            draft.move (.lineEnd (.printText word.2)))
      else draft.readOperand .print none none none word
  | .naming naming =>
      if word.1 = .ident then
        .ok
          (naming.leaf word.2,
            draft.move (naming.next word.2))
      else .error (.expected .ident)
  | .assigned name =>
      if word.1 = .operator .assign then
        .ok
          (.sign .assign,
            draft.move (.operand (.assign name) none none none))
      else .error (.expected (.operator .assign))
  | .operand site sum product sign =>
      draft.readOperand site sum product sign word
  | .joint site sum term => draft.readJoint site sum term word.1
  | .lineEnd last => readLineEnd (draft.add last) word.1
  | .opened kind condition =>
      readLineEnd (draft.push kind condition) word.1
  | .closed => readLineEnd draft.pop word.1
  | .finished => .error .statement

------------------------------------------------------------
-- Paths
------------------------------------------------------------

/- A draft takes a leaf when it reads its word as that leaf. -/
def Takes
    (draft : Draft)
    (leaf : Leaf)
    (next : Draft) : Prop :=
  draft.read leaf.word = .ok (leaf, next)

/- The leaves that lead from one draft to another. -/
inductive Path : Draft → List Leaf → Draft → Prop
| nil {draft : Draft} : Path draft [] draft
| cons
    {first second last : Draft}
    {leaf : Leaf}
    {leaves : List Leaf}
    (hFirst : first.Takes leaf second)
    (hMore : Path second leaves last) :
    Path first (leaf :: leaves) last

/- A leaf that is taken is a path. -/
theorem Takes.path
    {draft next : Draft}
    {leaf : Leaf}
    (hTakes : draft.Takes leaf next) :
    Path draft [leaf] next :=
  .cons hTakes .nil

namespace Path

/- One path after another. -/
theorem append
    {first second last : Draft}
    {leaves more : List Leaf}
    (hFirst : Path first leaves second)
    (hMore : Path second more last) :
    Path first (leaves ++ more) last := by
  induction hFirst with
  | nil => exact hMore
  | cons hTakes _ ih => exact .cons hTakes (ih hMore)

/- A path and one more leaf. -/
theorem snoc
    {first second last : Draft}
    {leaves : List Leaf}
    {leaf : Leaf}
    (hFirst : Path first leaves second)
    (hLast : second.Takes leaf last) :
    Path first (leaves ++ [leaf]) last :=
  hFirst.append hLast.path

/- A path along two lists of leaves passes between them. -/
theorem split
    {first last : Draft}
    {leaves more : List Leaf}
    (hPath : Path first (leaves ++ more) last) :
    ∃ middle,
      Path first leaves middle ∧ Path middle more last := by
  induction leaves generalizing first with
  | nil => exact ⟨first, .nil, hPath⟩
  | cons leaf leaves ih =>
      cases hPath with
      | cons hTakes hMore =>
          rcases ih hMore with ⟨middle, hLeaves, hRest⟩
          exact ⟨middle, .cons hTakes hLeaves, hRest⟩

/- The words of a path settle its leaves and its end. -/
theorem leaves_begin
    {first last other : Draft}
    {leaves others : List Leaf}
    (hPath : Path first leaves last)
    (hOther : Path first others other)
    (hWords :
      leaves.map Leaf.word <+: others.map Leaf.word) :
    ∃ more, others = leaves ++ more ∧ Path last more other := by
  induction hPath generalizing others with
  | nil => exact ⟨others, rfl, hOther⟩
  | @cons first second last leaf leaves hTakes _ ih =>
      cases hOther with
      | nil => simp at hWords
      | @cons _ second' _ leaf' others hTakes' hOthers =>
          rw [List.map_cons, List.map_cons,
            List.cons_prefix_cons] at hWords
          obtain ⟨hWord, hWords⟩ := hWords
          have hSame : (leaf, second) = (leaf', second') := by
            unfold Takes at hTakes hTakes'
            rw [hWord, hTakes'] at hTakes
            exact (Except.ok.inj hTakes).symm
          obtain ⟨rfl, rfl⟩ := Prod.mk.inj hSame
          rcases ih hOthers hWords with
            ⟨more, hMore, hRest⟩
          exact ⟨more, by rw [hMore, List.cons_append], hRest⟩

/- No path goes on with a word that its draft refuses. -/
theorem not_refused
    {first last other : Draft}
    {leaves others : List Leaf}
    {word : Word}
    {cause : GrammarCause}
    (hPath : Path first leaves last)
    (hRefused : last.read word = .error cause)
    (hOther : Path first others other) :
    ¬ leaves.map Leaf.word ++ [word] <+:
        others.map Leaf.word := by
  intro hWords
  rcases leaves_begin hPath hOther
      ((List.prefix_append _ _).trans hWords) with
    ⟨more, hMore, hRest⟩
  rw [hMore, List.map_append,
    List.prefix_append_right_inj] at hWords
  cases hRest with
  | nil => simp at hWords
  | cons hTakes _ =>
      rw [List.map_cons, List.cons_prefix_cons] at hWords
      unfold Takes at hTakes
      rw [← hWords.1, hRefused] at hTakes
      cases hTakes

end Path

end Draft

end Tree

end TeenyC
