import TeenyC.Session
import TeenyC.Proofs.Token.Supply
import TeenyC.Proofs.Tree.Soundness

/-
  What a session has read, leaf by leaf.

  A history lists the leaves that a session has passed, each
  with the line of its token. A session follows a history if its
  cursor has supplied the tokens of the history and the two it
  holds, and if the leaves lead to a draft.

  Key definitions include:
    * `Placed`
    * `History`
    * `History.stray?`
    * `Cursor.Reads`
    * `Session.Follows`

  Key theorems include:
    * `Tree.Draft.word_of_read`
    * `Session.Follows.advance`
-/

namespace TeenyC

open TeenyC.Tree

------------------------------------------------------------
-- Words that Are Read
------------------------------------------------------------

/- The kind of a leaf settles its text. -/
def Leaf.IsFixed : Leaf → Prop
| .finish | .newline | .keyword _ | .sign _ => True
| .number _ | .literal _ | .operand _ | .target _ | .label _
| .jump _ => False

/- A leaf can be a part of a word, if the word is well spelled. -/
def Leaf.Plays
    (leaf : Leaf)
    (word : Word) : Prop :=
  leaf.kind = word.1 ∧ (leaf.IsFixed ∨ leaf.text = word.2)

/- A leaf that plays a well spelled token has its word. -/
theorem Leaf.Plays.word_eq
    {leaf : Leaf}
    {token : Token}
    (hPlays : leaf.Plays token.word)
    (hSpelled : token.Spelled) :
    leaf.word = token.word := by
  obtain ⟨hKind, hText⟩ := hPlays
  rcases token with ⟨kind, text, line⟩
  change leaf.kind = kind at hKind
  subst hKind
  change Lexeme.Fits leaf.kind text.toList at hSpelled
  refine Prod.ext rfl (String.ext ?_)
  rcases hText with hFixed | hText
  · cases leaf <;>
      first
      | exact hSpelled.symm
      | exact hFixed.elim
  · rw [show leaf.word.2 = text from hText]
    rfl

namespace Tree.Draft

variable {draft next : Draft}
variable {leaf : Leaf}
variable {word : Word}

/- The leaf at the end of a line plays its word. -/
theorem plays_of_readLineEnd
    {after : Draft}
    (hRead : readLineEnd after word.1 = .ok (leaf, next)) :
    leaf.Plays word := by
  unfold readLineEnd at hRead
  split at hRead
  · next hKind =>
    cases hRead
    exact ⟨hKind.symm, .inl trivial⟩
  · cases hRead

/- The leaf at an operand's place plays its word. -/
theorem plays_of_readOperand
    {site : Site}
    {sum : Lead adds Term}
    {product : Lead multiplies Factor}
    {sign : Option (Sign adds)}
    (hRead :
      draft.readOperand site sum product sign word =
        .ok (leaf, next)) :
    leaf.Plays word := by
  unfold readOperand at hRead
  split at hRead
  · next hKind =>
    cases hRead
    exact ⟨hKind.symm, .inr rfl⟩
  · next hKind =>
    cases hRead
    exact ⟨hKind.symm, .inr rfl⟩
  · next hKind =>
    split at hRead
    · cases hRead
      exact ⟨hKind.symm, .inl trivial⟩
    · cases hRead
  · cases hRead

/- The leaf after a condition plays its word. -/
theorem plays_of_readSeparator
    {block : Block}
    {lead : Lead compares Expression}
    {last : Expression}
    (hRead :
      draft.readSeparator block lead last word.1 =
        .ok (leaf, next)) :
    leaf.Plays word := by
  unfold readSeparator at hRead
  split at hRead
  · cases hRead
  · split at hRead
    · next hKind =>
      cases hRead
      exact ⟨hKind.symm, .inl trivial⟩
    · cases hRead

/- The leaf after an expression plays its word. -/
theorem plays_of_readExpressionEnd
    {site : Site}
    {last : Expression}
    (hRead :
      draft.readExpressionEnd site last word.1 =
        .ok (leaf, next)) :
    leaf.Plays word := by
  unfold readExpressionEnd at hRead
  split at hRead
  · exact plays_of_readLineEnd hRead
  · exact plays_of_readLineEnd hRead
  · next hKind =>
    split at hRead
    · cases hRead
      exact ⟨hKind.symm, .inl trivial⟩
    · exact plays_of_readSeparator hRead
  · exact plays_of_readSeparator hRead

/- The leaf after a factor plays its word. -/
theorem plays_of_readJoint
    {site : Site}
    {sum : Lead adds Term}
    {term : Term}
    (hRead :
      draft.readJoint site sum term word.1 =
        .ok (leaf, next)) :
    leaf.Plays word := by
  unfold readJoint at hRead
  split at hRead
  · next hKind =>
    split at hRead
    · cases hRead
      exact ⟨hKind.symm, .inl trivial⟩
    · split at hRead
      · cases hRead
        exact ⟨hKind.symm, .inl trivial⟩
      · exact plays_of_readExpressionEnd hRead
  · exact plays_of_readExpressionEnd hRead

/- The leaf at the margin plays its word. -/
theorem plays_of_readMargin
    (hRead : draft.readMargin word.1 = .ok (leaf, next)) :
    leaf.Plays word := by
  unfold readMargin at hRead
  split at hRead
  · next hKind =>
    cases hRead
    exact ⟨hKind.symm, .inl trivial⟩
  · next hKind =>
    split at hRead
    · cases hRead
      exact ⟨hKind.symm, .inl trivial⟩
    · cases hRead
  · next hKind =>
    split at hRead
    · cases hRead
      exact ⟨hKind.symm, .inl trivial⟩
    · cases hRead
      exact ⟨hKind.symm, .inl trivial⟩
    · cases hRead
  · cases hRead

/- The leaf that a draft reads plays its word. -/
theorem plays_of_read
    (hRead : draft.read word = .ok (leaf, next)) :
    leaf.Plays word := by
  unfold read at hRead
  split at hRead
  · exact plays_of_readMargin hRead
  · split at hRead
    · next hKind =>
      cases hRead
      exact ⟨hKind.symm, .inr rfl⟩
    · exact plays_of_readOperand hRead
  · next role _ =>
    split at hRead
    · next hKind =>
      cases hRead
      cases role <;> exact ⟨hKind.symm, .inr rfl⟩
    · cases hRead
  · split at hRead
    · next hKind =>
      cases hRead
      exact ⟨hKind.symm, .inl trivial⟩
    · cases hRead
  · exact plays_of_readOperand hRead
  · exact plays_of_readJoint hRead
  · exact plays_of_readLineEnd hRead
  · exact plays_of_readLineEnd hRead
  · exact plays_of_readLineEnd hRead
  · cases hRead

/- A draft reads a well spelled token as a leaf of its word. -/
theorem word_of_read
    {token : Token}
    (hSpelled : token.Spelled)
    (hRead : draft.read token.word = .ok (leaf, next)) :
    leaf.word = token.word :=
  (plays_of_read hRead).word_eq hSpelled

/- A draft that takes a leaf reads any token with its word. -/
theorem Takes.read_eq
    (hTakes : draft.Takes leaf next)
    (hWord : leaf.word = word) :
    draft.read word = .ok (leaf, next) :=
  hWord ▸ hTakes

end Tree.Draft

------------------------------------------------------------
-- Histories
------------------------------------------------------------

/- A leaf, and the line of the token it was read from. -/
structure Placed where
  leaf : Leaf
  line : Nat

/- The token that a leaf was read from. -/
def Placed.token (placed : Placed) : Token where
  kind := placed.leaf.kind
  text := placed.leaf.text
  line := placed.line

/- The token has the word of its leaf. -/
@[simp]
theorem Placed.word_token (placed : Placed) :
    placed.token.word = placed.leaf.word := rfl

/- The jump that a leaf is the target of. -/
def Placed.jump? (placed : Placed) : Option Jump :=
  placed.leaf.jump?.map fun label =>
    { label := label, line := placed.line }

/- What has been read, in the order of reading. -/
abbrev History := List Placed

namespace History

/- The leaves of a history. -/
def leaves (history : History) : List Leaf :=
  history.map Placed.leaf

/- The tokens of a history. -/
def tokens (history : History) : List Token :=
  history.map Placed.token

/- The jumps of a history. -/
def jumps (history : History) : List Jump :=
  history.filterMap Placed.jump?

/- The leaves of a history and one more. -/
@[simp]
theorem leaves_snoc
    (history : History)
    (placed : Placed) :
    leaves (history ++ [placed]) =
      history.leaves ++ [placed.leaf] :=
  List.map_append

/- The tokens of a history and one more. -/
@[simp]
theorem tokens_snoc
    (history : History)
    (placed : Placed) :
    tokens (history ++ [placed]) =
      history.tokens ++ [placed.token] :=
  List.map_append

/- The jumps of a history and one more. -/
@[simp]
theorem jumps_snoc
    (history : History)
    (placed : Placed) :
    jumps (history ++ [placed]) =
      history.jumps ++ placed.jump?.toList := by
  rcases placed with ⟨leaf, line⟩
  cases leaf <;>
    simp [jumps, Placed.jump?, Leaf.jump?]

/- A history has the words of its leaves. -/
theorem words_eq (history : History) :
    history.leaves.map Leaf.word =
      history.tokens.map Token.word := by
  simp only [leaves, tokens, List.map_map]
  rfl

end History

/- Tokens are at the end of input where their leaves are. -/
theorem History.kind_ne_eof
    {history : History}
    (hUnfinished : .finish ∉ history.leaves) :
    ∀ token ∈ history.tokens, token.kind ≠ .eof := by
  intro token hToken hKind
  rcases List.mem_map.mp hToken with ⟨placed, hPlaced, hSame⟩
  subst hSame
  have hLeaf : placed.leaf = .finish := by
    rcases placed with ⟨leaf, line⟩
    change leaf.kind = .eof at hKind
    cases leaf <;> first | rfl | cases hKind
  exact hUnfinished
    (List.mem_map.mpr ⟨placed, hPlaced, hLeaf⟩)

/- The first jump of a history whose label is not declared. -/
def History.stray? (history : History) : Option Jump :=
  history.jumps.find? fun jump =>
    !(Leaf.labels history.leaves).contains jump.label

/- No jump is astray when all jumps land. -/
theorem History.stray?_eq_none_iff
    {history : History} :
    history.stray? = none ↔ Leaf.JumpsLand history.leaves := by
  unfold History.stray? History.jumps Leaf.JumpsLand
  rw [List.find?_eq_none]
  constructor
  · intro hNone name hJump
    rcases List.mem_map.mp hJump with ⟨placed, hPlaced, hLeaf⟩
    have hLand :=
      hNone { label := name, line := placed.line }
        (List.mem_filterMap.mpr
          ⟨placed, hPlaced, by simp [Placed.jump?, hLeaf,
            Leaf.jump?]⟩)
    simpa [Leaf.mem_labels_iff] using hLand
  · intro hLand jump hJump
    rcases List.mem_filterMap.mp hJump with
      ⟨⟨leaf, line⟩, hPlaced, hSome⟩
    cases leaf <;> simp [Placed.jump?, Leaf.jump?] at hSome
    subst hSome
    have hLabel :=
      hLand _ (List.mem_map.mpr ⟨_, hPlaced, rfl⟩)
    simpa [Leaf.mem_labels_iff] using hLabel

/- A token is the token of the leaf that has its word. -/
theorem Placed.token_eq
    {leaf : Leaf}
    {token : Token}
    (hWord : leaf.word = token.word) :
    Placed.token { leaf := leaf, line := token.line } =
      token := by
  obtain ⟨hKind, hText⟩ := Prod.mk.inj hWord
  simp [Placed.token, hKind, hText]

------------------------------------------------------------
-- Following a History
------------------------------------------------------------

/-
  The cursor supplies a program, up to the end of input, and the
  names are as they should be, but for the jumps.
-/
structure Cursor.Reads
    (start : Cursor)
    (history : History)
    (program : Statements) : Prop where
  supplied : ∃ last, start.Supplies history.tokens last
  ends : Token.EndsList history.tokens
  path : Draft.start.Path history.leaves (Draft.whole program)
  named : Leaf.WellNamed history.leaves

/- What is read as a program spells its tree. -/
theorem Cursor.Reads.spells
    {start : Cursor}
    {history : History}
    {program : Statements}
    (hReads : start.Reads history program) :
    program.SpellsProgram history.leaves :=
  (hReads.path.spellsProgram rfl).2

/-
  The session has passed the tokens of the history, which lead
  to the draft, and not the end of input.
-/
structure Session.Follows
    (start : Cursor)
    (history : History)
    (draft : Draft)
    (s : Session) : Prop where
  supplied :
    start.Supplies (history.tokens ++ [s.current, s.ahead])
      s.cursor
  path : Draft.start.Path history.leaves draft
  unfinished : .finish ∉ history.leaves

namespace Session

variable {start : Cursor}
variable {history : History}
variable {draft next : Draft}
variable {leaf : Leaf}
variable {s t : Session}

/- The token at hand is well spelled. -/
theorem Follows.spelled
    (hFollows : s.Follows start history draft) :
    s.current.Spelled :=
  hFollows.supplied.spelled s.current (by simp)

/- A session that moves on follows what it moves past. -/
theorem Follows.advance
    (hFollows : s.Follows start history draft)
    (hRead : draft.read s.current.word = .ok (leaf, next))
    (hLeaf : leaf ≠ .finish)
    (hMove : s.advance = (.ok (), t)) :
    t.Follows start
      (history ++ [{ leaf := leaf, line := s.current.line }])
      next := by
  have hWord := Draft.word_of_read hFollows.spelled hRead
  unfold Session.advance at hMove
  split at hMove
  · next token cursor hNext =>
    cases hMove
    constructor
    · have hLonger := hFollows.supplied.snoc hNext
      rw [History.tokens_snoc, Placed.token_eq hWord]
      simpa using hLonger
    · rw [History.leaves_snoc]
      apply hFollows.path.snoc
      rwa [← hWord] at hRead
    · rw [History.leaves_snoc, List.mem_append,
        List.mem_singleton]
      intro hMember
      rcases hMember with hEarlier | hLast
      · exact hFollows.unfinished hEarlier
      · exact hLeaf hLast.symm
  · cases hMove

end Session

end TeenyC
