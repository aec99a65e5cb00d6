import TeenyC.Proofs.Tree.Draft

/-
  What a draft has read spells the draft.

  The leaves of a draft fall in two: those up to the last line
  break, which spell the open blocks and the finished
  statements, and those of the line that has been begun. Taking
  a leaf either lengthens the line or finishes it.

  Key definitions include:
    * `Tree.Draft.MarginSpells`
    * `Tree.Draft.Spells`

  Key theorems include:
    * `Tree.Draft.Spells.takes`
    * `Tree.Draft.Spells.path`
    * `Tree.Draft.Path.spellsProgram`
-/

namespace TeenyC

namespace Tree

------------------------------------------------------------
-- Leaves of a Line
------------------------------------------------------------

/- The leaves of a line before an expression in it. -/
def Site.leaves : Site → List Leaf
| .print => [.keyword .print]
| .assign name => [.keyword .letKw, .target name, .sign .assign]
| .condition kind lead =>
    .keyword kind.opener :: Lead.leaves Expression.leaves lead

/- The leaves of a line up to a spot, but for a block's last word. -/
def Spot.leaves : Spot → List Leaf
| .margin | .closed => []
| .printed => [.keyword .print]
| .naming role => [.keyword role.keyword]
| .assigned name => [.keyword .letKw, .target name]
| .operand site sum product sign =>
    site.leaves ++ Lead.leaves Term.leaves sum ++
      Lead.leaves Factor.leaves product ++ Factor.signLeaves sign
| .joint site sum term =>
    site.leaves ++ Lead.leaves Term.leaves sum ++
      Term.leaves term
| .lineEnd last => last.leaves
| .opened kind condition => openingLeaves kind condition
| .finished => [.finish]

/- What an expression finishes with a line break. -/
def Site.simple? (site : Site) (last : Expression) : Option Simple :=
  match site with
  | .print => some (.printValue last)
  | .assign name => some (.assign name last)
  | .condition _ _ => none

/- A site's leaves and an expression's are those of the statement. -/
theorem Site.leaves_append_simple
    {site : Site}
    {last : Expression}
    {simple : Simple}
    (hSimple : site.simple? last = some simple) :
    site.leaves ++ Expression.leaves last = simple.leaves := by
  cases site with
  | print => cases hSimple; rfl
  | assign name => cases hSimple; rfl
  | condition kind lead => cases hSimple

namespace Draft

------------------------------------------------------------
-- What Reading Can Do
------------------------------------------------------------

variable {draft next : Draft}
variable {leaf : Leaf}

/- Only a line break ends a line. -/
theorem readLineEnd_ok
    {after : Draft}
    {kind : Kind}
    (hRead : readLineEnd after kind = .ok (leaf, next)) :
    leaf = .newline ∧ next = after := by
  unfold readLineEnd at hRead
  split at hRead
  · cases hRead
    exact ⟨rfl, rfl⟩
  · cases hRead

/- An operand's place takes an operand, or a sign first. -/
theorem readOperand_ok
    {site : Site}
    {sum : Lead adds Term}
    {product : Lead multiplies Factor}
    {sign : Option (Sign adds)}
    {word : Word}
    (hRead :
      draft.readOperand site sum product sign word =
        .ok (leaf, next)) :
    (∃ operand : Operand,
        leaf = operand.leaf ∧
          next =
            draft.move
              (.joint site sum
                (.extend product
                  { sign := sign, operand := operand }))) ∨
      ∃ first : Sign adds,
        sign = none ∧ leaf = .sign first.1 ∧
          next =
            draft.move
              (.operand site sum product (some first)) := by
  unfold readOperand at hRead
  split at hRead
  · cases hRead
    exact .inl ⟨.number word.2, rfl, rfl⟩
  · cases hRead
    exact .inl ⟨.variable word.2, rfl, rfl⟩
  · next op _ =>
    split at hRead
    · next hLevel =>
      cases hRead
      exact .inr ⟨⟨op, hLevel⟩, rfl, rfl, rfl⟩
    · cases hRead
  · cases hRead

/- A condition ends with its separating word. -/
theorem readSeparator_ok
    {block : Block}
    {lead : Lead compares Expression}
    {last : Expression}
    {kind : Kind}
    (hRead :
      draft.readSeparator block lead last kind =
        .ok (leaf, next)) :
    ∃ left sign,
      lead = some (left, sign) ∧
        leaf = .keyword block.divider ∧
          next =
            draft.move
              (.opened block
                { left := left, sign := sign, right := last }) := by
  unfold readSeparator at hRead
  split at hRead
  · cases hRead
  · next left sign =>
    split at hRead
    · cases hRead
      exact ⟨left, sign, rfl, rfl, rfl⟩
    · cases hRead

/-
  After an expression there is a line break, a comparing
  operator or a separating word.
-/
theorem readExpressionEnd_ok
    {site : Site}
    {last : Expression}
    {kind : Kind}
    (hRead :
      draft.readExpressionEnd site last kind =
        .ok (leaf, next)) :
    (∃ simple,
        site.simple? last = some simple ∧ leaf = .newline ∧
          next = draft.add simple) ∨
      (∃ block lead,
        ∃ sign : Sign compares,
          site = .condition block lead ∧ leaf = .sign sign.1 ∧
            next =
              draft.move
                (.operand
                  (.condition block
                    (some (.extend lead last, sign)))
                  none none none)) ∨
      ∃ block left sign,
        site = .condition block (some (left, sign)) ∧
          leaf = .keyword block.divider ∧
            next =
              draft.move
                (.opened block
                  { left := left, sign := sign,
                    right := last }) := by
  unfold readExpressionEnd at hRead
  split at hRead
  · exact .inl ⟨_, rfl, readLineEnd_ok hRead⟩
  · exact .inl ⟨_, rfl, readLineEnd_ok hRead⟩
  · next block lead op =>
    split at hRead
    · next hLevel =>
      cases hRead
      exact
        .inr (.inl ⟨block, lead, ⟨op, hLevel⟩, rfl, rfl, rfl⟩)
    · rcases readSeparator_ok hRead with
        ⟨left, sign, hLead, hLeaf, hNext⟩
      subst hLead
      exact .inr (.inr ⟨block, left, sign, rfl, hLeaf, hNext⟩)
  · next block lead _ =>
    rcases readSeparator_ok hRead with
      ⟨left, sign, hLead, hLeaf, hNext⟩
    subst hLead
    exact .inr (.inr ⟨block, left, sign, rfl, hLeaf, hNext⟩)

/-
  After a factor there is an operator, or what follows its
  expression.
-/
theorem readJoint_ok
    {site : Site}
    {sum : Lead adds Term}
    {term : Term}
    {kind : Kind}
    (hRead :
      draft.readJoint site sum term kind = .ok (leaf, next)) :
    (∃ sign : Sign multiplies,
        leaf = .sign sign.1 ∧
          next =
            draft.move
              (.operand site sum (some (term, sign)) none)) ∨
      (∃ sign : Sign adds,
        leaf = .sign sign.1 ∧
          next =
            draft.move
              (.operand site (some (.extend sum term, sign))
                none none)) ∨
      draft.readExpressionEnd site (.extend sum term) kind =
        .ok (leaf, next) := by
  unfold readJoint at hRead
  split at hRead
  · next op =>
    split at hRead
    · next hLevel =>
      cases hRead
      exact .inl ⟨⟨op, hLevel⟩, rfl, rfl⟩
    · split at hRead
      · next hLevel =>
        cases hRead
        exact .inr (.inl ⟨⟨op, hLevel⟩, rfl, rfl⟩)
      · exact .inr (.inr hRead)
  · exact .inr (.inr hRead)

/- At the margin a line begins, a block closes, or all ends. -/
theorem readMargin_ok
    {kind : Kind}
    (hRead : draft.readMargin kind = .ok (leaf, next)) :
    (leaf = .newline ∧ next = draft) ∨
      (leaf = .finish ∧ draft.frames = [] ∧
        next = whole draft.done) ∨
      (∃ frame outer,
        draft.frames = frame :: outer ∧
          leaf = .keyword frame.kind.ending ∧
            next = draft.move .closed) ∨
      ∃ word spot,
        Spot.begun? word = some spot ∧ leaf = .keyword word ∧
          next = draft.move spot := by
  unfold readMargin at hRead
  split at hRead
  · cases hRead
    exact .inl ⟨rfl, rfl⟩
  · split at hRead
    · next hFrames =>
      cases hRead
      exact .inr (.inl ⟨rfl, hFrames, rfl⟩)
    · cases hRead
  · next word =>
    split at hRead
    · next outer hOuter =>
      cases hRead
      refine .inr (.inr (.inl ?_))
      cases hFrames : draft.frames with
      | nil =>
          simp [blocks, hFrames, Block.outer?] at hOuter
      | cons frame outer =>
          simp only [blocks, hFrames, List.map_cons,
            Block.outer?, Option.ite_none_right_eq_some,
            Kind.keyword.injEq, Block.closer_eq_ending] at hOuter
          exact ⟨frame, outer, rfl, by rw [hOuter.1], rfl⟩
    · next spot _ hBegun =>
      cases hRead
      exact
        .inr (.inr (.inr ⟨word, spot, hBegun, rfl, rfl⟩))
    · cases hRead
  · cases hRead

------------------------------------------------------------
-- Leaves up to the Line
------------------------------------------------------------

/-
  The ways to spell open blocks and the finished statements of
  the innermost one, up to the last line break.
-/
inductive MarginSpells :
    List Frame → Statements → List Leaf → Prop
| top
    {held : Statements}
    {leaves : List Leaf}
    (blanks : Nat)
    (hDone : held.Spells leaves) :
    MarginSpells [] held (newlines blanks ++ leaves)
| inner
    {frame : Frame}
    {frames : List Frame}
    {held : Statements}
    {outer leaves : List Leaf}
    (blanks : Nat)
    (hOuter : MarginSpells frames frame.before outer)
    (hDone : held.Spells leaves) :
    MarginSpells (frame :: frames) held
      (outer ++ openingLeaves frame.kind frame.condition ++
        newlines (blanks + 1) ++ leaves)

namespace MarginSpells

variable {frames : List Frame}
variable {held : Statements}
variable {leaves : List Leaf}

/- More statements may be spelled at the margin. -/
theorem append
    (hMargin : MarginSpells frames held leaves)
    {more : Statements}
    {later : List Leaf}
    (hMore : more.Spells later) :
    MarginSpells frames (held.append more)
      (leaves ++ later) := by
  cases hMargin with
  | top blanks hDone =>
      rw [List.append_assoc]
      exact .top blanks (hDone.append hMore)
  | inner blanks hOuter hDone =>
      rw [List.append_assoc]
      exact .inner blanks hOuter (hDone.append hMore)

/- A blank line may be spelled at the margin. -/
theorem snoc_newline
    (hMargin : MarginSpells frames held leaves) :
    MarginSpells frames held (leaves ++ [.newline]) := by
  by_cases hNone : held = .done
  · subst hNone
    cases hMargin with
    | top blanks hDone =>
        cases hDone
        have hLonger := MarginSpells.top (blanks + 1) .done
        rw [← newlines_snoc blanks] at hLonger
        simpa using hLonger
    | @inner frame _ _ outer _ blanks hOuter hDone =>
        cases hDone
        have hLonger :=
          MarginSpells.inner (blanks + 1) hOuter .done
        rw [← newlines_snoc (blanks + 1)] at hLonger
        simpa using hLonger
  · cases hMargin with
    | top blanks hDone =>
        rw [List.append_assoc]
        exact .top blanks (hDone.snoc_newline hNone)
    | inner blanks hOuter hDone =>
        rw [List.append_assoc]
        exact .inner blanks hOuter (hDone.snoc_newline hNone)

/- A simple statement may be spelled at the margin. -/
theorem add
    (hMargin : MarginSpells frames held leaves)
    (simple : Simple) :
    MarginSpells frames (held.append (.simple simple .done))
      (leaves ++ simple.leaves ++ [.newline]) := by
  have hSimple :
      (Statements.simple simple .done).Spells _ :=
    .simple 0 .done
  have hMore := hMargin.append hSimple
  simpa [newlines] using hMore

/- A block's first line may be spelled at the margin. -/
theorem push
    (hMargin : MarginSpells frames held leaves)
    (kind : Block)
    (condition : Comparison) :
    MarginSpells
      ({ before := held, kind := kind,
         condition := condition } :: frames)
      .done
      (leaves ++ openingLeaves kind condition ++
        [.newline]) := by
  have hInner :
      MarginSpells
        ({ before := held, kind := kind,
           condition := condition } :: frames)
        .done _ :=
    .inner 0 hMargin .done
  simpa [newlines] using hInner

/- A block's last word may be spelled at the margin. -/
theorem pop
    {frame : Frame}
    (hMargin : MarginSpells (frame :: frames) held leaves) :
    MarginSpells frames
      (frame.before.append
        (.block frame.kind frame.condition held .done))
      (leaves ++ [.keyword frame.kind.ending] ++
        [.newline]) := by
  cases hMargin with
  | inner blanks hOuter hDone =>
      have hBlock :
          (Statements.block frame.kind frame.condition held
            .done).Spells _ :=
        .block blanks 0 hDone .done
      have hMore := hOuter.append hBlock
      simpa [newlines] using hMore

end MarginSpells

------------------------------------------------------------
-- Leaves of a Draft
------------------------------------------------------------

/- The leaves of the line that has been begun. -/
def lineLeaves (draft : Draft) : List Leaf :=
  match draft.spot, draft.frames with
  | .closed, frame :: _ => [.keyword frame.kind.ending]
  | spot, _ => spot.leaves

/- A block's last word needs a block, and the end allows none. -/
def Fits (draft : Draft) : Prop :=
  match draft.spot with
  | .closed => draft.frames ≠ []
  | .finished => draft.frames = []
  | _ => True

/- The ways to spell what a draft holds. -/
structure Spells
    (draft : Draft)
    (leaves : List Leaf) : Prop where
  fits : draft.Fits
  lines :
    ∃ before,
      MarginSpells draft.frames draft.done before ∧
        leaves = before ++ draft.lineLeaves

/- Nothing spells the start. -/
theorem spells_start : start.Spells [] :=
  ⟨trivial, [], .top 0 .done, rfl⟩

/- At the margin no line has been begun. -/
theorem spells_margin_iff
    {leaves : List Leaf}
    (hSpot : draft.spot = .margin) :
    draft.Spells leaves ↔
      MarginSpells draft.frames draft.done leaves := by
  have hLine : draft.lineLeaves = [] := by
    simp [lineLeaves, hSpot, Spot.leaves]
  constructor
  · intro hLonger
    rcases hLonger with ⟨_, before, hBefore, hLeaves⟩
    rw [hLine, List.append_nil] at hLeaves
    rwa [hLeaves]
  · intro hMargin
    exact
      ⟨by simp [Fits, hSpot], leaves, hMargin, by simp [hLine]⟩

/- A line grows by a leaf. -/
theorem Spells.lengthen
    {spot : Spot}
    {leaves : List Leaf}
    (hSpells : draft.Spells leaves)
    (hFits : (draft.move spot).Fits)
    (hLine :
      (draft.move spot).lineLeaves =
        draft.lineLeaves ++ [leaf]) :
    (draft.move spot).Spells (leaves ++ [leaf]) := by
  rcases hSpells with ⟨_, before, hBefore, hLeaves⟩
  exact
    ⟨hFits, before, hBefore, by
      rw [hLine, hLeaves, List.append_assoc]⟩

/- What is spelled where an expression may go on. -/
theorem Spells.takes_expressionEnd
    {site : Site}
    {last : Expression}
    {leaves : List Leaf}
    (hSpells : draft.Spells leaves)
    (hLine :
      draft.lineLeaves = site.leaves ++ Expression.leaves last)
    {kind : Kind}
    (hRead :
      draft.readExpressionEnd site last kind =
        .ok (leaf, next)) :
    next.Spells (leaves ++ [leaf]) := by
  rcases readExpressionEnd_ok hRead with
    ⟨simple, hSimple, hLeaf, hNext⟩ |
    ⟨block, lead, sign, hSite, hLeaf, hNext⟩ |
    ⟨block, left, sign, hSite, hLeaf, hNext⟩
  · rcases hSpells with ⟨_, before, hBefore, hLeaves⟩
    subst hLeaf hNext
    rw [spells_margin_iff rfl, hLeaves, hLine,
      Site.leaves_append_simple hSimple]
    exact hBefore.add simple
  · subst hSite hLeaf hNext
    refine hSpells.lengthen trivial ?_
    rw [hLine]
    simp [lineLeaves, move, Spot.leaves, Site.leaves,
      Lead.leaves, Lead.leaves_extend, Factor.signLeaves]
  · subst hSite hLeaf hNext
    refine hSpells.lengthen trivial ?_
    rw [hLine]
    simp [lineLeaves, move, Spot.leaves, Site.leaves,
      openingLeaves, Comparison.leaves, Comparison.chain,
      Chain.leaves, Lead.leaves]

/- What is spelled where an operand may stand. -/
theorem Spells.takes_operand
    {site : Site}
    {sum : Lead adds Term}
    {product : Lead multiplies Factor}
    {sign : Option (Sign adds)}
    {leaves : List Leaf}
    (hSpells : draft.Spells leaves)
    (hLine :
      draft.lineLeaves =
        (Spot.operand site sum product sign).leaves)
    {word : Word}
    (hRead :
      draft.readOperand site sum product sign word =
        .ok (leaf, next)) :
    next.Spells (leaves ++ [leaf]) := by
  rcases readOperand_ok hRead with
    ⟨operand, hLeaf, hNext⟩ | ⟨first, hSign, hLeaf, hNext⟩
  · subst hLeaf hNext
    refine hSpells.lengthen trivial ?_
    rw [hLine]
    simp [lineLeaves, move, Spot.leaves, Term.leaves,
      Lead.leaves_extend, Factor.leaves]
  · subst hSign hLeaf hNext
    refine hSpells.lengthen trivial ?_
    rw [hLine]
    simp [lineLeaves, move, Spot.leaves, Factor.signLeaves]

/- What is spelled after a factor. -/
theorem Spells.takes_joint
    {site : Site}
    {sum : Lead adds Term}
    {term : Term}
    {leaves : List Leaf}
    (hSpells : draft.Spells leaves)
    (hLine :
      draft.lineLeaves = (Spot.joint site sum term).leaves)
    {kind : Kind}
    (hRead :
      draft.readJoint site sum term kind = .ok (leaf, next)) :
    next.Spells (leaves ++ [leaf]) := by
  rcases readJoint_ok hRead with
    ⟨sign, hLeaf, hNext⟩ | ⟨sign, hLeaf, hNext⟩ | hEnd
  · subst hLeaf hNext
    refine hSpells.lengthen trivial ?_
    rw [hLine]
    simp [lineLeaves, move, Spot.leaves, Lead.leaves,
      Term.leaves, Factor.signLeaves]
  · subst hLeaf hNext
    refine hSpells.lengthen trivial ?_
    rw [hLine]
    simp [lineLeaves, move, Spot.leaves, Lead.leaves,
      Lead.leaves_extend, Factor.signLeaves]
  · apply hSpells.takes_expressionEnd _ hEnd
    rw [hLine]
    simp [Spot.leaves, Expression.leaves, Lead.leaves_extend]

/- What is spelled at the margin. -/
theorem Spells.takes_margin
    {leaves : List Leaf}
    (hSpells : draft.Spells leaves)
    (hSpot : draft.spot = .margin)
    {kind : Kind}
    (hRead : draft.readMargin kind = .ok (leaf, next)) :
    next.Spells (leaves ++ [leaf]) := by
  have hLine : draft.lineLeaves = [] := by
    simp [lineLeaves, hSpot, Spot.leaves]
  rcases readMargin_ok hRead with
    ⟨hLeaf, hNext⟩ | ⟨hLeaf, hFrames, hNext⟩ |
    ⟨frame, outer, hFrames, hLeaf, hNext⟩ |
    ⟨word, spot, hBegun, hLeaf, hNext⟩
  · subst hLeaf hNext
    rw [spells_margin_iff hSpot] at hSpells ⊢
    exact hSpells.snoc_newline
  · subst hLeaf hNext
    rw [spells_margin_iff hSpot, hFrames] at hSpells
    exact ⟨rfl, leaves, hSpells, rfl⟩
  · subst hLeaf hNext
    apply hSpells.lengthen (by simp [Fits, move, hFrames])
    rw [hLine]
    simp [lineLeaves, move, hFrames]
  · subst hLeaf hNext
    cases word <;> cases hBegun <;>
      exact hSpells.lengthen trivial (by rw [hLine]; rfl)

/- What is spelled where a line must end. -/
theorem Spells.takes_newline
    {after : Draft}
    {leaves : List Leaf}
    (hAfter : after.Spells (leaves ++ [.newline]))
    {kind : Kind}
    (hRead : readLineEnd after kind = .ok (leaf, next)) :
    next.Spells (leaves ++ [leaf]) := by
  obtain ⟨hLeaf, hNext⟩ := readLineEnd_ok hRead
  rwa [hLeaf, hNext]

/- What is spelled after the word that prints. -/
theorem Spells.takes_printed
    {leaves : List Leaf}
    (hSpells : draft.Spells leaves)
    (hSpot : draft.spot = .printed)
    {word : Word}
    (hRead : draft.read word = .ok (leaf, next)) :
    next.Spells (leaves ++ [leaf]) := by
  have hLine : draft.lineLeaves = [.keyword .print] := by
    simp [lineLeaves, hSpot, Spot.leaves]
  unfold read at hRead
  simp only [hSpot] at hRead
  split at hRead
  · cases hRead
    refine hSpells.lengthen trivial ?_
    rw [hLine]
    rfl
  · apply hSpells.takes_operand _ hRead
    rw [hLine]
    rfl

/- What is spelled where a name must stand. -/
theorem Spells.takes_name
    {role : Naming}
    {leaves : List Leaf}
    (hSpells : draft.Spells leaves)
    (hSpot : draft.spot = .naming role)
    {word : Word}
    (hRead : draft.read word = .ok (leaf, next)) :
    next.Spells (leaves ++ [leaf]) := by
  have hLine : draft.lineLeaves = [.keyword role.keyword] := by
    simp [lineLeaves, hSpot, Spot.leaves]
  unfold read at hRead
  simp only [hSpot] at hRead
  split at hRead
  · cases hRead
    cases role <;>
      exact hSpells.lengthen trivial (by rw [hLine]; rfl)
  · cases hRead

/- What is spelled where an assignment sign must stand. -/
theorem Spells.takes_assign
    {name : String}
    {leaves : List Leaf}
    (hSpells : draft.Spells leaves)
    (hSpot : draft.spot = .assigned name)
    {word : Word}
    (hRead : draft.read word = .ok (leaf, next)) :
    next.Spells (leaves ++ [leaf]) := by
  have hLine :
      draft.lineLeaves = [.keyword .letKw, .target name] := by
    simp [lineLeaves, hSpot, Spot.leaves]
  unfold read at hRead
  simp only [hSpot] at hRead
  split at hRead
  · cases hRead
    refine hSpells.lengthen trivial ?_
    rw [hLine]
    rfl
  · cases hRead

/- A block that is closed is spelled with its last line break. -/
theorem Spells.pop
    {leaves : List Leaf}
    (hSpells : draft.Spells leaves)
    (hSpot : draft.spot = .closed) :
    draft.pop.Spells (leaves ++ [.newline]) := by
  rcases hSpells.lines with ⟨before, hBefore, hLeaves⟩
  cases hFrames : draft.frames with
  | nil =>
      have hFits := hSpells.fits
      simp [Fits, hSpot, hFrames] at hFits
  | cons frame outer =>
      have hPop : draft.pop.spot = .margin := by
        simp [Draft.pop, hFrames]
      rw [hFrames] at hBefore
      rw [spells_margin_iff hPop, hLeaves]
      simpa [lineLeaves, hSpot, hFrames, Draft.pop] using
        hBefore.pop

/- Taking a leaf makes the spelling longer by that leaf. -/
theorem Spells.takes
    {leaves : List Leaf}
    (hSpells : draft.Spells leaves)
    (hTakes : draft.Takes leaf next) :
    next.Spells (leaves ++ [leaf]) := by
  unfold Takes at hTakes
  generalize leaf.word = word at hTakes
  have hRead := hTakes
  unfold read at hRead
  rcases hSpells.lines with ⟨before, hBefore, hLeaves⟩
  cases hSpot : draft.spot with
  | margin =>
      rw [hSpot] at hRead
      exact hSpells.takes_margin hSpot hRead
  | printed => exact hSpells.takes_printed hSpot hTakes
  | naming role => exact hSpells.takes_name hSpot hTakes
  | assigned name => exact hSpells.takes_assign hSpot hTakes
  | operand site sum product sign =>
      rw [hSpot] at hRead
      apply hSpells.takes_operand _ hRead
      simp [lineLeaves, hSpot]
  | joint site sum term =>
      rw [hSpot] at hRead
      apply hSpells.takes_joint _ hRead
      simp [lineLeaves, hSpot]
  | lineEnd last =>
      rw [hSpot] at hRead
      apply Spells.takes_newline _ hRead
      rw [spells_margin_iff rfl, hLeaves]
      simpa [lineLeaves, hSpot, Spot.leaves, Draft.add] using
        hBefore.add last
  | opened kind condition =>
      rw [hSpot] at hRead
      apply Spells.takes_newline _ hRead
      rw [spells_margin_iff rfl, hLeaves]
      simpa [lineLeaves, hSpot, Spot.leaves, Draft.push] using
        hBefore.push kind condition
  | closed =>
      rw [hSpot] at hRead
      exact Spells.takes_newline (hSpells.pop hSpot) hRead
  | finished =>
      rw [hSpot] at hRead
      cases hRead

------------------------------------------------------------
-- Leaves of a Path
------------------------------------------------------------

/- A path makes the spelling longer by its leaves. -/
theorem Spells.path
    {first last : Draft}
    {before leaves : List Leaf}
    (hSpells : first.Spells before)
    (hPath : Path first leaves last) :
    last.Spells (before ++ leaves) := by
  induction hPath generalizing before with
  | nil => rwa [List.append_nil]
  | cons hTakes _ ih =>
      have hLonger := ih (hSpells.takes hTakes)
      rwa [List.append_assoc] at hLonger

/- A finished draft is a program, spelled by what was read. -/
theorem Path.spellsProgram
    {last : Draft}
    {leaves : List Leaf}
    (hPath : Path start leaves last)
    (hFinished : last.spot = .finished) :
    last = whole last.done ∧ last.done.SpellsProgram leaves := by
  have hSpells := spells_start.path hPath
  rcases last with ⟨frames, held, spot⟩
  subst hFinished
  rcases hSpells with ⟨hFits, before, hBefore, hLeaves⟩
  change frames = [] at hFits
  subst hFits
  cases hBefore with
  | top blanks hHeld => exact ⟨rfl, blanks, _, hLeaves, hHeld⟩

end Draft

end Tree

end TeenyC
