import TeenyC.Proofs.Token.Scan
import TeenyC.Proofs.Tree.Basic

/-
  The forms that the lines of emitted C texts have.

  A line is its first word and what follows it. If the names in
  a line are names, and the characters it prints are characters
  of strings, its text tells which form it has.

  Key definitions include:
    * `CText.Line`
    * `CText.Line.text`
    * `CText.Line.Sound`
    * `Tree.Statements.allLines`

  Key theorems include:
    * `CText.Line.eq_label`
    * `CText.Line.eq_declare`
    * `CText.Line.eq_jump`
    * `CText.Line.eq_assign`
    * `CText.lines_join`
    * `Tree.Statements.generate_eq_join`
-/

namespace TeenyC

namespace CText

open Lexeme

------------------------------------------------------------
-- Forms
------------------------------------------------------------

/- The forms of lines, in the order of their first places. -/
inductive Line where
| library
| main
| declare (name : String)
| printText (contents : String)
| printValue (value : String)
| label (name : String)
| jump (name : String)
| assign (name value : String)
| scan (name : String)
| skip
| opening (kind : Block) (value : String)
| close
| finish
deriving DecidableEq

namespace Line

/- A line without its break. -/
def text : Line → String
| .library => "#include <stdio.h>"
| .main => "int main(void)\x7b"
| .declare name => "float " ++ name ++ ";"
| .printText contents => "printf(\"" ++ contents ++ "\\n\");"
| .printValue value =>
    "printf(\"%.2f\\n\", (float)(" ++ value ++ "));"
| .label name => name ++ ":;"
| .jump name => "goto " ++ name ++ ";"
| .assign name value => name ++ " = " ++ value ++ ";"
| .scan name => "if(0 == scanf(\"%f\", &" ++ name ++ ")) \x7b"
| .skip => "scanf(\"%*s\");"
| .opening kind value => kind.head ++ value ++ ")\x7b"
| .close => "\x7d"
| .finish => "return 0;"

------------------------------------------------------------
-- The Parts of a Line
------------------------------------------------------------

/- The letters and digits that a line starts with. -/
def word : Line → String
| .library | .close => ""
| .main => "int"
| .declare _ => "float"
| .printText _ | .printValue _ => "printf"
| .label name | .assign name _ => name
| .jump _ => "goto"
| .scan _ | .opening .conditional _ => "if"
| .skip => "scanf"
| .opening .repetition _ => "while"
| .finish => "return"

/- The character after the first word, which ends it. -/
def mark : Line → Char
| .library => '#'
| .main | .declare _ | .jump _ | .assign _ _ | .finish => ' '
| .printText _ | .printValue _ | .scan _ | .skip
| .opening _ _ => '('
| .label _ => ':'
| .close => '\x7d'

/- What stands after the mark in every line of the form. -/
def before : Line → String
| .library => "include <stdio.h>"
| .main => "main(void)\x7b"
| .printText _ => "\""
| .printValue _ => "\"%.2f\\n\", (float)("
| .assign _ _ => "= "
| .scan _ => "0 == scanf(\"%f\", &"
| .skip => "\"%*s\");"
| .finish => "0;"
| .declare _ | .label _ | .jump _ | .opening _ _ | .close => ""

/- The name, the value or the string that a line holds. -/
def held : Line → String
| .declare name | .jump name | .scan name => name
| .printText contents => contents
| .printValue value | .assign _ value | .opening _ value => value
| .library | .main | .label _ | .skip | .close | .finish => ""

/- What stands at the end of every line of the form. -/
def after : Line → String
| .declare _ | .label _ | .jump _ | .assign _ _ => ";"
| .printText _ => "\\n\");"
| .printValue _ => "));"
| .scan _ => ")) \x7b"
| .opening _ _ => ")\x7b"
| .library | .main | .skip | .close | .finish => ""

/- What follows the mark. -/
def tail (line : Line) : List Char :=
  line.before.toList ++ line.held.toList ++ line.after.toList

/- A line is its first word, the mark after it, and the tail. -/
theorem toList_text (line : Line) :
    line.text.toList =
      line.word.toList ++ line.mark :: line.tail := by
  cases line with
  | opening kind value =>
      cases kind <;>
        unfold text word mark tail before held after <;>
        simp only [Block.head, String.toList_append,
          String.reduceToList, List.cons_append,
          List.nil_append]
  | _ =>
      unfold text word mark tail before held after
      simp only [String.toList_append, String.reduceToList,
        List.append_assoc, List.cons_append, List.nil_append,
        List.append_nil]

/- A line whose names are names, and whose string is a string. -/
def Sound : Line → Prop
| .declare name | .label name | .jump name | .assign name _ =>
    IsName name.toList
| .printText contents =>
    ∀ ch ∈ contents.toList, isStringText ch = true
| _ => True

------------------------------------------------------------
-- Lines Told Apart
------------------------------------------------------------

/- The characters of a name are letters and digits. -/
theorem isAlphanum_of_isName
    {name : List Char}
    (hName : IsName name) :
    ∀ ch ∈ name, ch.isAlphanum = true := by
  rcases hName with ⟨first, more, hText, hFirst, hMore⟩
  intro ch hCh
  rw [hText] at hCh
  rcases List.mem_cons.mp hCh with hSame | hIn
  · simp [hSame, Char.isAlphanum, hFirst]
  · exact hMore ch hIn

/- The first word is letters and digits. -/
theorem Sound.word_text
    {line : Line}
    (hSound : line.Sound) :
    ∀ ch ∈ line.word.toList, ch.isAlphanum = true := by
  cases line with
  | label name => exact isAlphanum_of_isName hSound
  | assign name value => exact isAlphanum_of_isName hSound
  | opening kind value => cases kind <;> simp [word]
  | _ => simp [word]

/- The mark is no letter and no digit. -/
theorem isAlphanum_mark (line : Line) :
    line.mark.isAlphanum = false := by
  cases line <;> rfl

/- The text of a line tells its first word, its mark and its tail. -/
theorem Sound.parts_eq
    {line : Line}
    {word tail : List Char}
    {mark : Char}
    (hSound : line.Sound)
    (hWord : ∀ ch ∈ word, ch.isAlphanum = true)
    (hMark : mark.isAlphanum = false)
    (hText : line.text.toList = word ++ mark :: tail) :
    line.word.toList = word ∧
      line.mark = mark ∧ line.tail = tail := by
  have hEnds : Ends Char.isAlphanum (mark :: tail) := by
    intro ch hHead
    cases hHead
    exact hMark
  have hLineEnds :
      Ends Char.isAlphanum (line.mark :: line.tail) := by
    intro ch hHead
    cases hHead
    exact isAlphanum_mark line
  rw [toList_text] at hText
  have hTake := congrArg (List.takeWhile Char.isAlphanum) hText
  have hDrop := congrArg (List.dropWhile Char.isAlphanum) hText
  rw [takeWhile_ends hSound.word_text hLineEnds,
    takeWhile_ends hWord hEnds] at hTake
  rw [dropWhile_ends hSound.word_text hLineEnds,
    dropWhile_ends hWord hEnds] at hDrop
  exact ⟨hTake, List.cons.inj hDrop⟩

/- Lines of one text have one first word, mark and tail. -/
theorem parts_eq
    {line other : Line}
    (hText : line.text = other.text)
    (hSound : line.Sound)
    (hOther : other.Sound) :
    line.word = other.word ∧
      line.mark = other.mark ∧ line.tail = other.tail := by
  rw [← String.toList_inj, other.toList_text] at hText
  rcases hSound.parts_eq hOther.word_text other.isAlphanum_mark
      hText with
    ⟨hWord, hParts⟩
  exact ⟨String.toList_inj.mp hWord, hParts⟩

/- Lines that differ in what they hold at most hold the same. -/
theorem held_eq
    {line other : Line}
    (hTail : line.tail = other.tail)
    (hBefore : line.before = other.before)
    (hAfter : line.after = other.after) :
    line.held = other.held := by
  unfold tail at hTail
  rw [hBefore, hAfter] at hTail
  have hHeld := List.append_cancel_right hTail
  exact String.toList_inj.mp (List.append_cancel_left hHeld)

/- An assignment goes on with an equals sign. -/
theorem tail_assign (name value : String) :
    (assign name value).tail =
      '=' :: ' ' :: (value.toList ++ [';']) := by
  simp only [tail, before, held, after, String.reduceToList,
    List.cons_append, List.nil_append]

/- A declaration or a jump goes on with its name. -/
theorem tail_of_name
    {line : Line}
    (hBefore : line.before = "")
    (hAfter : line.after = ";") :
    line.tail = line.held.toList ++ [';'] := by
  simp only [tail, hBefore, hAfter, String.reduceToList,
    List.nil_append]

/- A name does not go on as an assignment does. -/
theorem not_assign_of_isName
    {line : Line}
    {target value : String}
    (hTail : line.tail = (assign target value).tail)
    (hBefore : line.before = "")
    (hAfter : line.after = ";")
    (hName : IsName line.held.toList) :
    False := by
  rcases hName with ⟨first, rest, hText, hFirst, _⟩
  rw [tail_assign, tail_of_name hBefore hAfter, hText] at hTail
  obtain ⟨rfl, -⟩ := List.cons.inj hTail
  cases hFirst

/- A string does not go on as a printed value does. -/
theorem ne_printValue_of_isStringText
    {contents : String}
    (hContents :
      ∀ ch ∈ contents.toList, isStringText ch = true)
    (value : String) :
    (printText contents).tail ≠ (printValue value).tail := by
  intro hSame
  simp only [tail, before, held, after, String.reduceToList,
    List.cons_append, List.nil_append, List.cons.injEq,
    true_and] at hSame
  cases hText : contents.toList with
  | nil =>
      rw [hText] at hSame
      cases hSame
  | cons first rest =>
      rw [hText] at hSame hContents
      have hFirst := hContents first List.mem_cons_self
      obtain ⟨rfl, -⟩ := List.cons.inj hSame
      cases hFirst

/- A line that reads a number does not end as a block opens. -/
theorem scan_ne_opening
    (name value : String)
    (kind : Block) :
    (scan name).tail ≠ (opening kind value).tail := by
  intro hSame
  have hEnds := congrArg List.reverse hSame
  simp only [tail, after, String.reduceToList,
    List.reverse_append, List.reverse_cons, List.reverse_nil,
    List.nil_append, List.cons_append, List.cons.injEq,
    Char.reduceEq, false_and, and_false] at hEnds

------------------------------------------------------------
-- Forms Read from Texts
------------------------------------------------------------

variable {line : Line}
variable {name value : String}

/- A line that declares a label is known by its colon. -/
theorem eq_label
    (hSound : line.Sound)
    (hName : IsName name.toList)
    (hText : line.text = (label name).text) :
    line = label name := by
  rcases parts_eq hText hSound hName with ⟨hWord, hMark, _⟩
  cases line with
  | label other => exact congrArg label hWord
  | _ => cases hMark

/- A declaration is known by its word, which no equals sign follows. -/
theorem eq_declare
    (hSound : line.Sound)
    (hName : IsName name.toList)
    (hText : line.text = (declare name).text) :
    line = declare name := by
  rcases parts_eq hText hSound hName with ⟨hWord, hMark, hTail⟩
  cases line with
  | declare other => exact congrArg declare (held_eq hTail rfl rfl)
  | assign other value =>
      exact (not_assign_of_isName hTail.symm rfl rfl hName).elim
  | main | jump | finish => simp [word] at hWord
  | _ => cases hMark

/- A jump is known by its word, which no equals sign follows. -/
theorem eq_jump
    (hSound : line.Sound)
    (hName : IsName name.toList)
    (hText : line.text = (jump name).text) :
    line = jump name := by
  rcases parts_eq hText hSound hName with ⟨hWord, hMark, hTail⟩
  cases line with
  | jump other => exact congrArg jump (held_eq hTail rfl rfl)
  | assign other value =>
      exact (not_assign_of_isName hTail.symm rfl rfl hName).elim
  | main | declare | finish => simp [word] at hWord
  | _ => cases hMark

/- An assignment is known by its equals sign. -/
theorem eq_assign
    (hSound : line.Sound)
    (hName : IsName name.toList)
    (hText : line.text = (assign name value).text) :
    line = assign name value := by
  rcases parts_eq hText hSound hName with ⟨hWord, hMark, hTail⟩
  cases line with
  | assign other held =>
      exact congrArg₂ assign hWord (held_eq hTail rfl rfl)
  | declare other | jump other =>
      exact (not_assign_of_isName hTail rfl rfl hSound).elim
  | main | finish => simp [tail, before] at hTail
  | _ => cases hMark

/- A value is printed after a percent sign, which no string holds. -/
theorem eq_printValue
    (hSound : line.Sound)
    (hText : line.text = (printValue value).text) :
    line = printValue value := by
  rcases parts_eq hText hSound trivial with ⟨hWord, hMark, hTail⟩
  cases line with
  | printValue other =>
      exact congrArg printValue (held_eq hTail rfl rfl)
  | printText contents =>
      exact absurd hTail (ne_printValue_of_isStringText hSound _)
  | scan | skip => simp [word] at hWord
  | opening kind held => cases kind <;> simp [word] at hWord
  | _ => cases hMark

/- A line that reads a number is known by its end. -/
theorem eq_scan
    (hSound : line.Sound)
    (hText : line.text = (scan name).text) :
    line = scan name := by
  rcases parts_eq hText hSound trivial with ⟨hWord, hMark, hTail⟩
  cases line with
  | scan other => exact congrArg scan (held_eq hTail rfl rfl)
  | printText | printValue | skip => simp [word] at hWord
  | opening kind held =>
      exact absurd hTail.symm (scan_ne_opening _ _ _)
  | _ => cases hMark

/- A block opens with its word, and a brace right at its end. -/
theorem eq_opening
    {kind : Block}
    (hSound : line.Sound)
    (hText : line.text = (opening kind value).text) :
    line = opening kind value := by
  rcases parts_eq hText hSound trivial with ⟨hWord, hMark, hTail⟩
  cases line with
  | opening other held =>
      have hKind : other = kind := by
        cases other <;> cases kind <;>
          first | rfl | simp [word] at hWord
      exact congrArg₂ opening hKind (held_eq hTail rfl rfl)
  | printText | printValue | skip =>
      cases kind <;> simp [word] at hWord
  | scan other => exact absurd hTail (scan_ne_opening _ _ _)
  | _ => cases hMark

/- Lines one after another, each with its break. -/
def join (lines : List Line) : String :=
  String.join (lines.map fun line => Tree.codeLine line.text)

/- A line stands with its break before the lines after it. -/
@[simp]
theorem join_cons
    (line : Line)
    (more : List Line) :
    join (line :: more) = Tree.codeLine line.text ++ join more :=
  String.join_cons

/- No lines have no text. -/
@[simp]
theorem join_nil : join [] = "" := rfl

/- Lines stand before the lines after them. -/
@[simp]
theorem join_append (first more : List Line) :
    join (first ++ more) = join first ++ join more := by
  induction first with
  | nil => exact String.empty_append.symm
  | cons line first ih => simp [ih, String.append_assoc]

end Line

------------------------------------------------------------
-- Texts Split into Lines
------------------------------------------------------------

/- The lines of a text; nothing follows its last break. -/
def lines (text : String) : List String :=
  (text.toList.splitOn '\n').map String.ofList

/- A line that has no break is split off. -/
theorem lines_codeLine_append
    {code : String}
    (hBreak : '\n' ∉ code.toList)
    (more : String) :
    lines (Tree.codeLine code ++ more) = code :: lines more := by
  have hCode : ∀ ch ∈ code.toList, (ch == '\n') = false := by
    intro ch hCh
    rw [beq_eq_false_iff_ne]
    rintro rfl
    exact hBreak hCh
  have hSplit :=
    List.splitOnP_append_cons_of_forall_mem hCode '\n'
      (beq_self_eq_true '\n') more.toList
  simpa [lines, Tree.codeLine, List.splitOn] using
    congrArg (List.map String.ofList) hSplit

/- Lines without breaks of their own are split as they are joined. -/
theorem lines_join
    {forms : List Line}
    (hBreak : ∀ line ∈ forms, '\n' ∉ line.text.toList) :
    lines (Line.join forms) = forms.map Line.text ++ [""] := by
  induction forms with
  | nil => rfl
  | cons line more ih =>
      have hMore :=
        ih fun other hOther =>
          hBreak other (List.mem_cons_of_mem _ hOther)
      rw [Line.join_cons,
        lines_codeLine_append (hBreak line List.mem_cons_self),
        hMore]
      rfl

/- Texts of lines are counted as lines, if they tell the line. -/
theorem count_text
    {forms : List Line}
    {line : Line}
    (hRead :
      ∀ other ∈ forms, other.text = line.text → other = line) :
    (forms.map Line.text).count line.text = forms.count line := by
  rw [List.count, List.count, List.countP_map]
  apply List.countP_congr
  intro other hOther
  simp only [Function.comp_apply, beq_iff_eq]
  exact ⟨hRead other hOther, congrArg Line.text⟩

end CText

------------------------------------------------------------
-- Lines of Programs
------------------------------------------------------------

namespace Tree

open CText

/- The lines of a simple statement. -/
def Simple.lines : Simple → List Line
| .printText contents => [.printText contents]
| .printValue value => [.printValue (Expression.text value)]
| .label name => [.label name]
| .jump name => [.jump name]
| .assign name value => [.assign name (Expression.text value)]
| .input name => [.scan name, .assign name "0", .skip, .close]

/- The lines of statements, blocks in braces. -/
def Statements.lines : Statements → List Line
| .done => []
| .simple first rest => first.lines ++ rest.lines
| .block kind condition inner rest =>
    .opening kind condition.text ::
      (inner.lines ++ .close :: rest.lines)

/- The lines after the declarations of a program. -/
def Statements.bodyLines (program : Statements) : List Line :=
  program.lines ++ [.finish, .close]

/- The lines of the C program of a syntax tree. -/
def Statements.allLines (program : Statements) : List Line :=
  .library :: .main ::
    (program.targets.eraseDups.map .declare ++
      program.bodyLines)

/- A variable is set to zero by an assignment. -/
theorem text_reset (name : String) :
    (Line.assign name "0").text = name ++ " = 0;" := by
  unfold Line.text
  rw [← String.toList_inj]
  simp only [String.toList_append, String.reduceToList,
    List.append_assoc, List.cons_append, List.nil_append]

/- The text of a simple statement is its lines. -/
theorem Simple.text_eq_join (simple : Simple) :
    simple.text = Line.join simple.lines := by
  cases simple with
  | input name =>
      simp only [Simple.lines, Line.join_cons, Line.join_nil,
        text_reset, String.append_empty]
      rfl
  | _ =>
      simp only [Simple.lines, Line.join_cons, Line.join_nil,
        String.append_empty]
      rfl

/- The text of statements is their lines. -/
theorem Statements.text_eq_join (statements : Statements) :
    statements.text = Line.join statements.lines := by
  induction statements with
  | done => rfl
  | simple first rest ih =>
      rw [Statements.text, Statements.lines, Line.join_append,
        Simple.text_eq_join, ih]
  | block kind condition inner rest ihInner ihRest =>
      rw [Statements.text, Statements.lines, Line.join_cons,
        Line.join_append, Line.join_cons, ihInner, ihRest,
        String.append_assoc, String.append_assoc]
      rfl

/- Declarations are lines. -/
theorem Statements.declarations_eq_join (names : List String) :
    String.join (names.map declaration) =
      Line.join (names.map .declare) := by
  rw [Line.join, List.map_map]
  rfl

/- A generated program is its lines. -/
theorem Statements.generate_eq_join (program : Statements) :
    program.generate = Line.join program.allLines := by
  simp only [generate, preamble, closing, allLines, bodyLines,
    text_eq_join, declarations_eq_join, Line.join_cons,
    Line.join_append, Line.join_nil, String.append_assoc,
    String.append_empty]
  rfl

end Tree

end TeenyC
