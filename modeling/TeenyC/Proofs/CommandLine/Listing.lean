import TeenyC.Proofs.CText.Line
import TeenyC.Proofs.CommandLine.Run
import TeenyC.Proofs.Token.OneLine
import TeenyC.Proofs.Token.Printed

/-
  Listings of tokens, and how they are read back.

  A token is listed on a line of its own: the name of its kind,
  and behind a space what is written for it, if the kind alone
  does not tell that. Names of kinds have no space, and no text
  that is listed breaks its line. So each line tells its word, and
  two texts are listed alike if and only if they have the same
  words.

  Key definitions include:
    * `Kind.fixedText?`
    * `Word.ofListing?`
    * `Word.listed?`
    * `Token.listAll`
    * `AsksForTokens`

  Key theorems include:
    * `Token.Spelled.ofListing?_listing`
    * `Token.lines_listAll`
    * `Token.listed?_listAll`
    * `listTokens_unambiguous`
-/

namespace TeenyC

open TeenyC.CText
open TeenyC.Lexeme

------------------------------------------------------------
-- Kinds
------------------------------------------------------------

namespace Kind

/- The text that every token of a kind has, if it is one text. -/
def fixedText? : Kind → Option String
| .eof => some ""
| .newline => some "\n"
| .keyword word => some word.spelling
| .operator sign => some sign.spelling
| .number | .ident | .string => none

/- The kind of a given name. -/
def ofName? (name : String) : Option Kind :=
  all.find? fun kind => kind.name == name

/- The text of a token of a kind, from what is written for it. -/
def unspell?
    (kind : Kind)
    (written : List Char) : Option (List Char) :=
  match kind, written with
  | .string, '"' :: text =>
      if text.getLast? = some '"' then some text.dropLast else none
  | .string, _ => none
  | _, text => some text

/-
  The word of a kind, from what is shown behind the kind's name:
  nothing, or a space and what is written for the word.
-/
def word?
    (kind : Kind)
    (shown : List Char) : Option Word :=
  match kind.fixedText?, shown with
  | some text, [] => some (kind, text)
  | none, _ :: written =>
      (kind.unspell? written).map fun text =>
        (kind, String.ofList text)
  | _, _ => none

/- Kinds are told apart by their names. -/
theorem ofName?_name (kind : Kind) :
    ofName? kind.name = some kind := by
  have hAll : ∀ kind ∈ all, ofName? kind.name = some kind := by
    decide +kernel
  exact hAll kind kind.mem_all

/- The name of a kind has no space. -/
theorem space_notMem_name (kind : Kind) :
    ' ' ∉ kind.name.toList := by
  have hAll : ∀ kind ∈ all, ' ' ∉ kind.name.toList := by
    decide +kernel
  exact hAll kind kind.mem_all

/- What is written for a token tells its text. -/
theorem unspell?_spell
    (kind : Kind)
    (text : List Char) :
    kind.unspell? (kind.spell text) = some text := by
  cases kind with
  | string => simp [spell, unspell?]
  | _ => rfl

end Kind

------------------------------------------------------------
-- Lines
------------------------------------------------------------

/- The word that a line of a listing tells. -/
def Word.ofListing? (line : String) : Option Word :=
  (Kind.ofName?
      (String.ofList (line.toList.takeWhile (· != ' ')))).bind
    fun kind => kind.word? (line.toList.dropWhile (· != ' '))

/- The words that a listing tells; nothing follows its last line. -/
def Word.listed? (listing : String) : Option (List Word) :=
  (lines listing).dropLast.mapM Word.ofListing?

namespace Token

variable {token : Token}

/- A token of a kind with one text is listed by the kind alone. -/
theorem listing_of_fixed
    {text : String}
    (hFixed : token.kind.fixedText? = some text) :
    token.listing = token.kind.name := by
  rcases token with ⟨kind, _, _⟩
  cases kind with
  | number | ident | string => cases hFixed
  | _ => rfl

/- Other tokens are listed by their kind and what is written. -/
theorem listing_of_varied
    (hVaried : token.kind.fixedText? = none) :
    token.listing = token.kind.name ++ (" " ++ token.written) := by
  rcases token with ⟨kind, text, _⟩
  cases kind with
  | number | ident =>
      simp [listing, written, Kind.spell, String.append_assoc]
  | string =>
      apply String.ext
      simp [listing, written, Kind.spell]
  | _ => cases hVaried

/- A kind with one text tells the text. -/
theorem Spelled.text_of_fixed
    {text : String}
    (hSpelled : token.Spelled)
    (hFixed : token.kind.fixedText? = some text) :
    token.text = text := by
  rcases token with ⟨kind, own, _⟩
  apply String.ext
  cases kind with
  | number | ident | string => cases hFixed
  | _ =>
      cases hFixed
      exact hSpelled

/- A line is split behind the name of its kind. -/
theorem ofListing?_append
    (kind : Kind)
    {line : String}
    {shown : List Char}
    (hLine : line.toList = kind.name.toList ++ shown)
    (hEnds : Ends (· != ' ') shown) :
    Word.ofListing? line = kind.word? shown := by
  have hName : ∀ ch ∈ kind.name.toList, (ch != ' ') = true := by
    intro ch hCh
    rw [bne_iff_ne]
    rintro rfl
    exact kind.space_notMem_name hCh
  rw [Word.ofListing?, hLine, takeWhile_ends hName hEnds,
    dropWhile_ends hName hEnds, String.ofList_toList,
    Kind.ofName?_name]
  rfl

/- The listing of a token tells its word. -/
theorem Spelled.ofListing?_listing
    (hSpelled : token.Spelled) :
    Word.ofListing? token.listing = some token.word := by
  cases hFixed : token.kind.fixedText? with
  | some text =>
      have hLine :
          token.listing.toList = token.kind.name.toList ++ [] := by
        rw [listing_of_fixed hFixed, List.append_nil]
      rw [ofListing?_append token.kind hLine (by simp [Ends])]
      simp [Kind.word?, hFixed, hSpelled.text_of_fixed hFixed, word]
  | none =>
      have hLine :
          token.listing.toList =
            token.kind.name.toList ++ ' ' :: token.written.toList := by
        rw [listing_of_varied hFixed, String.toList_append,
          String.toList_append]
        rfl
      rw [ofListing?_append token.kind hLine (by simp [Ends])]
      simp [Kind.word?, hFixed, written, Kind.unspell?_spell, word]

/- The listing of a token has no line break. -/
theorem Spelled.break_notMem_listing
    (hSpelled : token.Spelled) :
    '\n' ∉ token.listing.toList := by
  have hName := token.kind.onOneLine_name.break_notMem
  cases hFixed : token.kind.fixedText? with
  | some text => rwa [listing_of_fixed hFixed]
  | none =>
      have hKind : token.kind ≠ .newline := by
        intro hNewline
        rw [hNewline] at hFixed
        cases hFixed
      have hText := (hSpelled.onOneLine hKind).break_notMem
      have hWritten : '\n' ∉ token.written.toList := by
        rw [written, String.toList_ofList]
        unfold Kind.spell
        split <;> simpa using hText
      rw [listing_of_varied hFixed, String.toList_append,
        String.toList_append]
      simpa using And.intro hName hWritten

end Token

------------------------------------------------------------
-- Listings
------------------------------------------------------------

namespace Token

/- A word as a token of it is listed. -/
def listedWord (word : Word) : String :=
  listing { kind := word.1, text := word.2, line := 1 }

/- The listing of tokens, each on its line. -/
def listAll (tokens : List Token) : String :=
  String.join (tokens.map fun token => token.listing ++ "\n")

variable {tokens others : List Token}

/- A listing has one line for each token, and nothing else. -/
theorem lines_listAll
    (hSpelled : ∀ token ∈ tokens, token.Spelled) :
    lines (listAll tokens) = tokens.map listing ++ [""] := by
  induction tokens with
  | nil => rfl
  | cons token tokens ih =>
      rw [List.forall_mem_cons] at hSpelled
      have hFirst := hSpelled.1.break_notMem_listing
      rw [listAll, List.map_cons, String.join_cons]
      exact
        (lines_codeLine_append hFirst _).trans
          (congrArg (token.listing :: ·) (ih hSpelled.2))

/- The lines of tokens tell their words. -/
theorem mapM_ofListing?
    (hSpelled : ∀ token ∈ tokens, token.Spelled) :
    (tokens.map listing).mapM Word.ofListing? =
      some (tokens.map word) := by
  induction tokens with
  | nil => rfl
  | cons token tokens ih =>
      rw [List.forall_mem_cons] at hSpelled
      simp [hSpelled.1.ofListing?_listing, ih hSpelled.2]

/- A listing tells the words of the tokens. -/
theorem listed?_listAll
    (hSpelled : ∀ token ∈ tokens, token.Spelled) :
    Word.listed? (listAll tokens) = some (tokens.map word) := by
  rw [Word.listed?, lines_listAll hSpelled, List.dropLast_concat,
    mapM_ofListing? hSpelled]

/- A listing is told by the words of the tokens. -/
theorem listAll_eq_of_words
    (hWords : others.map word = tokens.map word) :
    listAll others = listAll tokens := by
  have hLine
      (all : List Token) :
      listAll all =
        String.join
          ((all.map word).map (listedWord · ++ "\n")) := by
    rw [List.map_map]
    rfl
  rw [hLine, hLine, hWords]

end Token

variable {source : String}
variable {tokens : List Token}

/- A text is listed by its tokens. -/
theorem listTokens_eq
    (hTokens : tokenize source = .ok tokens) :
    listTokens source = .ok (Token.listAll tokens) := by
  rw [listTokens, hTokens]
  rfl

------------------------------------------------------------
-- The Command
------------------------------------------------------------

/- What is read of the arguments asks for the tokens of a text. -/
def AsksForTokens
    (reader : ArgumentReader)
    (arguments : List String)
    (tree : FileTree)
    (source : String) : Prop :=
  ∃ invocation,
    reader.read arguments = .ok invocation ∧
      invocation.format = "tokens" ∧
        tree.read invocation.input =
          .ok (Text.encode source.toList)

/- The listing is all that the command prints, and changes nothing. -/
theorem AsksForTokens.command_eq
    {reader : ArgumentReader}
    {arguments : List String}
    {tree : FileTree}
    {listing : String}
    (hAsks : AsksForTokens reader arguments tree source)
    (hListing : listTokens source = .ok listing)
    (filter : Filter) :
    reader.command FileTree.access filter arguments tree =
      ({ status := 0, stdout := listing, stderr := "" }, tree) := by
  rcases hAsks with ⟨invocation, hArguments, hFormat, hRead⟩
  have hExecute := Invocation.execute_of_read hRead
  rw [hFormat, if_neg (by decide), if_pos rfl, hListing]
    at hExecute
  unfold ArgumentReader.command
  simp only [hArguments, bind, StateT.bind, hExecute]
  rfl

/-
  A text whose tokens can be read is listed, and the command that
  is asked for the tokens prints the listing, however it reads its
  arguments. It has one line for each token, and tells the words
  of the text. Another text has the same listing if and only if
  it has the same words.
-/
theorem listTokens_unambiguous
    (hTokens : tokenize source = .ok tokens) :
    ∃ listing,
      listTokens source = .ok listing ∧
        (∀ reader filter arguments tree,
          AsksForTokens reader arguments tree source →
            reader.command FileTree.access filter arguments tree =
              ({ status := 0, stdout := listing, stderr := "" },
                tree)) ∧
          lines listing = tokens.map Token.listing ++ [""] ∧
            Word.listed? listing =
                some (tokens.map Token.word) ∧
              ∀ other others,
                tokenize other = .ok others →
                  (listTokens other = .ok listing ↔
                    others.map Token.word =
                      tokens.map Token.word) := by
  have hListing := listTokens_eq hTokens
  have hSpelled := spelled_of_tokenize hTokens
  have hTold := Token.listed?_listAll hSpelled
  refine
    ⟨Token.listAll tokens, hListing, ?_,
      Token.lines_listAll hSpelled, hTold, ?_⟩
  · intro reader filter arguments tree hAsks
    exact hAsks.command_eq hListing filter
  · intro other others hOthers
    rw [listTokens_eq hOthers]
    constructor
    · intro hSame
      have hOther :=
        Token.listed?_listAll (spelled_of_tokenize hOthers)
      rw [Except.ok.inj hSame, hTold] at hOther
      exact (Option.some.inj hOther).symm
    · intro hWords
      exact congrArg Except.ok (Token.listAll_eq_of_words hWords)

/- A string that looks like a line of the listing, and a blank. -/
theorem listTokens_unambiguous_string :
    let source := "PRINT \" NUMBER 1\" # c"
    let tree : FileTree :=
      { nodes :=
          [([], .directory), (["work"], .directory),
            (["work", "a.teeny"],
              .regular (Text.encode source.toList))]
        working := ["work"] }
    let arguments := ["--emit", "tokens", "a.teeny"]
    let tokens : List Token :=
      [{ kind := .keyword .print, text := "PRINT", line := 1 },
        { kind := .string, text := " NUMBER 1", line := 1 },
        { kind := .newline, text := "\n", line := 1 },
        { kind := .eof, text := "", line := 2 }]
    let listing := "PRINT\nSTRING \" NUMBER 1\"\nNEWLINE\nEOF\n"
    tokenize source = .ok tokens ∧
      AsksForTokens .standard arguments tree source ∧
        command FileTree.access Filter.silent arguments tree =
            ({ status := 0, stdout := listing, stderr := "" },
              tree) ∧
          Word.listed? listing = some (tokens.map Token.word) := by
  intro source tree arguments tokens listing
  have hTokens : tokenize source = .ok tokens := by
    decide +kernel
  have hAsks : AsksForTokens .standard arguments tree source :=
    ⟨⟨"a.teeny", "out.c", "tokens"⟩, by decide +kernel, rfl,
      by decide +kernel⟩
  have hListing : listTokens source = .ok listing := by
    decide +kernel
  rcases listTokens_unambiguous hTokens with
    ⟨printed, hPrinted, hCommand, _, hTold, _⟩
  rw [hListing] at hPrinted
  cases hPrinted
  exact ⟨hTokens, hAsks, hCommand _ _ _ _ hAsks, hTold⟩

end TeenyC
