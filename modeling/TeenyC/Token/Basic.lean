import TeenyC.Token.Kind

/-
  Tokens, as diagnostics and token listings show them.

  Key definitions include:
    * `Token`
    * `Token.describe`
    * `Token.listing`
-/

namespace TeenyC

/-
  A token with the line it starts on, counted from one. The
  text of a string is what stands between its quotes, and the
  text of the end of input is empty.
-/
structure Token where
  kind : Kind
  text : String
  line : Nat
deriving DecidableEq

namespace Token

/- A token as a diagnostic names it, never over two lines. -/
def describe (token : Token) : String :=
  match token.kind with
  | .newline | .eof => token.kind.name
  | kind => "'" ++ token.text ++ "' (" ++ kind.name ++ ")"

/- A token as one line of a listing, with its text where that varies. -/
def listing (token : Token) : String :=
  match token.kind with
  | .number | .ident => token.kind.name ++ " " ++ token.text
  | .string => token.kind.name ++ " \"" ++ token.text ++ "\""
  | kind => kind.name

end Token

end TeenyC
