import LineScript.Reading.Statement

/-!
# Parsing

A list of tokens is parsed up to the first token for the end of the source. If its last token is not
such a token, one is added.
-/

namespace LineScript

/-- A list of tokens with its end marked. -/
structure TokenList where
  /-- The tokens before the first end. -/
  tokens : List Token
  /-- The span of the first end. -/
  stop : Span
  /-- How many tokens follow the first end. -/
  beyond : Nat

namespace TokenList

/-- A list of tokens that ends with a token for the end of the source, which is added if need be. -/
def closed (tokens : List Token) : List Token :=
  match tokens.getLast? with
  | none => [Token.endOfSource 1 0]
  | some last =>
    if last.kind = .eof then tokens
    else tokens ++ [Token.endOfSource last.line last.span.stop]

/-- Finds the end of a list of tokens. -/
def ofTokens (tokens : List Token) : TokenList :=
  let all := closed tokens
  let fromEnd := all.dropWhile (·.kind ≠ .eof)
  { tokens := all.takeWhile (·.kind ≠ .eof)
    stop := (fromEnd.head?.map Token.span).getD ⟨0, 0⟩
    beyond := fromEnd.length - 1 }

/-- The position before all tokens. -/
def cursor (list : TokenList) : Cursor :=
  ⟨none, list.tokens⟩

end TokenList

/-- A program that was read, and what was not. -/
structure Parsed where
  /-- The program. -/
  program : Program
  /-- How many tokens after the program were ignored. -/
  ignored : Nat

/-- Reads the program that a list of tokens begins with. Tokens after it are ignored. -/
def parse (tokens : List Token) : Except Fault Parsed :=
  let list := TokenList.ofTokens tokens
  match Reading.program list.cursor with
  | .error refusal => .error (refusal.fault list.stop)
  | .ok (program, cursor) =>
    .ok { program, ignored := if cursor.rest.isEmpty then 0 else cursor.rest.length + list.beyond }

end LineScript
