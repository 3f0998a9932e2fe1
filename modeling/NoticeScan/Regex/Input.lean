import NoticeScan.Regex.Error

/-!
# Reading the text of an expression

An expression is read in tokens: a backslash and the character behind it are one token, every
other character is one by itself. The next token is always looked at as soon as the one before
it has been taken, so a backslash that ends the text is refused at that moment.
-/

namespace NoticeScan.Regex

/-- What is still to be read, and the position of it in the whole text. -/
structure Input where
  rest : List Char
  pos : Nat
  deriving Repr, DecidableEq

/-- A unit of the text. -/
inductive Token where
  | plain (c : Char)
  | escaped (c : Char)
  deriving Repr, DecidableEq

/-- A token as written. -/
def Token.text : Token → List Char
  | .plain c => [c]
  | .escaped c => ['\\', c]

/-- The number of characters of a token. -/
def Token.width : Token → Nat
  | .plain _ => 1
  | .escaped _ => 2

/-- The next token. -/
def Input.peek? (input : Input) : Option Token :=
  match input.rest with
  | [] => none
  | '\\' :: c :: _ => some (.escaped c)
  | c :: _ => some (.plain c)

/-- An input, unless a backslash is all that is left of it. -/
def Input.checked (input : Input) : Except Error Input :=
  if input.rest = ['\\'] then Fault.escapeAtEnd.at input.pos else .ok input

/-- The input behind its next `count` characters. -/
def Input.drop (input : Input) (count : Nat) : Except Error Input :=
  Input.checked ⟨input.rest.drop count, input.pos + count⟩

/-- The next token and the input behind it. -/
def Input.next? (input : Input) : Except Error (Option (Token × Input)) :=
  match input.peek? with
  | none => .ok none
  | some token =>
      match input.drop token.width with
      | .ok behind => .ok (some (token, behind))
      | .error error => .error error

/-- The input behind a character, if that comes next. -/
def Input.take? (input : Input) (c : Char) : Except Error (Option Input) :=
  if input.peek? = some (.plain c) then
    match input.drop 1 with
    | .ok behind => .ok (some behind)
    | .error error => .error error
  else
    .ok none

/-- The next characters that belong to a class, at most `count`, and the input behind them. -/
def Input.takeWhile (accepts : Char → Bool) : Nat → Input → Except Error (List Char × Input)
  | 0, input => .ok ([], input)
  | count + 1, input =>
      match input.peek? with
      | some (.plain c) =>
          if accepts c then
            match input.drop 1 with
            | .ok behind =>
                match takeWhile accepts count behind with
                | .ok (taken, last) => .ok (c :: taken, last)
                | .error error => .error error
            | .error error => .error error
          else
            .ok ([], input)
      | _ => .ok ([], input)

/-- The text up to a closing character, read with a bound on the number of tokens, and the input
behind that character; `found` is the text before, last character first. An empty text and a
missing closing character are refused. -/
def Input.takeUntilFrom (closing : Char) (what : String) :
    Nat → List Char → Input → Except Error (List Char × Input)
  | 0, _, input => .ok ([], input)
  | steps + 1, found, input =>
      match input.next? with
      | .error error => .error error
      | .ok none =>
          if found.isEmpty then (Fault.missing what).at input.pos
          else (Fault.unterminatedName closing).at (input.pos - found.length)
      | .ok (some (token, behind)) =>
          if token = .plain closing then
            if found.isEmpty then (Fault.missing what).at (behind.pos - 1)
            else .ok (found.reverse, behind)
          else
            takeUntilFrom closing what steps (token.text.reverse ++ found) behind

/-- The text up to a closing character, and the input behind that. -/
def Input.takeUntil (input : Input) (closing : Char) (what : String) :
    Except Error (List Char × Input) :=
  input.takeUntilFrom closing what (input.rest.length + 1) []

/-- The input behind the next token of one character `c`, which lies `steps` tokens ahead at
most; nothing when there is none. -/
def Input.skipPast (c : Char) : Nat → Input → Except Error (Option Input)
  | 0, _ => .ok none
  | steps + 1, input =>
      match input.next? with
      | .error error => .error error
      | .ok none => .ok none
      | .ok (some (token, behind)) =>
          if token = .plain c then .ok (some behind) else skipPast c steps behind

end NoticeScan.Regex
