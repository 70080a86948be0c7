import ProtoWire.Proto.Error

/-!
Contract: reading tokens one after the other. The last token stands for everything
behind it, so that a reader can look ahead without asking how many tokens are left.

Owns:
- the stream, looking ahead and moving on;
- the parser type, the tests on the current token, and loops that end.

Does not own: the grammar.
-/

namespace ProtoWire.Proto

/-- The current token and those behind it. -/
structure TokenStream where
  current : Token
  following : List Token
deriving DecidableEq, Repr

namespace TokenStream

/-- The token at a distance, or the last one if there are fewer. -/
def ahead (stream : TokenStream) (distance : Nat) : Token :=
  match distance with
  | 0 => stream.current
  | more + 1 =>
      stream.following[more]?.getD (stream.following.getLast?.getD stream.current)

/-- The stream behind the current token. The last token stays current for ever. -/
def advance (stream : TokenStream) : TokenStream :=
  match stream.following with
  | [] => stream
  | token :: others => ⟨token, others⟩

/-- A bound on the rounds of a loop. A round takes a token or ends the loop, and the last
token closes at most as many braces as were opened before it. -/
def rounds (stream : TokenStream) : Nat :=
  2 * stream.following.length + 4

end TokenStream

/-- A parser moves a stream forward or reports the first error. -/
abbrev Parser (α : Type) : Type :=
  StateT TokenStream (Except SyntaxError) α

namespace Parser

/-- The current token. -/
def current : Parser Token := fun stream =>
  .ok (stream.current, stream)

/-- Whether the text of the token at a distance passes a test. -/
def sees (distance : Nat) (test : String → Bool) : Parser Bool := fun stream =>
  .ok (test (stream.ahead distance).text, stream)

/-- Moves on. -/
def advance : Parser Unit := fun stream =>
  .ok ((), stream.advance)

/-- Moves on if the current token passes a test. -/
def accept (test : String → Bool) : Parser Bool := fun stream =>
  if test stream.current.text then .ok (true, stream.advance) else .ok (false, stream)

/-- Reports an error at a token. -/
def failAt (token : Token) (cause : SyntaxCause) : Parser α := fun _ =>
  .error ⟨cause, token.position⟩

/-- Moves on behind a token that passes a test, and insists on it. -/
def expect (test : String → Bool) (what : String) : Parser Token := fun stream =>
  if test stream.current.text then .ok (stream.current, stream.advance)
  else .error ⟨.expected what stream.current.text, stream.current.position⟩

/-- The current token fits nowhere. -/
def unexpected : Parser α := fun stream =>
  let cause : SyntaxCause :=
    if stream.current.text.isEmpty then .unexpectedEnd
    else .unexpectedToken stream.current.text
  .error ⟨cause, stream.current.position⟩

/-- What one round of a loop decides. -/
inductive Round (σ α : Type) where
  | again (state : σ)
  | done (result : α)

/-- At most `count` rounds. -/
def loopWithin (round : σ → Parser (Round σ α)) : Nat → σ → Parser α
  | 0, _ => fun stream => .error ⟨.endless, stream.current.position⟩
  | count + 1, state => do
      match ← round state with
      | .again next => loopWithin round count next
      | .done result => pure result

/-- Rounds until one is the last. A loop that goes on behind the last token would never
end, and is refused. -/
def loop (round : σ → Parser (Round σ α)) (state : σ) : Parser α := fun stream =>
  loopWithin round stream.rounds state stream

end Parser

end ProtoWire.Proto
