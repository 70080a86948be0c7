import ProtoWire.Proofs.Proto.Guarantee

/-!
Contract: parsers that make progress on tokens of which the last one has no text. Such a parser
takes tokens off the front or reports an error at one of them, and a loop of such parsers ends
although nothing counts its rounds.

Owns:
- what is left of a list of tokens, and how many of them were taken;
- progress of the basic parsers, and how such parsers are put together;
- runs of a loop without a bound on its rounds, and that a bounded loop is such a run;
- loops and alternatives that agree on a stream.

Does not own: any parser of the grammar.
-/

namespace ProtoWire.Proto

namespace TokenStream

/-- The current token and those behind it. -/
def tokens (stream : TokenStream) : List Token :=
  stream.current :: stream.following

/-- A stream is what is left of a list of tokens, the last of which has no text. -/
structure IsLeftOf (stream : TokenStream) (tokens : List Token) : Prop where
  suffix : stream.tokens <:+ tokens
  ended : tokens.getLast?.map Token.text = some ""

/-- At least `count` tokens of a stream stand in front of another one. -/
def IsBehind (next stream : TokenStream) (count : Nat) : Prop :=
  ∃ taken, stream.tokens = taken ++ next.tokens ∧ count ≤ taken.length

section Streams

variable {stream next last : TokenStream} {tokens : List Token} {near far count : Nat}

theorem isBehind_self : stream.IsBehind stream 0 :=
  ⟨[], rfl, Nat.le_refl 0⟩

theorem IsBehind.weaken (behind : next.IsBehind stream near) (fewer : count ≤ near) :
    next.IsBehind stream count := by
  obtain ⟨taken, whole, enough⟩ := behind
  exact ⟨taken, whole, Nat.le_trans fewer enough⟩

theorem IsBehind.trans (later : last.IsBehind next far) (behind : next.IsBehind stream near) :
    last.IsBehind stream (near + far) := by
  obtain ⟨more, rest, enough⟩ := later
  obtain ⟨taken, whole, first⟩ := behind
  refine ⟨taken ++ more, by rw [whole, rest, List.append_assoc], ?_⟩
  rw [List.length_append]
  omega

theorem IsBehind.isLeftOf (behind : next.IsBehind stream count) (left : stream.IsLeftOf tokens) :
    next.IsLeftOf tokens := by
  obtain ⟨taken, whole, -⟩ := behind
  refine ⟨List.IsSuffix.trans ?_ left.suffix, left.ended⟩
  rw [whole]
  exact List.suffix_append taken next.tokens

theorem IsBehind.length_le (behind : next.IsBehind stream count) :
    next.following.length + count ≤ stream.following.length := by
  obtain ⟨taken, whole, enough⟩ := behind
  have lengths := congrArg List.length whole
  simp only [TokenStream.tokens, List.length_append, List.length_cons] at lengths
  omega

theorem isBehind_advance : stream.advance.IsBehind stream 0 := by
  obtain ⟨token, following⟩ := stream
  cases following with
  | nil => exact isBehind_self
  | cons other others => exact ⟨[token], rfl, Nat.zero_le 1⟩

theorem IsLeftOf.current_mem (left : stream.IsLeftOf tokens) : stream.current ∈ tokens :=
  left.suffix.subset List.mem_cons_self

/-- A token with text is not the last one, so that it can be taken. -/
theorem IsLeftOf.advance (left : stream.IsLeftOf tokens) (solid : stream.current.text ≠ "") :
    stream.advance.IsBehind stream 1 := by
  obtain ⟨token, following⟩ := stream
  cases following with
  | cons other others => exact ⟨[token], rfl, Nat.le_refl 1⟩
  | nil =>
      obtain ⟨front, whole⟩ := left.suffix
      have ended := left.ended
      rw [← whole, TokenStream.tokens, List.getLast?_concat] at ended
      exact absurd (Option.some.inj ended) solid

/-- Looking ahead never leaves the tokens. -/
theorem ahead_mem (stream : TokenStream) (distance : Nat) :
    stream.ahead distance ∈ stream.tokens := by
  obtain ⟨token, following⟩ := stream
  cases distance with
  | zero => exact List.mem_cons_self
  | succ more =>
      rw [ahead]
      cases found : following[more]? with
      | some other => exact List.mem_cons_of_mem token (List.mem_of_getElem? found)
      | none =>
          cases closing : following.getLast? with
          | none => exact List.mem_cons_self
          | some other => exact List.mem_cons_of_mem token (List.mem_of_getLast? closing)

end Streams

end TokenStream

/-- An error at one of the tokens, which is not that a loop went on for ever. -/
structure SyntaxError.IsAt (error : SyntaxError) (tokens : List Token) : Prop where
  ends : error.cause ≠ .endless
  position : error.position ∈ tokens.map Token.position

namespace Parser

/-- On what is left of the tokens, the parser takes at least `least` of them or reports an error
at one of them. -/
def Proceeds
    {α : Type}
    (tokens : List Token)
    (least : Nat)
    (parser : Parser α)
    (stream : TokenStream) : Prop :=
  stream.IsLeftOf tokens →
    match parser stream with
    | .ok (_, next) => next.IsBehind stream least
    | .error error => error.IsAt tokens

section Rules

variable
  {α β : Type}
  {tokens : List Token}
  {stream : TokenStream}
  {least near far : Nat}
  {test : String → Bool}
  {what : String}

theorem proceeds_pure {value : α} : Proceeds tokens 0 (pure value) stream :=
  fun _ => TokenStream.isBehind_self

theorem proceeds_failAt {token : Token} {cause : SyntaxCause}
    (member : token ∈ tokens)
    (ends : cause ≠ .endless) :
    Proceeds tokens least (failAt token cause : Parser α) stream :=
  fun _ => ⟨ends, List.mem_map_of_mem member⟩

theorem failAt_bind {token : Token} {cause : SyntaxCause} {goOn : β → Parser α} :
    (failAt token cause >>= goOn) = failAt token cause :=
  rfl

theorem proceeds_unexpected : Proceeds tokens least (unexpected : Parser α) stream := by
  intro left
  refine ⟨?_, List.mem_map_of_mem left.current_mem⟩
  dsimp only
  split <;> simp

theorem Proceeds.weaken {parser : Parser α}
    (proceeds : Proceeds tokens near parser stream)
    (fewer : least ≤ near) :
    Proceeds tokens least parser stream := by
  intro left
  have outcome := proceeds left
  cases ran : parser stream with
  | error error =>
      rw [ran] at outcome
      exact outcome
  | ok pair =>
      rw [ran] at outcome
      exact outcome.weaken fewer

/-- A parser that succeeds as another one does on a later stream proceeds as far as that one. -/
theorem proceeds_of_later {parser goOn : Parser α} {next : TokenStream}
    (behind : next.IsBehind stream near)
    (same : parser stream = goOn next)
    (proceeds : Proceeds tokens far goOn next)
    (bound : least ≤ near + far) :
    Proceeds tokens least parser stream := by
  intro left
  have outcome := proceeds (behind.isLeftOf left)
  rw [same]
  cases ran : goOn next with
  | error error =>
      rw [ran] at outcome
      exact outcome
  | ok pair =>
      rw [ran] at outcome
      exact (outcome.trans behind).weaken bound

theorem Proceeds.bind {first : Parser β} {goOn : β → Parser α}
    (far : Nat)
    (starts : Proceeds tokens near first stream)
    (goesOn : ∀ value next, next.IsBehind stream near → Proceeds tokens far (goOn value) next)
    (bound : least ≤ near + far) :
    Proceeds tokens least (first >>= goOn) stream := by
  intro left
  have started := starts left
  cases ran : first stream with
  | error error =>
      rw [ran] at started
      rw [bind_error ran]
      exact started
  | ok pair =>
      obtain ⟨value, next⟩ := pair
      rw [ran] at started
      exact proceeds_of_later started (bind_ok ran) (goesOn value next started) bound left

/-- What is made of the result takes no token. -/
theorem Proceeds.thenPure {first : Parser β} {form : β → α}
    (starts : Proceeds tokens near first stream)
    (fewer : least ≤ near) :
    Proceeds tokens least (first >>= fun value => pure (form value)) stream :=
  starts.bind 0 (fun _ _ _ => proceeds_pure) fewer

theorem proceeds_advance (solid : stream.current.text ≠ "") :
    Proceeds tokens 1 advance stream :=
  fun left => left.advance solid

theorem proceeds_sees {distance : Nat} : Proceeds tokens 0 (sees distance test) stream :=
  fun _ => TokenStream.isBehind_self

theorem proceeds_accept : Proceeds tokens 0 (accept test) stream := by
  intro left
  unfold accept
  by_cases passes : test stream.current.text = true
  · simp only [passes, if_true]
    exact TokenStream.isBehind_advance
  · simp only [passes]
    exact TokenStream.isBehind_self

/-- The current token is one of the tokens, and it stays. -/
theorem Proceeds.current {goOn : Token → Parser α}
    (goesOn : stream.current ∈ tokens → Proceeds tokens least (goOn stream.current) stream) :
    Proceeds tokens least (current >>= goOn) stream :=
  fun left => goesOn left.current_mem left

theorem ne_empty_of_test {text : String} (solid : test "" = false) (passes : test text = true) :
    text ≠ "" := by
  rintro rfl
  rw [solid] at passes
  cases passes

theorem ne_empty_of_isEmpty {text : String} (solid : text.isEmpty = false) : text ≠ "" := by
  rintro rfl
  cases solid

/-- A token that is insisted on is the current one, and it is one of the tokens. -/
theorem Proceeds.expect {goOn : Token → Parser α}
    (far : Nat)
    (solid : test "" = false)
    (goesOn : ∀ next, stream.current ∈ tokens → next.IsBehind stream 1 →
      Proceeds tokens far (goOn stream.current) next)
    (bound : least ≤ 1 + far) :
    Proceeds tokens least (Parser.expect test what >>= goOn) stream := by
  intro left
  have unfolded : (Parser.expect test what >>= goOn) stream =
      if test stream.current.text then goOn stream.current stream.advance
      else .error ⟨.expected what stream.current.text, stream.current.position⟩ := by
    change (Parser.expect test what stream >>= fun pair => goOn pair.1 pair.2) = _
    rw [Parser.expect]
    split <;> rfl
  by_cases passes : test stream.current.text = true
  · have behind := left.advance (ne_empty_of_test solid passes)
    rw [if_pos passes] at unfolded
    exact proceeds_of_later behind unfolded (goesOn _ left.current_mem behind) bound left
  · rw [unfolded, if_neg passes]
    exact ⟨nofun, List.mem_map_of_mem left.current_mem⟩

theorem proceeds_expectSymbol {symbol : String} (solid : ("" == symbol) = false) :
    Proceeds tokens 1 (expectSymbol symbol) stream :=
  Proceeds.expect 0 solid (fun _ _ _ => proceeds_pure) (Nat.le_refl 1)

/-! ### Alternatives -/

variable {yes no : Parser α}

theorem Proceeds.ite_sees {distance : Nat}
    (seen : test (stream.ahead distance).text = true → Proceeds tokens least yes stream)
    (unseen : test (stream.ahead distance).text = false → Proceeds tokens least no stream) :
    Proceeds tokens least (do if ← sees distance test then yes else no) stream := by
  change Proceeds tokens least
    (fun stream => (if test (stream.ahead distance).text = true then yes else no) stream) stream
  cases passes : test (stream.ahead distance).text with
  | true => simpa only [Proceeds, passes, if_true] using seen passes
  | false => simpa only [Proceeds, passes, Bool.false_eq_true, if_false] using unseen passes

/-- The parser takes one token with text, or it stays where it is. -/
def Chooses (decision : Parser Bool) (stream : TokenStream) : Prop :=
  stream.current.text ≠ "" ∧ decision stream = .ok (true, stream.advance) ∨
    decision stream = .ok (false, stream)

theorem chooses_accept (solid : test "" = false) : Chooses (accept test) stream := by
  unfold Chooses accept
  by_cases passes : test stream.current.text = true
  · exact .inl ⟨ne_empty_of_test solid passes, if_pos passes⟩
  · exact .inr (if_neg passes)

theorem chooses_acceptWord {word : String} (nonempty : ("" == word) = false) :
    Chooses (acceptWord word) stream :=
  chooses_accept nonempty

/-- A decision that is only made if a word is seen. -/
theorem chooses_ifSeen {distance : Nat} {decision : Parser Bool}
    (chooses : Chooses decision stream) :
    Chooses (do if ← sees distance test then decision else pure false) stream := by
  change Chooses (fun stream =>
    (if test (stream.ahead distance).text = true then decision else pure false) stream) stream
  cases passes : test (stream.ahead distance).text with
  | true => simpa only [Chooses, passes, if_true] using chooses
  | false => exact .inr (by simp only [passes, Bool.false_eq_true, if_false]; rfl)

theorem chooses_acceptWordBefore {word : String} (nonempty : ("" == word) = false) :
    Chooses (acceptWordBefore word test) stream :=
  chooses_ifSeen (chooses_acceptWord nonempty)

theorem chooses_acceptOneof : Chooses acceptOneof stream :=
  chooses_ifSeen (chooses_acceptWordBefore rfl)

theorem Chooses.proceeds {decision : Parser Bool}
    (chooses : Chooses decision stream)
    (far : Nat)
    (accepted : stream.advance.IsBehind stream 1 → Proceeds tokens far yes stream.advance)
    (refused : Proceeds tokens least no stream)
    (bound : least ≤ 1 + far) :
    Proceeds tokens least (do if ← decision then yes else no) stream := by
  intro left
  have unfolded {taken : Bool} {next : TokenStream} (ran : decision stream = .ok (taken, next)) :
      (do if ← decision then yes else no : Parser α) stream = (if taken then yes else no) next := by
    change (decision stream >>= fun pair => (if pair.1 = true then yes else no) pair.2) = _
    rw [ran]
    rfl
  rcases chooses with ⟨solid, ran⟩ | ran
  · have behind := left.advance solid
    exact proceeds_of_later behind (unfolded ran) (accepted behind) bound left
  · rw [unfolded ran]
    exact refused left

/-- An alternative that is over with the token that it takes. -/
theorem Chooses.thenPure {decision : Parser Bool} {value : α}
    (chooses : Chooses decision stream)
    (refused : Proceeds tokens least no stream)
    (bound : least ≤ 1) :
    Proceeds tokens least (do if ← decision then pure value else no) stream :=
  chooses.proceeds 0 (fun _ => proceeds_pure) refused bound

/-! ### Agreement -/

/-- Alternatives agree if each of them agrees where it is taken. -/
theorem Chooses.agrees {decision : Parser Bool} {otherYes otherNo : Parser α}
    (chooses : Chooses decision stream)
    (left : stream.IsLeftOf tokens)
    (accepted : stream.advance.IsBehind stream 1 → yes stream.advance = otherYes stream.advance)
    (refused : no stream = otherNo stream) :
    (do if ← decision then yes else no : Parser α) stream =
      (do if ← decision then otherYes else otherNo : Parser α) stream := by
  change (decision stream >>= fun pair => (if pair.1 = true then yes else no) pair.2) =
    (decision stream >>= fun pair => (if pair.1 = true then otherYes else otherNo) pair.2)
  rcases chooses with ⟨solid, ran⟩ | ran
  · rw [ran]
    exact accepted (left.advance solid)
  · rw [ran]
    exact refused

theorem sees_agrees {distance : Nat} {otherNo : Parser α} (unseen : no stream = otherNo stream) :
    (do if ← sees distance test then yes else no : Parser α) stream =
      (do if ← sees distance test then yes else otherNo : Parser α) stream := by
  change (if test (stream.ahead distance).text = true then yes else no) stream =
    (if test (stream.ahead distance).text = true then yes else otherNo) stream
  split
  · rfl
  · exact unseen

theorem bind_agrees {first other : Parser β} {goOn : β → Parser α}
    (same : first stream = other stream) :
    (first >>= goOn) stream = (other >>= goOn) stream := by
  change (first stream >>= fun pair => goOn pair.1 pair.2) =
    (other stream >>= fun pair => goOn pair.1 pair.2)
  rw [same]

/-- Two ways to go on agree if they agree behind what was taken. -/
theorem Proceeds.bind_agrees {first : Parser β} {goOn other : β → Parser α}
    (starts : Proceeds tokens near first stream)
    (left : stream.IsLeftOf tokens)
    (same : ∀ value next, next.IsBehind stream near → goOn value next = other value next) :
    (first >>= goOn) stream = (first >>= other) stream := by
  have started := starts left
  change (first stream >>= fun pair => goOn pair.1 pair.2) =
    (first stream >>= fun pair => other pair.1 pair.2)
  cases ran : first stream with
  | error error => rfl
  | ok pair =>
      rw [ran] at started
      exact same pair.1 pair.2 started

end Rules

/-! ### Loops -/

/-- The run of a loop without a bound. Each round reports an error at one of the tokens, or it is
the last one, or it takes at least one token and the run goes on behind it. -/
inductive Runs
    {σ α : Type}
    (tokens : List Token)
    (round : σ → Parser (Round σ α)) :
    σ → TokenStream → Except SyntaxError (α × TokenStream) → Prop where
  | fails
      {state : σ}
      {stream : TokenStream}
      {error : SyntaxError}
      (failed : round state stream = .error error)
      (isAt : error.IsAt tokens) :
      Runs tokens round state stream (.error error)
  | ends
      {state : σ}
      {stream next : TokenStream}
      {result : α}
      (ok : round state stream = .ok (.done result, next))
      (behind : next.IsBehind stream 0) :
      Runs tokens round state stream (.ok (result, next))
  | goesOn
      {state following : σ}
      {stream next : TokenStream}
      {outcome : Except SyntaxError (α × TokenStream)}
      (ok : round state stream = .ok (.again following, next))
      (progress : next.IsBehind stream 1)
      (later : Runs tokens round following next outcome) :
      Runs tokens round state stream outcome

section Loops

variable
  {σ α : Type}
  {tokens : List Token}
  {stream : TokenStream}
  {round other : σ → Parser (Round σ α)}

/-- Each round is the last one, or it takes a token or reports an error. -/
def Turns
    (tokens : List Token)
    (round : σ → Parser (Round σ α))
    (stream : TokenStream) : Prop :=
  ∀ state, (∃ result next, round state stream = .ok (.done result, next) ∧ next.IsBehind stream 0) ∨
    Proceeds tokens 1 (round state) stream

theorem loopWithin_succ (count : Nat) (state : σ) :
    loopWithin round (count + 1) state stream =
      (round state stream >>= fun pair =>
        match pair.1 with
        | .again following => loopWithin round count following pair.2
        | .done result => .ok (result, pair.2)) := by
  rw [loopWithin]
  change (round state stream >>= fun pair => _) = _
  congr 1
  funext pair
  obtain ⟨decision, next⟩ := pair
  cases decision <;> rfl

theorem Turns.isBehind {state : σ} {decision : Round σ α} {next : TokenStream}
    (turns : Turns tokens round stream)
    (left : stream.IsLeftOf tokens)
    (ok : round state stream = .ok (decision, next)) :
    next.IsBehind stream 0 := by
  rcases turns state with ⟨result, last, ended, behind⟩ | proceeds
  · rw [ok] at ended
    cases ended
    exact behind
  · have outcome := proceeds left
    rw [ok] at outcome
    exact outcome.weaken (Nat.zero_le 1)

theorem runs_loopWithin
    (turns : ∀ later : TokenStream, later.IsBehind stream 0 → Turns tokens round later)
    {count : Nat}
    (enough : stream.following.length < count)
    (left : stream.IsLeftOf tokens)
    (state : σ) :
    Runs tokens round state stream (loopWithin round count state stream) := by
  induction count generalizing state stream with
  | zero => omega
  | succ count inductionHypothesis =>
      rw [loopWithin_succ]
      rcases turns stream TokenStream.isBehind_self state with ⟨result, next, ok, behind⟩ | proceeds
      · rw [ok]
        exact .ends ok behind
      · have outcome := proceeds left
        cases ran : round state stream with
        | error error =>
            rw [ran] at outcome
            exact .fails ran outcome
        | ok pair =>
            obtain ⟨decision, next⟩ := pair
            rw [ran] at outcome
            cases decision with
            | done result => exact .ends ran (outcome.weaken (Nat.zero_le 1))
            | again following =>
                have shorter := outcome.length_le
                refine .goesOn ran outcome (inductionHypothesis (fun later behind => ?_) (by omega)
                  (outcome.isLeftOf left) following)
                exact turns later ((behind.trans outcome).weaken (Nat.zero_le _))

/-- A loop is the run of its rounds: the bound on their number is never reached. -/
theorem runs_loop
    (turns : ∀ later : TokenStream, later.IsBehind stream 0 → Turns tokens round later)
    (left : stream.IsLeftOf tokens)
    (state : σ) :
    Runs tokens round state stream (loop round state stream) := by
  refine runs_loopWithin turns ?_ left state
  rw [TokenStream.rounds]
  omega

/-- Loops agree if their rounds do on everything that is left of the stream. -/
theorem loopWithin_agrees
    (turns : ∀ later : TokenStream, later.IsBehind stream 0 → Turns tokens round later)
    (left : stream.IsLeftOf tokens)
    (same : ∀ state later, later.IsBehind stream 0 → round state later = other state later)
    (count : Nat)
    (state : σ) :
    loopWithin round count state stream = loopWithin other count state stream := by
  induction count generalizing state stream with
  | zero => rfl
  | succ count inductionHypothesis =>
      rw [loopWithin_succ, loopWithin_succ, ← same state stream TokenStream.isBehind_self]
      cases ran : round state stream with
      | error error => rfl
      | ok pair =>
          obtain ⟨decision, next⟩ := pair
          cases decision with
          | done result => rfl
          | again following =>
              have behind := (turns stream TokenStream.isBehind_self).isBehind left ran
              exact inductionHypothesis (fun later laterBehind => turns later (laterBehind.trans behind))
                (behind.isLeftOf left)
                (fun state later laterBehind => same state later (laterBehind.trans behind)) following

theorem Runs.isAt {state : σ} {error : SyntaxError}
    (runs : Runs tokens round state stream (.error error)) : error.IsAt tokens := by
  generalize same : Except.error error = outcome at runs
  induction runs with
  | fails failed isAt => exact Except.error.inj same ▸ isAt
  | ends ok behind => cases same
  | goesOn ok progress later inductionHypothesis => exact inductionHypothesis same

theorem Runs.isBehind {state : σ} {result : α} {next : TokenStream}
    (runs : Runs tokens round state stream (.ok (result, next))) : next.IsBehind stream 0 := by
  generalize same : Except.ok (result, next) = outcome at runs
  induction runs with
  | fails failed isAt => cases same
  | ends ok behind =>
      cases same
      exact behind
  | goesOn ok progress later inductionHypothesis =>
      exact ((inductionHypothesis same).trans progress).weaken (Nat.zero_le _)

/-- A loop takes what its first round takes. -/
theorem proceeds_loop
    (rounds : ∀ state later, later.IsBehind stream 0 → Proceeds tokens 1 (round state) later)
    (state : σ) :
    Proceeds tokens 1 (loop round state) stream := by
  intro left
  have runs := runs_loop (fun later behind state => .inr (rounds state later behind)) left state
  cases ran : loop round state stream with
  | error error =>
      rw [ran] at runs
      exact runs.isAt
  | ok pair =>
      rw [ran] at runs
      have first := rounds state stream TokenStream.isBehind_self left
      cases runs with
      | ends ok behind =>
          rw [ok] at first
          exact first
      | goesOn ok progress later => exact (later.isBehind.trans progress).weaken (by omega)

end Loops

end Parser

end ProtoWire.Proto
