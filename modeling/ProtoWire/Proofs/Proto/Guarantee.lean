import ProtoWire.Proofs.Outcome
import ProtoWire.Proto.Grammar

/-!
Contract: what holds if a parser succeeds, whatever it reads.

Owns:
- parsers one after the other, and how they end;
- guarantees of the basic parsers, and how they are put together;
- alternatives with what is known of the tokens in each of them;
- loops that keep a property of their state.

Does not own: what the parsers of declarations guarantee.
-/

namespace ProtoWire.Proto

theorem TokenStream.current_advance (stream : TokenStream) :
    stream.advance.current = stream.ahead 1 := by
  obtain ⟨token, following⟩ := stream
  cases following with
  | nil => rfl
  | cons next others => rfl

namespace Parser

/-- Two parsers one after the other succeed only if both of them do. -/
theorem bind_eq_ok
    {α β : Type}
    {first : Parser β}
    {goOn : β → Parser α}
    {stream : TokenStream}
    {result : α × TokenStream}
    (ok : (first >>= goOn) stream = .ok result) :
    ∃ value next, first stream = .ok (value, next) ∧ goOn value next = .ok result := by
  change (first stream >>= fun pair => goOn pair.1 pair.2) = _ at ok
  obtain ⟨⟨value, next⟩, firstOk, ok⟩ := Outcome.bind_eq_ok.mp ok
  exact ⟨value, next, firstOk, ok⟩

theorem bind_ok
    {α β : Type}
    {first : Parser β}
    {goOn : β → Parser α}
    {stream next : TokenStream}
    {value : β}
    (ok : first stream = .ok (value, next)) :
    (first >>= goOn) stream = goOn value next := by
  change (first stream >>= fun pair => goOn pair.1 pair.2) = _
  rw [ok]
  rfl

theorem bind_error
    {α β : Type}
    {first : Parser β}
    {goOn : β → Parser α}
    {stream : TokenStream}
    {error : SyntaxError}
    (failed : first stream = .error error) :
    (first >>= goOn) stream = .error error := by
  change (first stream >>= fun pair => goOn pair.1 pair.2) = _
  rw [failed]
  rfl

/-- If the parser succeeds on a stream, the result and the stream behind it are as wanted. -/
def Ensures
    {α : Type}
    (parser : Parser α)
    (stream : TokenStream)
    (outcome : α → TokenStream → Prop) : Prop :=
  ∀ result next, parser stream = .ok (result, next) → outcome result next

section Rules

variable
  {α β : Type}
  {parser : Parser α}
  {stream : TokenStream}
  {outcome : α → TokenStream → Prop}

theorem ensures_pure {result : α} (holds : outcome result stream) :
    Ensures (pure result) stream outcome := by
  intro _ _ ok
  obtain ⟨rfl, rfl⟩ := Prod.mk.inj (Except.ok.inj ok)
  exact holds

theorem ensures_error {cause : SyntaxError} (fails : parser stream = .error cause) :
    Ensures parser stream outcome := by
  intro _ _ ok
  rw [fails] at ok
  cases ok

theorem ensures_trivial : Ensures parser stream fun _ _ => True :=
  fun _ _ _ => trivial

theorem Ensures.imp
    {wanted : α → TokenStream → Prop}
    (ensures : Ensures parser stream outcome)
    (weaker : ∀ result next, outcome result next → wanted result next) :
    Ensures parser stream wanted :=
  fun result next ok => weaker result next (ensures result next ok)

theorem Ensures.bind
    {first : Parser β}
    {rest : β → Parser α}
    {found : β → TokenStream → Prop}
    (ensures : Ensures first stream found)
    (goesOn : ∀ result next, found result next → Ensures (rest result) next outcome) :
    Ensures (first >>= rest) stream outcome := by
  intro result last ok
  obtain ⟨value, next, firstOk, restOk⟩ := bind_eq_ok ok
  exact goesOn value next (ensures value next firstOk) result last restOk

/-- A parser of which nothing is known is passed over. -/
theorem Ensures.passes
    {first : Parser β}
    {rest : β → Parser α}
    (goesOn : ∀ result next, Ensures (rest result) next outcome) :
    Ensures (first >>= rest) stream outcome :=
  ensures_trivial.bind fun result next _ => goesOn result next

theorem ensures_seen {distance : Nat} {test : String → Bool} :
    Ensures (sees distance test) stream fun _ next => next = stream := by
  intro _ _ ok
  exact (Prod.mk.inj (Except.ok.inj ok)).2.symm

theorem ensures_expect {test : String → Bool} {what : String} :
    Ensures (expect test what) stream fun token next =>
      test token.text = true ∧ token = stream.current ∧ next = stream.advance := by
  intro _ _ ok
  unfold expect at ok
  split at ok
  · rename_i passes
    obtain ⟨rfl, rfl⟩ := Prod.mk.inj (Except.ok.inj ok)
    exact ⟨passes, rfl, rfl⟩
  · cases ok

/-! ### Alternatives -/

variable {yes no : Parser α}

theorem ensures_accept
    {test : String → Bool}
    (accepted : test stream.current.text = true → Ensures yes stream.advance outcome)
    (refused : test stream.current.text = false → Ensures no stream outcome) :
    Ensures (do if ← accept test then yes else no) stream outcome := by
  intro result next ok
  change (accept test stream >>= fun pair => (if pair.1 = true then yes else no) pair.2) = _ at ok
  rw [accept] at ok
  cases passes : test stream.current.text with
  | true =>
      rw [passes] at ok
      exact accepted passes result next ok
  | false =>
      rw [passes] at ok
      exact refused passes result next ok

theorem ensures_sees
    {distance : Nat}
    {test : String → Bool}
    (seen : test (stream.ahead distance).text = true → Ensures yes stream outcome)
    (unseen : test (stream.ahead distance).text = false → Ensures no stream outcome) :
    Ensures (do if ← sees distance test then yes else no) stream outcome := by
  intro result next ok
  change (if test (stream.ahead distance).text = true then yes else no) stream = _ at ok
  cases passes : test (stream.ahead distance).text with
  | true =>
      rw [passes] at ok
      exact seen passes result next ok
  | false =>
      rw [passes] at ok
      exact unseen passes result next ok

theorem ensures_acceptWordBefore
    {word : String}
    {test : String → Bool}
    (accepted : Ensures yes stream.advance outcome)
    (refused : (stream.current.text = word → test (stream.ahead 1).text = false) →
      Ensures no stream outcome) :
    Ensures (do if ← acceptWordBefore word test then yes else no) stream outcome := by
  intro result next ok
  change (acceptWordBefore word test stream >>= fun pair =>
    (if pair.1 = true then yes else no) pair.2) = _ at ok
  have decided : acceptWordBefore word test stream =
      if test (stream.ahead 1).text = true then acceptWord word stream
      else .ok (false, stream) := by
    change (if test (stream.ahead 1).text = true then acceptWord word else pure false) stream = _
    split <;> rfl
  rw [decided] at ok
  cases passes : test (stream.ahead 1).text with
  | false =>
      rw [passes] at ok
      exact refused (fun _ => passes) result next ok
  | true =>
      rw [passes, if_pos rfl, acceptWord, accept] at ok
      cases same : stream.current.text == word with
      | true =>
          rw [same] at ok
          exact accepted result next ok
      | false =>
          rw [same] at ok
          refine refused (fun equal => ?_) result next ok
          rw [equal, beq_self_eq_true] at same
          cases same

theorem ensures_acceptOneof
    (accepted : ∀ next, Ensures yes next outcome)
    (refused : Ensures no stream outcome) :
    Ensures (do if ← acceptOneof then yes else no) stream outcome := by
  have unmoved : Ensures acceptOneof stream fun isOneof next =>
      isOneof = false → next = stream := by
    refine ensures_sees (fun _ => ?_) fun _ => ensures_pure fun _ => rfl
    refine ensures_sees (fun _ => ?_) fun _ => ensures_pure fun _ => rfl
    intro isOneof next ok same
    rw [acceptWord, accept] at ok
    split at ok
    · obtain ⟨rfl, -⟩ := Prod.mk.inj (Except.ok.inj ok)
      cases same
    · exact (Prod.mk.inj (Except.ok.inj ok)).2.symm
  refine unmoved.bind fun isOneof next same => ?_
  cases isOneof with
  | true => exact accepted next
  | false => exact same rfl ▸ refused

end Rules

/-! ### Loops -/

/-- The next state has a property, or the result has it. -/
def Round.Keeps {σ : Type} (kept : σ → Prop) : Round σ σ → Prop
  | .again state => kept state
  | .done result => kept result

/-- A property that every round keeps is a property of the result. -/
theorem ensures_loop
    {σ : Type}
    {round : σ → Parser (Round σ σ)}
    (kept : σ → Prop)
    (step : ∀ state stream, kept state →
      Ensures (round state) stream fun decision _ => decision.Keeps kept)
    {state : σ}
    (start : kept state)
    (stream : TokenStream) :
    Ensures (loop round state) stream fun result _ => kept result := by
  suffices within : ∀ count state stream, kept state →
      Ensures (loopWithin round count state) stream fun result _ => kept result from
    fun result next ok => within stream.rounds state stream start result next ok
  intro count
  induction count with
  | zero => exact fun state stream _ => ensures_error rfl
  | succ count inductionHypothesis =>
      intro state stream holds
      refine (step state stream holds).bind fun decision next keeps => ?_
      cases decision with
      | again following => exact inductionHypothesis following next keeps
      | done result => exact ensures_pure keeps

end Parser

end ProtoWire.Proto
