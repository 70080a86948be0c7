import ProtoWire.Proofs.Proto.Guarantee

/-!
Contract: what a parser does on a stream whose words are known. A parser that reads some words
off the front succeeds, whatever the positions of the tokens are.

Owns:
- streams that show given words, and looking ahead in them;
- parsers that read words, and how they are put together;
- loops that read one item after the other.

Does not own: the words of any declaration.
-/

namespace ProtoWire.Proto

/-- The words from the current token on, up to the end of the file. -/
def TokenStream.Shows (stream : TokenStream) (words : List String) : Prop :=
  (stream.current :: stream.following).map Token.text = words ++ [""]

namespace TokenStream.Shows

variable {stream : TokenStream} {words : List String} {word : String}

theorem current (shows : stream.Shows (word :: words)) : stream.current.text = word :=
  (List.cons.inj shows).1

theorem advance (shows : stream.Shows (word :: words)) : stream.advance.Shows words := by
  obtain ⟨token, following⟩ := stream
  have behind : following.map Token.text = words ++ [""] := (List.cons.inj shows).2
  cases following with
  | nil =>
    exact absurd behind.symm (List.append_ne_nil_of_right_ne_nil words (List.cons_ne_nil _ _))
  | cons next others => exact behind

theorem current_of_nil (shows : stream.Shows []) : stream.current.text = "" :=
  (List.cons.inj shows).1

theorem length_following (shows : stream.Shows words) :
    stream.following.length = words.length := by
  have lengths := congrArg List.length shows
  rw [List.length_map, List.length_cons, List.length_append] at lengths
  exact Nat.succ.inj lengths

theorem ahead
    (shows : stream.Shows words)
    {distance : Nat}
    (seen : words[distance]? = some word) :
    (stream.ahead distance).text = word := by
  have all : ((stream.current :: stream.following)[distance]?).map Token.text = some word := by
    rw [← List.getElem?_map, shows, List.getElem?_append_left (List.getElem?_eq_some_iff.mp seen).1]
    exact seen
  obtain ⟨token, found, text⟩ := Option.map_eq_some_iff.mp all
  cases distance with
  | zero =>
      obtain rfl := Option.some.inj found
      exact text
  | succ more =>
      rw [List.getElem?_cons_succ] at found
      rw [TokenStream.ahead, found]
      exact text

end TokenStream.Shows

namespace Parser

/-- A parser goes from some words to other words, with a result of a kind. -/
def Reads
    {α : Type}
    (parser : Parser α)
    (before after : List String)
    (outcome : α → Prop) : Prop :=
  ∀ stream : TokenStream, stream.Shows before →
    ∃ result next, parser stream = .ok (result, next) ∧ next.Shows after ∧ outcome result

section Rules

variable
  {α β : Type}
  {outcome : α → Prop}
  {before middle after words : List String}
  {word : String}
  {test : String → Bool}

theorem reads_pure {result : α} (holds : outcome result) :
    Reads (pure result) words words outcome :=
  fun stream shows => ⟨result, stream, rfl, shows, holds⟩

theorem Reads.bind
    {first : Parser β}
    {rest : β → Parser α}
    {found : β → Prop}
    (reads : Reads first before middle found)
    (goesOn : ∀ result, found result → Reads (rest result) middle after outcome) :
    Reads (first >>= rest) before after outcome := by
  intro stream shows
  obtain ⟨value, next, ok, nextShows, holds⟩ := reads stream shows
  obtain ⟨result, last, lastOk, lastShows, outcome⟩ := goesOn value holds next nextShows
  refine ⟨result, last, ?_, lastShows, outcome⟩
  rw [bind_ok ok]
  exact lastOk

theorem reads_accept (passes : test word = true) :
    Reads (accept test) (word :: words) words (· = true) := by
  intro stream shows
  refine ⟨true, stream.advance, ?_, shows.advance, rfl⟩
  rw [accept, shows.current, if_pos passes]

theorem reads_refuse (fails : test word = false) :
    Reads (accept test) (word :: words) (word :: words) (· = false) := by
  intro stream shows
  refine ⟨false, stream, ?_, shows, rfl⟩
  rw [accept, shows.current, fails]
  rfl

theorem reads_sees {distance : Nat} (seen : words[distance]? = some word) :
    Reads (sees distance test) words words (· = test word) := by
  intro stream shows
  refine ⟨test word, stream, ?_, shows, rfl⟩
  rw [sees, shows.ahead seen]

theorem reads_expect {what : String} (passes : test word = true) :
    Reads (expect test what) (word :: words) words (fun token => token.text = word) := by
  intro stream shows
  refine ⟨stream.current, stream.advance, ?_, shows.advance, shows.current⟩
  rw [expect, shows.current, if_pos passes]

theorem reads_current :
    Reads current (word :: words) (word :: words) (fun token => token.text = word) :=
  fun stream shows => ⟨stream.current, stream, rfl, shows, shows.current⟩

theorem reads_advance : Reads advance (word :: words) words (fun _ => True) :=
  fun stream shows => ⟨(), stream.advance, rfl, shows.advance, trivial⟩

/-- The end of the file is accepted, and it stays current. -/
theorem reads_end : Reads (accept String.isEmpty) [] [] (· = true) := by
  intro stream shows
  refine ⟨true, stream.advance, ?_, ?_, rfl⟩
  · rw [accept, shows.current_of_nil]
    rfl
  · rw [TokenStream.advance, List.eq_nil_of_length_eq_zero shows.length_following]
    exact shows

theorem reads_expectSymbol (symbol : String) :
    Reads (expectSymbol symbol) (symbol :: words) words (fun _ => True) := by
  unfold expectSymbol
  refine (reads_expect ?_).bind fun _ _ => reads_pure trivial
  exact beq_self_eq_true symbol

theorem reads_acceptWord :
    Reads (acceptWord word) (word :: words) words (· = true) := by
  apply reads_accept
  exact beq_self_eq_true word

theorem reads_refuseWord {other : String} (different : word ≠ other) :
    Reads (acceptWord other) (word :: words) (word :: words) (· = false) := by
  apply reads_refuse
  exact beq_false_of_ne different

theorem reads_expectIdentifier (name : TokenClass.isIdentifier word = true) :
    Reads expectIdentifier (word :: words) words (fun token => token.text = word) :=
  reads_expect name

/-! ### Alternatives -/

variable {yes no : Parser α}

theorem Reads.accepted
    (passes : test word = true)
    (goesOn : Reads yes words after outcome) :
    Reads (do if ← accept test then yes else no) (word :: words) after outcome := by
  refine (reads_accept passes).bind ?_
  rintro _ rfl
  exact goesOn

theorem Reads.refused
    (fails : test word = false)
    (goesOn : Reads no (word :: words) after outcome) :
    Reads (do if ← accept test then yes else no) (word :: words) after outcome := by
  refine (reads_refuse fails).bind ?_
  rintro _ rfl
  exact goesOn

theorem Reads.acceptedWord (goesOn : Reads yes words after outcome) :
    Reads (do if ← acceptWord word then yes else no) (word :: words) after outcome :=
  Reads.accepted (beq_self_eq_true word) goesOn

theorem Reads.refusedWord
    {other : String}
    (different : word ≠ other)
    (goesOn : Reads no (word :: words) after outcome) :
    Reads (do if ← acceptWord other then yes else no) (word :: words) after outcome :=
  Reads.refused (beq_false_of_ne different) goesOn

theorem Reads.unseen
    {distance : Nat}
    (seen : words[distance]? = some word)
    (fails : test word = false)
    (goesOn : Reads no words after outcome) :
    Reads (do if ← sees distance test then yes else no) words after outcome := by
  refine (reads_sees seen).bind ?_
  rintro _ rfl
  rw [fails]
  exact goesOn

/-- A keyword before a word that passes the test is no name. -/
theorem Reads.keyword
    {keyword : String}
    (passes : test word = true)
    (goesOn : Reads yes (word :: words) after outcome) :
    Reads (do if ← acceptWordBefore keyword test then yes else no)
      (keyword :: word :: words) after outcome := by
  have accepts : Reads (acceptWordBefore keyword test) (keyword :: word :: words) (word :: words)
      (· = true) := by
    refine (reads_sees rfl).bind ?_
    rintro _ rfl
    rw [if_pos passes]
    exact reads_acceptWord
  refine accepts.bind ?_
  rintro _ rfl
  exact goesOn

/-- Another word, or a keyword before a word that fails the test, is no keyword. -/
theorem Reads.noKeyword
    {keyword next : String}
    (refuses : word = keyword → test next = false)
    (goesOn : Reads no (word :: next :: words) after outcome) :
    Reads (do if ← acceptWordBefore keyword test then yes else no)
      (word :: next :: words) after outcome := by
  have refused : Reads (acceptWordBefore keyword test) (word :: next :: words)
      (word :: next :: words) (· = false) := by
    refine (reads_sees rfl).bind ?_
    rintro _ rfl
    cases passes : test next with
    | false => exact reads_pure rfl
    | true =>
        refine reads_refuseWord fun same => ?_
        rw [refuses same] at passes
        cases passes
  refine refused.bind ?_
  rintro _ rfl
  exact goesOn

end Rules

/-! ### Loops -/

/-- A loop goes from some words to other words if it may go on for more rounds than there are
words. -/
def Loops
    {σ α : Type}
    (round : σ → Parser (Round σ α))
    (state : σ)
    (before after : List String)
    (outcome : α → Prop) : Prop :=
  ∀ count, before.length < count → Reads (loopWithin round count state) before after outcome

section Loops

variable
  {σ α ι : Type}
  {round : σ → Parser (Round σ α)}
  {state : σ}
  {before middle after : List String}
  {outcome : α → Prop}

theorem Loops.reads (loops : Loops round state before after outcome) :
    Reads (loop round state) before after outcome := by
  intro stream shows
  refine loops stream.rounds ?_ stream shows
  rw [TokenStream.rounds, shows.length_following]
  omega

/-- What is known of the next state may be put in other words. -/
theorem Reads.keeps
    {parser : Parser (Round σ α)}
    {kept known : σ → Prop}
    (reads : Reads parser before after fun decision =>
      ∃ next, decision = .again next ∧ kept next)
    (weaker : ∀ next, kept next → known next) :
    Reads parser before after fun decision => ∃ next, decision = .again next ∧ known next := by
  intro stream shows
  obtain ⟨_, last, ok, lastShows, next, rfl, holds⟩ := reads stream shows
  exact ⟨_, last, ok, lastShows, next, rfl, weaker next holds⟩

theorem loops_done
    (last : Reads (round state) before after fun decision =>
      ∃ result, decision = .done result ∧ outcome result) :
    Loops round state before after outcome := by
  intro count positive
  obtain ⟨count, rfl⟩ := Nat.exists_eq_add_one.mpr (Nat.zero_lt_of_lt positive)
  refine last.bind ?_
  rintro _ ⟨result, rfl, holds⟩
  exact reads_pure holds

theorem loops_again
    {kept : σ → Prop}
    (shorter : middle.length < before.length)
    (first : Reads (round state) before middle fun decision =>
      ∃ next, decision = .again next ∧ kept next)
    (goesOn : ∀ next, kept next → Loops round next middle after outcome) :
    Loops round state before after outcome := by
  intro count positive
  obtain ⟨count, rfl⟩ := Nat.exists_eq_add_one.mpr (Nat.zero_lt_of_lt positive)
  refine first.bind ?_
  rintro _ ⟨next, rfl, holds⟩
  exact goesOn next holds count (Nat.lt_of_lt_of_le shorter (Nat.le_of_lt_succ positive))

/-- A round that goes on with a known state. -/
theorem loops_round
    {next : σ}
    (shorter : middle.length < before.length)
    (first : Reads (round state) before middle (· = .again next))
    (goesOn : Loops round next middle after outcome) :
    Loops round state before after outcome := by
  intro count positive
  obtain ⟨count, rfl⟩ := Nat.exists_eq_add_one.mpr (Nat.zero_lt_of_lt positive)
  refine first.bind ?_
  rintro _ rfl
  exact goesOn count (Nat.lt_of_lt_of_le shorter (Nat.le_of_lt_succ positive))

/-- A loop whose rounds read one item each. What is known of the state grows with the items. -/
theorem loops_items
    (words : ι → List String)
    (known : List ι → σ → Prop)
    {more : List String}
    {items : List ι}
    (nonempty : ∀ item, words item ≠ [])
    (step : ∀ done item state behind, item ∈ items → known done state →
      Reads (round state) (words item ++ behind) behind fun decision =>
        ∃ next, decision = .again next ∧ known (done ++ [item]) next)
    (finish : ∀ state, known items state → Loops round state more after outcome)
    (start : known [] state) :
    Loops round state (items.flatMap words ++ more) after outcome := by
  suffices all : ∀ (left done : List ι) state, done ++ left = items → known done state →
      Loops round state (left.flatMap words ++ more) after outcome from
    all items [] state rfl start
  intro left
  induction left with
  | nil =>
      intro done state same holds
      rw [List.append_nil] at same
      exact finish state (same ▸ holds)
  | cons item others inductionHypothesis =>
      intro done state same holds
      have member : item ∈ items := by
        rw [← same]
        exact List.mem_append_right done List.mem_cons_self
      have shift : done ++ [item] ++ others = items := by
        rw [List.append_assoc]
        exact same
      rw [List.flatMap_cons, List.append_assoc]
      refine loops_again ?_ (step done item state _ member holds) fun next nextHolds =>
        inductionHypothesis (done ++ [item]) next shift nextHolds
      rw [@List.length_append _ (words item)]
      have positive := List.length_pos_iff.mpr (nonempty item)
      omega

end Loops

end Parser

end ProtoWire.Proto
