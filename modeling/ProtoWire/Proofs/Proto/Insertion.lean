import ProtoWire.Proofs.Proto.Locality

/-!
Contract: words that are put in where a parser does not mind them. A parser that is not disturbed
at a place inside of what it reads is not disturbed as a whole.

Owns:
- parsers that run side by side on two texts and end in front of the same words;
- how they are put together, and loops of them of which the second one has a round to spare.

Does not own: the words that are put in.
-/

namespace ProtoWire.Proto

namespace Parser

/-- Two parsers run side by side. Whenever the first one succeeds on some words, the second one
succeeds on others, with a result like the first, and both end in front of the same words. -/
def Carries
    {α : Type}
    (same : α → α → Prop)
    (first second : Parser α)
    (words others : List String) : Prop :=
  ∀ stream again value next,
    stream.Shows words → again.Shows others → first stream = .ok (value, next) →
    ∃ rest other last, second again = .ok (other, last) ∧ same value other ∧
      next.Shows rest ∧ last.Shows rest ∧ rest.length ≤ words.length

section Rules

variable
  {α β : Type}
  {same : α → α → Prop}
  {look least : Nat}
  {words others : List String}

theorem Repeats.carries
    {first second : Parser α}
    (repeats : Repeats same look least first second words) :
    Carries same first second words words := by
  intro stream again value next shows showsAgain ok
  obtain ⟨front, rest, rfl, nextShows, -, reads⟩ := repeats stream value next shows ok
  obtain ⟨other, last, okAgain, lastShows, alike⟩ :=
    reads rest (Nat.le_refl _) rfl again showsAgain
  refine ⟨rest, other, last, okAgain, alike, nextShows, lastShows, ?_⟩
  rw [List.length_append]
  exact Nat.le_add_left ..

theorem carries_pure {value other : α} (alike : same value other) :
    Carries same (pure value) (pure other) words words :=
  (repeats_pure alike : Repeats same 0 0 _ _ words).carries

/-- A parser that reports an error carries everything. -/
theorem carries_error
    {first second : Parser α}
    (fails : ∀ stream, stream.Shows words → ∃ cause, first stream = .error cause) :
    Carries same first second words others := by
  intro stream _ value next shows _ ok
  obtain ⟨cause, error⟩ := fails stream shows
  rw [error] at ok
  cases ok

/-- The words are put in inside of the first part. -/
theorem Carries.bind
    {likes : β → β → Prop}
    {first second : Parser β}
    {goOn goOnAgain : β → Parser α}
    (carries : Carries likes first second words others)
    (goesOn : ∀ value other rest, rest.length ≤ words.length → likes value other →
      Carries same (goOn value) (goOnAgain other) rest rest) :
    Carries same (first >>= goOn) (second >>= goOnAgain) words others := by
  intro stream again result last shows showsAgain ok
  obtain ⟨value, next, firstOk, ok⟩ := bind_eq_ok ok
  obtain ⟨rest, other, nextAgain, secondOk, alike, nextShows, nextShowsAgain, shorter⟩ :=
    carries stream again value next shows showsAgain firstOk
  obtain ⟨left, final, lastAgain, lastOk, found⟩ :=
    goesOn value other rest shorter alike next nextAgain result last nextShows nextShowsAgain ok
  obtain ⟨same, lastShows, lastShowsAgain, fewer⟩ := found
  refine ⟨left, final, lastAgain, ?_, same, lastShows, lastShowsAgain, Nat.le_trans fewer shorter⟩
  rw [bind_ok secondOk]
  exact lastOk

/-- The words are put in behind the first part. -/
theorem Carries.behind
    {found foundAgain : β → Prop}
    {first second : Parser β}
    {goOn goOnAgain : β → Parser α}
    {front frontAgain rest more : List String}
    (reads : Reads first (front ++ rest) rest found)
    (readsAgain : Reads second (frontAgain ++ more) more foundAgain)
    (goesOn : ∀ value other, found value → foundAgain other →
      Carries same (goOn value) (goOnAgain other) rest more) :
    Carries same (first >>= goOn) (second >>= goOnAgain) (front ++ rest) (frontAgain ++ more) := by
  intro stream again result last shows showsAgain ok
  obtain ⟨value, next, firstOk, nextShows, holds⟩ := reads stream shows
  obtain ⟨other, nextAgain, secondOk, nextShowsAgain, holdsAgain⟩ := readsAgain again showsAgain
  rw [bind_ok firstOk] at ok
  obtain ⟨left, final, lastAgain, lastOk, same, lastShows, lastShowsAgain, fewer⟩ :=
    goesOn value other holds holdsAgain next nextAgain result last nextShows nextShowsAgain ok
  refine ⟨left, final, lastAgain, ?_, same, lastShows, lastShowsAgain, ?_⟩
  · rw [bind_ok secondOk]
    exact lastOk
  · rw [List.length_append]
    omega

/-- The second parser reads the words that are put in, and goes on like the first one. -/
theorem Carries.insert
    {first : Parser α}
    {second : Parser β}
    {goOn : β → Parser α}
    {passed : β}
    {middle : List String}
    (reads : Reads second others middle (· = passed))
    (goesOn : Carries same first (goOn passed) words middle) :
    Carries same first (second >>= goOn) words others := by
  intro stream again value next shows showsAgain ok
  obtain ⟨_, behind, secondOk, behindShows, rfl⟩ := reads again showsAgain
  rw [bind_ok secondOk]
  exact goesOn stream behind value next shows behindShows ok

/-! ### Alternatives -/

variable {yes no yesAgain noAgain : Parser α} {test : String → Bool} {word : String}

/-- A verdict that does not see the words that are put in. -/
theorem Carries.decided
    {decision : Parser Bool}
    {verdict : Bool}
    {front : List String}
    (decides : Decides decision verdict look front words)
    (alike : words.take look = others.take look)
    (goesOn : Carries same (if verdict then yes else no) (if verdict then yesAgain else noAgain)
      words others) :
    Carries same (do if ← decision then yes else no) (do if ← decision then yesAgain else noAgain)
      (front ++ words) (front ++ others) := by
  refine Carries.behind (decides words rfl) (decides others alike) ?_
  rintro _ _ rfl rfl
  exact goesOn

theorem Carries.acceptedWord (goesOn : Carries same yes yesAgain words others) :
    Carries same (do if ← acceptWord word then yes else no)
      (do if ← acceptWord word then yesAgain else noAgain) (word :: words) (word :: others) := by
  have decides : Decides (acceptWord word) true 0 [word] words :=
    decides_accept (beq_self_eq_true word)
  have unseen : words.take 0 = others.take 0 := rfl
  exact Carries.decided decides unseen goesOn

theorem Carries.refused
    (fails : test word = false)
    (goesOn : Carries same no noAgain (word :: words) (word :: others)) :
    Carries same (do if ← accept test then yes else no)
      (do if ← accept test then yesAgain else noAgain) (word :: words) (word :: others) := by
  have head : test ((word :: words).headD "") = false := fails
  exact Carries.decided (decides_refuse head) rfl goesOn

theorem Carries.refusedWord
    {other : String}
    (different : word ≠ other)
    (goesOn : Carries same no noAgain (word :: words) (word :: others)) :
    Carries same (do if ← acceptWord other then yes else no)
      (do if ← acceptWord other then yesAgain else noAgain) (word :: words) (word :: others) :=
  Carries.refused (beq_false_of_ne different) goesOn

theorem Carries.unseen
    (fails : test word = false)
    (goesOn : Carries same no noAgain (word :: words) (word :: others)) :
    Carries same (do if ← sees 0 test then yes else no)
      (do if ← sees 0 test then yesAgain else noAgain) (word :: words) (word :: others) := by
  refine Carries.decided decides_sees rfl ?_
  change Carries same (if test word then yes else no) (if test word then yesAgain else noAgain) _ _
  rw [fails]
  exact goesOn

theorem Carries.keyword
    {keyword : String}
    (passes : test word = true)
    (goesOn : Carries same yes yesAgain (word :: words) (word :: others)) :
    Carries same (do if ← acceptWordBefore keyword test then yes else no)
      (do if ← acceptWordBefore keyword test then yesAgain else noAgain)
      (keyword :: word :: words) (keyword :: word :: others) := by
  have head : test ((word :: words).headD "") = true := passes
  exact Carries.decided (decides_keyword head) rfl goesOn

theorem Carries.otherKeyword
    {keyword : String}
    (different : word ≠ keyword)
    (goesOn : Carries same no noAgain (word :: words) (word :: others)) :
    Carries same (do if ← acceptWordBefore keyword test then yes else no)
      (do if ← acceptWordBefore keyword test then yesAgain else noAgain)
      (word :: words) (word :: others) := by
  have head : (word :: words).headD "" ≠ keyword := different
  exact Carries.decided (decides_otherWord head) rfl goesOn

end Rules

/-! ### Loops -/

/-- Two loops run side by side from states like a given one on. The second one may go on for a
round more than the first one. -/
def LoopCarries
    {σ α β : Type}
    (forget : σ → β)
    (same : α → α → Prop)
    (round roundAgain : σ → Parser (Round σ α))
    (state : σ)
    (words others : List String) : Prop :=
  ∀ first second count more, count < more →
    SameUpTo forget state first → SameUpTo forget state second →
    Carries same (loopWithin round count first) (loopWithin roundAgain more second) words others

section Loops

variable
  {σ α β : Type}
  {forget : σ → β}
  {same : α → α → Prop}
  {look least : Nat}
  {round roundAgain : σ → Parser (Round σ α)}
  {state next : σ}
  {words others : List String}

/-- The words are put in behind one round. -/
theorem LoopCarries.again
    {front rest more : List String}
    (reads : ∀ first, SameUpTo forget state first →
      Reads (round first) (front ++ rest) rest (Round.Alike (SameUpTo forget) same (.again next)))
    (readsAgain : ∀ second, SameUpTo forget state second →
      Reads (roundAgain second) (front ++ more) more
        (Round.Alike (SameUpTo forget) same (.again next)))
    (later : LoopCarries forget same round roundAgain next rest more) :
    LoopCarries forget same round roundAgain state (front ++ rest) (front ++ more) := by
  intro first second count most fewer alike alikeAgain
  cases count with
  | zero => exact carries_error fun stream _ => ⟨_, rfl⟩
  | succ count =>
      obtain ⟨most, rfl⟩ := Nat.exists_eq_add_one.mpr (Nat.zero_lt_of_lt fewer)
      refine Carries.behind (reads first alike) (readsAgain second alikeAgain) ?_
      rintro _ _ ⟨kept⟩ ⟨keptAgain⟩
      exact later _ _ count most (Nat.lt_of_succ_lt_succ fewer) kept keptAgain

/-- A round that goes on in one run does so from every state like the first one, whatever words are
put in behind it. -/
theorem LoopCarries.exists_of_run
    (rounds : ∀ other, SameUpTo forget state other →
      Repeats (Round.Alike (SameUpTo forget) same) 0 least (round state) (round other) words)
    {stream after : TokenStream}
    (shows : stream.Shows words)
    (ok : round state stream = .ok (.again next, after)) :
    ∃ front rest, words = front ++ rest ∧ after.Shows rest ∧
      ∀ more, rest.length < more.length →
        LoopCarries forget same round round next rest more →
        LoopCarries forget same round round state words (front ++ more) := by
  obtain ⟨front, rest, rfl, afterShows, -, -⟩ := rounds state rfl stream _ after shows ok
  have leads {other : σ} (alike : SameUpTo forget state other) {behind : List String}
      (longer : rest.length ≤ behind.length) :=
    (rounds other alike).reads_of_run shows ok afterShows longer
  refine ⟨front, rest, rfl, afterShows, fun more longer carries => ?_⟩
  exact carries.again (fun _ alike => leads alike (Nat.le_refl _))
    (fun _ alike => leads alike (Nat.le_of_lt longer))

/-- The words are put in inside of one round. -/
theorem LoopCarries.inside
    (carries : ∀ first second, SameUpTo forget first second →
      Carries (Round.Alike (SameUpTo forget) same) (round first) (roundAgain second) words others)
    (rounds : ∀ first second rest, rest.length ≤ words.length → SameUpTo forget first second →
      Repeats (Round.Alike (SameUpTo forget) same) look least (round first) (roundAgain second)
        rest) :
    LoopCarries forget same round roundAgain state words others := by
  intro first second count more fewer alike alikeAgain
  cases count with
  | zero => exact carries_error fun stream _ => ⟨_, rfl⟩
  | succ count =>
      obtain ⟨more, rfl⟩ := Nat.exists_eq_add_one.mpr (Nat.zero_lt_of_lt fewer)
      refine (carries first second (alike.symm.trans alikeAgain)).bind ?_
      rintro _ _ rest shorter (⟨kept⟩ | ⟨equal⟩)
      · have enough : count ≤ more := Nat.le_of_lt (Nat.lt_of_succ_lt_succ fewer)
        exact (repeats_loopWithin rounds enough shorter kept).carries
      · exact carries_pure equal

/-- The words that are put in take one round, and leave the state as it is. -/
theorem LoopCarries.insert
    (reads : ∀ second, SameUpTo forget state second →
      Reads (roundAgain second) others words (· = .again second))
    (rounds : ∀ first second rest, rest.length ≤ words.length → SameUpTo forget first second →
      Repeats (Round.Alike (SameUpTo forget) same) look least (round first) (roundAgain second)
        rest) :
    LoopCarries forget same round roundAgain state words others := by
  intro first second count more fewer alike alikeAgain
  obtain ⟨more, rfl⟩ := Nat.exists_eq_add_one.mpr (Nat.zero_lt_of_lt fewer)
  have loops := repeats_loopWithin rounds (Nat.le_of_lt_succ fewer) (Nat.le_refl _)
    (alike.symm.trans alikeAgain)
  exact Carries.insert (reads second alikeAgain) loops.carries

/-- More words give the second parser more rounds. -/
theorem carries_rounds
    {first second : Nat → Parser α}
    (longer : words.length < others.length)
    (within : ∀ count more, words.length < count → others.length < more → count < more →
      Carries same (first count) (second more) words others) :
    Carries same (fun stream => first stream.rounds stream)
      (fun stream => second stream.rounds stream) words others := by
  intro stream again value next shows showsAgain ok
  have rounds : stream.rounds = 2 * words.length + 4 := by
    rw [TokenStream.rounds, shows.length_following]
  have roundsAgain : again.rounds = 2 * others.length + 4 := by
    rw [TokenStream.rounds, showsAgain.length_following]
  exact within stream.rounds again.rounds (by omega) (by omega) (by omega) stream again value next
    shows showsAgain ok

theorem LoopCarries.loop
    (longer : words.length < others.length)
    (carries : LoopCarries forget same round roundAgain state words others)
    {first second : σ}
    (alike : SameUpTo forget state first)
    (alikeAgain : SameUpTo forget state second) :
    Carries same (loop round first) (loop roundAgain second) words others :=
  carries_rounds longer fun count more _ _ fewer => carries first second count more fewer alike
    alikeAgain

end Loops

end Parser

end ProtoWire.Proto
