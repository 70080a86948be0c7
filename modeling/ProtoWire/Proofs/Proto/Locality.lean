import ProtoWire.Proofs.Outcome
import ProtoWire.Proofs.Proto.Expectation

/-!
Contract: what a parser does on words depends on the words that it takes and on a few words behind
them, and neither on the positions of the tokens nor on what stands further behind.

Owns:
- words seen at a distance;
- parsers that repeat on some words what others do on words that start alike;
- how such parsers are put together, and loops of them.

Does not own: any parser of the grammar.
-/

namespace ProtoWire.Proto

namespace TokenStream.Shows

variable {stream : TokenStream} {words others : List String}

theorem eq (shows : stream.Shows words) (again : stream.Shows others) : words = others :=
  List.append_cancel_right (shows.symm.trans again)

/-- Behind the last word there is the end of the file, at every distance. -/
theorem ahead_eq (shows : stream.Shows words) (distance : Nat) :
    (stream.ahead distance).text = words[distance]?.getD "" := by
  cases seen : words[distance]? with
  | some word => exact shows.ahead seen
  | none =>
      have past : words.length ≤ distance := List.getElem?_eq_none_iff.mp seen
      have ends {token : Token} (found : (stream.current :: stream.following)[distance]? = some token) :
          token.text = "" := by
        have text := congrArg (Option.map Token.text) found
        rw [← List.getElem?_map, shows, List.getElem?_append_right past] at text
        exact List.mem_singleton.mp (List.mem_of_getElem? text)
      have last : ((stream.current :: stream.following).getLast?).map Token.text = some "" := by
        rw [← List.getLast?_map, shows, List.getLast?_concat]
      rw [List.getLast?_cons, Option.map_some] at last
      cases distance with
      | zero => exact ends rfl
      | succ more =>
          rw [TokenStream.ahead]
          cases found : stream.following[more]? with
          | some token => exact ends found
          | none => exact Option.some.inj last

theorem current_eq (shows : stream.Shows words) : stream.current.text = words.headD "" := by
  cases words with
  | nil => exact shows.current_of_nil
  | cons word others => exact shows.current

theorem exists_of_current
    {word : String}
    (shows : stream.Shows words)
    (current : stream.current.text = word)
    (nonempty : word ≠ "") :
    ∃ rest, words = word :: rest ∧ stream.advance.Shows rest := by
  cases words with
  | nil => exact absurd (current.symm.trans shows.current_of_nil) nonempty
  | cons first rest => exact ⟨rest, by rw [← current, shows.current], shows.advance⟩

end TokenStream.Shows

/-- Values that differ at most in what a function forgets. -/
def SameUpTo {α β : Type} (forget : α → β) (value other : α) : Prop :=
  forget value = forget other

namespace Parser

/-- What the first parser does on some words, the second one does on all words that start alike.
If the first one succeeds, it takes at least `least` words off the front. Whatever other words
stand behind these, the second one takes the same words, with a result like the first, provided that
the other words are no fewer and the first `look` of them are the same. -/
def Repeats
    {α : Type}
    (same : α → α → Prop)
    (look least : Nat)
    (first second : Parser α)
    (words : List String) : Prop :=
  ∀ stream value next, stream.Shows words → first stream = .ok (value, next) →
    ∃ front rest, words = front ++ rest ∧ next.Shows rest ∧ least ≤ front.length ∧
      ∀ other, rest.length ≤ other.length → rest.take look = other.take look →
        Reads second (front ++ other) other (same value)

/-- The first words of two texts are the same if they are the words of a common front and the first
ones behind it. -/
private theorem take_append_of_take
    {front rest other : List String}
    {look count : Nat}
    (alike : rest.take look = other.take look)
    (covers : count ≤ look + front.length) :
    (front ++ rest).take count = (front ++ other).take count := by
  rw [List.take_append, List.take_append]
  have inside : count - front.length ≤ look := by omega
  rw [← Nat.min_eq_left inside, ← List.take_take, ← List.take_take, alike]

theorem getElem?_of_take
    {words other : List String}
    {count index : Nat}
    (alike : words.take count = other.take count)
    (below : index < count) :
    words[index]? = other[index]? := by
  rw [← List.getElem?_take_of_lt below, alike, List.getElem?_take_of_lt below]

theorem head_of_take
    {words other : List String}
    {count : Nat}
    (alike : words.take (count + 1) = other.take (count + 1)) :
    words.headD "" = other.headD "" := by
  rw [List.headD_eq_head?_getD, List.headD_eq_head?_getD, List.head?_eq_getElem?,
    List.head?_eq_getElem?, getElem?_of_take alike (Nat.succ_pos count)]

section Rules

variable
  {α β : Type}
  {same : α → α → Prop}
  {look least : Nat}
  {words : List String}

theorem repeats_pure {value other : α} (alike : same value other) :
    Repeats same look 0 (pure value) (pure other) words := by
  intro stream result next shows ok
  obtain ⟨rfl, rfl⟩ := Prod.mk.inj (Except.ok.inj ok)
  exact ⟨[], words, rfl, shows, Nat.le_refl _, fun others _ _ => reads_pure alike⟩

/-- A parser that reports an error has nothing to repeat. -/
theorem repeats_error
    {first second : Parser α}
    (fails : ∀ stream, ∃ cause, first stream = .error cause) :
    Repeats same look least first second words := by
  intro stream result next _ ok
  obtain ⟨cause, error⟩ := fails stream
  rw [error] at ok
  cases ok

theorem Repeats.weaken
    {nearLook farLeast : Nat}
    {first second : Parser α}
    (repeats : Repeats same nearLook farLeast first second words)
    (bounds : nearLook ≤ look ∧ least ≤ farLeast) :
    Repeats same look least first second words := by
  intro stream value next shows ok
  obtain ⟨front, rest, whole, behind, enough, again⟩ := repeats stream value next shows ok
  refine ⟨front, rest, whole, behind, Nat.le_trans bounds.2 enough, fun other more alike => ?_⟩
  refine again other more ?_
  have near := congrArg (List.take nearLook) alike
  rwa [List.take_take, List.take_take, Nat.min_eq_left bounds.1] at near

theorem Repeats.imp
    {likes : α → α → Prop}
    {first second : Parser α}
    (repeats : Repeats likes look least first second words)
    (weaker : ∀ value other, likes value other → same value other) :
    Repeats same look least first second words := by
  intro stream value next shows ok
  obtain ⟨front, rest, whole, behind, enough, again⟩ := repeats stream value next shows ok
  refine ⟨front, rest, whole, behind, enough, fun other more alike stream' shows' => ?_⟩
  obtain ⟨result, last, ok, lastShows, like⟩ := again other more alike stream' shows'
  exact ⟨result, last, ok, lastShows, weaker value result like⟩

/-- Without a look at the words behind, a parser repeats on all of the words. -/
theorem Repeats.reads
    {first second : Parser α}
    (repeats : Repeats same look least first second words)
    {stream next : TokenStream}
    {value : α}
    (shows : stream.Shows words)
    (ok : first stream = .ok (value, next)) :
    ∃ rest, next.Shows rest ∧ Reads second words rest (same value) := by
  obtain ⟨front, rest, rfl, behind, -, again⟩ := repeats stream value next shows ok
  exact ⟨rest, behind, again rest (Nat.le_refl _) rfl⟩

/-- What a run of the first parser takes off the front, the second one takes off again, whatever
words are behind. -/
theorem Repeats.reads_of_run
    {first second : Parser α}
    {front rest : List String}
    (repeats : Repeats same 0 least first second (front ++ rest))
    {stream after : TokenStream}
    {value : α}
    (shows : stream.Shows (front ++ rest))
    (ok : first stream = .ok (value, after))
    (afterShows : after.Shows rest)
    {other : List String}
    (longer : rest.length ≤ other.length) :
    Reads second (front ++ other) other (same value) := by
  obtain ⟨taken, left, whole, leftShows, -, reads⟩ := repeats stream value after shows ok
  obtain rfl := afterShows.eq leftShows
  obtain rfl := List.append_cancel_right whole
  exact reads other longer rfl

theorem Repeats.bind
    {likes : β → β → Prop}
    {nearLook nearLeast : Nat}
    (farLeast : Nat)
    {first second : Parser β}
    {goOn goOnAgain : β → Parser α}
    (starts : Repeats likes nearLook nearLeast first second words)
    (goesOn : ∀ value other rest, rest.length + nearLeast ≤ words.length → likes value other →
      Repeats same look farLeast (goOn value) (goOnAgain other) rest)
    (bounds : nearLook ≤ look + farLeast ∧ least ≤ nearLeast + farLeast) :
    Repeats same look least (first >>= goOn) (second >>= goOnAgain) words := by
  intro stream result last shows ok
  obtain ⟨value, next, firstOk, ok⟩ := bind_eq_ok ok
  obtain ⟨front, rest, rfl, nextShows, enough, again⟩ := starts stream value next shows firstOk
  have shorter : rest.length + nearLeast ≤ (front ++ rest).length := by
    rw [List.length_append]
    omega
  -- The second parser runs on the same words as well, so that there is a value like the first.
  obtain ⟨other, _, _, _, alike⟩ := again rest (Nat.le_refl _) rfl stream shows
  obtain ⟨taken, left, rfl, lastShows, more, -⟩ :=
    goesOn value other rest shorter alike next result last nextShows ok
  refine ⟨front ++ taken, left, (List.append_assoc ..).symm, lastShows, ?_, ?_⟩
  · rw [List.length_append]
    omega
  · intro behind longer sameFront
    rw [List.append_assoc]
    have lengths : (taken ++ left).length ≤ (taken ++ behind).length := by
      rw [List.length_append, List.length_append]
      omega
    have covers : nearLook ≤ look + taken.length := by omega
    refine (again (taken ++ behind) lengths (take_append_of_take sameFront covers)).bind ?_
    intro second likes
    obtain ⟨taken', left', equal, lastShows', _, again'⟩ :=
      goesOn value second _ shorter likes next result last nextShows ok
    obtain rfl := lastShows.eq lastShows'
    obtain rfl := List.append_cancel_right equal
    exact again' behind longer sameFront

theorem Repeats.map
    {likes : β → β → Prop}
    {first second : Parser β}
    {form formAgain : β → α}
    (repeats : Repeats likes look least first second words)
    (alike : ∀ value other, likes value other → same (form value) (formAgain other)) :
    Repeats same look least (form <$> first) (formAgain <$> second) words := by
  rw [← bind_pure_comp, ← bind_pure_comp]
  exact repeats.bind 0 (fun value other _ _ likes => repeats_pure (alike value other likes))
    ⟨Nat.le_refl _, Nat.le_refl _⟩

/-! ### Single words -/

/-- A word that is insisted on is the first one. -/
theorem words_of_expect
    {test : String → Bool}
    {what : String}
    (solid : test "" = false)
    {stream next : TokenStream}
    {token : Token}
    (shows : stream.Shows words)
    (ok : expect test what stream = .ok (token, next)) :
    ∃ rest, words = token.text :: rest ∧ test token.text = true ∧ next.Shows rest := by
  cases words with
  | nil =>
      rw [expect, shows.current_of_nil, solid] at ok
      cases ok
  | cons word others =>
      unfold expect at ok
      split at ok
      · rename_i passes
        obtain ⟨rfl, rfl⟩ := Prod.mk.inj (Except.ok.inj ok)
        exact ⟨others, by rw [shows.current], passes, shows.advance⟩
      · cases ok

theorem words_of_expectSymbol
    {symbol : String}
    (solid : ("" == symbol) = false)
    {stream next : TokenStream}
    {done : Unit}
    (shows : stream.Shows words)
    (ok : expectSymbol symbol stream = .ok (done, next)) :
    ∃ rest, words = symbol :: rest ∧ next.Shows rest := by
  obtain ⟨token, behind, expectOk, ok⟩ := bind_eq_ok ok
  obtain ⟨-, rfl⟩ := Prod.mk.inj (Except.ok.inj ok)
  obtain ⟨rest, rfl, passes, nextShows⟩ := words_of_expect solid shows expectOk
  exact ⟨rest, by rw [eq_of_beq passes], nextShows⟩

theorem repeats_expect {test : String → Bool} {what : String} (solid : test "" = false) :
    Repeats (SameUpTo Token.text) 0 1 (expect test what) (expect test what)
      words := by
  intro stream value next shows ok
  obtain ⟨rest, rfl, passes, nextShows⟩ := words_of_expect solid shows ok
  refine ⟨[value.text], rest, rfl, nextShows, Nat.le_refl _, fun other _ _ again showsAgain => ?_⟩
  obtain ⟨token, behind, ok, behindShows, text⟩ := reads_expect passes again showsAgain
  exact ⟨token, behind, ok, behindShows, text.symm⟩

theorem repeats_expectSymbol {symbol : String} (solid : ("" == symbol) = false) :
    Repeats (fun _ _ => True) 0 1 (expectSymbol symbol) (expectSymbol symbol) words := by
  unfold expectSymbol
  exact (repeats_expect solid).bind 0 (fun _ _ _ _ _ => repeats_pure trivial) (by decide)

/-- A parser of the current token goes on with the first word. -/
theorem Repeats.current
    {goOn goOnAgain : Token → Parser α}
    (goesOn : ∀ token other : Token, token.text = words.headD "" → other.text = words.headD "" →
      Repeats same look least (goOn token) (goOnAgain other) words)
    (bounds : 1 ≤ look + least) :
    Repeats same look least (current >>= goOn) (current >>= goOnAgain) words := by
  intro stream result last shows ok
  have ok : goOn stream.current stream = .ok (result, last) := ok
  obtain ⟨front, rest, rfl, lastShows, enough, -⟩ :=
    goesOn stream.current stream.current shows.current_eq shows.current_eq stream result last shows ok
  refine ⟨front, rest, rfl, lastShows, enough, fun other longer alike stream' shows' => ?_⟩
  have covers : 0 + 1 ≤ look + front.length := by omega
  have text : stream'.current.text = (front ++ rest).headD "" := by
    rw [shows'.current_eq, head_of_take (take_append_of_take alike covers)]
  obtain ⟨front', rest', equal, lastShows', -, again⟩ :=
    goesOn stream.current stream'.current shows.current_eq text stream result last shows ok
  obtain rfl := lastShows.eq lastShows'
  obtain rfl := List.append_cancel_right equal
  exact again other longer alike stream' shows'

theorem repeats_advance {word : String} :
    Repeats (· = ·) 0 1 advance advance (word :: words) := by
  intro stream value next shows ok
  obtain ⟨rfl, rfl⟩ := Prod.mk.inj (Except.ok.inj ok)
  refine ⟨[word], words, rfl, shows.advance, Nat.le_refl _, fun other _ _ stream' shows' => ?_⟩
  exact ⟨(), stream'.advance, rfl, shows'.advance, rfl⟩

end Rules

/-! ### Alternatives -/

/-- A parser of a verdict takes some words off the front, and has the verdict whenever the first
`look` words behind these are the same. -/
def Decides
    (decision : Parser Bool)
    (verdict : Bool)
    (look : Nat)
    (front rest : List String) : Prop :=
  ∀ other, rest.take look = other.take look → Reads decision (front ++ other) other (· = verdict)

section Alternatives

variable
  {α : Type}
  {same : α → α → Prop}
  {look least : Nat}
  {words : List String}
  {test : String → Bool}
  {keyword : String}

theorem decides_sees {distance : Nat} :
    Decides (sees distance test) (test (words[distance]?.getD "")) (distance + 1) [] words := by
  intro other alike stream shows
  refine ⟨_, stream, rfl, shows, ?_⟩
  rw [shows.ahead_eq, getElem?_of_take alike (Nat.lt_succ_self distance)]
  rfl

theorem decides_accept {word : String} (passes : test word = true) :
    Decides (accept test) true 0 [word] words :=
  fun _ _ => reads_accept passes

theorem decides_refuse (fails : test (words.headD "") = false) :
    Decides (accept test) false 1 [] words := by
  intro other alike stream shows
  refine ⟨false, stream, ?_, shows, rfl⟩
  have same : (([] : List String) ++ other).headD "" = words.headD "" := (head_of_take alike).symm
  rw [accept, shows.current_eq, same, fails]
  rfl

theorem decides_keyword (passes : test (words.headD "") = true) :
    Decides (acceptWordBefore keyword test) true 1 [keyword] words := by
  intro other alike stream shows
  have next : (stream.ahead 1).text = words.headD "" := by
    rw [shows.ahead_eq, head_of_take alike, List.headD_eq_head?_getD, List.head?_eq_getElem?]
    rfl
  have seen : acceptWordBefore keyword test stream = acceptWord keyword stream := by
    change (if test (stream.ahead 1).text then acceptWord keyword else pure false) stream = _
    rw [next, passes]
    rfl
  rw [seen]
  exact reads_acceptWord stream shows

/-- Another word is no keyword, whatever stands behind it. -/
theorem decides_otherWord (different : words.headD "" ≠ keyword) :
    Decides (acceptWordBefore keyword test) false 1 [] words := by
  intro other alike stream shows
  refine ⟨false, stream, ?_, shows, rfl⟩
  change (if test (stream.ahead 1).text then acceptWord keyword else pure false) stream = _
  split
  · have same : (([] : List String) ++ other).headD "" = words.headD "" := (head_of_take alike).symm
    rw [acceptWord, accept, shows.current_eq, same, beq_false_of_ne different]
    rfl
  · rfl

theorem decides_noKeyword (fails : test (words[1]?.getD "") = false) :
    Decides (acceptWordBefore keyword test) false 2 [] words := by
  intro other alike stream shows
  refine ⟨false, stream, ?_, shows, rfl⟩
  have next : (stream.ahead 1).text = words[1]?.getD "" := by
    rw [shows.ahead_eq, getElem?_of_take alike Nat.one_lt_two]
    rfl
  change (if test (stream.ahead 1).text then acceptWord keyword else pure false) stream = _
  rw [next, fails]
  rfl

theorem Decides.weaken
    {decision : Parser Bool}
    {verdict : Bool}
    {nearLook : Nat}
    {front rest : List String}
    (decides : Decides decision verdict nearLook front rest)
    (fewer : nearLook ≤ look) :
    Decides decision verdict look front rest := by
  intro other alike
  have near := congrArg (List.take nearLook) alike
  rw [List.take_take, List.take_take, Nat.min_eq_left fewer] at near
  exact decides other near

theorem Decides.reads
    {decision : Parser Bool}
    {verdict : Bool}
    {front rest after : List String}
    {outcome : α → Prop}
    {yes no : Parser α}
    (decides : Decides decision verdict look front rest)
    (goesOn : Reads (if verdict then yes else no) rest after outcome) :
    Reads (do if ← decision then yes else no) (front ++ rest) after outcome := by
  refine (decides rest rfl).bind ?_
  rintro _ rfl
  exact goesOn

/-- A verdict leads to the same alternative again. -/
theorem Decides.repeats
    {decision : Parser Bool}
    {verdict : Bool}
    {nearLook farLeast : Nat}
    {front rest : List String}
    {yes no yesAgain noAgain : Parser α}
    (decides : Decides decision verdict nearLook front rest)
    (goesOn : Repeats same look farLeast (if verdict then yes else no)
      (if verdict then yesAgain else noAgain) rest)
    (bounds : nearLook ≤ look + farLeast ∧ least ≤ front.length + farLeast) :
    Repeats same look least (do if ← decision then yes else no)
      (do if ← decision then yesAgain else noAgain) (front ++ rest) := by
  intro stream result last shows ok
  obtain ⟨_, next, decided, nextShows, rfl⟩ := decides rest rfl stream shows
  rw [bind_ok decided] at ok
  obtain ⟨taken, left, rfl, lastShows, more, again⟩ := goesOn next result last nextShows ok
  refine ⟨front ++ taken, left, (List.append_assoc ..).symm, lastShows, ?_, ?_⟩
  · rw [List.length_append]
    omega
  · intro behind longer sameFront
    rw [List.append_assoc]
    have covers : nearLook ≤ look + taken.length := by omega
    refine (decides (taken ++ behind) (take_append_of_take sameFront covers)).bind ?_
    rintro _ rfl
    exact again behind longer sameFront

theorem Decides.repeats_verdict
    {decision : Parser Bool}
    {verdict : Bool}
    {front rest : List String}
    (decides : Decides decision verdict look front rest) :
    Repeats (· = ·) look front.length decision decision (front ++ rest) := by
  intro stream value next shows ok
  obtain ⟨_, last, decided, lastShows, rfl⟩ := decides rest rfl stream shows
  rw [ok] at decided
  obtain ⟨rfl, rfl⟩ := Prod.mk.inj (Except.ok.inj decided)
  refine ⟨front, rest, rfl, lastShows, Nat.le_refl _, fun other _ alike stream' shows' => ?_⟩
  obtain ⟨_, next', again, nextShows, rfl⟩ := decides other alike stream' shows'
  exact ⟨_, next', again, nextShows, rfl⟩

theorem repeats_sees {distance : Nat} :
    Repeats (· = ·) (distance + 1) 0 (sees distance test) (sees distance test) words :=
  Decides.repeats_verdict decides_sees

theorem repeats_accept (solid : test "" = false) :
    Repeats (· = ·) 1 0 (accept test) (accept test) words := by
  cases verdict : test (words.headD "") with
  | false => exact (decides_refuse verdict).repeats_verdict
  | true =>
      cases words with
      | nil =>
          rw [List.headD_nil, solid] at verdict
          cases verdict
      | cons word more =>
          exact (decides_accept verdict).repeats_verdict.weaken ⟨Nat.zero_le _, Nat.zero_le _⟩

variable {yes no yesAgain noAgain : Parser α}

theorem Repeats.ite_sees
    {distance : Nat}
    (seen : test (words[distance]?.getD "") = true → Repeats same look least yes yesAgain words)
    (unseen : test (words[distance]?.getD "") = false → Repeats same look least no noAgain words)
    (bounds : distance + 1 ≤ look + least) :
    Repeats same look least (do if ← sees distance test then yes else no)
      (do if ← sees distance test then yesAgain else noAgain) words := by
  refine Decides.repeats decides_sees ?_ ⟨bounds, Nat.le_add_left ..⟩
  cases verdict : test (words[distance]?.getD "") with
  | true => exact seen verdict
  | false => exact unseen verdict

theorem Repeats.ite_accept
    (yesLeast : Nat)
    (solid : test "" = false)
    (accepted : ∀ word more, words = word :: more → test word = true →
      Repeats same look yesLeast yes yesAgain more)
    (refused : test (words.headD "") = false → Repeats same look least no noAgain words)
    (bounds : 1 ≤ look + least ∧ least ≤ yesLeast + 1) :
    Repeats same look least (do if ← accept test then yes else no)
      (do if ← accept test then yesAgain else noAgain) words := by
  cases verdict : test (words.headD "") with
  | false =>
      exact (decides_refuse verdict).repeats (refused verdict) ⟨bounds.1, Nat.le_add_left ..⟩
  | true =>
      cases words with
      | nil =>
          rw [List.headD_nil, solid] at verdict
          cases verdict
      | cons word more =>
          refine (decides_accept verdict).repeats (accepted word more rfl verdict)
            ⟨Nat.zero_le _, ?_⟩
          rw [List.length_singleton]
          omega

theorem Repeats.ite_acceptWord
    (yesLeast : Nat)
    (solid : ("" == keyword) = false)
    (accepted : ∀ more, words = keyword :: more → Repeats same look yesLeast yes yesAgain more)
    (refused : words.headD "" ≠ keyword → Repeats same look least no noAgain words)
    (bounds : 1 ≤ look + least ∧ least ≤ yesLeast + 1) :
    Repeats same look least (do if ← acceptWord keyword then yes else no)
      (do if ← acceptWord keyword then yesAgain else noAgain) words := by
  refine Repeats.ite_accept yesLeast solid (fun word more whole passes => ?_) (fun fails => ?_) bounds
  · obtain rfl : word = keyword := eq_of_beq passes
    exact accepted more whole
  · exact refused fun equal => by
      rw [equal, beq_self_eq_true] at fails
      cases fails

theorem Repeats.ite_keyword
    (yesLeast : Nat)
    (nonempty : keyword ≠ "")
    (accepted : ∀ more, words = keyword :: more → test (more.headD "") = true →
      Repeats same look yesLeast yes yesAgain more)
    (refused : (words.headD "" = keyword → test (words[1]?.getD "") = false) →
      Repeats same look least no noAgain words)
    (bounds : 1 ≤ look + yesLeast ∧ least ≤ yesLeast + 1 ∧ 2 ≤ look + least) :
    Repeats same look least (do if ← acceptWordBefore keyword test then yes else no)
      (do if ← acceptWordBefore keyword test then yesAgain else noAgain) words := by
  by_cases isKeyword : words.headD "" = keyword
  · cases verdict : test (words[1]?.getD "") with
    | false =>
        exact (decides_noKeyword verdict).repeats (refused fun _ => verdict)
          ⟨bounds.2.2, Nat.le_add_left ..⟩
    | true =>
        cases words with
        | nil => exact absurd isKeyword.symm nonempty
        | cons word more =>
            obtain rfl : word = keyword := isKeyword
            have passes : test (more.headD "") = true := by
              rw [List.headD_eq_head?_getD, List.head?_eq_getElem?]
              exact verdict
            refine (decides_keyword passes).repeats (accepted more rfl passes) ⟨bounds.1, ?_⟩
            rw [List.length_singleton]
            omega
  · refine (decides_otherWord isKeyword).repeats (refused fun equal => absurd equal isKeyword)
      ⟨?_, Nat.le_add_left ..⟩
    omega

end Alternatives

/-! ### Loops -/

/-- Two rounds decide alike. -/
inductive Round.Alike {σ α : Type} (kept : σ → σ → Prop) (same : α → α → Prop) :
    Round σ α → Round σ α → Prop where
  | again {state other : σ} (alike : kept state other) :
      Alike kept same (.again state) (.again other)
  | done {result other : α} (alike : same result other) :
      Alike kept same (.done result) (.done other)

section Loops

variable
  {σ α : Type}
  {kept : σ → σ → Prop}
  {same : α → α → Prop}
  {look least bound : Nat}
  {round roundAgain : σ → Parser (Round σ α)}

theorem repeats_loopWithin
    (rounds : ∀ state other words, words.length ≤ bound → kept state other →
      Repeats (Round.Alike kept same) look least (round state) (roundAgain other) words)
    {count more : Nat}
    (fewer : count ≤ more)
    {words : List String}
    (short : words.length ≤ bound)
    {state other : σ}
    (alike : kept state other) :
    Repeats same look least (loopWithin round count state) (loopWithin roundAgain more other)
      words := by
  induction count generalizing more words state other with
  | zero => exact repeats_error fun stream => ⟨_, rfl⟩
  | succ count inductionHypothesis =>
      obtain ⟨more, rfl⟩ := Nat.exists_eq_add_one.mpr (Nat.zero_lt_of_lt fewer)
      refine (rounds state other words short alike).bind 0 ?_ ⟨Nat.le_refl _, Nat.le_refl _⟩
      rintro _ _ rest shorter (⟨kept⟩ | ⟨same⟩)
      · exact (inductionHypothesis (Nat.le_of_succ_le_succ fewer) (by omega) kept).weaken
          ⟨Nat.le_refl _, Nat.zero_le _⟩
      · exact repeats_pure same

/-- A parser with a bound on its rounds repeats with a larger bound, and more words behind give
a larger one. -/
theorem repeats_of_rounds
    {words : List String}
    {first second : Nat → Parser α}
    (within : ∀ count more, count ≤ more → words.length < more →
      Repeats same look least (first count) (second more) words) :
    Repeats same look least (fun stream => first stream.rounds stream)
      (fun stream => second stream.rounds stream) words := by
  intro stream value next shows ok
  have enough : words.length < stream.rounds := by
    rw [TokenStream.rounds, shows.length_following]
    omega
  obtain ⟨front, rest, rfl, nextShows, most, -⟩ :=
    within _ _ (Nat.le_refl _) enough stream value next shows ok
  refine ⟨front, rest, rfl, nextShows, most, fun other longer alike stream' shows' => ?_⟩
  have rounds : stream.rounds ≤ stream'.rounds := by
    rw [TokenStream.rounds, TokenStream.rounds, shows.length_following, shows'.length_following,
      List.length_append, List.length_append]
    omega
  obtain ⟨front', rest', equal, nextShows', -, again⟩ :=
    within _ _ rounds (Nat.lt_of_lt_of_le enough rounds) stream value next shows ok
  obtain rfl := nextShows.eq nextShows'
  obtain rfl := List.append_cancel_right equal
  exact again other longer alike stream' shows'

theorem repeats_loop
    {words : List String}
    (kept : σ → σ → Prop)
    (rounds : ∀ state other rest, rest.length ≤ words.length → kept state other →
      Repeats (Round.Alike kept same) look least (round state) (roundAgain other) rest)
    {state other : σ}
    (alike : kept state other) :
    Repeats same look least (loop round state) (loop roundAgain other) words :=
  repeats_of_rounds fun _ _ fewer _ => repeats_loopWithin rounds fewer (Nat.le_refl _) alike

end Loops

end Parser

end ProtoWire.Proto
