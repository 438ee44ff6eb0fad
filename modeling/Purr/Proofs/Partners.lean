import Purr.Proofs.Parentheses

/-!
# Partners

The partner of an opening parenthesis is the closing one behind balanced tokens, and there is at
most one. In a pair the depth is greater than before it, and behind the pair it is the same again,
so that pairs are nested or disjoint. In balanced lexemes a place is at the top level if no pair
encloses it.
-/

namespace Purr

set_option autoImplicit false

/-- There are as many closing parentheses as opening ones, and in no beginning more. -/
structure ParensBalanced (tokens : List Token) : Prop where
  totals : tokens.count .leftParen = tokens.count .rightParen
  beginnings : ∀ front, front <+: tokens → front.count .rightParen ≤ front.count .leftParen

theorem forall_beginning_cons {bound : List Token → Prop} {token : Token} {rest : List Token} :
    (∀ front, front <+: token :: rest → bound front) ↔
      bound [] ∧ ∀ front, front <+: rest → bound (token :: front) := by
  constructor
  · intro bounded
    refine ⟨bounded [] List.nil_prefix, fun front part => bounded _ ?_⟩
    exact List.cons_prefix_cons.2 ⟨rfl, part⟩
  · rintro ⟨empty, longer⟩ front part
    rcases List.prefix_cons_iff.1 part with rfl | ⟨later, rfl, inner⟩
    · exact empty
    · exact longer later inner

/-- What is counted one by one is the difference of the totals, if no beginning closes more than is
open. -/
theorem openParens?_eq_some_iff {depth reached : Nat} {tokens : List Token} :
    openParens? depth tokens = some reached ↔
      depth + tokens.count .leftParen = reached + tokens.count .rightParen ∧
      ∀ front, front <+: tokens → front.count .rightParen ≤ depth + front.count .leftParen := by
  induction tokens generalizing depth with
  | nil => simp [openParens?]
  | cons token rest ih =>
      rw [forall_beginning_cons]
      cases token with
      | leftParen =>
          have moved (count : Nat) : depth + 1 + count = depth + (count + 1) := by omega
          simp [openParens?, ih, moved]
      | rightParen =>
          cases depth with
          | zero =>
              simp only [openParens?, reduceCtorEq, false_iff]
              rintro ⟨_, _, bounded⟩
              simpa using bounded [] List.nil_prefix
          | succ depth =>
              have moved (count : Nat) : depth + 1 + count = depth + count + 1 := by omega
              simp [openParens?, ih, moved, ← Nat.add_assoc]
      | _ => simp [openParens?, ih]

theorem paired_iff (tokens : List Token) : Paired tokens ↔ ParensBalanced tokens := by
  rw [Paired, openParens?_eq_some_iff]
  simp only [Nat.zero_add]
  exact ⟨fun counted => ⟨counted.1, counted.2⟩, fun balanced => ⟨balanced.1, balanced.2⟩⟩

instance (tokens : List Token) : Decidable (ParensBalanced tokens) :=
  have : Decidable (Paired tokens) := inferInstanceAs (Decidable (openParens? 0 tokens = some 0))
  decidable_of_iff (Paired tokens) (paired_iff tokens)

def tokensBetween (lexemes : List Lexeme) (opening close : Nat) : List Token :=
  ((lexemes.drop (opening + 1)).take (close - (opening + 1))).map Lexeme.token

/-- An opening parenthesis, a closing one behind it, and balanced tokens in between. -/
structure Partners (lexemes : List Lexeme) (opening close : Nat) : Prop where
  opens : tokenAt? lexemes opening = some .leftParen
  ordered : opening < close
  closes : tokenAt? lexemes close = some .rightParen
  balanced : ParensBalanced (tokensBetween lexemes opening close)

theorem lt_of_tokenAt? {lexemes : List Lexeme} {index : Nat} {token : Token}
    (found : tokenAt? lexemes index = some token) : index < lexemes.length := by
  obtain ⟨lexeme, stands, rfl⟩ := Option.map_eq_some_iff.1 found
  exact (List.getElem?_eq_some_iff.1 stands).1

theorem drop_of_tokenAt? {lexemes : List Lexeme} {index : Nat} {token : Token}
    (found : tokenAt? lexemes index = some token) :
    ∃ span, lexemes.drop index = ⟨token, span⟩ :: lexemes.drop (index + 1) := by
  obtain ⟨lexeme, stands, rfl⟩ := Option.map_eq_some_iff.1 found
  obtain ⟨within, rfl⟩ := List.getElem?_eq_some_iff.1 stands
  exact ⟨_, List.drop_eq_getElem_cons within⟩

theorem map_succ_map_add (found : Option Nat) (start : Nat) :
    (found.map (· + 1)).map (· + start) = found.map (· + (start + 1)) := by
  cases found with
  | none => rfl
  | some index => simp [Nat.add_assoc, Nat.add_comm 1]

theorem closing?_cons {lexeme : Lexeme} (plain : isParen lexeme.token = false) (depth : Nat)
    (rest : List Lexeme) : closing? depth (lexeme :: rest) = (closing? depth rest).map (· + 1) := by
  obtain ⟨token, span⟩ := lexeme
  cases token with
  | leftParen | rightParen => cases plain
  | _ => simp [closing?]

/-- Parentheses are closed by the closing one before which all but the first are. -/
theorem closing?_eq_some_iff {depth index : Nat} {lexemes : List Lexeme} :
    closing? (depth + 1) lexemes = some index ↔ tokenAt? lexemes index = some .rightParen ∧
      openParens? depth ((lexemes.take index).map Lexeme.token) = some 0 := by
  constructor
  · intro found
    obtain ⟨inner, close, after, rfl, rfl, closed⟩ := exists_of_closing? found
    simp [tokenAt?, closed]
  · rintro ⟨closes, closed⟩
    have within := Nat.le_of_lt (lt_of_tokenAt? closes)
    obtain ⟨span, behind⟩ := drop_of_tokenAt? closes
    have found := closing?_append (lexemes.drop index) closed
    rw [List.take_append_drop, behind] at found
    simpa [closing?, Nat.min_eq_left within] using found

theorem matchingParen?_opening {lexemes : List Lexeme} {opening : Nat}
    (opens : tokenAt? lexemes opening = some .leftParen) :
    matchingParen? lexemes opening =
      (closing? 1 (lexemes.drop (opening + 1))).map (· + (opening + 1)) := by
  obtain ⟨span, behind⟩ := drop_of_tokenAt? opens
  rw [matchingParen?, behind, closing?, map_succ_map_add]

theorem matchingParen?_eq_some_iff {lexemes : List Lexeme} {opening close : Nat}
    (opens : tokenAt? lexemes opening = some .leftParen) :
    matchingParen? lexemes opening = some close ↔ Partners lexemes opening close := by
  rw [matchingParen?_opening opens, Option.map_eq_some_iff]
  constructor
  · rintro ⟨index, found, rfl⟩
    obtain ⟨closes, closed⟩ := closing?_eq_some_iff.1 found
    refine ⟨opens, by omega, ?_, ?_⟩
    · simpa [tokenAt?, Nat.add_comm] using closes
    · apply (paired_iff _).1
      simpa [tokensBetween, Paired] using closed
  · intro pair
    have ordered := pair.ordered
    refine ⟨close - (opening + 1), closing?_eq_some_iff.2 ⟨?_, (paired_iff _).2 pair.balanced⟩, ?_⟩
    · rw [← pair.closes, tokenAt?, tokenAt?, List.getElem?_drop]
      congr 2
      omega
    · omega

/-- No parenthesis stands from one index to before another. -/
def PlainBetween (lexemes : List Lexeme) (start stop : Nat) : Prop :=
  ∀ index < stop, start ≤ index → ∀ token ∈ tokenAt? lexemes index, isParen token = false

instance (lexemes : List Lexeme) (start stop : Nat) :
    Decidable (PlainBetween lexemes start stop) :=
  inferInstanceAs (Decidable (∀ index < stop, start ≤ index →
    ∀ token ∈ tokenAt? lexemes index, isParen token = false))

theorem matchingParen?_succ {lexemes : List Lexeme} {index : Nat}
    (plain : ∀ token ∈ tokenAt? lexemes index, isParen token = false) :
    matchingParen? lexemes index = matchingParen? lexemes (index + 1) := by
  cases found : tokenAt? lexemes index with
  | none =>
      have outside : lexemes.length ≤ index := by simpa [tokenAt?] using found
      simp [matchingParen?, List.drop_eq_nil_of_le, outside, Nat.le_succ_of_le outside, closing?]
  | some token =>
      obtain ⟨span, behind⟩ := drop_of_tokenAt? found
      rw [matchingParen?, behind, closing?_cons (plain token found), map_succ_map_add,
        matchingParen?]

theorem matchingParen?_skip {lexemes : List Lexeme} {start stop : Nat} (ordered : start ≤ stop)
    (plain : PlainBetween lexemes start stop) :
    matchingParen? lexemes start = matchingParen? lexemes stop := by
  induction ordered with
  | refl => rfl
  | @step stop ordered ih =>
      rw [ih fun index upper lower => plain index (Nat.lt_succ_of_lt upper) lower]
      exact matchingParen?_succ (plain stop stop.lt_succ_self ordered)

theorem depthAt_behind {lexemes : List Lexeme} {opening : Nat}
    (opens : tokenAt? lexemes opening = some .leftParen) (count : Nat) :
    depthAt 0 lexemes (opening + 1 + count) =
      depthAt (depthAt 0 lexemes opening + 1) (lexemes.drop (opening + 1)) count := by
  rw [depthAt_add, depthAt_next opens]
  rfl

namespace Partners

variable {lexemes : List Lexeme} {opening close : Nat}

theorem depthAt_lt (pair : Partners lexemes opening close) {index : Nat} (lower : opening < index)
    (upper : index ≤ close) : depthAt 0 lexemes opening < depthAt 0 lexemes index := by
  obtain ⟨count, rfl⟩ := Nat.exists_eq_add_of_le lower
  have closed := (paired_iff _).2 pair.balanced
  have parts : close - (opening + 1) = count + (close - (opening + 1 + count)) := by omega
  rw [tokensBetween, parts, List.take_add, List.map_append] at closed
  obtain ⟨inner, opened⟩ := exists_openParens?_of_append closed
  have deeper := openParens?_add opened (depthAt 0 lexemes opening + 1)
  rw [Nat.zero_add] at deeper
  rw [depthAt_behind pair.opens, depthAt_of_openParens? deeper]
  omega

theorem depthAt_close (pair : Partners lexemes opening close) :
    depthAt 0 lexemes (close + 1) = depthAt 0 lexemes opening := by
  have closed := openParens?_add ((paired_iff _).2 pair.balanced) (depthAt 0 lexemes opening + 1)
  have ordered := pair.ordered
  have whole : opening + 1 + (close - (opening + 1)) = close := by omega
  rw [Nat.zero_add] at closed
  rw [depthAt_next pair.closes, ← whole, depthAt_behind pair.opens, depthAt_of_openParens? closed]
  simp [depthAfter]

theorem nested (pair : Partners lexemes opening close) {start stop : Nat}
    (other : Partners lexemes start stop) (lower : opening < start) (upper : start < close) :
    stop < close := by
  have inside := pair.depthAt_lt lower (Nat.le_of_lt upper)
  by_contra late
  rcases Nat.eq_or_lt_of_le (Nat.le_of_not_lt late) with rfl | later
  · have same := pair.depthAt_close.symm.trans other.depthAt_close
    omega
  · have around := other.depthAt_lt (Nat.lt_succ_of_lt upper) (Nat.succ_le_of_lt later)
    rw [pair.depthAt_close] at around
    omega

theorem ordered_or_nested (pair : Partners lexemes opening close) {start stop : Nat}
    (other : Partners lexemes start stop) (lower : opening < start) :
    stop < close ∨ close < start := by
  rcases Nat.lt_trichotomy start close with inside | rfl | behind
  · exact .inl (pair.nested other lower inside)
  · have same := pair.closes.symm.trans other.opens
    cases same
  · exact .inr behind

end Partners

def IsPair (lexemes : List Lexeme) (opening close : Nat) : Prop :=
  tokenAt? lexemes opening = some .leftParen ∧ matchingParen? lexemes opening = some close

def InPair (lexemes : List Lexeme) (index : Nat) : Prop :=
  ∃ opening close, IsPair lexemes opening close ∧ opening < index ∧ index < close

theorem IsPair.partners {lexemes : List Lexeme} {opening close : Nat}
    (pair : IsPair lexemes opening close) : Partners lexemes opening close :=
  (matchingParen?_eq_some_iff pair.1).1 pair.2

/-- Two pairs are nested or disjoint. -/
theorem IsPair.nested_or_disjoint {lexemes : List Lexeme} {first close second stop : Nat}
    (pair : IsPair lexemes first close) (other : IsPair lexemes second stop)
    (distinct : (first, close) ≠ (second, stop)) :
    first < second ∧ stop < close ∨ second < first ∧ close < stop ∨
      close < second ∨ stop < first := by
  rcases Nat.lt_trichotomy first second with lower | rfl | higher
  · rcases pair.partners.ordered_or_nested other.partners lower with inside | behind
    · exact .inl ⟨lower, inside⟩
    · exact .inr (.inr (.inl behind))
  · have same : close = stop := Option.some.inj (pair.2.symm.trans other.2)
    subst same
    exact absurd rfl distinct
  · rcases other.partners.ordered_or_nested pair.partners higher with inside | behind
    · exact .inr (.inl ⟨higher, inside⟩)
    · exact .inr (.inr (.inr behind))

/-- A parenthesis among the lexemes stays open, and behind it as many others as given. -/
def Leaves (inner : Nat) (lexemes : List Lexeme) : Prop :=
  ∃ before opening after, lexemes = before ++ ⟨.leftParen, opening⟩ :: after ∧
    openParens? 0 (after.map Lexeme.token) = some inner

theorem Leaves.cons {inner : Nat} {rest : List Lexeme} (leaves : Leaves inner rest)
    (lexeme : Lexeme) : Leaves inner (lexeme :: rest) := by
  obtain ⟨before, opening, after, rfl, opened⟩ := leaves
  exact ⟨lexeme :: before, opening, after, rfl, opened⟩

/-- The outermost parenthesis that is open behind lexemes was open before them or is one of them. -/
theorem outermost_open {depth inner : Nat} {lexemes : List Lexeme}
    (opened : openParens? depth (lexemes.map Lexeme.token) = some (inner + 1)) :
    (∃ lower, depth = lower + 1 ∧ openParens? lower (lexemes.map Lexeme.token) = some inner) ∨
      Leaves inner lexemes := by
  induction lexemes generalizing depth with
  | nil =>
      cases opened
      exact .inl ⟨inner, rfl, rfl⟩
  | cons lexeme rest ih =>
      have later (leaves : Leaves inner rest) := leaves.cons lexeme
      obtain ⟨token, span⟩ := lexeme
      cases token with
      | leftParen =>
          rcases ih opened with ⟨lower, same, further⟩ | leaves
          · cases same
            -- The parenthesis itself is the outermost one if none was open before it.
            cases depth with
            | zero => exact .inr ⟨[], span, rest, rfl, further⟩
            | succ depth => exact .inl ⟨depth, rfl, further⟩
          · exact .inr (later leaves)
      | rightParen =>
          cases depth with
          | zero => cases opened
          | succ depth =>
              refine (ih opened).imp ?_ later
              rintro ⟨lower, rfl, further⟩
              exact ⟨lower + 1, rfl, further⟩
      | _ => exact (ih opened).imp id later

theorem closing?_isSome {depth : Nat} {lexemes : List Lexeme}
    (closed : openParens? (depth + 1) (lexemes.map Lexeme.token) = some 0) :
    (closing? (depth + 1) lexemes).isSome = true := by
  induction lexemes generalizing depth with
  | nil => cases closed
  | cons lexeme rest ih =>
      obtain ⟨token, span⟩ := lexeme
      cases token with
      | rightParen =>
          cases depth with
          | zero => rfl
          | succ depth => simpa [closing?] using ih closed
      | _ => simpa [closing?] using ih closed

theorem isPair_of_closing? {after rest : List Lexeme} {inner position : Nat}
    (before : List Lexeme) (opening : Span)
    (opened : openParens? 0 (after.map Lexeme.token) = some inner)
    (ends : closing? (inner + 1) rest = some position) :
    IsPair (before ++ ⟨.leftParen, opening⟩ :: (after ++ rest)) before.length
      (position + after.length + (before.length + 1)) := by
  have opens : tokenAt? (before ++ ⟨.leftParen, opening⟩ :: (after ++ rest)) before.length =
      some .leftParen := by
    simp [tokenAt?]
  have behind : (before ++ ⟨.leftParen, opening⟩ :: (after ++ rest)).drop (before.length + 1) =
      after ++ rest := by
    simp
  refine ⟨opens, ?_⟩
  rw [matchingParen?_opening opens, behind, closing?_append _ opened, ends]
  rfl

section

variable {lexemes : List Lexeme} {index : Nat}

theorem InPair.depthAt_ne_zero (enclosed : InPair lexemes index) :
    depthAt 0 lexemes index ≠ 0 := by
  obtain ⟨opening, close, pair, lower, upper⟩ := enclosed
  have deeper := pair.partners.depthAt_lt lower (Nat.le_of_lt upper)
  omega

/-- In balanced lexemes a place where a parenthesis is open is enclosed by the outermost pair. -/
theorem inPair_of_depthAt {token : Token} (balanced : Paired (lexemes.map Lexeme.token))
    (found : tokenAt? lexemes index = some token) (plain : isParen token = false)
    (level : depthAt 0 lexemes index ≠ 0) : InPair lexemes index := by
  obtain ⟨span, behind⟩ := drop_of_tokenAt? found
  rw [Paired, ← List.take_append_drop index lexemes, List.map_append] at balanced
  obtain ⟨reached, opened⟩ := exists_openParens?_of_append balanced
  have closed : openParens? reached ((lexemes.drop index).map Lexeme.token) = some 0 := by
    rwa [openParens?_append, opened] at balanced
  rw [depthAt_of_openParens? opened] at level
  obtain ⟨reached, rfl⟩ := Nat.exists_eq_succ_of_ne_zero level
  rcases outermost_open opened with ⟨_, impossible, _⟩ | ⟨before, opening, after, front, inner⟩
  · cases impossible
  · obtain ⟨position, ends⟩ := Option.isSome_iff_exists.1 (closing?_isSome closed)
    have pair := isPair_of_closing? before opening inner ends
    rw [← List.cons_append, ← List.append_assoc, ← front, List.take_append_drop] at pair
    have place : index = before.length + (after.length + 1) := by
      have within := Nat.le_of_lt (lt_of_tokenAt? found)
      have width := congrArg List.length front
      rwa [List.length_take_of_le within, List.length_append, List.length_cons] at width
    -- No parenthesis stands at the index itself, so the pair ends behind it.
    have later : 0 < position := by
      rw [behind, closing?_cons plain] at ends
      obtain ⟨next, _, rfl⟩ := Option.map_eq_some_iff.1 ends
      exact next.succ_pos
    exact ⟨before.length, _, pair, by omega, by omega⟩

theorem depthAt_eq_zero_iff {token : Token} (balanced : ParensBalanced (lexemes.map Lexeme.token))
    (found : tokenAt? lexemes index = some token) (plain : isParen token = false) :
    depthAt 0 lexemes index = 0 ↔ ¬ InPair lexemes index := by
  constructor
  · intro level enclosed
    exact enclosed.depthAt_ne_zero level
  · intro outside
    by_contra level
    exact outside (inPair_of_depthAt ((paired_iff _).2 balanced) found plain level)

end

/-- From a place the partner of the first opening parenthesis is found if it has one, and nothing if
it has none, if a closing parenthesis comes first, or if there is no parenthesis. Pairs are nested
or disjoint. What a search finds and where pieces start depends on where the depth is zero, and in
balanced lexemes it is so outside of all pairs. -/
theorem parentheses_pair_up (lexemes : List Lexeme) :
    (∀ start opening, start ≤ opening → PlainBetween lexemes start opening →
      tokenAt? lexemes opening = some .leftParen →
      (∀ close, matchingParen? lexemes start = some close ↔ Partners lexemes opening close) ∧
      (matchingParen? lexemes start = none ↔ ¬ ∃ close, Partners lexemes opening close)) ∧
    (∀ start close, start ≤ close → PlainBetween lexemes start close →
      tokenAt? lexemes close = some .rightParen → matchingParen? lexemes start = none) ∧
    (∀ start, PlainBetween lexemes start lexemes.length → matchingParen? lexemes start = none) ∧
    (∀ first close second stop, IsPair lexemes first close → IsPair lexemes second stop →
      (first, close) ≠ (second, stop) →
      first < second ∧ stop < close ∨ second < first ∧ close < stop ∨
        close < second ∨ stop < first) ∧
    (∀ wanted, findTopLevel? wanted lexemes = (List.range lexemes.length).find?
      (exposed (fun token => !isParen token && wanted token) 0 lexemes)) ∧
    (∀ separator, isParen separator = false →
      starts (splitTopLevel separator lexemes) = 0 ::
        ((List.range lexemes.length).filter
          (exposed (·.equals separator) 0 lexemes)).map (· + 1)) ∧
    (ParensBalanced (lexemes.map Lexeme.token) → ∀ index token,
      tokenAt? lexemes index = some token → isParen token = false →
      (depthAt 0 lexemes index = 0 ↔ ¬ InPair lexemes index)) := by
  refine ⟨?_, ?_, ?_, ?_, ?_, ?_, ?_⟩
  · intro start opening ordered plain opens
    have partner (close : Nat) :
        matchingParen? lexemes start = some close ↔ Partners lexemes opening close := by
      rw [matchingParen?_skip ordered plain, matchingParen?_eq_some_iff opens]
    refine ⟨partner, ?_⟩
    rw [Option.eq_none_iff_forall_ne_some, not_exists]
    exact forall_congr' fun close => not_congr (partner close)
  · intro start close ordered plain closes
    obtain ⟨span, behind⟩ := drop_of_tokenAt? closes
    rw [matchingParen?_skip ordered plain, matchingParen?, behind]
    rfl
  · intro start plain
    rcases Nat.le_total start lexemes.length with ordered | beyond
    · rw [matchingParen?_skip ordered plain, matchingParen?, List.drop_length]
      rfl
    · rw [matchingParen?, List.drop_eq_nil_of_le beyond]
      rfl
  · intro first close second stop pair other distinct
    exact pair.nested_or_disjoint other distinct
  · exact fun wanted => findFrom_eq_find? wanted 0 lexemes
  · exact fun separator plain => starts_splitFrom plain 0 lexemes
  · exact fun balanced index token found plain => depthAt_eq_zero_iff balanced found plain

def nestedParens : List Lexeme :=
  singles [.name ['a'], .operator .add, .leftParen, .name ['b'], .operator .mul, .leftParen,
    .name ['c'], .rightParen, .rightParen, .comma, .leftParen, .name ['d'], .rightParen]

theorem nestedParens_pair_up :
    matchingParen? nestedParens 0 = some 8 ∧ matchingParen? nestedParens 6 = none ∧
    matchingParen? nestedParens 13 = none ∧ (5 < 2 ∧ 8 < 7 ∨ 2 < 5 ∧ 7 < 8 ∨ 7 < 2 ∨ 8 < 5) ∧
    starts (splitTopLevel .comma nestedParens) = [0, 10] ∧
    ¬ InPair nestedParens 9 ∧ InPair nestedParens 6 := by
  obtain ⟨found, closed, missing, pairs, _, cut, outside⟩ := parentheses_pair_up nestedParens
  have balanced : ParensBalanced (nestedParens.map Lexeme.token) := by decide
  have outer : Partners nestedParens 2 8 := ⟨rfl, by decide, rfl, by decide⟩
  refine ⟨?_, ?_, ?_, ?_, ?_, ?_, ?_⟩
  · exact ((found 0 2 (by decide) (by decide) rfl).1 8).2 outer
  · exact closed 6 7 (by decide) (by decide) rfl
  · exact missing 13 (by decide)
  · exact pairs 5 7 2 8 ⟨rfl, rfl⟩ ⟨rfl, rfl⟩ (by decide)
  · exact (cut .comma rfl).trans (by decide)
  · exact (outside balanced 9 _ rfl rfl).1 rfl
  · by_contra free
    have level := (outside balanced 6 _ rfl rfl).2 free
    cases level

end Purr
