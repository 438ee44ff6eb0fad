import Purr.Fragment
import Purr.Nesting
import Purr.Proofs.Lexing.MaximalMunch

/-!
# Positions

Spans are byte positions, so what is cut at them has to be where they say. `Within` says that the
spans of lexemes are parts of a text, one after another. It holds of the lexemes of a text, it
passes to every run of them, and the fragment of a run satisfies it with the text that was cut out
and the positions counted from there.
-/

namespace Purr

set_option autoImplicit false

theorem Text.dropBytes?_append (before after : Text) :
    (before ++ after).dropBytes? before.byteLength = some after := by
  rw [Text.dropBytes?, Text.cutAt?_byteLength_append]
  rfl

theorem Text.dropBytes?_byteLength (text : Text) : text.dropBytes? text.byteLength = some [] := by
  simpa using dropBytes?_append text []

theorem Text.slice?_append {before word after : Text} {start stop : Nat}
    (first : start = before.byteLength) (last : stop = start + word.byteLength) :
    (before ++ word ++ after).slice? start stop = some word := by
  subst first last
  rw [Text.slice?, if_pos (by omega), List.append_assoc, Text.dropBytes?_append, Option.bind_some,
    show before.byteLength + word.byteLength - before.byteLength = word.byteLength by omega,
    Text.takeBytes?, Text.cutAt?_byteLength_append]
  rfl

theorem Text.slice?_eq_some_iff {text part : Text} {start stop : Nat} :
    text.slice? start stop = some part ↔ ∃ before after, text = before ++ part ++ after ∧
      start = before.byteLength ∧ stop = start + part.byteLength := by
  constructor
  · intro sliced
    unfold slice? at sliced
    split at sliced
    next ordered =>
      obtain ⟨behind, dropped, taken⟩ := Option.bind_eq_some_iff.1 sliced
      obtain ⟨⟨before, _⟩, first, rfl⟩ := Option.map_eq_some_iff.1 dropped
      obtain ⟨⟨_, after⟩, second, rfl⟩ := Option.map_eq_some_iff.1 taken
      obtain ⟨rfl, starts⟩ := cutAt?_eq_some_iff.1 first
      obtain ⟨same, width⟩ := cutAt?_eq_some_iff.1 second
      dsimp only at same width ⊢
      exact ⟨before, after, by rw [same, List.append_assoc], starts, by omega⟩
    next => cases sliced
  · rintro ⟨before, after, rfl, starts, stops⟩
    exact slice?_append starts stops

/-- A part of a text is cut out of a longer text as well, at a later position. -/
theorem Text.slice?_inside {text part : Text} {start stop : Nat} (before after : Text)
    (sliced : text.slice? start stop = some part) :
    (before ++ text ++ after).slice? (before.byteLength + start) (before.byteLength + stop) =
      some part := by
  obtain ⟨first, last, rfl, starts, stops⟩ := slice?_eq_some_iff.1 sliced
  refine slice?_eq_some_iff.2 ⟨before ++ first, last ++ after, by simp, ?_, ?_⟩
  · rw [starts, byteLength_append]
  · rw [stops, Nat.add_assoc]

/-- The spans of lexemes are parts of a text that starts at a position, one after another. -/
def Within : Nat → Text → List Lexeme → Prop
  | _, _, [] => True
  | start, text, lexeme :: later =>
      ∃ gap word after, text = gap ++ word ++ after ∧
        lexeme.span.start = start + gap.byteLength ∧
        lexeme.span.stop = lexeme.span.start + word.byteLength ∧
        Within lexeme.span.stop after later

theorem Lexer.Cut.within {start : Nat} {text : Text} {lexemes : List Lexeme}
    (cut : Lexer.Cut start text lexemes) : Within start text lexemes := by
  induction lexemes generalizing start text with
  | nil => trivial
  | cons lexeme later ih =>
      obtain ⟨gap, word, after, same, _, _, first, last, inner⟩ := cut.first
      exact ⟨gap, word, after, same, first, last, ih inner⟩

namespace Within

variable {start : Nat} {text : Text} {lexeme : Lexeme} {lexemes : List Lexeme}

theorem after_prefix (before : Text)
    (within : Within (start + before.byteLength) text lexemes) :
    Within start (before ++ text) lexemes := by
  cases lexemes with
  | nil => trivial
  | cons lexeme later =>
      obtain ⟨gap, word, after, rfl, first, last, inner⟩ := within
      refine ⟨before ++ gap, word, after, by simp, ?_, last, inner⟩
      rw [first, Text.byteLength_append, Nat.add_assoc]

theorem tail (within : Within start text (lexeme :: lexemes)) : Within start text lexemes := by
  obtain ⟨gap, word, after, rfl, first, last, inner⟩ := within
  apply after_prefix (gap ++ word)
  rw [Text.byteLength_append, ← Nat.add_assoc, ← first, ← last]
  exact inner

theorem append_left {earlier later : List Lexeme}
    (within : Within start text (earlier ++ later)) : Within start text earlier := by
  induction earlier generalizing start text with
  | nil => trivial
  | cons lexeme more ih =>
      obtain ⟨gap, word, after, same, first, last, inner⟩ := within
      exact ⟨gap, word, after, same, first, last, ih inner⟩

theorem append_right {earlier later : List Lexeme}
    (within : Within start text (earlier ++ later)) : Within start text later := by
  induction earlier generalizing start text with
  | nil => exact within
  | cons lexeme more ih => exact ih within.tail

theorem of_infix {run : List Lexeme} (part : run <:+: lexemes)
    (within : Within start text lexemes) : Within start text run := by
  obtain ⟨earlier, later, rfl⟩ := part
  exact within.append_left.append_right

theorem enclosed {first last : Lexeme} (within : Within start text lexemes)
    (head : lexemes.head? = some first) (final : lexemes.getLast? = some last) :
    ∃ before source after, text = before ++ source ++ after ∧
      first.span.start = start + before.byteLength ∧
      last.span.stop = first.span.start + source.byteLength ∧
      Within first.span.start source lexemes := by
  induction lexemes generalizing start text first with
  | nil => cases head
  | cons lexeme later ih =>
      obtain rfl : lexeme = first := Option.some.inj head
      obtain ⟨gap, word, after, rfl, starts, stops, inner⟩ := within
      cases later with
      | nil =>
          obtain rfl : lexeme = last := Option.some.inj final
          exact ⟨gap, word, after, rfl, starts, stops, [], word, [], by simp, rfl, stops, trivial⟩
      | cons next others =>
          rw [List.getLast?_cons_cons] at final
          obtain ⟨before, source, rest, rfl, nextStarts, lastStops, wholly⟩ := ih inner rfl final
          refine ⟨gap, word ++ before ++ source, rest, by simp, starts, ?_, [], word,
            before ++ source, by simp, rfl, stops, ?_⟩
          · rw [lastStops, nextStarts, stops]
            simp only [Text.byteLength_append]
            omega
          · rw [nextStarts] at wholly
            exact wholly.after_prefix before

theorem first_slices {passed ahead : Text}
    (within : Within passed.byteLength ahead (lexeme :: lexemes)) :
    ∃ gap word others, ahead = gap ++ word ++ others ∧
      (passed ++ ahead).slice? passed.byteLength lexeme.span.start = some gap ∧
      (passed ++ ahead).slice? lexeme.span.start lexeme.span.stop = some word ∧
      lexeme.span.stop = (passed ++ gap ++ word).byteLength ∧
      Within lexeme.span.stop others lexemes := by
  obtain ⟨gap, word, others, rfl, first, last, inner⟩ := within
  have wordStart : lexeme.span.start = (passed ++ gap).byteLength := by
    rw [first, Text.byteLength_append]
  refine ⟨gap, word, others, rfl, ?_, ?_, ?_, inner⟩
  · exact Text.slice?_eq_some_iff.2 ⟨passed, word ++ others, by simp, rfl, first⟩
  · exact Text.slice?_eq_some_iff.2 ⟨passed ++ gap, others, by simp, wordStart, last⟩
  · rw [last, wordStart, ← Text.byteLength_append]

theorem from_first (within : Within 0 text (lexeme :: lexemes)) :
    ∃ gap ahead, text = gap ++ ahead ∧ lexeme.span.start = gap.byteLength ∧
      Within gap.byteLength ahead (lexeme :: lexemes) := by
  obtain ⟨gap, word, after, rfl, starts, stops, inner⟩ := within
  rw [Nat.zero_add] at starts
  exact ⟨gap, word ++ after, List.append_assoc _ _ _, starts, [], word, after, rfl, starts, stops,
    inner⟩

theorem moveBack (offset : Nat) (within : Within (offset + start) text lexemes) :
    ∃ moved, lexemes.mapM (Lexeme.moveBack? offset) = some moved ∧ Within start text moved ∧
      moved.map Lexeme.token = lexemes.map Lexeme.token := by
  induction lexemes generalizing start text with
  | nil => exact ⟨[], rfl, trivial, rfl⟩
  | cons lexeme later ih =>
      obtain ⟨gap, word, after, same, first, last, inner⟩ := within
      have bound : offset ≤ lexeme.span.start := by omega
      have nonempty := lexeme.span.nonempty
      have rebased : offset + (lexeme.span.stop - offset) = lexeme.span.stop := by omega
      rw [← rebased] at inner
      obtain ⟨moved, found, follows, tokens⟩ := ih inner
      refine ⟨⟨lexeme.token, lexeme.span.start - offset, lexeme.span.stop - offset, by omega⟩ ::
        moved, ?_, ?_, ?_⟩
      · simp [List.mapM_cons, Lexeme.moveBack?, bound, found]
      · exact ⟨gap, word, after, same, by dsimp only; omega, by dsimp only; omega, follows⟩
      · rw [List.map_cons, List.map_cons, tokens]

end Within

/-- The lexemes of the fragment are parts of its source. -/
def Fragment.WellPlaced (fragment : Fragment) : Prop :=
  Within 0 fragment.source fragment.lexemes

/-- The fragment is cut out of a text, from a run of its lexemes, on a line with a number. -/
structure Fragment.CutFrom (text : Text) (lexemes : List Lexeme) (number : Nat)
    (fragment : Fragment) : Prop where
  placed : fragment.WellPlaced
  source : fragment.source <:+: text
  tokens : fragment.tokens ⊆ lexemes.map Lexeme.token
  line : fragment.line = number

/-- Every run of lexemes that are parts of a text makes a fragment. -/
theorem Fragment.ofLexemes?_of_within {text : Text} {lexemes run : List Lexeme} (number : Nat)
    (within : Within 0 text lexemes) (part : run <:+: lexemes) :
    ∃ fragment, ofLexemes? text run number = some fragment ∧
      fragment.CutFrom text lexemes number := by
  have subset := (part.map Lexeme.token).subset
  replace within := within.of_infix part
  cases run with
  | nil => exact ⟨empty number, rfl, trivial, List.nil_infix, List.nil_subset _, rfl⟩
  | cons first later =>
      obtain ⟨last, final⟩ : ∃ last, (first :: later).getLast? = some last :=
        ⟨_, List.getLast?_eq_some_getLast (List.cons_ne_nil _ _)⟩
      obtain ⟨before, source, after, rfl, starts, stops, inner⟩ := within.enclosed rfl final
      have rebased : Within (first.span.start + 0) source (first :: later) := inner
      obtain ⟨moved, found, follows, tokens⟩ := rebased.moveBack first.span.start
      have slice : (before ++ source ++ after).slice? first.span.start last.span.stop =
          some source :=
        Text.slice?_append (starts.trans (Nat.zero_add _)) stops
      rw [← tokens] at subset
      refine ⟨⟨source, moved, number⟩, ?_, follows, ⟨before, after, rfl⟩, subset, rfl⟩
      simp only [ofLexemes?, List.head?_cons, final, slice, found]

theorem exists_cons_of_splitFrom (separator : Token) (depth : Nat) (lexemes : List Lexeme) :
    ∃ piece pieces, splitFrom separator depth lexemes = piece :: pieces ∧
      piece <+: lexemes ∧ ∀ other ∈ pieces, other <:+: lexemes := by
  induction lexemes generalizing depth with
  | nil => exact ⟨[], [], rfl, List.nil_prefix, by simp⟩
  | cons lexeme rest ih =>
      rw [splitFrom]
      split
      next =>
        obtain ⟨piece, pieces, same, first, others⟩ := ih depth
        refine ⟨[], _, rfl, List.nil_prefix, ?_⟩
        intro other member
        rw [same] at member
        rcases List.mem_cons.1 member with rfl | later
        · exact List.infix_cons first.isInfix
        · exact List.infix_cons (others other later)
      next =>
        obtain ⟨piece, pieces, same, first, others⟩ := ih (depthAfter depth lexeme.token)
        refine ⟨lexeme :: piece, pieces, by rw [same]; rfl, ?_, ?_⟩
        · exact List.cons_prefix_cons.2 ⟨rfl, first⟩
        · intro other member
          exact List.infix_cons (others other member)

theorem infix_of_mem_splitTopLevel {separator : Token} {lexemes piece : List Lexeme}
    (member : piece ∈ splitTopLevel separator lexemes) : piece <:+: lexemes := by
  obtain ⟨first, pieces, same, start, others⟩ := exists_cons_of_splitFrom separator 0 lexemes
  rw [splitTopLevel, same] at member
  rcases List.mem_cons.1 member with rfl | later
  · exact start.isInfix
  · exact others piece later

theorem findFrom_lt {wanted : Token → Bool} {depth index : Nat} {lexemes : List Lexeme}
    (found : findFrom wanted depth lexemes = some index) : index < lexemes.length := by
  induction lexemes generalizing depth index with
  | nil => cases found
  | cons lexeme rest ih =>
      rw [findFrom] at found
      split at found
      next =>
        obtain rfl := Option.some.inj found
        exact Nat.succ_pos _
      next =>
        obtain ⟨inner, later, rfl⟩ := Option.map_eq_some_iff.1 found
        exact Nat.succ_lt_succ (ih later)

theorem closing?_lt {depth index : Nat} {lexemes : List Lexeme}
    (found : closing? depth lexemes = some index) : index < lexemes.length := by
  induction lexemes generalizing depth index with
  | nil => cases found
  | cons lexeme rest ih =>
      have later {inner : Nat} (found : (closing? inner rest).map (· + 1) = some index) :
          index < (lexeme :: rest).length := by
        obtain ⟨position, within, rfl⟩ := Option.map_eq_some_iff.1 found
        exact Nat.succ_lt_succ (ih within)
      unfold closing? at found
      split at found
      next => exact later found
      next =>
        split at found
        next => cases found
        next =>
          obtain rfl := Option.some.inj found
          exact Nat.succ_pos _
        next => exact later found
      next => exact later found

theorem matchingParen?_bounds {lexemes later : List Lexeme} {start close : Nat} {span : Span}
    (opening : lexemes.drop start = ⟨.leftParen, span⟩ :: later)
    (found : matchingParen? lexemes start = some close) :
    start < close ∧ close < lexemes.length := by
  rw [matchingParen?, opening] at found
  obtain ⟨index, inner, rfl⟩ := Option.map_eq_some_iff.1 found
  have upper := closing?_lt inner
  have length := congrArg List.length opening
  rw [List.length_drop] at length
  obtain ⟨before, _, rfl⟩ := Option.map_eq_some_iff.1 (inner : (closing? 1 later).map (· + 1) = _)
  omega

theorem between?_of_bounds {α : Type} (items : List α) {start stop : Nat} (ordered : start ≤ stop)
    (bounded : stop ≤ items.length) :
    ∃ part, between? items start stop = some part ∧ part <:+: items := by
  refine ⟨_, if_pos ⟨ordered, bounded⟩, ?_⟩
  exact (List.drop_suffix _ _).isInfix.trans (List.take_prefix _ _).isInfix

end Purr
