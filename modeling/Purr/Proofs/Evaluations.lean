import Purr.Evaluation
import Purr.Proofs.Parsing.Mentions
import Purr.Proofs.Positions
import Purr.Proofs.Scopes

/-!
# What evaluation does

An evaluation reports faults, calls functions of its scope and gives a result, and does nothing
else: it is `Built` of these. It reports faults of its own line only, and a fault names nothing but
what stands in the fragment. So does everything that it looks up in its scope; to say so, an
evaluation is built in two scopes at once, which need not say the same of any other name. No cut
that it makes is out of range, since the fragment is well placed.

`Run.Keeps` is an invariant of a run together with a bound on the reasons for which it may halt.
What is built keeps every property of the console that reports and calls keep.
-/

namespace Purr

set_option autoImplicit false

/-- From every state with a property the run reaches a state with it, and if it halts, then for an
allowed reason. -/
def Run.Keeps {σ α : Type} (steady : σ → Prop) (allowed : Halt → Prop) (run : Run σ α) : Prop :=
  ∀ state, steady state → steady (run state).2 ∧ ∀ halt, (run state).1 = .error halt → allowed halt

namespace Run.Keeps

variable {σ α β : Type} {steady : σ → Prop} {allowed : Halt → Prop}

theorem pure (result : α) : Run.Keeps steady allowed (Pure.pure result : Run σ α) := by
  intro state holds
  refine ⟨holds, ?_⟩
  intro halt halted
  cases halted

theorem halt {reason : Halt} (fine : allowed reason) :
    Run.Keeps steady allowed (Run.halt reason : Run σ α) := by
  intro state holds
  refine ⟨holds, ?_⟩
  intro halt halted
  cases halted
  exact fine

theorem bind {first : Run σ α} {next : α → Run σ β} (before : first.Keeps steady allowed)
    (after : ∀ result, (next result).Keeps steady allowed) :
    (first >>= next).Keeps steady allowed := by
  intro state holds
  have ⟨reached, reasons⟩ := before state holds
  rw [Run.bind_apply]
  cases ran : first state with
  | mk result state' =>
      rw [ran] at reached reasons
      cases result with
      | ok value => exact after value state' reached
      | error halt =>
          refine ⟨reached, ?_⟩
          intro other halted
          cases halted
          exact reasons halt rfl

theorem modify {change : σ → σ} (kept : ∀ state, steady state → steady (change state)) :
    Run.Keeps steady allowed (Run.modify change) := by
  intro state holds
  refine ⟨kept state holds, ?_⟩
  intro halt halted
  cases halted

end Run.Keeps

/-- What may be reported, for which lines and which faults, and the names that may be looked up and
bound. -/
structure Reports where
  lines : Nat → Prop
  faults : Fault → Prop
  names : Text → Prop

namespace Reports

def any : Reports := ⟨fun _ => True, fun _ => True, fun _ => True⟩

/-- The names among tokens on a line may be looked up, and the faults that the tokens can have may
be reported: unknown names among them, and a syntax error of them. -/
structure Covers (reports : Reports) (line : Nat) (tokens : List Token) : Prop where
  line : reports.lines line
  names : ∀ name, .name name ∈ tokens → reports.names name
  «variable» : ∀ name, .name name ∈ tokens → reports.faults (.unknownVariable name)
  function : ∀ name, .name name ∈ tokens → reports.faults (.unknownFunction name)
  malformed : ∀ fault : SyntaxFault, fault.Among tokens → reports.faults (.malformed fault)

theorem Covers.mono {reports : Reports} {line : Nat} {tokens part : List Token}
    (covers : reports.Covers line tokens) (subset : part ⊆ tokens) : reports.Covers line part where
  line := covers.line
  names name member := covers.names name (subset member)
  «variable» name member := covers.variable name (subset member)
  function name member := covers.function name (subset member)
  malformed fault among := covers.malformed fault (among.mono subset)

theorem Covers.part {reports : Reports} {line : Nat} {lexemes part : List Lexeme}
    (covers : reports.Covers line (lexemes.map Lexeme.token)) (within : part <:+: lexemes) :
    reports.Covers line (part.map Lexeme.token) :=
  covers.mono (within.map Lexeme.token).subset

theorem covers_any (line : Nat) (tokens : List Token) : any.Covers line tokens :=
  ⟨trivial, fun _ _ => trivial, fun _ _ => trivial, fun _ _ => trivial, fun _ _ => trivial⟩

end Reports

structure Fragment.Fits (reports : Reports) (fragment : Fragment) : Prop where
  placed : fragment.WellPlaced
  covers : reports.Covers fragment.line fragment.tokens
  condition : reports.faults (.invalidCondition fragment.source)

theorem Fragment.WellPlaced.fits_any {fragment : Fragment} (placed : fragment.WellPlaced) :
    fragment.Fits .any :=
  ⟨placed, Reports.covers_any _ _, trivial⟩

namespace Evaluation

/-- Two evaluations, each with a scope of its own, that do nothing but report what may be reported,
call functions of their scopes, and give a result, and do so in the same way. How functions are
carried out is left open. -/
inductive Paired (reports : Reports) (scope other : Scope) :
    {α : Type} → (Invoke → Run Console α) → (Invoke → Run Console α) → Prop
  | pure {α : Type} (result : α) :
      Paired reports scope other (fun _ => Pure.pure result) fun _ => Pure.pure result
  | report {line : Nat} {fault : Fault} : reports.lines line → reports.faults fault →
      Paired reports scope other (fun _ => Console.report line fault)
        fun _ => Console.report line fault
  | call {name : Text} {function : Function} (values : List Value) : reports.names name →
      scope.functions.find? name = some function →
      Paired reports scope other (fun invoke => invoke function values scope)
        fun invoke => invoke function values other
  | bind {α β : Type} {first second : Invoke → Run Console α}
      {next after : Invoke → α → Run Console β} : Paired reports scope other first second →
      (∀ result, Paired reports scope other (fun invoke => next invoke result)
        fun invoke => after invoke result) →
      Paired reports scope other (fun invoke => first invoke >>= next invoke)
        fun invoke => second invoke >>= after invoke

/-- An evaluation in any scope: what it does depends on what the scope says of names that may be
looked up, and on nothing else. -/
def Built (reports : Reports) {α : Type} (evaluation : Invoke → Scope → Run Console α) : Prop :=
  ∀ scope other : Scope, (∀ name, reports.names name → scope.Alike name other) →
    Paired reports scope other (fun invoke => evaluation invoke scope)
      fun invoke => evaluation invoke other

/-- Reports, and calls of the functions of a scope, keep a property of the console and halt for
allowed reasons only. -/
structure Handles (reports : Reports) (steady : Console → Prop) (allowed : Halt → Prop)
    (invoke : Invoke) (scope : Scope) : Prop where
  report : ∀ line fault, reports.lines line → reports.faults fault →
    (Console.report line fault).Keeps steady allowed
  invoke : ∀ name function values, scope.functions.find? name = some function →
    (invoke function values scope).Keeps steady allowed

variable {reports : Reports}

theorem Paired.keeps {steady : Console → Prop} {allowed : Halt → Prop} {invoke : Invoke}
    {scope other : Scope} {α : Type} {first second : Invoke → Run Console α}
    (paired : Paired reports scope other first second)
    (handles : Handles reports steady allowed invoke scope) :
    (first invoke).Keeps steady allowed := by
  induction paired with
  | pure result => exact .pure result
  | report line fault => exact handles.report _ _ line fault
  | call values _ found => exact handles.invoke _ _ values found
  | bind _ _ first next => exact first.bind next

namespace Built

variable {α β : Type}

theorem keeps {steady : Console → Prop} {allowed : Halt → Prop} {invoke : Invoke} {scope : Scope}
    {evaluation : Invoke → Scope → Run Console α} (built : Built reports evaluation)
    (handles : Handles reports steady allowed invoke scope) :
    (evaluation invoke scope).Keeps steady allowed :=
  (built scope scope fun name _ => .refl name scope).keeps handles

theorem pure (result : α) : Built reports fun _ _ => Pure.pure result :=
  fun _ _ _ => .pure result

theorem report {line : Nat} {fault : Fault} (onLine : reports.lines line)
    (allowed : reports.faults fault) : Built reports fun _ _ => Console.report line fault :=
  fun _ _ _ => .report onLine allowed

theorem bind {first : Invoke → Scope → Run Console α}
    {next : Invoke → Scope → α → Run Console β} (built : Built reports first)
    (later : ∀ result, Built reports fun invoke scope => next invoke scope result) :
    Built reports fun invoke scope => first invoke scope >>= next invoke scope :=
  fun scope other alike =>
    (built scope other alike).bind fun result => later result scope other alike

theorem inRange {result : Option α} {value : α} (found : result = some value) :
    Built reports fun _ _ => Run.inRange result := by
  rw [found]
  exact pure value

theorem map {first : Invoke → Scope → Run Console α} (built : Built reports first)
    (change : α → β) :
    Built reports fun invoke scope =>
      first invoke scope >>= fun result => Pure.pure (change result) :=
  built.bind fun _ => pure _

end Built

variable {line : Nat} {tokens : List Token}

theorem fallback_built {α : Type} {fault : Fault} (onLine : reports.lines line)
    (allowed : reports.faults fault) (result : α) :
    Built reports fun _ _ => fallback line fault result :=
  (Built.report onLine allowed).bind fun _ => .pure result

theorem callNamed_built (covers : reports.Covers line tokens) {name : Text}
    (named : .name name ∈ tokens) {arguments : Invoke → Scope → Run Console (List Value)}
    (built : Built reports arguments) :
    Built reports fun invoke scope =>
      callNamed invoke scope line name (arguments invoke scope) := by
  intro scope other alike
  have looked := covers.names name named
  simp only [callNamed, ← (alike name looked).functions]
  cases found : scope.functions.find? name with
  | none =>
      exact fallback_built covers.line (covers.function name named) none scope other alike
  | some function =>
      apply (built scope other alike).bind
      intro values
      exact (Paired.call values looked found).bind fun _ => .pure _

theorem values_cons_built (covers : reports.Covers line tokens) {argument : Expr}
    {rest : List Expr} (named : ∀ name, argument.Mentions name → .name name ∈ tokens)
    (first : Built reports fun invoke scope => number invoke scope line argument)
    (others : Built reports fun invoke scope => values invoke scope line rest) :
    Built reports fun invoke scope => values invoke scope line (argument :: rest) := by
  have evaluated : Built reports fun invoke scope => (do
      let value ← number invoke scope line argument
      let others ← values invoke scope line rest
      return .number value :: others : Run Console (List Value)) :=
    first.bind fun _ => others.map _
  cases argument with
  | text content => exact others.map _
  | number value => exact others.map _
  | «variable» name =>
      intro scope other alike
      have looked := covers.names name (named name .variable)
      simp only [values, (alike name looked).argument_eq]
      exact (others scope other alike).bind fun _ => .pure _
  | negate operand => exact evaluated
  | binary op left right => exact evaluated
  | call name arguments => exact evaluated

mutual

theorem number_built (covers : reports.Covers line tokens) :
    (tree : Expr) → (∀ name, tree.Mentions name → .name name ∈ tokens) →
    Built reports fun invoke scope => number invoke scope line tree
  | .number value, _ => .pure value
  | .text content, _ => .pure _
  | .variable name, named => by
      intro scope other alike
      have among := named name .variable
      simp only [number, (alike name (covers.names name among)).number?_eq]
      cases other.number? name with
      | some value => exact .pure value
      | none =>
          exact fallback_built covers.line (covers.variable name among) zero scope other alike
  | .negate operand, named => by
      simp only [number]
      have inner := number_built covers operand fun name occurs => named name (.negate occurs)
      exact inner.map _
  | .binary op left right, named => by
      simp only [number]
      have first := number_built covers left fun name occurs => named name (.left occurs)
      have second := number_built covers right fun name occurs => named name (.right occurs)
      exact first.bind fun _ => second.map _
  | .call name arguments, named => by
      simp only [number]
      have passed := values_built covers arguments fun argument member name occurs =>
        named name (.argument member occurs)
      exact (callNamed_built covers (named name .callee) passed).map _

theorem values_built (covers : reports.Covers line tokens) :
    (trees : List Expr) → (∀ tree ∈ trees, ∀ name, tree.Mentions name → .name name ∈ tokens) →
    Built reports fun invoke scope => values invoke scope line trees
  | [], _ => .pure []
  | argument :: rest, named => by
      have first := number_built covers argument (named argument List.mem_cons_self)
      have others := values_built covers rest fun tree member =>
        named tree (List.mem_cons_of_mem _ member)
      exact values_cons_built covers (named argument List.mem_cons_self) first others

end

theorem parsed_built (covers : reports.Covers line tokens) {tree : Expr}
    (read : Expr.parse tokens = .ok tree) :
    Built reports fun invoke scope => number invoke scope line tree :=
  number_built covers tree fun _ occurs => Expr.mem_of_parse read occurs

theorem call_built (covers : reports.Covers line tokens) :
    Built reports fun invoke scope => call invoke scope line tokens := by
  unfold call
  cases read : Expr.parseCall tokens with
  | error fault =>
      exact fallback_built covers.line (covers.malformed fault (Expr.parseCall_among read)) none
  | ok called =>
      obtain ⟨name, arguments⟩ := called
      have whole : Expr.parse tokens = .ok (.call name arguments) := by
        unfold Expr.parseCall at read
        split at read
        all_goals cases read
        assumption
      refine callNamed_built covers (Expr.mem_of_parse whole .callee) ?_
      exact values_built covers arguments fun argument member name occurs =>
        Expr.mem_of_parse whole (.argument member occurs)

theorem copied_built (covers : reports.Covers line tokens) {source word : Text} {lexeme : Lexeme}
    (member : lexeme.token ∈ tokens)
    (found : source.slice? lexeme.span.start lexeme.span.stop = some word) :
    Built reports fun _ scope => copied scope source line lexeme := by
  obtain ⟨token, span⟩ := lexeme
  cases token with
  | name name =>
      intro scope other alike
      simp only [copied, (alike name (covers.names name member)).inserted?_eq]
      cases other.inserted? name with
      | some text => exact .pure text
      | none => exact fallback_built covers.line (covers.variable name member) [] scope other alike
  | text content => exact .pure content
  | _ => exact .inRange found

/-- Copying from a position on makes no cut out of range if the lexemes are parts of what follows
the position. -/
theorem copyFrom_built {lexemes : List Lexeme}
    (covers : reports.Covers line (lexemes.map Lexeme.token)) (before after : Text)
    (within : Within before.byteLength after lexemes) :
    Built reports fun _ scope =>
      copyFrom scope (before ++ after) line before.byteLength lexemes := by
  induction lexemes generalizing before after with
  | nil => exact .pure []
  | cons lexeme rest ih =>
      obtain ⟨gap, word, others, rfl, gapSlice, wordSlice, stop, inner⟩ := within.first_slices
      have own : Built reports fun _ scope =>
          copied scope (before ++ (gap ++ word ++ others)) line lexeme :=
        copied_built covers List.mem_cons_self wordSlice
      have later := ih (covers.part (List.suffix_cons lexeme rest).isInfix)
        (before ++ gap ++ word) others (stop ▸ inner)
      have whole : before ++ gap ++ word ++ others = before ++ (gap ++ word ++ others) := by simp
      rw [whole, ← stop] at later
      simp only [copyFrom]
      exact (Built.inRange gapSlice).bind fun _ => own.bind fun _ => later.map _

theorem copy_built {source : Text} {lexemes : List Lexeme}
    (covers : reports.Covers line (lexemes.map Lexeme.token)) (within : Within 0 source lexemes) :
    Built reports fun _ scope => copy scope source line lexemes := by
  cases lexemes with
  | nil => exact .pure []
  | cons first rest =>
      obtain ⟨gap, ahead, rfl, starts, inner⟩ := within.from_first
      have copied := copyFrom_built covers gap ahead inner
      rw [← starts] at copied
      exact copied

theorem piece_built {source : Text} {lexemes : List Lexeme}
    (covers : reports.Covers line (lexemes.map Lexeme.token)) (within : Within 0 source lexemes) :
    Built reports fun invoke scope => piece invoke scope source line lexemes := by
  unfold piece
  split
  next => exact .pure []
  next content _ => exact .pure content
  next name _ =>
    have among : .name name ∈ [Token.name name] := List.mem_cons_self
    intro scope other alike
    simp only [(alike name (covers.names name among)).text?_eq]
    cases other.text? name with
    | some text => exact .pure text
    | none => exact fallback_built covers.line (covers.variable name among) [] scope other alike
  next =>
    split
    next => exact (call_built covers).map _
    next => exact copy_built covers within

theorem pieces_built {source : Text} {parts : List (List Lexeme)}
    (covers : ∀ part ∈ parts, reports.Covers line (part.map Lexeme.token))
    (within : ∀ part ∈ parts, Within 0 source part) :
    Built reports fun invoke scope => pieces invoke scope source line parts := by
  induction parts with
  | nil => exact .pure []
  | cons first rest ih =>
      obtain ⟨head, others⟩ := List.forall_mem_cons.1 within
      obtain ⟨covered, later⟩ := List.forall_mem_cons.1 covers
      simp only [pieces]
      exact (piece_built covered head).bind fun _ => (ih later others).map _

theorem text_built {fragment : Fragment} (fits : fragment.Fits reports) :
    Built reports fun invoke scope => text invoke scope fragment := by
  apply pieces_built
  · intro part member
    exact fits.covers.part (infix_of_mem_splitTopLevel member)
  · intro part member
    exact fits.placed.of_infix (infix_of_mem_splitTopLevel member)

theorem invalidCondition_built {fragment : Fragment} (fits : fragment.Fits reports) :
    Built reports fun _ _ => invalidCondition fragment :=
  fallback_built fits.covers.line fits.condition false

theorem textOperand?_eq {scope other : Scope} {lexemes : List Lexeme}
    (alike : ∀ name, .name name ∈ lexemes.map Lexeme.token → scope.Alike name other) :
    textOperand? scope lexemes = textOperand? other lexemes := by
  unfold textOperand?
  split
  next => rfl
  next name _ =>
    have same := alike name List.mem_cons_self
    simp only [same.numbers, same.texts]
  next => rfl

theorem textOperands?_eq {scope other : Scope} (op : Comparison) {left right : List Lexeme}
    (before : ∀ name, .name name ∈ left.map Lexeme.token → scope.Alike name other)
    (after : ∀ name, .name name ∈ right.map Lexeme.token → scope.Alike name other) :
    textOperands? scope op left right = textOperands? other op left right := by
  rw [textOperands?, textOperand?_eq before, textOperand?_eq after, textOperands?]

theorem numberOperands?_eq_some {left right : List Lexeme} {leftTree rightTree : Expr}
    (read : numberOperands? left right = some (leftTree, rightTree)) :
    Expr.parse (left.map Lexeme.token) = .ok leftTree ∧
      Expr.parse (right.map Lexeme.token) = .ok rightTree := by
  unfold numberOperands? at read
  split at read
  next leftRead rightRead =>
    cases read
    exact ⟨leftRead, rightRead⟩
  next => cases read

theorem numbers_built {fragment : Fragment} (fits : fragment.Fits reports) (op : Comparison)
    {left right : List Lexeme} (before : left <:+: fragment.lexemes)
    (after : right <:+: fragment.lexemes) :
    Built reports fun invoke scope =>
      match numberOperands? left right with
      | some (leftTree, rightTree) => (do
          let leftValue ← number invoke scope fragment.line leftTree
          let rightValue ← number invoke scope fragment.line rightTree
          return op.ofNumbers leftValue rightValue : Run Console Bool)
      | none => invalidCondition fragment := by
  split
  next leftTree rightTree read =>
    obtain ⟨leftRead, rightRead⟩ := numberOperands?_eq_some read
    exact (parsed_built (fits.covers.part before) leftRead).bind fun _ =>
      (parsed_built (fits.covers.part after) rightRead).map _
  next => exact invalidCondition_built fits

theorem comparison_built {fragment : Fragment} (fits : fragment.Fits reports) (op : Comparison)
    {left right : List Lexeme} (before : left <:+: fragment.lexemes)
    (after : right <:+: fragment.lexemes) :
    Built reports fun invoke scope => comparison invoke scope fragment op left right := by
  intro scope other alike
  have leftAlike (name : Text) (among : .name name ∈ left.map Lexeme.token) :=
    alike name ((fits.covers.part before).names name among)
  have rightAlike (name : Text) (among : .name name ∈ right.map Lexeme.token) :=
    alike name ((fits.covers.part after).names name among)
  simp only [comparison, textOperands?_eq op leftAlike rightAlike]
  cases textOperands? other op left right with
  | some texts => exact .pure _
  | none => exact numbers_built fits op before after scope other alike

theorem condition_built {fragment : Fragment} (fits : fragment.Fits reports) :
    Built reports fun invoke scope => condition invoke scope fragment := by
  unfold condition
  split
  next index found =>
    have bound := findFrom_lt found
    obtain ⟨left, leftFound, before⟩ := between?_of_bounds fragment.lexemes (Nat.zero_le index)
      (Nat.le_of_lt bound)
    obtain ⟨right, rightFound, after⟩ := between?_of_bounds fragment.lexemes bound (Nat.le_refl _)
    simp only [leftFound, rightFound, List.getElem?_eq_getElem bound, Run.inRange, pure_bind]
    split
    next op _ => exact comparison_built fits op before after
    next => exact invalidCondition_built fits
  next =>
    split
    next name _ single =>
      intro scope other alike
      have looked := fits.covers.names name (by simp [Fragment.tokens, single])
      simp only [truth?, (alike name looked).booleans]
      split
      next value _ => exact .pure value
      next => exact invalidCondition_built fits scope other alike
    next => exact invalidCondition_built fits

theorem boolean_built {fragment : Fragment} (fits : fragment.Fits reports) :
    Built reports fun invoke scope => boolean invoke scope fragment := by
  unfold boolean
  split
  next name _ single =>
    split
    next => exact .pure _
    next =>
      intro scope other alike
      have looked := fits.covers.names name (by simp [Fragment.tokens, single])
      simp only [(alike name looked).booleans]
      exact .pure _
  next =>
    split
    next => exact (condition_built fits).map some
    next => exact .pure none

theorem booleanOr_built {α : Type} {fragment : Fragment} (fits : fragment.Fits reports)
    {name : Text} (invalid : reports.faults (.invalidBoolean name)) (valid : Bool → α)
    (missing : α) :
    Built reports fun invoke scope => (do
      match ← boolean invoke scope fragment with
      | some result => return valid result
      | none => fallback fragment.line (.invalidBoolean name) missing : Run Console α) := by
  apply (boolean_built fits).bind
  intro result
  cases result with
  | some value => exact .pure _
  | none => exact fallback_built fits.covers.line invalid missing

theorem declared_built (kind : Kind) {name : Text} {value : Fragment} (fits : value.Fits reports)
    (number : reports.faults (.invalidNumber name))
    (boolean : reports.faults (.invalidBoolean name)) :
    Built reports fun invoke scope => declared invoke scope kind name value := by
  unfold declared
  cases kind with
  | text => exact (text_built fits).map _
  | number =>
      dsimp only
      split
      next tree read =>
        have parsed : Expr.parse value.tokens = .ok tree := by
          unfold initializer? at read
          split at read
          next content whole =>
            obtain ⟨_, _, same⟩ := Option.map_eq_some_iff.1 read
            rw [whole, same]
          next whole =>
            cases read
            exact whole
          next => cases read
        exact (parsed_built fits.covers parsed).map _
      next => exact fallback_built fits.covers.line number none
  | boolean => exact booleanOr_built fits boolean _ _

theorem returned_built (header : Header) {value : Option Fragment}
    (fits : ∀ fragment ∈ value.toList, fragment.Fits reports)
    (boolean : reports.faults (.invalidBoolean header.name)) :
    Built reports fun invoke scope => returned invoke scope header value := by
  unfold returned
  split
  next => exact .pure _
  next => exact .pure _
  next value _ => exact (text_built (fits value List.mem_cons_self)).map _
  next value _ =>
    have inner : value.Fits reports := fits value List.mem_cons_self
    split
    next tree read => exact (parsed_built inner.covers read).map _
    next fault read =>
      exact fallback_built inner.covers.line
        (inner.covers.malformed fault (Parser.run_among read)) _
  next value _ => exact booleanOr_built (fits value List.mem_cons_self) boolean _ _

end Evaluation

end Purr
