import Purr.Proofs.LineByLine

/-!
# Return kinds

A call gives a value of the kind that its function is declared with, or no value. The kind is read
off the frame in which a return is executed, and this frame is handed on unchanged through every
branch, while a call inside of an expression has a frame of its own. Without a frame nothing is
returned. So a declaration by a call can tell from the callee's header alone whether a value that
came back is of its kind.
-/

namespace Purr

set_option autoImplicit false

/-- Every result of the run satisfies a condition. -/
def Run.Gives {σ α : Type} (condition : α → Prop) (run : Run σ α) : Prop :=
  ∀ state result reached, run state = (.ok result, reached) → condition result

namespace Run.Gives

variable {σ α β : Type} {condition : β → Prop}

theorem pure {result : β} (holds : condition result) :
    Run.Gives condition (Pure.pure result : Run σ β) := by
  intro state _ _ ran
  cases ran
  exact holds

theorem halt (reason : Halt) : Run.Gives condition (Run.halt reason : Run σ β) := by
  intro state _ _ ran
  cases ran

theorem bind {between : α → Prop} {first : Run σ α} {next : α → Run σ β}
    (before : first.Gives between) (after : ∀ value, between value → (next value).Gives condition) :
    (first >>= next).Gives condition := by
  intro state result reached ran
  obtain ⟨value, middle, ranFirst, ranNext⟩ := Run.of_bind_ok ran
  exact after value (before state value middle ranFirst) middle result reached ranNext

theorem andThen {first : Run σ α} {next : α → Run σ β}
    (after : ∀ value, (next value).Gives condition) : (first >>= next).Gives condition := by
  have anything : first.Gives fun _ => True := fun _ _ _ _ => trivial
  exact anything.bind fun value _ => after value

theorem map {between : α → Prop} {first : Run σ α} {change : α → β} (before : first.Gives between)
    (changed : ∀ value, between value → condition (change value)) :
    (first >>= fun value => Pure.pure (change value)).Gives condition :=
  before.bind fun value holds => .pure (changed value holds)

end Run.Gives

/-- The values that a function of a return kind may give: none at all, or one of the declared
kind. -/
inductive ReturnKind.Allows : ReturnKind → Value → Prop
  | absent (declared : ReturnKind) : Allows declared .absent
  | value {kind : Kind} {value : Value} : value.kind? = some kind → Allows (.value kind) value

namespace ReturnKind.Allows

variable {declared : ReturnKind} {value : Value}

theorem of_nothing (allowed : ReturnKind.nothing.Allows value) : value = .absent := by
  cases allowed
  rfl

theorem absent_or_kind (allowed : declared.Allows value) :
    value = .absent ∨ ∃ kind, value.kind? = some kind ∧ declared = .value kind := by
  cases allowed with
  | absent => exact .inl rfl
  | value same => exact .inr ⟨_, same, rfl⟩

/-- Whether the value of a call is of a kind can be told from the callee's header, except for a call
that gave no value. -/
theorem kind?_eq_some_iff (allowed : declared.Allows value) (kind : Kind) :
    value.kind? = some kind ↔ ¬ (value = .absent ∨ declared ≠ .value kind) := by
  cases allowed with
  | absent =>
      simp [Value.kind?]
  | value same =>
      have present : value ≠ .absent := by
        rintro rfl
        cases same
      simp [present, same]

end ReturnKind.Allows

/-- How code may end in a frame: at its end, or, inside a function, by a return with a value that
the function may give. -/
inductive Flow.EndsIn : Option Function → Flow → Prop
  | proceed (frame : Option Function) : EndsIn frame .proceed
  | returned {function : Function} {value : Value} : function.header.returnKind.Allows value →
      EndsIn (some function) (.returned value)

namespace Flow.EndsIn

theorem eq_proceed {flow : Flow} (ended : EndsIn none flow) : flow = .proceed := by
  cases ended
  rfl

theorem value_allowed {function : Function} {flow : Flow} (ended : EndsIn (some function) flow) :
    function.header.returnKind.Allows flow.value := by
  cases ended with
  | proceed => exact .absent _
  | returned allowed => exact allowed

theorem andThen {frame : Option Function} {flow : Flow} (ended : EndsIn frame flow)
    {next : Run World Flow} (later : next.Gives (EndsIn frame)) :
    (flow.andThen next).Gives (EndsIn frame) := by
  cases ended with
  | proceed => exact later
  | returned allowed => exact .pure (.returned allowed)

end Flow.EndsIn

namespace Evaluation

theorem returned_gives (invoke : Invoke) (scope : Scope) (header : Header)
    (value : Option Fragment) :
    (returned invoke scope header value).Gives header.returnKind.Allows := by
  unfold returned
  split
  next => exact .pure (.absent _)
  next => exact .pure (.absent _)
  next declared =>
    rw [declared]
    exact .andThen fun content => .pure (.value rfl)
  next declared =>
    rw [declared]
    split
    next => exact .andThen fun result => .pure (.value rfl)
    next => exact .andThen fun _ => .pure (.absent _)
  next declared =>
    rw [declared]
    apply Run.Gives.andThen
    intro result
    cases result with
    | some holds => exact .pure (.value rfl)
    | none => exact .andThen fun _ => .pure (.absent _)

end Evaluation

namespace Execution

theorem evaluate_gives {α : Type} {condition : α → Prop} {evaluation : Scope → Run Console α}
    (gives : ∀ scope, (evaluation scope).Gives condition) :
    (World.evaluate evaluation).Gives condition := by
  intro world result reached ran
  unfold World.evaluate at ran
  split at ran
  next evaluated =>
    cases ran
    exact gives world.scope _ _ _ evaluated

variable (invoke : Invoke) (frame : Option Function)

theorem result_ends (line : Nat) (value : Option Fragment) :
    (result invoke frame line value).Gives (Flow.EndsIn frame) := by
  cases frame with
  | none => exact .andThen fun _ => .pure (.proceed none)
  | some function =>
      have gives : (World.evaluate fun scope =>
          Evaluation.returned invoke scope function.header value).Gives
            function.header.returnKind.Allows :=
        evaluate_gives fun scope => Evaluation.returned_gives invoke scope function.header value
      exact gives.map fun _ => .returned

theorem action_ends (line : Line) (work : Action) :
    (action invoke frame line work).Gives (Flow.EndsIn frame) := by
  cases work with
  | print expression => exact .andThen fun _ => .andThen fun _ => .pure (.proceed frame)
  | declare kind name value => exact .andThen fun _ => .pure (.proceed frame)
  | declareCall kind name call => exact .andThen fun _ => .pure (.proceed frame)
  | call call => exact .andThen fun _ => .pure (.proceed frame)
  | result value => exact result_ends invoke frame line.number value
  | unknown => exact .andThen fun _ => .pure (.proceed frame)
  | malformed fault => exact .andThen fun _ => .pure (.proceed frame)

/-- By induction on the code. Only a branch executes code of its own, and in the same frame. -/
theorem code_ends (program : Code) : (code invoke frame program).Gives (Flow.EndsIn frame) := by
  induction program with
  | done => exact .pure (.proceed frame)
  | action line work next ih =>
      rw [code_action]
      exact (action_ends invoke frame line work).bind fun flow ended => ended.andThen ih
  | definition line function next ih => exact .andThen fun _ => ih
  | branch line condition yes no next ihYes ihNo ihNext =>
      rw [code_branch]
      apply Run.Gives.andThen
      intro holds
      have block : (if holds then code invoke frame yes else code invoke frame no).Gives
          (Flow.EndsIn frame) := by
        cases holds with
        | true => exact ihYes
        | false => exact ihNo
      exact block.bind fun flow ended => ended.andThen ihNext
  | strayElse line next ih => exact .andThen fun _ => ih
  | broken line prelude halt => exact .andThen fun _ => .halt halt

theorem lines_ends (depth : Nat) (program : List Line) :
    (lines depth frame program).Gives (Flow.EndsIn frame) :=
  code_ends (invoke depth) frame (Code.ofLines program)

theorem line_ends (depth : Nat) (first : Line) (cursor : Cursor) :
    (line depth frame first cursor).Gives fun executed => Flow.EndsIn frame executed.1 := by
  rw [line_eq_alone]
  exact (code_ends (invoke depth) frame _).map fun _ ended => ended

variable {invoke frame}

theorem carry_gives {execute : Option Function → List Line → Run World Flow} {function : Function}
    (ends : (execute (some function) function.body).Gives (Flow.EndsIn (some function)))
    (values : List Value) (scope : Scope) :
    (carry execute function values scope).Gives function.header.returnKind.Allows := by
  intro console value reached ran
  have result := congrArg Prod.fst ran
  dsimp only [carry] at result
  cases ended : execute (some function) function.body
      ⟨scope.withArguments function.header.parameters values, console⟩ with
  | mk flow world =>
      rw [ended] at result
      cases flow with
      | error halt => cases result
      | ok flow =>
          cases result
          exact (ends _ _ _ ended).value_allowed

theorem invoke_gives (depth : Nat) (function : Function) (values : List Value) (scope : Scope) :
    (Execution.invoke depth function values scope).Gives function.header.returnKind.Allows := by
  cases depth with
  | zero => exact .halt .tooDeep
  | succ depth =>
      rw [invoke_succ]
      exact carry_gives (lines_ends (some function) depth function.body) values scope

end Execution

def Scope.callee? (scope : Scope) (tokens : List Token) : Option Function :=
  match Expr.parseCall tokens with
  | .ok (name, _) => scope.functions.find? name
  | .error _ => none

/-- A value comes back only from the function that the tokens call. -/
theorem Evaluation.exists_callee {invoke : Invoke} {scope : Scope} {line : Nat}
    {tokens : List Token} {before after : Console} {value : Value}
    (made : call invoke scope line tokens before = (.ok (some value), after)) :
    ∃ function values between, scope.callee? tokens = some function ∧
      invoke function values scope between = (.ok value, after) := by
  rw [call] at made
  cases read : Expr.parseCall tokens with
  | error fault =>
      rw [read] at made
      cases made
  | ok called =>
      obtain ⟨name, arguments⟩ := called
      rw [read] at made
      dsimp only [callNamed] at made
      cases known : scope.functions.find? name with
      | none =>
          rw [known] at made
          cases made
      | some function =>
          rw [known] at made
          obtain ⟨values, between, _, invoked⟩ := Run.of_bind_ok made
          obtain ⟨result, _, gave, same⟩ := Run.of_bind_ok invoked
          cases same
          exact ⟨function, values, between, by rw [Scope.callee?, read]; exact known, gave⟩

theorem Evaluation.call_noArguments {invoke : Invoke} {scope : Scope} {line : Nat}
    {tokens : List Token} {name : Text} {function : Function} {before after : Console}
    {value : Value} (read : Expr.parseCall tokens = .ok (name, []))
    (known : scope.functions.find? name = some function)
    (gave : invoke function [] scope before = (.ok value, after)) :
    call invoke scope line tokens before = (.ok (some value), after) := by
  rw [call, read]
  dsimp only
  rw [callNamed, known]
  dsimp only
  rw [values, pure_bind, Run.bind_apply, gave]
  rfl

namespace Execution

theorem invoke_of_lines {depth : Nat} {function : Function} {values : List Value} {scope : Scope}
    {console : Console} {flow : Flow} {world : World}
    (ran : lines depth (some function) function.body
      ⟨scope.withArguments function.header.parameters values, console⟩ = (.ok flow, world)) :
    invoke (depth + 1) function values scope console = (.ok flow.value, world.console) := by
  rw [invoke_succ, carry, ran]
  rfl

section

variable (invoke : Invoke) (kind : Kind) (name : Text) (call : Fragment) (world : World)

def callOf : Except Halt (Option Value) × Console :=
  Evaluation.call invoke world.scope call.line call.tokens world.console

/-- How a declaration by a call ends, said of its callee's declared kind. -/
inductive DeclaredByCall : Except Halt Unit × World → Prop
  | halted {halt : Halt} {console : Console} : callOf invoke call world = (.error halt, console) →
      DeclaredByCall (.error halt, ⟨world.scope, console⟩)
  | notMade {console : Console} : callOf invoke call world = (.ok none, console) →
      DeclaredByCall (.ok (), ⟨world.scope, console⟩)
  | bound {function : Function} {value : Value} {console : Console} :
      callOf invoke call world = (.ok (some value), console) →
      world.scope.callee? call.tokens = some function → value.kind? = some kind →
      ¬ (value = .absent ∨ function.header.returnKind ≠ .value kind) →
      DeclaredByCall (.ok (), ⟨world.scope.bind name value, console⟩)
  | mismatched {function : Function} {value : Value} {console : Console} :
      callOf invoke call world = (.ok (some value), console) →
      world.scope.callee? call.tokens = some function →
      value = .absent ∨ function.header.returnKind ≠ .value kind →
      DeclaredByCall (.ok (),
        ⟨world.scope,
          (Console.report call.line (.typeMismatch name kind value.returnKind) console).2⟩)

variable {invoke kind name call world}

theorem declareCall_cases
    (gives : ∀ function values scope,
      (invoke function values scope).Gives function.header.returnKind.Allows) :
    DeclaredByCall invoke kind name call world (declareCall invoke kind name call world) := by
  rw [declareCall, Run.bind_apply, World.evaluate]
  cases made : Evaluation.call invoke world.scope call.line call.tokens world.console with
  | mk result console =>
      cases result with
      | error halt => exact .halted made
      | ok given =>
          cases given with
          | none => exact .notMade made
          | some value =>
              obtain ⟨function, values, between, known, gave⟩ := Evaluation.exists_callee made
              have allowed := gives function values world.scope between value console gave
              have decided := allowed.kind?_eq_some_iff kind
              dsimp only
              split
              next same => exact .bound made known same (decided.1 same)
              next other =>
                exact .mismatched made known (Classical.not_not.1 (mt decided.2 other))

end

def reportMismatch (kind : Kind) (name : Text) (call : Fragment) (found : ReturnKind)
    (console : Console) : Console :=
  (Console.report call.line (.typeMismatch name kind found) console).2

theorem reportMismatch_ne (kind : Kind) (name : Text) (call : Fragment) (found : ReturnKind)
    (console : Console) : reportMismatch kind name call found console ≠ console := by
  intro same
  have attempts := congrArg Console.attempts same
  rw [reportMismatch] at attempts
  exact absurd ((console.attempts_add_attempt _ _).symm.trans attempts) (Nat.succ_ne_self _)

/-- Every call gives a value of the kind that its function is declared with, or none, and none if
the function is declared to return nothing; without a frame nothing is returned. So a declaration by
a call binds a value of its own kind only, and it reports a mismatch exactly if the call was made
and gave no value or the callee is declared with another kind. It reports nothing else. -/
theorem calls_respect_return_kinds (depth : Nat) :
    (∀ function values scope, (invoke depth function values scope).Gives fun value =>
      (value = .absent ∨
        ∃ kind, value.kind? = some kind ∧ function.header.returnKind = .value kind) ∧
      (function.header.returnKind = .nothing → value = .absent)) ∧
    (∀ program, (lines depth none program).Gives fun flow => flow = .proceed) ∧
    (∀ first cursor, (line depth none first cursor).Gives fun executed =>
      executed.1 = .proceed) ∧
    ∀ kind name call world,
      let made := callOf (invoke depth) call world
      let declared := (declareCall (invoke depth) kind name call world).2
      (declared.scope = world.scope ∨
        ∃ value, made.1 = .ok (some value) ∧ value.kind? = some kind ∧
          declared.scope = world.scope.bind name value) ∧
      ((∃ found, declared.console = reportMismatch kind name call found made.2) ↔
        ∃ function value, made.1 = .ok (some value) ∧
          world.scope.callee? call.tokens = some function ∧
          (value = .absent ∨ function.header.returnKind ≠ .value kind)) ∧
      (declared.console = made.2 ∨
        ∃ found, declared.console = reportMismatch kind name call found made.2) := by
  refine ⟨?_, ?_, ?_, ?_⟩
  · intro function values scope console value reached ran
    have allowed := invoke_gives depth function values scope console value reached ran
    refine ⟨allowed.absent_or_kind, ?_⟩
    intro nothing
    rw [nothing] at allowed
    exact allowed.of_nothing
  · intro program world flow reached ran
    exact (lines_ends none depth program world flow reached ran).eq_proceed
  · intro first cursor world executed reached ran
    exact (line_ends none depth first cursor world executed reached ran).eq_proceed
  · intro kind name call world
    dsimp only
    have cases := @declareCall_cases _ kind name call world (invoke_gives depth)
    generalize declareCall (invoke depth) kind name call world = declared at cases
    have quiet {console : Console}
        (reported : ∃ found, console = reportMismatch kind name call found console) : False := by
      obtain ⟨found, same⟩ := reported
      exact reportMismatch_ne kind name call found console same.symm
    cases cases with
    | halted made =>
        rw [made]
        exact ⟨.inl rfl, ⟨fun reported => (quiet reported).elim, nofun⟩, .inl rfl⟩
    | notMade made =>
        rw [made]
        exact ⟨.inl rfl, ⟨fun reported => (quiet reported).elim, nofun⟩, .inl rfl⟩
    | bound made known same fits =>
        rw [made]
        refine ⟨.inr ⟨_, rfl, same, rfl⟩, ⟨fun reported => (quiet reported).elim, ?_⟩, .inl rfl⟩
        rintro ⟨other, value, given, found, differs⟩
        cases given
        rw [known] at found
        cases found
        exact absurd differs fits
    | mismatched made known differs =>
        rw [made]
        refine ⟨.inl rfl, ⟨fun _ => ?_, fun _ => ?_⟩, .inr ?_⟩
        · exact ⟨_, _, rfl, known, differs⟩
        · exact ⟨_, rfl⟩
        · exact ⟨_, rfl⟩

def branchReturn : Function :=
  ⟨⟨"nested".toList, .value .boolean, []⟩,
    [⟨2, "if (true) \x7b".toList⟩, ⟨3, "return true;".toList⟩, ⟨4, "\x7d".toList⟩], 1⟩

def branchReturnCall : Fragment :=
  ⟨"nested()".toList, [⟨.name "nested".toList, 0, 6, by decide⟩, ⟨.leftParen, 6, 7, by decide⟩,
    ⟨.rightParen, 7, 8, by decide⟩], 5⟩

def knowing : World := ⟨Scope.empty.define branchReturn, .opened .unlimited⟩

theorem lines_branchReturn (depth : Nat) :
    lines depth (some branchReturn) branchReturn.body knowing =
      (.ok (.returned (.boolean true)), knowing) := by
  have branch : Item.read ⟨2, "if (true) \x7b".toList⟩
      [⟨3, "return true;".toList⟩, ⟨4, "\x7d".toList⟩] =
        .branch ⟨"true".toList, [⟨.name "true".toList, 0, 4, by decide⟩], 2⟩
          [⟨3, "return true;".toList⟩] [] [] := rfl
  have inner : Item.read ⟨3, "return true;".toList⟩ [] =
      .action (.result (some ⟨"true".toList, [⟨.name "true".toList, 0, 4, by decide⟩], 3⟩))
        [] := rfl
  rw [branchReturn, lines_cons_read, branch, Item.alone, code_branch, Code.ofLines_cons, inner]
  rfl

theorem callOf_branchReturn (depth : Nat) :
    callOf (invoke (depth + 1)) branchReturnCall knowing =
      (.ok (some (.boolean true)), knowing.console) := by
  have invoked : invoke (depth + 1) branchReturn [] knowing.scope knowing.console =
      (.ok (.boolean true), knowing.console) :=
    invoke_of_lines (lines_branchReturn depth)
  exact Evaluation.call_noArguments rfl rfl invoked

theorem branchReturn_mismatched :
    ∃ found, (declareCall (invoke 1) .number ['x'] branchReturnCall knowing).2.console =
      reportMismatch .number ['x'] branchReturnCall found
        (callOf (invoke 1) branchReturnCall knowing).2 := by
  obtain ⟨_, _, _, declarations⟩ := calls_respect_return_kinds 1
  obtain ⟨_, mismatch, _⟩ := declarations .number ['x'] branchReturnCall knowing
  refine mismatch.2 ⟨branchReturn, .boolean true, ?_, rfl, .inr nofun⟩
  rw [callOf_branchReturn]

end Execution

end Purr
