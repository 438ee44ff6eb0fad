import Purr.Proofs.ReturnKinds
import Purr.Proofs.ValueLines

/-!
# Booleans and conditions

A boolean value is read from a fragment for a declaration, for a return and for a condition. The
first two read it alike. A condition reads it too, and reports where there is none, but it takes a
boolean variable before a truth value of the same spelling, and the others after it. A single call is
none of the fragments that have a boolean value: a declaration by a call is of a form of its own.
-/

namespace Purr

set_option autoImplicit false

namespace Evaluation

variable (invoke : Invoke) (scope : Scope) {fragment : Fragment}

/-- A name that is spelled like one truth value and bound to the other. -/
def Contrary (scope : Scope) (fragment : Fragment) : Prop :=
  ∃ name span value, fragment.lexemes = [⟨.name name, span⟩] ∧ readBool? name = some value ∧
    scope.booleans.find? name = some !value

def Compound (fragment : Fragment) : Prop :=
  ∀ name span, fragment.lexemes ≠ [⟨.name name, span⟩]

theorem boolean_name {name : Text} {span : Span} (same : fragment.lexemes = [⟨.name name, span⟩]) :
    boolean invoke scope fragment = pure ((readBool? name).or (scope.booleans.find? name)) := by
  rw [boolean, same]
  dsimp only
  cases readBool? name <;> rfl

theorem condition_name {name : Text} {span : Span}
    (same : fragment.lexemes = [⟨.name name, span⟩]) :
    condition invoke scope fragment =
      match truth? scope name with
      | some value => pure value
      | none => invalidCondition fragment := by
  rw [condition, same]
  rfl

theorem boolean_compound (compound : Compound fragment) :
    boolean invoke scope fragment =
      match findTopLevel? Token.isComparison fragment.lexemes with
      | some _ => some <$> condition invoke scope fragment
      | none => pure none := by
  unfold boolean
  split
  next same => exact absurd same (compound _ _)
  next => cases findTopLevel? Token.isComparison fragment.lexemes <;> rfl

theorem condition_compound (compound : Compound fragment)
    (none : findTopLevel? Token.isComparison fragment.lexemes = none) :
    condition invoke scope fragment = invalidCondition fragment := by
  rw [condition, none]
  dsimp only
  split
  next same => exact absurd same (compound _ _)
  next => rfl

/-- A condition is a boolean value, and reported if there is none. -/
theorem condition_eq_boolean (agreed : ¬ Contrary scope fragment) :
    condition invoke scope fragment =
      boolean invoke scope fragment >>= fun
        | some value => pure value
        | none => invalidCondition fragment := by
  by_cases compound : Compound fragment
  · rw [boolean_compound invoke scope compound]
    cases found : findTopLevel? Token.isComparison fragment.lexemes with
    | none => exact condition_compound invoke scope compound found
    | some index => simp
  · obtain ⟨name, span, same⟩ : ∃ name span, fragment.lexemes = [⟨.name name, span⟩] := by
      simpa [Compound] using compound
    rw [boolean_name invoke scope same, condition_name invoke scope same, truth?, pure_bind]
    cases spelled : readBool? name with
    | none => cases scope.booleans.find? name <;> rfl
    | some value =>
        cases bound : scope.booleans.find? name with
        | none => rfl
        | some other =>
            -- The variable comes first for a condition, the truth value for the others.
            have equal : other = value := by
              by_contra distinct
              have opposite : other = !value := Bool.eq_not.2 distinct
              exact agreed ⟨name, span, value, same, spelled, by rw [bound, opposite]⟩
            rw [equal]
            rfl

end Evaluation

namespace Execution

theorem declare_boolean (invoke : Invoke) (name : Text) (fragment : Fragment) (world : World) :
    declare invoke .boolean name fragment world =
      match Evaluation.boolean invoke world.scope fragment world.console with
      | (.ok (some value), reached) => (.ok (), ⟨world.scope.bind name (.boolean value), reached⟩)
      | (.ok none, reached) =>
          (.ok (), ⟨world.scope,
            (Console.report fragment.line (.invalidBoolean name) reached).2⟩)
      | (.error halt, reached) => (.error halt, ⟨world.scope, reached⟩) := by
  simp only [declare, Run.bind_apply, World.evaluate, Evaluation.declared]
  rcases Evaluation.boolean invoke world.scope fragment world.console with
    ⟨_ | _ | value, reached⟩ <;> rfl

variable (depth : Nat) (frame : Option Function) {expression name : Text} {number : Nat}
  {own : List Lexeme} {fragment : Fragment}

theorem lines_declareBoolean (named : Lexer.Chosen name (.name name))
    (held : fragment.OfExpression expression number own)
    (noCall : isSingleCall fragment.lexemes = false) (world : World) :
    lines depth frame [⟨number, declarationLine .boolean name expression⟩] world =
      match Evaluation.boolean (invoke depth) world.scope fragment world.console with
      | (.ok (some value), reached) =>
          (.ok .proceed, ⟨world.scope.bind name (.boolean value), reached⟩)
      | (.ok none, reached) =>
          (.ok .proceed, ⟨world.scope,
            (Console.report fragment.line (.invalidBoolean name) reached).2⟩)
      | (.error halt, reached) => (.error halt, ⟨world.scope, reached⟩) := by
  have recognized := Statement.ofLine_declarationLine .boolean named held
  rw [noCall, if_neg Bool.false_ne_true] at recognized
  rw [lines_declaration depth frame recognized, lines_nil, Run.bind_apply, declare_boolean]
  rcases Evaluation.boolean (invoke depth) world.scope fragment world.console with
    ⟨_ | _ | value, reached⟩ <;> rfl

def returnTrue : Function :=
  ⟨⟨"yes".toList, .value .boolean, []⟩, [⟨2, returnLine "true".toList⟩], 1⟩

def trueFragment (number : Nat) : Fragment :=
  ⟨"true".toList, [⟨.name "true".toList, 0, 4, by decide⟩], number⟩

theorem chosen_x : Lexer.Chosen ['x'] (.name ['x']) := Lexer.chosen_name rfl (by simp) rfl

def callable : World := ⟨Scope.empty.define returnTrue, .opened .unlimited⟩

def callFragment (number : Nat) : Fragment :=
  ⟨"yes()".toList, [⟨.name "yes".toList, 0, 3, by decide⟩, ⟨.leftParen, 3, 4, by decide⟩,
    ⟨.rightParen, 4, 5, by decide⟩], number⟩

theorem lines_returnTrue (depth number : Nat) (world : World) :
    lines depth (some returnTrue) [⟨number, returnLine "true".toList⟩] world =
      (.ok (.returned (.boolean true)), world) := by
  have recognized : Statement.ofLine ⟨number, returnLine "true".toList⟩ =
      .ok (.result (some (trueFragment number))) := rfl
  rw [lines_return depth returnTrue recognized]
  rfl

theorem call_returnTrue (depth number : Nat) :
    Evaluation.call (invoke (depth + 1)) callable.scope (callFragment number).line
        (callFragment number).tokens callable.console =
      (.ok (some (.boolean true)), callable.console) := by
  have invoked : invoke (depth + 1) returnTrue [] callable.scope callable.console =
      (.ok (.boolean true), callable.console) :=
    invoke_of_lines (lines_returnTrue depth 2 callable)
  exact Evaluation.call_noArguments rfl rfl invoked

theorem lines_declareCall (depth number : Nat) (frame : Option Function) :
    lines (depth + 1) frame [⟨number, declarationLine .boolean ['x'] "yes()".toList⟩] callable =
      (.ok .proceed, ⟨callable.scope.bind ['x'] (.boolean true), callable.console⟩) := by
  have read : Item.read ⟨number, declarationLine .boolean ['x'] "yes()".toList⟩ [] =
      .action (.declareCall .boolean ['x'] (callFragment number)) [] := rfl
  rw [lines_action _ frame read, lines_nil]
  simp only [action, declareCall, Run.bind_apply, World.evaluate, call_returnTrue]
  rfl

theorem stored_condition (named : Lexer.Chosen name (.name name))
    (held : fragment.OfExpression expression number own)
    (noCall : isSingleCall fragment.lexemes = false) {world : World}
    (agreed : ¬ Evaluation.Contrary world.scope fragment)
    (unbound : (Evaluation.boolean (invoke depth) world.scope fragment world.console).1 = .ok none →
      Evaluation.truth? world.scope name = none)
    {stored : Fragment} {span : Span} (same : stored.lexemes = [⟨.name name, span⟩]) :
    ((lines depth frame [⟨number, declarationLine .boolean name expression⟩] >>= fun _ =>
        World.evaluate fun scope => Evaluation.condition (invoke depth) scope stored) world).1 =
      (Evaluation.condition (invoke depth) world.scope fragment world.console).1 := by
  rw [Run.bind_apply, lines_declareBoolean depth frame named held noCall,
    Evaluation.condition_eq_boolean (invoke depth) world.scope agreed, Run.bind_apply]
  generalize Evaluation.boolean (invoke depth) world.scope fragment world.console = read at unbound ⊢
  rcases read with ⟨halt | _ | value, reached⟩
  · rfl
  · simp only [World.evaluate, Evaluation.condition_name _ _ same, unbound rfl]
    rfl
  · have known : Evaluation.truth? (world.scope.bind name (.boolean value)) name = some value := by
      simp [Evaluation.truth?, Scope.bind]
    simp only [World.evaluate, Evaluation.condition_name _ _ same, known]

/-- A condition agrees with a boolean value, unless it is a name that is spelled like one truth value
and bound to the other: it gives the same value with the same console, and where there is no value
it reports that once and does not hold. So it holds exactly if the variable holds that was declared
by it just before, if it is not a single call. -/
theorem condition_agrees_with_boolean {scope : Scope} {fragment : Fragment}
    (agreed : ¬ Evaluation.Contrary scope fragment) (console : Console) :
    (∀ invoke value reached,
      Evaluation.boolean invoke scope fragment console = (.ok (some value), reached) →
      Evaluation.condition invoke scope fragment console = (.ok value, reached)) ∧
    (∀ invoke reached,
      Evaluation.boolean invoke scope fragment console = (.ok none, reached) →
      Evaluation.condition invoke scope fragment console =
        (.ok false,
          (Console.report fragment.line (.invalidCondition fragment.source) reached).2)) ∧
    ∀ expression own number name, fragment.OfExpression expression number own →
      isSingleCall fragment.lexemes = false → Lexer.Chosen name (.name name) →
      ((Evaluation.boolean (invoke depth) scope fragment console).1 = .ok none →
        Evaluation.truth? scope name = none) →
      ∀ (stored : Fragment) span, stored.lexemes = [⟨.name name, span⟩] →
        ((lines depth frame [⟨number, declarationLine .boolean name expression⟩] >>= fun _ =>
            World.evaluate fun scope => Evaluation.condition (invoke depth) scope stored)
          ⟨scope, console⟩).1 =
        (Evaluation.condition (invoke depth) scope fragment console).1 := by
  refine ⟨?_, ?_, ?_⟩
  · intro invoke value reached read
    rw [Evaluation.condition_eq_boolean invoke scope agreed, Run.bind_apply, read]
    rfl
  · intro invoke reached read
    rw [Evaluation.condition_eq_boolean invoke scope agreed, Run.bind_apply, read]
    rfl
  · intro expression own number name held noCall named unbound stored span same
    exact stored_condition depth frame named held noCall agreed unbound same

theorem true_holds_stored :
    let stored : Fragment := ⟨['x'], [⟨.name ['x'], 0, 1, by decide⟩], 4⟩
    ((lines 1 none [⟨3, declarationLine .boolean ['x'] "true".toList⟩] >>= fun _ =>
        World.evaluate fun scope => Evaluation.condition (invoke 1) scope stored)
      ⟨.empty, .opened .unlimited⟩).1 = .ok true := by
  intro stored
  have agreed : ¬ Evaluation.Contrary .empty (trueFragment 3) := by
    rintro ⟨name, span, value, _, _, bound⟩
    cases bound
  have held : (trueFragment 3).OfExpression "true".toList 3 (trueFragment 3).lexemes :=
    ⟨Lexer.lexemes_eq_ok_iff.1 rfl, rfl, rfl⟩
  obtain ⟨_, _, stores⟩ := condition_agrees_with_boolean 1 none agreed (.opened .unlimited)
  rw [stores "true".toList _ 3 ['x'] held rfl chosen_x (fun _ => rfl) stored _ rfl]
  rfl

/-- After a script has bound `true` to false, the name is a value of true and a condition that does
not hold. A single call is stored as a value but is no condition. -/
theorem condition_differs_from_boolean :
    let script := lines 2 none [⟨1, declarationLine .boolean "true".toList "false".toList⟩]
      ⟨.empty, .opened .unlimited⟩
    script.1 = .ok .proceed ∧
    (Evaluation.boolean (invoke 2) script.2.scope (trueFragment 2) script.2.console).1 =
      .ok (some true) ∧
    (Evaluation.condition (invoke 2) script.2.scope (trueFragment 2) script.2.console).1 =
      .ok false ∧
    (lines 2 none [⟨3, declarationLine .boolean ['x'] "yes()".toList⟩] callable).2.scope =
      callable.scope.bind ['x'] (.boolean true) ∧
    (Evaluation.condition (invoke 2) callable.scope (callFragment 4) callable.console).1 =
      .ok false := by
  intro script
  have recognized : Statement.ofLine
      ⟨1, declarationLine .boolean "true".toList "false".toList⟩ =
        .ok (.declaration .boolean "true".toList
          ⟨"false".toList, [⟨.name "false".toList, 0, 5, by decide⟩], 1⟩) := rfl
  have ran : script = (.ok .proceed,
      ⟨Scope.empty.bind "true".toList (.boolean false), .opened .unlimited⟩) := by
    change lines 2 none _ _ = _
    rw [lines_declaration 2 none recognized, lines_nil, Run.bind_apply, declare_boolean]
    rfl
  rw [ran]
  refine ⟨rfl, rfl, rfl, ?_, rfl⟩
  rw [lines_declareCall]

end Execution

end Purr
