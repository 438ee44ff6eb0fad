import Purr.Proofs.Simulation

/-!
# Locality of names

A name that stands nowhere in the lines that are executed, nor in the functions that they can call,
is neither looked up nor bound. So what the scope says of it makes no difference, and stays as it
is. Lines can call functions and functions can define others, so "nowhere in the lines" has to be a
property that parts of lines inherit: the name is no part of their texts.
-/

namespace Purr

set_option autoImplicit false

/-- The text of the line nowhere contains a name. -/
def Line.Avoids (name : Text) (line : Line) : Prop := ¬ name <:+: line.text

/-- Neither the body of the function contains a name, nor is it the function's own. What the
parameters are called makes no difference, since a call binds them in a scope of its own. -/
structure Function.Avoids (name : Text) (function : Function) : Prop where
  body : ∀ line ∈ function.body, line.Avoids name
  named : function.header.name ≠ name

variable {name : Text}

theorem Lexer.Cut.infix_of_name {text word : Text} {found : List Lexeme} (cut : Cut 0 text found)
    (member : .name word ∈ found.map Lexeme.token) : word <:+: text := by
  obtain ⟨⟨token, span⟩, inside, rfl⟩ := List.mem_map.1 member
  obtain ⟨before, spelled, after, rfl, _, _, _, spells⟩ := cut.laidOut.words _ inside
  cases spells with
  | name _ _ => exact ⟨before, after, rfl⟩
  | mark _ => exact ⟨before, after, rfl⟩

def Reports.without (name : Text) : Reports := ⟨fun _ => True, fun _ => True, (· ≠ name)⟩

namespace Line.Avoids

variable {line : Line}

theorem ne_of_name (avoids : line.Avoids name) {word : Text} {found : List Lexeme}
    (cut : Lexer.Cut 0 line.text found) (member : .name word ∈ found.map Lexeme.token) :
    word ≠ name := by
  rintro rfl
  exact avoids (cut.infix_of_name member)

theorem allows (avoids : line.Avoids name) : (Reports.without name).Allows line where
  onLine := trivial
  outside := trivial
  stray := trivial
  command := trivial
  malformed _ _ := trivial
  fragment _ _ cut inner :=
    { placed := inner.placed
      covers :=
        { line := trivial
          names := fun _ member => avoids.ne_of_name cut (inner.tokens member)
          «variable» := fun _ _ => trivial
          function := fun _ _ => trivial
          malformed := fun _ _ => trivial }
      condition := trivial }
  declared _ _ cut member :=
    ⟨avoids.ne_of_name cut member, trivial, trivial, fun _ _ => trivial⟩

theorem function (avoids : line.Avoids name) {header : Header} {bodyStart : Text}
    {body : List Line} (recognized : Statement.ofLine line = .ok (.function header bodyStart))
    (inner : ∀ part ∈ body, part.Avoids name) :
    Function.Avoids name ⟨header, body, line.number⟩ := by
  obtain ⟨found, cut, placed⟩ := Statement.ofLine_ok_placed recognized
  exact ⟨inner, avoids.ne_of_name cut (placed.names header.name List.mem_cons_self)⟩

end Line.Avoids

theorem Line.avoids_inherited (name : Text) : Inherited (Line.Avoids name) := by
  intro line other text avoids within made contained
  obtain ⟨rfl, _⟩ := of_trimmed? made
  exact avoids (contained.trans ((Text.trim_infix text).trans within))

theorem Line.avoids_heredity (name : Text) :
    Heredity (.without name) (Function.Avoids name) Halt.Unclosed (Line.Avoids name) where
  inherited := avoids_inherited name
  allows _ avoids := avoids.allows
  function _ _ _ _ avoids recognized body := avoids.function recognized body
  unclosed line construct _ := ⟨construct, line.number, rfl⟩

/-- The scopes say the same of every name but one, and no function under another name contains
it. -/
structure Scope.Aside (name : Text) (scope other : Scope) : Prop where
  alike : ∀ key ≠ name, scope.Alike key other
  functions : ∀ key ≠ name, ∀ function, scope.functions.find? key = some function →
    function.Avoids name

namespace Scope.Aside

variable {scope other : Scope}

theorem bind (aside : scope.Aside name other) (key : Text) (value : Value) :
    (scope.bind key value).Aside name (other.bind key value) where
  alike word distinct := (aside.alike word distinct).bind key value
  functions word distinct function found := by
    rw [functions_bind] at found
    exact aside.functions word distinct function found

theorem define (aside : scope.Aside name other) {function : Function}
    (avoids : function.Avoids name) :
    (scope.define function).Aside name (other.define function) where
  alike word distinct := (aside.alike word distinct).define function
  functions word distinct called found := by
    rcases eq_or_known_of_define found with rfl | known
    · exact avoids
    · exact aside.functions word distinct called known

theorem withArguments (aside : scope.Aside name other) (parameters : List Parameter)
    (values : List Value) :
    (scope.withArguments parameters values).Aside name (other.withArguments parameters values) :=
  related_withArguments (fun _ _ key value aside => aside.bind key value) aside parameters values

end Scope.Aside

namespace Execution

structure Beside (name : Text) (mine yours : Scope) (world other : World) : Prop where
  aside : world.scope.Aside name other.scope
  mine : world.scope.Alike name mine
  yours : other.scope.Alike name yours
  console : world.console = other.console

/-- Functions that avoid a name are carried out in the same way whatever the scope says of it. -/
def Overlooks (name : Text) (invoke : Invoke) : Prop :=
  ∀ function values scope other, function.Avoids name → scope.Aside name other →
    invoke function values scope = invoke function values other

variable {mine yours : Scope}

theorem evaluation_eq {invoke : Invoke} (overlooks : Overlooks name invoke) {α : Type}
    {evaluation : Invoke → Scope → Run Console α}
    (built : Evaluation.Built (.without name) evaluation) {scope other : Scope}
    (aside : scope.Aside name other) : evaluation invoke scope = evaluation invoke other := by
  have simulates : (evaluation invoke scope).Simulates Eq Run.never (evaluation invoke other) := by
    apply (built scope other aside.alike).simulates
    · intro line fault _ _
      exact .refl _ _
    · intro key function values distinct found
      rw [overlooks function values scope other (aside.functions key distinct function found) aside]
      exact .refl _ _
  exact simulates.eq

theorem evaluate_beside {α : Type} {evaluation : Scope → Run Console α}
    (same : ∀ scope other : Scope, scope.Aside name other → evaluation scope = evaluation other) :
    (World.evaluate evaluation).Simulates (Beside name mine yours) Run.never
      (World.evaluate evaluation) where
  together := by
    rintro ⟨scope, console⟩ ⟨other, _⟩ ⟨aside, kept, others, rfl⟩
    have equal := same scope other aside
    have result : (evaluation scope console).1 = (evaluation other console).1 := by rw [equal]
    have reached : (evaluation scope console).2 = (evaluation other console).2 := by rw [equal]
    exact .inl ⟨result, aside, kept, others, reached⟩
  onward _ _ _ departed := departed

theorem modifyScope_beside {change : Scope → Scope}
    (aside : ∀ scope other : Scope, scope.Aside name other →
      (change scope).Aside name (change other))
    (kept : ∀ scope : Scope, (change scope).Alike name scope) :
    (World.modifyScope change).Simulates (Beside name mine yours) Run.never
      (World.modifyScope change) := by
  apply Run.Simulates.modify
  · intro world other beside
    exact ⟨aside world.scope other.scope beside.aside, (kept world.scope).trans beside.mine,
      (kept other.scope).trans beside.yours, beside.console⟩
  · intro _ _ _ departed
    exact departed

theorem Built.beside {allowed : Halt → Prop} {invoke : Invoke} {α : Type}
    {execution : Invoke → Run World α}
    (built : Built (.without name) (Function.Avoids name) allowed execution)
    (overlooks : Overlooks name invoke) :
    (execution invoke).Simulates (Beside name mine yours) Run.never (execution invoke) := by
  induction built with
  | pure result => exact .pure result
  | halt _ => exact .halt _
  | evaluate built => exact evaluate_beside fun _ _ aside => evaluation_eq overlooks built aside
  | write text => exact evaluate_beside fun _ _ _ => rfl
  | name value distinct =>
      apply modifyScope_beside
      · intro _ _ aside
        exact aside.bind _ value
      · intro scope
        exact .of_bind scope (Ne.symm distinct) value
  | define avoids =>
      apply modifyScope_beside
      · intro _ _ aside
        exact aside.define avoids
      · intro scope
        exact .of_define scope (Ne.symm avoids.named)
  | bind _ _ first next => exact first.bind next

theorem lines_beside {invoke : Invoke} (overlooks : Overlooks name invoke)
    (frame : Option Function) {program : List Line} (avoids : ∀ line ∈ program, line.Avoids name) :
    (code invoke frame (.ofLines program)).Simulates (Beside name mine yours) Run.never
      (code invoke frame (.ofLines program)) := by
  have framed : Framed (.without name) frame := fun _ _ => trivial
  exact (code_built framed ((Line.avoids_heredity name).code avoids)).beside overlooks

/-- By induction on how deep calls may nest, since the body of a call runs with a smaller limit. -/
theorem invoke_overlooks (name : Text) (depth : Nat) : Overlooks name (invoke depth) := by
  induction depth with
  | zero =>
      intro function values scope other _ _
      rfl
  | succ depth ih =>
      intro function values scope other avoids aside
      rw [invoke_succ]
      funext console
      have inner := aside.withArguments function.header.parameters values
      have start : Beside name (scope.withArguments function.header.parameters values)
          (other.withArguments function.header.parameters values) ⟨_, console⟩ ⟨_, console⟩ :=
        ⟨inner, .refl _ _, .refl _ _, rfl⟩
      have ⟨ending, reached⟩ :=
        (lines_beside ih (some function) avoids.body).result_eq Run.not_never start
      exact Prod.ext (congrArg (Except.map Flow.value) ending) reached.console

/-- Names are local. Two runs of the same lines, whose scopes differ only in what they say of a name
that the lines and the functions under other names avoid, end in the same way with the same console,
and their scopes still differ in that only and still say the same of the name as before. -/
theorem lines_overlook_name (depth : Nat) (frame : Option Function) (program : List Line)
    (name : Text) (scope other : Scope) (console : Console)
    (avoids : ∀ line ∈ program, line.Avoids name)
    (functions : ∀ key ≠ name, ∀ function, scope.functions.find? key = some function →
      function.Avoids name)
    (alike : ∀ key ≠ name, scope.Alike key other) :
    ∃ ending final last reached,
      lines depth frame program ⟨scope, console⟩ = (ending, ⟨final, reached⟩) ∧
      lines depth frame program ⟨other, console⟩ = (ending, ⟨last, reached⟩) ∧
      (∀ key ≠ name, final.Alike key last) ∧ final.Alike name scope ∧ last.Alike name other := by
  have start : Beside name scope other ⟨scope, console⟩ ⟨other, console⟩ :=
    ⟨⟨alike, functions⟩, .refl name scope, .refl name other, rfl⟩
  have ran :=
    (lines_beside (invoke_overlooks name depth) frame avoids).result_eq Run.not_never start
  rw [lines]
  generalize code (invoke depth) frame (.ofLines program) ⟨scope, console⟩ = first at ran ⊢
  generalize code (invoke depth) frame (.ofLines program) ⟨other, console⟩ = second at ran ⊢
  obtain ⟨ending, ⟨final, reached⟩⟩ := first
  obtain ⟨result, ⟨last, between⟩⟩ := second
  obtain ⟨rfl, aside, kept, others, rfl⟩ := ran
  exact ⟨ending, final, last, reached, rfl, rfl, aside.alike, kept, others⟩

def returnY : Function := ⟨⟨['f'], .value .text, []⟩, [⟨1, "return y;".toList⟩], 1⟩

theorem call_overlooks_x :
    let scope := (Scope.empty.bind ['y'] (.text ['h'])).define returnY
    let other := scope.bind ['x'] (.boolean true)
    ∃ ending final last reached,
      lines 2 none [⟨3, "purr ~> f();".toList⟩] ⟨scope, .opened .unlimited⟩ =
        (ending, ⟨final, reached⟩) ∧
      lines 2 none [⟨3, "purr ~> f();".toList⟩] ⟨other, .opened .unlimited⟩ =
        (ending, ⟨last, reached⟩) ∧
      (∀ key ≠ ['x'], final.Alike key last) ∧ final.Alike ['x'] scope ∧
      last.Alike ['x'] other := by
  intro scope other
  have absent (line : Line) (missing : 'x' ∉ line.text) : line.Avoids ['x'] :=
    fun contained => missing (contained.subset List.mem_cons_self)
  have avoids : returnY.Avoids ['x'] :=
    ⟨List.forall_mem_singleton.2 (absent _ (by decide)), by decide⟩
  have functions : scope.Functions (Function.Avoids ['x']) := .define .empty avoids
  apply lines_overlook_name
  · exact List.forall_mem_singleton.2 (absent _ (by decide))
  · exact fun key _ function found => functions key function found
  · exact fun key distinct => (Scope.Alike.of_bind scope distinct _).symm

end Execution

end Purr
