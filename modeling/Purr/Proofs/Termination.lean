import Mathlib.Algebra.Order.BigOperators.Group.List
import Mathlib.Algebra.Order.Group.Nat
import Purr.Proofs.Provenance
import Purr.Proofs.Simulation

/-!
# Termination

Executing lines ends if calls do. `loop` executes lines with nothing that makes sure of it: the
lines of a block, the lines after it and the bodies of functions are executed as long as there is
fuel, and what it says without fuel is left open. Where calls nest only so deep, some fuel is
enough, so that it does not matter what would be said. In one activation no line is executed twice:
every execution is charged to a character of the lines that the activation was given.
-/

namespace Purr

set_option autoImplicit false

namespace Cursor

def characters : Cursor → Nat
  | [] => 0
  | line :: rest => line.text.length + characters rest

@[simp] theorem characters_nil : characters [] = 0 := rfl

@[simp] theorem characters_cons (line : Line) (cursor : Cursor) :
    characters (line :: cursor) = line.text.length + characters cursor := rfl

@[simp] theorem characters_append (first second : Cursor) :
    characters (first ++ second) = characters first + characters second := by
  induction first with
  | nil => simp
  | cons line rest ih => simp [ih, Nat.add_assoc]

theorem characters_toList_trimmed?_le (number : Nat) (text : Text) :
    characters (Line.trimmed? number text).toList ≤ text.length := by
  cases made : Line.trimmed? number text with
  | none => exact Nat.zero_le _
  | some line =>
      obtain ⟨rfl, _⟩ := Line.of_trimmed? made
      simpa using text.length_trim_le

theorem characters_push?_trimmed?_le (number : Nat) (text : Text) (cursor : Cursor) :
    characters (push? (Line.trimmed? number text) cursor) ≤ text.length + characters cursor := by
  cases made : Line.trimmed? number text with
  | none => exact Nat.le_add_left _ _
  | some line =>
      obtain ⟨rfl, _⟩ := Line.of_trimmed? made
      simpa [push?, push] using text.length_trim_le

end Cursor

namespace Block

theorem characters_collectFrom_le {construct : Construct} {opened depth : Nat}
    {lines body rest : List Line}
    (collected : collectFrom construct opened depth lines = .ok (body, rest)) :
    Cursor.characters body + Cursor.characters rest ≤ Cursor.characters lines := by
  induction lines generalizing depth body rest with
  | nil => cases collected
  | cons line others ih =>
      unfold collectFrom at collected
      split at collected
      next deeper _ =>
        obtain ⟨⟨innerBody, innerRest⟩, inner, same⟩ := bind_eq_ok_iff.1 collected
        cases same
        have later := ih inner
        simp only [Cursor.characters_cons]
        omega
      next position _ =>
        split at collected
        next head _ tail cut dropped =>
          cases collected
          have shorter := length_lt_of_closed cut dropped
          have before := Cursor.characters_toList_trimmed?_le line.number head
          have after := Cursor.characters_push?_trimmed?_le line.number tail others
          simp only [Cursor.characters_cons]
          omega
        next => cases collected
      next => cases collected

theorem characters_collect_lt {line : Line} {construct : Construct} {bodyStart : Text}
    {cursor body rest : List Line} (opens : line.Opens construct bodyStart)
    (collected : collect construct line.number bodyStart cursor = .ok (body, rest)) :
    Cursor.characters body + Cursor.characters rest < Cursor.characters (line :: cursor) := by
  obtain ⟨statement, recognized, opened⟩ := opens
  have shorter := Statement.length_lt_of_ofLine recognized
    (Statement.blockStart?_of_opens? opened)
  have collected := characters_collectFrom_le collected
  have pushed := Cursor.characters_push?_trimmed?_le line.number bodyStart cursor
  simp only [Cursor.characters_cons]
  omega

end Block

namespace Item

def blocks : Item → List Line
  | .branch _ yes no _ => yes ++ no
  | _ => []

theorem Sound.parts {reports : Reports} {kept : Line → Prop} {good : Function → Prop}
    {allowed : Halt → Prop} {line : Line} {item : Item}
    (sound : item.Sound reports (fun lines => ∀ part ∈ lines, kept part) good allowed line) :
    (∀ part ∈ item.blocks, kept part) ∧ ∀ part ∈ item.rest?.getD [], kept part := by
  cases item with
  | branch condition yes no rest =>
      obtain ⟨_, yesKept, noKept, restKept⟩ := sound
      exact ⟨List.forall_mem_append.2 ⟨yesKept, noKept⟩, restKept⟩
  | action work rest | definition header body rest | strayElse rest => exact ⟨nofun, sound.2⟩
  | broken before halt => exact ⟨nofun, nofun⟩

theorem weight_parts_lt (line : Line) (cursor : Cursor) :
    Cursor.weight (read line cursor).blocks +
        Cursor.weight ((read line cursor).rest?.getD []) <
      Cursor.weight (line :: cursor) := by
  have lighter := weight_left_read_lt line cursor
  generalize read line cursor = item at lighter ⊢
  cases item with
  | branch condition yes no rest =>
      rw [left, Cursor.weight_append] at lighter
      exact lighter
  | action work rest | definition header body rest | strayElse rest =>
      simpa [blocks, rest?, left] using lighter
  | broken before halt => simpa [blocks, rest?, left] using lighter

theorem characters_read_lt {line : Line} (cursor : Cursor) (nonblank : line.text ≠ []) :
    Cursor.characters (read line cursor).blocks +
        Cursor.characters ((read line cursor).rest?.getD []) <
      Cursor.characters (line :: cursor) := by
  have positive := List.length_pos_iff.2 nonblank
  have shape := read_shape line cursor
  generalize read line cursor = item at shape
  cases shape with
  | action _ =>
      simp only [blocks, rest?, Option.getD, Cursor.characters_nil, Cursor.characters_cons]
      omega
  | definition recognized collected =>
      have fewer := Block.characters_collect_lt ⟨_, recognized, rfl⟩ collected
      simp only [blocks, rest?, Option.getD, Cursor.characters_nil] at fewer ⊢
      omega
  | branch recognized collected =>
      have fewer := Block.characters_collect_lt ⟨_, recognized, rfl⟩ collected
      simpa [blocks, rest?] using fewer
  | alternative recognized collected elseOpens elseCollected =>
      have fewer := Block.characters_collect_lt ⟨_, recognized, rfl⟩ collected
      have fewest := Block.characters_collect_lt elseOpens elseCollected
      simp only [blocks, rest?, Option.getD, Cursor.characters_append]
      omega
  | strayElse recognized collected =>
      have fewer := Block.characters_collect_lt ⟨_, recognized, rfl⟩ collected
      simp only [blocks, rest?, Option.getD, Cursor.characters_nil] at fewer ⊢
      omega
  | broken _ _ _ | brokenElse _ _ _ _ =>
      simp only [blocks, rest?, Option.getD, Cursor.characters_nil, Cursor.characters_cons]
      omega

end Item

/-- A world, and how many lines an activation has executed: those of its blocks included, and those
of the functions that it calls left out. -/
structure Tally where
  world : World
  executed : Nat

namespace Tally

def act {α : Type} (run : Run World α) : Run Tally α := fun tally =>
  ((run tally.world).1, { tally with world := (run tally.world).2 })

def count : Run Tally Unit := Run.modify fun tally => { tally with executed := tally.executed + 1 }

end Tally

namespace Execution

def activation (run : Run Tally Flow) : Run World Flow := fun world =>
  ((run ⟨world, 0⟩).1, (run ⟨world, 0⟩).2.world)

/-- Calls that may nest as deep as a limit, or without a limit. -/
def calls (execute : Option Nat → Option Function → List Line → Run World Flow) :
    Option Nat → Invoke
  | none => carry (execute none)
  | some 0 => fun _ _ _ => Run.halt .tooDeep
  | some (depth + 1) => carry (execute (some depth))

def perform (invoke : Invoke) (execute : List Line → Run Tally Flow) (frame : Option Function)
    (line : Line) : Item → Run Tally Flow
  | .branch condition yes no _ => do
      let holds ← Tally.act <|
        World.evaluate fun scope => Evaluation.condition invoke scope condition
      execute (if holds then yes else no)
  | item => Tally.act (code invoke frame (item.alone line))

/-- Executes lines as long as there is fuel, and halts when it is spent. Nothing is known of the
lines that are left. -/
def loop (spent : Halt) :
    Nat → Option Nat → Option Function → List Line → Run Tally Flow
  | 0, _, _, _ => Run.halt spent
  | _ + 1, _, _, [] => return .proceed
  | fuel + 1, limit, frame, line :: cursor => do
      Tally.count
      let invoke :=
        calls (fun limit frame body => activation (loop spent fuel limit frame body)) limit
      match ← perform invoke (loop spent fuel limit frame) frame line (Item.read line cursor) with
      | .proceed => loop spent fuel limit frame ((Item.read line cursor).rest?.getD [])
      | .returned value => return .returned value

end Execution

/-- Wherever the run begins, it executes no more than so many lines. -/
def Run.Adds {α : Type} (run : Run Tally α) (most : Nat) : Prop :=
  ∀ tally, (run tally).2.executed ≤ tally.executed + most

namespace Run.Adds

variable {α β : Type}

theorem pure (result : α) (most : Nat) : Run.Adds (Pure.pure result) most :=
  fun _ => Nat.le_add_right _ _

theorem act (run : Run World α) (most : Nat) : Run.Adds (Tally.act run) most :=
  fun _ => Nat.le_add_right _ _

theorem mono {run : Run Tally α} {few most : Nat} (adds : run.Adds few) (le : few ≤ most) :
    run.Adds most := by
  intro tally
  have added := adds tally
  omega

theorem bind {first : Run Tally α} {next : α → Run Tally β} {few more : Nat}
    (before : first.Adds few) (after : ∀ result, (next result).Adds more) :
    (first >>= next).Adds (few + more) := by
  intro tally
  have added := before tally
  rw [Run.bind_apply]
  generalize first tally = ran at added ⊢
  obtain ⟨result, reached⟩ := ran
  cases result with
  | error reason => exact Nat.le_trans added (by omega)
  | ok value =>
      have later := after value reached
      dsimp only at added ⊢
      omega

end Run.Adds

namespace Execution

theorem perform_adds (invoke : Invoke) {execute : List Line → Run Tally Flow}
    (adds : ∀ lines, (∀ line ∈ lines, line.text ≠ []) →
      (execute lines).Adds (Cursor.characters lines))
    (frame : Option Function) (line : Line) {item : Item}
    (nonblank : ∀ part ∈ item.blocks, part.text ≠ []) :
    (perform invoke execute frame line item).Adds (Cursor.characters item.blocks) := by
  cases item with
  | branch condition yes no rest =>
      obtain ⟨yesNonblank, noNonblank⟩ := List.forall_mem_append.1 nonblank
      rw [Item.blocks, Cursor.characters_append, ← Nat.zero_add (_ + _)]
      apply (Run.Adds.act _ 0).bind
      intro holds
      cases holds with
      | true => exact (adds yes yesNonblank).mono (Nat.le_add_right _ _)
      | false => exact (adds no noNonblank).mono (Nat.le_add_left _ _)
  | action | definition | strayElse | broken => exact .act _ _

theorem nonblank_inherited : Line.Inherited fun line => line.text ≠ [] := by
  intro line other text _ _ made
  obtain ⟨rfl, nonblank⟩ := Line.of_trimmed? made
  exact nonblank

theorem nonblank_heredity :
    Line.Heredity .any anyFunction Halt.Unclosed fun line => line.text ≠ [] where
  inherited := nonblank_inherited
  allows line _ := Reports.allows_any line
  function _ _ _ _ _ _ _ := trivial
  unclosed line construct _ := ⟨construct, line.number, rfl⟩

/-- An activation executes at most as many lines as it is given characters, however it goes on and
however deep its calls nest. By induction on the fuel: the line that is executed pays with a
character of its own, and its blocks and what is left in the cursor share the others. -/
theorem loop_adds (spent : Halt) (fuel : Nat) (limit : Option Nat) (frame : Option Function)
    {cursor : List Line} (nonblank : ∀ line ∈ cursor, line.text ≠ []) :
    (loop spent fuel limit frame cursor).Adds (Cursor.characters cursor) := by
  induction fuel generalizing limit frame cursor with
  | zero => exact fun _ => Nat.le_add_right _ _
  | succ fuel ih =>
      cases cursor with
      | nil => exact .pure _ _
      | cons line cursor =>
          have fewer := Item.characters_read_lt cursor (nonblank line List.mem_cons_self)
          have shares : 1 + (Cursor.characters (Item.read line cursor).blocks +
              Cursor.characters ((Item.read line cursor).rest?.getD [])) ≤
              Cursor.characters (line :: cursor) := by omega
          obtain ⟨blocks, rest⟩ := (nonblank_heredity.sound nonblank).parts
          have one : Tally.count.Adds 1 := fun _ => Nat.le_refl _
          apply Run.Adds.mono _ shares
          rw [loop]
          apply one.bind
          intro _
          apply (perform_adds _ (fun lines => ih limit frame) frame line blocks).bind
          intro flow
          cases flow with
          | proceed => exact ih limit frame rest
          | returned value => exact .pure _ _

end Execution

def Function.Light (most : Nat) (function : Function) : Prop :=
  Cursor.weight function.body ≤ most

theorem Cursor.weight_heredity (most : Nat) :
    Heredity .any (Function.Light most) Halt.Unclosed fun cursor => weight cursor ≤ most := by
  have lighter {line : Line} {cursor : Cursor} {construct : Construct} {bodyStart : Text}
      {body rest : List Line} (light : weight (line :: cursor) ≤ most)
      (opens : line.Opens construct bodyStart)
      (collected : Block.collect construct line.number bodyStart cursor = .ok (body, rest)) :
      weight body ≤ most ∧ weight rest ≤ most := by
    obtain ⟨statement, recognized, opened⟩ := opens
    have shorter := Statement.length_lt_of_ofLine recognized
      (Statement.blockStart?_of_opens? opened)
    have parts := Block.weight_collect_le collected
    simp only [weight_cons, Line.weight] at light
    omega
  exact
    { nil := Nat.zero_le most
      taken := fun _ _ light => Nat.le_trans (Nat.le_add_left _ _) light
      collect := fun _ _ _ _ _ _ light opens collected => lighter light opens collected
      allows := fun line _ _ => Reports.allows_any line
      function := fun _ _ _ _ _ _ light recognized collected =>
        (lighter light ⟨_, recognized, rfl⟩ collected).1
      unclosed := fun line _ construct _ _ _ _ failed =>
        ⟨construct, line.number, Block.eq_of_collect_error failed⟩ }

theorem Scope.exists_light (scope : Scope) (least : Nat) :
    ∃ most, least ≤ most ∧ scope.Functions (Function.Light most) := by
  let weights := scope.functions.entries.map fun entry => Cursor.weight entry.2.body
  refine ⟨least + weights.sum, Nat.le_add_right _ _, ?_⟩
  intro name function found
  have member : (name, function) ∈ scope.functions.entries := by
    obtain ⟨before, after, same, _⟩ := List.lookup_eq_some_iff.1 found
    rw [same]
    exact List.mem_append_right _ List.mem_cons_self
  have within : Cursor.weight function.body ≤ weights.sum :=
    List.le_sum_of_mem (List.mem_map_of_mem member)
  exact Nat.le_trans within (Nat.le_add_left _ _)

namespace Execution

def Level (most : Nat) (tally : Tally) (world : World) : Prop :=
  Abreast (Function.Light most) Eq tally.world world

def Behind (most : Nat) (stops : Halt → Prop) (reason : Halt) (tally : Tally) (world : World) :
    Prop :=
  Apart (Function.Light most) (fun reason _ _ => stops reason) reason tally.world world

variable {most : Nat} {stops : Halt → Prop}

theorem act_simulates {α : Type} {run other : Run World α}
    (simulates : run.Simulates (Abreast (Function.Light most) Eq)
      (Apart (Function.Light most) fun reason _ _ => stops reason) other) :
    (Tally.act run).Simulates (Level most) (Behind most stops) other where
  together tally world level := simulates.together tally.world world level
  onward reason tally world behind := simulates.onward reason tally.world world behind

theorem activation_simulates {run : Run Tally Flow} {other : Run World Flow}
    (simulates : run.Simulates (Level most) (Behind most stops) other) :
    (activation run).Simulates (Abreast (Function.Light most) Eq)
      (Apart (Function.Light most) fun reason _ _ => stops reason) other where
  together world other abreast := simulates.together ⟨world, 0⟩ other abreast
  onward reason world other apart := simulates.onward reason ⟨world, 0⟩ other apart

theorem count_simulates {α : Type} {next : Run Tally α} {other : Run World α}
    (simulates : next.Simulates (Level most) (Behind most stops) other) :
    (Tally.count >>= fun _ => next).Simulates (Level most) (Behind most stops) other where
  together tally world level := simulates.together ⟨tally.world, tally.executed + 1⟩ world level
  onward reason tally world behind :=
    simulates.onward reason ⟨tally.world, tally.executed + 1⟩ world behind

theorem built_simulates {allowed : Halt → Prop} {α : Type} {execution : Invoke → Run World α}
    {invoke other : Invoke} (built : Built .any (Function.Light most) allowed execution)
    (matched : Match (Function.Light most) Eq (fun reason _ _ => stops reason) invoke other) :
    (Tally.act (execution invoke)).Simulates (Level most) (Behind most stops)
      (execution other) := by
  apply act_simulates
  apply built.simulates _ _ matched
  · intro line fault _ _
    exact .refl _ stops
  · intro text
    exact .refl _ stops

theorem perform_simulates {invoke other : Invoke} {execute : List Line → Run Tally Flow}
    {frame : Option Function} {line : Line} {item : Item}
    (matched : Match (Function.Light most) Eq (fun reason _ _ => stops reason) invoke other)
    (sound : item.Sound .any (fun lines => Cursor.weight lines ≤ most) (Function.Light most)
      Halt.Unclosed line)
    (blocks : ∀ lines, Cursor.weight lines ≤ Cursor.weight item.blocks →
      (execute lines).Simulates (Level most) (Behind most stops)
        (code other frame (.ofLines lines))) :
    (perform invoke execute frame line item).Simulates (Level most) (Behind most stops)
      (code other frame (item.alone line)) := by
  have alone := sound.alone fun _ light => (Cursor.weight_heredity most).code light
  cases item with
  | branch condition yes no rest =>
      have whole := Cursor.weight_append yes no
      have built : Built .any (Function.Light most) Halt.Unclosed fun invoke =>
          World.evaluate fun scope => Evaluation.condition invoke scope condition :=
        condition_built alone.1
      rw [Item.alone, code_branch]
      simp only [andThen_done, bind_pure]
      apply (built_simulates built matched).bind
      intro holds
      cases holds with
      | true => exact blocks yes (by rw [Item.blocks]; omega)
      | false => exact blocks no (by rw [Item.blocks]; omega)
  | action | definition | strayElse | broken =>
      exact built_simulates (code_built (.any frame) alone) matched

/-- What it takes for calls under some limits to be carried out like calls that nest only so deep:
at the limit itself, and where a body is executed with a smaller limit. -/
structure Limits (stops : Halt → Prop) (limit : Nat → Option Nat) : Prop where
  zero : ∀ most execute, Match (Function.Light most) Eq (fun reason _ _ => stops reason)
    (calls execute (limit 0)) (invoke 0)
  succ : ∀ execute depth, calls execute (limit (depth + 1)) = carry (execute (limit depth))

theorem calls_match {limit : Nat → Option Nat} (limits : Limits stops limit) (depth : Nat)
    {execute : Option Nat → Option Function → List Line → Run World Flow}
    (bodies : ∀ less < depth, ∀ function : Function, function.Light most →
      (execute (limit less) (some function) function.body).Simulates
        (Abreast (Function.Light most) Eq)
        (Apart (Function.Light most) fun reason _ _ => stops reason)
        (lines less (some function) function.body)) :
    Match (Function.Light most) Eq (fun reason _ _ => stops reason) (calls execute (limit depth))
      (invoke depth) := by
  cases depth with
  | zero => exact limits.zero most execute
  | succ depth =>
      rw [limits.succ, invoke_succ]
      exact carry_simulates (bodies depth (Nat.lt_succ_self depth))

/-- Fuel is enough if there is some for each line, and for the lines of a body in each call that may
be nested in another. By induction on the fuel. -/
theorem loop_simulates {limit : Nat → Option Nat} (limits : Limits stops limit) (spent : Halt)
    (fuel depth : Nat) (frame : Option Function) {cursor : List Line}
    (light : Cursor.weight cursor ≤ most)
    (enough : depth * (most + 1) + Cursor.weight cursor < fuel) :
    (loop spent fuel (limit depth) frame cursor).Simulates (Level most) (Behind most stops)
      (lines depth frame cursor) := by
  induction fuel generalizing depth frame cursor with
  | zero => exact absurd enough (Nat.not_lt_zero _)
  | succ fuel ih =>
      cases cursor with
      | nil =>
          rw [lines_nil]
          exact .pure _
      | cons line cursor =>
          have sound := (Cursor.weight_heredity most).sound light
          have lighter := Item.weight_parts_lt line cursor
          have matched : Match (Function.Light most) Eq (fun reason _ _ => stops reason)
              (calls (fun limit frame body => activation (loop spent fuel limit frame body))
                (limit depth)) (invoke depth) := by
            apply calls_match limits depth
            intro less fewer function called
            apply activation_simulates
            apply ih less (some function) called
            have levels := Nat.mul_le_mul_right (most + 1) (Nat.succ_le_of_lt fewer)
            have body : Cursor.weight function.body ≤ most := called
            rw [Nat.succ_mul] at levels
            omega
          rw [loop, lines_cons_read]
          apply count_simulates
          apply Run.Simulates.bind
          · apply perform_simulates matched sound
            intro lines fewer
            exact ih depth frame (by omega) (by omega)
          · intro flow
            cases flow with
            | proceed => exact ih depth frame (by omega) (by omega)
            | returned value => exact .pure _

theorem Abreast.eq {good : Function → Prop} {world other : World}
    (abreast : Abreast good Eq world other) : world = other := by
  obtain ⟨scope, console⟩ := world
  obtain ⟨_, _⟩ := other
  obtain ⟨rfl, _, rfl⟩ := abreast
  rfl

/-- With enough fuel lines are executed to the end, unless the run that nests only so deep has
stopped. -/
theorem exists_fuel {limit : Nat → Option Nat} (limits : Limits stops limit) (depth : Nat)
    (frame : Option Function) (program : List Line) (world : World)
    (ends : ∀ reason, (lines depth frame program world).1 = .error reason → ¬ stops reason) :
    ∃ least, ∀ fuel ≥ least, ∀ spent,
      activation (loop spent fuel (limit depth) frame program) world =
        lines depth frame program world := by
  obtain ⟨most, light, functions⟩ := world.scope.exists_light (Cursor.weight program)
  refine ⟨depth * (most + 1) + Cursor.weight program + 1, ?_⟩
  intro fuel enough spent
  have simulates := activation_simulates (loop_simulates limits spent fuel depth frame light enough)
  rcases simulates.together world world ⟨rfl, functions, rfl⟩ with
    ⟨result, reached⟩ | ⟨reason, stopped, behind⟩
  · exact Prod.ext result reached.eq
  · exact absurd behind.console (ends reason stopped)

theorem limits_some : Limits (fun _ => False) some where
  zero most execute := by
    intro function values scope _ _
    exact .halt .tooDeep
  succ execute depth := rfl

/-- Without a limit only a run with one stops, at a call that is nested too deep. -/
theorem limits_none : Limits (· = .tooDeep) fun _ => none where
  zero most execute := by
    intro function values scope _ _
    constructor
    · intro console other same
      exact .inr ⟨.tooDeep, rfl, rfl⟩
    · intro reason console other stopped
      exact stopped
  succ execute depth := rfl

end Execution

def Code.functions : Code → List Function
  | .done | .broken _ _ _ => []
  | .action _ _ next | .strayElse _ next => next.functions
  | .definition _ function next => function :: next.functions
  | .branch _ _ yes no next => yes.functions ++ no.functions ++ next.functions

theorem Code.Sound.of_functions {reports : Reports} {good special : Function → Prop}
    {allowed : Halt → Prop} {code : Code} (sound : code.Sound reports good allowed)
    (all : ∀ function ∈ code.functions, special function) :
    code.Sound reports special allowed := by
  induction code with
  | done => trivial
  | action line work next ih => exact ⟨sound.1, ih sound.2 all⟩
  | definition line function next ih =>
      obtain ⟨first, later⟩ := List.forall_mem_cons.1 all
      exact ⟨first, ih sound.2 later⟩
  | branch line condition yes no next ihYes ihNo ihNext =>
      obtain ⟨fits, soundYes, soundNo, later⟩ := sound
      obtain ⟨blocks, allNext⟩ := List.forall_mem_append.1 all
      obtain ⟨allYes, allNo⟩ := List.forall_mem_append.1 blocks
      exact ⟨fits, ihYes soundYes allYes, ihNo soundNo allNo, ihNext later allNext⟩
  | strayElse line next ih => exact ⟨sound.1, ih sound.2 all⟩
  | broken line before halt => exact sound

namespace Execution

/-- Lines that define no function, where none is known, make no call at all. -/
theorem lines_ne_tooDeep (depth : Nat) (frame : Option Function) {program : List Line}
    (plain : (Code.ofLines program).functions = []) {world : World}
    (unknown : world.scope.functions = .empty) :
    (lines depth frame program world).1 ≠ .error .tooDeep := by
  have sound : (Code.ofLines program).Sound .any (fun _ => False) (· ≠ .tooDeep) := by
    apply Code.Sound.mono ((Code.sound_any program).of_functions _)
    · rintro _ ⟨_, _, rfl⟩
      simp
    · rw [plain]
      exact nofun
  have obeys : Obeys (fun _ => False) (fun _ => True) (· ≠ .tooDeep) (invoke depth) :=
    fun _ _ _ impossible => impossible.elim
  have none : world.scope.Functions fun _ => False := by
    intro name function found
    rw [unknown] at found
    cases found
  have kept := (code_built (.any frame) sound).keeps
    (fun line fault _ _ => Console.report_keeps _ line fault)
    (Console.write_keeps (fun _ _ _ => trivial) (by simp)) obeys
  intro nested
  exact (kept world ⟨none, trivial⟩).2 .tooDeep nested rfl

/-- Executing lines goes on forever only if calls do. Where they nest only so deep, or where a run
that stops at a deeper call never stops for it, there is enough fuel to come to the end; in
particular where no function is known or defined. An activation, be it of the top level or of a call,
executes at most as many lines as it is given characters. -/
theorem ends_unless_calls_nest (source : Text) (frame : Option Function) (world : World) :
    (∀ depth, ∃ least, ∀ fuel ≥ least, ∀ spent,
      activation (loop spent fuel (some depth) frame (codeLines source)) world =
        lines depth frame (codeLines source) world) ∧
    (∀ depth, (lines depth frame (codeLines source) world).1 ≠ .error .tooDeep →
      ∃ least, ∀ fuel ≥ least, ∀ spent,
        activation (loop spent fuel none frame (codeLines source)) world =
          lines depth frame (codeLines source) world) ∧
    ((Code.ofLines (codeLines source)).functions = [] → world.scope.functions = .empty →
      ∃ least, ∀ fuel ≥ least, ∀ spent,
        activation (loop spent fuel none frame (codeLines source)) world =
          lines 0 frame (codeLines source) world) ∧
    (∀ spent fuel limit,
      (loop spent fuel limit frame (codeLines source) ⟨world, 0⟩).2.executed ≤
        Cursor.characters (codeLines source)) ∧
    ∀ depth streams inner caller cursor state,
      Reached depth streams source inner caller cursor state →
      ∀ name function, state.scope.functions.find? name = some function →
      ∀ spent fuel limit,
        (loop spent fuel limit (some function) function.body ⟨world, 0⟩).2.executed ≤
          Cursor.characters function.body := by
  have unlimited (depth : Nat)
      (shallow : (lines depth frame (codeLines source) world).1 ≠ .error .tooDeep) :=
    exists_fuel limits_none depth frame (codeLines source) world (by
      rintro reason halted rfl
      exact shallow halted)
  have executed (lines : List Line) (kept : Cursor.From source lines) (frame : Option Function)
      (spent : Halt) (fuel : Nat) (limit : Option Nat) :
      (loop spent fuel limit frame lines ⟨world, 0⟩).2.executed ≤ Cursor.characters lines := by
    have nonblank (line : Line) (member : line ∈ lines) : line.text ≠ [] := by
      have own := kept line member
      rw [← own.trimmed]
      exact own.nonblank
    have adds := loop_adds spent fuel limit frame nonblank ⟨world, 0⟩
    rwa [Nat.zero_add] at adds
  refine ⟨?_, unlimited, ?_, executed _ (codeLines_from source) frame, ?_⟩
  · intro depth
    exact exists_fuel limits_some depth frame (codeLines source) world fun _ _ => id
  · intro plain unknown
    exact unlimited 0 (lines_ne_tooDeep 0 frame plain unknown)
  · intro depth streams inner caller cursor state reached name function found
    obtain ⟨_, _, functions⟩ := reached.kept
    exact executed _ (functions name function found).body (some function)

theorem lines_openBranch_ne_tooDeep :
    (lines 0 none (codeLines openBranch) ⟨.empty, .opened .unlimited⟩).1 ≠ .error .tooDeep := by
  intro nested
  have halted := halt_openBranch
  rw [Script.run_eq, Script.execute, Run.bind_apply] at halted
  generalize lines 0 none (codeLines openBranch) ⟨.empty, .opened .unlimited⟩ = ran at nested halted
  obtain ⟨result, world⟩ := ran
  cases nested
  cases halted

theorem functions_unclosedFunction :
    (Code.ofLines (codeLines unclosedFunction)).functions = [] := by
  have lines : codeLines unclosedFunction = [⟨1, unclosedFunction⟩] := by decide +kernel
  have read : Item.read ⟨1, unclosedFunction⟩ [] =
      .broken .nothing (.fatal (.unterminatedBlock .function 1)) := rfl
  rw [lines, Code.ofLines_broken read]
  rfl

theorem open_branch_ends :
    (∃ least, ∀ fuel ≥ least, ∀ spent,
      activation (loop spent fuel none none (codeLines openBranch)) ⟨.empty, .opened .unlimited⟩ =
        lines 0 none (codeLines openBranch) ⟨.empty, .opened .unlimited⟩) ∧
    (∃ least, ∀ fuel ≥ least, ∀ spent,
      activation (loop spent fuel none none (codeLines unclosedFunction))
          ⟨.empty, .opened .unlimited⟩ =
        lines 0 none (codeLines unclosedFunction) ⟨.empty, .opened .unlimited⟩) ∧
    ∀ spent fuel limit,
      (loop spent fuel limit (some ⟨⟨['f'], .nothing, []⟩, [⟨1, "purr y;".toList⟩], 1⟩)
        [⟨1, "purr y;".toList⟩] ⟨⟨.empty, .opened .unlimited⟩, 0⟩).2.executed ≤ 7 := by
  obtain ⟨_, called, _, _, bodies⟩ :=
    ends_unless_calls_nest openBranch none ⟨.empty, .opened .unlimited⟩
  obtain ⟨_, _, plain, _⟩ :=
    ends_unless_calls_nest unclosedFunction none ⟨.empty, .opened .unlimited⟩
  have first := @Reached.start 0 .unlimited openBranch
  rw [codeLines_openBranch] at first
  refine ⟨called 0 lines_openBranch_ne_tooDeep, plain functions_unclosedFunction rfl, ?_⟩
  exact bodies 0 .unlimited _ _ _ _ (first.next rfl) ['f'] _ rfl

end Execution

end Purr
