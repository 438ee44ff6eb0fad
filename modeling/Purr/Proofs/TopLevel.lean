import Purr.Proofs.Positions

/-!
# The top level

Searching and splitting count parentheses on their way. Here the depth is that of a place: the
number of parentheses open before a lexeme, where one that closes nothing is passed over. The depth
of each place decides what a search finds and where pieces start. Since every piece starts at depth
zero it can be read alone, and there is only one way to take lexemes apart into such pieces.
-/

namespace Purr

set_option autoImplicit false

def tokenAt? (lexemes : List Lexeme) (index : Nat) : Option Token :=
  lexemes[index]?.map Lexeme.token

/-- The depth before the lexeme at an index, where some parentheses are open already. -/
def depthAt (depth : Nat) (lexemes : List Lexeme) (index : Nat) : Nat :=
  (lexemes.take index).foldl (fun reached lexeme => depthAfter reached lexeme.token) depth

@[simp]
theorem depthAt_zero (depth : Nat) (lexemes : List Lexeme) : depthAt depth lexemes 0 = depth := by
  simp [depthAt]

@[simp]
theorem depthAt_succ (depth : Nat) (lexeme : Lexeme) (rest : List Lexeme) (index : Nat) :
    depthAt depth (lexeme :: rest) (index + 1) =
      depthAt (depthAfter depth lexeme.token) rest index := by
  simp [depthAt]

theorem depthAt_add (depth : Nat) (lexemes : List Lexeme) (start count : Nat) :
    depthAt depth lexemes (start + count) =
      depthAt (depthAt depth lexemes start) (lexemes.drop start) count := by
  simp only [depthAt, List.take_add, List.foldl_append]

theorem depthAt_next {lexemes : List Lexeme} {index : Nat} {token : Token}
    (found : tokenAt? lexemes index = some token) (depth : Nat) :
    depthAt depth lexemes (index + 1) = depthAfter (depthAt depth lexemes index) token := by
  obtain ⟨lexeme, stands, rfl⟩ := Option.map_eq_some_iff.1 found
  simp [depthAt, List.take_add_one, stands]

theorem depthAfter_of_plain {token : Token} (plain : isParen token = false) (depth : Nat) :
    depthAfter depth token = depth := by
  cases token with
  | leftParen | rightParen => cases plain
  | _ => rfl

theorem Token.equals_cases {token other : Token} (equal : token.equals other = true) :
    token = other ∨ ∃ value another, token = .number value ∧ other = .number another := by
  unfold equals at equal
  split at equal
  next value another => exact .inr ⟨value, another, rfl, rfl⟩
  next => exact .inl (of_decide_eq_true equal)

theorem isParen_of_equals {token other : Token} (equal : token.equals other = true) :
    isParen token = isParen other := by
  rcases token.equals_cases equal with rfl | ⟨_, _, rfl, rfl⟩
  · rfl
  · rfl

/-- A wanted token stands at the index, and no parenthesis is open there. -/
def exposed (wanted : Token → Bool) (depth : Nat) (lexemes : List Lexeme) (index : Nat) : Bool :=
  depthAt depth lexemes index = 0 && (tokenAt? lexemes index).any wanted

@[simp]
theorem exposed_zero (wanted : Token → Bool) (depth : Nat) (lexeme : Lexeme)
    (rest : List Lexeme) :
    exposed wanted depth (lexeme :: rest) 0 = (depth = 0 && wanted lexeme.token) := by
  simp [exposed, tokenAt?]

@[simp]
theorem exposed_succ (wanted : Token → Bool) (depth : Nat) (lexeme : Lexeme)
    (rest : List Lexeme) :
    exposed wanted depth (lexeme :: rest) ∘ Nat.succ =
      exposed wanted (depthAfter depth lexeme.token) rest := by
  funext index
  simp [exposed, tokenAt?]

theorem findFrom_eq_find? (wanted : Token → Bool) (depth : Nat) (lexemes : List Lexeme) :
    findFrom wanted depth lexemes = (List.range lexemes.length).find?
      (exposed (fun token => !isParen token && wanted token) depth lexemes) := by
  induction lexemes generalizing depth with
  | nil => rfl
  | cons lexeme rest ih =>
      rw [findFrom, List.length_cons, List.range_succ_eq_map, List.find?_cons, exposed_zero,
        List.find?_map, exposed_succ, ← ih, ← Bool.and_assoc]
      split
      next found => simp only [found]
      next found => simp only [Bool.eq_false_iff.2 found]

/-- The pieces with a mark between each two, a token that separates, are the lexemes. There is at
least one piece, so that no lexemes are one empty piece. -/
inductive Joins (separates : Token → Bool) : List (List Lexeme) → List Lexeme → Prop where
  | last (piece : List Lexeme) : Joins separates [piece] piece
  | more (piece : List Lexeme) {pieces : List (List Lexeme)} {mark : Lexeme} {rest : List Lexeme}
      (cut : separates mark.token = true) (joined : Joins separates pieces rest) :
      Joins separates (piece :: pieces) (piece ++ mark :: rest)

/-- The indexes at which pieces start in what they join to. -/
def starts : List (List Lexeme) → List Nat
  | [] => []
  | piece :: later => 0 :: (starts later).map (· + (piece.length + 1))

theorem Joins.extendFirst {separates : Token → Bool} {pieces : List (List Lexeme)}
    {rest : List Lexeme} (joined : Joins separates pieces rest) (lexeme : Lexeme) :
    Joins separates (extendFirst lexeme pieces) (lexeme :: rest) := by
  cases joined with
  | last => exact .last (lexeme :: rest)
  | more piece cut joined => exact .more (lexeme :: piece) cut joined

theorem Joins.exists_cons {separates : Token → Bool} {pieces : List (List Lexeme)}
    {rest : List Lexeme} (joined : Joins separates pieces rest) :
    ∃ piece later, pieces = piece :: later := by
  cases joined with
  | last => exact ⟨rest, [], rfl⟩
  | more piece _ _ => exact ⟨piece, _, rfl⟩

theorem Joins.intercalate {separates : Token → Bool} {separator : Token}
    (only : ∀ token, separates token = true → token = separator) {pieces : List (List Lexeme)}
    {lexemes : List Lexeme} (joined : Joins separates pieces lexemes) :
    [separator].intercalate (pieces.map (List.map Lexeme.token)) = lexemes.map Lexeme.token := by
  induction joined with
  | last piece => simp
  | more piece cut joined ih =>
      obtain ⟨next, later, rfl⟩ := joined.exists_cons
      simp only [List.map_cons, List.intercalate_cons_cons, List.map_append, only _ cut] at ih ⊢
      rw [ih, List.append_assoc]
      rfl

theorem apart_iff {separator token : Token} {depth : Nat} :
    (depth = 0 && !isParen token && token.equals separator) = true ↔
      depth = 0 ∧ isParen token = false ∧ token.equals separator = true := by
  simp [and_assoc]

theorem splitFrom_joins (separator : Token) (depth : Nat) (lexemes : List Lexeme) :
    Joins (·.equals separator) (splitFrom separator depth lexemes) lexemes := by
  induction lexemes generalizing depth with
  | nil => exact .last []
  | cons lexeme rest ih =>
      rw [splitFrom]
      split
      next apart =>
        obtain ⟨_, _, separates⟩ := apart_iff.1 apart
        exact .more [] separates (ih depth)
      next => exact (ih _).extendFirst lexeme

/-- A separator where no parenthesis is open separates the pieces before it from those behind. -/
theorem splitFrom_exposed {separator : Token} {depth : Nat} {before : List Lexeme}
    {mark : Lexeme} (after : List Lexeme) (level : depthAt depth before before.length = 0)
    (separates : mark.token.equals separator = true) (plain : isParen separator = false) :
    splitFrom separator depth (before ++ mark :: after) =
      splitFrom separator depth before ++ splitFrom separator 0 after := by
  induction before generalizing depth with
  | nil =>
      rw [List.length_nil, depthAt_zero] at level
      simp [splitFrom, separates, (isParen_of_equals separates).trans plain, level]
  | cons lexeme rest ih =>
      rw [List.length_cons, depthAt_succ] at level
      rw [List.cons_append, splitFrom, splitFrom]
      split
      next apart =>
        obtain ⟨_, inner, _⟩ := apart_iff.1 apart
        rw [depthAfter_of_plain inner] at level
        rw [ih level]
        rfl
      next =>
        obtain ⟨piece, pieces, same⟩ :=
          (splitFrom_joins separator (depthAfter depth lexeme.token) rest).exists_cons
        rw [ih level, same]
        rfl

theorem starts_extendFirst {pieces : List (List Lexeme)} {later : List Nat}
    (begin : starts pieces = 0 :: later) (lexeme : Lexeme) :
    starts (extendFirst lexeme pieces) = 0 :: later.map (· + 1) := by
  cases pieces with
  | nil => cases begin
  | cons piece pieces =>
      cases begin
      simp [extendFirst, starts, Nat.add_assoc]

theorem notParen_and_equals {separator : Token} (plain : isParen separator = false)
    (token : Token) : (!isParen token && token.equals separator) = token.equals separator := by
  cases equal : token.equals separator with
  | false => simp
  | true => simp [isParen_of_equals equal, plain]

/-- A piece starts at the beginning and behind every separator that is exposed. -/
theorem starts_splitFrom {separator : Token} (plain : isParen separator = false) (depth : Nat)
    (lexemes : List Lexeme) :
    starts (splitFrom separator depth lexemes) = 0 ::
      ((List.range lexemes.length).filter
        (exposed (·.equals separator) depth lexemes)).map (· + 1) := by
  induction lexemes generalizing depth with
  | nil => rfl
  | cons lexeme rest ih =>
      simp only [splitFrom, Bool.and_assoc, notParen_and_equals plain, List.length_cons,
        List.range_succ_eq_map, List.filter_cons, exposed_zero, List.filter_map, exposed_succ]
      split
      next apart =>
        obtain ⟨rfl, equal⟩ : depth = 0 ∧ lexeme.token.equals separator = true := by
          simpa using apart
        rw [depthAfter_of_plain ((isParen_of_equals equal).trans plain)]
        simp [starts, ih]
      next => exact starts_extendFirst (ih _) lexeme

def singles (tokens : List Token) : List Lexeme :=
  tokens.mapIdx fun place token => ⟨token, place, place + 1, Nat.lt_succ_self place⟩

end Purr
