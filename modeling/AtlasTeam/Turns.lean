import AtlasTeam.System

/-!
# Commands one after the other

In a sequential run every command starts, builds and commits before the next one arrives. What it commits
was therefore built from the store its commit meets (`inTurn_serial`); between its build and its commit
nothing else can have written.
-/

namespace AtlasTeam

/-- What may happen in a sequential run: a command, with the clock of each of its steps, or a store
operation. -/
inductive Turn (O : Type) where
  | call (companyId : Uuid) (actor : Actor) (command : Command) (started built committed : Env)
  | operate (op : O) (env : Env)

/-- The events of a turn, when `position` commands came before. -/
def Turn.events {O : Type} (position : Nat) : Turn O → List (Event O)
  | .call companyId actor command started built committed =>
    [.call companyId actor command, .advance position started, .advance position built,
      .advance position committed]
  | .operate op env => [.operate op env]

/-- How many commands came before the next turn. -/
def Turn.next {O : Type} (position : Nat) : Turn O → Nat
  | .call .. => position + 1
  | .operate .. => position

/-- The events of a sequential run. -/
def inTurn {O : Type} : Nat → List (Turn O) → List (Event O)
  | _, [] => []
  | position, turn :: turns => turn.events position ++ inTurn (turn.next position) turns

section Serial
variable {S O : Type} (codec : Codec) (backend : Backend S O)

/-- Every commit was built from the store it met. -/
def Book.Serial (book : Book S) : Prop := ∀ entry ∈ book.journal, entry.snapshot = entry.before

/-- What the command is about to commit was built from the store. -/
def Call.Current (call : Call S) (store : S) : Prop :=
  ∀ left draft, call.phase = .committing left draft → draft.snapshot = store

theorem Book.commit_serial (env : Env) {draft : Draft S} {book : Book S} (h : book.Serial)
    (hdraft : draft.snapshot = book.store) : (book.commit backend env draft).Serial := by
  unfold Book.commit
  dsimp only
  split
  · split
    · exact h
    · intro entry hentry
      rcases List.mem_append.1 hentry with hentry | hentry
      · exact h entry hentry
      · obtain rfl := List.mem_singleton.1 hentry
        exact hdraft
  · exact h

/-- A step of a command that is about to commit what it built from the store. -/
theorem Call.advance_serial (env : Env) {call : Call S} {book : Book S} (hcurrent : call.Current book.store)
    (h : book.Serial) :
    (call.advance codec backend env book).1.Current (call.advance codec backend env book).2.store ∧
      (call.advance codec backend env book).2.Serial := by
  unfold Call.advance
  cases hphase : call.phase with
  | start =>
    refine ⟨fun left draft hcommitting => ?_, h⟩
    dsimp only at hcommitting
    split at hcommitting
    · cases hcommitting
    · cases hcommitting
  | building left documentId =>
    refine ⟨fun left' draft hcommitting => ?_, h⟩
    dsimp only [Call.build] at hcommitting
    split at hcommitting
    · cases hcommitting
    · split at hcommitting
      · cases hcommitting
      · -- the draft it has just built
        obtain ⟨-, rfl⟩ := Phase.committing.inj hcommitting
        rfl
  | committing left draft =>
    refine ⟨fun left' draft' hcommitting => ?_, Book.commit_serial backend env h (hcurrent left draft hphase)⟩
    dsimp only at hcommitting
    split at hcommitting
    · cases hcommitting
    · cases hcommitting
  | finished result =>
    refine ⟨fun left draft hcommitting => ?_, h⟩
    dsimp only at hcommitting
    rw [hphase] at hcommitting
    cases hcommitting

/-- The last command takes a step. -/
theorem System.step_last (book : Book S) (calls : List (Call S)) (call : Call S) (env : Env) :
    System.step codec backend ⟨book, calls ++ [call]⟩ (.advance calls.length env) =
      ⟨(call.advance codec backend env book).2, calls ++ [(call.advance codec backend env book).1]⟩ := by
  have hcall : (calls ++ [call])[calls.length]? = some call := by simp
  simp only [System.step, hcall, List.set_append_right _ _ le_rfl, Nat.sub_self, List.set_cons_zero]

/-- A turn keeps the book serial and counts the commands. -/
theorem System.run_turn {system : System S} (turn : Turn O) (h : system.book.Serial) :
    (system.run codec backend (turn.events system.calls.length)).book.Serial ∧
      (system.run codec backend (turn.events system.calls.length)).calls.length =
        turn.next system.calls.length := by
  obtain ⟨book, calls⟩ := system
  cases turn with
  | operate op env => exact ⟨fun entry hentry => h entry hentry, rfl⟩
  | call companyId actor command started built committed =>
    let arrived : Call S := { companyId, actor, command, phase := .start }
    have harrived : arrived.Current book.store := by
      intro left draft hphase
      cases hphase
    obtain ⟨hstarted, hbook₁⟩ := Call.advance_serial codec backend started harrived h
    obtain ⟨hbuilt, hbook₂⟩ := Call.advance_serial codec backend built hstarted hbook₁
    obtain ⟨-, hbook₃⟩ := Call.advance_serial codec backend committed hbuilt hbook₂
    have hcall : System.step codec backend ⟨book, calls⟩ (.call companyId actor command) =
      ⟨book, calls ++ [arrived]⟩ := rfl
    simp only [Turn.events, System.run, List.foldl_cons, List.foldl_nil, hcall, System.step_last]
    exact ⟨hbook₃, by simp [Turn.next]⟩

theorem System.run_inTurn {turns : List (Turn O)} {system : System S} (h : system.book.Serial) :
    (system.run codec backend (inTurn system.calls.length turns)).book.Serial := by
  induction turns generalizing system with
  | nil => exact h
  | cons turn turns ih =>
    obtain ⟨hserial, hnext⟩ := System.run_turn codec backend turn h
    rw [inTurn, System.run_append, ← hnext]
    exact ih hserial

/-- In a sequential run every commit was built from the store it met. -/
theorem inTurn_serial (store : S) (turns : List (Turn O)) :
    ((System.fresh store).run codec backend (inTurn 0 turns)).book.Serial :=
  System.run_inTurn codec backend fun _ h => absurd h List.not_mem_nil

end Serial

end AtlasTeam
