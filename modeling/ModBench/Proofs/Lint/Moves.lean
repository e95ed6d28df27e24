import Mathlib.Data.List.Basic
import ModBench.Lint.History

/-!
Acts as sequences of moves.  Whatever every move keeps, every history keeps.
-/

set_option autoImplicit false
set_option relaxedAutoImplicit false

namespace ModBench.Manager

@[simp] theorem untrack_settings (m : Manager) (document : Path) :
    (m.untrack document).settings = m.settings := by
  unfold untrack
  split <;> rfl

@[simp] theorem request_settings (m : Manager) (document : Path) :
    (m.request document).settings = m.settings := by
  unfold request
  dsimp only
  split
  · rfl
  · split <;> rfl

theorem restart_eq_moves (m : Manager) (document : Path) :
    m.restart document = (restartMoves m.settings document).foldl move m := by
  rw [restartMoves, ← untrack_settings m document]
  simp only [restart, List.foldl_cons, List.foldl_nil]
  split <;> rfl

theorem restart_settings (m : Manager) (document : Path) :
    (m.restart document).settings = m.settings := by
  unfold restart
  dsimp only
  split
  · rw [request_settings, untrack_settings]
  · exact untrack_settings m document

private theorem foldl_restart_eq_moves (documents : List Path) (m : Manager) :
    documents.foldl restart m =
      (documents.flatMap (restartMoves m.settings)).foldl move m := by
  induction documents generalizing m with
  | nil => rfl
  | cons document rest ih =>
    rw [List.foldl_cons, List.flatMap_cons, List.foldl_append, ← restart_eq_moves, ih,
      restart_settings]

theorem poll_of_empty {m : Manager} (empty : m.queue = []) (budget : Nat) :
    m.poll budget = (0, m) := by
  cases budget <;> simp [poll, empty]

private theorem poll_eq_moves (m : Manager) (budget : Nat) :
    (m.poll budget).2 = (List.replicate budget Move.next).foldl move m := by
  induction budget generalizing m with
  | zero => rfl
  | succ budget ih =>
    rw [List.replicate_succ, List.foldl_cons, ← ih]
    by_cases empty : m.queue = []
    · have idle : m.move .next = m := by
        simp [move, next, empty]
      rw [idle, poll_of_empty empty, poll_of_empty empty]
    · simp [poll, empty, move]

/-- An act does what its moves do one after the other. -/
theorem act_eq_moves (m : Manager) (a : Act) : m.act a = (m.moves a).foldl move m := by
  cases a with
  | visible document =>
    simp only [act, submit, moves]
    split <;> rfl
  | reconfigure settings rank =>
    exact foldl_restart_eq_moves (m.tracked.keysBy rank) { m with settings := settings }
  | poll budget => exact poll_eq_moves m budget
  | _ => rfl

/-- A history does what its moves do one after the other. -/
theorem after_eq_moves (m : Manager) (history : List Act) :
    m.after history = (m.movesOf history).foldl move m := by
  induction history generalizing m with
  | nil => rfl
  | cons a history ih =>
    rw [movesOf, List.foldl_append, ← act_eq_moves, ← ih]
    rfl

theorem after_append (m : Manager) (before later : List Act) :
    m.after (before ++ later) = (m.after before).after later :=
  List.foldl_append

theorem movesOf_append (m : Manager) (before later : List Act) :
    m.movesOf (before ++ later) = m.movesOf before ++ (m.after before).movesOf later := by
  induction before generalizing m with
  | nil => rfl
  | cons a before ih =>
    rw [List.cons_append, movesOf, movesOf, ih, List.append_assoc]
    rfl

theorem log_append {α : Type} (entries : Manager → Move → List α) (m : Manager)
    (before later : List Move) :
    m.log entries (before ++ later) =
      m.log entries before ++ (before.foldl move m).log entries later := by
  induction before generalizing m with
  | nil => rfl
  | cons v before ih => rw [List.cons_append, log, log, ih, List.append_assoc, List.foldl_cons]

/-- What every move keeps, along with what it leaves in two logs, holds after every history. -/
theorem log_induction {α β : Type} {one : Manager → Move → List α} {other : Manager → Move → List β}
    {kept : Manager → List α → List β → Prop} {m : Manager} (start : kept m [] [])
    (step : ∀ m v as bs, kept m as bs → kept (m.move v) (as ++ one m v) (bs ++ other m v))
    (history : List Act) :
    kept (m.after history) (m.log one (m.movesOf history)) (m.log other (m.movesOf history)) := by
  have run : ∀ (moves : List Move) (m : Manager) (as : List α) (bs : List β), kept m as bs →
      kept (moves.foldl move m) (as ++ m.log one moves) (bs ++ m.log other moves) := by
    intro moves
    induction moves with
    | nil =>
      intro m as bs h
      simpa only [log, List.append_nil, List.foldl_nil] using h
    | cons v rest ih =>
      intro m as bs h
      rw [log, log, ← List.append_assoc, ← List.append_assoc]
      exact ih _ _ _ (step m v as bs h)
  rw [after_eq_moves]
  exact run _ m [] [] start

/-- What each of some moves keeps holds after them. -/
theorem foldl_induction {kept : Manager → Prop} {m : Manager} {moves : List Move} (start : kept m)
    (step : ∀ m, ∀ v ∈ moves, kept m → kept (m.move v)) : kept (moves.foldl move m) := by
  induction moves generalizing m with
  | nil => exact start
  | cons v rest ih =>
    rw [List.foldl_cons]
    refine ih (step m v List.mem_cons_self start) ?_
    exact fun m v mem => step m v (List.mem_cons_of_mem _ mem)

/-- What every move keeps holds after every history. -/
theorem after_induction {kept : Manager → Prop} {m : Manager} (start : kept m)
    (step : ∀ m v, kept m → kept (m.move v)) (history : List Act) : kept (m.after history) := by
  rw [after_eq_moves]
  exact foldl_induction start fun m v _ => step m v

/-- What each of some moves keeps holds wherever something is logged. -/
theorem log_forall {α : Type} {entries : Manager → Move → List α} {kept : Manager → Prop}
    {good : α → Prop} {m : Manager} {moves : List Move} (start : kept m)
    (step : ∀ m, ∀ v ∈ moves, kept m → kept (m.move v))
    (logged : ∀ m, ∀ v ∈ moves, kept m → ∀ a ∈ entries m v, good a) :
    ∀ a ∈ m.log entries moves, good a := by
  induction moves generalizing m with
  | nil =>
    intro a mem
    cases mem
  | cons v rest ih =>
    intro a mem
    rcases List.mem_append.1 mem with now | later
    · exact logged m v List.mem_cons_self start a now
    · refine ih (step m v List.mem_cons_self start) ?_ ?_ a later
      · exact fun m v mem => step m v (List.mem_cons_of_mem _ mem)
      · exact fun m v mem => logged m v (List.mem_cons_of_mem _ mem)

theorem log_flatMap {α β : Type} (entries : Manager → Move → List α) (f : α → List β)
    (m : Manager) (moves : List Move) :
    m.log (fun m v => (entries m v).flatMap f) moves = (m.log entries moves).flatMap f := by
  induction moves generalizing m with
  | nil => rfl
  | cons v rest ih => rw [log, log, ih, List.flatMap_append]

theorem log_map {α β : Type} (entries : Manager → Move → List α) (f : α → β) (m : Manager)
    (moves : List Move) :
    m.log (fun m v => (entries m v).map f) moves = (m.log entries moves).map f := by
  simp only [List.map_eq_flatMap, log_flatMap]

/-- Two logs kept in one hold the same as kept apart. -/
theorem log_perm_append {α : Type} (one other : Manager → Move → List α) (m : Manager)
    (moves : List Move) : (m.log (fun m v => one m v ++ other m v) moves).Perm
      (m.log one moves ++ m.log other moves) := by
  induction moves generalizing m with
  | nil => exact List.Perm.refl _
  | cons v rest ih =>
    simp only [log, List.append_assoc]
    refine List.Perm.append_left _ ?_
    exact ((ih _).append_left _).trans (List.perm_append_comm_assoc _ _ _)

theorem log_sublist {α : Type} {one other : Manager → Move → List α}
    (sub : ∀ m v, (one m v).Sublist (other m v)) (m : Manager) (moves : List Move) :
    (m.log one moves).Sublist (m.log other moves) := by
  induction moves generalizing m with
  | nil => exact List.Sublist.refl _
  | cons v rest ih => exact (sub m v).append (ih (m.move v))

/-- If in every move what comes in and what was there is what goes out and what is left, then so it
is over any moves. -/
theorem log_conserved {α : Type} {gained lost : Manager → Move → List α}
    {stock : Manager → List α} {kept : Manager → Prop}
    (keeps : ∀ m v, kept m → kept (m.move v))
    (step : ∀ m v, kept m →
      (gained m v ++ stock m).Perm (lost m v ++ stock (m.move v)))
    {m : Manager} (start : kept m) (moves : List Move) :
    (m.log gained moves ++ stock m).Perm (m.log lost moves ++ stock (moves.foldl move m)) := by
  induction moves generalizing m with
  | nil => exact List.Perm.refl _
  | cons v rest ih =>
    rw [log, log, List.foldl_cons, List.append_assoc, List.append_assoc]
    have now := (step m v start).append_left ((m.move v).log gained rest)
    have later := (ih (keeps m v start)).append_left (lost m v)
    -- The stock after the first move is what the other moves begin with.
    calc (gained m v ++ ((m.move v).log gained rest ++ stock m)).Perm
          ((m.move v).log gained rest ++ (gained m v ++ stock m)) :=
        List.perm_append_comm_assoc _ _ _
      List.Perm _ ((m.move v).log gained rest ++ (lost m v ++ stock (m.move v))) := now
      List.Perm _ (lost m v ++ ((m.move v).log gained rest ++ stock (m.move v))) :=
        List.perm_append_comm_assoc _ _ _
      List.Perm _ (lost m v ++
          ((m.move v).log lost rest ++ stock (rest.foldl move (m.move v)))) := later

end ModBench.Manager
