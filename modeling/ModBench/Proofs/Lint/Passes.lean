import Mathlib.Data.List.Basic
import ModBench.Proofs.Lint.Finality

/-!
What is published is one pass.  The published files of a manager are those of the latest successful
run that was accepted, without the files that were taken out since: files that were closed, that new
settings dropped, or whose own run failed.
-/

set_option autoImplicit false
set_option relaxedAutoImplicit false

namespace ModBench

open PublishedSet (Update)

/-- What an accepted result does to the published set. -/
def Event.updates (e : Event) : List Update :=
  match e.result with
  | .ok outcome => [.publish outcome.records outcome.baseDir]
  | .error (.configuration _) => []
  | .error (.process _) => [.clear e.document]

/-- What happens in a history that bears on the published files. -/
inductive Occurrence where
  /-- A result is accepted. -/
  | accepted (e : Event)
  | closed (document : Path)
  /-- A tracked document is dropped by new settings. -/
  | dropped (document : Path)
  | stopped

namespace Occurrence

def updates : Occurrence → List Update
  | accepted e => e.updates
  | closed document => [.clear document]
  | dropped document => [.clear document]
  | stopped => [.clearAll]

/-- A successful run is accepted. -/
def IsPass : Occurrence → Prop
  | accepted e => ∃ outcome, e.result = .ok outcome
  | _ => False

/-- The path is closed or dropped, or a failure of the run of its document is accepted. -/
def Removes (p : Path) : Occurrence → Prop
  | accepted e => p.same e.document = true ∧ ∃ error, e.result = .error (.process error)
  | closed document => p.same document = true
  | dropped document => p.same document = true
  | stopped => False

end Occurrence

namespace Manager

/-- The occurrences in an act, in their order. -/
def occurrencesIn (m : Manager) : Act → List Occurrence
  | .close document => [.closed document]
  | .reconfigure settings rank =>
    ((m.tracked.keysBy rank).filter fun document => !settings.isEligible document).map .dropped
  | .poll budget => (m.log appliedIn (List.replicate budget .next)).map .accepted
  | .shutdown => [.stopped]
  | _ => []

/-- The occurrences in a history, oldest first. -/
def occurrences (m : Manager) : List Act → List Occurrence
  | [] => []
  | a :: history => m.occurrencesIn a ++ (m.act a).occurrences history

/-! ### The published set as a run of operations -/

def updatesIn (m : Manager) : Move → List Update
  | .clear document => [.clear document]
  | .next => (m.appliedIn .next).flatMap Event.updates
  | .takeChanges => [.take]
  | .shutdown => [.clearAll]
  | _ => []

private theorem applyResult_published (m : Manager) (e : Event) :
    (m.applyResult e).published = m.published.after e.updates := by
  unfold applyResult Event.updates
  cases e.result with
  | ok outcome => rfl
  | error fault =>
    cases fault with
    | configuration missing => rfl
    | process error => rfl

theorem handle_published (m : Manager) (e : Event) :
    (m.handle e).published = if m.accepts e then m.published.after e.updates else m.published := by
  unfold handle
  split
  · exact applyResult_published (m.markApplied e) e
  · rfl

/-- A move does operations on the published set. -/
theorem move_published (m : Manager) (v : Move) :
    (m.move v).published = m.published.after (m.updatesIn v) := by
  cases v with
  | request document => exact request_published m document
  | untrack document => exact untrack_published m document
  | finish id => exact finish_published m id
  | enter id => exact enter_published m id
  | next =>
    rw [Manager.move]
    cases queued : m.queue with
    | nil => simp [next, updatesIn, appliedIn, handledIn, queued, PublishedSet.after]
    | cons e rest =>
      rw [next_of_queue queued, handle_published]
      cases accepted : { m with queue := rest }.accepts e <;>
        simp [updatesIn, appliedIn, handledIn, queued, accepted, PublishedSet.after]
  | _ => rfl

private theorem moves_published (m : Manager) (moves : List Move) :
    (moves.foldl move m).published = m.published.after (m.log updatesIn moves) := by
  induction moves generalizing m with
  | nil => rfl
  | cons v rest ih =>
    rw [List.foldl_cons, ih, move_published, log, PublishedSet.after, PublishedSet.after,
      PublishedSet.after, List.foldl_append]

/-- The changes are taken in their own act. -/
def takingIn : Act → List Update
  | .takeChanges => [.take]
  | _ => []

private theorem log_congr {α : Type} {one other : Manager → Move → List α} {moves : List Move}
    (same : ∀ m, ∀ v ∈ moves, one m v = other m v) (m : Manager) :
    m.log one moves = m.log other moves := by
  induction moves generalizing m with
  | nil => rfl
  | cons v rest ih =>
    rw [log, log, same m v List.mem_cons_self,
      ih fun m v mem => same m v (List.mem_cons_of_mem _ mem)]

private theorem log_updatesIn_poll (m : Manager) (budget : Nat) :
    m.log updatesIn (List.replicate budget .next) =
      (m.log appliedIn (List.replicate budget .next)).flatMap Event.updates := by
  rw [← log_flatMap]
  refine log_congr ?_ m
  intro m v mem
  rw [(List.mem_replicate.1 mem).2]
  rfl

private theorem log_updatesIn_restart (m : Manager) (settings : LintSettings)
    (documents : List Path) :
    m.log updatesIn (documents.flatMap (restartMoves settings)) =
      (documents.filter fun document => !settings.isEligible document).map .clear := by
  induction documents generalizing m with
  | nil => rfl
  | cons document rest ih =>
    rw [List.flatMap_cons, log_append, ih, List.filter_cons]
    cases eligible : settings.isEligible document <;>
      simp [restartMoves, eligible, log, updatesIn]

/-- What an act does to the published set. -/
theorem act_published (m : Manager) (a : Act) :
    (m.act a).published =
      m.published.after ((m.occurrencesIn a).flatMap Occurrence.updates ++ takingIn a) := by
  rw [act_eq_moves, moves_published]
  congr 1
  cases a with
  | visible document =>
    simp only [moves]
    split <;> rfl
  | reconfigure settings rank =>
    have later :=
      log_updatesIn_restart { m with settings := settings } settings (m.tracked.keysBy rank)
    rw [moves, log, move, later]
    simp [updatesIn, occurrencesIn, takingIn, Occurrence.updates, List.flatMap_map,
      ← List.map_eq_flatMap]
  | poll budget =>
    rw [moves, log_updatesIn_poll]
    simp [occurrencesIn, takingIn, Occurrence.updates, List.flatMap_map]
  | _ => rfl

end Manager

/-! ### What is left of a pass -/

namespace Occurrence

variable {o : Occurrence} {s : PublishedSet}

/-- An occurrence other than a pass does nothing, takes one file out, or takes all files out. -/
theorem updates_cases (quiet : ¬ o.IsPass) :
    (o.updates = [] ∧ o ≠ stopped ∧ ∀ p, ¬ o.Removes p) ∨
      (∃ q, o.updates = [.clear q] ∧ o ≠ stopped ∧ ∀ p, o.Removes p ↔ p.same q = true) ∨
      o = stopped := by
  cases o with
  | accepted e =>
    cases result : e.result with
    | ok outcome => exact absurd ⟨outcome, result⟩ quiet
    | error fault =>
      cases fault with
      | configuration missing =>
        refine Or.inl ⟨by simp [updates, Event.updates, result], by simp, ?_⟩
        rintro p ⟨_, error, failed⟩
        rw [result] at failed
        cases failed
      | process error =>
        refine Or.inr (Or.inl ⟨e.document, by simp [updates, Event.updates, result], by simp, ?_⟩)
        exact fun p => ⟨fun removed => removed.1, fun same => ⟨same, error, result⟩⟩
  | closed document => exact Or.inr (Or.inl ⟨document, rfl, by simp, fun p => Iff.rfl⟩)
  | dropped document => exact Or.inr (Or.inl ⟨document, rfl, by simp, fun p => Iff.rfl⟩)
  | stopped => exact Or.inr (Or.inr rfl)

/-- What is not published stays so until a pass. -/
private theorem get?_after_of_none (quiet : ¬ o.IsPass) {p : Path} (none : s.get? p = none) :
    (s.after o.updates).get? p = Option.none := by
  rcases updates_cases quiet with ⟨eq, _, _⟩ | ⟨q, eq, _, _⟩ | rfl
  · rw [eq]
    exact none
  · rw [eq]
    exact PublishedSet.get?_clear_of_none none q
  · rfl

private theorem get?_after_of_removes (quiet : ¬ o.IsPass) {p : Path} (removes : o.Removes p) :
    (s.after o.updates).get? p = none := by
  rcases updates_cases quiet with ⟨_, _, spares⟩ | ⟨q, eq, _, removed⟩ | rfl
  · exact absurd removes (spares p)
  · rw [eq]
    exact PublishedSet.get?_clear_of_same s ((removed p).1 removes)
  · rfl

private theorem get?_after_of_not_removes (quiet : ¬ o.IsPass) (going : o ≠ stopped) {p : Path}
    (spares : ¬ o.Removes p) : (s.after o.updates).get? p = s.get? p := by
  rcases updates_cases quiet with ⟨eq, _, _⟩ | ⟨q, eq, _, removed⟩ | stop
  · rw [eq]
    rfl
  · rw [eq]
    refine PublishedSet.get?_clear_of_not_same s ?_
    rw [Bool.eq_false_iff]
    exact fun same => spares ((removed p).2 same)
  · exact absurd stop going

theorem files_after_of_nil (quiet : ¬ o.IsPass) (blank : s.files = []) :
    (s.after o.updates).files = [] := by
  rcases updates_cases quiet with ⟨eq, _, _⟩ | ⟨q, eq, _, _⟩ | rfl
  · rw [eq]
    exact blank
  · have absent : s.get? q = none := by rw [PublishedSet.get?, blank]; rfl
    rw [eq]
    exact (congrArg PublishedSet.files (PublishedSet.clear_of_none absent)).trans blank
  · rfl

end Occurrence

/-- The published set is what later occurrences leave of a pass. -/
structure LeftOf (outcome : LintOutcome) (later : List Occurrence) (s : PublishedSet) : Prop where
  latest : ∀ o ∈ later, ¬ o.IsPass
  stopped : .stopped ∈ later → s.files = []
  removed : ∀ p, (∃ o ∈ later, o.Removes p) → s.get? p = none
  spared : .stopped ∉ later → ∀ p, (∀ o ∈ later, ¬ o.Removes p) →
    s.get? p = entry? (recordsFor outcome.baseDir outcome.records p)

/-- Nothing is published without a pass, and after one what is left of the latest. -/
def Explained (log : List Occurrence) (s : PublishedSet) : Prop :=
  (∀ o ∈ log, ¬ o.IsPass) ∧ s.files = [] ∨
    ∃ before run outcome later, log = before ++ .accepted run :: later ∧
      run.result = .ok outcome ∧ LeftOf outcome later s

private theorem leftOf_publish (s : PublishedSet) (outcome : LintOutcome) :
    LeftOf outcome [] (s.publish outcome.records outcome.baseDir) where
  latest o mem := by cases mem
  stopped mem := by cases mem
  removed p removes := by
    obtain ⟨o, mem, _⟩ := removes
    cases mem
  spared _ p _ := PublishedSet.get?_publish s outcome.records outcome.baseDir p

private theorem LeftOf.step {outcome : LintOutcome} {later : List Occurrence} {s : PublishedSet}
    (left : LeftOf outcome later s) {o : Occurrence} (quiet : ¬ o.IsPass) :
    LeftOf outcome (later ++ [o]) (s.after o.updates) where
  latest := by
    intro d mem
    rcases List.mem_append.1 mem with old | new
    · exact left.latest d old
    · rw [List.mem_singleton.1 new]
      exact quiet
  stopped := by
    intro mem
    rcases List.mem_append.1 mem with old | new
    · exact Occurrence.files_after_of_nil quiet (left.stopped old)
    · rw [← List.mem_singleton.1 new]
      rfl
  removed := by
    rintro p ⟨d, mem, removes⟩
    rcases List.mem_append.1 mem with old | new
    · exact Occurrence.get?_after_of_none quiet (left.removed p ⟨d, old, removes⟩)
    · rw [List.mem_singleton.1 new] at removes
      exact Occurrence.get?_after_of_removes quiet removes
  spared := by
    intro going p spares
    rw [List.mem_append, not_or, List.mem_singleton] at going
    have spared := spares o (List.mem_append_right _ (List.mem_singleton_self o))
    rw [Occurrence.get?_after_of_not_removes quiet (Ne.symm going.2) spared]
    exact left.spared going.1 p fun d mem => spares d (List.mem_append_left _ mem)

namespace Explained

variable {log : List Occurrence} {s : PublishedSet}

private theorem step (explained : Explained log s) (o : Occurrence) :
    Explained (log ++ [o]) (s.after o.updates) := by
  by_cases pass : o.IsPass
  · cases o with
    | accepted e =>
      obtain ⟨outcome, result⟩ := pass
      have published : s.after (Occurrence.accepted e).updates =
          s.publish outcome.records outcome.baseDir := by
        simp [Occurrence.updates, Event.updates, result, PublishedSet.after, PublishedSet.update]
      rw [published]
      exact Or.inr ⟨log, e, outcome, [], rfl, result, leftOf_publish s outcome⟩
    | _ => exact absurd pass not_false
  · rcases explained with ⟨none, blank⟩ | ⟨before, run, outcome, later, rfl, result, left⟩
    · refine Or.inl ⟨?_, Occurrence.files_after_of_nil pass blank⟩
      intro d mem
      rcases List.mem_append.1 mem with old | new
      · exact none d old
      · rw [List.mem_singleton.1 new]
        exact pass
    · refine Or.inr ⟨before, run, outcome, later ++ [o], ?_, result, left.step pass⟩
      rw [List.append_assoc, List.cons_append]

private theorem steps (explained : Explained log s) (occurrences : List Occurrence) :
    Explained (log ++ occurrences) (s.after (occurrences.flatMap Occurrence.updates)) := by
  induction occurrences generalizing log s with
  | nil =>
    rw [List.append_nil]
    exact explained
  | cons o rest ih =>
    have both := ih (explained.step o)
    rw [List.append_assoc, List.singleton_append] at both
    rw [List.flatMap_cons, PublishedSet.after, List.foldl_append]
    exact both

/-- Marks play no part. -/
private theorem congr (explained : Explained log s) {s' : PublishedSet}
    (same : s'.files = s.files) : Explained log s' := by
  have lookup : ∀ p, s'.get? p = s.get? p := fun p => by
    rw [PublishedSet.get?, PublishedSet.get?, same]
  rcases explained with ⟨none, blank⟩ | ⟨before, run, outcome, later, eq, result, left⟩
  · exact Or.inl ⟨none, same.trans blank⟩
  · refine Or.inr ⟨before, run, outcome, later, eq, result, left.latest, ?_, ?_, ?_⟩
    · exact fun stopped => same.trans (left.stopped stopped)
    · exact fun p removes => (lookup p).trans (left.removed p removes)
    · exact fun going p spares => (lookup p).trans (left.spared going p spares)

end Explained

namespace Manager

/-- The published files after an act are known by its occurrences alone. -/
theorem act_files (m : Manager) (a : Act) :
    (m.act a).published.files =
      (m.published.after ((m.occurrencesIn a).flatMap Occurrence.updates)).files := by
  rw [act_published, PublishedSet.after, List.foldl_append]
  cases a with
  | _ => rfl

private theorem act_explained {log : List Occurrence} {m : Manager}
    (explained : Explained log m.published) (a : Act) :
    Explained (log ++ m.occurrencesIn a) (m.act a).published :=
  (explained.steps (m.occurrencesIn a)).congr (act_files m a)

private theorem after_explained {log : List Occurrence} {m : Manager}
    (explained : Explained log m.published) (history : List Act) :
    Explained (log ++ m.occurrences history) (m.after history).published := by
  induction history generalizing log m with
  | nil =>
    rw [occurrences, List.append_nil]
    exact explained
  | cons a history ih =>
    have later := ih (act_explained explained a)
    rw [List.append_assoc] at later
    exact later

/-- Acts that leave the published files as they are. -/
def Quiet (m : Manager) : Act → Prop
  | .close _ | .reconfigure _ _ | .shutdown => False
  | .poll budget => budget = 0 ∨ m.queue = []
  | _ => True

private theorem occurrencesIn_of_quiet {m : Manager} {a : Act} (quiet : Quiet m a) :
    m.occurrencesIn a = [] := by
  cases a with
  | poll budget =>
    rcases quiet with rfl | empty
    · rfl
    · have nothing : ∀ n, m.log appliedIn (List.replicate n .next) = [] := by
        intro n
        have still : m.move .next = m := by simp [move, next, empty]
        induction n with
        | zero => rfl
        | succ n ih =>
          rw [List.replicate_succ, log, still, ih]
          simp [appliedIn, handledIn, empty]
      rw [occurrencesIn, nothing budget]
      rfl
  | close document => exact absurd quiet not_false
  | reconfigure settings rank => exact absurd quiet not_false
  | shutdown => exact absurd quiet not_false
  | _ => rfl

/-- The published files are those of the latest accepted pass without what was removed since.
Results that are refused or report a missing setting leave them as they are, and so does every act
that neither closes, drops nor stops anything and handles no result. -/
theorem published_is_latest_pass (settings : LintSettings) (history : List Act) :
    Explained ((new settings).occurrences history) ((new settings).after history).published ∧
      (∀ h ∈ (new settings).handled history,
        (h.1.accepts h.2 = false ∨ ∃ missing, h.2.result = .error (.configuration missing)) →
          (h.1.handle h.2).published = h.1.published) ∧
      ∀ a, Quiet ((new settings).after history) a →
        (((new settings).after history).act a).published.files =
          ((new settings).after history).published.files := by
  refine ⟨?_, ?_, ?_⟩
  · have start : Explained [] (new settings).published := Or.inl ⟨by simp, rfl⟩
    exact after_explained start history
  · rintro ⟨m, e⟩ _ (refused | ⟨missing, result⟩)
    · rw [handle_published, refused]
      rfl
    · have unset : e.result = .error (.configuration missing) := result
      have nothing : e.updates = [] := by simp [Event.updates, unset]
      rw [handle_published, nothing]
      exact ite_self _
  · intro a quiet
    rw [act_files, occurrencesIn_of_quiet quiet]
    rfl

end Manager

end ModBench
