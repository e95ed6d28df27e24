import Mathlib.Data.List.Basic
import ModBench.Proofs.Lint.Passes
import ModBench.Proofs.Lint.Relint
import ModBench.Proofs.Lint.Tracking

/-!
Failed lint runs.  Each accepted failure gives one notice and nothing else gives any.  Where a
setting is absent nothing was run, and all stays as it is; where the compiler failed, the document
itself is taken out of the published set.  Either way the document is linted again when it is asked
for.
-/

set_option autoImplicit false
set_option relaxedAutoImplicit false

namespace ModBench

/-- The notice that an accepted result gives. -/
def Event.notice? (e : Event) : Option Notice :=
  match e.result with
  | .ok _ => none
  | .error error => some ⟨.error, error.message⟩

namespace Flight

/-- A lint run without a command can only end for want of the setting, and one with a command ends
as its compiler's run does. -/
def Yields (f : Flight) (result : LintResult) : Prop :=
  match f.command with
  | .error missing => result = .error (.configuration missing)
  | .ok _ => ∃ ended, result = f.settings.resultOf f.document f.trigger.root ended

private theorem command_of_yields {f : Flight} {missing : MissingSetting}
    (yields : f.Yields (.error (.configuration missing))) : f.command = .error missing := by
  unfold Yields at yields
  split at yields
  · rename_i absent command
    cases yields
    exact command
  · obtain ⟨ended, eq⟩ := yields
    unfold LintSettings.resultOf at eq
    split at eq <;> cases eq

/-- Without a command a lint run asks no runner for anything. -/
private theorem lintDocument_of_no_command {f : Flight} {missing : MissingSetting}
    (command : f.command = .error missing) {σ : Type}
    (run : CommandLine → σ → Except ProcessError ProcessOutput × σ) (state : σ) :
    lintDocument run f.settings f.document f.trigger.root state =
      (.error (.configuration missing), state) := by
  have asked : f.settings.commandFor f.document f.trigger.root = .error missing := command
  rw [lintDocument, asked]

end Flight

namespace Pipeline

/-- A run that will have a result has one that it can yield. -/
def Sound (p : Pipeline) : Prop :=
  ∀ trigger result ends, p.phase = .running trigger (.result result) ends →
    (p.flight trigger).Yields result

theorem sound_of_phase {p : Pipeline}
    (idle : ∀ trigger finish ends, p.phase ≠ .running trigger finish ends) : p.Sound :=
  fun trigger result ends phase => absurd phase (idle trigger (.result result) ends)

/-- The result with which an attempt is to end is one that its lint run can yield. -/
private theorem yields_of_courseFor {p : Pipeline} {trigger : Trigger} {run : Run}
    {result : LintResult} (course : (p.courseFor trigger run).1 = .result result) :
    (p.flight trigger).Yields result := by
  have command : (p.flight trigger).command = p.commandFor trigger := rfl
  rw [Flight.Yields, command]
  unfold courseFor at course
  cases asked : p.commandFor trigger with
  | error missing =>
    simp only [asked] at course ⊢
    cases course
    rfl
  | ok command =>
    cases ending : run.ending with
    | none =>
      simp only [asked, ending] at course
      cases course
    | some ended =>
      simp only [asked, ending] at course ⊢
      cases course
      exact ⟨ended, rfl⟩

private theorem sound_begin {p : Pipeline} {trigger : Trigger} {due : Nat}
    (phase : p.phase = .debouncing trigger due) (run : Run) (now : Nat) :
    (p.begin run now).Sound := by
  intro trigger' result ends running
  simp only [Pipeline.begin, phase, Phase.running.injEq] at running
  obtain ⟨rfl, course, _⟩ := running
  have same : ((p.begin run now).flight trigger).Yields result ↔
      (p.flight trigger).Yields result := by
    simp only [Pipeline.begin, phase]
    exact Iff.rfl
  exact same.2 (yields_of_courseFor course)

private theorem Change.sound {p p' : Pipeline} {n : Notes} (change : p.Change n p')
    (sound : p.Sound) : p'.Sound := by
  cases change with
  | stay => exact sound
  | post trigger alive => exact sound
  | receive now =>
    unfold Pipeline.receive
    split
    · exact sound
    · exact sound
    · exact sound
    · exact sound_of_phase nofun
  | begin run now phase => exact sound_begin phase run now
  | resume named =>
    unfold Pipeline.resume
    split
    · exact sound_of_phase nofun
    · exact sound
  | _ => exact sound_of_phase nofun

end Pipeline

namespace Manager

variable {m : Manager} {v : Move}

/-! ### Notices -/

/-- The results accepted in a history, oldest first. -/
def accepted (m : Manager) (history : List Act) : List Event :=
  m.log appliedIn (m.movesOf history)

private theorem handle_notices (m : Manager) (e : Event) :
    (m.handle e).notices = if m.accepts e then m.notices ++ e.notice?.toList else m.notices := by
  unfold handle
  split
  · unfold applyResult Event.notice?
    cases e.result with
    | ok outcome => exact (List.append_nil _).symm
    | error fault => cases fault <;> rfl
  · rfl

private theorem move_notices (m : Manager) (v : Move) :
    (m.move v).notices = m.notices ++ (m.appliedIn v).filterMap Event.notice? := by
  have quiet : ∀ {v : Move}, m.appliedIn v = [] → (m.move v).notices = m.notices →
      (m.move v).notices = m.notices ++ (m.appliedIn v).filterMap Event.notice? := by
    intro v none same
    rw [none, same, List.filterMap_nil, List.append_nil]
  cases v with
  | request document =>
    refine quiet rfl ?_
    simp only [move, request]
    split
    · rfl
    · split <;> rfl
  | untrack document =>
    refine quiet rfl ?_
    simp only [move, untrack]
    split <;> rfl
  | next =>
    cases queued : m.queue with
    | nil => exact quiet (by simp [appliedIn, handledIn, queued]) (by simp [move, next, queued])
    | cons e rest =>
      rw [move, next_of_queue queued, handle_notices]
      cases accepted : { m with queue := rest }.accepts e with
      | false => simp [appliedIn, handledIn, queued, accepted]
      | true =>
        cases given : e.notice? <;> simp [appliedIn, handledIn, queued, accepted, given]
  | finish id =>
    refine quiet rfl ?_
    simp only [move, finish]
    split
    · rfl
    · split
      · rename_i q _ _ trigger result _ _
        rcases send_cases m (q.event trigger result) with ⟨_, _, eq⟩ | eq <;> rw [eq] <;> rfl
      · rfl
      · rfl
  | enter id =>
    refine quiet rfl ?_
    rw [move]
    rcases enter_cases m id with ⟨e, _, _, _, eq⟩ | eq <;> rw [eq]
    rfl
  | _ => exact quiet rfl rfl

private theorem notices_after (m : Manager) (history : List Act) :
    (m.after history).notices = m.notices ++ (m.accepted history).filterMap Event.notice? := by
  have run : ∀ (moves : List Move) (m : Manager), (moves.foldl move m).notices =
      m.notices ++ (m.log appliedIn moves).filterMap Event.notice? := by
    intro moves
    induction moves with
    | nil => exact fun m => (List.append_nil _).symm
    | cons v rest ih =>
      intro m
      rw [List.foldl_cons, ih, move_notices, log, List.filterMap_append, List.append_assoc]
  rw [after_eq_moves]
  exact run _ m

private theorem accepted_sublist_handled (m : Manager) (history : List Act) :
    (m.accepted history).Sublist ((m.handled history).map Prod.snd) := by
  rw [handled, ← log_map]
  exact log_sublist (fun m v => List.filter_sublist.map Prod.snd) m _

/-- No lint run has two accepted results. -/
private theorem nodup_accepted (settings : LintSettings) (history : List Act) :
    (((new settings).accepted history).map Event.key).Nodup := by
  have delivered := delivery settings history
  have nodup := (delivered.places.map Event.key).nodup_iff.1 delivered.distinct
  simp only [List.map_append, List.append_assoc] at nodup
  have handled := (List.nodup_append.1 nodup).1
  exact handled.sublist ((accepted_sublist_handled (new settings) history).map Event.key)

/-! ### Where results come from -/

/-- The runs that are under way in registered pipelines have results that they can yield. -/
structure Sourced (m : Manager) : Prop where
  registered : m.Registered
  sound : ∀ {p t}, m.registered? p = some t → t.pipeline.Sound

private theorem Sourced.move (sourced : m.Sourced) (v : Move) : (m.move v).Sourced := by
  refine ⟨sourced.registered.move v, ?_⟩
  intro p t there
  rcases sourced.registered.newcomer_or_change there with ⟨_, _, rfl, _⟩ | ⟨t, here, change⟩
  · exact Pipeline.sound_of_phase nofun
  · exact change.sound (sourced.sound here)

private theorem Sourced.completedIn (sourced : m.Sourced) (v : Move) :
    ∀ c ∈ m.completedIn v, c.1.Yields c.2 := by
  intro c mem
  unfold Manager.completedIn at mem
  split at mem
  · split at mem
    · cases mem
    · rename_i q found
      obtain ⟨p, t, here, rfl, _⟩ := pipeline?_eq_some sourced.registered.sorted found
      split at mem
      · rename_i phase
        rw [List.mem_singleton.1 mem]
        exact sourced.sound here _ _ _ phase
      · cases mem
  · cases mem

/-- Every result that is handled is one that its lint run can yield. -/
private theorem exists_flight_of_handled (settings : LintSettings) (history : List Act) :
    ∀ h ∈ (new settings).handled history, ∃ f ∈ (new settings).begun history,
      h.2 = f.event h.2.result ∧ f.Yields h.2.result := by
  intro h mem
  have delivered := delivery settings history
  have sent : h.2 ∈ (new settings).sent history := by
    refine delivered.places.mem_iff.2 ?_
    simp only [List.append_assoc]
    exact List.mem_append_left _ (List.mem_map_of_mem mem)
  obtain ⟨c, ended, eq⟩ := exists_completed_of_sent sent
  have start : (new settings).Sourced := ⟨registered_new settings, fun here => by cases here⟩
  have yields : c.1.Yields c.2 :=
    log_forall start (fun _ v _ sourced => sourced.move v)
      (fun _ v _ sourced => sourced.completedIn v) c ended
  have result : h.2.result = c.2 := by
    rw [eq]
    rfl
  refine ⟨c.1, begun_of_completed ended, ?_, ?_⟩
  · rw [result]
    exact eq
  · rwa [result]

/-! ### What failures do -/

/-- The same documents are tracked, by the same pipelines. -/
structure SameTracked (m m' : Manager) : Prop where
  documents : m'.tracked.keys = m.tracked.keys
  pipelines : m'.pipelines = m.pipelines

private theorem sameTracked_handle (m : Manager) (e : Event) : m.SameTracked (m.handle e) where
  documents := by
    rw [handle_tracked]
    split
    · rw [PathMap.keys, PathMap.adjust, List.map_map]
      rfl
    · rfl
  pipelines := pipelines_handle m e

/-- A published set without one file: the file is marked if it was there, and nothing else is
touched. -/
structure Without (p : Path) (s s' : PublishedSet) : Prop where
  own : ∀ q, q.same p = true → s'.get? q = none
  other : ∀ q, q.same p = false → s'.get? q = s.get? q
  marked : ∀ q, s'.isMarked q = true ↔
    s.isMarked q = true ∨ q.same p = true ∧ s.get? q ≠ none

private theorem without_clear {s : PublishedSet} (kept : s.Kept) (p : Path) :
    Without p s (s.clear p) where
  own _ same := PublishedSet.get?_clear_of_same s same
  other _ apart := PublishedSet.get?_clear_of_not_same s apart
  marked := by
    intro q
    rw [kept.isMarked_clear]
    refine or_congr_right ?_
    cases same : q.same p with
    | true => simp [PublishedSet.get?_clear_of_same s same, eq_comm]
    | false => simp [PublishedSet.get?_clear_of_not_same s same]

private theorem kept_after (settings : LintSettings) (history : List Act) :
    ∀ h ∈ (new settings).handled history, h.1.published.Kept := by
  have kept_move : ∀ (m : Manager) (v : Move), m.published.Kept → (m.move v).published.Kept := by
    intro m v kept
    rw [move_published]
    exact kept.after _
  have start : (new settings).published.Kept := PublishedSet.kept_empty
  refine log_forall start (fun m v _ kept => kept_move m v kept) ?_
  intro m v _ kept h mem
  unfold handledIn at mem
  split at mem
  · split at mem
    · cases mem
    · rw [List.mem_singleton.1 mem]
      exact kept
  · cases mem

/-! ### Main result -/

/-- The notices are those of the accepted failures, one for each.  A result for want of a setting
comes from a lint run that called no compiler, and changes nothing; a failure of the compiler takes
the document itself out of the published set and changes nothing else.  A tracked document that is
opened or saved again is linted again. -/
theorem failures_surface_once (settings : LintSettings) (history : List Act) :
    ((new settings).after history).notices =
        ((new settings).accepted history).filterMap Event.notice? ∧
      (((new settings).accepted history).map Event.key).Nodup ∧
      (∀ h ∈ (new settings).handled history, h.1.accepts h.2 = true →
        ∀ missing, h.2.result = .error (.configuration missing) →
          (h.1.handle h.2).published = h.1.published ∧ h.1.SameTracked (h.1.handle h.2) ∧
            ∃ f ∈ (new settings).begun history, f.key = h.2.key ∧
              ∀ (σ : Type) (run : CommandLine → σ → Except ProcessError ProcessOutput × σ)
                (state : σ), lintDocument run f.settings f.document f.trigger.root state =
                  (h.2.result, state)) ∧
      (∀ h ∈ (new settings).handled history, h.1.accepts h.2 = true →
        ∀ error, h.2.result = .error (.process error) →
          Without h.2.document h.1.published (h.1.handle h.2).published ∧
            h.1.SameTracked (h.1.handle h.2)) ∧
      ∀ document, ((new settings).after history).isTracked document = true →
        (((new settings).after history).submit document).1 = true ∧
          ((new settings).after history).Relints document := by
  refine ⟨notices_after (new settings) history, nodup_accepted settings history, ?_, ?_, ?_⟩
  · intro h mem accepted missing result
    refine ⟨?_, sameTracked_handle h.1 h.2, ?_⟩
    · rw [handle_published, if_pos accepted, Event.updates, result]
      rfl
    · obtain ⟨f, begun, eq, yields⟩ := exists_flight_of_handled settings history h mem
      rw [result] at yields
      refine ⟨f, begun, ?_, fun σ run state => ?_⟩
      · rw [eq]
        rfl
      · rw [result]
        exact Flight.lintDocument_of_no_command (Flight.command_of_yields yields) run state
  · intro h mem accepted error result
    refine ⟨?_, sameTracked_handle h.1 h.2⟩
    rw [handle_published, if_pos accepted, Event.updates, result]
    exact without_clear (kept_after settings history h mem) h.2.document
  · intro document tracked
    have delivered := delivery settings history
    obtain ⟨t, here⟩ := Option.isSome_iff_exists.1 tracked
    have eligible := ((current_new settings).after history).eligible here
    refine ⟨by simp [submit, eligible], ?_⟩
    exact relints delivered.waiting delivered.capacity document

/-- Without a compiler the host gets one notice. -/
example : ((new {}).after [.visible (Path.ofString "a.reds"), .receive 1 0, .begin 1 default 200,
    .finish 1, .poll 8]).notices = [⟨.error, MissingSetting.compilerPath.message⟩] := by decide

end Manager

end ModBench
