import ModBench.Editor.Conversation
import ModBench.Editor.Steps
import ModBench.Proofs.Lint.Interleaving

/-!
Handlers as runs.  What the server does with a request is a run of steps in which no other task gets
a turn, so that whatever holds of all runs holds of every conversation.
-/

set_option autoImplicit false
set_option relaxedAutoImplicit false

namespace ModBench.Editor.Session

variable {σ : Type}

private theorem steps_append (s : Session σ) (before later : List Step) :
    s.steps (before ++ later) = (s.steps before).steps later :=
  List.foldl_append

/-! ### Documents and settings -/

private theorem steps_receives (s : Session σ) (ids : List Nat) (now : Nat) :
    s.steps (ids.map fun id => .lint (.receive id now) nofun) =
      s.withManager (s.manager.after (ids.map fun id => .receive id now)) := by
  induction ids generalizing s with
  | nil => rfl
  | cons id ids ih => exact ih (s.withManager (s.manager.receive id now))

/-- Pipelines learn at once of what a handler did to the linter. -/
theorem exists_steps_deliver (s : Session σ) (m : Manager) :
    ∃ run, s.withManager (m.deliver s.linter.now) = (s.withManager m).steps run := by
  refine ⟨m.backlog.map fun id => .lint (.receive id s.linter.now) nofun, ?_⟩
  have delivered := Manager.deliver_eq_after m s.linter.now
  rw [steps_receives, delivered]
  rfl

private theorem exists_steps_see (s : Session σ) (document : Path) :
    ∃ run, s.see document = s.steps run := by
  obtain ⟨run, eq⟩ := exists_steps_deliver s (s.manager.act (.visible document))
  exact ⟨.lint (.visible document) nofun :: run, eq⟩

/-- Closing a document is a step of the linter and a taking. -/
private theorem close_eq_steps (s : Session σ) (document : Path) :
    s.close document = s.steps [.lint (.close document) nofun, .takeParcel] :=
  rfl

private theorem shutdown_eq_steps (s : Session σ) :
    s.shutdown = s.steps [.stopTicker, .lint .shutdown nofun, .takeParcel] :=
  rfl

/-- A conversation that was opened with settings has gone some steps already. -/
theorem exists_steps_configure (runner : σ) (roots : List Path) (settings : LintSettings) :
    ∃ run, { (new runner).configure roots (.ok settings) with stage := .ready } =
      (opened runner).steps run := by
  obtain ⟨run, eq⟩ := exists_steps_deliver (opened runner)
    (((opened runner).manager.act (.setRoots roots)).act (.reconfigure settings fun _ => 0))
  exact ⟨.lint (.setRoots roots) nofun :: .lint (.reconfigure settings fun _ => 0) nofun :: run, eq⟩

/-! ### Requests -/

private theorem exists_steps_aboutDocument (s : Session σ) (r : Request) (isWell : Bool)
    {f : Path → Session σ} (does : ∀ p, ∃ run, f p = s.steps run) :
    ∃ run, s.aboutDocument r isWell f = s.steps run := by
  unfold aboutDocument
  split
  · split
    · exact does _
    · exact ⟨[], rfl⟩
  · exact ⟨[], rfl⟩

private theorem exists_steps_notified (s : Session σ) (r : Request) :
    ∃ run, s.notified r = s.steps run := by
  unfold notified
  split
  · split
    · exact ⟨[.startTicker], rfl⟩
    · exact ⟨[], rfl⟩
  · split
    · exact s.exists_steps_aboutDocument r _ s.exists_steps_see
    · split
      · exact s.exists_steps_aboutDocument r _ s.exists_steps_see
      · split
        · exact s.exists_steps_aboutDocument r _ fun p => ⟨_, s.close_eq_steps p⟩
        · exact ⟨[], rfl⟩

private theorem exists_steps_closing (s : Session σ) (r : Request) :
    ∃ run, (s.closing r).2 = s.steps run := by
  unfold closing
  split
  · dsimp only
    split
    · exact ⟨[.closing], rfl⟩
    · exact ⟨[.closing], rfl⟩
    · exact ⟨[.closing, .stopTicker, .lint .shutdown nofun, .takeParcel], rfl⟩
  · exact ⟨[], rfl⟩

/-- Once the conversation is open, taking a request in is a run, unless the editor leaves. -/
private theorem exists_steps_receive (load : Loader) {s : Session σ} (ready : s.stage = .ready)
    {r : Request} (stays : r.method ≠ "exit") :
    ∃ run, (s.receive load r).2 = s.steps run := by
  unfold receive
  split
  · exact ⟨[], rfl⟩
  · split
    · refine ⟨[], ?_⟩
      unfold opening
      rw [ready]
      rfl
    · split
      · exact s.exists_steps_closing r
      · split
        · dsimp only
          split
          · exact s.exists_steps_notified r
          · exact ⟨[], rfl⟩
        · -- All other requests get an answer and change nothing.
          refine ⟨[], ?_⟩
          repeat' split
          all_goals rfl

/-! ### Sending -/

/-- Sending a change concerns the stage and the messages sent only. -/
private theorem exists_outbox_sendFile (stage : Stage) (outbox : List Message) (f : FileRecords) :
    ∃ sent, ∀ (linter : Simulation σ) (ticker : Option Ticker) (parcels : List (List FileRecords)),
      (Session.mk stage linter ticker parcels outbox).sendFile f =
        ⟨stage, linter, ticker, parcels, sent⟩ := by
  unfold sendFile send
  cases Message.ofFile? f with
  | none => exact ⟨outbox, fun _ _ _ => rfl⟩
  | some m =>
    cases stage <;>
      first
      | exact ⟨outbox, fun _ _ _ => rfl⟩
      | exact ⟨outbox ++ [m], fun _ _ _ => rfl⟩

/-- Handlers that send one after the other go one step for every change, and one at their end. -/
private theorem exists_steps_sendParcels (s : Session σ) : ∃ run, s.sendParcels = s.steps run := by
  obtain ⟨stage, linter, ticker, parcels, outbox⟩ := s
  induction parcels generalizing outbox with
  | nil => exact ⟨[], rfl⟩
  | cons parcel parcels ih =>
    induction parcel generalizing outbox with
    | nil =>
      obtain ⟨run, eq⟩ := ih outbox
      exact ⟨.sendFromParcel 0 :: run, eq⟩
    | cons f rest ih' =>
      obtain ⟨sent, frame⟩ := exists_outbox_sendFile (σ := σ) stage outbox f
      obtain ⟨run, eq⟩ := ih' sent
      refine ⟨.sendFromParcel 0 :: run, ?_⟩
      have first :
          (Session.mk stage linter ticker ((f :: rest) :: parcels) outbox).sendFromParcel 0 =
            ⟨stage, linter, ticker, rest :: parcels, sent⟩ := frame linter ticker (rest :: parcels)
      have all : (Session.mk stage linter ticker ((f :: rest) :: parcels) outbox).sendParcels =
          (Session.mk stage linter ticker (rest :: parcels) sent).sendParcels :=
        congrArg (fun s => (rest ++ parcels.flatten).foldl sendFile s) (frame linter ticker [])
      rw [all, eq, steps, steps, List.foldl_cons, step, first]

/-- Once the conversation is open, all that the server does with a request is a run, unless the
editor leaves. -/
theorem exists_steps_exchange (load : Loader) {s : Session σ} (ready : s.stage = .ready)
    {r : Request} (stays : r.method ≠ "exit") :
    ∃ run, (s.exchange load r).2 = s.steps run := by
  obtain ⟨received, eq⟩ := exists_steps_receive load ready stays
  obtain ⟨sent, eq'⟩ := exists_steps_sendParcels ((s.steps received).step .announce)
  refine ⟨received ++ .announce :: sent, ?_⟩
  have exchanged : (s.exchange load r).2 = (s.receive load r).2.announce.sendParcels := rfl
  rw [exchanged, steps_append, eq]
  exact eq'

end ModBench.Editor.Session
