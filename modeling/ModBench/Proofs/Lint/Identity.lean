import ModBench.Proofs.Lint.Respelled
import ModBench.Proofs.Lint.Schedule

/-!
The identity of documents.  What a linter does depends on the components of the paths it is given
and not on their spelling: two histories that differ in spelling only cannot be told apart.
-/

set_option autoImplicit false
set_option relaxedAutoImplicit false

namespace ModBench

/-! ### What can be seen of a manager -/

/-- Lists of files that show the same records for the same paths, in the same order. -/
abbrev FilesAgree (files files' : List FileRecords) : Prop :=
  List.Forall₂ (fun f f' => f.1.Respelled f'.1 ∧ f.2 = f'.2) files files'

/-- Two managers that no question tells apart, however its paths are spelled. -/
structure Manager.Agrees (m m' : Manager) : Prop where
  tracked : List.Forall₂ Path.Respelled m.tracked.keys m'.tracked.keys
  trackedCount : m.trackedCount = m'.trackedCount
  isTracked : ∀ {p p' : Path}, p.Respelled p' → m.isTracked p = m'.isTracked p'
  rootFor : ∀ {p p' : Path}, p.Respelled p' →
    Option.Rel Path.Respelled (m.rootFor p) (m'.rootFor p')
  current : ∀ {p p' : Path}, p.Respelled p' → m.current p = m'.current p'
  published : ∀ {p p' : Path}, p.Respelled p' → m.published.get? p = m'.published.get? p'
  snapshot : FilesAgree m.snapshot.files m'.snapshot.files
  changes : FilesAgree m.takeChanges.1 m'.takeChanges.1
  notices : m.notices = m'.notices
  visible : ∀ (now : Nat) {d d' : Path}, d.Respelled d' →
    (m.visible now d).1 = (m'.visible now d').1
  poll : ∀ budget, (m.poll budget).1 = (m'.poll budget).1

/-- Lists sorted alike have related entries in the same places. -/
private theorem rel_mergeSort {α β : Type} {related : α → β → Prop} {le : α → α → Bool}
    {le' : β → β → Bool}
    (alike : ∀ a a' b b', related a a' → related b b' → le a b = le' a' b') {as : List α}
    {bs : List β} (h : List.Forall₂ related as bs) :
    List.Forall₂ related (as.mergeSort le) (bs.mergeSort le') := by
  let pairs := as.zip bs
  have lengths := List.Forall₂.length_eq h
  have firsts : pairs.map Prod.fst = as := List.map_fst_zip lengths.le
  have seconds : pairs.map Prod.snd = bs := List.map_snd_zip lengths.ge
  have paired : ∀ e ∈ pairs, related e.1 e.2 := fun e mem => List.forall₂_zip h mem
  -- Both lists are sorted as the list of their pairs is.
  have left : (pairs.mergeSort fun e f => le e.1 f.1).map Prod.fst = as.mergeSort le := by
    rw [← firsts]
    exact List.map_mergeSort fun _ _ _ _ => rfl
  have right : (pairs.mergeSort fun e f => le e.1 f.1).map Prod.snd = bs.mergeSort le' := by
    rw [← seconds]
    exact List.map_mergeSort fun e one f other => alike _ _ _ _ (paired e one) (paired f other)
  rw [← left, ← right, List.forall₂_map_left_iff, List.forall₂_map_right_iff, List.forall₂_same]
  intro e mem
  exact paired e (List.mem_mergeSort.1 mem)

private theorem Snapshot.precedes_respelled {a a' b b' : FileRecords}
    (one : a.1.Respelled a'.1 ∧ a.2 = a'.2) (other : b.1.Respelled b'.1 ∧ b.2 = b'.2) :
    precedes a b = precedes a' b' := by
  unfold precedes hasError
  rw [one.1.compare other.1, one.2, other.2]

private theorem Snapshot.ofFiles_respelled {files files' : List FileRecords}
    (h : FilesAgree files files') :
    FilesAgree (Snapshot.ofFiles files).files (Snapshot.ofFiles files').files := by
  have filled : FilesAgree (files.filter fun file => !file.2.isEmpty)
      (files'.filter fun file => !file.2.isEmpty) := by
    refine List.rel_filter (fun f f' same => ?_) h
    dsimp only
    rw [same.2]
  refine rel_mergeSort (fun f f' g g' one other => ?_) filled
  exact precedes_respelled one other

/-- Managers that differ in spelling only agree. -/
private theorem Manager.Respelled.agrees {m m' : Manager} (h : m.Respelled m') : m.Agrees m' where
  tracked := h.tracked.keys
  trackedCount := h.tracked.length_eq
  isTracked same := h.tracked.contains same
  rootFor same := h.rootFor same
  current same := congrArg (fun records : Option (List Record) => records.getD [])
    (h.published.get? same)
  published same := h.published.get? same
  snapshot := Snapshot.ofFiles_respelled h.published.files
  changes := h.published.changes
  notices := h.notices
  visible _ _ _ same := (h.submit same).1
  poll budget := (h.poll budget).1

private theorem Manager.respelled_new (settings : LintSettings) :
    (Manager.new settings).Respelled (Manager.new settings) :=
  ⟨rfl, .nil, .nil, ⟨.nil, .nil⟩, .nil, .nil, rfl, rfl, rfl⟩

/-! ### Simulations -/

/-- Commands respelled and started at the same time. -/
structure Call.Respelled (c c' : Call) : Prop where
  command : c.command.Respelled c'.command
  time : c.time = c'.time

structure Attempt.Respelled (a a' : Attempt) : Prop where
  document : a.document.Respelled a'.document
  settings : a.settings = a'.settings
  root : Option.Rel Path.Respelled a.root a'.root
  time : a.time = a'.time

/-- The same operation, with other spellings of the paths that a host gives; documents that start
over may be ranked otherwise. -/
inductive Operation.Respelled : Operation → Operation → Prop
  | visible {d d' : Path} (same : d.Respelled d') : Respelled (.visible d) (.visible d')
  | close {d d' : Path} (same : d.Respelled d') : Respelled (.close d) (.close d')
  | setRoots {roots roots' : List Path} (same : List.Forall₂ Path.Respelled roots roots') :
    Respelled (.setRoots roots) (.setRoots roots')
  | reconfigure (settings : LintSettings) (rank rank' : PathMap.Rank) :
    Respelled (.reconfigure settings rank) (.reconfigure settings rank')
  | poll (budget : Nat) : Respelled (.poll budget) (.poll budget)
  | takeChanges : Respelled .takeChanges .takeChanges
  | shutdown : Respelled .shutdown .shutdown
  | sleep (length : Nat) : Respelled (.sleep length) (.sleep length)

/-- The rank by which an operation starts documents over. -/
def Operation.rank? : Operation → Option PathMap.Rank
  | .reconfigure _ rank => some rank
  | _ => none

/-- Whenever two histories start documents over, they do so in the same order. -/
def SameOrder {σ : Type} (run : Runner σ) (s : Simulation σ) :
    List Operation → List Operation → Prop
  | operation :: rest, operation' :: rest' =>
    (∀ rank ∈ operation.rank?, ∀ rank' ∈ operation'.rank?,
      s.manager.tracked.keysBy rank = s.manager.tracked.keysBy rank') ∧
    SameOrder run (s.perform run operation) rest rest'
  | _, _ => True

/-- A runner that answers respelled commands alike, from states of its own that count as alike. -/
def AnswersAlike {σ : Type} (run : Runner σ) (alike : σ → σ → Prop) : Prop :=
  ∀ c c' : CommandLine, c.Respelled c' → ∀ r r', alike r r' →
    (run c r).1 = (run c' r').1 ∧ alike (run c r).2 (run c' r').2

structure Simulation.Respelled {σ : Type} (alike : σ → σ → Prop) (s s' : Simulation σ) : Prop where
  manager : s.manager.Respelled s'.manager
  runner : alike s.runner s'.runner
  now : s.now = s'.now
  attempts : List.Forall₂ Attempt.Respelled s.attempts s'.attempts
  calls : List.Forall₂ Call.Respelled s.calls s'.calls

namespace Manager.Respelled

variable {m m' : Manager}

private theorem refill (h : m.Respelled m') (now : Nat) :
    (m.refill now).Respelled (m'.refill now) := by
  have entered : (m.waiting.foldl (fun m e => m.enter e.pipeline) m).Respelled
      (m'.waiting.foldl (fun m e => m.enter e.pipeline) m') := by
    refine List.rel_foldl (fun _ _ managers e e' events => ?_) h h.waiting
    rw [events.pipeline]
    exact managers.enter _
  exact entered.deliver now

private theorem visible (h : m.Respelled m') (now : Nat) {d d' : Path} (same : d.Respelled d') :
    (m.visible now d).2.Respelled (m'.visible now d').2 :=
  (h.submit same).2.deliver now

private theorem reconfigure (h : m.Respelled m') (now : Nat) (settings : LintSettings)
    {rank rank' : PathMap.Rank} (order : m.tracked.keysBy rank = m.tracked.keysBy rank') :
    (m.reconfigure now settings rank).Respelled (m'.reconfigure now settings rank') :=
  (h.renew settings order).deliver now

/-- Pipelines that correspond fall due first, at the same time. -/
def DueAlike (due due' : Nat × Pipeline) : Prop := due.1 = due'.1 ∧ due.2.Respelled due'.2

private theorem sooner {best best' : Option (Nat × Pipeline)} (old : Option.Rel DueAlike best best')
    {p p' : Pipeline} (same : p.Respelled p') :
    Option.Rel DueAlike (Manager.sooner best p) (Manager.sooner best' p') := by
  unfold Manager.sooner
  rw [same.due?]
  cases p'.due? with
  | none => exact old
  | some due =>
    cases old with
    | none => exact .some ⟨rfl, same⟩
    | @some b b' agree =>
      obtain ⟨time, pipeline⟩ := b
      obtain ⟨time', pipeline'⟩ := b'
      obtain ⟨rfl, pipelines⟩ := agree
      dsimp only at pipelines ⊢
      rw [same.turn, pipelines.turn]
      split
      · exact .some ⟨rfl, same⟩
      · exact .some ⟨rfl, pipelines⟩

private theorem nextDue? (h : m.Respelled m') :
    Option.Rel DueAlike m.nextDue? m'.nextDue? := by
  refine List.rel_foldl (fun best best' old p p' same => ?_) .none h.pipelines
  exact sooner old same

end Manager.Respelled

namespace Simulation.Respelled

variable {σ : Type} {alike : σ → σ → Prop} {run : Runner σ} {s s' : Simulation σ}

theorem modify (h : s.Respelled alike s') (f f' : Manager → Nat → Manager)
    (agree : ∀ now, (f s.manager now).Respelled (f' s'.manager now)) :
    (s.modify f).Respelled alike (s'.modify f') := by
  refine { h with manager := ?_ }
  show (f s.manager s.now).Respelled (f' s'.manager s'.now)
  rw [h.now]
  exact agree _

/-- Runs that begin for respelled documents begin alike. -/
private theorem start (answers : AnswersAlike run alike) (h : s.Respelled alike s')
    {p p' : Pipeline} {t t' : Trigger} (pipelines : p.Respelled p') (triggers : t.Respelled t') :
    (s.start run p t).Respelled alike (s'.start run p' t') := by
  have attempted : List.Forall₂ Attempt.Respelled (s.attempts ++ [p.attempt t s.now])
      (s'.attempts ++ [p'.attempt t' s'.now]) :=
    List.rel_append h.attempts
      (.cons ⟨pipelines.document, pipelines.settings, triggers.root, h.now⟩ .nil)
  have begun : ∀ course : Run, (s.manager.begin p.id course s.now).Respelled
      (s'.manager.begin p'.id course s'.now) := by
    intro course
    rw [pipelines.id, h.now]
    exact h.manager.begin _ course _
  unfold Simulation.start
  dsimp only
  generalize p.commandFor t = command, p'.commandFor t' = command',
    pipelines.commandFor triggers = commands
  cases commands with
  | error missing => exact ⟨begun default, h.runner, h.now, attempted, h.calls⟩
  | @ok command command' commands =>
    obtain ⟨courses, runners⟩ := answers command command' commands _ _ h.runner
    have ran := begun (run command s.runner).1
    rw [courses] at ran
    refine ⟨?_, runners, h.now, attempted, ?_⟩
    · dsimp only
      rw [courses]
      exact ran
    · exact List.rel_append h.calls (.cons ⟨commands, h.now⟩ .nil)

private theorem fire (answers : AnswersAlike run alike) (h : s.Respelled alike s') {p p' : Pipeline}
    (pipelines : p.Respelled p') :
    (Simulation.fire run s p).Respelled alike (Simulation.fire run s' p') := by
  have finished : Simulation.Respelled alike { s with manager := s.manager.finish p.id }
      { s' with manager := s'.manager.finish p'.id } := by
    refine { h with manager := ?_ }
    rw [pipelines.id]
    exact h.manager.finish _
  unfold Simulation.fire
  generalize p.phase = phase, p'.phase = phase', pipelines.phase = phases
  cases phases with
  | debouncing triggers _ => exact start answers h pipelines triggers
  | _ => exact finished

private theorem runUntil (answers : AnswersAlike run alike) (target steps : Nat)
    (h : s.Respelled alike s') :
    (s.runUntil run target steps).Respelled alike (s'.runUntil run target steps) := by
  induction steps generalizing s s' with
  | zero => exact h
  | succ steps ih =>
    have next := h.manager.nextDue?
    unfold Simulation.runUntil
    generalize s.manager.nextDue? = best, s'.manager.nextDue? = best', next = agree
    cases agree with
    | none => exact h
    | @some b b' agree =>
      obtain ⟨due, p⟩ := b
      obtain ⟨due', p'⟩ := b'
      obtain ⟨rfl, pipelines⟩ := agree
      dsimp only at pipelines ⊢
      split
      · have advanced : Simulation.Respelled alike { s with now := max s.now due }
            { s' with now := max s'.now due } :=
          { h with now := congrArg (max · due) h.now }
        exact ih (fire answers advanced pipelines)
      · exact h

private theorem sleep (answers : AnswersAlike run alike) (h : s.Respelled alike s') (length : Nat) :
    (s.sleep run length).Respelled alike (s'.sleep run length) := by
  have refilled := h.modify _ _ fun now => h.manager.refill now
  have bound : (s.modify fun m now => m.refill now).stepBound =
      (s'.modify fun m now => m.refill now).stepBound :=
    congrArg (2 * ·) refilled.manager.tracked.length_eq
  unfold Simulation.sleep Simulation.sleepUntil
  dsimp only
  rw [bound, h.now]
  have ran := refilled.runUntil answers (s'.now + length)
    (s'.modify fun m now => m.refill now).stepBound
  exact { ran with now := congrArg (max · (s'.now + length)) ran.now }

/-- Every operation keeps what differs in spelling only so. -/
private theorem perform (answers : AnswersAlike run alike) (h : s.Respelled alike s')
    {operation operation' : Operation} (same : operation.Respelled operation')
    (order : ∀ rank ∈ operation.rank?, ∀ rank' ∈ operation'.rank?,
      s.manager.tracked.keysBy rank = s.manager.tracked.keysBy rank') :
    (s.perform run operation).Respelled alike (s'.perform run operation') := by
  unfold Simulation.perform
  cases same with
  | visible same =>
    refine h.modify _ _ fun now => ?_
    exact h.manager.visible now same
  | close same =>
    refine h.modify _ _ fun _ => ?_
    exact h.manager.close same
  | setRoots same =>
    refine h.modify _ _ fun _ => ?_
    exact { h.manager with roots := same }
  | reconfigure settings rank rank' =>
    refine h.modify _ _ fun now => ?_
    exact h.manager.reconfigure now settings (order rank rfl rank' rfl)
  | poll budget =>
    refine h.modify _ _ fun _ => ?_
    exact (h.manager.poll budget).2
  | takeChanges =>
    refine h.modify _ _ fun _ => ?_
    exact h.manager.takeChanges
  | shutdown =>
    refine h.modify _ _ fun _ => ?_
    exact h.manager.shutdown
  | sleep length => exact sleep answers h length

private theorem performAll (answers : AnswersAlike run alike) (h : s.Respelled alike s')
    {operations operations' : List Operation}
    (same : List.Forall₂ Operation.Respelled operations operations')
    (order : SameOrder run s operations operations') (steps : Nat) :
    (s.performAll run (operations.take steps)).Respelled alike
      (s'.performAll run (operations'.take steps)) := by
  induction same generalizing s s' steps with
  | nil => rwa [List.take_nil]
  | cons first _ ih =>
    cases steps with
    | zero => exact h
    | succ steps => exact ih (h.perform answers first order.1) order.2 steps

end Simulation.Respelled

/-! ### Main result -/

namespace Simulation

variable {σ : Type}

/-- Two histories that differ only in how the paths given to the linter are spelled, and in which
documents start over in the same order, agree after every step in all that can be seen, and call the
compiler alike and at the same times. -/
theorem identity_ignores_spelling (run : Runner σ) (alike : σ → σ → Prop)
    (answers : AnswersAlike run alike) (settings : LintSettings) {initial initial' : σ}
    (initially_alike : alike initial initial') {operations operations' : List Operation}
    (same : List.Forall₂ Operation.Respelled operations operations')
    (order : SameOrder run (initially settings initial) operations operations') (steps : Nat) :
    let s := (initially settings initial).performAll run (operations.take steps)
    let s' := (initially settings initial').performAll run (operations'.take steps)
    s.manager.Agrees s'.manager ∧ s.now = s'.now ∧
      List.Forall₂ Attempt.Respelled s.attempts s'.attempts ∧
      List.Forall₂ Call.Respelled s.calls s'.calls := by
  intro s s'
  have start : (initially settings initial).Respelled alike (initially settings initial') :=
    ⟨Manager.respelled_new settings, initially_alike, rfl, .nil, .nil⟩
  have passed : s.Respelled alike s' := start.performAll answers same order steps
  exact ⟨passed.manager.agrees, passed.now, passed.attempts, passed.calls⟩

/-- A document that is opened below a root, linted, started over, and closed under another
spelling. -/
def openAndClose (root opened closed : String) (rank : PathMap.Rank) : List Operation :=
  [.setRoots [.ofString root], .visible (.ofString opened), .sleep 250, .poll 8,
    .reconfigure completeSettings rank, .sleep 250, .poll 8, .close (.ofString closed)]

/-- A runner that always reports the same problem of a file beside the document. -/
def complaining : Runner Unit :=
  fun _ _ => (⟨30, some (.ok { stderr := "[ERROR] At a.reds:1:1:\nx\n" })⟩, ())

/-- Where one document starts over the ranks do not count. -/
theorem openAndClose_ignores_spelling :
    let plain := openAndClose "/ws" "/ws/a.reds" "/ws/a.reds" fun _ => 0
    let spelled := openAndClose "/ws/" "/ws//./a.reds/" "//ws/a.reds" List.length
    let s := (initially completeSettings ()).performAll complaining (plain.take 7)
    let s' := (initially completeSettings ()).performAll complaining (spelled.take 7)
    (AnswersAlike complaining Eq ∧ List.Forall₂ Operation.Respelled plain spelled ∧
      SameOrder complaining (initially completeSettings ()) plain spelled) ∧
      s.manager.Agrees s'.manager ∧
      (s'.manager.current (.ofString "/ws/a.reds")).length = 1 ∧
      ((s'.perform complaining (.close (.ofString "//ws/a.reds"))).manager.current
        (.ofString "/ws/a.reds")).length = 0 := by
  intro plain spelled s s'
  have answers : AnswersAlike complaining Eq := fun _ _ _ _ _ _ => ⟨rfl, rfl⟩
  have same : List.Forall₂ Operation.Respelled plain spelled := by
    refine .cons (.setRoots (.cons ?_ .nil)) (.cons (.visible ?_) (.cons (.sleep 250)
      (.cons (.poll 8) (.cons (.reconfigure _ _ _) (.cons (.sleep 250) (.cons (.poll 8)
        (.cons (.close ?_) .nil)))))))
    · decide
    · decide
    · decide
  have order : SameOrder complaining (initially completeSettings ()) plain spelled := by
    refine ⟨nofun, nofun, nofun, nofun, ?_, nofun, nofun, nofun, trivial⟩
    rintro _ ⟨⟩ _ ⟨⟩
    decide +kernel
  have agreed := identity_ignores_spelling complaining Eq answers completeSettings (Eq.refl ())
    same order 7
  exact ⟨⟨answers, same, order⟩, agreed.1, by decide +kernel, by decide +kernel⟩

/-- Two documents of one name that start over together. -/
def startTwoOver (rank : PathMap.Rank) : List Operation :=
  [.visible (.ofString "/one/a.reds"), .visible (.ofString "/two/a.reds"),
    .reconfigure completeSettings rank, .sleep 250, .poll 8]

/-- The rank by which one document starts over last. -/
def behindOthers (document : Path) : PathMap.Rank :=
  fun components => if components = document.components then 1 else 0

/-- What can be seen of two documents that fall due together depends on which starts over first; and
files are published as they were spelled. -/
theorem order_and_spelling_are_seen :
    let last (rank : PathMap.Rank) :=
      ((initially completeSettings ()).performAll complaining (startTwoOver rank)).manager
    let changes (document : Path) := ((initially completeSettings ()).performAll complaining
      [.visible document, .sleep 250, .poll 8]).manager.takeChanges.1
    (((last fun _ => 0).current (.ofString "/two/a.reds")).length = 1 ∧
      (last (behindOthers (.ofString "/one/a.reds"))).current (.ofString "/two/a.reds") = []) ∧
    (Path.ofString "/ws/./b/a.reds").Respelled (.ofString "/ws/b/a.reds") ∧
      changes (.ofString "/ws/./b/a.reds") ≠ changes (.ofString "/ws/b/a.reds") := by
  refine ⟨⟨?_, ?_⟩, by decide, ?_⟩
  · decide +kernel
  · decide +kernel
  · decide +kernel

end Simulation

end ModBench
