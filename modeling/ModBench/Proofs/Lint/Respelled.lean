import ModBench.Lint.History
import ModBench.Proofs.Path.Respelled

/-!
Managers whose paths are spelled differently.  Two managers that differ in the spelling of their
paths only, and are asked for things that differ in the spelling of paths only, stay so.
-/

set_option autoImplicit false
set_option relaxedAutoImplicit false

namespace ModBench

/-! ### What may be respelled -/

/-- Program, arguments and directory are the same as paths. -/
structure CommandLine.Respelled (c c' : CommandLine) : Prop where
  program : c.program.Respelled c'.program
  args : List.Forall₂ Path.Respelled c.args c'.args
  cwd : Option.Rel Path.Respelled c.cwd c'.cwd

structure Trigger.Respelled (t t' : Trigger) : Prop where
  root : Option.Rel Path.Respelled t.root t'.root
  number : t.number = t'.number

/-- Outcomes have the same records below the same directory, and failures are equal. -/
inductive LintResult.Respelled : LintResult → LintResult → Prop
  | ok (records : List Record) {base base' : Path} (same : base.Respelled base') :
    Respelled (.ok ⟨records, base⟩) (.ok ⟨records, base'⟩)
  | error (error : LintError) : Respelled (.error error) (.error error)

inductive Finish.Respelled : Finish → Finish → Prop
  | result {r r' : LintResult} (results : LintResult.Respelled r r') :
    Respelled (.result r) (.result r')
  | crash : Respelled .crash .crash

inductive Phase.Respelled : Phase → Phase → Prop
  | idle : Respelled .idle .idle
  | debouncing {t t' : Trigger} (triggers : t.Respelled t') (due : Nat) :
    Respelled (.debouncing t due) (.debouncing t' due)
  | running {t t' : Trigger} (triggers : t.Respelled t') {f f' : Finish}
    (finishes : f.Respelled f') (ends : Nat) : Respelled (.running t f ends) (.running t' f' ends)
  | blocked : Respelled .blocked .blocked
  | ended : Respelled .ended .ended

structure Pipeline.Respelled (p p' : Pipeline) : Prop where
  id : p.id = p'.id
  document : p.document.Respelled p'.document
  settings : p.settings = p'.settings
  generation : p.generation = p'.generation
  phase : p.phase.Respelled p'.phase
  inbox : List.Forall₂ Trigger.Respelled p.inbox p'.inbox

structure Tracked.Respelled (t t' : Tracked) : Prop where
  pipeline : t.pipeline.Respelled t'.pipeline
  applied : t.applied = t'.applied

structure Event.Respelled (e e' : Event) : Prop where
  document : e.document.Respelled e'.document
  pipeline : e.pipeline = e'.pipeline
  generation : e.generation = e'.generation
  trigger : e.trigger.Respelled e'.trigger
  result : LintResult.Respelled e.result e'.result

/-- The same files, with identical lists of records. -/
abbrev RecordMap.Respelled (files files' : RecordMap) : Prop :=
  PathMap.Respelled (fun records records' : List Record => records = records') files files'

/-- The same files and the same marks. -/
structure PublishedSet.Respelled (s s' : PublishedSet) : Prop where
  files : RecordMap.Respelled s.files s'.files
  changed : PathMap.Respelled (fun _ _ => True) s.changed s'.changed

structure Manager.Respelled (m m' : Manager) : Prop where
  settings : m.settings = m'.settings
  roots : List.Forall₂ Path.Respelled m.roots m'.roots
  tracked : PathMap.Respelled Tracked.Respelled m.tracked m'.tracked
  published : m.published.Respelled m'.published
  queue : List.Forall₂ Event.Respelled m.queue m'.queue
  waiting : List.Forall₂ Event.Respelled m.waiting m'.waiting
  lastId : m.lastId = m'.lastId
  requests : m.requests = m'.requests
  notices : m.notices = m'.notices

/-! ### Command lines and results -/

/-- The same setting is missing, or the command lines are respelled. -/
inductive CommandLine.AskedAlike :
    Except MissingSetting CommandLine → Except MissingSetting CommandLine → Prop
  | error (missing : MissingSetting) : AskedAlike (.error missing) (.error missing)
  | ok {c c' : CommandLine} (commands : c.Respelled c') : AskedAlike (.ok c) (.ok c')

namespace LintSettings

variable {d d' : Path} {root root' : Option Path}

theorem isEligible_respelled (s : LintSettings) (same : d.Respelled d') :
    s.isEligible d = s.isEligible d' :=
  Path.hasExtension_congr same _

private theorem source_respelled (same : d.Respelled d')
    (roots : Option.Rel Path.Respelled root root') : (root.getD d).Respelled (root'.getD d') := by
  cases roots with
  | none => exact same
  | some r => exact r

private theorem commandFor_respelled (s : LintSettings) (same : d.Respelled d')
    (roots : Option.Rel Path.Respelled root root') :
    CommandLine.AskedAlike (s.commandFor d root) (s.commandFor d' root') := by
  have source := source_respelled same roots
  unfold commandFor lintCommand
  cases s.compiler with
  | none => exact .error _
  | some compiler =>
    cases s.blob with
    | none => exact .error _
    | some blob =>
      refine .ok ⟨Path.same_refl compiler, ?_, roots⟩
      exact .cons (Path.same_refl _) (.cons (Path.same_refl _) (.cons source
        (.cons (Path.same_refl _) (.cons (Path.same_refl _) .nil))))

private theorem baseDirFor_respelled (same : d.Respelled d')
    (roots : Option.Rel Path.Respelled root root') :
    (baseDirFor d root).Respelled (baseDirFor d' root') := by
  cases roots with
  | some r => exact r
  | none =>
    have parents := Path.parent?_congr same
    unfold baseDirFor
    generalize d.parent? = parent, d'.parent? = parent', parents = agree
    cases agree with
    | none => exact Path.same_refl _
    | some r => exact r

private theorem resultOf_respelled (s : LintSettings) (same : d.Respelled d')
    (roots : Option.Rel Path.Respelled root root') (ended : Except ProcessError ProcessOutput) :
    LintResult.Respelled (s.resultOf d root ended) (s.resultOf d' root' ended) := by
  cases ended with
  | error error => exact .error _
  | ok output => exact .ok _ (baseDirFor_respelled same roots)

end LintSettings

/-! ### Pipelines -/

namespace Pipeline.Respelled

variable {p p' : Pipeline} {t t' : Trigger}

private theorem isAlive (h : p.Respelled p') : p.isAlive = p'.isAlive := by
  unfold Pipeline.isAlive
  generalize p.phase = phase, p'.phase = phase', h.phase = phases
  cases phases <;> rfl

theorem due? (h : p.Respelled p') : p.due? = p'.due? := by
  unfold Pipeline.due?
  generalize p.phase = phase, p'.phase = phase', h.phase = phases
  cases phases <;> rfl

theorem turn (h : p.Respelled p') : p.turn = p'.turn := by
  unfold Pipeline.turn
  generalize p.phase = phase, p'.phase = phase', h.phase = phases
  cases phases with
  | debouncing triggers _ => exact triggers.number
  | running triggers _ _ => exact triggers.number
  | _ => rfl

private theorem post (h : p.Respelled p') (triggers : t.Respelled t') :
    (p.post t).Respelled (p'.post t') :=
  { h with inbox := List.rel_append h.inbox (.cons triggers .nil) }

/-- A trigger taken in opens the same window in both. -/
private theorem receive (h : p.Respelled p') (now : Nat) :
    (p.receive now).Respelled (p'.receive now) := by
  obtain ⟨id, d, s, g, phase, inbox⟩ := p
  obtain ⟨id', d', s', g', phase', inbox'⟩ := p'
  obtain ⟨rfl, same, rfl, rfl, phases, inboxes⟩ := h
  dsimp only at same phases inboxes
  cases phases with
  | blocked => exact ⟨rfl, same, rfl, rfl, .blocked, inboxes⟩
  | ended => exact ⟨rfl, same, rfl, rfl, .ended, inboxes⟩
  | idle =>
    cases inboxes with
    | nil => exact ⟨rfl, same, rfl, rfl, .idle, .nil⟩
    | cons first rest => exact ⟨rfl, same, rfl, rfl, .debouncing first _, rest⟩
  | debouncing triggers due =>
    cases inboxes with
    | nil => exact ⟨rfl, same, rfl, rfl, .debouncing triggers due, .nil⟩
    | cons first rest => exact ⟨rfl, same, rfl, rfl, .debouncing first _, rest⟩
  | running triggers finishes ends =>
    cases inboxes with
    | nil => exact ⟨rfl, same, rfl, rfl, .running triggers finishes ends, .nil⟩
    | cons first rest => exact ⟨rfl, same, rfl, rfl, .debouncing first _, rest⟩

private theorem receiveAll (h : p.Respelled p') (now : Nat) :
    (p.receiveAll now).Respelled (p'.receiveAll now) :=
  List.rel_foldl (fun _ _ pipelines _ _ _ => pipelines.receive now) h h.inbox

theorem commandFor (h : p.Respelled p') (triggers : t.Respelled t') :
    CommandLine.AskedAlike (p.commandFor t) (p'.commandFor t') := by
  unfold Pipeline.commandFor
  rw [h.settings]
  exact p'.settings.commandFor_respelled h.document triggers.root

/-- A run of the compiler that goes alike ends alike, after the same time. -/
private theorem courseFor (h : p.Respelled p') (triggers : t.Respelled t') (run : Run) :
    (p.courseFor t run).1.Respelled (p'.courseFor t' run).1 ∧
      (p.courseFor t run).2 = (p'.courseFor t' run).2 := by
  unfold Pipeline.courseFor
  generalize p.commandFor t = command, p'.commandFor t' = command',
    h.commandFor triggers = commands
  cases commands with
  | error missing => exact ⟨.result (.error _), rfl⟩
  | ok _ =>
    dsimp only
    cases run.ending with
    | none => exact ⟨.crash, rfl⟩
    | some ended =>
      refine ⟨.result ?_, rfl⟩
      rw [h.settings]
      exact p'.settings.resultOf_respelled h.document triggers.root ended

private theorem begin (h : p.Respelled p') (run : Run) (now : Nat) :
    (p.begin run now).Respelled (p'.begin run now) := by
  have whole := h
  obtain ⟨id, d, s, g, phase, inbox⟩ := p
  obtain ⟨id', d', s', g', phase', inbox'⟩ := p'
  obtain ⟨rfl, same, rfl, rfl, phases, inboxes⟩ := h
  dsimp only at same phases inboxes
  cases phases with
  | @debouncing t t' triggers due =>
    obtain ⟨finishes, lengths⟩ := whole.courseFor triggers run
    refine ⟨rfl, same, rfl, rfl, ?_, inboxes⟩
    simp only [Pipeline.begin]
    rw [lengths]
    exact .running triggers finishes _
  | idle => exact whole
  | running => exact whole
  | blocked => exact whole
  | ended => exact whole

private theorem resume (h : p.Respelled p') : p.resume.Respelled p'.resume := by
  have whole := h
  obtain ⟨id, d, s, g, phase, inbox⟩ := p
  obtain ⟨id', d', s', g', phase', inbox'⟩ := p'
  obtain ⟨rfl, same, rfl, rfl, phases, inboxes⟩ := h
  dsimp only at same phases inboxes
  cases phases with
  | blocked => exact ⟨rfl, same, rfl, rfl, .idle, inboxes⟩
  | _ => exact whole

private theorem event (h : p.Respelled p') (triggers : t.Respelled t') {r r' : LintResult}
    (results : LintResult.Respelled r r') : (p.event t r).Respelled (p'.event t' r') :=
  ⟨h.document, h.id, h.generation, triggers, results⟩

end Pipeline.Respelled

/-! ### The published set -/

theorem RecordMap.Respelled.find?_eq {files files' : RecordMap} (h : files.Respelled files')
    {p p' : Path} (same : p.Respelled p') : files.find? p = files'.find? p' := by
  generalize files.find? p = found, files'.find? p' = found', PathMap.Respelled.find? h same = agree
  cases agree with
  | none => rfl
  | some eq => rw [eq]

private theorem groupRecords_respelled {base base' : Path} (same : base.Respelled base')
    (records : List Record) :
    (groupRecords base records).Respelled (groupRecords base' records) := by
  have start : RecordMap.Respelled [] [] := .nil
  have files : ∀ r : Record, (resolveFile base r).Respelled (resolveFile base' r) := by
    intro r
    unfold resolveFile
    dsimp only
    split
    · exact Path.same_refl _
    · exact Path.join_congr same _
  refine List.rel_foldl (R := Eq) ?_ start (List.forall₂_eq_eq_eq ▸ rfl)
  rintro groups groups' respelled r _ rfl
  refine PathMap.Respelled.upsert respelled (files r) ?_
  rintro old old' agree
  cases agree with
  | none => rfl
  | some eq => rw [eq]

namespace PublishedSet.Respelled

variable {s s' : PublishedSet} {p p' : Path}

theorem mark {marks marks' : PathMap Unit}
    (h : PathMap.Respelled (fun _ _ => True) marks marks') (same : p.Respelled p') :
    PathMap.Respelled (fun _ _ => True) (mark p marks) (PublishedSet.mark p' marks') :=
  h.insert same trivial

private theorem markDifferent {one one' other other' : RecordMap} {marks marks' : PathMap Unit}
    (ones : one.Respelled one') (others : other.Respelled other')
    (h : PathMap.Respelled (fun _ _ => True) marks marks') :
    PathMap.Respelled (fun _ _ => True) (markDifferent one other marks)
      (PublishedSet.markDifferent one' other' marks') := by
  refine List.rel_foldl ?_ h ones
  rintro marks marks' respelled ⟨p, records⟩ ⟨p', records'⟩ ⟨same, rfl⟩
  dsimp only
  rw [others.find?_eq same]
  split
  · exact respelled
  · exact mark respelled same

private theorem publish (h : s.Respelled s') {base base' : Path} (same : base.Respelled base')
    (records : List Record) : (s.publish records base).Respelled (s'.publish records base') := by
  have groups := groupRecords_respelled same records
  exact ⟨groups, markDifferent groups h.files (markDifferent h.files groups h.changed)⟩

private theorem clear (h : s.Respelled s') (same : p.Respelled p') :
    (s.clear p).Respelled (s'.clear p') := by
  unfold PublishedSet.clear
  rw [PathMap.Respelled.contains h.files same]
  split
  · exact ⟨PathMap.Respelled.erase h.files same, mark h.changed same⟩
  · exact h

private theorem clearAll (h : s.Respelled s') : s.clearAll.Respelled s'.clearAll :=
  ⟨.nil, List.rel_foldl (fun _ _ respelled _ _ files => mark respelled files.1) h.changed h.files⟩

theorem get? (h : s.Respelled s') (same : p.Respelled p') : s.get? p = s'.get? p' :=
  h.files.find?_eq same

/-- The same changes are taken. -/
theorem changes (h : s.Respelled s') : RecordMap.Respelled s.changes s'.changes := by
  refine List.rel_map ?_ h.changed
  rintro ⟨p, _⟩ ⟨p', _⟩ ⟨same, _⟩
  refine ⟨same, ?_⟩
  dsimp only
  rw [h.get? same]

private theorem takeChanges (h : s.Respelled s') : s.takeChanges.2.Respelled s'.takeChanges.2 :=
  ⟨h.files, .nil⟩

end PublishedSet.Respelled

/-! ### Managers -/

namespace Manager.Respelled

variable {m m' : Manager} {d d' : Path}

theorem rootFor (h : m.Respelled m') (same : d.Respelled d') :
    Option.Rel Path.Respelled (m.rootFor d) (m'.rootFor d') :=
  workspaceRoot?_respelled h.roots same

private theorem nextTrigger (h : m.Respelled m') (same : d.Respelled d') :
    (m.nextTrigger d).Respelled (m'.nextTrigger d') :=
  ⟨h.rootFor same, congrArg (· + 1) h.requests⟩

theorem updateById (h : m.Respelled m') (id : Nat) (f f' : Pipeline → Pipeline)
    (agree : ∀ p p', p.Respelled p' → (f p).Respelled (f' p')) :
    (m.updateById id f).Respelled (m'.updateById id f') := by
  refine { h with tracked := ?_ }
  refine h.tracked.map
    (fun t => if t.pipeline.id = id then { t with pipeline := f t.pipeline } else t)
    (fun t => if t.pipeline.id = id then { t with pipeline := f' t.pipeline } else t) ?_
  intro t t' tracked
  rw [tracked.pipeline.id]
  split
  · exact ⟨agree _ _ tracked.pipeline, tracked.applied⟩
  · exact tracked

private theorem newcomer (h : m.Respelled m') (same : d.Respelled d') {t t' : Trigger}
    (triggers : t.Respelled t') : (m.newcomer d t).Respelled (m'.newcomer d' t') :=
  ⟨⟨congrArg (· + 1) h.lastId, same, h.settings, rfl, .idle, .cons triggers .nil⟩, rfl⟩

private theorem spawn (h : m.Respelled m') (same : d.Respelled d') {t t' : Trigger}
    (triggers : t.Respelled t') : (m.spawn d t).Respelled (m'.spawn d' t') :=
  { h with
    lastId := congrArg (· + 1) h.lastId
    tracked := h.tracked.insert same (h.newcomer same triggers) }

theorem request (h : m.Respelled m') (same : d.Respelled d') :
    (m.request d).Respelled (m'.request d') := by
  have triggers := h.nextTrigger same
  have counted : { m with requests := m.requests + 1 }.Respelled
      { m' with requests := m'.requests + 1 } :=
    { h with requests := congrArg (· + 1) h.requests }
  have found := h.tracked.find? same
  unfold Manager.request
  dsimp only
  generalize m.tracked.find? d = t, m'.tracked.find? d' = t', found = agree
  cases agree with
  | none => exact counted.spawn same triggers
  | @some t t' tracked =>
    dsimp only
    rw [tracked.pipeline.isAlive, tracked.pipeline.id]
    split
    · exact counted.updateById _ _ _ fun _ _ pipelines => pipelines.post triggers
    · exact counted.spawn same triggers

theorem deliver (h : m.Respelled m') (now : Nat) : (m.deliver now).Respelled (m'.deliver now) :=
  { h with
    tracked := h.tracked.map (fun t => { t with pipeline := t.pipeline.receiveAll now })
      (fun t => { t with pipeline := t.pipeline.receiveAll now }) fun _ _ tracked =>
        ⟨tracked.pipeline.receiveAll now, tracked.applied⟩ }

theorem untrack (h : m.Respelled m') (same : d.Respelled d') :
    (m.untrack d).Respelled (m'.untrack d') := by
  have found := h.tracked.find? same
  unfold Manager.untrack
  generalize m.tracked.find? d = t, m'.tracked.find? d' = t', found = agree
  cases agree with
  | none => exact h
  | @some t t' tracked =>
    refine { h with tracked := h.tracked.erase same, waiting := ?_ }
    refine List.rel_filter (fun e e' events => ?_) h.waiting
    dsimp only
    rw [events.pipeline, tracked.pipeline.id]

theorem submit (h : m.Respelled m') (same : d.Respelled d') :
    (m.submit d).1 = (m'.submit d').1 ∧ (m.submit d).2.Respelled (m'.submit d').2 := by
  unfold Manager.submit
  rw [h.settings, m'.settings.isEligible_respelled same]
  split
  · exact ⟨rfl, h.request same⟩
  · exact ⟨rfl, h⟩

theorem clear (h : m.Respelled m') (same : d.Respelled d') :
    { m with published := m.published.clear d }.Respelled
      { m' with published := m'.published.clear d' } :=
  { h with published := h.published.clear same }

theorem close (h : m.Respelled m') (same : d.Respelled d') :
    (m.close d).Respelled (m'.close d') :=
  (h.untrack same).clear same

private theorem restart (h : m.Respelled m') (same : d.Respelled d') :
    (m.restart d).Respelled (m'.restart d') := by
  have untracked := h.untrack same
  have eligible : (m.untrack d).settings.isEligible d = (m'.untrack d').settings.isEligible d' := by
    rw [untracked.settings]
    exact (m'.untrack d').settings.isEligible_respelled same
  unfold Manager.restart
  dsimp only
  rw [eligible]
  split
  · exact untracked.request same
  · exact untracked.clear same

/-- Managers that start over alike do so in the same order. -/
theorem renew (h : m.Respelled m') (settings : LintSettings) {rank rank' : PathMap.Rank}
    (order : m.tracked.keysBy rank = m.tracked.keysBy rank') :
    (m.renew settings rank).Respelled (m'.renew settings rank') := by
  have changed : { m with settings := settings }.Respelled { m' with settings := settings } :=
    { h with settings := rfl }
  have keys := h.tracked.keysBy rank'
  rw [← order] at keys
  exact List.rel_foldl (fun _ _ managers _ _ same => managers.restart same) changed keys

private theorem accepts (h : m.Respelled m') {e e' : Event} (events : e.Respelled e') :
    m.accepts e = m'.accepts e' := by
  have found := h.tracked.find? events.document
  unfold Manager.accepts
  generalize m.tracked.find? e.document = t, m'.tracked.find? e'.document = t', found = agree
  cases agree with
  | none => rfl
  | @some t t' tracked =>
    dsimp only
    rw [tracked.pipeline.id, tracked.applied, events.pipeline, events.generation]

private theorem applyResult (h : m.Respelled m') {e e' : Event} (events : e.Respelled e') :
    (m.applyResult e).Respelled (m'.applyResult e') := by
  unfold Manager.applyResult
  generalize e.result = r, e'.result = r', events.result = results
  cases results with
  | ok records same => exact { h with published := h.published.publish same records }
  | error error =>
    have noticed : ∀ text, (m.notice text).Respelled (m'.notice text) := fun text =>
      { h with notices := congrArg (· ++ [(⟨.error, text⟩ : Notice)]) h.notices }
    cases error with
    | configuration missing => exact noticed _
    | process error => exact (noticed _).clear events.document

private theorem handle (h : m.Respelled m') {e e' : Event} (events : e.Respelled e') :
    (m.handle e).Respelled (m'.handle e') := by
  unfold Manager.handle
  rw [h.accepts events]
  split
  · have marked : (m.markApplied e).Respelled (m'.markApplied e') :=
      { h with
        tracked := h.tracked.adjust events.document (fun t => { t with applied := e.generation })
          (fun t => { t with applied := e'.generation }) fun _ _ tracked =>
            ⟨tracked.pipeline, events.generation⟩ }
    exact marked.applyResult events
  · exact h

private theorem next (h : m.Respelled m') : m.next.Respelled m'.next := by
  have queues := h.queue
  unfold Manager.next
  generalize eq : m.queue = queue, eq' : m'.queue = queue' at queues
  cases queues with
  | nil => exact h
  | @cons e e' rest rest' first others =>
    have taken : Manager.Respelled { m with queue := rest } { m' with queue := rest' } :=
      { h with queue := others }
    exact taken.handle first

/-- Polling handles the same number of results. -/
theorem poll (h : m.Respelled m') (budget : Nat) :
    (m.poll budget).1 = (m'.poll budget).1 ∧ (m.poll budget).2.Respelled (m'.poll budget).2 := by
  induction budget generalizing m m' with
  | zero => exact ⟨rfl, h⟩
  | succ budget ih =>
    have empty : m.queue.isEmpty = m'.queue.isEmpty := by
      generalize m.queue = queue, m'.queue = queue', h.queue = queues
      cases queues <;> rfl
    rw [Manager.poll, Manager.poll, empty]
    split
    · exact ⟨rfl, h⟩
    · obtain ⟨counts, polled⟩ := ih h.next
      exact ⟨congrArg (· + 1) counts, polled⟩

theorem takeChanges (h : m.Respelled m') : m.takeChanges.2.Respelled m'.takeChanges.2 :=
  { h with published := h.published.takeChanges }

theorem shutdown (h : m.Respelled m') : m.shutdown.Respelled m'.shutdown :=
  { h with tracked := .nil, queue := .nil, waiting := .nil, published := h.published.clearAll }

theorem pipelines (h : m.Respelled m') :
    List.Forall₂ Pipeline.Respelled m.pipelines m'.pipelines :=
  List.rel_map (fun _ _ entries => entries.2.pipeline) h.tracked

private theorem pipeline? (h : m.Respelled m') (id : Nat) :
    Option.Rel Pipeline.Respelled (m.pipeline? id) (m'.pipeline? id) := by
  unfold Manager.pipeline?
  generalize m.pipelines = ps, m'.pipelines = ps', h.pipelines = agree
  induction agree with
  | nil => exact .none
  | cons first _ ih =>
    rw [List.find?_cons, List.find?_cons, first.id]
    split
    · exact .some first
    · exact ih

theorem begin (h : m.Respelled m') (id : Nat) (run : Run) (now : Nat) :
    (m.begin id run now).Respelled (m'.begin id run now) :=
  h.updateById id _ _ fun _ _ pipelines => pipelines.begin run now

private theorem send (h : m.Respelled m') {e e' : Event} (events : e.Respelled e') :
    (m.send e).Respelled (m'.send e') := by
  have room : (m.queue.length < queueCapacity && m.waiting.isEmpty) =
      (m'.queue.length < queueCapacity && m'.waiting.isEmpty) := by
    have waiting : m.waiting.isEmpty = m'.waiting.isEmpty := by
      generalize m.waiting = ws, m'.waiting = ws', h.waiting = agree
      cases agree <;> rfl
    rw [List.Forall₂.length_eq h.queue, waiting]
  unfold Manager.send
  rw [room, events.pipeline]
  split
  · have idle := h.updateById e'.pipeline (fun p => { p with phase := .idle })
      (fun p => { p with phase := .idle }) fun _ _ pipelines => { pipelines with phase := .idle }
    exact { idle with queue := List.rel_append h.queue (.cons events .nil) }
  · have blocked := h.updateById e'.pipeline (fun p => { p with phase := .blocked })
      (fun p => { p with phase := .blocked })
      fun _ _ pipelines => { pipelines with phase := .blocked }
    exact { blocked with waiting := List.rel_append h.waiting (.cons events .nil) }

theorem finish (h : m.Respelled m') (id : Nat) : (m.finish id).Respelled (m'.finish id) := by
  have found := h.pipeline? id
  unfold Manager.finish
  generalize m.pipeline? id = p, m'.pipeline? id = p', found = agree
  cases agree with
  | none => exact h
  | @some p p' pipelines =>
    have phases := pipelines.phase
    dsimp only
    generalize eq : p.phase = phase, eq' : p'.phase = phase' at phases
    cases phases with
    | running triggers finishes ends =>
      cases finishes with
      | result results => exact h.send (pipelines.event triggers results)
      | crash =>
        exact h.updateById id (fun p => { p with phase := .ended })
          (fun p => { p with phase := .ended })
          fun _ _ pipelines => { pipelines with phase := .ended }
    | _ => exact h

theorem enter (h : m.Respelled m') (id : Nat) : (m.enter id).Respelled (m'.enter id) := by
  have found : Option.Rel Event.Respelled (m.waiting.find? fun e => e.pipeline == id)
      (m'.waiting.find? fun e => e.pipeline == id) := by
    generalize m.waiting = ws, m'.waiting = ws', h.waiting = agree
    induction agree with
    | nil => exact .none
    | cons first _ ih =>
      rw [List.find?_cons, List.find?_cons, first.pipeline]
      split
      · exact .some first
      · exact ih
  have left : List.Forall₂ Event.Respelled (m.waiting.eraseP fun e => e.pipeline == id)
      (m'.waiting.eraseP fun e => e.pipeline == id) := by
    generalize m.waiting = ws, m'.waiting = ws', h.waiting = agree
    induction agree with
    | nil => exact .nil
    | @cons _ e' _ _ first rest ih =>
      rw [List.eraseP_cons, List.eraseP_cons, first.pipeline]
      cases e'.pipeline == id with
      | true => exact rest
      | false => exact .cons first ih
  unfold Manager.enter
  generalize (m.waiting.find? fun e => e.pipeline == id) = e,
    (m'.waiting.find? fun e => e.pipeline == id) = e', found = agree
  cases agree with
  | none => exact h
  | some events =>
    dsimp only
    rw [List.Forall₂.length_eq h.queue]
    split
    · have resumed := h.updateById id Pipeline.resume Pipeline.resume
        fun _ _ pipelines => pipelines.resume
      exact { resumed with
        queue := List.rel_append h.queue (.cons events .nil)
        waiting := left }
    · exact h

end Manager.Respelled

end ModBench
