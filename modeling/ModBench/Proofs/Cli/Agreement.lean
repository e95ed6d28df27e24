import ModBench.Proofs.Cli.Grouping
import ModBench.Proofs.Lint.Schedule

/-!
One-shot checks and live linting.  A check of a single document shows the same snapshot as a linter
that was started for this document, once its run was polled, and both call the compiler alike.
-/

set_option autoImplicit false
set_option relaxedAutoImplicit false

namespace ModBench

/-! ### Maps put into maps -/

namespace PathMap

variable {α : Type}

/-- What comes after all entries is put in behind them. -/
private theorem insert_of_lt {m : PathMap α} {e : Path × α}
    (before : ∀ d ∈ m, d.1.compare e.1 = .lt) : m.insert e.1 e.2 = m ++ [e] := by
  induction m with
  | nil => rfl
  | cons d m ih =>
    have later : e.1.compare d.1 = .gt :=
      Std.OrientedCmp.gt_of_lt (before d List.mem_cons_self)
    have rest := ih fun c mem => before c (List.mem_cons_of_mem d mem)
    rw [insert] at rest ⊢
    simp only [upsert, later, rest, List.cons_append]

private theorem insertAll_append {m new : PathMap α} (sorted : Sorted (m ++ new)) :
    m.insertAll new = m ++ new := by
  induction new generalizing m with
  | nil => exact (List.append_nil m).symm
  | cons e new ih =>
    have before : ∀ d ∈ m, d.1.compare e.1 = .lt := fun d mem =>
      (List.pairwise_append.1 sorted).2.2 d mem e List.mem_cons_self
    have first : m.insertAll (e :: new) = (m.insert e.1 e.2).insertAll new := rfl
    have shifted : m ++ e :: new = m ++ [e] ++ new := by simp
    rw [first, insert_of_lt before, shifted]
    rw [shifted] at sorted
    exact ih sorted

/-- A map put into the empty map is as it was. -/
private theorem insertAll_empty {m : PathMap α} (sorted : Sorted m) :
    insertAll ([] : PathMap α) m = m :=
  insertAll_append sorted

end PathMap

/-! ### The live run -/

namespace Manager

/-- A manager that tracks one document, in whose pipeline one trigger was taken in. -/
def single (settings : LintSettings) (roots : List Path) (document : Path) (generation : Nat)
    (phase : Phase) (queue : List Event) : Manager :=
  { settings := settings, roots := roots, queue := queue, lastId := 1, requests := 1,
    tracked := [(document, { pipeline :=
      { id := 1, document := document, settings := settings, generation := generation,
        phase := phase } })] }

variable {settings : LintSettings} {roots : List Path} {document : Path}

private theorem visible_new (roots : List Path) (eligible : settings.isEligible document = true)
    (now : Nat) :
    (((new settings).setRoots roots).visible now document).2 =
      single settings roots document 0
        (.debouncing ⟨workspaceRoot? roots document, 1⟩ (now + settings.options.debounce)) [] := by
  have seen : ((new settings).setRoots roots).settings.isEligible document = true := eligible
  rw [visible, submit, if_pos seen]
  rfl

end Manager

/-- A compiler whose answer depends on the command only, and which notes the commands down. -/
def noting (reply : CommandLine → Except ProcessError ProcessOutput) (command : CommandLine)
    (noted : List CommandLine) : Except ProcessError ProcessOutput × List CommandLine :=
  (reply command, noted ++ [command])

namespace Simulation

/-- The same compiler on the virtual clock, where each run takes its time. -/
def answering (reply : CommandLine → Except ProcessError ProcessOutput)
    (delay : CommandLine → Nat) : Runner Unit :=
  fun command _ => (⟨delay command, some (reply command)⟩, ())

variable {reply : CommandLine → Except ProcessError ProcessOutput} {delay : CommandLine → Nat}
  {settings : LintSettings}

theorem runUntil_of_due {σ : Type} (run : Runner σ) {s : Simulation σ} {due target : Nat}
    {p : Pipeline} (next : s.manager.nextDue? = some (due, p)) (reached : due ≤ target)
    (steps : Nat) : s.runUntil run target (steps + 1) =
      (fire run { s with now := max s.now due } p).runUntil run target steps := by
  rw [runUntil, next]
  exact if_pos reached

/-- A run that ends in time ends with its result in the queue. -/
private theorem runUntil_running {roots : List Path} {document : Path} {trigger : Trigger}
    {result : LintResult} {ends target now : Nat} (later : now ≤ ends) (reached : ends ≤ target)
    (run : Runner Unit) (attempts : List Attempt) (calls : List Call) :
    (⟨.single settings roots document 1 (.running trigger (.result result) ends) [], (), now,
        attempts, calls⟩ : Simulation Unit).runUntil run target 1 =
      ⟨.single settings roots document 1 .idle [⟨document, 1, 1, trigger, result⟩], (), ends,
        attempts, calls⟩ := by
  have next : (Manager.single settings roots document 1 (.running trigger (.result result) ends)
      []).nextDue? = some (ends, ⟨1, document, settings, 1,
        .running trigger (.result result) ends, []⟩) := rfl
  rw [runUntil_of_due run (s := ⟨.single settings roots document 1
    (.running trigger (.result result) ends) [], (), now, attempts, calls⟩) next reached 0]
  have time : max now ends = ends := Nat.max_eq_right later
  rw [runUntil, fire, time]
  rfl

/-- The document's pipeline while its window is open. -/
def waiting (settings : LintSettings) (document : Path) (trigger : Trigger) : Pipeline :=
  { id := 1, document := document, settings := settings,
    phase := .debouncing trigger settings.options.debounce }

/-- The simulation while that window is open. -/
def opened (settings : LintSettings) (roots : List Path) (document : Path) (trigger : Trigger)
    (now : Nat) : Simulation Unit :=
  { manager := .single settings roots document 0
      (.debouncing trigger settings.options.debounce) [],
    runner := (), now := now }

private theorem begin_opened (settings : LintSettings) (roots : List Path) (document : Path)
    (trigger : Trigger) (run : Run) (now : Nat) :
    let course := (waiting settings document trigger).courseFor trigger run
    (opened settings roots document trigger now).manager.begin 1 run now =
      .single settings roots document 1 (.running trigger course.1 (now + course.2)) [] := rfl

/-- The run that begins when the window runs out ends in time, with the result of linting once. -/
private theorem fire_opened (reply : CommandLine → Except ProcessError ProcessOutput) {wait : Nat}
    (roots : List Path) (document : Path)
    (elapsed : ∀ command, settings.options.debounce + delay command ≤ wait) (trigger : Trigger) :
    let linted := lintDocument (noting reply) settings document trigger.root []
    let now := settings.options.debounce
    ∃ ends, now ≤ ends ∧ ends ≤ wait ∧
      fire (answering reply delay) (opened settings roots document trigger now)
          (waiting settings document trigger) =
        ⟨.single settings roots document 1 (.running trigger (.result linted.1) ends) [], (), now,
          [⟨document, settings, trigger.root, now⟩],
          linted.2.map fun command => ⟨command, now⟩⟩ := by
  intro linted now
  have started : fire (answering reply delay) (opened settings roots document trigger now)
      (waiting settings document trigger) = start (answering reply delay)
        (opened settings roots document trigger now) (waiting settings document trigger)
        trigger := rfl
  have same : (waiting settings document trigger).commandFor trigger =
      settings.commandFor document trigger.root := rfl
  rw [started]
  cases asked : settings.commandFor document trigger.root with
  | error missing =>
    have eq : linted = (.error (.configuration missing), []) := by
      simp only [linted, lintDocument, asked]
    have course : (waiting settings document trigger).courseFor trigger default =
        (.result (.error (.configuration missing)), 0) := by
      rw [Pipeline.courseFor, same, asked]
    have ended := begin_opened settings roots document trigger default now
    rw [course] at ended
    refine ⟨now, Nat.le_refl _, ?_, ?_⟩
    · have := elapsed default
      omega
    · rw [eq]
      unfold start
      rw [same, asked]
      exact congrArg (fun m => (⟨m, (), now, [⟨document, settings, trigger.root, now⟩], []⟩ :
        Simulation Unit)) ended
  | ok command =>
    have eq : linted = (settings.resultOf document trigger.root (reply command), [command]) := by
      simp only [linted, lintDocument, asked, noting, List.nil_append]
    have course : (waiting settings document trigger).courseFor trigger
        ⟨delay command, some (reply command)⟩ =
        (.result (settings.resultOf document trigger.root (reply command)), delay command) := by
      rw [Pipeline.courseFor, same, asked]
      rfl
    have ended := begin_opened settings roots document trigger
      ⟨delay command, some (reply command)⟩ now
    rw [course] at ended
    refine ⟨now + delay command, Nat.le_add_right _ _, elapsed command, ?_⟩
    rw [eq]
    unfold start
    rw [same, asked]
    exact congrArg (fun m => (⟨m, (), now, [⟨document, settings, trigger.root, now⟩],
      [⟨command, now⟩]⟩ : Simulation Unit)) ended

/-- The document's window runs out, its run ends, and the result is queued. -/
private theorem sleep_opened (reply : CommandLine → Except ProcessError ProcessOutput) {wait : Nat}
    (roots : List Path) (document : Path)
    (elapsed : ∀ command, settings.options.debounce + delay command ≤ wait) (trigger : Trigger) :
    let linted := lintDocument (noting reply) settings document trigger.root []
    (opened settings roots document trigger 0).sleep (answering reply delay) wait =
      ⟨.single settings roots document 1 .idle [⟨document, 1, 1, trigger, linted.1⟩], (), wait,
        [⟨document, settings, trigger.root, settings.options.debounce⟩],
        linted.2.map fun command => ⟨command, settings.options.debounce⟩⟩ := by
  intro linted
  obtain ⟨ends, later, reached, fired⟩ := fire_opened reply roots document elapsed trigger
  have window : settings.options.debounce ≤ wait := Nat.le_trans later reached
  have next : (opened settings roots document trigger 0).manager.nextDue? =
      some (settings.options.debounce, waiting settings document trigger) := rfl
  have slept : (opened settings roots document trigger 0).sleep (answering reply delay) wait =
      let s := (opened settings roots document trigger 0).runUntil (answering reply delay)
        (0 + wait) 2
      { s with now := max s.now (0 + wait) } := rfl
  have advanced : { opened settings roots document trigger 0 with
      now := max 0 settings.options.debounce } =
      opened settings roots document trigger settings.options.debounce := by
    rw [Nat.zero_max]
    rfl
  have passed := runUntil_of_due (answering reply delay) next window 1
  rw [show (opened settings roots document trigger 0).now = 0 from rfl, advanced, fired,
    runUntil_running later reached] at passed
  rw [slept, Nat.zero_add, passed]
  simp only [Nat.max_eq_right reached]
  rfl

end Simulation

/-! ### The poll -/

namespace Manager

variable {settings : LintSettings} {roots : List Path} {document : Path}

/-- Nothing is applied where nothing is queued. -/
private theorem applied_poll_of_empty {m : Manager} (empty : m.queue = []) (p : Path)
    (budget : Nat) : m.log (appliedFor p) (List.replicate budget .next) = [] := by
  induction budget with
  | zero => rfl
  | succ budget ih =>
    have idle : m.move .next = m := by
      simp [move, next, empty]
    have none : appliedFor p m .next = [] := by
      simp [appliedFor, appliedIn, handledIn, empty]
    rw [List.replicate_succ, log, idle, none, ih]
    rfl

/-- The result of the document's only run is applied by the first poll. -/
private theorem applied_single (trigger : Trigger) (result : LintResult) (budget : Nat) :
    (single settings roots document 1 .idle [⟨document, 1, 1, trigger, result⟩]).applied document
      [.poll (budget + 1)] = [⟨document, 1, 1, trigger, result⟩] := by
  let m := single settings roots document 1 .idle [⟨document, 1, 1, trigger, result⟩]
  have accepted : { m with queue := [] }.accepts ⟨document, 1, 1, trigger, result⟩ = true := by
    simp [accepts, m, single, PathMap.find?_cons, Path.same_refl]
  have first : appliedFor document m .next = [⟨document, 1, 1, trigger, result⟩] := by
    rw [appliedFor_next rfl, accepted]
    simp [Path.same_refl]
  have left : (m.move .next).queue = [] := by
    have taken : m.next = { m with queue := [] }.handle ⟨document, 1, 1, trigger, result⟩ := rfl
    rw [move, taken, (handle_queues _ _).1]
  show m.log (appliedFor document) (List.replicate (budget + 1) .next ++ []) = _
  rw [List.append_nil, List.replicate_succ, log, first, applied_poll_of_empty left]
  rfl

/-- After the poll the linter shows what the run found, and nothing if it failed. -/
private theorem snapshot_poll_single (trigger : Trigger) (result : LintResult) (budget : Nat) :
    ((single settings roots document 1 .idle [⟨document, 1, 1, trigger, result⟩]).poll
        (budget + 1)).2.snapshot =
      match result with
      | .ok outcome => Snapshot.ofFiles (groupRecords outcome.baseDir outcome.records)
      | .error _ => Snapshot.ofFiles [] := by
  let m := single settings roots document 1 .idle [⟨document, 1, 1, trigger, result⟩]
  have accepted : { m with queue := [] }.accepts ⟨document, 1, 1, trigger, result⟩ = true := by
    simp [accepts, m, single, PathMap.find?_cons, Path.same_refl]
  have taken : m.next = { m with queue := [] }.handle ⟨document, 1, 1, trigger, result⟩ := rfl
  have left : m.next.queue = [] := by
    rw [taken, (handle_queues _ _).1]
  have polled : (m.poll (budget + 1)).2 = m.next := by
    have busy : m.queue.isEmpty = false := rfl
    simp only [poll, busy, Bool.false_eq_true, if_false, poll_of_empty left]
  show (m.poll (budget + 1)).2.snapshot = _
  rw [polled, taken, handle, if_pos accepted]
  cases result with
  | ok outcome => rfl
  | error error =>
    cases error with
    | configuration missing => rfl
    | process error => rfl

end Manager

namespace Cli

/-- A check of one document is one run of the linter. -/
private theorem collect_single {σ : Type}
    (run : CommandLine → σ → Except ProcessError ProcessOutput × σ) {settings : LintSettings}
    {document : Path} {workspace : Option Path} (cwd : Path)
    (located : document.isAbsolute = true) (eligible : settings.isEligible document = true)
    (rooted : ∀ root ∈ workspace, root.isAbsolute = true) (state : σ) :
    collect run settings cwd [document] workspace state =
      match lintDocument run settings document workspace state with
      | (.ok outcome, state) =>
        (.ok ⟨Snapshot.ofFiles (groupRecords outcome.baseDir outcome.records), []⟩, state)
      | (.error (.configuration missing), state) => (.error (missing, {}), state)
      | (.error (.process error), state) =>
        (.ok ⟨Snapshot.ofFiles [], [(document, error.message)]⟩, state) := by
  have root : workspace.map (absolute cwd) = workspace := by
    cases workspace with
    | none => rfl
    | some root => simp [absolute, rooted root rfl]
  have chosen : documents settings cwd [document] workspace = [document] := by
    cases workspace <;> simp [documents, absolute, located, eligible]
  simp only [collect, root, chosen, collectEach]
  cases linted : lintDocument run settings document workspace state with
  | mk result state =>
    cases result with
    | ok outcome =>
      have whole : PathMap.insertAll [] (groupRecords outcome.baseDir outcome.records) =
          groupRecords outcome.baseDir outcome.records :=
        PathMap.insertAll_empty (tidy_groupRecords outcome.baseDir outcome.records).sorted
      simp only [groupByFile_eq_groupRecords, whole]
      rfl
    | error error =>
      cases error with
      | configuration missing => rfl
      | process error => rfl

end Cli

/-! ### Agreement -/

/-- A workspace that contains a document is its root. -/
private theorem workspaceRoot?_toList {workspace : Option Path} {document : Path}
    (inside : ∀ root ∈ workspace, document.startsWith root = true) :
    workspaceRoot? workspace.toList document = workspace := by
  cases workspace with
  | none => rfl
  | some root => simp [workspaceRoot?, deeper, inside root rfl]

namespace Simulation

/-- A linter that is started for one document, up to the moment before its first poll. -/
def openOnce (workspace : Option Path) (document : Path) (wait : Nat) : List Operation :=
  [.setRoots workspace.toList, .visible document, .sleep wait]

private theorem performAll_openOnce (reply : CommandLine → Except ProcessError ProcessOutput)
    {delay : CommandLine → Nat} {settings : LintSettings} {workspace : Option Path}
    {document : Path} {wait : Nat} (eligible : settings.isEligible document = true)
    (inside : ∀ root ∈ workspace, document.startsWith root = true)
    (elapsed : ∀ command, settings.options.debounce + delay command ≤ wait) :
    let linted := lintDocument (noting reply) settings document workspace []
    (initially settings ()).performAll (answering reply delay) (openOnce workspace document wait) =
      ⟨.single settings workspace.toList document 1 .idle
          [⟨document, 1, 1, ⟨workspace, 1⟩, linted.1⟩], (), wait,
        [⟨document, settings, workspace, settings.options.debounce⟩],
        linted.2.map fun command => ⟨command, settings.options.debounce⟩⟩ := by
  intro linted
  have seen := Manager.visible_new workspace.toList eligible 0
  rw [Nat.zero_add, workspaceRoot?_toList inside] at seen
  have shown : ((initially settings ()).perform (answering reply delay)
      (.setRoots workspace.toList)).perform (answering reply delay) (.visible document) =
      opened settings workspace.toList document ⟨workspace, 1⟩ 0 :=
    congrArg (fun m => (⟨m, (), 0, [], []⟩ : Simulation Unit)) seen
  have slept := sleep_opened reply workspace.toList document elapsed ⟨workspace, 1⟩
  rw [← shown] at slept
  exact slept

/-- A check of one document and a linter that was opened on it call the compiler with the same
command lines and show the same snapshot.  The check fails where the linter applies a failure of
the compiler, and it has no result where the linter applies that a setting is missing. -/
theorem check_agrees_with_live_run (settings : LintSettings)
    (reply : CommandLine → Except ProcessError ProcessOutput) (delay : CommandLine → Nat)
    (cwd document : Path) (workspace : Option Path) (wait budget : Nat)
    (located : document.isAbsolute = true) (eligible : settings.isEligible document = true)
    (inside : ∀ root ∈ workspace, root.isAbsolute = true ∧ document.startsWith root = true)
    (elapsed : ∀ command, settings.options.debounce + delay command ≤ wait) :
    let waited := (initially settings ()).performAll (answering reply delay)
      (openOnce workspace document wait)
    let live := waited.perform (answering reply delay) (.poll (budget + 1))
    let checked := Cli.collect (noting reply) settings cwd [document] workspace []
    ∃ e, waited.manager.applied document [.poll (budget + 1)] = [e] ∧
      live.calls = checked.2.map (fun command => ⟨command, settings.options.debounce⟩) ∧
      (∀ outcome, checked.1 = .ok outcome → outcome.snapshot = live.manager.snapshot) ∧
      ((∃ outcome, checked.1 = .ok outcome ∧ outcome.failed = true) ↔
        ∃ error, e.result = .error (.process error)) ∧
      ∀ missing, (∃ found, checked.1 = .error (missing, found)) ↔
        e.result = .error (.configuration missing) := by
  intro waited live checked
  obtain ⟨⟨result, noted⟩, linted⟩ :
      ∃ linted, lintDocument (noting reply) settings document workspace [] = linted := ⟨_, rfl⟩
  have ran := performAll_openOnce reply eligible (fun root mem => (inside root mem).2) elapsed
  have once := Cli.collect_single (noting reply) cwd located eligible
    (fun root mem => (inside root mem).1) []
  rw [linted] at ran once
  have ran : waited = _ := ran
  have once : checked = _ := once
  have polled : live.manager = (waited.manager.poll (budget + 1)).2 := rfl
  have called : live.calls = waited.calls := rfl
  refine ⟨⟨document, 1, 1, ⟨workspace, 1⟩, result⟩, ?_, ?_⟩
  · rw [ran]
    exact Manager.applied_single _ _ budget
  · rw [called, polled, ran, Manager.snapshot_poll_single, once]
    cases result with
    | ok outcome => simp [Cli.CheckOutcome.failed]
    | error error => cases error <;> simp [Cli.CheckOutcome.failed]

/-- A compiler that reports two problems of one file under two spellings of its name. -/
def twoSpellings (_ : CommandLine) : Except ProcessError ProcessOutput :=
  .ok { stderr := "[ERROR] At lib/a.reds:1:1:\nx\n[WARN] At /ws/./lib//a.reds:2:2:\ny\n" }

theorem check_agrees_on_two_spellings :
    let document := Path.ofString "/ws/main.reds"
    let root := Path.ofString "/ws"
    let live := (initially completeSettings ()).performAll (answering twoSpellings fun _ => 30)
      (openOnce (some root) document 250 ++ [.poll 8])
    let checked := Cli.collect (noting twoSpellings) completeSettings root [document] (some root) []
    (document.isAbsolute = true ∧ completeSettings.isEligible document = true ∧
      (root.isAbsolute = true ∧ document.startsWith root = true) ∧
      completeSettings.options.debounce + 30 ≤ 250) ∧
    ∃ outcome, checked.1 = .ok outcome ∧ outcome.snapshot = live.manager.snapshot ∧
      live.manager.snapshot.files.map (fun file => (file.1.toString, file.2.length)) =
        [("/ws/lib/a.reds", 2)] := by
  intro document root live checked
  have agreed := check_agrees_with_live_run completeSettings twoSpellings (fun _ => 30) root
    document (some root) 250 7 (by decide) (by decide)
    (fun _ mem => by
      obtain rfl := Option.some.inj mem
      decide)
    (fun _ => by decide)
  obtain ⟨_, _, _, shown, _, _⟩ := agreed
  have found : ∃ outcome, checked.1 = .ok outcome := by
    have ended : checked.1.isOk = true := by decide +kernel
    cases result : checked.1 with
    | error missing =>
      rw [result] at ended
      cases ended
    | ok outcome => exact ⟨outcome, rfl⟩
  obtain ⟨outcome, ok⟩ := found
  exact ⟨by decide, outcome, ok, shown outcome ok, by decide +kernel⟩

end Simulation

end ModBench
