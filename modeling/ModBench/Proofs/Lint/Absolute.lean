import ModBench.Proofs.Lint.Moves
import ModBench.Proofs.Lint.Published
import ModBench.Proofs.Lint.Roots
import ModBench.Proofs.Path.Spelling
import ModBench.Proofs.Url.Files

/-!
Absolute paths in a manager.  If all roots and documents that a host names are absolute, then so are
the directories below which reports are read, and so is every path that is published or marked,
whatever the compiler prints.
-/

set_option autoImplicit false
set_option relaxedAutoImplicit false

namespace ModBench

/-! ### Base directories -/

namespace Path

/-- An absolute path with an absolute parent. -/
structure Grounded (p : Path) : Prop where
  absolute : p.isAbsolute = true
  parent : ∃ parent, p.parent? = some parent ∧ parent.isAbsolute = true

/-- An absolute path that ends with a name has an absolute parent. -/
private theorem grounded_of_hasExtension {p : Path} (absolute : p.isAbsolute = true)
    {wanted : String} (extended : p.hasExtension wanted = true) : p.Grounded := by
  refine ⟨absolute, ?_⟩
  obtain ⟨pieces, eq⟩ := Url.components_of_absolute absolute
  rcases components_parent? p with ⟨_, short⟩ | ⟨parent, c, some, whole, other⟩
  · -- Neither the root nor nothing at all has an extension.
    rcases short with short | short <;>
      simp [hasExtension, extension?, fileName?, short] at extended
  · refine ⟨parent, some, ?_⟩
    rw [whole] at eq
    cases above : parent.components with
    | nil =>
      rw [above, List.nil_append] at eq
      exact absurd (List.cons.inj eq).1 other
    | cons first rest =>
      rw [above, List.cons_append] at eq
      rw [(List.cons.inj eq).1] at above
      exact Url.isAbsolute_of_root above

private theorem ne_nil_of_isAbsolute {p : Path} (absolute : p.isAbsolute = true) :
    p.bytes ≠ [] := by
  intro empty
  rw [isAbsolute, empty] at absolute
  cases absolute

end Path

private theorem isAbsolute_resolveFile {base : Path} (absolute : base.isAbsolute = true)
    (r : Record) : (resolveFile base r).isAbsolute = true := by
  unfold resolveFile
  dsimp only
  split
  · rename_i absolute'
    exact absolute'
  · rename_i relative
    rw [Path.isAbsolute_join (Bool.not_eq_true _ ▸ relative) (Path.ne_nil_of_isAbsolute absolute)]
    exact absolute

/-- The request names no workspace root, or an absolute one. -/
def Trigger.Grounded (t : Trigger) : Prop :=
  ∀ root, t.root = some root → root.isAbsolute = true

theorem isAbsolute_baseDirFor {document : Path} (grounded : document.Grounded) {t : Trigger}
    (rooted : t.Grounded) : (LintSettings.baseDirFor document t.root).isAbsolute = true := by
  unfold LintSettings.baseDirFor
  split
  · rename_i root eq
    exact rooted root eq
  · obtain ⟨parent, eq, absolute⟩ := grounded.parent
    rw [eq]
    exact absolute

/-- The result is no report, or one below an absolute directory. -/
def LintResult.Grounded (r : LintResult) : Prop :=
  ∀ outcome, r = .ok outcome → outcome.baseDir.isAbsolute = true

/-! ### Pipelines -/

/-- What a pipeline does for requests that name absolute roots. -/
inductive Phase.Grounded : Phase → Prop
  | idle : Grounded .idle
  | debouncing {t : Trigger} {due : Nat} (rooted : t.Grounded) : Grounded (.debouncing t due)
  | running {t : Trigger} {finish : Finish} {ends : Nat} (rooted : t.Grounded)
    (result : ∀ r, finish = .result r → r.Grounded) : Grounded (.running t finish ends)
  | blocked : Grounded .blocked
  | ended : Grounded .ended

namespace Pipeline

/-- The pipeline was given the request and has not answered it yet. -/
inductive Holds (p : Pipeline) (t : Trigger) : Prop
  | waiting (mem : t ∈ p.inbox)
  | debouncing {due : Nat} (here : p.phase = .debouncing t due)
  | running {finish : Finish} {ends : Nat} (here : p.phase = .running t finish ends)

structure Grounded (p : Pipeline) : Prop where
  document : p.document.Grounded
  inbox : ∀ t ∈ p.inbox, t.Grounded
  phase : p.phase.Grounded

namespace Grounded

variable {p : Pipeline} (grounded : p.Grounded)
include grounded

theorem of_holds {t : Trigger} (held : p.Holds t) : t.Grounded := by
  have phase := grounded.phase
  cases held with
  | waiting mem => exact grounded.inbox t mem
  | debouncing here =>
    rw [here] at phase
    cases phase with
    | debouncing rooted => exact rooted
  | running here =>
    rw [here] at phase
    cases phase with
    | running rooted => exact rooted

theorem withPhase {phase : Phase} (phase_grounded : phase.Grounded) :
    { p with phase := phase }.Grounded :=
  ⟨grounded.document, grounded.inbox, phase_grounded⟩

private theorem post {t : Trigger} (rooted : t.Grounded) : (p.post t).Grounded where
  document := grounded.document
  inbox t' mem := by
    rcases List.mem_append.1 mem with old | new
    · exact grounded.inbox t' old
    · rw [List.mem_singleton.1 new]
      exact rooted
  phase := grounded.phase

theorem receive (now : Nat) : (p.receive now).Grounded := by
  unfold Pipeline.receive
  split
  · exact grounded
  · exact grounded
  · exact grounded
  · rename_i t rest inbox _ _
    have all := grounded.inbox
    rw [inbox, List.forall_mem_cons] at all
    exact ⟨grounded.document, all.2, .debouncing all.1⟩

private theorem receiveAll (now : Nat) : (p.receiveAll now).Grounded := by
  have run : ∀ (inbox : List Trigger) {p : Pipeline}, p.Grounded →
      (inbox.foldl (fun p _ => p.receive now) p).Grounded := by
    intro inbox
    induction inbox with
    | nil => exact fun grounded => grounded
    | cons _ _ ih => exact fun grounded => ih (grounded.receive now)
  exact run p.inbox grounded

/-- Whatever the compiler prints, the report is read below an absolute directory. -/
private theorem begin (run : Run) (now : Nat) : (p.begin run now).Grounded := by
  unfold Pipeline.begin
  split
  swap
  · exact grounded
  rename_i t due here
  have rooted := grounded.of_holds (.debouncing here)
  cases course : p.courseFor t run with
  | mk finish length =>
    refine ⟨grounded.document, grounded.inbox, .running rooted fun r eq outcome ok => ?_⟩
    have result := congrArg Prod.fst course
    unfold courseFor at result
    subst eq ok
    split at result
    · cases result
    split at result
    · cases result
    have ended := Finish.result.inj result
    unfold LintSettings.resultOf at ended
    split at ended
    · cases ended
    rw [← Except.ok.inj ended]
    exact isAbsolute_baseDirFor grounded.document rooted

private theorem resume : p.resume.Grounded := by
  unfold Pipeline.resume
  split
  · exact grounded.withPhase .idle
  · exact grounded

end Grounded

end Pipeline

structure Event.Grounded (e : Event) : Prop where
  document : e.document.isAbsolute = true
  result : e.result.Grounded

/-! ### The published set -/

namespace PublishedSet

/-- All published and all marked paths are absolute. -/
structure Grounded (s : PublishedSet) : Prop where
  files : ∀ p ∈ s.files.keys, p.isAbsolute = true
  changed : ∀ p ∈ s.changed.keys, p.isAbsolute = true

theorem forall_keys_upsert {α : Type} {good : Path → Prop} {m : PathMap α} {q : Path}
    {f : Option α → α} (all : ∀ p ∈ m.keys, good p) (here : good q) :
    ∀ p ∈ (m.upsert q f).keys, good p := by
  intro p mem
  obtain ⟨e, among, rfl⟩ := List.mem_map.1 mem
  rcases PathMap.key_mem_upsert among with eq | ⟨d, old, eq⟩
  · rw [eq]
    exact here
  · rw [← eq]
    exact all d.1 (List.mem_map_of_mem old)

private theorem isAbsolute_of_mem_groupRecords {base : Path} (absolute : base.isAbsolute = true)
    (records : List Record) : ∀ p ∈ (groupRecords base records).keys, p.isAbsolute = true := by
  have run : ∀ (records : List Record) (groups : RecordMap),
      (∀ p ∈ groups.keys, p.isAbsolute = true) →
      ∀ p ∈ PathMap.keys (records.foldl (fun groups r =>
        groups.upsert (resolveFile base r) fun old => old.getD [] ++ [r]) groups),
        p.isAbsolute = true := by
    intro records
    induction records with
    | nil => exact fun _ all => all
    | cons r rest ih =>
      exact fun groups all => ih _ (forall_keys_upsert all (isAbsolute_resolveFile absolute r))
  exact run records [] fun p mem => absurd mem List.not_mem_nil

/-- Paths that are marked in a comparison have an entry on its first side. -/
private theorem forall_keys_markDifferent {good : Path → Prop} {one : RecordMap} (other : RecordMap)
    {marks : PathMap Unit} (all : ∀ p ∈ one.keys, good p) (marked : ∀ p ∈ marks.keys, good p) :
    ∀ p ∈ (markDifferent one other marks).keys, good p := by
  induction one generalizing marks with
  | nil => exact marked
  | cons e rest ih =>
    obtain ⟨first, others⟩ := List.forall_mem_cons.1 all
    rw [markDifferent_cons]
    refine ih others ?_
    split
    · exact marked
    · exact forall_keys_upsert marked first

namespace Grounded

variable {s : PublishedSet} (grounded : s.Grounded)
include grounded

theorem publish {base : Path} (absolute : base.isAbsolute = true) (records : List Record) :
    (s.publish records base).Grounded where
  files := isAbsolute_of_mem_groupRecords absolute records
  changed := forall_keys_markDifferent _ (isAbsolute_of_mem_groupRecords absolute records)
    (forall_keys_markDifferent _ grounded.files grounded.changed)

theorem clear {p : Path} (absolute : p.isAbsolute = true) : (s.clear p).Grounded := by
  unfold PublishedSet.clear
  split
  · refine ⟨fun q mem => ?_, forall_keys_upsert grounded.changed absolute⟩
    obtain ⟨e, among, rfl⟩ := List.mem_map.1 mem
    exact grounded.files e.1 (List.mem_map_of_mem (List.mem_filter.1 among).1)
  · exact grounded

private theorem clearAll : s.clearAll.Grounded := by
  rw [clearAll_eq_publish s ⟨[slash]⟩]
  exact grounded.publish rfl []

private theorem takeChanges : s.takeChanges.2.Grounded where
  files := grounded.files
  changed _ mem := absurd mem List.not_mem_nil

/-- Every change that is taken is of an absolute path. -/
theorem of_mem_changes {f : FileRecords} (mem : f ∈ s.changes) : f.1.isAbsolute = true := by
  obtain ⟨e, among, rfl⟩ := List.mem_map.1 mem
  exact grounded.changed e.1 (List.mem_map_of_mem among)

end Grounded

end PublishedSet

/-! ### The manager -/

namespace Manager

/-- All that a manager has to do with is absolute: its roots, the documents that it tracks, the
directories of its reports, and what is published and marked. -/
structure Grounded (m : Manager) : Prop where
  roots : ∀ root ∈ m.roots, root.isAbsolute = true
  tracked : ∀ e ∈ m.tracked, e.1.isAbsolute = true ∧ e.2.pipeline.Grounded
  events : ∀ e ∈ m.queue ++ m.waiting, e.Grounded
  published : m.published.Grounded

theorem grounded_new (settings : LintSettings) : (new settings).Grounded where
  roots _ mem := absurd mem List.not_mem_nil
  tracked _ mem := absurd mem List.not_mem_nil
  events _ mem := absurd mem List.not_mem_nil
  published := ⟨fun _ mem => absurd mem List.not_mem_nil, fun _ mem => absurd mem List.not_mem_nil⟩

namespace Grounded

variable {m : Manager} (grounded : m.Grounded)
include grounded

private theorem nextTrigger (document : Path) : (m.nextTrigger document).Grounded :=
  fun root won => grounded.roots root (deepestRoot_of_workspaceRoot? won).listed

theorem updateById (id : Nat) {f : Pipeline → Pipeline}
    (keeps : ∀ p : Pipeline, p.Grounded → (f p).Grounded) : (m.updateById id f).Grounded where
  roots := grounded.roots
  tracked e mem := by
    obtain ⟨d, old, rfl⟩ := List.mem_map.1 mem
    obtain ⟨absolute, pipeline⟩ := grounded.tracked d old
    refine ⟨absolute, ?_⟩
    dsimp only
    split
    · exact keeps _ pipeline
    · exact pipeline
  events := grounded.events
  published := grounded.published

/-- Other events, if they are grounded. -/
theorem requeue {queue waiting : List Event} (events : ∀ e ∈ queue ++ waiting, e.Grounded) :
    { m with queue := queue, waiting := waiting }.Grounded :=
  ⟨grounded.roots, grounded.tracked, events, grounded.published⟩

theorem republish {published : PublishedSet} (all : published.Grounded) :
    { m with published := published }.Grounded :=
  ⟨grounded.roots, grounded.tracked, grounded.events, all⟩

private theorem spawn {document : Path} (lies : document.Grounded) {t : Trigger}
    (rooted : t.Grounded) : (m.spawn document t).Grounded where
  roots := grounded.roots
  tracked := by
    have newcomer : (m.newcomer document t).pipeline.Grounded := by
      refine ⟨lies, fun t' mem => ?_, .idle⟩
      rw [List.mem_singleton.1 mem]
      exact rooted
    exact PathMap.forall_insert (fun p => p.isAbsolute = true)
      (fun t : Tracked => t.pipeline.Grounded)
      grounded.tracked ⟨lies.absolute, newcomer⟩
  events := grounded.events
  published := grounded.published

private theorem request {document : Path} (lies : document.Grounded) :
    (m.request document).Grounded := by
  have rooted := grounded.nextTrigger document
  have counted : { m with requests := m.requests + 1 }.Grounded :=
    ⟨grounded.roots, grounded.tracked, grounded.events, grounded.published⟩
  unfold Manager.request
  dsimp only
  split
  · exact counted.spawn lies rooted
  · split
    · exact counted.updateById _ fun p pipeline => pipeline.post rooted
    · exact counted.spawn lies rooted

private theorem untrack (document : Path) : (m.untrack document).Grounded := by
  unfold Manager.untrack
  split
  · exact grounded
  · refine ⟨grounded.roots, fun e mem => grounded.tracked e (List.mem_filter.1 mem).1, ?_,
      grounded.published⟩
    intro e mem
    rcases List.mem_append.1 mem with queued | blocked
    · exact grounded.events e (List.mem_append_left _ queued)
    · exact grounded.events e (List.mem_append_right _ (List.mem_filter.1 blocked).1)

private theorem applyResult {e : Event} (from_here : e.Grounded) : (m.applyResult e).Grounded := by
  unfold Manager.applyResult
  split
  · rename_i outcome ok
    exact grounded.republish (grounded.published.publish (from_here.result outcome ok) _)
  · exact ⟨grounded.roots, grounded.tracked, grounded.events, grounded.published⟩
  · exact ⟨grounded.roots, grounded.tracked, grounded.events,
      grounded.published.clear from_here.document⟩

private theorem handle {e : Event} (from_here : e.Grounded) : (m.handle e).Grounded := by
  unfold Manager.handle
  split
  swap
  · exact grounded
  have marked : (m.markApplied e).Grounded := by
    refine ⟨grounded.roots, fun d mem => ?_, grounded.events, grounded.published⟩
    obtain ⟨old, among, rfl⟩ := List.mem_map.1 mem
    obtain ⟨absolute, pipeline⟩ := grounded.tracked old among
    refine ⟨absolute, ?_⟩
    dsimp only
    split <;> exact pipeline
  exact marked.applyResult from_here

private theorem next : m.next.Grounded := by
  unfold Manager.next
  split
  · exact grounded
  · rename_i e rest queued
    have all := grounded.events
    rw [queued, List.cons_append, List.forall_mem_cons] at all
    exact (grounded.requeue all.2).handle all.1

private theorem send {e : Event} (from_here : e.Grounded) : (m.send e).Grounded := by
  have all : ∀ d ∈ m.queue ++ m.waiting ++ [e], d.Grounded :=
    List.forall_mem_append.2 ⟨grounded.events, List.forall_mem_singleton.2 from_here⟩
  unfold Manager.send
  split
  · have idle := grounded.updateById e.pipeline
      fun p pipeline => pipeline.withPhase .idle
    refine idle.requeue fun d mem => all d ?_
    simp only [Manager.updateById, List.mem_append] at mem ⊢
    tauto
  · have blocked := grounded.updateById e.pipeline
      fun p pipeline => pipeline.withPhase .blocked
    refine blocked.requeue fun d mem => all d ?_
    simp only [Manager.updateById, List.mem_append] at mem ⊢
    tauto

private theorem finish (id : Nat) : (m.finish id).Grounded := by
  unfold Manager.finish
  split
  · exact grounded
  rename_i p found
  have pipeline : p.Grounded := by
    obtain ⟨e, mem, rfl⟩ := List.mem_map.1 (List.mem_of_find?_eq_some found)
    exact (grounded.tracked e mem).2
  have phase := pipeline.phase
  split
  · rename_i t result ends here
    rw [here] at phase
    cases phase with
    | running _ results => exact grounded.send ⟨pipeline.document.absolute, results _ rfl⟩
  · exact grounded.updateById id fun p pipeline => pipeline.withPhase .ended
  · exact grounded

private theorem enter (id : Nat) : (m.enter id).Grounded := by
  unfold Manager.enter
  split
  · exact grounded
  rename_i e found
  split
  swap
  · exact grounded
  refine (grounded.updateById id fun p pipeline => pipeline.resume).requeue fun d mem => ?_
  apply grounded.events
  simp only [List.mem_append, List.mem_singleton] at mem ⊢
  rcases mem with (queued | rfl) | blocked
  · exact .inl queued
  · exact .inr (List.mem_of_find?_eq_some found)
  · exact .inr (List.mem_of_mem_eraseP blocked)

theorem deliver (now : Nat) : (m.deliver now).Grounded where
  roots := grounded.roots
  tracked e mem := by
    obtain ⟨d, old, rfl⟩ := List.mem_map.1 mem
    obtain ⟨absolute, pipeline⟩ := grounded.tracked d old
    exact ⟨absolute, pipeline.receiveAll now⟩
  events := grounded.events
  published := grounded.published

end Grounded

end Manager

/-- The host names absolute paths only. -/
def Move.Grounded : Move → Prop
  | .request document => document.Grounded
  | .clear document => document.isAbsolute = true
  | .setRoots roots => ∀ root ∈ roots, root.isAbsolute = true
  | _ => True

/-- The host names absolute paths only when it asks for something. -/
def Act.Grounded : Act → Prop
  | .visible document => document.isAbsolute = true
  | .close document => document.isAbsolute = true
  | .setRoots roots => ∀ root ∈ roots, root.isAbsolute = true
  | _ => True

namespace Manager.Grounded

variable {m : Manager} (grounded : m.Grounded)
include grounded

/-- Every move for which the host names absolute paths keeps all paths absolute. -/
private theorem move {v : Move} (named : v.Grounded) : (m.move v).Grounded := by
  cases v with
  | request document => exact grounded.request named
  | untrack document => exact grounded.untrack document
  | clear document => exact grounded.republish (grounded.published.clear named)
  | setRoots roots => exact ⟨named, grounded.tracked, grounded.events, grounded.published⟩
  | next => exact grounded.next
  | takeChanges => exact grounded.republish grounded.published.takeChanges
  | shutdown =>
    exact ⟨grounded.roots, fun e mem => absurd mem List.not_mem_nil,
      fun e mem => absurd mem List.not_mem_nil, grounded.published.clearAll⟩
  | receive id now => exact grounded.updateById id fun p pipeline => pipeline.receive now
  | begin id run now => exact grounded.updateById id fun p pipeline => pipeline.begin run now
  | finish id => exact grounded.finish id
  | enter id => exact grounded.enter id
  | setSettings settings =>
    exact ⟨grounded.roots, grounded.tracked, grounded.events, grounded.published⟩

/-- The moves of an act name no path that is not absolute. -/
private theorem of_mem_moves {a : Act} (named : a.Grounded) {v : Move} (mem : v ∈ m.moves a) :
    v.Grounded := by
  have extended : ∀ {settings : LintSettings} {document : Path}, document.isAbsolute = true →
      settings.isEligible document = true → document.Grounded :=
    fun absolute eligible => Path.grounded_of_hasExtension absolute eligible
  cases a with
  | visible document =>
    simp only [moves] at mem
    split at mem
    · rename_i eligible
      obtain rfl := List.mem_singleton.1 mem
      exact extended named eligible
    · cases mem
  | close document =>
    simp only [moves, List.mem_cons, List.not_mem_nil, or_false] at mem
    rcases mem with rfl | rfl
    · trivial
    · exact named
  | setRoots roots =>
    obtain rfl := List.mem_singleton.1 mem
    exact named
  | reconfigure settings rank =>
    rcases List.mem_cons.1 mem with rfl | mem
    · trivial
    obtain ⟨document, key, mem⟩ := List.mem_flatMap.1 mem
    obtain ⟨e, among, rfl⟩ := List.mem_map.1 (PathMap.mem_keysBy.1 key)
    have absolute := (grounded.tracked e among).1
    simp only [restartMoves, List.mem_cons, List.not_mem_nil, or_false] at mem
    rcases mem with rfl | rfl
    · trivial
    · split
      · rename_i eligible
        exact extended absolute eligible
      · exact absolute
  | poll budget =>
    rw [List.eq_of_mem_replicate mem]
    trivial
  | _ =>
    rw [List.mem_singleton.1 mem]
    trivial

/-- Every act for which the host names absolute paths keeps all paths absolute. -/
theorem act {a : Act} (named : a.Grounded) : (m.act a).Grounded := by
  rw [act_eq_moves]
  exact foldl_induction grounded fun _ v mem grounded' =>
    grounded'.move (grounded.of_mem_moves named mem)

end Manager.Grounded

end ModBench
