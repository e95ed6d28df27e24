import Mathlib.Data.List.Basic
import ModBench.Proofs.Lint.Published
import ModBench.Proofs.Lint.Staleness

/-!
Closing and shutting down are final.  A document that was closed, or that the settings left out, or
that went down with all others, has no pipeline, and until it is opened again nothing gives it one:
no run of it begins, and no result of an earlier run has any effect.
-/

set_option autoImplicit false
set_option relaxedAutoImplicit false

namespace ModBench

def Move.asks (p : Path) : Move → Bool
  | .request document => p.same document
  | _ => false

namespace Manager

/-- The document has no pipeline. -/
structure Absent (p : Path) (m : Manager) : Prop where
  registered : m.Registered
  unregistered : m.registered? p = none

variable {m : Manager} {p : Path}

private theorem triggersFor_of_not_asks {v : Move} (silent : v.asks p = false) (m : Manager) :
    triggersFor p m v = [] := by
  cases v with
  | request document => exact triggersFor_request_of_not_same m silent
  | _ => rfl

theorem Absent.move (absent : Absent p m) {v : Move} (silent : v.asks p = false) :
    Absent p (m.move v) := by
  refine ⟨absent.registered.move v, ?_⟩
  have turn := turn_of_move absent.registered v p
  rw [triggersFor_of_not_asks silent] at turn
  generalize appliedFor p m v = applied at turn
  cases lane : (m.move v).lane? p with
  | none => exact Option.map_eq_none_iff.1 lane
  | some l =>
    rw [lane] at turn
    cases turn with
    | step here =>
      have registered := (registered_of_lane here).1
      rw [absent.unregistered] at registered
      cases registered

private theorem Absent.not_mem_keys (absent : Absent p m) {document : Path}
    (mem : document ∈ m.tracked.keys) : p.same document = false := by
  obtain ⟨e, tracked, rfl⟩ := List.mem_map.1 mem
  exact PathMap.find?_eq_none_iff.1 absent.unregistered e tracked

/-! ### Until the document is opened again -/

/-- The document is not among those that were opened or saved. -/
def Unseen (p : Path) (seen : List Path) : Prop :=
  ∀ document ∈ seen, p.same document = false

instance (p : Path) (seen : List Path) : Decidable (Unseen p seen) :=
  inferInstanceAs (Decidable (∀ document ∈ seen, p.same document = false))

private theorem Absent.silent_moves (absent : Absent p m) {a : Act} {history : List Act}
    (unseen : Unseen p (m.seen (a :: history))) : ∀ v ∈ m.moves a, v.asks p = false := by
  intro v mem
  cases a with
  | visible document =>
    simp only [moves] at mem
    split at mem
    · rename_i eligible
      obtain rfl := List.mem_singleton.1 mem
      rw [seen, if_pos eligible] at unseen
      exact unseen document List.mem_cons_self
    · cases mem
  | reconfigure settings rank =>
    rcases List.mem_cons.1 mem with rfl | mem
    · rfl
    · obtain ⟨document, tracked, restarting⟩ := List.mem_flatMap.1 mem
      have apart := absent.not_mem_keys (PathMap.mem_keysBy.1 tracked)
      rcases List.mem_cons.1 restarting with rfl | last
      · rfl
      · rw [List.mem_singleton.1 last]
        split
        · exact apart
        · rfl
  | close document =>
    rcases List.mem_cons.1 mem with rfl | last
    · rfl
    · rw [List.mem_singleton.1 last]
      rfl
  | poll budget =>
    rw [(List.mem_replicate.1 mem).2]
    rfl
  | _ =>
    rw [List.mem_singleton.1 mem]
    rfl

private theorem unseen_tail {a : Act} {history : List Act}
    (unseen : Unseen p (m.seen (a :: history))) : Unseen p ((m.act a).seen history) := by
  cases a with
  | visible document =>
    rw [seen] at unseen
    split at unseen
    · exact fun d mem => unseen d (List.mem_cons_of_mem _ mem)
    · exact unseen
  | _ => exact unseen

private theorem Absent.act (absent : Absent p m) {a : Act}
    (silent : ∀ v ∈ m.moves a, v.asks p = false) : Absent p (m.act a) := by
  rw [act_eq_moves]
  exact foldl_induction absent fun m v mem absent => absent.move (silent v mem)

/-- A document without a pipeline that is not opened is not asked for in any other way. -/
theorem Absent.silent (absent : Absent p m) {history : List Act}
    (unseen : Unseen p (m.seen history)) : ∀ v ∈ m.movesOf history, v.asks p = false := by
  induction history generalizing m with
  | nil =>
    intro v mem
    cases mem
  | cons a history ih =>
    have now := absent.silent_moves unseen
    intro v mem
    rcases List.mem_append.1 mem with first | later
    · exact now v first
    · exact ih (absent.act now) (unseen_tail unseen) v later

private theorem Absent.attemptIn (absent : Absent p m) (v : Move) :
    ∀ attempt ∈ m.attemptIn v, p.same attempt.document = false := by
  intro attempt mem
  unfold Manager.attemptIn at mem
  split at mem
  · split at mem
    · cases mem
    · rename_i q found
      obtain ⟨d, t, here, rfl, _⟩ := pipeline?_eq_some absent.registered.sorted found
      split at mem
      · obtain rfl := List.mem_singleton.1 mem
        cases same : p.same t.pipeline.document with
        | false => exact same
        | true =>
          have own := absent.registered.of_document here same
          rw [absent.unregistered] at own
          cases own
      · cases mem
  · cases mem

theorem not_accepts (none : m.registered? p = none) {e : Event}
    (same : p.same e.document = true) : m.accepts e = false := by
  apply Bool.eq_false_iff.2
  intro accepted
  obtain ⟨t, here, _⟩ := accepts_iff.1 accepted
  rw [← registered?_congr same, none] at here
  cases here

private theorem Absent.handledIn (absent : Absent p m) (v : Move) :
    ∀ h ∈ m.handledIn v, p.same h.2.document = true → h.1.handle h.2 = h.1 := by
  intro h mem same
  unfold Manager.handledIn at mem
  split at mem
  · split at mem
    · cases mem
    · rename_i e rest _
      obtain rfl := List.mem_singleton.1 mem
      have refused : { m with queue := rest }.accepts e = false :=
        not_accepts absent.unregistered same
      exact if_neg (Bool.eq_false_iff.1 refused)
  · cases mem

/-! ### What is published -/

/-- An event is an accepted result for another document that has a record for a path. -/
def Names (p : Path) (m : Manager) (e : Event) : Prop :=
  m.accepts e = true ∧ p.same e.document = false ∧
    ∃ outcome, e.result = .ok outcome ∧
      ∃ r ∈ outcome.records, p.same (resolveFile outcome.baseDir r) = true

private theorem published_handle (unpublished : m.published.get? p = none) {e : Event}
    (refused : p.same e.document = true → m.accepts e = false) :
    (m.handle e).published.get? p = none ∨ Names p m e := by
  unfold handle
  split
  · rename_i accepted
    have other : p.same e.document = false := by
      apply Bool.eq_false_iff.2
      intro same
      rw [refused same] at accepted
      cases accepted
    unfold applyResult
    split
    · rename_i outcome result
      by_cases named : (groupRecords outcome.baseDir outcome.records).find? p = none
      · exact Or.inl named
      · exact Or.inr ⟨accepted, other, outcome, result, find?_groupRecords_ne_none_iff.1 named⟩
    · exact Or.inl unpublished
    · exact Or.inl (PublishedSet.get?_clear_of_none unpublished e.document)
  · exact Or.inl unpublished

@[simp] theorem request_published (m : Manager) (document : Path) :
    (m.request document).published = m.published := by
  unfold request
  dsimp only
  split
  · rfl
  · split <;> rfl

@[simp] theorem untrack_published (m : Manager) (document : Path) :
    (m.untrack document).published = m.published := by
  unfold untrack
  split <;> rfl

theorem finish_published (m : Manager) (id : Nat) : (m.finish id).published = m.published := by
  unfold finish
  split
  · rfl
  · split
    · unfold send
      split <;> rfl
    · rfl
    · rfl

theorem enter_published (m : Manager) (id : Nat) : (m.enter id).published = m.published := by
  unfold enter
  split
  · rfl
  · split <;> rfl

private theorem Absent.published_move (absent : Absent p m)
    (unpublished : m.published.get? p = none) (v : Move) : (m.move v).published.get? p = none ∨
      ∃ h ∈ m.handledIn v, Names p h.1 h.2 := by
  cases v with
  | request document => exact Or.inl (by rw [Manager.move, request_published, unpublished])
  | untrack document => exact Or.inl (by rw [Manager.move, untrack_published, unpublished])
  | finish id => exact Or.inl (by rw [Manager.move, finish_published, unpublished])
  | enter id => exact Or.inl (by rw [Manager.move, enter_published, unpublished])
  | clear document => exact Or.inl (PublishedSet.get?_clear_of_none unpublished document)
  | shutdown => exact Or.inl rfl
  | next =>
    simp only [Manager.move]
    cases queued : m.queue with
    | nil => exact Or.inl (by simpa [next, queued] using unpublished)
    | cons e rest =>
      rw [next_of_queue queued]
      have refused : ∀ {d : Event}, p.same d.document = true →
          { m with queue := rest }.accepts d = false :=
        fun same => not_accepts absent.unregistered same
      refine (published_handle (m := { m with queue := rest }) unpublished refused).imp_right ?_
      intro names
      exact ⟨({ m with queue := rest }, e), by simp [Manager.handledIn, queued], names⟩
  | _ => exact Or.inl unpublished

/-- While a document has no pipeline and is not asked for, only a result for another document brings
it back into the published set. -/
private theorem Absent.published (absent : Absent p m) (unpublished : m.published.get? p = none)
    {moves : List Move} (silent : ∀ v ∈ moves, v.asks p = false) :
    (moves.foldl Manager.move m).published.get? p = none ∨
      ∃ h ∈ m.log Manager.handledIn moves, Names p h.1 h.2 := by
  induction moves generalizing m with
  | nil => exact Or.inl unpublished
  | cons v rest ih =>
    rw [log]
    rcases absent.published_move unpublished v with unpublished' | ⟨h, mem, names⟩
    · have absent' := absent.move (silent v List.mem_cons_self)
      have silent' : ∀ v ∈ rest, v.asks p = false :=
        fun v mem => silent v (List.mem_cons_of_mem _ mem)
      refine (ih absent' unpublished' silent').imp_right ?_
      rintro ⟨h, mem, names⟩
      exact ⟨h, List.mem_append_right _ mem, names⟩
    · exact Or.inr ⟨h, List.mem_append_left _ mem, names⟩

/-! ### What stops a document -/

/-- Acts after which a document is to be silent. -/
def Stops (p : Path) (m : Manager) : Act → Prop
  | .close document => p.same document = true
  | .reconfigure settings _ => m.isTracked p = true ∧ settings.isEligible p = false
  | .shutdown => True
  | _ => False

instance (p : Path) (m : Manager) : (a : Act) → Decidable (Stops p m a)
  | .close document => inferInstanceAs (Decidable (p.same document = true))
  | .reconfigure settings _ =>
    inferInstanceAs (Decidable (m.isTracked p = true ∧ settings.isEligible p = false))
  | .shutdown => .isTrue trivial
  | .visible _ | .setRoots _ | .poll _ | .takeChanges | .receive _ _ | .begin _ _ _ | .finish _
  | .enter _ => .isFalse id

/-- The document has no pipeline and nothing is published for it. -/
def Silenced (p : Path) (m : Manager) : Prop :=
  m.registered? p = none ∧ m.published.get? p = none

private theorem registered?_request_of_not_same (absent : m.registered? p = none) {document : Path}
    (apart : p.same document = false) : (m.request document).registered? p = none := by
  unfold request
  dsimp only
  split
  · exact (registered?_spawn_of_not_same _ apart _).trans absent
  · split
    · rw [registered?_updateById]
      exact Option.map_eq_none_iff.2 absent
    · exact (registered?_spawn_of_not_same _ apart _).trans absent

private theorem registered?_untrack_of_none (absent : m.registered? p = none) (document : Path) :
    (m.untrack document).registered? p = none := by
  cases same : p.same document with
  | true => exact registered?_untrack_of_same m same
  | false => exact (registered?_untrack_of_not_same m same).trans absent

theorem isEligible_congr (settings : LintSettings) {document : Path}
    (same : p.same document = true) : settings.isEligible p = settings.isEligible document :=
  Path.hasExtension_congr same _

theorem restart_of_not_eligible {document : Path}
    (left_out : m.settings.isEligible document = false) :
    m.restart document =
      { m.untrack document with published := (m.untrack document).published.clear document } := by
  simp only [restart, untrack_settings, left_out, Bool.false_eq_true, if_false]

private theorem silenced_restart {document : Path} (same : p.same document = true)
    (left_out : m.settings.isEligible p = false) : Silenced p (m.restart document) := by
  rw [isEligible_congr m.settings same] at left_out
  rw [restart_of_not_eligible left_out]
  exact ⟨registered?_untrack_of_same m same, PublishedSet.get?_clear_of_same _ same⟩

private theorem Silenced.restart (silenced : Silenced p m)
    (left_out : m.settings.isEligible p = false) (document : Path) :
    Silenced p (m.restart document) := by
  have untracked := registered?_untrack_of_none silenced.1 document
  cases eligible : m.settings.isEligible document with
  | false =>
    rw [restart_of_not_eligible eligible]
    refine ⟨untracked, PublishedSet.get?_clear_of_none ?_ document⟩
    rw [untrack_published]
    exact silenced.2
  | true =>
    have apart : p.same document = false := by
      apply Bool.eq_false_iff.2
      intro same
      rw [isEligible_congr m.settings same, eligible] at left_out
      cases left_out
    simp only [Manager.restart, untrack_settings, eligible, if_true]
    refine ⟨registered?_request_of_not_same untracked apart, ?_⟩
    rw [request_published, untrack_published]
    exact silenced.2

/-- Starting all documents over silences one that is among them and that the settings leave out. -/
private theorem silenced_foldl_restart {documents : List Path}
    (left_out : m.settings.isEligible p = false)
    (among : Silenced p m ∨ ∃ document ∈ documents, p.same document = true) :
    Silenced p (documents.foldl Manager.restart m) := by
  induction documents generalizing m with
  | nil =>
    rcases among with silenced | ⟨document, mem, _⟩
    · exact silenced
    · cases mem
  | cons document rest ih =>
    rw [List.foldl_cons]
    have still : (m.restart document).settings.isEligible p = false := by
      rw [restart_settings, left_out]
    refine ih still ?_
    rcases among with silenced | ⟨d, mem, same⟩
    · exact Or.inl (silenced.restart left_out document)
    · rcases List.mem_cons.1 mem with rfl | later
      · exact Or.inl (silenced_restart same left_out)
      · exact Or.inr ⟨d, later, same⟩

private theorem silenced_of_stops {a : Act} (stops : Stops p m a) : Silenced p (m.act a) := by
  cases a with
  | close document =>
    exact ⟨registered?_untrack_of_same m stops, PublishedSet.get?_clear_of_same _ stops⟩
  | shutdown => exact ⟨rfl, rfl⟩
  | reconfigure settings rank =>
    obtain ⟨tracked, left_out⟩ := stops
    exact silenced_foldl_restart left_out (Or.inr (PathMap.exists_mem_keysBy.2 tracked))
  | _ => cases stops

/-! ### After a shutdown -/

/-- Nothing is tracked, queued or published. -/
structure Blank (m : Manager) : Prop where
  tracked : m.tracked = []
  queue : m.queue = []
  waiting : m.waiting = []
  files : m.published.files = []

theorem Blank.registered?_eq_none (blank : m.Blank) (p : Path) : m.registered? p = none := by
  rw [registered?, blank.tracked, PathMap.find?_nil]

private theorem Blank.registered (blank : m.Blank) : m.Registered where
  sorted := blank.tracked ▸ List.Pairwise.nil
  document h := by simp [blank.registered?_eq_none] at h
  id_le h := by simp [blank.registered?_eq_none] at h
  id_inj h := by simp [blank.registered?_eq_none] at h
  event_le e mem := by simp [blank.queue, blank.waiting] at mem

private theorem Blank.absent (blank : m.Blank) (p : Path) : Absent p m :=
  ⟨blank.registered, blank.registered?_eq_none p⟩

/-- Only a request ends the emptiness, and without one nothing is logged. -/
private theorem Blank.move (blank : m.Blank) {v : Move} (silent : ∀ p, v.asks p = false) :
    (m.move v).Blank ∧ m.attemptIn v = [] ∧ m.handledIn v = [] := by
  obtain ⟨tracked, queue, waiting, files⟩ := blank
  have no_pipeline : ∀ id, m.pipeline? id = none := by simp [pipeline?, pipelines, tracked]
  cases v with
  | request document =>
    have asked := silent document
    rw [Move.asks, Path.same_refl] at asked
    cases asked
  | untrack document =>
    have same : m.untrack document = m := by
      simp [untrack, PathMap.find?_nil, tracked]
    exact ⟨by rw [Manager.move, same]; exact ⟨tracked, queue, waiting, files⟩, rfl, rfl⟩
  | clear document =>
    have same : m.published.clear document = m.published := by
      simp [PublishedSet.clear, PathMap.contains, PathMap.find?_nil, files]
    refine ⟨⟨tracked, queue, waiting, ?_⟩, rfl, rfl⟩
    simp only [Manager.move, same, files]
  | next =>
    have same : m.next = m := by simp [next, queue]
    refine ⟨by rw [Manager.move, same]; exact ⟨tracked, queue, waiting, files⟩, rfl, ?_⟩
    simp [Manager.handledIn, queue]
  | shutdown => exact ⟨⟨rfl, rfl, rfl, rfl⟩, rfl, rfl⟩
  | receive id now =>
    exact ⟨⟨by simp [Manager.move, receive, updateById, tracked], queue, waiting, files⟩, rfl, rfl⟩
  | begin id run now =>
    have untracked : (m.begin id run now).tracked = [] := by
      simp [Manager.begin, updateById, tracked]
    refine ⟨⟨untracked, queue, waiting, files⟩, ?_, rfl⟩
    simp [Manager.attemptIn, no_pipeline]
  | finish id =>
    have same : m.finish id = m := by simp [finish, no_pipeline]
    exact ⟨by rw [Manager.move, same]; exact ⟨tracked, queue, waiting, files⟩, rfl, rfl⟩
  | enter id =>
    have same : m.enter id = m := by simp [enter, waiting]
    exact ⟨by rw [Manager.move, same]; exact ⟨tracked, queue, waiting, files⟩, rfl, rfl⟩
  | _ => exact ⟨⟨tracked, queue, waiting, files⟩, rfl, rfl⟩

private theorem Blank.after (blank : m.Blank) {history : List Act} (unseen : m.seen history = []) :
    m.attempts history = [] ∧ m.handled history = [] ∧ (m.after history).Blank := by
  have silent : ∀ v ∈ m.movesOf history, ∀ p, v.asks p = false := by
    intro v mem p
    refine (blank.absent p).silent ?_ v mem
    rw [unseen]
    exact fun _ mem => absurd mem List.not_mem_nil
  have kept : ∀ n : Manager, ∀ v ∈ m.movesOf history, n.Blank → (n.move v).Blank :=
    fun n v mem blank => (blank.move (silent v mem)).1
  refine ⟨?_, ?_, ?_⟩
  · refine List.eq_nil_iff_forall_not_mem.2 (log_forall blank kept ?_)
    intro n v mem blank attempt begun
    rw [(blank.move (silent v mem)).2.1] at begun
    cases begun
  · refine List.eq_nil_iff_forall_not_mem.2 (log_forall blank kept ?_)
    intro n v mem blank h taken
    rw [(blank.move (silent v mem)).2.2] at taken
    cases taken
  · rw [after_eq_moves]
    exact foldl_induction blank kept

/-! ### Main result -/

/-- What holds from a stop of a document on: results that are applied come from later triggers, and
until the document is opened again no run of it begins, no result of it has an effect, and nothing
is published for it unless an accepted result for another document names it. -/
structure Stopped (p : Path) (m : Manager) (later : List Act) : Prop where
  renewed : ∀ e ∈ m.applied p later, m.requests < e.trigger.number
  idle : Unseen p (m.seen later) → ∀ attempt ∈ m.attempts later, p.same attempt.document = false
  ineffective : Unseen p (m.seen later) → ∀ h ∈ m.handled later,
    p.same h.2.document = true → h.1.handle h.2 = h.1
  unpublished : Unseen p (m.seen later) → (m.after later).published.get? p = none ∨
    ∃ h ∈ m.handled later, Names p h.1 h.2

private theorem triggers_number_gt (m : Manager) (p : Path) (history : List Act) :
    ∀ a ∈ m.triggers p history, m.requests < a.number := by
  refine @log_forall _ _ (fun n => m.requests ≤ n.requests) _ _ _ (Nat.le_refl _) ?_ ?_
  · exact fun n v _ le => Nat.le_trans le (move_counts n v).2
  · intro n v _ le a mem
    rcases triggersFor_cases p n v with none | ⟨b, one, number, _⟩
    · rw [none] at mem
      cases mem
    · rw [one] at mem
      rw [List.mem_singleton.1 mem, number]
      exact Nat.lt_succ_of_le le

private theorem Orderly.stopped (orderly : m.Orderly) (silenced : Silenced p m) (later : List Act) :
    Stopped p m later where
  renewed := by
    intro e mem
    have served := (orderly.inOrder silenced.1).after later |>.served
    have from_trigger := served.subset (List.mem_append_left _ (List.mem_map_of_mem mem))
    exact triggers_number_gt m p later _ from_trigger
  idle := by
    intro unseen
    have absent : Absent p m := ⟨orderly.registered, silenced.1⟩
    have silent := absent.silent unseen
    exact log_forall absent (fun _ v mem absent => absent.move (silent v mem))
      fun _ v _ absent => absent.attemptIn v
  ineffective := by
    intro unseen
    have absent : Absent p m := ⟨orderly.registered, silenced.1⟩
    have silent := absent.silent unseen
    exact log_forall absent (fun _ v mem absent => absent.move (silent v mem))
      fun _ v _ absent => absent.handledIn v
  unpublished := by
    intro unseen
    have absent : Absent p m := ⟨orderly.registered, silenced.1⟩
    rw [after_eq_moves]
    exact absent.published silenced.2 (absent.silent unseen)

/-- Closing a document, leaving it out by new settings, and shutting down are final for the document
until it is opened again; after a shutdown nothing at all happens until some document is. -/
theorem stops_are_final (settings : LintSettings) (before : List Act) (a : Act) (p : Path)
    (stops : Stops p ((new settings).after before) a) (later : List Act) :
    Stopped p ((new settings).after (before ++ [a])) later ∧
      (a = .shutdown → ((new settings).after (before ++ [a])).seen later = [] →
        ((new settings).after (before ++ [a])).attempts later = [] ∧
        ((new settings).after (before ++ [a])).handled later = [] ∧
        ((new settings).after (before ++ a :: later)).published.files = []) := by
  have orderly : ((new settings).after (before ++ [a])).Orderly :=
    after_induction (orderly_new settings) (fun _ v orderly => orderly.move v) _
  have silenced : Silenced p ((new settings).after (before ++ [a])) := by
    rw [after_append]
    exact silenced_of_stops stops
  refine ⟨orderly.stopped silenced later, ?_⟩
  rintro rfl unseen
  have blank : ((new settings).after (before ++ [.shutdown])).Blank := by
    rw [after_append]
    exact ⟨rfl, rfl, rfl, rfl⟩
  obtain ⟨attempts, handled, files⟩ := blank.after unseen
  refine ⟨attempts, handled, ?_⟩
  rw [← List.singleton_append, ← List.append_assoc, after_append]
  exact files.files

/-- A document whose compiler runs. -/
def runningHistory (document : Path) : List Act :=
  [.visible document, .receive 1 0, .begin 1 default 200]

theorem close_during_run_is_final :
    Stops (Path.ofString "a.reds") ((new {}).after (runningHistory (Path.ofString "a.reds")))
        (.close (Path.ofString "a.reds")) ∧
      Stopped (Path.ofString "a.reds")
        ((new {}).after
          (runningHistory (Path.ofString "a.reds") ++ [.close (Path.ofString "a.reds")]))
        [.visible (Path.ofString "b.reds"), .finish 1, .poll 8] ∧
      Unseen (Path.ofString "a.reds")
        (((new {}).after
          (runningHistory (Path.ofString "a.reds") ++ [.close (Path.ofString "a.reds")])).seen
            [.visible (Path.ofString "b.reds"), .finish 1, .poll 8]) := by
  have stops : Stops (Path.ofString "a.reds")
      ((new {}).after (runningHistory (Path.ofString "a.reds")))
      (.close (Path.ofString "a.reds")) := by decide
  exact ⟨stops, (stops_are_final {} _ _ _ stops _).1, by decide⟩

end Manager

end ModBench
