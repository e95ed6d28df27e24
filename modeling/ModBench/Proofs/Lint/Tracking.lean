import Mathlib.Data.List.Induction
import ModBench.Proofs.Lint.Feed
import ModBench.Proofs.Lint.Outcome
import ModBench.Proofs.Lint.Turnover

/-!
Tracked documents.  Which documents are tracked follows from the openings, closings, changes of
settings and shutdowns alone, and every tracked document has a pipeline with the present settings,
whose number no other pipeline ever had.
-/

set_option autoImplicit false
set_option relaxedAutoImplicit false

namespace ModBench

/-- The act ends the tracking of a document. -/
def Act.Untracks (p : Path) : Act → Prop
  | .close document => p.same document = true
  | .reconfigure settings _ => settings.isEligible p = false
  | .shutdown => True
  | _ => False

namespace Manager

variable {m : Manager} {v : Move} {p : Path}

/-! ### Which documents are tracked -/

/-- Without a request or a stop the same documents are tracked. -/
private theorem isTracked_move (reg : m.Registered) (asked : m.triggerIn v = [])
    (closed : m.closedIn v = []) (p : Path) : (m.move v).isTracked p = m.isTracked p := by
  have turnover := turnover_of_move reg v p
  have triggers : triggersFor p m v = [] := by simp [triggersFor, asked]
  rw [isTracked_eq, isTracked_eq]
  generalize m.registered? p = before at turnover
  generalize (m.move v).registered? p = after at turnover
  cases turnover with
  | absent => rfl
  | closed stopped =>
    rw [closed] at stopped
    cases stopped
  | fresh same dead given =>
    rw [triggers] at given
    cases given
  | change => rfl

private theorem isTracked_request (reg : m.Registered) (document p : Path) :
    (m.request document).isTracked p = (m.isTracked p || p.same document) := by
  cases same : p.same document with
  | false =>
    rw [isTracked_eq, isTracked_eq, registered?_request_of_apart reg same, Bool.or_false]
  | true =>
    have turnover := turnover_request (p := p) reg document
    have triggers := triggersFor_request_of_same m same
    rw [isTracked_eq, Bool.or_true]
    generalize m.registered? p = before at turnover
    generalize (m.request document).registered? p = after at turnover
    cases turnover with
    | absent none =>
      rw [triggers] at none
      cases none
    | closed stopped => cases stopped
    | fresh => rfl
    | change => rfl

private theorem isTracked_poll (m : Manager) (budget : Nat) (p : Path) :
    (m.poll budget).2.isTracked p = m.isTracked p := by
  have same := congrArg Option.isSome ((kept_poll m budget).pipelines p)
  rwa [Option.isSome_map, Option.isSome_map] at same

/-! ### New settings -/

/-- The document has a pipeline with the present settings if these make it eligible, and else
none. -/
def Renewed (p : Path) (m : Manager) : Prop :=
  m.settings.isEligible p = true ∧
      (∃ t, m.registered? p = some t ∧ t.pipeline.settings = m.settings) ∨
    m.settings.isEligible p = false ∧ m.registered? p = none

theorem registered?_restart_of_apart (reg : m.Registered) {document : Path}
    (apart : p.same document = false) : (m.restart document).registered? p = m.registered? p := by
  have untracked := registered?_untrack_of_not_same m apart
  unfold restart
  dsimp only
  split
  · exact (registered?_request_of_apart (reg.untrack document) apart).trans untracked
  · exact untracked

theorem renewed_restart (reg : m.Registered) {document : Path} (same : p.same document = true) :
    Renewed p (m.restart document) := by
  have absent := registered?_untrack_of_same m same
  rw [Renewed, restart_settings, isEligible_congr m.settings same]
  cases eligible : m.settings.isEligible document with
  | false =>
    rw [restart_of_not_eligible eligible]
    exact Or.inr ⟨rfl, absent⟩
  | true =>
    refine Or.inl ⟨rfl, ?_⟩
    have none_there := registered?_untrack_of_same m (Path.same_refl document)
    have sorted : PathMap.Sorted
        { m.untrack document with requests := (m.untrack document).requests + 1 }.tracked :=
      (reg.untrack document).sorted
    have asked : m.restart document = (m.untrack document).request document := by
      rw [restart, untrack_settings, if_pos eligible]
    rw [asked, request_of_none none_there]
    refine ⟨_, registered?_spawn_of_same sorted same _, ?_⟩
    exact untrack_settings m document

private theorem Renewed.restart (renewed : Renewed p m) (reg : m.Registered) (document : Path) :
    Renewed p (m.restart document) := by
  cases same : p.same document with
  | true => exact renewed_restart reg same
  | false =>
    rw [Renewed, restart_settings, registered?_restart_of_apart reg same]
    exact renewed

theorem Registered.restart (reg : m.Registered) (document : Path) :
    (m.restart document).Registered := by
  rw [restart_eq_moves]
  exact foldl_induction reg fun _ v _ reg => reg.move v

/-- Starting all documents over renews those that are among them. -/
private theorem renewed_foldl_restart (reg : m.Registered) {documents : List Path}
    (among : Renewed p m ∨ ∃ document ∈ documents, p.same document = true) :
    Renewed p (documents.foldl Manager.restart m) := by
  induction documents generalizing m with
  | nil =>
    rcases among with renewed | ⟨document, mem, _⟩
    · exact renewed
    · cases mem
  | cons document rest ih =>
    refine ih (reg.restart document) ?_
    rcases among with renewed | ⟨d, mem, same⟩
    · exact Or.inl (renewed.restart reg document)
    · rcases List.mem_cons.1 mem with rfl | later
      · exact Or.inl (renewed_restart reg same)
      · exact Or.inr ⟨d, later, same⟩

private theorem registered?_foldl_restart_of_apart (reg : m.Registered) {documents : List Path}
    (apart : ∀ document ∈ documents, p.same document = false) :
    (documents.foldl Manager.restart m).registered? p = m.registered? p := by
  induction documents generalizing m with
  | nil => rfl
  | cons document rest ih =>
    have later := ih (reg.restart document) fun d mem => apart d (List.mem_cons_of_mem _ mem)
    rw [List.foldl_cons, later]
    exact registered?_restart_of_apart reg (apart document List.mem_cons_self)

/-- New settings renew the tracked documents and leave the others. -/
theorem renew_cases (reg : m.Registered) (settings : LintSettings) (rank : PathMap.Rank)
    (p : Path) :
    m.isTracked p = true ∧ Renewed p (m.renew settings rank) ∨
      m.isTracked p = false ∧ (m.renew settings rank).registered? p = none := by
  have resettled : { m with settings := settings }.Registered := reg.move (.setSettings settings)
  cases tracked : m.isTracked p with
  | true =>
    have among := (isTracked_iff m rank p).1 tracked
    exact Or.inl ⟨rfl, renewed_foldl_restart resettled (Or.inr among)⟩
  | false =>
    refine Or.inr ⟨rfl, ?_⟩
    have apart := apart_of_not_isTracked tracked rank
    rw [renew, registered?_foldl_restart_of_apart resettled apart]
    exact Option.not_isSome_iff_eq_none.1 (Bool.eq_false_iff.1 tracked)

private theorem renew_settings (m : Manager) (settings : LintSettings) (rank : PathMap.Rank) :
    (m.renew settings rank).settings = settings := by
  have kept : ∀ (documents : List Path) (n : Manager),
      (documents.foldl restart n).settings = n.settings := by
    intro documents
    induction documents with
    | nil => exact fun _ => rfl
    | cons document rest ih => exact fun n => (ih _).trans (restart_settings n document)
  exact kept (m.tracked.keysBy rank) { m with settings := settings }

private theorem isTracked_renew (reg : m.Registered) (settings : LintSettings) (rank : PathMap.Rank)
    (p : Path) :
    (m.renew settings rank).isTracked p = (m.isTracked p && settings.isEligible p) := by
  rcases renew_cases reg settings rank p with ⟨tracked, renewed⟩ | ⟨untracked, absent⟩
  · rw [Renewed, renew_settings] at renewed
    rcases renewed with ⟨eligible, t, here, _⟩ | ⟨left_out, absent⟩
    · rw [isTracked_eq, here, tracked, eligible]
      rfl
    · rw [isTracked_eq, absent, tracked, left_out]
      rfl
  · rw [isTracked_eq, absent, untracked]
    rfl

/-! ### Acts -/

/-- Opening a document tracks it if it is let in. -/
private theorem isTracked_visible (reg : m.Registered) (document p : Path) :
    (m.act (.visible document)).isTracked p =
      (m.isTracked p || p.same document && (m.submit document).1) := by
  cases eligible : m.settings.isEligible document with
  | true =>
    have asked : m.act (.visible document) = m.request document := by simp [act, submit, eligible]
    have seen : (m.submit document).1 = true := by simp [submit, eligible]
    rw [asked, isTracked_request reg, seen, Bool.and_true]
  | false =>
    have ignored : m.act (.visible document) = m := by simp [act, submit, eligible]
    have unseen : (m.submit document).1 = false := by simp [submit, eligible]
    rw [ignored, unseen, Bool.and_false, Bool.or_false]

/-- An act tracks the documents that were tracked and that it does not stop, and one that it
opens. -/
theorem isTracked_act_iff (reg : m.Registered) (a : Act) (p : Path) :
    (m.act a).isTracked p = true ↔ m.isTracked p = true ∧ ¬ a.Untracks p ∨
      ∃ document, a = .visible document ∧ p.same document = true ∧
        (m.submit document).1 = true := by
  -- the acts of the pipelines and of the surroundings neither open nor stop a document
  have still : ∀ {a : Act}, (∀ document, a ≠ .visible document) → ¬ a.Untracks p →
      (m.act a).isTracked p = m.isTracked p →
      ((m.act a).isTracked p = true ↔ m.isTracked p = true ∧ ¬ a.Untracks p ∨
        ∃ document, a = .visible document ∧ p.same document = true ∧
          (m.submit document).1 = true) := by
    intro a other spares same
    rw [same]
    constructor
    · exact fun tracked => Or.inl ⟨tracked, spares⟩
    · rintro (⟨tracked, _⟩ | ⟨document, opened, _⟩)
      · exact tracked
      · exact absurd opened (other document)
  cases a with
  | visible document =>
    rw [isTracked_visible reg]
    simp [Act.Untracks]
  | close document =>
    have closed : (m.act (.close document)).isTracked p = (m.untrack document).isTracked p := rfl
    rw [closed, isTracked_untrack]
    simp [Act.Untracks]
  | reconfigure settings rank =>
    have renewed : m.act (.reconfigure settings rank) = m.renew settings rank := rfl
    rw [renewed, isTracked_renew reg]
    simp [Act.Untracks]
  | shutdown =>
    have gone : (m.act .shutdown).isTracked p = false := rfl
    simp [gone, Act.Untracks]
  | poll budget =>
    exact still (fun _ h => by cases h) (fun h => h) (isTracked_poll m budget p)
  | setRoots roots => exact still (fun _ h => by cases h) (fun h => h) rfl
  | takeChanges => exact still (fun _ h => by cases h) (fun h => h) rfl
  | receive id now =>
    exact still (fun _ h => by cases h) (fun h => h)
      (isTracked_move (v := .receive id now) reg rfl rfl p)
  | begin id run now =>
    exact still (fun _ h => by cases h) (fun h => h)
      (isTracked_move (v := .begin id run now) reg rfl rfl p)
  | finish id =>
    exact still (fun _ h => by cases h) (fun h => h)
      (isTracked_move (v := .finish id) reg rfl rfl p)
  | enter id =>
    exact still (fun _ h => by cases h) (fun h => h)
      (isTracked_move (v := .enter id) reg rfl rfl p)

/-- The last opening of a document that counts: nothing stopped the document after it. -/
def OpenSince (m : Manager) (history : List Act) (p : Path) : Prop :=
  ∃ before document later, history = before ++ .visible document :: later ∧
    p.same document = true ∧ ((m.after before).submit document).1 = true ∧
    ∀ a ∈ later, ¬ a.Untracks p

private theorem openSince_concat_iff (m : Manager) (history : List Act) (a : Act) (p : Path) :
    m.OpenSince (history ++ [a]) p ↔ m.OpenSince history p ∧ ¬ a.Untracks p ∨
      ∃ document, a = .visible document ∧ p.same document = true ∧
        ((m.after history).submit document).1 = true := by
  constructor
  · rintro ⟨before, document, later, eq, same, seen, since⟩
    rcases split_concat eq with ⟨rfl, rfl, rfl⟩ | ⟨rest, rfl, rfl⟩
    · exact Or.inr ⟨document, rfl, same, seen⟩
    · have earlier : ∀ a ∈ rest, ¬ a.Untracks p :=
        fun a mem => since a (List.mem_append_left _ mem)
      have last := since a (List.mem_append_right _ List.mem_cons_self)
      exact Or.inl ⟨⟨before, document, rest, rfl, same, seen, earlier⟩, last⟩
  · rintro (⟨earlier, spares⟩ | ⟨document, rfl, same, seen⟩)
    · obtain ⟨before, document, later, rfl, same, seen, since⟩ := earlier
      refine ⟨before, document, later ++ [a], by simp, same, seen, ?_⟩
      intro b mem
      rcases List.mem_append.1 mem with earlier | last
      · exact since b earlier
      · rw [List.mem_singleton.1 last]
        exact spares
    · exact ⟨history, document, [], rfl, same, seen, fun _ mem => by cases mem⟩

private theorem isTracked_after_iff (settings : LintSettings) (history : List Act) (p : Path) :
    ((new settings).after history).isTracked p = true ↔ (new settings).OpenSince history p := by
  induction history using List.reverseRecOn with
  | nil =>
    have untracked : ((new settings).after []).isTracked p = false := rfl
    rw [untracked]
    constructor
    · intro h
      cases h
    · rintro ⟨before, document, later, eq, _⟩
      simp at eq
  | append_singleton history a ih =>
    have reg := (registered_new settings).after history
    rw [after_append, openSince_concat_iff, ← ih]
    exact isTracked_act_iff reg a p

/-! ### The present settings -/

/-- Every tracked document is eligible under the present settings, and its pipeline has them. -/
structure Current (m : Manager) : Prop where
  registered : m.Registered
  eligible : ∀ {p t}, m.registered? p = some t → m.settings.isEligible p = true
  settings : ∀ {p t}, m.registered? p = some t → t.pipeline.settings = m.settings

private theorem move_settings (m : Manager) (kept : ∀ settings, v ≠ .setSettings settings) :
    (m.move v).settings = m.settings := by
  cases v with
  | setSettings settings => exact absurd rfl (kept settings)
  | request document => exact request_settings m document
  | untrack document => exact untrack_settings m document
  | next => exact (kept_next m).settings
  | finish id =>
    simp only [move, finish]
    split
    · rfl
    · split
      · rename_i q _ _ trigger result _ _
        rcases send_cases m (q.event trigger result) with ⟨_, _, eq⟩ | eq <;> rw [eq] <;> rfl
      · rfl
      · rfl
  | enter id =>
    simp only [move]
    rcases enter_cases m id with ⟨e, _, _, _, eq⟩ | eq <;> rw [eq]
    rfl
  | _ => rfl

namespace Current

private theorem move (current : m.Current) (kept : ∀ settings, v ≠ .setSettings settings)
    (asked : ∀ document, v = .request document → m.settings.isEligible document = true) :
    (m.move v).Current := by
  have settings := move_settings m kept
  have within : ∀ {p t}, (m.move v).registered? p = some t →
      m.settings.isEligible p = true ∧ t.pipeline.settings = m.settings := by
    intro p t' there
    rcases current.registered.newcomer_or_change there with
      ⟨_, _, rfl, given, _⟩ | ⟨t, here, change⟩
    · refine ⟨?_, rfl⟩
      -- Only a request makes a new pipeline.
      cases v with
      | request document =>
        cases same : p.same document with
        | true =>
          rw [isEligible_congr m.settings same]
          exact asked document rfl
        | false =>
          rw [triggersFor_request_of_not_same m same] at given
          cases given
      | _ => cases given
    · exact ⟨current.eligible here, change.keeps.2.2.trans (current.settings here)⟩
  refine ⟨current.registered.move v, ?_, ?_⟩
  · intro p t there
    rw [settings]
    exact (within there).1
  · intro p t there
    rw [settings]
    exact (within there).2

private theorem renew (current : m.Current) (settings : LintSettings) (rank : PathMap.Rank) :
    (m.renew settings rank).Current := by
  have renewed : ∀ {p t}, (m.renew settings rank).registered? p = some t →
      Renewed p (m.renew settings rank) := by
    intro p t there
    rcases renew_cases current.registered settings rank p with ⟨_, renewed⟩ | ⟨_, absent⟩
    · exact renewed
    · rw [there] at absent
      cases absent
  refine ⟨?_, ?_, ?_⟩
  · exact current.registered.after [.reconfigure settings rank]
  · intro p t there
    rcases renewed there with ⟨eligible, _⟩ | ⟨_, absent⟩
    · exact eligible
    · rw [there] at absent
      cases absent
  · intro p t there
    rcases renewed there with ⟨_, u, here, same⟩ | ⟨_, absent⟩
    · rw [there] at here
      obtain rfl := Option.some.inj here
      exact same
    · rw [there] at absent
      cases absent

private theorem act (current : m.Current) (a : Act) : (m.act a).Current := by
  have quiet : ∀ {a : Act}, (∀ v ∈ m.moves a, (∀ settings, v ≠ .setSettings settings) ∧
      ∀ document, v ≠ .request document) → (m.act a).Current := by
    intro a moves
    rw [act_eq_moves]
    refine foldl_induction current fun n v mem current => ?_
    exact current.move (moves v mem).1 fun document eq => absurd eq ((moves v mem).2 document)
  cases a with
  | visible document =>
    by_cases eligible : m.settings.isEligible document = true
    · have asked : m.act (.visible document) = m.move (.request document) := by
        simp [Manager.act, submit, eligible, Manager.move]
      rw [asked]
      refine current.move (fun _ h => by cases h) ?_
      rintro _ ⟨⟩
      exact eligible
    · have ignored : m.act (.visible document) = m := by simp [Manager.act, submit, eligible]
      rw [ignored]
      exact current
  | reconfigure settings rank => exact current.renew settings rank
  | close document =>
    refine quiet fun v mem => ?_
    rcases List.mem_cons.1 mem with rfl | last
    · exact ⟨fun _ h => (by cases h), fun _ h => (by cases h)⟩
    · rw [List.mem_singleton.1 last]
      exact ⟨fun _ h => (by cases h), fun _ h => (by cases h)⟩
  | poll budget =>
    refine quiet fun v mem => ?_
    rw [(List.mem_replicate.1 mem).2]
    exact ⟨fun _ h => (by cases h), fun _ h => (by cases h)⟩
  | _ =>
    refine quiet fun v mem => ?_
    rw [List.mem_singleton.1 mem]
    exact ⟨fun _ h => (by cases h), fun _ h => (by cases h)⟩

theorem after (current : m.Current) (history : List Act) : (m.after history).Current := by
  induction history generalizing m with
  | nil => exact current
  | cons a history ih => exact ih (current.act a)

end Current

theorem current_new (settings : LintSettings) : (new settings).Current where
  registered := registered_new settings
  eligible h := by cases h
  settings h := by cases h

/-! ### Numbers of pipelines -/

/-- A move makes at most one pipeline, with the next number. -/
private theorem spawnedIn_cases (m : Manager) (v : Move) : m.spawnedIn v = [] ∨
    ∃ document trigger, m.spawnedIn v = [(m.newcomer document trigger).pipeline] ∧
      (m.move v).lastId = m.lastId + 1 := by
  cases v with
  | request document =>
    simp only [spawnedIn, move, request]
    cases found : m.tracked.find? document with
    | none => exact Or.inr ⟨document, m.nextTrigger document, rfl, rfl⟩
    | some t =>
      cases alive : t.pipeline.isAlive with
      | true => exact Or.inl (by simp [alive])
      | false =>
        refine Or.inr ⟨document, m.nextTrigger document, ?_, ?_⟩
        · simp [alive]
        · simp [alive, spawn]
  | _ => exact Or.inl rfl

/-- Every registered pipeline is one of those that were made, each with a number of its own. -/
structure Originated (m : Manager) (spawned : List Pipeline) : Prop where
  registered : m.Registered
  rising : (spawned.map Pipeline.id).Pairwise (· < ·)
  known : ∀ q ∈ spawned, q.id ≤ m.lastId
  origin : ∀ {p t}, m.registered? p = some t → ∃ q ∈ spawned, q.id = t.pipeline.id ∧
    q.document = t.pipeline.document ∧ q.settings = t.pipeline.settings

private theorem Originated.move {spawned : List Pipeline} (o : m.Originated spawned) (v : Move) :
    (m.move v).Originated (spawned ++ m.spawnedIn v) where
  registered := o.registered.move v
  rising := by
    rcases spawnedIn_cases m v with none | ⟨document, trigger, one, _⟩
    · rw [none, List.append_nil]
      exact o.rising
    · rw [one, List.map_append, List.map_singleton, List.pairwise_append]
      refine ⟨o.rising, List.pairwise_singleton _ _, ?_⟩
      intro id mem next last
      obtain ⟨q, made, rfl⟩ := List.mem_map.1 mem
      rw [List.mem_singleton.1 last]
      exact Nat.lt_succ_of_le (o.known q made)
  known := by
    intro q mem
    rcases List.mem_append.1 mem with old | new
    · exact Nat.le_trans (o.known q old) (move_counts m v).1
    · rcases spawnedIn_cases m v with none | ⟨document, trigger, one, last⟩
      · rw [none] at new
        cases new
      · rw [one] at new
        rw [List.mem_singleton.1 new, last]
        exact Nat.le_refl _
  origin := by
    intro p t' there
    rcases o.registered.newcomer_or_change there with ⟨_, _, _, _, made⟩ | ⟨t, here, change⟩
    · exact ⟨_, List.mem_append_right _ made, rfl, rfl, rfl⟩
    · obtain ⟨q, made, id, document, settings⟩ := o.origin here
      obtain ⟨id', document', settings'⟩ := change.keeps
      exact ⟨q, List.mem_append_left _ made, id.trans id'.symm, document.trans document'.symm,
        settings.trans settings'.symm⟩

private theorem originated_after (settings : LintSettings) (history : List Act) :
    ((new settings).after history).Originated ((new settings).spawned history) := by
  have start : (new settings).Originated [] :=
    ⟨registered_new settings, List.Pairwise.nil, fun _ mem => (by cases mem), fun h => (by cases h)⟩
  exact @log_induction _ Unit spawnedIn (fun _ _ => []) (fun m spawned _ => m.Originated spawned) _
    start (fun _ v _ _ o => o.move v) history

/-! ### Main result -/

/-- Every tracked document is eligible under the present settings; its pipeline has these settings
and was made with a number of its own; and a document is tracked exactly if nothing stopped it since
it was last opened. -/
theorem tracked_in_step (settings : LintSettings) (history : List Act) :
    (∀ p t, ((new settings).after history).registered? p = some t →
      ((new settings).after history).settings.isEligible p = true ∧
        t.pipeline.settings = ((new settings).after history).settings ∧
        ∃ q ∈ (new settings).spawned history, q.id = t.pipeline.id ∧
          q.document = t.pipeline.document ∧ q.settings = t.pipeline.settings) ∧
      (((new settings).spawned history).map Pipeline.id).Pairwise (· < ·) ∧
      ((new settings).after history).tracked.Pairwise (fun e d => e.1.same d.1 = false) ∧
      (∀ p, ((new settings).after history).isTracked p = true ↔
        (new settings).OpenSince history p) ∧
      ∀ a p, ¬ a.Untracks p → ((new settings).after history).isTracked p = true →
        ((new settings).after (history ++ [a])).isTracked p = true := by
  have current := (current_new settings).after history
  have originated := originated_after settings history
  refine ⟨?_, originated.rising, ?_, isTracked_after_iff settings history, ?_⟩
  · intro p t here
    exact ⟨current.eligible here, current.settings here, originated.origin here⟩
  · exact current.registered.sorted.imp fun less => PathMap.not_same_of_compare_lt less
  · intro a p spares tracked
    rw [after_append]
    exact (isTracked_act_iff current.registered a p).2 (Or.inl ⟨tracked, spares⟩)

end Manager

end ModBench
