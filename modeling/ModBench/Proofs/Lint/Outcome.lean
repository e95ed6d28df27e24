import Mathlib.Data.List.Basic
import ModBench.Proofs.Lint.Finality
import ModBench.Proofs.Lint.Triggers

/-!
Operations between two waits.  Each of them leaves a calm linter calm and begins no lint run; it
opens debounce windows where it is a trigger, closes those that it disturbs, and leaves the others.
-/

set_option autoImplicit false
set_option relaxedAutoImplicit false

namespace ModBench.Manager

variable {m : Manager} {now : Nat}

/-- What a document depends on. -/
def circumstances (m : Manager) (now : Nat) (p : Path) : Circumstances :=
  ⟨now, m.settings, m.roots, m.isTracked p⟩

theorem Alike.circumstances {m' : Manager} (alike : m.Alike m') (now : Nat) (p : Path) :
    m'.circumstances now p = m.circumstances now p := by
  rw [Manager.circumstances, Manager.circumstances, alike.settings, alike.roots, alike.tracked]

/-- What an operation other than waiting does to a calm linter. -/
structure Outcome (now : Nat) (operation : Operation) (m m' : Manager) : Prop where
  calm : m'.Calm now
  circumstances : ∀ p, m'.circumstances now p = (m.circumstances now p).after p operation
  opened : ∀ p, (m.circumstances now p).triggers p operation = true → ∃ number,
    m'.window? p = some (⟨workspaceRoot? m'.roots p, number⟩, now + m'.settings.options.debounce)
  closed : ∀ p, (m.circumstances now p).triggers p operation = false →
    (m.circumstances now p).disturbs p operation = true → m'.window? p = none
  left : ∀ p, (m.circumstances now p).disturbs p operation = false → m'.window? p = m.window? p

/-- An operation that disturbs no document leaves all windows. -/
theorem outcome_of_undisturbed {m' : Manager} {operation : Operation} (calm' : m'.Calm now)
    (undisturbed : ∀ p, (m.circumstances now p).disturbs p operation = false)
    (circumstances : ∀ p, m'.circumstances now p = (m.circumstances now p).after p operation)
    (window : ∀ p, m'.window? p = m.window? p) : Outcome now operation m m' where
  calm := calm'
  circumstances := circumstances
  opened := by
    intro p triggered
    rw [Circumstances.not_triggers_of_not_disturbs (undisturbed p)] at triggered
    cases triggered
  closed := by
    intro p _ disturbed
    rw [undisturbed p] at disturbed
    cases disturbed
  left p _ := window p

/-- A document with one trigger to take in, that was given at the present roots. -/
def Awaits (m : Manager) (p : Path) : Prop :=
  ∃ t number, m.registered? p = some t ∧ t.pipeline.Fresh m.settings ⟨m.rootFor p, number⟩

theorem Awaits.opened {p : Path} (awaits : m.Awaits p) (now : Nat) : ∃ number,
    (m.deliver now).window? p =
      some (⟨workspaceRoot? m.roots p, number⟩, now + m.settings.options.debounce) := by
  obtain ⟨t, number, here, fresh⟩ := awaits
  exact ⟨number, window?_deliver_of_fresh here fresh⟩

theorem Awaits.isTracked {p : Path} (awaits : m.Awaits p) : m.isTracked p = true := by
  obtain ⟨t, _, here, _⟩ := awaits
  rw [isTracked_eq, here, Option.isSome_some]

/-- Delivery has no effect on a document that is as it was in a calm linter. -/
private theorem window?_deliver_of_calm {m' : Manager} (calm : m.Calm now) {p : Path}
    (kept : m'.registered? p = m.registered? p) (later : Nat) :
    (m'.deliver later).window? p = m.window? p := by
  have same : m'.window? p = m.window? p := by rw [window?, window?, kept]
  cases here : m.registered? p with
  | none =>
    rw [window?_deliver_of_none (kept.trans here), window?, here, Option.bind_none]
  | some t =>
    rw [window?_deliver_of_inbox (kept.trans here) (calm.settled here).inbox, same]

/-! ### Opening and saving -/

theorem Requested.awaits {m' : Manager} {document p : Path} (requested : m.Requested m' document)
    (settings : m'.settings = m.settings) (roots : m'.roots = m.roots)
    (same : p.same document = true) : m'.Awaits p := by
  obtain ⟨t, here, fresh⟩ := requested.same same
  have root : m'.rootFor p = m.rootFor p := by rw [rootFor, rootFor, roots]
  refine ⟨t, m.requests + 1, here, ?_⟩
  rw [settings, root]
  exact fresh

private theorem asked_request (calm : m.Calm now) (document : Path) :
    (m.request document).Asked now := by
  have requested := requested calm document
  obtain ⟨waiting, _⟩ := request_frame m document
  refine ⟨calm.registered.request document, waiting.trans calm.waiting, ?_⟩
  intro p t here
  rw [request_settings]
  cases same : p.same document with
  | true =>
    obtain ⟨u, there, fresh⟩ := requested.same same
    rw [here] at there
    obtain rfl := Option.some.inj there
    exact Or.inr ⟨_, fresh⟩
  | false =>
    rw [requested.other same] at here
    exact Or.inl (calm.settled here)

private theorem outcome_of_not_eligible (calm : m.Calm now) {document : Path}
    (left_out : m.settings.isEligible document = false) :
    Outcome now (.visible document) m m := by
  refine outcome_of_undisturbed calm ?_ ?_ fun _ => rfl
  · intro p
    simp [Circumstances.disturbs, circumstances, left_out]
  · intro p
    simp [Circumstances.after, circumstances, left_out]

private theorem outcome_request (calm : m.Calm now) {document : Path}
    (eligible : m.settings.isEligible document = true) :
    Outcome now (.visible document) m ((m.request document).deliver now) := by
  have requested := requested calm document
  have settings := request_settings m document
  obtain ⟨_, roots⟩ := request_frame m document
  have awaits : ∀ {p}, p.same document = true → (m.request document).Awaits p :=
    fun same => requested.awaits settings roots same
  refine ⟨(asked_request calm document).deliver, ?_, ?_, ?_, ?_⟩
  · intro p
    have tracked : (m.request document).isTracked p = (m.isTracked p || p.same document) := by
      cases same : p.same document with
      | true => rw [(awaits same).isTracked, Bool.or_true]
      | false => rw [isTracked_eq, isTracked_eq, requested.other same, Bool.or_false]
    rw [circumstances, isTracked_deliver, tracked]
    simp only [Manager.deliver, settings, roots, Circumstances.after, circumstances, eligible,
      Bool.and_true]
  · intro p triggered
    simp only [Circumstances.triggers, Bool.and_eq_true] at triggered
    exact (awaits triggered.1).opened now
  · intro p untriggered disturbed
    simp only [Circumstances.triggers] at untriggered
    simp only [Circumstances.disturbs, untriggered] at disturbed
    cases disturbed
  · intro p undisturbed
    have apart : p.same document = false := by
      simpa [Circumstances.disturbs, circumstances, eligible] using undisturbed
    exact window?_deliver_of_calm calm (requested.other apart) now

theorem outcome_visible (calm : m.Calm now) (document : Path) :
    Outcome now (.visible document) m (m.visible now document).2 := by
  unfold visible submit
  cases eligible : m.settings.isEligible document with
  | false =>
    simp only [Bool.false_eq_true, if_false, calm.deliver_eq]
    exact outcome_of_not_eligible calm eligible
  | true =>
    simp only [if_true]
    exact outcome_request calm eligible

/-! ### Operations that ask for nothing -/

theorem isTracked_untrack (m : Manager) (document p : Path) :
    (m.untrack document).isTracked p = (m.isTracked p && !p.same document) := by
  rw [isTracked_eq, isTracked_eq]
  cases same : p.same document with
  | true =>
    rw [registered?_untrack_of_same m same, Option.isSome_none, Bool.not_true, Bool.and_false]
  | false =>
    rw [registered?_untrack_of_not_same m same, Bool.not_false, Bool.and_true]

theorem untrack_frame (m : Manager) (document : Path) :
    (m.untrack document).roots = m.roots ∧
      (m.waiting = [] → (m.untrack document).waiting = []) := by
  unfold untrack
  split
  · exact ⟨rfl, id⟩
  · refine ⟨rfl, fun empty => ?_⟩
    rw [empty]
    rfl

theorem outcome_close (calm : m.Calm now) (document : Path) :
    Outcome now (.close document) m (m.close document) := by
  have settings := untrack_settings m document
  obtain ⟨roots, waiting⟩ := untrack_frame m document
  have registered := calm.registered.untrack document
  refine ⟨⟨?_, waiting calm.waiting, ?_⟩, ?_, ?_, ?_, ?_⟩
  · exact ⟨registered.sorted, registered.document, registered.id_le, registered.id_inj,
      registered.event_le⟩
  · intro p t here
    have there : (m.untrack document).registered? p = some t := here
    cases same : p.same document with
    | true =>
      rw [registered?_untrack_of_same m same] at there
      cases there
    | false =>
      rw [registered?_untrack_of_not_same m same] at there
      simp only [close, settings]
      exact calm.settled there
  · intro p
    have tracked := isTracked_untrack m document p
    simp only [isTracked] at tracked
    simp only [circumstances, Circumstances.after, close, isTracked, settings, roots, tracked]
  · intro p triggered
    simp [Circumstances.triggers] at triggered
  · intro p _ same
    exact congrArg (Option.bind · fun t => t.pipeline.window?) (registered?_untrack_of_same m same)
  · intro p apart
    exact congrArg (Option.bind · fun t => t.pipeline.window?)
      (registered?_untrack_of_not_same m apart)

theorem outcome_shutdown (calm : m.Calm now) : Outcome now .shutdown m m.shutdown where
  calm :=
    { registered := calm.registered.move .shutdown
      waiting := rfl
      settled := fun here => by cases here }
  circumstances p := rfl
  opened p triggered := by simp [Circumstances.triggers] at triggered
  closed p _ _ := rfl
  left p undisturbed := by simp [Circumstances.disturbs] at undisturbed

theorem outcome_setRoots (calm : m.Calm now) (roots : List Path) :
    Outcome now (.setRoots roots) m (m.setRoots roots) := by
  have calm' : (m.setRoots roots).Calm now :=
    ⟨calm.registered.move (.setRoots roots), calm.waiting, fun here => calm.settled here⟩
  exact outcome_of_undisturbed calm' (fun _ => rfl) (fun _ => rfl) fun _ => rfl

theorem outcome_takeChanges (calm : m.Calm now) : Outcome now .takeChanges m m.takeChanges.2 := by
  have calm' : m.takeChanges.2.Calm now :=
    ⟨calm.registered.move .takeChanges, calm.waiting, fun here => calm.settled here⟩
  exact outcome_of_undisturbed calm' (fun _ => rfl) (fun _ => rfl) fun _ => rfl

/-! ### Handling results -/

/-- Pipelines, settings and roots are as they were. -/
structure Kept (m m' : Manager) : Prop where
  registered : m.Registered → m'.Registered
  waiting : m'.waiting = m.waiting
  settings : m'.settings = m.settings
  roots : m'.roots = m.roots
  pipelines : ∀ p, (m'.registered? p).map Tracked.pipeline = (m.registered? p).map Tracked.pipeline

theorem Kept.refl (m : Manager) : m.Kept m :=
  ⟨id, rfl, rfl, rfl, fun _ => rfl⟩

private theorem Kept.trans {m' m'' : Manager} (first : m.Kept m') (second : m'.Kept m'') :
    m.Kept m'' :=
  ⟨fun reg => second.registered (first.registered reg), second.waiting.trans first.waiting,
    second.settings.trans first.settings, second.roots.trans first.roots,
    fun p => (second.pipelines p).trans (first.pipelines p)⟩

private theorem Kept.window? {m' : Manager} (kept : m.Kept m') (p : Path) :
    m'.window? p = m.window? p := by
  have through : ∀ n : Manager, n.window? p =
      ((n.registered? p).map Tracked.pipeline).bind Pipeline.window? := by
    intro n
    rw [Manager.window?, Option.bind_map]
    rfl
  rw [through, through, kept.pipelines]

private theorem Kept.alike {m' : Manager} (kept : m.Kept m') : m.Alike m' where
  settings := kept.settings
  roots := kept.roots
  tracked p := by
    have same := congrArg Option.isSome (kept.pipelines p)
    rwa [Option.isSome_map, Option.isSome_map] at same

private theorem Kept.calm {m' : Manager} (kept : m.Kept m') (calm : m.Calm now) : m'.Calm now where
  registered := kept.registered calm.registered
  waiting := kept.waiting.trans calm.waiting
  settled := by
    intro p t here
    have same := kept.pipelines p
    rw [here] at same
    obtain ⟨u, there, eq⟩ := Option.map_eq_some_iff.1 same.symm
    rw [kept.settings, ← eq]
    exact calm.settled there

private theorem kept_handle (m : Manager) (e : Event) : m.Kept (m.handle e) := by
  obtain ⟨_, waiting, _⟩ := handle_queues m e
  refine ⟨fun reg => reg.handle e, waiting, ?_, ?_, ?_⟩
  · unfold handle
    split
    · unfold applyResult
      split <;> rfl
    · rfl
  · unfold handle
    split
    · unfold applyResult
      split <;> rfl
    · rfl
  · intro p
    cases same : p.same e.document with
    | true =>
      rw [registered?_handle_of_same m e same]
      split
      · rw [Option.map_map]
        rfl
      · rfl
    | false => rw [registered?_handle_of_not_same m e same]

theorem kept_next (m : Manager) : m.Kept m.next := by
  cases queued : m.queue with
  | nil =>
    rw [next, queued]
    exact .refl m
  | cons e rest =>
    obtain ⟨_, waiting, settings, roots, pipelines⟩ :=
      kept_handle { m with queue := rest } e
    rw [next_of_queue queued]
    refine ⟨fun reg => ?_, waiting, settings, roots, pipelines⟩
    rw [← next_of_queue queued]
    exact reg.next

theorem kept_poll (m : Manager) (budget : Nat) : m.Kept (m.poll budget).2 := by
  induction budget generalizing m with
  | zero => exact .refl m
  | succ budget ih =>
    rw [poll]
    split
    · exact .refl m
    · exact (kept_next m).trans (ih m.next)

theorem outcome_poll (calm : m.Calm now) (budget : Nat) :
    Outcome now (.poll budget) m (m.poll budget).2 := by
  have kept := kept_poll m budget
  exact outcome_of_undisturbed (kept.calm calm) (fun _ => rfl) (kept.alike.circumstances now)
    kept.window?

/-! ### New settings -/

/-- What becomes of documents that are started over. -/
structure Restarted (documents : List Path) (m m' : Manager) : Prop where
  registered : m'.Registered
  waiting : m'.waiting = []
  settings : m'.settings = m.settings
  roots : m'.roots = m.roots
  awaits : ∀ {p}, (∃ d ∈ documents, p.same d = true) → m.settings.isEligible p = true →
    m'.Awaits p
  dropped : ∀ {p}, (∃ d ∈ documents, p.same d = true) → m.settings.isEligible p = false →
    m'.registered? p = none
  other : ∀ {p}, (∀ d ∈ documents, p.same d = false) → m'.registered? p = m.registered? p

private theorem Awaits.congr {m' : Manager} {p : Path} (awaits : m.Awaits p)
    (kept : m'.registered? p = m.registered? p) (settings : m'.settings = m.settings)
    (roots : m'.roots = m.roots) : m'.Awaits p := by
  obtain ⟨t, number, here, fresh⟩ := awaits
  refine ⟨t, number, kept.trans here, ?_⟩
  rw [settings, rootFor, roots]
  exact fresh

private theorem restarted_of_eligible (reg : m.Registered) (waiting : m.waiting = [])
    {document : Path} (eligible : m.settings.isEligible document = true) :
    Restarted [document] m (m.restart document) := by
  obtain ⟨roots, still⟩ := untrack_frame m document
  have untracked := reg.untrack document
  have absent := registered?_untrack_of_same m (Path.same_refl document)
  have asked : m.restart document = (m.untrack document).request document := by
    rw [restart, untrack_settings, if_pos eligible]
  obtain ⟨waiting', roots'⟩ := request_frame (m.untrack document) document
  have settings' := request_settings (m.untrack document) document
  have requested : (m.untrack document).Requested ((m.untrack document).request document)
      document := by
    rw [request_of_none absent]
    exact requested_spawn untracked document
  rw [asked]
  refine ⟨untracked.request document, waiting'.trans (still waiting),
    settings'.trans (untrack_settings m document), roots'.trans roots, ?_, ?_, ?_⟩
  · rintro p ⟨d, mem, same⟩ _
    obtain rfl := List.mem_singleton.1 mem
    exact requested.awaits settings' roots' same
  · rintro p ⟨d, mem, same⟩ left_out
    obtain rfl := List.mem_singleton.1 mem
    rw [isEligible_congr m.settings same, eligible] at left_out
    cases left_out
  · intro p apart
    have other := apart document List.mem_cons_self
    rw [requested.other other, registered?_untrack_of_not_same m other]

private theorem restarted_of_not_eligible (reg : m.Registered) (waiting : m.waiting = [])
    {document : Path} (left_out : m.settings.isEligible document = false) :
    Restarted [document] m (m.restart document) := by
  obtain ⟨roots, still⟩ := untrack_frame m document
  have untracked := (reg.untrack document).move (.clear document)
  rw [restart_of_not_eligible left_out]
  refine ⟨untracked, still waiting, untrack_settings m document, roots, ?_, ?_, ?_⟩
  · rintro p ⟨d, mem, same⟩ eligible
    obtain rfl := List.mem_singleton.1 mem
    rw [isEligible_congr m.settings same, left_out] at eligible
    cases eligible
  · rintro p ⟨d, mem, same⟩ _
    obtain rfl := List.mem_singleton.1 mem
    exact registered?_untrack_of_same m same
  · intro p apart
    exact registered?_untrack_of_not_same m (apart document List.mem_cons_self)

private theorem restarted (reg : m.Registered) (waiting : m.waiting = []) (document : Path) :
    Restarted [document] m (m.restart document) := by
  cases eligible : m.settings.isEligible document with
  | true => exact restarted_of_eligible reg waiting eligible
  | false => exact restarted_of_not_eligible reg waiting eligible

/-- Starting over one document after the other: what the last restart of a document does stays. -/
private theorem restarted_foldl (reg : m.Registered) (waiting : m.waiting = [])
    (documents : List Path) : Restarted documents m (documents.foldl restart m) := by
  induction documents generalizing m with
  | nil =>
    exact ⟨reg, waiting, rfl, rfl, fun ⟨_, mem, _⟩ => (by cases mem),
      fun ⟨_, mem, _⟩ => (by cases mem), fun _ => rfl⟩
  | cons document rest ih =>
    have first := restarted reg waiting document
    have later := ih first.registered first.waiting
    -- The last restart of a document counts, whichever way the list spells its path.
    have split : ∀ {p : Path}, (∃ d ∈ document :: rest, p.same d = true) →
        (∃ d ∈ rest, p.same d = true) ∨
          (∀ d ∈ rest, p.same d = false) ∧ ∃ d ∈ [document], p.same d = true := by
      rintro p ⟨d, mem, same⟩
      by_cases again : ∃ d ∈ rest, p.same d = true
      · exact Or.inl again
      · refine Or.inr ⟨?_, ?_⟩
        · intro d' mem'
          exact Bool.eq_false_iff.2 fun same' => again ⟨d', mem', same'⟩
        · rcases List.mem_cons.1 mem with rfl | mem
          · exact ⟨d, List.mem_cons_self, same⟩
          · exact absurd ⟨d, mem, same⟩ again
    refine ⟨later.registered, later.waiting, later.settings.trans first.settings,
      later.roots.trans first.roots, ?_, ?_, ?_⟩
    · intro p among eligible
      rcases split among with again | ⟨apart, last⟩
      · exact later.awaits again (by rw [first.settings, eligible])
      · exact (first.awaits last eligible).congr (later.other apart) later.settings later.roots
    · intro p among left_out
      rcases split among with again | ⟨apart, last⟩
      · exact later.dropped again (by rw [first.settings, left_out])
      · exact (later.other apart).trans (first.dropped last left_out)
    · intro p apart
      rw [List.foldl_cons, later.other fun d mem => apart d (List.mem_cons_of_mem _ mem)]
      refine first.other fun d mem => ?_
      rw [List.mem_singleton.1 mem]
      exact apart document List.mem_cons_self

theorem isTracked_iff (m : Manager) (rank : PathMap.Rank) (p : Path) :
    m.isTracked p = true ↔ ∃ d ∈ m.tracked.keysBy rank, p.same d = true := by
  rw [PathMap.exists_mem_keysBy, isTracked_eq]
  rfl

theorem apart_of_not_isTracked {p : Path} (untracked : m.isTracked p = false)
    (rank : PathMap.Rank) : ∀ d ∈ m.tracked.keysBy rank, p.same d = false := by
  intro d mem
  refine Bool.eq_false_iff.2 fun same => ?_
  rw [(isTracked_iff m rank p).2 ⟨d, mem, same⟩] at untracked
  cases untracked

theorem restarted_renew (calm : m.Calm now) (settings : LintSettings) (rank : PathMap.Rank) :
    Restarted (m.tracked.keysBy rank) { m with settings := settings } (m.renew settings rank) :=
  restarted_foldl (calm.registered.move (.setSettings settings)) calm.waiting _

/-- After new settings, every document that was tracked awaits its lint run or is dropped. -/
theorem renewed_cases (calm : m.Calm now) (settings : LintSettings) (rank : PathMap.Rank)
    (p : Path) :
    (m.isTracked p = true ∧ settings.isEligible p = true ∧ (m.renew settings rank).Awaits p) ∨
      (m.isTracked p && settings.isEligible p) = false ∧
        (m.renew settings rank).registered? p = none := by
  have renewed := restarted_renew calm settings rank
  cases tracked : m.isTracked p with
  | true =>
    have among := (isTracked_iff m rank p).1 tracked
    cases eligible : settings.isEligible p with
    | true => exact Or.inl ⟨rfl, rfl, renewed.awaits among eligible⟩
    | false => exact Or.inr ⟨rfl, renewed.dropped among eligible⟩
  | false =>
    refine Or.inr ⟨rfl, ?_⟩
    rw [renewed.other (apart_of_not_isTracked tracked rank)]
    exact Option.not_isSome_iff_eq_none.1 (Bool.eq_false_iff.1 tracked)

private theorem asked_renew (calm : m.Calm now) (settings : LintSettings) (rank : PathMap.Rank) :
    (m.renew settings rank).Asked now := by
  have renewed := restarted_renew calm settings rank
  refine ⟨renewed.registered, renewed.waiting, ?_⟩
  intro p t here
  rcases renewed_cases calm settings rank p with ⟨_, _, u, number, there, fresh⟩ | ⟨_, absent⟩
  · rw [here] at there
    obtain rfl := Option.some.inj there
    exact Or.inr ⟨_, fresh⟩
  · rw [here] at absent
    cases absent

theorem outcome_reconfigure (calm : m.Calm now) (settings : LintSettings)
    (rank : PathMap.Rank) :
    Outcome now (.reconfigure settings rank) m (m.reconfigure now settings rank) := by
  have renewed := restarted_renew calm settings rank
  refine ⟨(asked_renew calm settings rank).deliver, ?_, ?_, ?_, ?_⟩
  · intro p
    have tracked : (m.renew settings rank).isTracked p =
        (m.isTracked p && settings.isEligible p) := by
      rcases renewed_cases calm settings rank p with
        ⟨tracked, eligible, awaits⟩ | ⟨not_both, absent⟩
      · rw [awaits.isTracked, tracked, eligible, Bool.and_self]
      · rw [not_both, isTracked_eq, absent, Option.isSome_none]
    rw [reconfigure, circumstances, isTracked_deliver, tracked]
    simp only [Manager.deliver, renewed.settings, renewed.roots, Circumstances.after,
      circumstances]
  · intro p triggered
    rcases renewed_cases calm settings rank p with ⟨_, _, awaits⟩ | ⟨not_both, _⟩
    · exact awaits.opened now
    · simp only [Circumstances.triggers, circumstances] at triggered
      rw [not_both] at triggered
      cases triggered
  · intro p untriggered _
    rcases renewed_cases calm settings rank p with ⟨tracked, eligible, _⟩ | ⟨_, absent⟩
    · simp only [Circumstances.triggers, circumstances, tracked, eligible] at untriggered
      cases untriggered
    · exact window?_deliver_of_none absent
  · intro p undisturbed
    simp [Circumstances.disturbs] at undisturbed

end ModBench.Manager
