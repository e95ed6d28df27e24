import ModBench.Editor.Steps
import ModBench.Proofs.Lint.Feed
import ModBench.Proofs.Lint.Passes
import ModBench.Proofs.Url.Files

/-!
The editor's view.  In a run that is orderly about a path the editor shows for it what is published,
as soon as no change of the path is marked or held.  A task that holds a change of the path while
another one takes the next may be overtaken, and then the editor goes on showing what is no longer
published.
-/

set_option autoImplicit false
set_option relaxedAutoImplicit false

namespace ModBench

open PublishedSet (Update)

/-! ### Acts that take nothing -/

/-- What operations that take nothing leave unmarked was unmarked before, and is as it was. -/
private theorem PublishedSet.Kept.get?_of_unmarked {s : PublishedSet} (kept : s.Kept)
    {updates : List Update} (keeps : .take ∉ updates) {p : Path}
    (unmarked : (s.after updates).isMarked p = false) :
    s.isMarked p = false ∧ (s.after updates).get? p = s.get? p := by
  induction updates generalizing s with
  | nil => exact ⟨unmarked, rfl⟩
  | cons u rest ih =>
    rw [List.mem_cons, not_or] at keeps
    obtain ⟨before, same⟩ := ih (kept.update u) keeps.2 unmarked
    have marks := not_congr (kept.isMarked_update (Ne.symm keeps.1) p)
    rw [Bool.not_eq_true, before] at marks
    obtain ⟨first, alike⟩ := not_or.1 (marks.1 rfl)
    exact ⟨Bool.eq_false_iff.2 first, same.trans (not_not.1 alike)⟩

private theorem Occurrence.take_not_mem_updates (o : Occurrence) : Update.take ∉ o.updates := by
  by_cases pass : o.IsPass
  · cases o with
    | accepted e =>
      obtain ⟨outcome, result⟩ := pass
      have result' : e.result = .ok outcome := result
      simp [updates, Event.updates, result']
    | _ => exact absurd pass not_false
  · rcases updates_cases pass with ⟨eq, _, _⟩ | ⟨q, eq, _, _⟩ | rfl
    · simp [eq]
    · simp [eq]
    · simp [updates]

namespace Manager

private theorem takingIn_eq_nil {a : Act} (keeps : a ≠ .takeChanges) : takingIn a = [] := by
  cases a with
  | takeChanges => exact absurd rfl keeps
  | _ => rfl

/-- An act that takes nothing marks the paths that it changes. -/
private theorem current_act_of_unmarked {m : Manager} (kept : m.published.Kept) {a : Act}
    (keeps : a ≠ .takeChanges) {p : Path} (unmarked : (m.act a).published.isMarked p = false) :
    m.published.isMarked p = false ∧ (m.act a).current p = m.current p := by
  rw [act_published, takingIn_eq_nil keeps, List.append_nil] at unmarked
  have none : Update.take ∉ (m.occurrencesIn a).flatMap Occurrence.updates := by
    intro mem
    obtain ⟨o, _, inside⟩ := List.mem_flatMap.1 mem
    exact o.take_not_mem_updates inside
  obtain ⟨before, same⟩ := kept.get?_of_unmarked none unmarked
  refine ⟨before, ?_⟩
  rw [current, current, act_published, takingIn_eq_nil keeps, List.append_nil, same]

end Manager

namespace Editor

/-! ### Lists for a path -/

variable {p : Path}

theorem listsFor_append (p : Path) (one other : List FileRecords) :
    listsFor p (one ++ other) = listsFor p one ++ listsFor p other := by
  rw [listsFor, List.filter_append, List.map_append]
  rfl

theorem listsFor_singleton (p : Path) (f : FileRecords) :
    listsFor p [f] = if p.same f.1 then [f.2] else [] := by
  cases same : p.same f.1 <;> simp [listsFor, same]

private theorem listsFor_of_sorted {m : RecordMap} (sorted : PathMap.Sorted m) (p : Path) :
    listsFor p m = (m.find? p).toList := by
  induction m with
  | nil => rfl
  | cons e rest ih =>
    obtain ⟨first, others⟩ := List.pairwise_cons.1 sorted
    rw [← List.singleton_append, listsFor_append, ih others, listsFor_singleton,
      List.singleton_append, PathMap.find?_cons]
    cases same : p.same e.1 with
    | true =>
      have missing : PathMap.find? p rest = none := by
        rw [PathMap.find?_eq_none_iff]
        intro d mem
        rw [Path.same_congr same]
        exact PathMap.not_same_of_compare_lt (first d mem)
      rw [missing]
      rfl
    | false => rfl

/-- The changes taken hold one list for a marked path and none for another. -/
private theorem listsFor_changes {s : PublishedSet} (kept : s.Kept) (p : Path) :
    listsFor p s.changes = if s.isMarked p then [(s.get? p).getD []] else [] := by
  rw [listsFor_of_sorted (PublishedSet.sorted_changes kept), PublishedSet.find?_changes]
  split <;> rfl

/-! ### What the editor shows -/

theorem shown_concat (uri : String) (messages : List Message) (m : Message) :
    shown uri (messages ++ [m]) =
      match m with
      | .publish other diagnostics => if other = uri then diagnostics else shown uri messages
      | _ => shown uri messages := by
  rw [shown, List.foldl_append]
  cases m <;> rfl

/-- A message about a file changes what is shown for its own URL only. -/
private theorem shown_ofFile? {url : Url} (named : Url.ofPath? p = some url)
    (messages : List Message) (f : FileRecords) :
    shown url.text (messages ++ (Message.ofFile? f).toList) =
      if p.same f.1 then f.2.map Diagnostic.ofRecord else shown url.text messages := by
  unfold Message.ofFile?
  cases found : Url.ofPath? f.1 with
  | none =>
    have apart : p.same f.1 = false := by
      rw [Bool.eq_false_iff]
      intro same
      have absolute := Url.isAbsolute_of_same same (Url.exists_ofPath?_iff.1 ⟨url, named⟩)
      obtain ⟨other, here⟩ := Url.exists_ofPath?_iff.2 absolute
      rw [found] at here
      cases here
    simp [apart]
  | some other =>
    have one := Url.text_eq_iff_same named found
    rw [Option.map_some, Option.toList_some, shown_concat]
    dsimp only
    by_cases same : p.same f.1 = true
    · rw [if_pos (one.2 same).symm, if_pos same]
    · rw [if_neg fun alike => same (one.1 alike.symm), if_neg same]

private theorem shown_append_notices (uri : String) (messages : List Message)
    (notices : List Notice) :
    shown uri (messages ++ notices.flatMap Message.ofNotice) = shown uri messages := by
  induction notices generalizing messages with
  | nil => rw [List.flatMap_nil, List.append_nil]
  | cons n rest ih =>
    have spelled : messages ++ (n :: rest).flatMap Message.ofNotice =
        messages ++ [.display n.level n.text] ++ [.log n.level n.text] ++
          rest.flatMap Message.ofNotice := by
      simp [Message.ofNotice]
    rw [spelled, ih, shown_concat, shown_concat]

namespace Session

variable {σ : Type} {s t : Session σ}

/-! ### Sending -/

/-- The session with more messages sent. -/
def post (s : Session σ) (messages : List Message) : Session σ :=
  { s with outbox := s.outbox ++ messages }

theorem send_of_publishes (publishes : s.stage.publishes = true) (m : Message) :
    s.send m = s.post [m] := by
  have there : s.stage ≠ .over := by
    intro gone
    rw [gone] at publishes
    cases publishes
  exact if_neg there

private theorem sendFile_of_publishes (publishes : s.stage.publishes = true) (f : FileRecords) :
    s.sendFile f = s.post (Message.ofFile? f).toList := by
  unfold sendFile
  cases Message.ofFile? f with
  | none => simp [post]
  | some m => simp [publishes, send_of_publishes publishes m]

private theorem foldl_send_of_publishes (publishes : s.stage.publishes = true)
    (messages : List Message) : messages.foldl send s = s.post messages := by
  induction messages generalizing s with
  | nil => simp [post]
  | cons m rest ih =>
    rw [List.foldl_cons, send_of_publishes publishes, ih (s := s.post [m]) publishes]
    simp [post]

private theorem announce_of_publishes (publishes : s.stage.publishes = true) :
    s.announce = (s.withManager s.manager.takeNotices.2).post
      (s.manager.notices.flatMap Message.ofNotice) :=
  foldl_send_of_publishes (s := s.withManager s.manager.takeNotices.2) publishes _

/-! ### One step -/

/-- What the editor will show for a path once the list under way is sent. -/
def underWay (s : Session σ) (p : Path) (uri : String) : List Diagnostic :=
  match s.heldFor p with
  | [] => shown uri s.outbox
  | records :: _ => records.map Diagnostic.ofRecord

/-- At most one list is under way for a path, and unless the path is marked the editor shows or will
show what is published for it. -/
structure UpToDate (p : Path) (uri : String) (s : Session σ) : Prop where
  publishes : s.stage.publishes = true
  kept : s.manager.published.Kept
  single : (s.heldFor p).length ≤ 1
  latest : s.manager.published.isMarked p = false →
    s.underWay p uri = (s.manager.current p).map Diagnostic.ofRecord

theorem underWay_of_nil {uri : String} (free : s.heldFor p = []) :
    s.underWay p uri = shown uri s.outbox := by
  rw [underWay, free]

theorem underWay_of_singleton {uri : String} {records : List Record}
    (held : s.heldFor p = [records]) :
    s.underWay p uri = records.map Diagnostic.ofRecord := by
  rw [underWay, held]

/-- Of at most one thing there is only one order. -/
private theorem eq_of_perm {α : Type} {one other : List α} (perm : one.Perm other)
    (single : one.length ≤ 1) : one = other := by
  cases one with
  | nil => exact (List.nil_perm.1 perm).symm
  | cons a rest =>
    rw [List.length_cons] at single
    have alone : rest = [] := List.eq_nil_of_length_eq_zero (by omega)
    rw [alone] at perm ⊢
    exact (List.singleton_perm.1 perm)

namespace UpToDate

variable {uri : String}

private theorem of_opened (p : Path) (uri : String) (runner : σ) :
    UpToDate p uri (opened runner) where
  publishes := rfl
  kept := PublishedSet.kept_empty
  single := Nat.zero_le 1
  latest _ := rfl

/-- Only what is published, held and shown matters. -/
theorem congr (upToDate : UpToDate p uri s) (publishes : t.stage.publishes = true)
    (published : t.manager.published = s.manager.published) (held : t.heldFor p = s.heldFor p)
    (same : shown uri t.outbox = shown uri s.outbox) : UpToDate p uri t where
  publishes := publishes
  kept := by
    rw [published]
    exact upToDate.kept
  single := by
    rw [held]
    exact upToDate.single
  latest unmarked := by
    rw [published] at unmarked
    rw [underWay, held, same, Manager.current, published]
    exact upToDate.latest unmarked

theorem lint (upToDate : UpToDate p uri s) {a : Act} (keeps : a ≠ .takeChanges) :
    UpToDate p uri (s.withManager (s.manager.act a)) where
  publishes := upToDate.publishes
  kept := by
    have kept := upToDate.kept.after
      ((s.manager.occurrencesIn a).flatMap Occurrence.updates ++ Manager.takingIn a)
    rw [← Manager.act_published] at kept
    exact kept
  single := upToDate.single
  latest unmarked := by
    obtain ⟨before, same⟩ := Manager.current_act_of_unmarked upToDate.kept keeps unmarked
    exact (upToDate.latest before).trans (congrArg _ same.symm)

/-- Taking the changes puts the list of a marked path under way. -/
theorem take (upToDate : UpToDate p uri s) (publishes : t.stage.publishes = true)
    (published : t.manager.published = s.manager.published.takeChanges.2)
    (outbox : t.outbox = s.outbox)
    (held : (s.heldFor p ++ listsFor p s.manager.published.changes).Perm (t.heldFor p))
    (careful : listsFor p s.manager.published.changes ≠ [] → s.heldFor p = []) :
    UpToDate p uri t := by
  have current : t.manager.current p = s.manager.current p := by
    rw [Manager.current, published]
    rfl
  have kept : t.manager.published.Kept := by
    rw [published]
    exact upToDate.kept.update .take
  have single : (s.heldFor p ++ listsFor p s.manager.published.changes).length ≤ 1 := by
    by_cases none : listsFor p s.manager.published.changes = []
    · rw [none, List.append_nil]
      exact upToDate.single
    · rw [careful none, List.nil_append, listsFor_changes upToDate.kept]
      split
      · exact Nat.le_refl 1
      · exact Nat.zero_le 1
  have held := eq_of_perm held single
  refine ⟨publishes, kept, held ▸ single, fun _ => ?_⟩
  rw [current]
  rw [listsFor_changes upToDate.kept] at held careful
  cases marked : s.manager.published.isMarked p with
  | true =>
    rw [marked, if_pos rfl] at held careful
    rw [careful (List.cons_ne_nil _ _), List.nil_append] at held
    exact underWay_of_singleton held.symm
  | false =>
    rw [marked, if_neg Bool.false_ne_true, List.append_nil] at held
    rw [underWay, ← held, outbox]
    exact upToDate.latest marked

/-- Sending a held change makes it shown. -/
theorem send {url : Url} (upToDate : UpToDate p url.text s) (named : Url.ofPath? p = some url)
    (publishes : t.stage.publishes = true)
    (published : t.manager.published = s.manager.published) (outbox : t.outbox = s.outbox)
    {f : FileRecords} (held : (s.heldFor p).Perm (listsFor p [f] ++ t.heldFor p)) :
    UpToDate p url.text (t.sendFile f) := by
  have held := eq_of_perm held upToDate.single
  rw [listsFor_singleton] at held
  rw [sendFile_of_publishes publishes]
  cases same : p.same f.1 with
  | true =>
    rw [same, if_pos rfl, List.singleton_append] at held
    have free : t.heldFor p = [] := by
      have single := upToDate.single
      rw [held, List.length_cons] at single
      exact List.eq_nil_of_length_eq_zero (by omega)
    rw [free] at held
    have after : (t.post (Message.ofFile? f).toList).heldFor p = [] := free
    refine ⟨publishes, published.symm ▸ upToDate.kept, by rw [after]; exact Nat.zero_le 1, ?_⟩
    intro unmarked
    have latest := upToDate.latest (published ▸ unmarked)
    rw [underWay_of_singleton held] at latest
    have current : (t.post (Message.ofFile? f).toList).manager.current p = s.manager.current p :=
      congrArg (fun published : PublishedSet => (published.get? p).getD []) published
    rw [underWay_of_nil after, post, shown_ofFile? named, if_pos same, latest, ← current]
    rfl
  | false =>
    rw [same, if_neg Bool.false_ne_true, List.nil_append] at held
    refine upToDate.congr publishes published held.symm ?_
    rw [post, shown_ofFile? named, same, if_neg Bool.false_ne_true, outbox]

end UpToDate

/-! ### What tasks hold -/

private theorem listsFor_perm {one other : List FileRecords} (perm : one.Perm other) (p : Path) :
    (listsFor p one).Perm (listsFor p other) :=
  (perm.filter _).map _

private theorem flatten_perm_of_set {α : Type} {lists : List (List α)} {index : Nat} {a : α}
    {rest : List α} (here : lists[index]? = some (a :: rest)) :
    lists.flatten.Perm (a :: (lists.set index rest).flatten) := by
  induction lists generalizing index with
  | nil => cases here
  | cons first lists ih =>
    cases index with
    | zero =>
      rw [List.getElem?_cons_zero, Option.some.injEq] at here
      rw [here]
      exact List.Perm.refl _
    | succ index => exact ((ih here).append_left first).trans List.perm_middle

private theorem flatten_eraseIdx_of_nil {α : Type} {lists : List (List α)} {index : Nat}
    (here : lists[index]? = some []) : (lists.eraseIdx index).flatten = lists.flatten := by
  induction lists generalizing index with
  | nil => cases here
  | cons first lists ih =>
    cases index with
    | zero =>
      rw [List.getElem?_cons_zero, Option.some.injEq] at here
      rw [here]
      rfl
    | succ index => exact congrArg (first ++ ·) (ih here)

/-- Once the ticker gave up nothing for a path, only handlers hold lists for it. -/
theorem heldFor_without_ticker (free : listsFor p s.tickerHeld = []) :
    s.heldFor p = listsFor p s.parcels.flatten := by
  rw [heldFor, listsFor_append, free, List.nil_append]

private theorem heldFor_takeParcel (s : Session σ) (p : Path) :
    s.takeParcel.heldFor p = s.heldFor p ++ listsFor p s.manager.published.changes := by
  have parcels : s.takeParcel.parcels.flatten =
      s.parcels.flatten ++ s.manager.published.changes := by
    have taken : s.takeParcel.parcels = s.parcels ++ [s.manager.published.changes] := rfl
    rw [taken, List.flatten_append, List.flatten_singleton]
  have held : s.takeParcel.tickerHeld = s.tickerHeld := rfl
  rw [heldFor, heldFor, parcels, held, ← List.append_assoc, listsFor_append]

namespace UpToDate

variable {url : Url}

private theorem announce (upToDate : UpToDate p url.text s) : UpToDate p url.text s.announce := by
  rw [announce_of_publishes upToDate.publishes]
  refine upToDate.congr upToDate.publishes rfl rfl ?_
  exact shown_append_notices url.text s.outbox s.manager.notices

private theorem tick (upToDate : UpToDate p url.text s) (careful : s.Careful p .tick) :
    UpToDate p url.text s.tick := by
  unfold Session.tick
  split
  · rename_i due idle
    -- The results are applied first, which is a step of the linter.
    have polled : UpToDate p url.text (s.withManager (s.manager.poll tickBudget).2) :=
      upToDate.lint (a := .poll tickBudget) nofun
    refine polled.take upToDate.publishes rfl rfl ?_ ?_
    · have held : s.tickerHeld = [] := by rw [tickerHeld, idle]; rfl
      have before : (s.withManager (s.manager.poll tickBudget).2).heldFor p =
          listsFor p s.parcels.flatten :=
        heldFor_without_ticker (s := s.withManager (s.manager.poll tickBudget).2)
          (congrArg (listsFor p) held)
      rw [before]
      refine List.perm_append_comm.trans (List.Perm.of_eq ?_)
      exact (listsFor_append p _ _).symm
    · intro taken
      refine careful.1 ?_
      rw [takenFor, idle]
      exact taken
  · exact upToDate

private theorem sendFromTicker (upToDate : UpToDate p url.text s)
    (named : Url.ofPath? p = some url) : UpToDate p url.text s.sendFromTicker := by
  unfold Session.sendFromTicker
  split
  · rename_i due f rest holding
    refine upToDate.send (t := { s with ticker := some ⟨due, rest⟩ }) named upToDate.publishes
      rfl rfl ?_
    rw [heldFor, heldFor, ← listsFor_append, tickerHeld, holding]
    exact List.Perm.refl _
  · exact upToDate

private theorem sendFromParcel (upToDate : UpToDate p url.text s) (named : Url.ofPath? p = some url)
    (index : Nat) : UpToDate p url.text (s.sendFromParcel index) := by
  unfold Session.sendFromParcel
  split
  · rename_i f rest here
    refine upToDate.send (t := { s with parcels := s.parcels.set index rest }) named
      upToDate.publishes rfl rfl ?_
    rw [heldFor, heldFor, ← listsFor_append]
    apply listsFor_perm
    exact ((flatten_perm_of_set here).append_left s.tickerHeld).trans List.perm_middle
  · rename_i here
    refine upToDate.congr upToDate.publishes rfl ?_ rfl
    exact congrArg (fun held => listsFor p (s.tickerHeld ++ held)) (flatten_eraseIdx_of_nil here)
  · exact upToDate

/-- Every careful step keeps the editor up to date. -/
private theorem step (upToDate : UpToDate p url.text s) (named : Url.ofPath? p = some url)
    {a : Step} (careful : s.Careful p a) : UpToDate p url.text (s.step a) := by
  cases a with
  | lint a keeps => exact upToDate.lint keeps
  | announce => exact upToDate.announce
  | tick => exact upToDate.tick careful
  | sendFromTicker => exact upToDate.sendFromTicker named
  | takeParcel =>
    refine upToDate.take upToDate.publishes rfl rfl (List.Perm.of_eq ?_) careful.1
    exact (heldFor_takeParcel s p).symm
  | sendFromParcel index => exact upToDate.sendFromParcel named index
  | startTicker =>
    exact upToDate.congr upToDate.publishes rfl (heldFor_without_ticker careful.2).symm rfl
  | stopTicker =>
    exact upToDate.congr upToDate.publishes rfl (heldFor_without_ticker careful.2).symm rfl
  | closing => exact upToDate.congr rfl rfl rfl rfl

private theorem steps (upToDate : UpToDate p url.text s) (named : Url.ofPath? p = some url)
    {run : List Step} (orderly : s.Orderly p run) : UpToDate p url.text (s.steps run) := by
  induction run generalizing s with
  | nil => exact upToDate
  | cons a run ih => exact ih (upToDate.step named orderly.1) orderly.2

end UpToDate

/-- In a run that is orderly about a path, whatever else happens, the editor shows for the path what
is published as soon as no task holds a list for it and none is to be taken. -/
theorem view_follows_published (runner : σ) (run : List Step) {p : Path} {url : Url}
    (named : Url.ofPath? p = some url) (orderly : (opened runner).Orderly p run)
    (settled : ((opened runner).steps run).manager.published.isMarked p = false)
    (sent : ((opened runner).steps run).heldFor p = []) :
    shown url.text ((opened runner).steps run).outbox =
      (((opened runner).steps run).manager.current p).map Diagnostic.ofRecord := by
  have upToDate := (UpToDate.of_opened p url.text runner).steps named orderly
  rw [← underWay_of_nil sent]
  exact upToDate.latest settled

/-- Settings under which a document is linted. -/
def completeSettings : LintSettings where
  compiler := some (Path.ofString "/cli")
  blob := some (Path.ofString "/blob")

/-- A document is linted, with a report of one problem, and the ticker takes the change. -/
def lintRun (document : Path) : List Step :=
  [.lint (.reconfigure completeSettings fun _ => 0) nofun, .lint (.visible document) nofun,
    .lint (.receive 1 0) nofun,
    .lint (.begin 1 ⟨0, some (.ok { stderr := "[ERROR] At a.reds:1:1:\nx\n" })⟩ 0) nofun,
    .lint (.finish 1) nofun, .startTicker, .tick]

/-- The ticker sends its change before the document is closed. -/
def closedInTurn (document : Path) : List Step :=
  lintRun document ++ [.sendFromTicker, .lint (.close document) nofun, .takeParcel,
    .sendFromParcel 0, .sendFromParcel 0]

theorem view_after_closing_in_turn :
    (opened ()).Orderly (Path.ofString "/ws/a.reds") (closedInTurn (Path.ofString "/ws/a.reds")) ∧
      shown "file:///ws/a.reds"
        ((opened ()).steps (closedInTurn (Path.ofString "/ws/a.reds"))).outbox = [] := by
  have named : Url.ofPath? (Path.ofString "/ws/a.reds") =
      some ⟨"file", none, some ["ws".toList, "a.reds".toList]⟩ := by decide
  have orderly : (opened ()).Orderly (Path.ofString "/ws/a.reds")
      (closedInTurn (Path.ofString "/ws/a.reds")) := by decide +kernel
  have view := view_follows_published () _ named orderly (by decide +kernel) (by decide +kernel)
  have gone : ((opened ()).steps (closedInTurn (Path.ofString "/ws/a.reds"))).manager.current
      (Path.ofString "/ws/a.reds") = [] := by decide +kernel
  rw [gone] at view
  exact ⟨orderly, view⟩

/-- The document is closed while the ticker holds its change, and the handler is faster. -/
def closedInBetween (document : Path) : List Step :=
  lintRun document ++ [.lint (.close document) nofun, .takeParcel, .sendFromParcel 0,
    .sendFromParcel 0, .sendFromTicker]

/-- A ticker that is overtaken leaves the editor with diagnostics of a file for which nothing is
published, with nothing marked and nothing held. -/
theorem overtaken_ticker_shows_stale :
    let s := (opened ()).steps (closedInBetween (Path.ofString "/ws/a.reds"))
    s.manager.published = PublishedSet.empty ∧ s.tickerHeld = [] ∧ s.parcels = [] ∧
      shown "file:///ws/a.reds" s.outbox = [⟨⟨0, 0⟩, ⟨0, 101⟩, 1, "x"⟩] := by
  decide +kernel

end Session

end Editor

end ModBench
