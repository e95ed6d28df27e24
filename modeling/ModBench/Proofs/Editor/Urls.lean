import ModBench.Editor.Conversation
import ModBench.Editor.Steps
import ModBench.Proofs.Lint.Absolute
import ModBench.Proofs.Url.Parsed

/-!
No diagnostic is lost for want of a URL.  An editor names files by URLs, and a URL names an absolute
path.  So all paths of a session are absolute at every time, also those that the compiler's reports
name, and each change that a task takes has a URL under which it is sent.
-/

set_option autoImplicit false
set_option relaxedAutoImplicit false

namespace ModBench.Editor

/-- Wherever a handler names a path to the linter, the path comes from a URL. -/
def Step.Named : Step → Prop
  | .lint (.visible document) _ => Url.Names document
  | .lint (.close document) _ => Url.Names document
  | .lint (.setRoots roots) _ => ∀ root ∈ roots, Url.Names root
  | _ => True

/-- What may happen to a session: a request of the editor is taken in as a whole, or any task goes a
step. -/
inductive Happening where
  | request (load : Loader) (r : Request)
  | step (a : Step) (named : a.Named)

/-! ### Paths in requests -/

theorem exists_of_map_eq_ok {ε α β : Type} {f : α → β} {x : Except ε α} {b : β}
    (mapped : x.map f = .ok b) : ∃ a, x = .ok a ∧ f a = b := by
  cases x with
  | error e => cases mapped
  | ok a => exact ⟨a, rfl, Except.ok.inj mapped⟩

theorem readable_of_urlOf {j : Json} {url : Url} (read : urlOf j = .ok url) : url.Readable := by
  unfold urlOf at read
  split at read
  · rename_i text
    split at read
    · rename_i parsed
      obtain rfl := Except.ok.inj read
      exact ⟨text, parsed⟩
    · cases read
  · cases read

private theorem readable_of_documentUrl? {params : Option Json} {url : Url}
    (read : documentUrl? params = some url) : url.Readable := by
  unfold documentUrl? at read
  split at read
  · obtain ⟨j, _, ok⟩ := Option.bind_eq_some_iff.1 read
    cases parsed : urlOf j with
    | ok other =>
      rw [parsed] at ok
      obtain rfl := Option.some.inj ok
      exact readable_of_urlOf parsed
    | error words =>
      rw [parsed] at ok
      cases ok
  · cases read

private theorem readable_of_folderOf {j : Json} {url : Url} (read : folderOf j = .ok url) :
    url.Readable := by
  unfold folderOf at read
  split at read
  · cases read
  split at read
  · cases read
  rename_i parsed
  split at read
  · cases read
  obtain ⟨_, _, rfl⟩ := exists_of_map_eq_ok read
  exact readable_of_urlOf parsed

private theorem readable_of_mapM_folderOf {items : List Json} {urls : List Url}
    (read : items.mapM folderOf = .ok urls) : ∀ url ∈ urls, url.Readable := by
  induction items generalizing urls with
  | nil =>
    rw [List.mapM_nil] at read
    obtain rfl := Except.ok.inj read
    exact fun url mem => absurd mem List.not_mem_nil
  | cons item rest ih =>
    rw [List.mapM_cons] at read
    cases first : folderOf item with
    | error words =>
      rw [first] at read
      cases read
    | ok url =>
      cases others : rest.mapM folderOf with
      | error words =>
        rw [first, others] at read
        cases read
      | ok more =>
        rw [first, others] at read
        obtain rfl := Except.ok.inj read
        exact List.forall_mem_cons.2 ⟨readable_of_folderOf first, ih others⟩

private theorem readable_of_foldersOf {j : Option Json} {urls : List Url}
    (read : foldersOf j = .ok urls) : ∀ url ∈ urls, url.Readable := by
  have none : ∀ {urls : List Url}, Except.ok [] = (Except.ok urls : Except String (List Url)) →
      ∀ url ∈ urls, url.Readable := by
    intro urls eq url mem
    rw [← Except.ok.inj eq] at mem
    exact absurd mem List.not_mem_nil
  unfold foldersOf at read
  split at read
  · exact none read
  · exact none read
  · exact readable_of_mapM_folderOf read
  · cases read

private theorem readable_of_optionalUrl {j : Option Json} {root : Option Url}
    (read : optionalUrl j = .ok root) : ∀ url, root = some url → url.Readable := by
  rintro url rfl
  unfold optionalUrl at read
  split at read
  · cases read
  · cases read
  · obtain ⟨other, parsed, same⟩ := exists_of_map_eq_ok read
    obtain rfl := Option.some.inj same
    exact readable_of_urlOf parsed

/-- Every workspace root that a conversation is opened with comes from a URL. -/
private theorem names_of_rootsFromParams {params : Option Json} {roots : List Path}
    (read : rootsFromParams params = .ok roots) : ∀ p ∈ roots, Url.Names p := by
  unfold rootsFromParams at read
  split at read
  · cases read
  split at read
  swap
  · cases read
  split at read
  · cases read
  rename_i root rootUri
  split at read
  · cases read
  swap
  · cases read
  obtain ⟨urls, folders, rfl⟩ := exists_of_map_eq_ok read
  intro p mem
  unfold rootsOf at mem
  split at mem
  · obtain ⟨url, eq, leads⟩ := Option.bind_eq_some_iff.1 (Option.mem_toList.1 mem)
    exact ⟨url, readable_of_optionalUrl rootUri url eq, leads⟩
  · obtain ⟨url, among, leads⟩ := List.mem_filterMap.1 mem
    exact ⟨url, readable_of_foldersOf folders url among, leads⟩

namespace Session

variable {σ : Type}

def happen (s : Session σ) : Happening → Session σ
  | .request load r => (s.receive load r).2
  | .step a _ => s.step a

def happenAll (s : Session σ) (happenings : List Happening) : Session σ :=
  happenings.foldl happen s

/-- The changes that tasks took and have not sent. -/
def held (s : Session σ) : List FileRecords :=
  s.tickerHeld ++ s.parcels.flatten

/-! ### Absolute paths in sessions -/

/-- All paths that the linter has to do with are absolute, and so are those of changes that were
taken and not sent. -/
structure Grounded (s : Session σ) : Prop where
  manager : s.manager.Grounded
  held : ∀ f ∈ s.held, f.1.isAbsolute = true

private theorem grounded_new (runner : σ) : (new runner).Grounded where
  manager := Manager.grounded_new {}
  held _ mem := absurd mem List.not_mem_nil

namespace Grounded

variable {s : Session σ} (grounded : s.Grounded)
include grounded

/-- Stages and messages are no paths. -/
theorem congr {t : Session σ} (manager : t.manager = s.manager) (held : t.held = s.held) :
    t.Grounded where
  manager := by
    rw [manager]
    exact grounded.manager
  held := by
    rw [held]
    exact grounded.held

theorem withManager {m : Manager} (all : m.Grounded) : (s.withManager m).Grounded :=
  ⟨all, grounded.held⟩

theorem send (m : Message) : (s.send m).Grounded := by
  unfold Session.send
  split
  · exact grounded
  · exact grounded.congr rfl rfl

theorem sendFile (f : FileRecords) : (s.sendFile f).Grounded := by
  unfold Session.sendFile
  split
  · split
    · exact grounded.send _
    · exact grounded
  · exact grounded

private theorem announce : s.announce.Grounded := by
  have run : ∀ (messages : List Message) {s : Session σ}, s.Grounded →
      (messages.foldl Session.send s).Grounded := by
    intro messages
    induction messages with
    | nil => exact fun grounded => grounded
    | cons m rest ih => exact fun grounded => ih (grounded.send m)
  have manager := grounded.manager
  exact run _ (grounded.withManager
    ⟨manager.roots, manager.tracked, manager.events, manager.published⟩)

/-- Only some of what a session holds is left. -/
theorem hold {t : Session σ} (manager : t.manager.Grounded) (fewer : ∀ f ∈ t.held, f ∈ s.held) :
    t.Grounded :=
  ⟨manager, fun f mem => grounded.held f (fewer f mem)⟩

theorem takeParcel : s.takeParcel.Grounded where
  manager := grounded.manager.act (a := .takeChanges) trivial
  held f mem := by
    have parcels : s.takeParcel.parcels = s.parcels ++ [s.manager.published.changes] := rfl
    have ticker : s.takeParcel.tickerHeld = s.tickerHeld := rfl
    rw [Session.held, parcels, ticker, List.flatten_append, List.flatten_singleton,
      ← List.append_assoc] at mem
    rcases List.mem_append.1 mem with old | new
    · exact grounded.held f old
    · exact grounded.manager.published.of_mem_changes new

private theorem tick : s.tick.Grounded := by
  unfold Session.tick
  split
  swap
  · exact grounded
  have polled : (s.manager.poll tickBudget).2.Grounded :=
    grounded.manager.act (a := .poll tickBudget) trivial
  refine ⟨polled.act (a := .takeChanges) trivial, fun f mem => ?_⟩
  rcases List.mem_append.1 mem with new | old
  · exact polled.published.of_mem_changes new
  · exact grounded.held f (List.mem_append_right _ old)

private theorem sendFromTicker : s.sendFromTicker.Grounded := by
  unfold Session.sendFromTicker
  split
  · rename_i due f rest holding
    refine (grounded.hold (t := { s with ticker := some ⟨due, rest⟩ }) grounded.manager
      fun g mem => ?_).sendFile f
    unfold Session.held tickerHeld at mem ⊢
    rw [holding]
    rcases List.mem_append.1 mem with left | other
    · exact List.mem_append_left _ (List.mem_cons_of_mem f left)
    · exact List.mem_append_right _ other
  · exact grounded

private theorem sendFromParcel (index : Nat) : (s.sendFromParcel index).Grounded := by
  have fewer : ∀ {parcels : List (List FileRecords)},
      (∀ f ∈ parcels.flatten, f ∈ s.parcels.flatten) →
      { s with parcels := parcels }.Grounded := by
    intro parcels kept
    refine grounded.hold grounded.manager fun f mem => ?_
    rcases List.mem_append.1 mem with ticker | parcel
    · exact List.mem_append_left _ ticker
    · exact List.mem_append_right _ (kept f parcel)
  unfold Session.sendFromParcel
  split
  · rename_i f rest here
    refine (fewer fun g mem => ?_).sendFile f
    obtain ⟨parcel, among, inside⟩ := List.mem_flatten.1 mem
    rcases List.mem_or_eq_of_mem_set among with old | rfl
    · exact List.mem_flatten.2 ⟨parcel, old, inside⟩
    · exact List.mem_flatten.2 ⟨_, List.mem_of_getElem? here, List.mem_cons_of_mem f inside⟩
  · refine fewer fun g mem => ?_
    obtain ⟨parcel, among, inside⟩ := List.mem_flatten.1 mem
    exact List.mem_flatten.2 ⟨parcel, List.mem_of_mem_eraseIdx among, inside⟩
  · exact grounded

/-- A ticker that begins holds nothing, and one that is given up neither. -/
theorem withTicker {ticker : Option Ticker} (free : (ticker.map Ticker.unsent).getD [] = []) :
    { s with ticker := ticker }.Grounded := by
  refine grounded.hold grounded.manager fun f mem => ?_
  unfold Session.held tickerHeld at mem
  rw [free] at mem
  exact List.mem_append_right _ mem

/-! ### Steps and requests -/

/-- Every step for which paths come from URLs keeps all paths absolute. -/
private theorem step {a : Step} (named : a.Named) : (s.step a).Grounded := by
  cases a with
  | lint a keeps =>
    refine grounded.withManager (grounded.manager.act ?_)
    cases a with
    | visible document => exact Url.Names.isAbsolute named
    | close document => exact Url.Names.isAbsolute named
    | setRoots roots => exact fun root mem => Url.Names.isAbsolute (named root mem)
    | _ => trivial
  | announce => exact grounded.announce
  | tick => exact grounded.tick
  | sendFromTicker => exact grounded.sendFromTicker
  | takeParcel => exact grounded.takeParcel
  | sendFromParcel index => exact grounded.sendFromParcel index
  | startTicker => exact grounded.withTicker rfl
  | stopTicker => exact grounded.withTicker rfl
  | closing => exact grounded.congr rfl rfl

private theorem configure {roots : List Path} (named : ∀ root ∈ roots, Url.Names root)
    (loaded : Except String LintSettings) : (s.configure roots loaded).Grounded := by
  have rooted : (s.manager.setRoots roots).Grounded :=
    grounded.manager.act (a := .setRoots roots) fun root mem => (named root mem).isAbsolute
  unfold Session.configure
  dsimp only
  split
  · rename_i settings
    have renewed := rooted.act (a := .reconfigure settings fun _ => 0) trivial
    exact grounded.withManager (renewed.deliver _)
  · exact (grounded.withManager rooted).send _

private theorem aboutDocument (r : Request) (isWell : Bool) {f : Path → Session σ}
    (does : ∀ p, Url.Names p → (f p).Grounded) : (s.aboutDocument r isWell f).Grounded := by
  unfold Session.aboutDocument
  split
  · split
    · rename_i p found
      obtain ⟨url, read, leads⟩ := Option.bind_eq_some_iff.1 found
      exact does p ⟨url, readable_of_documentUrl? read, leads⟩
    · exact grounded
  · exact grounded

private theorem see {document : Path} (named : Url.Names document) : (s.see document).Grounded := by
  have submitted := grounded.manager.act (a := .visible document) named.isAbsolute
  exact grounded.withManager (submitted.deliver _)

private theorem close {document : Path} (named : Url.Names document) :
    (s.close document).Grounded :=
  (grounded.withManager (grounded.manager.act (a := .close document) named.isAbsolute)).takeParcel

private theorem shutdown : s.shutdown.Grounded := by
  have stopped : { s with ticker := none }.Grounded := grounded.withTicker rfl
  exact (stopped.withManager (grounded.manager.act (a := .shutdown) trivial)).takeParcel

private theorem notified (r : Request) : (s.notified r).Grounded := by
  unfold Session.notified
  split
  · split
    · exact grounded.withTicker rfl
    · exact grounded
  split
  · exact grounded.aboutDocument r _ fun _ named => grounded.see named
  split
  · exact grounded.aboutDocument r _ fun _ named => grounded.see named
  split
  · exact grounded.aboutDocument r _ fun _ named => grounded.close named
  · exact grounded

private theorem opening (load : Loader) (r : Request) : (s.opening load r).2.Grounded := by
  unfold Session.opening
  split
  · exact grounded
  · split
    · exact grounded
    · rename_i roots read
      exact (grounded.configure (names_of_rootsFromParams read) _).congr rfl rfl
  · exact grounded

private theorem closing (r : Request) : (s.closing r).2.Grounded := by
  have asked : { s with stage := .closing }.Grounded := grounded.congr rfl rfl
  unfold Session.closing
  split
  · dsimp only
    split
    · exact asked
    · exact asked
    · exact asked.shutdown
  · exact grounded

/-- Whatever the editor asks for, all paths stay absolute. -/
private theorem receive (load : Loader) (r : Request) : (s.receive load r).2.Grounded := by
  unfold Session.receive
  split
  · exact grounded
  split
  · exact grounded.opening load r
  split
  · exact grounded.closing r
  split
  · exact grounded.congr rfl rfl
  split
  · split
    · dsimp only
      split
      · exact grounded.notified r
      · exact grounded
    · exact grounded
  -- All other requests get an answer and change nothing.
  · repeat' split
    all_goals exact grounded

private theorem happen (h : Happening) : (s.happen h).Grounded := by
  cases h with
  | request load r => exact grounded.receive load r
  | step a named => exact grounded.step named

private theorem happenAll (happenings : List Happening) : (s.happenAll happenings).Grounded := by
  induction happenings generalizing s with
  | nil => exact grounded
  | cons h rest ih => exact ih (grounded.happen h)

end Grounded

/-- Whatever the editor asks for and whatever the compiler prints, in whatever order the tasks go
on: every workspace root and every tracked document is absolute, every report is read below an
absolute directory, every published and every changed path is absolute, and each change that was
taken and not sent has a message that gives it to the editor. -/
theorem every_change_has_a_url (runner : σ) (happenings : List Happening) :
    let s := (new runner).happenAll happenings
    (∀ root ∈ s.manager.roots, root.isAbsolute = true) ∧
    (∀ document ∈ s.manager.tracked.keys, document.isAbsolute = true) ∧
    (∀ p ∈ s.manager.pipelines, ∀ t, p.Holds t →
      (LintSettings.baseDirFor p.document t.root).isAbsolute = true) ∧
    (∀ e ∈ s.manager.queue ++ s.manager.waiting, ∀ outcome, e.result = .ok outcome →
      outcome.baseDir.isAbsolute = true) ∧
    (∀ p ∈ s.manager.published.files.keys, p.isAbsolute = true) ∧
    (∀ p ∈ s.manager.published.changed.keys, p.isAbsolute = true) ∧
    ∀ f ∈ s.held, ∃ message, Message.ofFile? f = some message := by
  intro s
  have grounded : s.Grounded := (grounded_new runner).happenAll happenings
  have manager := grounded.manager
  refine ⟨manager.roots, fun document mem => ?_, fun p mem t holds => ?_,
    fun e mem => (manager.events e mem).result, manager.published.files, manager.published.changed,
    fun f mem => ?_⟩
  · obtain ⟨e, among, rfl⟩ := List.mem_map.1 mem
    exact (manager.tracked e among).1
  · obtain ⟨e, among, rfl⟩ := List.mem_map.1 mem
    have pipeline := (manager.tracked e among).2
    exact isAbsolute_baseDirFor pipeline.document (pipeline.of_holds holds)
  · obtain ⟨url, named⟩ := Url.exists_ofPath?_iff.2 (grounded.held f mem)
    exact ⟨_, by rw [Message.ofFile?, named]; rfl⟩

end Session

end ModBench.Editor
