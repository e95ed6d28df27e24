import ModBench.Proofs.Project.Replace

/-!
Packaging is all or nothing.  If it fails the disk is as it was, but that a file or a link in the
backup's place may be gone where the system keeps the archive that is there.  If it succeeds the
archive is in its place and nothing else differs, unless a directory stood there: then that
directory, with all in it, stands in the place of the backup.
-/

set_option autoImplicit false
set_option relaxedAutoImplicit false

namespace ModBench

open Files (Disk Tree Place Name Node Content ArchiveEntry stepsOf lookupSteps)

namespace Package

variable {d d' : Disk} {l : ModLayout} {left : Nat} {D : Place} {es : List ArchiveEntry}

private theorem freshName_ne_entryName (l : ModLayout) {ending : String} {b : UInt8}
    (last : (Text.encodeString ending).getLast? = some b) (other : b ≠ 0x5f) (d : Disk) {p : Path}
    (filled : p.bytes ≠ []) : freshName d p ≠ l.entryName ending := by
  intro same
  have positive := List.length_pos_iff.2 filled
  have count : p.bytes.length + writtenTotal d.tree + d.pinned.flatten.flatten.length ≠ 0 := by
    omega
  have ends := congrArg List.getLast? same
  unfold freshName ModLayout.entryName at ends
  rw [Text.encodeString_append, List.getLast?_append, List.getLast?_append, last,
    List.getLast?_replicate, if_neg count] at ends
  exact other (Option.some.inj ends).symm

/-- The temporary file has the place of neither the archive nor the backup. -/
theorem unrelated_freshName (coherent : l.Coherent) (d : Disk) (D : Place) :
    Tree.Unrelated (D ++ [freshName d l.modDir]) (l.entryPlace ".zip" D) ∧
      Tree.Unrelated (D ++ [freshName d l.modDir]) (l.entryPlace ".bak" D) :=
  ⟨Tree.unrelated_of_ne (freshName_ne_entryName l (b := 0x70) (by decide) (by decide) d
      coherent.modDir_filled) D,
    Tree.unrelated_of_ne (freshName_ne_entryName l (b := 0x6b) (by decide) (by decide) d
      coherent.modDir_filled) D⟩

/-- What packaging may change: the archive, which now holds these entries, and a directory that was
in its place. -/
inductive Packaged (d d' : Disk) (l : ModLayout) (D : Place) (es : List ArchiveEntry) : Prop
  | plain (real : d.tree.find? (l.entryPlace ".zip" D) ≠ some .directory)
    (archived : Archived d d' (l.entryPlace ".zip" D) es)
  | aside (housed : d.tree.find? (l.entryPlace ".zip" D) = some .directory)
    (moved : SetAside d d' (l.entryPlace ".zip" D) (l.entryPlace ".bak" D) es)

section

variable (order : d.tree.InOrder) (coherent : l.Coherent) (opens : d.Opens l.modDir left D)

include order coherent opens

/-- If the archive is written nothing else differs but for a directory that was in the way. -/
private theorem packaged_of_persist
    (done : persist (d.put (D ++ [freshName d l.modDir]) (.file (.archive es))) l
      ⟨l.modDir, freshName d l.modDir⟩ = (.ok (), d')) : Packaged d d' l D es := by
  have unused := unused_freshName d l.modDir
  have loose := freshName_not_pinned d l.modDir D
  obtain ⟨not_zip, not_bak⟩ := unrelated_freshName coherent d D
  by_cases reach : l.Reachable ".zip"
  · by_cases pinned : l.entryPlace ".zip" D ∈ d.pinned
    · obtain ⟨fault, after, failed⟩ := persist_pinned_fails es order coherent unused not_zip not_bak
        opens reach pinned
      rw [failed] at done
      cases done
    by_cases housed : d.tree.find? (l.entryPlace ".zip" D) = some .directory
    · rw [persist_eq_replace coherent unused not_zip loose pinned opens reach housed] at done
      exact .aside housed (setAside_of_replace order coherent unused not_zip not_bak loose pinned
        opens reach housed done)
    · obtain ⟨after, ok, archived⟩ :=
        persist_plain coherent opens unused loose es order not_zip reach housed pinned
      rw [ok] at done
      obtain rfl := (Prod.mk.inj done).2
      exact .plain housed archived
  · obtain ⟨fault, failed⟩ :=
      persist_unreachable coherent opens unused (.file (.archive es)) reach
    rw [failed] at done
    cases done

end

/-- Packaging fails and changes nothing, or there are entries for the archive and the rest is to put
the file that holds them in its place. -/
theorem packageMod_cases (order : d.tree.InOrder) {script : Path}
    {result : Except ProjectFault Path} (done : packageMod d script = (result, d')) :
    (∃ fault, result = .error fault ∧ d' = d) ∨
    ∃ l left D es written, ModLayout.ofScript script = .ok l ∧ d.Opens l.modDir left D ∧
      entries d l = .ok es ∧
      persist (d.put (D ++ [freshName d l.modDir]) (.file (.archive es))) l
        ⟨l.modDir, freshName d l.modDir⟩ = (written, d') ∧
      result = match written with
        | .ok () => .ok l.archive
        | .error fault => .error (.files .write l.archive fault) := by
  unfold packageMod at done
  cases laid : ModLayout.ofScript script with
  | error fault =>
    rw [laid] at done
    obtain ⟨rfl, rfl⟩ := Prod.mk.inj done
    exact Or.inl ⟨fault, rfl, rfl⟩
  | ok l =>
    have coherent := ModLayout.coherent_of_script laid
    rw [laid] at done
    dsimp only at done
    cases opened : openTemporary d l.modDir with
    | error fault =>
      rw [opened] at done
      obtain ⟨rfl, rfl⟩ := Prod.mk.inj done
      exact Or.inl ⟨_, rfl, rfl⟩
    | ok temporary =>
      obtain ⟨temporary, place⟩ := temporary
      obtain ⟨left, D, opens, rfl, rfl⟩ := openTemporary_eq_ok opened
      have unused := unused_freshName d l.modDir
      have apart := apart_freshName coherent opens
      have same := entries_put (.file Content.empty) order coherent opens apart
      rw [opened] at done
      dsimp only at done
      rw [same] at done
      cases read : entries d l with
      | error fault =>
        rw [read] at done
        dsimp only at done
        rw [discard_put unused opens] at done
        obtain ⟨rfl, rfl⟩ := Prod.mk.inj done
        exact Or.inl ⟨fault, rfl, rfl⟩
      | ok es =>
        have again : (d.put (D ++ [freshName d l.modDir]) (.file Content.empty)).put
            (D ++ [freshName d l.modDir]) (.file (.archive es)) =
            d.put (D ++ [freshName d l.modDir]) (.file (.archive es)) :=
          congrArg d.withTree (Tree.put_put (by simp) (unused.new D) _ _)
        rw [read] at done
        dsimp only at done
        rw [again] at done
        right
        generalize moved : persist _ l _ = outcome at done
        obtain ⟨written, after⟩ := outcome
        cases written with
        | error fault =>
          obtain ⟨rfl, rfl⟩ := Prod.mk.inj done
          exact ⟨l, left, D, es, _, rfl, opens, read, moved, rfl⟩
        | ok =>
          obtain ⟨rfl, rfl⟩ := Prod.mk.inj done
          exact ⟨l, left, D, es, _, rfl, opens, read, moved, rfl⟩

theorem packageMod_isOk (d : Disk) (script : Path) :
    ((packageMod d script).1.isOk = true →
      ∃ archive, packageMod d script = (.ok archive, (packageMod d script).2)) ∧
    ((packageMod d script).1.isOk = false →
      ∃ fault, packageMod d script = (.error fault, (packageMod d script).2)) := by
  generalize packageMod d script = outcome
  obtain ⟨result, after⟩ := outcome
  cases result with
  | error fault => exact ⟨fun ok => (Bool.noConfusion ok), fun _ => ⟨fault, rfl⟩⟩
  | ok archive => exact ⟨fun _ => ⟨archive, rfl⟩, fun failed => (Bool.noConfusion failed)⟩

/-- What has changed once the archive is written. -/
theorem packaged_of_ok (order : d.tree.InOrder) {script archive : Path}
    (done : packageMod d script = (.ok archive, d')) :
    ∃ l D es, ModLayout.ofScript script = .ok l ∧ archive = l.archive ∧
      d.locate l.modDir = .ok D ∧ entries d l = .ok es ∧ Packaged d d' l D es := by
  rcases packageMod_cases order done with ⟨_, failed, _⟩ |
    ⟨l, left, D, es, written, laid, opens, read, persisted, result⟩
  · cases failed
  · cases written with
    | error fault => cases result
    | ok =>
      have coherent := ModLayout.coherent_of_script laid
      exact ⟨l, D, es, laid, Except.ok.inj result, opens.locate, read,
        packaged_of_persist order coherent opens persisted⟩

end Package

namespace Package

def placeOf (path : String) : Place :=
  stepsOf (.ofString path)

def blockedScript : Path := .ofString "m/r6/scripts/a.reds"

end Package

end ModBench
