import GpsBase.Lib.Machine
import GpsBase.Rinex.Sessions
import GpsBase.Storage.Removal
import GpsBase.Storage.SdDelete

/-! # The file being written

The logger, the delete jobs and the requests for single files work on one card in any order. `step` is
one call of one of them; an epoch is a rotation, the opening of a file and a write, a stop is the flag
and the closing. -/

namespace GpsBase.Storage.ActiveFile

open GpsBase.Lib GpsBase.Lib.CText GpsBase.Lib.Binary64 GpsBase.Rinex.Logger GpsBase.Storage.Card
  GpsBase.Storage.SdManager GpsBase.Storage.Removal GpsBase.Storage.SdDelete
open GpsBase.Lib.Binary64.Float64 (ofInt)
open GpsBase.Rinex.Sessions (sampleClib)

/-! ### The state -/

/-- A delete job with its own list of paths; it runs once its task is created. -/
structure Job where
  frames : List Frame
  running : Bool := false
  res : DeleteResult := {}
  progress : ℕ := 0

/-- The card, the logger and the delete jobs. -/
structure World where
  mounted : Bool
  tree : FileTree
  logger : RinexLogger
  jobs : List Job

namespace World

/-- The file `rinex_status` names while it says that the logger is active. -/
def activeFile (s : World) : Option Place :=
  if s.logger.active && !s.logger.currentFile.isEmpty then some (place s.logger.currentFile) else none

def busy (s : World) : Bool := s.jobs.any fun j => j.running && !j.frames.isEmpty

/-- The job `k` with its next frame. -/
def top (s : World) (k : ℕ) : Option (Job × Frame × List Frame) :=
  s.jobs[k]?.bind fun j =>
    match j.frames with
    | f :: fs => if j.running then some (j, f, fs) else none
    | [] => none

end World

/-! ### Steps -/

def Grows (t t' : FileTree) : Prop := ∀ n ∈ t.nodes, ∃ n' ∈ t'.nodes, n'.place = n.place

/-- Nothing is gone but what was at a place or below it. -/
def Moves (p : Place) (t t' : FileTree) : Prop :=
  ∀ n ∈ t.nodes, p.Below n.place ∨ ∃ n' ∈ t'.nodes, n'.place = n.place

instance (t t' : FileTree) : Decidable (Grows t t') := by
  unfold Grows
  infer_instance

instance (p : Place) (t t' : FileTree) : Decidable (Moves p t t') := by
  unfold Moves
  infer_instance

/-- What happens next. A call that makes a file or renames one comes with the tree it leaves. -/
inductive Input
  | rinexStart (lat lon height : Float64) (antModel antRadome : List UInt8) (antDeltaH : Float64)
  | rotate (week : ℤ) (tow : Float64)
  | openFile (week : ℤ) (tow : Float64) (sats : List SatObs) (t : FileTree)
  | writeEpoch (week : ℤ) (tow : Float64) (sats : List SatObs)
  | deactivate
  | closeFile
  | change (t : FileTree)
  | filesDelete (path : List UInt8)
  | filesRename (src dst : List UInt8) (t : Option FileTree)
  | start (paths : List (Option (List UInt8)))
  | launch (k : ℕ)
  | work (k : ℕ)

/-- The handler of `/files/delete` lets a path pass. -/
def deletes (path : List UInt8) : Bool := !path.isEmpty && safePath path

/-- The handler of `/files/rename` and `rename_entry` let two paths pass. -/
def renames (s : World) (src dst : List UInt8) : Bool :=
  !src.isEmpty && !dst.isEmpty && safePath src && safePath dst && s.mounted

/-- `start` up to the creation of the task. -/
def starts (s : World) (paths : List (Option (List UInt8))) : Bool :=
  s.mounted && !s.busy && !blocksActiveFile s.logger.active s.logger.currentFile paths &&
    !(paths.filterMap id).isEmpty

def newFile (c : Clib) (week : ℤ) (tow : Float64) : Place :=
  place (RinexLogger.fileName c (gpsToCalendar c week tow))

def step (c : Clib) (s : World) : Input → Option World
  | .rinexStart lat lon height antModel antRadome antDeltaH =>
    some { s with logger := s.logger.start c lat lon height antModel antRadome antDeltaH }
  | .rotate week tow => some { s with logger := s.logger.rotateIfNeeded c week tow }
  | .openFile week tow sats t =>
    if s.logger.active = true ∧ s.logger.file.isNone = true ∧ Grows s.tree t ∧
        (s.logger.opens 0 = true → ∃ n ∈ t.nodes, n.place = newFile c week tow ∧ n.kind ≠ .dir) then
      some { s with
        logger := { s.logger with presentMask := systemMask sats }.openFile c week tow, tree := t }
    else none
  | .writeEpoch week tow sats => some { s with logger := s.logger.writeEpoch c week tow sats }
  | .deactivate => some { s with logger := { s.logger with active := false } }
  | .closeFile => some { s with logger := s.logger.closeFile c }
  | .change t => if Grows s.tree t then some { s with tree := t } else none
  | .filesDelete path =>
    if deletes path then some { s with tree := (deleteEntry s.mounted s.tree (some path)).2 } else some s
  | .filesRename src dst res =>
    match renames s src dst, res with
    | true, some t => if Moves (place src) s.tree t then some { s with tree := t } else none
    | _, _ => some s
  | .start paths =>
    if starts s paths then
      some { s with jobs := s.jobs ++ [{ frames := [.batch (paths.filterMap id)] }] }
    else some s
  | .launch k => s.jobs[k]?.map fun j => { s with jobs := s.jobs.set k { j with running := true } }
  | .work k => (s.top k).map fun (j, f, fs) =>
    let (d, new) :=
      SdDelete.work s.mounted f { tree := s.tree, res := j.res, progress := j.progress }
    { s with
      tree := d.tree
      jobs := s.jobs.set k { j with frames := new ++ fs, res := d.res, progress := d.progress } }

/-- The places that a step unlinks or renames. -/
def touched (s : World) : Input → List Place
  | .filesDelete path =>
    if deletes path && (deleteEntry s.mounted s.tree (some path)).1 then [place path] else []
  | .filesRename src dst res => if renames s src dst && res.isSome then [place src] else []
  | .work k => (s.top k).elim [] fun (_, f, _) => f.unlinks s.tree
  | _ => []

/-- **The file being written is kept** in a step: neither it nor a directory that contains it is
unlinked or renamed. -/
def Kept (s : World) (i : Input) : Prop :=
  ∀ p ∈ s.activeFile, ∀ q ∈ touched s i, ¬ q.Below p

/-! ### What is dangerous -/

/-- A frame that will lead to a file: its place is on the list, at or above what is to be visited, or is
what is to be unlinked. -/
def Frame.Threatens (p : Place) : Frame → Prop
  | .batch paths => (∀ path ∈ paths, ¬ refused (some path) = true) ∧ ∃ path ∈ paths, (place path).Below p
  | .visit path _ => (place path).Below p
  | .list path _ => (place path).Below p
  | .unlink path => place path = p
  | .finish path keepShell => keepShell = false ∧ place path = p

/-- **The condition on a step**: a request for a single file does not name the file being written, a new
job does not lead to it, and a file is opened only where no job leads. -/
def Avoids (c : Clib) (s : World) : Input → Prop
  | .openFile week tow _ _ => s.logger.opens 0 = true → ∀ j ∈ s.jobs, ∀ f ∈ j.frames,
      ¬ Frame.Threatens (newFile c week tow) f
  | .filesDelete path => deletes path = true → ∀ p ∈ s.activeFile, place path ≠ p
  | .filesRename src dst _ => renames s src dst = true → ∀ p ∈ s.activeFile, ¬ (place src).Below p
  | .start paths => starts s paths = true → ∀ p ∈ s.activeFile,
      ¬ Frame.Threatens p (.batch (paths.filterMap id))
  | _ => True

/-- The file being written is there, and no job leads to it. -/
def Inv (s : World) : Prop := ∀ p ∈ s.activeFile,
  (∃ n ∈ s.tree.nodes, n.place = p) ∧ ∀ j ∈ s.jobs, ∀ f ∈ j.frames, ¬ Frame.Threatens p f

/-! ### The card -/

/-- **`unlink` spares what a directory contains.** -/
theorem not_below_of_unlink {t t' : FileTree} {path : List UInt8} (h : Card.unlink t path = .ok t')
    {n : Node} (hn : n ∈ t.nodes) (hne : place path ≠ n.place) : ¬ (place path).Below n.place := by
  intro hbelow
  obtain ⟨name, hname, -⟩ := exists_child _ hn le_rfl hbelow hne
  rw [children_of_unlink h] at hname
  cases hname

theorem mem_unlinks {t : FileTree} {f : Frame} {q : Place} (h : q ∈ f.unlinks t) :
    ∃ path t', Card.unlink t path = .ok t' ∧ q = place path ∧
      (f = .unlink path ∨ f = .finish path false) := by
  have hok : ∀ path, q ∈ (if (Card.unlink t path).toBool then [place path] else []) →
      ∃ t', Card.unlink t path = .ok t' ∧ q = place path := by
    intro path hq
    rcases hunlink : Card.unlink t path with e | t'
    · rw [hunlink] at hq
      cases hq
    · rw [hunlink] at hq
      exact ⟨t', rfl, List.mem_singleton.mp hq⟩
  unfold Frame.unlinks at h
  split at h
  · next path =>
    obtain ⟨t', hunlink, hq⟩ := hok path h
    exact ⟨path, t', hunlink, hq, Or.inl rfl⟩
  · next path keepShell =>
    cases keepShell with
    | true => cases h
    | false =>
      obtain ⟨t', hunlink, hq⟩ := hok path h
      exact ⟨path, t', hunlink, hq, Or.inr rfl⟩
  · cases h

/-- A frame that does not threaten a file that is there leaves it and its directories alone. -/
theorem not_below_of_unlinks {t : FileTree} {f : Frame} {n : Node} (hn : n ∈ t.nodes)
    (hthreat : ¬ Frame.Threatens n.place f) {q : Place} (hq : q ∈ f.unlinks t) : ¬ q.Below n.place := by
  obtain ⟨path, t', hunlink, rfl, hf⟩ := mem_unlinks hq
  refine not_below_of_unlink hunlink hn fun hplace => hthreat ?_
  rcases hf with rfl | rfl
  · exact hplace
  · exact ⟨rfl, hplace⟩

theorem work_tree (mounted : Bool) (f : Frame) (s : Deleting) {n : Node} (hn : n ∈ s.tree.nodes) :
    n ∈ (work mounted f s).1.tree.nodes ∨ n.place ∈ f.unlinks s.tree := by
  have hunlink : ∀ path, n ∈ (s.unlink path).tree.nodes ∨
      n.place ∈ (if (Card.unlink s.tree path).toBool then [place path] else []) := by
    intro path
    by_cases hplace : n.place = place path
    · unfold Deleting.unlink
      rcases Card.unlink s.tree path with e | t'
      · exact Or.inl hn
      · exact Or.inr (List.mem_singleton.mpr hplace)
    · by_contra hgone
      rw [not_or] at hgone
      exact hplace ((shrinks_unlink s path).removed n hn hgone.1)
  cases f with
  | batch paths =>
    refine Or.inl ?_
    rw [work]
    split_ifs
    · exact hn
    · split
      · exact hn
      · exact hn
  | visit path keepShell =>
    refine Or.inl ?_
    rw [work]
    split
    · exact hn
    · exact hn
    · exact hn
  | list path keepShell =>
    refine Or.inl ?_
    rw [work]
    split_ifs
    · exact hn
    · exact hn
  | unlink path => exact hunlink path
  | finish path keepShell =>
    cases keepShell with
    | true => exact Or.inl hn
    | false => exact hunlink path

/-- **A frame that threatens nothing leaves none that does.** -/
theorem work_threatens {mounted : Bool} {f : Frame} {s : Deleting} {p : Place}
    (h : ¬ Frame.Threatens p f) : ∀ g ∈ (work mounted f s).2, ¬ Frame.Threatens p g := by
  intro g hg
  cases f with
  | batch paths =>
    rw [work] at hg
    split_ifs at hg
    · cases hg
    · split at hg
      · cases hg
      · next hnone =>
        obtain ⟨path, hpath, rfl⟩ := List.mem_map.mp hg
        exact fun hbelow => h ⟨List.find?_eq_none.mp hnone, path, hpath, hbelow⟩
  | visit path keepShell =>
    rw [work] at hg
    split at hg
    · cases hg
    · obtain rfl := List.mem_singleton.mp hg
      exact h
    · obtain rfl := List.mem_singleton.mp hg
      rintro (rfl : place path = p)
      exact h (Place.Below.refl _)
  | list path keepShell =>
    rw [work] at hg
    split_ifs at hg with hsafe
    · cases hg
    · have hcard : onCard path = true := onCard_of_safePath (by simpa using hsafe)
      rcases List.mem_append.mp hg with hg | hg
      · obtain ⟨name, hname, rfl⟩ := List.mem_map.mp hg
        have hvalid := valid_children (List.mem_filter.mp hname).1
        intro hbelow
        rw [Frame.Threatens, place_child hcard hvalid] at hbelow
        exact h ((Place.below_child _ name).trans hbelow)
      · obtain rfl := List.mem_singleton.mp hg
        rintro ⟨-, rfl⟩
        exact h (Place.Below.refl _)
  | unlink path => cases hg
  | finish path keepShell => cases hg

/-! ### The logger -/

/-- The logger names no file it did not name before. -/
def Quiet (l l' : RinexLogger) : Prop :=
  l'.active = true → l'.currentFile ≠ [] → l.active = true ∧ l.currentFile = l'.currentFile

theorem quiet_closeFile (c : Clib) (l : RinexLogger) : Quiet l (l.closeFile c) := by
  unfold RinexLogger.closeFile
  split
  · exact fun hactive _ => ⟨hactive, rfl⟩
  · exact fun _ hfile => absurd rfl hfile

theorem quiet_rotate (c : Clib) (l : RinexLogger) (week : ℤ) (tow : Float64) :
    Quiet l (l.rotateIfNeeded c week tow) := by
  unfold RinexLogger.rotateIfNeeded
  split_ifs
  · exact fun hactive _ => ⟨hactive, rfl⟩
  · dsimp only
    split_ifs
    · exact quiet_closeFile c l
    · exact fun hactive _ => ⟨hactive, rfl⟩

theorem quiet_start (c : Clib) (l : RinexLogger) (lat lon height : Float64)
    (antModel antRadome : List UInt8) (antDeltaH : Float64) :
    Quiet l (l.start c lat lon height antModel antRadome antDeltaH) := by
  unfold RinexLogger.start
  by_cases h : l.active = true
  · rw [if_pos h]
    exact fun hactive _ => ⟨hactive, rfl⟩
  · rw [if_neg h]
    exact fun _ hfile => absurd rfl hfile

theorem quiet_writeEpoch (c : Clib) (l : RinexLogger) (week : ℤ) (tow : Float64) (sats : List SatObs) :
    Quiet l (l.writeEpoch c week tow sats) := by
  unfold RinexLogger.writeEpoch
  split
  · exact fun hactive _ => ⟨hactive, rfl⟩
  · dsimp only
    split_ifs <;> exact fun hactive _ => ⟨hactive, rfl⟩

/-- After the opening of a file the logger names that file, if there is one. -/
theorem openFile_status (c : Clib) (l : RinexLogger) (week : ℤ) (tow : Float64) :
    (l.openFile c week tow).currentFile =
        (if l.opens 0 then RinexLogger.fileName c (gpsToCalendar c week tow) else l.currentFile) ∧
      (l.openFile c week tow).active = l.active := by
  unfold RinexLogger.openFile
  dsimp only
  cases l.opens 0 with
  | true => exact ⟨rfl, rfl⟩
  | false => exact ⟨rfl, rfl⟩

theorem mem_activeFile {s : World} {p : Place} : p ∈ s.activeFile ↔
    s.logger.active = true ∧ s.logger.currentFile ≠ [] ∧ place s.logger.currentFile = p := by
  unfold World.activeFile
  rw [Option.mem_def]
  by_cases h : s.logger.active = true ∧ s.logger.currentFile ≠ []
  · rw [if_pos (by simpa using h), Option.some.injEq]
    exact ⟨fun heq => ⟨h.1, h.2, heq⟩, fun heq => heq.2.2⟩
  · rw [if_neg (by simpa using h)]
    exact ⟨fun hsome => (by cases hsome), fun hall => absurd ⟨hall.1, hall.2.1⟩ h⟩

theorem Inv.quiet {s : World} (h : Inv s) {l : RinexLogger} (hquiet : Quiet s.logger l) :
    Inv { s with logger := l } := by
  intro p hp
  obtain ⟨hactive, hfile, hplace⟩ := mem_activeFile.mp hp
  obtain ⟨hactive', hfile'⟩ := hquiet hactive hfile
  refine h p (mem_activeFile.mpr ⟨hactive', ?_, ?_⟩)
  · rw [hfile']
    exact hfile
  · rw [hfile']
    exact hplace

/-! ### Steps -/

theorem top_eq_some {s : World} {k : ℕ} {j : Job} {f : Frame} {fs : List Frame}
    (h : s.top k = some (j, f, fs)) : j ∈ s.jobs ∧ j.frames = f :: fs := by
  unfold World.top at h
  obtain ⟨j', hj', h⟩ := Option.bind_eq_some_iff.mp h
  split at h
  · next f' fs' hframes =>
    split_ifs at h
    cases h
    exact ⟨List.mem_of_getElem? hj', hframes⟩
  · cases h

theorem deleteEntry_eq (mounted : Bool) (t : FileTree) (path : List UInt8) :
    (∃ t', Card.unlink t path = .ok t' ∧ deleteEntry mounted t (some path) = (true, t')) ∨
      deleteEntry mounted t (some path) = (false, t) := by
  unfold deleteEntry
  dsimp only
  split_ifs
  · exact Or.inr rfl
  · exact Or.inr rfl
  · split
    · exact Or.inr rfl
    · split
      · next t' hunlink => exact Or.inl ⟨t', hunlink, rfl⟩
      · exact Or.inr rfl

/-- **A step that meets the condition keeps the file being written.** -/
theorem kept_of_inv {c : Clib} {s : World} {i : Input} (h : Inv s) (hC : Avoids c s i) : Kept s i := by
  intro p hp q hq
  obtain ⟨⟨n, hn, rfl⟩, hjobs⟩ := h p hp
  cases i with
  | filesDelete path =>
    unfold touched at hq
    dsimp only at hq
    split_ifs at hq with hpass
    · obtain ⟨hdeletes, hok⟩ := Bool.and_eq_true_iff.mp hpass
      obtain rfl := List.mem_singleton.mp hq
      rcases deleteEntry_eq s.mounted s.tree path with ⟨t', hunlink, -⟩ | hfail
      · exact not_below_of_unlink hunlink hn (hC hdeletes _ hp)
      · rw [hfail] at hok
        cases hok
    · cases hq
  | filesRename src dst res =>
    unfold touched at hq
    dsimp only at hq
    split_ifs at hq with hpass
    · obtain ⟨hrenames, -⟩ := Bool.and_eq_true_iff.mp hpass
      obtain rfl := List.mem_singleton.mp hq
      exact hC hrenames _ hp
    · cases hq
  | work k =>
    unfold touched at hq
    dsimp only at hq
    rcases htop : s.top k with _ | ⟨j, f, fs⟩
    · rw [htop] at hq
      cases hq
    · rw [htop] at hq
      obtain ⟨hj, hframes⟩ := top_eq_some htop
      exact not_below_of_unlinks hn (hjobs j hj f (hframes ▸ List.mem_cons_self)) hq
  | _ => cases hq

/-- **What goes away is touched**: a node whose place is empty after a step was at or below a place that
the step unlinks or renames. -/
theorem gone_touched {c : Clib} {s s' : World} {i : Input} (h : step c s i = some s') {n : Node}
    (hn : n ∈ s.tree.nodes) :
    (∃ n' ∈ s'.tree.nodes, n'.place = n.place) ∨ ∃ q ∈ touched s i, q.Below n.place := by
  have hsame : s'.tree = s.tree → ∃ n' ∈ s'.tree.nodes, n'.place = n.place :=
    fun heq => ⟨n, heq ▸ hn, rfl⟩
  cases i with
  | openFile week tow sats t =>
    unfold step at h
    dsimp only at h
    split_ifs at h with hpre
    cases h
    exact Or.inl (hpre.2.2.1 n hn)
  | change t =>
    unfold step at h
    dsimp only at h
    split_ifs at h with hgrows
    cases h
    exact Or.inl (hgrows n hn)
  | filesDelete path =>
    unfold step at h
    dsimp only at h
    split_ifs at h with hdeletes
    · cases h
      unfold touched
      dsimp only
      rcases deleteEntry_eq s.mounted s.tree path with
        ⟨t', hunlink, hdelete⟩ | hfail
      · rw [hdelete, hdeletes, Bool.and_self, if_pos rfl]
        by_cases hmem : n ∈ t'.nodes
        · exact Or.inl ⟨n, hmem, rfl⟩
        · have hplace := (shrinks_of_unlink hunlink).removed n hn hmem
          exact Or.inr ⟨_, List.mem_singleton_self _, hplace ▸ Place.Below.refl _⟩
      · rw [hfail]
        exact Or.inl ⟨n, hn, rfl⟩
    · cases h
      exact Or.inl (hsame rfl)
  | filesRename src dst res =>
    unfold step at h
    dsimp only at h
    split at h
    · next t hrenames =>
      split_ifs at h with hmoves
      cases h
      rcases hmoves n hn with hbelow | hkept
      · refine Or.inr ⟨place src, ?_, hbelow⟩
        unfold touched
        dsimp only
        rw [hrenames]
        exact List.mem_singleton_self _
      · exact Or.inl hkept
    · cases h
      exact Or.inl (hsame rfl)
  | start paths =>
    unfold step at h
    dsimp only at h
    split_ifs at h
    · cases h
      exact Or.inl (hsame rfl)
    · cases h
      exact Or.inl (hsame rfl)
  | launch k =>
    obtain ⟨j, -, rfl⟩ := Option.map_eq_some_iff.mp h
    exact Or.inl (hsame rfl)
  | work k =>
    obtain ⟨⟨j, f, fs⟩, htop, rfl⟩ := Option.map_eq_some_iff.mp h
    unfold touched
    dsimp only
    rw [htop]
    rcases work_tree s.mounted f { tree := s.tree, res := j.res, progress := j.progress } hn with
      hmem | hmem
    · exact Or.inl ⟨n, hmem, rfl⟩
    · exact Or.inr ⟨_, hmem, Place.Below.refl _⟩
  | _ =>
    cases h
    exact Or.inl (hsame rfl)

/-- A step leaves no dangerous job if it found none and starts none. -/
theorem jobs_step {s s' : World} {c : Clib} {i : Input} (h : step c s i = some s') {p : Place}
    (hjobs : ∀ j ∈ s.jobs, ∀ f ∈ j.frames, ¬ Frame.Threatens p f)
    (hstart : ∀ paths, i = .start paths → starts s paths = true →
      ¬ Frame.Threatens p (.batch (paths.filterMap id))) :
    ∀ j ∈ s'.jobs, ∀ f ∈ j.frames, ¬ Frame.Threatens p f := by
  cases i with
  | openFile week tow sats t =>
    unfold step at h
    dsimp only at h
    split_ifs at h
    cases h
    exact hjobs
  | change t =>
    unfold step at h
    dsimp only at h
    split_ifs at h
    cases h
    exact hjobs
  | filesDelete path =>
    unfold step at h
    dsimp only at h
    split_ifs at h
    · cases h
      exact hjobs
    · cases h
      exact hjobs
  | filesRename src dst res =>
    unfold step at h
    dsimp only at h
    split at h
    · split_ifs at h
      cases h
      exact hjobs
    · cases h
      exact hjobs
  | start paths =>
    unfold step at h
    dsimp only at h
    split_ifs at h with hstarts
    · cases h
      intro j hj f hf
      rcases List.mem_append.mp hj with hj | hj
      · exact hjobs j hj f hf
      · obtain rfl := List.mem_singleton.mp hj
        obtain rfl := List.mem_singleton.mp hf
        exact hstart paths rfl hstarts
    · cases h
      exact hjobs
  | launch k =>
    obtain ⟨j, hj, rfl⟩ := Option.map_eq_some_iff.mp h
    intro j' hj'
    rcases List.mem_or_eq_of_mem_set hj' with hj' | rfl
    · exact hjobs j' hj'
    · exact hjobs j (List.mem_of_getElem? hj)
  | work k =>
    obtain ⟨⟨j, f, fs⟩, htop, rfl⟩ := Option.map_eq_some_iff.mp h
    obtain ⟨hj, hframes⟩ := top_eq_some htop
    intro j' hj' g hg
    rcases List.mem_or_eq_of_mem_set hj' with hj' | rfl
    · exact hjobs j' hj' g hg
    · rcases List.mem_append.mp hg with hg | hg
      · exact work_threatens (hjobs j hj f (hframes ▸ List.mem_cons_self)) g hg
      · exact hjobs j hj g (hframes ▸ List.mem_cons_of_mem _ hg)
  | _ =>
    cases h
    exact hjobs

/-- **A step that meets the condition keeps the invariant.** -/
theorem inv_step {c : Clib} {s s' : World} {i : Input} (hI : Inv s) (hC : Avoids c s i)
    (h : step c s i = some s') : Inv s' := by
  have hcard : s'.logger = s.logger → Inv s' := by
    intro hlogger p hp
    have hp' : p ∈ s.activeFile := by
      rw [mem_activeFile] at hp ⊢
      rw [← hlogger]
      exact hp
    obtain ⟨⟨n, hn, rfl⟩, hjobs⟩ := hI p hp'
    refine ⟨?_, jobs_step h hjobs fun paths hi hstarts => ?_⟩
    · rcases gone_touched h hn with hthere | ⟨q, hq, hbelow⟩
      · exact hthere
      · exact absurd hbelow (kept_of_inv hI hC _ hp' q hq)
    · rw [hi] at hC
      exact hC hstarts _ hp'
  cases i with
  | rinexStart lat lon height antModel antRadome antDeltaH =>
    cases h
    exact hI.quiet (quiet_start c _ _ _ _ _ _ _)
  | rotate week tow =>
    cases h
    exact hI.quiet (quiet_rotate c _ _ _)
  | openFile week tow sats t =>
    have hjobs := fun (p : Place) hjobs => jobs_step (p := p) h hjobs (fun _ hi => by cases hi)
    unfold step at h
    dsimp only at h
    split_ifs at h with hpre
    obtain ⟨hactive, -, hgrows, hfile⟩ := hpre
    intro p hp
    obtain ⟨hname, -⟩ :=
      openFile_status c { s.logger with presentMask := systemMask sats } week tow
    have hlogger := congrArg World.logger (Option.some.inj h)
    rw [mem_activeFile, ← hlogger, hname] at hp
    dsimp only at hp
    obtain ⟨-, hne, hplace⟩ := hp
    have htree := congrArg World.tree (Option.some.inj h)
    cases hopens : s.logger.opens 0 with
    | true =>
      rw [hopens, if_pos rfl] at hplace
      obtain ⟨n, hn, hnew, -⟩ := hfile hopens
      refine ⟨⟨n, htree ▸ hn, hnew.trans hplace⟩, hjobs p ?_⟩
      rw [← hplace]
      exact hC hopens
    | false =>
      rw [hopens, if_neg Bool.false_ne_true] at hne hplace
      obtain ⟨⟨n, hn, hthere⟩, hfree⟩ := hI p (mem_activeFile.mpr ⟨hactive, hne, hplace⟩)
      obtain ⟨n', hn', hn'place⟩ := hgrows n hn
      exact ⟨⟨n', htree ▸ hn', hn'place.trans hthere⟩, hjobs p hfree⟩
  | writeEpoch week tow sats =>
    cases h
    exact hI.quiet (quiet_writeEpoch c _ _ _ _)
  | deactivate =>
    cases h
    exact hI.quiet fun hactive _ => absurd hactive Bool.false_ne_true
  | closeFile =>
    cases h
    exact hI.quiet (quiet_closeFile c _)
  | change t =>
    refine hcard ?_
    unfold step at h
    dsimp only at h
    split_ifs at h
    cases h
    rfl
  | filesDelete path =>
    refine hcard ?_
    unfold step at h
    dsimp only at h
    split_ifs at h <;> cases h <;> rfl
  | filesRename src dst res =>
    refine hcard ?_
    unfold step at h
    dsimp only at h
    split at h
    · split_ifs at h
      cases h
      rfl
    · cases h
      rfl
  | start paths =>
    refine hcard ?_
    unfold step at h
    dsimp only at h
    split_ifs at h <;> cases h <;> rfl
  | launch k =>
    obtain ⟨j, -, rfl⟩ := Option.map_eq_some_iff.mp h
    exact hcard rfl
  | work k =>
    obtain ⟨⟨j, f, fs⟩, -, rfl⟩ := Option.map_eq_some_iff.mp h
    exact hcard rfl

theorem inv_inactive {s : World} (h : s.logger.active = false) : Inv s := by
  intro p hp
  rw [(mem_activeFile.mp hp).1] at h
  cases h

/-! ### Every run -/

/-- **The file being written** is neither unlinked nor renamed, nor is a directory that contains it, in
any step of a run whose steps all meet the condition, and it is there after the run. -/
theorem active_file_kept (c : Clib) {s : World} (hinit : s.logger.active = false) {is : List Input}
    (h : Machine.Along (step c) (Avoids c) s is) :
    Machine.Along (step c) Kept s is ∧
      ∀ s', Machine.run (step c) s is = some s' → ∀ p ∈ s'.activeFile, ∃ n ∈ s'.tree.nodes, n.place = p :=
  ⟨Machine.along_of_invariant (fun _ _ _ hI hC hs => inv_step hI hC hs)
      (fun _ _ hI hC => kept_of_inv hI hC) is (inv_inactive hinit) h,
    fun _ hrun p hp => (Machine.run_invariant_along (fun _ _ _ hI hC hs => inv_step hI hC hs) is
      (inv_inactive hinit) h hrun p hp).1⟩

/-! ### Runs on a small card -/

instance (p : Place) : (f : Frame) → Decidable (Frame.Threatens p f)
  | .batch _ => inferInstanceAs (Decidable (_ ∧ _))
  | .visit path _ => inferInstanceAs (Decidable ((place path).Below p))
  | .list path _ => inferInstanceAs (Decidable ((place path).Below p))
  | .unlink path => inferInstanceAs (Decidable (place path = p))
  | .finish _ _ => inferInstanceAs (Decidable (_ ∧ _))

instance (c : Clib) (s : World) : (i : Input) → Decidable (Avoids c s i)
  | .openFile _ _ _ _ => inferInstanceAs (Decidable (_ → _))
  | .filesDelete _ => inferInstanceAs (Decidable (_ → _))
  | .filesRename _ _ _ => inferInstanceAs (Decidable (_ → _))
  | .start _ => inferInstanceAs (Decidable (_ → _))
  | .rinexStart _ _ _ _ _ _ | .rotate _ _ | .writeEpoch _ _ _ | .deactivate | .closeFile | .change _
  | .launch _ | .work _ => inferInstanceAs (Decidable True)

instance (s : World) (i : Input) : Decidable (Kept s i) := by
  unfold Kept
  infer_instance

def cardNode (path : List Name) (name : Name) (kind : Kind) (h : ∀ n ∈ name :: path, n ≠ [] ∧ slash ∉ n) :
    Node where
  mounted := true
  path := path
  name := name
  kind := kind
  valid := h

def rawdata : Node := cardNode [] (ascii "rawdata") .dir (by decide)

def oldFile : Node := cardNode [ascii "rawdata"] (ascii "old.rnx") (.file 0) (by decide)

def dayFile : Node :=
  cardNode [ascii "rawdata"] (ascii "BASE_20240204_000000.rnx") (.file 0) (by decide +kernel)

/-- The directory of the logger with an old file. -/
def before : FileTree where
  nodes := [rawdata, oldFile]
  unique := by decide +kernel
  parents := by
    intro n hn
    have h : ∀ n ∈ [rawdata, oldFile], n.parent.names = [] ∨
        ∃ d ∈ [rawdata, oldFile], d.place = n.parent ∧ d.kind = .dir := by decide +kernel
    exact h n hn

/-- The same with the file of the day. -/
def after : FileTree where
  nodes := [rawdata, oldFile, dayFile]
  unique := by decide +kernel
  parents := by
    intro n hn
    have h : ∀ n ∈ [rawdata, oldFile, dayFile], n.parent.names = [] ∨
        ∃ d ∈ [rawdata, oldFile, dayFile], d.place = n.parent ∧ d.kind = .dir := by decide +kernel
    exact h n hn

def rest : World where
  mounted := true
  tree := before
  logger := { opens := fun _ => true }
  jobs := []

def started : Input := .rinexStart (ofInt 0) (ofInt 0) (ofInt 0) [] [] (ofInt 0)

def opened : Input := .openFile 2300 (ofInt 0) [] after

/-- **The file being written is lost**: deleted by `/files/delete`, renamed by `/files/rename`, deleted
with its directory spelt with a slash at the end, and deleted by a job that was started before the file
was opened. -/
theorem active_file_lost :
    ([([started, opened],
        .filesDelete (ascii "/sdcard/rawdata/BASE_20240204_000000.rnx")),
      ([started, opened],
        .filesRename (ascii "/sdcard/rawdata/BASE_20240204_000000.rnx") (ascii "/sdcard/x") (some before)),
      ([started, opened, .start [some (ascii "/sdcard/rawdata/")], .launch 0, .work 0, .work 0, .work 0,
        .work 0, .work 0, .work 0], .work 0),
      ([started, .start [some (ascii "/sdcard/rawdata")], .launch 0, .work 0, .work 0, opened, .work 0,
        .work 0, .work 0, .work 0], .work 0)] : List (List Input × Input)).all (fun r =>
      (Machine.run (step sampleClib) rest r.1).any fun s =>
        decide ¬ Kept s r.2 && (step sampleClib s r.2).isSome) = true := by
  decide +kernel

/-- A run of the logger beside a job that deletes the old file. -/
theorem active_file_kept_sample :
    Machine.Along (step sampleClib) Kept rest
      [started, .start [some (ascii "/sdcard/rawdata/old.rnx")], .launch 0, .work 0, opened, .work 0,
        .work 0, .closeFile, .deactivate] :=
  (active_file_kept sampleClib rfl (Machine.along_of_check
    (c := fun s i => decide (Avoids sampleClib s i)) (fun _ _ h => of_decide_eq_true h) _ _
    (by decide +kernel))).1

end GpsBase.Storage.ActiveFile
