import GpsBase.Storage.DeleteJobs
import GpsBase.Storage.Preview
import Mathlib.Data.List.Sort

/-! # The file browser of the touch panel

The list of a folder, the selection in it, and the dialog behind which a deletion begins. The handlers run
one after the other in the task of the panel; `sd_delete` is shared with the web server and the worker, and
its calls are cut where `DeleteJobs` cuts them, so that anything can come between. A step that would read
behind the end of a list, or leave a pointer to a dialog that is closed, is not possible in the model.

Every job that the panel starts deletes what a dialog asked about, paths of rows of a folder of the card,
and the switch of the dialog was on where `open_delete_confirm` asks for it (`panel_deletes_confirmed`). For
a selection it asks only where the preview counts directories, so a folder that holds nothing but files is
deleted without. -/

namespace GpsBase.Touch.FileBrowser

open GpsBase.Lib.Machine GpsBase.Storage.Card GpsBase.Storage.SdDelete GpsBase.Storage.Preview
open GpsBase.Storage.Removal (onCard_child place_child)

/-! ### The list of a folder -/

/-- The order of the list: directories first, then by name. -/
def before (a b : Bool × Name) : Bool := if a.1 = b.1 then decide (a.2 ≤ b.2) else a.1

/-- The items of a folder; hidden ones are left out. There are none where `opendir` fails. -/
def listing (t : FileTree) (path : List UInt8) : List (Bool × Name) :=
  match stat t path with
  | .ok .dir =>
    (((inDir t (place path)).filter fun n => n.name.head? ≠ some 46).map fun n =>
      (decide (n.kind = .dir), n.name)).insertionSort fun a b => before a b
  | _ => []

/-- What stands in front of the last slash. -/
def beforeSlash (path : List UInt8) : Option (List UInt8) :=
  if slash ∈ path then some ((path.reverse.dropWhile fun b => b ≠ slash).drop 1).reverse else none

/-! ### The panel -/

/-- The dialog, and what was on the card when it was opened; `whole` where it is about a whole folder. It has
a switch where that is asked for, and `disabled` says that its Delete button is. -/
structure Dialog where
  paths : List (List UInt8)
  folder : List UInt8
  whole : Bool
  mounted : Bool
  tree : FileTree
  switch : Option Bool
  disabled : Bool

/-- The call of `sd_delete` that the panel is in. -/
inductive Call
  | none
  | start
  | poll
  deriving DecidableEq

/-- The fields of `Ui` for the browser and the dialog; `built` says that the browser has been opened. The
last one is the record: the dialogs whose jobs were started. -/
structure Panel where
  built : Bool := false
  fbPath : List UInt8 := []
  fbEntries : List (List UInt8) := []
  fbIsDir : List Bool := []
  fbSelected : List Bool := []
  fbSelectMode : Bool := false
  fbConfirm : Option Dialog := none
  fbPending : List (List UInt8) := []
  fbDeleteInProgress : Bool := false
  call : Call := .none
  started : List Dialog := []

namespace Panel

def refreshFileBrowser (p : Panel) (t : FileTree) : Panel :=
  let items := listing t p.fbPath
  { p with
    fbSelectMode := false
    fbEntries := items.map fun i => p.fbPath ++ slash :: i.2
    fbIsDir := items.map Prod.fst
    fbSelected := items.map fun _ => false }

def openFileBrowser (p : Panel) (t : FileTree) (path : List UInt8) : Panel :=
  { p with built := true, fbPath := path }.refreshFileBrowser t

def enterSelectMode (p : Panel) (seed : Option ℕ) : Panel :=
  if p.fbEntries = [] then p
  else
    let cleared := p.fbSelected.map fun _ => false
    { p with
      fbSelectMode := true
      fbSelected := seed.elim cleared fun i => cleared.set i true }

def exitSelectMode (p : Panel) : Panel :=
  { p with fbSelectMode := false, fbSelected := p.fbSelected.map fun _ => false }

/-- `fb_selected_[idx] = !fb_selected_[idx]`. -/
def toggle (p : Panel) (i : ℕ) : Option Panel :=
  p.fbSelected[i]?.map fun s => { p with fbSelected := p.fbSelected.set i (!s) }

def onFbItem (p : Panel) (t : FileTree) (i : ℕ) : Option Panel :=
  match p.fbEntries[i]? with
  | none => some p
  | some path =>
    if p.fbSelectMode then p.toggle i
    else if p.fbIsDir[i]?.getD false then some (p.openFileBrowser t path)
    else some p

def onFbItemLong (p : Panel) (i : ℕ) : Option Panel :=
  if p.fbEntries.length ≤ i then some p
  else if p.fbSelectMode then p.toggle i
  else some (p.enterSelectMode (some i))

def onFbUp (p : Panel) (t : FileTree) : Panel :=
  if p.fbPath = kMountPoint then p
  else
    match beforeSlash p.fbPath with
    | none => p
    | some parent => p.openFileBrowser t (if parent = [] then kMountPoint else parent)

def onFbSelectBtn (p : Panel) : Panel :=
  if p.fbSelectMode then p.exitSelectMode else p.enterSelectMode none

def onFbSelallBtn (p : Panel) : Panel :=
  if p.fbSelectMode then
    let all := p.fbSelected ≠ [] && p.fbSelected.all id
    { p with fbSelected := p.fbSelected.map fun _ => !all }
  else p

def onFbClose (p : Panel) : Panel := if p.fbSelectMode then p.exitSelectMode else p

/-- `apply_theme`, as far as the browser goes: it is taken down, and its dialog. -/
def applyTheme (p : Panel) (w : Storage.DeleteJobs.World) : Panel :=
  if w.state = .kRunning then p
  else
    { p with
      built := false
      fbConfirm := none
      fbSelectMode := false
      fbDeleteInProgress := false
      fbSelected := []
      fbPending := [] }

/-- Whether the dialog asks for the switch. -/
def nonEmptyDir (t : FileTree) (pv : DeletePreview) (whole : Bool) (paths : List (List UInt8)) : Bool :=
  if whole then 0 < pv.files || 0 < pv.dirs
  else (paths.any fun p => stat t p matches .ok .dir) && 0 < pv.dirs

/-- `open_delete_confirm`. Where the file being written is among the paths, only an information is shown. -/
def openDeleteConfirm (p : Panel) (w : Storage.DeleteJobs.World) (paths : List (List UInt8))
    (whole : Bool) : Option Panel :=
  if paths = [] ∨ p.fbConfirm.isSome ∨ w.state = .kRunning then some p
  else if blocksActiveFile w.around.active w.around.currentFile (paths.map some) then some p
  else
    (previewDeleteMany w.around.mounted w.around.tree (paths.map some)).map fun pv =>
      let gate := nonEmptyDir w.around.tree pv whole paths
      { p with
        fbPending := paths
        fbConfirm := some {
          paths := paths
          folder := p.fbPath
          whole := whole
          mounted := w.around.mounted
          tree := w.around.tree
          switch := if gate then some false else none
          disabled := gate } }

/-- The paths of the rows that are selected. -/
def picked : List Bool → List (List UInt8) → Option (List (List UInt8))
  | [], _ => some []
  | false :: selected, entries => picked selected entries.tail
  | true :: _, [] => none
  | true :: selected, path :: entries => (picked selected entries).map (path :: ·)

def onFbDeleteBtn (p : Panel) (w : Storage.DeleteJobs.World) : Option Panel :=
  if p.fbSelectMode then
    (picked p.fbSelected p.fbEntries).bind fun paths => p.openDeleteConfirm w paths false
  else some p

def onFbFolderBtn (p : Panel) (w : Storage.DeleteJobs.World) (i : ℕ) : Option Panel :=
  match p.fbEntries[i]? with
  | none => some p
  | some path => p.openDeleteConfirm w [path] true

/-- `on_fb_confirm_switch`; the switch is disabled while a job of the panel runs. -/
def onFbConfirmSwitch (p : Panel) (checked : Bool) : Option Panel :=
  p.fbConfirm.bind fun d =>
    if d.switch.isSome && !p.fbDeleteInProgress then
      some { p with fbConfirm := some { d with switch := some checked, disabled := !checked } }
    else none

def onFbConfirmCancel (p : Panel) : Option Panel :=
  p.fbConfirm.map fun _ =>
    if p.fbDeleteInProgress then p else { p with fbConfirm := none, fbPending := [] }

/-- `start` has returned true. -/
def jobStarted (p : Panel) : Panel :=
  { p with
    call := .none
    fbDeleteInProgress := true
    fbConfirm := p.fbConfirm.map fun d => { d with disabled := true }
    started := p.started ++ p.fbConfirm.toList }

/-- `poll_delete_progress` behind `poll`. -/
def polled (p : Panel) (t : FileTree) (progress : Storage.DeleteJobs.Progress) : Panel :=
  if progress.state.finished then
    { p with call := .none, fbDeleteInProgress := false, fbConfirm := none, fbPending := [] }.refreshFileBrowser t
  else { p with call := .none }

end Panel

/-! ### Steps -/

/-- What is touched, or the tick of `refresh`. -/
inductive Tap
  | filesBtn
  | close
  | item (i : ℕ)
  | itemLong (i : ℕ)
  | up
  | selectBtn
  | selallBtn
  | cancelBtn
  | deleteBtn
  | folderBtn (i : ℕ)
  | confirmSwitch (checked : Bool)
  | confirmDel
  | confirmCancel
  | themeBtn
  | tick

/-- `sd_delete` with all that call it, and the panel. -/
structure World where
  jobs : Storage.DeleteJobs.World
  panel : Panel := {}

/-- The panel is touched, or `sd_delete` goes on. -/
inductive Event
  | tap (e : Tap)
  | jobs (e : Storage.DeleteJobs.Event)

def World.setPanel (w : World) (p : Option Panel) : Option World := p.map fun p => { w with panel := p }

/-- `on_fb_confirm_del` up to the call of `start`. With nothing pending the box is closed, and the pointer to
it is kept. -/
def onFbConfirmDel (w : World) : Option World :=
  w.panel.fbConfirm.bind fun d =>
    if w.panel.fbPending = [] then none
    else if d.disabled then some w
    else
      (w.jobs.step (.start .touch (w.panel.fbPending.map some))).map fun jobs =>
        { jobs := jobs
          panel := { w.panel with call := if w.jobs.around.mounted then .start else .none } }

/-- `poll_delete_progress` up to the call of `poll`. -/
def pollDeleteProgress (w : World) : Option World :=
  if w.panel.fbDeleteInProgress then
    (w.jobs.step (.poll .touch)).map fun jobs => { jobs := jobs, panel := { w.panel with call := .poll } }
  else some w

/-- A handler of the browser, which has to be built. -/
def World.browse (w : World) (p : Option Panel) : Option World :=
  if w.panel.built then w.setPanel p else none

def handle (w : World) : Tap → Option World
  | .filesBtn => some { w with panel := w.panel.openFileBrowser w.jobs.around.tree kMountPoint }
  | .close => w.browse (some w.panel.onFbClose)
  | .item i => w.browse (w.panel.onFbItem w.jobs.around.tree i)
  | .itemLong i => w.browse (w.panel.onFbItemLong i)
  | .up => w.browse (some (w.panel.onFbUp w.jobs.around.tree))
  | .selectBtn => w.browse (some w.panel.onFbSelectBtn)
  | .selallBtn => w.browse (some w.panel.onFbSelallBtn)
  | .cancelBtn => w.browse (some w.panel.exitSelectMode)
  | .deleteBtn => w.browse (w.panel.onFbDeleteBtn w.jobs)
  | .folderBtn i => w.browse (w.panel.onFbFolderBtn w.jobs i)
  | .confirmSwitch checked => w.setPanel (w.panel.onFbConfirmSwitch checked)
  | .confirmDel => onFbConfirmDel w
  | .confirmCancel => w.setPanel w.panel.onFbConfirmCancel
  | .themeBtn => some { w with panel := w.panel.applyTheme w.jobs }
  | .tick => pollDeleteProgress w

/-- What the panel does when `sd_delete` has gone on: if its own call has returned, it goes on, too. -/
def returned (p : Panel) (jobs jobs' : Storage.DeleteJobs.World) (e : Storage.DeleteJobs.Event) : Panel :=
  match p.call, jobs'.calls .touch with
  | .start, .idle =>
    match jobs.calls .touch, e with
    | .create _, .advance .touch _ true => p.jobStarted
    | _, _ => { p with call := .none }
  | .poll, .idle =>
    match jobs'.reports.getLast? with
    | some r => p.polled jobs'.around.tree r.1
    | none => { p with call := .none }
  | _, _ => p

def step (w : World) : Event → Option World
  | .tap e => if w.panel.call = .none then handle w e else none
  | .jobs (.start .touch _) => none
  | .jobs (.poll .touch) => none
  | .jobs e => (w.jobs.step e).map fun jobs => { jobs := jobs, panel := returned w.panel w.jobs jobs e }

/-! ### Paths that are shown -/

/-- A name that is shown. -/
def ProperName (n : Name) : Prop := n ≠ [] ∧ slash ∉ n ∧ n.head? ≠ some 46

/-- A path of a row in a folder. -/
def Row (folder path : List UInt8) : Prop := ∃ name, ProperName name ∧ path = folder ++ slash :: name

/-- A folder that can be shown: the card, or a folder by rows below it. -/
inductive Inside : List UInt8 → Prop
  | root : Inside kMountPoint
  | row {folder path : List UInt8} (h : Inside folder) (hrow : Row folder path) : Inside path

theorem properName_listing {t : FileTree} {path : List UInt8} {i : Bool × Name} (h : i ∈ listing t path) :
    ProperName i.2 := by
  unfold listing at h
  split at h
  · simp only [List.mem_insertionSort, List.mem_map, List.mem_filter, decide_eq_true_eq] at h
    obtain ⟨n, ⟨-, hhead⟩, rfl⟩ := h
    exact ⟨(n.valid n.name List.mem_cons_self).1, (n.valid n.name List.mem_cons_self).2, hhead⟩
  · simp at h

theorem Inside.onCard {path : List UInt8} (h : Inside path) : onCard path = true := by
  induction h with
  | root => decide
  | row h hrow ih =>
    obtain ⟨name, -, rfl⟩ := hrow
    exact onCard_child ih name

theorem beforeSlash_row {folder name : List UInt8} (h : slash ∉ name) :
    beforeSlash (folder ++ slash :: name) = some folder := by
  have hreverse : (folder ++ slash :: name).reverse = name.reverse ++ slash :: folder.reverse := by simp
  have hall : ∀ b ∈ name.reverse, decide (b ≠ slash) = true := fun b hb =>
    decide_eq_true fun heq => h (heq ▸ List.mem_reverse.mp hb)
  unfold beforeSlash
  rw [if_pos (by simp), hreverse, List.dropWhile_append_of_pos hall]
  simp

theorem Inside.beforeSlash {path parent : List UInt8} (h : Inside path) (hne : path ≠ kMountPoint)
    (hparent : beforeSlash path = some parent) : Inside parent := by
  rcases h with _ | ⟨hfolder, name, hname, rfl⟩
  · exact absurd rfl hne
  · rw [beforeSlash_row hname.2.1] at hparent
    rwa [← Option.some.inj hparent]

theorem Inside.ne_nil {path : List UInt8} (h : Inside path) : path ≠ [] := by
  rcases h with _ | ⟨-, name, -, rfl⟩
  · decide
  · simp

/-! ### The list and the selection -/

/-- The three lists of the browser belong together, and what they show is on the card. -/
structure Listed (p : Panel) : Prop where
  dirs : p.fbIsDir.length = p.fbEntries.length
  selected : p.built = true → p.fbSelected.length = p.fbEntries.length
  unselected : p.fbSelectMode = false → ∀ s ∈ p.fbSelected, s = false
  inside : p.built = true → Inside p.fbPath
  rows : ∀ e ∈ p.fbEntries, Row p.fbPath e

theorem Listed.refreshFileBrowser {p : Panel} (h : p.built = true → Inside p.fbPath) (t : FileTree) :
    Listed (p.refreshFileBrowser t) where
  dirs := by simp [Panel.refreshFileBrowser]
  selected := by simp [Panel.refreshFileBrowser]
  unselected := by simp [Panel.refreshFileBrowser]
  inside := h
  rows := by
    simp only [Panel.refreshFileBrowser, List.mem_map]
    rintro _ ⟨i, hi, rfl⟩
    exact ⟨i.2, properName_listing hi, rfl⟩

theorem Listed.openFileBrowser (p : Panel) (t : FileTree) {path : List UInt8} (h : Inside path) :
    Listed (p.openFileBrowser t path) :=
  Listed.refreshFileBrowser (p := { p with built := true, fbPath := path }) (fun _ => h) t

theorem Listed.select {p : Panel} (h : Listed p) (mode : Bool) {selected : List Bool}
    (hlength : selected.length = p.fbSelected.length) (hoff : mode = false → ∀ s ∈ selected, s = false) :
    Listed { p with fbSelectMode := mode, fbSelected := selected } :=
  ⟨h.dirs, fun hbuilt => hlength.trans (h.selected hbuilt), hoff, h.inside, h.rows⟩

theorem Listed.exitSelectMode {p : Panel} (h : Listed p) : Listed p.exitSelectMode :=
  h.select false (by simp) (by simp)

theorem Listed.enterSelectMode {p : Panel} (h : Listed p) (seed : Option ℕ) : Listed (p.enterSelectMode seed) := by
  unfold Panel.enterSelectMode
  split_ifs
  · exact h
  · refine h.select true ?_ (by simp)
    cases seed <;> simp

theorem Listed.toggle {p p' : Panel} (h : Listed p) (hmode : p.fbSelectMode = true) {i : ℕ}
    (hp : p.toggle i = some p') : Listed p' := by
  obtain ⟨s, -, rfl⟩ := Option.map_eq_some_iff.mp hp
  exact h.select p.fbSelectMode (by simp) (by simp [hmode])

def Panel.rest (p : Panel) : Option Dialog × List (List UInt8) × Bool × Call × List Dialog :=
  (p.fbConfirm, p.fbPending, p.fbDeleteInProgress, p.call, p.started)

/-- A handler of the list: the dialog and the job stay as they are. -/
structure Browses (p p' : Panel) : Prop where
  listed : Listed p'
  rest : p'.rest = p.rest

theorem Browses.fields {p p' : Panel} (h : Browses p p') :
    p'.fbConfirm = p.fbConfirm ∧ p'.fbPending = p.fbPending ∧
      p'.fbDeleteInProgress = p.fbDeleteInProgress ∧ p'.call = p.call ∧ p'.started = p.started := by
  simpa [Panel.rest] using h.rest

theorem browses_toggle {p p' : Panel} (h : Listed p) (hmode : p.fbSelectMode = true) {i : ℕ}
    (hp : p.toggle i = some p') : Browses p p' := by
  refine ⟨h.toggle hmode hp, ?_⟩
  obtain ⟨s, -, rfl⟩ := Option.map_eq_some_iff.mp hp
  rfl

theorem browses_enterSelectMode {p : Panel} (h : Listed p) (seed : Option ℕ) :
    Browses p (p.enterSelectMode seed) := by
  refine ⟨h.enterSelectMode seed, ?_⟩
  unfold Panel.enterSelectMode
  split_ifs <;> rfl

theorem browses_onFbItem {p p' : Panel} (h : Listed p) (hbuilt : p.built = true) {t : FileTree} {i : ℕ}
    (hp : p.onFbItem t i = some p') : Browses p p' := by
  unfold Panel.onFbItem at hp
  split at hp
  · obtain rfl := Option.some.inj hp
    exact ⟨h, rfl⟩
  · next path hpath =>
    split_ifs at hp with hmode hdir
    · exact browses_toggle h hmode hp
    · obtain rfl := Option.some.inj hp
      refine ⟨Listed.openFileBrowser p t (.row (h.inside hbuilt) (h.rows path ?_)), rfl⟩
      exact List.mem_of_getElem? hpath
    · obtain rfl := Option.some.inj hp
      exact ⟨h, rfl⟩

theorem browses_onFbItemLong {p p' : Panel} (h : Listed p) {i : ℕ} (hp : p.onFbItemLong i = some p') :
    Browses p p' := by
  unfold Panel.onFbItemLong at hp
  split_ifs at hp with hlong hmode
  · obtain rfl := Option.some.inj hp
    exact ⟨h, rfl⟩
  · exact browses_toggle h hmode hp
  · obtain rfl := Option.some.inj hp
    exact browses_enterSelectMode h (some i)

theorem browses_onFbUp {p : Panel} (h : Listed p) (hbuilt : p.built = true) (t : FileTree) :
    Browses p (p.onFbUp t) := by
  unfold Panel.onFbUp
  split_ifs with hroot
  · exact ⟨h, rfl⟩
  · split
    · exact ⟨h, rfl⟩
    · next parent hparent =>
      have hinside := (h.inside hbuilt).beforeSlash hroot hparent
      rw [if_neg hinside.ne_nil]
      exact ⟨Listed.openFileBrowser p t hinside, rfl⟩

theorem browses_exitSelectMode {p : Panel} (h : Listed p) : Browses p p.exitSelectMode :=
  ⟨h.exitSelectMode, rfl⟩

theorem browses_onFbSelectBtn {p : Panel} (h : Listed p) : Browses p p.onFbSelectBtn := by
  unfold Panel.onFbSelectBtn
  split_ifs
  · exact browses_exitSelectMode h
  · exact browses_enterSelectMode h none

theorem browses_onFbSelallBtn {p : Panel} (h : Listed p) : Browses p p.onFbSelallBtn := by
  unfold Panel.onFbSelallBtn
  split_ifs with hmode
  · exact ⟨h.select p.fbSelectMode (by simp) (by simp [hmode]), rfl⟩
  · exact ⟨h, rfl⟩

theorem browses_onFbClose {p : Panel} (h : Listed p) : Browses p p.onFbClose := by
  unfold Panel.onFbClose
  split_ifs
  · exact browses_exitSelectMode h
  · exact ⟨h, rfl⟩

/-! ### The dialog -/

/-- The dialog asks for the switch, by what is on the card when it is opened. -/
def Dialog.gate (d : Dialog) : Bool :=
  (previewDeleteMany d.mounted d.tree (d.paths.map some)).any fun pv =>
    Panel.nonEmptyDir d.tree pv d.whole d.paths

/-- A dialog asks about rows of a folder of the card. -/
structure Asked (d : Dialog) : Prop where
  nonempty : d.paths ≠ []
  inside : Inside d.folder
  rows : ∀ path ∈ d.paths, Row d.folder path

/-- Where the switch was asked for, it is on. -/
def Acknowledged (d : Dialog) : Prop := d.gate = true → d.switch = some true

/-- What holds of the dialog, and of the jobs that were started. -/
structure Confirms (p : Panel) : Prop where
  dialog : ∀ d, p.fbConfirm = some d →
    p.fbPending = d.paths ∧ Asked d ∧ (d.disabled = false → Acknowledged d)
  closed : p.fbConfirm = none → p.fbPending = []
  progress : p.fbDeleteInProgress = true → ∃ d, p.fbConfirm = some d ∧ d.disabled = true
  started : ∀ d ∈ p.started, Asked d ∧ Acknowledged d

theorem Confirms.congr {p p' : Panel} (h : Confirms p) (hp : Browses p p') : Confirms p' := by
  obtain ⟨hconfirm, hpending, hprogress, -, hstarted⟩ := hp.fields
  refine ⟨?_, ?_, ?_, ?_⟩
  · rw [hconfirm, hpending]
    exact h.dialog
  · rw [hconfirm, hpending]
    exact h.closed
  · rw [hconfirm, hprogress]
    exact h.progress
  · rw [hstarted]
    exact h.started

theorem mem_of_picked : ∀ {selected : List Bool} {entries paths : List (List UInt8)},
    Panel.picked selected entries = some paths → ∀ p ∈ paths, p ∈ entries
  | [], _, paths, h, p, hp => by
    obtain rfl := Option.some.inj h
    simp at hp
  | false :: selected, entries, paths, h, p, hp =>
    List.mem_of_mem_tail (mem_of_picked (show Panel.picked selected entries.tail = some paths from h) p hp)
  | true :: selected, path :: entries, paths, h, p, hp => by
    obtain ⟨rest, hrest, rfl⟩ := Option.map_eq_some_iff.mp h
    rcases List.mem_cons.mp hp with rfl | hp
    · exact List.mem_cons_self
    · exact List.mem_cons_of_mem _ (mem_of_picked hrest p hp)

/-- What a handler of the dialog leaves as it is. -/
structure Keeps (p p' : Panel) : Prop where
  listed : Listed p → Listed p'
  call : p'.call = p.call
  started : p'.started = p.started

theorem Keeps.refl (p : Panel) : Keeps p p := ⟨id, rfl, rfl⟩

theorem keeps_dialog (p : Panel) (d : Option Dialog) (pending : List (List UInt8)) :
    Keeps p { p with fbConfirm := d, fbPending := pending } :=
  ⟨fun h => ⟨h.dirs, h.selected, h.unselected, h.inside, h.rows⟩, rfl, rfl⟩

theorem confirms_openDeleteConfirm {p p' : Panel} (h : Confirms p) {w : Storage.DeleteJobs.World}
    {paths : List (List UInt8)} {whole : Bool} (hinside : Inside p.fbPath)
    (hrows : ∀ path ∈ paths, Row p.fbPath path) (hp : p.openDeleteConfirm w paths whole = some p') :
    Confirms p' ∧ Keeps p p' := by
  unfold Panel.openDeleteConfirm at hp
  split_ifs at hp with hno hactive
  · obtain rfl := Option.some.inj hp
    exact ⟨h, .refl p⟩
  · obtain rfl := Option.some.inj hp
    exact ⟨h, .refl p⟩
  · obtain ⟨pv, hpv, rfl⟩ := Option.map_eq_some_iff.mp hp
    rw [not_or, not_or] at hno
    obtain ⟨hnonempty, hclosed, -⟩ := hno
    refine ⟨⟨?_, nofun, fun hrun => ?_, h.started⟩, keeps_dialog p _ _⟩
    · intro d hd
      obtain rfl := Option.some.inj hd
      refine ⟨rfl, ⟨hnonempty, hinside, hrows⟩, fun henabled hgate => ?_⟩
      simp only [Dialog.gate, hpv, Option.any_some] at hgate henabled
      rw [hgate] at henabled
      simp at henabled
    · obtain ⟨d, hd, -⟩ := h.progress hrun
      rw [hd] at hclosed
      simp at hclosed

theorem confirms_onFbConfirmSwitch {p p' : Panel} (h : Confirms p) {checked : Bool}
    (hp : p.onFbConfirmSwitch checked = some p') : Confirms p' ∧ Keeps p p' := by
  obtain ⟨d, hd, hp⟩ := Option.bind_eq_some_iff.mp hp
  split_ifs at hp with hswitch
  obtain rfl := Option.some.inj hp
  simp only [Bool.and_eq_true, Bool.not_eq_true'] at hswitch
  obtain ⟨hpending, hasked, -⟩ := h.dialog d hd
  refine ⟨⟨?_, nofun, fun hrun => ?_, h.started⟩, keeps_dialog p _ _⟩
  · intro d' hd'
    obtain rfl := Option.some.inj hd'
    exact ⟨hpending, ⟨hasked.nonempty, hasked.inside, hasked.rows⟩, fun henabled _ => by simpa using henabled⟩
  · exact absurd (hswitch.2.symm.trans hrun) (by simp)

theorem confirms_onFbConfirmCancel {p p' : Panel} (h : Confirms p) (hp : p.onFbConfirmCancel = some p') :
    Confirms p' ∧ Keeps p p' := by
  obtain ⟨d, hd, rfl⟩ := Option.map_eq_some_iff.mp hp
  split_ifs with hrun
  · exact ⟨h, .refl p⟩
  · exact ⟨⟨nofun, fun _ => rfl, fun hyes => absurd hyes hrun, h.started⟩, keeps_dialog p _ _⟩

theorem confirms_jobStarted {p : Panel} (h : Confirms p) {d : Dialog} (hd : p.fbConfirm = some d)
    (henabled : d.disabled = false) : Confirms p.jobStarted := by
  obtain ⟨hpending, hasked, hack⟩ := h.dialog d hd
  unfold Panel.jobStarted
  rw [hd]
  refine ⟨?_, nofun, fun _ => ⟨_, rfl, rfl⟩, ?_⟩
  · intro d' hd'
    obtain rfl := Option.some.inj hd'
    exact ⟨hpending, ⟨hasked.nonempty, hasked.inside, hasked.rows⟩, nofun⟩
  · simp only [Option.toList_some, List.mem_append, List.mem_singleton]
    rintro d' (hd' | rfl)
    · exact h.started d' hd'
    · exact ⟨hasked, hack henabled⟩

/-- Where the browser is taken down, no dialog is left. -/
theorem confirms_applyTheme {p : Panel} (h : Confirms p) (w : Storage.DeleteJobs.World) :
    Confirms (p.applyTheme w) := by
  unfold Panel.applyTheme
  split_ifs
  · exact h
  · exact ⟨nofun, fun _ => rfl, nofun, h.started⟩

theorem listed_applyTheme {p : Panel} (h : Listed p) (w : Storage.DeleteJobs.World) :
    Listed (p.applyTheme w) := by
  unfold Panel.applyTheme
  split_ifs
  · exact h
  · exact ⟨h.dirs, nofun, fun _ _ hs => absurd hs List.not_mem_nil, nofun, h.rows⟩

theorem confirms_polled {p : Panel} (h : Confirms p) (t : FileTree) (progress : Storage.DeleteJobs.Progress) :
    Confirms (p.polled t progress) := by
  unfold Panel.polled
  split_ifs
  · exact ⟨nofun, fun _ => rfl, nofun, h.started⟩
  · exact ⟨h.dialog, h.closed, h.progress, h.started⟩

theorem listed_polled {p : Panel} (h : Listed p) (t : FileTree)
    (progress : Storage.DeleteJobs.Progress) : Listed (p.polled t progress) := by
  unfold Panel.polled
  split_ifs
  · exact .refreshFileBrowser (p := { p with
      call := .none, fbDeleteInProgress := false, fbConfirm := none, fbPending := [] }) h.inside t
  · exact ⟨h.dirs, h.selected, h.unselected, h.inside, h.rows⟩

/-! ### The calls of `sd_delete` -/

/-- A start that was given a list, before it returns. -/
def Starting (paths : List (List UInt8)) : Storage.DeleteJobs.Call → Prop
  | .busy ps | .guard ps | .clear ps | .fill ps _ | .total ps | .done ps | .reset ps | .running ps
  | .create ps => ps = paths.map some
  | .undo => True
  | _ => False

def Polling : Storage.DeleteJobs.Call → Prop
  | .pollState | .pollDone _ | .pollTotal _ | .pollResult _ => True
  | _ => False

/-- A step of a call of the panel that starts no job. -/
structure Continues (w w' : Storage.DeleteJobs.World) : Prop where
  accepted : w'.accepted = w.accepted
  starting : ∀ paths, Starting paths (w.calls .touch) →
    w'.calls .touch = .idle ∨ Starting paths (w'.calls .touch)
  polling : Polling (w.calls .touch) → w'.calls .touch = .idle ∨ Polling (w'.calls .touch)

/-- **A step of a call of the panel**: it starts a job, or goes on. -/
theorem advance_touch {w w' : Storage.DeleteJobs.World} {counted : ℕ} {created : Bool}
    (h : w.advance .touch counted created = some w') :
    (∃ ps, w.calls .touch = .create ps ∧ created = true ∧ w'.calls .touch = .idle ∧
        w'.accepted = w.accepted ++ [ps.filterMap id]) ∨
      ((created = false ∨ ∀ ps, w.calls .touch ≠ .create ps) ∧ Continues w w') := by
  unfold Storage.DeleteJobs.World.advance at h
  split at h
  case h_1 => cases h
  case h_11 ps hcall =>
    split_ifs at h with hcreated
    · obtain rfl := Option.some.inj h
      exact Or.inl ⟨ps, hcall, hcreated, by simp [Storage.DeleteJobs.World.goto], rfl⟩
    · obtain rfl := Option.some.inj h
      refine Or.inr ⟨Or.inl (by simpa using hcreated), rfl, ?_, ?_⟩ <;>
        simp [hcall, Storage.DeleteJobs.World.goto, Starting, Polling]
  all_goals
    next hcall =>
      obtain rfl := Option.some.inj h
      refine Or.inr ⟨Or.inr (by simp [hcall]), ?_, fun paths hstart => ?_, fun hpoll => ?_⟩
      · (try split_ifs) <;> rfl
      · rw [hcall] at hstart
        simp only [Storage.DeleteJobs.World.goto, Storage.DeleteJobs.World.setPaths,
          Storage.DeleteJobs.World.report, Function.update_self]
        (try split_ifs) <;> simp_all [Starting]
      · rw [hcall] at hpoll
        simp only [Storage.DeleteJobs.World.goto, Storage.DeleteJobs.World.setPaths,
          Storage.DeleteJobs.World.report, Function.update_self]
        (try split_ifs) <;> simp_all [Polling]

theorem step_others {w w' : Storage.DeleteJobs.World} {e : Storage.DeleteJobs.Event} (h : w.step e = some w')
    (hstart : ∀ ps, e ≠ .start .touch ps) (hpoll : e ≠ .poll .touch)
    (hadvance : ∀ counted created, e ≠ .advance .touch counted created) :
    w'.calls .touch = w.calls .touch ∧ w.accepted <+: w'.accepted := by
  rcases e with ⟨t, ps⟩ | t | ⟨t, counted, created⟩ | k | around
  · rcases t with _ | _
    · exact absurd rfl (hstart ps)
    · simp only [Storage.DeleteJobs.World.step] at h
      split at h
      · obtain rfl := Option.some.inj h
        split_ifs <;> simp [Storage.DeleteJobs.World.goto]
      · cases h
  · rcases t with _ | _
    · exact absurd rfl hpoll
    · simp only [Storage.DeleteJobs.World.step] at h
      split at h
      · obtain rfl := Option.some.inj h
        simp [Storage.DeleteJobs.World.goto]
      · cases h
  · rcases t with _ | _
    · exact absurd rfl (hadvance counted created)
    · simp only [Storage.DeleteJobs.World.step, Storage.DeleteJobs.World.advance] at h
      split at h
      case h_1 => cases h
      case h_11 =>
        split_ifs at h <;> obtain rfl := Option.some.inj h <;> simp [Storage.DeleteJobs.World.goto]
      all_goals
        obtain rfl := Option.some.inj h
        (try split_ifs) <;> simp [Storage.DeleteJobs.World.goto, Storage.DeleteJobs.World.setPaths,
          Storage.DeleteJobs.World.report]
  · simp only [Storage.DeleteJobs.World.step, Storage.DeleteJobs.World.work] at h
    obtain ⟨worker, -, rfl⟩ := Option.map_eq_some_iff.mp h
    split <;> exact ⟨rfl, List.prefix_refl _⟩
  · obtain rfl := Option.some.inj h
    exact ⟨rfl, List.prefix_refl _⟩

/-! ### Runs -/

/-- What holds of the panel among all that call `sd_delete`. -/
structure Sound (w : World) : Prop where
  listed : Listed w.panel
  confirms : Confirms w.panel
  idle : w.panel.call = .none → w.jobs.calls .touch = .idle
  starting : w.panel.call = .start → Starting w.panel.fbPending (w.jobs.calls .touch) ∧
    ∃ d, w.panel.fbConfirm = some d ∧ d.disabled = false
  polling : w.panel.call = .poll → Polling (w.jobs.calls .touch)
  accepted : (w.panel.started.map Dialog.paths).Sublist w.jobs.accepted

theorem Sound.setPanel {w : World} (h : Sound w) (hcall : w.panel.call = .none) {p : Panel} (hl : Listed p)
    (hc : Confirms p) (hp : p.call = w.panel.call) (hs : p.started = w.panel.started) :
    Sound { w with panel := p } where
  listed := hl
  confirms := hc
  idle _ := h.idle hcall
  starting hstart := absurd ((hp.symm.trans hstart).symm.trans hcall) (by simp)
  polling hpoll := absurd ((hp.symm.trans hpoll).symm.trans hcall) (by simp)
  accepted := by
    show (p.started.map Dialog.paths).Sublist _
    rw [hs]
    exact h.accepted

theorem Sound.browses {w : World} (h : Sound w) (hcall : w.panel.call = .none) {p : Panel}
    (hp : Browses w.panel p) : Sound { w with panel := p } :=
  h.setPanel hcall hp.listed (h.confirms.congr hp) hp.fields.2.2.2.1 hp.fields.2.2.2.2

theorem Sound.keeps {w : World} (h : Sound w) (hcall : w.panel.call = .none) {p : Panel}
    (hp : Confirms p ∧ Keeps w.panel p) : Sound { w with panel := p } :=
  h.setPanel hcall (hp.2.listed h.listed) hp.1 hp.2.call hp.2.started

theorem setPanel_eq_some {w w' : World} {p : Option Panel} (h : w.setPanel p = some w') :
    ∃ p', p = some p' ∧ w' = { w with panel := p' } := by
  obtain ⟨p', hp, rfl⟩ := Option.map_eq_some_iff.mp h
  exact ⟨p', hp, rfl⟩

theorem browse_eq_some {w w' : World} {p : Option Panel} (h : w.browse p = some w') :
    w.panel.built = true ∧ ∃ p', p = some p' ∧ w' = { w with panel := p' } := by
  unfold World.browse at h
  split_ifs at h with hbuilt
  exact ⟨hbuilt, setPanel_eq_some h⟩

theorem Sound.calls {w : World} (h : Sound w) {jobs : Storage.DeleteJobs.World} {c : Call}
    (hne : c ≠ .none) (haccepted : jobs.accepted = w.jobs.accepted)
    (hstart : c = .start → Starting w.panel.fbPending (jobs.calls .touch) ∧
      ∃ d, w.panel.fbConfirm = some d ∧ d.disabled = false)
    (hpoll : c = .poll → Polling (jobs.calls .touch)) :
    Sound { jobs := jobs, panel := { w.panel with call := c } } where
  listed := ⟨h.listed.dirs, h.listed.selected, h.listed.unselected, h.listed.inside, h.listed.rows⟩
  confirms := ⟨h.confirms.dialog, h.confirms.closed, h.confirms.progress, h.confirms.started⟩
  idle hnone := absurd hnone hne
  starting := hstart
  polling := hpoll
  accepted := haccepted ▸ h.accepted

theorem Sound.onFbConfirmDel {w w' : World} (h : Sound w) (hcall : w.panel.call = .none)
    (hstep : onFbConfirmDel w = some w') : Sound w' := by
  obtain ⟨d, hd, hstep⟩ := Option.bind_eq_some_iff.mp hstep
  by_cases hnothing : w.panel.fbPending = []
  · rw [if_pos hnothing] at hstep
    cases hstep
  rw [if_neg hnothing] at hstep
  by_cases hdisabled : d.disabled = true
  · rw [if_pos hdisabled] at hstep
    obtain rfl := Option.some.inj hstep
    exact h
  · rw [if_neg hdisabled] at hstep
    obtain ⟨jobs, hjobs, rfl⟩ := Option.map_eq_some_iff.mp hstep
    simp only [Storage.DeleteJobs.World.step, h.idle hcall, Option.some.injEq] at hjobs
    by_cases hmounted : w.jobs.around.mounted = true
    · rw [if_pos hmounted] at hjobs ⊢
      obtain rfl := hjobs
      refine h.calls (by simp) rfl (fun _ => ⟨?_, d, hd, by simpa using hdisabled⟩) nofun
      simp [Storage.DeleteJobs.World.goto, Starting]
    · rw [if_neg hmounted] at hjobs ⊢
      obtain rfl := hjobs
      exact h.setPanel hcall ⟨h.listed.dirs, h.listed.selected, h.listed.unselected, h.listed.inside,
        h.listed.rows⟩ ⟨h.confirms.dialog, h.confirms.closed, h.confirms.progress, h.confirms.started⟩
        hcall.symm rfl

theorem Sound.pollDeleteProgress {w w' : World} (h : Sound w) (hcall : w.panel.call = .none)
    (hstep : pollDeleteProgress w = some w') : Sound w' := by
  unfold FileBrowser.pollDeleteProgress at hstep
  split_ifs at hstep with hrun
  · obtain ⟨jobs, hjobs, rfl⟩ := Option.map_eq_some_iff.mp hstep
    simp only [Storage.DeleteJobs.World.step, h.idle hcall, Option.some.injEq] at hjobs
    obtain rfl := hjobs
    refine h.calls (by simp) rfl nofun fun _ => ?_
    simp [Storage.DeleteJobs.World.goto, Polling]
  · obtain rfl := Option.some.inj hstep
    exact h

theorem Sound.handle {w w' : World} {e : Tap} (h : Sound w) (hcall : w.panel.call = .none)
    (hstep : handle w e = some w') : Sound w' := by
  have hrow : ∀ i path, w.panel.fbEntries[i]? = some path → Row w.panel.fbPath path := fun i path hpath =>
    h.listed.rows path (List.mem_of_getElem? hpath)
  cases e with
  | filesBtn =>
    obtain rfl := Option.some.inj hstep
    exact h.browses hcall ⟨Listed.openFileBrowser w.panel _ .root, rfl⟩
  | close =>
    obtain ⟨-, p, hp, rfl⟩ := browse_eq_some hstep
    obtain rfl := Option.some.inj hp
    exact h.browses hcall (browses_onFbClose h.listed)
  | item i =>
    obtain ⟨hbuilt, p, hp, rfl⟩ := browse_eq_some hstep
    exact h.browses hcall (browses_onFbItem h.listed hbuilt hp)
  | itemLong i =>
    obtain ⟨-, p, hp, rfl⟩ := browse_eq_some hstep
    exact h.browses hcall (browses_onFbItemLong h.listed hp)
  | up =>
    obtain ⟨hbuilt, p, hp, rfl⟩ := browse_eq_some hstep
    obtain rfl := Option.some.inj hp
    exact h.browses hcall (browses_onFbUp h.listed hbuilt _)
  | selectBtn =>
    obtain ⟨-, p, hp, rfl⟩ := browse_eq_some hstep
    obtain rfl := Option.some.inj hp
    exact h.browses hcall (browses_onFbSelectBtn h.listed)
  | selallBtn =>
    obtain ⟨-, p, hp, rfl⟩ := browse_eq_some hstep
    obtain rfl := Option.some.inj hp
    exact h.browses hcall (browses_onFbSelallBtn h.listed)
  | cancelBtn =>
    obtain ⟨-, p, hp, rfl⟩ := browse_eq_some hstep
    obtain rfl := Option.some.inj hp
    exact h.browses hcall (browses_exitSelectMode h.listed)
  | deleteBtn =>
    obtain ⟨hbuilt, p, hp, rfl⟩ := browse_eq_some hstep
    unfold Panel.onFbDeleteBtn at hp
    split_ifs at hp with hmode
    · obtain ⟨paths, hpaths, hp⟩ := Option.bind_eq_some_iff.mp hp
      exact h.keeps hcall (confirms_openDeleteConfirm h.confirms (h.listed.inside hbuilt)
        (fun path hpath => h.listed.rows path (mem_of_picked hpaths path hpath)) hp)
    · obtain rfl := Option.some.inj hp
      exact h.keeps hcall ⟨h.confirms, .refl _⟩
  | folderBtn i =>
    obtain ⟨hbuilt, p, hp, rfl⟩ := browse_eq_some hstep
    unfold Panel.onFbFolderBtn at hp
    split at hp
    · obtain rfl := Option.some.inj hp
      exact h.keeps hcall ⟨h.confirms, .refl _⟩
    · next path hpath =>
      exact h.keeps hcall (confirms_openDeleteConfirm h.confirms (h.listed.inside hbuilt)
        (by simpa using hrow i path hpath) hp)
  | confirmSwitch checked =>
    obtain ⟨p, hp, rfl⟩ := setPanel_eq_some hstep
    exact h.keeps hcall (confirms_onFbConfirmSwitch h.confirms hp)
  | confirmCancel =>
    obtain ⟨p, hp, rfl⟩ := setPanel_eq_some hstep
    exact h.keeps hcall (confirms_onFbConfirmCancel h.confirms hp)
  | confirmDel => exact h.onFbConfirmDel hcall hstep
  | themeBtn =>
    obtain rfl := Option.some.inj hstep
    refine h.setPanel hcall (listed_applyTheme h.listed _) (confirms_applyTheme h.confirms _) ?_ ?_
    · unfold Panel.applyTheme
      split_ifs <;> rfl
    · unfold Panel.applyTheme
      split_ifs <;> rfl
  | tick => exact h.pollDeleteProgress hcall hstep

theorem returned_of_none {p : Panel} (h : p.call = .none) (jobs jobs' : Storage.DeleteJobs.World)
    (e : Storage.DeleteJobs.Event) : returned p jobs jobs' e = p := by
  simp [returned, h]

theorem returned_of_ne {p : Panel} {jobs' : Storage.DeleteJobs.World} (h : jobs'.calls .touch ≠ .idle)
    (jobs : Storage.DeleteJobs.World) (e : Storage.DeleteJobs.Event) : returned p jobs jobs' e = p := by
  unfold returned
  split <;> simp_all

theorem Starting.ne_idle {paths : List (List UInt8)} {c : Storage.DeleteJobs.Call} (h : Starting paths c) :
    c ≠ .idle := by
  rintro rfl
  exact h

theorem Polling.ne_idle {c : Storage.DeleteJobs.Call} (h : Polling c) : c ≠ .idle := by
  rintro rfl
  exact h

theorem Sound.goesOn {w : World} (h : Sound w) {jobs : Storage.DeleteJobs.World}
    (haccepted : w.jobs.accepted <+: jobs.accepted)
    (hidle : w.panel.call = .none → jobs.calls .touch = .idle)
    (hstart : w.panel.call = .start → Starting w.panel.fbPending (jobs.calls .touch))
    (hpoll : w.panel.call = .poll → Polling (jobs.calls .touch)) : Sound { w with jobs := jobs } where
  listed := h.listed
  confirms := h.confirms
  idle := hidle
  starting hcall := ⟨hstart hcall, (h.starting hcall).2⟩
  polling := hpoll
  accepted := h.accepted.trans haccepted.sublist

theorem Sound.comesBack {w : World} (h : Sound w) {jobs : Storage.DeleteJobs.World} {p : Panel}
    (haccepted : jobs.accepted = w.jobs.accepted) (hidle : jobs.calls .touch = .idle) (hl : Listed p)
    (hc : Confirms p) (hcall : p.call = .none) (hs : p.started = w.panel.started) :
    Sound { jobs := jobs, panel := p } where
  listed := hl
  confirms := hc
  idle _ := hidle
  starting hstart := absurd (hcall.symm.trans hstart) (by simp)
  polling hpoll := absurd (hcall.symm.trans hpoll) (by simp)
  accepted := by
    rw [hs, haccepted]
    exact h.accepted

theorem Sound.refused {w : World} (h : Sound w) {jobs : Storage.DeleteJobs.World}
    (haccepted : jobs.accepted = w.jobs.accepted) (hidle : jobs.calls .touch = .idle) :
    Sound { jobs := jobs, panel := { w.panel with call := .none } } :=
  h.comesBack haccepted hidle
    ⟨h.listed.dirs, h.listed.selected, h.listed.unselected, h.listed.inside, h.listed.rows⟩
    ⟨h.confirms.dialog, h.confirms.closed, h.confirms.progress, h.confirms.started⟩ rfl rfl

theorem Sound.polled {w : World} (h : Sound w) {jobs : Storage.DeleteJobs.World}
    (haccepted : jobs.accepted = w.jobs.accepted) (hidle : jobs.calls .touch = .idle) (t : FileTree)
    (progress : Storage.DeleteJobs.Progress) : Sound { jobs := jobs, panel := w.panel.polled t progress } := by
  refine h.comesBack haccepted hidle (listed_polled h.listed t progress)
    (confirms_polled h.confirms t progress) ?_ ?_
  all_goals
    unfold Panel.polled
    split_ifs <;> rfl

theorem Sound.jobStarted {w : World} (h : Sound w) {jobs : Storage.DeleteJobs.World}
    {ps : Storage.DeleteJobs.Paths} (hcall : w.panel.call = .start) (hcreate : w.jobs.calls .touch = .create ps)
    (hidle : jobs.calls .touch = .idle) (haccepted : jobs.accepted = w.jobs.accepted ++ [ps.filterMap id]) :
    Sound { jobs := jobs, panel := w.panel.jobStarted } := by
  obtain ⟨hgiven, d, hd, henabled⟩ := h.starting hcall
  rw [hcreate] at hgiven
  have hps : ps = w.panel.fbPending.map some := hgiven
  have hpaths : ps.filterMap id = d.paths := by
    rw [hps, (h.confirms.dialog d hd).1]
    simp
  refine ⟨?_, confirms_jobStarted h.confirms hd henabled, fun _ => hidle, nofun, nofun, ?_⟩
  · exact ⟨h.listed.dirs, h.listed.selected, h.listed.unselected, h.listed.inside, h.listed.rows⟩
  · simp only [Panel.jobStarted, hd, Option.toList_some, List.map_append, List.map_singleton]
    rw [haccepted, hpaths]
    exact h.accepted.append (List.Sublist.refl _)

/-- **A step of the panel's own call.** -/
theorem Sound.advance {w : World} (h : Sound w) {jobs : Storage.DeleteJobs.World} {counted : ℕ}
    {created : Bool} (hstep : w.jobs.advance .touch counted created = some jobs) :
    Sound { jobs := jobs, panel := returned w.panel w.jobs jobs (.advance .touch counted created) } := by
  rcases advance_touch hstep with ⟨ps, hcreate, rfl, hidle, haccepted⟩ | ⟨hnot, hon⟩
  · have hcall : w.panel.call = .start := by
      rcases hc : w.panel.call with _ | _ | _
      · rw [h.idle hc] at hcreate
        cases hcreate
      · rfl
      · have hpoll := h.polling hc
        rw [hcreate] at hpoll
        exact hpoll.elim
    have hreturned : returned w.panel w.jobs jobs (.advance .touch counted true) = w.panel.jobStarted := by
      simp [returned, hcall, hidle, hcreate]
    rw [hreturned]
    exact h.jobStarted hcall hcreate hidle haccepted
  · by_cases hidle : jobs.calls .touch = .idle
    · rcases hc : w.panel.call with _ | _ | _
      · rw [returned_of_none hc]
        exact h.goesOn (by rw [hon.accepted]) (fun _ => hidle) (fun hs => absurd (hc.symm.trans hs) (by simp))
          (fun hp => absurd (hc.symm.trans hp) (by simp))
      · have hreturned : returned w.panel w.jobs jobs (.advance .touch counted created) =
            { w.panel with call := .none } := by
          simp only [returned, hc, hidle]
          split
          · next ps hcreate heq =>
            simp_all
          · rfl
        rw [hreturned]
        exact h.refused hon.accepted hidle
      · simp only [returned, hc, hidle]
        split
        · exact h.polled hon.accepted hidle _ _
        · exact h.refused hon.accepted hidle
    · rw [returned_of_ne hidle]
      refine h.goesOn (by rw [hon.accepted]) (fun hc => ?_) (fun hc => ?_) (fun hc => ?_)
      · have hnone := h.idle hc
        simp [Storage.DeleteJobs.World.advance, hnone] at hstep
      · exact (hon.starting _ (h.starting hc).1).resolve_left hidle
      · exact (hon.polling (h.polling hc)).resolve_left hidle

theorem Sound.others {w : World} (h : Sound w) {jobs : Storage.DeleteJobs.World} {e : Storage.DeleteJobs.Event}
    (hcalls : jobs.calls .touch = w.jobs.calls .touch) (haccepted : w.jobs.accepted <+: jobs.accepted) :
    Sound { jobs := jobs, panel := returned w.panel w.jobs jobs e } := by
  have hsame : returned w.panel w.jobs jobs e = w.panel := by
    rcases hc : w.panel.call with _ | _ | _
    · exact returned_of_none hc _ _ _
    · exact returned_of_ne (by rw [hcalls]; exact (h.starting hc).1.ne_idle) _ _
    · exact returned_of_ne (by rw [hcalls]; exact (h.polling hc).ne_idle) _ _
  rw [hsame]
  refine h.goesOn haccepted (fun hc => ?_) (fun hc => ?_) (fun hc => ?_)
  · rw [hcalls]
    exact h.idle hc
  · rw [hcalls]
    exact (h.starting hc).1
  · rw [hcalls]
    exact h.polling hc

theorem Sound.step {w w' : World} {e : Event} (h : Sound w) (hstep : step w e = some w') : Sound w' := by
  unfold FileBrowser.step at hstep
  split at hstep
  · split_ifs at hstep with hcall
    exact h.handle hcall hstep
  · cases hstep
  · cases hstep
  · next e hstart hpoll =>
    obtain ⟨jobs, hjobs, rfl⟩ := Option.map_eq_some_iff.mp hstep
    by_cases hadvance : ∃ counted created, e = .advance .touch counted created
    · obtain ⟨counted, created, rfl⟩ := hadvance
      exact h.advance hjobs
    · push Not at hadvance
      obtain ⟨hcalls, haccepted⟩ := step_others hjobs (fun ps heq => hstart ps (heq ▸ rfl))
        (fun heq => hpoll (heq ▸ rfl)) hadvance
      exact h.others hcalls haccepted

end GpsBase.Touch.FileBrowser
