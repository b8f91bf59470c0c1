import GpsBase.Lib.Machine
import GpsBase.Storage.DeleteGuard
import GpsBase.Storage.SdDelete

/-! # One delete job at a time

`sd_delete` as it is shared by the touch panel, the web server and the worker task: each access to
`g_state`, `g_done`, `g_total`, `g_paths` and `g_result` is a step, and so is each call of the file
system of a worker. A worker whose list is changed under it goes on with what it has read, and the change
is kept in `overwritten`; its pointers then point to nothing, and the model says no more about it.

The state is read long before it is set to running, and the result is cleared while the state still says
that the last job is done. Nothing goes wrong in a run where no job has begun between a start's look at
the state and its first change, and where a poll copies the result of a state that still holds
(`one_job`). Nothing in `start` or `poll` sees to that (`two_jobs`). -/

namespace GpsBase.Storage.DeleteJobs

open GpsBase.Lib.CText GpsBase.Lib.Machine GpsBase.Storage.Card GpsBase.Storage.SdManager
  GpsBase.Storage.SdDelete
open GpsBase.Storage.DeleteGuard (topDir name_b)

/-! ### Data -/

inductive State
  | kIdle
  | kRunning
  | kDoneOk
  | kDoneFail
  deriving DecidableEq

/-- A job has ended and has a result. -/
def State.finished : State → Bool
  | .kDoneOk | .kDoneFail => true
  | _ => false

structure Progress where
  state : State := .kIdle
  done : ℕ := 0
  total : ℕ := 0
  result : DeleteResult := {}
  deriving DecidableEq

/-- The tasks that call `start` and `poll`. -/
inductive Caller
  | touch
  | web
  deriving DecidableEq

abbrev Paths := List (Option (List UInt8))

/-- What a call does next: a start, from `busy` to the creation of the task and the state after a
failure, or a poll. -/
inductive Call
  | idle
  | busy (paths : Paths)
  | guard (paths : Paths)
  | clear (paths : Paths)
  | fill (paths : Paths) (rest : List (List UInt8))
  | total (paths : Paths)
  | done (paths : Paths)
  | reset (paths : Paths)
  | running (paths : Paths)
  | create (paths : Paths)
  | undo
  | pollState
  | pollDone (p : Progress)
  | pollTotal (p : Progress)
  | pollResult (p : Progress)

/-- What a worker does next, with the paths it has read; after `publish` the task is gone. -/
inductive Duty
  | collect (read : List (List UInt8))
  | delete (read : List (List UInt8)) (frames : List Frame) (res : DeleteResult)
  | write (read : List (List UInt8)) (res : DeleteResult)
  | publish (read : List (List UInt8)) (res : DeleteResult)

/-- A worker, and the paths of the start that created it. -/
structure Worker where
  job : List (List UInt8)
  duty : Duty := .collect []

/-- `g_paths` is being read. -/
def Worker.reads (k : Worker) : Bool :=
  match k.duty with
  | .collect _ | .delete _ _ _ => true
  | _ => false

/-- The card, and what `rinex_status` says. -/
structure Surroundings where
  mounted : Bool
  tree : FileTree
  active : Bool := false
  currentFile : List UInt8 := []

/-- The module, the calls and the workers. The rest is the record: the lists of the starts that returned
true, the lists that were deleted with their results, whether `g_paths` was changed while a worker read
it, and what the polls returned beside the result of the job that had finished last. -/
structure World where
  around : Surroundings
  state : State := .kIdle
  done : ℕ := 0
  total : ℕ := 0
  result : DeleteResult := {}
  paths : List (List UInt8) := []
  calls : Caller → Call := fun _ => .idle
  workers : List Worker := []
  accepted : List (List (List UInt8)) := []
  processed : List (List (List UInt8) × DeleteResult) := []
  overwritten : Bool := false
  reports : List (Progress × Option DeleteResult) := []

/-- A step: a call begins or goes on, a worker goes on, or something else changes the card or the logger.
`counted` is what the preview counts, `created` the result of `xTaskCreate`. -/
inductive Event
  | start (t : Caller) (paths : Paths)
  | poll (t : Caller)
  | advance (t : Caller) (counted : ℕ) (created : Bool)
  | work (k : ℕ)
  | others (around : Surroundings)

namespace World

/-! ### Steps -/

def goto (w : World) (t : Caller) (c : Call) : World :=
  { w with calls := Function.update w.calls t c }

/-- A change of `g_paths`. -/
def setPaths (w : World) (paths : List (List UInt8)) : World :=
  { w with paths := paths, overwritten := w.overwritten || w.workers.any Worker.reads }

/-- The result of the job that finished last. -/
def last (w : World) : Option DeleteResult := w.processed.getLast?.map Prod.snd

def report (w : World) (p : Progress) : World := { w with reports := w.reports ++ [(p, w.last)] }

/-- A step of `start` or `poll`. -/
def advance (w : World) (t : Caller) (counted : ℕ) (created : Bool) : Option World :=
  match w.calls t with
  | .idle => none
  | .busy paths => some (w.goto t (if w.state = .kRunning then .idle else .guard paths))
  | .guard paths =>
    some (w.goto t
      (if blocksActiveFile w.around.active w.around.currentFile paths then .idle else .clear paths))
  | .clear paths => some ((w.setPaths []).goto t (.fill paths (paths.filterMap id)))
  | .fill paths (p :: rest) => some ((w.setPaths (w.paths ++ [p])).goto t (.fill paths rest))
  | .fill paths [] => some (w.goto t (if w.paths.isEmpty then .idle else .total paths))
  | .total paths => some (({ w with total := counted } : World).goto t (.done paths))
  | .done paths => some (({ w with done := 0 } : World).goto t (.reset paths))
  | .reset paths => some (({ w with result := {} } : World).goto t (.running paths))
  | .running paths => some (({ w with state := .kRunning } : World).goto t (.create paths))
  | .create paths =>
    if created then
      some (({ w with
        workers := w.workers ++ [{ job := paths.filterMap id }]
        accepted := w.accepted ++ [paths.filterMap id] } : World).goto t .idle)
    else some (w.goto t .undo)
  | .undo => some (({ w with state := .kIdle } : World).goto t .idle)
  | .pollState => some (w.goto t (.pollDone { state := w.state }))
  | .pollDone p => some (w.goto t (.pollTotal { p with done := w.done }))
  | .pollTotal p =>
    let p := { p with total := w.total }
    some (if p.state.finished then w.goto t (.pollResult p) else (w.report p).goto t .idle)
  | .pollResult p => some ((w.report { p with result := w.result }).goto t .idle)

/-- A step of `delete_task`. -/
def work (w : World) (i : ℕ) : Option World :=
  w.workers[i]?.map fun k =>
    match k.duty with
    | .collect read =>
      let duty := match w.paths[read.length]? with
        | some p => .collect (read ++ [p])
        | none => .delete read [.batch read] {}
      { w with workers := w.workers.set i { k with duty := duty } }
    | .delete read [] res => { w with workers := w.workers.set i { k with duty := .write read res } }
    | .delete read (f :: fs) res =>
      let r := SdDelete.work w.around.mounted f { tree := w.around.tree, res := res, progress := w.done }
      { w with
        around := { w.around with tree := r.1.tree }
        done := r.1.progress
        workers := w.workers.set i { k with duty := .delete read (r.2 ++ fs) r.1.res } }
    | .write read res =>
      { w with result := res, workers := w.workers.set i { k with duty := .publish read res } }
    | .publish read res =>
      { w with
        state := if res.failed > 0 then .kDoneFail else .kDoneOk
        workers := w.workers.eraseIdx i
        processed := w.processed ++ [(read, res)] }

def step (w : World) : Event → Option World
  | .start t paths =>
    match w.calls t with
    | .idle => some (if w.around.mounted then w.goto t (.busy paths) else w)
    | _ => none
  | .poll t =>
    match w.calls t with
    | .idle => some (w.goto t .pollState)
    | _ => none
  | .advance t counted created => w.advance t counted created
  | .work i => w.work i
  | .others around => some { w with around := around }

end World

/-! ### One job -/

/-- **One delete job at a time**: at most one worker runs, the lists that were accepted are the lists that
were deleted and the one being deleted, no list was changed under a worker, and the polls that reported
the end of a job returned the result of the last one. -/
structure OneJob (w : World) : Prop where
  workers : w.workers.length ≤ 1
  processed : w.accepted = w.processed.map Prod.fst ++ w.workers.map Worker.job
  kept : w.overwritten = false
  reports : ∀ r ∈ w.reports, r.1.state.finished = true → r.2 = some r.1.result

/-- A start that has begun to change things, up to its store of `kRunning`. -/
def Call.updates : Call → Bool
  | .fill _ _ | .total _ | .done _ | .reset _ | .running _ => true
  | _ => false

/-- A start that has cleared the result and not yet stored `kRunning`. -/
def Call.cleared : Call → Bool
  | .running _ => true
  | _ => false

/-- **The condition on a step.** A start makes its first change only while no job runs and no other start
is changing things, and a poll copies the result only while the state says that a job has ended and no
start has cleared its result. -/
def Orderly (w : World) : Event → Prop
  | .advance t _ _ =>
    (∀ paths, w.calls t = .clear paths →
      w.state ≠ .kRunning ∧ ∀ u, (w.calls u).updates = false) ∧
    (∀ p, w.calls t = .pollResult p →
      w.state.finished = true ∧ ∀ u, (w.calls u).cleared = false)
  | _ => True

/-- Nothing has begun. -/
structure Quiet (w : World) : Prop where
  state : w.state = .kIdle
  calls : ∀ t, w.calls t = .idle
  workers : w.workers = []
  accepted : w.accepted = []
  processed : w.processed = []
  kept : w.overwritten = false
  reports : w.reports = []

/-! ### The invariant -/

/-- A start that has stored `kRunning` and not yet returned. -/
def Call.launches : Call → Bool
  | .create _ | .undo => true
  | _ => false

/-- What `g_paths` is while a start fills it and behind that. -/
def Call.Filled (paths : List (List UInt8)) : Call → Prop
  | .fill all rest => paths ++ rest = all.filterMap id
  | .total all | .done all | .reset all | .running all | .create all => paths = all.filterMap id
  | _ => True

def Worker.Reads (result : DeleteResult) (k : Worker) : Prop :=
  match k.duty with
  | .collect read => read <+: k.job
  | .delete read _ _ => read = k.job
  | .write read _ => read = k.job
  | .publish read res => read = k.job ∧ result = res

/-- What holds in a run whose steps are orderly. -/
structure Inv (w : World) : Prop where
  alone : ∀ t u, (w.calls t).updates = true → (w.calls u).updates = true → t = u
  updating : ∀ t, (w.calls t).updates = true → w.state ≠ .kRunning
  launching : ∀ t, (w.calls t).launches = true → w.state = .kRunning ∧ w.workers = []
  together : ∀ t u, (w.calls t).launches = true → (w.calls u).launches = true → t = u
  resting : w.state ≠ .kRunning → w.workers = []
  filled : ∀ t, (w.calls t).Filled w.paths
  worker : w.workers = [] ∨ ∃ k, w.workers = [k] ∧ w.paths = k.job ∧ k.Reads w.result
  ended : w.state.finished = true → (∀ t, (w.calls t).cleared = false) → w.last = some w.result
  processed : w.accepted = w.processed.map Prod.fst ++ w.workers.map Worker.job
  kept : w.overwritten = false
  reports : ∀ r ∈ w.reports, r.1.state.finished = true → r.2 = some r.1.result

theorem Inv.oneJob {w : World} (h : Inv w) : OneJob w where
  workers := by
    rcases h.worker with hk | ⟨k, hk, -⟩
    · rw [hk]
      exact Nat.zero_le 1
    · rw [hk]
      exact le_rfl
  processed := h.processed
  kept := h.kept
  reports := h.reports

theorem Quiet.inv {w : World} (h : Quiet w) : Inv w where
  alone t u ht := by
    rw [h.calls t] at ht
    cases ht
  updating t ht := by
    rw [h.calls t] at ht
    cases ht
  launching t ht := by
    rw [h.calls t] at ht
    cases ht
  together t u ht := by
    rw [h.calls t] at ht
    cases ht
  resting _ := h.workers
  filled t := by
    rw [h.calls t]
    exact trivial
  worker := Or.inl h.workers
  ended hstate := by
    rw [h.state] at hstate
    cases hstate
  processed := by
    rw [h.accepted, h.processed, h.workers]
    rfl
  kept := h.kept
  reports r hr := by
    rw [h.reports] at hr
    cases hr

/-! ### Steps of a call -/

theorem calls_goto_self (w : World) (t : Caller) (c : Call) : (w.goto t c).calls t = c := by
  simp only [World.goto, Function.update_self]

theorem calls_goto_of_ne (w : World) {t u : Caller} (h : u ≠ t) (c : Call) :
    (w.goto t c).calls u = w.calls u := by
  simp only [World.goto, Function.update_of_ne h]

/-- What held of no new state of a call held of another call. -/
theorem of_goto {w : World} {t u : Caller} {c : Call} {P : Call → Bool} (hc : P c = false)
    (h : P ((w.goto t c).calls u) = true) : u ≠ t ∧ P (w.calls u) = true := by
  rcases eq_or_ne u t with rfl | hne
  · rw [calls_goto_self, hc] at h
    cases h
  · rw [calls_goto_of_ne w hne] at h
    exact ⟨hne, h⟩

theorem Inv.goto {w : World} (h : Inv w) {t : Caller} {c : Call} (hupdates : c.updates = false)
    (hlaunches : c.launches = false) (hfilled : c.Filled w.paths)
    (hcleared : (w.calls t).cleared = false) : Inv (w.goto t c) where
  alone u v hu hv :=
    h.alone u v (of_goto (P := Call.updates) hupdates hu).2 (of_goto (P := Call.updates) hupdates hv).2
  updating u hu := h.updating u (of_goto (P := Call.updates) hupdates hu).2
  launching u hu := h.launching u (of_goto (P := Call.launches) hlaunches hu).2
  together u v hu hv :=
    h.together u v (of_goto (P := Call.launches) hlaunches hu).2
      (of_goto (P := Call.launches) hlaunches hv).2
  resting := h.resting
  filled := (Function.forall_update_iff w.calls fun _ c => c.Filled w.paths).mpr
    ⟨hfilled, fun u _ => h.filled u⟩
  worker := h.worker
  ended hstate hnone := by
    refine h.ended hstate fun u => ?_
    rcases eq_or_ne u t with rfl | hne
    · exact hcleared
    · have hu := hnone u
      rwa [calls_goto_of_ne w hne] at hu
  processed := h.processed
  kept := h.kept
  reports := h.reports

theorem Inv.change {w : World} (h : Inv w) {t : Caller} {c : Call} (hstate : w.state ≠ .kRunning)
    (halone : ∀ u, u ≠ t → (w.calls u).updates = false) (hlaunches : c.launches = false)
    (hcleared : (w.calls t).cleared = false) (paths : List (List UInt8)) (total done : ℕ)
    (result : DeleteResult) (hfilled : c.Filled paths) (hresult : result = w.result ∨ c.cleared = true) :
    Inv (({ w with paths := paths, total := total, done := done, result := result } : World).goto t c) where
  alone u v hu hv := by
    have hself : ∀ x, ((w.goto t c).calls x).updates = true → x = t := by
      intro x hx
      by_contra hne
      rw [calls_goto_of_ne w hne, halone x hne] at hx
      cases hx
    rw [hself u hu, hself v hv]
  updating _ _ := hstate
  launching u hu := h.launching u (of_goto (P := Call.launches) hlaunches hu).2
  together u v hu hv :=
    h.together u v (of_goto (P := Call.launches) hlaunches hu).2
      (of_goto (P := Call.launches) hlaunches hv).2
  resting := h.resting
  filled := by
    refine (Function.forall_update_iff w.calls fun _ c => c.Filled paths).mpr ⟨hfilled, fun u hne => ?_⟩
    -- no other start is past its first change
    have hnot := halone u hne
    have hlaunch : (w.calls u).launches = false := by
      by_contra hu
      exact hstate (h.launching u (by simpa using hu)).1
    generalize w.calls u = d at hnot hlaunch
    cases d with
    | create _ => cases hlaunch
    | fill _ _ => cases hnot
    | total _ => cases hnot
    | done _ => cases hnot
    | reset _ => cases hnot
    | running _ => cases hnot
    | _ => exact trivial
  worker := Or.inl (h.resting hstate)
  ended hfinished hnone := by
    have hc := hnone t
    rw [calls_goto_self] at hc
    rcases hresult with rfl | hset
    · refine h.ended hfinished fun u => ?_
      rcases eq_or_ne u t with rfl | hne
      · exact hcleared
      · have hu := hnone u
        rwa [calls_goto_of_ne _ hne] at hu
    · rw [hset] at hc
      cases hc
  processed := h.processed
  kept := h.kept
  reports := h.reports

theorem setPaths_resting {w : World} (h : w.workers = []) (paths : List (List UInt8)) :
    w.setPaths paths = { w with paths := paths } := by
  unfold World.setPaths
  rw [h, List.any_nil, Bool.or_false]

theorem inv_running {w : World} (h : Inv w) {t : Caller} {paths : Paths}
    (ht : w.calls t = .running paths) :
    Inv (({ w with state := .kRunning } : World).goto t (.create paths)) := by
  have hupdates : (w.calls t).updates = true := by
    rw [ht]
    rfl
  have hstate := h.updating t hupdates
  have hothers : ∀ u, u ≠ t → (w.calls u).updates = false ∧ (w.calls u).launches = false := by
    refine fun u hne => ⟨?_, ?_⟩
    · by_contra hu
      exact hne (h.alone u t (by simpa using hu) hupdates)
    · by_contra hu
      exact hstate (h.launching u (by simpa using hu)).1
  have hnone : ∀ u, ((({ w with state := .kRunning } : World).goto t (.create paths)).calls u).updates =
      true → False := by
    intro u hu
    obtain ⟨hne, hu⟩ := of_goto (w := { w with state := .kRunning }) (P := Call.updates) rfl hu
    rw [(hothers u hne).1] at hu
    cases hu
  have hself : ∀ u, ((({ w with state := .kRunning } : World).goto t (.create paths)).calls u).launches =
      true → u = t := by
    intro u hu
    by_contra hne
    rw [calls_goto_of_ne _ hne, (hothers u hne).2] at hu
    cases hu
  refine ⟨fun u v hu => (hnone u hu).elim, fun u hu => (hnone u hu).elim,
    fun u _ => ⟨rfl, h.resting hstate⟩, fun u v hu hv => (hself u hu).trans (hself v hv).symm,
    fun hne => absurd rfl hne, ?_, h.worker, fun hfinished => (by cases hfinished), h.processed, h.kept,
    h.reports⟩
  refine (Function.forall_update_iff w.calls fun _ c => c.Filled w.paths).mpr ⟨?_, fun u _ => h.filled u⟩
  have hfilled := h.filled t
  rw [ht] at hfilled
  exact hfilled

theorem inv_create {w : World} (h : Inv w) {t : Caller} {paths : Paths}
    (ht : w.calls t = .create paths) :
    Inv (({ w with
      workers := w.workers ++ [{ job := paths.filterMap id }]
      accepted := w.accepted ++ [paths.filterMap id] } : World).goto t .idle) := by
  have hlaunches : (w.calls t).launches = true := by
    rw [ht]
    rfl
  obtain ⟨hstate, hworkers⟩ := h.launching t hlaunches
  have hfilled := h.filled t
  rw [ht] at hfilled
  have hnone : ∀ u, ((w.goto t .idle).calls u).launches = true → False := by
    intro u hu
    obtain ⟨hne, hu⟩ := of_goto (P := Call.launches) rfl hu
    exact hne (h.together u t hu hlaunches)
  refine ⟨fun u v hu hv => ?_, fun u hu => ?_, fun u hu => (hnone u hu).elim,
    fun u v hu => (hnone u hu).elim, fun hne => absurd hstate hne, ?_, Or.inr ?_,
    fun hfinished => ?_, ?_, h.kept, h.reports⟩
  · exact h.alone u v (of_goto (w := w) (P := Call.updates) rfl hu).2
      (of_goto (w := w) (P := Call.updates) rfl hv).2
  · exact h.updating u (of_goto (w := w) (P := Call.updates) rfl hu).2
  · exact (Function.forall_update_iff w.calls fun _ c => c.Filled w.paths).mpr
      ⟨trivial, fun u _ => h.filled u⟩
  · refine ⟨{ job := paths.filterMap id }, ?_, hfilled, List.nil_prefix⟩
    unfold World.goto
    dsimp only
    rw [hworkers]
    rfl
  · change w.state.finished = true at hfinished
    rw [hstate] at hfinished
    cases hfinished
  · have hprocessed := h.processed
    rw [hworkers, List.map_nil, List.append_nil] at hprocessed
    unfold World.goto
    dsimp only
    rw [hworkers, hprocessed]
    rfl

theorem inv_undo {w : World} (h : Inv w) {t : Caller} (ht : w.calls t = .undo) :
    Inv (({ w with state := .kIdle } : World).goto t .idle) := by
  have hlaunches : (w.calls t).launches = true := by
    rw [ht]
    rfl
  obtain ⟨hstate, hworkers⟩ := h.launching t hlaunches
  have hnone : ∀ u, ((w.goto t .idle).calls u).launches = true → False := by
    intro u hu
    obtain ⟨hne, hu⟩ := of_goto (P := Call.launches) rfl hu
    exact hne (h.together u t hu hlaunches)
  refine ⟨fun u v hu hv => ?_, fun u _ hne => (by cases hne), fun u hu => (hnone u hu).elim,
    fun u v hu => (hnone u hu).elim, fun _ => hworkers, ?_, Or.inl hworkers,
    fun hfinished => (by cases hfinished), h.processed, h.kept, h.reports⟩
  · exact h.alone u v (of_goto (w := w) (P := Call.updates) rfl hu).2
      (of_goto (w := w) (P := Call.updates) rfl hv).2
  · exact (Function.forall_update_iff w.calls fun _ c => c.Filled w.paths).mpr
      ⟨trivial, fun u _ => h.filled u⟩

/-- The task could not be created, and the state still says that it runs. -/
theorem inv_failed {w : World} (h : Inv w) {t : Caller} {paths : Paths}
    (ht : w.calls t = .create paths) : Inv (w.goto t .undo) := by
  have hlaunches : (w.calls t).launches = true := by
    rw [ht]
    rfl
  have hself : ∀ u, ((w.goto t .undo).calls u).launches = true → u = t := by
    intro u hu
    by_contra hne
    rw [calls_goto_of_ne w hne] at hu
    exact hne (h.together u t hu hlaunches)
  refine ⟨fun u v hu hv => ?_, fun u hu => ?_, fun u _ => h.launching t hlaunches,
    fun u v hu hv => (hself u hu).trans (hself v hv).symm, h.resting, ?_, h.worker,
    fun hfinished => ?_, h.processed, h.kept, h.reports⟩
  · exact h.alone u v (of_goto (P := Call.updates) rfl hu).2 (of_goto (P := Call.updates) rfl hv).2
  · exact h.updating u (of_goto (P := Call.updates) rfl hu).2
  · exact (Function.forall_update_iff w.calls fun _ c => c.Filled w.paths).mpr
      ⟨trivial, fun u _ => h.filled u⟩
  · change w.state.finished = true at hfinished
    rw [(h.launching t hlaunches).1] at hfinished
    cases hfinished

theorem Inv.report {w : World} (h : Inv w) {p : Progress}
    (hp : p.state.finished = true → w.last = some p.result) : Inv (w.report p) where
  alone := h.alone
  updating := h.updating
  launching := h.launching
  together := h.together
  resting := h.resting
  filled := h.filled
  worker := h.worker
  ended := h.ended
  processed := h.processed
  kept := h.kept
  reports r hr hfinished := by
    rcases List.mem_append.mp hr with hr | hr
    · exact h.reports r hr hfinished
    · rw [List.mem_singleton.mp hr] at hfinished ⊢
      exact hp hfinished

/-- A start that changes things is the only one, and no job runs. -/
theorem Inv.exclusive {w : World} (h : Inv w) {t : Caller} (ht : (w.calls t).updates = true) :
    w.state ≠ .kRunning ∧ ∀ u, u ≠ t → (w.calls u).updates = false := by
  refine ⟨h.updating t ht, fun u hne => ?_⟩
  by_contra hu
  exact hne (h.alone u t (by simpa using hu) ht)

theorem inv_advance {w w' : World} (h : Inv w) {t : Caller} {counted : ℕ} {created : Bool}
    (hC : Orderly w (.advance t counted created)) (hw : w.advance t counted created = some w') :
    Inv w' := by
  have hfilled := h.filled t
  unfold World.advance at hw
  cases ht : w.calls t with
  | idle =>
    rw [ht] at hw
    cases hw
  | busy paths =>
    rw [ht] at hw
    cases hw
    split_ifs
    · exact h.goto rfl rfl trivial (by rw [ht]; rfl)
    · exact h.goto rfl rfl trivial (by rw [ht]; rfl)
  | guard paths =>
    rw [ht] at hw
    cases hw
    split_ifs
    · exact h.goto rfl rfl trivial (by rw [ht]; rfl)
    · exact h.goto rfl rfl trivial (by rw [ht]; rfl)
  | clear paths =>
    obtain ⟨hstate, hothers⟩ := hC.1 paths ht
    rw [ht] at hw
    cases hw
    rw [setPaths_resting (h.resting hstate)]
    exact h.change hstate (fun u _ => hothers u) rfl (by rw [ht]; rfl) [] w.total w.done w.result rfl
      (Or.inl rfl)
  | fill paths rest =>
    obtain ⟨hstate, hothers⟩ := h.exclusive (t := t) (by rw [ht]; rfl)
    rw [ht] at hfilled
    cases rest with
    | nil =>
      rw [ht] at hw
      dsimp only at hw
      cases hw
      split_ifs
      · exact h.goto rfl rfl trivial (by rw [ht]; rfl)
      · exact h.change hstate hothers rfl (by rw [ht]; rfl) w.paths w.total w.done w.result
          ((List.append_nil w.paths).symm.trans hfilled) (Or.inl rfl)
    | cons p rest =>
      rw [ht] at hw
      dsimp only at hw
      cases hw
      rw [setPaths_resting (h.resting hstate)]
      refine h.change hstate hothers rfl (by rw [ht]; rfl) (w.paths ++ [p]) w.total w.done w.result ?_
        (Or.inl rfl)
      exact (List.append_assoc w.paths [p] rest).trans hfilled
  | total paths =>
    obtain ⟨hstate, hothers⟩ := h.exclusive (t := t) (by rw [ht]; rfl)
    rw [ht] at hw hfilled
    cases hw
    exact h.change hstate hothers rfl (by rw [ht]; rfl) w.paths counted w.done w.result hfilled
      (Or.inl rfl)
  | done paths =>
    obtain ⟨hstate, hothers⟩ := h.exclusive (t := t) (by rw [ht]; rfl)
    rw [ht] at hw hfilled
    cases hw
    exact h.change hstate hothers rfl (by rw [ht]; rfl) w.paths w.total 0 w.result hfilled (Or.inl rfl)
  | reset paths =>
    obtain ⟨hstate, hothers⟩ := h.exclusive (t := t) (by rw [ht]; rfl)
    rw [ht] at hw hfilled
    cases hw
    exact h.change hstate hothers rfl (by rw [ht]; rfl) w.paths w.total w.done {} hfilled (Or.inr rfl)
  | running paths =>
    rw [ht] at hw
    cases hw
    exact inv_running h ht
  | create paths =>
    rw [ht] at hw
    dsimp only at hw
    cases created with
    | true =>
      rw [if_pos rfl] at hw
      cases hw
      exact inv_create h ht
    | false =>
      rw [if_neg Bool.false_ne_true] at hw
      cases hw
      exact inv_failed h ht
  | undo =>
    rw [ht] at hw
    cases hw
    exact inv_undo h ht
  | pollState =>
    rw [ht] at hw
    cases hw
    exact h.goto rfl rfl trivial (by rw [ht]; rfl)
  | pollDone p =>
    rw [ht] at hw
    cases hw
    exact h.goto rfl rfl trivial (by rw [ht]; rfl)
  | pollTotal p =>
    rw [ht] at hw
    dsimp only at hw
    cases hw
    split_ifs with hfinished
    · exact h.goto rfl rfl trivial (by rw [ht]; rfl)
    · have hreport := h.report (p := { p with total := w.total }) fun hf => absurd hf hfinished
      exact hreport.goto (t := t) (c := .idle) rfl rfl trivial (by
        rw [show (w.report { p with total := w.total }).calls t = w.calls t from rfl, ht]
        rfl)
  | pollResult p =>
    obtain ⟨hfinished, hnone⟩ := hC.2 p ht
    rw [ht] at hw
    cases hw
    have hreport := h.report (p := { p with result := w.result }) fun _ => h.ended hfinished hnone
    exact hreport.goto (t := t) (c := .idle) rfl rfl trivial (by
      rw [show (w.report { p with result := w.result }).calls t = w.calls t from rfl, ht]
      rfl)

/-! ### Steps of a worker -/

/-- While a worker runs the state says so, and no start changes anything. -/
theorem Inv.working {w : World} (h : Inv w) {k : Worker} (hk : w.workers = [k]) :
    w.state = .kRunning ∧ (∀ t, (w.calls t).updates = false) ∧ ∀ t, (w.calls t).launches = false := by
  have hstate : w.state = .kRunning := by
    by_contra hne
    rw [h.resting hne] at hk
    cases hk
  refine ⟨hstate, fun t => ?_, fun t => ?_⟩
  · by_contra ht
    exact h.updating t (by simpa using ht) hstate
  · by_contra ht
    rw [(h.launching t (by simpa using ht)).2] at hk
    cases hk

theorem Inv.work {w : World} (h : Inv w) {k : Worker} (hk : w.workers = [k]) (duty : Duty)
    (around : Surroundings) (done : ℕ) (result : DeleteResult)
    (hreads : Worker.Reads result { k with duty := duty }) :
    Inv { w with around := around, done := done, result := result,
                 workers := [{ k with duty := duty }] } := by
  obtain ⟨hstate, hupdates, hlaunches⟩ := h.working hk
  have hpaths : w.paths = k.job := by
    rcases h.worker with hnil | ⟨k', hk', hpaths, -⟩
    · rw [hnil] at hk
      cases hk
    · rw [hk] at hk'
      cases hk'
      exact hpaths
  refine ⟨h.alone, h.updating, fun t ht => ?_, h.together, fun hne => absurd hstate hne, h.filled,
    Or.inr ⟨_, rfl, hpaths, hreads⟩, fun hfinished => ?_, ?_, h.kept, h.reports⟩
  · change (w.calls t).launches = true at ht
    rw [hlaunches t] at ht
    cases ht
  · change w.state.finished = true at hfinished
    rw [hstate] at hfinished
    cases hfinished
  · have hprocessed := h.processed
    rw [hk] at hprocessed
    exact hprocessed

theorem reads_collect {job read : List (List UInt8)} (h : read <+: job) (result : DeleteResult) :
    Worker.Reads result
      { job := job
        duty := match job[read.length]? with
          | some p => .collect (read ++ [p])
          | none => .delete read [.batch read] {} } := by
  obtain ⟨rest, rfl⟩ := h
  cases rest with
  | nil =>
    rw [List.append_nil, List.getElem?_eq_none le_rfl]
    rfl
  | cons p rest =>
    rw [List.getElem?_append_right le_rfl, Nat.sub_self]
    exact ⟨rest, List.append_assoc read [p] rest⟩

theorem inv_work {w w' : World} (h : Inv w) {i : ℕ} (hw : w.work i = some w') : Inv w' := by
  unfold World.work at hw
  obtain ⟨k, hget, heq⟩ := Option.map_eq_some_iff.mp hw
  rcases h.worker with hnil | ⟨k', hk, hpaths, hreads⟩
  · rw [hnil] at hget
    cases hget
  · -- there is one worker, and it is the one that goes on
    rw [hk, List.getElem?_singleton] at hget
    obtain ⟨rfl, hi⟩ : k' = k ∧ i = 0 := by
      split_ifs at hget with hi
      exact ⟨Option.some.inj hget, hi⟩
    subst hi
    obtain ⟨hstate, hupdates, hlaunches⟩ := h.working hk
    unfold Worker.Reads at hreads
    cases hduty : k'.duty with
    | collect read =>
      rw [hduty] at heq hreads
      dsimp only at heq hreads
      rw [hk, List.set_cons_zero] at heq
      rw [← heq]
      refine h.work hk _ w.around w.done w.result ?_
      rw [hpaths]
      exact reads_collect hreads w.result
    | delete read frames res =>
      rw [hduty] at heq hreads
      cases frames with
      | nil =>
        dsimp only at heq
        rw [hk, List.set_cons_zero] at heq
        rw [← heq]
        exact h.work hk _ w.around w.done w.result hreads
      | cons f fs =>
        dsimp only at heq
        rw [hk, List.set_cons_zero] at heq
        rw [← heq]
        exact h.work hk _ _ _ w.result hreads
    | write read res =>
      rw [hduty] at heq hreads
      dsimp only at heq
      rw [hk, List.set_cons_zero] at heq
      rw [← heq]
      exact h.work hk _ w.around w.done res ⟨hreads, rfl⟩
    | publish read res =>
      rw [hduty] at heq hreads
      dsimp only at heq hreads
      obtain ⟨hread, hresult⟩ := hreads
      rw [hk, List.eraseIdx_cons_zero] at heq
      rw [← heq]
      have hnot : (if res.failed > 0 then State.kDoneFail else .kDoneOk) ≠ .kRunning := by
        split_ifs <;> exact nofun
      refine ⟨h.alone, fun _ _ => hnot, fun t ht => ?_, h.together, fun _ => rfl, h.filled, Or.inl rfl,
        fun _ _ => ?_, ?_, h.kept, h.reports⟩
      · change (w.calls t).launches = true at ht
        rw [hlaunches t] at ht
        cases ht
      · unfold World.last
        rw [List.getLast?_concat, hresult]
        rfl
      · have hprocessed := h.processed
        rw [hk] at hprocessed
        rw [List.map_append, hread]
        exact hprocessed.trans (List.append_nil _).symm

theorem inv_step {w w' : World} (h : Inv w) {e : Event} (hC : Orderly w e) (hw : w.step e = some w') :
    Inv w' := by
  cases e with
  | start t paths =>
    unfold World.step at hw
    dsimp only at hw
    cases ht : w.calls t with
    | idle =>
      rw [ht] at hw
      cases hw
      split_ifs
      · exact h.goto rfl rfl trivial (by rw [ht]; rfl)
      · exact h
    | _ =>
      rw [ht] at hw
      cases hw
  | poll t =>
    unfold World.step at hw
    dsimp only at hw
    cases ht : w.calls t with
    | idle =>
      rw [ht] at hw
      cases hw
      exact h.goto rfl rfl trivial (by rw [ht]; rfl)
    | _ =>
      rw [ht] at hw
      cases hw
  | advance t counted created => exact inv_advance h hC hw
  | work i => exact inv_work h hw
  | others around =>
    cases hw
    exact ⟨h.alone, h.updating, h.launching, h.together, h.resting, h.filled, h.worker, h.ended,
      h.processed, h.kept, h.reports⟩

/-- **One delete job at a time** in every state of a run whose steps are orderly. -/
theorem one_job {w w' : World} (h : Quiet w) {events : List Event}
    (hC : Along World.step Orderly w events) (hrun : run World.step w events = some w') : OneJob w' :=
  (run_invariant_along (I := Inv) (fun _ _ _ hI hC hs => inv_step hI hC hs) events h.inv hC
    hrun).oneJob

/-! ### Two starts, and a poll -/

def card : FileTree where
  nodes := [topDir (ascii "a") (by decide), topDir (ascii "b") name_b]
  unique := by decide
  parents := fun n hn => Or.inl (by revert n; decide)

def booted : World where
  around := ⟨true, card, false, []⟩

def pathA : List UInt8 := ascii "/sdcard/a"

def pathB : List UInt8 := ascii "/sdcard/b"

/-- A call goes on for some steps. -/
def onward (t : Caller) (steps : ℕ) : List Event := List.replicate steps (.advance t 1 true)

/-- Both start, and both look at the state before either has set it; the panel goes through, its worker
reads its list, and the web goes through. -/
def together : List Event :=
  [Event.start .touch [some pathA], .start .web [some pathB]] ++ onward .touch 1 ++ onward .web 1 ++
    onward .touch 9 ++ [Event.work 0] ++ onward .web 9

def wholeJob (t : Caller) (path : List UInt8) : List Event :=
  [Event.start t [some path]] ++ onward t 10 ++ List.replicate 9 (.work 0)

/-- A job ends, a start clears the result, and a poll looks. -/
def early : List Event :=
  wholeJob .touch pathA ++ [Event.start .web [some pathB]] ++ onward .web 8 ++ [Event.poll .touch] ++
    onward .touch 4

/-- **Two jobs run at once**, and the second changes the list that the first one reads; and a poll reports
the end of a job with the result that the next start has cleared. -/
theorem two_jobs :
    (∃ w, run World.step booted together = some w ∧ w.workers.length = 2 ∧ w.overwritten = true) ∧
    ∃ w, run World.step booted early = some w ∧
      w.reports = [(⟨.kDoneOk, 0, 1, {}⟩, some { requested := 1, deleted := 1 })] := by
  have hruns : (run World.step booted together).map (fun w => (w.workers.length, w.overwritten)) =
        some (2, true) ∧
      (run World.step booted early).map World.reports =
        some [(⟨.kDoneOk, 0, 1, {}⟩, some { requested := 1, deleted := 1 })] := by
    decide +kernel
  obtain ⟨⟨w, hw, heq⟩, v, hv, hreports⟩ :=
    hruns.imp Option.map_eq_some_iff.mp Option.map_eq_some_iff.mp
  exact ⟨⟨w, hw, (Prod.mk.inj heq).1, (Prod.mk.inj heq).2⟩, v, hv, hreports⟩

/-- The state and the calls meet the condition. -/
def calm (w : World) : Event → Bool
  | .advance t _ _ =>
    match w.calls t with
    | .clear _ => w.state != .kRunning && [Caller.touch, .web].all fun u => !(w.calls u).updates
    | .pollResult _ => w.state.finished && [Caller.touch, .web].all fun u => !(w.calls u).cleared
    | _ => true
  | _ => true

theorem orderly_of_calm (w : World) (e : Event) (h : calm w e = true) : Orderly w e := by
  have hall : ∀ P : Call → Bool, ([Caller.touch, .web].all fun u => !P (w.calls u)) = true →
      ∀ u, P (w.calls u) = false := by
    intro P hP u
    simp only [List.all_cons, List.all_nil, Bool.and_true, Bool.and_eq_true, Bool.not_eq_true'] at hP
    cases u with
    | touch => exact hP.1
    | web => exact hP.2
  cases e with
  | advance t counted created =>
    unfold calm at h
    dsimp only at h
    refine ⟨fun paths ht => ?_, fun p ht => ?_⟩
    · rw [ht] at h
      dsimp only at h
      rw [Bool.and_eq_true, bne_iff_ne] at h
      exact ⟨h.1, hall _ h.2⟩
    · rw [ht] at h
      dsimp only at h
      rw [Bool.and_eq_true] at h
      exact ⟨h.1, hall _ h.2⟩
  | start t paths => exact trivial
  | poll t => exact trivial
  | work i => exact trivial
  | others around => exact trivial

/-- Two jobs one after the other, and a poll of each end. -/
def inTurn : List Event :=
  wholeJob .touch pathA ++ [Event.poll .web] ++ onward .web 4 ++ wholeJob .web pathB ++ [Event.poll .touch] ++
    onward .touch 4

theorem one_job_booted :
    ∃ w, run World.step booted inTurn = some w ∧ OneJob w ∧ w.processed.length = 2 ∧
      w.reports.length = 2 := by
  have hcalm : ((run World.step booted inTurn).map fun w => (w.processed.length, w.reports.length)) =
        some (2, 2) ∧
      checkAlong World.step calm booted inTurn = true := by
    decide +kernel
  obtain ⟨hrun, hchecked⟩ := hcalm
  obtain ⟨w, hw, heq⟩ := Option.map_eq_some_iff.mp hrun
  refine ⟨w, hw, one_job ⟨rfl, fun _ => rfl, rfl, rfl, rfl, rfl, rfl⟩
    (along_of_check orderly_of_calm _ _ hchecked) hw, (Prod.mk.inj heq).1, (Prod.mk.inj heq).2⟩

end GpsBase.Storage.DeleteJobs
