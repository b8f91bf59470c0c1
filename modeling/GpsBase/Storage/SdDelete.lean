import GpsBase.Storage.SdManager
import Mathlib.Logic.Relation

/-! # The delete job

A bulk deletion runs in a task of its own while the other tasks go on. `remove_tree` is therefore cut
where it calls the file system: what the task still has to do is a stack of frames, and `work` is the
first of them. A task that nobody disturbs does what `delete_paths` does (`works_deletePaths`). -/

namespace GpsBase.Storage.SdDelete

open GpsBase.Lib.CText GpsBase.Storage.Card GpsBase.Storage.SdManager

/-! ### The guard of the file being written -/

/-- `blocks_active_file`, on what `rinex_status` says. -/
def blocksActiveFile (active : Bool) (af : List UInt8) (paths : List (Option (List UInt8))) : Bool :=
  if !active || af.isEmpty then false
  else
    paths.any fun path => path.any fun p =>
      let same := af = p
      let inside := p.length < af.length && p.isPrefixOf af && af[p.length]? = some slash
      same || inside

/-! ### The task -/

/-- What is left to do: a list of paths as a whole, or, in `remove_tree`, the call of `stat`, the
directory to be read, the file to be removed, and what follows the loop over the names. -/
inductive Frame
  | batch (paths : List (List UInt8))
  | visit (path : List UInt8) (keepShell : Bool)
  | list (path : List UInt8) (keepShell : Bool)
  | unlink (path : List UInt8)
  | finish (path : List UInt8) (keepShell : Bool)
  deriving DecidableEq

/-- A frame, and the frames it leaves. -/
def work (mounted : Bool) : Frame → Deleting → Deleting × List Frame
  | .batch paths, s =>
    if !mounted then
      ({ s with res :=
          { requested := paths.length, skipped := paths.length, firstError := ascii "SD not mounted" } }, [])
    else
      match paths.find? fun path => refused (some path) with
      | some path =>
        ({ s with res :=
            { requested := paths.length, skipped := paths.length
              firstError := errorText (ascii "refused: " ++ path) } }, [])
      | none =>
        ({ s with res := { requested := paths.length } },
          paths.map fun path => .visit path (checkDeletable path = .kManagedDir))
  | .visit path keepShell, s =>
    match stat s.tree path with
    | .error e => (s.noteFail path e, [])
    | .ok .dir => (s, [.list path keepShell])
    | .ok (.file _) => (s, [.unlink path])
  | .list path keepShell, s =>
    if !safePath path then (s.skip, [])
    else
      let names := (readdir s.tree path).filter fun n => n ≠ ascii "." && n ≠ ascii ".."
      (s, names.map (fun name => .visit (path ++ slash :: name) false) ++ [.finish path keepShell])
  | .unlink path, s => (s.unlink path, [])
  | .finish path keepShell, s => (if keepShell then s.skip else s.unlink path, [])

/-- The places a frame unlinks on a tree. -/
def Frame.unlinks (t : FileTree) : Frame → List Place
  | .unlink path => if (Card.unlink t path).toBool then [place path] else []
  | .finish path keepShell => if !keepShell && (Card.unlink t path).toBool then [place path] else []
  | _ => []

/-! ### A task alone -/

def Works (mounted : Bool) (c c' : List Frame × Deleting) : Prop :=
  ∃ f fs, c.1 = f :: fs ∧ c' = ((work mounted f c.2).2 ++ fs, (work mounted f c.2).1)

theorem works_head {mounted : Bool} {f : Frame} {fs new : List Frame} {s s' : Deleting}
    (h : work mounted f s = (s', new)) : Works mounted (f :: fs, s) (new ++ fs, s') :=
  ⟨f, fs, rfl, by rw [h]⟩

/-- The frames of a loop, if each of them ends as a step of the loop. -/
theorem works_loop {mounted : Bool} {α : Type} {as : List α} {frame : α → Frame}
    {f : Deleting → α → Option Deleting}
    (hf : ∀ a ∈ as, ∀ (fs : List Frame) s s', f s a = some s' →
      Relation.ReflTransGen (Works mounted) (frame a :: fs, s) (fs, s'))
    {fs : List Frame} {s s' : Deleting} (h : as.foldlM f s = some s') :
    Relation.ReflTransGen (Works mounted) (as.map frame ++ fs, s) (fs, s') := by
  induction as generalizing s with
  | nil =>
    rw [List.foldlM_nil] at h
    cases h
    exact .refl
  | cons a as ih =>
    rw [List.foldlM_cons, Option.bind_eq_bind, Option.bind_eq_some_iff] at h
    obtain ⟨t, ht, h⟩ := h
    refine (hf a List.mem_cons_self (as.map frame ++ fs) s t ht).trans ?_
    exact ih (fun b hb => hf b (List.mem_cons_of_mem _ hb)) h

theorem works_removeTree (mounted : Bool) (fuel : ℕ) {path : List UInt8} {keepShell : Bool}
    {s s' : Deleting} (h : removeTree fuel path keepShell s = some s') (fs : List Frame) :
    Relation.ReflTransGen (Works mounted) (.visit path keepShell :: fs, s) (fs, s') := by
  induction fuel generalizing path keepShell s s' fs with
  | zero => cases h
  | succ fuel ih =>
    unfold removeTree at h
    split at h
    · next e hstat =>
      cases h
      have hwork : work mounted (.visit path keepShell) s = (s.noteFail path e, []) := by
        simp only [work, hstat]
      exact .single (works_head hwork)
    · next hstat =>
      have hwork : work mounted (.visit path keepShell) s = (s, [.list path keepShell]) := by
        simp only [work, hstat]
      refine .head (works_head hwork) ?_
      by_cases hsafe : safePath path = true
      · rw [hsafe, Bool.not_true, if_neg Bool.false_ne_true] at h
        dsimp only at h
        obtain ⟨u, hu, rfl⟩ := Option.map_eq_some_iff.mp h
        have hlist : work mounted (.list path keepShell) s = (s,
            ((readdir s.tree path).filter fun n => n ≠ ascii "." && n ≠ ascii "..").map
              (fun name => .visit (path ++ slash :: name) false) ++ [.finish path keepShell]) := by
          simp only [work, hsafe, Bool.not_true, Bool.false_eq_true, if_false]
        refine .head (works_head hlist) ?_
        rw [List.append_assoc]
        refine (works_loop (f := fun s name => removeTree fuel (path ++ slash :: name) false s)
          (fun name _ fs s s' h => ih h fs) hu).trans ?_
        exact .single (works_head rfl)
      · rw [Bool.not_eq_true] at hsafe
        rw [hsafe, Bool.not_false, if_pos rfl] at h
        cases h
        have hlist : work mounted (.list path keepShell) s = (s.skip, []) := by
          simp only [work, hsafe, Bool.not_false, if_true]
        exact .single (works_head hlist)
    · next size hstat =>
      cases h
      have hwork : work mounted (.visit path keepShell) s = (s, [.unlink path]) := by
        simp only [work, hstat]
      exact .head (works_head hwork) (.single (works_head rfl))

/-- **A task that nobody disturbs** does what `delete_paths` does. -/
theorem works_deletePaths {mounted : Bool} {t : FileTree} {paths : List (List UInt8)} {s' : Deleting}
    (h : deletePaths mounted t (paths.map some) = some s') :
    Relation.ReflTransGen (Works mounted) ([.batch paths], { tree := t }) ([], s') := by
  have hfind : (paths.map some).find? refused =
      (paths.find? fun path => refused (some path)).map some := by
    rw [List.find?_map]
    rfl
  unfold deletePaths at h
  rw [hfind, List.length_map] at h
  by_cases hmounted : mounted = true
  · rw [hmounted, Bool.not_true, if_neg Bool.false_ne_true] at h
    rcases hrefused : paths.find? fun path => refused (some path) with _ | path
    · rw [hrefused] at h
      dsimp only [Option.map_none] at h
      rw [List.filterMap_map, show (id ∘ some : List UInt8 → Option (List UInt8)) = some from rfl,
        List.filterMap_some] at h
      have hwork : work mounted (.batch paths) { tree := t } =
          ({ tree := t, res := { requested := paths.length } },
            paths.map fun path => .visit path (checkDeletable path = .kManagedDir)) := by
        simp only [work, hmounted, hrefused, Bool.not_true, Bool.false_eq_true, if_false]
      refine .head (works_head hwork) ?_
      exact works_loop (f := fun s path => removeAll path (checkDeletable path = .kManagedDir) s)
        (fun path _ fs s s' h => works_removeTree mounted (s.tree.depth + 2) h fs) h
    · rw [hrefused] at h
      cases h
      have hwork : work mounted (.batch paths) { tree := t } =
          ({ tree := t, res := { requested := paths.length, skipped := paths.length
                                 firstError := errorText (ascii "refused: " ++ path) } }, []) := by
        simp only [work, hmounted, hrefused, Bool.not_true, Bool.false_eq_true, if_false]
      exact .single (works_head hwork)
  · rw [Bool.not_eq_true] at hmounted
    rw [hmounted, Bool.not_false, if_pos rfl] at h
    cases h
    have hwork : work mounted (.batch paths) { tree := t } =
        ({ tree := t, res := { requested := paths.length, skipped := paths.length
                               firstError := ascii "SD not mounted" } }, []) := by
      simp only [work, hmounted, Bool.not_false, if_true]
    exact .single (works_head hwork)

end GpsBase.Storage.SdDelete
