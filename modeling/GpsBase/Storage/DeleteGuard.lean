import GpsBase.Storage.Removal

/-! # What the delete guard protects

The guard compares the bytes of a path, the card resolves its names. A path that the guard lets pass and
that leads to the mount point or to a managed directory is an alias: `//rawdata` and `/RAWDATA` below
the mount point lead to the managed directory, `//` leads to the mount point. `delete_safe_iff` says
that a deletion is safe on every tree exactly when it is given no alias. -/

namespace GpsBase.Storage.DeleteGuard

open GpsBase.Lib.CText GpsBase.Storage.Card GpsBase.Storage.SdManager GpsBase.Storage.Removal

/-! ### Safe deletions -/

/-- `/sdcard/logs` and `/sdcard/rawdata`. -/
def managed : List Place := [.card [ascii "logs"], .card [ascii "rawdata"]]

/-- A path the guard lets pass to the mount point or to a managed directory. -/
def Alias (path : List UInt8) : Prop :=
  checkDeletable path = .kAllowed ∧ place path ∈ Place.card [] :: managed

/-- **A safe deletion** of some paths: what is gone was at or below one of them, where none counts that
leads to the mount point or away from the card, and the managed directories are still there. -/
structure Safe (paths : List (List UInt8)) (t t' : FileTree) : Prop where
  within : ∀ n ∈ t.nodes, n ∉ t'.nodes →
    ∃ path ∈ paths, ∃ names, place path = .card names ∧ names ≠ [] ∧ (place path).Below n.place
  managed : ∀ n ∈ t.nodes, n.kind = .dir → n.place ∈ managed → n ∈ t'.nodes

theorem Safe.refl (paths : List (List UInt8)) (t : FileTree) : Safe paths t t :=
  ⟨fun _ h h' => absurd h h', fun _ h _ _ => h⟩

theorem Safe.of_shrinks {paths : List (List UInt8)} {t t' : FileTree}
    (h : Shrinks (fun n => (∃ path ∈ paths, ∃ names, place path = .card names ∧ names ≠ [] ∧
      (place path).Below n.place) ∧ ¬ (n.kind = .dir ∧ n.place ∈ DeleteGuard.managed)) t t') :
    Safe paths t t' := by
  refine ⟨fun n hn hn' => (h.removed n hn hn').1, fun n hn hdir hplace => ?_⟩
  by_contra hn'
  exact (h.removed n hn hn').2 ⟨hdir, hplace⟩

/-! ### The guard -/

theorem safePath_of_guard {path : List UInt8} (h : checkDeletable path ≠ .kBadPath) :
    safePath path = true := by
  by_contra hsafe
  rw [Bool.not_eq_true] at hsafe
  unfold checkDeletable at h
  rw [hsafe, Bool.not_false, if_pos rfl] at h
  exact h rfl

/-- What is compared is the path itself, or the path without its last slash, if it is short. -/
theorem eq_of_normalized {path norm : List UInt8} (h : normalized path = norm) (hlength : norm.length < 258) :
    path = norm ∨ path = norm ++ [slash] := by
  unfold normalized at h
  dsimp only at h
  have htake : (path.take 259).length < 259 → path.take 259 = path := by
    intro hlt
    rw [List.length_take] at hlt
    exact List.take_of_length_le (by omega)
  split_ifs at h with hslash
  · obtain ⟨hlt, hlast⟩ := hslash
    obtain ⟨init, hinit⟩ := List.getLast?_eq_some_iff.mp hlast
    rw [hinit, List.dropLast_concat] at h
    subst h
    refine Or.inr ((htake ?_).symm.trans hinit)
    rw [hinit, List.length_append, List.length_singleton]
    omega
  · refine Or.inl ((htake ?_).symm.trans h)
    rw [h]
    omega

/-- A path with a managed directory's guard leads there. -/
theorem place_of_managed {path : List UInt8} (h : checkDeletable path = .kManagedDir) :
    place path ∈ managed := by
  have hlead : ∀ norm ∈ [kMountPoint ++ ascii "/logs", kMountPoint ++ ascii "/rawdata"],
      normalized path = norm → place path ∈ managed := by
    have hplaces : ∀ norm ∈ [kMountPoint ++ ascii "/logs", kMountPoint ++ ascii "/rawdata"],
        norm.length < 258 ∧ place norm ∈ managed ∧ place (norm ++ [slash]) ∈ managed := by
      decide +kernel
    intro norm hnorm heq
    obtain ⟨hshort, hplace, hplace'⟩ := hplaces norm hnorm
    rcases eq_of_normalized heq hshort with rfl | rfl
    · exact hplace
    · exact hplace'
  unfold checkDeletable at h
  split_ifs at h with _ _ hlogs hrawdata
  · exact hlead _ List.mem_cons_self hlogs
  · exact hlead _ (List.mem_cons_of_mem _ List.mem_cons_self) hrawdata

theorem place_card {path : List UInt8} (h : safePath path = true) : ∃ names, place path = .card names := by
  unfold place
  rw [if_pos (onCard_of_safePath h)]
  exact ⟨_, rfl⟩

theorem length_of_managed {p : Place} (h : p ∈ managed) : p.names.length = 1 := by
  revert p
  decide

theorem mem_of_below_managed {names : List Name} {q : Place} (h : (Place.card names).Below q)
    (hq : q ∈ managed) : Place.card names ∈ Place.card [] :: managed := by
  have hpre : ∀ name : Name, names <+: [name] → names = [] ∨ names = [name] := by
    rintro name ⟨rest, hrest⟩
    rcases names with _ | ⟨a, _ | ⟨b, names⟩⟩
    · exact Or.inl rfl
    · injection hrest with hhead
      rw [hhead]
      exact Or.inr rfl
    · injection hrest with _ hrest
      cases hrest
  have hmem : q = .card [ascii "logs"] ∨ q = .card [ascii "rawdata"] := by simpa [managed] using hq
  rcases hmem with rfl | rfl <;> rcases hpre _ h with rfl | rfl
  · exact List.mem_cons_self
  · exact List.mem_cons_of_mem _ hq
  · exact List.mem_cons_self
  · exact List.mem_cons_of_mem _ hq

theorem guard_cases {path : List UInt8} (hbad : checkDeletable path ≠ .kBadPath)
    (hroot : checkDeletable path ≠ .kMountRoot) :
    checkDeletable path = .kAllowed ∨ checkDeletable path = .kManagedDir := by
  rcases hguard : checkDeletable path with _ | _ | _ | _
  · exact Or.inl rfl
  · exact absurd hguard hbad
  · exact absurd hguard hroot
  · exact Or.inr rfl

/-- **What a removal may take** is safe if the path passed the guard and is no alias. -/
theorem safe_of_takes {path : List UInt8} (hbad : checkDeletable path ≠ .kBadPath)
    (hroot : checkDeletable path ≠ .kMountRoot) (halias : ¬ Alias path) {n : Node}
    (h : Takes path (decide (checkDeletable path = .kManagedDir)) n) :
    (∃ names, place path = .card names ∧ names ≠ [] ∧ (place path).Below n.place) ∧
      ¬ (n.kind = .dir ∧ n.place ∈ managed) := by
  obtain ⟨hbelow, hshell⟩ := h
  obtain ⟨names, hplace⟩ := place_card (safePath_of_guard hbad)
  have hmanaged : n.place ∈ managed → place path ∈ Place.card [] :: managed := by
    rw [hplace] at hbelow ⊢
    exact mem_of_below_managed hbelow
  rcases guard_cases hbad hroot with hguard | hguard
  · have hprotected : place path ∉ Place.card [] :: managed := fun hmem => halias ⟨hguard, hmem⟩
    refine ⟨⟨names, hplace, ?_, hbelow⟩, fun h => hprotected (hmanaged h.2)⟩
    rintro rfl
    exact hprotected (hplace ▸ List.mem_cons_self)
  · have hlength := length_of_managed (place_of_managed hguard)
    refine ⟨⟨names, hplace, ?_, hbelow⟩, ?_⟩
    · rintro rfl
      rw [hplace] at hlength
      cases hlength
    · rintro ⟨hdir, hmem⟩
      have hlength' := length_of_managed hmem
      exact hshell ⟨decide_eq_true hguard, (hbelow.eq_of_length (by omega)).symm, hdir⟩

/-! ### Without aliases -/

theorem safe_deleteEntry {path : List UInt8} (h : ¬ (Alias path ∧ place path ≠ .card []))
    (mounted : Bool) (t : FileTree) : Safe [path] t (deleteEntry mounted t (some path)).2 := by
  unfold deleteEntry
  dsimp only
  split_ifs with hmounted hguard
  · exact Safe.refl _ t
  · exact Safe.refl _ t
  · rw [not_not] at hguard
    split
    · exact Safe.refl _ t
    · split
      · next t' hunlink =>
        obtain ⟨hroot, -⟩ := unlink_eq hunlink
        have halias : ¬ Alias path := fun halias => h ⟨halias, hroot⟩
        refine Safe.of_shrinks ((shrinks_of_unlink hunlink).mono fun n hplace => ?_)
        obtain ⟨hplaces, hkept⟩ := safe_of_takes (hguard ▸ by decide) (hguard ▸ by decide) halias
          (n := n) ⟨hplace ▸ Place.Below.refl _, by rw [hguard]; rintro ⟨hfalse, -⟩; cases hfalse⟩
        exact ⟨⟨path, List.mem_singleton_self _, hplaces⟩, hkept⟩
      · exact Safe.refl _ t

theorem not_refused {path : List UInt8}
    (h : ¬ (checkDeletable path = .kBadPath ∨ checkDeletable path = .kMountRoot)) :
    checkDeletable path ≠ .kBadPath ∧ checkDeletable path ≠ .kMountRoot :=
  ⟨fun hbad => h (Or.inl hbad), fun hroot => h (Or.inr hroot)⟩

/-- **A removal of a path that is no alias** ends and is safe. -/
theorem safe_removeAll {path : List UInt8} {paths : List (List UInt8)} (hmem : path ∈ paths)
    (hguard : ¬ (checkDeletable path = .kBadPath ∨ checkDeletable path = .kMountRoot))
    (halias : ¬ Alias path) (s : Deleting) :
    ∃ s', removeAll path (decide (checkDeletable path = .kManagedDir)) s = some s' ∧
      Shrinks (fun n => (∃ path ∈ paths, ∃ names, place path = .card names ∧ names ≠ [] ∧
        (place path).Below n.place) ∧ ¬ (n.kind = .dir ∧ n.place ∈ managed)) s.tree s'.tree := by
  obtain ⟨hbad, hroot⟩ := not_refused hguard
  have hcard := onCard_of_safePath (safePath_of_guard hbad)
  obtain ⟨s', hs', hshrinks⟩ := removeAll_spec hcard (decide (checkDeletable path = .kManagedDir)) s
  refine ⟨s', hs', hshrinks.mono fun n hn => ?_⟩
  obtain ⟨hplaces, hkept⟩ := safe_of_takes hbad hroot halias hn
  exact ⟨⟨path, hmem, hplaces⟩, hkept⟩

theorem safe_deleteRecursive {path : List UInt8} (h : ¬ Alias path) (mounted : Bool) (t : FileTree) :
    ∃ s, deleteRecursive mounted t (some path) = some s ∧ Safe [path] t s.tree := by
  unfold deleteRecursive
  dsimp only
  split_ifs with hmounted hguard
  · exact ⟨_, rfl, Safe.refl _ t⟩
  · exact ⟨_, rfl, Safe.refl _ t⟩
  · obtain ⟨s', hs', hshrinks⟩ := safe_removeAll (List.mem_singleton_self path) hguard h
      { tree := t, res := { requested := 1 } }
    exact ⟨s', hs', Safe.of_shrinks hshrinks⟩

theorem refused_some (path : List UInt8) : refused (some path) = true ↔
    checkDeletable path = .kBadPath ∨ checkDeletable path = .kMountRoot := by
  unfold refused
  dsimp only
  rw [Bool.or_eq_true, decide_eq_true_iff, decide_eq_true_iff]

theorem safe_deletePaths {paths : List (Option (List UInt8))}
    (h : (∃ path ∈ paths, refused path = true) ∨ ∀ path ∈ paths.filterMap id, ¬ Alias path)
    (mounted : Bool) (t : FileTree) :
    ∃ s, deletePaths mounted t paths = some s ∧ Safe (paths.filterMap id) t s.tree := by
  unfold deletePaths
  split_ifs with hmounted
  · exact ⟨_, rfl, Safe.refl _ t⟩
  · split
    · exact ⟨_, rfl, Safe.refl _ t⟩
    · next hnone =>
      have hpass := List.find?_eq_none.mp hnone
      have halias : ∀ path ∈ paths.filterMap id, ¬ Alias path := by
        rcases h with ⟨path, hpath, hrefused⟩ | h
        · exact absurd hrefused (hpass path hpath)
        · exact h
      have hguard : ∀ path ∈ paths.filterMap id,
          ¬ (checkDeletable path = .kBadPath ∨ checkDeletable path = .kMountRoot) := by
        intro path hpath
        rw [← refused_some]
        obtain ⟨_, hmem, rfl⟩ := List.mem_filterMap.mp hpath
        exact hpass _ hmem
      let s : Deleting := { tree := t, res := { requested := paths.length } }
      obtain ⟨s', hs', hsafe⟩ := foldlM_isSome (I := fun u : Deleting => Shrinks (fun n =>
          (∃ path ∈ paths.filterMap id, ∃ names, place path = .card names ∧ names ≠ [] ∧
            (place path).Below n.place) ∧ ¬ (n.kind = .dir ∧ n.place ∈ managed)) t u.tree)
        (f := fun s path => removeAll path (decide (checkDeletable path = .kManagedDir)) s)
        (fun path hpath u hu => by
          obtain ⟨u', hu', hshrinks⟩ := safe_removeAll hpath (hguard path hpath) (halias path hpath) u
          exact ⟨u', hu', hu.trans hshrinks⟩) (s := s) (Shrinks.refl _ t)
      exact ⟨s', hs', Safe.of_shrinks hsafe⟩

/-! ### With an alias -/

/-- A directory below the mount point. -/
def topDir (name : Name) (h : name ≠ [] ∧ slash ∉ name) : Node where
  mounted := true
  path := []
  name := name
  kind := .dir
  valid := fun _ hn => List.mem_singleton.mp hn ▸ h

theorem name_b : ascii "b" ≠ [] ∧ slash ∉ ascii "b" := by decide

def logsDir : Node := topDir (ascii "logs") (by decide)

def rawdataDir : Node := topDir (ascii "rawdata") (by decide)

/-- A card with the two managed directories, empty. -/
def bare : FileTree where
  nodes := [logsDir, rawdataDir]
  unique := by decide
  parents := fun n hn => Or.inl (by revert n; decide)

theorem children_managed {t : FileTree} (h : t.nodes ⊆ bare.nodes) {q : Place} (hq : q ∈ managed) :
    t.children q = [] := by
  refine children_eq_nil h ?_
  revert q
  decide

theorem ne_root_of_managed {q : Place} (h : q ∈ managed) : q ≠ .card [] := by
  revert q
  decide

theorem safePath_of_alias {path : List UInt8} (h : Alias path) : safePath path = true :=
  safePath_of_guard (h.1 ▸ by decide)

/-- **An alias** takes away a managed directory that is empty. -/
theorem removes_managed {path : List UInt8} (halias : Alias path) {s s' : Deleting}
    (hsub : s.tree.nodes ⊆ bare.nodes) (h : removeAll path false s = some s') :
    ∃ n ∈ bare.nodes, n ∉ s'.tree.nodes := by
  have hsafe := safePath_of_alias halias
  have hcard := onCard_of_safePath hsafe
  rcases List.mem_cons.mp halias.2 with hroot | hmanaged
  · refine ⟨logsDir, by decide, fun hmem => ?_⟩
    have hkept := (shrinks_removeTree _ hcard false h).subset hmem
    unfold removeAll removeTree at h
    have hstat : stat s.tree path = .ok .dir := by
      unfold stat
      rw [if_pos hroot]
    rw [hstat, hsafe, Bool.not_true] at h
    dsimp only at h
    rw [if_neg Bool.false_ne_true] at h
    obtain ⟨u, hu, rfl⟩ := Option.map_eq_some_iff.mp h
    have hlogs : ascii "logs" ∈ (readdir s.tree path).filter fun n => n ≠ ascii "." && n ≠ ascii ".." := by
      refine List.mem_filter.mpr ⟨List.mem_map.mpr ⟨logsDir, List.mem_filter.mpr ⟨hkept, ?_⟩, rfl⟩, by decide⟩
      rw [hroot]
      rfl
    have hchild : place (path ++ slash :: ascii "logs") = .card [ascii "logs"] := by
      rw [place_child hcard (by decide), hroot]
      rfl
    refine foldlM_reaches (I := fun u : Deleting => u.tree.nodes ⊆ bare.nodes)
      (Q := fun u : Deleting => logsDir ∉ u.tree.nodes) hlogs
      (fun name hname a b hab ha => fun n hn =>
        ha ((shrinks_removeTree _ (onCard_child hcard name) false hab).subset hn))
      (fun name hname a b hab ha hb =>
        ha ((shrinks_removeTree _ (onCard_child hcard name) false hab).subset hb))
      (fun a b hab ha hb => ?_) hsub hu ((shrinks_unlink u path).subset hmem)
    have hleaf := children_managed ha (q := .card [ascii "logs"]) (by decide)
    rw [← hchild] at hleaf
    refine not_mem_removeTree (safePath_child hsafe (by decide)) ?_ hleaf hab logsDir hb ?_
    · rw [hchild]
      decide
    · rw [hchild]
      rfl
  · have hgone := not_mem_removeTree hsafe (ne_root_of_managed hmanaged)
      (children_managed hsub hmanaged) h
    have hthere : ∀ q ∈ managed, ∃ n ∈ bare.nodes, n.place = q := by decide
    obtain ⟨n, hn, hplace⟩ := hthere _ hmanaged
    exact ⟨n, hn, fun hmem => hgone n hmem hplace⟩

theorem not_safe_bare {paths : List (List UInt8)} {t : FileTree} (h : ∃ n ∈ bare.nodes, n ∉ t.nodes) :
    ¬ Safe paths bare t := by
  obtain ⟨n, hn, hgone⟩ := h
  have hdirs : ∀ n ∈ bare.nodes, n.kind = .dir ∧ n.place ∈ managed := by decide
  exact fun hsafe => hgone (hsafe.managed n hn (hdirs n hn).1 (hdirs n hn).2)

theorem unsafe_deleteEntry {path : List UInt8} (halias : Alias path) (hroot : place path ≠ .card []) :
    ¬ Safe [path] bare (deleteEntry true bare (some path)).2 := by
  have hmanaged : place path ∈ managed := by
    rcases List.mem_cons.mp halias.2 with h | h
    · exact absurd h hroot
    · exact h
  have hthere : ∀ q ∈ managed, ∃ n ∈ bare.nodes, n.place = q := by decide
  obtain ⟨n, hn, hplace⟩ := hthere _ hmanaged
  refine not_safe_bare ⟨n, hn, fun hmem => ?_⟩
  have hfind : bare.find (place path) ≠ none := by
    intro hnone
    unfold FileTree.find at hnone
    exact List.find?_eq_none.mp hnone n hn (decide_eq_true hplace)
  have hleaf := children_managed (fun _ h => h) hmanaged (t := bare)
  unfold deleteEntry at hmem
  dsimp only at hmem
  rw [Bool.not_true, if_neg Bool.false_ne_true, if_neg (not_not.mpr halias.1)] at hmem
  unfold stat at hmem
  rw [if_neg hroot] at hmem
  rcases hnode : bare.find (place path) with _ | m
  · exact hfind hnode
  · rw [hnode] at hmem
    unfold Card.unlink at hmem
    rw [if_neg hroot, hnode, dif_pos hleaf] at hmem
    exact of_decide_eq_true (List.mem_filter.mp hmem).2 hplace

theorem unsafe_deleteRecursive {path : List UInt8} (halias : Alias path) {s : Deleting}
    (h : deleteRecursive true bare (some path) = some s) : ¬ Safe [path] bare s.tree := by
  unfold deleteRecursive at h
  dsimp only at h
  rw [Bool.not_true, if_neg Bool.false_ne_true, halias.1] at h
  exact not_safe_bare (removes_managed halias (fun _ h => h) h)

theorem unsafe_deletePaths {paths : List (Option (List UInt8))}
    (hpass : ∀ path ∈ paths, ¬ refused path = true) {path : List UInt8}
    (hmem : path ∈ paths.filterMap id) (halias : Alias path) {s : Deleting}
    (h : deletePaths true bare paths = some s) : ¬ Safe (paths.filterMap id) bare s.tree := by
  have hcard : ∀ path ∈ paths.filterMap id, onCard path = true := by
    intro path hpath
    obtain ⟨_, hmem, rfl⟩ := List.mem_filterMap.mp hpath
    refine onCard_of_safePath (safePath_of_guard fun hbad => hpass _ hmem ?_)
    exact (refused_some path).mpr (Or.inl hbad)
  unfold deletePaths at h
  rw [Bool.not_true, if_neg Bool.false_ne_true, List.find?_eq_none.mpr hpass] at h
  refine not_safe_bare (foldlM_reaches (I := fun u : Deleting => u.tree.nodes ⊆ bare.nodes)
    (Q := fun u : Deleting => ∃ n ∈ bare.nodes, n ∉ u.tree.nodes) hmem
    (fun path hpath a b hab ha n hn =>
      ha ((shrinks_removeTree _ (hcard path hpath) _ hab).subset hn))
    (fun path hpath a b hab ⟨n, hn, hgone⟩ =>
      ⟨n, hn, fun hb => hgone ((shrinks_removeTree _ (hcard path hpath) _ hab).subset hb)⟩)
    (fun a b hab ha => ?_) (fun _ h => h) h)
  rw [halias.1] at hab
  exact removes_managed halias ha hab

/-! ### Exactly the aliases -/

/-- **The deletions are safe on every tree exactly when they are given no alias**; the deletion of one
entry may be given an alias of the mount point, which is not removed, and a batch with a refused path
does nothing. -/
theorem delete_safe_iff (path : Option (List UInt8)) (paths : List (Option (List UInt8))) :
    ((∀ mounted t, Safe path.toList t (deleteEntry mounted t path).2) ↔
      ∀ p ∈ path, ¬ (Alias p ∧ place p ≠ .card [])) ∧
    ((∀ mounted t, ∃ s, deleteRecursive mounted t path = some s ∧ Safe path.toList t s.tree) ↔
      ∀ p ∈ path, ¬ Alias p) ∧
    ((∀ mounted t, ∃ s, deletePaths mounted t paths = some s ∧ Safe (paths.filterMap id) t s.tree) ↔
      (∃ path ∈ paths, refused path = true) ∨ ∀ p ∈ paths.filterMap id, ¬ Alias p) := by
  refine ⟨?_, ?_, fun h => ?_, safe_deletePaths⟩
  · rcases path with _ | path
    · exact ⟨fun _ p hp => (by cases hp), fun _ _ t => Safe.refl _ t⟩
    · refine ⟨fun h p hp ⟨halias, hroot⟩ => ?_, fun h => safe_deleteEntry (h path rfl)⟩
      cases hp
      exact unsafe_deleteEntry halias hroot (h true bare)
  · rcases path with _ | path
    · exact ⟨fun _ p hp => (by cases hp), fun _ _ t => ⟨_, rfl, Safe.refl _ t⟩⟩
    · refine ⟨fun h p hp halias => ?_, fun h => safe_deleteRecursive (h path rfl)⟩
      cases hp
      obtain ⟨s, hs, hsafe⟩ := h true bare
      exact unsafe_deleteRecursive halias hs hsafe
  · by_cases hrefused : ∃ path ∈ paths, refused path = true
    · exact Or.inl hrefused
    · refine Or.inr fun p hp halias => ?_
      obtain ⟨s, hs, hsafe⟩ := h true bare
      exact unsafe_deletePaths (fun path hpath h => hrefused ⟨path, hpath, h⟩) hp halias hs hsafe

/-- Doubled slashes and capital letters pass the guard: the managed directory is removed, and the whole
card is emptied. -/
theorem aliases_pass :
    (deleteRecursive true bare (some (ascii "/sdcard//rawdata"))).map (·.tree.nodes) = some [logsDir] ∧
    (deletePaths true bare [some (ascii "/sdcard/RAWDATA")]).map (·.tree.nodes) = some [logsDir] ∧
    (deleteEntry true bare (some (ascii "/sdcard/logs//"))).2.nodes = [rawdataDir] ∧
    (deleteRecursive true bare (some (ascii "/sdcard//"))).map (·.tree.nodes) = some [] := by
  decide +kernel

end GpsBase.Storage.DeleteGuard
