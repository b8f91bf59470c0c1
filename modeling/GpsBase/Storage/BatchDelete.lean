import GpsBase.Storage.DeleteGuard

/-! # What a batch deletion leaves

On a card whose calls all succeed, a removal takes away exactly what it may: a list of paths takes away
the union of the trees at these paths, less the shells that are kept, and counts what it took
(`delete_paths_exact`). The list of a directory's names is read before the first of them is removed; none
of them is lost on the way, because the trees at two names of one directory have nothing in common. -/

namespace GpsBase.Storage.BatchDelete

open GpsBase.Lib.CText GpsBase.Storage.Card GpsBase.Storage.SdManager GpsBase.Storage.Removal
  GpsBase.Storage.DeleteGuard

/-! ### Places below a place -/

/-- Two places of one depth that have a place below them in common. -/
theorem eq_of_below {p q r : Place} (hp : p.Below r) (hq : q.Below r)
    (hlength : p.names.length = q.names.length) : p = q := by
  cases p <;> cases q <;> cases r <;> first
    | exact hp.elim
    | exact hq.elim
    | exact congrArg _ ((List.prefix_of_prefix_length_le hp hq hlength.le).eq_of_length hlength)

/-- What is above a node is there, and is a directory or the node itself. -/
theorem exists_above {t : FileTree} {p : Place} (hp : p.names ≠ []) (d : ℕ) {n : Node}
    (hn : n ∈ t.nodes) (hd : n.place.names.length ≤ d) (hbelow : p.Below n.place) :
    ∃ m ∈ t.nodes, m.place = p ∧ (m = n ∨ m.kind = .dir) := by
  induction d generalizing n with
  | zero =>
    unfold Node.place at hd
    rw [Place.length_child] at hd
    omega
  | succ d ih =>
    by_cases heq : p = n.place
    · exact ⟨n, hn, heq.symm, Or.inl rfl⟩
    · have habove : p.Below n.parent := Place.below_of_child hbelow heq
      rcases t.parents n hn with hroot | ⟨m, hm, hplace, hdir⟩
      · have hle := habove.length_le
        rw [hroot, List.length_nil, Nat.le_zero, List.length_eq_zero_iff] at hle
        exact absurd hle hp
      · rw [← hplace] at habove
        obtain ⟨k, hk, hkp, hor⟩ := ih hm (by
          unfold Node.place at hd
          rw [Place.length_child] at hd
          rw [hplace]
          omega) habove
        refine ⟨k, hk, hkp, Or.inr ?_⟩
        rcases hor with rfl | hkdir
        · exact hdir
        · exact hkdir

theorem place_of_below_file {t : FileTree} {m n : Node} {size : ℕ} (hn : n ∈ t.nodes)
    (hkind : n.kind = .file size) (hm : m ∈ t.nodes) (hbelow : n.place.Below m.place) :
    m.place = n.place := by
  have hnames : n.place.names ≠ [] := by
    unfold Node.place
    rw [← List.length_pos_iff, Place.length_child]
    exact Nat.succ_pos _
  obtain ⟨k, hk, hkplace, rfl | hdir⟩ := exists_above hnames _ hm le_rfl hbelow
  · exact hkplace
  · obtain rfl := eq_of_place hk hn hkplace
    rw [hkind] at hdir
    cases hdir

theorem place_of_child {t : FileTree} {p : Place} {name : Name} (h : name ∈ t.children p) :
    ∃ n ∈ t.nodes, n.place = p.child name ∧ n.name = name := by
  obtain ⟨n, hn, rfl⟩ := List.mem_map.mp h
  obtain ⟨hmem, hparent⟩ := List.mem_filter.mp hn
  refine ⟨n, hmem, ?_, rfl⟩
  unfold Node.place
  rw [of_decide_eq_true hparent]

theorem nodup_children (t : FileTree) (p : Place) : ((t.children p).map p.child).Nodup := by
  unfold FileTree.children
  rw [List.map_map]
  have hplace : (t.nodes.filter fun n => n.parent = p).map (p.child ∘ Node.name) =
      (t.nodes.filter fun n => n.parent = p).map Node.place := by
    refine List.map_congr_left fun n hn => ?_
    have hparent := of_decide_eq_true (List.mem_filter.mp hn).2
    unfold Node.place
    rw [hparent]
    rfl
  rw [hplace]
  exact t.unique.sublist (List.Sublist.map _ List.filter_sublist)

/-! ### What is taken and counted -/

/-- There is a node where the path leads. -/
def There (t : FileTree) (path : List UInt8) : Prop := ∃ n ∈ t.nodes, n.place = place path

instance (t : FileTree) (path : List UInt8) : Decidable (There t path) := by
  unfold There
  infer_instance

instance (path : List UInt8) (keepShell : Bool) (n : Node) : Decidable (Takes path keepShell n) := by
  unfold Takes
  infer_instance

/-- The nodes that meet `P` were taken, and counted as deleted and as progress, and `failed` failures
were counted. -/
structure Removes (P : Node → Bool) (failed : ℕ) (s s' : Deleting) : Prop where
  nodes : s'.tree.nodes = s.tree.nodes.filter fun n => !P n
  deleted : s'.res.deleted + s'.tree.nodes.length = s.res.deleted + s.tree.nodes.length
  progress : s'.progress + s'.tree.nodes.length = s.progress + s.tree.nodes.length
  failed : s'.res.failed = s.res.failed + failed

theorem Removes.refl (s : Deleting) : Removes (fun _ => false) 0 s s :=
  ⟨(List.filter_true _).symm, rfl, rfl, rfl⟩

theorem Removes.trans {P Q : Node → Bool} {j k : ℕ} {s t u : Deleting} (h : Removes P j s t)
    (h' : Removes Q k t u) : Removes (fun n => P n || Q n) (j + k) s u where
  nodes := by
    rw [h'.nodes, h.nodes, List.filter_filter]
    refine List.filter_congr fun n _ => ?_
    rw [Bool.not_or, Bool.and_comm]
  deleted := h'.deleted.trans h.deleted
  progress := h'.progress.trans h.progress
  failed := by rw [h'.failed, h.failed, Nat.add_assoc]

theorem Removes.congr {P Q : Node → Bool} {k : ℕ} {s s' : Deleting} (h : Removes P k s s')
    (hPQ : ∀ n ∈ s.tree.nodes, P n = Q n) : Removes Q k s s' where
  nodes := by
    rw [h.nodes]
    exact List.filter_congr fun n hn => by rw [hPQ n hn]
  deleted := h.deleted
  progress := h.progress
  failed := h.failed

theorem Removes.mem {P : Node → Bool} {k : ℕ} {s s' : Deleting} (h : Removes P k s s') {n : Node} :
    n ∈ s'.tree.nodes ↔ n ∈ s.tree.nodes ∧ P n = false := by
  rw [h.nodes, List.mem_filter, Bool.not_eq_true']

theorem length_filter_place {t : FileTree} {path : List UInt8} (h : There t path) :
    (t.nodes.filter fun n => !decide (n.place = place path)).length + 1 = t.nodes.length := by
  obtain ⟨n, hn, hplace⟩ := h
  have hone : (t.nodes.filter fun n => decide (n.place = place path)).length = 1 := by
    have hcount := List.count_eq_one_of_mem t.unique (List.mem_map_of_mem (f := Node.place) hn)
    rw [hplace, List.count, List.countP_map, List.countP_eq_length_filter] at hcount
    rw [← hcount]
    congr 1
  have hall := List.length_eq_length_filter_add (l := t.nodes) fun n => decide (n.place = place path)
  omega

theorem removes_unlink {s : Deleting} {path : List UInt8} (hroot : place path ≠ .card [])
    (hthere : There s.tree path) (hleaf : s.tree.children (place path) = []) :
    Removes (fun n => decide (n.place = place path)) 0 s (s.unlink path) := by
  have hfind : (s.tree.find (place path)).isNone = false := by
    obtain ⟨n, hn, hplace⟩ := hthere
    rw [Bool.eq_false_iff]
    intro hnone
    rw [Option.isNone_iff_eq_none] at hnone
    unfold FileTree.find at hnone
    exact List.find?_eq_none.mp hnone n hn (decide_eq_true hplace)
  have hunlink : Card.unlink s.tree path = .ok (s.tree.remove (place path) hleaf) := by
    unfold Card.unlink
    rw [if_neg hroot, hfind, if_neg Bool.false_ne_true, dif_pos hleaf]
  have hnodes : (s.tree.remove (place path) hleaf).nodes =
      s.tree.nodes.filter fun n => !decide (n.place = place path) := by
    refine List.filter_congr fun n _ => ?_
    exact decide_not
  have hlength := length_filter_place hthere
  have hs : s.unlink path =
      { tree := s.tree.remove (place path) hleaf, res := { s.res with deleted := s.res.deleted + 1 }
        progress := s.progress + 1 } := by
    unfold Deleting.unlink
    rw [hunlink]
  rw [hs]
  refine ⟨hnodes, ?_, ?_, rfl⟩
  · dsimp only
    rw [hnodes]
    omega
  · dsimp only
    rw [hnodes]
    omega

/-! ### The removal of a tree -/

/-- No name contains `..`, and none is `.`, which `readdir` gives for the directory itself. -/
def Named (t : FileTree) : Prop := ∀ n ∈ t.nodes, hasDotDot n.name = false ∧ n.name ≠ ascii "."

theorem Named.of_subset {t t' : FileTree} (h : Named t) (hsub : t'.nodes ⊆ t.nodes) : Named t' :=
  fun n hn => h n (hsub hn)

theorem Removes.subset {P : Node → Bool} {k : ℕ} {s s' : Deleting} (h : Removes P k s s') :
    s'.tree.nodes ⊆ s.tree.nodes := fun _ hn => (h.mem.mp hn).1

theorem filter_names {t : FileTree} (h : Named t) (p : Place) :
    ((t.children p).filter fun n => n ≠ ascii "." && n ≠ ascii "..") = t.children p := by
  refine List.filter_eq_self.mpr fun name hname => ?_
  obtain ⟨n, hn, -, rfl⟩ := place_of_child hname
  obtain ⟨hdots, hdot⟩ := h n hn
  rw [Bool.and_eq_true, decide_eq_true_iff, decide_eq_true_iff]
  refine ⟨hdot, fun heq => ?_⟩
  rw [heq] at hdots
  exact absurd hdots (by decide)

/-- **The loop over the names of a directory**, if each of them is there and its removal is exact. -/
theorem removes_loop {path : List UInt8} (hcard : onCard path = true)
    {f : Deleting → Name → Option Deleting} {names : List Name}
    (hf : ∀ name ∈ names, ∀ s s', f s name = some s' → Named s.tree →
      There s.tree (path ++ slash :: name) →
      Removes (fun n => decide (((place path).child name).Below n.place)) 0 s s')
    (hvalid : ∀ name ∈ names, name ≠ [] ∧ slash ∉ name)
    (hnodup : (names.map (place path).child).Nodup) {s u : Deleting} (hnamed : Named s.tree)
    (hthere : ∀ name ∈ names, There s.tree (path ++ slash :: name)) (h : names.foldlM f s = some u) :
    Removes (fun n => names.any fun name => decide (((place path).child name).Below n.place)) 0 s u := by
  induction names generalizing s with
  | nil =>
    rw [List.foldlM_nil] at h
    cases h
    exact Removes.refl _
  | cons name names ih =>
    rw [List.foldlM_cons, Option.bind_eq_bind, Option.bind_eq_some_iff] at h
    obtain ⟨t, ht, h⟩ := h
    rw [List.map_cons, List.nodup_cons] at hnodup
    have hfirst := hf name List.mem_cons_self s t ht hnamed (hthere name List.mem_cons_self)
    refine hfirst.trans (ih (fun b hb => hf b (List.mem_cons_of_mem _ hb))
      (fun b hb => hvalid b (List.mem_cons_of_mem _ hb)) hnodup.2 (hnamed.of_subset hfirst.subset)
      (fun b hb => ?_) h)
    -- the other names of the directory are still there
    obtain ⟨n, hn, hplace⟩ := hthere b (List.mem_cons_of_mem _ hb)
    refine ⟨n, hfirst.mem.mpr ⟨hn, decide_eq_false fun hbelow => ?_⟩, hplace⟩
    rw [hplace, place_child hcard (hvalid b (List.mem_cons_of_mem _ hb))] at hbelow
    have heq := eq_of_below hbelow (Place.Below.refl _) (by rw [Place.length_child, Place.length_child])
    exact hnodup.1 (heq ▸ List.mem_map_of_mem hb)

theorem takes_false {path : List UInt8} {n : Node} :
    Takes path false n ↔ (place path).Below n.place :=
  and_iff_left fun h => absurd h.1 Bool.false_ne_true

theorem not_below {t : FileTree} {path : List UInt8} (hnames : (place path).names ≠ [])
    (h : ¬ There t path) {n : Node} (hn : n ∈ t.nodes) : ¬ (place path).Below n.place := by
  intro hbelow
  obtain ⟨m, hm, hplace, -⟩ := exists_above hnames _ hn le_rfl hbelow
  exact h ⟨m, hm, hplace⟩

theorem stat_spec {t : FileTree} {path : List UInt8} (hroot : place path ≠ .card []) :
    (∃ n ∈ t.nodes, n.place = place path ∧ stat t path = .ok n.kind) ∨
      ¬ There t path ∧ stat t path = .error enoent := by
  unfold stat
  rw [if_neg hroot]
  cases hfind : t.find (place path) with
  | some n =>
    obtain ⟨hmem, hplace⟩ := find_eq_some hfind
    exact Or.inl ⟨n, hmem, hplace, rfl⟩
  | none =>
    refine Or.inr ⟨fun ⟨n, hn, hplace⟩ => ?_, rfl⟩
    unfold FileTree.find at hfind
    exact List.find?_eq_none.mp hfind n hn (decide_eq_true hplace)

theorem names_ne_nil {path : List UInt8} (hsafe : safePath path = true)
    (hroot : place path ≠ .card []) : (place path).names ≠ [] := by
  obtain ⟨names, hplace⟩ := place_card hsafe
  rw [hplace] at hroot ⊢
  rintro hnil
  exact hroot (congrArg Place.card hnil)

theorem child_ne_root (p : Place) (name : List UInt8) : p.child name ≠ Place.card [] := by
  intro hnil
  have hlength : (p.child name).names.length = 0 := congrArg (fun p => p.names.length) hnil
  rw [Place.length_child] at hlength
  cases hlength

theorem children_eq_nil {t : FileTree} {p : Place} (h : ∀ m, m ∈ t.nodes → p.Below m.place → m.place = p) :
    t.children p = [] := by
  refine List.eq_nil_iff_forall_not_mem.mpr fun name hname => ?_
  obtain ⟨m, hm, hmplace, -⟩ := place_of_child hname
  have heq := h m hm (hmplace ▸ Place.below_child _ _)
  exact Place.child_ne _ name (hmplace.symm.trans heq)

theorem any_child_iff {t : FileTree} {p : Place} {m : Node} (hm : m ∈ t.nodes) :
    ((t.children p).any fun name => decide ((p.child name).Below m.place)) = true ↔
      p.Below m.place ∧ m.place ≠ p := by
  rw [List.any_eq_true]
  constructor
  · rintro ⟨name, -, hname⟩
    have hname := of_decide_eq_true hname
    refine ⟨(Place.below_child _ _).trans hname, fun heq => ?_⟩
    have hle := hname.length_le
    rw [heq, Place.length_child] at hle
    omega
  · rintro ⟨hbelow, hne⟩
    obtain ⟨name, hname, hchild⟩ := exists_child _ hm le_rfl hbelow (Ne.symm hne)
    exact ⟨name, hname, decide_eq_true hchild⟩

/-- **A removal takes exactly what it may**, and fails once if there is nothing. -/
theorem removes_removeTree (fuel : ℕ) {path : List UInt8} (hsafe : safePath path = true)
    (hroot : place path ≠ .card []) (keepShell : Bool) {s s' : Deleting} (hnamed : Named s.tree)
    (h : removeTree fuel path keepShell s = some s') :
    Removes (fun n => decide (Takes path keepShell n)) (if There s.tree path then 0 else 1) s s' := by
  induction fuel generalizing path keepShell s s' with
  | zero => cases h
  | succ fuel ih =>
    have hcard := onCard_of_safePath hsafe
    have hnames := names_ne_nil hsafe hroot
    unfold removeTree at h
    rcases stat_spec (t := s.tree) hroot with ⟨n, hn, hplace, hstat⟩ | ⟨hnot, hstat⟩
    · have hthere : There s.tree path := ⟨n, hn, hplace⟩
      rw [if_pos hthere]
      rw [hstat] at h
      rcases hkind : n.kind with size | _
      · -- a file has nothing below it
        rw [hkind] at h
        cases h
        have hfile : ∀ m ∈ s.tree.nodes, (place path).Below m.place → m.place = place path := by
          intro m hm hbelow
          rw [← hplace] at hbelow ⊢
          exact place_of_below_file hn hkind hm hbelow
        refine (removes_unlink hroot hthere (children_eq_nil hfile)).congr fun m hm => decide_eq_decide.mpr ⟨?_, ?_⟩
        · intro hmplace
          refine ⟨hmplace ▸ Place.Below.refl _, fun hkeep => ?_⟩
          obtain rfl := eq_of_place hm hn (hmplace.trans hplace.symm)
          rw [hkind] at hkeep
          cases hkeep.2.2
        · exact fun htakes => hfile m hm htakes.1
      · -- a directory: first what is in it
        rw [hkind] at h
        dsimp only at h
        rw [hsafe, Bool.not_true, if_neg Bool.false_ne_true] at h
        unfold readdir at h
        rw [filter_names hnamed] at h
        obtain ⟨u, hu, rfl⟩ := Option.map_eq_some_iff.mp h
        have hvalid : ∀ name ∈ s.tree.children (place path), name ≠ [] ∧ slash ∉ name :=
          fun name hname => valid_children hname
        have hchildren : ∀ name ∈ s.tree.children (place path), ∀ a b,
            removeTree fuel (path ++ slash :: name) false a = some b → Named a.tree →
            There a.tree (path ++ slash :: name) →
            Removes (fun n => decide (((place path).child name).Below n.place)) 0 a b := by
          intro name hname a b hab hnameda htherea
          obtain ⟨m, hm, -, rfl⟩ := place_of_child hname
          have hchild := place_child hcard (hvalid _ hname)
          have hroot : place (path ++ slash :: m.name) ≠ Place.card [] := hchild ▸ child_ne_root _ _
          have hstep := ih (safePath_child hsafe (hnamed m hm).1) hroot false hnameda hab
          rw [if_pos htherea] at hstep
          refine hstep.congr fun k _ => decide_eq_decide.mpr ?_
          rw [takes_false, hchild]
        have hthere : ∀ name ∈ s.tree.children (place path), There s.tree (path ++ slash :: name) := by
          intro name hname
          obtain ⟨m, hm, hmplace, -⟩ := place_of_child hname
          exact ⟨m, hm, hmplace.trans (place_child hcard (hvalid name hname)).symm⟩
        have hloop := removes_loop hcard hchildren hvalid (nodup_children s.tree (place path)) hnamed
          hthere hu
        have hbelow := fun m (hm : m ∈ s.tree.nodes) => any_child_iff (p := place path) hm
        cases keepShell with
        | true =>
          refine @Removes.congr _ _ _ _ u.skip ⟨hloop.nodes, hloop.deleted, hloop.progress, hloop.failed⟩
            fun m hm => ?_
          rw [Bool.eq_iff_iff, hbelow m hm, decide_eq_true_iff]
          refine and_congr_right fun _ => ⟨fun hne hkeep => hne hkeep.2.1, fun hkeep heq => ?_⟩
          obtain rfl := eq_of_place hm hn (heq.trans hplace.symm)
          exact hkeep ⟨rfl, hplace, hkind⟩
        | false =>
          have hleft : ∀ m, m ∈ u.tree.nodes → (place path).Below m.place → m.place = place path := by
            intro m hm hmbelow
            obtain ⟨hms, hnone⟩ := hloop.mem.mp hm
            by_contra hne
            rw [(hbelow m hms).mpr ⟨hmbelow, hne⟩] at hnone
            cases hnone
          have hthere' : There u.tree path := by
            refine ⟨n, hloop.mem.mpr ⟨hn, ?_⟩, hplace⟩
            rw [Bool.eq_false_iff]
            exact fun hany => ((hbelow n hn).mp hany).2 hplace
          refine (hloop.trans (removes_unlink hroot hthere' (children_eq_nil hleft))).congr fun m hm => ?_
          rw [Bool.eq_iff_iff, Bool.or_eq_true, hbelow m hm, decide_eq_true_iff, decide_eq_true_iff,
            takes_false]
          constructor
          · rintro (⟨hmbelow, -⟩ | heq)
            · exact hmbelow
            · exact heq ▸ Place.Below.refl _
          · intro hmbelow
            by_cases heq : m.place = place path
            · exact Or.inr heq
            · exact Or.inl ⟨hmbelow, heq⟩
    · rw [if_neg hnot]
      rw [hstat] at h
      cases h
      refine Removes.congr (P := fun _ => false) ⟨(List.filter_true _).symm, rfl, rfl, rfl⟩ fun m hm => ?_
      exact (decide_eq_false fun htakes => not_below hnames hnot hm htakes.1).symm

/-! ### Spelling -/

/-- The names below the mount point that a path is made of. -/
def steps (path : List UInt8) : List Name := components (path.drop kMountPoint.length)

/-- **Canonical spelling**: no component is empty, and what is there on the way is spelled as it is
stored. -/
def Canonical (t : FileTree) (path : List UInt8) : Prop :=
  path = kMountPoint ++ (steps path).flatMap (slash :: ·) ∧
    ∀ n ∈ t.nodes, ∀ i < (steps path).length,
      n.place = .card (((steps path).take (i + 1)).map fold) → (steps path)[i]? = some n.name

instance (t : FileTree) (path : List UInt8) : Decidable (Canonical t path) := by
  unfold Canonical
  infer_instance

/-- `/sdcard/logs` and `/sdcard/rawdata`, as they are written. -/
def managedPaths : List (List UInt8) := [kMountPoint ++ ascii "/logs", kMountPoint ++ ascii "/rawdata"]

/-- A path that no batch may contain. -/
def Bad (path : List UInt8) : Prop := safePath path = false ∨ place path = .card []

theorem place_steps {path : List UInt8} (h : safePath path = true) :
    place path = .card ((steps path).map fold) := if_pos (onCard_of_safePath h)

theorem guarded_texts :
    (∀ path ∈ [kMountPoint, kMountPoint ++ [slash]], checkDeletable path = .kMountRoot) ∧
    (∀ path ∈ managedPaths, checkDeletable path = .kManagedDir ∧ (steps path).length = 1) ∧
    ∀ path ∈ kMountPoint :: managedPaths, path.length < 258 ∧
      path ++ [slash] ≠ kMountPoint ++ (steps (path ++ [slash])).flatMap (slash :: ·) := by
  decide +kernel

theorem eq_of_canonical {t : FileTree} {path norm : List UInt8} (h : Canonical t path)
    (hnorm : norm ∈ kMountPoint :: managedPaths) (heq : normalized path = norm) : path = norm := by
  obtain ⟨hshort, hslash⟩ := guarded_texts.2.2 norm hnorm
  rcases eq_of_normalized heq hshort with rfl | rfl
  · rfl
  · exact absurd h.1 hslash

theorem managed_iff {t : FileTree} {path : List UInt8} (h : Canonical t path) :
    checkDeletable path = .kManagedDir ↔ path ∈ managedPaths := by
  refine ⟨fun hmanaged => ?_, fun hmem => (guarded_texts.2.1 path hmem).1⟩
  unfold checkDeletable at hmanaged
  split_ifs at hmanaged with _ _ hlogs hrawdata
  · have hmem : kMountPoint ++ ascii "/logs" ∈ managedPaths := List.mem_cons_self
    rw [eq_of_canonical h (List.mem_cons_of_mem _ hmem) hlogs]
    exact hmem
  · have hmem : kMountPoint ++ ascii "/rawdata" ∈ managedPaths :=
      List.mem_cons_of_mem _ List.mem_cons_self
    rw [eq_of_canonical h (List.mem_cons_of_mem _ hmem) hrawdata]
    exact hmem

theorem refused_iff {t : FileTree} {path : List UInt8} (h : safePath path = true → Canonical t path) :
    refused (some path) = true ↔ Bad path := by
  rw [refused_some]
  constructor
  · rintro (hbad | hroot)
    · refine Or.inl ?_
      by_contra hsafe
      rw [Bool.not_eq_false] at hsafe
      unfold checkDeletable at hbad
      rw [hsafe, Bool.not_true, if_neg Bool.false_ne_true] at hbad
      split_ifs at hbad
    · by_cases hsafe : safePath path = true
      · refine Or.inr ?_
        unfold checkDeletable at hroot
        rw [hsafe, Bool.not_true, if_neg Bool.false_ne_true] at hroot
        split_ifs at hroot with heq
        rw [eq_of_canonical (h hsafe) List.mem_cons_self heq]
        decide
      · exact Or.inl (Bool.eq_false_iff.mpr hsafe)
  · rintro (hbad | hroot)
    · refine Or.inl ?_
      unfold checkDeletable
      rw [hbad, Bool.not_false, if_pos rfl]
    · by_cases hsafe : safePath path = true
      · refine Or.inr ?_
        have hcanon := (h hsafe).1
        rw [place_steps hsafe, Place.card.injEq, List.map_eq_nil_iff] at hroot
        rw [hroot, List.flatMap_nil, List.append_nil] at hcanon
        rw [hcanon]
        exact guarded_texts.1 _ List.mem_cons_self
      · refine Or.inl ?_
        unfold checkDeletable
        rw [Bool.eq_false_iff.mpr hsafe, Bool.not_false, if_pos rfl]

/-! ### The paths of a batch -/

/-- A batch takes what is at or below one of its paths, but not a managed directory that it names. -/
def Removed (paths : List (List UInt8)) (n : Node) : Prop :=
  (∃ path ∈ paths, (place path).Below n.place) ∧
    ¬ (n.kind = .dir ∧ ∃ path ∈ paths, path ∈ managedPaths ∧ n.place = place path)

instance (paths : List (List UInt8)) (n : Node) : Decidable (Removed paths n) := by
  unfold Removed
  infer_instance

/-- The path still leads to something behind the paths before it. -/
def Remains (t : FileTree) (before : List (List UInt8)) (path : List UInt8) : Prop :=
  ∃ n ∈ t.nodes, n.place = place path ∧ ¬ Removed before n

instance (t : FileTree) (before : List (List UInt8)) (path : List UInt8) :
    Decidable (Remains t before path) := by
  unfold Remains
  infer_instance

/-- How many of the paths lead to nothing at their turn. -/
def missing (t : FileTree) (paths : List (List UInt8)) : ℕ :=
  ((List.range paths.length).filter fun i => !decide (Remains t (paths.take i) (paths.getD i []))).length

/-- **An exact deletion**: the tree is the tree before less what the paths take, everything taken is
counted as deleted and as progress, and the failures are the paths that led to nothing. -/
structure Exact (t : FileTree) (paths : List (List UInt8)) (s : Deleting) : Prop where
  nodes : s.tree.nodes = t.nodes.filter fun n => !decide (Removed paths n)
  deleted : s.res.deleted + s.tree.nodes.length = t.nodes.length
  progress : s.progress = s.res.deleted
  failed : s.res.failed = missing t paths

/-- The trees at the paths, each less its own shell if it is kept, are what the batch takes. -/
theorem any_takes {t : FileTree} {paths : List (List UInt8)}
    (hcanon : ∀ path ∈ paths, Canonical t path) (hgood : ∀ path ∈ paths, ¬ Bad path) {n : Node}
    (hn : n ∈ t.nodes) :
    (paths.any fun path => decide (Takes path (checkDeletable path = .kManagedDir) n)) =
      decide (Removed paths n) := by
  have hplace : ∀ path ∈ paths, place path = .card ((steps path).map fold) ∧ steps path ≠ [] := by
    intro path hpath
    have hbad := hgood path hpath
    have hsafe : safePath path = true := by
      by_contra hnot
      exact hbad (Or.inl (Bool.eq_false_iff.mpr hnot))
    refine ⟨place_steps hsafe, fun hnil => hbad (Or.inr ?_)⟩
    rw [place_steps hsafe, hnil]
    rfl
  rw [Bool.eq_iff_iff, List.any_eq_true, decide_eq_true_iff]
  constructor
  · rintro ⟨path, hpath, htakes⟩
    obtain ⟨hbelow, hshell⟩ := of_decide_eq_true htakes
    refine ⟨⟨path, hpath, hbelow⟩, ?_⟩
    rintro ⟨hdir, path', hpath', hmanaged, hn'⟩
    -- two paths to one directory below the mount point, both spelled as it is stored
    obtain ⟨hp, hne⟩ := hplace path hpath
    obtain ⟨hp', -⟩ := hplace path' hpath'
    have hone := (guarded_texts.2.1 path' hmanaged).2
    rw [hn', hp', hp] at hbelow
    have hle : (steps path).length ≤ 1 := by
      have hlength := hbelow.length_le
      change ((steps path).map fold).length ≤ ((steps path').map fold).length at hlength
      rw [List.length_map, List.length_map, hone] at hlength
      exact hlength
    have hsingle : ∀ q : List UInt8, Canonical t q → (steps q).length = 1 →
        n.place = .card ((steps q).map fold) → q = kMountPoint ++ slash :: n.name := by
      intro q hq hlength hplaceq
      obtain ⟨a, ha⟩ := List.length_eq_one_iff.mp hlength
      have hname := hq.2 n hn 0 (by omega) (by rw [hplaceq, ha]; rfl)
      have htext := hq.1
      rw [ha] at hname htext
      cases hname
      rw [htext, List.flatMap_cons, List.flatMap_nil, List.append_nil]
    have hlength : (steps path).length = 1 := by
      have hpos := List.length_pos_iff.mpr hne
      omega
    have hsame : n.place = place path := by
      rw [hn', hp', hp]
      refine (hbelow.eq_of_length ?_).symm
      change ((steps path').map fold).length ≤ ((steps path).map fold).length
      rw [List.length_map, List.length_map, hone, hlength]
    have heq : path = path' :=
      (hsingle path (hcanon path hpath) hlength (hsame.trans hp)).trans
        (hsingle path' (hcanon path' hpath') hone (hn'.trans hp')).symm
    refine hshell ⟨decide_eq_true ?_, hsame, hdir⟩
    rw [heq]
    exact (guarded_texts.2.1 path' hmanaged).1
  · rintro ⟨⟨path, hpath, hbelow⟩, hshell⟩
    refine ⟨path, hpath, decide_eq_true ⟨hbelow, ?_⟩⟩
    rintro ⟨hkeep, hsame, hdir⟩
    exact hshell ⟨hdir, path, hpath, (managed_iff (hcanon path hpath)).mp (of_decide_eq_true hkeep), hsame⟩

theorem missing_concat (t : FileTree) (paths : List (List UInt8)) (path : List UInt8) :
    missing t (paths ++ [path]) = missing t paths + if Remains t paths path then 0 else 1 := by
  unfold missing
  rw [List.length_append, List.length_singleton, List.range_succ, List.filter_append, List.length_append]
  congr 1
  · refine congrArg List.length (List.filter_congr fun i hi => ?_)
    have hlt := List.mem_range.mp hi
    rw [List.take_append_of_le_length hlt.le, List.getD_eq_getElem?_getD, List.getD_eq_getElem?_getD,
      List.getElem?_append_left hlt]
  · rw [List.filter_singleton, List.take_left, List.getD_eq_getElem?_getD,
      List.getElem?_append_right le_rfl, Nat.sub_self, List.getElem?_cons_zero, Option.getD_some]
    by_cases h : Remains t paths path
    · rw [if_pos h, decide_eq_true h]
      rfl
    · rw [if_neg h, decide_eq_false h]
      rfl

theorem removes_paths {paths : List (List UInt8)} {s s' : Deleting} (hnamed : Named s.tree)
    (hcanon : ∀ path ∈ paths, Canonical s.tree path) (hgood : ∀ path ∈ paths, ¬ Bad path)
    (h : paths.foldlM (fun s path => removeAll path (checkDeletable path = .kManagedDir) s) s =
      some s') :
    Removes (fun n => decide (Removed paths n)) (missing s.tree paths) s s' := by
  suffices hany : Removes (fun n => paths.any fun path =>
      decide (Takes path (checkDeletable path = .kManagedDir) n)) (missing s.tree paths) s s' from
    hany.congr fun n hn => any_takes hcanon hgood hn
  induction paths using List.reverseRecOn generalizing s' with
  | nil =>
    rw [List.foldlM_nil] at h
    cases h
    exact Removes.refl s
  | append_singleton paths path ih =>
    rw [List.foldlM_append, Option.bind_eq_bind, Option.bind_eq_some_iff] at h
    obtain ⟨u, hu, h⟩ := h
    rw [List.foldlM_cons, Option.bind_eq_bind, Option.bind_eq_some_iff] at h
    obtain ⟨v, hv, h⟩ := h
    rw [List.foldlM_nil] at h
    cases h
    have hcanon' : ∀ p ∈ paths, Canonical s.tree p := fun p hp => hcanon p (List.mem_append_left _ hp)
    have hgood' : ∀ p ∈ paths, ¬ Bad p := fun p hp => hgood p (List.mem_append_left _ hp)
    have hbefore := ih hcanon' hgood' hu
    have hmem : path ∈ paths ++ [path] := List.mem_append_right _ (List.mem_singleton_self path)
    have hbad := hgood path hmem
    have hsafe : safePath path = true := by
      by_contra hnot
      exact hbad (Or.inl (Bool.eq_false_iff.mpr hnot))
    have hlast := removes_removeTree _ hsafe (fun hroot => hbad (Or.inr hroot))
      (decide (checkDeletable path = .kManagedDir)) (hnamed.of_subset hbefore.subset) hv
    have hthere : There u.tree path ↔ Remains s.tree paths path := by
      constructor
      · rintro ⟨n, hn, hplace⟩
        obtain ⟨hns, hnot⟩ := hbefore.mem.mp hn
        rw [any_takes hcanon' hgood' hns] at hnot
        exact ⟨n, hns, hplace, of_decide_eq_false hnot⟩
      · rintro ⟨n, hn, hplace, hnot⟩
        refine ⟨n, hbefore.mem.mpr ⟨hn, ?_⟩, hplace⟩
        rw [any_takes hcanon' hgood' hn]
        exact decide_eq_false hnot
    rw [missing_concat, ← if_congr hthere rfl rfl]
    refine (hbefore.trans hlast).congr fun n _ => ?_
    rw [List.any_append, List.any_cons, List.any_nil, Bool.or_false]

theorem exact_deletePaths {t : FileTree} {paths : List (Option (List UInt8))}
    (hcanon : ∀ path, some path ∈ paths → safePath path = true → Canonical t path) (hnone : none ∉ paths)
    (hgood : ∀ path, some path ∈ paths → ¬ Bad path) (hnamed : Named t) :
    ∃ s, deletePaths true t paths = some s ∧ Exact t (paths.filterMap id) s := by
  have hfind : paths.find? refused = none := by
    refine List.find?_eq_none.mpr fun path hpath hrefused => ?_
    cases path with
    | none => exact hnone hpath
    | some path => exact hgood path hpath ((refused_iff (hcanon path hpath)).mp hrefused)
  have hmem : ∀ path ∈ paths.filterMap id, some path ∈ paths := by
    intro path hpath
    obtain ⟨o, ho, rfl⟩ := List.mem_filterMap.mp hpath
    exact ho
  have hsafe : ∀ path ∈ paths.filterMap id, safePath path = true := by
    intro path hpath
    by_contra hnot
    exact hgood path (hmem path hpath) (Or.inl (Bool.eq_false_iff.mpr hnot))
  obtain ⟨s, hs, -⟩ := foldlM_isSome (I := fun _ : Deleting => True)
    (f := fun s path => removeAll path (checkDeletable path = .kManagedDir) s)
    (l := paths.filterMap id) (fun path hpath u _ => by
      obtain ⟨u', hu', -⟩ := removeAll_spec (onCard_of_safePath (hsafe path hpath))
        (decide (checkDeletable path = .kManagedDir)) u
      exact ⟨u', hu', trivial⟩)
    (s := { tree := t, res := { requested := paths.length } }) trivial
  refine ⟨s, ?_, ?_⟩
  · unfold deletePaths
    rw [Bool.not_true, if_neg Bool.false_ne_true, hfind]
    exact hs
  · have hremoves := removes_paths (s := { tree := t, res := { requested := paths.length } }) hnamed
      (fun path hpath => hcanon path (hmem path hpath) (hsafe path hpath))
      (fun path hpath => hgood path (hmem path hpath)) hs
    have hdeleted := hremoves.deleted
    have hprogress := hremoves.progress
    dsimp only at hdeleted hprogress
    exact ⟨hremoves.nodes, by omega, by omega, by rw [hremoves.failed, Nat.zero_add]⟩

/-- **A batch deletion does exactly what was asked.** A batch with a path that is missing, unsafe or the
mount point changes nothing; any other one takes the union of its trees, less the shells it keeps. -/
theorem delete_paths_exact (t : FileTree) (paths : List (Option (List UInt8)))
    (hcanon : ∀ path, some path ∈ paths → safePath path = true → Canonical t path) :
    (∀ mounted, none ∈ paths ∨ (∃ path, some path ∈ paths ∧ Bad path) →
      ∃ s, deletePaths mounted t paths = some s ∧ s.tree = t ∧ s.res.deleted = 0 ∧ s.progress = 0 ∧
        s.res.skipped = paths.length) ∧
    (none ∉ paths → (∀ path, some path ∈ paths → ¬ Bad path) → Named t →
      ∃ s, deletePaths true t paths = some s ∧ Exact t (paths.filterMap id) s) := by
  refine ⟨fun mounted hbad => ?_, fun hnone hgood hnamed => ?_⟩
  · obtain ⟨path, hpath, hrefused⟩ : ∃ path ∈ paths, refused path = true := by
      rcases hbad with hnone | ⟨path, hpath, hbad⟩
      · exact ⟨none, hnone, rfl⟩
      · exact ⟨some path, hpath, (refused_iff (hcanon path hpath)).mpr hbad⟩
    unfold deletePaths
    split_ifs
    · exact ⟨_, rfl, rfl, rfl, rfl, rfl⟩
    · split
      · exact ⟨_, rfl, rfl, rfl, rfl, rfl⟩
      · next hfind => exact absurd hrefused (List.find?_eq_none.mp hfind path hpath)
  · exact exact_deletePaths hcanon hnone hgood hnamed

/-- A directory below a managed one, and a file in it. -/
def rawdataDay : Node where
  mounted := true
  path := [ascii "rawdata"]
  name := ascii "day"
  kind := .dir
  valid := by decide

def rawdataFile : Node where
  mounted := true
  path := [ascii "rawdata", ascii "day"]
  name := ascii "a.rnx"
  kind := .file 7
  valid := by decide

/-- A card with a managed directory, its contents and another directory. -/
def filled : FileTree where
  nodes := [rawdataDir, rawdataDay, rawdataFile, topDir (ascii "b") name_b]
  unique := by decide
  parents := by
    unfold IsDir
    decide

/-- The managed directory, a path inside it, and another directory twice. -/
def batch : List (Option (List UInt8)) :=
  [some (ascii "/sdcard/rawdata"), some (ascii "/sdcard/rawdata/day"), some (ascii "/sdcard/b"),
    some (ascii "/sdcard/b")]

theorem delete_paths_exact_batch :
    (∃ s, deletePaths true filled batch = some s ∧ Exact filled (batch.filterMap id) s ∧
      s.res.deleted = 3 ∧ s.res.failed = 2) ∧
    ∃ s, deletePaths true filled [some (ascii "/sdcard")] = some s ∧ s.tree = filled ∧
      s.res.deleted = 0 ∧ s.progress = 0 ∧ s.res.skipped = 1 := by
  have hbatch : (∀ path ∈ batch.filterMap id ++ [ascii "/sdcard"], Canonical filled path) ∧
      (∀ path ∈ batch.filterMap id, safePath path = true ∧ place path ≠ .card []) ∧
      (∀ n ∈ filled.nodes, hasDotDot n.name = false ∧ n.name ≠ ascii ".") ∧
      place (ascii "/sdcard") = .card [] ∧
      (deletePaths true filled batch).map (fun s => (s.res.deleted, s.res.failed)) = some (3, 2) := by
    decide +kernel
  obtain ⟨hcanon, hgood, hnamed, hroot, hcounts⟩ := hbatch
  have hmem : ∀ path, some path ∈ batch → path ∈ batch.filterMap id := fun path hpath =>
    List.mem_filterMap.mpr ⟨some path, hpath, rfl⟩
  refine ⟨?_, ?_⟩
  · obtain ⟨s, hs, hexact⟩ := (delete_paths_exact filled batch
      (fun path hpath _ => hcanon path (List.mem_append_left _ (hmem path hpath)))).2 (by decide)
      (fun path hpath hbad => by
        obtain ⟨hsafe, hplace⟩ := hgood path (hmem path hpath)
        rcases hbad with hbad | hbad
        · rw [hsafe] at hbad
          cases hbad
        · exact hplace hbad) hnamed
    rw [hs, Option.map_some, Option.some.injEq, Prod.mk.injEq] at hcounts
    exact ⟨s, hs, hexact, hcounts⟩
  · refine (delete_paths_exact filled [some (ascii "/sdcard")] (fun path hpath _ => ?_)).1 true
      (Or.inr ⟨ascii "/sdcard", List.mem_singleton_self _, Or.inr hroot⟩)
    cases List.mem_singleton.mp hpath
    exact hcanon _ (List.mem_append_right _ (List.mem_singleton_self _))

end GpsBase.Storage.BatchDelete
