import GpsBase.Storage.BatchDelete

/-! # What the confirmation dialog shows

`preview_delete_many` walks the trees of a selection as the deletion will, and counts. The walk gives up at
a cap, which it looks at before each entry and before each path; the directories it leaves are counted
without a look. So a preview that is not truncated is exact, but one of more entries than the cap can end
without a look that sees the cap. -/

namespace GpsBase.Storage.Preview

open GpsBase.Lib.CText GpsBase.Storage.Card GpsBase.Storage.SdManager GpsBase.Storage.Removal
  GpsBase.Storage.DeleteGuard GpsBase.Storage.BatchDelete

/-! ### The preview -/

def kPreviewWalkCap : ℕ := 4096

structure DeletePreview where
  ok : Bool := false
  files : ℕ := 0
  dirs : ℕ := 0
  bytes : ℕ := 0
  truncated : Bool := false
  deriving DecidableEq

namespace DeletePreview

/-- `pv.files + pv.dirs`. -/
def entries (pv : DeletePreview) : ℕ := pv.files + pv.dirs

/-- `pv.truncated = true`. -/
def truncate (pv : DeletePreview) : DeletePreview := { pv with truncated := true }

def addFile (pv : DeletePreview) (size : ℕ) : DeletePreview :=
  { pv with files := pv.files + 1, bytes := pv.bytes + size }

/-- A directory's own shell is counted. -/
def addDir (pv : DeletePreview) : DeletePreview := { pv with dirs := pv.dirs + 1 }

def keepShell (pv : DeletePreview) : DeletePreview := { pv with dirs := pv.dirs - 1 }

/-- The preview of a path is added to the total. -/
def add (total one : DeletePreview) : DeletePreview where
  ok := total.ok
  files := total.files + one.files
  dirs := total.dirs + one.dirs
  bytes := total.bytes + one.bytes
  truncated := total.truncated || one.truncated

end DeletePreview

/-- The loop of `preview_walk` over the names of a directory. -/
def previewNames (walk : List UInt8 → DeletePreview → Option DeletePreview) (path : List UInt8) :
    List Name → DeletePreview → Option DeletePreview
  | [], pv => some pv
  | name :: names, pv =>
    if kPreviewWalkCap ≤ pv.entries then some pv.truncate
    else (walk (path ++ slash :: name) pv).bind (previewNames walk path names)

def previewWalk (t : FileTree) : ℕ → List UInt8 → DeletePreview → Option DeletePreview
  | 0, _, _ => none
  | fuel + 1, path, pv =>
    if kPreviewWalkCap ≤ pv.entries then some pv.truncate
    else
      match stat t path with
      | .error _ => some pv
      | .ok .dir =>
        let names := (readdir t path).filter fun n => n ≠ ascii "." && n ≠ ascii ".."
        (previewNames (previewWalk t fuel) path names pv).map DeletePreview.addDir
      | .ok (.file size) => some (pv.addFile size)

def previewDelete (mounted : Bool) (t : FileTree) (path : List UInt8) : Option DeletePreview :=
  if !mounted then some {}
  else
    match stat t path with
    | .error _ => some {}
    | .ok kind =>
      (previewWalk t (t.depth + 2) path {}).map fun pv =>
        let pv := if kind = .dir ∧ checkDeletable path = .kManagedDir ∧ 0 < pv.dirs then pv.keepShell
          else pv
        { pv with ok := true }

/-- The loop of `preview_delete_many`. -/
def previewPaths (mounted : Bool) (t : FileTree) :
    List (Option (List UInt8)) → DeletePreview → Option DeletePreview
  | [], total => some total
  | none :: paths, total => previewPaths mounted t paths total
  | some path :: paths, total =>
    if kPreviewWalkCap ≤ total.entries then some total.truncate
    else (previewDelete mounted t path).bind fun one =>
      previewPaths mounted t paths (if one.ok then total.add one else total)

def previewDeleteMany (mounted : Bool) (t : FileTree) (paths : List (Option (List UInt8))) :
    Option DeletePreview :=
  if !mounted then some {}
  else (previewPaths mounted t paths {}).map fun total => { total with ok := true }

/-! ### Sums over a tree -/

section Sums

variable {M : Type*} [AddCommMonoid M]

/-- What the nodes that meet `P` add up to. -/
def sumOf (t : FileTree) (f : Node → M) (P : Node → Bool) : M := ((t.nodes.filter P).map f).sum

theorem sumOf_congr {t : FileTree} {f : Node → M} {P Q : Node → Bool} (h : ∀ n ∈ t.nodes, P n = Q n) :
    sumOf t f P = sumOf t f Q := by
  unfold sumOf
  rw [List.filter_congr h]

theorem sum_filter_or {α : Type*} {P Q : α → Bool} (f : α → M) : ∀ {as : List α},
    (∀ a ∈ as, P a = true → Q a = false) →
    ((as.filter fun a => P a || Q a).map f).sum = ((as.filter P).map f).sum + ((as.filter Q).map f).sum
  | [], _ => (add_zero 0).symm
  | a :: as, h => by
    have ih := sum_filter_or f fun b hb => h b (List.mem_cons_of_mem _ hb)
    rcases hP : P a with _ | _
    · rcases hQ : Q a with _ | _
      · simp only [List.filter_cons, hP, hQ, Bool.or_false, Bool.false_eq_true, if_false, ih]
      · simp only [List.filter_cons, hP, hQ, Bool.or_true, Bool.false_eq_true, if_false, if_true,
          List.map_cons, List.sum_cons, ih]
        rw [add_left_comm]
    · have hQ := h a List.mem_cons_self hP
      simp only [List.filter_cons, hP, hQ, Bool.or_false, Bool.false_eq_true, if_false, if_true,
        List.map_cons, List.sum_cons, ih]
      rw [add_assoc]

theorem sumOf_or {t : FileTree} {f : Node → M} {P Q : Node → Bool}
    (h : ∀ n ∈ t.nodes, P n = true → Q n = false) :
    sumOf t f (fun n => P n || Q n) = sumOf t f P + sumOf t f Q := sum_filter_or f h

end Sums

/-- What a node adds to files, directories and bytes. -/
def tally (n : Node) : ℕ × ℕ × ℕ :=
  match n.kind with
  | .file size => (1, 0, size)
  | .dir => (0, 1, 0)

/-- Files, directories and bytes of a preview. -/
def DeletePreview.tally (pv : DeletePreview) : ℕ × ℕ × ℕ := (pv.files, pv.dirs, pv.bytes)

theorem DeletePreview.tally_eq_iff {pv : DeletePreview} {x : ℕ × ℕ × ℕ} :
    pv.tally = x ↔ pv.files = x.1 ∧ pv.dirs = x.2.1 ∧ pv.bytes = x.2.2 := by
  unfold DeletePreview.tally
  rw [Prod.ext_iff, Prod.ext_iff]

/-- The number of nodes that meet `P`. -/
def count (t : FileTree) (P : Node → Bool) : ℕ := (t.nodes.filter P).length

theorem count_eq_sumOf (t : FileTree) (P : Node → Bool) : count t P = sumOf t (fun _ => 1) P := by
  unfold count sumOf
  rw [List.map_const', List.sum_replicate, smul_eq_mul, mul_one]

theorem entries_sumOf (t : FileTree) (P : Node → Bool) :
    (sumOf t tally P).1 + (sumOf t tally P).2.1 = count t P := by
  unfold sumOf count
  induction t.nodes.filter P with
  | nil => rfl
  | cons n ns ih =>
    rw [List.map_cons, List.sum_cons, Prod.fst_add, Prod.snd_add, Prod.fst_add, List.length_cons, ← ih]
    unfold tally
    rcases n.kind with size | _
    · dsimp only
      omega
    · dsimp only
      omega

theorem entries_of_tally {t : FileTree} {P : Node → Bool} {pv pv' : DeletePreview}
    (h : pv'.tally = pv.tally + sumOf t tally P) : pv'.entries = pv.entries + count t P := by
  have hentries := entries_sumOf t P
  obtain ⟨hfiles, hdirs, -⟩ := DeletePreview.tally_eq_iff.mp h
  simp only [Prod.fst_add, Prod.snd_add, DeletePreview.tally] at hfiles hdirs
  unfold DeletePreview.entries
  omega

/-! ### The order of the walk -/

/-- `m` is in a tree that the walk is through with before it comes to the tree of a sibling, and `n` is in
that one. -/
def Earlier (t : FileTree) (m n : Node) : Prop :=
  ∃ a ∈ t.nodes, ∃ b ∈ t.nodes, [a, b].Sublist t.nodes ∧ a.parent = b.parent ∧
    a.place.Below m.place ∧ b.place.Below n.place

instance (t : FileTree) (m n : Node) : Decidable (Earlier t m n) := by
  unfold Earlier
  infer_instance

/-- How many entries below `p` the walk is through with when it comes to `n`. -/
def finished (t : FileTree) (p : Place) (n : Node) : ℕ :=
  count t fun m => decide (p.Below m.place ∧ Earlier t m n)

/-- Some entry below `p` comes up when the walk, which began with `k` entries, has seen as many as the cap. -/
def Late (t : FileTree) (p : Place) (k : ℕ) : Prop :=
  ∃ n ∈ t.nodes, p.Below n.place ∧ n.place ≠ p ∧ kPreviewWalkCap ≤ k + finished t p n

/-- The nodes of a directory, in the order of `readdir`. -/
def inDir (t : FileTree) (p : Place) : List Node := t.nodes.filter fun n => n.parent = p

/-- The nodes at or below one of `as`. -/
def among (as : List Node) (m : Node) : Bool := as.any fun a => decide (a.place.Below m.place)

theorem nodup_nodes (t : FileTree) : t.nodes.Nodup := List.Nodup.of_map _ t.unique

theorem mem_inDir {t : FileTree} {p : Place} {n : Node} :
    n ∈ inDir t p ↔ n ∈ t.nodes ∧ n.parent = p := by
  unfold inDir
  rw [List.mem_filter, decide_eq_true_iff]

theorem place_of_inDir {t : FileTree} {p : Place} {n : Node} (h : n ∈ inDir t p) :
    n.place = p.child n.name := by
  unfold Node.place
  rw [(mem_inDir.mp h).2]

theorem length_of_inDir {t : FileTree} {p : Place} {n : Node} (h : n ∈ inDir t p) :
    n.place.names.length = p.names.length + 1 := by
  rw [place_of_inDir h, Place.length_child]

theorem length_siblings {a b : Node} (h : a.parent = b.parent) :
    a.place.names.length = b.place.names.length := by
  unfold Node.place
  rw [h, Place.length_child, Place.length_child]

theorem not_below_sibling {t : FileTree} {a b : Node} (hsub : [a, b].Sublist t.nodes)
    (hparent : a.parent = b.parent) {q : Place} (ha : a.place.Below q) : ¬ b.place.Below q := by
  intro hb
  have hmem : a ∈ t.nodes ∧ b ∈ t.nodes :=
    ⟨hsub.subset List.mem_cons_self, hsub.subset (List.mem_cons_of_mem _ (List.mem_singleton_self b))⟩
  have heq : a = b := eq_of_place hmem.1 hmem.2 (eq_of_below ha hb (length_siblings hparent))
  have hnodup := (nodup_nodes t).sublist hsub
  rw [heq, List.nodup_cons] at hnodup
  exact hnodup.1 (List.mem_singleton_self b)

theorem below_or_below {p q r : Place} (hp : p.Below r) (hq : q.Below r)
    (hlength : p.names.length ≤ q.names.length) : p.Below q := by
  cases p <;> cases q <;> cases r <;> first
    | exact hp.elim
    | exact hq.elim
    | exact List.prefix_of_prefix_length_le hp hq hlength

/-- The siblings of two nodes below `p` are below `p`, and not `p`. -/
theorem length_of_earlier {t : FileTree} {p : Place} {m n a b : Node} (hsub : [a, b].Sublist t.nodes)
    (hparent : a.parent = b.parent) (ham : a.place.Below m.place) (hbn : b.place.Below n.place)
    (hm : p.Below m.place) (hn : p.Below n.place) : p.names.length < b.place.names.length := by
  by_contra hle
  rw [not_lt] at hle
  have hlength := length_siblings hparent
  exact not_below_sibling hsub hparent (below_or_below ham hm (by omega)) (below_or_below hbn hn hle)

/-- Nothing below a place comes before what is there. -/
theorem finished_self {t : FileTree} {n : Node} : finished t n.place n = 0 := by
  unfold finished count
  rw [List.length_eq_zero_iff, List.filter_eq_nil_iff]
  intro m _ hm
  obtain ⟨hbelow, a, -, b, -, hsub, hparent, ham, hbn⟩ := of_decide_eq_true hm
  have hlt := length_of_earlier hsub hparent ham hbn hbelow (Place.Below.refl _)
  exact absurd hbn.length_le (not_le.mpr hlt)

/-- What comes before an element of a list without repetitions. -/
theorem pair_sublist_iff {α : Type*} {before after : List α} {a b : α}
    (hnodup : (before ++ b :: after).Nodup) : [a, b].Sublist (before ++ b :: after) ↔ a ∈ before := by
  rw [List.nodup_append, List.nodup_cons] at hnodup
  obtain ⟨_, ⟨hafter, _⟩, hdisjoint⟩ := hnodup
  have hbefore : b ∉ before := fun h => hdisjoint b h b List.mem_cons_self rfl
  constructor
  · intro hsub
    have hpairwise : (before ++ b :: after).Pairwise fun x y => y = b → x ∈ before := by
      rw [List.pairwise_append, List.pairwise_cons]
      refine ⟨?_, ⟨fun y hy heq => absurd (heq ▸ hy) hafter, ?_⟩, fun x hx _ _ _ => hx⟩
      · exact List.pairwise_of_forall_mem_list fun x _ y hy heq => absurd (heq ▸ hy) hbefore
      · exact List.pairwise_of_forall_mem_list fun x _ y hy heq => absurd (heq ▸ hy) hafter
    exact List.pairwise_iff_forall_sublist.mp hpairwise hsub rfl
  · intro ha
    exact (List.singleton_sublist.mpr ha).append (List.singleton_sublist.mpr List.mem_cons_self)

theorem sibling_iff {t : FileTree} {p : Place} {before after : List Node} {a b : Node}
    (hdir : inDir t p = before ++ b :: after) : [a, b].Sublist t.nodes ∧ a.parent = b.parent ↔ a ∈ before := by
  have hnodup : (before ++ b :: after).Nodup := hdir ▸ (nodup_nodes t).filter _
  have hb : b.parent = p := by
    have hmem : b ∈ inDir t p := hdir ▸ List.mem_append_right _ List.mem_cons_self
    exact (mem_inDir.mp hmem).2
  rw [← pair_sublist_iff hnodup (b := b), ← hdir, hb]
  constructor
  · rintro ⟨hsub, ha⟩
    have hfilter := hsub.filter fun n => decide (n.parent = p)
    have hpair : [a, b].filter (fun n => decide (n.parent = p)) = [a, b] :=
      List.filter_eq_self.mpr (by simp [ha, hb])
    rwa [hpair] at hfilter
  · intro hsub
    have hmem : a ∈ inDir t p := hsub.subset List.mem_cons_self
    exact ⟨hsub.trans List.filter_sublist, (mem_inDir.mp hmem).2⟩

theorem among_iff {as : List Node} {m : Node} : among as m = true ↔ ∃ a ∈ as, a.place.Below m.place := by
  unfold among
  rw [List.any_eq_true]
  simp only [decide_eq_true_iff]

/-- **What comes before a node in a directory**: the trees of the siblings before the one it lies in, and
what comes before it there. -/
theorem finished_child {t : FileTree} {p : Place} {before after : List Node} {b n : Node}
    (hdir : inDir t p = before ++ b :: after) (hn : b.place.Below n.place) :
    finished t p n = count t (among before) + finished t b.place n := by
  have hb : b ∈ inDir t p := hdir ▸ List.mem_append_right _ List.mem_cons_self
  have hplace := place_of_inDir hb
  have hpb : p.Below b.place := hplace ▸ Place.below_child p b.name
  have hbefore : ∀ a ∈ before, a ∈ inDir t p := fun a ha => hdir ▸ List.mem_append_left _ ha
  unfold finished
  rw [count_eq_sumOf, count_eq_sumOf, count_eq_sumOf, ← sumOf_or]
  · refine sumOf_congr fun m hm => ?_
    rw [Bool.eq_iff_iff, Bool.or_eq_true, decide_eq_true_iff, decide_eq_true_iff, among_iff]
    constructor
    · rintro ⟨hpm, c, hc, d, hd, hsub, hparent, hcm, hdn⟩
      have hlt := length_of_earlier hsub hparent hcm hdn hpm (hpb.trans hn)
      have hdepth := length_of_inDir hb
      have hbd := below_or_below hn hdn (by omega)
      by_cases heq : d = b
      · subst heq
        exact Or.inl ⟨c, (sibling_iff hdir).mp ⟨hsub, hparent⟩, hcm⟩
      · -- the siblings are below the node
        have hne : b.place ≠ d.place := fun h => heq (eq_of_place hd (mem_inDir.mp hb).1 h.symm)
        have hbc : b.place.Below c.place := by
          have habove : b.place.Below d.parent := Place.below_of_child hbd hne
          rw [← hparent] at habove
          exact habove.trans (Place.below_child _ _)
        exact Or.inr ⟨hbc.trans hcm, c, hc, d, hd, hsub, hparent, hcm, hdn⟩
    · rintro (⟨a, ha, ham⟩ | ⟨hbm, hearlier⟩)
      · obtain ⟨hsub, hparent⟩ := (sibling_iff hdir).mpr ha
        have hpa : p.Below a.place := by
          rw [place_of_inDir (hbefore a ha)]
          exact Place.below_child _ _
        exact ⟨hpa.trans ham, a, (mem_inDir.mp (hbefore a ha)).1, b, (mem_inDir.mp hb).1, hsub, hparent, ham, hn⟩
      · exact ⟨hpb.trans hbm, hearlier⟩
  · intro m hm hamong
    obtain ⟨a, ha, ham⟩ := among_iff.mp hamong
    obtain ⟨hsub, hparent⟩ := (sibling_iff hdir).mpr ha
    exact decide_eq_false fun h => not_below_sibling hsub hparent ham h.1

theorem finished_first {t : FileTree} {p : Place} {before after : List Node} {b : Node}
    (hdir : inDir t p = before ++ b :: after) : finished t p b = count t (among before) := by
  rw [finished_child hdir (Place.Below.refl _), finished_self, Nat.add_zero]

/-! ### The walk -/

theorem truncated_previewNames {walk : List UInt8 → DeletePreview → Option DeletePreview} {path : List UInt8}
    (hwalk : ∀ child pv pv', walk child pv = some pv' → pv.truncated = true → pv'.truncated = true) :
    ∀ {names : List Name} {pv pv' : DeletePreview}, previewNames walk path names pv = some pv' →
      pv.truncated = true → pv'.truncated = true
  | [], _, _, h, htrunc => by
    cases h
    exact htrunc
  | name :: names, pv, pv', h, htrunc => by
    rw [previewNames] at h
    split_ifs at h with hcap
    · cases h
      rfl
    · obtain ⟨one, hone, h⟩ := Option.bind_eq_some_iff.mp h
      exact truncated_previewNames hwalk h (hwalk _ _ _ hone htrunc)

theorem truncated_previewWalk {t : FileTree} : ∀ {fuel : ℕ} {path : List UInt8} {pv pv' : DeletePreview},
    previewWalk t fuel path pv = some pv' → pv.truncated = true → pv'.truncated = true
  | 0, _, _, _, h, _ => nomatch h
  | fuel + 1, path, pv, pv', h, htrunc => by
    rw [previewWalk] at h
    split_ifs at h with hcap
    · cases h
      rfl
    · split at h
      · cases h
        exact htrunc
      · obtain ⟨u, hu, rfl⟩ := Option.map_eq_some_iff.mp h
        have hkeep : u.truncated = true :=
          truncated_previewNames (fun _ _ _ hone => truncated_previewWalk hone) hu htrunc
        exact hkeep
      · cases h
        exact htrunc

/-- Some node at or below one of `as` comes up late. -/
def LateIn (t : FileTree) (p : Place) (as : List Node) (k : ℕ) : Prop :=
  ∃ a ∈ as, ∃ n ∈ t.nodes, a.place.Below n.place ∧ kPreviewWalkCap ≤ k + finished t p n

theorem lateIn_nil {t : FileTree} {p : Place} {k : ℕ} : ¬ LateIn t p [] k := by
  rintro ⟨a, ha, -⟩
  exact List.not_mem_nil ha

theorem lateIn_cons {t : FileTree} {p : Place} {before after : List Node} {b : Node} {k : ℕ}
    (hdir : inDir t p = before ++ b :: after) (hcap : ¬ kPreviewWalkCap ≤ k + count t (among before)) :
    LateIn t p (b :: after) k ↔ Late t b.place (k + count t (among before)) ∨ LateIn t p after k := by
  constructor
  · rintro ⟨a, ha, n, hn, hbelow, hlate⟩
    rcases List.mem_cons.mp ha with rfl | ha
    · rw [finished_child hdir hbelow, ← Nat.add_assoc] at hlate
      refine Or.inl ⟨n, hn, hbelow, fun heq => hcap ?_, hlate⟩
      have hmem : a ∈ inDir t p := hdir ▸ List.mem_append_right _ List.mem_cons_self
      obtain rfl := eq_of_place hn (mem_inDir.mp hmem).1 heq
      rwa [finished_self] at hlate
    · exact Or.inr ⟨a, ha, n, hn, hbelow, hlate⟩
  · rintro (⟨n, hn, hbelow, -, hlate⟩ | ⟨a, ha, n, hn, hbelow, hlate⟩)
    · rw [Nat.add_assoc, ← finished_child hdir hbelow] at hlate
      exact ⟨b, List.mem_cons_self, n, hn, hbelow, hlate⟩
    · exact ⟨a, List.mem_cons_of_mem _ ha, n, hn, hbelow, hlate⟩

theorem late_iff {t : FileTree} {p : Place} {k : ℕ} : Late t p k ↔ LateIn t p (inDir t p) k := by
  constructor
  · rintro ⟨n, hn, hbelow, hne, hlate⟩
    obtain ⟨name, hname, hchild⟩ := exists_child _ hn le_rfl hbelow (Ne.symm hne)
    obtain ⟨a, ha, rfl⟩ := List.mem_map.mp hname
    rw [← place_of_inDir ha] at hchild
    exact ⟨a, ha, n, hn, hchild, hlate⟩
  · rintro ⟨a, ha, n, hn, hbelow, hlate⟩
    have hplace := place_of_inDir ha
    refine ⟨n, hn, (Place.below_child p a.name).trans (hplace ▸ hbelow), fun heq => ?_, hlate⟩
    have hle := hbelow.length_le
    rw [heq, length_of_inDir ha] at hle
    omega

theorem among_append (as : List Node) (b : Node) :
    among (as ++ [b]) = fun m => among as m || decide (b.place.Below m.place) := by
  funext m
  unfold among
  rw [List.any_append, List.any_cons, List.any_nil, Bool.or_false]

theorem sumOf_among {t : FileTree} {p : Place} {before after : List Node} {b : Node}
    (hdir : inDir t p = before ++ b :: after) : sumOf t tally (among (before ++ [b])) =
      sumOf t tally (among before) + sumOf t tally fun m => decide (b.place.Below m.place) := by
  rw [among_append, sumOf_or]
  intro m hm hamong
  obtain ⟨a, ha, ham⟩ := among_iff.mp hamong
  obtain ⟨hsub, hparent⟩ := (sibling_iff hdir).mpr ha
  exact decide_eq_false (not_below_sibling hsub hparent ham)

/-- What a walk from `pv` to `pv'` below `p` says: it is truncated if an entry came up late, and otherwise
it counted what is there. -/
structure Walked (t : FileTree) (late : Prop) (P : Node → Bool) (pv pv' : DeletePreview) : Prop where
  truncated : pv'.truncated = true ↔ pv.truncated = true ∨ late
  tally : ¬ late → pv'.tally = pv.tally + sumOf t tally P

/-- **The loop over the names of a directory**, if the walk of each of them is as it should be. -/
theorem walked_previewNames {t : FileTree} {path : List UInt8}
    {walk : List UInt8 → DeletePreview → Option DeletePreview}
    (hkeep : ∀ child pv pv', walk child pv = some pv' → pv.truncated = true → pv'.truncated = true)
    {start : DeletePreview}
    (hwalk : ∀ b ∈ inDir t (place path), ∀ pv pv', pv.entries < kPreviewWalkCap →
      walk (path ++ slash :: b.name) pv = some pv' →
      Walked t (Late t b.place pv.entries) (fun m => decide (b.place.Below m.place)) pv pv') :
    ∀ {after before : List Node} {pv pv' : DeletePreview}, inDir t (place path) = before ++ after →
      pv.tally = start.tally + sumOf t tally (among before) → pv.truncated = start.truncated →
      previewNames walk path (after.map Node.name) pv = some pv' →
      Walked t (LateIn t (place path) after start.entries) (among (before ++ after)) start pv'
  | [], before, pv, pv', hdir, htally, htrunc, h => by
    cases h
    rw [List.append_nil]
    exact ⟨by rw [htrunc, or_iff_left lateIn_nil], fun _ => htally⟩
  | b :: after, before, pv, pv', hdir, htally, htrunc, h => by
    have hentries := entries_of_tally htally
    have hb : b ∈ inDir t (place path) := hdir ▸ List.mem_append_right _ List.mem_cons_self
    rw [List.map_cons, previewNames] at h
    split_ifs at h with hcap
    · cases h
      have hlate : LateIn t (place path) (b :: after) start.entries := by
        refine ⟨b, List.mem_cons_self, b, (mem_inDir.mp hb).1, Place.Below.refl _, ?_⟩
        rwa [finished_first hdir, ← hentries]
      exact ⟨iff_of_true rfl (Or.inr hlate), fun hnot => absurd hlate hnot⟩
    · obtain ⟨one, hone, h⟩ := Option.bind_eq_some_iff.mp h
      have hstep := hwalk b hb pv one (not_le.mp hcap) hone
      rw [hentries] at hstep
      rw [hentries] at hcap
      have hcons := lateIn_cons hdir hcap
      by_cases hlate : Late t b.place (start.entries + count t (among before))
      · -- the flag is set and stays
        have hone := hstep.truncated.mpr (Or.inr hlate)
        exact ⟨iff_of_true (truncated_previewNames hkeep h hone) (Or.inr (hcons.mpr (Or.inl hlate))),
          fun hnot => absurd (hcons.mpr (Or.inl hlate)) hnot⟩
      · have hdir' : inDir t (place path) = (before ++ [b]) ++ after := by
          rw [hdir, List.append_assoc, List.singleton_append]
        have htally' : one.tally = start.tally + sumOf t tally (among (before ++ [b])) := by
          rw [hstep.tally hlate, htally, sumOf_among hdir, add_assoc]
        have htrunc' : one.truncated = start.truncated := by
          have hiff := hstep.truncated
          rw [or_iff_left hlate, ← Bool.eq_iff_iff] at hiff
          rw [hiff, htrunc]
        have hrest : Walked t (LateIn t (place path) after start.entries) (among ((before ++ [b]) ++ after))
            start pv' := walked_previewNames hkeep hwalk hdir' htally' htrunc' h
        rw [List.append_assoc, List.singleton_append] at hrest
        refine ⟨hrest.truncated.trans (or_congr_right ?_), fun hnot => hrest.tally fun hafter => ?_⟩
        · rw [hcons, or_iff_right hlate]
        · exact hnot (hcons.mpr (Or.inr hafter))

theorem place_ne_root (n : Node) : n.place ≠ .card [] := by
  intro h
  have hlength : n.place.names.length = 0 := congrArg (fun p => p.names.length) h
  unfold Node.place at hlength
  rw [Place.length_child] at hlength
  cases hlength

theorem stat_node {t : FileTree} {path : List UInt8} {n : Node} (hn : n ∈ t.nodes)
    (hplace : n.place = place path) : stat t path = .ok n.kind := by
  have hroot : place path ≠ .card [] := hplace ▸ place_ne_root n
  rcases stat_spec (t := t) hroot with ⟨m, hm, hmplace, hstat⟩ | ⟨hnot, -⟩
  · obtain rfl := eq_of_place hn hm (hplace.trans hmplace.symm)
    exact hstat
  · exact absurd ⟨n, hn, hplace⟩ hnot

theorem sumOf_place {t : FileTree} {n : Node} (hn : n ∈ t.nodes) :
    (sumOf t tally fun m => decide (m.place = n.place)) = tally n := by
  have hfilter : (t.nodes.filter fun m => decide (m.place = n.place)) = [n] := by
    have hcongr : (t.nodes.filter fun m => decide (m.place = n.place)) = t.nodes.filter (· == n) := by
      refine List.filter_congr fun m hm => ?_
      rw [Bool.eq_iff_iff, decide_eq_true_iff, beq_iff_eq]
      exact ⟨eq_of_place hm hn, fun h => congrArg Node.place h⟩
    rw [hcongr, List.filter_beq, List.count_eq_one_of_mem (nodup_nodes t) hn, List.replicate_one]
  unfold sumOf
  rw [hfilter, List.map_singleton, List.sum_singleton]

theorem sumOf_dir {t : FileTree} {n : Node} (hn : n ∈ t.nodes) :
    (sumOf t tally fun m => decide (n.place.Below m.place)) =
      sumOf t tally (among (inDir t n.place)) + tally n := by
  rw [← sumOf_place hn, ← sumOf_or]
  · refine sumOf_congr fun m hm => ?_
    rw [Bool.eq_iff_iff, Bool.or_eq_true, decide_eq_true_iff, decide_eq_true_iff, among_iff]
    constructor
    · intro hbelow
      by_cases heq : m.place = n.place
      · exact Or.inr heq
      · obtain ⟨name, hname, hchild⟩ := exists_child _ hm le_rfl hbelow (Ne.symm heq)
        obtain ⟨a, ha, rfl⟩ := List.mem_map.mp hname
        rw [← place_of_inDir ha] at hchild
        exact Or.inl ⟨a, ha, hchild⟩
    · rintro (⟨a, ha, ham⟩ | heq)
      · rw [place_of_inDir ha] at ham
        exact (Place.below_child _ _).trans ham
      · exact heq ▸ Place.Below.refl _
  · intro m _ hamong
    obtain ⟨a, ha, ham⟩ := among_iff.mp hamong
    refine decide_eq_false fun heq => ?_
    have hle := ham.length_le
    rw [heq, length_of_inDir ha] at hle
    omega

/-- **A walk** is truncated if an entry comes up late, and otherwise counts the tree. -/
theorem walked_previewWalk {t : FileTree} (hnamed : Named t) : ∀ {fuel : ℕ} {path : List UInt8} {n : Node}
    {pv pv' : DeletePreview}, onCard path = true → n ∈ t.nodes → n.place = place path →
    pv.entries < kPreviewWalkCap → previewWalk t fuel path pv = some pv' →
    Walked t (Late t n.place pv.entries) (fun m => decide (n.place.Below m.place)) pv pv'
  | 0, _, _, _, _, _, _, _, _, h => nomatch h
  | fuel + 1, path, n, pv, pv', hcard, hn, hplace, hentries, h => by
    rw [previewWalk, if_neg (not_le.mpr hentries), stat_node hn hplace] at h
    rcases hkind : n.kind with size | _
    · -- a file has nothing below it
      rw [hkind] at h
      cases h
      have hfile : ∀ m ∈ t.nodes, n.place.Below m.place → m.place = n.place :=
        fun m hm => place_of_below_file hn hkind hm
      have hlate : ¬ Late t n.place pv.entries := fun ⟨m, hm, hbelow, hne, _⟩ => hne (hfile m hm hbelow)
      refine ⟨(or_iff_left hlate).symm, fun _ => ?_⟩
      have hsum : (sumOf t tally fun m => decide (n.place.Below m.place)) = tally n := by
        rw [← sumOf_place hn]
        refine sumOf_congr fun m hm => decide_eq_decide.mpr ⟨hfile m hm, fun heq => ?_⟩
        exact heq ▸ Place.Below.refl _
      rw [hsum, tally, hkind]
      rfl
    · -- a directory: its entries, and its shell
      rw [hkind] at h
      dsimp only at h
      unfold readdir at h
      rw [filter_names hnamed] at h
      obtain ⟨u, hu, rfl⟩ := Option.map_eq_some_iff.mp h
      have hwalk : ∀ b ∈ inDir t (place path), ∀ one one', one.entries < kPreviewWalkCap →
          previewWalk t fuel (path ++ slash :: b.name) one = some one' →
          Walked t (Late t b.place one.entries) (fun m => decide (b.place.Below m.place)) one one' := by
        intro b hb one one' hone h
        have hchild := place_child hcard (b.valid _ List.mem_cons_self)
        rw [← place_of_inDir hb] at hchild
        exact walked_previewWalk hnamed (onCard_child hcard b.name) (mem_inDir.mp hb).1 hchild.symm hone h
      have hnone : pv.tally = pv.tally + sumOf t tally (among []) := by
        have hempty : sumOf t tally (among []) = 0 := by
          have hfilter : t.nodes.filter (among []) = [] :=
            List.filter_eq_nil_iff.mpr fun _ _ => Bool.false_ne_true
          unfold sumOf
          rw [hfilter]
          rfl
        rw [hempty, add_zero]
      have hloop : Walked t (LateIn t (place path) (inDir t (place path)) pv.entries)
          (among ([] ++ inDir t (place path))) pv u :=
        walked_previewNames (fun _ _ _ hone => truncated_previewWalk hone) hwalk rfl hnone rfl hu
      rw [List.nil_append, ← hplace, ← late_iff] at hloop
      refine ⟨hloop.truncated, fun hlate => ?_⟩
      have hshell : u.addDir.tally = u.tally + tally n := by
        rw [tally, hkind]
        rfl
      rw [hshell, hloop.tally hlate, sumOf_dir hn, add_assoc]

theorem previewNames_isSome {walk : List UInt8 → DeletePreview → Option DeletePreview} {path : List UInt8} :
    ∀ {names : List Name}, (∀ name ∈ names, ∀ pv, ∃ pv', walk (path ++ slash :: name) pv = some pv') →
      ∀ pv, ∃ pv', previewNames walk path names pv = some pv'
  | [], _, pv => ⟨pv, rfl⟩
  | name :: names, h, pv => by
    rw [previewNames]
    split_ifs with hcap
    · exact ⟨_, rfl⟩
    · obtain ⟨one, hone⟩ := h name List.mem_cons_self pv
      rw [hone]
      exact previewNames_isSome (fun b hb => h b (List.mem_cons_of_mem _ hb)) one

/-- **The fuel suffices**: below the deepest node nothing exists. -/
theorem previewWalk_isSome {t : FileTree} : ∀ {fuel : ℕ} {path : List UInt8}, onCard path = true →
    t.depth + 1 < (place path).names.length + (fuel + 1) →
    ∀ pv, ∃ pv', previewWalk t (fuel + 1) path pv = some pv'
  | fuel, path, hcard, hfuel, pv => by
    rw [previewWalk]
    split_ifs with hcap
    · exact ⟨_, rfl⟩
    · rcases hstat : stat t path with e | (size | _)
      · exact ⟨_, rfl⟩
      · exact ⟨_, rfl⟩
      · have hdeep := length_le_of_stat hstat
        cases fuel with
        | zero => omega
        | succ fuel =>
          have hnames : ∀ name ∈ (readdir t path).filter (fun n => n ≠ ascii "." && n ≠ ascii ".."), ∀ pv,
              ∃ pv', previewWalk t (fuel + 1) (path ++ slash :: name) pv = some pv' := by
            intro name hname pv
            have hvalid := valid_children (List.mem_filter.mp hname).1
            refine previewWalk_isSome (onCard_child hcard name) ?_ pv
            rw [place_child hcard hvalid, Place.length_child]
            omega
          obtain ⟨u, hu⟩ := previewNames_isSome hnames pv
          exact ⟨u.addDir, Option.map_eq_some_iff.mpr ⟨u, hu, rfl⟩⟩

/-! ### One path -/

/-- The nodes that the deletion of a path takes. -/
def takes (path : List UInt8) (n : Node) : Bool :=
  decide (Takes path (checkDeletable path = .kManagedDir) n)

theorem takes_iff {path : List UInt8} {n : Node} : takes path n = true ↔ (place path).Below n.place ∧
    ¬ (checkDeletable path = .kManagedDir ∧ n.place = place path ∧ n.kind = .dir) := by
  unfold takes
  rw [decide_eq_true_iff]
  unfold Takes
  rw [decide_eq_true_iff]

/-- The tree of a path is what the deletion takes, and the shell if it is kept. -/
theorem sumOf_takes {t : FileTree} {path : List UInt8} {n : Node} (hn : n ∈ t.nodes)
    (hplace : n.place = place path) : (sumOf t tally fun m => decide (n.place.Below m.place)) =
      sumOf t tally (takes path) +
        if n.kind = .dir ∧ checkDeletable path = .kManagedDir then (0, 1, 0) else 0 := by
  split_ifs with hkeep
  · obtain ⟨hdir, hmanaged⟩ := hkeep
    have hshell : tally n = (0, 1, 0) := by
      unfold tally
      rw [hdir]
    rw [← hshell, ← sumOf_place hn, ← sumOf_or]
    · refine sumOf_congr fun m hm => ?_
      rw [Bool.eq_iff_iff, Bool.or_eq_true, decide_eq_true_iff, decide_eq_true_iff, takes_iff, hplace]
      constructor
      · intro hbelow
        by_cases heq : m.place = place path
        · exact Or.inr heq
        · exact Or.inl ⟨hbelow, fun h => heq h.2.1⟩
      · rintro (⟨hbelow, -⟩ | heq)
        · exact hbelow
        · exact heq ▸ Place.Below.refl _
    · intro m hm htakes
      refine decide_eq_false fun heq => ?_
      obtain rfl := eq_of_place hm hn heq
      exact (takes_iff.mp htakes).2 ⟨hmanaged, hplace, hdir⟩
  · rw [add_zero]
    refine sumOf_congr fun m hm => ?_
    rw [Bool.eq_iff_iff, decide_eq_true_iff, takes_iff, hplace]
    refine ⟨fun hbelow => ⟨hbelow, fun ⟨hmanaged, heq, hdir⟩ => hkeep ?_⟩, fun h => h.1⟩
    obtain rfl := eq_of_place hm hn (heq.trans hplace.symm)
    exact ⟨hdir, hmanaged⟩

/-- **The preview of a path** is truncated if an entry comes up late, and otherwise counts what the deletion
takes. -/
theorem previewDelete_spec {t : FileTree} (hnamed : Named t) {path : List UInt8} (hcard : onCard path = true)
    (hthere : There t path) : ∃ one, previewDelete true t path = some one ∧ one.ok = true ∧
      (one.truncated = true ↔ Late t (place path) 0) ∧
      (¬ Late t (place path) 0 → one.tally = sumOf t tally (takes path)) := by
  obtain ⟨n, hn, hplace⟩ := hthere
  have hfuel : t.depth + 1 < (place path).names.length + (t.depth + 1 + 1) := by
    rw [← hplace]
    unfold Node.place
    rw [Place.length_child]
    omega
  obtain ⟨pv, hpv⟩ := previewWalk_isSome hcard hfuel {}
  have hwalk := walked_previewWalk hnamed hcard hn hplace (by decide) hpv
  have htrunc : pv.truncated = true ↔ Late t (place path) 0 := by
    rw [← hplace, hwalk.truncated]
    exact or_iff_right Bool.false_ne_true
  have htally : ¬ Late t (place path) 0 → pv.tally = sumOf t tally (takes path) +
      if n.kind = .dir ∧ checkDeletable path = .kManagedDir then (0, 1, 0) else 0 := by
    intro hlate
    rw [← hplace] at hlate
    rw [hwalk.tally hlate, ← sumOf_takes hn hplace]
    exact zero_add _
  have hone : previewDelete true t path = some
      { (if n.kind = .dir ∧ checkDeletable path = .kManagedDir ∧ 0 < pv.dirs then pv.keepShell else pv) with
        ok := true } := by
    unfold previewDelete
    rw [Bool.not_true, if_neg Bool.false_ne_true, stat_node hn hplace]
    dsimp only
    rw [hpv]
    rfl
  refine ⟨_, hone, rfl, ?_, fun hlate => ?_⟩
  · rw [← htrunc]
    split_ifs
    · rfl
    · rfl
  · have htally := htally hlate
    by_cases hkeep : n.kind = .dir ∧ checkDeletable path = .kManagedDir
    · rw [if_pos hkeep, DeletePreview.tally_eq_iff] at htally
      obtain ⟨hfiles, hdirs, hbytes⟩ := htally
      simp only [Prod.fst_add, Prod.snd_add] at hfiles hdirs hbytes
      rw [if_pos ⟨hkeep.1, hkeep.2, by omega⟩]
      exact DeletePreview.tally_eq_iff.mpr ⟨hfiles, Nat.sub_eq_of_eq_add hdirs, hbytes⟩
    · rw [if_neg hkeep, add_zero] at htally
      rw [if_neg fun h => hkeep ⟨h.1, h.2.1⟩]
      exact htally

/-! ### A selection -/

/-- A selection that can be deleted: the paths exist, are spelled as what they lead to is stored and are
accepted, and none of them is at or below another. -/
structure Selection (t : FileTree) (paths : List (List UInt8)) : Prop where
  there : ∀ path ∈ paths, There t path
  canonical : ∀ path ∈ paths, Canonical t path
  deletable : ∀ path ∈ paths, checkDeletable path = .kAllowed ∨ checkDeletable path = .kManagedDir
  apart : paths.Pairwise fun p q => ¬ (place p).Below (place q) ∧ ¬ (place q).Below (place p)

/-- The nodes that the deletion of a list of paths takes. -/
def removed (paths : List (List UInt8)) (n : Node) : Bool := decide (Removed paths n)

/-- A look at the count sees the cap: before a path of the selection, when those before it take as many
entries, or before an entry in the tree of a path. -/
def CapSeen (t : FileTree) (before after : List (List UInt8)) : Prop :=
  ∃ pre path post, after = pre ++ path :: post ∧
    (kPreviewWalkCap ≤ count t (removed (before ++ pre)) ∨ Late t (place path) 0)

theorem capSeen_nil {t : FileTree} {before : List (List UInt8)} : ¬ CapSeen t before [] := by
  rintro ⟨pre, path, post, h, -⟩
  exact absurd h.symm (List.append_ne_nil_of_right_ne_nil _ (List.cons_ne_nil _ _))

theorem capSeen_cons {t : FileTree} {before after : List (List UInt8)} {path : List UInt8}
    (hcap : ¬ kPreviewWalkCap ≤ count t (removed before)) :
    CapSeen t before (path :: after) ↔ Late t (place path) 0 ∨ CapSeen t (before ++ [path]) after := by
  constructor
  · rintro ⟨pre, p, post, h, hseen⟩
    rcases pre with _ | ⟨q, pre⟩
    · cases h
      rw [List.append_nil] at hseen
      exact Or.inl (hseen.resolve_left hcap)
    · cases h
      refine Or.inr ⟨pre, p, post, rfl, ?_⟩
      rwa [List.append_assoc, List.singleton_append]
  · rintro (hlate | ⟨pre, p, post, rfl, hseen⟩)
    · exact ⟨[], path, after, rfl, Or.inr hlate⟩
    · refine ⟨path :: pre, p, post, rfl, ?_⟩
      rwa [List.append_assoc, List.singleton_append] at hseen

theorem Selection.not_bad {t : FileTree} {paths : List (List UInt8)} (h : Selection t paths)
    {path : List UInt8} (hpath : path ∈ paths) : ¬ Bad path := by
  rw [← refused_iff fun _ => h.canonical path hpath]
  unfold refused
  rcases h.deletable path hpath with hok | hok
  · simp only [hok]
    decide
  · simp only [hok]
    decide

theorem Selection.safe {t : FileTree} {paths : List (List UInt8)} (h : Selection t paths)
    {path : List UInt8} (hpath : path ∈ paths) : safePath path = true := by
  by_contra hnot
  exact h.not_bad hpath (Or.inl (Bool.eq_false_iff.mpr hnot))

theorem Selection.left {t : FileTree} {paths more : List (List UInt8)} (h : Selection t (paths ++ more)) :
    Selection t paths where
  there p hp := h.there p (List.mem_append_left _ hp)
  canonical p hp := h.canonical p (List.mem_append_left _ hp)
  deletable p hp := h.deletable p (List.mem_append_left _ hp)
  apart := (List.pairwise_append.mp h.apart).1

theorem removed_nil : removed [] = fun _ => false := by
  funext n
  refine decide_eq_false ?_
  rintro ⟨⟨path, hpath, -⟩, -⟩
  exact List.not_mem_nil hpath

theorem removed_eq {t : FileTree} {paths : List (List UInt8)} (h : Selection t paths) {n : Node}
    (hn : n ∈ t.nodes) : removed paths n = paths.any fun path => takes path n :=
  (any_takes h.canonical (fun _ hpath => h.not_bad hpath) hn).symm

theorem sumOf_removed {t : FileTree} {before : List (List UInt8)} {path : List UInt8}
    (h : Selection t (before ++ [path])) : sumOf t tally (removed (before ++ [path])) =
      sumOf t tally (removed before) + sumOf t tally (takes path) := by
  rw [← sumOf_or]
  · refine sumOf_congr fun n hn => ?_
    rw [removed_eq h hn, removed_eq h.left hn, List.any_append, List.any_cons, List.any_nil, Bool.or_false]
  · intro n hn hremoved
    rw [removed_eq h.left hn, List.any_eq_true] at hremoved
    obtain ⟨p, hp, htakes⟩ := hremoved
    rw [Bool.eq_false_iff]
    intro hpath
    have hbelow := (takes_iff.mp htakes).1
    have hbelow' := (takes_iff.mp hpath).1
    have hapart := (List.pairwise_append.mp h.apart).2.2 p hp path (List.mem_singleton_self path)
    rcases Nat.le_total (place p).names.length (place path).names.length with hle | hle
    · exact hapart.1 (below_or_below hbelow hbelow' hle)
    · exact hapart.2 (below_or_below hbelow' hbelow hle)

theorem truncated_previewPaths {mounted : Bool} {t : FileTree} :
    ∀ {paths : List (Option (List UInt8))} {total total' : DeletePreview},
      previewPaths mounted t paths total = some total' → total.truncated = true → total'.truncated = true
  | [], _, _, h, htrunc => by
    cases h
    exact htrunc
  | none :: paths, total, total', h, htrunc => by
    rw [previewPaths] at h
    exact truncated_previewPaths h htrunc
  | some path :: paths, total, total', h, htrunc => by
    rw [previewPaths] at h
    split_ifs at h with hcap
    · cases h
      rfl
    · obtain ⟨one, -, h⟩ := Option.bind_eq_some_iff.mp h
      refine truncated_previewPaths h ?_
      split_ifs
      · exact Bool.or_eq_true_iff.mpr (Or.inl htrunc)
      · exact htrunc

theorem previewPaths_isSome {mounted : Bool} {t : FileTree} : ∀ {paths : List (List UInt8)},
    (∀ path ∈ paths, ∃ one, previewDelete mounted t path = some one) →
    ∀ total, ∃ total', previewPaths mounted t (paths.map some) total = some total'
  | [], _, total => ⟨total, rfl⟩
  | path :: paths, h, total => by
    rw [List.map_cons, previewPaths]
    split_ifs with hcap
    · exact ⟨_, rfl⟩
    · obtain ⟨one, hone⟩ := h path List.mem_cons_self
      rw [hone]
      exact previewPaths_isSome (fun q hq => h q (List.mem_cons_of_mem _ hq)) _

theorem walked_previewPaths {t : FileTree} (hnamed : Named t) :
    ∀ {after before : List (List UInt8)} {total : DeletePreview}, Selection t (before ++ after) →
      total.tally = sumOf t tally (removed before) → total.truncated = false →
      ∃ total', previewPaths true t (after.map some) total = some total' ∧
        Walked t (CapSeen t before after) (removed (before ++ after)) {} total'
  | [], before, total, _, htally, htrunc => by
    refine ⟨total, rfl, ?_, fun _ => ?_⟩
    · rw [htrunc, or_iff_left capSeen_nil]
    · rw [List.append_nil, htally]
      exact (zero_add _).symm
  | path :: after, before, total, hsel, htally, htrunc => by
    have hentries : total.entries = count t (removed before) := by
      have hzero : total.tally = DeletePreview.tally {} + sumOf t tally (removed before) := by
        rw [htally]
        exact (zero_add _).symm
      rw [entries_of_tally hzero]
      exact Nat.zero_add _
    have hmem : path ∈ before ++ path :: after := List.mem_append_right _ List.mem_cons_self
    obtain ⟨one, hone, hok, htruncated, htotal⟩ :=
      previewDelete_spec hnamed (onCard_of_safePath (hsel.safe hmem)) (hsel.there path hmem)
    rw [List.map_cons, previewPaths]
    by_cases hcap : kPreviewWalkCap ≤ total.entries
    · have hseen : CapSeen t before (path :: after) :=
        ⟨[], path, after, rfl, Or.inl (by rwa [List.append_nil, ← hentries])⟩
      rw [if_pos hcap]
      exact ⟨_, rfl, iff_of_true rfl (Or.inr hseen), fun hnot => absurd hseen hnot⟩
    · rw [if_neg hcap, hone, Option.bind_some, hok, if_pos rfl]
      rw [hentries] at hcap
      have hcons : CapSeen t before (path :: after) ↔ _ := capSeen_cons hcap
      by_cases hlate : Late t (place path) 0
      · -- the flag is set and stays
        obtain ⟨total', htotal'⟩ := previewPaths_isSome (fun q hq => by
          have hq' : q ∈ before ++ path :: after :=
            List.mem_append_right _ (List.mem_cons_of_mem _ hq)
          obtain ⟨other, hother, -⟩ :=
            previewDelete_spec hnamed (onCard_of_safePath (hsel.safe hq')) (hsel.there q hq')
          exact ⟨other, hother⟩) (total.add one)
        have hflag : (total.add one).truncated = true :=
          Bool.or_eq_true_iff.mpr (Or.inr (htruncated.mpr hlate))
        exact ⟨total', htotal', iff_of_true (truncated_previewPaths htotal' hflag)
          (Or.inr (hcons.mpr (Or.inl hlate))), fun hnot => absurd (hcons.mpr (Or.inl hlate)) hnot⟩
      · have hsplit : before ++ path :: after = (before ++ [path]) ++ after := by
          rw [List.append_assoc, List.singleton_append]
        have hsum : (total.add one).tally = sumOf t tally (removed (before ++ [path])) := by
          rw [hsplit] at hsel
          rw [sumOf_removed hsel.left, ← htally, ← htotal hlate]
          rfl
        have hflag : (total.add one).truncated = false := by
          have hone : one.truncated = false := Bool.eq_false_iff.mpr fun h => hlate (htruncated.mp h)
          unfold DeletePreview.add
          rw [htrunc, hone, Bool.or_false]
        obtain ⟨total', htotal', hrest⟩ := walked_previewPaths hnamed (hsplit ▸ hsel) hsum hflag
        rw [hsplit]
        refine ⟨total', htotal', ?_, fun hnot => hrest.tally fun hseen => hnot (hcons.mpr (Or.inr hseen))⟩
        rw [hrest.truncated, hcons, or_iff_right hlate]

/-! ### What the dialog says -/

/-- The total size of the files that are gone. -/
def goneBytes (t t' : FileTree) : ℕ := ((t.nodes.filter fun n => n ∉ t'.nodes).map fun n => (tally n).2.2).sum

/-- **The dialog tells the truth**: what it says without the flag is what the deletion does, and the flag is
set if the deletion takes more entries than the cap. -/
structure Truthful (t : FileTree) (pv : DeletePreview) (s : Deleting) : Prop where
  exact : pv.truncated = false → pv.files + pv.dirs = s.res.deleted ∧ pv.bytes = goneBytes t s.tree
  capped : kPreviewWalkCap < s.res.deleted → pv.truncated = true

/-- **What the preview and the deletion of a selection say.** -/
theorem preview_spec {t : FileTree} (hnamed : Named t) {paths : List (List UInt8)} (hsel : Selection t paths) :
    ∃ pv s, previewDeleteMany true t (paths.map some) = some pv ∧
      deletePaths true t (paths.map some) = some s ∧ s.res.deleted = count t (removed paths) ∧
      (pv.truncated = true ↔ CapSeen t [] paths) ∧
      (pv.truncated = false → pv.files + pv.dirs = s.res.deleted ∧ pv.bytes = goneBytes t s.tree) := by
  have hstart : DeletePreview.tally {} = sumOf t tally (removed []) := by
    unfold sumOf
    rw [removed_nil, List.filter_false]
    rfl
  obtain ⟨total, htotal, hwalked⟩ : ∃ total, previewPaths true t (paths.map some) {} = some total ∧
      Walked t (CapSeen t [] paths) (removed ([] ++ paths)) {} total :=
    walked_previewPaths hnamed hsel hstart rfl
  rw [List.nil_append] at hwalked
  obtain ⟨s, hs, hexact⟩ : ∃ s, deletePaths true t (paths.map some) = some s ∧
      Exact t ((paths.map some).filterMap id) s := exact_deletePaths
    (fun path hpath _ => by
      obtain ⟨p, hp, heq⟩ := List.mem_map.mp hpath
      cases heq
      exact hsel.canonical path hp)
    (fun hnone => by
      obtain ⟨p, -, heq⟩ := List.mem_map.mp hnone
      cases heq)
    (fun path hpath => by
      obtain ⟨p, hp, heq⟩ := List.mem_map.mp hpath
      cases heq
      exact hsel.not_bad hp) hnamed
  have hpaths : (paths.map some).filterMap id = paths := by
    rw [List.filterMap_map]
    exact List.filterMap_some
  rw [hpaths] at hexact
  have hgone : s.tree.nodes = t.nodes.filter fun n => !removed paths n := hexact.nodes
  have hdeleted : s.res.deleted = count t (removed paths) := by
    have hall := List.length_eq_length_filter_add (l := t.nodes) (removed paths)
    have hsum := hexact.deleted
    rw [hgone] at hsum
    unfold count
    omega
  have hbytes : goneBytes t s.tree = (sumOf t tally (removed paths)).2.2 := by
    have hfilter : (t.nodes.filter fun n => n ∉ s.tree.nodes) = t.nodes.filter (removed paths) := by
      refine List.filter_congr fun n hn => ?_
      rw [Bool.eq_iff_iff, decide_eq_true_iff, hgone, List.mem_filter, not_and, Bool.not_eq_true',
        Bool.not_eq_false]
      exact ⟨fun h => h hn, fun h _ => h⟩
    unfold goneBytes sumOf
    rw [hfilter]
    induction t.nodes.filter (removed paths) with
    | nil => rfl
    | cons n ns ih => rw [List.map_cons, List.map_cons, List.sum_cons, List.sum_cons, ih, Prod.snd_add, Prod.snd_add]
  refine ⟨{ total with ok := true }, s, ?_, hs, hdeleted, ?_, fun htrunc => ?_⟩
  · unfold previewDeleteMany
    rw [Bool.not_true, if_neg Bool.false_ne_true, htotal]
    rfl
  · exact hwalked.truncated.trans (or_iff_right Bool.false_ne_true)
  · have hseen : ¬ CapSeen t [] paths := by
      intro hseen
      have hflag : total.truncated = true := hwalked.truncated.mpr (Or.inr hseen)
      rw [show total.truncated = false from htrunc] at hflag
      cases hflag
    have htally := hwalked.tally hseen
    have hentries := entries_of_tally htally
    rw [DeletePreview.tally_eq_iff] at htally
    refine ⟨?_, ?_⟩
    · rw [hdeleted]
      exact hentries.trans (Nat.zero_add _)
    · rw [hbytes]
      exact htally.2.2.trans (Nat.zero_add _)

/-- **When the dialog tells the truth**: if the deletion takes no more entries than the cap, or a look at the
count sees the cap. The counts without the flag are right in any case. -/
theorem truthful_iff {t : FileTree} (hnamed : Named t) {paths : List (List UInt8)} (hsel : Selection t paths) :
    ∃ pv s, previewDeleteMany true t (paths.map some) = some pv ∧
      deletePaths true t (paths.map some) = some s ∧
      (Truthful t pv s ↔ count t (removed paths) ≤ kPreviewWalkCap ∨ CapSeen t [] paths) ∧
      (pv.truncated = false → pv.files + pv.dirs = s.res.deleted ∧ pv.bytes = goneBytes t s.tree) := by
  obtain ⟨pv, s, hpv, hs, hdeleted, htrunc, hexact⟩ := preview_spec hnamed hsel
  refine ⟨pv, s, hpv, hs, ?_, hexact⟩
  rw [← hdeleted, ← htrunc]
  constructor
  · intro h
    by_cases hcap : s.res.deleted ≤ kPreviewWalkCap
    · exact Or.inl hcap
    · exact Or.inr (h.capped (not_le.mp hcap))
  · intro h
    refine ⟨hexact, fun hmore => ?_⟩
    exact h.resolve_left (not_le.mpr hmore)

/-- A managed directory and another one. -/
def picked : List (List UInt8) := [ascii "/sdcard/rawdata", ascii "/sdcard/b"]

theorem truthful_iff_picked : ∃ pv s, previewDeleteMany true filled (picked.map some) = some pv ∧
    deletePaths true filled (picked.map some) = some s ∧ Truthful filled pv s := by
  have hnamed : Named filled := by
    unfold Named
    decide +kernel
  have hsel : Selection filled picked := by
    constructor <;> decide +kernel
  have hfew : count filled (removed picked) ≤ kPreviewWalkCap := by decide +kernel
  obtain ⟨pv, s, hpv, hs, hiff, -⟩ := truthful_iff hnamed hsel
  exact ⟨pv, s, hpv, hs, hiff.mpr (Or.inl hfew)⟩

/-! ### A directory as large as the cap -/

def digit (n : ℕ) : UInt8 := UInt8.ofNat (48 + n % 10)

def fourDigits (i : ℕ) : Name := [digit (i / 1000), digit (i / 100), digit (i / 10), digit i]

theorem digit_spec (n : ℕ) : digit n ≠ slash ∧ digit n ≠ 46 ∧ foldByte (digit n) = digit n := by
  have hall : ∀ r < 10, UInt8.ofNat (48 + r) ≠ slash ∧ UInt8.ofNat (48 + r) ≠ 46 ∧
      foldByte (UInt8.ofNat (48 + r)) = UInt8.ofNat (48 + r) := by decide
  exact hall _ (Nat.mod_lt _ (by decide))

theorem digit_inj {m n : ℕ} (h : digit m = digit n) : m % 10 = n % 10 := by
  have hall : ∀ r < 10, ∀ q < 10, UInt8.ofNat (48 + r) = UInt8.ofNat (48 + q) → r = q := by decide
  exact hall _ (Nat.mod_lt _ (by decide)) _ (Nat.mod_lt _ (by decide)) h

/-- A file in the directory `d`. -/
def flatFile (i : ℕ) : Node where
  mounted := true
  path := [ascii "d"]
  name := fourDigits i
  kind := .file 1
  valid := by
    rw [List.forall_mem_cons]
    refine ⟨⟨List.cons_ne_nil _ _, fun h => ?_⟩, by decide⟩
    simp only [fourDigits, List.mem_cons, List.not_mem_nil, or_false] at h
    rcases h with h | h | h | h <;> exact (digit_spec _).1 h.symm

theorem place_flatFile (i : ℕ) : (flatFile i).place = .card [ascii "d", fourDigits i] := by
  have hfold : fold (fourDigits i) = fourDigits i := by
    simp only [fold, fourDigits, List.map_cons, List.map_nil, (digit_spec _).2.2]
  have hplace : (flatFile i).place = .card [ascii "d", fold (fourDigits i)] := rfl
  rw [hplace, hfold]

/-- The directory `d`. -/
def flatDir : Node := topDir (ascii "d") (by decide)

/-- A card with `k` files in one directory. -/
def flat (k : ℕ) (hk : k ≤ 10000) : FileTree where
  nodes := flatDir :: (List.range k).map flatFile
  unique := by
    rw [List.map_cons, List.map_map, List.nodup_cons]
    refine ⟨fun h => ?_, List.Nodup.map_on (fun i hi j hj h => ?_) List.nodup_range⟩
    · obtain ⟨i, -, heq⟩ := List.mem_map.mp h
      rw [Function.comp_apply, place_flatFile] at heq
      cases heq
    · rw [Function.comp_apply, Function.comp_apply, place_flatFile, place_flatFile] at h
      rw [List.mem_range] at hi hj
      simp only [Place.card.injEq, List.cons.injEq, true_and, and_true, fourDigits] at h
      obtain ⟨h1, h2, h3, h4⟩ := h
      have := digit_inj h1
      have := digit_inj h2
      have := digit_inj h3
      have := digit_inj h4
      omega
  parents := by
    intro n hn
    rcases List.mem_cons.mp hn with rfl | hn
    · exact Or.inl rfl
    · obtain ⟨i, -, rfl⟩ := List.mem_map.mp hn
      exact Or.inr ⟨flatDir, List.mem_cons_self, rfl, rfl⟩

/-- `/sdcard/d`. -/
def flatPath : List UInt8 := ascii "/sdcard/d"

theorem mem_flat {k : ℕ} {hk : k ≤ 10000} {n : Node} (h : n ∈ (flat k hk).nodes) :
    n = flatDir ∨ ∃ i, n = flatFile i := by
  rcases List.mem_cons.mp h with rfl | h
  · exact Or.inl rfl
  · obtain ⟨i, -, rfl⟩ := List.mem_map.mp h
    exact Or.inr ⟨i, rfl⟩

theorem named_flat (k : ℕ) (hk : k ≤ 10000) : Named (flat k hk) := by
  intro n hn
  rcases mem_flat hn with rfl | ⟨i, rfl⟩
  · decide
  · refine ⟨?_, fun h => absurd (congrArg List.length h) (show (4 : ℕ) ≠ 1 by decide)⟩
    have hdot : ∀ m, decide (digit m = 46) = false := fun m => decide_eq_false (digit_spec m).2.1
    simp only [flatFile, fourDigits, hasDotDot, hdot, Bool.false_and, Bool.or_false]

theorem selection_flat (k : ℕ) (hk : k ≤ 10000) : Selection (flat k hk) [flatPath] where
  there path hpath := by
    rw [List.mem_singleton.mp hpath]
    exact ⟨flatDir, List.mem_cons_self, by decide⟩
  canonical path hpath := by
    rw [List.mem_singleton.mp hpath]
    have hsteps : steps flatPath = [ascii "d"] := by decide
    refine ⟨by decide, fun n hn i hi hplace => ?_⟩
    rw [hsteps] at hi hplace ⊢
    obtain rfl : i = 0 := Nat.lt_one_iff.mp hi
    rcases mem_flat hn with rfl | ⟨i, rfl⟩
    · rfl
    · rw [place_flatFile] at hplace
      cases hplace
  deletable path hpath := by
    rw [List.mem_singleton.mp hpath]
    exact Or.inl (by decide)
  apart := List.pairwise_singleton _ _

theorem count_flat (k : ℕ) (hk : k ≤ 10000) : count (flat k hk) (removed [flatPath]) = k + 1 := by
  have hall : (flat k hk).nodes.filter (removed [flatPath]) = (flat k hk).nodes := by
    refine List.filter_eq_self.mpr fun n hn => ?_
    rw [removed_eq (selection_flat k hk) hn, List.any_cons, List.any_nil, Bool.or_false, takes_iff]
    have hplace : place flatPath = .card [ascii "d"] := by decide
    refine ⟨?_, fun h => absurd h.1 (by decide)⟩
    rw [hplace]
    rcases mem_flat hn with rfl | ⟨i, rfl⟩
    · exact Place.Below.refl _
    · rw [place_flatFile]
      exact List.prefix_append [ascii "d"] [fourDigits i]
  unfold count
  rw [hall]
  unfold flat
  rw [List.length_cons, List.length_map, List.length_range]

/-- Before each file there are only the files before it. -/
theorem not_late_flat (k : ℕ) (hk : k ≤ 10000) (hcap : k ≤ kPreviewWalkCap) :
    ¬ Late (flat k hk) (place flatPath) 0 := by
  rintro ⟨n, hn, hbelow, hne, hlate⟩
  have hplace : place flatPath = flatDir.place := by decide
  rcases mem_flat hn with rfl | ⟨i, rfl⟩
  · exact hne hplace.symm
  · have hdir : flatFile i ∈ inDir (flat k hk) (place flatPath) :=
      mem_inDir.mpr ⟨hn, by rw [hplace]; rfl⟩
    obtain ⟨before, after, hsplit⟩ := List.append_of_mem hdir
    have hlength : (inDir (flat k hk) (place flatPath)).length ≤ k := by
      have hdrop : flatDir.parent ≠ place flatPath := by decide
      unfold inDir flat
      rw [List.filter_cons_of_neg (by rw [decide_eq_true_iff]; exact hdrop)]
      refine (List.length_filter_le _ _).trans ?_
      rw [List.length_map, List.length_range]
    have hbefore : count (flat k hk) (among before) ≤ before.length := by
      refine (List.Nodup.subperm ((nodup_nodes _).filter _) fun m hm => ?_).length_le
      obtain ⟨hm, hamong⟩ := List.mem_filter.mp hm
      obtain ⟨a, ha, ham⟩ := among_iff.mp hamong
      have hmem : a ∈ inDir (flat k hk) (place flatPath) := hsplit ▸ List.mem_append_left _ ha
      obtain ⟨hanode, haparent⟩ := mem_inDir.mp hmem
      rcases mem_flat hanode with rfl | ⟨j, rfl⟩
      · exact absurd haparent (by decide)
      · rwa [eq_of_place hm hanode (place_of_below_file hanode rfl hm ham)]
    rw [Nat.zero_add, finished_first hsplit] at hlate
    rw [hsplit, List.length_append, List.length_cons] at hlength
    omega

/-- **A directory of as many files as the cap** is shown without the flag, and one entry more is deleted. -/
theorem preview_full_directory : Named (flat 4096 (by decide)) ∧ Selection (flat 4096 (by decide)) [flatPath] ∧
    ∃ pv s, previewDeleteMany true (flat 4096 (by decide)) [some flatPath] = some pv ∧
      deletePaths true (flat 4096 (by decide)) [some flatPath] = some s ∧ s.res.deleted = 4097 ∧
      pv.truncated = false ∧ ¬ Truthful (flat 4096 (by decide)) pv s := by
  have hnamed := named_flat 4096 (by decide)
  have hsel := selection_flat 4096 (by decide)
  obtain ⟨pv, s, hpv, hs, hdeleted, htrunc, -⟩ := preview_spec hnamed hsel
  rw [count_flat] at hdeleted
  have hflag : pv.truncated = false := by
    rw [Bool.eq_false_iff, ne_eq, htrunc]
    rintro ⟨pre, path, post, hsplit, hseen⟩
    obtain ⟨rfl, rfl⟩ : pre = [] ∧ path = flatPath := by
      rcases pre with _ | ⟨q, pre⟩
      · cases hsplit
        exact ⟨rfl, rfl⟩
      · exact absurd (congrArg List.length hsplit) (by simp)
    rcases hseen with hmany | hlate
    · have hzero : count (flat 4096 (by decide)) (removed ([] ++ [])) = 0 := by
        unfold count
        rw [List.append_nil, removed_nil, List.filter_false]
        rfl
      rw [hzero] at hmany
      exact absurd hmany (by decide)
    · exact not_late_flat 4096 (by decide) le_rfl hlate
  refine ⟨hnamed, hsel, pv, s, hpv, hs, hdeleted, hflag, fun htruthful => ?_⟩
  have hcapped := htruthful.capped (by rw [hdeleted]; decide)
  rw [hflag] at hcapped
  cases hcapped

end GpsBase.Storage.Preview
