import GpsBase.Storage.SdManager

/-! # What a removal takes away

A removal only takes nodes away, and only those at or below the place its path leads to; a directory
whose shell is kept stays. The fuel it is given is enough. -/

namespace GpsBase.Storage.Removal

open GpsBase.Lib.CText GpsBase.Storage.Card GpsBase.Storage.SdManager

/-! ### Paths of children -/

theorem tokens_name {n : Name} (h : n ≠ [] ∧ slash ∉ n) : components n = [n] :=
  tokens_self _ (fun _ hb => decide_eq_false fun heq => h.2 (heq ▸ hb)) h.1

theorem components_child (s : List UInt8) {n : Name} (h : n ≠ [] ∧ slash ∉ n) :
    components (s ++ slash :: n) = components s ++ [n] := by
  have hsplit := tokens_append (· = slash) (b := slash) (by decide) s n
  unfold components at *
  rw [hsplit]
  exact congrArg _ (tokens_name h)

theorem onCard_iff (s : List UInt8) :
    onCard s = true ↔ ∃ rest, s = kMountPoint ++ rest ∧ rest.head?.all (· = slash) = true := by
  unfold onCard
  rw [Bool.and_eq_true, List.isPrefixOf_iff_prefix]
  constructor
  · rintro ⟨⟨rest, rfl⟩, hhead⟩
    rw [List.drop_left] at hhead
    exact ⟨rest, rfl, hhead⟩
  · rintro ⟨rest, rfl, hhead⟩
    rw [List.drop_left]
    exact ⟨List.prefix_append _ _, hhead⟩

theorem onCard_child {s : List UInt8} (h : onCard s = true) (n : Name) :
    onCard (s ++ slash :: n) = true := by
  obtain ⟨rest, rfl, hhead⟩ := (onCard_iff s).mp h
  rw [onCard_iff]
  refine ⟨rest ++ slash :: n, List.append_assoc _ _ _, ?_⟩
  cases rest with
  | nil => rfl
  | cons b rest => exact hhead

/-- **A name behind a path leads to the child.** -/
theorem place_child {s : List UInt8} (h : onCard s = true) {n : Name} (hn : n ≠ [] ∧ slash ∉ n) :
    place (s ++ slash :: n) = (place s).child n := by
  obtain ⟨rest, rfl, -⟩ := (onCard_iff s).mp h
  have hchild := onCard_child h n
  unfold place
  rw [if_pos h, if_pos hchild, List.append_assoc, List.drop_left, List.drop_left,
    components_child rest hn, List.map_append]
  rfl

theorem hasDotDot_child (s n : List UInt8) :
    hasDotDot (s ++ slash :: n) = (hasDotDot s || hasDotDot n) := by
  have hslash : hasDotDot (slash :: n) = hasDotDot n := by
    cases n with
    | nil => rfl
    | cons b n => rw [hasDotDot, show decide (slash = 46) = false from rfl, Bool.false_and, Bool.false_or]
  induction s using hasDotDot.induct with
  | case1 a b s ih =>
    rw [List.cons_append, List.cons_append, hasDotDot, hasDotDot, ← List.cons_append, ih, Bool.or_assoc]
  | case2 s hs =>
    rcases s with _ | ⟨a, _ | ⟨b, s⟩⟩
    · exact hslash
    · rw [List.singleton_append, hasDotDot, show decide (slash = 46) = false from rfl, Bool.and_false,
        Bool.false_or, hslash]
      rfl
    · exact absurd rfl (hs a b s)

theorem safePath_iff (s : List UInt8) :
    safePath s = true ↔ onCard s = true ∧ hasDotDot s = false := by
  unfold safePath onCard
  rw [Bool.and_eq_true, Bool.and_eq_true, Bool.and_eq_true, Bool.and_eq_true, Bool.not_eq_true',
    decide_eq_true_iff]
  constructor
  · rintro ⟨⟨⟨-, hpre⟩, hhead⟩, hdots⟩
    exact ⟨⟨hpre, hhead⟩, hdots⟩
  · rintro ⟨⟨hpre, hhead⟩, hdots⟩
    refine ⟨⟨⟨?_, hpre⟩, hhead⟩, hdots⟩
    rintro rfl
    exact absurd hpre (by decide)

theorem onCard_of_safePath {s : List UInt8} (h : safePath s = true) : onCard s = true :=
  ((safePath_iff s).mp h).1

theorem safePath_child {s n : List UInt8} (h : safePath s = true) (hn : hasDotDot n = false) :
    safePath (s ++ slash :: n) = true := by
  obtain ⟨hcard, hdots⟩ := (safePath_iff s).mp h
  refine (safePath_iff _).mpr ⟨onCard_child hcard n, ?_⟩
  rw [hasDotDot_child, hdots, hn, Bool.or_false]

/-! ### Trees that shrink -/

/-- `t'` is `t` without some nodes that meet `P`. -/
structure Shrinks (P : Node → Prop) (t t' : FileTree) : Prop where
  subset : t'.nodes ⊆ t.nodes
  removed : ∀ n ∈ t.nodes, n ∉ t'.nodes → P n

theorem Shrinks.refl (P : Node → Prop) (t : FileTree) : Shrinks P t t :=
  ⟨fun _ h => h, fun _ h h' => absurd h h'⟩

theorem Shrinks.trans {P : Node → Prop} {t u v : FileTree} (h : Shrinks P t u) (h' : Shrinks P u v) :
    Shrinks P t v := by
  refine ⟨fun n hn => h.subset (h'.subset hn), fun n hn hn' => ?_⟩
  by_cases hu : n ∈ u.nodes
  · exact h'.removed n hu hn'
  · exact h.removed n hn hu

theorem Shrinks.mono {P Q : Node → Prop} {t t' : FileTree} (h : Shrinks P t t') (hPQ : ∀ n, P n → Q n) :
    Shrinks Q t t' :=
  ⟨h.subset, fun n hn hn' => hPQ n (h.removed n hn hn')⟩

theorem find_eq_some {t : FileTree} {p : Place} {n : Node} (h : t.find p = some n) :
    n ∈ t.nodes ∧ n.place = p := by
  unfold FileTree.find at h
  have hplace := List.find?_some h
  exact ⟨List.mem_of_find?_eq_some h, of_decide_eq_true hplace⟩

theorem eq_of_place {t : FileTree} {m n : Node} (hm : m ∈ t.nodes) (hn : n ∈ t.nodes)
    (h : m.place = n.place) : m = n := List.inj_on_of_nodup_map t.unique hm hn h

theorem unlink_eq {path : List UInt8} {t t' : FileTree} (h : Card.unlink t path = .ok t') :
    place path ≠ .card [] ∧ t'.nodes = t.nodes.filter fun n => n.place ≠ place path := by
  unfold Card.unlink at h
  split_ifs at h with hroot _ _
  cases h
  exact ⟨hroot, rfl⟩

theorem children_of_unlink {path : List UInt8} {t t' : FileTree} (h : Card.unlink t path = .ok t') :
    t.children (place path) = [] := by
  unfold Card.unlink at h
  split_ifs at h with _ _ hleaf
  exact hleaf

theorem shrinks_of_unlink {path : List UInt8} {t t' : FileTree} (h : Card.unlink t path = .ok t') :
    Shrinks (fun n => n.place = place path) t t' := by
  obtain ⟨-, heq⟩ := unlink_eq h
  refine ⟨fun n hn => ?_, fun n hn hn' => ?_⟩
  · rw [heq] at hn
    exact (List.mem_filter.mp hn).1
  · rw [heq] at hn'
    by_contra hne
    exact hn' (List.mem_filter.mpr ⟨hn, decide_eq_true hne⟩)

theorem shrinks_unlink (s : Deleting) (path : List UInt8) :
    Shrinks (fun n => n.place = place path) s.tree (s.unlink path).tree := by
  unfold Deleting.unlink
  split
  · next t h => exact shrinks_of_unlink h
  · exact Shrinks.refl _ _

/-! ### Loops that may fail -/

/-- A loop all of whose steps keep a relation keeps it. -/
theorem foldlM_induction {α σ : Type} {f : σ → α → Option σ} {R : σ → σ → Prop}
    (hrefl : ∀ s, R s s) (htrans : ∀ s t u, R s t → R t u → R s u) {as : List α}
    (hstep : ∀ a ∈ as, ∀ s s', f s a = some s' → R s s') {s s' : σ}
    (h : as.foldlM f s = some s') : R s s' := by
  induction as generalizing s with
  | nil =>
    rw [List.foldlM_nil] at h
    cases h
    exact hrefl _
  | cons a as ih =>
    rw [List.foldlM_cons, Option.bind_eq_bind, Option.bind_eq_some_iff] at h
    obtain ⟨t, ht, h⟩ := h
    exact htrans s t s' (hstep a List.mem_cons_self s t ht)
      (ih (fun b hb => hstep b (List.mem_cons_of_mem _ hb)) h)

/-- A loop all of whose steps succeed and keep an invariant succeeds and keeps it. -/
theorem foldlM_isSome {α σ : Type} {f : σ → α → Option σ} {I : σ → Prop} {l : List α}
    (hstep : ∀ a ∈ l, ∀ s, I s → ∃ s', f s a = some s' ∧ I s') {s : σ} (hs : I s) :
    ∃ s', l.foldlM f s = some s' ∧ I s' := by
  induction l generalizing s with
  | nil => exact ⟨s, rfl, hs⟩
  | cons a as ih =>
    obtain ⟨t, ht, hIt⟩ := hstep a List.mem_cons_self s hs
    obtain ⟨s', hs', hI⟩ := ih (fun b hb => hstep b (List.mem_cons_of_mem _ hb)) hIt
    refine ⟨s', ?_, hI⟩
    rw [List.foldlM_cons, ht]
    exact hs'

/-- A loop one of whose steps reaches what all of its steps keep ends there. -/
theorem foldlM_reaches {α σ : Type} {f : σ → α → Option σ} {I Q : σ → Prop} {as : List α} {a : α}
    (ha : a ∈ as) (hI : ∀ b ∈ as, ∀ s s', f s b = some s' → I s → I s')
    (hQ : ∀ b ∈ as, ∀ s s', f s b = some s' → Q s → Q s')
    (hreach : ∀ s s', f s a = some s' → I s → Q s') {s s' : σ} (hs : I s)
    (h : as.foldlM f s = some s') : Q s' := by
  obtain ⟨before, after, rfl⟩ := List.append_of_mem ha
  rw [List.foldlM_append, Option.bind_eq_bind, Option.bind_eq_some_iff] at h
  obtain ⟨t, ht, h⟩ := h
  rw [List.foldlM_cons, Option.bind_eq_bind, Option.bind_eq_some_iff] at h
  obtain ⟨u, hu, h⟩ := h
  have hIt : I t := foldlM_induction (R := fun s s' => I s → I s') (fun _ h => h)
    (fun _ _ _ h h' hs => h' (h hs)) (fun b hb => hI b (List.mem_append_left _ hb)) ht hs
  exact foldlM_induction (R := fun s s' => Q s → Q s') (fun _ h => h)
    (fun _ _ _ h h' hs => h' (h hs))
    (fun b hb => hQ b (List.mem_append_right _ (List.mem_cons_of_mem _ hb))) h (hreach t u hu hIt)

/-! ### A removal -/

/-- What the removal of `path` may take away: what is there or below, but not a directory that is there
if its shell is kept. -/
def Takes (path : List UInt8) (keepShell : Bool) (n : Node) : Prop :=
  (place path).Below n.place ∧ ¬ (keepShell = true ∧ n.place = place path ∧ n.kind = .dir)

theorem takes_child {path : List UInt8} (hcard : onCard path = true) {name : Name}
    (hname : name ≠ [] ∧ slash ∉ name) {n : Node} (h : Takes (path ++ slash :: name) false n)
    (keepShell : Bool) : Takes path keepShell n := by
  obtain ⟨hbelow, -⟩ := h
  rw [place_child hcard hname] at hbelow
  refine ⟨(Place.below_child _ name).trans hbelow, ?_⟩
  rintro ⟨-, heq, -⟩
  have hle := hbelow.length_le
  rw [heq, Place.length_child] at hle
  omega

theorem exists_child {t : FileTree} {p : Place} (d : ℕ) {n : Node} (hn : n ∈ t.nodes)
    (hd : n.place.names.length ≤ d) (hbelow : p.Below n.place) (hne : p ≠ n.place) :
    ∃ name ∈ t.children p, (p.child name).Below n.place := by
  induction d generalizing n with
  | zero =>
    unfold Node.place at hd
    rw [Place.length_child] at hd
    omega
  | succ d ih =>
    have habove : p.Below n.parent := Place.below_of_child hbelow hne
    by_cases heq : p = n.parent
    · refine ⟨n.name, List.mem_map.mpr ⟨n, List.mem_filter.mpr ⟨hn, decide_eq_true heq.symm⟩, rfl⟩, ?_⟩
      rw [heq]
      exact Place.Below.refl _
    · rcases t.parents n hn with hroot | ⟨m, hm, hplace, -⟩
      · have hle := habove.length_le
        rw [hroot] at hle
        exact absurd (habove.eq_of_length (by rw [hroot]; exact Nat.zero_le _)) heq
      · rw [← hplace] at habove heq
        obtain ⟨name, hname, hchild⟩ := ih hm (by
          unfold Node.place at hd
          rw [Place.length_child] at hd
          rw [hplace]
          omega) habove heq
        refine ⟨name, hname, hchild.trans ?_⟩
        rw [hplace]
        exact Place.below_child _ _

theorem valid_children {t : FileTree} {p : Place} {name : Name} (h : name ∈ t.children p) :
    name ≠ [] ∧ slash ∉ name := by
  obtain ⟨n, -, rfl⟩ := List.mem_map.mp h
  exact n.valid _ List.mem_cons_self

/-- **A removal** takes away nothing but what it may. -/
theorem shrinks_removeTree (fuel : ℕ) {path : List UInt8} (hcard : onCard path = true)
    (keepShell : Bool) {s s' : Deleting} (h : removeTree fuel path keepShell s = some s') :
    Shrinks (Takes path keepShell) s.tree s'.tree := by
  induction fuel generalizing path keepShell s s' with
  | zero => cases h
  | succ fuel ih =>
    have hunlink : ∀ s : Deleting, (keepShell = true → ∀ n ∈ s.tree.nodes, n.place = place path →
        n.kind ≠ .dir) → Shrinks (Takes path keepShell) s.tree (s.unlink path).tree := by
      intro s hkind
      have hshrink := shrinks_unlink s path
      refine ⟨hshrink.subset, fun n hn hn' => ?_⟩
      have hplace := hshrink.removed n hn hn'
      exact ⟨hplace ▸ Place.Below.refl _, fun ⟨hkeep, hplace, hdir⟩ => hkind hkeep n hn hplace hdir⟩
    unfold removeTree at h
    split at h
    · cases h
      exact Shrinks.refl _ _
    · by_cases hsafe : safePath path = true
      · rw [hsafe, Bool.not_true, if_neg Bool.false_ne_true] at h
        dsimp only at h
        obtain ⟨u, hu, rfl⟩ := Option.map_eq_some_iff.mp h
        have hloop : Shrinks (Takes path keepShell) s.tree u.tree := by
          refine foldlM_induction (R := fun s s' => Shrinks (Takes path keepShell) s.tree s'.tree)
            (fun s => Shrinks.refl _ _) (fun _ _ _ => Shrinks.trans) (fun name hname a b hab => ?_) hu
          have hvalid := valid_children (List.mem_filter.mp hname).1
          exact (ih (onCard_child hcard name) false hab).mono fun n hn =>
            takes_child hcard hvalid hn keepShell
        cases keepShell with
        | true => exact hloop
        | false => exact hloop.trans (hunlink u fun hfalse => absurd hfalse Bool.false_ne_true)
      · rw [Bool.not_eq_true] at hsafe
        rw [hsafe, Bool.not_false, if_pos rfl] at h
        cases h
        exact Shrinks.refl _ _
    · next size hstat =>
      cases h
      refine hunlink s fun _ n hn hplace hdir => ?_
      unfold stat at hstat
      split_ifs at hstat with hroot
      · cases hstat
      · split at hstat
        · next m hm =>
          obtain ⟨hmem, hmplace⟩ := find_eq_some hm
          obtain rfl := eq_of_place hn hmem (hplace.trans hmplace.symm)
          rw [hdir] at hstat
          cases hstat
        · cases hstat

theorem children_eq_nil {t t' : FileTree} (h : t'.nodes ⊆ t.nodes) {p : Place}
    (ht : t.children p = []) : t'.children p = [] := by
  unfold FileTree.children at *
  rw [List.map_eq_nil_iff, List.filter_eq_nil_iff] at *
  exact fun n hn => ht n (h hn)

/-- After a call of `unlink` nothing is left at a place that has nothing below it. -/
theorem not_mem_unlink {s : Deleting} {path : List UInt8} (hroot : place path ≠ .card [])
    (hleaf : s.tree.children (place path) = []) : ∀ n ∈ (s.unlink path).tree.nodes,
    n.place ≠ place path := by
  unfold Deleting.unlink
  split
  · next t h =>
    intro n hn
    rw [(unlink_eq h).2] at hn
    exact of_decide_eq_true (List.mem_filter.mp hn).2
  · next e h =>
    intro n hn hplace
    unfold Card.unlink at h
    rw [if_neg hroot] at h
    by_cases hfind : (s.tree.find (place path)).isNone = true
    · rw [Option.isNone_iff_eq_none] at hfind
      unfold FileTree.find at hfind
      exact List.find?_eq_none.mp hfind n hn (decide_eq_true hplace)
    · rw [if_neg hfind, dif_pos hleaf] at h
      cases h

/-- **A removal of what has nothing below it** leaves nothing there. -/
theorem not_mem_removeTree {fuel : ℕ} {path : List UInt8} {s s' : Deleting}
    (hsafe : safePath path = true) (hroot : place path ≠ .card [])
    (hleaf : s.tree.children (place path) = [])
    (h : removeTree (fuel + 1) path false s = some s') :
    ∀ n ∈ s'.tree.nodes, n.place ≠ place path := by
  unfold removeTree at h
  split at h
  · next e hstat =>
    cases h
    intro n hn hplace
    unfold stat at hstat
    rw [if_neg hroot] at hstat
    split at hstat
    · cases hstat
    · next hfind =>
      unfold FileTree.find at hfind
      exact List.find?_eq_none.mp hfind n hn (decide_eq_true hplace)
  · rw [hsafe, Bool.not_true, if_neg Bool.false_ne_true] at h
    unfold readdir at h
    rw [hleaf] at h
    cases h
    exact not_mem_unlink hroot hleaf
  · cases h
    exact not_mem_unlink hroot hleaf

/-! ### The fuel suffices -/

theorem foldr_max_le {as : List ℕ} {d : ℕ} : as.foldr max 0 ≤ d ↔ ∀ a ∈ as, a ≤ d := by
  induction as with
  | nil => simp
  | cons a as ih => rw [List.foldr_cons, max_le_iff, ih, List.forall_mem_cons]

theorem depth_le_iff {t : FileTree} {d : ℕ} :
    t.depth ≤ d ↔ ∀ n ∈ t.nodes, n.place.names.length ≤ d := by
  unfold FileTree.depth
  rw [foldr_max_le]
  simp only [List.forall_mem_map]

theorem Shrinks.depth_le {P : Node → Prop} {t t' : FileTree} (h : Shrinks P t t') {d : ℕ}
    (hd : t.depth ≤ d) : t'.depth ≤ d := by
  rw [depth_le_iff] at hd ⊢
  exact fun n hn => hd n (h.subset hn)

/-- What exists is the root or lies no deeper than the tree. -/
theorem length_le_of_stat {t : FileTree} {s : List UInt8} {k : Kind} (h : stat t s = .ok k) :
    (place s).names.length ≤ t.depth := by
  unfold stat at h
  split_ifs at h with hroot
  · rw [hroot]
    exact Nat.zero_le _
  · split at h
    · next n hn =>
      obtain ⟨hmem, hplace⟩ := find_eq_some hn
      rw [← hplace]
      exact depth_le_iff.mp le_rfl n hmem
    · cases h

/-- **The fuel suffices**: below the deepest node nothing exists. -/
theorem removeTree_isSome (fuel : ℕ) {path : List UInt8} (hcard : onCard path = true)
    (keepShell : Bool) {s : Deleting} {d : ℕ} (hd : s.tree.depth ≤ d)
    (hfuel : d + 1 < (place path).names.length + (fuel + 1)) :
    ∃ s', removeTree (fuel + 1) path keepShell s = some s' ∧ s'.tree.depth ≤ d := by
  have hkeep : ∀ s', removeTree (fuel + 1) path keepShell s = some s' → s'.tree.depth ≤ d :=
    fun s' h => (shrinks_removeTree _ hcard keepShell h).depth_le hd
  suffices h : ∃ s', removeTree (fuel + 1) path keepShell s = some s' by
    obtain ⟨s', h⟩ := h
    exact ⟨s', h, hkeep s' h⟩
  clear hkeep
  induction fuel generalizing path keepShell s with
  | zero =>
    unfold removeTree
    rcases hstat : stat s.tree path with e | k
    · exact ⟨_, rfl⟩
    · have := length_le_of_stat hstat
      omega
  | succ fuel ih =>
    unfold removeTree
    rcases hstat : stat s.tree path with e | (size | _)
    · exact ⟨_, rfl⟩
    · exact ⟨_, rfl⟩
    · dsimp only
      by_cases hsafe : safePath path = true
      · rw [hsafe, Bool.not_true, if_neg Bool.false_ne_true]
        obtain ⟨u, hu, -⟩ := foldlM_isSome (I := fun s : Deleting => s.tree.depth ≤ d)
          (f := fun s name => removeTree (fuel + 1) (path ++ slash :: name) false s)
          (l := (readdir s.tree path).filter fun n => n ≠ ascii "." && n ≠ ascii "..")
          (fun name hname u hu => by
            have hvalid := valid_children (List.mem_filter.mp hname).1
            have hchild := onCard_child hcard name
            obtain ⟨u', hu'⟩ := ih hchild false hu (by
              rw [place_child hcard hvalid, Place.length_child]
              omega)
            exact ⟨u', hu', (shrinks_removeTree _ hchild false hu').depth_le hu⟩) hd
        rw [hu]
        exact ⟨_, rfl⟩
      · rw [Bool.not_eq_true] at hsafe
        rw [hsafe, Bool.not_false, if_pos rfl]
        exact ⟨_, rfl⟩

/-- **A removal ends**, and takes away nothing but what it may. -/
theorem removeAll_spec {path : List UInt8} (hcard : onCard path = true) (keepShell : Bool)
    (s : Deleting) : ∃ s', removeAll path keepShell s = some s' ∧
      Shrinks (Takes path keepShell) s.tree s'.tree := by
  unfold removeAll
  obtain ⟨s', h, -⟩ :=
    removeTree_isSome (s.tree.depth + 1) hcard keepShell (s := s) (d := s.tree.depth) le_rfl (by omega)
  exact ⟨s', h, shrinks_removeTree _ hcard keepShell h⟩

end GpsBase.Storage.Removal
