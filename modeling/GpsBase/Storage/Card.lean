import GpsBase.Lib.CText

/-! # The file system

The files and directories of the mounted card and of what else is mounted. A path is resolved as FATFS
does it: repeated slashes and a trailing one do not matter, and neither does the case of ASCII letters
below the mount point. A tree carries that no two nodes are at one place and that every node lies in a
directory; the root of the card is no node and is always there. -/

namespace GpsBase.Storage.Card

open GpsBase.Lib.CText

/-! ### Paths -/

abbrev Name := List UInt8

def slash : UInt8 := 47

/-- A letter without its case. -/
def foldByte (b : UInt8) : UInt8 := if 65 ≤ b ∧ b ≤ 90 then b + 32 else b

/-- A name without its case. -/
def fold (n : Name) : Name := n.map foldByte

/-- The names a path is made of. -/
def components (s : List UInt8) : List Name := tokens (· = slash) s

def kMountPoint : List UInt8 := ascii "/sdcard"

/-- Where a path leads: on the card, by folded names, or elsewhere. -/
inductive Place
  | card (names : List Name)
  | other (names : List Name)
  deriving DecidableEq

namespace Place

def names : Place → List Name
  | card ns => ns
  | other ns => ns

def child : Place → Name → Place
  | card ns, n => card (ns ++ [fold n])
  | other ns, n => other (ns ++ [n])

def parent : Place → Place
  | card ns => card ns.dropLast
  | other ns => other ns.dropLast

/-- `q` is `p`, or below it. -/
def Below : Place → Place → Prop
  | card p, card q => p <+: q
  | other p, other q => p <+: q
  | _, _ => False

instance : (p q : Place) → Decidable (p.Below q)
  | card p, card q => inferInstanceAs (Decidable (p <+: q))
  | other p, other q => inferInstanceAs (Decidable (p <+: q))
  | card _, other _ => inferInstanceAs (Decidable False)
  | other _, card _ => inferInstanceAs (Decidable False)

theorem Below.refl (p : Place) : p.Below p := by
  cases p with
  | card ns => exact List.prefix_refl ns
  | other ns => exact List.prefix_refl ns

theorem Below.trans {p q r : Place} (h : p.Below q) (h' : q.Below r) : p.Below r := by
  cases p <;> cases q <;> cases r <;> first | exact List.IsPrefix.trans h h' | exact h.elim | exact h'.elim

theorem Below.length_le {p q : Place} (h : p.Below q) : p.names.length ≤ q.names.length := by
  cases p <;> cases q <;> first | exact List.IsPrefix.length_le h | exact h.elim

theorem Below.eq_of_length {p q : Place} (h : p.Below q) (hlength : q.names.length ≤ p.names.length) :
    p = q := by
  cases p <;> cases q <;>
    first | exact congrArg _ (List.IsPrefix.eq_of_length_le h hlength) | exact h.elim

theorem below_child (p : Place) (n : Name) : p.Below (p.child n) := by
  cases p with
  | card ns => exact List.prefix_append ns _
  | other ns => exact List.prefix_append ns _

theorem below_of_child {p q : Place} {n : Name} (h : q.Below (p.child n)) (hne : q ≠ p.child n) :
    q.Below p := by
  cases p <;> cases q <;> first
    | exact h.elim
    | exact (List.prefix_concat_iff.mp h).resolve_left fun heq => hne (congrArg _ heq)

theorem child_ne (p : Place) (n : Name) : p.child n ≠ p := by
  intro h
  have hlength := congrArg (fun q => q.names.length) h
  cases p with
  | card ns =>
    change (ns ++ [fold n]).length = ns.length at hlength
    rw [List.length_append, List.length_singleton] at hlength
    omega
  | other ns =>
    change (ns ++ [n]).length = ns.length at hlength
    rw [List.length_append, List.length_singleton] at hlength
    omega

@[simp] theorem length_child (p : Place) (n : Name) : (p.child n).names.length = p.names.length + 1 := by
  cases p with
  | card ns => exact List.length_append
  | other ns => exact List.length_append

end Place

def onCard (s : List UInt8) : Bool :=
  kMountPoint.isPrefixOf s && ((s.drop kMountPoint.length).head?.all (· = slash))

/-- Where a path leads. -/
def place (s : List UInt8) : Place :=
  if onCard s then .card ((components (s.drop kMountPoint.length)).map fold) else .other (components s)

/-! ### Nodes -/

/-- What a node is; a file has a size. -/
inductive Kind
  | file (size : ℕ)
  | dir
  deriving DecidableEq

/-- A file or a directory, with the names as they are stored. -/
structure Node where
  mounted : Bool
  path : List Name
  name : Name
  kind : Kind
  valid : ∀ n ∈ name :: path, n ≠ [] ∧ slash ∉ n
  deriving DecidableEq

namespace Node

def parent (n : Node) : Place := if n.mounted then .card (n.path.map fold) else .other n.path

def place (n : Node) : Place := n.parent.child n.name

end Node

/-! ### Trees -/

/-- A place a node can lie in. -/
def IsDir (nodes : List Node) (p : Place) : Prop :=
  p.names = [] ∨ ∃ n ∈ nodes, n.place = p ∧ n.kind = .dir

structure FileTree where
  nodes : List Node
  unique : (nodes.map Node.place).Nodup
  parents : ∀ n ∈ nodes, IsDir nodes n.parent

namespace FileTree

def find (t : FileTree) (p : Place) : Option Node := t.nodes.find? fun n => n.place = p

def children (t : FileTree) (p : Place) : List Name :=
  (t.nodes.filter fun n => n.parent = p).map Node.name

/-- The length of the longest path. -/
def depth (t : FileTree) : ℕ := (t.nodes.map fun n => n.place.names.length).foldr max 0

/-- The tree without what is at a place that has nothing below it. -/
def remove (t : FileTree) (p : Place) (h : t.children p = []) : FileTree where
  nodes := t.nodes.filter fun n => n.place ≠ p
  unique := t.unique.sublist (List.Sublist.map _ List.filter_sublist)
  parents := by
    intro n hn
    obtain ⟨hmem, -⟩ := List.mem_filter.mp hn
    rcases t.parents n hmem with hroot | ⟨d, hd, hplace, hkind⟩
    · exact Or.inl hroot
    · refine Or.inr ⟨d, List.mem_filter.mpr ⟨hd, decide_eq_true fun heq => ?_⟩, hplace, hkind⟩
      have hchild : n.name ∈ t.children p :=
        List.mem_map.mpr ⟨n, List.mem_filter.mpr ⟨hmem, decide_eq_true (hplace.symm.trans heq)⟩, rfl⟩
      rw [h] at hchild
      exact List.not_mem_nil hchild

end FileTree

/-! ### Calls -/

/-- `ENOENT`, `EACCES` and `EINVAL`. -/
def enoent : ℤ := 2

def eacces : ℤ := 13

def einval : ℤ := 22

/-- `stat`: what is there, or the error. -/
def stat (t : FileTree) (s : List UInt8) : Except ℤ Kind :=
  if place s = .card [] then .ok .dir
  else match t.find (place s) with
    | some n => .ok n.kind
    | none => .error enoent

/-- The names `readdir` gives. -/
def readdir (t : FileTree) (s : List UInt8) : List Name := t.children (place s)

/-- `unlink` and `rmdir`, which are `f_unlink` on the card: a file or an empty directory is removed. -/
def unlink (t : FileTree) (s : List UInt8) : Except ℤ FileTree :=
  if place s = .card [] then .error einval
  else if (t.find (place s)).isNone then .error enoent
  else if h : t.children (place s) = [] then .ok (t.remove (place s) h)
  else .error eacces

end GpsBase.Storage.Card
