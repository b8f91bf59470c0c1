import GpsBase.Storage.Card

/-! # The SD manager

The deletions of `SdManager`: the guard on a path, the removal of one entry, and the recursive removal
of a tree and of a list of trees. The depth of the recursion is bounded by the depth of the tree, which
is given as fuel; `removeTree_isSome` says that it suffices. -/

namespace GpsBase.Storage.SdManager

open GpsBase.Lib.CText GpsBase.Storage.Card

/-! ### The guard -/

/-- `strstr(path, "..")`. -/
def hasDotDot : List UInt8 → Bool
  | a :: b :: s => (a = 46 && b = 46) || hasDotDot (b :: s)
  | _ => false

def safePath (path : List UInt8) : Bool :=
  path ≠ [] && kMountPoint.isPrefixOf path && (path.drop kMountPoint.length).head?.all (· = slash) &&
    !hasDotDot path

inductive DeleteGuard
  | kAllowed
  | kBadPath
  | kMountRoot
  | kManagedDir
  deriving DecidableEq

/-- The text compared: what fits the buffer, without a trailing slash. -/
def normalized (path : List UInt8) : List UInt8 :=
  let norm := path.take 259
  if kMountPoint.length < norm.length ∧ norm.getLast? = some slash then norm.dropLast else norm

def checkDeletable (path : List UInt8) : DeleteGuard :=
  if !safePath path then .kBadPath
  else if normalized path = kMountPoint then .kMountRoot
  else if normalized path = kMountPoint ++ ascii "/logs" then .kManagedDir
  else if normalized path = kMountPoint ++ ascii "/rawdata" then .kManagedDir
  else .kAllowed

/-! ### Results -/

structure DeleteResult where
  requested : ℕ := 0
  deleted : ℕ := 0
  failed : ℕ := 0
  skipped : ℕ := 0
  firstError : List UInt8 := []
  deriving DecidableEq

/-- The text of `first_error`. -/
def errorText (s : List UInt8) : List UInt8 := s.take 95

structure Deleting where
  tree : FileTree
  res : DeleteResult := {}
  progress : ℕ := 0

namespace Deleting

def noteFail (s : Deleting) (path : List UInt8) (errno : ℤ) : Deleting :=
  { s with res :=
      { s.res with
        failed := s.res.failed + 1
        firstError := if s.res.firstError = [] then
            errorText (path ++ ascii ": errno " ++ intText errno)
          else s.res.firstError } }

/-- `res.skipped++`. -/
def skip (s : Deleting) : Deleting := { s with res := { s.res with skipped := s.res.skipped + 1 } }

/-- A call of `rmdir` or `unlink`, and what is counted. -/
def unlink (s : Deleting) (path : List UInt8) : Deleting :=
  match Card.unlink s.tree path with
  | .ok t =>
    { tree := t, res := { s.res with deleted := s.res.deleted + 1 }, progress := s.progress + 1 }
  | .error e => s.noteFail path e

end Deleting

/-! ### Removal -/

def removeTree : ℕ → List UInt8 → Bool → Deleting → Option Deleting
  | 0, _, _, _ => none
  | fuel + 1, path, keepShell, s =>
    match stat s.tree path with
    | .error e => some (s.noteFail path e)
    | .ok .dir =>
      if !safePath path then some s.skip
      else
        let names := (readdir s.tree path).filter fun n => n ≠ ascii "." && n ≠ ascii ".."
        (names.foldlM (fun s name => removeTree fuel (path ++ slash :: name) false s) s).map fun s =>
          if keepShell then s.skip else s.unlink path
    | .ok (.file _) => some (s.unlink path)

/-- `remove_tree` from the outside. -/
def removeAll (path : List UInt8) (keepShell : Bool) (s : Deleting) : Option Deleting :=
  removeTree (s.tree.depth + 2) path keepShell s

def deleteEntry (mounted : Bool) (t : FileTree) (path : Option (List UInt8)) : Bool × FileTree :=
  match path with
  | none => (false, t)
  | some path =>
    if !mounted then (false, t)
    else if checkDeletable path ≠ .kAllowed then (false, t)
    else
      match stat t path with
      | .error _ => (false, t)
      | .ok _ =>
        match Card.unlink t path with
        | .ok t' => (true, t')
        | .error _ => (false, t)

def deleteRecursive (mounted : Bool) (t : FileTree) (path : Option (List UInt8)) : Option Deleting :=
  match path with
  | none => some { tree := t, res := { requested := 1, skipped := 1, firstError := ascii "SD not mounted" } }
  | some path =>
    if !mounted then
      some { tree := t, res := { requested := 1, skipped := 1, firstError := ascii "SD not mounted" } }
    else if checkDeletable path = .kBadPath ∨ checkDeletable path = .kMountRoot then
      some { tree := t, res :=
        { requested := 1, skipped := 1, firstError := errorText (ascii "refused: " ++ path) } }
    else
      removeAll path (checkDeletable path = .kManagedDir) { tree := t, res := { requested := 1 } }

/-- A path of a batch that is refused, and the batch with it. -/
def refused (path : Option (List UInt8)) : Bool :=
  match path with
  | none => true
  | some path => checkDeletable path = .kBadPath || checkDeletable path = .kMountRoot

def deletePaths (mounted : Bool) (t : FileTree) (paths : List (Option (List UInt8))) :
    Option Deleting :=
  if !mounted then
    some { tree := t, res :=
      { requested := paths.length, skipped := paths.length, firstError := ascii "SD not mounted" } }
  else
    match paths.find? refused with
    | some path =>
      some { tree := t, res :=
        { requested := paths.length, skipped := paths.length
          firstError := errorText (ascii "refused: " ++ path.getD (ascii "(null)")) } }
    | none =>
      (paths.filterMap id).foldlM
        (fun s path => removeAll path (checkDeletable path = .kManagedDir) s)
        { tree := t, res := { requested := paths.length } }

end GpsBase.Storage.SdManager
