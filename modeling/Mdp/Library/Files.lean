import Mathlib.Logic.Function.Basic

/-!
# Directory entries and hard links

A directory maps names to inodes and inodes hold the data, so two names can be one file: `link`
gives a file a second name, `unlink` removes a name and leaves the file to its other names. A
newly created file gets an inode that no name has had before; the bound that makes this so is a
field of the directory.
-/

namespace HardLinks

/-- A directory over names `N` whose files hold a `D`. -/
structure Directory (N D : Type) where
  /-- The inode a name is bound to. -/
  entry : N → Option Nat
  /-- What each inode holds. -/
  node : Nat → D
  /-- The next inode to be used. -/
  fresh : Nat
  /-- No name is bound to an inode that was not handed out yet. -/
  bounded : ∀ name inode, entry name = some inode → inode < fresh

namespace Directory

variable {N D : Type}

/-- What a reader of a name finds. -/
def read (files : Directory N D) (name : N) : Option D := (files.entry name).map files.node

/-- A name reads as absent exactly when it has no entry. -/
@[simp] theorem read_eq_none {files : Directory N D} {name : N} :
    files.read name = none ↔ files.entry name = none := by
  simp [read]

/-- No name is bound to the inode handed out next. -/
theorem entry_ne_fresh (files : Directory N D) (name : N) : files.entry name ≠ some files.fresh :=
  fun bound => Nat.lt_irrefl _ (files.bounded name _ bound)

/-- Change what an inode holds. -/
def modify (files : Directory N D) (inode : Nat) (change : D → D) : Directory N D where
  entry := files.entry
  node := Function.update files.node inode (change (files.node inode))
  fresh := files.fresh
  bounded := files.bounded

/-- A change of a file keeps every name. -/
@[simp] theorem modify_entry (files : Directory N D) (inode : Nat) (change : D → D) :
    (files.modify inode change).entry = files.entry := rfl

/-- A change of one inode is not seen through a name bound to another. -/
theorem modify_read_other (files : Directory N D) (change : D → D) {inode : Nat} {other : N}
    (different : files.entry other ≠ some inode) :
    (files.modify inode change).read other = files.read other := by
  simp only [read, modify]
  cases bound : files.entry other with
  | none => rfl
  | some found =>
    have distinct : found ≠ inode := fun same => different (by rw [bound, same])
    simp [distinct]

/-- What does not depend on the change reads as before through every name. -/
theorem modify_read_map {β : Type} (files : Directory N D) (name : N) (view : D → β) (inode : Nat)
    {change : D → D}
    (unseen : ∀ held, view (change held) = view held) :
    ((files.modify inode change).read name).map view = (files.read name).map view := by
  simp only [read, modify]
  cases bound : files.entry name with
  | none => rfl
  | some found =>
    by_cases same : found = inode
    · simp [same, unseen]
    · simp [same]

variable [DecidableEq N]

/-- Remove a name. -/
def erase (files : Directory N D) (name : N) : Directory N D where
  entry := Function.update files.entry name none
  node := files.node
  fresh := files.fresh
  bounded := by
    intro other inode bound
    by_cases same : other = name
    · rw [same, Function.update_self] at bound
      contradiction
    · rw [Function.update_of_ne same] at bound
      exact files.bounded other inode bound

/-- Give the file at `old` the name `new` as well. -/
def hardLink (files : Directory N D) (old new : N) : Directory N D where
  entry := Function.update files.entry new (files.entry old)
  node := files.node
  fresh := files.fresh
  bounded := by
    intro other inode bound
    by_cases same : other = new
    · rw [same, Function.update_self] at bound
      exact files.bounded old inode bound
    · rw [Function.update_of_ne same] at bound
      exact files.bounded other inode bound

/-- Bind a name to a new file. -/
def create (files : Directory N D) (name : N) (d : D) : Directory N D where
  entry := Function.update files.entry name (some files.fresh)
  node := Function.update files.node files.fresh d
  fresh := files.fresh + 1
  bounded := by
    intro other inode bound
    by_cases same : other = name
    · rw [same, Function.update_self, Option.some.injEq] at bound
      omega
    · rw [Function.update_of_ne same] at bound
      exact Nat.lt_succ_of_lt (files.bounded other inode bound)

section Reads

variable (files : Directory N D) (name old new : N) (d : D)

/-- A name that is removed reads as nothing. -/
@[simp] theorem erase_read_self : (files.erase name).read name = none := by
  simp [read, erase]

/-- Removing a name keeps what others read as. -/
@[simp] theorem erase_read_other {name other : N} (different : other ≠ name) :
    (files.erase name).read other = files.read other := by
  simp [read, erase, different]

/-- A new name reads as the old one. -/
@[simp] theorem hardLink_read_new : (files.hardLink old new).read new = files.read old := by
  simp [read, hardLink]

/-- A new name keeps what others read as. -/
@[simp] theorem hardLink_read_other {new other : N} (different : other ≠ new) :
    (files.hardLink old new).read other = files.read other := by
  simp [read, hardLink, different]

/-- A new file reads as what it was created with. -/
@[simp] theorem create_read_self : (files.create name d).read name = some d := by
  simp [read, create]

/-- A new file leaves every other name as it was, because its inode is new. -/
@[simp] theorem create_read_other {name other : N} (different : other ≠ name) :
    (files.create name d).read other = files.read other := by
  simp only [read, create, Function.update_of_ne different]
  cases bound : files.entry other with
  | none => rfl
  | some inode =>
    have older : inode ≠ files.fresh := Nat.ne_of_lt (files.bounded other inode bound)
    simp [older]

/-- A name that is removed is bound to nothing. -/
@[simp] theorem erase_entry_self : (files.erase name).entry name = none := by
  simp [erase]

/-- Removing a name keeps what others are bound to. -/
@[simp] theorem erase_entry_other {name other : N} (different : other ≠ name) :
    (files.erase name).entry other = files.entry other := by
  simp [erase, different]

/-- A new name is bound to the file of the old one. -/
@[simp] theorem hardLink_entry_new : (files.hardLink old new).entry new = files.entry old := by
  simp [hardLink]

/-- A new name keeps what others are bound to. -/
@[simp] theorem hardLink_entry_other {new other : N} (different : other ≠ new) :
    (files.hardLink old new).entry other = files.entry other := by
  simp [hardLink, different]

/-- The name of a new file is bound to the file handed out. -/
@[simp] theorem create_entry_self : (files.create name d).entry name = some files.fresh := by
  simp [create]

/-- A new file keeps what other names are bound to. -/
@[simp] theorem create_entry_other {name other : N} (different : other ≠ name) :
    (files.create name d).entry other = files.entry other := by
  simp [create, different]

end Reads

end Directory

end HardLinks
