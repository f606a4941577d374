import Mathlib.Logic.Function.Basic
import Mprpc.Decimal

namespace Mprpc

open Transport

/-- The return codes of `zoo_create` that the code tells apart. -/
inductive Rc
  | ok
  | nodeExists
  | failed
deriving DecidableEq, Repr

/-- A node: its bytes, and the session it ends with if it is ephemeral. -/
structure Znode where
  data : Bytes
  owner : Option Nat
deriving DecidableEq, Repr

/-- The path of a child. -/
def childPath (path name : Text) : Text := path ++ 47 :: name

/-- ZooKeeper through its client library. The calls are its own; what they do is
told through `find`, the nodes there are. A call that changes the nodes can fail
at any time, and then changes nothing. -/
structure ZooKeeper where
  Tree : Type
  empty : Tree
  find : Tree → Text → Option Znode
  create : Tree → Text → Bytes → Rc × Tree
  createSequence : Tree → Nat → Text → Bytes → Option Text × Tree
  getChildren : Tree → Text → Option (List Text)
  get : Tree → Text → Nat → Option Bytes
  delete : Tree → Text → Bool × Tree
  closeSession : Tree → Nat → Tree
  find_empty : ∀ path, find empty path = none
  nul_notMem : ∀ {t path node}, find t path = some node → 0 ∉ path
  create_spec : ∀ {t path data rc t'}, create t path data = (rc, t') →
    (rc = .ok ∧ find t path = none ∧
      find t' = Function.update (find t) path (some ⟨data, none⟩)) ∨
    (rc = .nodeExists ∧ find t path ≠ none ∧ find t' = find t) ∨
    (rc = .failed ∧ find t' = find t)
  createSequence_spec : ∀ {t session path data created t'},
    createSequence t session path data = (created, t') →
    (created = none ∧ find t' = find t) ∨
    ∃ suffix, 47 ∉ suffix ∧ created = some (path ++ suffix) ∧ find t (path ++ suffix) = none ∧
      find t' = Function.update (find t) (path ++ suffix) (some ⟨data, some session⟩)
  getChildren_eq_none : ∀ {t path}, getChildren t path = none ↔ find t path = none
  mem_getChildren : ∀ {t path names}, getChildren t path = some names →
    ∀ name, name ∈ names ↔ 47 ∉ name ∧ find t (childPath path name) ≠ none
  get_eq : ∀ t path n, get t path n = (find t path).map fun node => node.data.take n
  delete_spec : ∀ {t path deleted t'}, delete t path = (deleted, t') →
    (deleted = false ∧ find t' = find t) ∨
    (deleted = true ∧ (∀ name, 47 ∉ name → find t (childPath path name) = none) ∧
      find t' = Function.update (find t) path none)
  find_closeSession : ∀ t session path, find (closeSession t session) path =
    (find t path).filter fun node => node.owner ≠ some session

namespace ZooKeeper

/-- A server that never fails, with the nodes in the order in which they were made. -/
structure Standalone where
  find : Text → Option Znode
  paths : List Text
  counter : Nat
  covers : ∀ path, find path ≠ none → path ∈ paths
  nulFree : ∀ path, find path ≠ none → 0 ∉ path

namespace Standalone

def parentPath (path : Text) : Text := (path.reverse.dropWhile (· ≠ 47)).tail.reverse

/-- A node can be made under the root and under a node that is not ephemeral. -/
def Accepts (t : Standalone) (path : Text) : Prop :=
  0 ∉ path ∧ t.find path = none ∧
    (parentPath path = [] ∨ (t.find (parentPath path)).any fun node => node.owner = none)

instance (t : Standalone) (path : Text) : Decidable (t.Accepts path) :=
  inferInstanceAs (Decidable (_ ∧ _ ∧ _))

def empty : Standalone := ⟨fun _ => none, [], 0, by simp, by simp⟩

/-- A path and the nodes after a change at it. -/
def set (t : Standalone) (path : Text) (node : Option Znode) (counter : Nat)
    (h : 0 ∉ path) : Standalone where
  find := Function.update t.find path node
  paths := t.paths.filter (· ≠ path) ++ [path]
  counter := counter
  covers := by
    intro p hp
    by_cases hpath : p = path
    · exact List.mem_append_right _ (List.mem_singleton.mpr hpath)
    · rw [Function.update_of_ne hpath] at hp
      have hmem := t.covers p hp
      exact List.mem_append_left _ (List.mem_filter.mpr ⟨hmem, decide_eq_true hpath⟩)
  nulFree := by
    intro p hp
    by_cases hpath : p = path
    · exact hpath ▸ h
    · rw [Function.update_of_ne hpath] at hp
      exact t.nulFree p hp

def create (t : Standalone) (path : Text) (data : Bytes) : Rc × Standalone :=
  if h : t.Accepts path then (.ok, t.set path (some ⟨data, none⟩) t.counter h.1)
  else if t.find path = none then (.failed, t)
  else (.nodeExists, t)

def suffix (n : Nat) : Text :=
  List.replicate (10 - (Decimal.decimal n).length) 48 ++ Decimal.decimal n

def createSequence (t : Standalone) (session : Nat) (path : Text) (data : Bytes) :
    Option Text × Standalone :=
  if h : t.Accepts (path ++ suffix t.counter) then
    (some (path ++ suffix t.counter),
      t.set (path ++ suffix t.counter) (some ⟨data, some session⟩) (t.counter + 1) h.1)
  else (none, t)

/-- The part of a path after its parent. -/
def nameUnder (parent path : Text) : Option Text :=
  if parent ++ [47] <+: path then
    let name := path.drop (parent.length + 1)
    if 47 ∈ name then none else some name
  else none

def children (t : Standalone) (path : Text) : List Text :=
  (t.paths.filter fun p => t.find p ≠ none).filterMap (nameUnder path)

def getChildren (t : Standalone) (path : Text) : Option (List Text) :=
  (t.find path).map fun _ => t.children path

def get (t : Standalone) (path : Text) (n : Nat) : Option Bytes :=
  (t.find path).map fun node => node.data.take n

def delete (t : Standalone) (path : Text) : Bool × Standalone :=
  if h : t.find path ≠ none ∧ t.children path = [] then
    (true, t.set path none t.counter (t.nulFree path h.1))
  else (false, t)

def closeSession (t : Standalone) (session : Nat) : Standalone where
  find path := (t.find path).filter fun node => node.owner ≠ some session
  paths := t.paths
  counter := t.counter
  covers := by
    intro p hp
    refine t.covers p fun hnone => hp ?_
    rw [hnone]
    rfl
  nulFree := by
    intro p hp
    refine t.nulFree p fun hnone => hp ?_
    rw [hnone]
    rfl

theorem nameUnder_eq_some {parent path name : Text} :
    nameUnder parent path = some name ↔ 47 ∉ name ∧ path = childPath parent name := by
  unfold nameUnder
  by_cases h : parent ++ [47] <+: path
  · obtain ⟨rest, rfl⟩ := h
    have hdrop : (parent ++ [47] ++ rest).drop (parent.length + 1) = rest :=
      List.drop_left' (by simp)
    rw [if_pos (List.prefix_append _ _), hdrop, childPath, List.append_assoc]
    by_cases hslash : 47 ∈ rest
    · simp only [hslash, if_true, reduceCtorEq, false_iff]
      rintro ⟨hname, heq⟩
      have hrest : rest = name := (List.append_right_inj (parent ++ [47])).mp (by simpa using heq)
      exact hname (hrest ▸ hslash)
    · simp only [hslash, if_false, Option.some.injEq]
      constructor
      · rintro rfl
        exact ⟨hslash, rfl⟩
      · rintro ⟨-, heq⟩
        exact (List.append_right_inj (parent ++ [47])).mp (by simpa using heq)
  · rw [if_neg h]
    refine iff_of_false (by simp) ?_
    rintro ⟨-, rfl⟩
    exact h ⟨name, by simp [childPath]⟩

theorem mem_children {t : Standalone} {path name : Text} :
    name ∈ t.children path ↔ 47 ∉ name ∧ t.find (childPath path name) ≠ none := by
  rw [children, List.mem_filterMap]
  constructor
  · rintro ⟨p, hp, hname⟩
    obtain ⟨hslash, rfl⟩ := nameUnder_eq_some.mp hname
    exact ⟨hslash, of_decide_eq_true (List.mem_filter.mp hp).2⟩
  · rintro ⟨hslash, hfind⟩
    refine ⟨childPath path name, ?_, nameUnder_eq_some.mpr ⟨hslash, rfl⟩⟩
    exact List.mem_filter.mpr ⟨t.covers _ hfind, decide_eq_true hfind⟩

theorem slash_notMem_suffix (n : Nat) : (47 : UInt8) ∉ suffix n := by
  intro h
  cases List.mem_append.mp h with
  | inl h => cases List.eq_of_mem_replicate h
  | inr h => exact absurd (Decimal.digit_of_mem_decimal h).1 (by decide)

end Standalone

def standalone : ZooKeeper where
  Tree := Standalone
  empty := .empty
  find := Standalone.find
  create := Standalone.create
  createSequence := Standalone.createSequence
  getChildren := Standalone.getChildren
  get := Standalone.get
  delete := Standalone.delete
  closeSession := Standalone.closeSession
  find_empty _ := rfl
  nul_notMem {t path node} h := t.nulFree path (by simp [h])
  create_spec {t path data rc t'} h := by
    unfold Standalone.create at h
    split at h
    · rename_i haccepts
      cases h
      exact .inl ⟨rfl, haccepts.2.1, rfl⟩
    · split at h
      · cases h
        exact .inr (.inr ⟨rfl, rfl⟩)
      · rename_i hfind
        cases h
        exact .inr (.inl ⟨rfl, hfind, rfl⟩)
  createSequence_spec {t session path data created t'} h := by
    unfold Standalone.createSequence at h
    split at h
    · rename_i haccepts
      cases h
      exact .inr ⟨_, Standalone.slash_notMem_suffix _, rfl, haccepts.2.1, rfl⟩
    · cases h
      exact .inl ⟨rfl, rfl⟩
  getChildren_eq_none := Option.map_eq_none_iff
  mem_getChildren {t path names} h name := by
    obtain ⟨node, -, rfl⟩ := Option.map_eq_some_iff.mp h
    exact Standalone.mem_children
  get_eq _ _ _ := rfl
  delete_spec {t path deleted t'} h := by
    unfold Standalone.delete at h
    split at h
    · rename_i hleaf
      cases h
      refine .inr ⟨rfl, ?_, rfl⟩
      intro name hslash
      by_contra hfind
      have hmem := Standalone.mem_children.mpr ⟨hslash, hfind⟩
      rw [hleaf.2] at hmem
      cases hmem
    · cases h
      exact .inl ⟨rfl, rfl⟩
  find_closeSession _ _ _ := rfl

end ZooKeeper

end Mprpc
