import Mathlib.Data.List.Perm.Basic
import Mathlib.Data.List.Nodup

namespace Mprpc.Library.Ledger

variable {α : Type*}

/-- Resources that are held, and how often one was given back that was not. -/
structure Account (α : Type*) where
  held : List α
  faults : Nat

def Account.empty : Account α := ⟨[], 0⟩

def Account.acquire (a : α) (d : Account α) : Account α := { d with held := a :: d.held }

def Account.release [DecidableEq α] (a : α) (d : Account α) : Account α :=
  if a ∈ d.held then { d with held := d.held.erase a } else { d with faults := d.faults + 1 }

/-- What is held is what has an owner, each resource once, and nothing was given
back that was not held. -/
structure Account.Balances (d : Account α) (owned : List α) : Prop where
  perm : d.held.Perm owned
  nodup : d.held.Nodup
  clean : d.faults = 0

variable {d : Account α} {owned more : List α} {a : α}

theorem Account.empty_balances : (Account.empty : Account α).Balances [] := ⟨.refl _, .nil, rfl⟩

theorem Account.Balances.of_perm (h : d.Balances owned) (hperm : owned.Perm more) :
    d.Balances more :=
  ⟨h.perm.trans hperm, h.nodup, h.clean⟩

theorem Account.Balances.acquire (h : d.Balances owned) (hnew : a ∉ d.held) :
    (d.acquire a).Balances (a :: owned) :=
  ⟨h.perm.cons a, List.nodup_cons.mpr ⟨hnew, h.nodup⟩, h.clean⟩

theorem Account.Balances.release [DecidableEq α] (h : d.Balances (a :: owned)) :
    (d.release a).Balances owned := by
  have hmem : a ∈ d.held := h.perm.mem_iff.mpr List.mem_cons_self
  rw [Account.release, if_pos hmem]
  refine ⟨?_, h.nodup.erase a, h.clean⟩
  have hperm := h.perm.erase a
  rwa [List.erase_cons_head] at hperm

end Mprpc.Library.Ledger
