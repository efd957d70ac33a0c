import Mathlib.Data.Finset.Basic
import DnsMultiZone.Lib.Handles
import DnsMultiZone.Work.Connect
import DnsMultiZone.Lib.Assoc

/-! # The kernel's side of the server

What the server does to the outside is a list of effects, in order. Of the kernel's state they change two
things: which descriptors are open, and which of them the epoll set holds, each with whether it is
listened to for `EPOLLOUT`. Closing a descriptor takes it out of the epoll set.

`Lawful`: the kernel hands out no descriptor that is open. -/

namespace DnsMultiZone.MainLoop.Descriptors

open DnsMultiZone.Lib.BigEndian DnsMultiZone.Lib.Assoc DnsMultiZone.Lib.Handles
open DnsMultiZone.Work.Connect

/-- What the server does to the outside. `socket` is a call that has returned `fd`, `send` and
`sendReply` are datagrams the kernel has accepted, and `initFailed` is the line `OnListenRead` logs when
it cannot set up a work. -/
inductive Effect
  | socket (fd : Fd)
  | close (fd : Fd)
  | epollAdd (fd : Fd)
  | epollMod (fd : Fd) (pollOut : Bool)
  | epollDel (fd : Fd)
  | send (fd : Fd) (sBuffer : Bytes)
  | sendReply (raAddr : ReplyAddr) (sData : Bytes)
  | initFailed (sKey : Bytes)
  deriving DecidableEq

structure Kernel where
  opened : Finset Fd
  epoll : Map Fd Bool := ∅

/-- A descriptor that is open and that `epoll_wait` reports on. -/
def Kernel.Listens (k : Kernel) (fd : Fd) : Prop := fd ∈ k.opened ∧ fd ∈ k.epoll

instance (k : Kernel) (fd : Fd) : Decidable (k.Listens fd) := by
  unfold Kernel.Listens; infer_instance

/-- The kernel after one effect. `EPOLL_CTL_ADD` fails on a descriptor that is closed or in the set, and
`EPOLL_CTL_MOD` on one that is not in the set. -/
def Kernel.apply (k : Kernel) : Effect → Kernel
  | .socket fd => { k with opened := insert fd k.opened }
  | .close fd => ⟨k.opened.erase fd, k.epoll.erase fd⟩
  | .epollAdd fd => if fd ∈ k.opened ∧ fd ∉ k.epoll then { k with epoll := k.epoll.insert fd false } else k
  | .epollMod fd pollOut => if fd ∈ k.epoll then { k with epoll := k.epoll.insert fd pollOut } else k
  | .epollDel fd => { k with epoll := k.epoll.erase fd }
  | .send _ _ | .sendReply _ _ | .initFailed _ => k

def Kernel.run (k : Kernel) (es : List Effect) : Kernel := es.foldl Kernel.apply k

@[simp] theorem Kernel.run_nil (k : Kernel) : k.run [] = k := rfl

@[simp] theorem Kernel.run_cons (k : Kernel) (e : Effect) (es : List Effect) :
    k.run (e :: es) = (k.apply e).run es := rfl

@[simp] theorem Kernel.run_append (k : Kernel) (es₁ es₂ : List Effect) :
    k.run (es₁ ++ es₂) = (k.run es₁).run es₂ :=
  List.foldl_append

/-- A descriptor that is handed out is not open. -/
def Effect.Lawful (k : Kernel) : Effect → Prop
  | .socket fd => fd ∉ k.opened
  | _ => True

instance (k : Kernel) : ∀ e : Effect, Decidable (e.Lawful k)
  | .socket fd => inferInstanceAs (Decidable (fd ∉ k.opened))
  | .close _ | .epollAdd _ | .epollMod _ _ | .epollDel _ | .send _ _ | .sendReply _ _
  | .initFailed _ => isTrue trivial

/-- **The kernel hands out no descriptor that is open.** -/
def Lawful : Kernel → List Effect → Prop
  | _, [] => True
  | k, e :: es => e.Lawful k ∧ Lawful (k.apply e) es

instance decidableLawful : ∀ (k : Kernel) (es : List Effect), Decidable (Lawful k es)
  | _, [] => isTrue trivial
  | k, e :: es =>
    have : Decidable (Lawful (k.apply e) es) := decidableLawful (k.apply e) es
    inferInstanceAs (Decidable (e.Lawful k ∧ Lawful (k.apply e) es))

theorem lawful_append {k : Kernel} {es₁ es₂ : List Effect} :
    Lawful k (es₁ ++ es₂) ↔ Lawful k es₁ ∧ Lawful (k.run es₁) es₂ := by
  induction es₁ generalizing k with
  | nil => simp [Lawful]
  | cons e es₁ ih => rw [List.cons_append, Lawful, Lawful, ih, and_assoc, Kernel.run_cons]

/-- What an effect does to descriptors. -/
def Effect.op : Effect → Option (Op Fd)
  | .socket fd => some (.acquire fd)
  | .close fd => some (.release fd)
  | _ => none

/-- The log of descriptors opened and closed. -/
def ops (es : List Effect) : List (Op Fd) := es.filterMap Effect.op

theorem ops_append (es₁ es₂ : List Effect) : ops (es₁ ++ es₂) = ops es₁ ++ ops es₂ :=
  List.filterMap_append

/-! ### Effects that open and close nothing -/

/-- Nothing is opened or closed. -/
def Quiet (es : List Effect) : Prop := ∀ e ∈ es, e.op = none

variable {k : Kernel} {e : Effect} {es es₁ es₂ : List Effect} {fd : Fd}

theorem quiet_cons : Quiet (e :: es) ↔ e.op = none ∧ Quiet es := List.forall_mem_cons

theorem Quiet.ops (h : Quiet es) : ops es = [] := List.filterMap_eq_nil_iff.mpr h

theorem opened_apply (h : e.op = none) : (k.apply e).opened = k.opened := by
  cases e with
  | socket fd => cases h
  | close fd => cases h
  | epollAdd fd =>
    simp only [Kernel.apply]
    split_ifs <;> rfl
  | epollMod fd b =>
    simp only [Kernel.apply]
    split_ifs <;> rfl
  | _ => rfl

theorem Quiet.opened (h : Quiet es) : (k.run es).opened = k.opened := by
  induction es generalizing k with
  | nil => rfl
  | cons e es ih => rw [Kernel.run_cons, ih (quiet_cons.mp h).2, opened_apply (quiet_cons.mp h).1]

/-! ### What stays in the epoll set -/

theorem mem_epoll_apply (h : fd ∈ k.epoll) (hd : e ≠ .epollDel fd) (hc : e ≠ .close fd) :
    fd ∈ (k.apply e).epoll := by
  cases e with
  | close fd' => exact AList.mem_erase.mpr ⟨fun he => hc (by rw [he]), h⟩
  | epollDel fd' => exact AList.mem_erase.mpr ⟨fun he => hd (by rw [he]), h⟩
  | epollAdd fd' =>
    simp only [Kernel.apply]
    split_ifs
    · exact (AList.mem_insert _).mpr (Or.inr h)
    · exact h
  | epollMod fd' b =>
    simp only [Kernel.apply]
    split_ifs
    · exact (AList.mem_insert _).mpr (Or.inr h)
    · exact h
  | _ => exact h

theorem mem_epoll_run (h : fd ∈ k.epoll) (hd : .epollDel fd ∉ es) (hc : .close fd ∉ es) :
    fd ∈ (k.run es).epoll := by
  induction es generalizing k with
  | nil => exact h
  | cons e es ih =>
    rw [List.mem_cons, not_or] at hd hc
    exact ih (mem_epoll_apply h (Ne.symm hd.1) (Ne.symm hc.1)) hd.2 hc.2

theorem mem_opened_run (h : fd ∈ k.opened) (hc : .close fd ∉ es) : fd ∈ (k.run es).opened := by
  induction es generalizing k with
  | nil => exact h
  | cons e es ih =>
    rw [List.mem_cons, not_or] at hc
    refine ih ?_ hc.2
    cases e with
    | socket fd' => exact Finset.mem_insert_of_mem h
    | close fd' => exact Finset.mem_erase.mpr ⟨fun he => hc.1 (by rw [he]), h⟩
    | epollAdd fd' => exact (opened_apply (e := .epollAdd fd') rfl).symm ▸ h
    | epollMod fd' b => exact (opened_apply (e := .epollMod fd' b) rfl).symm ▸ h
    | _ => exact h

theorem Kernel.Listens.run (h : k.Listens fd) (hd : .epollDel fd ∉ es) (hc : .close fd ∉ es) :
    (k.run es).Listens fd :=
  ⟨mem_opened_run h.1 hc, mem_epoll_run h.2 hd hc⟩

theorem mem_epoll_of_apply (h : fd ∈ (k.apply e).epoll) (ha : e ≠ .epollAdd fd) : fd ∈ k.epoll := by
  cases e with
  | close fd' => exact (AList.mem_erase.mp h).2
  | epollDel fd' => exact (AList.mem_erase.mp h).2
  | epollAdd fd' =>
    simp only [Kernel.apply] at h
    split_ifs at h with hn
    · exact ((AList.mem_insert _).mp h).resolve_left fun he => ha (by rw [he])
    · exact h
  | epollMod fd' b =>
    simp only [Kernel.apply] at h
    split_ifs at h with hn
    · rcases (AList.mem_insert _).mp h with rfl | h
      · exact hn
      · exact h
    · exact h
  | _ => exact h

theorem mem_epoll_of_run (h : fd ∈ (k.run es).epoll) (ha : .epollAdd fd ∉ es) : fd ∈ k.epoll := by
  induction es generalizing k with
  | nil => exact h
  | cons e es ih =>
    rw [List.mem_cons, not_or] at ha
    exact mem_epoll_of_apply (ih h ha.2) (Ne.symm ha.1)

end DnsMultiZone.MainLoop.Descriptors
