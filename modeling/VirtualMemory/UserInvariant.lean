import VirtualMemory.Library.Ledger
import VirtualMemory.Library.Outcome
import VirtualMemory.UserSpace

/-!
# Ownership of user frames and clusters

A `PageView` names the pages a state is about, gives each its descriptor and, while
the table that holds it is in memory, the address of that descriptor. The invariant
has two halves. `FrameInv` is the ledger of user frames: a frame is free, in the hands
of a caller that has not yet mapped it, or named by one resident page, and then the
frame table points back at that page's descriptor. `ClusterInv` is the ledger of
clusters together with the agreement between the two dirty bits, the origin table and
the disk that makes dropping a clean page safe.

Clusters may also be held from outside user paging; `ext` says by whom. Every
operation below leaves the contents of those clusters alone.
-/

namespace VirtualMemory

open Function

namespace PageTableL2Entry

/-- A private page in a user frame. -/
def Resident (e : PageTableL2Entry) : Prop := e.getShared = false ∧ e.getValid = true

/-- A private page of a segment that has contents, but not in a frame. -/
def PagedOut (e : PageTableL2Entry) : Prop :=
  e.getShared = false ∧ e.getInseg = true ∧ e.getValid = false ∧ e.getTbc = false

/-- A resident page belongs to a segment and is no longer to be created. -/
def Shape (e : PageTableL2Entry) : Prop := e.Resident → e.getInseg = true ∧ e.getTbc = false

theorem PagedOut.not_resident {e : PageTableL2Entry} (h : e.PagedOut) : ¬ e.Resident := by
  rintro ⟨_, hvalid⟩
  rw [h.2.2.1] at hvalid
  cases hvalid

instance (e : PageTableL2Entry) : Decidable e.Resident := inferInstanceAs (Decidable (_ ∧ _))

instance (e : PageTableL2Entry) : Decidable e.PagedOut := inferInstanceAs (Decidable (_ ∧ _))

end PageTableL2Entry

open UserSpace (swappedOut)

theorem resident_swappedOut (e : PageTableL2Entry) (cn : Nat) : ¬ (swappedOut e cn).Resident := by
  simp [swappedOut, PageTableL2Entry.Resident]

theorem pagedOut_swappedOut {e : PageTableL2Entry} (hr : e.Resident) (hs : e.Shape) (cn : Nat) :
    (swappedOut e cn).PagedOut := by
  obtain ⟨hinseg, htbc⟩ := hs hr
  simpa [swappedOut, PageTableL2Entry.PagedOut] using ⟨hr.1, hinseg, htbc⟩

@[simp] theorem getInseg_swappedOut (e : PageTableL2Entry) (cn : Nat) :
    (swappedOut e cn).getInseg = e.getInseg := by
  simp [swappedOut]

@[simp] theorem getShared_swappedOut (e : PageTableL2Entry) (cn : Nat) :
    (swappedOut e cn).getShared = e.getShared := by
  simp [swappedOut]

@[simp] theorem getTbc_swappedOut (e : PageTableL2Entry) (cn : Nat) :
    (swappedOut e cn).getTbc = e.getTbc := by
  simp [swappedOut]

theorem block_swappedOut (e : PageTableL2Entry) {cn : Nat} (hcn : cn < maxClusters) :
    (swappedOut e cn).block = cn := by
  simp only [swappedOut, PageTableL2Entry.block_set, PageTableL2Entry.block_setBlockDisk]
  exact Nat.mod_eq_of_lt (by unfold maxClusters at hcn; omega)

/-- The pages of a state, their descriptors, and where the descriptors in memory are. -/
structure PageView (V D : Type) where
  desc : V → PageTableL2Entry
  addr : V → Option D

namespace PageView

variable {V D : Type} [DecidableEq V]

/-- The view after a page's descriptor became `e` at address `a`. -/
def put (w : PageView V D) (v : V) (a : D) (e : PageTableL2Entry) : PageView V D where
  desc := update w.desc v e
  addr := update w.addr v (some a)

@[simp] theorem put_desc_self (w : PageView V D) (v : V) (a : D) (e : PageTableL2Entry) :
    (w.put v a e).desc v = e := by
  simp [put]

theorem put_desc_of_ne (w : PageView V D) {v v' : V} (h : v' ≠ v) (a : D)
    (e : PageTableL2Entry) : (w.put v a e).desc v' = w.desc v' := by
  simp [put, h]

@[simp] theorem put_addr_self (w : PageView V D) (v : V) (a : D) (e : PageTableL2Entry) :
    (w.put v a e).addr v = some a := by
  simp [put]

theorem put_addr_of_ne (w : PageView V D) {v v' : V} (h : v' ≠ v) (a : D)
    (e : PageTableL2Entry) : (w.put v a e).addr v' = w.addr v' := by
  simp [put, h]

theorem put_addr_eq {w : PageView V D} {v : V} {a : D} (h : w.addr v = some a)
    (e : PageTableL2Entry) : (w.put v a e).addr = w.addr := by
  simp [put, ← h]

end PageView

/-- Who can hold a user frame: a page, or the caller the frame was handed to. -/
inductive FrameHolder (V : Type) where
  | page (v : V)
  | hand (frame : Nat)

/-- Who can hold a cluster: a page, or something outside user paging. -/
inductive ClusterHolder (V E : Type) where
  | page (v : V)
  | ext (e : E)

def frameHolds {V : Type} (desc : V → PageTableL2Entry) (hand : Nat → Prop) :
    FrameHolder V → Nat → Prop
  | .page v, f => (desc v).Resident ∧ (desc v).block = f
  | .hand g, f => hand g ∧ g = f

/-- A resident page holds the origin of its frame, a paged out page its own cluster. -/
def clusterHolds {V E : Type} (desc : V → PageTableL2Entry) (ot : Nat → Nat)
    (ext : E → Nat → Prop) : ClusterHolder V E → Nat → Prop
  | .page v, c =>
      ((desc v).Resident ∧ ot (desc v).block = c ∧ c ≠ nullCluster) ∨
        ((desc v).PagedOut ∧ (desc v).block = c)
  | .ext e, c => ext e c

theorem clusterHolds_page_unique {V E : Type} {desc : V → PageTableL2Entry} {ot : Nat → Nat}
    {ext : E → Nat → Prop} {v : V} {c d : Nat}
    (hc : clusterHolds desc ot ext (.page v) c) (hd : clusterHolds desc ot ext (.page v) d) :
    c = d := by
  obtain ⟨hr, hc, -⟩ | ⟨hp, hc⟩ := hc <;> obtain ⟨hr', hd, -⟩ | ⟨hp', hd⟩ := hd
  · rw [← hc, hd]
  · exact absurd hr hp'.not_resident
  · exact absurd hr' hp.not_resident
  · rw [← hc, hd]

structure FrameInv {V D : Type} (w : PageView V D) (hand : Nat → Prop) (s : UserSpace D) :
    Prop where
  typed : ∀ f, (s.usFt f).type = .usUserPage → f < s.userspcSize
  size_le : s.userspcSize ≤ 65536
  nodup : s.usEmpty.Nodup
  ledger : Ledger.Exact (· < s.userspcSize) (· ∈ s.usEmpty) (frameHolds w.desc hand)
  owner : ∀ v, (w.desc v).Resident →
    (s.usFt (w.desc v).block).type = .usUserPage ∧
      ∃ a, w.addr v = some a ∧ (s.usFt (w.desc v).block).owner = some a
  link : ∀ v a, w.addr v = some a → s.mem a = w.desc v
  addr_inj : ∀ v v' a, w.addr v = some a → w.addr v' = some a → v = v'

structure ClusterInv {V D E : Type} (w : PageView V D) (ext : E → Nat → Prop)
    (s : UserSpace D) : Prop where
  ledger : Ledger.Exact (· < s.diskSize) (s.dvt · = true) (clusterHolds w.desc s.ot ext)
  small : s.diskSize ≤ maxClusters
  shape : ∀ v, (w.desc v).Shape
  agree : ∀ v, (w.desc v).Resident → s.ot (w.desc v).block ≠ nullCluster →
    (w.desc v).getDirty = (s.usFt (w.desc v).block).getDirty
  clean : ∀ v, (w.desc v).Resident → s.ot (w.desc v).block ≠ nullCluster →
    (w.desc v).getDirty = false →
      s.disk (s.ot (w.desc v).block) = s.userspc (w.desc v).block

structure UserInv {V D E : Type} (w : PageView V D) (hand : Nat → Prop) (ext : E → Nat → Prop)
    (s : UserSpace D) : Prop where
  frames : FrameInv w hand s
  clusters : ClusterInv w ext s

/-- What a page contains: its frame while resident, its cluster while paged out, and
nothing before its first touch or outside a segment. -/
def UserSpace.content {D : Type} (s : UserSpace D) (e : PageTableL2Entry) : Option Page :=
  if e.Resident then some (s.userspc e.block)
  else if e.PagedOut then some (s.disk e.block)
  else none

theorem content_resident {D : Type} {s : UserSpace D} {e : PageTableL2Entry} (h : e.Resident) :
    s.content e = some (s.userspc e.block) := if_pos h

theorem content_pagedOut {D : Type} {s : UserSpace D} {e : PageTableL2Entry} (h : e.PagedOut) :
    s.content e = some (s.disk e.block) := by
  rw [UserSpace.content, if_neg h.not_resident, if_pos h]

theorem content_none {D : Type} {s : UserSpace D} {e : PageTableL2Entry} (h : ¬ e.Resident)
    (h' : ¬ e.PagedOut) : s.content e = none := by
  rw [UserSpace.content, if_neg h, if_neg h']

/-- A page that other pages' operations can at most have moved to the disk. -/
def Kept {D : Type} (s : UserSpace D) (e : PageTableL2Entry) (s' : UserSpace D)
    (e' : PageTableL2Entry) : Prop :=
  (e' = e ∨ (e.Resident ∧ ∃ cn, e' = swappedOut e cn)) ∧ s'.content e' = s.content e

/-- The parts of an entry that say what a process may do with its page. -/
structure SameRights (e e' : PageTableL2Entry) : Prop where
  inseg : e'.getInseg = e.getInseg
  shared : e'.getShared = e.getShared
  access : e'.getAccess = e.getAccess

theorem SameRights.refl (e : PageTableL2Entry) : SameRights e e := ⟨rfl, rfl, rfl⟩

theorem SameRights.trans {e e' e'' : PageTableL2Entry} (h : SameRights e e')
    (h' : SameRights e' e'') : SameRights e e'' :=
  ⟨h'.inseg.trans h.inseg, h'.shared.trans h.shared, h'.access.trans h.access⟩

theorem sameRights_set {e e' : PageTableL2Entry} {flag : L2Flag} {val : Bool}
    (h : SameRights e e') (hinseg : flag ≠ .inSeg) (hshared : flag ≠ .shared) :
    SameRights e (e'.set flag val) := by
  refine ⟨?_, ?_, ?_⟩
  · rw [← h.inseg, PageTableL2Entry.getInseg, PageTableL2Entry.get_set, if_neg hinseg.symm]
  · rw [← h.shared, PageTableL2Entry.getShared, PageTableL2Entry.get_set, if_neg hshared.symm]
  · rw [← h.access, PageTableL2Entry.getAccess_set]

theorem sameRights_setBlockDisk {e e' : PageTableL2Entry} (h : SameRights e e') (value : Nat) :
    SameRights e (e'.setBlockDisk value) := ⟨h.inseg, h.shared, h.access⟩

theorem sameRights_swappedOut (e : PageTableL2Entry) (cn : Nat) :
    SameRights e (swappedOut e cn) :=
  sameRights_set (sameRights_set (sameRights_setBlockDisk (.refl e) cn) (by decide) (by decide))
    (by decide) (by decide)

theorem Kept.sameRights {D : Type} {s s' : UserSpace D} {e e' : PageTableL2Entry}
    (h : Kept s e s' e') : SameRights e e' := by
  obtain rfl | ⟨_, cn, rfl⟩ := h.1
  · exact .refl _
  · exact sameRights_swappedOut e cn

theorem Kept.tbc {D : Type} {s s' : UserSpace D} {e e' : PageTableL2Entry}
    (h : Kept s e s' e') : e'.getTbc = e.getTbc := by
  obtain rfl | ⟨_, cn, rfl⟩ := h.1
  · rfl
  · exact getTbc_swappedOut e cn

theorem Kept.refl {D : Type} (s : UserSpace D) (e : PageTableL2Entry) : Kept s e s e :=
  ⟨.inl rfl, rfl⟩

theorem Kept.desc_eq {D : Type} {s s' : UserSpace D} {e e' : PageTableL2Entry}
    (h : Kept s e s' e') (hnot : ¬ e.Resident) : e' = e :=
  h.1.resolve_right fun hr => hnot hr.1

theorem Kept.trans {D : Type} {s t u : UserSpace D} {e e' e'' : PageTableL2Entry}
    (h : Kept s e t e') (h' : Kept t e' u e'') : Kept s e u e'' := by
  refine ⟨?_, h'.2.trans h.2⟩
  obtain rfl | ⟨hr, cn, rfl⟩ := h.1
  · exact h'.1
  · obtain rfl | ⟨hr', _⟩ := h'.1
    · exact .inr ⟨hr, cn, rfl⟩
    · exact absurd hr' (resident_swappedOut e cn)

/-- What an operation on the pages in `but` leaves alone: every other page is kept,
memory that holds no descriptor is not written, and neither are the clusters held from
outside. -/
structure PagedBut {V D E : Type} (ext : E → Nat → Prop) (but : V → Prop) (w : PageView V D)
    (s : UserSpace D) (w' : PageView V D) (s' : UserSpace D) : Prop where
  addr : w'.addr = w.addr
  keptBut : ∀ v, ¬ but v → Kept s (w.desc v) s' (w'.desc v)
  mem : ∀ a, (∀ v, w.addr v ≠ some a) → s'.mem a = s.mem a
  disk : ∀ e c, ext e c → s'.disk c = s.disk c
  userspcSize : s'.userspcSize = s.userspcSize
  diskSize : s'.diskSize = s.diskSize

/-- What paging alone leaves as it was. -/
abbrev Paged {V D E : Type} (ext : E → Nat → Prop) (w : PageView V D) (s : UserSpace D)
    (w' : PageView V D) (s' : UserSpace D) : Prop :=
  PagedBut ext (fun _ => False) w s w' s'

namespace PagedBut

variable {V D E : Type} {ext : E → Nat → Prop} {but but' : V → Prop} {w w' w'' : PageView V D}
  {s s' s'' : UserSpace D}

theorem refl (ext : E → Nat → Prop) (but : V → Prop) (w : PageView V D) (s : UserSpace D) :
    PagedBut ext but w s w s :=
  ⟨rfl, fun _ _ => .refl _ _, fun _ _ => rfl, fun _ _ _ => rfl, rfl, rfl⟩

theorem trans (h : PagedBut ext but w s w' s') (h' : PagedBut ext but w' s' w'' s'') :
    PagedBut ext but w s w'' s'' where
  addr := h'.addr.trans h.addr
  keptBut v hv := (h.keptBut v hv).trans (h'.keptBut v hv)
  mem a ha := (h'.mem a (by rw [h.addr]; exact ha)).trans (h.mem a ha)
  disk e c hc := (h'.disk e c hc).trans (h.disk e c hc)
  userspcSize := h'.userspcSize.trans h.userspcSize
  diskSize := h'.diskSize.trans h.diskSize

theorem mono (h : PagedBut ext but w s w' s') (hbut : ∀ v, but v → but' v) :
    PagedBut ext but' w s w' s' :=
  { h with keptBut := fun v hv => h.keptBut v (fun hb => hv (hbut v hb)) }

theorem kept (h : Paged ext w s w' s') (v : V) : Kept s (w.desc v) s' (w'.desc v) :=
  h.keptBut v id

end PagedBut

end VirtualMemory
