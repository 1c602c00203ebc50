import VirtualMemory.SegmentRecords
import VirtualMemory.SharedFaults

/-!
# What a removed segment gives back

`delete_segment_ind` locks a page table before it looks at each page of the segment, always
that of the first page. Where the segment crosses into other page tables these have to be in
memory already, and have to stay there when the first one is brought in; then every page
gives back its frame and its cluster, and nothing else is given back.
-/

namespace VirtualMemory

open Function UserSpace KernelSystem PageTableL2Entry

/-- The first page of a range has the slots of the address where it starts. -/
theorem slotOf_pageAddr_zero (startAddr : Nat) :
    slotOf (pageAddr startAddr 0) = slotOf startAddr := by
  simp only [slotOf, ptl1Slot, pageAddr, Fin.mk.injEq]
  omega

/-- A bit that is what it is set to. -/
theorem bitVal_self {w bit : Nat} {number : BitVec w} (hbit : bit < w) :
    bitVal number bit (bitGet number bit) = number := by
  refine BitVec.eq_of_getLsbD_eq fun other hother => ?_
  rw [← bitGet_eq_getLsbD _ hother, ← bitGet_eq_getLsbD _ hother, bitGet_bitVal _ _ hbit hother]
  split
  · rename_i heq
    rw [heq]
  · rfl

/-- Locking a frame a second time changes nothing. -/
theorem ksLockPage_locked {s : KernelSystem} {f : Nat} (hlocked : (s.ksFt f).getLocked = true) :
    s.ksLockPage f = s := by
  have hflags : bitVal (s.ksFt f).flags 5 (s.ksFt f).getLocked = (s.ksFt f).flags :=
    bitVal_self (by decide)
  rw [hlocked] at hflags
  rw [ksLockPage, FrameTableEntry.setLocked, hflags, update_eq_self]

/-- The frame of a page that is resident. -/
def givenFrame (e : PageTableL2Entry) : List Nat := if e.getValid then [e.block] else []

/-- A page holds a cluster: the origin of its frame, or the one that it was paged out to. -/
def UserSpace.GivesCluster {D : Type} (s : UserSpace D) (e : PageTableL2Entry) (c : Nat) : Prop :=
  if e.getValid then s.ot e.block = c ∧ c ≠ nullCluster else e.getTbc = false ∧ e.block = c

section Descriptor

variable {D : Type} {s s' : UserSpace D} {a : D} {e : PageTableL2Entry}

/-- What a private page of a segment holds, as the ledgers say it. -/
theorem givesCluster_iff (hshared : e.getShared = false) (hinseg : e.getInseg = true) (c : Nat) :
    s.GivesCluster e c ↔
      (e.Resident ∧ s.ot e.block = c ∧ c ≠ nullCluster) ∨ (e.PagedOut ∧ e.block = c) := by
  unfold GivesCluster Resident PagedOut
  cases hvalid : e.getValid <;> simp [hshared, hinseg]

variable [DecidableEq D]

/-- After the release of a page: its flags are cleared, what it held is free, and the origin
of no frame changed. -/
structure Gives (s : UserSpace D) (a : D) (s' : UserSpace D) : Prop where
  mem : s'.mem = update s.mem a ((s.mem a).setFlags 0#8)
  ot : s'.ot = s.ot
  usEmpty : s'.usEmpty = s.usEmpty ++ givenFrame (s.mem a)
  dvt : ∀ c, s'.dvt c = true ↔ s.dvt c = true ∨ s.GivesCluster (s.mem a) c
  userspc : s'.userspc = s.userspc
  disk : s'.disk = s.disk

theorem releasePage_gives (hrelease : s.releasePage a = .ok s') : Gives s a s' := by
  unfold releasePage at hrelease
  obtain ⟨t, hback, hret⟩ := Outcome.bind_ok hrelease
  cases hret
  unfold relinquishHeld at hback
  split at hback
  · rename_i hvalid
    cases hback
    rw [usRelinquishPage_eq]
    refine ⟨rfl, rfl, by simp [setPte, givenFrame, hvalid], fun c => ?_, rfl, rfl⟩
    by_cases hnull : s.ot (s.mem a).block = nullCluster
    · simp only [setPte, hnull, if_true, GivesCluster, hvalid]
      exact ⟨.inl, fun hc => hc.elim id fun hgives => absurd hgives.1.symm hgives.2⟩
    · by_cases hc : c = s.ot (s.mem a).block
      · simp [setPte, hnull, GivesCluster, hvalid, hc]
      · simp [setPte, hnull, GivesCluster, hvalid, hc, Ne.symm hc]
  · rename_i hvalid
    split at hback
    · rename_i htbc
      cases hback
      refine ⟨rfl, rfl, by simp [setPte, givenFrame, hvalid], fun c => ?_, rfl, rfl⟩
      simp [setPte, GivesCluster, hvalid, htbc]
    · rename_i htbc
      unfold relinquishCluster at hback
      split at hback
      · cases hback
      · cases hback
        refine ⟨rfl, rfl, by simp [setPte, dvtMark, givenFrame, hvalid], fun c => ?_, rfl, rfl⟩
        by_cases hc : c = (s.mem a).block
        · simp [setPte, dvtMark, GivesCluster, hvalid, htbc, hc]
        · simp [setPte, dvtMark, GivesCluster, hvalid, htbc, hc, Ne.symm hc]

end Descriptor

namespace Working

variable {g : Layout} {s s' : KernelSystem} {h m k f startAddr i : Nat}

/-- The layout after the page at an address left its segment. -/
def cleared (g : Layout) (v : LPage) : Layout :=
  g.withDesc (update g.desc v ((g.desc v).setFlags 0#8))

theorem cleared_desc_of_ne {v u : LPage} (hne : u ≠ v) : (cleared g v).desc u = g.desc u := by
  simp [cleared, hne]

theorem cleared_desc_self (v : LPage) : (cleared g v).desc v = (g.desc v).setFlags 0#8 := by
  simp [cleared]

/-- One private page of the segment, its page table and that of the first page in memory. -/
theorem deletePage_held (doReleaseShared released : Bool) (hwork : Working g h m s)
    (hk : g.place (.table h (slotOf startAddr)) = .frame k)
    (hf : g.place (.table h (slotOf (pageAddr startAddr i))) = .frame f)
    (hinseg : (g.desc (pageOf h (pageAddr startAddr i))).getInseg = true)
    (hshared : (g.desc (pageOf h (pageAddr startAddr i))).getShared = false) :
    ∃ s', deletePage h startAddr doReleaseShared (released, s) i = .ok (released, s') ∧
      Working (cleared g (pageOf h (pageAddr startAddr i))) h m s' ∧
      Gives s.toUserSpace ⟨f, cellOf (pageAddr startAddr i)⟩ s'.toUserSpace ∧
      s'.ksEmpty = s.ksEmpty := by
  obtain ⟨hinv₁, hlock, -⟩ := hwork.inv.ksLockPage_inv k
  have hwork₁ := hwork.carry hinv₁ hlock id
  have haddr : g.addr (pageOf h (pageAddr startAddr i)) =
      some ⟨f, cellOf (pageAddr startAddr i)⟩ := Layout.addr_of_frame hf _
  have hread : (s.ksLockPage k).mem ⟨f, cellOf (pageAddr startAddr i)⟩ =
      g.desc (pageOf h (pageAddr startAddr i)) := hwork₁.inv.mem_pageOf hf
  have hused : (s.ptl1 ⟨m, slotCell (slotOf (pageAddr startAddr i))⟩).status ≠
      PageTableL1Entry.statusUnused := by
    have hagree := hwork.inv.agrees hwork.master.1 (slotOf (pageAddr startAddr i))
    rw [hf] at hagree
    rw [hagree.1]
    decide
  obtain ⟨us', hus⟩ : ∃ us', (s.ksLockPage k).releasePage ⟨f, cellOf (pageAddr startAddr i)⟩ =
      .ok us' := by
    cases hus : (s.ksLockPage k).releasePage ⟨f, cellOf (pageAddr startAddr i)⟩ with
    | ok us' => exact ⟨us', rfl⟩
    | error halt =>
        exact absurd hus (releasePage_ne_error (v := pageOf h (pageAddr startAddr i))
          hwork₁.inv.user haddr hshared hinseg)
  obtain ⟨huser, hbut⟩ := releasePage_inv (v := pageOf h (pageAddr startAddr i)) hwork₁.inv.user
    haddr hshared hinseg hus
  obtain ⟨hinv₂, hcarried₂, -⟩ := hwork₁.inv.userStep hf huser hbut
  have hwork₂ := hwork₁.carry hinv₂ hcarried₂ id
  obtain ⟨hinv₃, hunlock, -⟩ := hwork₂.inv.pageUnlock_inv (t := .table h (slotOf startAddr)) hk
  refine ⟨((s.ksLockPage k).withUser us').pageUnlock k, ?_, ?_, ?_, ?_⟩
  · unfold deletePage
    simp only [hwork.inv.accessPtl1_eq hwork.master.1, deref, Outcome.ok_bind, if_neg hused,
      hwork.inv.pageTableLock_present hwork.master.1 hk,
      hwork₁.inv.accessPtl2_eq hwork₁.master.1 hf, derefPtl2, deleteEntry, hread, hinseg, hshared,
      onUser, hus, Bool.not_true, Bool.false_eq_true, if_false]
  · refine hwork₂.carry hinv₃ hunlock ?_
    rintro (⟨⟨⟩⟩ | htable)
    exact KTable.master_not_table h htable
  · rw [pageUnlock_user]
    exact releasePage_gives hus
  · unfold pageUnlock
    split <;> rfl

/-- A page of the segment that is worked on has its page table in memory, next to that of the
first page. -/
theorem deletePage_table {r : Bool × KernelSystem} {doReleaseShared released : Bool}
    (hwork : Working g h m s)
    (hk : g.place (.table h (slotOf startAddr)) = .frame k)
    (hdelete : deletePage h startAddr doReleaseShared (released, s) i = .ok r) :
    ∃ f, g.place (.table h (slotOf (pageAddr startAddr i))) = .frame f := by
  obtain ⟨hinv₁, hlock, -⟩ := hwork.inv.ksLockPage_inv k
  have hwork₁ := hwork.carry hinv₁ hlock id
  unfold deletePage at hdelete
  simp only [hwork.inv.accessPtl1_eq hwork.master.1, deref, Outcome.ok_bind,
    hwork.inv.pageTableLock_present hwork.master.1 hk] at hdelete
  split at hdelete
  · cases hdelete
  · obtain ⟨ptl2e, hptl2, -⟩ := Outcome.bind_ok hdelete
    unfold derefPtl2 at hptl2
    split at hptl2
    · cases hptl2
    · rename_i haccess
      obtain ⟨f, hf, -⟩ := hwork₁.inv.accessPtl2_ok hwork₁.sound hwork₁.master.1 haccess
      exact ⟨f, hf⟩

end Working

/-- The segment from `startAddr` is being removed: the pages that are done have left it, and no
other page changed. -/
structure Clearing (g₀ : Layout) (h m startAddr : Nat) (done : List Nat) (g : Layout)
    (s : KernelSystem) : Prop where
  working : Working g h m s
  place : g.place = g₀.place
  pages : ∀ i ∈ done, g.desc (pageOf h (pageAddr startAddr i)) =
    (g₀.desc (pageOf h (pageAddr startAddr i))).setFlags 0#8
  others : ∀ v, (∀ i ∈ done, v ≠ pageOf h (pageAddr startAddr i)) → g.desc v = g₀.desc v

theorem Clearing.start {g : Layout} {s : KernelSystem} {h m startAddr : Nat}
    (hwork : Working g h m s) : Clearing g h m startAddr [] g s :=
  ⟨hwork, rfl, nofun, fun _ _ => rfl⟩

theorem Clearing.next {g₀ g : Layout} {s s' : KernelSystem} {h m startAddr i : Nat}
    {done : List Nat} (hclearing : Clearing g₀ h m startAddr done g s)
    (hwork : Working (Working.cleared g (pageOf h (pageAddr startAddr i))) h m s')
    (hnew : ∀ j ∈ done, pageOf h (pageAddr startAddr i) ≠ pageOf h (pageAddr startAddr j)) :
    Clearing g₀ h m startAddr (done ++ [i])
      (Working.cleared g (pageOf h (pageAddr startAddr i))) s' := by
  refine ⟨hwork, hclearing.place, fun j hj => ?_, fun v hv => ?_⟩
  · obtain hj | hj := List.mem_append.mp hj
    · rw [Working.cleared_desc_of_ne (Ne.symm (hnew j hj)), hclearing.pages j hj]
    · rw [List.mem_singleton.mp hj, Working.cleared_desc_self, hclearing.others _ hnew]
  · simp only [List.mem_append, List.mem_singleton] at hv
    rw [Working.cleared_desc_of_ne (hv i (.inr rfl)),
      hclearing.others v fun j hj => hv j (.inl hj)]

/-- A private segment is being removed, from a state `s₀` on in which the page table of its first
page is in memory: the pages that are done gave back what they held, and nothing else changed. -/
structure Removing (g₀ : Layout) (s₀ : KernelSystem) (h m startAddr : Nat) (done : List Nat)
    (g : Layout) (s : KernelSystem) : Prop extends Clearing g₀ h m startAddr done g s where
  ot : s.ot = s₀.ot
  usEmpty : s.usEmpty = s₀.usEmpty ++
    done.flatMap fun i => givenFrame (g₀.desc (pageOf h (pageAddr startAddr i)))
  dvt : ∀ c, s.dvt c = true ↔ s₀.dvt c = true ∨
    ∃ i ∈ done, s₀.GivesCluster (g₀.desc (pageOf h (pageAddr startAddr i))) c
  userspc : s.userspc = s₀.userspc
  disk : s.disk = s₀.disk
  ksEmpty : s.ksEmpty = s₀.ksEmpty

/-- The pages of a range are private pages of a segment. -/
def PrivateRange (g : Layout) (h startAddr size : Nat) : Prop :=
  ∀ i < size, (g.desc (pageOf h (pageAddr startAddr i))).getInseg = true ∧
    (g.desc (pageOf h (pageAddr startAddr i))).getShared = false

namespace Removing

variable {g₀ g : Layout} {s₀ s : KernelSystem} {h m k startAddr size i : Nat} {done : List Nat}

theorem start (hwork : Working g₀ h m s₀) : Removing g₀ s₀ h m startAddr [] g₀ s₀ :=
  ⟨.start hwork, rfl, by simp, by simp, rfl, rfl, rfl⟩

theorem next {f : Nat} (doReleaseShared released : Bool)
    (hremoving : Removing g₀ s₀ h m startAddr done g s)
    (hk : g₀.place (.table h (slotOf startAddr)) = .frame k)
    (hf : g₀.place (.table h (slotOf (pageAddr startAddr i))) = .frame f)
    (hinseg : (g₀.desc (pageOf h (pageAddr startAddr i))).getInseg = true)
    (hshared : (g₀.desc (pageOf h (pageAddr startAddr i))).getShared = false)
    (hnew : ∀ j ∈ done, pageOf h (pageAddr startAddr i) ≠ pageOf h (pageAddr startAddr j)) :
    ∃ s', deletePage h startAddr doReleaseShared (released, s) i = .ok (released, s') ∧
      Removing g₀ s₀ h m startAddr (done ++ [i])
        (Working.cleared g (pageOf h (pageAddr startAddr i))) s' := by
  have hdesc := hremoving.others _ hnew
  obtain ⟨s', hdelete, hwork, hgives, hks⟩ := hremoving.working.deletePage_held
    doReleaseShared released (by rw [hremoving.place, hk])
    (by rw [hremoving.place, hf]) (by rw [hdesc, hinseg]) (by rw [hdesc, hshared])
  have hread : s.mem ⟨f, cellOf (pageAddr startAddr i)⟩ =
      g₀.desc (pageOf h (pageAddr startAddr i)) := by
    rw [hremoving.working.inv.mem_pageOf (by rw [hremoving.place, hf]), hdesc]
  refine ⟨s', hdelete, hremoving.toClearing.next hwork hnew, hgives.ot.trans hremoving.ot, ?_,
    fun c => ?_, hgives.userspc.trans hremoving.userspc, hgives.disk.trans hremoving.disk,
    hks.trans hremoving.ksEmpty⟩
  · rw [hgives.usEmpty, hremoving.usEmpty, hread, List.flatMap_append, List.append_assoc,
      List.flatMap_singleton]
  · rw [hgives.dvt, hremoving.dvt, hread]
    have hsame : s.GivesCluster (g₀.desc (pageOf h (pageAddr startAddr i))) c ↔
        s₀.GivesCluster (g₀.desc (pageOf h (pageAddr startAddr i))) c := by
      unfold GivesCluster
      rw [hremoving.ot]
    simp only [List.mem_append, List.mem_singleton, hsame, or_assoc]
    simp only [or_and_right, exists_or, exists_eq_left]

/-- The pages of a range that are done are others than the next one. -/
theorem new_page {rest : List Nat} (h startAddr : Nat) (hsize : size ≤ 16384)
    (hall : List.range size = done ++ i :: rest) :
    i < size ∧ ∀ j ∈ done, pageOf h (pageAddr startAddr i) ≠ pageOf h (pageAddr startAddr j) := by
  have hmem : ∀ j, j ∈ done ++ i :: rest → j < size := fun j hj => by
    rw [← hall] at hj
    exact List.mem_range.mp hj
  have hi : i < size := hmem i (by simp)
  refine ⟨hi, fun j hj heq => ?_⟩
  have hlt : j < size := hmem j (by simp [hj])
  obtain rfl : i = j := pageAddr_inj (by omega) (by omega) heq
  have hnodup : (done ++ i :: rest).Nodup := hall ▸ List.nodup_range
  exact (List.nodup_append.mp hnodup).2.2 i hj i (by simp) rfl

/-- With every page table in memory the loop over the pages comes to its end. -/
theorem finish (doReleaseShared released : Bool) (hsize : size ≤ 16384)
    (hprivate : PrivateRange g₀ h startAddr size)
    (htables : ∀ i < size, ∃ f, g₀.place (.table h (slotOf (pageAddr startAddr i))) = .frame f) :
    ∀ {rest done : List Nat} {g : Layout} {s : KernelSystem},
      Removing g₀ s₀ h m startAddr done g s → List.range size = done ++ rest →
      ∃ g' s', rest.foldlM (deletePage h startAddr doReleaseShared) (released, s) =
          .ok (released, s') ∧ Removing g₀ s₀ h m startAddr (List.range size) g' s'
  | [], done, g, s, hremoving, hall => by
      rw [List.append_nil] at hall
      exact ⟨g, s, rfl, hall ▸ hremoving⟩
  | i :: rest, done, g, s, hremoving, hall => by
      obtain ⟨hi, hnew⟩ := new_page h startAddr hsize hall
      obtain ⟨f, hf⟩ := htables i hi
      obtain ⟨k, hk⟩ := htables 0 (by omega)
      rw [slotOf_pageAddr_zero] at hk
      obtain ⟨s₁, hdelete, hremoving₁⟩ :=
        hremoving.next doReleaseShared released hk hf (hprivate i hi).1 (hprivate i hi).2 hnew
      obtain ⟨g', s', hloop, hremoved⟩ :=
        finish doReleaseShared released hsize hprivate htables hremoving₁ (by simpa using hall)
      refine ⟨g', s', ?_, hremoved⟩
      rw [List.foldlM_cons, hdelete, Outcome.ok_bind, hloop]

/-- Where the loop over the pages came to its end, every page table was in memory. -/
theorem tables {r : Bool × KernelSystem} {doReleaseShared released : Bool}
    (hk : g₀.place (.table h (slotOf startAddr)) = .frame k) (hsize : size ≤ 16384)
    (hprivate : PrivateRange g₀ h startAddr size) :
    ∀ {rest done : List Nat} {g : Layout} {s : KernelSystem},
      Removing g₀ s₀ h m startAddr done g s → List.range size = done ++ rest →
      rest.foldlM (deletePage h startAddr doReleaseShared) (released, s) = .ok r →
      ∀ i ∈ rest, ∃ f, g₀.place (.table h (slotOf (pageAddr startAddr i))) = .frame f
  | [], _, _, _, _, _, _ => nofun
  | i :: rest, done, g, s, hremoving, hall, hloop => by
      rw [List.foldlM_cons] at hloop
      obtain ⟨r₁, hdelete, hloop⟩ := Outcome.bind_ok hloop
      obtain ⟨hi, hnew⟩ := new_page h startAddr hsize hall
      obtain ⟨f, hf⟩ := hremoving.working.deletePage_table (by rw [hremoving.place, hk]) hdelete
      rw [hremoving.place] at hf
      obtain ⟨s₁, hdelete', hremoving₁⟩ := hremoving.next doReleaseShared released hk hf
        (hprivate i hi).1 (hprivate i hi).2 hnew
      cases hdelete.symm.trans hdelete'
      intro j hj
      obtain rfl | hj := List.mem_cons.mp hj
      · exact ⟨f, hf⟩
      · exact tables hk hsize hprivate hremoving₁ (by simpa using hall) hloop j hj

end Removing

namespace Working

variable {g : Layout} {s s₁ : KernelSystem} {h m f addr : Nat} {doReleaseShared : Bool}

/-- A page table that gets locked is brought in if it is out. -/
theorem pageTableLock_brought (hwork : Working g h m s)
    (hlock : s.pageTableLock h addr = .ok (f, s₁)) :
    ∃ g', Working g' h m s₁ ∧ OnlyPaged g s g' s₁ ∧ SameObjects s s₁ ∧
      g'.place (.table h (slotOf addr)) = .frame f ∧ (s₁.ksFt f).getLocked = true ∧
      BroughtIn (.table h (slotOf addr)) g s g' := by
  obtain ⟨hf, rfl⟩ | ⟨c, hc, hfetch, rfl⟩ :=
    hwork.inv.pageTableLock_cases hwork.sound hwork.master.1 hlock
  · obtain ⟨hinv', hpaged, hobjects⟩ := hwork.inv.ksLockPage_inv f
    exact ⟨g, hwork.carry hinv' hpaged id, hpaged, hobjects, hf, by simp [ksLockPage],
      .inl ⟨⟨f, hf⟩, rfl⟩⟩
  · obtain ⟨g', f, hinv', hpaged, hobjects, hin, hroom⟩ :=
      hwork.inv.fetchPageTable_inv hwork.master hc hfetch
    have hagree := hinv'.agrees hin.master.1 (slotOf addr)
    rw [hin.table] at hagree
    rw [hagree.2]
    exact ⟨g', hwork.carry hinv' hpaged id, hpaged, hobjects, hin.table, hin.locked,
      .inr ⟨by simp [hc], hroom⟩⟩

/-- A page that paging alone happened to is undisturbed. -/
theorem undisturbed {g₁ : Layout} {v : LPage} (hwork : Working g h m s)
    (hwork₁ : Working g₁ h m s₁) (hpaged : OnlyPaged g s g₁ s₁) (hv : s.HasMaster v.proc)
    (hv₁ : s₁.HasMaster v.proc) : s.Undisturbed s₁ v := by
  obtain ⟨_, hm⟩ := hwork.inv.hasMaster_iff.mp hv
  obtain ⟨_, hm₁⟩ := hwork₁.inv.hasMaster_iff.mp hv₁
  have hkept := hpaged.pages v id
  refine ⟨?_, ?_, fun hshared => ?_⟩
  · rw [hwork.inv.entry_eq hwork.sound hm, hwork₁.inv.entry_eq hwork₁.sound hm₁]
    exact hkept.sameRights
  · rw [hwork.inv.entry_eq hwork.sound hm, hwork₁.inv.entry_eq hwork₁.sound hm₁]
    exact hkept.2
  · rw [hwork.inv.entry_eq hwork.sound hm] at hshared ⊢
    rw [hwork₁.inv.entry_eq hwork₁.sound hm₁]
    exact KernelInv.desc_of_shared hkept hshared

/-- The first page is worked on as if its page table had been locked before. -/
theorem deletePage_locked {startAddr : Nat} {released : Bool} (hwork : Working g h m s)
    (hlock : s.pageTableLock h startAddr = .ok (f, s₁)) :
    deletePage h startAddr doReleaseShared (released, s) 0 =
      deletePage h startAddr doReleaseShared (released, s₁) 0 := by
  obtain ⟨g₁, hwork₁, -, -, hf, hlocked, -⟩ := hwork.pageTableLock_brought hlock
  have hused : (s.ptl1 ⟨m, slotCell (slotOf startAddr)⟩).status ≠
      PageTableL1Entry.statusUnused := by
    have hagree := hwork.inv.agrees hwork.master.1 (slotOf startAddr)
    obtain ⟨hk, -⟩ | ⟨c, hc, -⟩ := hwork.inv.pageTableLock_cases hwork.sound hwork.master.1 hlock
    · rw [hk] at hagree
      rw [hagree.1]
      decide
    · rw [hc] at hagree
      rw [hagree.1]
      decide
  have hused₁ : (s₁.ptl1 ⟨m, slotCell (slotOf startAddr)⟩).status ≠
      PageTableL1Entry.statusUnused := by
    have hagree := hwork₁.inv.agrees hwork₁.master.1 (slotOf startAddr)
    rw [hf] at hagree
    rw [hagree.1]
    decide
  have hlock₁ : s₁.pageTableLock h startAddr = .ok (f, s₁) := by
    rw [hwork₁.inv.pageTableLock_present hwork₁.master.1 hf, ksLockPage_locked hlocked]
  unfold deletePage
  simp only [hwork.inv.accessPtl1_eq hwork.master.1, hwork₁.inv.accessPtl1_eq hwork₁.master.1,
    deref, Outcome.ok_bind, slotOf_pageAddr_zero, if_neg hused, if_neg hused₁, hlock, hlock₁]

/-- So is a segment that has a page. -/
theorem deleteSegmentInd_locked {n : Fin 192} (hwork : Working g h m s)
    (hpages : (g.segment h n).getLength ≠ 0)
    (hlock : s.pageTableLock h ((g.segment h n).start * pageSize) = .ok (f, s₁)) :
    s.deleteSegmentInd h n doReleaseShared = s₁.deleteSegmentInd h n doReleaseShared := by
  obtain ⟨g₁, hwork₁, hpaged, -, -, -, -⟩ := hwork.pageTableLock_brought hlock
  obtain ⟨p, hp, -, hat⟩ := hwork.inv.pcb_ok hwork.master.1
  obtain ⟨p₁, hp₁, -, hat₁⟩ := hwork₁.inv.pcb_ok hwork₁.master.1
  have hsegment : g₁.segment h n = g.segment h n :=
    congrArg PageTableL2Entry.toSeg (hpaged.segs h n id)
  obtain ⟨size, hsize⟩ := Nat.exists_eq_succ_of_ne_zero hpages
  unfold deleteSegmentInd
  simp only [hp, hp₁, Outcome.ok_bind, KernelInv.index_ste hat, KernelInv.index_ste hat₁,
    hwork.inv.ste_eq hwork.master.1, hwork₁.inv.ste_eq hwork₁.master.1, hsegment, hsize,
    Nat.succ_eq_add_one, List.range_succ_eq_map, List.foldlM_cons, hwork.deletePage_locked hlock]

end Working

namespace KernelSystem

/-- The process has its master table in memory, in a locked frame. -/
def MasterLocked (s : KernelSystem) (h : Nat) : Prop :=
  ∃ p, s.pcbs h = some p ∧ p.masterTableValid = true ∧ (s.ksFt p.masterTable).getLocked = true

instance (s : KernelSystem) (h : Nat) : Decidable (s.MasterLocked h) :=
  decidable_of_iff ((s.pcbs h).any (fun p =>
    p.masterTableValid && (s.ksFt p.masterTable).getLocked) = true) <| by
      simp [MasterLocked, Option.any_eq_true]

/-- A page of a private segment. -/
def OwnPage (s : KernelSystem) (v : LPage) : Prop :=
  ∃ d, s.descriptor v = some d ∧ d.getInseg = true ∧ d.getShared = false

instance (s : KernelSystem) (v : LPage) : Decidable (s.OwnPage v) :=
  decidable_of_iff ((s.descriptor v).any (fun d => d.getInseg && !d.getShared) = true) <| by
    simp [OwnPage, Option.any_eq_true]

/-- The pages of an entry of the segment table are pages of a private segment. -/
def PrivatePages (s : KernelSystem) (h : Nat) (e : SegTableEntry) : Prop :=
  ∀ i < e.getLength, s.OwnPage (entryPage e h i)

instance (s : KernelSystem) (h : Nat) (e : SegTableEntry) : Decidable (s.PrivatePages h e) :=
  inferInstanceAs (Decidable (∀ i < e.getLength, _))

/-- The page table of the first page of a segment is brought in. -/
def firstTableIn (s : KernelSystem) (h : Nat) (e : SegTableEntry) : Except Halt KernelSystem :=
  if e.getLength = 0 then .ok s
  else do
    let (_, s) ← s.pageTableLock h (e.start * pageSize)
    .ok s

/-- The page table of a slot is in memory. -/
def TablePresent (s : KernelSystem) (h : Nat) (slot : Fin 64) : Prop :=
  ∃ t, s.slotEntry h slot = some t ∧ t.status = PageTableL1Entry.statusPresent

instance (s : KernelSystem) (h : Nat) (slot : Fin 64) : Decidable (s.TablePresent h slot) :=
  decidable_of_iff ((s.slotEntry h slot).any (fun t =>
    decide (t.status = PageTableL1Entry.statusPresent)) = true) <| by
      simp [TablePresent, Option.any_eq_true]

/-- A page table is in memory and stays there when that of slot `first` is brought in: this one
is in memory as well, or another frame would be evicted for it. -/
def TableStays (s : KernelSystem) (h : Nat) (first slot : Fin 64) : Prop :=
  ∃ t, s.slotEntry h slot = some t ∧ t.status = PageTableL1Entry.statusPresent ∧
    (s.TablePresent h first ∨ s.victimFrame ≠ some t.block)

instance (s : KernelSystem) (h : Nat) (first slot : Fin 64) :
    Decidable (s.TableStays h first slot) :=
  decidable_of_iff ((s.slotEntry h slot).any (fun t =>
    decide (t.status = PageTableL1Entry.statusPresent) &&
      (decide (s.TablePresent h first) || decide (s.victimFrame ≠ some t.block))) = true) <| by
      simp [TableStays, Option.any_eq_true]

/-- Every page table of the segment but the first is in memory and stays there. -/
def OthersStay (s : KernelSystem) (h : Nat) (e : SegTableEntry) : Prop :=
  ∀ i < e.getLength, (entryPage e h i).slot ≠ slotOf (e.start * pageSize) →
    s.TableStays h (slotOf (e.start * pageSize)) (entryPage e h i).slot

instance (s : KernelSystem) (h : Nat) (e : SegTableEntry) : Decidable (s.OthersStay h e) :=
  inferInstanceAs (Decidable (∀ i < e.getLength, _))

/-- The pages of an entry have left their segment, and what they held is free: the frame of each
resident page, and the cluster of each page that had one. Nothing else is free that was not
before, and no other page changed. -/
structure GivenBack (s : KernelSystem) (h : Nat) (e : SegTableEntry) (s' : KernelSystem) :
    Prop where
  cleared : ∀ i < e.getLength,
    s'.entry (entryPage e h i) = (s.entry (entryPage e h i)).setFlags 0#8
  others : ∀ u, s.HasMaster u.proc → (∀ i < e.getLength, u ≠ entryPage e h i) →
    s'.entry u = s.entry u ∧ s'.content (s'.entry u) = s.content (s.entry u)
  frames : s'.usEmpty = s.usEmpty ++
    (List.range e.getLength).flatMap fun i => givenFrame (s.entry (entryPage e h i))
  once : s'.usEmpty.Nodup
  clusters : ∀ c, s'.dvt c = true ↔
    s.dvt c = true ∨ ∃ i < e.getLength, s.GivesCluster (s.entry (entryPage e h i)) c
  apart : ∀ i < e.getLength, ∀ j < e.getLength, ∀ c,
    s.GivesCluster (s.entry (entryPage e h i)) c →
    s.GivesCluster (s.entry (entryPage e h j)) c → i = j
  kernel : s'.ksEmpty = s.ksEmpty

/-- `delete_segment_ind` comes to an end and gives back what the segment held. Whatever is
evicted for the page table of its first page, no page is disturbed by that. -/
def Removes (s : KernelSystem) (h : Nat) (n : Fin 192) (e : SegTableEntry)
    (doReleaseShared : Bool) : Prop :=
  ∃ s₁ s', s.firstTableIn h e = .ok s₁ ∧
    (∀ v, s.HasMaster v.proc → s₁.HasMaster v.proc → s.Undisturbed s₁ v) ∧
    s.deleteSegmentInd h n doReleaseShared = .ok s' ∧ s₁.GivenBack h e s'

end KernelSystem

namespace Working

variable {g : Layout} {s : KernelSystem} {h m : Nat} {n : Fin 192} {doReleaseShared : Bool}

theorem segment_size (e : SegTableEntry) : e.getLength ≤ 16384 :=
  Nat.le_of_lt (e.getLength_lt.trans_le (by decide))

/-- The end of `delete_segment_ind`, after the loop over the pages: the entry becomes free, and
one segment less is counted. -/
theorem deleteSegmentInd_end {g₁ : Layout} {s₁ : KernelSystem} {released : Bool}
    (hwork : Working g h m s)
    (hloop : (List.range (g.segment h n).getLength).foldlM
      (deletePage h ((g.segment h n).start * pageSize) doReleaseShared) (false, s) =
      .ok (released, s₁))
    (hwork₁ : Working g₁ h m s₁) :
    ∃ s', s.deleteSegmentInd h n doReleaseShared = .ok s' ∧
      Working (g₁.setSegment h n ((g₁.segment h n).setKind .free)) h m s' ∧
      s'.usEmpty = s₁.usEmpty ∧ s'.dvt = s₁.dvt ∧ s'.userspc = s₁.userspc ∧
      s'.disk = s₁.disk ∧ s'.ksEmpty = s₁.ksEmpty := by
  obtain ⟨p, hp, -, hat⟩ := hwork.inv.pcb_ok hwork.master.1
  obtain ⟨p₁, hp₁, hpcb₁, hat₁⟩ := hwork₁.inv.pcb_ok hwork₁.master.1
  obtain ⟨hwork₂, -, -⟩ := hwork₁.counted (n := n)
    (e := (g₁.segment h n).setKind .free) hpcb₁ ((p₁.segCount + (2 ^ 32 - 1)) % 2 ^ 32)
  refine ⟨_, ?_, hwork₂, rfl, rfl, rfl, rfl, rfl⟩
  unfold deleteSegmentInd
  simp only [hp, Outcome.ok_bind, KernelInv.index_ste hat, hwork.inv.ste_eq hwork.master.1,
    hloop, hp₁, KernelInv.index_ste hat₁, hwork₁.inv.ste_eq hwork₁.master.1]

/-- With every page table of the segment in memory, what the segment held is given back. -/
theorem removes (doReleaseShared : Bool) (hwork : Working g h m s)
    (hprivate : PrivateRange g h ((g.segment h n).start * pageSize) (g.segment h n).getLength)
    (htables : ∀ i < (g.segment h n).getLength,
      ∃ f, g.place (.table h (entryPage (g.segment h n) h i).slot) = .frame f) :
    ∃ s', s.deleteSegmentInd h n doReleaseShared = .ok s' ∧
      s.GivenBack h (g.segment h n) s' := by
  obtain ⟨g₁, s₁, hloop, hremoving⟩ := Removing.finish doReleaseShared false (segment_size _)
    hprivate htables (.start hwork) (List.nil_append _).symm
  obtain ⟨s', hdelete, hwork', husEmpty, hdvt, huserspc, hdisk, hksEmpty⟩ :=
    hwork.deleteSegmentInd_end hloop hremoving.working
  have hbefore : ∀ u, s.HasMaster u.proc → s.entry u = g.desc u := fun u hu => by
    obtain ⟨m', hm'⟩ := hwork.inv.hasMaster_iff.mp hu
    exact hwork.inv.entry_eq hwork.sound hm'
  have hafter : ∀ u, s.HasMaster u.proc → s'.entry u = g₁.desc u := fun u hu => by
    obtain ⟨m', hm'⟩ := hwork.inv.hasMaster_iff.mp hu
    have hplace : (g₁.setSegment h n ((g₁.segment h n).setKind .free)).place (.master u.proc) =
        .frame m' := by
      rw [Layout.setSegment_place, hremoving.place, hm']
    rw [hwork'.inv.entry_eq hwork'.sound hplace, Layout.setSegment_desc]
  have hmine : s.HasMaster h := hwork.inv.hasMaster_iff.mpr ⟨m, hwork.master.1⟩
  have hown : ∀ i, s.entry (entryPage (g.segment h n) h i) =
      g.desc (pageOf h (pageAddr ((g.segment h n).start * pageSize) i)) :=
    fun i => hbefore _ hmine
  refine ⟨s', hdelete, fun i hi => ?_, fun u hu hother => ?_, ?_, hwork'.inv.user.frames.nodup,
    fun c => ?_, fun i hi j hj c hgives hgives' => ?_, hksEmpty.trans hremoving.ksEmpty⟩
  · rw [hafter _ hmine, hown]
    exact hremoving.pages i (List.mem_range.mpr hi)
  · rw [hafter u hu, hbefore u hu,
      hremoving.others u fun i hi => hother i (List.mem_range.mp hi)]
    refine ⟨rfl, ?_⟩
    unfold content
    rw [huserspc, hdisk, hremoving.userspc, hremoving.disk]
  · simp only [hown]
    exact husEmpty.trans hremoving.usEmpty
  · simp only [hown, hdvt, hremoving.dvt, List.mem_range]
  · rw [hown, givesCluster_iff (hprivate i hi).2 (hprivate i hi).1] at hgives
    rw [hown, givesCluster_iff (hprivate j hj).2 (hprivate j hj).1] at hgives'
    have hsame := hwork.inv.user.clusters.ledger.inj (r := .page (entryPage (g.segment h n) h i))
      (q := .page (entryPage (g.segment h n) h j)) (c := c) hgives hgives'
    injection hsame with hsame
    have hsize := segment_size (g.segment h n)
    exact pageAddr_inj (by omega) (by omega) hsame

/-- Where the removal comes to its end, the page tables are in memory from the time on at which
that of the first page is. -/
theorem removed_tables {s' : KernelSystem} {k : Nat} (hwork : Working g h m s)
    (hk : g.place (.table h (slotOf ((g.segment h n).start * pageSize))) = .frame k)
    (hprivate : PrivateRange g h ((g.segment h n).start * pageSize) (g.segment h n).getLength)
    (hdelete : s.deleteSegmentInd h n doReleaseShared = .ok s') :
    ∀ i < (g.segment h n).getLength,
      ∃ f, g.place (.table h (entryPage (g.segment h n) h i).slot) = .frame f := by
  obtain ⟨p, hp, -, hat⟩ := hwork.inv.pcb_ok hwork.master.1
  unfold deleteSegmentInd at hdelete
  simp only [hp, Outcome.ok_bind, KernelInv.index_ste hat,
    hwork.inv.ste_eq hwork.master.1] at hdelete
  obtain ⟨r, hloop, -⟩ := Outcome.bind_ok hdelete
  intro i hi
  exact Removing.tables hk (segment_size _) hprivate (.start hwork) (List.nil_append _).symm hloop i
    (List.mem_range.mpr hi)

/-- The page tables of a segment that are in memory once that of its first page is. -/
theorem othersStay_iff {g₁ : Layout} {k : Nat} {e : SegTableEntry} (hwork : Working g h m s)
    (hk : g₁.place (.table h (slotOf (e.start * pageSize))) = .frame k)
    (hbrought : BroughtIn (.table h (slotOf (e.start * pageSize))) g s g₁) :
    s.OthersStay h e ↔
      ∀ i < e.getLength, ∃ f, g₁.place (.table h (entryPage e h i).slot) = .frame f := by
  have hslot : ∀ slot, ∃ t, s.slotEntry h slot = some t ∧ L1Agrees (g.place (.table h slot)) t :=
    fun slot => hwork.inv.slotEntry_agrees slot (KernelInv.not_noMaster hwork.master.1)
  have hpresent : s.TablePresent h (slotOf (e.start * pageSize)) ↔
      ∃ f, g.place (.table h (slotOf (e.start * pageSize))) = .frame f := by
    obtain ⟨t, ht, hagree⟩ := hslot (slotOf (e.start * pageSize))
    constructor
    · rintro ⟨t', ht', hstatus⟩
      cases ht.symm.trans ht'
      exact ⟨_, hagree.present hstatus⟩
    · rintro ⟨f, hf⟩
      rw [hf] at hagree
      exact ⟨t, ht, hagree.1⟩
  refine forall_congr' fun i => imp_congr_right fun hi => ?_
  by_cases hfirst : (entryPage e h i).slot = slotOf (e.start * pageSize)
  · rw [hfirst]
    exact iff_of_true (fun hne => absurd rfl hne) ⟨k, hk⟩
  have htable : KTable.table h (entryPage e h i).slot ≠ .table h (slotOf (e.start * pageSize)) :=
    fun heq => hfirst (KTable.table.inj heq).2
  obtain ⟨t, ht, hagree⟩ := hslot (entryPage e h i).slot
  rw [TableStays, hpresent]
  constructor
  · intro hstays
    obtain ⟨t', ht', hstatus, hspared⟩ := hstays hfirst
    cases ht.symm.trans ht'
    have hf := hagree.present hstatus
    refine ⟨t.block, ?_⟩
    obtain ⟨_, hsame⟩ | ⟨hout, hroom⟩ := hbrought
    · rw [hsame, hf]
    · rw [hroom.stay _ htable fun hmakes => ?_, hf]
      exact (hspared.resolve_left fun ⟨f, hf⟩ => hout f hf)
        ((KernelInv.makesRoom_table hwork.master hf).mp hmakes)
  · rintro ⟨f, hf⟩ -
    have hwas := hbrought.was htable hf
    rw [hwas] at hagree
    refine ⟨t, ht, hagree.1, ?_⟩
    obtain ⟨hin, _⟩ | ⟨_, hroom⟩ := hbrought
    · exact .inl hin
    · right
      rw [hagree.2]
      exact fun hvictim =>
        hroom.gone _ htable ((KernelInv.makesRoom_table hwork.master hwas).mpr hvictim) f hf

/-- A segment is removed as if the page table of its first page had been brought in before, and
then its page tables are in memory if the others were and stay there. -/
theorem firstTableIn_brought {s₁ : KernelSystem} (doReleaseShared : Bool) (hwork : Working g h m s)
    (hfirst : s.firstTableIn h (g.segment h n) = .ok s₁)
    (hstay : s.OthersStay h (g.segment h n)) :
    ∃ g₁, Working g₁ h m s₁ ∧ OnlyPaged g s g₁ s₁ ∧ SameObjects s s₁ ∧
      s.deleteSegmentInd h n doReleaseShared = s₁.deleteSegmentInd h n doReleaseShared ∧
      ∀ i < (g.segment h n).getLength,
        ∃ f, g₁.place (.table h (entryPage (g.segment h n) h i).slot) = .frame f := by
  by_cases hnone : (g.segment h n).getLength = 0
  · rw [firstTableIn, if_pos hnone] at hfirst
    cases hfirst
    exact ⟨g, hwork, .refl g s, .refl s, rfl, fun i hi => by omega⟩
  · rw [firstTableIn, if_neg hnone] at hfirst
    obtain ⟨⟨f, _⟩, hlock, hret⟩ := Outcome.bind_ok hfirst
    cases hret
    obtain ⟨g₁, hwork₁, hpaged, hobjects, hf, -, hbrought⟩ := hwork.pageTableLock_brought hlock
    exact ⟨g₁, hwork₁, hpaged, hobjects, hwork.deleteSegmentInd_locked hnone hlock,
      (hwork.othersStay_iff hf hbrought).mp hstay⟩

end Working

/-- The removal of a private segment gives back what its pages held, and comes to an end, just
when the page table of its first page can be brought in and its other page tables are in memory,
and stay there meanwhile. -/
theorem segment_gives_back {s : KernelSystem} {h : Nat} {n : Fin 192} {e : SegTableEntry}
    {doReleaseShared : Bool} (hcons : s.Consistent) (hlocked : s.MasterLocked h)
    (hentry : s.segmentEntry h n = some e) (hpages : s.PrivatePages h e) :
    s.Removes h n e doReleaseShared ↔
      (∃ s₁, s.firstTableIn h e = .ok s₁) ∧ s.OthersStay h e := by
  obtain ⟨g, hinv, hsound⟩ := hcons
  obtain ⟨p, hp, hvalid, hl⟩ := hlocked
  obtain ⟨m, hm, hat⟩ := hinv.at_of_valid hp hvalid
  have hwork : Working g h m s := ⟨hinv, hsound, hm, hat.masterTable ▸ hl⟩
  rw [hinv.segmentEntry_eq (KernelInv.not_noMaster hm)] at hentry
  obtain rfl := Option.some.inj hentry
  have hprivate : PrivateRange g h ((g.segment h n).start * pageSize)
      (g.segment h n).getLength := fun i hi => by
    obtain ⟨d, hd, hin⟩ := hpages i hi
    obtain rfl := hinv.desc_of_descriptor hsound hm hd
    exact hin
  by_cases hnone : (g.segment h n).getLength = 0
  · obtain ⟨s', hdelete, hgiven⟩ := hwork.removes doReleaseShared hprivate
      (fun i hi => by omega)
    have hfirst : s.firstTableIn h (g.segment h n) = .ok s := if_pos hnone
    exact iff_of_true ⟨s, s', hfirst, fun v _ _ => ⟨.refl _, rfl, fun _ => rfl⟩, hdelete, hgiven⟩
      ⟨⟨s, hfirst⟩, fun i hi => by omega⟩
  have hlock : ∀ {s₁}, s.firstTableIn h (g.segment h n) = .ok s₁ →
      ∃ f, s.pageTableLock h ((g.segment h n).start * pageSize) = .ok (f, s₁) := by
    intro s₁ hfirst
    rw [firstTableIn, if_neg hnone] at hfirst
    obtain ⟨⟨f, _⟩, hlock, hret⟩ := Outcome.bind_ok hfirst
    cases hret
    exact ⟨f, hlock⟩
  have hsame : ∀ {g₁ s₁}, OnlyPaged g s g₁ s₁ → g₁.segment h n = g.segment h n ∧
      PrivateRange g₁ h ((g.segment h n).start * pageSize) (g.segment h n).getLength :=
    fun hpaged => ⟨congrArg PageTableL2Entry.toSeg (hpaged.segs h n id), fun i hi =>
      have hrights := (hpaged.pages _ id).sameRights
      ⟨hrights.inseg.trans (hprivate i hi).1, hrights.shared.trans (hprivate i hi).2⟩⟩
  constructor
  · rintro ⟨s₁, s', hfirst, -, hdelete, -⟩
    refine ⟨⟨s₁, hfirst⟩, ?_⟩
    obtain ⟨f, hlock⟩ := hlock hfirst
    obtain ⟨g₁, hwork₁, hpaged, -, hf, -, hbrought⟩ := hwork.pageTableLock_brought hlock
    obtain ⟨hsegment, hprivate₁⟩ := hsame hpaged
    rw [hwork.deleteSegmentInd_locked hnone hlock] at hdelete
    rw [← hsegment] at hf hprivate₁ hbrought ⊢
    rw [hwork.othersStay_iff hf hbrought]
    exact hwork₁.removed_tables hf hprivate₁ hdelete
  · rintro ⟨⟨s₁, hfirst⟩, hstay⟩
    obtain ⟨f, hlock⟩ := hlock hfirst
    obtain ⟨g₁, hwork₁, hpaged, -, hf, -, hbrought⟩ := hwork.pageTableLock_brought hlock
    obtain ⟨hsegment, hprivate₁⟩ := hsame hpaged
    rw [hwork.othersStay_iff hf hbrought] at hstay
    rw [← hsegment] at hprivate₁ hstay
    obtain ⟨s', hdelete, hgiven⟩ :=
      hwork₁.removes doReleaseShared hprivate₁ hstay
    rw [hsegment] at hgiven
    refine ⟨s₁, s', hfirst, fun v hv hv₁ => hwork.undisturbed hwork₁ hpaged hv hv₁, ?_, hgiven⟩
    rw [hwork.deleteSegmentInd_locked hnone hlock, hdelete]

namespace KernelSystem

/-- Locking the master table of a process that has it in memory. -/
theorem Consistent.masterTableLock {s s' : KernelSystem} {h f : Nat} (hcons : s.Consistent)
    (hmaster : s.HasMaster h) (hlock : s.masterTableLock h = .ok (f, s')) : s'.Consistent := by
  obtain ⟨g, hinv, hsound⟩ := hcons
  obtain ⟨m, hm⟩ := hinv.hasMaster_iff.mp hmaster
  rw [hinv.masterTableLock_ok hm] at hlock
  cases hlock
  exact ⟨g, (hinv.working hsound hm).1.inv, hsound⟩

end KernelSystem

/-- A process with a segment of two pages, on either side of the end of its first page table, in
a kernel with three frames: another process is created, and then the segment is worked on. -/
def straddling (dice : List Nat) : Option KernelSystem :=
  (KernelOp.runSmall KernelOp.settling 1 3 4 dice
      [.createProcess, .createSegment 0 (255 * 1024) 2 .read, .createProcess]).bind fun r =>
    if r.1.userspcSize ≤ 65536 ∧ r.1.krnlspcSize ≤ 65536 ∧ r.2.HasMaster 0 then
      (r.2.masterTableLock 0).toOption.map Prod.snd
    else none

theorem straddling_consistent {dice : List Nat} {s : KernelSystem}
    (hmade : straddling dice = some s) : s.Consistent := by
  obtain ⟨⟨start, s₀⟩, hr, hrest⟩ := Option.bind_eq_some_iff.mp hmade
  obtain ⟨⟨huser, hkrnl, hmaster⟩, hrest⟩ := Option.ite_none_right_eq_some.mp hrest
  obtain ⟨⟨f, s₁⟩, hlock, heq⟩ := Option.map_eq_some_iff.mp hrest
  cases heq
  exact (KernelOp.consistent_of_settling hr huser hkrnl).masterTableLock hmaster
    (Outcome.toOption_ok hlock)

/-- The first page table is out, and is brought in to the place of another process's. -/
theorem segment_gives_back_straddling : ∃ (s : KernelSystem) (e : SegTableEntry),
    ¬ s.TablePresent 0 0 ∧ s.Removes 0 0 e true := by
  have hmade : (straddling [1, 1, 1, 1]).any (fun s => decide (s.MasterLocked 0) &&
      (s.segmentEntry 0 0).any fun e => decide (s.PrivatePages 0 e) &&
        decide (¬ s.TablePresent 0 0) && decide (s.OthersStay 0 e) &&
          Outcome.holds (s.firstTableIn 0 e) fun _ => true) = true := by
    decide +kernel
  obtain ⟨s, hs, hcheck⟩ := (Option.any_eq_true _ _).mp hmade
  simp only [Bool.and_eq_true, decide_eq_true_eq] at hcheck
  obtain ⟨hlocked, hrest⟩ := hcheck
  obtain ⟨e, he, hrest⟩ := (Option.any_eq_true _ _).mp hrest
  simp only [Bool.and_eq_true, decide_eq_true_eq] at hrest
  obtain ⟨⟨⟨hpages, hout⟩, hstay⟩, hfirst⟩ := hrest
  obtain ⟨s₁, hfirst, -⟩ := Outcome.of_holds hfirst
  exact ⟨s, e, hout, (segment_gives_back (straddling_consistent hs) hlocked he hpages).mpr
    ⟨⟨s₁, hfirst⟩, hstay⟩⟩

/-- The second page table is out, and is never brought in. -/
theorem segment_not_given_back : ¬ ∀ (s : KernelSystem) (h : Nat) (n : Fin 192)
    (e : SegTableEntry) (doReleaseShared : Bool), s.Consistent → s.MasterLocked h →
    s.segmentEntry h n = some e → s.PrivatePages h e → s.Removes h n e doReleaseShared := by
  intro hall
  have hmade : (straddling [2, 1, 1, 1]).any (fun s => decide (s.MasterLocked 0) &&
      (s.segmentEntry 0 0).any fun e => decide (s.PrivatePages 0 e) &&
        !Outcome.holds (s.deleteSegmentInd 0 (0 : Fin 192) true) fun _ => true) = true := by
    decide +kernel
  obtain ⟨s, hs, hcheck⟩ := (Option.any_eq_true _ _).mp hmade
  simp only [Bool.and_eq_true, decide_eq_true_eq] at hcheck
  obtain ⟨hlocked, hrest⟩ := hcheck
  obtain ⟨e, he, hrest⟩ := (Option.any_eq_true _ _).mp hrest
  simp only [Bool.and_eq_true, decide_eq_true_eq] at hrest
  obtain ⟨hpages, hstops⟩ := hrest
  obtain ⟨_, s', _, _, hdelete, _⟩ :=
    hall s 0 0 e true (straddling_consistent hs) hlocked he hpages
  rw [hdelete] at hstops
  cases hstops

end VirtualMemory
