import VirtualMemory.PrivateFaults
import VirtualMemory.SegmentRanges

/-!
# Faults on shared pages

A fault on a page of a mapping goes on to the dummy process of the segment, once the page
table of the mapping is in memory. The dummy's own page table may have to be brought in, and
for that any table can be evicted that is not locked with its master table; the page table
that the fault has just brought in is one of these.
-/

namespace VirtualMemory

open Function UserSpace KernelSystem PageTableL2Entry

namespace KernelSystem

/-- `page_fault` up to the descriptor. -/
def faultTable (s : KernelSystem) (h addr : Nat) : Except Halt (KAddr × KernelSystem) := do
  let (_, s) ← s.masterTableLock h
  let ptl1e ← deref (← s.accessPtl1 h addr)
  if (s.ptl1 ptl1e).status = PageTableL1Entry.statusUnused then .error .masterTableError
  else s.faultPtl2 h addr ptl1e

/-- An address of the process with id `pid`, in a page of a mapping whose descriptor is `e`:
the dummy `d` of the segment is another process, and has the page. -/
structure SharedPage (s : KernelSystem) (h pid addr : Nat) (e : PageTableL2Entry) (d : Nat) :
    Prop where
  consistent : s.Consistent
  process : s.pcbVec.atIndex pid = .ok (some h)
  master : s.HasMaster h
  descriptor : s.descriptor (pageOf h addr) = some e
  inseg : e.getInseg = true
  shared : e.getShared = true
  segment : s.ssegVec.atIndex e.ssegInd.toNat = .ok d
  other : d ≠ h
  page : ∃ e', s.descriptor (pageOf d (ssegAddr e addr)) = some e' ∧ e'.getInseg = true ∧
    e'.getShared = false

/-- Every access that the mapping's rights `e` allow succeeds. -/
def SharedServed (s : KernelSystem) (pid addr : Nat) (e : PageTableL2Entry) : Prop :=
  ∀ depth type, accessIsOk type.code e.getAccess = true →
    ∃ s', access (depth + 2) s pid addr type false = .ok (.ok, s')

/-- Bringing in the page table of an address of process `d`, if it is out, evicts another
frame than `k`. -/
def FetchSpares (s : KernelSystem) (d addr k : Nat) : Prop :=
  (∃ e, s.slotEntry d (slotOf addr) = some e ∧ e.status = PageTableL1Entry.statusPresent) ∨
    ∀ p, s.pcbs d = some p → (s.ksLockPage p.masterTable).victimFrame ≠ some k

end KernelSystem

namespace KernelInv

variable {g : Layout} {s s' : KernelSystem} {h d addr m depth : Nat}

/-- The frame that would be evicted is not locked. -/
theorem victimFrame_unlocked {k : Nat} (hvictim : s.victimFrame = some k) :
    (s.ksFt k).getLocked = false := by
  unfold victimFrame at hvictim
  split at hvictim
  · obtain ⟨⟨victim, s₁⟩, hfound, rfl⟩ := Option.map_eq_some_iff.mp hvictim
    exact (ksGetVictim_ok (Outcome.toOption_ok hfound)).1
  · cases hvictim

/-- A page table of a process whose master table is locked makes room just when it is in the
frame that is evicted. -/
theorem makesRoom_table {slot : Fin 64} {f : Nat} (hm : LockedIn g s (.master h) m)
    (hf : g.place (.table h slot) = .frame f) :
    MakesRoom g s (.table h slot) ↔ s.victimFrame = some f := by
  constructor
  · rintro ⟨k, hk, hplace | ⟨h', slot', heq, hmaster⟩⟩
    · cases hf.symm.trans hplace
      exact hk
    · cases heq
      cases hm.1.symm.trans hmaster
      cases hm.2.symm.trans (victimFrame_unlocked hk)
  · intro hk
    exact ⟨f, hk, .inl hf⟩

/-- A shared page is not resident under its own descriptor, which no paging touches. -/
theorem desc_of_shared {e e' : PageTableL2Entry} {us us' : UserSpace KAddr}
    (hkept : Kept us e us' e') (hshared : e.getShared = true) : e' = e :=
  hkept.desc_eq fun hr => by simp [hr.1] at hshared

/-- A fault on a shared page is one on the dummy's page, once the page table of the mapping is
in memory. -/
theorem sharedFault_ok (hinv : KernelInv g noHand noHand s) (hsound : g.Sound)
    (hm : g.place (.master h) = .frame m) (hshared : (g.desc (pageOf h addr)).getShared = true)
    (hdummy : s.ssegVec.atIndex (g.desc (pageOf h addr)).ssegInd.toNat = .ok d)
    (hfault : pageFault depth s h addr = .ok s') :
    ∃ depth' g₁ s₁ f s₂, depth = depth' + 1 ∧ Working g₁ h m s₁ ∧ OnlyPaged g s g₁ s₁ ∧
      SameObjects s s₁ ∧ g₁.place (.table h (slotOf addr)) = .frame f ∧
      BroughtIn (.table h (slotOf addr)) g (s.ksLockPage m) g₁ ∧
      s.faultTable h addr = .ok (⟨f, cellOf addr⟩, s₁) ∧
      pageFault depth' s₁ d (ssegAddr (g.desc (pageOf h addr)) addr) = .ok s₂ ∧
      s' = s₂.pageUnlock m := by
  cases depth with
  | zero => cases hfault
  | succ depth' =>
      obtain ⟨hwork, hlock, hobjects⟩ := hinv.working hsound hm
      have htable : s.faultTable h addr =
          if ((s.ksLockPage m).ptl1 ⟨m, slotCell (slotOf addr)⟩).status =
            PageTableL1Entry.statusUnused then .error .masterTableError
          else (s.ksLockPage m).faultPtl2 h addr ⟨m, slotCell (slotOf addr)⟩ := by
        simp only [faultTable, hinv.masterTableLock_ok hm, Outcome.ok_bind,
          hwork.inv.accessPtl1_eq hm, deref]
      unfold pageFault at hfault
      simp only [hinv.masterTableLock_ok hm, Outcome.ok_bind, hwork.inv.accessPtl1_eq hm,
        deref] at hfault
      split at hfault
      · cases hfault
      · rename_i hused
        obtain ⟨⟨ptl2e, s₁⟩, hptl2, hrest⟩ := Outcome.bind_ok hfault
        obtain ⟨s₂, hentry, hret⟩ := Outcome.bind_ok hrest
        obtain ⟨g₁, f, hwork₁, hpaged, hobjects₁, hf, rfl, hbrought⟩ := hwork.faultPtl2_ok hptl2
        have hdesc : g₁.desc (pageOf h addr) = g.desc (pageOf h addr) :=
          desc_of_shared ((hlock.trans hpaged).pages _ id) hshared
        unfold faultEntry at hentry
        rw [hwork₁.inv.mem_pageOf hf, hdesc, if_pos hshared, hobjects₁.ssegVec, hobjects.ssegVec,
          hdummy] at hentry
        rw [if_neg hused] at htable
        exact ⟨depth', g₁, s₁, f, s₂, rfl, hwork₁, hlock.trans hpaged, hobjects.trans hobjects₁,
          hf, hbrought, htable.trans hptl2, hentry, (Except.ok.inj hret).symm⟩

/-- What a fault on a shared page may unlock. -/
def ReleasedBoth (h d : Nat) (t : KTable) : Prop := Released h t ∨ Released d t

/-- A fault on a shared page, when the dummy's master table is in memory once the page table
of the mapping is: the dummy's page is resident afterwards. -/
theorem sharedFault_inv {s₁ s₂ : KernelSystem} {g₁ : Layout} {md addr' : Nat} (hne : d ≠ h)
    (hwork : Working g₁ h m s₁) (hpaged : OnlyPaged g s g₁ s₁) (hobjects : SameObjects s s₁)
    (hmd : g₁.place (.master d) = .frame md)
    (hinseg : (g.desc (pageOf d addr')).getInseg = true)
    (hprivate : (g.desc (pageOf d addr')).getShared = false)
    (hfault : pageFault depth s₁ d addr' = .ok s₂) :
    ∃ g', KernelInv g' noHand noHand (s₂.pageUnlock m) ∧ g'.place (.master h) = .frame m ∧
      g'.place (.master d) = .frame md ∧
      Carried (ReleasedBoth h d) (fun _ => False) (· = pageOf d addr') g s g' (s₂.pageUnlock m) ∧
      SameObjects s (s₂.pageUnlock m) ∧
      Faulted s (g.desc (pageOf d addr')) (s₂.pageUnlock m) (g'.desc (pageOf d addr')) ∧
      BroughtIn (.table d (slotOf addr')) g₁ (s₁.ksLockPage md) g' := by
  have hkept := hpaged.pages (pageOf d addr') id
  obtain ⟨g₂, hinv₂, hmd₂, hcarried₂, hobjects₂, hfaulted, hbrought⟩ := hwork.inv.pageFault_inv
    hwork.sound hmd (hkept.sameRights.inseg.trans hinseg)
    (hkept.sameRights.shared.trans hprivate) hfault
  have hwork₂ := hwork.carry hinv₂ hcarried₂ fun hreleased => by
    obtain heq | htable := hreleased
    · cases heq
      exact hne rfl
    · exact KTable.master_not_table h htable
  obtain ⟨hinv₃, hunlock, hobjects₃⟩ := hwork₂.unlocked
  refine ⟨g₂, hinv₃, hwork₂.master.1, hmd₂, ?_, hobjects.trans (hobjects₂.trans hobjects₃),
    ⟨hfaulted.resident, hkept.sameRights.trans hfaulted.rights, fun p hp => ?_⟩, hbrought⟩
  · exact hpaged.carried.trans ((hcarried₂.mono (fun _ => .inr) nofun (fun _ => id)).trans
      (hunlock.mono (fun _ => .inl) nofun nofun))
  · exact (hunlock.pages _ id).2.trans (hfaulted.content p (hkept.2.trans hp))

/-- An access to a shared page whose tables and page are in memory. -/
theorem access_shared {pid md : Nat} (hinv : KernelInv g noHand noHand s) (hsound : g.Sound)
    (hm : g.place (.master h) = .frame m) (hpcb : s.accessPcb pid = .ok h)
    (hshared : (g.desc (pageOf h addr)).getShared = true)
    (hdummy : s.ssegVec.atIndex (g.desc (pageOf h addr)).ssegInd.toNat = .ok d)
    (hmd : g.place (.master d) = .frame md)
    (hr : (g.desc (pageOf d (ssegAddr (g.desc (pageOf h addr)) addr))).Resident)
    (hinseg : (g.desc (pageOf d (ssegAddr (g.desc (pageOf h addr)) addr))).getInseg = true)
    {f : Nat} (hf : g.place (.table h (slotOf addr)) = .frame f) (depth : Nat)
    {type : AccessType}
    (hallowed : accessIsOk type.code (g.desc (pageOf h addr)).getAccess = true) :
    ∃ s'', access (depth + 2) s pid addr type false = .ok (.ok, s'') := by
  obtain ⟨hwork, -, -⟩ := hinv.working hsound hm
  have hmem := hwork.inv.mem_pageOf hf
  have hpcb' : (s.ksLockPage m).accessPcb
      (ssegStartInd + (g.desc (pageOf h addr)).ssegInd.toNat) = .ok d := by
    rw [accessPcb, if_neg (by omega), Nat.add_sub_cancel_left]
    exact hdummy
  obtain ⟨s'', haccess⟩ := hwork.inv.access_resident hsound hmd hpcb' hr hinseg depth type true
  unfold access
  simp only [hpcb, Outcome.ok_bind, hinv.masterTableLock_ok hm, hwork.inv.accessPtl1_eq hm,
    hwork.inv.accessPtl2_eq hm hf, accessEntry, hmem, hallowed, hshared, Bool.not_true,
    Bool.and_false, Bool.false_eq_true, if_false, if_true, haccess, Bool.true_or]
  exact ⟨_, rfl⟩

/-- Where the page table of the mapping is after the dummy's was brought in. -/
theorem fetchSpares_iff {g' : Layout} {f md addr' : Nat} {slot : Fin 64} (hne : d ≠ h)
    (hwork : Working g h m s) (hf : g.place (.table h slot) = .frame f)
    (hmd : g.place (.master d) = .frame md)
    (hbrought : BroughtIn (.table d (slotOf addr')) g (s.ksLockPage md) g') :
    s.FetchSpares d addr' f ↔ ∃ k, g'.place (.table h slot) = .frame k := by
  obtain ⟨p, _, hp, hat⟩ := hwork.inv.pcb_ok hmd
  obtain ⟨e, he, hagree⟩ := hwork.inv.slotEntry_agrees (slotOf addr') (not_noMaster hmd)
  have hlocked : LockedIn g (s.ksLockPage md) (.master h) m :=
    (hwork.inv.ksLockPage_inv md).2.1.stay (.master h) m id hwork.master
  have htable : KTable.table h slot ≠ .table d (slotOf addr') := by
    rintro ⟨⟩
    exact hne rfl
  obtain ⟨⟨f', hf'⟩, hsame⟩ | ⟨hout, hroom⟩ := hbrought
  · rw [hf'] at hagree
    refine iff_of_true (.inl ⟨e, he, hagree.1⟩) ⟨f, ?_⟩
    rw [hsame, hf]
  · constructor
    · rintro (⟨e', he', hpresent⟩ | hspares)
      · cases he.symm.trans he'
        exact absurd (hagree.present hpresent) (hout _)
      · refine ⟨f, (hroom.stay _ htable fun hmakes => ?_).trans hf⟩
        refine hspares p hp ?_
        rw [hat.masterTable]
        exact (makesRoom_table hlocked hf).mp hmakes
    · rintro ⟨k, hk⟩
      refine .inr fun p' hp' hvictim => ?_
      cases hp.symm.trans hp'
      rw [hat.masterTable] at hvictim
      exact hroom.gone _ htable ((makesRoom_table hlocked hf).mpr hvictim) k hk

end KernelInv

/-- A table that is in memory after another one was brought in was there before. -/
theorem BroughtIn.was {t u : KTable} {g g' : Layout} {s : KernelSystem} {f : Nat}
    (hbrought : BroughtIn t g s g') (hne : u ≠ t) (hf : g'.place u = .frame f) :
    g.place u = .frame f := by
  obtain ⟨_, hsame⟩ | ⟨_, hroom⟩ := hbrought
  · rw [← hsame, hf]
  · rw [← hroom.stay u hne fun hmakes => hroom.gone u hne hmakes f hf, hf]

/-- Every value of the access field allows something. -/
theorem accessIsOk_some (e : PageTableL2Entry) :
    ∃ type : AccessType, accessIsOk type.code e.getAccess = true := by
  have hlt : e.getAccess < 4 := Nat.mod_lt _ (by decide)
  generalize e.getAccess = granted at hlt
  interval_cases granted
  · exact ⟨.read, rfl⟩
  · exact ⟨.write, rfl⟩
  · exact ⟨.read, rfl⟩
  · exact ⟨.execute, rfl⟩

/-- After a fault on a shared page, with the dummy's master table in memory once the page
table of the mapping is, the accesses that are allowed succeed just when bringing in the
dummy's page table did not evict that of the mapping. -/
theorem shared_fault_serves {s s₁ s' : KernelSystem} {h pid addr d depth : Nat}
    {e : PageTableL2Entry} {a : KAddr} (hpage : s.SharedPage h pid addr e d)
    (hlow : pid < ssegStartInd) (htable : s.faultTable h addr = .ok (a, s₁))
    (hdummy : s₁.HasMaster d) (hfault : pageFault (depth + 2) s h addr = .ok s') :
    s'.SharedServed pid addr e ↔ s₁.FetchSpares d (ssegAddr e addr) a.frame := by
  obtain ⟨g, hinv, hsound⟩ := hpage.consistent
  obtain ⟨m, hm⟩ := hinv.hasMaster_iff.mp hpage.master
  obtain rfl := hinv.desc_of_descriptor hsound hm hpage.descriptor
  obtain ⟨depth', g₁, s₁', f, s₂, _, hwork, hpaged, hobjects, hf, hbrought, htable', hfault',
    rfl⟩ :=
    hinv.sharedFault_ok hsound hm hpage.shared hpage.segment hfault
  cases htable.symm.trans htable'
  obtain ⟨md, hmd⟩ := hwork.inv.hasMaster_iff.mp hdummy
  obtain ⟨e', he', hinseg', hprivate'⟩ := hpage.page
  obtain rfl := hinv.desc_of_descriptor hsound (hbrought.was nofun hmd) he'
  obtain ⟨g', hinv', hm', hmd', hcarried, hobjects', hfaulted, hbrought'⟩ :=
    KernelInv.sharedFault_inv hpage.other hwork hpaged hobjects hmd hinseg' hprivate' hfault'
  have hsound' := hcarried.sound hsound
  have hpcb : (s₂.pageUnlock m).accessPcb pid = .ok h := by
    rw [accessPcb, if_pos hlow, hobjects'.pcbVec, hpage.process]
    rfl
  have hdesc : g'.desc (pageOf h addr) = g.desc (pageOf h addr) := by
    refine KernelInv.desc_of_shared (hcarried.pages _ fun heq => ?_) hpage.shared
    exact hpage.other (congrArg LPage.proc heq).symm
  rw [KernelInv.fetchSpares_iff hpage.other hwork hf hmd hbrought']
  constructor
  · intro hserved
    obtain ⟨type, hallowed⟩ := accessIsOk_some (g.desc (pageOf h addr))
    obtain ⟨s'', haccess⟩ := hserved 0 type hallowed
    obtain ⟨_, _, _, ⟨_, hnot, _⟩ | ⟨k, _, hk, _⟩⟩ := hinv'.access_ok hsound' hm' hpcb haccess
    · exact absurd rfl hnot
    · exact ⟨k, hk⟩
  · rintro ⟨k, hk⟩ depth type hallowed
    have hsegment : (s₂.pageUnlock m).ssegVec.atIndex (g.desc (pageOf h addr)).ssegInd.toNat =
        .ok d := by
      rw [hobjects'.ssegVec, hpage.segment]
    rw [← hdesc] at hallowed hsegment
    refine hinv'.access_shared hsound' hm' hpcb (hdesc ▸ hpage.shared) hsegment hmd' ?_ ?_ hk
      depth hallowed
    · rw [hdesc]
      exact hfaulted.resident
    · rw [hdesc]
      exact hfaulted.rights.inseg.trans hinseg'

/-- A test that the first process has a shared page at address 0, of the segment whose dummy
is the second process. -/
def KernelSystem.hasSharedPage (s : KernelSystem) : Bool :=
  decide ((s.pcbVec.atIndex 0).toOption = some (some 0)) && decide (s.HasMaster 0) &&
    (s.descriptor (pageOf 0 0)).any fun e => e.getInseg && e.getShared &&
      decide ((s.ssegVec.atIndex e.ssegInd.toNat).toOption = some 1) &&
        (s.descriptor (pageOf 1 (ssegAddr e 0))).any fun e' => e'.getInseg && !e'.getShared

theorem KernelSystem.sharedPage_of_test {s : KernelSystem} (hcons : s.Consistent)
    (htest : s.hasSharedPage = true) : ∃ e, s.SharedPage 0 0 0 e 1 := by
  simp only [hasSharedPage, Bool.and_eq_true, decide_eq_true_eq, Option.any_eq_true,
    Bool.not_eq_true'] at htest
  obtain ⟨⟨hprocess, hmaster⟩, e, he, ⟨⟨hinseg, hshared⟩, hsegment⟩, e', he', hinseg', hprivate'⟩ :=
    htest
  exact ⟨e, hcons, Outcome.toOption_ok hprocess, hmaster, he, hinseg, hshared,
    Outcome.toOption_ok hsegment, by decide, e', he', hinseg', hprivate'⟩

/-- The first process of a kernel with four frames maps a shared segment, and a process is
created after it. -/
def sharedPool (dice : List Nat) : Option KernelSystem :=
  (KernelOp.runFirst (fun s op _ => decide (op.SegmentCall 0 ∧ op.Recorded s)) 1 4 8 dice
    [.createSharedSegment 0 0 1 "s" .readWrite]).bind fun r =>
      if r.2.1 = 0 then r.2.2.2.createProcess.toOption.map (·.2) else none

theorem sharedPool_consistent {dice : List Nat} {s : KernelSystem}
    (hpool : sharedPool dice = some s) : s.Consistent := by
  obtain ⟨⟨before, h, start, s₀⟩, hr, hrest⟩ := Option.bind_eq_some_iff.mp hpool
  split at hrest
  · obtain ⟨⟨h', s₁⟩, hcreate', rfl⟩ := Option.map_eq_some_iff.mp hrest
    obtain rfl : h = 0 := ‹_›
    obtain ⟨hboot, hcreate, hrun⟩ := KernelOp.runFirst_run hr
    have hcons : before.Consistent :=
      ⟨_, boot_inv (by decide) (by decide) hboot, Layout.sound_none⟩
    have hsteps : Run (fun s (op : KernelOp) s' => op.SegmentCall 0 ∧ op.Recorded s ∧
        op.Step 2 s s') start _ s₀ := hrun.weaken fun _ _ _ h => by
      obtain ⟨hcall, hrecorded⟩ := of_decide_eq_true h.1
      exact ⟨hcall, hrecorded, h.2⟩
    obtain ⟨g, m, hranged⟩ := KernelOp.ranged_of_run hcons hcreate hsteps
    obtain ⟨g', _, hinv', _, hcarried, _⟩ :=
      hranged.inv.createProcess_inv hranged.sound (Outcome.toOption_ok hcreate')
    exact ⟨g', hinv', hcarried.sound hranged.sound⟩
  · cases hrest

/-- The dummy's page table is brought back, and the page table of the mapping stays. -/
theorem shared_fault_serves_spared : ∃ (s s' : KernelSystem) (e : PageTableL2Entry),
    pageFault 2 s 0 0 = .ok s' ∧ s'.SharedServed 0 0 e := by
  have hruns : (sharedPool [2, 2]).any (fun s => s.hasSharedPage &&
      Outcome.holds (pageFault 2 s 0 0) (fun _ => true) &&
      Outcome.holds (s.faultTable 0 0) fun r => decide (r.2.HasMaster 1) &&
        (r.2.pcbs 1).all fun p => decide
          ((r.2.ksLockPage p.masterTable).victimFrame ≠ some r.1.frame)) = true := by
    decide +kernel
  obtain ⟨s, hpool, hcheck⟩ := (Option.any_eq_true _ _).mp hruns
  simp only [Bool.and_eq_true] at hcheck
  obtain ⟨⟨htest, hfault⟩, htable⟩ := hcheck
  obtain ⟨e, hpage⟩ := sharedPage_of_test (sharedPool_consistent hpool) htest
  obtain ⟨s', hfault, _⟩ := Outcome.of_holds hfault
  obtain ⟨⟨a, s₁⟩, htable, hspares⟩ := Outcome.of_holds htable
  simp only [Bool.and_eq_true, decide_eq_true_eq] at hspares
  obtain ⟨hdummy, hspares⟩ := hspares
  refine ⟨s, s', e, hfault, (shared_fault_serves hpage (by decide) htable hdummy hfault).mpr
    (.inr fun p hp hvictim => ?_)⟩
  rw [hp] at hspares
  exact of_decide_eq_true hspares hvictim

/-- The dummy's page table is brought back into the frame of the mapping's. -/
theorem shared_fault_not_served : ¬ ∀ (s s' : KernelSystem) (h pid addr d : Nat)
    (e : PageTableL2Entry), s.SharedPage h pid addr e d → pid < ssegStartInd →
    4 ≤ s.krnlspcSize - s.ksReserved → pageFault 2 s h addr = .ok s' →
    s'.SharedServed pid addr e := by
  intro hall
  have hruns : (sharedPool [2, 3]).any (fun s => s.hasSharedPage &&
      decide (4 ≤ s.krnlspcSize - s.ksReserved) &&
      (s.descriptor (pageOf 0 0)).any (fun e => accessIsOk AccessType.read.code e.getAccess) &&
      Outcome.holds (pageFault 2 s 0 0) fun s' => decide
        ((access 2 s' 0 0 .read false).toOption.map (·.1) = some .pageFault)) = true := by
    decide +kernel
  obtain ⟨s, hpool, hcheck⟩ := (Option.any_eq_true _ _).mp hruns
  simp only [Bool.and_eq_true, decide_eq_true_eq, Option.any_eq_true] at hcheck
  obtain ⟨⟨⟨htest, hfour⟩, e', he', hallowed⟩, hfault⟩ := hcheck
  obtain ⟨e, hpage⟩ := sharedPage_of_test (sharedPool_consistent hpool) htest
  cases he'.symm.trans hpage.descriptor
  obtain ⟨s', hfault, hout⟩ := Outcome.of_holds hfault
  obtain ⟨s'', haccess⟩ := hall s s' 0 0 0 1 e' hpage (by decide) hfour hfault 0 .read hallowed
  simp [haccess, Except.toOption] at hout

end VirtualMemory
