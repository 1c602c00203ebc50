import VirtualMemory.PagingStops
import VirtualMemory.PrivateRuns

/-!
# The access after a fault

A fault on a page of a private segment ends, and the page can then be used as its rights
say: the access that faulted succeeds, and its address is translated to the frame that
belongs to the page. The fault may have to make room for a page table and for the page;
whatever is chosen for that, the page's contents are what they were.
-/

namespace VirtualMemory

open Function UserSpace KernelSystem PageTableL2Entry

namespace KernelSystem

/-- The descriptor of an address, as the code walks to it. -/
def walk (s : KernelSystem) (h addr : Nat) : Except Halt KAddr := do
  let ptl1e ← deref (← s.accessPtl1 h addr)
  derefPtl2 (s.accessPtl2 addr ptl1e)

/-- An address of the process with id `pid`, in a page of a private segment whose descriptor
is `e`: its process has a master table in memory, another frame can be taken, and the random
engine will produce two values. -/
structure PrivatePage (s : KernelSystem) (h pid addr : Nat) (e : PageTableL2Entry) : Prop where
  consistent : s.Consistent
  process : s.pcbVec.atIndex pid = .ok (some h)
  descriptor : s.descriptor (pageOf h addr) = some e
  inseg : e.getInseg = true
  unshared : e.getShared = false
  other : ∃ p f, s.pcbs h = some p ∧ p.pid = pid ∧ p.masterTableValid = true ∧ s.HasFrame f ∧
    f ≠ p.masterTable ∧ (s.ksFt f).getLocked = false
  rolls : 2 ≤ s.dice.length

/-- The address can be used in `s'` as the rights of its page in `s` say, and the page
contains what it did. -/
structure Served (s : KernelSystem) (h pid addr : Nat) (e : PageTableL2Entry)
    (s' : KernelSystem) : Prop where
  access : ∀ depth type, ∃ s'', access (depth + 1) s' pid addr type false =
    .ok (if accessIsOk type.code e.getAccess then .ok else .trap, s'')
  address : ∃ a f, s'.walk h addr = .ok a ∧ (s'.usFt f).owner = some a ∧ f < s'.userspcSize ∧
    ∀ depth, getPa (depth + 1) s' h addr = .ok (some (f, addr % pageSize))
  content : ∀ p, s.content e = some p →
    ∃ e', s'.descriptor (pageOf h addr) = some e' ∧ s'.content e' = some p

/-- A fault ends unless the disk is full, and serves its address. -/
def FaultServes (s : KernelSystem) (h pid addr : Nat) (e : PageTableL2Entry) (depth : Nat) :
    Prop :=
  (∃ halt, pageFault (depth + 1) s h addr = .error halt ∧ halt.isDiskFull = true) ∨
    ∃ s', pageFault (depth + 1) s h addr = .ok s' ∧ s.Served h pid addr e s'

end KernelSystem

namespace KernelInv

variable {g : Layout} {s : KernelSystem} {h pid addr m : Nat}

theorem walk_eq {f : Nat} (hinv : KernelInv g noHand noHand s)
    (hm : g.place (.master h) = .frame m) (hf : g.place (.table h (slotOf addr)) = .frame f) :
    s.walk h addr = .ok ⟨f, cellOf addr⟩ := by
  simp only [walk, hinv.accessPtl1_eq hm, deref, Outcome.ok_bind, hinv.accessPtl2_eq hm hf,
    derefPtl2]

/-- A resident page is accessed as its rights say, or whatever they say. -/
theorem access_resident (hinv : KernelInv g noHand noHand s) (hsound : g.Sound)
    (hm : g.place (.master h) = .frame m) (hpcb : s.accessPcb pid = .ok h)
    (hr : (g.desc (pageOf h addr)).Resident) (hinseg : (g.desc (pageOf h addr)).getInseg = true)
    (depth : Nat) (type : AccessType) (ignoreAccess : Bool) :
    ∃ s'', access (depth + 1) s pid addr type ignoreAccess = .ok
      (if ignoreAccess || accessIsOk type.code (g.desc (pageOf h addr)).getAccess then .ok
        else .trap, s'') := by
  obtain ⟨hwork, -, -⟩ := hinv.working hsound hm
  obtain ⟨f, hf⟩ : ∃ f, g.place (.table h (slotOf addr)) = .frame f := hinv.resident_frame hr
  have hmem := hwork.inv.mem_pageOf hf
  unfold access
  simp only [hpcb, Outcome.ok_bind, hinv.masterTableLock_ok hm, hwork.inv.accessPtl1_eq hm,
    hwork.inv.accessPtl2_eq hm hf, accessEntry, hmem]
  cases hallowed : ignoreAccess || accessIsOk type.code (g.desc (pageOf h addr)).getAccess with
  | false =>
      rw [← Bool.not_or, hallowed]
      simp only [Bool.not_false, if_true, Outcome.ok_bind, Bool.false_eq_true, if_false]
      exact ⟨_, rfl⟩
  | true =>
      rw [← Bool.not_or, hallowed]
      simp only [Bool.not_true, Bool.false_eq_true, if_false, hr.1, accessPhys,
        hinseg, hr.2, Outcome.ok_bind, if_true]
      exact ⟨_, rfl⟩

theorem getPa_resident (hinv : KernelInv g noHand noHand s)
    (hm : g.place (.master h) = .frame m) (hr : (g.desc (pageOf h addr)).Resident)
    (hinseg : (g.desc (pageOf h addr)).getInseg = true) (depth : Nat) :
    getPa (depth + 1) s h addr =
      .ok (some ((g.desc (pageOf h addr)).block, addr % pageSize)) := by
  obtain ⟨f, hf⟩ : ∃ f, g.place (.table h (slotOf addr)) = .frame f := hinv.resident_frame hr
  simp only [getPa, hinv.accessPtl1_eq hm, deref, Outcome.ok_bind, hinv.accessPtl2_eq hm hf,
    derefPtl2, hinv.mem_pageOf hf, hr.1, Bool.false_eq_true, if_false, accessPhys, hinseg, hr.2,
    Bool.not_true, Except.toOption]

/-- A page that is resident is served. -/
theorem served {g' : Layout} {s' : KernelSystem} {e : PageTableL2Entry}
    (hinv : KernelInv g' noHand noHand s') (hsound : g'.Sound)
    (hm : g'.place (.master h) = .frame m) (hpcb : s'.accessPcb pid = .ok h)
    (hinseg : e.getInseg = true) (hfaulted : Faulted s e s' (g'.desc (pageOf h addr))) :
    s.Served h pid addr e s' := by
  have hr := hfaulted.resident
  have hinseg' := hfaulted.rights.inseg.trans hinseg
  refine ⟨fun depth type => ?_, ?_, fun p hp => ?_⟩
  · rw [← hfaulted.rights.access]
    exact hinv.access_resident hsound hm hpcb hr hinseg' depth type false
  · obtain ⟨htype, a, ha, howner⟩ := hinv.user.frames.owner _ hr
    obtain ⟨hplace, hcell⟩ := Layout.addr_eq_some.mp ha
    refine ⟨a, _, ?_, howner, hinv.user.frames.typed _ htype,
      hinv.getPa_resident hm hr hinseg'⟩
    rw [hinv.walk_eq hm hplace]
    exact congrArg Except.ok (by cases a; simp_all [pageOf])
  · refine ⟨_, ?_, hfaulted.content p hp⟩
    rw [hinv.descriptor_eq (not_noMaster hm) (hsound _ _ m hm), if_neg]
    intro hgone
    rw [hinv.inseg_nowhere (.inl hgone)] at hinseg'
    cases hinseg'

end KernelInv

/-- A fault on a page of a private segment, whatever victims are chosen. -/
theorem private_fault_serves {s : KernelSystem} {h pid addr : Nat} {e : PageTableL2Entry}
    (hpage : s.PrivatePage h pid addr e) (hlow : pid < ssegStartInd) (huser : 0 < s.userspcSize)
    (depth : Nat) : s.FaultServes h pid addr e depth := by
  obtain ⟨g, hinv, hsound⟩ := hpage.consistent
  obtain ⟨p, f, hp, _, hvalid, hf, hne, hopen⟩ := hpage.other
  obtain ⟨m, hm, hat⟩ := hinv.at_of_valid hp hvalid
  rw [hat.masterTable] at hne
  obtain rfl := hinv.desc_of_descriptor hsound hm hpage.descriptor
  cases hfault : pageFault (depth + 1) s h addr with
  | error halt =>
      exact .inl ⟨halt, hfault, hinv.pageFault_full hsound hm hpage.inseg hpage.unshared hf hne
        hopen huser hpage.rolls hfault⟩
  | ok s' =>
      right
      obtain ⟨g', hinv', hm', hcarried, hobjects, hfaulted, _⟩ :=
        hinv.pageFault_inv hsound hm hpage.inseg hpage.unshared hfault
      refine ⟨s', hfault, hinv'.served (hcarried.sound hsound) hm' ?_ hpage.inseg hfaulted⟩
      rw [accessPcb, if_pos hlow, hobjects.pcbVec, hpage.process]
      rfl

/-- A test that the first process has a private page at address 0, and can fault on it. -/
def KernelSystem.hasPrivatePage (s : KernelSystem) (pid frame : Nat) : Bool :=
  decide ((s.pcbVec.atIndex pid).toOption = some (some 0)) &&
    ((s.pcbs 0).any fun p => decide (p.pid = pid) && p.masterTableValid &&
      decide (frame ≠ p.masterTable)) &&
    ((s.descriptor (pageOf 0 0)).any fun e => e.getInseg && !e.getShared) &&
    (decide (s.ksReserved ≤ frame) && decide (frame < s.krnlspcSize) &&
      !(s.ksFt frame).getLocked) && decide (2 ≤ s.dice.length)

theorem KernelSystem.privatePage_of_test {s : KernelSystem} {pid frame : Nat}
    (hcons : s.Consistent) (htest : s.hasPrivatePage pid frame = true) :
    ∃ e, s.PrivatePage 0 pid 0 e := by
  simp only [hasPrivatePage, Bool.and_eq_true, decide_eq_true_eq, Option.any_eq_true,
    Bool.not_eq_true'] at htest
  obtain ⟨⟨⟨⟨hprocess, p, hp, ⟨hpid, hvalid⟩, hne⟩, e, he, hinseg, hshared⟩,
    ⟨hlow, hhigh⟩, hopen⟩, hrolls⟩ := htest
  exact ⟨e, hcons, Outcome.toOption_ok hprocess, he, hinseg, hshared,
    ⟨p, frame, hp, hpid, hvalid, ⟨hlow, hhigh⟩, hne, hopen⟩, hrolls⟩

/-- A page that is out, in a page table that is out, with one frame for another table. -/
theorem private_fault_serves_out : ∃ (s : KernelSystem) (e : PageTableL2Entry),
    e.PagedOut ∧ s.FaultServes 0 0 0 e 0 := by
  have hruns : (KernelOp.runSmall KernelOp.settling 1 3 4 [1, 0, 0]
      [.createProcess, .createSegment 0 0 1 .readWrite, .pageFault 0 0, .createProcess,
        .createSegment 1 0 1 .readWrite]).any (fun r =>
      decide (r.1.userspcSize ≤ 65536) && decide (r.1.krnlspcSize ≤ 65536) &&
        decide (r.2.userspcSize = 1) && r.2.hasPrivatePage 0 5 &&
        (r.2.descriptor (pageOf 0 0)).any fun e => decide e.PagedOut) = true := by
    decide +kernel
  obtain ⟨⟨start, s⟩, hr, hcheck⟩ := (Option.any_eq_true _ _).mp hruns
  simp only [Bool.and_eq_true, decide_eq_true_eq, Option.any_eq_true] at hcheck
  obtain ⟨⟨⟨⟨huser, hkrnl⟩, hsize⟩, htest⟩, e, he, hout⟩ := hcheck
  have hcons := KernelOp.consistent_of_settling hr huser hkrnl
  obtain ⟨e', hpage⟩ := privatePage_of_test hcons htest
  cases he.symm.trans hpage.descriptor
  exact ⟨s, e, hout, private_fault_serves hpage (by decide) (by omega) 0⟩

/-- The state in which the processes that there are have the id `pid`, after as many other
processes were deleted. -/
def KernelSystem.late (s : KernelSystem) (pid : Nat) : KernelSystem :=
  { s with
    pcbVec := ⟨pid - 1, (List.range pid).map (fun i => ⟨some none, (i : Int) - 1⟩) ++
      [⟨some (some 0), CVElem.filled⟩]⟩
    pcbs := fun h => (s.pcbs h).map ({ · with pid := pid }) }

theorem KernelSystem.Consistent.late {s : KernelSystem} (hcons : s.Consistent) (pid : Nat) :
    (s.late pid).Consistent := by
  obtain ⟨g, hinv, hsound⟩ := hcons
  have hpcb : ∀ {h : Nat} {p : KernelProcess}, s.pcbs h = some p →
      (s.late pid).pcbs h = some { p with pid := pid } := fun hp => by
    simp [KernelSystem.late, hp]
  refine ⟨g, ⟨hinv.user, hinv.krnl_le, hinv.nodup, hinv.frames, hinv.typed, hinv.image,
    hinv.entries, hinv.tables, fun h m hm => ?_, fun h c hc => ?_, fun h hlost => ?_, fun h => ?_,
    hinv.fresh⟩, hsound⟩
  · obtain ⟨htype, howner, p, hp, hat⟩ := hinv.masters h m hm
    exact ⟨htype, howner, _, hpcb hp, hat.valid, hat.masterTable, hat.ptl1Ptr, hat.stPtr⟩
  · obtain ⟨p, hp, hvalid, hdisk⟩ := hinv.stored h c hc
    exact ⟨_, hpcb hp, hvalid, hdisk⟩
  · obtain ⟨p, hp, hvalid⟩ := hinv.newborn h hlost
    exact ⟨_, hpcb hp, hvalid⟩
  · rw [← hinv.live h]
    simp [KernelSystem.late]

/-- A process id from 60000 on is taken for the index of a shared segment, and no page can
be brought into a user space without frames. -/
theorem private_fault_not_served :
    (¬ ∀ (s : KernelSystem) (h pid addr : Nat) (e : PageTableL2Entry) (depth : Nat),
      s.PrivatePage h pid addr e → 0 < s.userspcSize → s.FaultServes h pid addr e depth) ∧
    ¬ ∀ (s : KernelSystem) (h pid addr : Nat) (e : PageTableL2Entry) (depth : Nat),
      s.PrivatePage h pid addr e → pid < ssegStartInd → s.FaultServes h pid addr e depth := by
  constructor
  · intro hall
    have hruns : (KernelOp.runSmall KernelOp.settling 1 3 4 [0, 0]
        [.createProcess, .createSegment 0 0 1 .readWrite]).any (fun r =>
        decide (r.1.userspcSize ≤ 65536) && decide (r.1.krnlspcSize ≤ 65536) &&
          decide (0 < r.2.userspcSize) && (r.2.late 60000).hasPrivatePage 60000 6 &&
          Outcome.holds (pageFault 1 (r.2.late 60000) 0 0) fun s' =>
            (access 1 s' 60000 0 .read false).toOption.isNone) = true := by
      decide +kernel
    obtain ⟨⟨start, s⟩, hr, hcheck⟩ := (Option.any_eq_true _ _).mp hruns
    simp only [Bool.and_eq_true, decide_eq_true_eq] at hcheck
    obtain ⟨⟨⟨⟨huser, hkrnl⟩, hpos⟩, htest⟩, hfault⟩ := hcheck
    obtain ⟨e, hpage⟩ :=
      privatePage_of_test ((KernelOp.consistent_of_settling hr huser hkrnl).late 60000) htest
    obtain ⟨s', hfault, hnone⟩ := Outcome.of_holds hfault
    obtain ⟨halt, herror, _⟩ | ⟨s'', hok, hserved⟩ := hall _ 0 60000 0 e 0 hpage hpos
    · cases hfault.symm.trans herror
    · cases hfault.symm.trans hok
      obtain ⟨_, haccess⟩ := hserved.access 0 .read
      rw [haccess] at hnone
      cases hnone
  · intro hall
    have hruns : (KernelOp.runSmall KernelOp.settling 0 3 4 [0, 0]
        [.createProcess, .createSegment 0 0 1 .readWrite]).any (fun r =>
        decide (r.1.userspcSize ≤ 65536) && decide (r.1.krnlspcSize ≤ 65536) &&
          r.2.hasPrivatePage 0 6 &&
          decide ((pageFault 1 r.2 0 0).map (fun _ => ()) = .error .usIncorrectType)) = true := by
      decide +kernel
    obtain ⟨⟨start, s⟩, hr, hcheck⟩ := (Option.any_eq_true _ _).mp hruns
    simp only [Bool.and_eq_true, decide_eq_true_eq] at hcheck
    obtain ⟨⟨⟨huser, hkrnl⟩, htest⟩, hfault⟩ := hcheck
    obtain ⟨e, hpage⟩ :=
      privatePage_of_test (KernelOp.consistent_of_settling hr huser hkrnl) htest
    obtain ⟨halt, herror, hfull⟩ | ⟨s', hok, _⟩ := hall s 0 0 0 e 0 hpage (by decide)
    · rw [herror] at hfault
      cases hfault
      cases hfull
    · rw [hok] at hfault
      cases hfault

end VirtualMemory
