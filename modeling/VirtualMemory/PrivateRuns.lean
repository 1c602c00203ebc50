import VirtualMemory.Cloning
import VirtualMemory.FrameAccounts
import VirtualMemory.MasterRoundTrip

/-!
# Runs of processes that share nothing

The public operations on private address spaces, with any victims, master tables included.
A master table that was swapped out is brought back into another frame than its process
walks, a process that is deleted leaves its page tables behind, and a segment that is
recorded at another page than it is at lets the next one overwrite descriptors. In a run
in which no call comes upon one of these, the tables of every process are its own and
nothing is lost.
-/

namespace VirtualMemory

open Function UserSpace KernelSystem PageTableL2Entry

/-- A process that has no page table, in memory or on the disk. -/
def KernelSystem.NoTables (s : KernelSystem) (h : Nat) : Prop :=
  ∀ slot, ∀ e ∈ s.slotEntry h slot, e.status = PageTableL1Entry.statusUnused

instance (s : KernelSystem) (h : Nat) : Decidable (s.NoTables h) :=
  inferInstanceAs (Decidable (∀ _, _))

namespace KernelOp

/-- The calls that make, use and end private address spaces. -/
def Unshared : KernelOp → Prop
  | .createProcess | .cloneProcess _ | .deleteProcess _ | .createSegment .. | .loadSegment ..
  | .deleteSegment .. | .pageFault .. | .access .. => True
  | _ => False

/-- The process that a call works on. -/
def subject (s : KernelSystem) : KernelOp → Option Nat
  | .cloneProcess pid => (s.pcbVec.atIndex pid).toOption.join
  | .access pid _ _ => (s.accessPcb pid).toOption
  | .deleteProcess h | .createSegment h .. | .loadSegment h .. | .deleteSegment h _
  | .pageFault h _ => some h
  | _ => none

/-- A fault is on a page of a segment, a process that is deleted has no page table that would
be left behind, and the segments of one that is cloned are where they are recorded. -/
def FindsOrder (s : KernelSystem) (op : KernelOp) : Prop :=
  match op with
  | .pageFault h addr => s.InSegment (pageOf h addr)
  | .deleteProcess h => s.NoTables h
  | .cloneProcess _ => ∀ h ∈ op.subject s, s.Intact h
  | _ => True

/-- The call comes upon no master table on the disk, and upon nothing that a call before it
misplaced. -/
structure Settled (s : KernelSystem) (op : KernelOp) : Prop where
  masters : ∀ h ∈ op.subject s, s.HasMaster h
  fits : op.Fits s
  order : op.FindsOrder s

/-- A test that a call is settled, which no clone passes. -/
def settles (s : KernelSystem) (op : KernelOp) : Bool :=
  decide (∀ h ∈ op.subject s, s.HasMaster h) && decide (op.Fits s) && match op with
    | .pageFault h addr => decide (s.InSegment (pageOf h addr))
    | .deleteProcess h => decide (s.NoTables h)
    | .cloneProcess _ => false
    | _ => true

instance (op : KernelOp) : Decidable op.Unshared :=
  match op with
  | .createProcess | .cloneProcess _ | .deleteProcess _ | .createSegment .. | .loadSegment ..
  | .deleteSegment .. | .pageFault .. | .access .. => instDecidableTrue
  | .createSharedSegment .. | .disconnectSharedSegment .. | .deleteSharedSegment _ =>
      instDecidableFalse

theorem settled_of_settles {s : KernelSystem} {op : KernelOp} (htest : op.settles s = true) :
    op.Settled s := by
  simp only [settles, Bool.and_eq_true, decide_eq_true_eq] at htest
  obtain ⟨⟨hmasters, hfits⟩, horder⟩ := htest
  refine ⟨hmasters, hfits, ?_⟩
  cases op with
  | pageFault h addr =>
      show s.InSegment (pageOf h addr)
      exact of_decide_eq_true horder
  | deleteProcess h =>
      show s.NoTables h
      exact of_decide_eq_true horder
  | cloneProcess pid => cases horder
  | _ => trivial

/-- The calls of a run that are known to be settled. -/
def settling (s : KernelSystem) (op : KernelOp) (_ : KernelSystem) : Bool :=
  decide op.Unshared && op.settles s

theorem settled_of_runSmall {userspcSize frames clusters : Nat} {dice : List Nat}
    {start s : KernelSystem} {ops : List KernelOp}
    (hrun : runSmall settling userspcSize frames clusters dice ops = some (start, s)) :
    start.Booted ∧
      Run (fun s (op : KernelOp) s' => op.Unshared ∧ op.Settled s ∧ op.Step 2 s s')
        start ops s := by
  obtain ⟨hboot, hrun⟩ := runSmall_run hrun
  refine ⟨smallKernel_booted hboot, hrun.weaken ?_⟩
  rintro s op s' ⟨htest, hstep⟩
  obtain ⟨hunshared, hsettles⟩ := Bool.and_eq_true_iff.mp htest
  exact ⟨of_decide_eq_true hunshared, settled_of_settles hsettles, hstep⟩

end KernelOp

/-- A state in which nothing is shared and no page table is without its process. -/
structure Housed (g : Layout) (s : KernelSystem) : Prop where
  inv : KernelInv g noHand noHand s
  sound : g.Sound
  unshared : ∀ v, (g.desc v).getShared = false
  tables : ∀ h, g.NoMaster h → ∀ slot, g.place (.table h slot) = .gone

namespace Housed

variable {g g' : Layout} {s s' : KernelSystem} {h : Nat} {loose : KTable → Prop}
  {mine : Nat → Prop} {but : LPage → Prop}

/-- What is left to be shown of a call, once the invariant is known to hold after it. -/
theorem next (hhoused : Housed g s) (hinv : KernelInv g' noHand noHand s')
    (hcarried : Carried loose mine but g s g' s')
    (hbut : ∀ v, but v → (g'.desc v).getShared = false)
    (hmine : ∀ h, mine h → g'.NoMaster h → ∀ slot, g'.place (.table h slot) = .gone) :
    Housed g' s' := by
  refine ⟨hinv, hcarried.sound hhoused.sound, fun v => ?_, fun h hnone slot => ?_⟩
  · by_cases hv : but v
    · exact hbut v hv
    · exact (hcarried.pages v hv).sameRights.shared.trans (hhoused.unshared v)
  · by_cases hh : mine h
    · exact hmine h hh hnone slot
    · obtain ⟨hnone', hsame⟩ := hcarried.dead h hh hnone
      rw [hsame slot]
      exact hhoused.tables h hnone' slot

theorem inSegment_pageOf {m addr : Nat} (hhoused : Housed g s)
    (hm : g.place (.master h) = .frame m) :
    s.InSegment (pageOf h addr) ↔ (g.desc (pageOf h addr)).getInseg = true :=
  hhoused.inv.inSegment_iff hhoused.sound hm

/-- The range of a segment that is created is free. -/
theorem clear_range {m ordinal startAddr size : Nat} {status : Status}
    {work : KernelSystem → KAddr → Nat → Except Halt KernelSystem} (hhoused : Housed g s)
    (hm : g.place (.master h) = .frame m)
    (hfits : s.refuses h ordinal startAddr size = true ∨ s.Clear h startAddr size)
    (hnew : s.newSegment h ordinal startAddr size work = .ok (status, s')) :
    status = .ok → ∀ v, InRange h startAddr size v → (g.desc v).getInseg = false := by
  rintro rfl _ ⟨i, hi, rfl⟩
  obtain hrefuses | hclear := hfits
  · cases Plain.newSegment_refused hhoused.inv hm hrefuses hnew
  · have hnot := hclear i hi
    rw [hhoused.inSegment_pageOf hm] at hnot
    simpa using hnot

/-- The pages of a new segment are private. -/
theorem created {m ordinal startAddr size : Nat} {accType : AccessType} {status : Status}
    {content : Nat → Option Page} (hhoused : Housed g s) (hinv : KernelInv g' noHand noHand s')
    (hm : g'.place (.master h) = .frame m)
    (hcreated : SegmentCreated g s h ordinal startAddr size accType content g' s' status) :
    Housed g' s' := by
  obtain ⟨_, hcarried, _⟩ | ⟨_, _, hcarried, hpages⟩ := hcreated
  · exact hhoused.next hinv hcarried nofun nofun
  · refine hhoused.next hinv hcarried ?_ ?_
    · rintro _ ⟨i, hi, rfl⟩
      exact (hpages i hi).1.shared
    · rintro _ rfl hnone
      exact absurd hnone (KernelInv.not_noMaster hm)

/-- The copies of private pages are private. -/
theorem cloned {source ms pid : Nat} (hhoused : Housed g s)
    (hpid : s.pcbVec.atIndex pid = .ok (some source))
    (hms : g.place (.master source) = .frame ms) (hintact : s.Intact source)
    (hclone : s.cloneProcess pid = .ok (h, s')) : ∃ g', Housed g' s' := by
  obtain ⟨g₀, s₀, m, g', s₁, hne, hcarried₀, _, hprogress, rfl⟩ := hhoused.inv.cloneProcess_inv
    hhoused.sound hpid hms (hhoused.inv.segmentsApart hhoused.sound hms hintact) hclone
  obtain ⟨hinv', hm', hcarried, _⟩ := KernelInv.cloneProcess_end hcarried₀ hprogress
  refine ⟨g', hhoused.next hinv' hcarried (fun v hv => ?_) ?_⟩
  · by_cases hcopy : ∃ e ∈ (List.finRange 192).filterMap (g₀.taken source), ∃ i,
        i < e.getLength ∧ v = entryPage e h i
    · obtain ⟨e, he, i, hi, rfl⟩ := hcopy
      rw [(hprogress.pages e he i hi).rights.shared,
        (hcarried₀.pages (entryPage e source i) id).sameRights.shared]
      exact hhoused.unshared _
    · push Not at hcopy
      rw [hprogress.rest v hv hcopy]
      decide
  · rintro _ rfl hnone
    exact absurd hnone (KernelInv.not_noMaster hm')

/-- A process without page tables is gone with its master table. -/
theorem deleted {m : Nat} (hhoused : Housed g s) (hm : g.place (.master h) = .frame m)
    (hnone : s.NoTables h) (hdelete : s.deleteProcess h = .ok s') :
    ∃ g', Housed g' s' ∧ g'.place (.master h) = .gone ∧ m ∈ s'.ksEmpty := by
  have hslots : ∀ slot, g.place (.table h slot) = .gone := by
    intro slot
    refine (hhoused.inv.unused_iff hhoused.sound hm).mp (hnone slot _ ?_)
    rw [hhoused.inv.slotEntry_eq (KernelInv.not_noMaster hm), KernelSystem.ptl1,
      hhoused.inv.mem_eq hm]
    rfl
  obtain ⟨g', hinv', hcarried, hgone, hplace, hfree⟩ :=
    hhoused.inv.deleteProcess_inv hhoused.sound hm hslots hdelete
  refine ⟨g', hhoused.next hinv' hcarried (fun _ => False.elim) ?_, hgone, hfree⟩
  rintro h' rfl _ slot
  rw [hplace (.table h' slot) (fun heq => by cases heq), hslots]

/-- A call that is settled keeps the state so. -/
theorem step {levels : Nat} {op : KernelOp} (hhoused : Housed g s) (hunshared : op.Unshared)
    (hsettled : op.Settled s) (hstep : op.Step levels s s') : ∃ g', Housed g' s' := by
  have hmaster : ∀ h ∈ op.subject s, ∃ m, g.place (.master h) = .frame m := fun h hon =>
    hhoused.inv.hasMaster_iff.mp (hsettled.masters h hon)
  cases op with
  | createProcess =>
      obtain ⟨⟨h, s₁⟩, hcreate, hret⟩ := Outcome.bind_ok hstep
      cases hret
      obtain ⟨g', m, hinv', hm, hcarried, _, hslots, _⟩ :=
        hhoused.inv.createProcess_inv hhoused.sound hcreate
      refine ⟨g', hhoused.next hinv' hcarried nofun ?_⟩
      rintro _ rfl _
      exact hslots
  | cloneProcess pid =>
      obtain ⟨⟨h, s₁⟩, hclone, hret⟩ := Outcome.bind_ok hstep
      cases hret
      obtain ⟨found, hfound, hrest⟩ := Outcome.bind_ok hclone
      cases found with
      | none => cases hrest
      | some source =>
          have hsubject : source ∈ (KernelOp.cloneProcess pid).subject s := by
            rw [KernelOp.subject, hfound]
            rfl
          obtain ⟨ms, hms⟩ := hmaster source hsubject
          exact hhoused.cloned hfound hms (hsettled.order source hsubject) hclone
  | deleteProcess h =>
      obtain ⟨m, hm⟩ := hmaster h rfl
      obtain ⟨g', hhoused', _⟩ := hhoused.deleted hm hsettled.order hstep
      exact ⟨g', hhoused'⟩
  | createSegment h startAddr size accType =>
      obtain ⟨⟨status, s₁⟩, hcreate, hret⟩ := Outcome.bind_ok hstep
      cases hret
      obtain ⟨m, hm⟩ := hmaster h rfl
      obtain ⟨g', hinv', hm', _, hcreated⟩ := hhoused.inv.createSegment_inv hhoused.sound hm
        (hhoused.clear_range hm hsettled.fits hcreate) hcreate
      exact ⟨g', hhoused.created hinv' hm' hcreated⟩
  | loadSegment h startAddr size accType content =>
      obtain ⟨⟨status, s₁⟩, hload, hret⟩ := Outcome.bind_ok hstep
      cases hret
      obtain ⟨m, hm⟩ := hmaster h rfl
      obtain ⟨g', hinv', hm', _, hcreated⟩ := hhoused.inv.loadSegment_inv hhoused.sound hm
        (hhoused.clear_range hm hsettled.fits hload) hload
      exact ⟨g', hhoused.created hinv' hm' hcreated⟩
  | deleteSegment h startAddr =>
      obtain ⟨⟨status, s₁⟩, hdelete, hret⟩ := Outcome.bind_ok hstep
      cases hret
      obtain ⟨m, hm⟩ := hmaster h rfl
      obtain ⟨g', hinv', hm', _, ⟨hcarried, _⟩ | ⟨n, hremoved, hcarried⟩⟩ :=
        hhoused.inv.deleteSegment_inv hhoused.sound hm hdelete
      · exact ⟨g', hhoused.next hinv' hcarried nofun nofun⟩
      · refine ⟨g', hhoused.next hinv' hcarried hremoved.unshared ?_⟩
        rintro _ rfl hnone
        exact absurd hnone (KernelInv.not_noMaster hm')
  | pageFault h addr =>
      obtain ⟨m, hm⟩ := hmaster h rfl
      obtain ⟨g', hinv', _, hcarried, _, hfaulted, _⟩ := hhoused.inv.pageFault_inv
        hhoused.sound hm ((hhoused.inSegment_pageOf hm).mp hsettled.order) (hhoused.unshared _)
        hstep
      refine ⟨g', hhoused.next hinv' hcarried ?_ nofun⟩
      rintro _ rfl
      exact hfaulted.rights.shared.trans (hhoused.unshared _)
  | access pid addr type =>
      obtain ⟨⟨status, s₁⟩, haccess, hret⟩ := Outcome.bind_ok hstep
      cases hret
      have hpcb : ∃ h, s.accessPcb pid = .ok h := by
        cases levels with
        | zero => cases haccess
        | succ d =>
            obtain ⟨h, hpcb, _⟩ := Outcome.bind_ok haccess
            exact ⟨h, hpcb⟩
      obtain ⟨h, hpcb⟩ := hpcb
      have hsubject : h ∈ (KernelOp.access pid addr type).subject s := by
        rw [KernelOp.subject, hpcb]
        rfl
      obtain ⟨m, hm⟩ := hmaster h hsubject
      obtain ⟨g', hinv', _, hcarried, _, haccessed⟩ := hhoused.inv.access_inv
        hhoused.sound hm hpcb (hhoused.unshared _) haccess
      refine ⟨g', hhoused.next hinv' hcarried ?_ nofun⟩
      rintro _ rfl
      rw [haccessed.entry]
      split
      · exact (sameRights_set (.refl _) (by decide) (by decide)).shared.trans
          (hhoused.unshared _)
      · exact hhoused.unshared _
  | _ => exact absurd hunshared id

end Housed

theorem housed_none {s : KernelSystem} (hinv : KernelInv Layout.none noHand noHand s) :
    Housed Layout.none s := by
  refine ⟨hinv, Layout.sound_none, fun _ => ?_, fun _ _ _ => rfl⟩
  change (⟨0#16, 0#8, 0#8⟩ : PageTableL2Entry).getShared = false
  decide

/-- Every state of a run of settled calls is housed. -/
theorem KernelOp.housed_of_run {levels : Nat} {start s : KernelSystem} {ops : List KernelOp}
    (hstart : start.Booted) (huser : start.userspcSize ≤ 65536)
    (hkrnl : start.krnlspcSize ≤ 65536)
    (hrun : Run (fun s (op : KernelOp) s' => op.Unshared ∧ op.Settled s ∧ op.Step levels s s')
      start ops s) : ∃ g, Housed g s := by
  refine hrun.invariant (fun s => ∃ g, Housed g s) ?_ ⟨_, housed_none (hstart.inv huser hkrnl)⟩
  rintro s op s' ⟨g, hhoused⟩ ⟨hunshared, hsettled, hstep⟩
  exact hhoused.step hunshared hsettled hstep

/-- The three pointers of a process refer to one frame, which houses its master table and
nothing else. -/
structure KernelSystem.WalksOwn (s : KernelSystem) (h : Nat) (p : KernelProcess) : Prop where
  ptl1Ptr : p.ptl1Ptr = KAddr.page p.masterTable
  stPtr : p.stPtr = (KAddr.page p.masterTable).index maxPageTablesL1
  type : (s.ksFt p.masterTable).type = .ksSegTable
  owner : (s.ksFt p.masterTable).owner = some (.pcb h)
  alone : ∀ use, s.Uses p.masterTable use → use = .master h

theorem KernelInv.walksOwn {g : Layout} {s : KernelSystem} {h : Nat} {p : KernelProcess}
    (hinv : KernelInv g noHand noHand s) (hp : s.pcbs h = some p)
    (hvalid : p.masterTableValid = true) : s.WalksOwn h p := by
  obtain ⟨m, hm, hat⟩ := hinv.at_of_valid hp hvalid
  obtain ⟨htype, howner, _⟩ := hinv.masters h m hm
  rw [← hat.masterTable] at htype howner hm
  exact ⟨hat.masterTable ▸ hat.ptl1Ptr, hat.masterTable ▸ hat.stPtr, htype, howner,
    fun use huse => hinv.uses_one huse (hinv.uses_master.mpr hm)⟩

namespace KernelOp

/-- In every state of a run of settled calls each process whose master table is in memory
walks its own tables. -/
theorem own_tables {levels : Nat} {start s : KernelSystem} {ops : List KernelOp}
    (hstart : start.Booted) (huser : start.userspcSize ≤ 65536)
    (hkrnl : start.krnlspcSize ≤ 65536)
    (hrun : Run (fun s (op : KernelOp) s' => op.Unshared ∧ op.Settled s ∧ op.Step levels s s')
      start ops s) : ∀ h p, s.pcbs h = some p → p.masterTableValid = true → s.WalksOwn h p := by
  obtain ⟨g, hhoused⟩ := housed_of_run hstart huser hkrnl hrun
  exact fun h p hp hvalid => hhoused.inv.walksOwn hp hvalid

/-- Two processes whose page tables evict each other, and a third that is deleted. -/
theorem own_tables_three : ∃ (s : KernelSystem) (p : KernelProcess),
    s.pcbs 1 = some p ∧ s.WalksOwn 1 p := by
  have hruns : (runSmall settling 1 4 4 [0, 3, 0, 3]
      [.createProcess, .createProcess, .createProcess, .deleteProcess 2,
        .createSegment 0 0 1 .readWrite, .loadSegment 1 0 1 .read fun _ => blankPage,
        .createSegment 1 (256 * 1024) 1 .readWrite, .pageFault 0 0,
        .access 0 0 .write]).any (fun r =>
      decide (r.1.userspcSize ≤ 65536) && decide (r.1.krnlspcSize ≤ 65536) &&
        (r.2.pcbs 1).any (·.masterTableValid)) = true := by
    decide +kernel
  obtain ⟨⟨start, s⟩, hr, hcheck⟩ := (Option.any_eq_true _ _).mp hruns
  simp only [Bool.and_eq_true, decide_eq_true_eq, Option.any_eq_true] at hcheck
  obtain ⟨⟨huser, hkrnl⟩, p, hp, hvalid⟩ := hcheck
  obtain ⟨hstart, hsteps⟩ := settled_of_runSmall hr
  exact ⟨s, p, hp, own_tables hstart huser hkrnl hsteps 1 p hp hvalid⟩

/-- Three processes in a pool of two frames: the first is brought back into the frame that
was the second's, and goes on walking the tables of the third. -/
theorem not_own_tables : ¬ ∀ (start s : KernelSystem) (ops : List KernelOp),
    start.Booted → start.userspcSize ≤ 65536 → start.krnlspcSize ≤ 65536 →
    Run (fun s (op : KernelOp) s' => op.Unshared ∧ op.Step 2 s s') start ops s →
    ∀ h p, s.pcbs h = some p → p.masterTableValid = true → s.WalksOwn h p := by
  intro hall
  have hruns : (runSmall (fun _ op _ => decide op.Unshared) 1 2 4 [0, 1]
      [.createProcess, .createProcess, .createProcess, .access 0 0 .read]).any (fun r =>
      decide (r.1.userspcSize ≤ 65536) && decide (r.1.krnlspcSize ≤ 65536) &&
        (r.2.pcbs 0).any fun p => p.masterTableValid && decide (p.masterTable = 5) &&
          decide (p.ptl1Ptr = KAddr.page 4)) = true := by
    decide +kernel
  obtain ⟨⟨start, s⟩, hr, hcheck⟩ := (Option.any_eq_true _ _).mp hruns
  simp only [Bool.and_eq_true, decide_eq_true_eq, Option.any_eq_true] at hcheck
  obtain ⟨⟨huser, hkrnl⟩, p, hp, ⟨hvalid, hframe⟩, hptr⟩ := hcheck
  obtain ⟨hboot, hrun⟩ := runSmall_run hr
  have hwalks := hall start s _ (smallKernel_booted hboot) huser hkrnl
    (hrun.weaken fun _ _ _ h => ⟨of_decide_eq_true h.1, h.2⟩) 0 p hp hvalid
  have hptl1 := hwalks.ptl1Ptr
  rw [hptr, hframe] at hptl1
  cases hptl1

/-- A small run of settled operations leads to a consistent state. -/
theorem consistent_of_settling {userspcSize frames clusters : Nat} {dice : List Nat}
    {start s : KernelSystem} {ops : List KernelOp}
    (hrun : runSmall settling userspcSize frames clusters dice ops = some (start, s))
    (huser : start.userspcSize ≤ 65536) (hkrnl : start.krnlspcSize ≤ 65536) : s.Consistent := by
  obtain ⟨hstart, hsteps⟩ := settled_of_runSmall hrun
  obtain ⟨g, hhoused⟩ := housed_of_run hstart huser hkrnl hsteps
  exact ⟨g, hhoused.inv, hhoused.sound⟩

end KernelOp

/-- A cluster that a live process has something in: its master table, a page table, a page,
or the copy of a resident page. -/
def KernelSystem.ClusterUsed (s : KernelSystem) (c : Nat) : Prop :=
  (∃ h p, s.pcbs h = some p ∧ p.masterTableValid = false ∧ p.mtDisk = c) ∨
    (∃ h slot e, s.slotEntry h slot = some e ∧ e.status = PageTableL1Entry.statusPagedOut ∧
      e.block = c) ∨
    ∃ v e, s.descriptor v = some e ∧
      (e.PagedOut ∧ e.block = c ∨ e.Resident ∧ s.ot e.block = c)

/-- Process `h`, whose master table was in frame `m`, is gone and everything that is in use
belongs to a process that is still there. -/
structure KernelSystem.Returned (s : KernelSystem) (h m : Nat) : Prop where
  dead : s.pcbs h = none
  frames : ∀ f, s.HasFrame f → f ∉ s.ksEmpty → ∃ use, use ≠ .free ∧ s.Uses f use
  clusters : ∀ c, c < s.diskSize → s.dvt c = false → s.ClusterUsed c
  owners : ∀ f, s.HasFrame f → f ∉ s.ksEmpty → ∃ owner, (s.ksFt f).owner = some owner ∧
    owner ≠ .pcb h ∧ ∀ a, owner = .ptl1e a → a.frame ≠ m
  userOwners : ∀ f, f < s.userspcSize → f ∉ s.usEmpty → ∃ a, (s.usFt f).owner = some a ∧
    a.frame ≠ m

namespace Housed

variable {g : Layout} {s : KernelSystem}

/-- A page that holds something can be found. -/
theorem descriptor_of_held (hhoused : Housed g s) {v : LPage}
    (hheld : (g.desc v).Resident ∨ (g.desc v).PagedOut) : s.descriptor v = some (g.desc v) := by
  have hblank : ∀ t, g.place t = .gone ∨ g.place t = .lost → ∀ i, ¬ (g.cells t i).Resident ∧
      ¬ (g.cells t i).PagedOut := by
    intro t ht i
    rw [hhoused.inv.cells_blank ht]
    unfold blankPage
    decide
  have hplace : ¬ (g.place (.table v.proc v.slot) = .gone ∨
      g.place (.table v.proc v.slot) = .lost) := fun hnone =>
    hheld.elim (hblank _ hnone v.cell).1 (hblank _ hnone v.cell).2
  rw [not_or] at hplace
  rw [hhoused.inv.descriptor_eq (fun hnone => hplace.1 (hhoused.tables _ hnone _)) hplace.2,
    if_neg hplace.1]

/-- A cluster in use holds a table or a page of a process. -/
theorem clusterUsed (hhoused : Housed g s) {c : Nat} (hc : c < s.diskSize)
    (hused : s.dvt c = false) : s.ClusterUsed c := by
  obtain ⟨holder, hholder⟩ := hhoused.inv.user.clusters.ledger.covered hc (by simp [hused])
  match holder, hholder with
  | .page v, hheld =>
      right; right
      obtain ⟨hr, horigin, _⟩ | ⟨hp, hblock⟩ := hheld
      · exact ⟨v, _, hhoused.descriptor_of_held (.inl hr), .inr ⟨hr, horigin⟩⟩
      · exact ⟨v, _, hhoused.descriptor_of_held (.inr hp), .inl ⟨hp, hblock⟩⟩
  | .ext (.hand n), hheld => exact absurd hheld.1 id
  | .ext (.table (.master h)), hheld =>
      obtain ⟨p, hp, hvalid, hdisk⟩ := hhoused.inv.stored h c hheld
      exact .inl ⟨h, p, hp, hvalid, hdisk⟩
  | .ext (.table (.table h slot)), hheld =>
      right; left
      have hplace : g.place (.table h slot) = .cluster c := hheld
      have hnone : ¬ g.NoMaster h := fun hnone => by
        rw [hhoused.tables h hnone] at hplace
        cases hplace
      obtain ⟨e, he, hagree⟩ := hhoused.inv.slotEntry_agrees slot hnone
      rw [hplace] at hagree
      exact ⟨h, slot, e, he, hagree.1, hagree.2⟩

/-- What is in use belongs to the processes that there are. -/
theorem returned (hhoused : Housed g s) {h m : Nat} (hgone : g.place (.master h) = .gone)
    (hm : m ∈ s.ksEmpty) : s.Returned h m := by
  have hfree : ∀ t, g.place t ≠ .frame m := fun t ht =>
    hhoused.inv.frames.not_free (r := .table t) ht hm
  refine ⟨(hhoused.inv.live h).mpr hgone, fun f hf hnot => ?_, fun c => hhoused.clusterUsed,
    fun f hf hnot => ?_, fun f hf hnot => ?_⟩
  · obtain ⟨use, huse⟩ := hhoused.inv.uses_some hf
    refine ⟨use, ?_, huse⟩
    rintro rfl
    exact hnot huse
  · obtain ⟨use, huse⟩ := hhoused.inv.uses_some hf
    cases use with
    | free => exact absurd huse hnot
    | master h' =>
        have hplace := hhoused.inv.uses_master.mp huse
        obtain ⟨_, howner, _⟩ := hhoused.inv.masters h' f hplace
        refine ⟨_, howner, ?_, nofun⟩
        rintro ⟨⟩
        rw [hgone] at hplace
        cases hplace
    | table h' slot =>
        obtain ⟨_, m', hm', howner⟩ :=
          hhoused.inv.tables h' slot f (hhoused.inv.uses_table.mp huse)
        refine ⟨_, howner, nofun, ?_⟩
        rintro a ⟨⟩ rfl
        exact hfree _ hm'
  · obtain ⟨holder, hholder⟩ := hhoused.inv.user.frames.ledger.covered hf hnot
    match holder, hholder with
    | .hand n, hheld => exact absurd hheld.1 id
    | .page v, hheld =>
        obtain ⟨hr, rfl⟩ := hheld
        obtain ⟨_, a, ha, howner⟩ := hhoused.inv.user.frames.owner v hr
        refine ⟨a, howner, ?_⟩
        rintro rfl
        exact hfree _ (Layout.addr_eq_some.mp ha).1

end Housed

namespace KernelOp

/-- When a process is deleted in a run of settled calls, nothing of it is left. -/
theorem deleted_returns {levels h : Nat} {start s s' : KernelSystem} {p : KernelProcess}
    {ops : List KernelOp} (hstart : start.Booted) (huser : start.userspcSize ≤ 65536)
    (hkrnl : start.krnlspcSize ≤ 65536)
    (hrun : Run (fun s (op : KernelOp) s' => op.Unshared ∧ op.Settled s ∧ op.Step levels s s')
      start ops s) (hp : s.pcbs h = some p) (hsettled : (deleteProcess h).Settled s)
    (hdelete : s.deleteProcess h = .ok s') : s'.Returned h p.masterTable := by
  obtain ⟨g, hhoused⟩ := housed_of_run hstart huser hkrnl hrun
  obtain ⟨q, hq, hvalid⟩ := hsettled.masters h rfl
  cases hp.symm.trans hq
  obtain ⟨m, hm, hat⟩ := hhoused.inv.at_of_valid hp hvalid
  obtain ⟨g', hhoused', hgone, hfree⟩ := hhoused.deleted hm hsettled.order hdelete
  rw [hat.masterTable]
  exact hhoused'.returned hgone hfree

/-- A process is deleted while the page table and the page of another are out. -/
theorem deleted_returns_three : ∃ (s s' : KernelSystem) (p : KernelProcess),
    s.pcbs 2 = some p ∧ s.deleteProcess 2 = .ok s' ∧ s'.Returned 2 p.masterTable := by
  have hruns : (runSmall settling 1 3 4 [1, 0]
      [.createProcess, .createSegment 0 0 1 .readWrite, .pageFault 0 0, .createProcess,
        .createSegment 1 0 1 .readWrite, .createProcess]).any (fun r =>
      decide (r.1.userspcSize ≤ 65536) && decide (r.1.krnlspcSize ≤ 65536) &&
        (r.2.pcbs 2).isSome && (deleteProcess 2).settles r.2 &&
        Outcome.holds (r.2.deleteProcess 2) fun _ => true) = true := by
    decide +kernel
  obtain ⟨⟨start, s⟩, hr, hcheck⟩ := (Option.any_eq_true _ _).mp hruns
  simp only [Bool.and_eq_true, decide_eq_true_eq] at hcheck
  obtain ⟨⟨⟨⟨huser, hkrnl⟩, hsome⟩, htest⟩, hdelete⟩ := hcheck
  obtain ⟨p, hp⟩ := Option.isSome_iff_exists.mp hsome
  obtain ⟨s', hdelete, _⟩ := Outcome.of_holds hdelete
  obtain ⟨hstart, hsteps⟩ := settled_of_runSmall hr
  exact ⟨s, s', p, hp, hdelete,
    deleted_returns hstart huser hkrnl hsteps hp (settled_of_settles htest)
    hdelete⟩

/-- The page table of a process that is deleted stays in its frame, owned by an entry of the
master table that is gone. -/
theorem not_deleted_returns : ¬ ∀ (start s s' : KernelSystem) (h : Nat) (p : KernelProcess)
    (ops : List KernelOp), start.Booted → start.userspcSize ≤ 65536 →
    start.krnlspcSize ≤ 65536 →
    Run (fun s (op : KernelOp) s' => op.Unshared ∧ op.Step 2 s s') start ops s →
    s.pcbs h = some p → s.deleteProcess h = .ok s' → s'.Returned h p.masterTable := by
  intro hall
  have hruns : (runSmall (fun _ op _ => decide op.Unshared) 1 2 4 []
      [.createProcess, .createSegment 0 0 1 .readWrite]).any (fun r =>
      decide (r.1.userspcSize ≤ 65536) && decide (r.1.krnlspcSize ≤ 65536) &&
        (r.2.pcbs 0).any (fun p => decide (p.masterTable = 4)) &&
        Outcome.holds (r.2.deleteProcess 0) fun s' =>
          decide (s'.ksReserved ≤ 5 ∧ 5 < s'.krnlspcSize) &&
          decide (5 ∉ s'.ksEmpty) && decide ((s'.ksFt 5).owner = some (.ptl1e ⟨4, 0⟩))) = true := by
    decide +kernel
  obtain ⟨⟨start, s⟩, hr, hcheck⟩ := (Option.any_eq_true _ _).mp hruns
  simp only [Bool.and_eq_true, decide_eq_true_eq, Option.any_eq_true] at hcheck
  obtain ⟨⟨⟨huser, hkrnl⟩, p, hp, hframe⟩, hdelete⟩ := hcheck
  obtain ⟨s', hdelete, hleft⟩ := Outcome.of_holds hdelete
  simp only [Bool.and_eq_true, decide_eq_true_eq] at hleft
  obtain ⟨⟨hframe', hused⟩, howner⟩ := hleft
  obtain ⟨hboot, hrun⟩ := runSmall_run hr
  have hreturned := hall start s s' 0 p _ (smallKernel_booted hboot) huser hkrnl
    (hrun.weaken fun _ _ _ h => ⟨of_decide_eq_true h.1, h.2⟩) hp hdelete
  obtain ⟨owner, howner', _, hinto⟩ := hreturned.owners 5 hframe' hused
  cases howner.symm.trans howner'
  exact hinto ⟨4, 0⟩ rfl hframe.symm

end KernelOp

end VirtualMemory
