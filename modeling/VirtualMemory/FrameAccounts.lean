import VirtualMemory.AddressSpace
import VirtualMemory.Faults
import VirtualMemory.KernelRuns

/-!
# Kernel frames and page table clusters in every state of a run

Runs that create processes and private segments, fault and access, and never evict a
master table. Between two calls each unreserved frame is free once, or named by one
process or one first level entry, which its frame table entry points back at, and each
cluster that a first level entry names is in use and named by nothing else. The overlap
test of `create_segment` and `load_segment` does not see every overlap; a run in which it
misses one is not covered, and breaks the accounts.
-/

namespace VirtualMemory

open Function UserSpace KernelSystem PageTableL2Entry

/-- What the code can use an unreserved frame for. -/
inductive FrameUse where
  | free
  | master (h : Nat)
  | table (h : Nat) (slot : Fin 64)

namespace KernelSystem

/-- The address of a first level entry of a process, as the code walks to it. -/
def entryAddr (p : KernelProcess) (slot : Fin 64) : KAddr := p.ptl1Ptr.index slot

/-- The free list, an object or a first level entry names a frame. -/
def Uses (s : KernelSystem) (f : Nat) : FrameUse → Prop
  | .free => f ∈ s.ksEmpty
  | .master h => ∃ p, s.pcbs h = some p ∧ p.masterTableValid = true ∧ p.masterTable = f
  | .table h slot => ∃ p, s.pcbs h = some p ∧ p.masterTableValid = true ∧
      (s.ptl1 (entryAddr p slot)).status = PageTableL1Entry.statusPresent ∧
      (s.ptl1 (entryAddr p slot)).block = f

/-- The frame is on the free list once, or its frame table entry points back. -/
def Recorded (s : KernelSystem) (f : Nat) : FrameUse → Prop
  | .free => s.ksEmpty.count f = 1
  | .master h => (s.ksFt f).type = .ksSegTable ∧ (s.ksFt f).owner = some (.pcb h)
  | .table h slot => (s.ksFt f).type = .ksPageTable ∧
      ∃ p, s.pcbs h = some p ∧ (s.ksFt f).owner = some (.ptl1e (entryAddr p slot))

/-- A first level entry that says its page table is in a cluster. -/
def NamesCluster (s : KernelSystem) (h : Nat) (slot : Fin 64) (c : Nat) : Prop :=
  ∃ p, s.pcbs h = some p ∧ p.masterTableValid = true ∧
    (s.ptl1 (entryAddr p slot)).status = PageTableL1Entry.statusPagedOut ∧
    (s.ptl1 (entryAddr p slot)).block = c

/-- The cluster of a page table, which nothing else names. -/
structure TableCluster (s : KernelSystem) (h : Nat) (slot : Fin 64) (c : Nat) : Prop where
  inUse : c < s.diskSize ∧ s.dvt c = false
  entries : ∀ h' slot', s.NamesCluster h' slot' c → h' = h ∧ slot' = slot
  pages : ∀ v e, s.descriptor v = some e → e.PagedOut → e.block ≠ c
  origins : ∀ f, f < s.userspcSize → f ∉ s.usEmpty → s.ot f ≠ c

structure Accounted (s : KernelSystem) : Prop where
  frames : ∀ f, s.HasFrame f → ∃! use, s.Uses f use
  recorded : ∀ f use, s.HasFrame f → s.Uses f use → s.Recorded f use
  clusters : ∀ h slot c, s.NamesCluster h slot c → s.TableCluster h slot c

end KernelSystem

theorem entryAddr_eq {p : KernelProcess} {m : Nat} (hat : p.At m) (slot : Fin 64) :
    entryAddr p slot = ⟨m, slotCell slot⟩ := by
  rw [entryAddr, hat.ptl1Ptr, index_slotCell]

namespace KernelInv

variable {g : Layout} {s : KernelSystem} {h : Nat} {slot : Fin 64} {f : Nat}

theorem at_of_valid (hinv : KernelInv g noHand noHand s) {p : KernelProcess}
    (hp : s.pcbs h = some p) (hvalid : p.masterTableValid = true) :
    ∃ m, g.place (.master h) = .frame m ∧ p.At m := by
  obtain ⟨m, hm⟩ := hinv.hasMaster_iff.mp ⟨p, hp, hvalid⟩
  obtain ⟨q, _, hq, hat⟩ := hinv.pcb_ok hm
  rw [hp] at hq
  cases hq
  exact ⟨m, hm, hat⟩

theorem uses_master (hinv : KernelInv g noHand noHand s) :
    s.Uses f (.master h) ↔ g.place (.master h) = .frame f := by
  constructor
  · rintro ⟨p, hp, hvalid, hf⟩
    obtain ⟨m, hm, hat⟩ := hinv.at_of_valid hp hvalid
    rw [← hf, hat.masterTable]
    exact hm
  · intro hf
    obtain ⟨p, _, hp, hat⟩ := hinv.pcb_ok hf
    exact ⟨p, hp, hat.valid, hat.masterTable⟩

theorem uses_table (hinv : KernelInv g noHand noHand s) :
    s.Uses f (.table h slot) ↔ g.place (.table h slot) = .frame f := by
  constructor
  · rintro ⟨p, hp, hvalid, hstatus, hblock⟩
    obtain ⟨m, hm, hat⟩ := hinv.at_of_valid hp hvalid
    have hagree := hinv.agrees hm slot
    rw [← entryAddr_eq hat] at hagree
    rw [hagree.present hstatus, hblock]
  · intro hf
    obtain ⟨m, hm⟩ := hinv.master_of_table hf
    obtain ⟨p, _, hp, hat⟩ := hinv.pcb_ok hm
    have hagree := hinv.agrees hm slot
    rw [hf, ← entryAddr_eq hat] at hagree
    exact ⟨p, hp, hat.valid, hagree.1, hagree.2⟩

/-- A frame is used for one thing. -/
theorem uses_one (hinv : KernelInv g noHand noHand s) {use use' : FrameUse}
    (huse : s.Uses f use) (huse' : s.Uses f use') : use = use' := by
  have ledger := hinv.frames
  cases use with
  | free =>
      cases use' with
      | free => rfl
      | master h => exact absurd huse (ledger.not_free (r := .table (.master h))
          (hinv.uses_master.mp huse'))
      | table h slot => exact absurd huse (ledger.not_free (r := .table (.table h slot))
          (hinv.uses_table.mp huse'))
  | master h =>
      have hheld := hinv.uses_master.mp huse
      cases use' with
      | free => exact absurd huse' (ledger.not_free (r := .table (.master h)) hheld)
      | master h' =>
          cases hinv.frame_inj hheld (hinv.uses_master.mp huse')
          rfl
      | table h' slot' => cases hinv.frame_inj hheld (hinv.uses_table.mp huse')
  | table h slot =>
      have hheld := hinv.uses_table.mp huse
      cases use' with
      | free => exact absurd huse' (ledger.not_free (r := .table (.table h slot)) hheld)
      | master h' => cases hinv.frame_inj hheld (hinv.uses_master.mp huse')
      | table h' slot' =>
          cases hinv.frame_inj hheld (hinv.uses_table.mp huse')
          rfl

/-- A frame that is not reserved is used for something. -/
theorem uses_some (hinv : KernelInv g noHand noHand s) (hf : s.HasFrame f) :
    ∃ use, s.Uses f use := by
  by_cases hfree : f ∈ s.ksEmpty
  · exact ⟨.free, hfree⟩
  · obtain ⟨holder, hholder⟩ := hinv.frames.covered hf hfree
    match holder, hholder with
    | .table (.master h), hheld => exact ⟨.master h, hinv.uses_master.mpr hheld⟩
    | .table (.table h slot), hheld => exact ⟨.table h slot, hinv.uses_table.mpr hheld⟩
    | .hand n, hheld => exact absurd hheld.1 id

end KernelInv

/-- A state that no master table was evicted in and no shared segment was mapped in. -/
structure Plain (g : Layout) (s : KernelSystem) : Prop where
  inv : KernelInv g noHand noHand s
  sound : g.Sound
  masters : ∀ h, g.place (.master h) = .gone ∨ ∃ m, g.place (.master h) = .frame m
  unshared : ∀ v, (g.desc v).getShared = false

namespace Plain

variable {g : Layout} {s : KernelSystem} {h : Nat} {slot : Fin 64} {f : Nat}

theorem frame_of_pcb (hplain : Plain g s) {p : KernelProcess} (hp : s.pcb h = .ok p) :
    ∃ m, g.place (.master h) = .frame m := by
  refine (hplain.masters h).resolve_left fun hgone => ?_
  rw [← hplain.inv.live h, KernelSystem.pcb_eq_ok.mp hp] at hgone
  cases hgone

theorem resident (hplain : Plain g s) {p : KernelProcess} (hp : s.pcbs h = some p) :
    ∃ m, g.place (.master h) = .frame m ∧ p.At m := by
  obtain ⟨m, hm⟩ := hplain.frame_of_pcb (KernelSystem.pcb_eq_ok.mpr hp)
  obtain ⟨q, _, hq, hat⟩ := hplain.inv.pcb_ok hm
  rw [hp] at hq
  cases hq
  exact ⟨m, hm, hat⟩

theorem place_of_namesCluster (hplain : Plain g s) {c : Nat} (hc : s.NamesCluster h slot c) :
    g.place (.table h slot) = .cluster c := by
  obtain ⟨p, hp, _, hstatus, hblock⟩ := hc
  obtain ⟨m, hm, hat⟩ := hplain.resident hp
  have hagree := hplain.inv.agrees hm slot
  rw [← entryAddr_eq hat] at hagree
  rw [(hagree.pagedOut hstatus).resolve_right (hplain.sound h slot m hm), hblock]

/-- A descriptor that can be read is the descriptor of a page. -/
theorem desc_of_descriptor (hplain : Plain g s) {v : LPage} {e : PageTableL2Entry}
    (he : s.descriptor v = some e) : g.desc v = e := by
  obtain hgone | ⟨m, hm⟩ := hplain.masters v.proc
  · rw [← hplain.inv.live] at hgone
    simp [descriptor, slotEntry, masterPage, hgone] at he
  · exact hplain.inv.desc_of_descriptor hplain.sound hm he

theorem tableCluster (hplain : Plain g s) {c : Nat} (hc : s.NamesCluster h slot c) :
    s.TableCluster h slot c := by
  have hplace := hplain.place_of_namesCluster hc
  have ledger := hplain.inv.user.clusters.ledger
  have hholds : clusterHolds g.desc s.ot (clusterOf g noHand) (.ext (.table (.table h slot))) c :=
    hplace
  have hlt := ledger.holds_dom hholds
  refine ⟨⟨hlt, by simpa using ledger.not_free hholds⟩, fun h' slot' hc' => ?_,
    fun v e he hout hblock => ?_, fun f hf hused horigin => ?_⟩
  · have hsame := ledger.inj (q := .ext (.table (.table h' slot')))
      hholds (hplain.place_of_namesCluster hc')
    simp only [ClusterHolder.ext.injEq, KHolder.table.injEq, KTable.table.injEq] at hsame
    exact ⟨hsame.1.symm, hsame.2.symm⟩
  · obtain rfl := hplain.desc_of_descriptor he
    cases ledger.inj (q := .page v) hholds (.inr ⟨hout, hblock⟩)
  · obtain ⟨holder, hholder⟩ := hplain.inv.user.frames.ledger.covered hf hused
    cases holder with
    | hand n => exact absurd hholder.1 id
    | page v =>
        have hnull : c ≠ nullCluster := by
          have := hplain.inv.user.clusters.small
          unfold maxClusters at this
          unfold nullCluster
          omega
        cases ledger.inj (q := .page v) hholds
          (.inl ⟨hholder.1, hholder.2 ▸ horigin, hnull⟩)

/-- The accounts of such a state balance. -/
theorem accounted (hplain : Plain g s) : s.Accounted := by
  refine ⟨fun f hf => ?_, fun f use hf huse => ?_, fun h slot c hc => hplain.tableCluster hc⟩
  · obtain ⟨use, huse⟩ := hplain.inv.uses_some hf
    exact ⟨use, huse, fun use' huse' => hplain.inv.uses_one huse' huse⟩
  · cases use with
    | free => exact List.count_eq_one_of_mem hplain.inv.nodup huse
    | master h =>
        obtain ⟨htype, howner, _⟩ := hplain.inv.masters h f (hplain.inv.uses_master.mp huse)
        exact ⟨htype, howner⟩
    | table h slot =>
        obtain ⟨htype, m, hm, howner⟩ := hplain.inv.tables h slot f (hplain.inv.uses_table.mp huse)
        obtain ⟨p, _, hp, hat⟩ := hplain.inv.pcb_ok hm
        exact ⟨htype, p, hp, by rw [entryAddr_eq hat, howner]⟩

end Plain

/-- The tests that `create_segment` and `load_segment` make before they record a segment. -/
def KernelSystem.refuses (s : KernelSystem) (h ordinal startAddr size : Nat) : Bool :=
  (s.pcbs h).any fun p =>
    !segmentArgs p startAddr size || s.anyOverlap p ordinal startAddr size

/-- None of the pages of a range is in a segment. -/
def KernelSystem.Clear (s : KernelSystem) (h startAddr size : Nat) : Prop :=
  ∀ i, i < size → ¬ s.InSegment (pageOf h (pageAddr startAddr i))

instance (s : KernelSystem) (v : LPage) : Decidable (s.InSegment v) :=
  decidable_of_iff ((s.descriptor v).any (·.getInseg) = true) <| by
    simp [InSegment, Option.any_eq_true]

instance (s : KernelSystem) (h startAddr size : Nat) : Decidable (s.Clear h startAddr size) :=
  inferInstanceAs (Decidable (∀ i, i < size → _))

instance (s : KernelSystem) (h : Nat) : Decidable (s.HasMaster h) :=
  decidable_of_iff ((s.pcbs h).any (·.masterTableValid) = true) <| by
    simp [HasMaster, Option.any_eq_true]

/-- No process lost its master table. -/
def KernelSystem.KeepsMasters (s s' : KernelSystem) : Prop :=
  ∀ h, h < s.nextPcb → s.HasMaster h → s'.HasMaster h

instance (s s' : KernelSystem) : Decidable (s.KeepsMasters s') :=
  inferInstanceAs (Decidable (∀ h, h < s.nextPcb → _))

namespace KernelOp

/-- The calls that make and use private address spaces; faults are on pages of segments. -/
def Private (s : KernelSystem) : KernelOp → Prop
  | .createProcess | .createSegment .. | .loadSegment .. | .access .. => True
  | .pageFault h addr => s.InSegment (pageOf h addr)
  | _ => False

/-- A new segment is refused, or has no page that is in a segment already. -/
def Fits (s : KernelSystem) : KernelOp → Prop
  | .createSegment h startAddr size _ =>
      s.refuses h (startAddr / 2 ^ 10 % 2 ^ 14) startAddr size = true ∨ s.Clear h startAddr size
  | .loadSegment h startAddr size _ _ =>
      s.refuses h (startAddr / 2 ^ 10 % 2 ^ 10) startAddr size = true ∨ s.Clear h startAddr size
  | _ => True

instance (s : KernelSystem) (op : KernelOp) : Decidable (op.Private s) := by
  cases op <;> unfold Private <;> infer_instance

instance (s : KernelSystem) (op : KernelOp) : Decidable (op.Fits s) := by
  cases op <;> unfold Fits <;> infer_instance

end KernelOp

namespace Plain

variable {g g' : Layout} {s s' : KernelSystem} {h addr startAddr size : Nat}

/-- What is left to be shown of a call, once the invariant is known to hold after it. -/
theorem next (hplain : Plain g s) (hinv : KernelInv g' noHand noHand s') (hsound : g'.Sound)
    (hkeeps : s.KeepsMasters s')
    (hnew : ∀ h, g.place (.master h) = .gone → g'.place (.master h) = .gone ∨ s'.HasMaster h)
    (hunshared : ∀ v, (g'.desc v).getShared = false) : Plain g' s' := by
  refine ⟨hinv, hsound, fun h => ?_, hunshared⟩
  obtain hgone | ⟨m, hm⟩ := hplain.masters h
  · exact (hnew h hgone).imp_right hinv.hasMaster_iff.mp
  · right
    refine hinv.hasMaster_iff.mp (hkeeps h ?_ (hplain.inv.hasMaster_iff.mpr ⟨m, hm⟩))
    by_contra hle
    rw [(hplain.inv.fresh h (Nat.not_lt.mp hle)).1] at hm
    cases hm

/-- A call that makes no object makes no process. -/
theorem nothing_new (hplain : Plain g s) (hinv : KernelInv g' noHand noHand s')
    (hobjects : SameObjects s s') :
    ∀ h, g.place (.master h) = .gone → g'.place (.master h) = .gone ∨ s'.HasMaster h := by
  intro h hgone
  left
  rw [← hplain.inv.live] at hgone
  have hpcb := hobjects.pcbs h
  rw [hgone] at hpcb
  rw [← hinv.live]
  exact Option.map_eq_none_iff.mp hpcb

theorem unshared_but {loose : KTable → Prop} {mine : Nat → Prop} {but : LPage → Prop}
    (hplain : Plain g s) (hcarried : Carried loose mine but g s g' s')
    (hbut : ∀ v, but v → (g'.desc v).getShared = false) (v : LPage) :
    (g'.desc v).getShared = false := by
  by_cases hv : but v
  · exact hbut v hv
  · exact (hcarried.pages v hv).sameRights.shared.trans (hplain.unshared v)

theorem inSegment_pageOf (hplain : Plain g s) {m : Nat} (hm : g.place (.master h) = .frame m) :
    s.InSegment (pageOf h addr) ↔ (g.desc (pageOf h addr)).getInseg = true :=
  hplain.inv.inSegment_iff hplain.sound hm

/-- A segment that is refused is not created. -/
theorem newSegment_refused {ordinal : Nat} {status : Status}
    {work : KernelSystem → KAddr → Nat → Except Halt KernelSystem} {m : Nat}
    (hinv : KernelInv g noHand noHand s) (hm : g.place (.master h) = .frame m)
    (hrefuses : s.refuses h ordinal startAddr size = true)
    (hnew : s.newSegment h ordinal startAddr size work = .ok (status, s')) : status = .trap := by
  obtain ⟨p, hp, hpcb, hat⟩ := hinv.pcb_ok hm
  have hp' : (s.ksLockPage m).pcb h = .ok p := hp
  rw [refuses, hpcb, Option.any_some, Bool.or_eq_true, Bool.not_eq_true'] at hrefuses
  unfold newSegment at hnew
  simp only [hp, Outcome.ok_bind, hinv.masterTableLock_ok hm, hp'] at hnew
  obtain hargs | hover := hrefuses
  · simp only [hargs, Bool.not_false, if_true] at hnew
    cases hnew
    rfl
  · have hover' : (s.ksLockPage m).anyOverlap p ordinal startAddr size = true := hover
    simp only [hover', if_true] at hnew
    split at hnew <;>
    · cases hnew
      rfl

/-- The range of a segment that is created is free. -/
theorem clear_range {ordinal : Nat} {status : Status}
    {work : KernelSystem → KAddr → Nat → Except Halt KernelSystem} {m : Nat}
    (hplain : Plain g s) (hm : g.place (.master h) = .frame m)
    (hfits : s.refuses h ordinal startAddr size = true ∨ s.Clear h startAddr size)
    (hnew : s.newSegment h ordinal startAddr size work = .ok (status, s')) :
    status = .ok → ∀ v, InRange h startAddr size v → (g.desc v).getInseg = false := by
  rintro rfl _ ⟨i, hi, rfl⟩
  obtain hrefuses | hclear := hfits
  · cases newSegment_refused hplain.inv hm hrefuses hnew
  · have hnot := hclear i hi
    rw [hplain.inSegment_pageOf hm] at hnot
    simpa using hnot

/-- The pages of a new segment are private. -/
theorem created (hplain : Plain g s) {m ordinal : Nat} {accType : AccessType} {status : Status}
    {content : Nat → Option Page} (hinv : KernelInv g' noHand noHand s')
    (hobjects : SameObjects s s') (hm : g.place (.master h) = .frame m)
    (hcreated : SegmentCreated g s h ordinal startAddr size accType content g' s' status)
    (hkeeps : s.KeepsMasters s') : Plain g' s' := by
  obtain ⟨_, hcarried, rfl⟩ | ⟨_, _, hcarried, hpages⟩ := hcreated
  · exact hplain.next hinv hplain.sound hkeeps (hplain.nothing_new hinv hobjects) hplain.unshared
  · refine hplain.next hinv (hcarried.sound hplain.sound) hkeeps
      (hplain.nothing_new hinv hobjects) (hplain.unshared_but hcarried ?_)
    rintro _ ⟨i, hi, rfl⟩
    exact (hpages i hi).1.shared

/-- A call of such a run keeps the state plain. -/
theorem step {levels : Nat} {op : KernelOp} (hplain : Plain g s) (hprivate : op.Private s)
    (hfits : op.Fits s) (hkeeps : s.KeepsMasters s') (hstep : op.Step levels s s') :
    ∃ g', Plain g' s' := by
  cases op with
  | createProcess =>
      obtain ⟨⟨h, s₁⟩, hcreate, hret⟩ := Outcome.bind_ok hstep
      cases hret
      obtain ⟨g', m, hinv', hm, hcarried, hadded, _⟩ :=
        hplain.inv.createProcess_inv hplain.sound hcreate
      refine ⟨g', hplain.next hinv' (hcarried.sound hplain.sound) hkeeps (fun h' hgone => ?_)
        (hplain.unshared_but hcarried nofun)⟩
      by_cases hh : h' = h
      · subst h'
        exact .inr (hinv'.hasMaster_iff.mpr ⟨m, hm⟩)
      · left
        rw [← hplain.inv.live] at hgone
        have hpcb := hadded.pcbs h' hh
        rw [hgone] at hpcb
        rw [← hinv'.live]
        exact Option.map_eq_none_iff.mp hpcb
  | createSegment h startAddr size accType =>
      obtain ⟨⟨status, s₁⟩, hcreate, hret⟩ := Outcome.bind_ok hstep
      cases hret
      obtain ⟨p, hp, _⟩ := Outcome.bind_ok hcreate
      obtain ⟨m, hm⟩ := hplain.frame_of_pcb hp
      obtain ⟨g', hinv', _, hobjects, hcreated⟩ := hplain.inv.createSegment_inv hplain.sound hm
        (hplain.clear_range hm hfits hcreate) hcreate
      exact ⟨g', hplain.created hinv' hobjects hm hcreated hkeeps⟩
  | loadSegment h startAddr size accType content =>
      obtain ⟨⟨status, s₁⟩, hload, hret⟩ := Outcome.bind_ok hstep
      cases hret
      obtain ⟨p, hp, _⟩ := Outcome.bind_ok hload
      obtain ⟨m, hm⟩ := hplain.frame_of_pcb hp
      obtain ⟨g', hinv', _, hobjects, hcreated⟩ := hplain.inv.loadSegment_inv hplain.sound hm
        (hplain.clear_range hm hfits hload) hload
      exact ⟨g', hplain.created hinv' hobjects hm hcreated hkeeps⟩
  | pageFault h addr =>
      cases levels with
      | zero => cases hstep
      | succ d =>
          obtain ⟨_, hlock, _⟩ := Outcome.bind_ok hstep
          obtain ⟨p, hp, _⟩ := Outcome.bind_ok hlock
          obtain ⟨m, hm⟩ := hplain.frame_of_pcb hp
          obtain ⟨g', hinv', _, hcarried, hobjects, hfaulted, _⟩ := hplain.inv.pageFault_inv
            hplain.sound hm ((hplain.inSegment_pageOf hm).mp hprivate) (hplain.unshared _) hstep
          refine ⟨g', hplain.next hinv' (hcarried.sound hplain.sound) hkeeps
            (hplain.nothing_new hinv' hobjects) (hplain.unshared_but hcarried ?_)⟩
          rintro _ rfl
          exact hfaulted.rights.shared.trans (hplain.unshared _)
  | access pid addr type =>
      obtain ⟨⟨status, s₁⟩, haccess, hret⟩ := Outcome.bind_ok hstep
      cases hret
      cases levels with
      | zero => cases haccess
      | succ d =>
          obtain ⟨h, hpcb, hrest⟩ := Outcome.bind_ok haccess
          obtain ⟨_, hlock, _⟩ := Outcome.bind_ok hrest
          obtain ⟨p, hp, _⟩ := Outcome.bind_ok hlock
          obtain ⟨m, hm⟩ := hplain.frame_of_pcb hp
          obtain ⟨g', hinv', _, hcarried, hobjects, haccessed⟩ := hplain.inv.access_inv
            hplain.sound hm hpcb (hplain.unshared _) haccess
          refine ⟨g', hplain.next hinv' (hcarried.sound hplain.sound) hkeeps
            (hplain.nothing_new hinv' hobjects) (hplain.unshared_but hcarried ?_)⟩
          rintro _ rfl
          rw [haccessed.entry]
          split
          · exact (sameRights_set (.refl _) (by decide) (by decide)).shared.trans
              (hplain.unshared _)
          · exact hplain.unshared _
  | _ => exact absurd hprivate id

end Plain

theorem plain_none {s : KernelSystem} (hinv : KernelInv Layout.none noHand noHand s) :
    Plain Layout.none s := by
  refine ⟨hinv, Layout.sound_none, fun _ => .inl rfl, fun _ => ?_⟩
  change (⟨0#16, 0#8, 0#8⟩ : PageTableL2Entry).getShared = false
  decide

namespace KernelOp

/-- In every state of a run of private calls that evicts no master table, and whose segments
fit, the kernel frames and the clusters of page tables are accounted for. -/
theorem kernel_accounted {levels : Nat} {start s : KernelSystem} {ops : List KernelOp}
    (hstart : start.Booted) (huser : start.userspcSize ≤ 65536)
    (hkrnl : start.krnlspcSize ≤ 65536)
    (hrun : Run (fun s op s' => (op.Private s ∧ s.KeepsMasters s') ∧ op.Fits s ∧
      op.Step levels s s') start ops s) : s.Accounted := by
  have hplain : ∃ g, Plain g s := by
    refine hrun.invariant (fun s => ∃ g, Plain g s) ?_ ⟨_, plain_none (hstart.inv huser hkrnl)⟩
    rintro s op s' ⟨g, hplain⟩ ⟨⟨hprivate, hkeeps⟩, hfits, hstep⟩
    exact hplain.step hprivate hfits hkeeps hstep
  obtain ⟨g, hplain⟩ := hplain
  exact hplain.accounted

/-- Two page tables take turns in one frame. -/
theorem kernel_accounted_turns : ∃ s : KernelSystem, s.NamesCluster 0 0 0 ∧ s.Accounted := by
  have hruns : (runSmall (fun s op s' => decide ((op.Private s ∧ s.KeepsMasters s') ∧ op.Fits s))
      1 2 4 [1] [.createProcess, .loadSegment 0 0 1 .readWrite fun _ => blankPage,
        .createSegment 0 (256 * 1024) 1 .read]).any (fun r =>
      decide (r.1.userspcSize ≤ 65536) && decide (r.1.krnlspcSize ≤ 65536) &&
        (r.2.pcbs 0).any fun p => p.masterTableValid &&
          decide ((r.2.ptl1 (entryAddr p 0)).status = PageTableL1Entry.statusPagedOut) &&
          decide ((r.2.ptl1 (entryAddr p 0)).block = 0)) = true := by
    decide +kernel
  obtain ⟨⟨start, s⟩, hr, hcheck⟩ := (Option.any_eq_true _ _).mp hruns
  simp only [Bool.and_eq_true, decide_eq_true_eq, Option.any_eq_true] at hcheck
  obtain ⟨⟨huser, hkrnl⟩, p, hp, ⟨hvalid, hstatus⟩, hblock⟩ := hcheck
  obtain ⟨hboot, hrun⟩ := runSmall_run hr
  have hsteps : Run (fun s (op : KernelOp) s' => (op.Private s ∧ s.KeepsMasters s') ∧ op.Fits s ∧
      op.Step 2 s s') start _ s := hrun.weaken fun _ _ _ h => by
    obtain ⟨hkept, hfits⟩ := of_decide_eq_true h.1
    exact ⟨hkept, hfits, h.2⟩
  exact ⟨s, ⟨p, hp, hvalid, hstatus, hblock⟩,
    kernel_accounted (smallKernel_booted hboot) huser hkrnl hsteps⟩

/-- A loaded segment is recorded at another page than it is at, so that another segment is
created over it: the user frame that is lost writes to a descriptor that has become a first
level entry of another process. -/
theorem kernel_not_accounted : ¬ ∀ (start s : KernelSystem) (ops : List KernelOp),
    start.Booted → start.userspcSize ≤ 65536 → start.krnlspcSize ≤ 65536 →
    Run (fun s op s' => (op.Private s ∧ s.KeepsMasters s') ∧ op.Step 2 s s') start ops s →
    s.Accounted := by
  intro hall
  have hruns : (runSmall (fun s op s' => decide (op.Private s ∧ s.KeepsMasters s')) 1 3 6 [1, 0]
      [.createProcess, .loadSegment 0 (1026 * 1024) 1 .read fun _ => blankPage,
        .createSegment 0 (256 * 1024) 1 .read, .createSegment 0 (1026 * 1024) 1 .read,
        .createProcess, .pageFault 0 (256 * 1024)]).any (fun r =>
      decide (r.1.userspcSize ≤ 65536) && decide (r.1.krnlspcSize ≤ 65536) &&
        decide (r.2.diskSize = 6) && (r.2.pcbs 1).any fun p => p.masterTableValid &&
          decide ((r.2.ptl1 (entryAddr p 2)).status = PageTableL1Entry.statusPagedOut) &&
          decide ((r.2.ptl1 (entryAddr p 2)).block = 12288)) = true := by
    decide +kernel
  obtain ⟨⟨start, s⟩, hr, hcheck⟩ := (Option.any_eq_true _ _).mp hruns
  simp only [Bool.and_eq_true, decide_eq_true_eq, Option.any_eq_true] at hcheck
  obtain ⟨⟨⟨huser, hkrnl⟩, hdisk⟩, p, hp, ⟨hvalid, hstatus⟩, hblock⟩ := hcheck
  obtain ⟨hboot, hrun⟩ := runSmall_run hr
  have haccounted := hall start s _ (smallKernel_booted hboot) huser hkrnl
    (hrun.weaken fun _ _ _ h => ⟨of_decide_eq_true h.1, h.2⟩)
  have hcluster := haccounted.clusters 1 2 12288 ⟨p, hp, hvalid, hstatus, hblock⟩
  have hlt := hcluster.inUse.1
  omega

end KernelOp

end VirtualMemory
