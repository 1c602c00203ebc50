import VirtualMemory.FrameAccounts
import VirtualMemory.Snapshots

/-!
# The accounts of the whole system

Runs of all public operations, paging, loads and stores, with shared segments, clones and
deletions. Between two steps every frame, of the kernel or of the users, is free once or used
for one thing that its frame table entry points back at, and no cluster is used for two things.
-/

namespace VirtualMemory

open Function UserSpace KernelSystem PageTableL2Entry

/-- What the code can use a cluster for. -/
inductive ClusterUse where
  | page (v : LPage)
  | table (h : Nat) (slot : Fin 64)

namespace KernelSystem

/-- A page whose descriptor says that it is in a frame. -/
def HousesPage (s : KernelSystem) (f : Nat) (v : LPage) : Prop :=
  ∃ d, s.descriptor v = some d ∧ d.Resident ∧ d.block = f

/-- The address of the descriptor of a page, as the code walks to it. -/
def IsPtl2Addr (s : KernelSystem) (v : LPage) (a : KAddr) : Prop :=
  ∃ p, s.pcbs v.proc = some p ∧ p.masterTableValid = true ∧
    (s.ptl1 (entryAddr p v.slot)).status = PageTableL1Entry.statusPresent ∧
    a = ⟨(s.ptl1 (entryAddr p v.slot)).block, v.cell⟩

/-- A descriptor or a first level entry names a cluster. -/
def UsesCluster (s : KernelSystem) (c : Nat) : ClusterUse → Prop
  | .page v => ∃ d, s.descriptor v = some d ∧ s.HasCluster d c
  | .table h slot => s.NamesCluster h slot c

/-- The accounts of the user's frames. -/
structure UserAccounted (s : KernelSystem) : Prop where
  free : ∀ f, f ∈ s.usEmpty →
    f < s.userspcSize ∧ s.usEmpty.count f = 1 ∧ ∀ v, ¬ s.HousesPage f v
  used : ∀ f, f < s.userspcSize → f ∉ s.usEmpty → ∃! v, s.HousesPage f v
  recorded : ∀ f v, s.HousesPage f v → f < s.userspcSize ∧ (s.usFt f).type = .usUserPage ∧
    ∃ a, s.IsPtl2Addr v a ∧ (s.usFt f).owner = some a ∧ s.descriptor v = some (s.mem a)

/-- All accounts of a state: the kernel's frames, the users' frames, and the clusters. -/
structure SystemAccounted (s : KernelSystem) : Prop where
  kernelFrames : ∀ f, s.HasFrame f → ∃! use, s.Uses f use
  kernelRecorded : ∀ f use, s.HasFrame f → s.Uses f use → s.Recorded f use
  userFrames : s.UserAccounted
  clustersOnce : ∀ c use use', s.UsesCluster c use → s.UsesCluster c use' → use = use'
  clustersInUse : ∀ c use, s.UsesCluster c use → c < s.diskSize ∧ s.dvt c = false

end KernelSystem

namespace KernelInv

variable {g : Layout} {s : KernelSystem} {f h c : Nat} {slot : Fin 64} {v : LPage}

/-- A frame is on the free list once, or its frame table entry points back. -/
theorem recorded (hinv : KernelInv g noHand noHand s) {use : FrameUse} (huse : s.Uses f use) :
    s.Recorded f use := by
  cases use with
  | free => exact List.count_eq_one_of_mem hinv.nodup huse
  | master h =>
      obtain ⟨htype, howner, _⟩ := hinv.masters h f (hinv.uses_master.mp huse)
      exact ⟨htype, howner⟩
  | table h slot =>
      obtain ⟨htype, m, hm, howner⟩ := hinv.tables h slot f (hinv.uses_table.mp huse)
      obtain ⟨p, _, hp, hat⟩ := hinv.pcb_ok hm
      exact ⟨htype, p, hp, by rw [entryAddr_eq hat, howner]⟩

theorem descriptor_of_frame (hinv : KernelInv g noHand noHand s) (hsound : g.Sound)
    (hf : g.place (.table v.proc v.slot) = .frame f) : s.descriptor v = some (g.desc v) := by
  obtain ⟨m, hm⟩ := hinv.master_of_table hf
  rw [hinv.descriptor_eq (not_noMaster hm) (hsound _ _ m hm), if_neg (by rw [hf]; nofun)]

theorem housesPage_iff (hinv : KernelInv g noHand noHand s) (hsound : g.Sound)
    (hall : s.AllMasters) :
    s.HousesPage f v ↔ frameHolds g.desc noHand (.page v) f := by
  constructor
  · rintro ⟨d, hd, hresident, hblock⟩
    obtain ⟨_, rfl⟩ := hall.desc hinv hsound hd
    exact ⟨hresident, hblock⟩
  · rintro ⟨hresident, hblock⟩
    obtain ⟨k, hk⟩ := hinv.resident_frame hresident
    exact ⟨_, hinv.descriptor_of_frame hsound hk, hresident, hblock⟩

/-- The code walks to where the descriptor is. -/
theorem isPtl2Addr (hinv : KernelInv g noHand noHand s) {a : KAddr} (ha : g.addr v = some a) :
    s.IsPtl2Addr v a := by
  obtain ⟨hf, hcell⟩ := Layout.addr_eq_some.mp ha
  obtain ⟨p, hp, hvalid, hstatus, hblock⟩ := hinv.uses_table.mpr hf
  refine ⟨p, hp, hvalid, hstatus, ?_⟩
  rw [hblock, ← hcell]

theorem userAccounted (hinv : KernelInv g noHand noHand s) (hsound : g.Sound)
    (hall : s.AllMasters) : s.UserAccounted where
  free f hf := by
    have ledger := hinv.user.frames.ledger
    refine ⟨ledger.free_dom hf, List.count_eq_one_of_mem hinv.user.frames.nodup hf,
      fun v hv => ?_⟩
    exact ledger.not_free ((hinv.housesPage_iff hsound hall).mp hv) hf
  used f hf hused := by
    have ledger := hinv.user.frames.ledger
    obtain ⟨holder, hholder⟩ := ledger.covered hf hused
    cases holder with
    | hand n => exact absurd hholder.1 id
    | page v =>
        refine ⟨v, (hinv.housesPage_iff hsound hall).mpr hholder, fun v' hv' => ?_⟩
        have hsame : FrameHolder.page v' = FrameHolder.page v :=
          ledger.inj ((hinv.housesPage_iff hsound hall).mp hv') hholder
        injection hsame
  recorded f v hv := by
    have hholds := (hinv.housesPage_iff hsound hall).mp hv
    obtain ⟨hresident, rfl⟩ := hholds
    obtain ⟨htype, a, ha, howner⟩ := hinv.user.frames.owner v hresident
    refine ⟨hinv.user.frames.ledger.holds_dom (r := .page v) ⟨hresident, rfl⟩, htype, a,
      hinv.isPtl2Addr ha, howner, ?_⟩
    rw [hinv.descriptor_of_frame hsound (Layout.addr_eq_some.mp ha).1]
    exact congrArg some (hinv.user.frames.link v a ha).symm

theorem place_of_namesCluster (hinv : KernelInv g noHand noHand s) (hsound : g.Sound)
    (hc : s.NamesCluster h slot c) : g.place (.table h slot) = .cluster c := by
  obtain ⟨p, hp, hvalid, hstatus, hblock⟩ := hc
  obtain ⟨m, hm, hat⟩ := hinv.at_of_valid hp hvalid
  have hagree := hinv.agrees hm slot
  rw [← entryAddr_eq hat] at hagree
  rw [(hagree.pagedOut hstatus).resolve_right (hsound h slot m hm), hblock]

/-- What holds a cluster in the layout. -/
def clusterHolder : ClusterUse → ClusterHolder LPage KHolder
  | .page v => .page v
  | .table h slot => .ext (.table (.table h slot))

theorem holds_of_usesCluster (hinv : KernelInv g noHand noHand s) (hsound : g.Sound)
    (hall : s.AllMasters) {use : ClusterUse} (huse : s.UsesCluster c use) :
    clusterHolds g.desc s.ot (clusterOf g noHand) (clusterHolder use) c := by
  cases use with
  | page v =>
      obtain ⟨d, hd, hcluster⟩ := huse
      obtain ⟨_, rfl⟩ := hall.desc hinv hsound hd
      exact hcluster
  | table h slot => exact hinv.place_of_namesCluster hsound huse

theorem clusterHolder_inj {use use' : ClusterUse} (hsame : clusterHolder use = clusterHolder use') :
    use = use' := by
  cases use <;> cases use' <;> simp_all [clusterHolder]

/-- The accounts of a consistent state, no live process of which lacks its master table,
balance. -/
theorem systemAccounted (hinv : KernelInv g noHand noHand s) (hsound : g.Sound)
    (hall : s.AllMasters) : s.SystemAccounted where
  kernelFrames f hf := by
    obtain ⟨use, huse⟩ := hinv.uses_some hf
    exact ⟨use, huse, fun use' huse' => hinv.uses_one huse' huse⟩
  kernelRecorded _ _ _ huse := hinv.recorded huse
  userFrames := hinv.userAccounted hsound hall
  clustersOnce c use use' huse huse' :=
    clusterHolder_inj (hinv.user.clusters.ledger.inj (hinv.holds_of_usesCluster hsound hall huse)
      (hinv.holds_of_usesCluster hsound hall huse'))
  clustersInUse c use huse := by
    have hholds := hinv.holds_of_usesCluster hsound hall huse
    have ledger := hinv.user.clusters.ledger
    exact ⟨ledger.holds_dom hholds, Bool.not_eq_true _ ▸ ledger.not_free hholds⟩

end KernelInv

namespace MemoryOp

/-- In every state of a run of public calls, paging, loads and stores in which no master table is
evicted, the frames and the clusters are accounted for. -/
theorem system_accounted {levels : Nat} {start s : KernelSystem} {ops : List MemoryOp}
    (hstart : start.Booted) (huser : start.userspcSize ≤ 65536)
    (hkrnl : start.krnlspcSize ≤ 65536)
    (hrun : Run (fun s (op : MemoryOp) s' => op.Step levels s s') start ops s) :
    s.SystemAccounted := by
  obtain ⟨⟨g, hinv, hsound⟩, hall⟩ := consistent_of_run
    ⟨_, hstart.inv huser hkrnl, Layout.sound_none⟩ (allMasters_of_booted hstart) hrun
  exact hinv.systemAccounted hsound hall

/-- A shared segment is mapped and used, a segment is loaded and removed, and a page is evicted. -/
def sharedAndRemoved : List MemoryOp :=
  [.call .createProcess, .call (.createSharedSegment 0 0 1 "s" .readWrite),
    .call (.loadSegment 0 1024 1 .read fun _ => blankPage), .call (.deleteSegment 0 1024),
    .paging (.pageFault 0 0), .paging (.store 0 0 5#8), .paging (.evictPage 0),
    .paging (.pageFault 0 0)]

/-- The page of the segment is back in the frame. -/
theorem system_accounted_shared :
    ∃ s : KernelSystem, s.HousesPage 0 (pageOf 1 0) ∧ s.SystemAccounted := by
  have hruns : (smallKernel 1 5 8 []).toOption.any (fun start =>
      decide (start.userspcSize ≤ 65536) && decide (start.krnlspcSize ≤ 65536) &&
      (follow 2 anyState start sharedAndRemoved).any fun s =>
        (s.descriptor (pageOf 1 0)).any fun d => decide (d.Resident ∧ d.block = 0)) = true := by
    decide +kernel
  obtain ⟨start, hboot, hcheck⟩ := (Option.any_eq_true _ _).mp hruns
  simp only [Bool.and_eq_true, decide_eq_true_eq, Option.any_eq_true] at hcheck
  obtain ⟨⟨huser, hkrnl⟩, s, hfollow, d, hd, hthere⟩ := hcheck
  exact ⟨s, ⟨d, hd, hthere⟩, system_accounted (smallKernel_booted (Outcome.toOption_ok hboot))
    huser hkrnl ((run_of_follow hfollow).weaken fun _ _ _ => And.left)⟩

end MemoryOp

end VirtualMemory
