import VirtualMemory.PublicRuns

/-!
# Segments are removed through a locked master table

`delete_segment_ind` walks the master table of its process and relies on its caller for having
it in memory, in a locked frame. `delete_segment` and the destructor lock it; the two calls that
remove mappings by the name of their segment do not. The master table is looked at after every
page of the segment and after every page table that is brought in, not only before and after.
-/

namespace VirtualMemory

open Function UserSpace KernelSystem PageTableL2Entry

namespace KernelSystem

/-- The master table of the process is in frame `m`, which is locked. -/
def LockedAt (s : KernelSystem) (h m : Nat) : Prop :=
  ∃ p, s.pcbs h = some p ∧ p.masterTableValid = true ∧ p.masterTable = m ∧
    (s.ksFt m).getLocked = true

/-- `access_ptl1` finds the table. -/
theorem LockedAt.accessPtl1 {s : KernelSystem} {h m : Nat} (hlocked : s.LockedAt h m)
    (addr : Nat) : s.accessPtl1 h addr ≠ .ok none := by
  obtain ⟨p, hp, hvalid, -⟩ := hlocked
  simp [KernelSystem.accessPtl1, KernelSystem.pcb, hp, hvalid]

/-- From before the entry `ste` of the segment table is read until after it is marked free, the
master table stays in frame `m`, which stays locked. -/
structure HeldThrough (s : KernelSystem) (h entry : Nat) (doReleaseShared : Bool) (m : Nat)
    (ste : SegTableEntry) : Prop where
  before : s.LockedAt h m
  pages : ∀ k ≤ ste.getLength, ∀ r,
    (List.range k).foldlM (deletePage h (ste.start * pageSize) doReleaseShared) (false, s) = .ok r →
      r.2.LockedAt h m
  tables : ∀ k < ste.getLength, ∀ r,
    (List.range k).foldlM (deletePage h (ste.start * pageSize) doReleaseShared) (false, s) = .ok r →
      ∀ f s', r.2.pageTableLock h (ste.start * pageSize) = .ok (f, s') → s'.LockedAt h m
  after : ∀ s', s.deleteSegmentInd h entry doReleaseShared = .ok s' → s'.LockedAt h m

/-- A segment is removed through a master table that stays in memory and locked. -/
def RemovesLocked (s : KernelSystem) (h entry : Nat) (doReleaseShared : Bool) : Prop :=
  ∃ m p, s.pcb h = .ok p ∧
    s.HeldThrough h entry doReleaseShared m (s.ste (p.stPtr.index entry))

/-- The destructor of a process gets to the live entry `i` in state `s'`. -/
def Destroys (s : KernelSystem) (h : Nat) (s' : KernelSystem) (i : Nat) : Prop :=
  ∃ mt s₀ p, s.masterTableLock h = .ok (mt, s₀) ∧ i < maxSegments ∧
    (List.range i).foldlM (destroyEntry h) s₀ = .ok s' ∧ s'.pcb h = .ok p ∧
    (s'.ste (p.stPtr.index i)).getKind = .occupied

end KernelSystem

/-- The call, made in state `s`, runs `delete_segment_ind`: in which state, on which process and
entry, and whether mappings are disconnected. -/
inductive KernelOp.Removal (s : KernelSystem) : KernelOp → KernelSystem → Nat → Nat → Bool → Prop
  | segment {h startAddr mt entry : Nat} {p p' : KernelProcess} {s' : KernelSystem}
      (process : s.pcb h = .ok p) (passes : ¬ (p.segCount = 0 ∨ startAddr % pageSize ≠ 0))
      (lock : s.masterTableLock h = .ok (mt, s')) (again : s'.pcb h = .ok p')
      (finds : (List.range maxSegments).find? (fun i =>
        decide ((s'.ste (p'.stPtr.index i)).start = startAddr / 2 ^ 10 % 2 ^ 10)) = some entry) :
      Removal s (.deleteSegment h startAddr) s' h entry true
  | process {h i : Nat} {s' : KernelSystem} (destroys : s.Destroys h s' i) :
      Removal s (.deleteProcess h) s' h i true
  | disconnected {h ssegInd index : Nat} {name : String} {s' : KernelSystem}
      (finds : s.sharedSegmentFind name = .ok (some ssegInd))
      (drops : s.dropUser h ssegInd = .ok (index, s')) :
      Removal s (.disconnectSharedSegment h name) s' h index false
  | user {name : String} {b : Nat} {sscb : SsegControlBlock} {done rest : List PcbAndIndex}
      {user : PcbAndIndex} {s' : KernelSystem} (finds : s.ssegMap.lookup name = some b)
      (block : s.sscbs b = some sscb) (users : sscb.users = done ++ user :: rest)
      (drops : done.foldlM dropMapping s = .ok s') :
      Removal s (.deleteSharedSegment name) s' user.pcb user.index false
  | dummy {name : String} {b i : Nat} {sscb : SsegControlBlock} {s₁ s' : KernelSystem}
      (finds : s.ssegMap.lookup name = some b) (block : s.sscbs b = some sscb)
      (drops : sscb.users.foldlM dropMapping s = .ok s₁)
      (destroys : (s₁.setSscb b { sscb with users := [] }).Destroys sscb.dummy s' i) :
      Removal s (.deleteSharedSegment name) s' sscb.dummy i true

namespace Working

variable {g : Layout} {s s' : KernelSystem} {h m : Nat} {doReleaseShared : Bool}

theorem lockedAt (hwork : Working g h m s) : s.LockedAt h m := by
  obtain ⟨p, -, hp, hat⟩ := hwork.inv.pcb_ok hwork.master.1
  exact ⟨p, hp, hat.valid, hat.masterTable, hwork.master.2⟩

/-- The work goes on over the first pages of a segment that is removed. -/
theorem deletePages {k startAddr : Nat} {r : Bool × KernelSystem} (hwork : Working g h m s)
    (hpages : (List.range k).foldlM (deletePage h startAddr doReleaseShared) (false, s) = .ok r) :
    ∃ g', Working g' h m r.2 := by
  refine Outcome.foldlM_ok (fun _ (r : Bool × KernelSystem) => ∃ g', Working g' h m r.2) ?_
    ⟨g, hwork⟩ hpages
  rintro i rest r r' ⟨g₁, hwork₁⟩ hdelete
  obtain ⟨g₂, hinv₂, hcarried, -⟩ := hwork₁.deletePage_inv hdelete
  exact ⟨g₂, hwork₁.carry hinv₂ hcarried (KTable.master_not_table h)⟩

/-- A removal while the master table is locked. -/
theorem removesLocked {entry : Nat} (hwork : Working g h m s) (hentry : entry < 192) :
    s.RemovesLocked h entry doReleaseShared := by
  obtain ⟨p, hp, -, -⟩ := hwork.inv.pcb_ok hwork.master.1
  refine ⟨m, p, hp, hwork.lockedAt, fun k _ r hpages => ?_, fun k _ r hpages f s' hlock => ?_,
    fun s' hdelete => ?_⟩
  · obtain ⟨g₁, hwork₁⟩ := hwork.deletePages hpages
    exact hwork₁.lockedAt
  · obtain ⟨g₁, hwork₁⟩ := hwork.deletePages hpages
    obtain ⟨g₂, hinv₂, hpaged, -⟩ :=
      hwork₁.inv.pageTableLock_inv hwork₁.sound hwork₁.master hlock
    exact (hwork₁.carry hinv₂ hpaged id).lockedAt
  · obtain ⟨g', hwork', -⟩ := hwork.deleteSegmentInd_inv (n := ⟨entry, hentry⟩) hdelete
    exact hwork'.lockedAt

/-- The destructor, entry by entry. -/
theorem destroyEntries {i : Nat} (hwork : Working g h m s) (hi : i ≤ maxSegments)
    (hloop : (List.range i).foldlM (destroyEntry h) s = .ok s') : ∃ g', Working g' h m s' := by
  obtain ⟨-, hdone⟩ := Outcome.foldlM_ok
    (fun rest s => (∀ j ∈ rest, j < i) ∧ ∃ g', Working g' h m s)
    (fun j rest s₁ s₂ ⟨hlt, g₁, hwork₁⟩ hentry => by
      refine ⟨fun j' hj' => hlt j' (by simp [hj']), ?_⟩
      obtain ⟨p, hp, hrest⟩ := Outcome.bind_ok hentry
      split at hrest
      · have hj : j < 192 := (hlt j (by simp)).trans_le hi
        obtain ⟨g₂, hwork₂, -⟩ := hwork₁.deleteSegmentInd_inv (n := ⟨j, hj⟩) hrest
        exact ⟨g₂, hwork₂⟩
      · cases hrest
        exact ⟨g₁, hwork₁⟩)
    ⟨fun j hj => List.mem_range.mp hj, g, hwork⟩ hloop
  exact hdone

end Working

namespace KernelSystem

/-- A destructor removes segments through a locked master table. -/
theorem Consistent.destroys {s s' : KernelSystem} {h i : Nat} (hcons : s.Consistent)
    (hmaster : s.HasMaster h) (hdestroys : s.Destroys h s' i) : s'.RemovesLocked h i true := by
  obtain ⟨g, hinv, hsound⟩ := hcons
  obtain ⟨m, hm⟩ := hinv.hasMaster_iff.mp hmaster
  obtain ⟨mt, s₀, p, hlock, hi, hloop, -⟩ := hdestroys
  rw [hinv.masterTableLock_ok hm] at hlock
  cases hlock
  obtain ⟨hwork, -⟩ := hinv.working hsound hm
  obtain ⟨g', hwork'⟩ := hwork.destroyEntries hi.le hloop
  exact hwork'.removesLocked hi

end KernelSystem

namespace KernelOp

/-- The call does not remove a mapping by the name of its segment, and the process that it
removes segments of has its master table in memory when it begins. -/
def LocksFirst (s : KernelSystem) : KernelOp → Prop
  | .deleteSegment h _ | .deleteProcess h => s.HasMaster h
  | .disconnectSharedSegment _ name => s.ssegMap.lookup name = none
  | .deleteSharedSegment name => ∀ sscb ∈ (s.ssegMap.lookup name).bind s.sscbs,
      sscb.users = [] ∧ s.HasMaster sscb.dummy
  | _ => True

/-- Such a call removes segments through a locked master table. -/
theorem LocksFirst.removesLocked {s s' : KernelSystem} {op : KernelOp} {h entry : Nat}
    {doReleaseShared : Bool} (hcons : s.Consistent) (hlocks : op.LocksFirst s)
    (hremoval : op.Removal s s' h entry doReleaseShared) :
    s'.RemovesLocked h entry doReleaseShared := by
  cases hremoval with
  | segment process passes lock again finds =>
      obtain ⟨g, hinv, hsound⟩ := hcons
      obtain ⟨m, hm⟩ := hinv.hasMaster_iff.mp hlocks
      rw [hinv.masterTableLock_ok hm] at lock
      cases lock
      obtain ⟨hwork, -⟩ := hinv.working hsound hm
      exact hwork.removesLocked (by simpa [maxSegments] using List.mem_of_find?_eq_some finds)
  | process destroys => exact hcons.destroys hlocks destroys
  | disconnected finds =>
      unfold sharedSegmentFind at finds
      rw [show s.ssegMap.lookup _ = none from hlocks] at finds
      cases finds
  | user finds block users =>
      obtain ⟨hnobody, -⟩ := hlocks _ (by rw [finds]; exact block)
      rw [hnobody] at users
      simp at users
  | dummy finds block drops destroys =>
      obtain ⟨hnobody, hmaster⟩ := hlocks _ (by rw [finds]; exact block)
      rw [hnobody] at drops
      cases drops
      obtain ⟨g, hinv, hsound⟩ := hcons
      exact Consistent.destroys ⟨g, hinv.setSscb .., hsound⟩ hmaster destroys

/-- In every state of an orderly run, a call that does not remove mappings by the name of their
segment removes segments through a master table that stays in memory and locked. -/
theorem removals_locked {levels h entry : Nat} {start s s' : KernelSystem} {ops : List KernelOp}
    {op : KernelOp} {doReleaseShared : Bool} (hstart : start.Booted)
    (huser : start.userspcSize ≤ 65536) (hkrnl : start.krnlspcSize ≤ 65536)
    (hrun : Run (fun s (op : KernelOp) s' => op.Orderly levels s ∧ op.Step levels s s')
      start ops s)
    (hlocks : op.LocksFirst s) (hremoval : op.Removal s s' h entry doReleaseShared) :
    s'.RemovesLocked h entry doReleaseShared :=
  hlocks.removesLocked (consistent_of_run hstart huser hkrnl hrun) hremoval

/-- A mapping is removed by its address. -/
theorem removals_locked_mapping : ∃ (s s' : KernelSystem) (e : SegTableEntry),
    (deleteSegment 0 5120).Removal s s' 0 0 true ∧ s'.segmentEntry 0 0 = some e ∧
      e.getKind = .occShared ∧ s'.RemovesLocked 0 0 true := by
  have hruns : (runSmall (fun s op _ => op.keepsOrder s) 1 4 4 [] [.createProcess,
      .createSharedSegment 0 5120 1 "s" .readWrite]).any (fun r =>
      decide (r.1.userspcSize ≤ 65536) && decide (r.1.krnlspcSize ≤ 65536) &&
        decide (r.2.HasMaster 0) && (r.2.pcbs 0).any fun p =>
          decide (¬ (p.segCount = 0 ∨ 5120 % pageSize ≠ 0)) &&
            Outcome.holds (r.2.masterTableLock 0) fun r' => (r'.2.pcbs 0).any fun p' =>
              decide ((List.range maxSegments).find? (fun i =>
                decide ((r'.2.ste (p'.stPtr.index i)).start = 5120 / 2 ^ 10 % 2 ^ 10)) = some 0) &&
              (r'.2.segmentEntry 0 0).any fun e => decide (e.getKind = .occShared)) = true := by
    decide +kernel
  obtain ⟨⟨start, s⟩, hr, hcheck⟩ := (Option.any_eq_true _ _).mp hruns
  simp only [Bool.and_eq_true, decide_eq_true_eq] at hcheck
  obtain ⟨⟨⟨huser, hkrnl⟩, hmaster⟩, hcheck⟩ := hcheck
  obtain ⟨p, hp, hcheck⟩ := (Option.any_eq_true _ _).mp hcheck
  simp only [Bool.and_eq_true, decide_eq_true_eq] at hcheck
  obtain ⟨hpasses, hcheck⟩ := hcheck
  obtain ⟨⟨mt, s'⟩, hlock, hcheck⟩ := Outcome.of_holds hcheck
  obtain ⟨p', hp', hcheck⟩ := (Option.any_eq_true _ _).mp hcheck
  simp only [Bool.and_eq_true, decide_eq_true_eq] at hcheck
  obtain ⟨hfinds, hcheck⟩ := hcheck
  obtain ⟨e, he, hkind⟩ := (Option.any_eq_true _ _).mp hcheck
  obtain ⟨hstart, hrun⟩ := runSmall_run hr
  have hremoval : (deleteSegment 0 5120).Removal s s' 0 0 true :=
    .segment (KernelSystem.pcb_eq_ok.mpr hp) hpasses hlock (KernelSystem.pcb_eq_ok.mpr hp') hfinds
  have hlocks : (deleteSegment 0 5120).LocksFirst s := hmaster
  exact ⟨s, s', e, hremoval, he, of_decide_eq_true hkind,
    removals_locked (smallKernel_booted hstart) huser hkrnl
      (hrun.weaken fun _ _ _ hstep => ⟨orderly_of_keepsOrder hstep.1, hstep.2⟩) hlocks hremoval⟩

/-- A mapping is removed by the name of its segment: nothing locks the master table. -/
theorem removals_not_locked : ¬ ∀ (start s s' : KernelSystem) (ops : List KernelOp)
    (op : KernelOp) (h entry : Nat) (doReleaseShared : Bool), start.Booted →
    start.userspcSize ≤ 65536 → start.krnlspcSize ≤ 65536 →
    Run (fun s (op : KernelOp) s' => op.Step 2 s s') start ops s →
    op.Removal s s' h entry doReleaseShared → s'.RemovesLocked h entry doReleaseShared := by
  intro hall
  have hruns : (runSmall anyStep 1 4 4 [] [.createProcess,
      .createSharedSegment 0 5120 1 "s" .readWrite]).any (fun r =>
      decide (r.1.userspcSize ≤ 65536) && decide (r.1.krnlspcSize ≤ 65536) &&
        Outcome.holds (r.2.sharedSegmentFind "s") fun found => found.any fun ssegInd =>
          Outcome.holds (r.2.dropUser 0 ssegInd) fun r' => (r'.2.pcbs 0).any fun p =>
            !(r'.2.ksFt p.masterTable).getLocked) = true := by
    decide +kernel
  obtain ⟨⟨start, s⟩, hr, hcheck⟩ := (Option.any_eq_true _ _).mp hruns
  simp only [Bool.and_eq_true, decide_eq_true_eq] at hcheck
  obtain ⟨⟨huser, hkrnl⟩, hcheck⟩ := hcheck
  obtain ⟨found, hfind, hcheck⟩ := Outcome.of_holds hcheck
  obtain ⟨ssegInd, rfl, hcheck⟩ := (Option.any_eq_true _ _).mp hcheck
  obtain ⟨⟨index, s'⟩, hdrop, hcheck⟩ := Outcome.of_holds hcheck
  obtain ⟨p, hp, hunlocked⟩ := (Option.any_eq_true _ _).mp hcheck
  obtain ⟨hstart, hrun⟩ := runSmall_run hr
  obtain ⟨m, _, _, ⟨p', hp', -, rfl, hlocked⟩, -⟩ :=
    hall start s s' _ _ _ _ _ (smallKernel_booted hstart) huser hkrnl
      (hrun.weaken fun _ _ _ hstep => hstep.2) (.disconnected hfind hdrop)
  cases hp.symm.trans hp'
  simp [hlocked] at hunlocked

end KernelOp

end VirtualMemory
