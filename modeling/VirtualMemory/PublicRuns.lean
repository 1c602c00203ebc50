import VirtualMemory.CreationOrder
import VirtualMemory.PrivateRuns
import VirtualMemory.SharedFaults
import VirtualMemory.WriteBack

/-!
# Runs of all public operations

What keeps a state consistent over calls of every kind, shared segments included: the master
tables that a call goes through are in memory when it gets to them, a segment is created on
pages that are in none, a fault is on a page of a segment, a cloned process is intact, and
nothing with page tables of its own is destroyed.
-/

namespace VirtualMemory

open Function UserSpace KernelSystem PageTableL2Entry

namespace KernelSystem

namespace Consistent

variable {s s' : KernelSystem} {h addr pid : Nat} {status : Status}

theorem pageFault {depth : Nat} (hcons : s.Consistent) (hfaults : FaultsIn depth s h addr)
    (hfault : pageFault depth s h addr = .ok s') : s'.Consistent := by
  obtain ⟨g, hinv, hsound⟩ := hcons
  obtain ⟨g', hinv', hpassed⟩ := hinv.pageFault_passed hsound hfaults hfault
  exact ⟨g', hinv', hpassed.sound hsound⟩

theorem access {depth : Nat} {type : AccessType} {ignoreAccess : Bool} (hcons : s.Consistent)
    (hmasters : MastersIn depth s h addr) (hpcb : s.accessPcb pid = .ok h)
    (haccess : access depth s pid addr type ignoreAccess = .ok (status, s')) : s'.Consistent := by
  obtain ⟨g, hinv, hsound⟩ := hcons
  obtain ⟨g', hinv', hpassed, _⟩ := hinv.access_passed hsound hmasters hpcb haccess
  exact ⟨g', hinv', hpassed.sound hsound⟩

end Consistent

end KernelSystem

namespace KernelOp

/-- The process whose master table a call goes through first; for a shared segment that is
deleted this is its dummy. -/
def worksOn (s : KernelSystem) : KernelOp → Option Nat
  | .createSharedSegment h .. => some h
  | .deleteSharedSegment name =>
      ((s.ssegMap.lookup name).bind s.sscbs).map SsegControlBlock.dummy
  | op => op.subject s

/-- A new segment is refused, or has no page that is in a segment already. -/
def Clears (s : KernelSystem) (op : KernelOp) : Prop :=
  ∀ r ∈ op.newRange, s.refuses r.proc r.ordinal r.startAddr r.size = true ∨
    s.Clear r.proc r.startAddr r.size

/-- A fault and an access find what they go through, a process that is destroyed has no page
table that would be left behind, the segments of one that is cloned are where they are recorded,
and no mapping is removed by the name of its segment. -/
def KeepsOrder (levels : Nat) (s : KernelSystem) : KernelOp → Prop
  | .pageFault h addr => s.FaultsIn levels h addr
  | .access pid addr _ => ∀ h, s.accessPcb pid = .ok h → MastersIn levels s h addr
  | .deleteProcess h => s.NoTables h
  | .cloneProcess pid => ∀ h, s.pcbVec.atIndex pid = .ok (some h) → s.Intact h
  | .disconnectSharedSegment _ name => s.ssegMap.lookup name = none
  | .deleteSharedSegment name => ∀ sscb ∈ (s.ssegMap.lookup name).bind s.sscbs,
      sscb.users = [] ∧ s.NoTables sscb.dummy
  | _ => True

/-- A call that keeps the state consistent. -/
structure Orderly (levels : Nat) (s : KernelSystem) (op : KernelOp) : Prop where
  masters : ∀ h ∈ op.worksOn s, s.HasMaster h
  clears : op.Clears s
  order : op.KeepsOrder levels s

/-- The call makes processes and segments, and neither removes any nor goes to a page. -/
def Adds : KernelOp → Prop
  | .createProcess | .cloneProcess _ | .createSegment .. | .loadSegment ..
  | .createSharedSegment .. => True
  | _ => False

/-- The call removes processes or segments. -/
def Removes : KernelOp → Prop
  | .deleteProcess _ | .disconnectSharedSegment .. | .deleteSegment .. | .deleteSharedSegment _ =>
      True
  | _ => False

/-- A process that the call makes a segment in, or that it makes. -/
def Fills (s : KernelSystem) (op : KernelOp) (h : Nat) : Prop :=
  (∃ r ∈ op.newRange, r.proc = h) ∨ MadeSince s h

instance (s : KernelSystem) (op : KernelOp) : Decidable (op.Clears s) :=
  inferInstanceAs (Decidable (∀ r ∈ op.newRange, _))

/-- A test that a call is orderly, which no fault, no access and no clone passes. -/
def keepsOrder (s : KernelSystem) (op : KernelOp) : Bool :=
  decide (∀ h ∈ op.worksOn s, s.HasMaster h) && decide (op.Clears s) && match op with
    | .pageFault .. | .access .. | .cloneProcess _ => false
    | .deleteProcess h => decide (s.NoTables h)
    | .disconnectSharedSegment _ name => decide (s.ssegMap.lookup name = none)
    | .deleteSharedSegment name => decide (∀ sscb ∈ (s.ssegMap.lookup name).bind s.sscbs,
        sscb.users.isEmpty = true ∧ s.NoTables sscb.dummy)
    | _ => true

theorem orderly_of_keepsOrder {levels : Nat} {s : KernelSystem} {op : KernelOp}
    (htest : op.keepsOrder s = true) : op.Orderly levels s := by
  simp only [keepsOrder, Bool.and_eq_true, decide_eq_true_eq] at htest
  obtain ⟨⟨hmasters, hclears⟩, horder⟩ := htest
  refine ⟨hmasters, hclears, ?_⟩
  cases op with
  | deleteProcess h =>
      show s.NoTables h
      exact of_decide_eq_true horder
  | disconnectSharedSegment h name =>
      show s.ssegMap.lookup name = none
      exact of_decide_eq_true horder
  | deleteSharedSegment name =>
      intro sscb hsscb
      obtain ⟨hnobody, hnone⟩ := of_decide_eq_true horder sscb hsscb
      exact ⟨List.isEmpty_iff.mp hnobody, hnone⟩
  | pageFault | access | cloneProcess => cases horder
  | _ => trivial

end KernelOp

namespace KernelInv

variable {g : Layout} {s s' : KernelSystem} {h m ordinal startAddr size : Nat}

/-- The range of a segment that is created is clear. -/
theorem range_clear {status : Status} (hinv : KernelInv g noHand noHand s) (hsound : g.Sound)
    (hm : g.place (.master h) = .frame m)
    (hclears : s.refuses h ordinal startAddr size = true ∨ s.Clear h startAddr size)
    (hrefused : s.refuses h ordinal startAddr size = true → status = .trap) :
    status = .ok → ∀ v, InRange h startAddr size v → (g.desc v).getInseg = false := by
  rintro hok _ ⟨i, hi, rfl⟩
  obtain hrefuses | hclear := hclears
  · cases hok.symm.trans (hrefused hrefuses)
  · have hout := hclear i hi
    rwa [hinv.inSegment_iff hsound hm, Bool.not_eq_true] at hout

theorem noTables_iff (hinv : KernelInv g noHand noHand s) (hsound : g.Sound)
    (hm : g.place (.master h) = .frame m) :
    s.NoTables h ↔ ∀ slot, g.place (.table h slot) = .gone := by
  refine forall_congr' fun slot => ?_
  rw [← hinv.unused_iff hsound hm, hinv.slotEntry_eq (not_noMaster hm), KernelSystem.ptl1,
    hinv.mem_eq hm]
  simp

end KernelInv

namespace KernelInv

variable {g : Layout} {s s' : KernelSystem} {levels : Nat} {op : KernelOp}

theorem inseg_madeSince {v : LPage} (hinv : KernelInv g noHand noHand s)
    (hmade : MadeSince s v.proc) : (g.desc v).getInseg = false :=
  hinv.inseg_nowhere (.inl ((hinv.fresh _ hmade).2 _))

/-- A mapping is written to pages that were in no segment, and the dummy that may be made with it
has no mapping itself. -/
theorem createSharedSegment_carried {h startAddr size : Nat} {name : String}
    {accType : AccessType} (hinv : KernelInv g noHand noHand s) (hsound : g.Sound)
    (horderly : (KernelOp.createSharedSegment h startAddr size name accType).Orderly levels s)
    (hstep : (KernelOp.createSharedSegment h startAddr size name accType).Step levels s s') :
    ∃ g' loose mine but, KernelInv g' noHand noHand s' ∧ Carried loose mine but g s g' s' ∧
      (∀ v, but v → (g.desc v).getInseg = false ∧
        (KernelOp.createSharedSegment h startAddr size name accType).Fills s v.proc ∧
        s'.content (g'.desc v) = none) ∧ Unused s g' s' := by
  obtain ⟨⟨status, s₁⟩, hcreate, hret⟩ := Outcome.bind_ok hstep
  cases hret
  obtain ⟨m, hm⟩ := hinv.hasMaster_iff.mp (horderly.masters h rfl)
  have hclear := hinv.range_clear hsound hm (horderly.clears _ rfl) fun hrefuses =>
    hinv.createSharedSegment_refused hm hrefuses hcreate
  obtain ⟨g', hinv', _, hunused, ⟨_, hcarried⟩ | ⟨hok, _, hcarried, ⟨_, _, hpages⟩, _⟩⟩ :=
    hinv.createSharedSegment_inv hsound hm hclear hcreate
  · exact ⟨g', _, _, _, hinv', hcarried,
      fun v hmade => ⟨hinv.inseg_madeSince hmade, .inr hmade, hunused.empty v hmade⟩, hunused⟩
  · refine ⟨g', _, _, _, hinv', hcarried, fun v hv => ?_, hunused⟩
    obtain hrange | hmade := hv
    · refine ⟨hclear hok v hrange, .inl ⟨_, rfl, ?_⟩, ?_⟩
      · obtain ⟨i, _, rfl⟩ := hrange
        rfl
      · obtain ⟨i, hi, rfl⟩ := hrange
        exact content_none (hpages i hi).not_resident (hpages i hi).not_pagedOut
    · exact ⟨hinv.inseg_madeSince hmade, .inr hmade, hunused.empty v hmade⟩

/-- An orderly call that makes something writes to pages that were in no segment, of processes
that it fills. -/
theorem adds_carried (hinv : KernelInv g noHand noHand s) (hsound : g.Sound) (hadds : op.Adds)
    (horderly : op.Orderly levels s) (hstep : op.Step levels s s') :
    ∃ g' loose mine but, KernelInv g' noHand noHand s' ∧ Carried loose mine but g s g' s' ∧
      ∀ v, but v → (g.desc v).getInseg = false ∧ op.Fills s v.proc := by
  have hresident : ∀ h ∈ op.worksOn s, ∃ m, g.place (.master h) = .frame m := fun h hh =>
    hinv.hasMaster_iff.mp (horderly.masters h hh)
  have hclears := horderly.clears
  have horder := horderly.order
  cases op with
  | createProcess =>
      obtain ⟨⟨h, s₁⟩, hcreate, hret⟩ := Outcome.bind_ok hstep
      cases hret
      obtain ⟨g', _, hinv', _, hcarried, _⟩ := hinv.createProcess_inv hsound hcreate
      exact ⟨g', _, _, _, hinv', hcarried, fun _ => False.elim⟩
  | cloneProcess pid =>
      obtain ⟨⟨h, s₁⟩, hclone, hret⟩ := Outcome.bind_ok hstep
      cases hret
      obtain ⟨found, hfound, hrest⟩ := Outcome.bind_ok hclone
      cases found with
      | none => cases hrest
      | some source =>
          have hsubject : (KernelOp.cloneProcess pid).worksOn s = some source := by
            simp [KernelOp.worksOn, KernelOp.subject, hfound, Except.toOption]
          obtain ⟨ms, hms⟩ := hresident source hsubject
          obtain ⟨g₀, s₀, m, g', s₁, _, hcarried₀, hadded, hprogress, rfl⟩ := hinv.cloneProcess_inv
            hsound hfound hms (hinv.segmentsApart hsound hms (horder source hfound)) hclone
          obtain ⟨hinv', _, hcarried, _⟩ := KernelInv.cloneProcess_end hcarried₀ hprogress
          have hmade : ∀ v : LPage, v.proc = h → MadeSince s v.proc := fun v hv =>
            Nat.le_of_eq (hv.trans hadded.handle).symm
          exact ⟨g', _, _, _, hinv', hcarried, fun v hv =>
            ⟨hinv.inseg_madeSince (hmade v hv), .inr (hmade v hv)⟩⟩
  | createSegment h startAddr size accType =>
      obtain ⟨⟨status, s₁⟩, hcreate, hret⟩ := Outcome.bind_ok hstep
      cases hret
      obtain ⟨m, hm⟩ := hresident h rfl
      have hclear := hinv.range_clear hsound hm (hclears _ rfl) fun hrefuses =>
        Plain.newSegment_refused hinv hm hrefuses hcreate
      obtain ⟨g', hinv', _, _, ⟨_, hcarried, _⟩ | ⟨hok, _, hcarried, _⟩⟩ :=
        hinv.createSegment_inv hsound hm hclear hcreate
      · exact ⟨g', _, _, _, hinv', hcarried, fun _ => False.elim⟩
      · refine ⟨g', _, _, _, hinv', hcarried, fun v hv => ⟨hclear hok v hv, .inl ⟨_, rfl, ?_⟩⟩⟩
        obtain ⟨i, _, rfl⟩ := hv
        rfl
  | loadSegment h startAddr size accType content =>
      obtain ⟨⟨status, s₁⟩, hload, hret⟩ := Outcome.bind_ok hstep
      cases hret
      obtain ⟨m, hm⟩ := hresident h rfl
      have hclear := hinv.range_clear hsound hm (hclears _ rfl) fun hrefuses =>
        Plain.newSegment_refused hinv hm hrefuses hload
      obtain ⟨g', hinv', _, _, ⟨_, hcarried, _⟩ | ⟨hok, _, hcarried, _⟩⟩ :=
        hinv.loadSegment_inv hsound hm hclear hload
      · exact ⟨g', _, _, _, hinv', hcarried, fun _ => False.elim⟩
      · refine ⟨g', _, _, _, hinv', hcarried, fun v hv => ⟨hclear hok v hv, .inl ⟨_, rfl, ?_⟩⟩⟩
        obtain ⟨i, _, rfl⟩ := hv
        rfl
  | createSharedSegment =>
      obtain ⟨g', loose, mine, but, hinv', hcarried, hbut, _⟩ :=
        hinv.createSharedSegment_carried hsound horderly hstep
      exact ⟨g', loose, mine, but, hinv', hcarried, fun v hv =>
        ⟨(hbut v hv).1, (hbut v hv).2.1⟩⟩
  | deleteProcess | deleteSegment | disconnectSharedSegment | deleteSharedSegment | pageFault
  | access => exact hadds.elim

/-- A process that has no page table goes alone. -/
theorem deleteProcess_carried {h : Nat} (hinv : KernelInv g noHand noHand s) (hsound : g.Sound)
    (hmaster : s.HasMaster h) (hnone : s.NoTables h) (hdelete : s.deleteProcess h = .ok s') :
    ∃ g', KernelInv g' noHand noHand s' ∧
      Carried (Released h) (· = h) (fun _ => False) g s g' s' := by
  obtain ⟨m, hm⟩ := hinv.hasMaster_iff.mp hmaster
  obtain ⟨g', hinv', hcarried, _⟩ := hinv.deleteProcess_inv hsound hm
    ((hinv.noTables_iff hsound hm).mp hnone) hdelete
  exact ⟨g', hinv', hcarried⟩

/-- A shared segment without users and page tables goes alone, too. -/
theorem deleteSharedSegment_carried {name : String} (hinv : KernelInv g noHand noHand s)
    (hsound : g.Sound) (horderly : (KernelOp.deleteSharedSegment name).Orderly levels s)
    (hstep : (KernelOp.deleteSharedSegment name).Step levels s s') :
    ∃ g' loose mine, KernelInv g' noHand noHand s' ∧
      Carried loose mine (fun _ => False) g s g' s' := by
  obtain ⟨⟨status, s₁⟩, hdelete, hret⟩ := Outcome.bind_ok hstep
  cases hret
  have horder := horderly.order
  unfold deleteSharedSegment at hdelete
  split at hdelete
  · cases hdelete
    exact ⟨g, fun _ => False, fun _ => False, hinv, .refl g s⟩
  · rename_i b hlookup
    split at hdelete
    · cases hdelete
    · rename_i sscb hsscb
      have hfound : (s.ssegMap.lookup name).bind s.sscbs = some sscb := by
        rw [hlookup]
        exact hsscb
      obtain ⟨husers, hnone⟩ := horder sscb hfound
      rw [husers] at hdelete
      obtain ⟨_, hnobody, hdelete⟩ := Outcome.bind_ok hdelete
      cases hnobody
      obtain ⟨s₁, hdestroy, hrest⟩ := Outcome.bind_ok hdelete
      obtain ⟨ssegVec, _, hret⟩ := Outcome.bind_ok hrest
      cases hret
      have hmaster : s.HasMaster sscb.dummy := horderly.masters _ (by
        rw [KernelOp.worksOn, hfound]
        rfl)
      obtain ⟨g₁, hinv₁, hcarried⟩ := deleteProcess_carried
        (hinv.setSscb b { sscb with users := [] }) hsound hmaster hnone hdestroy
      have hsegments := carried_withSegments g₁ s₁ ssegVec
        (s₁.ssegMap.filter fun entry => decide (entry.1 ≠ name)) (update s₁.sscbs b none)
        s₁.nextSscb s₁.ssegCount
      exact ⟨g₁, Released sscb.dummy, (· = sscb.dummy), hinv₁.withSegments ..,
        ((carried_setSscb g s b { sscb with users := [] }).mono (fun _ => False.elim)
          (fun _ => False.elim) fun _ => id).trans
          (hcarried.trans (hsegments.mono (fun _ => False.elim) (fun _ => False.elim)
            fun _ => id))⟩

/-- An orderly call that removes something takes pages out of their segments. -/
theorem removes_carried (hinv : KernelInv g noHand noHand s) (hsound : g.Sound)
    (hremoves : op.Removes) (horderly : op.Orderly levels s) (hstep : op.Step levels s s') :
    ∃ g' loose mine but, KernelInv g' noHand noHand s' ∧ Carried loose mine but g s g' s' ∧
      ∀ v, but v → (g'.desc v).getInseg = false ∧ (g'.desc v).getShared = false := by
  have horder := horderly.order
  cases op with
  | deleteProcess h =>
      obtain ⟨g', hinv', hcarried⟩ :=
        hinv.deleteProcess_carried hsound (horderly.masters h rfl) horder hstep
      exact ⟨g', _, _, _, hinv', hcarried, fun _ => False.elim⟩
  | disconnectSharedSegment h name =>
      obtain ⟨⟨status, s₁⟩, hdisconnect, hret⟩ := Outcome.bind_ok hstep
      cases hret
      unfold disconnectSharedSegment sharedSegmentFind at hdisconnect
      rw [show s.ssegMap.lookup name = none from horder] at hdisconnect
      cases hdisconnect
      exact ⟨g, fun _ => False, fun _ => False, fun _ => False, hinv, .refl g s,
        fun _ => False.elim⟩
  | deleteSegment h startAddr =>
      obtain ⟨⟨status, s₁⟩, hdelete, hret⟩ := Outcome.bind_ok hstep
      cases hret
      obtain ⟨m, hm⟩ := hinv.hasMaster_iff.mp (horderly.masters h rfl)
      obtain ⟨g', hinv', _, _, ⟨hcarried, _⟩ | ⟨_, hremoved, hcarried⟩⟩ :=
        hinv.deleteSegment_inv hsound hm hdelete
      · exact ⟨g', _, _, _, hinv', hcarried, fun _ => False.elim⟩
      · exact ⟨g', _, _, _, hinv', hcarried, fun v hv =>
          ⟨hremoved.pages v hv, hremoved.unshared v hv⟩⟩
  | deleteSharedSegment name =>
      obtain ⟨g', loose, mine, hinv', hcarried⟩ :=
        hinv.deleteSharedSegment_carried hsound horderly hstep
      exact ⟨g', loose, mine, _, hinv', hcarried, fun _ => False.elim⟩
  | createProcess | cloneProcess | createSegment | loadSegment | createSharedSegment | pageFault
  | access => exact hremoves.elim

end KernelInv

/-- An orderly call keeps the state consistent. -/
theorem KernelSystem.Consistent.step {s s' : KernelSystem} {levels : Nat} {op : KernelOp}
    (hcons : s.Consistent) (horderly : op.Orderly levels s) (hstep : op.Step levels s s') :
    s'.Consistent := by
  obtain ⟨g, hinv, hsound⟩ := hcons
  have hadds (hadds : op.Adds) : s'.Consistent := by
    obtain ⟨g', _, _, _, hinv', hcarried, _⟩ := hinv.adds_carried hsound hadds horderly hstep
    exact ⟨g', hinv', hcarried.sound hsound⟩
  have hremoves (hremoves : op.Removes) : s'.Consistent := by
    obtain ⟨g', _, _, _, hinv', hcarried, _⟩ :=
      hinv.removes_carried hsound hremoves horderly hstep
    exact ⟨g', hinv', hcarried.sound hsound⟩
  have horder := horderly.order
  cases op with
  | createProcess | cloneProcess | createSegment | loadSegment | createSharedSegment =>
      exact hadds trivial
  | deleteProcess | disconnectSharedSegment | deleteSegment | deleteSharedSegment =>
      exact hremoves trivial
  | pageFault h addr => exact Consistent.pageFault ⟨g, hinv, hsound⟩ horder hstep
  | access pid addr type =>
      obtain ⟨⟨status, s₁⟩, haccess, hret⟩ := Outcome.bind_ok hstep
      cases hret
      obtain ⟨h, hpcb⟩ := access_pcb haccess
      exact Consistent.access ⟨g, hinv, hsound⟩ (horder h hpcb) hpcb haccess

namespace KernelOp

/-- Every state of an orderly run from the constructor is consistent. -/
theorem consistent_of_run {levels : Nat} {start s : KernelSystem} {ops : List KernelOp}
    (hstart : start.Booted) (huser : start.userspcSize ≤ 65536)
    (hkrnl : start.krnlspcSize ≤ 65536)
    (hrun : Run (fun s (op : KernelOp) s' => op.Orderly levels s ∧ op.Step levels s s')
      start ops s) : s.Consistent :=
  hrun.invariant Consistent (fun _ _ _ hcons hstep => hcons.step hstep.1 hstep.2)
    ⟨_, hstart.inv huser hkrnl, Layout.sound_none⟩

end KernelOp

end VirtualMemory
