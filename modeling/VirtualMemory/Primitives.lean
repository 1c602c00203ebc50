import VirtualMemory.KernelRuns

/-!
# Public operations as runs of primitive ones

What a public operation does to the kernel, step by step: it requests a page and writes down
where it is, writes a descriptor, locks a frame, adds to a list. Whatever each of these steps
preserves, the operation preserves, and so do the states in between.
-/

namespace VirtualMemory

open Function Outcome

namespace KernelSystem

/-- A locked frame for a page table that was not there before, and its first level entry. -/
def placePageTable (s : KernelSystem) (ptl1e : KAddr) : Except Halt (Nat × KernelSystem) := do
  let (pa, s) ← s.ksRequestPage .ksPageTable (.ptl1e ptl1e) nullCluster true
  .ok (pa, s.setPtl1 ptl1e { s.ptl1 ptl1e with
    blockDisk := BitVec.ofNat 16 pa
    status := PageTableL1Entry.statusPresent })

theorem lockPtl2_eq (s : KernelSystem) (h addr : Nat) (ptl1e : KAddr) :
    s.lockPtl2 h addr ptl1e =
      if (s.ptl1 ptl1e).status = PageTableL1Entry.statusUnused then do
        let (pa, s) ← s.placePageTable ptl1e
        .ok (pa, s.initPageTable pa)
      else s.pageTableLock h addr := by
  unfold lockPtl2 placePageTable
  cases s.ksRequestPage .ksPageTable (.ptl1e ptl1e) nullCluster true <;> rfl

end KernelSystem

open KernelSystem

/-- The steps that public operations are made of. -/
inductive Primitive where
  | fault (pte : KAddr)
  | load (pte : KAddr) (accType : AccessType) (content : Page)
  | clone (pte source : KAddr)
  | release (pte : KAddr)
  | markDirty (pte : KAddr)
  | write (cell : KAddr) (value : Cell)
  | fetch (ptl1e : KAddr) (lock : Bool)
  | place (ptl1e : KAddr)
  | clear (frame : Nat)
  | swapMaster (h : Nat)
  | lock (frame : Nat)
  | unlock (frame : Nat)
  | recount (h segCount : Nat)
  | regroup (b : Nat) (users : List PcbAndIndex)
  | enlist
  | newMaster (h : Nat)
  | announce (frame h : Nat)
  | relinquish (frame : Nat)
  | discard (h : Nat)
  | nameDummy (h b : Nat)
  | record (ssegVec : ConsVec Nat) (ssegMap : List (String × Nat))
      (sscbs : Nat → Option SsegControlBlock) (nextSscb ssegCount : Nat)

namespace Primitive

/-- The steps of paging: processes and segments stay as they are. -/
def IsPaging : Primitive → Prop
  | fault _ | load .. | clone .. | release _ | markDirty _ | write .. | fetch .. | place _
  | clear _ | swapMaster _ | lock _ | unlock _ => True
  | _ => False

/-- The steps of paging, and those that add and remove segments of a process. -/
def IsSegment (a : Primitive) : Prop :=
  a.IsPaging ∨ (∃ h segCount, a = recount h segCount) ∨ ∃ b users, a = regroup b users

/-- A frame that is written down or given back by its number has one of 16 bits. -/
def Step (s : KernelSystem) (a : Primitive) (s' : KernelSystem) : Prop :=
  match a with
  | fault pte => s.onUser (·.faultPage pte) = .ok s'
  | load pte accType content => s.onUser (·.loadPage pte accType content) = .ok s'
  | clone pte source => s.onUser (·.clonePage pte source) = .ok s'
  | release pte => s.onUser (·.releasePage pte) = .ok s'
  | markDirty pte => s' = s.withUser (s.markDirty pte)
  | write cell value => s' = s.withUser (s.setPte cell value)
  | fetch ptl1e locked => s.fetchPageTable ptl1e locked = .ok s'
  | place ptl1e => ∃ pa, s.placePageTable ptl1e = .ok (pa, s')
  | clear frame => s' = s.initPageTable frame
  | swapMaster h => s.swapMasterTable h true = .ok s'
  | lock frame => s' = s.ksLockPage frame
  | unlock frame => s' = s.ksUnlockPage frame
  | recount h segCount => ∃ p, s.pcbs h = some p ∧ s' = s.setPcb h { p with segCount := segCount }
  | regroup b users => ∃ sscb, s.sscbs b = some sscb ∧
      s' = s.setSscb b { sscb with users := users }
  | enlist => ∃ h, s.newPcb = .ok (h, s')
  | newMaster h => ∃ page s₁, s.ksAcquirePage .ksSegTable (.pcb h) true = .ok (page, s₁) ∧
      s₁.setMasterTable h page = .ok s'
  | announce frame h => frame < 65536 ∧
      s' = s.ksFtUpdate frame FrameTableEntry.ftNone .ksSegTable (.pcb h)
  | relinquish frame => frame < 65536 ∧ s' = s.ksRelinquishPage frame
  | discard h => ∃ pcbVec, s' = { s with pcbVec := pcbVec, pcbs := update s.pcbs h none }
  | nameDummy h b => ∃ p, s.pcbs h = some p ∧ s' = s.setPcb h { p with sscb := some b }
  | record ssegVec ssegMap sscbs nextSscb ssegCount => s' = { s with
      ssegVec := ssegVec
      ssegMap := ssegMap
      sscbs := sscbs
      nextSscb := nextSscb
      ssegCount := ssegCount }

end Primitive

/-- Whenever the computation returns, the state has the property. -/
def Upholds (I : KernelSystem → Prop) (x : Except Halt KernelSystem) : Prop :=
  Meets (fun _ => False) I x

/-- The same of a computation that returns a result with the state. -/
def UpholdsWith {β : Type} (I : KernelSystem → Prop) (x : Except Halt (β × KernelSystem)) : Prop :=
  Meets (fun _ => False) (fun r => I r.2) x

theorem Upholds.foldlM {β : Type} {I : KernelSystem → Prop}
    {f : KernelSystem → β → Except Halt KernelSystem} {l : List β} {s : KernelSystem}
    (hf : ∀ s b, I s → Upholds I (f s b)) (hs : I s) : Upholds I (l.foldlM f s) :=
  Meets.foldlM hf hs

theorem pcb_meets (s : KernelSystem) (h : Nat) :
    Meets (fun _ => False) (fun p => s.pcbs h = some p) (s.pcb h) := by
  unfold KernelSystem.pcb
  split
  · exact id
  · assumption

/-- A computation that has no state to change. -/
theorem meets_any {α : Type} (x : Except Halt α) : Meets (fun _ => False) (fun _ => True) x := by
  cases x with
  | error e => exact id
  | ok a => trivial

/-- What holds of every result. -/
theorem meets_of_ok {α : Type} {P : α → Prop} {x : Except Halt α} (h : ∀ a, x = .ok a → P a) :
    Meets (fun _ => False) P x := by
  cases x with
  | error e => exact id
  | ok a => exact h a rfl

/-- A property that these steps preserve. -/
structure ClosedUnder (K : Primitive → Prop) (I : KernelSystem → Prop) : Prop where
  step : ∀ s a s', K a → I s → Primitive.Step s a s' → I s'

namespace ClosedUnder

variable {I : KernelSystem → Prop} {s s' : KernelSystem} {h : Nat}

theorem pageUnlock (hI : ClosedUnder Primitive.IsPaging I) (hs : I s) (pg : Nat) :
    I (s.pageUnlock pg) := by
  unfold KernelSystem.pageUnlock
  split
  · exact hs
  · exact hI.step s (.unlock pg) _ trivial hs rfl

theorem setPte (hI : ClosedUnder Primitive.IsPaging I) (hs : I s) (a : KAddr) (e : Cell) :
    I (s.withUser (s.setPte a e)) :=
  hI.step s (.write a e) _ trivial hs rfl

theorem masterTableLock (hI : ClosedUnder Primitive.IsPaging I) (hs : I s) (h : Nat) :
    UpholdsWith I (s.masterTableLock h) := by
  refine (pcb_meets s h).bind fun p hp => ?_
  split
  · exact hI.step s (.lock p.masterTable) _ trivial hs rfl
  · refine Meets.bind (P := I) (meets_of_ok fun s₁ hswap => ?_) fun s₁ hs₁ =>
      (pcb_meets s₁ h).bind fun p₁ _ => hs₁
    exact hI.step s (.swapMaster h) s₁ trivial hs hswap

theorem fetchPageTable (hI : ClosedUnder Primitive.IsPaging I) (hs : I s) (a : KAddr)
    (lock : Bool) : Upholds I (s.fetchPageTable a lock) :=
  meets_of_ok fun s₁ hfetch => hI.step s (.fetch a lock) s₁ trivial hs hfetch

theorem pageTableLock (hI : ClosedUnder Primitive.IsPaging I) (hs : I s) (h addr : Nat) :
    UpholdsWith I (s.pageTableLock h addr) := by
  refine (pcb_meets s h).bind fun p _ => ?_
  dsimp only
  split
  · exact Meets.bind (hI.fetchPageTable hs _ _) fun s₁ hs₁ => hs₁
  · split
    · exact hI.step s (.lock _) _ trivial hs rfl
    · exact id

theorem lockPtl2 (hI : ClosedUnder Primitive.IsPaging I) (hs : I s) (h addr : Nat)
    (a : KAddr) : UpholdsWith I (s.lockPtl2 h addr a) := by
  rw [lockPtl2_eq]
  split
  · refine Meets.bind (P := fun r : Nat × KernelSystem => I r.2)
      (meets_of_ok fun r hplace => hI.step s (.place a) r.2 trivial hs ⟨r.1, hplace⟩)
      fun ⟨pa, s₁⟩ hs₁ => ?_
    exact meets_ok (hI.step s₁ (.clear pa) _ trivial hs₁ rfl)
  · exact hI.pageTableLock hs h addr

/-- The pages of a new segment, for work that preserves the property. -/
theorem fillSegment (hI : ClosedUnder Primitive.IsPaging I) {startAddr size : Nat}
    {work : KernelSystem → KAddr → Nat → Except Halt KernelSystem} (hs : I s)
    (hwork : ∀ s a i, I s → Upholds I (work s a i)) :
    Upholds I (s.fillSegment h startAddr size work) := by
  refine Meets.foldlM (fun s i hs => ?_) hs
  refine Meets.bind (meets_any _) fun found _ => Meets.bind (meets_any _) fun ptl1e _ => ?_
  refine Meets.bind (hI.lockPtl2 hs ..) fun ⟨punl1, s₁⟩ hs₁ => ?_
  refine Meets.bind (meets_any _) fun ptl2e _ => Meets.bind (hwork s₁ ptl2e i hs₁) fun s₂ hs₂ => ?_
  exact meets_ok (hI.pageUnlock hs₂ punl1)

theorem pageFault (hI : ClosedUnder Primitive.IsPaging I) :
    ∀ (depth : Nat) (s : KernelSystem) (h addr : Nat), I s →
    Upholds I (KernelSystem.pageFault depth s h addr)
  | 0, _, _, _, _ => id
  | depth + 1, s, h, addr, hs => by
      refine Meets.bind (hI.masterTableLock hs h) fun ⟨mt, s₁⟩ hs₁ => ?_
      refine Meets.bind (meets_any _) fun found _ => Meets.bind (meets_any _) fun ptl1e _ => ?_
      split
      · exact id
      refine Meets.bind (P := fun r : KAddr × KernelSystem => I r.2) ?_
        fun ⟨ptl2e, s₂⟩ hs₂ => Meets.bind (P := I) ?_
          fun s₃ hs₃ => meets_ok (hI.pageUnlock hs₃ mt)
      · unfold faultPtl2
        split
        · exact hs₁
        · refine Meets.bind (P := I) ?_ fun s' hs' => Meets.bind (meets_any _) fun _ _ => hs'
          refine Meets.bind (meets_any _) fun found _ => ?_
          cases found with
          | none => exact id
          | some a => exact hI.fetchPageTable hs₁ a false
        · exact id
      · unfold faultEntry
        split
        · exact Meets.bind (meets_any _) fun dummy _ => hI.pageFault depth s₂ dummy _ hs₂
        · exact meets_of_ok fun s₃ hfault => hI.step s₂ (.fault ptl2e) s₃ trivial hs₂ hfault

theorem access (hI : ClosedUnder Primitive.IsPaging I) : ∀ (depth : Nat) (s : KernelSystem)
    (pid address : Nat) (type : AccessType) (ignoreAccess : Bool), I s →
      UpholdsWith I (KernelSystem.access depth s pid address type ignoreAccess)
  | 0, _, _, _, _, _, _ => id
  | depth + 1, s, pid, address, type, ignoreAccess, hs => by
      refine Meets.bind (meets_any _) fun h _ => ?_
      refine Meets.bind (hI.masterTableLock hs h) fun ⟨mt, s₁⟩ hs₁ => ?_
      refine Meets.bind (meets_any _) fun found _ => ?_
      cases found with
      | none => exact meets_ok (hI.pageUnlock hs₁ mt)
      | some ptl1e =>
          dsimp only
          split
          · exact meets_ok (hI.pageUnlock hs₁ mt)
          · refine Meets.bind (P := fun r : Status × KernelSystem => I r.2) ?_
              fun ⟨status, s₂⟩ hs₂ => meets_ok (hI.pageUnlock hs₂ mt)
            unfold accessEntry
            dsimp only
            split
            · exact hs₁
            · split
              · exact hI.access depth s₁ _ _ _ _ hs₁
              · split
                · exact hs₁
                · split
                  · exact meets_ok (hI.step s₁ (.markDirty _) _ trivial hs₁ rfl)
                  · exact hs₁

section Segments

variable {ordinal startAddr size : Nat}

theorem paging (hI : ClosedUnder Primitive.IsSegment I) : ClosedUnder Primitive.IsPaging I where
  step s a s' ha := hI.step s a s' (.inl ha)

theorem setPcb (hI : ClosedUnder Primitive.IsSegment I) (hs : I s) {p : KernelProcess}
    (hp : s.pcbs h = some p) (segCount : Nat) : I (s.setPcb h { p with segCount := segCount }) :=
  hI.step s (.recount h segCount) _ (.inr (.inl ⟨h, segCount, rfl⟩)) hs ⟨p, hp, rfl⟩

theorem setUsers (hI : ClosedUnder Primitive.IsSegment I) (hs : I s) {b : Nat}
    {sscb : SsegControlBlock} (hb : s.sscbs b = some sscb) (users : List PcbAndIndex) :
    I (s.setSscb b { sscb with users := users }) :=
  hI.step s (.regroup b users) _ (.inr (.inr ⟨b, users, rfl⟩)) hs ⟨sscb, hb, rfl⟩

theorem recordSegment (hI : ClosedUnder Primitive.IsSegment I) (hs : I s) (kind : KindEnum) :
    UpholdsWith I (s.recordSegment h ordinal size kind) := by
  refine (pcb_meets s h).bind fun p hp => ?_
  dsimp only
  split
  · exact id
  · exact meets_ok (hI.setPcb (hI.paging.setPte hs _ _) hp _)

theorem newSegment (hI : ClosedUnder Primitive.IsSegment I) (hs : I s)
    {work : KernelSystem → KAddr → Nat → Except Halt KernelSystem}
    (hwork : ∀ s a i, I s → Upholds I (work s a i)) :
    UpholdsWith I (s.newSegment h ordinal startAddr size work) := by
  refine (pcb_meets s h).bind fun p _ => ?_
  split
  · exact hs
  · refine Meets.bind (hI.paging.masterTableLock hs h) fun ⟨mt, s₁⟩ hs₁ => ?_
    refine (pcb_meets s₁ h).bind fun p₁ _ => ?_
    split
    · exact meets_ok (hI.paging.pageUnlock hs₁ mt)
    · refine Meets.bind (hI.recordSegment hs₁ _) fun ⟨entry, s₂⟩ hs₂ => ?_
      refine Meets.bind (hI.paging.fillSegment hs₂ hwork) fun s₃ hs₃ => ?_
      exact meets_ok (hI.paging.pageUnlock hs₃ mt)

theorem createSegment (hI : ClosedUnder Primitive.IsSegment I) (hs : I s) (accType : AccessType) :
    UpholdsWith I (s.createSegment h startAddr size accType) :=
  hI.newSegment hs fun _ a _ hs => meets_ok (hI.paging.setPte hs a _)

theorem loadSegment (hI : ClosedUnder Primitive.IsSegment I) (hs : I s) (accType : AccessType)
    (content : Nat → Page) : UpholdsWith I (s.loadSegment h startAddr size accType content) :=
  hI.newSegment hs fun s a i hs =>
    meets_of_ok fun s' hload => hI.step s (.load a accType (content i)) s' (.inl trivial) hs hload

theorem ssegBlock_meets (s : KernelSystem) (ssegInd : Nat) :
    Meets (fun _ => False) (fun r => s.sscbs r.1 = some r.2) (s.ssegBlock ssegInd) := by
  refine Meets.bind (meets_any _) fun dummy _ => Meets.bind (meets_any _) fun p _ => ?_
  split
  · exact id
  · split
    · exact id
    · rename_i sscb hsscb
      exact meets_ok hsscb

theorem connectSharedSegment (hI : ClosedUnder Primitive.IsSegment I) (hs : I s)
    (h ssegInd localIndex : Nat) : Upholds I (s.connectSharedSegment h ssegInd localIndex) :=
  (ssegBlock_meets s ssegInd).bind fun _ hb => meets_ok (hI.setUsers hs hb _)

theorem dropUser (hI : ClosedUnder Primitive.IsSegment I) (hs : I s) (h ssegInd : Nat) :
    UpholdsWith I (s.dropUser h ssegInd) := by
  refine (ssegBlock_meets s ssegInd).bind fun ⟨b, sscb⟩ hb => ?_
  dsimp only
  split
  · exact id
  · exact meets_ok (hI.setUsers hs hb _)

theorem deletePage (hI : ClosedUnder Primitive.IsSegment I) (hs : I s)
    (doReleaseShared released : Bool) (i : Nat) :
    UpholdsWith I (deletePage h startAddr doReleaseShared (released, s) i) := by
  refine Meets.bind (meets_any _) fun found _ => Meets.bind (meets_any _) fun ptl1e _ => ?_
  split
  · exact id
  · refine Meets.bind (hI.paging.pageTableLock hs ..) fun ⟨pt, s₁⟩ hs₁ => ?_
    refine Meets.bind (meets_any _) fun ptl2e _ => ?_
    refine Meets.bind (P := fun r : Bool × KernelSystem => I r.2) ?_
      fun ⟨released', s₂⟩ hs₂ => meets_ok (hI.paging.pageUnlock hs₂ pt)
    unfold deleteEntry
    split
    · exact id
    · split
      · split
        · exact Meets.bind (hI.dropUser hs₁ _ _) fun r hs₂ => meets_ok (hI.paging.setPte hs₂ _ _)
        · exact meets_ok (hI.paging.setPte hs₁ _ _)
      · refine Meets.bind (P := I) (meets_of_ok fun s₂ hrelease => ?_) fun _ hs₂ => hs₂
        exact hI.step s₁ (.release ptl2e) s₂ (.inl trivial) hs₁ hrelease

theorem deleteSegmentInd (hI : ClosedUnder Primitive.IsSegment I) (hs : I s) (h entry : Nat)
    (doReleaseShared : Bool) : Upholds I (s.deleteSegmentInd h entry doReleaseShared) := by
  refine meets_of_ok fun s' hdelete => ?_
  obtain ⟨p, _, hrest⟩ := bind_ok hdelete
  obtain ⟨⟨released, s₁⟩, hloop, hrest⟩ := bind_ok hrest
  have hs₁ : I s₁ := (Meets.foldlM (I := fun r : Bool × KernelSystem => I r.2)
    (fun r i hr => hI.deletePage hr _ r.1 i) hs).ok hloop
  obtain ⟨p₁, hp₁, hret⟩ := bind_ok hrest
  rw [KernelSystem.pcb_eq_ok] at hp₁
  cases hret
  exact hI.setPcb (hI.paging.setPte hs₁ _ _) hp₁ _

theorem deleteSegment (hI : ClosedUnder Primitive.IsSegment I) (hs : I s) (h startAddr : Nat) :
    UpholdsWith I (s.deleteSegment h startAddr) := by
  refine (pcb_meets s h).bind fun p _ => ?_
  split
  · exact hs
  · refine Meets.bind (hI.paging.masterTableLock hs h) fun ⟨mt, s₁⟩ hs₁ => ?_
    refine (pcb_meets s₁ h).bind fun p₁ _ => ?_
    split
    · exact meets_ok (hI.paging.pageUnlock hs₁ mt)
    · exact Meets.bind (hI.deleteSegmentInd hs₁ ..) fun s₂ hs₂ =>
        meets_ok (hI.paging.pageUnlock hs₂ mt)

theorem disconnectSharedSegment (hI : ClosedUnder Primitive.IsSegment I) (hs : I s) (h : Nat)
    (name : String) : UpholdsWith I (s.disconnectSharedSegment h name) := by
  refine Meets.bind (meets_any _) fun found _ => ?_
  cases found with
  | none => exact hs
  | some ssegInd =>
      exact Meets.bind (hI.dropUser hs _ _) fun r hs₁ =>
        Meets.bind (hI.deleteSegmentInd hs₁ ..) fun _ hs₂ => hs₂

theorem cloneSegmentFrom (hI : ClosedUnder Primitive.IsSegment I) (hs : I s)
    (h source index : Nat) : Upholds I (cloneSegmentFrom h source s index) := by
  refine Meets.bind (meets_any _) fun p _ => ?_
  refine Meets.bind (hI.recordSegment hs _) fun ⟨entry, s₁⟩ hs₁ => ?_
  refine hI.paging.fillSegment hs₁ fun s₂ a i hs₂ => ?_
  refine Meets.bind (P := fun r : Nat × KAddr × KernelSystem => I r.2.2) ?_
    fun ⟨punl1, ptl2eSrc, s₃⟩ hs₃ => Meets.bind (P := I) ?_
      fun s₄ hs₄ => meets_ok (hI.paging.pageUnlock hs₄ punl1)
  · refine Meets.bind (meets_any _) fun found _ => Meets.bind (meets_any _) fun ptl1e _ => ?_
    split
    · exact id
    · exact Meets.bind (hI.paging.pageTableLock hs₂ ..) fun ⟨pt, s₃⟩ hs₃ =>
        Meets.bind (meets_any _) fun _ _ => hs₃
  · unfold cloneEntry
    split
    · dsimp only
      split
      · exact hI.connectSharedSegment (hI.paging.setPte hs₃ _ _) _ _ _
      · exact meets_ok (hI.paging.setPte hs₃ _ _)
    · refine meets_of_ok fun s₄ hclone => ?_
      exact hI.step s₃ (.clone a ptl2eSrc) s₄ (.inl trivial) hs₃ hclone

end Segments

end ClosedUnder

end VirtualMemory
