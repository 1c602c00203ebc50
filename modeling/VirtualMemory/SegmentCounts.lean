import VirtualMemory.OffPaging

/-!
# How many segments a process has

A process object counts its segments. Paging moves master tables about and writes to these
objects, but leaves the count alone; a call that creates a segment adds one to the count of
its process, a call that removes one takes one off.
-/

namespace VirtualMemory

open Function UserSpace KernelSystem Outcome

/-- The count of a process, if there is one. -/
def KernelSystem.count (s : KernelSystem) (h : Nat) : Option Nat :=
  (s.pcbs h).map KernelProcess.segCount

theorem count_setPcb {s : KernelSystem} {h h' : Nat} {p p' : KernelProcess}
    (hp : s.pcbs h' = some p) (hsame : p'.segCount = p.segCount) :
    (s.setPcb h' p').count h = s.count h := by
  by_cases hh : h = h'
  · subst h'
    simp [KernelSystem.count, KernelSystem.setPcb, hp, hsame]
  · simp [KernelSystem.count, KernelSystem.setPcb, hh]

theorem offPaging_count (h : Nat) : OffPaging (KernelSystem.count · h) :=
  ⟨fun _ _ _ _ => rfl, fun _ _ _ _ hp _ hsame => count_setPcb hp hsame⟩

/-- Whenever the computation returns, the process has this count. -/
abbrev Counts (h : Nat) (c : Option Nat) (x : Except Halt KernelSystem) : Prop :=
  Fixes (KernelSystem.count · h) c x

/-- The same of a computation that returns a result with the state. -/
abbrev CountsWith {α : Type} (h : Nat) (c : Option Nat) (x : Except Halt (α × KernelSystem)) :
    Prop :=
  FixesWith (KernelSystem.count · h) c x

@[simp] theorem count_pageUnlock {s : KernelSystem} {h : Nat} (pg : Nat) :
    (s.pageUnlock pg).count h = s.count h := (offPaging_count h).pageUnlock s pg

section Adding

variable {s s' : KernelSystem} {h ordinal startAddr size : Nat} {c : Option Nat}

theorem recordSegment_count {entry : Nat} {kind : KindEnum}
    (hrecord : s.recordSegment h ordinal size kind = .ok (entry, s')) :
    s'.count h = (s.count h).map (· + 1) := by
  unfold recordSegment at hrecord
  obtain ⟨p, hp, hrest⟩ := bind_ok hrecord
  rw [KernelSystem.pcb_eq_ok] at hp
  split at hrest
  · cases hrest
  · cases hrest
    simp [KernelSystem.count, KernelSystem.setPcb, hp]

/-- A private segment adds one to the count, if it is created. -/
theorem newSegment_count {status : Status}
    {work : KernelSystem → KAddr → Nat → Except Halt KernelSystem}
    (hwork : ∀ s a i, s.count h = c → Counts h c (work s a i))
    (hc : c = if status = .ok then (s.count h).map (· + 1) else s.count h)
    (hnew : s.newSegment h ordinal startAddr size work = .ok (status, s')) : s'.count h = c := by
  obtain ⟨p, _, hrest⟩ := bind_ok hnew
  split at hrest
  · cases hrest
    exact hc.symm
  · obtain ⟨⟨mt, s₁⟩, hlock, hrest⟩ := bind_ok hrest
    have hs₁ : s₁.count h = s.count h :=
      (((offPaging_count h).closed _).masterTableLock rfl h).ok hlock
    obtain ⟨p₁, _, hrest⟩ := bind_ok hrest
    split at hrest
    · cases hrest
      exact (count_pageUnlock mt).trans (hs₁.trans hc.symm)
    · obtain ⟨⟨entry, s₂⟩, hrecord, hrest⟩ := bind_ok hrest
      obtain ⟨s₃, hfill, hret⟩ := bind_ok hrest
      cases hret
      have hs₂ : s₂.count h = c := by
        rw [recordSegment_count hrecord, hs₁]
        exact hc.symm
      exact (count_pageUnlock mt).trans
        ((((offPaging_count h).closed _).fillSegment hs₂ hwork).ok hfill)

theorem createSegment_count {status : Status} {accType : AccessType}
    (hcreate : s.createSegment h startAddr size accType = .ok (status, s')) :
    s'.count h = if status = .ok then (s.count h).map (· + 1) else s.count h := by
  unfold createSegment at hcreate
  refine newSegment_count ?_ rfl hcreate
  intro s₁ a i hs
  exact meets_ok hs

theorem loadSegment_count {status : Status} {accType : AccessType} {content : Nat → Page}
    (hload : s.loadSegment h startAddr size accType content = .ok (status, s')) :
    s'.count h = if status = .ok then (s.count h).map (· + 1) else s.count h := by
  unfold loadSegment at hload
  exact newSegment_count (fun s₁ a i hs => (offPaging_count h).onUser hs _) rfl hload

end Adding

section Sharing

variable {s s' : KernelSystem} {h h' startAddr size : Nat} {c : Option Nat} {name : String}
  {accType : AccessType}

theorem count_setPcb_of_ne (hne : h ≠ h') (p : KernelProcess) :
    (s.setPcb h' p).count h = s.count h := by
  simp [KernelSystem.count, KernelSystem.setPcb, hne]

theorem recordSegment_counts {ordinal : Nat} {kind : KindEnum} (hs : s.count h = c)
    (hne : h ≠ h') : CountsWith h c (s.recordSegment h' ordinal size kind) := by
  refine (pcb_meets s h').bind fun p _ => ?_
  dsimp only
  split
  · exact id
  · exact meets_ok ((count_setPcb_of_ne hne _).trans hs)

/-- A private segment of another process. -/
theorem createSegment_counts (hs : s.count h = c) (hne : h ≠ h') :
    CountsWith h c (s.createSegment h' startAddr size accType) := by
  refine (pcb_meets s h').bind fun p _ => ?_
  split
  · exact hs
  · refine Meets.bind (((offPaging_count h).closed _).masterTableLock hs h') fun ⟨mt, s₁⟩ hs₁ => ?_
    refine (pcb_meets s₁ h').bind fun p₁ _ => ?_
    split
    · exact meets_ok ((count_pageUnlock mt).trans hs₁)
    · refine Meets.bind (recordSegment_counts hs₁ hne) fun ⟨entry, s₂⟩ hs₂ => ?_
      refine Meets.bind (((offPaging_count h).closed _).fillSegment hs₂ fun s a i hs =>
        meets_ok hs) fun s₃ hs₃ => ?_
      exact meets_ok ((count_pageUnlock mt).trans hs₃)

/-- A process that is created is another one. -/
theorem createProcess_counts (hs : s.count h = c) (hold : h ≠ s.nextPcb) :
    Meets (fun _ => False) (fun r => r.1 ≠ h ∧ r.2.count h = c) s.createProcess := by
  refine Meets.bind (P := fun r : Nat × Nat × KernelSystem => r.1 ≠ h ∧ r.2.2.count h = c) ?_
    fun ⟨dummy, page, s₁⟩ hs₁ => hs₁
  refine Meets.bind (P := fun r : Nat × KernelSystem => r.1 ≠ h ∧ r.2.count h = c) ?_
    fun ⟨dummy, s₁⟩ ⟨hne, hs₁⟩ => ?_
  · refine Meets.bind (meets_any _) fun pcbVec _ => meets_ok ⟨hold.symm, ?_⟩
    simpa [KernelSystem.count, hold] using hs
  · refine Meets.bind ((offPaging_count h).ksAcquirePage hs₁ ..) fun ⟨page, s₂⟩ hs₂ => ?_
    refine Meets.bind (P := fun s' : KernelSystem => s'.count h = c) ?_ fun s₃ hs₃ => ⟨hne, hs₃⟩
    exact (pcb_meets s₂ dummy).bind fun p _ =>
      meets_ok ((count_setPcb_of_ne (Ne.symm hne) _).trans hs₂)

theorem findOrCreate_counts (hs : s.count h = c) (hold : h ≠ s.nextPcb) :
    CountsWith h c (s.findOrCreate size name accType) := by
  refine Meets.bind (meets_any _) fun found _ => ?_
  cases found with
  | some ssegInd => exact hs
  | none =>
      refine Meets.bind (P := fun r : Status × KernelSystem => r.2.count h = c) ?_
        fun ⟨status, s₁⟩ hs₁ => ?_
      · unfold createDummy
        split
        · exact hs
        · refine Meets.bind (createProcess_counts hs hold) fun ⟨dummy, s₁⟩ ⟨hne, hs₁⟩ => ?_
          refine Meets.bind (meets_any _) fun p _ => createSegment_counts ?_ (Ne.symm hne)
          exact (count_setPcb_of_ne (Ne.symm hne) _).trans hs₁
      · dsimp only
        split
        · exact Meets.bind (meets_any _) fun ssegInd _ => hs₁
        · exact hs₁

theorem connectSharedSegment_counts {ssegInd localIndex : Nat} (hs : s.count h = c) (h' : Nat) :
    Counts h c (s.connectSharedSegment h' ssegInd localIndex) :=
  Meets.bind (meets_any _) fun _ _ => meets_ok hs

/-- A mapping adds one to the count, if it is made. -/
theorem createSharedSegment_count {g : Layout} {m : Nat} {status : Status}
    (hinv : KernelInv g noHand noHand s) (hm : g.place (.master h) = .frame m)
    (hcreate : s.createSharedSegment h startAddr size name accType = .ok (status, s')) :
    s'.count h = if status = .ok then (s.count h).map (· + 1) else s.count h := by
  have hold : h ≠ s.nextPcb := by
    rintro rfl
    exact hinv.not_madeSince hm (Nat.le_refl _)
  obtain ⟨p, _, hrest⟩ := bind_ok hcreate
  split at hrest
  · cases hrest
    rfl
  · rw [hinv.masterTableLock_ok hm, ok_bind] at hrest
    obtain ⟨p₁, _, hrest⟩ := bind_ok hrest
    dsimp only at hrest
    split at hrest
    · cases hrest
      exact count_pageUnlock m
    · obtain ⟨⟨found, s₂⟩, hfind, hrest⟩ := bind_ok hrest
      have hs₂ : s₂.count h = s.count h :=
        (findOrCreate_counts (s := s.ksLockPage m) rfl hold).ok hfind
      cases found with
      | none =>
          cases hrest
          exact (count_pageUnlock m).trans hs₂
      | some ssegInd =>
          obtain ⟨⟨entry, s₃⟩, hrecord, hrest⟩ := bind_ok hrest
          obtain ⟨s₄, hconnect, hrest⟩ := bind_ok hrest
          obtain ⟨s₅, hfill, hret⟩ := bind_ok hrest
          cases hret
          have hs₃ : s₃.count h = (s.count h).map (· + 1) := by
            rw [recordSegment_count hrecord, hs₂]
          have hs₄ : s₄.count h = (s.count h).map (· + 1) :=
            (connectSharedSegment_counts hs₃ h).ok hconnect
          have hmap : ∀ s₁ a i, s₁.count h = (s.count h).map (· + 1) →
              Counts h ((s.count h).map (· + 1)) (mapShared ssegInd accType s₁ a i) :=
            fun s₁ a i hs₁ => meets_ok hs₁
          exact (count_pageUnlock m).trans
            ((((offPaging_count h).closed _).fillSegment hs₄ hmap).ok hfill)

end Sharing

section Removing

variable {s s' : KernelSystem} {h h' startAddr : Nat} {c : Option Nat} {doReleaseShared : Bool}

theorem deletePage_counts {released : Bool} (hs : s.count h = c) (i : Nat) :
    CountsWith h c (deletePage h' startAddr doReleaseShared (released, s) i) := by
  refine Meets.bind (meets_any _) fun found _ => Meets.bind (meets_any _) fun ptl1e _ => ?_
  split
  · exact id
  · refine Meets.bind (((offPaging_count h).closed _).pageTableLock hs ..) fun ⟨pt, s₁⟩ hs₁ => ?_
    refine Meets.bind (meets_any _) fun ptl2e _ => ?_
    refine Meets.bind (P := fun r : Bool × KernelSystem => r.2.count h = c) ?_
      fun ⟨released', s₂⟩ hs₂ => meets_ok ((count_pageUnlock pt).trans hs₂)
    unfold deleteEntry
    split
    · exact id
    · split
      · split
        · refine Meets.bind (P := fun r : Nat × KernelSystem => r.2.count h = c) ?_
            fun _ hs₂ => hs₂
          refine Meets.bind (meets_any _) fun ⟨b, sscb⟩ _ => ?_
          dsimp only
          split
          · exact id
          · exact hs₁
        · exact hs₁
      · exact Meets.bind ((offPaging_count h).onUser hs₁ _) fun _ hs₂ => hs₂

/-- One segment less is counted. -/
theorem deleteSegmentInd_count {entry : Nat}
    (hdelete : s.deleteSegmentInd h entry doReleaseShared = .ok s') :
    s'.count h = (s.count h).map fun count => (count + (2 ^ 32 - 1)) % 2 ^ 32 := by
  obtain ⟨p, _, hrest⟩ := bind_ok hdelete
  obtain ⟨⟨released, s₁⟩, hloop, hrest⟩ := bind_ok hrest
  have hs₁ : s₁.count h = s.count h :=
    (Meets.foldlM (I := fun r : Bool × KernelSystem => r.2.count h = s.count h)
      (fun r i hr => deletePage_counts hr i) rfl).ok hloop
  obtain ⟨p₁, hp₁, hret⟩ := bind_ok hrest
  rw [KernelSystem.pcb_eq_ok] at hp₁
  cases hret
  rw [← hs₁]
  simp [KernelSystem.count, KernelSystem.setPcb, hp₁]

end Removing

end VirtualMemory
