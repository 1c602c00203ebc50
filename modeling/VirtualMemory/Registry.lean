import VirtualMemory.KernelRuns
import VirtualMemory.OffPaging
import VirtualMemory.SlotVector

/-!
# What is on record

The kernel keeps its processes in `pcb_vec`, and a shared segment in `sseg_map`, in
`sseg_vec` and in a control block, with a count beside them. Only the calls that make or
remove a process or a shared segment write there: a registry of these is a machine of its
own, and each call of the kernel is at most one step of it.
-/

namespace VirtualMemory

open Function Outcome

/-- What is on record: of a process its id and the block it is the dummy of, of a block its
dummy and its place in `sseg_vec`. -/
structure Registry where
  process : Nat → Option (Nat × Option Nat)
  nextPcb : Nat
  pcbVec : ConsVec (Option Nat)
  ssegVec : ConsVec Nat
  ssegMap : List (String × Nat)
  block : Nat → Option (Nat × Nat)
  nextSscb : Nat
  ssegCount : Nat

def KernelSystem.registry (s : KernelSystem) : Registry where
  process h := (s.pcbs h).map KernelProcess.rest
  nextPcb := s.nextPcb
  pcbVec := s.pcbVec
  ssegVec := s.ssegVec
  ssegMap := s.ssegMap
  block b := (s.sscbs b).map fun sscb => (sscb.dummy, sscb.ssegVecIndex)
  nextSscb := s.nextSscb
  ssegCount := s.ssegCount

namespace Registry

/-- A new object takes a slot of `pcb_vec`. -/
def AddsProcess (r : Registry) (h : Nat) (r' : Registry) : Prop :=
  h = r.nextPcb ∧ ∃ vec, (r.pcbVec.insert none).2.assign (r.pcbVec.insert none).1 (some h) =
      .ok vec ∧
    r' = { r with
      nextPcb := h + 1
      pcbVec := vec
      process := update r.process h (some ((r.pcbVec.insert none).1, none)) }

/-- An object gives its slot back. -/
def RemovesProcess (r : Registry) (h : Nat) (r' : Registry) : Prop :=
  ∃ pid b vec, r.process h = some (pid, b) ∧ r.pcbVec.markEmpty pid = .ok vec ∧
    r' = { r with pcbVec := vec, process := update r.process h none }

/-- A new block for a new process. -/
def AddsSegment (r : Registry) (name : String) (r' : Registry) : Prop :=
  r.ssegCount ≠ KernelSystem.maxSharedSegments ∧ ∃ dummy r₁,
    AddsProcess { r with ssegMap := (name, r.nextSscb) :: r.ssegMap, nextSscb := r.nextSscb + 1 }
      dummy r₁ ∧
    r' = { r₁ with
      ssegVec := (r₁.ssegVec.insert dummy).2
      block := update r₁.block r.nextSscb (some (dummy, (r₁.ssegVec.insert dummy).1))
      process := update r₁.process dummy
        ((r₁.process dummy).map fun rest => (rest.1, some r.nextSscb))
      ssegCount := r₁.ssegCount + 1 }

/-- A block goes with its dummy; the count stays. -/
def RemovesSegment (r : Registry) (name : String) (r' : Registry) : Prop :=
  ∃ b dummy n r₁ vec, r.ssegMap.lookup name = some b ∧ r.block b = some (dummy, n) ∧
    r.RemovesProcess dummy r₁ ∧ r₁.ssegVec.markEmpty n = .ok vec ∧
    r' = { r₁ with
      ssegVec := vec
      ssegMap := r₁.ssegMap.filter fun entry => decide (entry.1 ≠ name)
      block := update r₁.block b none }

/-- What a call does to the registry. -/
def Step (r : Registry) (op : KernelOp) (r' : Registry) : Prop :=
  match op with
  | .createProcess | .cloneProcess _ => ∃ h, r.AddsProcess h r'
  | .deleteProcess h => r.RemovesProcess h r'
  | .createSharedSegment _ _ _ name _ =>
      r' = r ∨ r.ssegMap.lookup name = none ∧ r.AddsSegment name r'
  | .deleteSharedSegment name =>
      r.ssegMap.lookup name = none ∧ r' = r ∨ r.RemovesSegment name r'
  | _ => r' = r

end Registry

theorem offSegments_registry : OffSegments KernelSystem.registry where
  paged _ _ _ _ := rfl
  object s h p p' hp hrest := by
    have hprocess : (s.setPcb h p').registry.process = s.registry.process := by
      funext i
      by_cases hi : i = h
      · subst i
        simp [KernelSystem.registry, KernelSystem.setPcb, hp, hrest]
      · simp [KernelSystem.registry, KernelSystem.setPcb, update_of_ne hi]
    exact congrArg (fun process => { s.registry with process := process }) hprocess
  users s b sscb users hb := by
    have hblock : (s.setSscb b { sscb with users := users }).registry.block =
        s.registry.block := by
      funext i
      by_cases hi : i = b
      · subst i
        simp [KernelSystem.registry, KernelSystem.setSscb, hb]
      · simp [KernelSystem.registry, KernelSystem.setSscb, update_of_ne hi]
    exact congrArg (fun block => { s.registry with block := block }) hblock

theorem offPaging_registry : OffPaging KernelSystem.registry := offSegments_registry.offPaging

namespace KernelSystem

variable {s s' : KernelSystem} {h : Nat}

theorem registry_process (s : KernelSystem) {p : KernelProcess} (hp : s.pcbs h = some p) :
    s.registry.process h = some (p.pid, p.sscb) := by
  simp [registry, hp, KernelProcess.rest]

theorem newPcb_registry (hnew : s.newPcb = .ok (h, s')) :
    s.registry.AddsProcess h s'.registry := by
  obtain ⟨vec, hvec, hret⟩ := bind_ok hnew
  cases hret
  refine ⟨rfl, vec, hvec, ?_⟩
  have hprocess : ∀ p : KernelProcess, p.rest = ((s.pcbVec.insert none).1, none) →
      (fun i => (update s.pcbs s.nextPcb (some p) i).map KernelProcess.rest) =
        update s.registry.process s.nextPcb (some ((s.pcbVec.insert none).1, none)) := by
    intro p hp
    funext i
    by_cases hi : i = s.nextPcb
    · subst i
      simp [hp]
    · simp [update_of_ne hi, registry]
  exact congrArg (fun process => (⟨process, s.nextPcb + 1, vec, s.ssegVec, s.ssegMap,
    s.registry.block, s.nextSscb, s.ssegCount⟩ : Registry)) (hprocess _ rfl)

theorem newProcess_registry {page : Nat} (hnew : s.newProcess = .ok (h, page, s')) :
    s.registry.AddsProcess h s'.registry := by
  obtain ⟨⟨dummy, s₁⟩, hpcb, hrest⟩ := bind_ok hnew
  obtain ⟨⟨f, s₂⟩, hacquire, hrest⟩ := bind_ok hrest
  obtain ⟨s₃, hset, hret⟩ := bind_ok hrest
  cases hret
  have hs₂ : s₂.registry = s₁.registry :=
    (offPaging_registry.ksAcquirePage rfl _ _ _).ok hacquire
  obtain ⟨p, hp, hs₃⟩ := bind_ok hset
  rw [pcb_eq_ok] at hp
  cases hs₃
  have hs' := offSegments_registry.object _ h p
    { p with
      segCount := 0
      masterTable := page
      masterTableValid := true
      ptl1Ptr := KAddr.page page
      stPtr := (KAddr.page page).index maxPageTablesL1 } hp rfl
  have huser := offPaging_registry.withUser s₂
    (s₂.setKrnlPage page (initMasterTable (s₂.krnlPage page))).toUserSpace
  have hpcb := newPcb_registry hpcb
  rw [← hs₂, ← huser] at hpcb
  exact hs' ▸ hpcb

theorem createProcess_registry (hcreate : s.createProcess = .ok (h, s')) :
    s.registry.AddsProcess h s'.registry := by
  obtain ⟨⟨dummy, page, s₁⟩, hnew, hret⟩ := bind_ok hcreate
  cases hret
  have hadds := newProcess_registry hnew
  exact hadds

theorem cloneProcess_registry {pid : Nat} (hclone : s.cloneProcess pid = .ok (h, s')) :
    s.registry.AddsProcess h s'.registry := by
  obtain ⟨found, _, hrest⟩ := bind_ok hclone
  cases found with
  | none => cases hrest
  | some source =>
      obtain ⟨⟨mt, s₁⟩, hlock, hrest⟩ := bind_ok hrest
      obtain ⟨⟨dummy, page, s₂⟩, hnew, hrest⟩ := bind_ok hrest
      obtain ⟨s₃, hloop, hret⟩ := bind_ok hrest
      cases hret
      have hs₁ : s₁.registry = s.registry :=
        ((offPaging_registry.closed _).masterTableLock rfl source).ok hlock
      have hs₃ : s₃.registry = s₂.registry := by
        refine (Upholds.foldlM (I := (·.registry = s₂.registry)) (fun t i ht => ?_) rfl).ok hloop
        refine (meets_any _).bind fun p _ => ?_
        split
        · exact ht
        · exact (offSegments_registry.closed _).cloneSegmentFrom ht _ _ _
      have hadds := newProcess_registry hnew
      rw [hs₁, ← hs₃] at hadds
      exact hadds

/-- The object is gone with its entry in `pcb_vec`. -/
theorem deleteProcess_registry (hdelete : s.deleteProcess h = .ok s') :
    s.registry.RemovesProcess h s'.registry := by
  obtain ⟨⟨mt, s₁⟩, hlock, hrest⟩ := bind_ok hdelete
  obtain ⟨s₂, hloop, hrest⟩ := bind_ok hrest
  obtain ⟨p, hp, hrest⟩ := bind_ok hrest
  obtain ⟨vec, hvec, hret⟩ := bind_ok hrest
  cases hret
  have hs₁ : s₁.registry = s.registry :=
    ((offPaging_registry.closed _).masterTableLock rfl h).ok hlock
  have hs₂ : s₂.registry = s.registry := by
    refine (Upholds.foldlM (I := (·.registry = s.registry)) (fun t i ht => ?_) hs₁).ok hloop
    refine (meets_any _).bind fun p _ => ?_
    split
    · exact (offSegments_registry.closed _).deleteSegmentInd ht _ _ _
    · exact ht
  rw [pcb_eq_ok] at hp
  have hgone : (fun i => (update s₂.pcbs h none i).map KernelProcess.rest) =
      update s₂.registry.process h none := by
    funext i
    by_cases hi : i = h
    · subst i
      simp
    · simp [update_of_ne hi, registry]
  rw [← hs₂]
  exact ⟨p.pid, p.sscb, vec, registry_process s₂ hp, hvec,
    congrArg (fun process => { s₂.registry with pcbVec := vec, process := process }) hgone⟩

variable {status : Status} {name : String} {size : Nat} {accType : AccessType}

/-- The dummy is set to lead to its block, and what else is done for it is not recorded. -/
theorem createDummy_registry (hcreate : s.createDummy size name accType = .ok (status, s')) :
    (s.ssegCount = maxSharedSegments ∧ status = .trap ∧ s' = s) ∨
      s.registry.AddsSegment name s'.registry := by
  unfold createDummy at hcreate
  split at hcreate
  · rename_i hcount
    cases hcreate
    exact .inl ⟨hcount, rfl, rfl⟩
  · rename_i hcount
    obtain ⟨⟨dummy, s₁⟩, hprocess, hrest⟩ := bind_ok hcreate
    obtain ⟨p, hp, hsegment⟩ := bind_ok hrest
    rw [pcb_eq_ok] at hp
    have hp : s₁.pcbs dummy = some p := hp
    have hs' := ((offSegments_registry.closed _).createSegment rfl accType).ok hsegment
    dsimp only at hs'
    refine .inr ⟨hcount, dummy, s₁.registry, createProcess_registry hprocess, hs'.trans ?_⟩
    have hdummy : (fun i => (update s₁.pcbs dummy (some { p with sscb := some s.nextSscb })
        i).map KernelProcess.rest) = update s₁.registry.process dummy
          ((s₁.registry.process dummy).map fun rest => (rest.1, some s.nextSscb)) := by
      funext i
      by_cases hi : i = dummy
      · subst i
        simp [registry, hp, KernelProcess.rest]
      · simp [update_of_ne hi, registry]
    have hblock : ∀ n, (fun i => (update s₁.sscbs s.nextSscb (some ⟨dummy, n, []⟩) i).map
        fun sscb => (sscb.dummy, sscb.ssegVecIndex)) =
          update s₁.registry.block s.nextSscb (some (dummy, n)) := by
      intro n
      funext i
      by_cases hi : i = s.nextSscb
      · subst i
        simp
      · simp [update_of_ne hi, registry]
    exact congrArg₂ (fun process block => { s₁.registry with
      ssegVec := (s₁.ssegVec.insert dummy).2
      block := block
      process := process
      ssegCount := s₁.ssegCount + 1 }) hdummy (hblock _)

theorem findOrCreate_registry {found : Option Nat}
    (hfind : s.findOrCreate size name accType = .ok (found, s')) :
    s'.registry = s.registry ∨
      s.ssegMap.lookup name = none ∧ s.registry.AddsSegment name s'.registry := by
  obtain ⟨before, hbefore, hrest⟩ := bind_ok hfind
  cases before with
  | some ssegInd =>
      cases hrest
      exact .inl rfl
  | none =>
      have hname : s.ssegMap.lookup name = none := by
        unfold sharedSegmentFind at hbefore
        split at hbefore
        · assumption
        · split at hbefore <;> cases hbefore
      obtain ⟨⟨status, s₁⟩, hcreate, hrest⟩ := bind_ok hrest
      have hs' : s' = s₁ := by
        dsimp only at hrest
        split at hrest
        · obtain ⟨_, _, hret⟩ := bind_ok hrest
          cases hret
          rfl
        · cases hrest
          rfl
      obtain ⟨_, _, rfl⟩ | hadds := createDummy_registry hcreate
      · exact .inl (congrArg registry hs')
      · exact .inr ⟨hname, hs' ▸ hadds⟩

theorem createSharedSegment_registry {startAddr : Nat}
    (hcreate : s.createSharedSegment h startAddr size name accType = .ok (status, s')) :
    s'.registry = s.registry ∨
      s.ssegMap.lookup name = none ∧ s.registry.AddsSegment name s'.registry := by
  obtain ⟨p, _, hrest⟩ := bind_ok hcreate
  split at hrest
  · cases hrest
    exact .inl rfl
  obtain ⟨⟨mt, s₁⟩, hlock, hrest⟩ := bind_ok hrest
  have hs₁ : s₁.registry = s.registry :=
    ((offPaging_registry.closed _).masterTableLock rfl h).ok hlock
  obtain ⟨p₁, _, hrest⟩ := bind_ok hrest
  dsimp only at hrest
  split at hrest
  · cases hrest
    exact .inl ((offPaging_registry.pageUnlock s₁ mt).trans hs₁)
  obtain ⟨⟨found, s₂⟩, hfind, hrest⟩ := bind_ok hrest
  have hs' : s'.registry = s₂.registry := by
    cases found with
    | none =>
        cases hrest
        exact offPaging_registry.pageUnlock s₂ mt
    | some ssegInd =>
        obtain ⟨⟨entry, s₃⟩, hrecord, hrest⟩ := bind_ok hrest
        obtain ⟨s₄, hconnect, hrest⟩ := bind_ok hrest
        obtain ⟨s₅, hfill, hret⟩ := bind_ok hrest
        cases hret
        have hs₃ : s₃.registry = s₂.registry :=
          ((offSegments_registry.closed _).recordSegment rfl _).ok hrecord
        have hs₄ : s₄.registry = s₂.registry :=
          ((offSegments_registry.closed _).connectSharedSegment hs₃ _ _ _).ok hconnect
        have hs₅ : s₅.registry = s₂.registry := by
          refine ((offPaging_registry.closed _).fillSegment hs₄ fun t a i ht => ?_).ok hfill
          exact Outcome.meets_ok ((offPaging_registry.withUser t _).trans ht)
        exact (offPaging_registry.pageUnlock s₅ mt).trans hs₅
  have hmap : s₁.ssegMap = s.ssegMap := congrArg Registry.ssegMap hs₁
  rw [hs', ← hs₁, ← hmap]
  exact findOrCreate_registry hfind

/-- Its users and its dummy first, then the segment. -/
theorem deleteSharedSegment_registry
    (hdelete : s.deleteSharedSegment name = .ok (status, s')) :
    s.ssegMap.lookup name = none ∧ s'.registry = s.registry ∨
      s.registry.RemovesSegment name s'.registry := by
  unfold deleteSharedSegment at hdelete
  split at hdelete
  · rename_i hname
    cases hdelete
    exact .inl ⟨hname, rfl⟩
  rename_i b hname
  split at hdelete
  · cases hdelete
  rename_i sscb hb
  obtain ⟨s₁, hloop, hrest⟩ := bind_ok hdelete
  obtain ⟨s₂, hprocess, hrest⟩ := bind_ok hrest
  obtain ⟨vec, hvec, hret⟩ := bind_ok hrest
  cases hret
  have hs₁ : s₁.registry = s.registry :=
    (Upholds.foldlM (fun t user ht => (offSegments_registry.closed _).deleteSegmentInd ht _ _ _)
      rfl).ok hloop
  have hcleared : (s₁.setSscb b { sscb with users := [] }).registry = s.registry := by
    have hblock : s₁.registry.block b = some (sscb.dummy, sscb.ssegVecIndex) := by
      rw [hs₁]
      simp [registry, hb]
    obtain ⟨sscb₁, hb₁, heq⟩ := Option.map_eq_some_iff.mp hblock
    have hsame : { sscb with users := [] } = { sscb₁ with users := [] } := by
      obtain ⟨hdummy, hindex⟩ := Prod.mk.inj heq
      simp [hdummy, hindex]
    rw [hsame]
    exact (offSegments_registry.users s₁ b sscb₁ [] hb₁).trans hs₁
  have hremoves := deleteProcess_registry hprocess
  rw [hcleared] at hremoves
  have hgone : (fun i => (update s₂.sscbs b none i).map fun sscb =>
      (sscb.dummy, sscb.ssegVecIndex)) = update s₂.registry.block b none := by
    funext i
    by_cases hi : i = b
    · subst i
      simp
    · simp [update_of_ne hi, registry]
  exact .inr ⟨b, sscb.dummy, sscb.ssegVecIndex, s₂.registry, vec, hname, by simp [registry, hb],
    hremoves, hvec, congrArg (fun block => { s₂.registry with
      ssegVec := vec
      ssegMap := s₂.ssegMap.filter fun entry => decide (entry.1 ≠ name)
      block := block }) hgone⟩

end KernelSystem

/-- The registry is a machine of its own, which the kernel drives. -/
theorem KernelOp.step_registry {levels : Nat} {s s' : KernelSystem} {op : KernelOp}
    (hstep : op.Step levels s s') : s.registry.Step op s'.registry := by
  cases op with
  | createProcess =>
      obtain ⟨⟨h, s₁⟩, hcreate, hret⟩ := bind_ok hstep
      cases hret
      exact ⟨h, KernelSystem.createProcess_registry hcreate⟩
  | cloneProcess pid =>
      obtain ⟨⟨h, s₁⟩, hclone, hret⟩ := bind_ok hstep
      cases hret
      exact ⟨h, KernelSystem.cloneProcess_registry hclone⟩
  | deleteProcess h => exact KernelSystem.deleteProcess_registry hstep
  | createSharedSegment h startAddr size name accType =>
      obtain ⟨⟨status, s₁⟩, hcreate, hret⟩ := bind_ok hstep
      cases hret
      exact KernelSystem.createSharedSegment_registry hcreate
  | deleteSharedSegment name =>
      obtain ⟨⟨status, s₁⟩, hdelete, hret⟩ := bind_ok hstep
      cases hret
      exact KernelSystem.deleteSharedSegment_registry hdelete
  | createSegment h startAddr size accType =>
      obtain ⟨⟨status, s₁⟩, hcreate, hret⟩ := bind_ok hstep
      cases hret
      exact ((offSegments_registry.closed _).createSegment rfl accType).ok hcreate
  | loadSegment h startAddr size accType content =>
      obtain ⟨⟨status, s₁⟩, hload, hret⟩ := bind_ok hstep
      cases hret
      exact ((offSegments_registry.closed _).loadSegment rfl accType content).ok hload
  | disconnectSharedSegment h name =>
      obtain ⟨⟨status, s₁⟩, hdisconnect, hret⟩ := bind_ok hstep
      cases hret
      exact ((offSegments_registry.closed _).disconnectSharedSegment rfl h name).ok hdisconnect
  | deleteSegment h startAddr =>
      obtain ⟨⟨status, s₁⟩, hdelete, hret⟩ := bind_ok hstep
      cases hret
      exact ((offSegments_registry.closed _).deleteSegment rfl h startAddr).ok hdelete
  | pageFault h addr => exact ((offPaging_registry.closed _).pageFault levels s h addr rfl).ok hstep
  | access pid addr type =>
      obtain ⟨⟨status, s₁⟩, haccess, hret⟩ := bind_ok hstep
      cases hret
      exact ((offPaging_registry.closed _).access levels s pid addr type false rfl).ok haccess

namespace Registry

variable {r r' : Registry} {h b : Nat} {name : String}

/-- Every process has the slot of `pcb_vec` that is its id. -/
structure Listed (r : Registry) : Prop where
  slots : ∃ free, r.pcbVec.Slots free
  pids : ∀ h pid b, r.process h = some (pid, b) → r.pcbVec.datum pid = some (some h)
  fresh : ∀ h, r.nextPcb ≤ h → r.process h = none

theorem AddsProcess.listed (hadds : r.AddsProcess h r') (hr : r.Listed) : r'.Listed := by
  obtain ⟨rfl, vec, hassign, rfl⟩ := hadds
  obtain ⟨free, hslots⟩ := hr.slots
  obtain ⟨hnone, ⟨free₁, hslots₁⟩, hdatum₁⟩ := hslots.insert_fresh none
  obtain ⟨_, hvec, hslots₂, _, hdatum₂⟩ := hslots₁.assign_filled
    (n := (r.pcbVec.insert none).1) (by simp [hdatum₁]) (some r.nextPcb)
  cases hvec.symm.trans hassign
  rw [hdatum₁, update_idem] at hdatum₂
  refine ⟨⟨free₁, hslots₂⟩, fun h pid b hprocess => ?_, fun h hle => ?_⟩
  · dsimp only at hprocess ⊢
    rw [hdatum₂]
    by_cases hh : h = r.nextPcb
    · rw [hh, update_self] at hprocess
      cases hprocess
      rw [hh, update_self]
    · rw [update_of_ne hh] at hprocess
      have hpid := hr.pids h pid b hprocess
      rwa [update_of_ne]
      rintro rfl
      rw [hnone] at hpid
      cases hpid
  · exact (update_of_ne (Nat.ne_of_gt hle) ..).trans (hr.fresh h (Nat.le_of_succ_le hle))

theorem RemovesProcess.listed (hremoves : r.RemovesProcess h r') (hr : r.Listed) :
    r'.Listed := by
  obtain ⟨pid, b, vec, hprocess, hmark, rfl⟩ := hremoves
  obtain ⟨free, hslots⟩ := hr.slots
  have hdatum := hr.pids h pid b hprocess
  obtain ⟨_, hvec, hslots₁, _, hdatum₁⟩ := hslots.markEmpty_filled (n := pid) (by simp [hdatum])
  cases hvec.symm.trans hmark
  refine ⟨⟨_, hslots₁⟩, fun h' pid' b' hprocess' => ?_, fun h' hle => ?_⟩
  · dsimp only at hprocess' ⊢
    have hne : h' ≠ h := by
      rintro rfl
      rw [update_self] at hprocess'
      cases hprocess'
    rw [update_of_ne hne] at hprocess'
    have hdatum' := hr.pids h' pid' b' hprocess'
    rwa [hdatum₁, update_of_ne]
    rintro rfl
    rw [hdatum] at hdatum'
    exact hne (Option.some.inj (Option.some.inj hdatum')).symm
  · by_cases hh : h' = h
    · exact hh ▸ update_self ..
    · exact (update_of_ne hh ..).trans (hr.fresh h' hle)

/-- The records of segments are nothing to the processes. -/
theorem Listed.of_eq (hr : r.Listed) (hnext : r'.nextPcb = r.nextPcb)
    (hvec : r'.pcbVec = r.pcbVec)
    (hpids : ∀ h, (r'.process h).map Prod.fst = (r.process h).map Prod.fst) : r'.Listed where
  slots := hvec ▸ hr.slots
  pids h pid b hprocess := by
    have hpid := hpids h
    rw [hprocess] at hpid
    obtain ⟨⟨_, b'⟩, hprocess', rfl⟩ := Option.map_eq_some_iff.mp hpid.symm
    exact hvec ▸ hr.pids h _ b' hprocess'
  fresh h hle := by
    have hpid := hpids h
    rw [hr.fresh h (hnext ▸ hle)] at hpid
    exact Option.map_eq_none_iff.mp hpid

theorem AddsSegment.listed (hadds : r.AddsSegment name r') (hr : r.Listed) : r'.Listed := by
  obtain ⟨_, dummy, r₁, hprocess, rfl⟩ := hadds
  have hr₁ := hprocess.listed (hr.of_eq rfl rfl fun _ => rfl)
  refine hr₁.of_eq rfl rfl fun h => ?_
  by_cases hh : h = dummy
  · subst h
    simp [Function.comp_def]
  · simp [update_of_ne hh]

theorem RemovesSegment.listed (hremoves : r.RemovesSegment name r') (hr : r.Listed) :
    r'.Listed := by
  obtain ⟨_, _, _, r₁, vec, _, _, hprocess, _, rfl⟩ := hremoves
  exact (hprocess.listed hr).of_eq rfl rfl fun _ => rfl

theorem Listed.step {op : KernelOp} (hr : r.Listed) (hstep : r.Step op r') : r'.Listed := by
  cases op with
  | createProcess =>
      obtain ⟨h, hadds⟩ := hstep
      exact hadds.listed hr
  | cloneProcess pid =>
      obtain ⟨h, hadds⟩ := hstep
      exact hadds.listed hr
  | deleteProcess h => exact RemovesProcess.listed hstep hr
  | createSharedSegment h startAddr size name accType =>
      obtain rfl | ⟨_, hadds⟩ := hstep
      · exact hr
      · exact hadds.listed hr
  | deleteSharedSegment name =>
      obtain ⟨_, rfl⟩ | hremoves := hstep
      · exact hr
      · exact hremoves.listed hr
  | createSegment | loadSegment | disconnectSharedSegment | deleteSegment | pageFault | access =>
      cases hstep
      exact hr

/-- Every name has a block, and the block a dummy in the slot of `sseg_vec` that it names; no
slot is named twice, and there are no others. -/
structure Directory (r : Registry) : Prop where
  slots : ∃ free, r.ssegVec.Slots free
  names : (r.ssegMap.map Prod.fst).Nodup
  fresh : ∀ entry ∈ r.ssegMap, entry.2 < r.nextSscb
  housed : ∀ entry ∈ r.ssegMap, ∃ dummy n,
    r.block entry.2 = some (dummy, n) ∧ r.ssegVec.datum n = some dummy
  apart : (r.ssegMap.map fun entry => (r.block entry.2).map Prod.snd).Nodup
  live : ∀ n dummy, r.ssegVec.datum n = some dummy →
    ∃ entry ∈ r.ssegMap, r.block entry.2 = some (dummy, n)

namespace Directory

theorem lookup_iff (hr : r.Directory) : r.ssegMap.lookup name = some b ↔ (name, b) ∈ r.ssegMap := by
  refine ⟨fun hlookup => ?_, fun hmem => ?_⟩
  · obtain ⟨l₁, l₂, heq, _⟩ := List.lookup_eq_some_iff.mp hlookup
    exact heq ▸ List.mem_append_right l₁ List.mem_cons_self
  · obtain ⟨b', hlookup⟩ := Option.isSome_iff_exists.mp
      (List.lookup_isSome_iff.mpr ⟨(name, b), hmem, BEq.refl name⟩)
    obtain ⟨l₁, l₂, heq, _⟩ := List.lookup_eq_some_iff.mp hlookup
    have hmem' : (name, b') ∈ r.ssegMap := heq ▸ List.mem_append_right l₁ List.mem_cons_self
    rw [hlookup, (Prod.mk.inj (List.inj_on_of_nodup_map hr.names hmem' hmem rfl)).2]

/-- Only what a new process does not touch matters. -/
theorem of_addsProcess {r₁ : Registry} (hr : r.Directory) (hadds : r.AddsProcess h r₁) :
    r₁.Directory := by
  obtain ⟨_, _, _, rfl⟩ := hadds
  exact ⟨hr.slots, hr.names, hr.fresh, hr.housed, hr.apart, hr.live⟩

theorem of_removesProcess {r₁ : Registry} (hr : r.Directory) (hremoves : r.RemovesProcess h r₁) :
    r₁.Directory := by
  obtain ⟨_, _, _, _, _, rfl⟩ := hremoves
  exact ⟨hr.slots, hr.names, hr.fresh, hr.housed, hr.apart, hr.live⟩

end Directory

/-- What a new segment writes. -/
theorem AddsSegment.records (hadds : r.AddsSegment name r') :
    ∃ dummy, r'.ssegVec = (r.ssegVec.insert dummy).2 ∧
      r'.ssegMap = (name, r.nextSscb) :: r.ssegMap ∧
      r'.block = update r.block r.nextSscb (some (dummy, (r.ssegVec.insert dummy).1)) ∧
      r'.nextSscb = r.nextSscb + 1 ∧ r'.ssegCount = r.ssegCount + 1 := by
  obtain ⟨_, dummy, r₁, ⟨_, vec, _, rfl⟩, rfl⟩ := hadds
  exact ⟨dummy, rfl, rfl, rfl, rfl, rfl⟩

/-- What is left of the records. -/
theorem RemovesSegment.records (hremoves : r.RemovesSegment name r') :
    ∃ b dummy n, r.ssegMap.lookup name = some b ∧ r.block b = some (dummy, n) ∧
      r.ssegVec.markEmpty n = .ok r'.ssegVec ∧
      r'.ssegMap = (r.ssegMap.filter fun entry => decide (entry.1 ≠ name)) ∧
      r'.block = update r.block b none ∧ r'.nextSscb = r.nextSscb ∧
      r'.ssegCount = r.ssegCount := by
  obtain ⟨b, dummy, n, r₁, vec, hname, hb, ⟨_, _, _, _, _, rfl⟩, hvec, rfl⟩ := hremoves
  exact ⟨b, dummy, n, hname, hb, hvec, rfl, rfl, rfl, rfl⟩

theorem AddsSegment.directory (hadds : r.AddsSegment name r') (hr : r.Directory)
    (hname : r.ssegMap.lookup name = none) : r'.Directory := by
  obtain ⟨dummy, hvec, hmap, hblock, hnext, _⟩ := hadds.records
  obtain ⟨free, hslots⟩ := hr.slots
  obtain ⟨hnone, hslots', hdatum⟩ := hslots.insert_fresh dummy
  rw [← hvec] at hslots' hdatum
  have hnew : r'.block r.nextSscb = some (dummy, (r.ssegVec.insert dummy).1) := by
    rw [hblock, update_self]
  have hold : ∀ entry ∈ r.ssegMap, r'.block entry.2 = r.block entry.2 := fun entry hentry => by
    rw [hblock, update_of_ne (Nat.ne_of_lt (hr.fresh entry hentry))]
  have hused : ∀ entry ∈ r.ssegMap, (r.block entry.2).map Prod.snd ≠
      some (r.ssegVec.insert dummy).1 := by
    intro entry hentry heq
    obtain ⟨dummy', n, hb, hlive⟩ := hr.housed entry hentry
    rw [hb] at heq
    cases heq
    rw [hnone] at hlive
    cases hlive
  refine ⟨hslots', ?_, ?_, ?_, ?_, fun n dummy' hlive => ?_⟩
  · rw [hmap]
    refine List.nodup_cons.mpr ⟨fun hmem => ?_, hr.names⟩
    obtain ⟨entry, hentry, heq⟩ := List.mem_map.mp hmem
    have hne := List.lookup_eq_none_iff.mp hname entry hentry
    simp [heq] at hne
  · rw [hmap, hnext]
    rintro entry (_ | ⟨_, hentry⟩)
    · exact Nat.lt_succ_self _
    · exact Nat.lt_succ_of_lt (hr.fresh entry hentry)
  · rw [hmap]
    rintro entry (_ | ⟨_, hentry⟩)
    · exact ⟨dummy, _, hnew, by rw [hdatum, update_self]⟩
    · obtain ⟨dummy', n, hb, hlive⟩ := hr.housed entry hentry
      refine ⟨dummy', n, (hold entry hentry).trans hb, ?_⟩
      rwa [hdatum, update_of_ne]
      rintro rfl
      exact hused entry hentry (by rw [hb]; rfl)
  · rw [hmap]
    refine List.nodup_cons.mpr ⟨fun hmem => ?_, ?_⟩
    · obtain ⟨entry, hentry, heq⟩ := List.mem_map.mp hmem
      rw [hold entry hentry] at heq
      exact hused entry hentry (heq.trans (congrArg (Option.map Prod.snd) hnew))
    · rw [List.map_congr_left fun entry hentry => congrArg (Option.map Prod.snd)
        (hold entry hentry)]
      exact hr.apart
  · rw [hmap]
    rw [hdatum] at hlive
    by_cases hn : n = (r.ssegVec.insert dummy).1
    · rw [hn, update_self] at hlive
      cases hlive
      exact ⟨_, List.mem_cons_self, hn ▸ hnew⟩
    · rw [update_of_ne hn] at hlive
      obtain ⟨entry, hentry, hb⟩ := hr.live n dummy' hlive
      exact ⟨entry, List.mem_cons_of_mem _ hentry, (hold entry hentry).trans hb⟩

theorem RemovesSegment.directory (hremoves : r.RemovesSegment name r') (hr : r.Directory) :
    r'.Directory := by
  obtain ⟨b, dummy, n, hname, hb, hmark, hmap, hblock, hnext, _⟩ := hremoves.records
  have hentry : (name, b) ∈ r.ssegMap := hr.lookup_iff.mp hname
  have hkept : ∀ entry, entry ∈ r'.ssegMap ↔ entry ∈ r.ssegMap ∧ entry ≠ (name, b) := by
    intro entry
    rw [hmap, List.mem_filter, decide_eq_true_eq]
    refine and_congr_right fun hmem => not_congr ⟨fun heq => ?_, fun heq => heq ▸ rfl⟩
    exact List.inj_on_of_nodup_map hr.names hmem hentry heq
  have hindex : ∀ entry ∈ r.ssegMap, (r.block entry.2).map Prod.snd = some n →
      entry = (name, b) := fun entry hmem heq =>
    List.inj_on_of_nodup_map hr.apart hmem hentry (heq.trans (by rw [hb]; rfl))
  have hold : ∀ entry ∈ r'.ssegMap, r'.block entry.2 = r.block entry.2 := by
    intro entry hmem
    obtain ⟨hmem, hne⟩ := (hkept entry).mp hmem
    rw [hblock, update_of_ne]
    exact fun heq => hne (hindex entry hmem (by rw [heq, hb]; rfl))
  obtain ⟨free, hslots⟩ := hr.slots
  obtain ⟨dummy₁, n₁, hb₁, hdummy⟩ := hr.housed _ hentry
  cases hb.symm.trans hb₁
  obtain ⟨_, hvec, hslots', _, hdatum⟩ := hslots.markEmpty_filled (n := n) (by simp [hdummy])
  cases hvec.symm.trans hmark
  have hsub : r'.ssegMap.Sublist r.ssegMap := hmap ▸ List.filter_sublist
  refine ⟨⟨_, hslots'⟩, (hsub.map _).nodup hr.names, ?_, ?_, ?_, fun n' dummy' hlive => ?_⟩
  · rw [hnext]
    exact fun entry hmem => hr.fresh entry ((hkept entry).mp hmem).1
  · intro entry hmem
    have hblock' := hold entry hmem
    obtain ⟨hmem, hne⟩ := (hkept entry).mp hmem
    obtain ⟨dummy', n', hb', hlive⟩ := hr.housed entry hmem
    refine ⟨dummy', n', hblock'.trans hb', ?_⟩
    rwa [hdatum, update_of_ne]
    rintro rfl
    exact hne (hindex entry hmem (by rw [hb']; rfl))
  · rw [List.map_congr_left fun entry hmem => congrArg (Option.map Prod.snd) (hold entry hmem)]
    exact (hsub.map _).nodup hr.apart
  · rw [hdatum] at hlive
    have hne : n' ≠ n := by
      rintro rfl
      rw [update_self] at hlive
      cases hlive
    rw [update_of_ne hne] at hlive
    obtain ⟨entry, hmem, hb'⟩ := hr.live n' dummy' hlive
    have hmem' : entry ∈ r'.ssegMap := (hkept entry).mpr ⟨hmem, fun heq => hne (by
      rw [heq] at hb'
      exact (Prod.mk.inj (Option.some.inj (hb'.symm.trans hb))).2)⟩
    exact ⟨entry, hmem', (hold entry hmem').trans hb'⟩

theorem Directory.step {op : KernelOp} (hr : r.Directory) (hstep : r.Step op r') :
    r'.Directory := by
  cases op with
  | createProcess =>
      obtain ⟨h, hadds⟩ := hstep
      exact hr.of_addsProcess hadds
  | cloneProcess pid =>
      obtain ⟨h, hadds⟩ := hstep
      exact hr.of_addsProcess hadds
  | deleteProcess h => exact hr.of_removesProcess hstep
  | createSharedSegment h startAddr size name accType =>
      obtain rfl | ⟨hname, hadds⟩ := hstep
      · exact hr
      · exact hadds.directory hr hname
  | deleteSharedSegment name =>
      obtain ⟨_, rfl⟩ | hremoves := hstep
      · exact hr
      · exact hremoves.directory hr
  | createSegment | loadSegment | disconnectSharedSegment | deleteSegment | pageFault | access =>
      cases hstep
      exact hr

end Registry

end VirtualMemory
