import VirtualMemory.UserMachine

/-!
# Threads in `page_fault`

Several threads handle faults on different private pages of one user space. What runs
under `mutex_uslst` in `us_acquire_page`, and what runs under `mutex_usft` in
`us_ft_update`, is one step; every assignment after that is a step of its own, as the
code takes no lock for it. `Stage` is the next thing a thread is going to do.
-/

namespace VirtualMemory

open Function UserSpace PageTableL2Entry

/-- The statements of `page_fault` and of the requests below it, in their order. -/
inductive Stage where
  | acquire
  | ftUpdate
  | setOrigin
  | diskGet
  | setBlockDisk
  | setValid
  | setDirty
  | clearTbc
  deriving DecidableEq, Repr

/-- The locals of a thread in `page_fault`: the descriptor, whether it was to be created,
the cluster passed on, and once it is acquired the ordinal of the page. -/
structure Fault (D : Type) where
  ptl2e : D
  tbc : Bool
  cluster : Nat
  temp : Nat

/-- The shared memory and what every thread is at, `none` outside `page_fault`. -/
structure FaultState (T D : Type) where
  us : UserSpace D
  pc : T → Option (Stage × Fault D)

inductive FaultLabel (T D : Type) where
  | enter (t : T) (d : D)
  | advance (t : T)

namespace FaultState

variable {T D : Type}

/-- A thread that is past `us_acquire_page` and has not made its last assignment. -/
def Obtained (s : FaultState T D) (t : T) (f : Nat) : Prop :=
  ∃ stage job, s.pc t = some (stage, job) ∧ stage ≠ .acquire ∧ job.temp = f

/-- A thread is in `page_fault` for a descriptor. -/
def FaultsOn (s : FaultState T D) (t : T) (d : D) : Prop :=
  ∃ stage job, s.pc t = some (stage, job) ∧ job.ptl2e = d

variable [DecidableEq T] [DecidableEq D]

def goTo (s : FaultState T D) (t : T) (us : UserSpace D) (pc : Option (Stage × Fault D)) :
    FaultState T D :=
  ⟨us, update s.pc t pc⟩

/-- The tests at the head of `page_fault`. -/
def enter (s : FaultState T D) (t : T) (d : D) : FaultState T D :=
  if (s.us.mem d).getTbc then s.goTo t s.us (some (.acquire, ⟨d, true, nullCluster, 0⟩))
  else if !(s.us.mem d).getValid then
    s.goTo t s.us (some (.acquire, ⟨d, false, (s.us.mem d).block, 0⟩))
  else s

/-- What a thread does at a stage, with the locals of its fault. -/
def atStage (s : FaultState T D) (t : T) (job : Fault D) : Stage → Except Halt (FaultState T D)
  | .acquire => do
      let (page, us) ← s.us.usTakePage none
      .ok (s.goTo t us (some (.ftUpdate, { job with temp := page })))
  | .ftUpdate =>
      .ok (s.goTo t (s.us.usFtUpdate job.temp FrameTableEntry.ftNone .usUserPage job.ptl2e)
        (some (.setOrigin, job)))
  | .setOrigin =>
      .ok (s.goTo t (s.us.setOrigin job.temp job.cluster)
        (some (if job.cluster = nullCluster then .setBlockDisk else .diskGet, job)))
  | .diskGet =>
      .ok (s.goTo t (s.us.diskGet job.cluster job.temp) (some (.setBlockDisk, job)))
  | .setBlockDisk =>
      .ok (s.goTo t (s.us.setPte job.ptl2e ((s.us.mem job.ptl2e).setBlockDisk job.temp))
        (some (.setValid, job)))
  | .setValid =>
      .ok (s.goTo t (s.us.setPte job.ptl2e ((s.us.mem job.ptl2e).setValid true))
        (some (.setDirty, job)))
  | .setDirty =>
      .ok (s.goTo t (s.us.setPte job.ptl2e ((s.us.mem job.ptl2e).setDirty false))
        (if job.tbc then some (.clearTbc, job) else none))
  | .clearTbc =>
      .ok (s.goTo t (s.us.setPte job.ptl2e ((s.us.mem job.ptl2e).setTbc false)) none)

/-- One step of one thread. A thread enters a fault on a private page of a segment that
no other thread is handling. -/
def Step (s : FaultState T D) : FaultLabel T D → FaultState T D → Prop
  | .enter t d, s' => s.pc t = none ∧ (∀ u, ¬ s.FaultsOn u d) ∧
      (s.us.mem d).getShared = false ∧ (s.us.mem d).getInseg = true ∧ s' = s.enter t d
  | .advance t, s' =>
      ∃ stage job, s.pc t = some (stage, job) ∧ s.atStage t job stage = .ok s'

/-- The frame that a step evicts, if it evicts one. -/
def Evicts (s : FaultState T D) : FaultLabel T D → Nat → Prop
  | .enter _ _, _ => False
  | .advance t, place => ∃ job rest, s.pc t = some (.acquire, job) ∧ s.us.usEmpty = [] ∧
      rollUser s.us.userspcSize none s.us.dice = some (place, rest)

/-- The frame table sends a roll to an entry that is valid, names the frame, and is not
being filled in by any thread. -/
def Settled (s : FaultState T D) (place : Nat) : Prop :=
  ∃ d, (s.us.usFt place).type = .usUserPage ∧ (s.us.usFt place).owner = some d ∧
    (s.us.mem d).Resident ∧ (s.us.mem d).block = place ∧ ∀ t, ¬ s.FaultsOn t d

/-- A step whose roll, if it makes one, is settled. -/
def SettledStep (s : FaultState T D) (label : FaultLabel T D) (s' : FaultState T D) : Prop :=
  s.Step label s' ∧ ∀ place, s.Evicts label place → s.Settled place

end FaultState

/-- The stages at which the frame is not yet named by a valid entry. -/
def Stage.pending : Stage → Bool
  | .acquire | .setDirty | .clearTbc => false
  | _ => true

namespace FaultState

variable {T D : Type} {s s' : FaultState T D} {t u : T} {d : D} {f : Nat}
variable {stage : Stage} {job : Fault D} {us us' : UserSpace D} {pc : Option (Stage × Fault D)}

/-- The thread has the frame in hand: no valid entry names it yet. -/
def InHand (s : FaultState T D) (t : T) (f : Nat) : Prop :=
  ∃ stage job, s.pc t = some (stage, job) ∧ stage.pending = true ∧ job.temp = f

/-- What a thread may rely on at each stage, whatever the others do. -/
structure Local (us : UserSpace D) (stage : Stage) (job : Fault D) : Prop where
  shared : (us.mem job.ptl2e).getShared = false
  inseg : (us.mem job.ptl2e).getInseg = true
  tbc : job.tbc = false → (us.mem job.ptl2e).getTbc = false
  valid : (us.mem job.ptl2e).getValid = true ↔ stage = .setDirty ∨ stage = .clearTbc
  owner : stage ≠ .acquire → stage ≠ .ftUpdate →
    (us.usFt job.temp).type = .usUserPage ∧ (us.usFt job.temp).owner = some job.ptl2e
  block : stage = .setValid ∨ stage = .setDirty ∨ stage = .clearTbc →
    (us.mem job.ptl2e).block = job.temp

structure Inv (s : FaultState T D) : Prop where
  frames : FrameInv (machineView s.us) (fun f => ∃ t, s.InHand t f) s.us
  distinct : ∀ t u d, s.FaultsOn t d → s.FaultsOn u d → t = u
  hands : ∀ t u f, s.InHand t f → s.InHand u f → t = u
  locals : ∀ t stage job, s.pc t = some (stage, job) → Local s.us stage job
  shape : ∀ d, (∀ t, ¬ s.FaultsOn t d) → (s.us.mem d).Shape

theorem Local.congr (h : Local us stage job) (hmem : us'.mem job.ptl2e = us.mem job.ptl2e)
    (hft : stage ≠ .acquire → stage ≠ .ftUpdate → us'.usFt job.temp = us.usFt job.temp) :
    Local us' stage job := by
  refine ⟨?_, ?_, ?_, ?_, ?_, ?_⟩
  · rw [hmem]; exact h.shared
  · rw [hmem]; exact h.inseg
  · rw [hmem]; exact h.tbc
  · rw [hmem]; exact h.valid
  · intro hacquire hupdate
    rw [hft hacquire hupdate]
    exact h.owner hacquire hupdate
  · rw [hmem]; exact h.block

/-- A frame in hand is nobody's page. -/
theorem Inv.block_ne_hand (h : Inv s) (ht : s.InHand t f) (hd : (s.us.mem d).Resident) :
    (s.us.mem d).block ≠ f := by
  intro heq
  have hsame : FrameHolder.page d = FrameHolder.hand f :=
    h.frames.ledger.inj (c := f) ⟨hd, heq⟩ ⟨⟨t, ht⟩, rfl⟩
  cases hsame

/-- The frame of another thread is not the one in hand, whatever stage that thread is at
with it. -/
theorem Inv.temp_ne (h : Inv s) (ht : s.InHand t f) (hu : s.pc u = some (stage, job))
    (hut : u ≠ t) (hacquire : stage ≠ .acquire) : job.temp ≠ f := by
  intro heq
  by_cases hpending : stage.pending = true
  · exact hut (h.hands u t f ⟨stage, job, hu, hpending, heq⟩ ht)
  · have hlate : stage = .setDirty ∨ stage = .clearTbc := by
      cases stage <;> simp_all [Stage.pending]
    have hlocal := h.locals u stage job hu
    exact h.block_ne_hand ht ⟨hlocal.shared, hlocal.valid.mpr hlate⟩
      ((hlocal.block (by tauto)).trans heq)

variable [DecidableEq T]

theorem faultsOn_goTo (hut : u ≠ t) : (s.goTo t us pc).FaultsOn u d ↔ s.FaultsOn u d := by
  simp [FaultsOn, goTo, hut]

theorem faultsOn_self : (s.goTo t us (some (stage, job))).FaultsOn t job.ptl2e :=
  ⟨stage, job, by simp [goTo], rfl⟩

theorem inHand_goTo (hut : u ≠ t) : (s.goTo t us pc).InHand u f ↔ s.InHand u f := by
  simp [InHand, goTo, hut]

/-- A step of thread `t` within its fault, from what it does to the frames, to the other
threads' locals and to its own. -/
theorem Inv.goTo (h : Inv s) (hpc : s.pc t = some (stage, job))
    (hframes : FrameInv (machineView us) (fun f => ∃ u, (s.goTo t us pc).InHand u f) us)
    (hown : ∀ stage' job', pc = some (stage', job') →
      job'.ptl2e = job.ptl2e ∧ Local us stage' job' ∧
        (stage'.pending = true → ∀ u, u ≠ t → ¬ s.InHand u job'.temp))
    (hothers : ∀ u stage' job', u ≠ t → s.pc u = some (stage', job') → Local us stage' job')
    (hshape : ∀ d, (∀ u, ¬ (s.goTo t us pc).FaultsOn u d) → (us.mem d).Shape) :
    Inv (s.goTo t us pc) := by
  have hfault : ∀ d, (s.goTo t us pc).FaultsOn t d → s.FaultsOn t d := by
    rintro d ⟨stage', job', hpc', rfl⟩
    simp only [FaultState.goTo, update_self] at hpc'
    exact ⟨stage, job, hpc, (hown stage' job' hpc').1.symm⟩
  refine ⟨hframes, ?_, ?_, ?_, hshape⟩
  · intro u₁ u₂ d h₁ h₂
    have old : ∀ u, (s.goTo t us pc).FaultsOn u d → s.FaultsOn u d := by
      intro u hu
      by_cases hut : u = t
      · subst u
        exact hfault d hu
      · exact (faultsOn_goTo hut).mp hu
    exact h.distinct u₁ u₂ d (old u₁ h₁) (old u₂ h₂)
  · intro u₁ u₂ f h₁ h₂
    have mine : (s.goTo t us pc).InHand t f → ∀ u, u ≠ t → ¬ s.InHand u f := by
      rintro ⟨stage', job', hpc', hpending, rfl⟩
      simp only [FaultState.goTo, update_self] at hpc'
      exact (hown stage' job' hpc').2.2 hpending
    by_cases h₁t : u₁ = t <;> by_cases h₂t : u₂ = t
    · rw [h₁t, h₂t]
    · subst u₁
      exact absurd ((inHand_goTo h₂t).mp h₂) (mine h₁ u₂ h₂t)
    · subst u₂
      exact absurd ((inHand_goTo h₁t).mp h₁) (mine h₂ u₁ h₁t)
    · exact h.hands u₁ u₂ f ((inHand_goTo h₁t).mp h₁) ((inHand_goTo h₂t).mp h₂)
  · intro u stage' job' hu
    by_cases hut : u = t
    · subst u
      simp only [FaultState.goTo, update_self] at hu
      exact (hown stage' job' hu).2.1
    · simp only [FaultState.goTo, update_of_ne hut] at hu
      exact hothers u stage' job' hut hu

/-- Who holds what after a step of thread `t`. -/
theorem inHand_exists_goTo : (∃ u, (s.goTo t us pc).InHand u f) ↔
    (∃ u, u ≠ t ∧ s.InHand u f) ∨
      ∃ stage job, pc = some (stage, job) ∧ stage.pending = true ∧ job.temp = f := by
  constructor
  · rintro ⟨u, hu⟩
    by_cases hut : u = t
    · subst u
      obtain ⟨stage, job, hpc, hrest⟩ := hu
      simp only [FaultState.goTo, update_self] at hpc
      exact .inr ⟨stage, job, hpc, hrest⟩
    · exact .inl ⟨u, hut, (inHand_goTo hut).mp hu⟩
  · rintro (⟨u, hut, hu⟩ | ⟨stage, job, hpc, hrest⟩)
    · exact ⟨u, (inHand_goTo hut).mpr hu⟩
    · exact ⟨t, stage, job, by simp [FaultState.goTo, hpc], hrest⟩

/-- A step from one pending stage to another leaves the frames in the same hands. -/
theorem inHand_same {stage' : Stage} (hpc : s.pc t = some (stage, job))
    (hpending : stage.pending = true) (hpending' : stage'.pending = true) :
    (fun f => ∃ u, (s.goTo t us (some (stage', job))).InHand u f) =
      fun f => ∃ u, s.InHand u f := by
  funext f
  rw [inHand_exists_goTo]
  apply propext
  constructor
  · rintro (⟨u, _, hu⟩ | ⟨_, _, heq, _, htemp⟩)
    · exact ⟨u, hu⟩
    · cases heq
      exact ⟨t, stage, job, hpc, hpending, htemp⟩
  · rintro ⟨u, hu⟩
    by_cases hut : u = t
    · subst u
      obtain ⟨_, _, heq, _, htemp⟩ := hu
      rw [hpc] at heq
      cases heq
      exact .inr ⟨stage', job, rfl, hpending', htemp⟩
    · exact .inl ⟨u, hut, hu⟩

theorem unfaulted (hpc : s.pc t = some (stage, job))
    (hd : ∀ u, ¬ (s.goTo t us pc).FaultsOn u d) (hne : d ≠ job.ptl2e) (u : T) :
    ¬ s.FaultsOn u d := by
  intro hu
  by_cases hut : u = t
  · subst u
    obtain ⟨stage', job', hpc', rfl⟩ := hu
    rw [hpc] at hpc'
    cases hpc'
    exact hne rfl
  · exact hd u ((faultsOn_goTo hut).mpr hu)

omit [DecidableEq T] in
theorem Inv.ptl2e_ne (h : Inv s) {stage' : Stage} {job' : Fault D}
    (hpc : s.pc t = some (stage, job)) (hu : s.pc u = some (stage', job')) (hut : u ≠ t) :
    job'.ptl2e ≠ job.ptl2e := by
  intro heq
  exact hut (h.distinct u t job.ptl2e ⟨stage', job', hu, heq⟩ ⟨stage, job, hpc, rfl⟩)

/-- A step between pending stages that touches neither the entries nor the frame table. -/
theorem Inv.quiet (h : Inv s) (hpc : s.pc t = some (stage, job)) (hpending : stage.pending = true)
    {stage' : Stage} (hpending' : stage'.pending = true) (hmem : us.mem = s.us.mem)
    (hft : us.usFt = s.us.usFt) (hempty : us.usEmpty = s.us.usEmpty)
    (hsize : us.userspcSize = s.us.userspcSize) (hlocal : Local us stage' job) :
    Inv (s.goTo t us (some (stage', job))) := by
  refine h.goTo hpc ?_ ?_ ?_ ?_
  · rw [inHand_same hpc hpending hpending', machineView, hmem]
    exact h.frames.of_eq hft hempty hmem hsize
  · rintro _ _ ⟨⟩
    refine ⟨rfl, hlocal, fun _ u hut hu => ?_⟩
    exact hut (h.hands u t job.temp hu ⟨stage, job, hpc, hpending, rfl⟩)
  · intro u stage₁ job₁ hut hu
    exact (h.locals u stage₁ job₁ hu).congr (by rw [hmem]) (fun _ _ => by rw [hft])
  · intro d hd
    by_cases hne : d = job.ptl2e
    · subst d
      exact absurd faultsOn_self (hd t)
    · rw [hmem]
      exact h.shape d (unfaulted hpc hd hne)

variable [DecidableEq D]

theorem machineView_setPte (us : UserSpace D) (d : D) (e : PageTableL2Entry) :
    (machineView us).put d d e = machineView (us.setPte d e) := by
  unfold machineView PageView.put setPte
  congr 1
  funext d'
  by_cases hd : d' = d
  · rw [hd, update_self]
  · rw [update_of_ne hd]

/-- `us_ft_update` on the frame in hand. -/
theorem Inv.ftUpdate (h : Inv s) (hpc : s.pc t = some (.ftUpdate, job)) :
    Inv (s.goTo t (s.us.usFtUpdate job.temp FrameTableEntry.ftNone .usUserPage job.ptl2e)
      (some (.setOrigin, job))) := by
  have hlocal := h.locals t _ job hpc
  have hhand : s.InHand t job.temp := ⟨_, job, hpc, rfl, rfl⟩
  refine h.goTo hpc ?_ ?_ ?_ ?_
  · rw [inHand_same hpc rfl rfl]
    exact frameInv_usFt h.frames ⟨t, hhand⟩ _
  · rintro _ _ ⟨⟩
    refine ⟨rfl, ⟨hlocal.shared, hlocal.inseg, hlocal.tbc, ?_, ?_, by simp⟩,
      fun _ u hut hu => hut (h.hands u t job.temp hu hhand)⟩
    · simpa [usFtUpdate] using hlocal.valid
    · intro _ _
      simp [usFtUpdate]
  · intro u stage₁ job₁ hut hu
    refine (h.locals u stage₁ job₁ hu).congr rfl fun hacquire _ => ?_
    simp only [usFtUpdate, update_of_ne (h.temp_ne hhand hu hut hacquire)]
  · intro d hd
    by_cases hne : d = job.ptl2e
    · subst d
      exact absurd faultsOn_self (hd t)
    · exact h.shape d (unfaulted hpc hd hne)

/-- An assignment to the thread's own descriptor, and what it leaves to be shown. -/
theorem Inv.setPte (h : Inv s) (hpc : s.pc t = some (stage, job)) {e : PageTableL2Entry}
    (hframes : FrameInv ((machineView s.us).put job.ptl2e job.ptl2e e)
      (fun f => ∃ u, (s.goTo t (s.us.setPte job.ptl2e e) pc).InHand u f)
      (s.us.setPte job.ptl2e e))
    (hown : ∀ stage' job', pc = some (stage', job') → job' = job ∧
      Local (s.us.setPte job.ptl2e e) stage' job ∧
        (stage'.pending = true → stage.pending = true))
    (hend : pc = none → e.Shape) :
    Inv (s.goTo t (s.us.setPte job.ptl2e e) pc) := by
  rw [machineView_setPte] at hframes
  refine h.goTo hpc hframes ?_ ?_ ?_
  · intro stage' job' hpc'
    obtain ⟨rfl, hlocal, hpending⟩ := hown stage' job' hpc'
    refine ⟨rfl, hlocal, fun hp u hut hu => ?_⟩
    exact hut (h.hands u t job'.temp hu ⟨stage, job', hpc, hpending hp, rfl⟩)
  · intro u stage₁ job₁ hut hu
    refine (h.locals u stage₁ job₁ hu).congr ?_ fun _ _ => rfl
    simp only [UserSpace.setPte, update_of_ne (h.ptl2e_ne hpc hu hut)]
  · intro d hd
    by_cases hne : d = job.ptl2e
    · subst d
      cases hpc' : pc with
      | none =>
          simp only [UserSpace.setPte, update_self]
          exact hend hpc'
      | some r =>
          obtain ⟨stage', job'⟩ := r
          obtain ⟨rfl, _, _⟩ := hown stage' job' hpc'
          rw [hpc'] at hd
          exact absurd faultsOn_self (hd t)
    · simp only [UserSpace.setPte, update_of_ne hne]
      exact h.shape d (unfaulted hpc hd hne)

omit [DecidableEq T] [DecidableEq D] in
theorem Inv.not_resident (h : Inv s) (hpc : s.pc t = some (stage, job))
    (hearly : ¬ (stage = .setDirty ∨ stage = .clearTbc)) :
    ¬ (s.us.mem job.ptl2e).Resident :=
  fun hr => hearly ((h.locals t stage job hpc).valid.mp hr.2)

theorem Inv.setBlockDisk (h : Inv s) (hpc : s.pc t = some (.setBlockDisk, job)) :
    Inv (s.goTo t (s.us.setPte job.ptl2e ((s.us.mem job.ptl2e).setBlockDisk job.temp))
      (some (.setValid, job))) := by
  have hlocal := h.locals t _ job hpc
  have hnr := h.not_resident hpc (by simp)
  have hhand : s.InHand t job.temp := ⟨_, job, hpc, rfl, rfl⟩
  have hnr' : ¬ ((s.us.mem job.ptl2e).setBlockDisk job.temp).Resident := by
    simpa [Resident] using hnr
  have htemp : job.temp < 65536 :=
    Nat.lt_of_lt_of_le (h.frames.ledger.holds_dom (r := .hand job.temp) ⟨⟨t, hhand⟩, rfl⟩)
      h.frames.size_le
  refine h.setPte hpc ?_ ?_ (by simp)
  · rw [inHand_same hpc rfl rfl]
    exact frameInv_setPte h.frames rfl (iff_of_false hnr' hnr) fun hr => absurd hr hnr'
  · rintro _ _ ⟨⟩
    refine ⟨rfl, ⟨?_, ?_, ?_, ?_, ?_, ?_⟩, fun _ => rfl⟩
    · simpa [UserSpace.setPte] using hlocal.shared
    · simpa [UserSpace.setPte] using hlocal.inseg
    · simpa [UserSpace.setPte] using hlocal.tbc
    · simpa [UserSpace.setPte] using hlocal.valid
    · exact fun _ _ => hlocal.owner (by simp) (by simp)
    · intro _
      simpa [UserSpace.setPte] using Nat.mod_eq_of_lt htemp

/-- The entry becomes valid: the frame passes from the thread's hands to the page. -/
theorem Inv.setValid (h : Inv s) (hpc : s.pc t = some (.setValid, job)) :
    Inv (s.goTo t (s.us.setPte job.ptl2e ((s.us.mem job.ptl2e).setValid true))
      (some (.setDirty, job))) := by
  have hlocal := h.locals t _ job hpc
  have hhand : s.InHand t job.temp := ⟨_, job, hpc, rfl, rfl⟩
  have hblock := hlocal.block (.inl rfl)
  refine h.setPte hpc ?_ ?_ (by simp)
  · refine frameInv_map h.frames ⟨t, hhand⟩ ?_ (fun d' hne heq => hne (Option.some.inj heq))
      (h.not_resident hpc (by simp)) ?_ (by simpa using hblock)
      (hlocal.owner (by simp) (by simp))
    · intro f
      rw [inHand_exists_goTo]
      constructor
      · rintro (⟨u, hut, hu⟩ | ⟨_, _, ⟨⟩, hpending, _⟩)
        · exact ⟨⟨u, hu⟩, fun heq => hut (h.hands u t f hu (heq ▸ hhand))⟩
        · cases hpending
      · rintro ⟨⟨u, hu⟩, hne⟩
        refine .inl ⟨u, ?_, hu⟩
        rintro rfl
        obtain ⟨_, _, hpc', _, rfl⟩ := hu
        rw [hpc] at hpc'
        cases hpc'
        exact hne rfl
    · simpa [Resident] using hlocal.shared
  · rintro _ _ ⟨⟩
    refine ⟨rfl, ⟨?_, ?_, ?_, ?_, ?_, ?_⟩, fun hp => by cases hp⟩
    · simpa [UserSpace.setPte] using hlocal.shared
    · simpa [UserSpace.setPte] using hlocal.inseg
    · simpa [UserSpace.setPte] using hlocal.tbc
    · simp [UserSpace.setPte]
    · exact fun _ _ => hlocal.owner (by simp) (by simp)
    · intro _
      simpa [UserSpace.setPte] using hblock

/-- The frames after the last assignments, which leave a valid entry valid. -/
theorem Inv.frames_late (h : Inv s) (hpc : s.pc t = some (stage, job))
    (hlate : stage.pending = false) {pc : Option (Stage × Fault D)} {e : PageTableL2Entry}
    (hnone : ∀ stage' job', pc = some (stage', job') → stage'.pending = false)
    (hres : e.Resident ↔ (s.us.mem job.ptl2e).Resident)
    (hblock : e.block = (s.us.mem job.ptl2e).block) :
    FrameInv ((machineView s.us).put job.ptl2e job.ptl2e e)
      (fun f => ∃ u, (s.goTo t (s.us.setPte job.ptl2e e) pc).InHand u f)
      (s.us.setPte job.ptl2e e) := by
  have hsame : (fun f => ∃ u, (s.goTo t (s.us.setPte job.ptl2e e) pc).InHand u f) =
      fun f => ∃ u, s.InHand u f := by
    funext f
    rw [inHand_exists_goTo]
    apply propext
    constructor
    · rintro (⟨u, _, hu⟩ | ⟨stage', job', hpc', hpending, _⟩)
      · exact ⟨u, hu⟩
      · rw [hnone stage' job' hpc'] at hpending
        cases hpending
    · rintro ⟨u, hu⟩
      refine .inl ⟨u, ?_, hu⟩
      rintro rfl
      obtain ⟨stage', job', hpc', hpending, _⟩ := hu
      rw [hpc] at hpc'
      cases hpc'
      rw [hlate] at hpending
      cases hpending
  rw [hsame]
  exact frameInv_setPte h.frames rfl hres fun _ => hblock

theorem Inv.setDirty (h : Inv s) (hpc : s.pc t = some (.setDirty, job)) :
    Inv (s.goTo t (s.us.setPte job.ptl2e ((s.us.mem job.ptl2e).setDirty false))
      (if job.tbc then some (.clearTbc, job) else none)) := by
  have hlocal := h.locals t _ job hpc
  refine h.setPte hpc (h.frames_late hpc rfl ?_ (by simp [Resident]) (by simp)) ?_ ?_
  · intro stage' job' hpc'
    split at hpc' <;> cases hpc'
    rfl
  · intro stage' job' hpc'
    split at hpc' <;> cases hpc'
    refine ⟨rfl, ⟨?_, ?_, ?_, ?_, ?_, ?_⟩, fun hp => by cases hp⟩
    · simpa [UserSpace.setPte] using hlocal.shared
    · simpa [UserSpace.setPte] using hlocal.inseg
    · simpa [UserSpace.setPte] using hlocal.tbc
    · simpa [UserSpace.setPte] using hlocal.valid
    · exact fun _ _ => hlocal.owner (by simp) (by simp)
    · intro _
      simpa [UserSpace.setPte] using hlocal.block (.inr (.inl rfl))
  · intro hpc'
    split at hpc'
    · cases hpc'
    · rename_i htbc
      intro _
      simpa using ⟨hlocal.inseg, hlocal.tbc (by simpa using htbc)⟩

theorem Inv.clearTbc (h : Inv s) (hpc : s.pc t = some (.clearTbc, job)) :
    Inv (s.goTo t (s.us.setPte job.ptl2e ((s.us.mem job.ptl2e).setTbc false)) none) := by
  have hlocal := h.locals t _ job hpc
  refine h.setPte hpc (h.frames_late hpc rfl (by simp) (by simp [Resident]) (by simp))
    (by simp) fun _ _ => ?_
  simpa using hlocal.inseg

omit [DecidableEq D] in
/-- A frame that comes into the hands of a thread that had none. -/
theorem inHand_acquire {page : Nat} (hpc : s.pc t = some (.acquire, job)) (f : Nat) :
    (∃ u, (s.goTo t us (some (.ftUpdate, { job with temp := page }))).InHand u f) ↔
      (∃ u, s.InHand u f) ∨ f = page := by
  rw [inHand_exists_goTo]
  constructor
  · rintro (⟨u, _, hu⟩ | ⟨_, _, ⟨⟩, _, htemp⟩)
    · exact .inl ⟨u, hu⟩
    · exact .inr htemp.symm
  · rintro (⟨u, hu⟩ | rfl)
    · refine .inl ⟨u, ?_, hu⟩
      rintro rfl
      obtain ⟨_, _, hpc', hpending, _⟩ := hu
      rw [hpc] at hpc'
      cases hpc'
      cases hpending
    · exact .inr ⟨_, _, rfl, rfl, rfl⟩

/-- The page was acquired; what is left to show is about the frames and the others. -/
theorem Inv.acquired (h : Inv s) (hpc : s.pc t = some (.acquire, job)) {page : Nat}
    (hframes : FrameInv (machineView us) (fun f => (∃ u, s.InHand u f) ∨ f = page) us)
    (hmine : us.mem job.ptl2e = s.us.mem job.ptl2e) (hfresh : ∀ u, ¬ s.InHand u page)
    (hothers : ∀ u stage' job', u ≠ t → s.pc u = some (stage', job') → Local us stage' job')
    (hshape : ∀ d, d ≠ job.ptl2e → (∀ u, ¬ s.FaultsOn u d) → (us.mem d).Shape) :
    Inv (s.goTo t us (some (.ftUpdate, { job with temp := page }))) := by
  have hlocal := h.locals t _ job hpc
  refine h.goTo hpc ?_ ?_ hothers ?_
  · have hhand : (fun f => ∃ u, (s.goTo t us (some (.ftUpdate,
        { job with temp := page }))).InHand u f) = fun f => (∃ u, s.InHand u f) ∨ f = page :=
      funext fun f => propext (inHand_acquire hpc f)
    rw [hhand]
    exact hframes
  · rintro _ _ ⟨⟩
    refine ⟨rfl, ⟨?_, ?_, ?_, ?_, by simp, by simp⟩, fun _ u _ => hfresh u⟩
    · rw [hmine]; exact hlocal.shared
    · rw [hmine]; exact hlocal.inseg
    · rw [hmine]; exact hlocal.tbc
    · rw [hmine]; simpa using hlocal.valid
  · intro d hd
    by_cases hne : d = job.ptl2e
    · subst d
      exact absurd faultsOn_self (hd t)
    · exact hshape d hne (unfaulted hpc hd hne)

/-- The first free page is taken. -/
theorem Inv.acquire_free (h : Inv s) (hpc : s.pc t = some (.acquire, job)) {page : Nat}
    {rest : List Nat} (hempty : s.us.usEmpty = page :: rest) :
    Inv (s.goTo t { s.us with usEmpty := rest }
      (some (.ftUpdate, { job with temp := page }))) := by
  refine h.acquired hpc (frameInv_take h.frames hempty _ fun g => Iff.rfl) rfl ?_ ?_ ?_
  · intro u hu
    exact h.frames.ledger.not_free (r := .hand page) ⟨⟨u, hu⟩, rfl⟩ (by simp [hempty])
  · intro u stage₁ job₁ _ hu
    exact (h.locals u stage₁ job₁ hu).congr rfl fun _ _ => rfl
  · exact fun d _ hd => h.shape d hd

/-- A settled victim's frame is taken: its page is paged out, and no thread is affected. -/
theorem Inv.acquire_evict (h : Inv s) (hpc : s.pc t = some (.acquire, job)) {place page : Nat}
    {dice rest : List Nat} {us₁ : UserSpace D} (hnone : s.us.usEmpty = [])
    (hsettled : s.Settled place)
    (hswap : ({ s.us with dice := dice } : UserSpace D).usSwapOut
      ⟨place, (s.us.usFt place).getDirty, s.us.ot place⟩ = .ok us₁)
    (hempty : us₁.usEmpty = page :: rest) :
    Inv (s.goTo t { us₁ with usEmpty := rest }
      (some (.ftUpdate, { job with temp := page }))) := by
  obtain ⟨d, htype, howner, hr, hblock, hunfaulted⟩ := hsettled
  obtain ⟨cn, us₂, pte, wrote, _, howner', rfl⟩ := usSwapOut_ok hswap
  obtain rfl : d = pte := Option.some.inj (howner.symm.trans howner')
  have hdiced : FrameInv (machineView s.us) (fun f => ∃ u, s.InHand u f)
      { s.us with dice := dice } := h.frames.of_eq rfl rfl rfl rfl
  have hframes₁ := frameInv_afterSwapOut hdiced wrote (v := d) hr hblock.symm rfl
  have hview : (machineView s.us).put d d (swappedOut (s.us.mem d) cn) =
      machineView (afterSwapOut us₂ place cn d) :=
    view_eq (PageView.put_addr_eq rfl _) hframes₁.link
  rw [machineView_desc, hview] at hframes₁
  have hmem : ∀ d', d' ≠ d → (afterSwapOut us₂ place cn d).mem d' = s.us.mem d' := by
    intro d' hne
    simp only [afterSwapOut, update_of_ne hne]
    rw [wrote.state]
  have hpage : page = place := by
    have hlist : us₂.usEmpty = [] := by rw [wrote.state]; exact hnone
    simp only [afterSwapOut, hlist, List.nil_append, List.cons.injEq] at hempty
    exact hempty.1.symm
  have hmine : job.ptl2e ≠ d := fun heq => hunfaulted t ⟨_, job, hpc, heq⟩
  refine h.acquired hpc (frameInv_take hframes₁ hempty _ fun g => Iff.rfl) (hmem _ hmine)
    ?_ ?_ ?_
  · intro u hu
    exact h.block_ne_hand hu hr (hblock.trans hpage.symm)
  · intro u stage₁ job₁ _ hu
    have hlocal := h.locals u stage₁ job₁ hu
    have hother : job₁.ptl2e ≠ d := fun heq => hunfaulted u ⟨stage₁, job₁, hu, heq⟩
    refine hlocal.congr (hmem _ hother) fun hacquire hupdate => ?_
    have hne : job₁.temp ≠ place := by
      intro heq
      have := (hlocal.owner hacquire hupdate).2
      rw [heq, howner] at this
      exact hother (Option.some.inj this).symm
    simp only [afterSwapOut, update_of_ne hne]
    rw [wrote.state]
  · intro d' _ hd'
    by_cases hne : d' = d
    · subst d'
      simp only [afterSwapOut, update_self]
      exact fun hres => absurd hres (resident_swappedOut _ _)
    · show ((afterSwapOut us₂ place cn d).mem d').Shape
      rw [hmem d' hne]
      exact h.shape d' hd'

theorem Inv.acquire (h : Inv s) (hpc : s.pc t = some (.acquire, job)) {page : Nat}
    (htake : s.us.usTakePage none = .ok (page, us))
    (hsettled : ∀ place, s.Evicts (.advance t) place → s.Settled place) :
    Inv (s.goTo t us (some (.ftUpdate, { job with temp := page }))) := by
  obtain ⟨rest, hempty, rfl⟩ | ⟨hnone, place, dice, us₁, rest, hroll, hswap, hempty, rfl⟩ :=
    usTakePage_cases htake
  · exact h.acquire_free hpc hempty
  · exact h.acquire_evict hpc hnone (hsettled place ⟨job, dice, hpc, hnone, hroll⟩) hswap hempty

omit [DecidableEq D] in
theorem Inv.enter (h : Inv s) (hpc : s.pc t = none) (hfree : ∀ u, ¬ s.FaultsOn u d)
    (hshared : (s.us.mem d).getShared = false) (hinseg : (s.us.mem d).getInseg = true) :
    Inv (s.enter t d) := by
  have hstart : ∀ job : Fault D, job.ptl2e = d → (s.us.mem d).getValid = false →
      (job.tbc = false → (s.us.mem d).getTbc = false) →
      Inv (s.goTo t s.us (some (.acquire, job))) := by
    rintro job rfl hvalid htbc
    have hmine : ∀ u f, (s.goTo t s.us (some (.acquire, job))).InHand u f → s.InHand u f := by
      intro u f hu
      by_cases hut : u = t
      · subst u
        obtain ⟨_, _, hpc', hpending, _⟩ := hu
        simp only [FaultState.goTo, update_self] at hpc'
        cases hpc'
        cases hpending
      · exact (inHand_goTo hut).mp hu
    have hback : ∀ u f, s.InHand u f → (s.goTo t s.us (some (.acquire, job))).InHand u f := by
      intro u f hu
      have hut : u ≠ t := by
        rintro rfl
        obtain ⟨_, _, hpc', _⟩ := hu
        rw [hpc] at hpc'
        cases hpc'
      exact (inHand_goTo hut).mpr hu
    refine ⟨?_, ?_, fun u₁ u₂ f h₁ h₂ => h.hands u₁ u₂ f (hmine u₁ f h₁) (hmine u₂ f h₂), ?_, ?_⟩
    · have hsame : (fun f => ∃ u, (s.goTo t s.us (some (.acquire, job))).InHand u f) =
          fun f => ∃ u, s.InHand u f :=
        funext fun f => propext
          ⟨fun ⟨u, hu⟩ => ⟨u, hmine u f hu⟩, fun ⟨u, hu⟩ => ⟨u, hback u f hu⟩⟩
      rw [hsame]
      exact h.frames
    · intro u₁ u₂ d' h₁ h₂
      have mine : ∀ u, (s.goTo t s.us (some (.acquire, job))).FaultsOn u d' →
          (u = t ∧ d' = job.ptl2e) ∨ (u ≠ t ∧ s.FaultsOn u d') := by
        intro u hu
        by_cases hut : u = t
        · subst u
          obtain ⟨_, _, hpc', rfl⟩ := hu
          simp only [FaultState.goTo, update_self] at hpc'
          cases hpc'
          exact .inl ⟨rfl, rfl⟩
        · exact .inr ⟨hut, (faultsOn_goTo hut).mp hu⟩
      obtain ⟨ht₁, hd₁⟩ | ⟨_, old₁⟩ := mine u₁ h₁ <;>
        obtain ⟨ht₂, hd₂⟩ | ⟨_, old₂⟩ := mine u₂ h₂
      · rw [ht₁, ht₂]
      · exact absurd (hd₁ ▸ old₂) (hfree u₂)
      · exact absurd (hd₂ ▸ old₁) (hfree u₁)
      · exact h.distinct u₁ u₂ d' old₁ old₂
    · intro u stage' job' hu
      by_cases hut : u = t
      · subst u
        simp only [FaultState.goTo, update_self] at hu
        cases hu
        exact ⟨hshared, hinseg, htbc, by simpa [FaultState.goTo] using hvalid, by simp, by simp⟩
      · simp only [FaultState.goTo, update_of_ne hut] at hu
        exact h.locals u stage' job' hu
    · intro d' hd'
      refine h.shape d' fun u hu => ?_
      have hut : u ≠ t := by
        rintro rfl
        obtain ⟨_, _, hpc', _⟩ := hu
        rw [hpc] at hpc'
        cases hpc'
      exact hd' u ((faultsOn_goTo hut).mpr hu)
  unfold FaultState.enter
  by_cases htbc : (s.us.mem d).getTbc = true
  · rw [if_pos htbc]
    refine hstart _ rfl ?_ (by simp)
    by_contra hvalid
    have := (h.shape d hfree ⟨hshared, by simpa using hvalid⟩).2
    rw [htbc] at this
    cases this
  · rw [if_neg htbc]
    by_cases hvalid : (s.us.mem d).getValid = true
    · rw [if_neg (by simp [hvalid])]
      exact h
    · rw [if_pos (by simpa using hvalid)]
      exact hstart _ rfl (by simpa using hvalid) fun _ => by simpa using htbc

/-- Every step with a settled roll keeps the invariant, whoever takes it. -/
theorem Inv.step {label : FaultLabel T D} (h : Inv s) (hstep : s.SettledStep label s') :
    Inv s' := by
  obtain ⟨hstep, hsettled⟩ := hstep
  cases label with
  | enter t d =>
      obtain ⟨hpc, hfree, hshared, hinseg, rfl⟩ := hstep
      exact h.enter hpc hfree hshared hinseg
  | advance t =>
      obtain ⟨stage, job, hpc, hexec⟩ := hstep
      cases stage with
      | acquire =>
          obtain ⟨⟨page, us⟩, htake, hexec⟩ := Outcome.bind_ok hexec
          cases hexec
          exact h.acquire hpc htake hsettled
      | ftUpdate =>
          cases hexec
          exact h.ftUpdate hpc
      | setOrigin =>
          cases hexec
          have hlocal := h.locals t _ job hpc
          refine h.quiet hpc rfl (by split <;> rfl) rfl rfl rfl rfl
            ⟨hlocal.shared, hlocal.inseg, hlocal.tbc, ?_,
              fun _ _ => hlocal.owner (by simp) (by simp), ?_⟩
          · have := hlocal.valid
            split <;> simpa [UserSpace.setOrigin] using this
          · split <;> simp
      | diskGet =>
          cases hexec
          have hlocal := h.locals t _ job hpc
          exact h.quiet hpc rfl rfl rfl rfl rfl rfl
            ⟨hlocal.shared, hlocal.inseg, hlocal.tbc,
              by simpa [UserSpace.diskGet] using hlocal.valid,
              fun _ _ => hlocal.owner (by simp) (by simp), by simp⟩
      | setBlockDisk =>
          cases hexec
          exact h.setBlockDisk hpc
      | setValid =>
          cases hexec
          exact h.setValid hpc
      | setDirty =>
          cases hexec
          exact h.setDirty hpc
      | clearTbc =>
          cases hexec
          exact h.clearTbc hpc

omit [DecidableEq T] in
/-- Threads that start in a consistent state of the user-page machine, none of them in a
fault yet. -/
def Initial (s : FaultState T D) : Prop :=
  (∀ t, s.pc t = none) ∧ ∃ size clusters, MachineInv size clusters s.us

omit [DecidableEq T] [DecidableEq D] in
theorem Inv.initial (h : s.Initial) : Inv s := by
  obtain ⟨hidle, size, clusters, hinv⟩ := h
  have hnone : ∀ t f, ¬ s.InHand t f := by
    rintro t f ⟨_, _, hpc, _⟩
    rw [hidle t] at hpc
    cases hpc
  have hnofault : ∀ t d, ¬ s.FaultsOn t d := by
    rintro t d ⟨_, _, hpc, _⟩
    rw [hidle t] at hpc
    cases hpc
  refine ⟨?_, fun t u d ht => absurd ht (hnofault t d), fun t u f ht => absurd ht (hnone t f),
    ?_, fun d _ => hinv.user.clusters.shape d⟩
  · have hhand : (fun f => ∃ t, s.InHand t f) = noHand :=
      funext fun f => propext ⟨fun ⟨t, ht⟩ => absurd ht (hnone t f), False.elim⟩
    rw [hhand]
    exact hinv.user.frames
  · intro t stage job hpc
    rw [hidle t] at hpc
    cases hpc

omit [DecidableEq T] [DecidableEq D] in
/-- No two valid private descriptors name one frame. -/
def Exclusive (s : FaultState T D) : Prop :=
  ∀ d d', (s.us.mem d).Resident → (s.us.mem d').Resident →
    (s.us.mem d).block = (s.us.mem d').block → d = d'

omit [DecidableEq T] [DecidableEq D] in
/-- A settled roll is never of a frame that a thread is still setting up: the frame table
sends such a frame to the descriptor of that thread's own fault. -/
theorem Inv.not_obtained (h : Inv s) {place : Nat} (hsettled : s.Settled place) (t : T) :
    ¬ s.Obtained t place := by
  rintro ⟨stage, job, hpc, hacquire, rfl⟩
  obtain ⟨d, _, howner, hr, hblock, hunfaulted⟩ := hsettled
  by_cases hupdate : stage = .ftUpdate
  · subst stage
    exact h.block_ne_hand ⟨_, job, hpc, rfl, rfl⟩ hr hblock
  · have hmine := ((h.locals t stage job hpc).owner hacquire hupdate).2
    rw [howner] at hmine
    exact hunfaulted t ⟨stage, job, hpc, (Option.some.inj hmine).symm⟩

/-- As long as every roll is settled, concurrent faults never map one frame twice, and
never evict a frame that a thread has not finished setting up. -/
theorem settled_faults_exclusive {s₀ : FaultState T D} {labels : List (FaultLabel T D)}
    (h₀ : s₀.Initial) (run : Run SettledStep s₀ labels s) :
    s.Exclusive ∧ ∀ label s', s.SettledStep label s' →
      ∀ place, s.Evicts label place → ∀ t, ¬ s.Obtained t place := by
  have hinv : Inv s := run.invariant Inv (fun _ _ _ h hstep => h.step hstep) (.initial h₀)
  refine ⟨?_, fun label s' hstep place hevicts t =>
    hinv.not_obtained (hstep.2 place hevicts) t⟩
  intro d d' hd hd' hblock
  by_contra hne
  exact hinv.frames.ordinal_ne hd' hd (fun heq => hne heq) hblock

/-- One frame and two clusters, with every page blank. -/
def oneFrame : UserSpace Bool :=
  UserSpace.initial 1 2 (fun _ _ => ⟨0#16, 0#8, 0#8⟩) (fun _ _ => ⟨0#16, 0#8, 0#8⟩)
    (fun _ => 0) [0]

theorem oneFrame_inv : MachineInv 1 (min 2 maxClusters) oneFrame :=
  machineInv_initial (by decide) (by decide)

/-- Two pages of a segment, neither touched yet. -/
def twoPages : UserSpace Bool := (oneFrame.mapPage false .read).mapPage true .read

theorem twoPages_inv : MachineInv 1 (min 2 maxClusters) twoPages := by
  have hfirst : MachineInv 1 (min 2 maxClusters) (oneFrame.mapPage false .read) :=
    (map_step oneFrame_inv (by decide)).1
  exact (map_step hfirst (by decide)).1

/-- The first page is in the frame. -/
def firstTouched : UserSpace Bool :=
  (twoPages.faultPage false).toOption.getD twoPages

theorem firstTouched_inv : MachineInv 1 (min 2 maxClusters) firstTouched :=
  (fault_step (d := false) twoPages_inv (by decide) rfl).1

/-- A fault on the second page rolls the first page's frame, which nobody is setting up. -/
theorem settled_faults_exclusive_evicting : ∃ s : FaultState Bool Bool,
    Run SettledStep ⟨firstTouched, fun _ => none⟩ [.enter true true, .advance true] s ∧
      s.Exclusive := by
  have hnofault : ∀ u d, ¬ (⟨firstTouched, fun _ => none⟩ : FaultState Bool Bool).FaultsOn u d := by
    rintro u d ⟨_, _, hpc, _⟩
    cases hpc
  obtain ⟨s, run⟩ : ∃ s, Run SettledStep (⟨firstTouched, fun _ => none⟩ : FaultState Bool Bool)
      [.enter true true, .advance true] s := by
    refine ⟨_, .cons ⟨⟨rfl, fun u => hnofault u true, by decide, by decide, rfl⟩, ?_⟩
      (.cons ⟨⟨.acquire, ⟨true, true, nullCluster, 0⟩, rfl, rfl⟩, ?_⟩ (.nil _))⟩
    · rintro place ⟨⟩
    · rintro place ⟨job, rest, _, _, hroll⟩
      cases hroll
      refine ⟨false, by decide, by decide, by decide, by decide, ?_⟩
      rintro (_ | _) ⟨_, _, hpc, hd⟩ <;> cases hpc
      cases hd
  exact ⟨s, run, (settled_faults_exclusive ⟨fun _ => rfl, _, _, firstTouched_inv⟩ run).1⟩

/-- Two threads, one on each page, each thread named by its page. -/
def twoFaults : FaultState Bool Bool :=
  ((⟨twoPages, fun _ => none⟩ : FaultState Bool Bool).enter false false).enter true true

/-- One statement of a thread in a fault. -/
def next (s : FaultState T D) (t : T) : Option (FaultState T D) :=
  (s.pc t).bind fun r => (s.atStage t r.2 r.1).toOption

theorem step_of_next (h : s.next t = some s') : s.Step (.advance t) s' := by
  obtain ⟨⟨stage, job⟩, hpc, hexec⟩ := Option.bind_eq_some_iff.mp h
  refine ⟨stage, job, hpc, ?_⟩
  cases hstage : s.atStage t job stage with
  | error halt => simp [hstage, Except.toOption] at hexec
  | ok u =>
      simp only [hstage, Except.toOption, Option.some.injEq] at hexec
      rw [hexec]

/-- The first thread acquires the frame and enters it in the frame table; the second
finds the list empty, rolls that frame and takes it; then both map it. -/
def overlapping : List Bool :=
  [false, false, true, false, false, false, false, false, true, true, true, true]

/-- Without the condition one frame does get mapped twice. -/
theorem faults_not_exclusive : ¬ ∀ (s₀ : FaultState Bool Bool) labels s,
    s₀.Initial → Run Step s₀ labels s → s.Exclusive := by
  intro hclaim
  have hfollow : ((Run.follow next twoFaults overlapping).map fun s =>
      decide ((s.us.mem false).Resident ∧ (s.us.mem true).Resident ∧
        (s.us.mem false).block = (s.us.mem true).block)) = some true := by
    decide
  obtain ⟨s, hs, hbad⟩ := Option.map_eq_some_iff.mp hfollow
  obtain ⟨hd, hd', hblock⟩ := of_decide_eq_true hbad
  have hsteps : Run Step twoFaults (overlapping.map .advance) s := by
    have hrun : Run (fun s t s' => Step s (.advance t) s') twoFaults overlapping s :=
      Run.of_follow (fun _ _ _ => step_of_next) hs
    exact hrun.map_labels
  have henter : Run Step ⟨twoPages, fun _ => none⟩
      (.enter false false :: .enter true true :: overlapping.map .advance) s := by
    refine .cons ⟨rfl, ?_, by decide, by decide, rfl⟩
      (.cons ⟨rfl, ?_, by decide, by decide, rfl⟩ hsteps)
    · rintro u ⟨_, _, hpc, _⟩
      cases hpc
    · rintro (_ | _) ⟨_, _, hpc, hd⟩ <;> cases hpc
      cases hd
  have := hclaim _ _ s ⟨fun _ => rfl, _, _, twoPages_inv⟩ henter false true hd hd' hblock
  cases this

end FaultState

end VirtualMemory
