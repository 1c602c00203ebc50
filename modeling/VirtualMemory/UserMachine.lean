import VirtualMemory.Library.Run
import VirtualMemory.UserPage

/-!
# The user-page state machine

Any number of private descriptors, all in memory, and the paths the kernel runs on one
of them as steps. `Memory` is what paging is for: pages with contents and nothing else.
Every run of the machine is a run of that memory, whatever frames, clusters and victims
were chosen on the way, and in every state reached the frames and the clusters have
exactly one holder each.
-/

namespace VirtualMemory

open Function UserSpace PageTableL2Entry

/-- The steps, one for each path; a fault on a page that is to be created is a first
touch, on any other a page-in. -/
inductive UserOp (D : Type) where
  | map (d : D) (accType : AccessType)
  | fault (d : D)
  | load (d : D) (accType : AccessType) (content : Page)
  | clone (d src : D)
  | write (d : D) (offset : Fin 1024) (value : BitVec 8)
  | evict (d : D)
  | release (d : D)

/-- An entry that belongs to a segment and has contents. -/
def PageTableL2Entry.Live (e : PageTableL2Entry) : Prop :=
  e.getInseg = true ∧ (e.getValid = true ∨ e.getTbc = false)

instance (e : PageTableL2Entry) : Decidable e.Live := inferInstanceAs (Decidable (_ ∧ _))

namespace UserOp

variable {D : Type}

/-- What the callers of each path have checked: pages are added to a segment where there
was none, only segment pages are touched, copied or released, and only resident ones are
written or evicted. -/
def Enabled (s : UserSpace D) : UserOp D → Prop
  | map d _ => (s.mem d).getInseg = false
  | fault d => (s.mem d).getInseg = true
  | load d _ _ => (s.mem d).getInseg = false
  | clone d src => (s.mem d).getInseg = false ∧ (s.mem src).Live
  | write d _ _ => (s.mem d).getInseg = true ∧ (s.mem d).getValid = true
  | evict d => (s.mem d).getValid = true
  | release d => (s.mem d).getInseg = true

instance (s : UserSpace D) (op : UserOp D) : Decidable (op.Enabled s) := by
  cases op <;> unfold Enabled <;> infer_instance

variable [DecidableEq D]

def exec (s : UserSpace D) : UserOp D → Except Halt (UserSpace D)
  | map d accType => .ok (s.mapPage d accType)
  | fault d => s.faultPage d
  | load d accType content => s.loadPage d accType content
  | clone d src => s.clonePage d src
  | write d offset value => .ok ((s.markDirty d).storeByte (s.mem d).block offset value)
  | evict d => s.usEvictPage (s.mem d).block (s.mem d).getDirty
  | release d => s.releasePage d

/-- One step: its guard holds and its code returns. -/
def Step (s : UserSpace D) (op : UserOp D) (s' : UserSpace D) : Prop :=
  op.Enabled s ∧ op.exec s = .ok s'

/-- The step as a partial function. -/
def next (s : UserSpace D) (op : UserOp D) : Option (UserSpace D) :=
  if op.Enabled s then (op.exec s).toOption else none

theorem step_of_next {s s' : UserSpace D} {op : UserOp D} (h : op.next s = some s') :
    op.Step s s' := by
  unfold next at h
  split at h
  · rename_i henabled
    cases hexec : op.exec s with
    | error halt => simp [hexec, Except.toOption] at h
    | ok t =>
        simp only [hexec, Except.toOption, Option.some.injEq] at h
        exact ⟨henabled, h ▸ hexec⟩
  · cases h

end UserOp

/-- The state the constructor makes, with every descriptor in a cleared page table. The
frames, the origin table and the disk contain whatever they did. -/
def UserSpace.initial {D : Type} (size numOfClusters : Nat) (userspc disk : Nat → Page)
    (ot : Nat → Nat) (dice : List Nat) : UserSpace D where
  userspcSize := size
  userspc := userspc
  usFt := fun _ => .empty
  ot := ot
  usEmpty := List.range size
  mem := fun _ => ⟨0#16, 0#8, 0#8⟩
  diskSize := min numOfClusters maxClusters
  dvt := fun c => decide (c < min numOfClusters maxClusters)
  disk := disk
  dice := dice

abbrev Memory (D : Type) := D → Option Page

/-- What each step does to the contents of the pages. Only a first touch leaves a page's
contents open, and no step but a release loses any. -/
def MemoryStep {D : Type} [DecidableEq D] (m : Memory D) : UserOp D → Memory D → Prop
  | .map d _, m' => m d = none ∧ m' = m
  | .fault d, m' =>
      (m d ≠ none ∧ m' = m) ∨ (m d = none ∧ ∃ p, m' = update m d (some p))
  | .load d _ content, m' => m d = none ∧ m' = update m d (some content)
  | .clone d src, m' => m d = none ∧ m src ≠ none ∧ m' = update m d (m src)
  | .write d offset value, m' =>
      ∃ p, m d = some p ∧ m' = update m d (some (p.store offset value))
  | .evict d, m' => m d ≠ none ∧ m' = m
  | .release d, m' => m' = update m d none

/-- The contents of all pages in a state of the machine. -/
def UserSpace.contents {D : Type} (s : UserSpace D) : Memory D := fun d => s.content (s.mem d)

section Machine

variable {D : Type} {size clusters : Nat} {s s' : UserSpace D} {d : D}

/-- The pages of the machine are its descriptors, all in memory. -/
def machineView (s : UserSpace D) : PageView D D := ⟨s.mem, some⟩

@[simp] theorem machineView_desc (s : UserSpace D) : (machineView s).desc = s.mem := rfl

/-- Nothing outside the machine holds clusters. -/
def noExt : Empty → Nat → Prop := fun _ _ => False

structure MachineInv (size clusters : Nat) (s : UserSpace D) : Prop where
  user : UserInv (machineView s) noHand noExt s
  size_pos : 1 ≤ size
  privately : ∀ d, (s.mem d).getShared = false
  userspcSize : s.userspcSize = size
  diskSize : s.diskSize = clusters

theorem MachineInv.resident_iff (h : MachineInv size clusters s) (d : D) :
    (s.mem d).Resident ↔ (s.mem d).getValid = true := by
  simp [Resident, h.privately d]

theorem MachineInv.pagedOut_iff (h : MachineInv size clusters s) (d : D) :
    (s.mem d).PagedOut ↔ (s.mem d).getInseg = true ∧ (s.mem d).getValid = false ∧
      (s.mem d).getTbc = false := by
  simp [PagedOut, h.privately d]

theorem MachineInv.live_iff (h : MachineInv size clusters s) (d : D) :
    (s.mem d).Live ↔ (s.mem d).Resident ∨ (s.mem d).PagedOut := by
  rw [h.pagedOut_iff d]
  constructor
  · rintro ⟨hinseg, hlive⟩
    by_cases hvalid : (s.mem d).getValid = true
    · exact .inl ((h.resident_iff d).mpr hvalid)
    · exact .inr ⟨hinseg, by simpa using hvalid, hlive.resolve_left hvalid⟩
  · rintro (hr | ⟨hinseg, _, htbc⟩)
    · exact ⟨(h.user.clusters.shape d hr).1, .inl hr.2⟩
    · exact ⟨hinseg, .inr htbc⟩

/-- A live page's contents are its frame's if it is valid, its cluster's otherwise. -/
theorem MachineInv.contents_live (h : MachineInv size clusters s) (hd : (s.mem d).Live) :
    s.contents d = some (if (s.mem d).getValid then s.userspc (s.mem d).block
      else s.disk (s.mem d).block) := by
  obtain hr | hp := (h.live_iff d).mp hd
  · rw [UserSpace.contents, content_resident hr, if_pos hr.2]
  · rw [UserSpace.contents, content_pagedOut hp, if_neg (by simp [hp.2.2.1])]

theorem MachineInv.contents_none (h : MachineInv size clusters s) (hd : ¬ (s.mem d).Live) :
    s.contents d = none := by
  rw [h.live_iff d, not_or] at hd
  exact content_none hd.1 hd.2

/-- A view with every descriptor in memory is the view of its state. -/
theorem view_eq {w : PageView D D} (haddr : w.addr = some)
    (hlink : ∀ v a, w.addr v = some a → s'.mem a = w.desc v) : w = machineView s' := by
  obtain ⟨desc, addr⟩ := w
  obtain rfl : addr = some := haddr
  have : s'.mem = desc := funext fun v => hlink v v rfl
  simp [machineView, this]

theorem contents_eq_none (h : MachineInv size clusters s) (hinseg : (s.mem d).getInseg = false) :
    s.contents d = none :=
  h.contents_none fun hl => by
    rw [hl.1] at hinseg
    cases hinseg

theorem contents_ne_none (h : MachineInv size clusters s) (hd : (s.mem d).Live) :
    s.contents d ≠ none := by
  rw [h.contents_live hd]
  exact Option.some_ne_none _

variable [DecidableEq D]

theorem desc_of_view {a : D} {e : PageTableL2Entry}
    (hview : (machineView s).put d a e = machineView s') : s'.mem d = e := by
  have := congrFun (congrArg PageView.desc hview) d
  rw [PageView.put_desc_self] at this
  exact this.symm

/-- What a step on page `d` does to the memory, from what it does to `d`. -/
theorem contents_eq_update {x : Option Page}
    (hbut : PagedBut noExt (· = d) (machineView s) s (machineView s') s')
    (hd : s'.content (s'.mem d) = x) : s'.contents = update s.contents d x := by
  funext d'
  by_cases h : d' = d
  · subst d'
    rw [update_self, ← hd, UserSpace.contents]
  · rw [update_of_ne h]
    exact (hbut.keptBut d' h).2

/-- One shape for all the steps on a page: the invariant is kept and so are the other
pages. -/
theorem machineInv_of {w' : PageView D D} (h : MachineInv size clusters s)
    (hinv : UserInv w' noHand noExt s')
    (hbut : PagedBut noExt (· = d) (machineView s) s w' s')
    (hshared : (w'.desc d).getShared = false) :
    w' = machineView s' ∧ MachineInv size clusters s' := by
  have hview : w' = machineView s' := view_eq hbut.addr hinv.frames.link
  subst hview
  refine ⟨rfl, hinv, h.size_pos, fun d' => ?_, hbut.userspcSize.trans h.userspcSize,
    hbut.diskSize.trans h.diskSize⟩
  by_cases hd : d' = d
  · subst d'
    exact hshared
  · exact (hbut.keptBut d' hd).sameRights.shared.trans (h.privately d')

theorem map_step {accType : AccessType} (h : MachineInv size clusters s)
    (hinseg : (s.mem d).getInseg = false) :
    MachineInv size clusters (s.mapPage d accType) ∧
      MemoryStep s.contents (.map d accType) (s.mapPage d accType).contents := by
  obtain ⟨hinv, hbut⟩ := mapPage_inv h.user (v := d) rfl hinseg accType
  obtain ⟨hview, hinv'⟩ := machineInv_of h hinv hbut (by simp [get_setFlags_pack])
  have hnone := contents_eq_none h hinseg
  have hcontent : (s.mapPage d accType).content ((s.mapPage d accType).mem d) = none := by
    rw [desc_of_view hview]
    exact content_none (by simp [Resident, get_setFlags_pack])
      (by simp [PagedOut, get_setFlags_pack])
  refine ⟨hinv', hnone, ?_⟩
  rw [contents_eq_update (hview ▸ hbut) hcontent, ← hnone, update_eq_self]

theorem fault_step (h : MachineInv size clusters s) (hinseg : (s.mem d).getInseg = true)
    (hexec : s.faultPage d = .ok s') :
    MachineInv size clusters s' ∧ MemoryStep s.contents (.fault d) s'.contents := by
  obtain ⟨w', hinv, hbut, hr, hsame, hkeep⟩ :=
    faultPage_inv h.user (v := d) rfl (h.privately d) hinseg hexec
  obtain ⟨rfl, hinv'⟩ := machineInv_of h hinv hbut (hsame.shared.trans (h.privately d))
  refine ⟨hinv', ?_⟩
  cases hd : s.contents d with
  | none => exact .inr ⟨hd, _, contents_eq_update hbut (content_resident hr)⟩
  | some p =>
      refine .inl ⟨by simp [hd], ?_⟩
      rw [contents_eq_update hbut (hkeep p hd), ← hd, update_eq_self]

theorem load_step {accType : AccessType} {content : Page} (h : MachineInv size clusters s)
    (hinseg : (s.mem d).getInseg = false) (hexec : s.loadPage d accType content = .ok s') :
    MachineInv size clusters s' ∧ MemoryStep s.contents (.load d accType content) s'.contents := by
  obtain ⟨w', hinv, hbut, hr, _, hcontent⟩ := loadPage_inv h.user (v := d) rfl hinseg hexec
  obtain ⟨rfl, hinv'⟩ := machineInv_of h hinv hbut hr.1
  exact ⟨hinv', contents_eq_none h hinseg, contents_eq_update hbut hcontent⟩

theorem clone_step {src : D} (h : MachineInv size clusters s) (hinseg : (s.mem d).getInseg = false)
    (hlive : (s.mem src).Live) (hexec : s.clonePage d src = .ok s') :
    MachineInv size clusters s' ∧ MemoryStep s.contents (.clone d src) s'.contents := by
  have hne : src ≠ d := by
    rintro rfl
    rw [hlive.1] at hinseg
    cases hinseg
  obtain ⟨w', hinv, hbut, hr, _, hcontent⟩ :=
    clonePage_inv h.user (v := d) (u := src) rfl rfl hne hinseg ((h.live_iff src).mp hlive) hexec
  obtain ⟨rfl, hinv'⟩ := machineInv_of h hinv hbut hr.1
  exact ⟨hinv', contents_eq_none h hinseg, contents_ne_none h hlive,
    contents_eq_update hbut hcontent⟩

theorem write_step {offset : Fin 1024} {value : BitVec 8} (h : MachineInv size clusters s)
    (hvalid : (s.mem d).getValid = true) :
    MachineInv size clusters ((s.markDirty d).storeByte (s.mem d).block offset value) ∧
      MemoryStep s.contents (.write d offset value)
        ((s.markDirty d).storeByte (s.mem d).block offset value).contents := by
  have hr := (h.resident_iff d).mpr hvalid
  obtain ⟨hinv₁, hbut₁, _⟩ := markDirty_inv h.user (v := d) rfl hr
  obtain ⟨hview₁, hinv₁'⟩ := machineInv_of h hinv₁ hbut₁ (by simpa using h.privately d)
  have hd : (s.markDirty d).mem d = (s.mem d).setDirty true := desc_of_view hview₁
  have hr₁ : ((s.markDirty d).mem d).Resident := by
    rw [hd]
    simpa [Resident] using hr
  obtain ⟨hinv₂, hbut₂, hcontent⟩ :=
    storeByte_inv hinv₁'.user (v := d) hr₁ (by simp [hd]) offset value
  have hblock : ((s.markDirty d).mem d).block = (s.mem d).block := by rw [hd, block_set]
  rw [machineView_desc, hblock] at hinv₂ hbut₂ hcontent
  rw [hview₁] at hbut₁
  exact ⟨⟨hinv₂, h.size_pos, hinv₁'.privately, hinv₁'.userspcSize, hinv₁'.diskSize⟩,
    s.userspc (s.mem d).block, content_resident hr,
    contents_eq_update (hbut₁.trans hbut₂) hcontent⟩

theorem evict_step (h : MachineInv size clusters s) (hvalid : (s.mem d).getValid = true)
    (hexec : s.usEvictPage (s.mem d).block (s.mem d).getDirty = .ok s') :
    MachineInv size clusters s' ∧ MemoryStep s.contents (.evict d) s'.contents := by
  have hr := (h.resident_iff d).mpr hvalid
  obtain ⟨cn, a, _, hinv, hpaged, _⟩ :=
    usSwapOut_inv h.user (v := d) hr rfl rfl (fun _ => rfl) hexec
  have hshared :
      (((machineView s).put d a (swappedOut (s.mem d) cn)).desc d).getShared = false := by
    rw [PageView.put_desc_self, getShared_swappedOut]
    exact h.privately d
  obtain ⟨hview, hinv'⟩ :=
    machineInv_of h hinv (hpaged.mono fun _ => False.elim) hshared
  refine ⟨hinv', contents_ne_none h ((h.live_iff d).mpr (.inl hr)), ?_⟩
  funext d'
  have := (hpaged.kept d').2
  rw [hview] at this
  exact this

theorem release_step (h : MachineInv size clusters s) (hinseg : (s.mem d).getInseg = true)
    (hexec : s.releasePage d = .ok s') :
    MachineInv size clusters s' ∧ MemoryStep s.contents (.release d) s'.contents := by
  obtain ⟨hinv, hbut⟩ := releasePage_inv h.user (v := d) rfl (h.privately d) hinseg hexec
  obtain ⟨hview, hinv'⟩ := machineInv_of h hinv hbut (by simp)
  have hcontent : s'.content (s'.mem d) = none := by
    rw [desc_of_view hview]
    exact content_none (not_resident_cleared _) (not_pagedOut_cleared _)
  exact ⟨hinv', contents_eq_update (hview ▸ hbut) hcontent⟩

/-- One step of the machine is one step of the memory. -/
theorem machine_step {op : UserOp D} (h : MachineInv size clusters s) (hstep : op.Step s s') :
    MachineInv size clusters s' ∧ MemoryStep s.contents op s'.contents := by
  obtain ⟨henabled, hexec⟩ := hstep
  cases op with
  | map d accType =>
      cases hexec
      exact map_step h henabled
  | fault d => exact fault_step h henabled hexec
  | load d accType content => exact load_step h henabled hexec
  | clone d src => exact clone_step h henabled.1 henabled.2 hexec
  | write d offset value =>
      cases hexec
      exact write_step h henabled.2
  | evict d => exact evict_step h henabled hexec
  | release d => exact release_step h henabled hexec

/-- A step whose guard holds stops only when the disk is full, or goes on searching. -/
theorem machine_halt {op : UserOp D} {halt : Halt} (h : MachineInv size clusters s)
    (henabled : op.Enabled s)
    (hexec : op.exec s = .error halt) : halt.Excused := by
  have hpos : 0 < s.userspcSize := h.userspcSize ▸ h.size_pos
  cases op with
  | map d accType => cases hexec
  | fault d => exact faultPage_error h.user hpos hexec
  | load d accType content => exact loadPage_error h.user hpos hexec
  | clone d src =>
      obtain ⟨hnr, _⟩ := not_held_of_not_inseg (h.user.clusters.shape d) henabled.1
      exact clonePage_error h.user hpos (v := d) rfl hnr hexec
  | write d offset value => cases hexec
  | evict d =>
      have hr := (h.resident_iff d).mpr henabled
      exact .inl (usSwapOut_error h.user.frames (v := d) hr rfl hexec)
  | release d =>
      exact absurd hexec (releasePage_ne_error h.user (v := d) rfl (h.privately d) henabled)

omit [DecidableEq D] in
theorem machineInv_initial {numOfClusters : Nat} {userspc disk : Nat → Page} {ot : Nat → Nat}
    {dice : List Nat} (hpos : 1 ≤ size) (hle : size ≤ 65536) :
    MachineInv size (min numOfClusters maxClusters)
      (UserSpace.initial (D := D) size numOfClusters userspc disk ot dice) := by
  refine ⟨userInv_start (fun _ => ?_) (fun _ => ?_) (fun _ _ => id) (fun _ => ?_) hle rfl
    (fun _ => decide_eq_true_iff) (Nat.min_le_right _ _) ?_ ?_, hpos, fun _ => ?_, rfl, rfl⟩
  · change ¬ (⟨0#16, 0#8, 0#8⟩ : PageTableL2Entry).Resident
    decide
  · change ¬ (⟨0#16, 0#8, 0#8⟩ : PageTableL2Entry).PagedOut
    decide
  · change PageType.usUnused ≠ .usUserPage
    decide
  · rintro v a ⟨⟩
    rfl
  · rintro v v' a ⟨⟩ ⟨⟩
    rfl
  · change (⟨0#16, 0#8, 0#8⟩ : PageTableL2Entry).getShared = false
    decide

/-- The runs of the machine from the state the constructor makes. -/
def MachineRun (size numOfClusters : Nat) (userspc disk : Nat → Page) (ot : Nat → Nat)
    (dice : List Nat) (ops : List (UserOp D)) (s : UserSpace D) : Prop :=
  Run (fun s op => UserOp.Step s op) (UserSpace.initial size numOfClusters userspc disk ot dice)
    ops s

theorem machineRun_inv {numOfClusters : Nat} {userspc disk : Nat → Page} {ot : Nat → Nat}
    {dice : List Nat} {ops : List (UserOp D)} (hpos : 1 ≤ size) (hle : size ≤ 65536)
    (run : MachineRun size numOfClusters userspc disk ot dice ops s) :
    MachineInv size (min numOfClusters maxClusters) s ∧
      Run MemoryStep
        (UserSpace.initial (D := D) size numOfClusters userspc disk ot dice).contents ops
        s.contents :=
  Run.simulate (MachineInv size (min numOfClusters maxClusters)) UserSpace.contents
    (fun _ _ _ h hstep => machine_step h hstep) run (machineInv_initial hpos hle)

/-- Paging implements a memory. Whatever frames, clusters and victims a run goes through,
the contents of its pages develop as the contents of a memory without paging do; a live
page's contents are in its frame while it is valid and in its cluster otherwise, and no
step stops unless the disk is full. -/
theorem paging_refines_memory {numOfClusters : Nat} {userspc disk : Nat → Page}
    {ot : Nat → Nat} {dice : List Nat} {ops : List (UserOp D)} (hpos : 1 ≤ size)
    (hle : size ≤ 65536) (run : MachineRun size numOfClusters userspc disk ot dice ops s) :
    Run MemoryStep (fun _ => none) ops s.contents ∧
      (∀ d, (s.mem d).Live → s.contents d = some (if (s.mem d).getValid then
        s.userspc (s.mem d).block else s.disk (s.mem d).block)) ∧
      (∀ d, ¬ (s.mem d).Live → s.contents d = none) ∧
      ∀ (op : UserOp D) halt, op.Enabled s → op.exec s = .error halt → halt.Excused := by
  obtain ⟨hinv, hmemory⟩ := machineRun_inv hpos hle run
  have hblank : (UserSpace.initial (D := D) size numOfClusters userspc disk ot dice).contents =
      fun _ => none := by
    funext d
    exact content_none (by simp only [initial]; decide) (by simp only [initial]; decide)
  rw [hblank] at hmemory
  exact ⟨hmemory, fun d => hinv.contents_live, fun d => hinv.contents_none,
    fun op halt => machine_halt hinv⟩

/-- Two pages take turns in one frame: the first is written, evicted by the touch of the
second and brought back. -/
def takingTurns : List (UserOp Bool) :=
  [.map false .read, .fault false, .write false 5 7#8, .map true .read, .fault true,
    .fault false]

theorem takingTurns_runs : ∃ s, MachineRun 1 2 (fun _ _ => ⟨0#16, 0#8, 0#8⟩)
    (fun _ _ => ⟨0#16, 0#8, 0#8⟩) (fun _ => 0) [0, 0] takingTurns s := by
  have hfollow : (Run.follow (fun s op => UserOp.next s op) (UserSpace.initial 1 2
      (fun _ _ => ⟨0#16, 0#8, 0#8⟩) (fun _ _ => ⟨0#16, 0#8, 0#8⟩) (fun _ => 0) [0, 0])
      takingTurns).isSome = true := by
    decide
  obtain ⟨s, hs⟩ := Option.isSome_iff_exists.mp hfollow
  exact ⟨s, Run.of_follow (fun _ _ _ => UserOp.step_of_next) hs⟩

theorem paging_refines_memory_turns : ∃ s : UserSpace Bool,
    Run MemoryStep (fun _ => none) takingTurns s.contents := by
  obtain ⟨s, run⟩ := takingTurns_runs
  exact ⟨s, (paging_refines_memory (by decide) (by decide) run).1⟩

/-- A page refers to the origin of its frame while it is resident, to its own cluster
while it is paged out. -/
def RefersTo (s : UserSpace D) (d : D) (c : Nat) : Prop :=
  ((s.mem d).getValid = true ∧ s.ot (s.mem d).block = c ∧ c ≠ nullCluster) ∨
    ((s.mem d).getInseg = true ∧ (s.mem d).getValid = false ∧ (s.mem d).getTbc = false ∧
      (s.mem d).block = c)

omit [DecidableEq D] in
theorem MachineInv.refersTo_iff (h : MachineInv size clusters s) (d : D) (c : Nat) :
    RefersTo s d c ↔ clusterHolds (machineView s).desc s.ot noExt (.page d) c := by
  simp only [RefersTo, clusterHolds, machineView_desc, h.resident_iff, h.pagedOut_iff, and_assoc]

omit [DecidableEq D] in
/-- A resource of a machine state is free and nobody's, or some page's and nobody else's. -/
theorem exactly_one {R C : Type*} {dom free : C → Prop} {holds : R → C → Prop}
    (h : Ledger.Exact dom free holds) {c : C} (hc : dom c) :
    (free c ∧ ∀ r, ¬ holds r c) ∨ (¬ free c ∧ ∃! r, holds r c) := by
  by_cases hfree : free c
  · exact .inl ⟨hfree, fun r hr => h.not_free hr hfree⟩
  · exact .inr ⟨hfree, (h.existsUnique hc).mp hfree⟩

/-- No frame and no cluster is leaked or has two owners, in any state of any run: a frame
is free once, or named by exactly one valid entry, which its frame table entry points back
at; a cluster is marked free, or exactly one page refers to it. So neither `HALT` that
reports a broken table can be reached. -/
theorem frames_and_clusters_accounted {numOfClusters : Nat} {userspc disk : Nat → Page}
    {ot : Nat → Nat} {dice : List Nat} {ops : List (UserOp D)} (hpos : 1 ≤ size)
    (hle : size ≤ 65536) (run : MachineRun size numOfClusters userspc disk ot dice ops s) :
    (∀ f, f < size →
      (s.usEmpty.count f = 1 ∧ ∀ d, ¬ ((s.mem d).getValid = true ∧ (s.mem d).block = f)) ∨
      (s.usEmpty.count f = 0 ∧ ∃! d, (s.mem d).getValid = true ∧ (s.mem d).block = f)) ∧
    (∀ d, (s.mem d).getValid = true → (s.mem d).block < size ∧
      (s.usFt (s.mem d).block).type = .usUserPage ∧
      (s.usFt (s.mem d).block).owner = some d) ∧
    (∀ c, c < min numOfClusters maxClusters →
      (s.dvt c = true ∧ ∀ d, ¬ RefersTo s d c) ∨ (s.dvt c = false ∧ ∃! d, RefersTo s d c)) ∧
    ∀ op : UserOp D, op.Enabled s →
      op.exec s ≠ .error .usIncorrectType ∧ op.exec s ≠ .error .invalidCluster := by
  obtain ⟨hinv, _⟩ := machineRun_inv hpos hle run
  have hpage : ∀ d f, (s.mem d).getValid = true ∧ (s.mem d).block = f ↔
      frameHolds (machineView s).desc noHand (.page d) f := by
    intro d f
    simp only [frameHolds, machineView_desc, hinv.resident_iff]
  refine ⟨?_, ?_, ?_, ?_⟩
  · intro f hf
    rw [← hinv.userspcSize] at hf
    obtain ⟨hfree, hnone⟩ | ⟨hfree, r, hr, honly⟩ := exactly_one hinv.user.frames.ledger hf
    · refine .inl ⟨List.count_eq_one_of_mem hinv.user.frames.nodup hfree, fun d hd => ?_⟩
      exact hnone (.page d) ((hpage d f).mp hd)
    · refine .inr ⟨List.count_eq_zero_of_not_mem hfree, ?_⟩
      cases r with
      | page d =>
          refine ⟨d, (hpage d f).mpr hr, fun d' hd' => ?_⟩
          have := honly (.page d') ((hpage d' f).mp hd')
          injection this
      | hand g => exact absurd hr.1 id
  · intro d hd
    have hr := (hinv.resident_iff d).mpr hd
    obtain ⟨htype, a, ha, howner⟩ := hinv.user.frames.owner d hr
    cases ha
    refine ⟨?_, htype, howner⟩
    rw [← hinv.userspcSize]
    exact hinv.user.frames.ledger.holds_dom (r := .page d) ⟨hr, rfl⟩
  · intro c hc
    rw [← hinv.diskSize] at hc
    obtain ⟨hfree, hnone⟩ | ⟨hfree, r, hr, honly⟩ := exactly_one hinv.user.clusters.ledger hc
    · exact .inl ⟨hfree, fun d hd => hnone (.page d) ((hinv.refersTo_iff d c).mp hd)⟩
    · refine .inr ⟨by simpa using hfree, ?_⟩
      cases r with
      | page d =>
          refine ⟨d, (hinv.refersTo_iff d c).mpr hr, fun d' hd' => ?_⟩
          have := honly (.page d') ((hinv.refersTo_iff d' c).mp hd')
          injection this
      | ext e => exact absurd hr id
  · intro op henabled
    constructor <;>
    · intro hexec
      obtain h | h | h := machine_halt hinv henabled hexec <;> cases h

theorem frames_and_clusters_accounted_turns : ∃ s : UserSpace Bool,
    ∀ d, (s.mem d).getValid = true → (s.mem d).block < 1 ∧
      (s.usFt (s.mem d).block).type = .usUserPage ∧
      (s.usFt (s.mem d).block).owner = some d := by
  obtain ⟨s, run⟩ := takingTurns_runs
  exact ⟨s, (frames_and_clusters_accounted (by decide) (by decide) run).2.1⟩

/-- `us_acquire_page` and `page_table_evict_children` evict alike, in any state of any run.
The first swaps out the victim that `us_get_victim` makes of a frame, with the dirty bit in
the frame table; the second goes by the dirty bit of the descriptor. The states they reach
are the same, and so is what they stop with on a full disk. -/
theorem evictions_agree {numOfClusters : Nat} {userspc disk : Nat → Page} {ot : Nat → Nat}
    {dice : List Nat} {ops : List (UserOp D)} (hpos : 1 ≤ size) (hle : size ≤ 65536)
    (run : MachineRun size numOfClusters userspc disk ot dice ops s)
    (hd : (s.mem d).getValid = true) :
    s.usSwapOut ⟨(s.mem d).block, (s.usFt (s.mem d).block).getDirty, s.ot (s.mem d).block⟩ =
        s.usEvictPage (s.mem d).block (s.mem d).getDirty ∧
      ∀ toIgnore victim s', s.usGetVictim toIgnore = .ok (victim, s') →
        victim.ordinal = (s.mem d).block →
        s'.usSwapOut victim = s'.usEvictPage (s.mem d).block (s.mem d).getDirty := by
  obtain ⟨hinv, _⟩ := machineRun_inv hpos hle run
  have hr : ((machineView s).desc d).Resident := (hinv.resident_iff d).mpr hd
  refine ⟨usSwapOut_eq_usEvictPage hinv.user hr, fun toIgnore victim s' hvictim hord => ?_⟩
  obtain ⟨hrecord, hs'⟩ := usGetVictim_record hvictim
  -- the search has only used up rolls
  have hinv' : UserInv (machineView s) noHand noExt s' := by
    rw [hs']
    exact ⟨hinv.user.frames.of_eq rfl rfl rfl rfl, hinv.user.clusters.of_eq rfl rfl rfl rfl rfl rfl⟩
  have hsame := usSwapOut_eq_usEvictPage hinv' hr
  rw [machineView_desc, hs'] at hsame
  rw [hrecord, hord, hs']
  exact hsame

/-- A loaded page, dirty by its descriptor and clean by the frame table. -/
def loadingOnce : List (UserOp Bool) := [.load false .read fun _ => ⟨0#16, 0#8, 0#8⟩]

theorem evictions_agree_loaded : ∃ s : UserSpace Bool,
    (s.mem false).getDirty = true ∧ (s.usFt (s.mem false).block).getDirty = false ∧
      s.usSwapOut ⟨(s.mem false).block, (s.usFt (s.mem false).block).getDirty,
          s.ot (s.mem false).block⟩ =
        s.usEvictPage (s.mem false).block (s.mem false).getDirty := by
  have hfollow : (Run.follow (fun s op => UserOp.next s op) (UserSpace.initial 1 2
      (fun _ _ => ⟨0#16, 0#8, 0#8⟩) (fun _ _ => ⟨0#16, 0#8, 0#8⟩) (fun _ => 0) [])
      loadingOnce).any (fun s => (s.mem false).getValid && (s.mem false).getDirty &&
        !(s.usFt (s.mem false).block).getDirty) = true := by
    decide
  obtain ⟨s, hs, hbits⟩ := (Option.any_eq_true _ _).mp hfollow
  simp only [Bool.and_eq_true, Bool.not_eq_true'] at hbits
  obtain ⟨⟨hvalid, hdirty⟩, hclean⟩ := hbits
  have run := Run.of_follow (fun _ _ _ => UserOp.step_of_next) hs
  exact ⟨s, hdirty, hclean, (evictions_agree (by decide) (by decide) run hvalid).1⟩

end Machine

end VirtualMemory
