import VirtualMemory.KernelRuns
import VirtualMemory.VictimSearch

/-!
# Locks that are given back

Which kernel frames are locked is known without knowing anything about the tables: each
call locks, unlocks or overwrites named frames, whatever the pointers it follows lead to.
A call keeps `held` frames locked at its deepest point; as long as there are more frames
above the reserved ones, each of its searches for a victim finds one. All this is shown of
any state, and of a run because each of its states is one.
-/

namespace VirtualMemory

open Function UserSpace KernelSystem Outcome

/-- The sizes of the two spaces, and the kernel frames that may be locked. -/
structure Locks (pool frames : Nat) (held : List Nat) (s : KernelSystem) : Prop where
  pool : s.krnlspcSize - s.ksReserved = pool
  frames : s.userspcSize = frames
  small : s.krnlspcSize ≤ nullCluster
  locked : ∀ f, f < s.krnlspcSize → (s.ksFt f).getLocked = true → f ∈ held

/-- A search that cannot end, although fewer than all of the unreserved frames are locked
and there are as many user frames as the call uses. -/
def Doomed (pool frames locks users : Nat) (halt : Halt) : Prop :=
  halt = .noVictim ∧ locks < pool ∧ users ≤ frames

/-- A computation that looks for no victim. -/
def Quiet {α : Type} (x : Except Halt α) : Prop := Meets (· = .noVictim) (fun _ => True) x

section Rules

variable {α β : Type} {pool frames locks locks' users users' : Nat} {P : α → Prop}
  {R : β → Prop} {x : Except Halt α}

theorem Doomed.deeper {halt : Halt} (h : Doomed pool frames locks' users' halt)
    (hlocks : locks ≤ locks') (husers : users ≤ users') : Doomed pool frames locks users halt :=
  ⟨h.1, Nat.lt_of_le_of_lt hlocks h.2.1, Nat.le_trans husers h.2.2⟩

/-- A call is no worse for the frames that its caller has locked. -/
theorem deeper (h : Meets (Doomed pool frames locks users) P x) (hlocks : locks ≤ locks')
    (husers : users ≤ users') : Meets (Doomed pool frames locks' users') P x :=
  h.mono (fun _ he => he.deeper hlocks husers) fun _ ha => ha

theorem never (h : Meets (· = .noVictim) P x) : Meets (Doomed pool frames locks users) P x :=
  h.mono (fun _ he => he.1) fun _ ha => ha

theorem Quiet.bind {f : α → Except Halt β} (h : Quiet x)
    (hf : ∀ a, Meets (Doomed pool frames locks users) R (f a)) :
    Meets (Doomed pool frames locks users) R (x >>= f) :=
  (never h).bind fun a _ => hf a

theorem quiet_pcb (s : KernelSystem) (h : Nat) : Quiet (s.pcb h) := by
  unfold pcb
  split
  · exact nofun
  · trivial

theorem quiet_deref (pointer : Option KAddr) : Quiet (deref pointer) := by
  cases pointer with
  | none => exact nofun
  | some a => exact trivial

theorem quiet_derefPtl2 (r : Except Status KAddr) : Quiet (derefPtl2 r) := by
  cases r with
  | error status => exact nofun
  | ok a => exact trivial

theorem quiet_accessPtl1 (s : KernelSystem) (h addr : Nat) : Quiet (s.accessPtl1 h addr) :=
  Meets.bind (quiet_pcb s h) fun _ _ => trivial

theorem quiet_atIndex {T : Type} (v : ConsVec T) (n : Nat) : Quiet (v.atIndex n) := by
  unfold ConsVec.atIndex
  split
  · exact nofun
  · split
    · exact nofun
    · split
      · exact nofun
      · trivial

theorem quiet_assign {T : Type} (v : ConsVec T) (n : Nat) (data : T) : Quiet (v.assign n data) := by
  unfold ConsVec.assign
  split
  · exact nofun
  · split
    · exact nofun
    · trivial

theorem quiet_markEmpty {T : Type} (v : ConsVec T) (n : Nat) : Quiet (v.markEmpty n) := by
  unfold ConsVec.markEmpty
  split
  · exact nofun
  · split <;> trivial

theorem quiet_ssegBlock (s : KernelSystem) (ssegInd : Nat) : Quiet (s.ssegBlock ssegInd) := by
  unfold ssegBlock
  refine Meets.bind (quiet_atIndex _ _) fun dummy _ => Meets.bind (quiet_pcb _ _) fun p _ => ?_
  split
  · exact nofun
  · split
    · exact nofun
    · trivial

theorem quiet_sharedSegmentFind (s : KernelSystem) (name : String) :
    Quiet (s.sharedSegmentFind name) := by
  unfold sharedSegmentFind
  split
  · trivial
  · split
    · exact nofun
    · trivial

end Rules

namespace Locks

variable {pool frames users : Nat} {held : List Nat} {s s' : KernelSystem} {f : Nat}

theorem unlockedFrame (hlocks : Locks pool frames held s) (hroom : held.length < pool) :
    s.unlockedFrame = true := by
  by_contra hnone
  have hall : ∀ f, s.ksReserved ≤ f → f < s.krnlspcSize → f ∈ held := by
    intro f hres hf
    refine hlocks.locked f hf ?_
    by_contra hopen
    apply hnone
    simp only [KernelSystem.unlockedFrame, List.any_eq_true, List.mem_range, Bool.and_eq_true,
      decide_eq_true_eq, Bool.not_eq_true']
    exact ⟨f, hf, hres, by simpa using hopen⟩
  have hsub : Finset.Ico s.ksReserved s.krnlspcSize ⊆ held.toFinset := by
    intro f hf
    rw [Finset.mem_Ico] at hf
    exact List.mem_toFinset.mpr (hall f hf.1 hf.2)
  have hcard := (Finset.card_le_card hsub).trans (List.toFinset_card_le held)
  rw [Nat.card_Ico, hlocks.pool] at hcard
  omega

theorem withUser {us : UserSpace KAddr} (hlocks : Locks pool frames held s)
    (hsize : us.userspcSize = frames) : Locks pool frames held (s.withUser us) :=
  ⟨hlocks.pool, hsize, hlocks.small, hlocks.locked⟩

theorem onUser {bad : Halt → Prop} {op : UserSpace KAddr → Except Halt (UserSpace KAddr)}
    (hlocks : Locks pool frames held s)
    (hop : Meets bad (fun us => us.userspcSize = frames) (op s.toUserSpace)) :
    Meets bad (Locks pool frames held) (s.onUser op) :=
  hop.bind fun _ hsize => hlocks.withUser hsize

theorem setPcb (hlocks : Locks pool frames held s) (h : Nat) (p : KernelProcess) :
    Locks pool frames held (s.setPcb h p) :=
  ⟨hlocks.pool, hlocks.frames, hlocks.small, hlocks.locked⟩

theorem setSte (hlocks : Locks pool frames held s) (a : KAddr) (e : SegTableEntry) :
    Locks pool frames held (s.setSte a e) :=
  hlocks.withUser hlocks.frames

theorem setKrnlPage (hlocks : Locks pool frames held s) (ordinal : Nat) (page : Page) :
    Locks pool frames held (s.setKrnlPage ordinal page) :=
  hlocks.withUser hlocks.frames

theorem lock (hlocks : Locks pool frames held s) (f : Nat) :
    Locks pool frames (f :: held) (s.ksLockPage f) := by
  refine ⟨hlocks.pool, hlocks.frames, hlocks.small, fun f' hf' hlocked => ?_⟩
  by_cases heq : f' = f
  · rw [heq]
    exact List.mem_cons_self
  · refine List.mem_cons_of_mem f (hlocks.locked f' hf' ?_)
    simpa only [ksLockPage, update_of_ne heq] using hlocked

theorem ksUnlockPage (hlocks : Locks pool frames (f :: held) s) :
    Locks pool frames held (s.ksUnlockPage f) := by
  refine ⟨hlocks.pool, hlocks.frames, hlocks.small, fun f' hf' hlocked => ?_⟩
  by_cases heq : f' = f
  · subst heq
    simp only [KernelSystem.ksUnlockPage, update_self, FrameTableEntry.getLocked_setLocked,
      Bool.false_eq_true] at hlocked
  · simp only [KernelSystem.ksUnlockPage, update_of_ne heq] at hlocked
    exact (List.mem_cons.mp (hlocks.locked f' hf' hlocked)).resolve_left heq

/-- What is not a frame is not locked. -/
theorem of_outside (hlocks : Locks pool frames (f :: held) s) (hf : s.krnlspcSize ≤ f) :
    Locks pool frames held s := by
  refine ⟨hlocks.pool, hlocks.frames, hlocks.small, fun f' hf' hlocked => ?_⟩
  exact (List.mem_cons.mp (hlocks.locked f' hf' hlocked)).resolve_left (by omega)

theorem weaken (hlocks : Locks pool frames held s) (f : Nat) : Locks pool frames (f :: held) s :=
  ⟨hlocks.pool, hlocks.frames, hlocks.small,
    fun f' hf' hlocked => List.mem_cons_of_mem f (hlocks.locked f' hf' hlocked)⟩

/-- An unlocker gives its frame back: no frame has the number that means none. -/
theorem unlock (hlocks : Locks pool frames (f :: held) s) :
    Locks pool frames held (s.pageUnlock f) := by
  unfold pageUnlock
  split
  · rename_i hnull
    exact hlocks.of_outside (hnull ▸ hlocks.small)
  · exact hlocks.ksUnlockPage

/-- The flags of a frame are overwritten when it gets a new owner. -/
theorem ksFtUpdate (hlocks : Locks pool frames (f :: held) s) (type : PageType)
    (owner : KsOwner) :
    Locks pool frames held (s.ksFtUpdate f FrameTableEntry.ftNone type owner) := by
  refine ⟨hlocks.pool, hlocks.frames, hlocks.small, fun f' hf' hlocked => ?_⟩
  by_cases heq : f' = f
  · subst heq
    simp only [KernelSystem.ksFtUpdate, update_self, FrameTableEntry.getLocked_mk_none,
      Bool.false_eq_true] at hlocked
  · simp only [KernelSystem.ksFtUpdate, update_of_ne heq] at hlocked
    exact (List.mem_cons.mp (hlocks.locked f' hf' hlocked)).resolve_left heq

theorem ksFtUpdate_locked (hlocks : Locks pool frames held s) (f : Nat) (type : PageType)
    (owner : KsOwner) :
    Locks pool frames (f :: held) (s.ksFtUpdate f FrameTableEntry.ftLocked type owner) := by
  refine ⟨hlocks.pool, hlocks.frames, hlocks.small, fun f' hf' hlocked => ?_⟩
  by_cases heq : f' = f
  · rw [heq]
    exact List.mem_cons_self
  · refine List.mem_cons_of_mem f (hlocks.locked f' hf' ?_)
    simpa only [KernelSystem.ksFtUpdate, update_of_ne heq] using hlocked

theorem evictChildren (hlocks : Locks pool frames held s) (page : Nat) :
    Meets (· = .noVictim) (Locks pool frames held)
      (s.onUser (pageTableEvictChildren · page)) := by
  refine hlocks.onUser (Meets.foldlM (fun us i hsize => ?_) hlocks.frames)
  unfold pageTableEvictChild
  dsimp only
  split
  · exact hsize
  · split
    · exact usSwapOut_meets _ hsize
    · exact hsize

/-- A way to evict a page that leaves the locks alone. -/
def Evicts (pool frames : Nat) (held : List Nat)
    (evict : KernelSystem → Nat → Except Halt KernelSystem) : Prop :=
  ∀ s ordinal, Locks pool frames held s →
    Meets (· = .noVictim) (Locks pool frames held) (evict s ordinal)

theorem masterTableEvictChildren {evict : KernelSystem → Nat → Except Halt KernelSystem}
    (hlocks : Locks pool frames held s) (hevict : Evicts pool frames held evict) (h : Nat) :
    Meets (· = .noVictim) (Locks pool frames held) (s.masterTableEvictChildren evict h) := by
  refine Meets.foldlM (fun s i hlocks => ?_) hlocks
  refine Meets.bind (quiet_pcb s h) fun p _ => ?_
  refine Meets.bind (P := Locks pool frames held) ?_ fun s hlocks => ?_
  · unfold evictPresent
    split
    · exact (hlocks.evictChildren _).bind fun s hlocks => hevict s _ hlocks
    · exact hlocks
  · exact Meets.bind (quiet_pcb s h) fun p _ => hlocks.withUser hlocks.frames

theorem ksSwapOwner {evict : KernelSystem → Nat → Except Halt KernelSystem}
    (hlocks : Locks pool frames held s) (hevict : Evicts pool frames held evict)
    (ordinal cn : Nat) :
    Meets (· = .noVictim) (Locks pool frames held) (s.ksSwapOwner evict ordinal cn) := by
  unfold KernelSystem.ksSwapOwner
  split
  · exact (hlocks.evictChildren _).bind fun s hlocks => hlocks.withUser hlocks.frames
  · rename_i h _ _
    refine (hlocks.masterTableEvictChildren hevict h).bind fun s hlocks => ?_
    exact Meets.bind (quiet_pcb s h) fun p _ => hlocks.setPcb h _
  · exact nofun
  · exact nofun
  · exact nofun

theorem ksSwapFinish (hlocks : Locks pool frames held s) (ordinal cn : Nat) (writeBack : Bool) :
    Locks pool frames held (s.ksSwapFinish ordinal cn writeBack) := by
  have hflags : ∀ f', ((s.ksSwapFinish ordinal cn writeBack).ksFt f').getLocked =
      (s.ksFt f').getLocked := by
    intro f'
    by_cases heq : f' = ordinal
    · subst heq
      cases writeBack <;>
        simp [KernelSystem.ksSwapFinish, ksFreePage, KernelSystem.withUser,
          FrameTableEntry.getLocked]
    · cases writeBack <;>
        simp [KernelSystem.ksSwapFinish, ksFreePage, KernelSystem.withUser, update_of_ne heq]
  cases writeBack with
  | false =>
      exact ⟨hlocks.pool, hlocks.frames, hlocks.small,
        fun f' hf' hlocked => hlocks.locked f' hf' (hflags f' ▸ hlocked)⟩
  | true =>
      exact ⟨hlocks.pool, hlocks.frames, hlocks.small,
        fun f' hf' hlocked => hlocks.locked f' hf' (hflags f' ▸ hlocked)⟩

theorem ksSwapOut : ∀ (depth : Nat) (s : KernelSystem) (victim : Victim),
    Locks pool frames held s →
    Meets (· = .noVictim) (Locks pool frames held) (ksSwapOut depth s victim)
  | 0, _, _, _ => nofun
  | depth + 1, s, victim, hlocks => by
      unfold KernelSystem.ksSwapOut
      refine Meets.bind (P := fun r : Nat × Bool × KernelSystem => Locks pool frames held r.2.2)
        ?_ fun ⟨cn, writeBack, s⟩ hlocks => ?_
      · unfold ksSwapCluster
        split
        · split
          · exact nofun
          · rename_i hacquire
            exact hlocks.withUser ((dvtAcquireCluster_size hacquire).trans hlocks.frames)
        · exact hlocks
      · refine (hlocks.ksSwapOwner ?_ _ _).bind fun s hlocks => hlocks.ksSwapFinish _ _ _
        intro s ordinal hlocks
        unfold ksEvictWith
        split
        · exact nofun
        · rename_i hacquire
          exact ksSwapOut depth _ _
            (hlocks.withUser ((dvtAcquireCluster_size hacquire).trans hlocks.frames))

theorem ksGetVictim (hlocks : Locks pool frames held s) :
    Meets (Doomed pool frames held.length 0) (fun r => Locks pool frames held r.2)
      s.ksGetVictim := by
  cases hvictim : s.ksGetVictim with
  | error halt =>
      rintro ⟨rfl, hroom, _⟩
      exact ksGetVictim_finds (hlocks.unlockedFrame hroom) hvictim
  | ok r =>
      unfold KernelSystem.ksGetVictim at hvictim
      split at hvictim
      · cases hvictim
      · dsimp only at hvictim
        split at hvictim
        · split at hvictim
          · cases hvictim
          · cases hvictim
            exact hlocks.withUser hlocks.frames
        · cases hvictim
          exact hlocks.withUser hlocks.frames

theorem ksTakePage (hlocks : Locks pool frames held s) :
    Meets (Doomed pool frames held.length 0) (fun r => Locks pool frames held r.2)
      s.ksTakePage := by
  unfold KernelSystem.ksTakePage ksGetEmptyPage
  cases s.ksEmpty with
  | cons page rest => exact ⟨hlocks.pool, hlocks.frames, hlocks.small, hlocks.locked⟩
  | nil =>
      refine hlocks.ksGetVictim.bind fun ⟨victim, s⟩ hlocks => ?_
      refine (never (ksSwapOut s.stackDepth s victim hlocks)).bind fun s hlocks => ?_
      cases s.ksEmpty with
      | nil => exact nofun
      | cons page rest => exact ⟨hlocks.pool, hlocks.frames, hlocks.small, hlocks.locked⟩

/-- The frames that are locked once a page was requested. -/
def withPage (lock : Bool) (page : Nat) (held : List Nat) : List Nat :=
  if lock then page :: held else held

theorem ksAcquirePage (hlocks : Locks pool frames held s) (type : PageType) (owner : KsOwner)
    (lock : Bool) :
    Meets (Doomed pool frames held.length 0)
      (fun r => Locks pool frames (withPage lock r.1 held) r.2)
      (s.ksAcquirePage type owner lock) := by
  unfold KernelSystem.ksAcquirePage
  refine hlocks.ksTakePage.bind fun ⟨page, s⟩ hlocks => ?_
  cases lock with
  | false => exact (hlocks.weaken page).ksFtUpdate type owner
  | true => exact hlocks.ksFtUpdate_locked page type owner

theorem ksRequestPage (hlocks : Locks pool frames held s) (type : PageType) (owner : KsOwner)
    (cluster : Nat) (lock : Bool) :
    Meets (Doomed pool frames held.length 0)
      (fun r => Locks pool frames (withPage lock r.1 held) r.2)
      (s.ksRequestPage type owner cluster lock) := by
  unfold KernelSystem.ksRequestPage
  refine (hlocks.ksAcquirePage type owner lock).bind fun ⟨page, s⟩ hlocks => ?_
  dsimp only
  split
  · exact hlocks
  · exact (hlocks.withUser hlocks.frames).withUser hlocks.frames

theorem masterTableLock (hlocks : Locks pool frames held s) (h : Nat) :
    Meets (Doomed pool frames held.length 0) (fun r => Locks pool frames (r.1 :: held) r.2)
      (s.masterTableLock h) := by
  unfold KernelSystem.masterTableLock
  refine (quiet_pcb s h).bind fun p => ?_
  split
  · exact hlocks.lock p.masterTable
  · unfold swapMasterTable
    refine Meets.bind (P := fun s => ∃ p, s.pcbs h = some p ∧
      Locks pool frames (p.masterTable :: held) s) ?_ ?_
    · refine (quiet_pcb s h).bind fun p => ?_
      refine (hlocks.ksRequestPage _ _ _ _).bind fun ⟨page, s⟩ hlocks => ?_
      refine (quiet_pcb s h).bind fun p => ?_
      exact ⟨_, update_self .., hlocks.setPcb h _⟩
    · rintro s ⟨p, hp, hlocks⟩
      rw [KernelSystem.pcb_eq_ok.mpr hp]
      exact hlocks

theorem setPtl1 (hlocks : Locks pool frames held s) (a : KAddr) (e : PageTableL1Entry) :
    Locks pool frames held (s.setPtl1 a e) :=
  hlocks.withUser hlocks.frames

/-- The first level entry of a table that was fetched names the frame it came to. -/
theorem named (hlocks : Locks pool frames (f :: held) s) (a : KAddr) (e : PageTableL1Entry)
    (hblock : e.blockDisk = BitVec.ofNat 16 f) :
    Locks pool frames (((s.setPtl1 a e).ptl1 a).block :: held) (s.setPtl1 a e) := by
  have hentry : (s.setPtl1 a e).ptl1 a = e := by
    simp [ptl1, KernelSystem.setPtl1, setPte, KernelSystem.withUser]
  rw [hentry]
  by_cases hf : f < s.krnlspcSize
  · have hsmall := hlocks.small
    have hsame : e.block = f := by
      rw [PageTableL1Entry.block, hblock, BitVec.toNat_ofNat]
      unfold nullCluster at hsmall
      omega
    rw [hsame]
    exact hlocks.setPtl1 a e
  · exact ((hlocks.of_outside (Nat.le_of_not_lt hf)).weaken _).setPtl1 a e

theorem pageTableLock (hlocks : Locks pool frames held s) (h addr : Nat) :
    Meets (Doomed pool frames held.length 0) (fun r => Locks pool frames (r.1 :: held) r.2)
      (s.pageTableLock h addr) := by
  unfold KernelSystem.pageTableLock fetchPageTable
  refine (quiet_pcb s h).bind fun p => ?_
  dsimp only
  split
  · refine Meets.bind (P := fun s : KernelSystem => Locks pool frames
      ((s.ptl1 (p.ptl1Ptr.index (ptl1Slot addr))).block :: held) s) ?_ fun s hlocks => hlocks
    refine (hlocks.ksRequestPage _ _ _ _).bind fun ⟨page, s⟩ hlocks => ?_
    exact hlocks.named _ _ rfl
  · split
    · exact hlocks.lock _
    · exact nofun

theorem swapPageTable (hlocks : Locks pool frames held s) (h addr : Nat) :
    Meets (Doomed pool frames held.length 0) (Locks pool frames held)
      (s.swapPageTable h addr) := by
  unfold KernelSystem.swapPageTable fetchPageTable
  refine (quiet_accessPtl1 s h addr).bind fun r => ?_
  split
  · exact nofun
  · refine (hlocks.ksRequestPage _ _ _ _).bind fun ⟨page, s⟩ hlocks => ?_
    exact hlocks.setPtl1 _ _

theorem faultPtl2 (hlocks : Locks pool frames held s) (h addr : Nat) (ptl1e : KAddr) :
    Meets (Doomed pool frames held.length 0) (fun r => Locks pool frames held r.2)
      (s.faultPtl2 h addr ptl1e) := by
  unfold KernelSystem.faultPtl2
  split
  · exact hlocks
  · refine (hlocks.swapPageTable h addr).bind fun s hlocks => ?_
    exact (quiet_derefPtl2 _).bind fun ptl2e => hlocks
  · exact nofun

/-- A fault locks one master table for each process that it goes through. -/
theorem pageFault : ∀ (levels : Nat) (held : List Nat) (s : KernelSystem) (h addr : Nat),
    Locks pool frames held s →
    Meets (Doomed pool frames (held.length + levels) 1) (Locks pool frames held)
      (pageFault levels s h addr)
  | 0, _, _, _, _, _ => nofun
  | levels + 1, held, s, h, addr, hlocks => by
      unfold KernelSystem.pageFault
      refine (deeper (hlocks.masterTableLock h) (by omega) (by omega)).bind
        fun ⟨mt, s⟩ hlocks => ?_
      refine (quiet_accessPtl1 s h addr).bind fun r => (quiet_deref r).bind fun ptl1e => ?_
      dsimp only
      split
      · exact nofun
      · refine (deeper (hlocks.faultPtl2 h addr ptl1e) ?_ (by omega)).bind
          fun ⟨ptl2e, s⟩ hlocks => ?_
        · rw [List.length_cons]
          omega
        · refine Meets.bind (P := Locks pool frames (mt :: held)) ?_ fun s hlocks => hlocks.unlock
          unfold faultEntry
          split
          · refine (quiet_atIndex _ _).bind fun dummy => ?_
            refine deeper (pageFault levels (mt :: held) s dummy _ hlocks) ?_ (by omega)
            rw [List.length_cons]
            omega
          · refine (hlocks.onUser (faultPage_meets ptl2e hlocks.frames)).mono ?_ fun s hs => hs
            exact fun e he => ⟨he.1, he.2.2⟩

theorem accessEntry (hlocks : Locks pool frames held s) {k : Nat}
    {onShared : KernelSystem → Nat → Nat → Except Halt (Status × KernelSystem)}
    (hshared : ∀ pid address, Meets (Doomed pool frames k 0)
      (fun r => Locks pool frames held r.2) (onShared s pid address))
    (address : Nat) (type : AccessType) (ignoreAccess : Bool) (ptl2e : KAddr) :
    Meets (Doomed pool frames k 0) (fun r => Locks pool frames held r.2)
      (s.accessEntry onShared address type ignoreAccess ptl2e) := by
  unfold KernelSystem.accessEntry
  dsimp only
  split
  · exact hlocks
  · split
    · exact hshared _ _
    · split
      · exact hlocks
      · change Locks pool frames held (if _ then _ else _)
        split
        · exact hlocks.withUser hlocks.frames
        · exact hlocks

theorem accessPcb (s : KernelSystem) (pid : Nat) : Quiet (s.accessPcb pid) := by
  unfold KernelSystem.accessPcb
  split
  · refine Meets.bind (quiet_atIndex _ _) fun r _ => ?_
    split
    · exact nofun
    · trivial
  · exact quiet_atIndex _ _

theorem access : ∀ (levels : Nat) (held : List Nat) (s : KernelSystem) (pid address : Nat)
    (type : AccessType) (ignoreAccess : Bool), Locks pool frames held s →
    Meets (Doomed pool frames (held.length + (levels - 1)) 0)
      (fun r => Locks pool frames held r.2) (access levels s pid address type ignoreAccess)
  | 0, _, _, _, _, _, _, _ => nofun
  | levels + 1, held, s, pid, address, type, ignoreAccess, hlocks => by
      unfold KernelSystem.access
      refine (accessPcb s pid).bind fun h => ?_
      refine (deeper (hlocks.masterTableLock h) (by omega) (by omega)).bind
        fun ⟨mt, s⟩ hlocks => ?_
      refine (quiet_accessPtl1 s h address).bind fun r => ?_
      split
      · exact hlocks.unlock
      · rename_i ptl1e
        split
        · exact hlocks.unlock
        · rename_i ptl2e _
          refine Meets.bind (P := fun r : Status × KernelSystem =>
            Locks pool frames (mt :: held) r.2) ?_ fun ⟨status, s⟩ hlocks => hlocks.unlock
          refine hlocks.accessEntry (fun pid' address' => ?_) _ _ _ _
          cases levels with
          | zero => exact nofun
          | succ levels =>
              refine deeper (access (levels + 1) (mt :: held) s pid' address' type true hlocks) ?_
                (by omega)
              rw [List.length_cons]
              omega

/-- What is done to a descriptor while its table is locked. -/
def Works (pool frames k users : Nat) (held : List Nat)
    (work : KernelSystem → KAddr → Nat → Except Halt KernelSystem) : Prop :=
  ∀ pt s ptl2e i, Locks pool frames (pt :: held) s →
    Meets (Doomed pool frames (held.length + k) users) (Locks pool frames (pt :: held))
      (work s ptl2e i)

theorem lockPtl2 (hlocks : Locks pool frames held s) (h addr : Nat) (ptl1e : KAddr) :
    Meets (Doomed pool frames held.length 0) (fun r => Locks pool frames (r.1 :: held) r.2)
      (s.lockPtl2 h addr ptl1e) := by
  unfold KernelSystem.lockPtl2
  split
  · refine (hlocks.ksRequestPage _ _ _ _).bind fun ⟨pa, s⟩ hlocks => ?_
    exact (hlocks.setPtl1 _ _).withUser hlocks.frames
  · exact hlocks.pageTableLock h addr

theorem fillSegment {work : KernelSystem → KAddr → Nat → Except Halt KernelSystem} {k : Nat}
    (hlocks : Locks pool frames held s) (hwork : Works pool frames k users held work)
    (h startAddr size : Nat) :
    Meets (Doomed pool frames (held.length + k) users) (Locks pool frames held)
      (s.fillSegment h startAddr size work) := by
  refine Meets.foldlM (fun s i hlocks => ?_) hlocks
  unfold segmentPage
  refine (quiet_accessPtl1 s h _).bind fun r => (quiet_deref r).bind fun ptl1e => ?_
  refine (deeper (hlocks.lockPtl2 h _ ptl1e) (by omega) (by omega)).bind
    fun ⟨punl1, s⟩ hlocks => ?_
  refine (quiet_derefPtl2 _).bind fun ptl2e => ?_
  exact (hwork punl1 s ptl2e i hlocks).bind fun s hlocks => hlocks.unlock

theorem recordSegment (hlocks : Locks pool frames held s) (h ordinal size : Nat)
    (kind : KindEnum) :
    Meets (· = .noVictim) (fun r => Locks pool frames held r.2)
      (s.recordSegment h ordinal size kind) := by
  unfold KernelSystem.recordSegment
  refine Meets.bind (quiet_pcb s h) fun p _ => ?_
  split
  · exact nofun
  · exact (hlocks.setSte _ _).setPcb h _

/-- A call that makes a segment has its master table and one page table locked at a time. -/
theorem newSegment {work : KernelSystem → KAddr → Nat → Except Halt KernelSystem}
    (hlocks : Locks pool frames held s) (h ordinal startAddr size : Nat)
    (hwork : ∀ mt, Works pool frames 0 users (mt :: held) work) :
    Meets (Doomed pool frames (held.length + 1) users) (fun r => Locks pool frames held r.2)
      (s.newSegment h ordinal startAddr size work) := by
  unfold KernelSystem.newSegment
  refine (quiet_pcb s h).bind fun p => ?_
  split
  · exact hlocks
  · refine (deeper (hlocks.masterTableLock h) (by omega) (by omega)).bind
      fun ⟨mt, s⟩ hlocks => ?_
    refine (quiet_pcb s h).bind fun p => ?_
    dsimp only
    split
    · exact hlocks.unlock
    · refine (never (hlocks.recordSegment h ordinal size _)).bind fun ⟨entry, s⟩ hlocks => ?_
      refine (deeper (hlocks.fillSegment (hwork mt) h startAddr size) ?_ (Nat.le_refl _)).bind
        fun s hlocks => hlocks.unlock
      rw [List.length_cons]

theorem createSegment (hlocks : Locks pool frames held s) (h startAddr size : Nat)
    (accType : AccessType) :
    Meets (Doomed pool frames (held.length + 1) 0) (fun r => Locks pool frames held r.2)
      (s.createSegment h startAddr size accType) :=
  hlocks.newSegment h _ startAddr size fun _ _ _ _ _ hlocks => hlocks.withUser hlocks.frames

theorem loadSegment (hlocks : Locks pool frames held s) (h startAddr size : Nat)
    (accType : AccessType) (content : Nat → Page) :
    Meets (Doomed pool frames (held.length + 1) 1) (fun r => Locks pool frames held r.2)
      (s.loadSegment h startAddr size accType content) :=
  hlocks.newSegment h _ startAddr size fun _ _ _ ptl2e i hlocks =>
    (hlocks.onUser (loadPage_meets ptl2e accType (content i) hlocks.frames)).mono
      (fun _ he => ⟨he.1, he.2.2⟩) fun _ hs => hs

theorem setSscb (hlocks : Locks pool frames held s) (b : Nat) (sscb : SsegControlBlock) :
    Locks pool frames held (s.setSscb b sscb) :=
  ⟨hlocks.pool, hlocks.frames, hlocks.small, hlocks.locked⟩

theorem connectSharedSegment (hlocks : Locks pool frames held s) (h ssegInd localIndex : Nat) :
    Meets (· = .noVictim) (Locks pool frames held)
      (s.connectSharedSegment h ssegInd localIndex) :=
  Meets.bind (quiet_ssegBlock s ssegInd) fun _ _ => hlocks.setSscb _ _

theorem dropUser (hlocks : Locks pool frames held s) (h ssegInd : Nat) :
    Meets (· = .noVictim) (fun r => Locks pool frames held r.2) (s.dropUser h ssegInd) := by
  unfold KernelSystem.dropUser
  refine Meets.bind (quiet_ssegBlock s ssegInd) fun ⟨b, sscb⟩ _ => ?_
  dsimp only
  split
  · exact nofun
  · exact hlocks.setSscb _ _

theorem deleteEntry (hlocks : Locks pool frames held s) (h : Nat)
    (doReleaseShared released : Bool) (ptl2e : KAddr) :
    Meets (· = .noVictim) (fun r => Locks pool frames held r.2)
      (deleteEntry h doReleaseShared released s ptl2e) := by
  unfold KernelSystem.deleteEntry
  split
  · exact nofun
  · split
    · split
      · exact (hlocks.dropUser h _).bind fun ⟨_, s⟩ hlocks => hlocks.withUser hlocks.frames
      · exact hlocks.withUser hlocks.frames
    · exact (hlocks.onUser (releasePage_meets ptl2e hlocks.frames)).bind fun s hlocks => hlocks

theorem deleteSegmentInd (hlocks : Locks pool frames held s) (h entry : Nat)
    (doReleaseShared : Bool) :
    Meets (Doomed pool frames held.length 0) (Locks pool frames held)
      (s.deleteSegmentInd h entry doReleaseShared) := by
  unfold KernelSystem.deleteSegmentInd
  refine (quiet_pcb s h).bind fun p => ?_
  refine Meets.bind (P := fun r : Bool × KernelSystem => Locks pool frames held r.2) ?_
    fun ⟨_, s⟩ hlocks => ?_
  · refine Meets.foldlM (I := fun r : Bool × KernelSystem => Locks pool frames held r.2)
      (fun ⟨released, s⟩ i hlocks => ?_) hlocks
    unfold deletePage
    refine (quiet_accessPtl1 s h _).bind fun r => (quiet_deref r).bind fun ptl1e => ?_
    dsimp only
    split
    · exact nofun
    · refine (pageTableLock hlocks h _).bind fun ⟨pt, s⟩ hlocks => ?_
      refine (quiet_derefPtl2 _).bind fun ptl2e => ?_
      exact (never (deleteEntry hlocks h _ _ ptl2e)).bind fun ⟨_, s⟩ hlocks => hlocks.unlock
  · refine (quiet_pcb s h).bind fun p => ?_
    exact (hlocks.setSte _ _).setPcb h _

theorem deleteSegment (hlocks : Locks pool frames held s) (h startAddr : Nat) :
    Meets (Doomed pool frames (held.length + 1) 0) (fun r => Locks pool frames held r.2)
      (s.deleteSegment h startAddr) := by
  unfold KernelSystem.deleteSegment
  refine (quiet_pcb s h).bind fun p => ?_
  split
  · exact hlocks
  · refine (deeper (hlocks.masterTableLock h) (by omega) (by omega)).bind
      fun ⟨mt, s⟩ hlocks => ?_
    refine (quiet_pcb s h).bind fun p => ?_
    split
    · exact hlocks.unlock
    · exact (deeper (hlocks.deleteSegmentInd h _ true) (by rw [List.length_cons]) (by omega)).bind
        fun s hlocks => hlocks.unlock

theorem newProcess (hlocks : Locks pool frames held s) :
    Meets (Doomed pool frames held.length 0) (fun r => Locks pool frames (r.2.1 :: held) r.2.2)
      s.newProcess := by
  unfold KernelSystem.newProcess newPcb
  refine Meets.bind (P := fun r : Nat × KernelSystem => Locks pool frames held r.2) ?_
    fun ⟨h, s⟩ hlocks => ?_
  · exact (quiet_assign _ _ _).bind fun pcbVec =>
      ⟨hlocks.pool, hlocks.frames, hlocks.small, hlocks.locked⟩
  · refine (hlocks.ksAcquirePage _ _ true).bind fun ⟨page, s⟩ hlocks => ?_
    refine Meets.bind (P := Locks pool frames (page :: held)) ?_ fun s hlocks => hlocks
    unfold setMasterTable
    refine (quiet_pcb s h).bind fun p => ?_
    exact (hlocks.setKrnlPage _ _).setPcb h _

theorem createProcess (hlocks : Locks pool frames held s) :
    Meets (Doomed pool frames held.length 0) (fun r => Locks pool frames held r.2)
      s.createProcess :=
  hlocks.newProcess.bind fun _ hlocks => hlocks.ksFtUpdate _ _

theorem deleteProcess (hlocks : Locks pool frames held s) (h : Nat) :
    Meets (Doomed pool frames (held.length + 1) 0) (Locks pool frames held)
      (s.deleteProcess h) := by
  unfold KernelSystem.deleteProcess
  refine (deeper (hlocks.masterTableLock h) (by omega) (by omega)).bind fun ⟨mt, s⟩ hlocks => ?_
  refine Meets.bind (P := Locks pool frames (mt :: held)) ?_ fun s hlocks => ?_
  · refine Meets.foldlM (fun s i hlocks => ?_) hlocks
    unfold destroyEntry
    refine (quiet_pcb s h).bind fun p => ?_
    split
    · exact hlocks.deleteSegmentInd h i true
    · exact hlocks
  · have hopen : Locks pool frames held ((s.ksRelinquishPage mt).ksUnlockPage mt) :=
      ksUnlockPage ⟨hlocks.pool, hlocks.frames, hlocks.small, hlocks.locked⟩
    refine (quiet_pcb _ h).bind fun p => (quiet_markEmpty _ _).bind fun pcbVec => ?_
    exact ⟨hopen.pool, hopen.frames, hopen.small, hopen.locked⟩

theorem cloneEntry (hlocks : Locks pool frames held s) (h entry : Nat) (kind : KindEnum)
    (ptl2e source : KAddr) (i : Nat) :
    Meets (fun halt => halt = .noVictim ∧ 2 ≤ frames) (Locks pool frames held)
      (cloneEntry h entry kind s ptl2e source i) := by
  unfold KernelSystem.cloneEntry
  split
  · dsimp only
    split
    · have hset : Locks pool frames held (s.withUser (s.setPte ptl2e (s.mem source))) :=
        hlocks.withUser hlocks.frames
      exact (hset.connectSharedSegment _ _ _).mono (fun _ he => he.1) fun _ hs => hs
    · exact hlocks.withUser hlocks.frames
  · exact hlocks.onUser (clonePage_meets ptl2e source hlocks.frames)

theorem cloneWork (h entry source startAddr : Nat) (kind : KindEnum) :
    Works pool frames 1 2 held (cloneWork h entry source startAddr kind) := by
  intro pt s ptl2e i hlocks
  unfold KernelSystem.cloneWork
  refine Meets.bind (P := fun r : Nat × KAddr × KernelSystem =>
    Locks pool frames (r.1 :: pt :: held) r.2.2) ?_ fun ⟨punl1, ptl2eSrc, s⟩ hlocks => ?_
  · unfold lockSourcePtl2
    refine (quiet_accessPtl1 s source _).bind fun r => (quiet_deref r).bind fun ptl1e => ?_
    dsimp only
    split
    · exact nofun
    · refine (deeper (hlocks.pageTableLock source _) (by rw [List.length_cons]) (by omega)).bind
        fun ⟨punl1, s⟩ hlocks => ?_
      exact (quiet_derefPtl2 _).bind fun ptl2e => hlocks
  · refine ((hlocks.cloneEntry h entry kind ptl2e ptl2eSrc i).mono
      (fun _ he => ⟨he.1, he.2.2⟩) fun _ hs => hs).bind fun s hlocks => ?_
    exact hlocks.unlock

theorem cloneSegmentFrom (hlocks : Locks pool frames held s) (h source index : Nat) :
    Meets (Doomed pool frames (held.length + 1) 2) (Locks pool frames held)
      (cloneSegmentFrom h source s index) := by
  unfold KernelSystem.cloneSegmentFrom
  refine (quiet_pcb s source).bind fun p => ?_
  refine (never (hlocks.recordSegment h _ _ _)).bind fun ⟨entry, s⟩ hlocks => ?_
  exact hlocks.fillSegment (cloneWork h entry source _ _) h _ _

/-- The lock on the source's master table is not given back. -/
theorem cloneProcess (hlocks : Locks pool frames held s) (pid : Nat) :
    Meets (Doomed pool frames (held.length + 3) 2)
      (fun r => ∃ mt, Locks pool frames (mt :: held) r.2) (s.cloneProcess pid) := by
  unfold KernelSystem.cloneProcess
  refine (quiet_atIndex _ _).bind fun r => ?_
  split
  · exact nofun
  · rename_i source
    refine (deeper (hlocks.masterTableLock source) (by omega) (by omega)).bind
      fun ⟨mt, s⟩ hlocks => ?_
    refine (deeper hlocks.newProcess (by rw [List.length_cons]; omega) (by omega)).bind
      fun ⟨h, page, s⟩ hlocks => ?_
    refine Meets.bind (P := Locks pool frames (page :: mt :: held)) ?_
      fun s hlocks => ⟨mt, hlocks.ksFtUpdate _ _⟩
    refine Meets.foldlM (fun s i hlocks => ?_) hlocks
    unfold cloneStep
    refine (quiet_pcb s source).bind fun p => ?_
    split
    · exact hlocks
    · exact hlocks.cloneSegmentFrom h source i

theorem findOrCreate (hlocks : Locks pool frames held s) (size : Nat) (name : String)
    (accType : AccessType) :
    Meets (Doomed pool frames (held.length + 1) 0) (fun r => Locks pool frames held r.2)
      (s.findOrCreate size name accType) := by
  unfold KernelSystem.findOrCreate
  refine (quiet_sharedSegmentFind s name).bind fun r => ?_
  split
  · exact hlocks
  · refine Meets.bind (P := fun r : Status × KernelSystem => Locks pool frames held r.2) ?_
      fun ⟨status, s⟩ hlocks => ?_
    · unfold createDummy
      split
      · exact hlocks
      · have hnamed : Locks pool frames held
            { s with ssegMap := (name, s.nextSscb) :: s.ssegMap, nextSscb := s.nextSscb + 1 } :=
          ⟨hlocks.pool, hlocks.frames, hlocks.small, hlocks.locked⟩
        refine (deeper hnamed.createProcess (by omega) (by omega)).bind
          fun ⟨dummy, s⟩ hlocks => (quiet_pcb _ dummy).bind fun p => ?_
        have hready : Locks pool frames held s := hlocks
        refine createSegment ?_ dummy 0 size accType
        exact ⟨hready.pool, hready.frames, hready.small, hready.locked⟩
    · dsimp only
      split
      · exact (quiet_sharedSegmentFind s name).bind fun r => hlocks
      · exact hlocks

theorem createSharedSegment (hlocks : Locks pool frames held s) (h startAddr size : Nat)
    (name : String) (accType : AccessType) :
    Meets (Doomed pool frames (held.length + 2) 0) (fun r => Locks pool frames held r.2)
      (s.createSharedSegment h startAddr size name accType) := by
  unfold KernelSystem.createSharedSegment
  refine (quiet_pcb s h).bind fun p => ?_
  split
  · exact hlocks
  · refine (deeper (hlocks.masterTableLock h) (by omega) (by omega)).bind
      fun ⟨mt, s⟩ hlocks => ?_
    refine (quiet_pcb s h).bind fun p => ?_
    dsimp only
    split
    · exact hlocks.unlock
    · refine (deeper (hlocks.findOrCreate size name accType) (by rw [List.length_cons])
        (by omega)).bind fun ⟨found, s⟩ hlocks => ?_
      dsimp only
      split
      · exact hlocks.unlock
      · refine (never (hlocks.recordSegment h _ size _)).bind fun ⟨entry, s⟩ hlocks => ?_
        refine (never (hlocks.connectSharedSegment h _ entry)).bind fun s hlocks => ?_
        have hmap : ∀ ssegInd, Works pool frames 0 0 (mt :: held) (mapShared ssegInd accType) :=
          fun _ _ _ _ _ hlocks => hlocks.withUser hlocks.frames
        refine (deeper (hlocks.fillSegment (hmap _) h startAddr size) ?_ (by omega)).bind
          fun s hlocks => hlocks.unlock
        rw [List.length_cons]
        omega

theorem disconnectSharedSegment (hlocks : Locks pool frames held s) (h : Nat) (name : String) :
    Meets (Doomed pool frames held.length 0) (fun r => Locks pool frames held r.2)
      (s.disconnectSharedSegment h name) := by
  unfold KernelSystem.disconnectSharedSegment
  refine (quiet_sharedSegmentFind s name).bind fun r => ?_
  split
  · exact hlocks
  · refine (never (hlocks.dropUser h _)).bind fun ⟨localIndex, s⟩ hlocks => ?_
    exact (hlocks.deleteSegmentInd h localIndex false).bind fun s hlocks => hlocks

theorem deleteSharedSegment (hlocks : Locks pool frames held s) (name : String) :
    Meets (Doomed pool frames (held.length + 1) 0) (fun r => Locks pool frames held r.2)
      (s.deleteSharedSegment name) := by
  unfold KernelSystem.deleteSharedSegment
  split
  · exact hlocks
  · split
    · exact nofun
    · rename_i sscb _
      refine Meets.bind (P := Locks pool frames held) ?_ fun s hlocks => ?_
      · exact deeper (Meets.foldlM (fun s user hlocks =>
          hlocks.deleteSegmentInd user.pcb user.index false) hlocks) (by omega) (by omega)
      · refine (deleteProcess (hlocks.setSscb _ _) sscb.dummy).bind fun s hlocks => ?_
        exact (quiet_markEmpty _ _).bind fun ssegVec =>
          ⟨hlocks.pool, hlocks.frames, hlocks.small, hlocks.locked⟩

end Locks

/-- No kernel frame is locked. -/
def KernelSystem.NoneLocked (s : KernelSystem) : Prop :=
  ∀ f, f < s.krnlspcSize → (s.ksFt f).getLocked = false

instance (s : KernelSystem) : Decidable s.NoneLocked :=
  inferInstanceAs (Decidable (∀ f, f < s.krnlspcSize → (s.ksFt f).getLocked = false))

def KernelSystem.lockedFrames (s : KernelSystem) : List Nat :=
  (List.range s.krnlspcSize).filter fun f => (s.ksFt f).getLocked

namespace KernelOp

/-- How many frames a call has locked, or is about to lock, at its deepest point, besides the
one that it is looking for. -/
def depth (levels : Nat) : KernelOp → Nat
  | .createProcess => 0
  | .cloneProcess _ => 3
  | .deleteProcess _ => 1
  | .createSegment .. => 1
  | .loadSegment .. => 1
  | .createSharedSegment .. => 2
  | .disconnectSharedSegment .. => 0
  | .deleteSegment .. => 1
  | .deleteSharedSegment _ => 1
  | .pageFault .. => levels
  | .access .. => levels - 1

/-- How many user frames a call uses at a time: a clone needs the page that is copied and
the copy. -/
def userFrames : KernelOp → Nat
  | .cloneProcess _ => 2
  | .loadSegment .. => 1
  | .pageFault .. => 1
  | _ => 0

def IsClone (op : KernelOp) : Prop := ∃ pid, op = .cloneProcess pid

variable {levels pool frames : Nat} {held : List Nat} {s s' : KernelSystem} {op : KernelOp}

theorem exec_locks (hlocks : Locks pool frames held s) :
    Meets (Doomed pool frames (held.length + op.depth levels) op.userFrames)
      (fun s' => ∃ held', Locks pool frames held' s' ∧ (¬ op.IsClone → held' = held))
      (op.exec levels s) := by
  have kept : ∀ s', Locks pool frames held s' →
      ∃ held', Locks pool frames held' s' ∧ (¬ op.IsClone → held' = held) :=
    fun _ hlocks => ⟨held, hlocks, fun _ => rfl⟩
  cases op with
  | createProcess => exact hlocks.createProcess.bind fun _ hlocks => kept _ hlocks
  | cloneProcess pid =>
      refine (hlocks.cloneProcess pid).bind ?_
      rintro ⟨h, s'⟩ ⟨mt, hlocks⟩
      exact ⟨mt :: held, hlocks, fun hclone => absurd ⟨pid, rfl⟩ hclone⟩
  | deleteProcess h => exact (hlocks.deleteProcess h).post kept
  | createSegment h startAddr size accType =>
      exact (hlocks.createSegment h startAddr size accType).bind fun _ hlocks => kept _ hlocks
  | loadSegment h startAddr size accType content =>
      exact (hlocks.loadSegment h startAddr size accType content).bind
        fun _ hlocks => kept _ hlocks
  | createSharedSegment h startAddr size name accType =>
      exact (hlocks.createSharedSegment h startAddr size name accType).bind
        fun _ hlocks => kept _ hlocks
  | disconnectSharedSegment h name =>
      exact (hlocks.disconnectSharedSegment h name).bind fun _ hlocks => kept _ hlocks
  | deleteSegment h startAddr =>
      exact (hlocks.deleteSegment h startAddr).bind fun _ hlocks => kept _ hlocks
  | deleteSharedSegment name =>
      exact (hlocks.deleteSharedSegment name).bind fun _ hlocks => kept _ hlocks
  | pageFault h addr => exact (Locks.pageFault levels held s h addr hlocks).post kept
  | access pid addr type =>
      exact (Locks.access levels held s pid addr type false hlocks).bind
        fun _ hlocks => kept _ hlocks

/-- Any state with a kernel space of fewer than 2^16 frames. -/
theorem locks_of_small (hsmall : s.krnlspcSize ≤ nullCluster) :
    Locks (s.krnlspcSize - s.ksReserved) s.userspcSize s.lockedFrames s := by
  refine ⟨rfl, rfl, hsmall, fun f hf hlocked => ?_⟩
  exact List.mem_filter.mpr ⟨List.mem_range.mpr hf, hlocked⟩

theorem noneLocked_of_locks (hlocks : Locks pool frames [] s) : s.NoneLocked := by
  intro f hf
  by_contra hlocked
  exact absurd (hlocks.locked f hf (by simpa using hlocked)) List.not_mem_nil

/-- Every call but `clone_process` gives back the locks it takes, on each path that returns:
none is left after a run that begins with none. -/
theorem locks_given_back {start : KernelSystem} {ops : List KernelOp}
    (hsmall : start.krnlspcSize ≤ nullCluster) (hnone : start.NoneLocked)
    (hrun : Run (fun s op s' => ¬ op.IsClone ∧ op.Step levels s s') start ops s) :
    s.NoneLocked := by
  have hstart : Locks (start.krnlspcSize - start.ksReserved) start.userspcSize [] start := by
    refine ⟨rfl, rfl, hsmall, fun f hf hlocked => ?_⟩
    rw [hnone f hf] at hlocked
    cases hlocked
  refine noneLocked_of_locks (hrun.invariant _ ?_ hstart)
  rintro s op s' hlocks ⟨hclone, hstep⟩
  obtain ⟨held', hlocks', heq⟩ := (exec_locks hlocks).ok hstep
  rw [heq hclone] at hlocks'
  exact hlocks'

/-- A process maps a page, touches it and deletes the segment again. -/
theorem locks_given_back_segment : ∃ s : KernelSystem, s.ksEmpty = [] ∧ s.NoneLocked := by
  have hruns : (runSmall anyStep 1 2 2 [] [.createProcess, .createSegment 0 0 1 .readWrite,
      .pageFault 0 0, .access 0 0 .write, .deleteSegment 0 0]).any (fun r =>
        decide (r.1.krnlspcSize ≤ nullCluster) && decide r.1.NoneLocked &&
          decide (r.2.ksEmpty = [])) = true := by
    decide +kernel
  obtain ⟨⟨start, s⟩, hr, hcheck⟩ := (Option.any_eq_true _ _).mp hruns
  simp only [Bool.and_eq_true, decide_eq_true_eq] at hcheck
  obtain ⟨_, hrun⟩ := runSmall_run hr
  refine ⟨s, hcheck.2, locks_given_back hcheck.1.1 hcheck.1.2
    ((hrun.weaken fun _ _ _ h => h.2).guarded ?_)⟩
  rintro op hop ⟨pid, rfl⟩
  simp at hop

/-- A clone leaves its source's master table locked. -/
theorem clone_keeps_lock : ¬ ∀ (start s s' : KernelSystem) (ops : List KernelOp) (op : KernelOp),
    start.Booted → Run (fun s op s' => op.Step 2 s s') start ops s → s.NoneLocked →
    op.Step 2 s s' → s'.NoneLocked := by
  intro hall
  have hruns : (runSmall anyStep 1 2 2 [] [.createProcess]).any (fun r =>
      decide r.2.NoneLocked && Outcome.holds ((cloneProcess 0).exec 2 r.2) fun s' =>
        !decide s'.NoneLocked) = true := by
    decide +kernel
  obtain ⟨⟨start, s⟩, hr, hcheck⟩ := (Option.any_eq_true _ _).mp hruns
  simp only [Bool.and_eq_true, decide_eq_true_eq] at hcheck
  obtain ⟨hstart, hrun⟩ := runSmall_run hr
  obtain ⟨s', hstep, hlocked⟩ := of_holds hcheck.2
  have hnone := hall start s s' _ (cloneProcess 0) (smallKernel_booted hstart)
    (hrun.weaken fun _ _ _ h => h.2) hcheck.1 hstep
  rw [decide_eq_true hnone] at hlocked
  cases hlocked

/-- There are enough frames in both spaces for a call, besides those locked already. -/
def Roomy (levels : Nat) (start s : KernelSystem) (op : KernelOp) : Prop :=
  s.lockedFrames.length + op.depth levels < start.krnlspcSize - start.ksReserved ∧
    op.userFrames ≤ start.userspcSize

instance (levels : Nat) (start s : KernelSystem) (op : KernelOp) :
    Decidable (Roomy levels start s op) :=
  inferInstanceAs (Decidable (_ ∧ _))

/-- Whatever the random engine produces, and however much of it: no search for a victim that
a call enters is one that nothing can be found in. -/
theorem victims_found {start : KernelSystem} {ops : List KernelOp}
    (hsmall : start.krnlspcSize ≤ nullCluster)
    (hrun : Run (fun s op s' => op.Step levels s s') start ops s)
    (hroomy : Roomy levels start s op) (dice : List Nat) :
    op.exec levels (s.rolled dice) ≠ .error .noVictim := by
  have hsizes : ∃ held, Locks (start.krnlspcSize - start.ksReserved) start.userspcSize held s := by
    refine hrun.invariant (fun s => ∃ held, Locks _ _ held s) ?_ ⟨_, locks_of_small hsmall⟩
    rintro s op s' ⟨held, hlocks⟩ hstep
    obtain ⟨held', hlocks', _⟩ := (exec_locks hlocks).ok hstep
    exact ⟨held', hlocks'⟩
  obtain ⟨held, hlocks⟩ := hsizes
  have hexact : Locks (start.krnlspcSize - start.ksReserved) start.userspcSize s.lockedFrames
      (s.rolled dice) :=
    ⟨hlocks.pool, hlocks.frames, hlocks.small, (locks_of_small hlocks.small).locked⟩
  exact (exec_locks hexact).not_error ⟨rfl, hroomy⟩

/-- Two processes take both frames; the second loses its master table for a page table of the
first, whatever is rolled. -/
theorem victims_found_twoProcesses : ∃ s : KernelSystem, s.ksEmpty = [] ∧
    ∀ dice, (createSegment 0 0 1 .read).exec 2 (s.rolled dice) ≠ .error .noVictim := by
  have hruns : (runSmall anyStep 1 2 2 [] [.createProcess, .createProcess]).any (fun r =>
      decide (r.1.krnlspcSize ≤ nullCluster) && decide (r.2.ksEmpty = []) &&
        decide (Roomy 2 r.1 r.2 (createSegment 0 0 1 .read))) = true := by
    decide +kernel
  obtain ⟨⟨start, s⟩, hr, hcheck⟩ := (Option.any_eq_true _ _).mp hruns
  simp only [Bool.and_eq_true, decide_eq_true_eq] at hcheck
  exact ⟨s, hcheck.1.2, victims_found hcheck.1.1
    ((runSmall_run hr).2.weaken fun _ _ _ h => h.2) hcheck.2⟩

/-- With one unreserved frame, which houses the master table, a page table cannot be made. -/
theorem victim_not_found : ¬ ∀ (start s : KernelSystem) (ops : List KernelOp) (op : KernelOp)
    (dice : List Nat), start.Booted → Run (fun s op s' => op.Step 2 s s') start ops s →
    op.exec 2 (s.rolled dice) ≠ .error .noVictim := by
  intro hall
  have hruns : (runSmall anyStep 1 1 2 [] [.createProcess]).any (fun r =>
      decide (((createSegment 0 0 1 .read).exec 2 (r.2.rolled [])).map (fun _ => ()) =
        .error .noVictim)) = true := by
    decide +kernel
  obtain ⟨⟨start, s⟩, hr, hcheck⟩ := (Option.any_eq_true _ _).mp hruns
  obtain ⟨hstart, hrun⟩ := runSmall_run hr
  refine hall start s _ (createSegment 0 0 1 .read) [] (smallKernel_booted hstart)
    (hrun.weaken fun _ _ _ h => h.2) ?_
  simp only [decide_eq_true_eq] at hcheck
  cases hexec : (createSegment 0 0 1 .read).exec 2 (s.rolled []) with
  | error halt =>
      rw [hexec] at hcheck
      cases hcheck
      rfl
  | ok s' =>
      rw [hexec] at hcheck
      cases hcheck

end KernelOp

end VirtualMemory
