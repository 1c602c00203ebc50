import VirtualMemory.AddressSpace
import VirtualMemory.Faults
import VirtualMemory.KernelRuns

/-!
# Locks on kernel frames

Operations of several threads lock the frames of the tables they work on, and unlock them
again. The lock is one bit of the frame table, whoever set it. A state keeps, apart from
the kernel, the frames that the operation of each thread has locked and not unlocked yet,
the newest first: the unlockers of an operation go in that order.

The atomic steps are the locking of a resident master table, the locking of a page table
(which fetches or makes it where it is not in memory), the fetch of a page table by a
fault, the unlocking of a frame, and an eviction, for which the free list is empty. The
random engine may produce any values at any time.
-/

namespace VirtualMemory

open Function KernelSystem

/-- `ks_get_victim` followed by `ks_swap_out`. -/
def KernelSystem.evictVictim (s : KernelSystem) : Except Halt (Victim × KernelSystem) := do
  let (victim, s) ← s.ksGetVictim
  let s ← ksSwapOut s.stackDepth s victim
  .ok (victim, s)

structure LockState where
  kernel : KernelSystem
  held : Nat → List Nat

inductive LockEvent where
  | engine (dice : List Nat)
  | lockMaster (thread h : Nat)
  | lockTable (thread h addr : Nat)
  | fetchTable (thread h addr : Nat)
  | unlock (thread : Nat)
  | evict
  deriving DecidableEq, Repr

namespace LockState

/-- The operation of a thread has locked a frame. -/
def acquired (s : LockState) (thread : Nat) (r : Nat × KernelSystem) : LockState where
  kernel := r.2
  held := update s.held thread (r.1 :: s.held thread)

@[simp] theorem acquired_kernel (s : LockState) (thread : Nat) (r : Nat × KernelSystem) :
    (s.acquired thread r).kernel = r.2 := rfl

@[simp] theorem acquired_held_self (s : LockState) (thread : Nat) (r : Nat × KernelSystem) :
    (s.acquired thread r).held thread = r.1 :: s.held thread := update_self ..

@[simp] theorem acquired_held_of_ne (s : LockState) {thread thread' : Nat}
    (r : Nat × KernelSystem) (hne : thread' ≠ thread) :
    (s.acquired thread r).held thread' = s.held thread' := update_of_ne hne ..

/-- The frame that `master_table_lock` locks where it need not swap in. -/
def lockMaster (s : KernelSystem) (h : Nat) : Except Halt (Nat × KernelSystem) := do
  let p ← s.pcb h
  if p.masterTableValid then s.masterTableLock h else .error .stillSearching

/-- `page_table_lock`, and the making of a missing page table. -/
def lockTable (s : KernelSystem) (h addr : Nat) : Except Halt (Nat × KernelSystem) := do
  let ptl1e ← deref (← s.accessPtl1 h addr)
  s.lockPtl2 h addr ptl1e

/-- The loop of `page_fault`. -/
def fetchTable (s : KernelSystem) (h addr : Nat) : Except Halt (KAddr × KernelSystem) := do
  let ptl1e ← deref (← s.accessPtl1 h addr)
  s.faultPtl2 h addr ptl1e

/-- One atomic step, if it can be taken. -/
def exec (s : LockState) : LockEvent → Option LockState
  | .engine dice => some { s with kernel := s.kernel.rolled dice }
  | .lockMaster thread h => (lockMaster s.kernel h).toOption.map (s.acquired thread)
  | .lockTable thread h addr => (lockTable s.kernel h addr).toOption.map (s.acquired thread)
  | .fetchTable _ h addr =>
      (fetchTable s.kernel h addr).toOption.map fun r => { s with kernel := r.2 }
  | .unlock thread =>
      match s.held thread with
      | [] => none
      | f :: rest => some ⟨s.kernel.pageUnlock f, update s.held thread rest⟩
  | .evict =>
      if s.kernel.ksEmpty = [] then
        s.kernel.evictVictim.toOption.map fun r => { s with kernel := r.2 }
      else none

def Step (s : LockState) (e : LockEvent) (s' : LockState) : Prop := s.exec e = some s'

/-- No frame that an operation has locked would be chosen by an eviction, or swapped out
with the frame that is chosen, whatever the random engine produces. -/
structure Safe (s : LockState) : Prop where
  notChosen : ∀ thread f, f ∈ s.held thread → ∀ dice victim k,
    (s.kernel.rolled dice).ksGetVictim = .ok (victim, k) → victim.ordinal ≠ f
  notSwapped : ∀ thread f, f ∈ s.held thread → s.kernel.ksEmpty = [] → ∀ dice victim k,
    (s.kernel.rolled dice).evictVictim = .ok (victim, k) → f ∉ k.ksEmpty

/-- The operation of a thread has locked the master table of a process. -/
def Owns (s : LockState) (thread h : Nat) : Prop :=
  ∃ p, s.kernel.pcbs h = some p ∧ p.masterTableValid = true ∧ p.masterTable ∈ s.held thread

/-- Page tables are locked and fetched under the lock of their master table, and an
unlocked frame was locked once. -/
def Careful (s : LockState) : LockEvent → Prop
  | .lockTable thread h _ | .fetchTable thread h _ => s.Owns thread h
  | .unlock thread => ∀ f rest, s.held thread = f :: rest →
      f ∉ rest ∧ ∀ thread', thread' ≠ thread → f ∉ s.held thread'
  | _ => True

/-- Each frame in a list of locked frames is locked and houses a table; a page table's
master table was locked before it. -/
def Guarded (g : Layout) (s : KernelSystem) : List Nat → Prop
  | [] => True
  | f :: rest => (∃ t, LockedIn g s t f ∧
      ∀ h slot, t = .table h slot → ∃ m ∈ rest, g.place (.master h) = .frame m) ∧ Guarded g s rest

section

variable {g g' : Layout} {s s' : KernelSystem} {held : List Nat} {f : Nat}

theorem Guarded.locked (hheld : Guarded g s held) (hf : f ∈ held) :
    (s.ksFt f).getLocked = true := by
  induction held with
  | nil => cases hf
  | cons f' rest ih =>
      obtain ⟨⟨t, ht, _⟩, hrest⟩ := hheld
      obtain rfl | hf := List.mem_cons.mp hf
      · exact ht.2
      · exact ih hrest hf

theorem Guarded.pinned (hheld : Guarded g s held) (hf : f ∈ held) : ∃ t, Pinned g s t f := by
  induction held with
  | nil => cases hf
  | cons f' rest ih =>
      obtain ⟨⟨t, ht, hmaster⟩, hrest⟩ := hheld
      obtain rfl | hf := List.mem_cons.mp hf
      · cases t with
        | master h => exact ⟨.master h, ht⟩
        | table h slot =>
            obtain ⟨m, hm, hplace⟩ := hmaster h slot rfl
            exact ⟨.table h slot, ht, m, hplace, hrest.locked hm⟩
      · exact ih hrest hf

/-- What moves no pinned table leaves the locked frames as they are. -/
theorem Guarded.carry (hheld : Guarded g s held) (hpaged : OnlyPaged g s g' s') :
    Guarded g' s' held := by
  induction held with
  | nil => exact trivial
  | cons f rest ih =>
      obtain ⟨⟨t, ht, hmaster⟩, hrest⟩ := hheld
      refine ⟨⟨t, ?_, ?_⟩, ih hrest⟩
      · cases t with
        | master h => exact hpaged.stay (.master h) f id ht
        | table h slot =>
            obtain ⟨m, hm, hplace⟩ := hmaster h slot rfl
            exact (hpaged.stay (.table h slot) f id ⟨ht, m, hplace, hrest.locked hm⟩).1
      · intro h slot heq
        obtain ⟨m, hm, hplace⟩ := hmaster h slot heq
        exact ⟨m, hm, (hpaged.stay (.master h) m id ⟨hplace, hrest.locked hm⟩).1⟩

/-- Unlocking a frame that is not in the list. -/
theorem Guarded.unlock (hheld : Guarded g s held) (hf : f ∉ held) :
    Guarded g (s.pageUnlock f) held := by
  induction held with
  | nil => exact trivial
  | cons f' rest ih =>
      obtain ⟨⟨t, ⟨hplace, hlocked⟩, hmaster⟩, hrest⟩ := hheld
      rw [List.mem_cons, not_or] at hf
      refine ⟨⟨t, ⟨hplace, ?_⟩, hmaster⟩, ih hrest hf.2⟩
      unfold pageUnlock
      split
      · exact hlocked
      · simpa [ksUnlockPage, Ne.symm hf.1] using hlocked

theorem Guarded.head (hheld : Guarded g s (f :: held)) : ∃ t, g.place t = .frame f := by
  obtain ⟨⟨t, ht, _⟩, _⟩ := hheld
  exact ⟨t, ht.1⟩

end

structure LockInv (g : Layout) (s : LockState) : Prop where
  inv : KernelInv g noHand noHand s.kernel
  sound : g.Sound
  guarded : ∀ thread, Guarded g s.kernel (s.held thread)

namespace LockInv

variable {g g' : Layout} {s s' : LockState} {k : KernelSystem} {thread h addr f : Nat}

theorem pinned (hlocks : LockInv g s) (hf : f ∈ s.held thread) : ∃ t, Pinned g s.kernel t f :=
  (hlocks.guarded thread).pinned hf

/-- A step that moves no pinned table and locks nothing. -/
theorem carry (hlocks : LockInv g s) (hinv : KernelInv g' noHand noHand k)
    (hpaged : OnlyPaged g s.kernel g' k) : LockInv g' { s with kernel := k } :=
  ⟨hinv, hpaged.sound hlocks.sound, fun thread => (hlocks.guarded thread).carry hpaged⟩

/-- A step that locks a frame as well. -/
theorem acquired {t : KTable} (hlocks : LockInv g s) (hinv : KernelInv g' noHand noHand k)
    (hpaged : OnlyPaged g s.kernel g' k) (hlocked : LockedIn g' k t f)
    (hmaster : ∀ h slot, t = .table h slot → ∃ m ∈ s.held thread, g'.place (.master h) = .frame m) :
    LockInv g' (s.acquired thread (f, k)) := by
  have hcarried := hlocks.carry hinv hpaged
  refine ⟨hinv, hcarried.sound, fun thread' => ?_⟩
  by_cases hthread : thread' = thread
  · subst thread'
    rw [acquired_held_self]
    exact ⟨⟨t, hlocked, hmaster⟩, hcarried.guarded thread⟩
  · rw [acquired_held_of_ne _ _ hthread]
    exact hcarried.guarded thread'

/-- The master table of a process whose operation has locked it. -/
theorem working (hlocks : LockInv g s) (howns : s.Owns thread h) :
    ∃ m ∈ s.held thread, Working g h m s.kernel := by
  obtain ⟨p, hp, hvalid, hheld⟩ := howns
  obtain ⟨m, hm⟩ := hlocks.inv.hasMaster_iff.mp ⟨p, hp, hvalid⟩
  obtain ⟨q, _, hq, hat⟩ := hlocks.inv.pcb_ok hm
  rw [hp] at hq
  cases hq
  rw [hat.masterTable] at hheld
  exact ⟨m, hheld, hlocks.inv, hlocks.sound, hm, (hlocks.guarded thread).locked hheld⟩

theorem rolled (hlocks : LockInv g s) (dice : List Nat) :
    LockInv g { s with kernel := s.kernel.rolled dice } :=
  hlocks.carry (hlocks.inv.diced dice)
    ⟨fun _ _ => ⟨.inl rfl, rfl⟩, fun t _ _ hpin => by cases t <;> exact hpin, id,
      fun _ _ _ => rfl, fun _ _ hnone => ⟨hnone, fun _ => rfl⟩,
      fun _ _ haway => ⟨haway, fun _ => rfl⟩⟩

/-- An eviction leaves every locked frame where it is. -/
theorem evictVictim (hlocks : LockInv g s) (thread : Nat) (hempty : s.kernel.ksEmpty = [])
    {victim : Victim}
    (hevict : s.kernel.evictVictim = .ok (victim, k)) :
    ∃ g', LockInv g' { s with kernel := k } ∧ ∀ f, f ∈ s.held thread → f ∉ k.ksEmpty := by
  obtain ⟨⟨victim', k₀⟩, hvictim, hrest⟩ := Outcome.bind_ok hevict
  obtain ⟨k₁, hswap, hret⟩ := Outcome.bind_ok hrest
  cases hret
  obtain ⟨hunlocked, hnull, dice, rfl⟩ := KernelInv.ksGetVictim_ok hvictim
  have hdiced := hlocks.rolled dice
  obtain ⟨g', hinv', hevicted, hfree, _⟩ :=
    hdiced.inv.ksSwapOut_victim hempty hunlocked hnull hswap
  have hlocks' := hdiced.carry hinv' (.of_evicted hevicted hfree)
  refine ⟨g', hlocks', fun f hf => ?_⟩
  obtain ⟨t, ht⟩ := hlocks'.pinned hf
  exact hinv'.frames.not_free (r := .table t) ht.place

theorem unlock {rest : List Nat} (hlocks : LockInv g s) (hheld : s.held thread = f :: rest)
    (honce : f ∉ rest) (halone : ∀ thread', thread' ≠ thread → f ∉ s.held thread') :
    LockInv g ⟨s.kernel.pageUnlock f, update s.held thread rest⟩ := by
  have hthread := hlocks.guarded thread
  rw [hheld] at hthread
  obtain ⟨t, ht⟩ := hthread.head
  refine ⟨(hlocks.inv.pageUnlock_inv ht).1, hlocks.sound, fun thread' => ?_⟩
  by_cases hsame : thread' = thread
  · subst thread'
    simp only [update_self]
    exact hthread.2.unlock honce
  · simp only [update_of_ne hsame]
    exact (hlocks.guarded thread').unlock (halone thread' hsame)

/-- One careful step. -/
theorem step {e : LockEvent} (hlocks : LockInv g s) (hcareful : s.Careful e)
    (hstep : s.Step e s') : ∃ g', LockInv g' s' := by
  unfold Step exec at hstep
  cases e with
  | engine dice =>
      cases hstep
      exact ⟨g, hlocks.rolled dice⟩
  | lockMaster thread h =>
      obtain ⟨⟨f, k⟩, hlock, rfl⟩ := Option.map_eq_some_iff.mp hstep
      obtain ⟨p, hp, hlock⟩ := Outcome.bind_ok (Outcome.toOption_ok hlock)
      split at hlock
      · rename_i hvalid
        obtain ⟨m, hm⟩ := hlocks.inv.hasMaster_iff.mp ⟨p, pcb_eq_ok.mp hp, hvalid⟩
        rw [hlocks.inv.masterTableLock_ok hm] at hlock
        cases hlock
        obtain ⟨hinv', hpaged, _⟩ := hlocks.inv.ksLockPage_inv f
        exact ⟨g, hlocks.acquired (t := .master h) hinv' hpaged ⟨hm, by simp [ksLockPage]⟩ nofun⟩
      · cases hlock
  | lockTable thread h addr =>
      obtain ⟨m, hheld, hwork⟩ := hlocks.working hcareful
      obtain ⟨⟨f, k⟩, hlock, rfl⟩ := Option.map_eq_some_iff.mp hstep
      have hlock := Outcome.toOption_ok hlock
      simp only [lockTable, hwork.inv.accessPtl1_eq hwork.master.1, deref,
        Outcome.ok_bind] at hlock
      obtain ⟨g', hinv', hpaged, _, hin⟩ := hwork.inv.lockPtl2_inv hwork.sound hwork.master hlock
      refine ⟨g', hlocks.acquired hinv' hpaged ⟨hin.table, hin.locked⟩ ?_⟩
      rintro h' slot' heq
      cases heq
      exact ⟨m, hheld, hin.master.1⟩
  | fetchTable thread h addr =>
      obtain ⟨m, _, hwork⟩ := hlocks.working hcareful
      obtain ⟨⟨ptl2e, k⟩, hfetch, rfl⟩ := Option.map_eq_some_iff.mp hstep
      have hfetch := Outcome.toOption_ok hfetch
      simp only [fetchTable, hwork.inv.accessPtl1_eq hwork.master.1, deref,
        Outcome.ok_bind] at hfetch
      obtain ⟨g', _, hwork', hpaged, _⟩ := hwork.faultPtl2_ok hfetch
      exact ⟨g', hlocks.carry hwork'.inv hpaged⟩
  | unlock thread =>
      simp only at hstep
      split at hstep
      · cases hstep
      · rename_i f rest hheld
        cases hstep
        obtain ⟨honce, halone⟩ := hcareful f rest hheld
        exact ⟨g, hlocks.unlock hheld honce halone⟩
  | evict =>
      simp only at hstep
      split at hstep
      · rename_i hempty
        obtain ⟨⟨victim, k⟩, hevict, rfl⟩ := Option.map_eq_some_iff.mp hstep
        obtain ⟨g', hlocks', _⟩ := hlocks.evictVictim 0 hempty (Outcome.toOption_ok hevict)
        exact ⟨g', hlocks'⟩
      · cases hstep

theorem safe (hlocks : LockInv g s) : s.Safe := by
  constructor
  · rintro thread f hf dice victim k hvictim rfl
    obtain ⟨hunlocked, _⟩ := KernelInv.ksGetVictim_ok hvictim
    have hlocked := (hlocks.guarded thread).locked hf
    rw [show (s.kernel.rolled dice).ksFt = s.kernel.ksFt from rfl, hlocked] at hunlocked
    cases hunlocked
  · intro thread f hf hempty dice victim k hevict
    obtain ⟨_, _, hstays⟩ := (hlocks.rolled dice).evictVictim thread hempty hevict
    exact hstays f hf

end LockInv

/-- In a run of careful steps from a consistent state in which no operation has locked a
frame, no locked frame is ever chosen by an eviction or swapped out with a chosen one. -/
theorem locked_frames_stay {start s : LockState} {events : List LockEvent}
    (hstart : start.kernel.Consistent) (hnone : ∀ thread, start.held thread = [])
    (hrun : Run (fun s e s' => s.Careful e ∧ s.Step e s') start events s) : s.Safe := by
  obtain ⟨g, hinv, hsound⟩ := hstart
  have hlocks : ∃ g, LockInv g s := by
    refine hrun.invariant (fun s => ∃ g, LockInv g s) ?_ ⟨g, hinv, hsound, fun thread => ?_⟩
    · rintro s e s' ⟨g, hlocks⟩ ⟨hcareful, hstep⟩
      exact hlocks.step hcareful hstep
    · rw [hnone]
      exact trivial
  obtain ⟨g', hlocks'⟩ := hlocks
  exact hlocks'.safe

/-- A kernel with two processes, whose master tables take all its frames. -/
def twoProcesses : Except Halt KernelSystem := do
  let s ← smallKernel 1 2 2 []
  let (_, s) ← s.createProcess
  let (_, s) ← s.createProcess
  .ok s

theorem twoProcesses_consistent {k : KernelSystem} (hmade : twoProcesses = .ok k) :
    k.Consistent := by
  obtain ⟨s₀, hboot, hrest⟩ := Outcome.bind_ok hmade
  obtain ⟨⟨_, s₁⟩, hfirst, hrest⟩ := Outcome.bind_ok hrest
  obtain ⟨⟨_, s₂⟩, hsecond, hret⟩ := Outcome.bind_ok hrest
  cases hret
  obtain ⟨g₁, _, hinv₁, _, hcarried₁, _⟩ :=
    (boot_inv (by decide) (by decide) hboot).createProcess_inv Layout.sound_none hfirst
  have hsound₁ := hcarried₁.sound Layout.sound_none
  obtain ⟨g₂, _, hinv₂, _, hcarried₂, _⟩ := hinv₁.createProcess_inv hsound₁ hsecond
  exact ⟨g₂, hinv₂, hcarried₂.sound hsound₁⟩

/-- The state in which a run begins, and the one it leads to. -/
def runTwoProcesses (events : List LockEvent) : Option (LockState × LockState) :=
  twoProcesses.toOption.bind fun k =>
    (Run.follow exec ⟨k, fun _ => []⟩ events).map fun s => (⟨k, fun _ => []⟩, s)

theorem runTwoProcesses_run {events : List LockEvent} {start s : LockState}
    (hrun : runTwoProcesses events = some (start, s)) :
    start.kernel.Consistent ∧ (∀ thread, start.held thread = []) ∧
      Run.follow exec start events = some s := by
  obtain ⟨k, hk, hrest⟩ := Option.bind_eq_some_iff.mp hrun
  obtain ⟨s', hs', heq⟩ := Option.map_eq_some_iff.mp hrest
  cases heq
  exact ⟨twoProcesses_consistent (Outcome.toOption_ok hk), fun _ => rfl, hs'⟩

/-- The second process loses its master table while the first one's is locked. -/
theorem locked_frames_stay_twoProcesses : ∃ s : LockState, s.held 1 = [4] ∧
    s.kernel.ksEmpty = [5] ∧ s.Safe := by
  have hruns : (runTwoProcesses [.lockMaster 1 0, .engine [1], .evict]).any (fun r =>
      decide (r.2.held 1 = [4]) && decide (r.2.kernel.ksEmpty = [5])) = true := by
    decide +kernel
  obtain ⟨⟨start, s⟩, hr, hcheck⟩ := (Option.any_eq_true _ _).mp hruns
  simp only [Bool.and_eq_true, decide_eq_true_eq] at hcheck
  obtain ⟨hstart, hnone, hfollow⟩ := runTwoProcesses_run hr
  obtain ⟨s₁, h₁, hrest⟩ := Option.bind_eq_some_iff.mp hfollow
  obtain ⟨s₂, h₂, hrest⟩ := Option.bind_eq_some_iff.mp hrest
  obtain ⟨s₃, h₃, hrest⟩ := Option.bind_eq_some_iff.mp hrest
  cases hrest
  have hrun : Run (fun s e s' => s.Careful e ∧ s.Step e s') start
      [.lockMaster 1 0, .engine [1], .evict] s :=
    .cons ⟨trivial, h₁⟩ (.cons ⟨trivial, h₂⟩ (.cons ⟨trivial, h₃⟩ (.nil s)))
  exact ⟨s, hcheck.1, hcheck.2, locked_frames_stay hstart hnone hrun⟩

/-- Two operations lock one master table, one of them unlocks it, and an eviction chooses
it under the eyes of the other. -/
theorem locked_frame_chosen : ¬ ∀ (start s : LockState) (events : List LockEvent),
    start.kernel.Consistent → (∀ thread, start.held thread = []) → Run Step start events s →
    s.Safe := by
  intro hall
  have hruns : (runTwoProcesses [.lockMaster 1 0, .lockMaster 2 0, .unlock 1]).any (fun r =>
      decide (r.2.held 2 = [4]) &&
        Outcome.holds (r.2.kernel.rolled [0]).ksGetVictim fun v => decide (v.1.ordinal = 4)) =
      true := by
    decide +kernel
  obtain ⟨⟨start, s⟩, hr, hcheck⟩ := (Option.any_eq_true _ _).mp hruns
  simp only [Bool.and_eq_true, decide_eq_true_eq] at hcheck
  obtain ⟨hstart, hnone, hfollow⟩ := runTwoProcesses_run hr
  have hsafe := hall start s _ hstart hnone (Run.of_follow (fun _ _ _ => id) hfollow)
  obtain ⟨⟨victim, k⟩, hvictim, hplace⟩ := Outcome.of_holds hcheck.2
  exact hsafe.notChosen 2 4 (by simp [hcheck.1]) [0] victim k hvictim (of_decide_eq_true hplace)

end LockState

end VirtualMemory
