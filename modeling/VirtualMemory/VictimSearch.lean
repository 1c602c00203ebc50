import VirtualMemory.Library.Outcome
import VirtualMemory.KernelSystem
import VirtualMemory.UserPaging

/-!
# The searches for a victim

In user space a search can end where there is a frame besides the one to ignore, in kernel
space where some frame above the reserved ones is unlocked: the scan from a locked frame
goes round all of them, and a master table is only passed over for an unlocked table.
-/

namespace VirtualMemory

open Function UserSpace KernelSystem Outcome

namespace UserSpace

variable {D : Type} {s : UserSpace D} {toIgnore : Option Nat}

theorem otherFrame_none (hsize : 1 ≤ s.userspcSize) : s.otherFrame none = true := by
  simp only [otherFrame, List.any_eq_true, List.mem_range, decide_eq_true_eq]
  exact ⟨0, hsize, nofun⟩

theorem otherFrame_some (hsize : 2 ≤ s.userspcSize) (index : Nat) :
    s.otherFrame (some index) = true := by
  simp only [otherFrame, List.any_eq_true, List.mem_range, decide_eq_true_eq]
  by_cases hzero : index = 0
  · refine ⟨1, hsize, fun h => ?_⟩
    injection h
    omega
  · refine ⟨0, by omega, fun h => ?_⟩
    injection h
    omega

/-- The search for a user victim is stuck where there is no frame to be found. -/
theorem usGetVictim_meets :
    Meets (fun e => e = .noVictim ∧ s.otherFrame toIgnore = true)
      (fun r => r.2.userspcSize = s.userspcSize) (s.usGetVictim toIgnore) := by
  unfold usGetVictim
  split
  · rintro ⟨hhalt, hother⟩
    rw [if_pos hother] at hhalt
    cases hhalt
  · exact rfl

/-- With no roll left, the search that is entered is doomed just where it says so. -/
theorem usGetVictim_doomed (hdice : s.dice = []) (hnone : s.otherFrame toIgnore = false) :
    s.usGetVictim toIgnore = .error .noVictim := by
  unfold usGetVictim
  rw [hdice]
  simp only [rollUser, hnone, Bool.false_eq_true, if_false]

theorem dvtAcquireCluster_size {cn : Nat} {s' : UserSpace D}
    (hacquire : s.dvtAcquireCluster = some (cn, s')) : s'.userspcSize = s.userspcSize := by
  obtain ⟨_, rfl⟩ := dvtAcquireCluster_some hacquire
  rfl

variable [DecidableEq D] {frames : Nat}

theorem usSwapOut_meets (victim : Victim) (hsize : s.userspcSize = frames) :
    Meets (· = .noVictim) (fun s' => s'.userspcSize = frames) (s.usSwapOut victim) := by
  unfold usSwapOut
  refine Meets.bind (P := fun r : Nat × UserSpace D => r.2.userspcSize = frames) ?_
    fun ⟨cn, s⟩ hs => ?_
  · unfold usWriteBack
    split
    · split
      · exact nofun
      · rename_i hacquire
        exact (dvtAcquireCluster_size hacquire).trans hsize
    · split <;> exact hsize
  · dsimp only
    split
    · split
      · exact nofun
      · exact hs
    · exact nofun

/-- A frame can be taken where one is free or one can be found. -/
theorem usAcquirePage_meets {owner : D} (users : Nat) (hsize : s.userspcSize = frames)
    (hother : users ≤ frames → s.otherFrame toIgnore = true) :
    Meets (fun e => e = .noVictim ∧ users ≤ frames) (fun r => r.2.userspcSize = frames)
      (s.usAcquirePage .usUserPage owner toIgnore) := by
  unfold usAcquirePage
  refine Meets.bind (P := fun r : Nat × UserSpace D => r.2.userspcSize = frames) ?_
    fun ⟨_, _⟩ hs => hs
  unfold usTakePage
  split
  · rename_i page s' hempty
    unfold lstGetEmptyPage at hempty
    split at hempty
    · cases hempty
    · cases hempty
      exact hsize
  · refine (usGetVictim_meets.mono (fun e he => ⟨he.1, hother he.2⟩) fun r hr => hr).bind
      fun ⟨victim, s⟩ hs => ?_
    refine ((usSwapOut_meets victim (hs.trans hsize)).mono (fun e he => he.1)
      fun r hr => hr).bind fun s hs => ?_
    unfold lstGetEmptyPage
    cases s.usEmpty with
    | nil => exact nofun
    | cons page rest => exact hs

/-- A user page is asked for, with or without something on the disk. -/
theorem usRequestPage_meets {pte : D} {cluster : Nat} {cloneOverride : Bool}
    (hsize : s.userspcSize = frames) :
    Meets (fun e => e = .noVictim ∧ 1 ≤ frames) (fun r => r.2.userspcSize = frames)
      (s.usRequestPage .usUserPage pte cluster cloneOverride) := by
  unfold usRequestPage
  refine (usAcquirePage_meets 1 hsize fun h => otherFrame_none (hsize ▸ h)).bind
    fun ⟨ordinal, s⟩ hs => ?_
  dsimp only
  split <;> split <;> exact hs

theorem faultPage_meets (pte : D) (hsize : s.userspcSize = frames) :
    Meets (fun e => e = .noVictim ∧ 1 ≤ frames) (fun s' => s'.userspcSize = frames)
      (s.faultPage pte) := by
  unfold faultPage
  split
  · exact (usRequestPage_meets hsize).bind fun ⟨_, _⟩ hs => hs
  · split
    · exact (usRequestPage_meets hsize).bind fun ⟨_, _⟩ hs => hs
    · exact hsize

theorem loadPage_meets (pte : D) (accType : AccessType) (content : Page)
    (hsize : s.userspcSize = frames) :
    Meets (fun e => e = .noVictim ∧ 1 ≤ frames) (fun s' => s'.userspcSize = frames)
      (s.loadPage pte accType content) := by
  unfold loadPage usLoadPage
  refine Meets.bind (P := fun r : Nat × UserSpace D => r.2.userspcSize = frames) ?_
    fun ⟨_, _⟩ hs => hs
  exact (usAcquirePage_meets 1 hsize fun h => otherFrame_none (hsize ▸ h)).bind
    fun ⟨_, _⟩ hs => hs

/-- A clone of a page that is in memory needs a second frame. -/
theorem clonePage_meets (pte src : D) (hsize : s.userspcSize = frames) :
    Meets (fun e => e = .noVictim ∧ 2 ≤ frames) (fun s' => s'.userspcSize = frames)
      (s.clonePage pte src) := by
  unfold clonePage
  have hset : (s.setPte pte (s.mem src)).userspcSize = frames := hsize
  refine Meets.bind (P := fun r : Nat × UserSpace D => r.2.userspcSize = frames) ?_
    fun ⟨_, _⟩ hs => hs
  unfold copyOfPage
  split
  · exact (usRequestPage_meets hset).mono (fun e (he : e = .noVictim ∧ 2 ≤ frames) =>
      ⟨he.1, Nat.le_of_succ_le he.2⟩) fun r hr => hr
  · unfold usClonePage
    exact (usAcquirePage_meets 2 hset fun h => otherFrame_some (hset ▸ h) _).bind
      fun ⟨_, _⟩ hs => hs

theorem releasePage_meets (pte : D) (hsize : s.userspcSize = frames) :
    Meets (· = .noVictim) (fun s' => s'.userspcSize = frames) (s.releasePage pte) := by
  unfold releasePage
  refine Meets.bind (P := fun s' : UserSpace D => s'.userspcSize = frames) ?_ fun _ hs => hs
  unfold relinquishHeld
  split
  · unfold usRelinquishPage
    split <;> exact hsize
  · split
    · exact hsize
    · unfold relinquishCluster
      split
      · exact nofun
      · exact hsize

end UserSpace

namespace KernelSystem

variable {s : KernelSystem} {place f n : Nat}

theorem passOn_unlocked (hplace : (s.ksFt place).getLocked = false) :
    (s.ksFt (s.passOn place)).getLocked = false := by
  unfold passOn
  split
  · split
    · rename_i i hfound
      have hi := List.find?_some hfound
      simp only [Bool.and_eq_true, Bool.not_eq_true'] at hi
      exact hi.2
    · exact hplace
  · exact hplace

/-- A place that is passed over for another one is passed over for an unlocked one. -/
theorem passOn_of_locked (hlocked : (s.ksFt (s.passOn place)).getLocked = true) :
    s.passOn place = place := by
  unfold passOn at hlocked ⊢
  split
  · rename_i htype
    rw [if_pos htype] at hlocked
    split
    · rename_i i hfound
      have hi := List.find?_some hfound
      simp only [Bool.and_eq_true, Bool.not_eq_true'] at hi
      simp only [hfound] at hlocked
      rw [hi.2] at hlocked
      cases hlocked
    · rfl
  · rfl

/-- The place after a place, round the unreserved frames. -/
def nextPlace (s : KernelSystem) (place : Nat) : Nat :=
  if s.krnlspcSize ≤ place + 1 then s.ksReserved else place + 1

theorem findUnlocked_none (hnone : s.findUnlocked (n + 1) place = none) :
    (s.ksFt (s.nextPlace place)).getLocked = true ∧
      s.findUnlocked n (s.nextPlace place) = none := by
  have hnext : (if s.krnlspcSize ≤ place + 1 then s.ksReserved else place + 1) =
      s.nextPlace place := rfl
  simp only [findUnlocked, hnext] at hnone
  split at hnone
  · exact ⟨‹_›, hnone⟩
  · rename_i hopen
    simp only [Bool.not_eq_true] at hopen
    split at hnone
    · rw [if_neg] at hnone
      · cases hnone
      · simp only [Bool.not_eq_true]
        exact passOn_unlocked hopen
    · cases hnone

/-- A scan that finds nothing in `n` places has seen a frame that is at most `n` places
ahead of it. -/
theorem findUnlocked_ahead : ∀ {n place : Nat}, s.findUnlocked n place = none →
    place < f → f < s.krnlspcSize → f ≤ place + n → (s.ksFt f).getLocked = true
  | 0, place, _, hlt, _, hle => absurd hlt (by omega)
  | n + 1, place, hnone, hlt, hf, hle => by
      obtain ⟨hlocked, hrest⟩ := findUnlocked_none hnone
      have hnext : s.nextPlace place = place + 1 := if_neg (by omega)
      rw [hnext] at hlocked hrest
      by_cases heq : f = place + 1
      · rw [heq]
        exact hlocked
      · exact findUnlocked_ahead hrest (by omega) hf (by omega)

/-- It has also seen one that it comes to after the end of kernel space. -/
theorem findUnlocked_behind : ∀ {n place : Nat}, s.findUnlocked n place = none →
    place < s.krnlspcSize → s.ksReserved ≤ f → f < s.krnlspcSize →
    s.krnlspcSize + f ≤ place + s.ksReserved + n → (s.ksFt f).getLocked = true
  | 0, place, _, hplace, _, _, hle => absurd hle (by omega)
  | n + 1, place, hnone, hplace, hres, hf, hle => by
      obtain ⟨hlocked, hrest⟩ := findUnlocked_none hnone
      by_cases hend : s.krnlspcSize ≤ place + 1
      · rw [nextPlace, if_pos hend] at hlocked hrest
        by_cases heq : f = s.ksReserved
        · rw [heq]
          exact hlocked
        · exact findUnlocked_ahead hrest (by omega) hf (by omega)
      · rw [nextPlace, if_neg hend] at hrest
        exact findUnlocked_behind hrest (by omega) hres hf (by omega)

/-- A whole round from any unreserved place comes to every unlocked frame. -/
theorem findUnlocked_isSome (hopen : s.unlockedFrame = true) (hlt : place < s.krnlspcSize) :
    s.findUnlocked s.krnlspcSize place ≠ none := by
  intro hnone
  simp only [unlockedFrame, List.any_eq_true, List.mem_range, Bool.and_eq_true,
    decide_eq_true_eq, Bool.not_eq_true'] at hopen
  obtain ⟨f, hf, hres, hopen⟩ := hopen
  have hlocked : (s.ksFt f).getLocked = true := by
    by_cases hahead : place < f
    · exact findUnlocked_ahead hnone hahead hf (by omega)
    · exact findUnlocked_behind hnone hlt hres hf (by omega)
  rw [hopen] at hlocked
  cases hlocked

theorem pool_of_unlocked (hopen : s.unlockedFrame = true) : s.ksReserved < s.krnlspcSize := by
  simp only [unlockedFrame, List.any_eq_true, List.mem_range, Bool.and_eq_true,
    decide_eq_true_eq] at hopen
  obtain ⟨f, hf, hres, _⟩ := hopen
  omega

/-- `ks_get_victim` finds a victim, or has not been given enough rolls. -/
theorem ksGetVictim_finds (hopen : s.unlockedFrame = true) :
    s.ksGetVictim ≠ .error .noVictim := by
  unfold ksGetVictim
  split
  · rw [if_pos hopen]
    exact nofun
  · rename_i roll dice hdice
    dsimp only
    have hpool := pool_of_unlocked hopen
    split
    · rename_i hlocked
      rw [passOn_of_locked hlocked]
      split
      · rename_i hnone
        have hmod := Nat.mod_lt roll (Nat.sub_pos_of_lt hpool)
        refine absurd hnone (findUnlocked_isSome hopen ?_)
        change s.ksReserved + roll % (s.krnlspcSize - s.ksReserved) < s.krnlspcSize
        omega
      · exact nofun
    · exact nofun

/-- With a roll left, the search ends. -/
theorem ksGetVictim_error {halt : Halt} (hdice : s.dice ≠ [])
    (hvictim : s.ksGetVictim = .error halt) : halt = .noVictim := by
  unfold ksGetVictim at hvictim
  split at hvictim
  · exact absurd ‹s.dice = []› hdice
  · dsimp only at hvictim
    split at hvictim
    · split at hvictim
      · exact (Except.error.inj hvictim).symm
      · cases hvictim
    · cases hvictim

/-- Likewise in kernel space. -/
theorem ksGetVictim_doomed (hdice : s.dice = []) (hlocked : s.unlockedFrame = false) :
    s.ksGetVictim = .error .noVictim := by
  unfold ksGetVictim
  rw [hdice]
  simp only [hlocked, Bool.false_eq_true, if_false]

end KernelSystem

end VirtualMemory
