import VirtualMemory.PrivateRuns
import VirtualMemory.SegmentRecords
import VirtualMemory.SharedFaults

/-!
# Faults outside every segment

`page_fault` looks at the flags TBC, Valid and Shared of a descriptor, and not at InSeg.
A descriptor that is in no segment, zeroed or deleted, has none of them, which is what a
page on the disk looks like: it is given a user frame and the contents of the cluster that
its `block_disk` happens to name. From then on it is Valid, and a fault on it does nothing
until the frame is taken from it.

Nothing is asked of the state here: a page that is Valid without a segment around it is not
accounted for, and so no state with such a page is consistent.
-/

namespace VirtualMemory

open Function UserSpace KernelSystem PageTableL2Entry

section Descriptor

variable {D : Type} [DecidableEq D] {s s' : UserSpace D} {victim : Victim} {toIgnore : Option Nat}
  {cluster f : Nat} {owner : D} {b : Bool}

/-- Swapping a page out leaves every descriptor where it is, in a segment or not. -/
theorem usSwapOut_inseg (hout : s.usSwapOut victim = .ok s') (a : D) :
    (s'.mem a).getInseg = (s.mem a).getInseg := by
  unfold usSwapOut at hout
  obtain ⟨⟨cn, s₁⟩, hwrite, hrest⟩ := Outcome.bind_ok hout
  have hmem : s₁.mem = s.mem := by
    unfold usWriteBack at hwrite
    split at hwrite
    · split at hwrite
      · cases hwrite
      · rename_i hacquire
        obtain ⟨_, rfl⟩ := dvtAcquireCluster_some hacquire
        cases hwrite
        rfl
    · split at hwrite <;>
      · cases hwrite
        rfl
  dsimp only at hrest
  split at hrest
  · split at hrest
    · cases hrest
    · rename_i pte _
      cases hrest
      by_cases ha : a = pte
      · subst a
        simp [usFreePage, setPte, swappedOut, hmem]
      · simp [usFreePage, setPte, update_of_ne ha, hmem]
  · cases hrest

theorem usTakePage_inseg (htake : s.usTakePage toIgnore = .ok (f, s')) (a : D) :
    (s'.mem a).getInseg = (s.mem a).getInseg := by
  have hget : ∀ {t t' : UserSpace D}, t.lstGetEmptyPage = some (f, t') → t'.mem = t.mem := by
    intro t t' hget
    unfold lstGetEmptyPage at hget
    split at hget
    · cases hget
    · cases hget
      rfl
  unfold usTakePage at htake
  split at htake
  · rename_i hfree
    cases htake
    rw [hget hfree]
  · obtain ⟨⟨victim, s₁⟩, hvictim, hrest⟩ := Outcome.bind_ok htake
    obtain ⟨s₂, hout, hrest⟩ := Outcome.bind_ok hrest
    have hrolled : s₁.mem = s.mem := by
      unfold usGetVictim at hvictim
      split at hvictim
      · cases hvictim
      · cases hvictim
        rfl
    split at hrest
    · rename_i hfree
      cases hrest
      rw [hget hfree, usSwapOut_inseg hout, hrolled]
    · cases hrest

/-- A page that is requested is brought in without a look at where its descriptor is. -/
theorem usRequestPage_inseg (hrequest : s.usRequestPage .usUserPage owner cluster b = .ok (f, s'))
    (a : D) : (s'.mem a).getInseg = (s.mem a).getInseg := by
  unfold usRequestPage usAcquirePage at hrequest
  obtain ⟨⟨g, u⟩, hacquire, hret⟩ := Outcome.bind_ok hrequest
  obtain ⟨⟨g', t⟩, htake, hacquire⟩ := Outcome.bind_ok hacquire
  cases hacquire
  cases hret
  rw [← usTakePage_inseg htake a]
  by_cases hnull : cluster = nullCluster <;> cases b <;>
    simp [hnull, setOrigin, usFtUpdate, diskGet]

/-- A fault makes a descriptor valid that is not, and leaves a valid one alone. -/
theorem faultPage_marks {a : D} (hfault : s.faultPage a = .ok s') :
    (s'.mem a).getInseg = (s.mem a).getInseg ∧ (s'.mem a).getValid = true ∧
      ((s.mem a).getTbc = true → (s'.mem a).getTbc = false) ∧
      ((s.mem a).getValid = true → (s.mem a).getTbc = false → s' = s) := by
  unfold faultPage at hfault
  split at hfault
  · rename_i htbc
    obtain ⟨⟨f, u⟩, hrequest, hret⟩ := Outcome.bind_ok hfault
    cases hret
    refine ⟨?_, by simp [setPte], fun _ => by simp [setPte], fun _ hnot => ?_⟩
    · simpa [setPte] using usRequestPage_inseg hrequest a
    · cases htbc.symm.trans hnot
  · rename_i htbc
    split at hfault
    · rename_i hvalid
      obtain ⟨⟨f, u⟩, hrequest, hret⟩ := Outcome.bind_ok hfault
      cases hret
      refine ⟨?_, by simp [setPte], fun h => absurd h htbc, fun h => ?_⟩
      · simpa [setPte] using usRequestPage_inseg hrequest a
      · simp [h] at hvalid
    · rename_i hvalid
      cases hfault
      exact ⟨rfl, by simpa using hvalid, fun h => absurd h htbc, fun _ _ => rfl⟩

end Descriptor

namespace KernelSystem

variable {s s₁ s' : KernelSystem} {depth h addr : Nat} {a : KAddr}

/-- The page has a page table, and is in no segment, private or shared. -/
def Outside (s : KernelSystem) (v : LPage) : Prop :=
  ∃ e, s.descriptor v = some e ∧ e.getInseg = false ∧ e.getShared = false

instance (s : KernelSystem) (v : LPage) : Decidable (s.Outside v) :=
  decidable_of_iff ((s.descriptor v).any (fun e => !e.getInseg && !e.getShared) = true) <| by
    simp [Outside, Option.any_eq_true]

/-- What a fault on a page that is in no segment should do once it has the page table: no
descriptor that is in no segment becomes valid, no user frame is given away and no cluster is
read or taken, and all tables and pages are what they were. -/
structure MapsNothing (s s' : KernelSystem) : Prop where
  unmapped : ∀ a, (s'.mem a).getInseg = false → (s.mem a).getValid = false →
    (s'.mem a).getValid = false
  tables : s'.mem = s.mem
  frames : s'.usEmpty = s.usEmpty ∧ s'.usFt = s.usFt ∧ s'.userspc = s.userspc
  clusters : s'.dvt = s.dvt ∧ s'.ot = s.ot ∧ s'.disk = s.disk
  others : ∀ v, s.Undisturbed s' v

/-- `page_fault` goes on from the descriptor that it comes to. -/
theorem pageFault_of_table (htable : s.faultTable h addr = .ok (a, s₁))
    (hfault : pageFault depth s h addr = .ok s') :
    ∃ d mt s₂, depth = d + 1 ∧ s₁.faultEntry (pageFault d) addr a = .ok s₂ ∧
      s' = s₂.pageUnlock mt := by
  cases depth with
  | zero => cases hfault
  | succ d =>
      unfold pageFault at hfault
      obtain ⟨⟨mt, s₀⟩, hlock, hfault⟩ := Outcome.bind_ok hfault
      simp only [faultTable, hlock, Outcome.ok_bind] at htable hfault
      obtain ⟨ptl1, hptl1, hfault⟩ := Outcome.bind_ok hfault
      obtain ⟨ptl1e, hderef, hfault⟩ := Outcome.bind_ok hfault
      simp only [hptl1, Outcome.ok_bind, hderef] at htable
      split at hfault
      · cases hfault
      · rename_i hused
        rw [if_neg hused] at htable
        simp only [htable, Outcome.ok_bind] at hfault
        obtain ⟨s₂, hentry, hret⟩ := Outcome.bind_ok hfault
        exact ⟨d, mt, s₂, rfl, hentry, (Except.ok.inj hret).symm⟩

theorem mapsNothing_pageUnlock (s : KernelSystem) (mt : Nat) : s.MapsNothing (s.pageUnlock mt) := by
  have huser := pageUnlock_user s mt
  have hentry : ∀ v, (s.pageUnlock mt).entry v = s.entry v := fun v => by
    rw [entry, descriptor_pageUnlock, entry]
  refine ⟨fun a _ hvalid => ?_, by rw [huser], by simp, by simp, fun v => ?_⟩
  · rwa [huser]
  · refine ⟨?_, ?_, fun _ => hentry v⟩
    · rw [hentry v]
      exact .refl _
    · rw [hentry v, huser]

end KernelSystem

/-- A fault that returns, on a page that is in no segment, private or shared, maps nothing just
when the page's descriptor is valid already. -/
theorem stray_fault_maps {s s₁ s' : KernelSystem} {depth h addr : Nat} {a : KAddr}
    (htable : s.faultTable h addr = .ok (a, s₁)) (hinseg : (s₁.mem a).getInseg = false)
    (hshared : (s₁.mem a).getShared = false) (hfault : pageFault depth s h addr = .ok s') :
    s₁.MapsNothing s' ↔ (s₁.mem a).getValid = true ∧ (s₁.mem a).getTbc = false := by
  obtain ⟨d, mt, s₂, rfl, hentry, rfl⟩ := pageFault_of_table htable hfault
  unfold faultEntry at hentry
  rw [if_neg (by simp [hshared])] at hentry
  obtain ⟨us, hus, hret⟩ := Outcome.bind_ok hentry
  cases hret
  obtain ⟨hinseg', hvalid', htbc', hsame⟩ := faultPage_marks hus
  have hmem : ((s₁.withUser us).pageUnlock mt).mem = us.mem := by rw [pageUnlock_user]; rfl
  constructor
  · intro hnothing
    constructor
    · by_contra hnot
      have hinvalid := hnothing.unmapped a (by rw [hmem, hinseg', hinseg]) (by simpa using hnot)
      rw [hmem, hvalid'] at hinvalid
      cases hinvalid
    · by_contra htbc
      have hcleared := htbc' (by simpa using htbc)
      rw [← hmem, hnothing.tables] at hcleared
      exact htbc hcleared
  · rintro ⟨hvalid, htbc⟩
    obtain rfl := hsame hvalid htbc
    exact mapsNothing_pageUnlock s₁ mt

/-- A process with one page, in a kernel with one user frame. -/
def onePage : Option (KernelSystem × KernelSystem) :=
  KernelOp.runSmall KernelOp.settling 1 2 2 [] [.createProcess, .createSegment 0 0 1 .read]

theorem onePage_consistent {start s : KernelSystem} (hmade : onePage = some (start, s)) :
    s.Consistent := by
  have hsizes : onePage.any (fun r => decide (r.1.userspcSize ≤ 65536) &&
      decide (r.1.krnlspcSize ≤ 65536)) = true := by
    decide +kernel
  rw [hmade, Option.any_some, Bool.and_eq_true, decide_eq_true_eq, decide_eq_true_eq] at hsizes
  exact KernelOp.consistent_of_settling hmade hsizes.1 hsizes.2

/-- The page next to the one of the segment is given the frame by a first fault, and a second
one does nothing. -/
theorem stray_fault_maps_twice : ∃ s s₁ s' s₂ s'' : KernelSystem, s.Consistent ∧
    pageFault 1 s 0 1024 = .ok s' ∧ ¬ s₁.MapsNothing s' ∧
      pageFault 1 s' 0 1024 = .ok s'' ∧ s₂.MapsNothing s'' := by
  have hmade : onePage.any (fun r =>
      Outcome.holds (r.2.faultTable 0 1024) (fun found =>
        !(found.2.mem found.1).getInseg && !(found.2.mem found.1).getShared &&
          !(found.2.mem found.1).getValid) &&
      Outcome.holds (pageFault 1 r.2 0 1024) fun s' =>
        Outcome.holds (s'.faultTable 0 1024) (fun found =>
          !(found.2.mem found.1).getInseg && !(found.2.mem found.1).getShared &&
            (found.2.mem found.1).getValid && !(found.2.mem found.1).getTbc) &&
        Outcome.holds (pageFault 1 s' 0 1024) fun _ => true) = true := by
    decide +kernel
  obtain ⟨⟨start, s⟩, hr, hcheck⟩ := (Option.any_eq_true _ _).mp hmade
  rw [Bool.and_eq_true] at hcheck
  obtain ⟨htable, hfault⟩ := hcheck
  obtain ⟨⟨a, s₁⟩, htable, hfirst⟩ := Outcome.of_holds htable
  obtain ⟨s', hfault, hagain⟩ := Outcome.of_holds hfault
  rw [Bool.and_eq_true] at hagain
  obtain ⟨htable', hfault'⟩ := hagain
  obtain ⟨⟨a', s₂⟩, htable', hsecond⟩ := Outcome.of_holds htable'
  obtain ⟨s'', hfault', -⟩ := Outcome.of_holds hfault'
  simp only [Bool.and_eq_true, Bool.not_eq_true'] at hfirst hsecond
  refine ⟨s, s₁, s', s₂, s'', onePage_consistent hr, hfault, fun hnothing => ?_, hfault', ?_⟩
  · have hvalid := ((stray_fault_maps htable hfirst.1.1 hfirst.1.2 hfault).mp hnothing).1
    rw [hfirst.2] at hvalid
    cases hvalid
  · exact (stray_fault_maps htable' hsecond.1.1.1 hsecond.1.1.2 hfault').mpr
      ⟨hsecond.1.2, hsecond.2⟩

/-- The page next to the one of the segment becomes valid, with no segment around it. -/
theorem stray_fault_not_nothing : ¬ ∀ (s s₁ s' : KernelSystem) (depth h addr : Nat) (a : KAddr),
    s.Consistent → s.HasMaster h → s.Outside (pageOf h addr) →
    s.faultTable h addr = .ok (a, s₁) → pageFault depth s h addr = .ok s' →
    s₁.MapsNothing s' := by
  intro hall
  have hmade : onePage.any (fun r => decide (r.2.HasMaster 0) &&
      decide (r.2.Outside (pageOf 0 1024)) &&
        Outcome.holds (r.2.faultTable 0 1024) fun found =>
          !(found.2.mem found.1).getValid &&
          Outcome.holds (pageFault 1 r.2 0 1024) fun s' =>
            !(s'.mem found.1).getInseg && (s'.mem found.1).getValid) = true := by
    decide +kernel
  obtain ⟨⟨start, s⟩, hr, hcheck⟩ := (Option.any_eq_true _ _).mp hmade
  simp only [Bool.and_eq_true, decide_eq_true_eq] at hcheck
  obtain ⟨⟨hmaster, hout⟩, htable⟩ := hcheck
  obtain ⟨⟨a, s₁⟩, htable, hbefore⟩ := Outcome.of_holds htable
  rw [Bool.and_eq_true, Bool.not_eq_true'] at hbefore
  obtain ⟨hinvalid, hfault⟩ := hbefore
  obtain ⟨s', hfault, hafter⟩ := Outcome.of_holds hfault
  rw [Bool.and_eq_true, Bool.not_eq_true'] at hafter
  have hnothing := hall s s₁ s' 1 0 1024 a (onePage_consistent hr) hmaster hout htable hfault
  cases hafter.2.symm.trans (hnothing.unmapped a hafter.1 hinvalid)

end VirtualMemory
