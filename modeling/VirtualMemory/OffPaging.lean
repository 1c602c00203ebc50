import VirtualMemory.PagingStops
import VirtualMemory.Primitives
import VirtualMemory.SharedSegments

/-!
# What paging leaves alone

Paging moves tables and pages about, and writes to a process object where its master table
is. Whatever does not depend on these stays as it is through every fault and eviction. What
depends neither on the count of segments of a process nor on the users of a shared segment
stays through the calls that make and remove segments too.
-/

namespace VirtualMemory

open Function UserSpace KernelSystem Outcome

/-- A quantity that sees neither memory, nor the disk, nor a frame table, nor of a process
object where its master table is. -/
structure OffPaging {α : Type} (q : KernelSystem → α) : Prop where
  paged : ∀ (s : KernelSystem) us empty ft,
    q { s with toUserSpace := us, ksEmpty := empty, ksFt := ft } = q s
  tables : ∀ (s : KernelSystem) h (p p' : KernelProcess), s.pcbs h = some p → p'.rest = p.rest →
    p'.segCount = p.segCount → q (s.setPcb h p') = q s

/-- A quantity that does not see the counts of segments and the users either. -/
structure OffSegments {α : Type} (q : KernelSystem → α) : Prop where
  paged : ∀ (s : KernelSystem) us empty ft,
    q { s with toUserSpace := us, ksEmpty := empty, ksFt := ft } = q s
  object : ∀ (s : KernelSystem) h (p p' : KernelProcess), s.pcbs h = some p → p'.rest = p.rest →
    q (s.setPcb h p') = q s
  users : ∀ (s : KernelSystem) b sscb users, s.sscbs b = some sscb →
    q (s.setSscb b { sscb with users := users }) = q s

/-- Whenever the computation returns, the quantity has this value. -/
abbrev Fixes {α : Type} (q : KernelSystem → α) (c : α) (x : Except Halt KernelSystem) : Prop :=
  Upholds (q · = c) x

/-- The same of a computation that returns a result with the state. -/
abbrev FixesWith {α β : Type} (q : KernelSystem → α) (c : α)
    (x : Except Halt (β × KernelSystem)) : Prop :=
  UpholdsWith (q · = c) x

namespace OffPaging

variable {α : Type} {q : KernelSystem → α} {c : α} {s s' : KernelSystem} {h : Nat}

theorem withUser (hq : OffPaging q) (s : KernelSystem) (us : UserSpace KAddr) :
    q (s.withUser us) = q s := hq.paged s us s.ksEmpty s.ksFt

theorem setSte (hq : OffPaging q) (s : KernelSystem) (a : KAddr) (e : SegTableEntry) :
    q (s.setSte a e) = q s := hq.withUser s _

theorem frames (hq : OffPaging q) (s : KernelSystem) (empty : List Nat)
    (ft : Nat → FrameTableEntry KsOwner) : q { s with ksEmpty := empty, ksFt := ft } = q s :=
  hq.paged s s.toUserSpace empty ft

theorem pageUnlock (hq : OffPaging q) (s : KernelSystem) (pg : Nat) :
    q (s.pageUnlock pg) = q s := by
  unfold KernelSystem.pageUnlock
  split
  · rfl
  · exact hq.frames s ..

theorem ksLockPage (hq : OffPaging q) (s : KernelSystem) (f : Nat) : q (s.ksLockPage f) = q s :=
  hq.frames s ..

theorem onUser (hq : OffPaging q) (hs : q s = c)
    (op : UserSpace KAddr → Except Halt (UserSpace KAddr)) : Fixes q c (s.onUser op) := by
  unfold KernelSystem.onUser
  cases op s.toUserSpace with
  | error e => exact id
  | ok us => exact meets_ok ((hq.withUser s us).trans hs)

theorem masterTableEvictChildren (hq : OffPaging q)
    {evict : KernelSystem → Nat → Except Halt KernelSystem} (hs : q s = c)
    (hevict : ∀ s f, q s = c → Fixes q c (evict s f)) (h : Nat) :
    Fixes q c (s.masterTableEvictChildren evict h) := by
  refine Meets.foldlM (fun s i hs => ?_) hs
  refine (pcb_meets s h).bind fun p _ => ?_
  refine Meets.bind (P := fun s' => q s' = c) ?_ fun s' hs' => ?_
  · unfold evictPresent
    split
    · exact Meets.bind (hq.onUser hs _) fun s' hs' => hevict s' _ hs'
    · exact hs
  · exact (pcb_meets s' h).bind fun p _ => meets_ok ((hq.withUser s' _).trans hs')

theorem ksSwapOut (hq : OffPaging q) : ∀ (depth : Nat) (s : KernelSystem) (victim : Victim),
    q s = c → Fixes q c (KernelSystem.ksSwapOut depth s victim)
  | 0, _, _, _ => id
  | depth + 1, s, victim, hs => by
      refine Meets.bind (P := fun r : Nat × Bool × KernelSystem => q r.2.2 = c) ?_
        fun ⟨cn, writeBack, s⟩ hs => Meets.bind (P := fun s' => q s' = c) ?_
          fun s' hs' => ?_
      · unfold ksSwapCluster
        split
        · split
          · exact id
          · exact meets_ok ((hq.withUser s _).trans hs)
        · exact hs
      · have hevict : ∀ s f, q s = c →
            Fixes q c (ksEvictWith (KernelSystem.ksSwapOut depth) s f) := by
          intro s f hs
          unfold ksEvictWith
          split
          · exact id
          · exact hq.ksSwapOut depth _ _ ((hq.withUser s _).trans hs)
        unfold ksSwapOwner
        split
        · exact Meets.bind (hq.onUser hs _) fun s' hs' => meets_ok ((hq.withUser s' _).trans hs')
        · refine Meets.bind (hq.masterTableEvictChildren hs hevict _) fun s' hs' => ?_
          refine (pcb_meets s' _).bind fun p hp => ?_
          refine meets_ok (Eq.trans (hq.tables s' _ p _ hp ?_ ?_) hs')
          · rfl
          · rfl
        · exact id
        · exact id
        · exact id
      · refine meets_ok (Eq.trans ?_ hs')
        unfold ksSwapFinish
        cases writeBack with
        | false => exact hq.frames s' ..
        | true => exact hq.paged s' ..

theorem ksTakePage (hq : OffPaging q) (hs : q s = c) : FixesWith q c s.ksTakePage := by
  have hempty : ∀ {t t' : KernelSystem} {page : Nat}, q t = c →
      t.ksGetEmptyPage = some (page, t') → q t' = c := by
    intro t t' page ht hget
    unfold ksGetEmptyPage at hget
    split at hget
    · cases hget
    · cases hget
      exact (hq.frames t ..).trans ht
  unfold KernelSystem.ksTakePage
  split
  · rename_i page s₁ hget
    exact meets_ok (hempty hs hget)
  · refine Meets.bind (P := fun r : Victim × KernelSystem => q r.2 = c) ?_
      fun ⟨victim, s₁⟩ hs₁ => Meets.bind (hq.ksSwapOut _ _ victim hs₁) fun s₂ hs₂ => ?_
    · cases hvictim : s.ksGetVictim with
      | error e => exact id
      | ok r =>
          obtain ⟨victim, s₁⟩ := r
          obtain ⟨_, _, dice, rfl⟩ := KernelInv.ksGetVictim_ok hvictim
          exact meets_ok ((hq.withUser s _).trans hs)
    · split
      · rename_i page s₃ hget
        exact meets_ok (hempty hs₂ hget)
      · exact id

theorem ksAcquirePage (hq : OffPaging q) (hs : q s = c) (type : PageType) (owner : KsOwner)
    (lock : Bool) : FixesWith q c (s.ksAcquirePage type owner lock) :=
  Meets.bind (hq.ksTakePage hs) fun r hs₁ => meets_ok ((hq.frames r.2 ..).trans hs₁)

theorem ksRequestPage (hq : OffPaging q) (hs : q s = c) (type : PageType) (owner : KsOwner)
    (cluster : Nat) (lock : Bool) : FixesWith q c (s.ksRequestPage type owner cluster lock) := by
  refine Meets.bind (hq.ksAcquirePage hs type owner lock) fun ⟨page, s₁⟩ hs₁ => ?_
  dsimp only
  split
  · exact hs₁
  · exact meets_ok ((hq.withUser s₁ _).trans hs₁)

theorem swapMasterTable (hq : OffPaging q) (hs : q s = c) (h : Nat) :
    Fixes q c (s.swapMasterTable h true) := by
  refine (pcb_meets s h).bind fun p _ => ?_
  refine Meets.bind (hq.ksRequestPage hs ..) fun ⟨page, s₁⟩ hs₁ => ?_
  refine (pcb_meets s₁ h).bind fun p₁ hp₁ => ?_
  refine meets_ok (Eq.trans (hq.tables s₁ h p₁ _ hp₁ ?_ ?_) hs₁)
  · rfl
  · rfl

theorem fetchPageTable (hq : OffPaging q) (hs : q s = c) (a : KAddr) (lock : Bool) :
    Fixes q c (s.fetchPageTable a lock) :=
  Meets.bind (hq.ksRequestPage hs ..) fun r hs₁ => meets_ok ((hq.withUser r.2 _).trans hs₁)

theorem placePageTable (hq : OffPaging q) (hs : q s = c) (a : KAddr) :
    FixesWith q c (s.placePageTable a) :=
  Meets.bind (hq.ksRequestPage hs ..) fun r hs₁ => meets_ok ((hq.withUser r.2 _).trans hs₁)

/-- Such a quantity keeps its value through every step of paging. -/
theorem closed (hq : OffPaging q) (c : α) : ClosedUnder Primitive.IsPaging (q · = c) where
  step s a s' ha hs hstep := by
    cases a with
    | fault pte => exact (hq.onUser hs _).ok hstep
    | load pte accType content => exact (hq.onUser hs _).ok hstep
    | clone pte source => exact (hq.onUser hs _).ok hstep
    | release pte => exact (hq.onUser hs _).ok hstep
    | markDirty pte => exact hstep ▸ (hq.withUser s _).trans hs
    | write cell value => exact hstep ▸ (hq.withUser s _).trans hs
    | fetch ptl1e locked => exact (hq.fetchPageTable hs ptl1e locked).ok hstep
    | place ptl1e =>
        obtain ⟨pa, hplace⟩ := hstep
        exact (hq.placePageTable hs ptl1e).ok hplace
    | clear frame => exact hstep ▸ (hq.withUser s _).trans hs
    | swapMaster h => exact (hq.swapMasterTable hs h).ok hstep
    | lock frame => exact hstep ▸ (hq.ksLockPage s frame).trans hs
    | unlock frame => exact hstep ▸ (hq.frames s ..).trans hs
    | _ => exact ha.elim

end OffPaging

namespace OffSegments

variable {α : Type} {q : KernelSystem → α}

theorem offPaging (hq : OffSegments q) : OffPaging q :=
  ⟨hq.paged, fun s h p p' hp hrest _ => hq.object s h p p' hp hrest⟩

/-- Such a quantity keeps its value through the steps that make and remove segments too. -/
theorem closed (hq : OffSegments q) (c : α) : ClosedUnder Primitive.IsSegment (q · = c) where
  step s a s' ha hs hstep := by
    obtain ha | ⟨h, segCount, rfl⟩ | ⟨b, users, rfl⟩ := ha
    · exact (hq.offPaging.closed c).step s a s' ha hs hstep
    · obtain ⟨p, hp, rfl⟩ := hstep
      exact (hq.object s h p { p with segCount := segCount } hp rfl).trans hs
    · obtain ⟨sscb, hb, rfl⟩ := hstep
      exact (hq.users s b sscb users hb).trans hs

end OffSegments

end VirtualMemory
