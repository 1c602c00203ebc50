import VirtualMemory.KernelPaging
import VirtualMemory.Primitives
import VirtualMemory.SharedSegments

/-!
# Frame numbers and their 16 bits

A descriptor has 16 bits for the number of a frame. Where neither space has more than
`2 ^ 16` pages, every frame that is ever free, in use or chosen as a victim has such a number,
and so each entry that is written names the frame that was handed out for it. The constructor
does not see to that: it accepts any number of pages.
-/

namespace VirtualMemory

open Function Outcome UserSpace KernelSystem

/-- Every user frame that is free or in use has a number of 16 bits. -/
structure UserSpace.Narrow {D : Type} (us : UserSpace D) : Prop where
  empty : ∀ f ∈ us.usEmpty, f < 65536
  typed : ∀ f, 65536 ≤ f → (us.usFt f).type ≠ .usUserPage

namespace UserSpace.Narrow

variable {D : Type} {us us' : UserSpace D} {f : Nat}

theorem of_eq (hus : us.Narrow) (hempty : us'.usEmpty = us.usEmpty)
    (hft : ∀ f, (us'.usFt f).type = (us.usFt f).type) : us'.Narrow :=
  ⟨hempty ▸ hus.empty, fun f hf => hft f ▸ hus.typed f hf⟩

variable [DecidableEq D]

theorem usSwapOut (hus : us.Narrow) {victim : Victim} (hswap : us.usSwapOut victim = .ok us') :
    us'.Narrow := by
  obtain ⟨cn, t, pte, wrote, htype, _, rfl⟩ := usSwapOut_ok hswap
  have hempty : t.usEmpty = us.usEmpty := by rw [wrote.state]
  have hft : t.usFt = us.usFt := by rw [wrote.state]
  have hordinal : victim.ordinal < 65536 := by
    by_contra hle
    exact hus.typed _ (Nat.not_lt.mp hle) htype
  refine ⟨fun f hf => ?_, fun f hf => ?_⟩
  · obtain hf | hf := List.mem_append.mp hf
    · exact hus.empty f (hempty ▸ hf)
    · exact List.mem_singleton.mp hf ▸ hordinal
  · have hne : f ≠ victim.ordinal := Nat.ne_of_gt (Nat.lt_of_lt_of_le hordinal hf)
    change (update t.usFt victim.ordinal _ f).type ≠ _
    rw [update_of_ne hne, hft]
    exact hus.typed f hf

theorem usTakePage (hus : us.Narrow) {toIgnore : Option Nat}
    (htake : us.usTakePage toIgnore = .ok (f, us')) : us'.Narrow ∧ f < 65536 := by
  have hfirst : ∀ {t : UserSpace D} {rest : List Nat}, t.Narrow → t.usEmpty = f :: rest →
      ({ t with usEmpty := rest } : UserSpace D).Narrow ∧ f < 65536 := by
    intro t rest ht hempty
    refine ⟨⟨fun f' hf' => ?_, ht.typed⟩, ?_⟩
    · exact ht.empty f' (hempty ▸ List.mem_cons_of_mem f hf')
    · exact ht.empty f (hempty ▸ List.mem_cons_self)
  obtain ⟨rest, hempty, rfl⟩ | ⟨_, place, dice, t, rest, _, hswap, hempty, rfl⟩ :=
    usTakePage_cases htake
  · exact hfirst hus hempty
  · refine hfirst (usSwapOut ?_ hswap) hempty
    exact hus.of_eq rfl fun _ => rfl

theorem usAcquirePage (hus : us.Narrow) {newType : PageType} {newOwner : D}
    {toIgnore : Option Nat} (hacquire : us.usAcquirePage newType newOwner toIgnore = .ok (f, us')) :
    us'.Narrow ∧ f < 65536 := by
  obtain ⟨⟨page, t⟩, htake, hret⟩ := bind_ok hacquire
  cases hret
  obtain ⟨ht, hf⟩ := hus.usTakePage htake
  refine ⟨⟨ht.empty, fun f' hf' => ?_⟩, hf⟩
  have hne : f' ≠ f := Nat.ne_of_gt (Nat.lt_of_lt_of_le hf hf')
  change (update t.usFt f _ f').type ≠ _
  rw [update_of_ne hne]
  exact ht.typed f' hf'

theorem usRequestPage (hus : us.Narrow) {newType : PageType} {newOwner : D} {cluster : Nat}
    {cloneOverride : Bool}
    (hrequest : us.usRequestPage newType newOwner cluster cloneOverride = .ok (f, us')) :
    us'.Narrow ∧ f < 65536 := by
  obtain ⟨⟨page, t⟩, hacquire, hret⟩ := bind_ok hrequest
  cases hret
  obtain ⟨ht, hf⟩ := hus.usAcquirePage hacquire
  refine ⟨ht.of_eq ?_ fun _ => ?_, hf⟩
  · by_cases hnull : cluster = nullCluster <;> cases cloneOverride <;>
      simp [hnull, setOrigin, diskGet]
  · by_cases hnull : cluster = nullCluster <;> cases cloneOverride <;>
      simp [hnull, setOrigin, diskGet]

theorem usLoadPage (hus : us.Narrow) {newType : PageType} {newOwner : D} {content : Page}
    (hload : us.usLoadPage newType newOwner content = .ok (f, us')) : us'.Narrow ∧ f < 65536 := by
  obtain ⟨⟨page, t⟩, hacquire, hret⟩ := bind_ok hload
  cases hret
  obtain ⟨ht, hf⟩ := hus.usAcquirePage hacquire
  exact ⟨ht.of_eq rfl fun _ => rfl, hf⟩

theorem usClonePage (hus : us.Narrow) {index : Nat} {owner : D}
    (hclone : us.usClonePage index owner = .ok (f, us')) : us'.Narrow ∧ f < 65536 := by
  obtain ⟨⟨page, t⟩, hacquire, hret⟩ := bind_ok hclone
  cases hret
  obtain ⟨ht, hf⟩ := hus.usAcquirePage hacquire
  exact ⟨ht.of_eq rfl fun _ => rfl, hf⟩

theorem setPte (hus : us.Narrow) (pte : D) (e : PageTableL2Entry) : (us.setPte pte e).Narrow :=
  hus.of_eq rfl fun _ => rfl

theorem copyOfPage (hus : us.Narrow) {pte source : D}
    (hcopy : us.copyOfPage pte source = .ok (f, us')) : us'.Narrow ∧ f < 65536 := by
  unfold UserSpace.copyOfPage at hcopy
  split at hcopy
  · exact hus.usRequestPage hcopy
  · exact hus.usClonePage hcopy

theorem faultPage (hus : us.Narrow) {pte : D} (hfault : us.faultPage pte = .ok us') :
    us'.Narrow := by
  unfold UserSpace.faultPage at hfault
  split at hfault
  · obtain ⟨⟨temp, t⟩, hrequest, hret⟩ := bind_ok hfault
    cases hret
    exact (hus.usRequestPage hrequest).1.setPte pte _
  · split at hfault
    · obtain ⟨⟨temp, t⟩, hrequest, hret⟩ := bind_ok hfault
      cases hret
      exact (hus.usRequestPage hrequest).1.setPte pte _
    · cases hfault
      exact hus

theorem loadPage (hus : us.Narrow) {pte : D} {accType : AccessType} {content : Page}
    (hload : us.loadPage pte accType content = .ok us') : us'.Narrow := by
  obtain ⟨⟨upg, t⟩, hrequest, hret⟩ := bind_ok hload
  cases hret
  exact (hus.usLoadPage hrequest).1.setPte pte _

theorem clonePage (hus : us.Narrow) {pte source : D} (hclone : us.clonePage pte source = .ok us') :
    us'.Narrow := by
  obtain ⟨⟨upg, t⟩, hcopy, hret⟩ := bind_ok hclone
  cases hret
  exact ((hus.setPte pte _).copyOfPage hcopy).1.setPte pte _

/-- The frame of a descriptor is given back by the number that the descriptor has. -/
theorem releasePage (hus : us.Narrow) {pte : D} (hrelease : us.releasePage pte = .ok us') :
    us'.Narrow := by
  obtain ⟨t, hheld, hret⟩ := bind_ok hrelease
  cases hret
  refine setPte ?_ pte _
  unfold relinquishHeld at hheld
  split at hheld
  · cases hheld
    have hgiven : (usFreePage us (us.mem pte).block).Narrow := by
      refine ⟨fun f hf => ?_, hus.typed⟩
      obtain hf | hf := List.mem_append.mp hf
      · exact hus.empty f hf
      · exact List.mem_singleton.mp hf ▸ PageTableL2Entry.block_lt _
    unfold usRelinquishPage
    dsimp only
    split
    · exact hgiven.of_eq rfl fun _ => rfl
    · exact hgiven
  · split at hheld
    · cases hheld
      exact hus
    · unfold relinquishCluster at hheld
      split at hheld
      · cases hheld
      · cases hheld
        exact hus.of_eq rfl fun _ => rfl

theorem markDirty (hus : us.Narrow) (pte : D) : (us.markDirty pte).Narrow := by
  refine hus.of_eq rfl fun f => ?_
  change (update us.usFt (us.mem pte).block _ f).type = _
  by_cases hf : f = (us.mem pte).block
  · rw [hf, update_self]
    rfl
  · rw [update_of_ne hf]

end UserSpace.Narrow

/-- Every frame that is free, in use or on record has a number of 16 bits. -/
structure KernelSystem.Narrow (s : KernelSystem) : Prop where
  user : s.toUserSpace.Narrow
  empty : ∀ f ∈ s.ksEmpty, f < 65536
  typed : ∀ f, 65536 ≤ f → (s.ksFt f).type ≠ .ksPageTable ∧ (s.ksFt f).type ≠ .ksSegTable
  masters : ∀ h p, s.pcbs h = some p → p.masterTable < 65536

namespace KernelSystem.Narrow

variable {s s' : KernelSystem} {f h : Nat}

theorem withUser (hs : s.Narrow) {us : UserSpace KAddr} (hus : us.Narrow) :
    (s.withUser us).Narrow := ⟨hus, hs.empty, hs.typed, hs.masters⟩

theorem setPte (hs : s.Narrow) (a : KAddr) (e : PageTableL2Entry) :
    (s.withUser (s.setPte a e)).Narrow := hs.withUser (hs.user.setPte a e)

theorem onUser (hs : s.Narrow) {op : UserSpace KAddr → Except Halt (UserSpace KAddr)}
    (hop : ∀ us', op s.toUserSpace = .ok us' → us'.Narrow) (hret : s.onUser op = .ok s') :
    s'.Narrow := by
  obtain ⟨us, hus, hret⟩ := bind_ok hret
  cases hret
  exact hs.withUser (hop us hus)

theorem setPcb (hs : s.Narrow) {p : KernelProcess} (hp : p.masterTable < 65536) :
    (s.setPcb h p).Narrow := by
  refine ⟨hs.user, hs.empty, hs.typed, fun h' p' hp' => ?_⟩
  change update s.pcbs h (some p) h' = some p' at hp'
  by_cases hh : h' = h
  · rw [hh, update_self] at hp'
    exact Option.some.inj hp' ▸ hp
  · rw [update_of_ne hh] at hp'
    exact hs.masters h' p' hp'

/-- A frame changes hands, or its lock bit changes. -/
theorem setFt (hs : s.Narrow) {e : FrameTableEntry KsOwner}
    (he : 65536 ≤ f → e.type ≠ .ksPageTable ∧ e.type ≠ .ksSegTable) :
    ({ s with ksFt := update s.ksFt f e } : KernelSystem).Narrow := by
  refine ⟨hs.user, hs.empty, fun f' hf' => ?_, hs.masters⟩
  dsimp only
  by_cases hf : f' = f
  · rw [hf, update_self]
    exact he (hf ▸ hf')
  · rw [update_of_ne hf]
    exact hs.typed f' hf'

theorem ksFtUpdate (hs : s.Narrow) (hf : f < 65536) (flags : BitVec 8) (type : PageType)
    (owner : KsOwner) : (s.ksFtUpdate f flags type owner).Narrow :=
  hs.setFt fun hle => absurd hf (Nat.not_lt.mpr hle)

theorem setLocked (hs : s.Narrow) (locked : Bool) :
    ({ s with ksFt := update s.ksFt f ((s.ksFt f).setLocked locked) } : KernelSystem).Narrow :=
  hs.setFt fun hle => hs.typed f hle

theorem ksFreePage (hs : s.Narrow) (hf : f < 65536) : (s.ksFreePage f).Narrow := by
  refine ⟨hs.user, fun f' hf' => ?_, hs.typed, hs.masters⟩
  obtain hf' | hf' := List.mem_append.mp hf'
  · exact hs.empty f' hf'
  · exact List.mem_singleton.mp hf' ▸ hf

theorem pageTableEvictChildren (hs : s.Narrow) (page : Nat) :
    Upholds KernelSystem.Narrow (s.onUser (KernelSystem.pageTableEvictChildren · page)) := by
  refine meets_of_ok fun s' hret => hs.onUser (fun us' hevict => ?_) hret
  refine foldlM_ok (fun _ us => us.Narrow) (fun i _ us us' hus hchild => ?_) hs.user hevict
  unfold pageTableEvictChild at hchild
  dsimp only at hchild
  split at hchild
  · cases hchild
    exact hus
  · split at hchild
    · exact hus.usSwapOut hchild
    · cases hchild
      exact hus

theorem masterTableEvictChildren (hs : s.Narrow)
    {evict : KernelSystem → Nat → Except Halt KernelSystem}
    (hevict : ∀ s f, s.Narrow → Upholds KernelSystem.Narrow (evict s f)) (h : Nat) :
    Upholds KernelSystem.Narrow (KernelSystem.masterTableEvictChildren evict h s) := by
  refine Upholds.foldlM (fun s i hs => ?_) hs
  refine (meets_any _).bind fun p _ => ?_
  refine Meets.bind (P := KernelSystem.Narrow) ?_ fun s₁ hs₁ =>
    (meets_any _).bind fun p _ => meets_ok (hs₁.setPte _ _)
  unfold evictPresent
  split
  · exact (hs.pageTableEvictChildren _).bind fun s₁ hs₁ => hevict s₁ _ hs₁
  · exact hs

/-- A victim that has children or an owner has a type, and so a number of 16 bits. -/
theorem ksSwapOwner (hs : s.Narrow) {evict : KernelSystem → Nat → Except Halt KernelSystem}
    (hevict : ∀ s f, s.Narrow → Upholds KernelSystem.Narrow (evict s f)) (ordinal cn : Nat) :
    Meets (fun _ => False) (fun s' => s'.Narrow ∧ ordinal < 65536)
      (s.ksSwapOwner evict ordinal cn) := by
  unfold KernelSystem.ksSwapOwner
  split
  · rename_i htype _
    have hordinal : ordinal < 65536 := by
      by_contra hle
      exact (hs.typed _ (Nat.not_lt.mp hle)).1 htype
    exact (hs.pageTableEvictChildren ordinal).bind fun s₁ hs₁ => ⟨hs₁.setPte _ _, hordinal⟩
  · rename_i htype _
    have hordinal : ordinal < 65536 := by
      by_contra hle
      exact (hs.typed _ (Nat.not_lt.mp hle)).2 htype
    refine (hs.masterTableEvictChildren hevict _).bind fun s₁ hs₁ => ?_
    exact (pcb_meets s₁ _).bind fun p hp => ⟨hs₁.setPcb (hs₁.masters _ p hp), hordinal⟩
  · exact id
  · exact id
  · exact id

theorem ksSwapOut : ∀ (depth : Nat) (s : KernelSystem) (victim : Victim), s.Narrow →
    Upholds KernelSystem.Narrow (KernelSystem.ksSwapOut depth s victim)
  | 0, _, _, _ => id
  | depth + 1, s, victim, hs => by
      have hacquire : ∀ {s : KernelSystem} {cn us}, s.Narrow →
          s.dvtAcquireCluster = some (cn, us) → (s.withUser us).Narrow := by
        intro s cn us hs hacquire
        unfold dvtAcquireCluster at hacquire
        split at hacquire
        · cases hacquire
        · cases hacquire
          exact hs.withUser (hs.user.of_eq rfl fun _ => rfl)
      have hevict : ∀ s f, s.Narrow →
          Upholds KernelSystem.Narrow (ksEvictWith (KernelSystem.ksSwapOut depth) s f) := by
        intro s f hs
        unfold ksEvictWith
        split
        · exact id
        · rename_i hcluster
          exact ksSwapOut depth _ _ (hacquire hs hcluster)
      refine Meets.bind (P := fun r : Nat × Bool × KernelSystem => r.2.2.Narrow) ?_
        fun ⟨cn, writeBack, s₁⟩ hs₁ => (hs₁.ksSwapOwner hevict _ _).bind
          fun s₂ ⟨hs₂, hordinal⟩ => meets_ok ?_
      · unfold ksSwapCluster
        split
        · split
          · exact id
          · rename_i hcluster
            exact meets_ok (hacquire hs hcluster)
        · exact hs
      · unfold ksSwapFinish
        cases writeBack with
        | false =>
            refine ksFreePage ?_ hordinal
            exact hs₂.setFt fun hle => absurd hordinal (Nat.not_lt.mpr hle)
        | true =>
            have hput : (s₂.withUser (s₂.diskPut cn (s₂.krnlPage victim.ordinal))).Narrow :=
              hs₂.withUser (hs₂.user.of_eq rfl fun _ => rfl)
            exact (hput.setFt fun hle => absurd hordinal (Nat.not_lt.mpr hle)).ksFreePage hordinal

theorem ksTakePage (hs : s.Narrow) :
    Meets (fun _ => False) (fun r => r.2.Narrow ∧ r.1 < 65536) s.ksTakePage := by
  have hfirst : ∀ {t t' : KernelSystem} {page : Nat}, t.Narrow →
      t.ksGetEmptyPage = some (page, t') → t'.Narrow ∧ page < 65536 := by
    intro t t' page ht hget
    unfold ksGetEmptyPage at hget
    split at hget
    · cases hget
    · rename_i first rest hempty
      cases hget
      refine ⟨⟨ht.user, fun f hf => ?_, ht.typed, ht.masters⟩, ?_⟩
      · exact ht.empty f (hempty ▸ List.mem_cons_of_mem _ hf)
      · exact ht.empty _ (hempty ▸ List.mem_cons_self)
  unfold KernelSystem.ksTakePage
  split
  · rename_i page s₁ hget
    exact meets_ok (hfirst hs hget)
  · refine Meets.bind (P := fun r : Victim × KernelSystem => r.2.Narrow)
      (meets_of_ok fun ⟨victim, s₁⟩ hvictim => ?_)
      fun ⟨victim, s₁⟩ hs₁ => (ksSwapOut _ s₁ victim hs₁).bind fun s₂ hs₂ => ?_
    · obtain ⟨_, _, dice, rfl⟩ := KernelInv.ksGetVictim_ok hvictim
      exact hs.withUser (hs.user.of_eq rfl fun _ => rfl)
    · split
      · rename_i page s₃ hget
        exact meets_ok (hfirst hs₂ hget)
      · exact id

theorem ksAcquirePage (hs : s.Narrow) (type : PageType) (owner : KsOwner) (lock : Bool) :
    Meets (fun _ => False) (fun r => r.2.Narrow ∧ r.1 < 65536)
      (s.ksAcquirePage type owner lock) :=
  hs.ksTakePage.bind fun _ hr => ⟨hr.1.ksFtUpdate hr.2 _ _ _, hr.2⟩

theorem ksRequestPage (hs : s.Narrow) (type : PageType) (owner : KsOwner) (cluster : Nat)
    (lock : Bool) : Meets (fun _ => False) (fun r => r.2.Narrow ∧ r.1 < 65536)
      (s.ksRequestPage type owner cluster lock) := by
  refine (hs.ksAcquirePage type owner lock).bind fun ⟨page, s₁⟩ ⟨hs₁, hpage⟩ => ?_
  dsimp only
  split
  · exact ⟨hs₁, hpage⟩
  · exact ⟨hs₁.withUser (hs₁.user.of_eq rfl fun _ => rfl), hpage⟩

/-- No step leads to a frame whose number does not fit. -/
theorem step {a : Primitive} (hs : s.Narrow) (hstep : a.Step s s') : s'.Narrow := by
  cases a with
  | fault pte => exact hs.onUser (fun us' => hs.user.faultPage) hstep
  | load pte accType content => exact hs.onUser (fun us' => hs.user.loadPage) hstep
  | clone pte source => exact hs.onUser (fun us' => hs.user.clonePage) hstep
  | release pte => exact hs.onUser (fun us' => hs.user.releasePage) hstep
  | markDirty pte => exact hstep ▸ hs.withUser (hs.user.markDirty pte)
  | write cell value => exact hstep ▸ hs.setPte cell value
  | fetch ptl1e locked =>
      obtain ⟨⟨page, s₁⟩, hrequest, hret⟩ := bind_ok hstep
      cases hret
      exact ((hs.ksRequestPage _ _ _ _).ok hrequest).1.setPte _ _
  | place ptl1e =>
      obtain ⟨_, hplace⟩ := hstep
      obtain ⟨⟨page, s₁⟩, hrequest, hret⟩ := bind_ok hplace
      cases hret
      exact ((hs.ksRequestPage _ _ _ _).ok hrequest).1.setPte _ _
  | clear frame => exact hstep ▸ hs.withUser (hs.user.of_eq rfl fun _ => rfl)
  | swapMaster h =>
      obtain ⟨p, _, hrest⟩ := bind_ok hstep
      obtain ⟨⟨page, s₁⟩, hrequest, hrest⟩ := bind_ok hrest
      obtain ⟨p₁, _, hret⟩ := bind_ok hrest
      cases hret
      obtain ⟨hs₁, hpage⟩ := (hs.ksRequestPage _ _ _ _).ok hrequest
      exact hs₁.setPcb hpage
  | lock frame => exact hstep ▸ hs.setLocked true
  | unlock frame => exact hstep ▸ hs.setLocked false
  | recount h segCount =>
      obtain ⟨p, hp, rfl⟩ := hstep
      exact hs.setPcb (hs.masters h p hp)
  | regroup b users =>
      obtain ⟨_, _, rfl⟩ := hstep
      exact ⟨hs.user, hs.empty, hs.typed, hs.masters⟩
  | enlist =>
      obtain ⟨h, hnew⟩ := hstep
      obtain ⟨pcbVec, _, hret⟩ := bind_ok hnew
      cases hret
      have hadded : (s.setPcb s.nextPcb ⟨(s.pcbVec.insert none).1, 0, 0, false, 0, KAddr.page 0,
        KAddr.page 0, none⟩).Narrow := hs.setPcb (show 0 < 65536 by decide)
      exact ⟨hs.user, hs.empty, hs.typed, hadded.masters⟩
  | newMaster h =>
      obtain ⟨page, s₁, hacquire, hset⟩ := hstep
      obtain ⟨p, _, hret⟩ := bind_ok hset
      cases hret
      obtain ⟨hs₁, hpage⟩ := (hs.ksAcquirePage _ _ _).ok hacquire
      refine setPcb ?_ hpage
      exact hs₁.withUser (hs₁.user.of_eq rfl fun _ => rfl)
  | announce frame h =>
      obtain ⟨hframe, rfl⟩ := hstep
      exact hs.ksFtUpdate hframe _ _ _
  | relinquish frame =>
      obtain ⟨hframe, rfl⟩ := hstep
      exact hs.ksFreePage hframe
  | discard h =>
      obtain ⟨pcbVec, rfl⟩ := hstep
      refine ⟨hs.user, hs.empty, hs.typed, fun h' p hp => ?_⟩
      change update s.pcbs h none h' = some p at hp
      by_cases hh : h' = h
      · rw [hh, update_self] at hp
        cases hp
      · rw [update_of_ne hh] at hp
        exact hs.masters h' p hp
  | nameDummy h b =>
      obtain ⟨p, hp, rfl⟩ := hstep
      exact hs.setPcb (hs.masters h p hp)
  | record => exact hstep ▸ ⟨hs.user, hs.empty, hs.typed, hs.masters⟩

end KernelSystem.Narrow

/-- A property that every step preserves, of states whose frame numbers fit. -/
structure Lasting (I : KernelSystem → Prop) : Prop where
  step : ∀ s a s', I s → Primitive.Step s a s' → I s'
  narrow : ∀ s, I s → s.Narrow

namespace Lasting

variable {I : KernelSystem → Prop} {s s' : KernelSystem} {h startAddr size : Nat} {name : String}
  {accType : AccessType}

theorem segments (hI : Lasting I) : ClosedUnder Primitive.IsSegment I :=
  ⟨fun s a s' _ => hI.step s a s'⟩

theorem masterTableLock (hI : Lasting I) (hs : I s) (h : Nat) :
    Meets (fun _ => False) (fun r => I r.2 ∧ r.1 < 65536) (s.masterTableLock h) := by
  refine meets_of_ok fun ⟨mt, s₁⟩ hlock => ?_
  have hs₁ : I s₁ := (hI.segments.paging.masterTableLock hs h).ok hlock
  refine ⟨hs₁, ?_⟩
  obtain ⟨p, hp, hrest⟩ := bind_ok hlock
  rw [pcb_eq_ok] at hp
  split at hrest
  · cases hrest
    exact (hI.narrow s hs).masters h p hp
  · obtain ⟨s₂, _, hrest⟩ := bind_ok hrest
    obtain ⟨p₂, hp₂, hret⟩ := bind_ok hrest
    rw [pcb_eq_ok] at hp₂
    cases hret
    exact (hI.narrow _ hs₁).masters h p₂ hp₂

theorem newProcess (hI : Lasting I) (hs : I s) :
    Meets (fun _ => False) (fun r => I r.2.2 ∧ r.2.1 < 65536) s.newProcess := by
  refine Meets.bind (P := fun r : Nat × KernelSystem => I r.2)
    (meets_of_ok fun r hnew => hI.step s .enlist r.2 hs ⟨r.1, hnew⟩) fun ⟨h, s₁⟩ hs₁ => ?_
  refine meets_of_ok fun ⟨h', page', s'⟩ hrest => ?_
  obtain ⟨⟨page, s₂⟩, hacquire, hrest⟩ := bind_ok hrest
  obtain ⟨s₃, hset, hret⟩ := bind_ok hrest
  cases hret
  refine ⟨hI.step s₁ (.newMaster h) _ hs₁ ⟨page', s₂, hacquire, hset⟩, ?_⟩
  exact (((hI.narrow s₁ hs₁).ksAcquirePage _ _ _).ok hacquire).2

theorem createProcess (hI : Lasting I) (hs : I s) : UpholdsWith I s.createProcess :=
  (hI.newProcess hs).bind fun ⟨h, page, s₁⟩ ⟨hs₁, hpage⟩ =>
    meets_ok (hI.step s₁ (.announce page h) _ hs₁ ⟨hpage, rfl⟩)

theorem cloneProcess (hI : Lasting I) (hs : I s) (pid : Nat) :
    UpholdsWith I (s.cloneProcess pid) := by
  refine Meets.bind (meets_any _) fun found _ => ?_
  cases found with
  | none => exact id
  | some source =>
      refine (hI.masterTableLock hs source).bind fun ⟨mt, s₁⟩ ⟨hs₁, _⟩ => ?_
      refine (hI.newProcess hs₁).bind fun ⟨h, page, s₂⟩ ⟨hs₂, hpage⟩ => ?_
      refine Meets.bind (P := I) ?_ fun s₃ hs₃ =>
        meets_ok (hI.step s₃ (.announce page h) _ hs₃ ⟨hpage, rfl⟩)
      refine Upholds.foldlM (fun t i ht => ?_) hs₂
      refine (meets_any _).bind fun p _ => ?_
      split
      · exact ht
      · exact hI.segments.cloneSegmentFrom ht _ _ _

/-- The master table's frame is given back by the number it was locked with. -/
theorem deleteProcess (hI : Lasting I) (hs : I s) (h : Nat) : Upholds I (s.deleteProcess h) := by
  refine (hI.masterTableLock hs h).bind fun ⟨mt, s₁⟩ ⟨hs₁, hmt⟩ => ?_
  refine Meets.bind (P := I) ?_ fun s₂ hs₂ => ?_
  · refine Upholds.foldlM (fun t i ht => ?_) hs₁
    refine (meets_any _).bind fun p _ => ?_
    split
    · exact hI.segments.deleteSegmentInd ht _ _ _
    · exact ht
  · have hs₃ := hI.step s₂ (.relinquish mt) _ hs₂ ⟨hmt, rfl⟩
    have hs₄ : I ((s₂.ksRelinquishPage mt).ksUnlockPage mt) := hI.step _ (.unlock mt) _ hs₃ rfl
    refine (meets_any _).bind fun p _ => (meets_any _).bind fun pcbVec _ => ?_
    exact meets_ok (hI.step _ (.discard h) _ hs₄ ⟨pcbVec, rfl⟩)

theorem record (hI : Lasting I) (hs : I s) (ssegVec : ConsVec Nat) (ssegMap : List (String × Nat))
    (sscbs : Nat → Option SsegControlBlock) (nextSscb ssegCount : Nat) :
    I (s.withSegments ssegVec ssegMap sscbs nextSscb ssegCount) :=
  hI.step s (.record ssegVec ssegMap sscbs nextSscb ssegCount) _ hs rfl

theorem createDummy (hI : Lasting I) (hs : I s) :
    UpholdsWith I (s.createDummy size name accType) := by
  unfold KernelSystem.createDummy
  split
  · exact hs
  · have hs₀ := hI.record hs s.ssegVec ((name, s.nextSscb) :: s.ssegMap) s.sscbs (s.nextSscb + 1)
      s.ssegCount
    refine (hI.createProcess hs₀).bind fun ⟨dummy, s₁⟩ hs₁ => ?_
    have hs₂ := hI.record hs₁ (s₁.ssegVec.insert dummy).2 s₁.ssegMap
      (update s₁.sscbs s.nextSscb (some ⟨dummy, (s₁.ssegVec.insert dummy).1, []⟩)) s₁.nextSscb
      s₁.ssegCount
    refine (pcb_meets _ dummy).bind fun p hp => ?_
    have hs₃ := hI.step _ (.nameDummy dummy s.nextSscb) _ hs₂ ⟨p, hp, rfl⟩
    have hs₄ := hI.record hs₃ (s₁.ssegVec.insert dummy).2 s₁.ssegMap
      (update s₁.sscbs s.nextSscb (some ⟨dummy, (s₁.ssegVec.insert dummy).1, []⟩)) s₁.nextSscb
      (s₁.ssegCount + 1)
    exact hI.segments.createSegment hs₄ accType

theorem findOrCreate (hI : Lasting I) (hs : I s) :
    UpholdsWith I (s.findOrCreate size name accType) := by
  refine Meets.bind (meets_any _) fun found _ => ?_
  cases found with
  | some ssegInd => exact hs
  | none =>
      refine (hI.createDummy hs).bind fun ⟨status, s₁⟩ hs₁ => ?_
      dsimp only
      split
      · exact Meets.bind (meets_any _) fun ssegInd _ => hs₁
      · exact hs₁

theorem createSharedSegment (hI : Lasting I) (hs : I s) :
    UpholdsWith I (s.createSharedSegment h startAddr size name accType) := by
  refine (pcb_meets s h).bind fun p _ => ?_
  split
  · exact hs
  refine (hI.segments.paging.masterTableLock hs h).bind fun ⟨mt, s₁⟩ hs₁ => ?_
  refine (pcb_meets s₁ h).bind fun p₁ _ => ?_
  dsimp only
  split
  · exact meets_ok (hI.segments.paging.pageUnlock hs₁ mt)
  refine (hI.findOrCreate hs₁).bind fun ⟨found, s₂⟩ hs₂ => ?_
  cases found with
  | none => exact meets_ok (hI.segments.paging.pageUnlock hs₂ mt)
  | some ssegInd =>
      refine (hI.segments.recordSegment hs₂ _).bind fun ⟨entry, s₃⟩ hs₃ => ?_
      refine (hI.segments.connectSharedSegment hs₃ h ssegInd entry).bind fun s₄ hs₄ => ?_
      refine Meets.bind (P := I) ?_ fun s₅ hs₅ => meets_ok (hI.segments.paging.pageUnlock hs₅ mt)
      exact hI.segments.paging.fillSegment hs₄ fun t a i ht =>
        meets_ok (hI.segments.paging.setPte ht a _)

theorem deleteSharedSegment (hI : Lasting I) (hs : I s) :
    UpholdsWith I (s.deleteSharedSegment name) := by
  unfold KernelSystem.deleteSharedSegment
  split
  · exact hs
  rename_i b _
  split
  · exact id
  rename_i sscb _
  refine Meets.bind (P := I) ?_ fun s₁ hs₁ => ?_
  · exact Upholds.foldlM (fun t user ht => hI.segments.deleteSegmentInd ht _ _ _) hs
  have hs₂ := hI.record hs₁ s₁.ssegVec s₁.ssegMap
    (update s₁.sscbs b (some { sscb with users := [] })) s₁.nextSscb s₁.ssegCount
  refine (hI.deleteProcess hs₂ sscb.dummy).bind fun s₃ hs₃ => ?_
  refine Meets.bind (meets_any _) fun ssegVec _ => ?_
  exact meets_ok (hI.record hs₃ ssegVec _ _ s₃.nextSscb s₃.ssegCount)

/-- A public operation preserves what its steps preserve. -/
theorem exec (hI : Lasting I) {levels : Nat} {op : KernelOp} (hs : I s)
    (hstep : op.Step levels s s') : I s' := by
  have hforget : ∀ {β : Type} {x : Except Halt (β × KernelSystem)}, UpholdsWith I x →
      (x >>= fun r => .ok r.2) = .ok s' → I s' := by
    intro β x hx hret
    obtain ⟨r, hr, hret⟩ := bind_ok hret
    cases hret
    exact hx.ok hr
  cases op with
  | createProcess => exact hforget (hI.createProcess hs) hstep
  | cloneProcess pid => exact hforget (hI.cloneProcess hs pid) hstep
  | deleteProcess h => exact (hI.deleteProcess hs h).ok hstep
  | createSegment h startAddr size accType =>
      exact hforget (hI.segments.createSegment hs accType) hstep
  | loadSegment h startAddr size accType content =>
      exact hforget (hI.segments.loadSegment hs accType content) hstep
  | createSharedSegment h startAddr size name accType =>
      exact hforget (hI.createSharedSegment hs) hstep
  | disconnectSharedSegment h name =>
      exact hforget (hI.segments.disconnectSharedSegment hs h name) hstep
  | deleteSegment h startAddr => exact hforget (hI.segments.deleteSegment hs h startAddr) hstep
  | deleteSharedSegment name => exact hforget (hI.deleteSharedSegment hs) hstep
  | pageFault h addr => exact (hI.segments.paging.pageFault levels s h addr hs).ok hstep
  | access pid addr type =>
      exact hforget (hI.segments.paging.access levels s pid addr type false hs) hstep

end Lasting

/-- `us_page_addr` and `ks_page_addr`: `space` is where user or kernel space begins. -/
def pageAddrIn (space ordinal : Nat) : Nat := space + ordinal * pageSize

/-- The ordinal of the page that an allocator returns. -/
def returnedPage {α : Type} (x : Except Halt (Nat × α)) : Option Nat := x.toOption.map Prod.fst

theorem returnedPage_eq {α : Type} {x : Except Halt (Nat × α)} {ordinal : Nat} :
    returnedPage x = some ordinal ↔ ∃ t, x = .ok (ordinal, t) := by
  constructor
  · intro h
    obtain ⟨⟨page, t⟩, hx, rfl⟩ := Option.map_eq_some_iff.mp h
    exact ⟨t, toOption_ok hx⟩
  · rintro ⟨t, rfl⟩
    rfl

theorem returnedPage_bind {α β : Type} {x : Except Halt (Nat × α)} {f : Nat × α → Except Halt β}
    {s' : β} {ordinal : Nat} (hordinal : returnedPage x = some ordinal)
    (hret : (x >>= f) = .ok s') : ∃ t, f (ordinal, t) = .ok s' := by
  obtain ⟨t, rfl⟩ := returnedPage_eq.mp hordinal
  exact ⟨t, hret⟩

namespace Primitive

/-- The page that an allocator hands out in a step, for a field of 16 bits. -/
def handedOut (s : KernelSystem) : Primitive → Option Nat
  | fault pte =>
      if (s.mem pte).getTbc then
        returnedPage (s.usRequestPage .usUserPage pte nullCluster false)
      else if !(s.mem pte).getValid then
        returnedPage (s.usRequestPage .usUserPage pte (s.mem pte).block false)
      else none
  | load pte _ content => returnedPage (s.usLoadPage .usUserPage pte content)
  | clone pte source => returnedPage ((s.setPte pte (s.mem source)).copyOfPage pte source)
  | fetch ptl1e locked => returnedPage
      (s.ksRequestPage .ksPageTable (.ptl1e ptl1e) (s.ptl1 ptl1e).block locked)
  | place ptl1e => returnedPage (s.ksRequestPage .ksPageTable (.ptl1e ptl1e) nullCluster true)
  | _ => none

/-- The field that the step writes, as it is read afterwards. -/
def stored (s : KernelSystem) : Primitive → Nat
  | fault pte | load pte .. | clone pte _ => (s.mem pte).block
  | fetch ptl1e _ | place ptl1e => (s.ptl1 ptl1e).block
  | _ => 0

/-- The field denotes the page: from either, the same address is computed. -/
def Denotes (s : KernelSystem) (a : Primitive) (s' : KernelSystem) : Prop :=
  ∀ ordinal, a.handedOut s = some ordinal →
    ∀ space, pageAddrIn space (a.stored s') = pageAddrIn space ordinal

theorem denotes_iff {a : Primitive} {s s' : KernelSystem} :
    a.Denotes s s' ↔ ∀ ordinal, a.handedOut s = some ordinal → a.stored s' = ordinal := by
  refine forall₂_congr fun ordinal _ => ⟨fun h => ?_, fun h space => by rw [h]⟩
  have haddr := h 0
  simp only [pageAddrIn, pageSize] at haddr
  omega

/-- The cast keeps 16 bits of the ordinal. -/
theorem stored_eq {a : Primitive} {s s' : KernelSystem} {ordinal : Nat} (hstep : a.Step s s')
    (hordinal : a.handedOut s = some ordinal) : a.stored s' = ordinal % 65536 := by
  have hmem : ∀ (t : UserSpace KAddr) (pte : KAddr) (e : PageTableL2Entry),
      (s.withUser (t.setPte pte e)).mem pte = e := fun t pte e => update_self ..
  have hwritten : ∀ {t : KernelSystem} {ptl1e : KAddr} {status : BitVec 8},
      ((t.setPtl1 ptl1e { t.ptl1 ptl1e with
        blockDisk := BitVec.ofNat 16 ordinal
        status := status }).ptl1 ptl1e).block = ordinal % 65536 := by
    intro t ptl1e status
    have hread : ∀ e : PageTableL1Entry, (t.setPtl1 ptl1e e).ptl1 ptl1e = e := by
      intro e
      change (update t.mem ptl1e e.toCell ptl1e).toL1 = e
      rw [update_self, PageTableL1Entry.toL1_toCell]
    rw [hread]
    exact BitVec.toNat_ofNat ordinal 16
  cases a with
  | fault pte =>
      obtain ⟨us, hus, hret⟩ := bind_ok hstep
      cases hret
      simp only [UserSpace.faultPage] at hus
      simp only [handedOut] at hordinal
      split at hus
      · rename_i htbc
        rw [if_pos htbc] at hordinal
        obtain ⟨t, hret⟩ := returnedPage_bind hordinal hus
        cases hret
        simp [stored, hmem]
      · rename_i htbc
        rw [if_neg htbc] at hordinal
        split at hus
        · rename_i hvalid
          rw [if_pos hvalid] at hordinal
          obtain ⟨t, hret⟩ := returnedPage_bind hordinal hus
          cases hret
          simp [stored, hmem]
        · rename_i hvalid
          rw [if_neg hvalid] at hordinal
          cases hordinal
  | load pte accType content =>
      obtain ⟨us, hus, hret⟩ := bind_ok hstep
      cases hret
      obtain ⟨t, hret⟩ := returnedPage_bind hordinal hus
      cases hret
      simp [stored, hmem]
  | clone pte source =>
      obtain ⟨us, hus, hret⟩ := bind_ok hstep
      cases hret
      obtain ⟨t, hret⟩ := returnedPage_bind hordinal hus
      cases hret
      simp [stored, hmem]
  | fetch ptl1e locked =>
      obtain ⟨t, hret⟩ := returnedPage_bind hordinal hstep
      cases hret
      exact hwritten
  | place ptl1e =>
      obtain ⟨_, hplace⟩ := hstep
      obtain ⟨t, hret⟩ := returnedPage_bind hordinal hplace
      cases hret
      exact hwritten
  | _ => cases hordinal

/-- Whatever is handed out comes from the free frames or from a victim. -/
theorem handedOut_lt {a : Primitive} {s : KernelSystem} {ordinal : Nat} (hs : s.Narrow)
    (hordinal : a.handedOut s = some ordinal) : ordinal < 65536 := by
  cases a with
  | fault pte =>
      simp only [handedOut] at hordinal
      split at hordinal
      · obtain ⟨t, hrequest⟩ := returnedPage_eq.mp hordinal
        exact (hs.user.usRequestPage hrequest).2
      · split at hordinal
        · obtain ⟨t, hrequest⟩ := returnedPage_eq.mp hordinal
          exact (hs.user.usRequestPage hrequest).2
        · cases hordinal
  | load pte accType content =>
      obtain ⟨t, hload⟩ := returnedPage_eq.mp hordinal
      exact (hs.user.usLoadPage hload).2
  | clone pte source =>
      obtain ⟨t, hcopy⟩ := returnedPage_eq.mp hordinal
      exact ((hs.user.setPte pte _).copyOfPage hcopy).2
  | fetch ptl1e locked =>
      obtain ⟨t, hrequest⟩ := returnedPage_eq.mp hordinal
      exact ((hs.ksRequestPage _ _ _ _).ok hrequest).2
  | place ptl1e =>
      obtain ⟨t, hrequest⟩ := returnedPage_eq.mp hordinal
      exact ((hs.ksRequestPage _ _ _ _).ok hrequest).2
  | _ => cases hordinal

theorem denotes {a : Primitive} {s s' : KernelSystem} (hs : s.Narrow) (hstep : a.Step s s') :
    a.Denotes s s' := by
  refine denotes_iff.mpr fun ordinal hordinal => ?_
  rw [stored_eq hstep hordinal, Nat.mod_eq_of_lt (handedOut_lt hs hordinal)]

end Primitive

/-- The constructor hands over frames that fit, where the spaces do. -/
theorem KernelSystem.Booted.narrow {s : KernelSystem} (hstart : s.Booted)
    (huser : s.userspcSize ≤ 65536) (hkrnl : s.krnlspcSize ≤ 65536) : s.Narrow := by
  obtain ⟨userspcSize, krnlspcSize, numOfClusters, entrySize, userspc, disk, ot, mem, dice,
    hboot⟩ := hstart
  unfold boot construct at hboot
  dsimp only at hboot
  split at hboot
  · cases hboot
  · cases hboot
    refine ⟨⟨fun f hf => ?_, fun f _ => nofun⟩, fun f hf => ?_, fun f _ => ⟨nofun, nofun⟩, nofun⟩
    · exact Nat.lt_of_lt_of_le (List.mem_range.mp hf) huser
    · obtain ⟨i, hi, rfl⟩ := List.mem_map.mp hf
      have hlt := List.mem_range.mp hi
      dsimp only at hkrnl hlt
      omega

namespace KernelOp

variable {levels : Nat} {start s : KernelSystem} {ops : List KernelOp}

/-- A public operation takes such steps, and so a run of operations is a run of steps. -/
theorem run_primitive (hstart : start.Narrow)
    (hrun : Run (fun s op s' => op.Step levels s s') start ops s) :
    ∃ calls, Run Primitive.Step start calls s := by
  have hI : Lasting fun s => s.Narrow ∧ ∃ calls, Run Primitive.Step start calls s := by
    refine ⟨fun s a s' ⟨hs, calls, hcalls⟩ hstep => ⟨hs.step hstep, calls ++ [a], ?_⟩,
      fun s => And.left⟩
    exact hcalls.append (.cons hstep (.nil s'))
  exact (hrun.invariant _ (fun s op s' hs hstep => hI.exec hs hstep) ⟨hstart, [], .nil start⟩).2

/-- Where neither space has more pages than 16 bits can number, every number that is stored
denotes the page that was handed out, whatever was done before. -/
theorem numbers_kept (hstart : start.Booted) (huser : start.userspcSize ≤ 65536)
    (hkrnl : start.krnlspcSize ≤ 65536)
    (hrun : Run (fun s op s' => op.Step levels s s') start ops s) :
    (∃ calls, Run Primitive.Step start calls s) ∧
      ∀ calls s₁ a s₂, Run Primitive.Step start calls s₁ → Primitive.Step s₁ a s₂ →
        a.Denotes s₁ s₂ := by
  have hnarrow := hstart.narrow huser hkrnl
  refine ⟨run_primitive hnarrow hrun, fun calls s₁ a s₂ hcalls hstep => ?_⟩
  exact a.denotes (hcalls.invariant _ (fun s a s' hs hstep => hs.step hstep) hnarrow) hstep

/-- A process with a page table of its own, whose frame has the number that is stored. -/
theorem numbers_kept_small : ∃ (s s' : KernelSystem) (calls : List Primitive),
    (∃ start, start.Booted ∧ Run Primitive.Step start calls s) ∧
      Primitive.Step s (.place ⟨4, 0⟩) s' ∧
      (Primitive.place ⟨4, 0⟩).handedOut s = some 5 ∧ (s'.ptl1 ⟨4, 0⟩).block = 5 := by
  have hruns : (runSmall anyStep 1 2 2 [] [.createProcess]).any (fun r =>
      decide (r.1.userspcSize = 1 ∧ r.1.krnlspcSize = 6) &&
        decide ((Primitive.place ⟨4, 0⟩).handedOut r.2 = some 5) &&
        (r.2.placePageTable ⟨4, 0⟩).isOk) = true := by
    decide +kernel
  obtain ⟨⟨start, s⟩, hr, hcheck⟩ := (Option.any_eq_true _ _).mp hruns
  simp only [Bool.and_eq_true, decide_eq_true_eq] at hcheck
  obtain ⟨⟨⟨huser, hkrnl⟩, hordinal⟩, hok⟩ := hcheck
  obtain ⟨hboot, hrun⟩ := runSmall_run hr
  have hstart := smallKernel_booted hboot
  obtain ⟨⟨calls, hcalls⟩, hall⟩ := numbers_kept hstart (by omega) (by omega)
    (hrun.weaken fun _ _ _ hstep => hstep.2)
  cases hplace : s.placePageTable ⟨4, 0⟩ with
  | error e =>
      rw [hplace] at hok
      cases hok
  | ok r =>
      have hstep : Primitive.Step s (.place ⟨4, 0⟩) r.2 := ⟨r.1, hplace⟩
      refine ⟨s, r.2, calls, ⟨start, hstart, hcalls⟩, hstep, hordinal, ?_⟩
      exact Primitive.denotes_iff.mp (hall calls s _ r.2 hcalls hstep) 5 hordinal

/-- With room for two frames above its tables, the kernel gives the first to the first process,
and the second is the next one. -/
theorem createProcess_first {userspcSize krnlspcSize reserved : Nat}
    (hreserved : reservedPages userspcSize krnlspcSize 1 12 = reserved)
    (hroom : reserved + 2 ≤ krnlspcSize) :
    ∃ (start s : KernelSystem) (rest : List Nat), start.Booted ∧
      start.createProcess = .ok (0, s) ∧ s.ksEmpty = (reserved + 1) :: rest := by
  have hboot : ∃ start, boot userspcSize krnlspcSize 1 12 (fun _ => blankPage)
      (fun _ => blankPage) (fun _ => 0) (fun _ => ⟨0#16, 0#8, 0#8⟩) [] = .ok start ∧
      start.pcbVec = ConsVec.new ∧ start.nextPcb = 0 ∧
      start.ksEmpty = (List.range (krnlspcSize - reserved)).map (reserved + ·) := by
    subst hreserved
    have hfits : ¬ krnlspcSize < reservedPages userspcSize krnlspcSize 1 12 := by omega
    exact ⟨_, if_neg hfits, rfl, rfl, rfl⟩
  obtain ⟨start, hboot, hvec, hnext, hempty⟩ := hboot
  obtain ⟨n, rfl⟩ := Nat.exists_eq_add_of_le hroom
  rw [show reserved + 2 + n - reserved = n + 2 by omega, List.range_succ_eq_map,
    List.range_succ_eq_map] at hempty
  refine ⟨start, ?_⟩
  have hstart : start.Booted := ⟨_, _, _, _, _, _, _, _, _, hboot⟩
  clear hboot
  obtain ⟨_, _, _, _, _, _, _, _, _, _, _, _, _⟩ := start
  cases hvec
  cases hnext
  cases hempty
  exact ⟨_, _, hstart, rfl, rfl⟩

/-- With four million user pages and a million kernel pages, the tables take up all the frames
whose numbers fit, and so the first page table is lost. -/
theorem numbers_truncated : ¬ ∀ (start s s' : KernelSystem) (ops : List KernelOp) (a : Primitive),
    start.Booted → Run (fun s op s' => op.Step 2 s s') start ops s → Primitive.Step s a s' →
      a.Denotes s s' := by
  intro hall
  have hreserved : reservedPages 4000000 1000000 1 12 = 66408 := by decide
  obtain ⟨start, s, rest, hstart, hcreate, hempty⟩ := createProcess_first hreserved (by decide)
  have hrun : Run (fun s (op : KernelOp) s' => op.Step 2 s s') start [.createProcess] s := by
    refine .cons ?_ (.nil s)
    change (start.createProcess >>= fun r => .ok r.2) = .ok s
    rw [hcreate]
    rfl
  have hplace : ∃ s', Primitive.Step s (.place ⟨66408, 0⟩) s' ∧
      (Primitive.place ⟨66408, 0⟩).handedOut s = some 66409 := by
    obtain ⟨_, _, _, _, _, _, _, _, _, _, _, _, _⟩ := s
    cases hempty
    exact ⟨_, ⟨_, rfl⟩, rfl⟩
  obtain ⟨s', hstep, hordinal⟩ := hplace
  have hkept := Primitive.denotes_iff.mp (hall start s s' _ _ hstart hrun hstep) _ hordinal
  rw [Primitive.stored_eq hstep hordinal] at hkept
  revert hkept
  decide

end KernelOp

end VirtualMemory
