import VirtualMemory.PagingStops
import VirtualMemory.PrivateRuns

/-!
# Victims of the kernel search

What `ks_get_victim` needs of a kernel frame table, and what it then finds. Nothing else is
asked of the state: the frame table, the tables in memory and the process objects can be any
that point at each other.

A master table that is chosen has no page table in memory any more. An unlocked table of its
own would have been chosen in its place, and a locked one would have locked the master table.
So swapping out a victim is never recursive.
-/

namespace VirtualMemory

open Function KernelSystem Outcome

namespace KernelSystem

/-- The first level entry of slot `i` in the master table of a frame. -/
def frameSlot (s : KernelSystem) (place i : Nat) : PageTableL1Entry :=
  s.ptl1 ((KAddr.page place).index i)

/-- A page table that a frame's master table has in memory. -/
def Child (s : KernelSystem) (place i : Nat) : Prop :=
  s.HasFrame place ∧ (s.ksFt place).type = .ksSegTable ∧ i < maxPageTablesL1 ∧
    (s.frameSlot place i).status = PageTableL1Entry.statusPresent

/-- The tables in kernel space point at each other, and a master table is locked with its
page tables. -/
structure Linked (s : KernelSystem) : Prop where
  child : ∀ place i, s.Child place i → s.HasFrame (s.frameSlot place i).block ∧
    (s.ksFt (s.frameSlot place i).block).type = .ksPageTable ∧
    (s.ksFt (s.frameSlot place i).block).owner = some (.ptl1e ((KAddr.page place).index i))
  master : ∀ place, s.HasFrame place → (s.ksFt place).type = .ksSegTable →
    ∃ h p, (s.ksFt place).owner = some (.pcb h) ∧ s.pcbs h = some p ∧
      p.masterTableValid = true ∧ p.masterTable = place
  locked : ∀ place i, s.Child place i →
    (s.ksFt (s.frameSlot place i).block).getLocked = true → (s.ksFt place).getLocked = true

/-- The processes of the master tables in memory have the two pointers that they are walked with
on them. `swap_master_table` sets neither when it brings a table back to another frame. -/
def WalkedAtHome (s : KernelSystem) : Prop :=
  ∀ place, s.HasFrame place → (s.ksFt place).type = .ksSegTable →
    ∀ h p, (s.ksFt place).owner = some (.pcb h) → s.pcbs h = some p →
      p.ptl1Ptr = KAddr.page place ∧ p.stPtr = (KAddr.page place).index maxPageTablesL1

/-- No page table of a master table is left to be chosen before it. -/
def Spared (s : KernelSystem) (place : Nat) : Prop :=
  ∀ i, s.Child place i → (s.ksFt (s.frameSlot place i).block).getLocked = true

variable {s s' : KernelSystem} {place found n roll h : Nat} {dice : List Nat} {victim : Victim}

theorem passOn_safe (hlinked : s.Linked) (hplace : s.HasFrame place) :
    s.HasFrame (s.passOn place) ∧ s.Spared (s.passOn place) := by
  unfold passOn
  split
  · rename_i htype
    split
    · rename_i i hfound
      have hi := List.find?_some hfound
      have hlt : i < maxPageTablesL1 := by simpa using List.mem_of_find?_eq_some hfound
      simp only [Bool.and_eq_true, decide_eq_true_eq] at hi
      obtain ⟨hframe, htable, _⟩ := hlinked.child place i ⟨hplace, htype, hlt, hi.1⟩
      refine ⟨hframe, fun j hj => ?_⟩
      -- a page table has no children
      have hsegment := hj.2.1
      rw [frameSlot] at htable
      rw [htable] at hsegment
      cases hsegment
    · rename_i hnone
      refine ⟨hplace, fun i hi => ?_⟩
      have hpassed := List.find?_eq_none.mp hnone i (List.mem_range.mpr hi.2.2.1)
      simpa [frameSlot, show (s.ptl1 ((KAddr.page place).index i)).status = _ from hi.2.2.2]
        using hpassed
  · rename_i htype
    exact ⟨hplace, fun i hi => absurd hi.2.1 htype⟩

/-- The scan stays among the unreserved frames, and passes a master table over for the
tables it still has. -/
theorem findUnlocked_safe (hlinked : s.Linked) : ∀ {n place found : Nat}, s.HasFrame place →
    s.findUnlocked n place = some found → s.HasFrame found ∧ s.Spared found
  | 0, _, _, _, hfind => by cases hfind
  | n + 1, place, found, hplace, hfind => by
      have hnext := KernelInv.hasFrame_nextPlace hplace
      have hunfold : (if s.krnlspcSize ≤ place + 1 then s.ksReserved else place + 1) =
        s.nextPlace place := rfl
      simp only [findUnlocked, hunfold] at hfind
      split at hfind
      · exact findUnlocked_safe hlinked hnext hfind
      · split at hfind
        · have hpassed := passOn_safe hlinked hnext
          split at hfind
          · exact findUnlocked_safe hlinked hpassed.1 hfind
          · cases hfind
            exact hpassed
        · rename_i htype
          cases hfind
          exact ⟨hnext, fun i hi => absurd hi.2.1 htype⟩

/-- With a roll to start from, the search ends. -/
theorem ksGetVictim_returns (hopen : s.unlockedFrame = true) (hdice : s.dice = roll :: dice) :
    ∃ victim s', s.ksGetVictim = .ok (victim, s') := by
  cases hvictim : s.ksGetVictim with
  | ok r => exact ⟨r.1, r.2, rfl⟩
  | error halt =>
      obtain rfl := ksGetVictim_error (by rw [hdice]; exact List.cons_ne_nil _ _) hvictim
      exact absurd hvictim (ksGetVictim_finds hopen)

theorem ksGetVictim_safe (hlinked : s.Linked) (hopen : s.unlockedFrame = true)
    (hvictim : s.ksGetVictim = .ok (victim, s')) :
    s.HasFrame victim.ordinal ∧ s.Spared victim.ordinal := by
  have hpool := pool_of_unlocked hopen
  unfold ksGetVictim at hvictim
  split at hvictim
  · cases hvictim
  · rename_i roll dice _
    dsimp only at hvictim
    have hroll : s.HasFrame (s.ksReserved + roll % (s.krnlspcSize - s.ksReserved)) := by
      have hmod := Nat.mod_lt roll (Nat.sub_pos_of_lt hpool)
      unfold HasFrame
      omega
    -- the state searched differs from `s` in its rolls only
    have hlinked' : (s.withUser { s.toUserSpace with dice := dice }).Linked :=
      ⟨hlinked.child, hlinked.master, hlinked.locked⟩
    have hpassed := passOn_safe hlinked' hroll
    split at hvictim
    · split at hvictim
      · cases hvictim
      · rename_i hfind
        cases hvictim
        exact findUnlocked_safe hlinked' hpassed.1 hfind
    · cases hvictim
      exact hpassed

/-- Kernel frames are as they were. -/
structure SameFrames (s s' : KernelSystem) : Prop where
  ksFt : s'.ksFt = s.ksFt
  ksEmpty : s'.ksEmpty = s.ksEmpty

theorem sameFrames_onUser {op : UserSpace KAddr → Except Halt (UserSpace KAddr)}
    (hop : s.onUser op = .ok s') : SameFrames s s' := by
  obtain ⟨us, _, hret⟩ := bind_ok hop
  cases hret
  exact ⟨rfl, rfl⟩

theorem ptl1_setPtl1 (a b : KAddr) (e : PageTableL1Entry) :
    (s.setPtl1 a e).ptl1 b = if b = a then e else s.ptl1 b := by
  unfold ptl1
  change (update s.mem a e.toCell b).toL1 = _
  by_cases hb : b = a
  · rw [if_pos hb, hb, update_self, PageTableL1Entry.toL1_toCell]
  · rw [if_neg hb, update_of_ne hb]

/-- A slot that is not present is marked and nothing else, however a page is evicted. -/
theorem masterTableEvictChild_absent {p : KernelProcess} {i : Nat} (hp : s.pcbs h = some p)
    (hslot : (s.ptl1 (p.ptl1Ptr.index i)).status ≠ PageTableL1Entry.statusPresent)
    (evict : KernelSystem → Nat → Except Halt KernelSystem) :
    masterTableEvictChild evict h s i = .ok (s.setPtl1 (p.ptl1Ptr.index i)
      { s.ptl1 (p.ptl1Ptr.index i) with status := PageTableL1Entry.statusPagedOut }) := by
  have hpcb : s.pcb h = .ok p := pcb_eq_ok.mpr hp
  simp only [masterTableEvictChild, hpcb, ok_bind, evictPresent, if_neg hslot]

/-- A master table without page tables in memory has no children to evict. -/
theorem masterTableEvictChildren_absent {p : KernelProcess} (hp : s.pcbs h = some p) :
    ∀ {slots : List Nat} {t : KernelSystem}, t.pcbs = s.pcbs → SameFrames s t →
      (∀ i ∈ slots, (t.ptl1 (p.ptl1Ptr.index i)).status ≠ PageTableL1Entry.statusPresent) →
      ∃ t', (∀ evict, slots.foldlM (masterTableEvictChild evict h) t = .ok t') ∧
        t'.pcbs = s.pcbs ∧ SameFrames s t'
  | [], t, hpcbs, hsame, _ => ⟨t, fun _ => rfl, hpcbs, hsame⟩
  | i :: slots, t, hpcbs, hsame, hslots => by
      have hp' : t.pcbs h = some p := by rw [hpcbs, hp]
      have hmark := masterTableEvictChild_absent hp' (hslots i List.mem_cons_self)
      -- marking a slot does not make another one present
      have hrest : ∀ j ∈ slots, ((t.setPtl1 (p.ptl1Ptr.index i)
          { t.ptl1 (p.ptl1Ptr.index i) with status := PageTableL1Entry.statusPagedOut }).ptl1
            (p.ptl1Ptr.index j)).status ≠ PageTableL1Entry.statusPresent := by
        intro j hj
        rw [ptl1_setPtl1]
        split
        · exact (by decide : PageTableL1Entry.statusPagedOut ≠ PageTableL1Entry.statusPresent)
        · exact hslots j (List.mem_cons_of_mem i hj)
      obtain ⟨t', hfold, hpcbs', hsame'⟩ :=
        masterTableEvictChildren_absent hp (t := t.setPtl1 _ _) hpcbs
          ⟨hsame.ksFt, hsame.ksEmpty⟩ hrest
      refine ⟨t', fun evict => ?_, hpcbs', hsame'⟩
      rw [List.foldlM_cons, hmark evict, ok_bind, hfold evict]

/-- The owner of a victim without children is updated the same way whatever evicting a page
would do, and kernel frames stay. -/
theorem ksSwapOwner_alone (hlinked : s.Linked) (hhome : s.WalkedAtHome)
    (hplace : s.HasFrame place) (hspared : ∀ i, ¬ s.Child place i)
    (hmem : s'.mem = s.mem) (hpcbs : s'.pcbs = s.pcbs) (hsame : SameFrames s s') (cn : Nat) :
    ∃ r, (∀ evict, s'.ksSwapOwner evict place cn = r) ∧ ∀ t, r = .ok t → SameFrames s t := by
  unfold ksSwapOwner
  rw [hsame.ksFt]
  split
  · refine ⟨_, fun evict => rfl, fun t ht => ?_⟩
    obtain ⟨u, hchildren, hret⟩ := bind_ok ht
    cases hret
    have hframes := sameFrames_onUser hchildren
    exact ⟨hframes.ksFt.trans hsame.ksFt, hframes.ksEmpty.trans hsame.ksEmpty⟩
  · rename_i x htype howner
    obtain ⟨y, p, howner', hp, _⟩ := hlinked.master place hplace htype
    obtain ⟨hptl1, _⟩ := hhome place hplace htype y p howner' hp
    obtain rfl : x = y := by
      rw [howner] at howner'
      injection howner' with hpcb
      injection hpcb
    have hslots : ∀ i ∈ List.range maxPageTablesL1,
        (s'.ptl1 (p.ptl1Ptr.index i)).status ≠ PageTableL1Entry.statusPresent := by
      intro i hi hpresent
      refine hspared i ⟨hplace, htype, List.mem_range.mp hi, ?_⟩
      rw [frameSlot, ← hptl1, ← hpresent, ptl1, ptl1, hmem]
    obtain ⟨t, hfold, hpcbs', hsame'⟩ :=
      masterTableEvictChildren_absent (s := s) hp hpcbs hsame hslots
    refine ⟨(do
        let p ← t.pcb x
        .ok (t.setPcb x { p with mtDisk := cn, masterTableValid := false })),
      fun evict => ?_, fun u hu => ?_⟩
    · rw [masterTableEvictChildren, hfold evict, ok_bind]
    · obtain ⟨q, _, hret⟩ := bind_ok hu
      cases hret
      exact ⟨hsame'.ksFt, hsame'.ksEmpty⟩
  · exact ⟨_, fun evict => rfl, fun u heq => by cases heq⟩
  · exact ⟨_, fun evict => rfl, fun u heq => by cases heq⟩
  · exact ⟨_, fun evict => rfl, fun u heq => by cases heq⟩

theorem ksSwapCluster_same {cn : Nat} {writeBack : Bool}
    (hcluster : s.ksSwapCluster victim = .ok (cn, writeBack, s')) :
    s'.mem = s.mem ∧ s'.pcbs = s.pcbs ∧ SameFrames s s' := by
  unfold ksSwapCluster at hcluster
  split at hcluster
  · split at hcluster
    · cases hcluster
    · rename_i hacquire
      obtain ⟨_, rfl⟩ := dvtAcquireCluster_some hacquire
      cases hcluster
      exact ⟨rfl, rfl, rfl, rfl⟩
  · cases hcluster
    exact ⟨rfl, rfl, rfl, rfl⟩

theorem ksSwapOut_succ (depth : Nat) (s : KernelSystem) (victim : Victim) :
    ksSwapOut (depth + 1) s victim = (s.ksSwapCluster victim >>= fun r =>
      r.2.2.ksSwapOwner (ksEvictWith (ksSwapOut depth)) victim.ordinal r.1 >>= fun s =>
        .ok (s.ksSwapFinish victim.ordinal r.1 r.2.1)) := rfl

/-- Swapping out a victim without children takes one call, and frees its frame only. -/
theorem ksSwapOut_alone (hlinked : s.Linked) (hhome : s.WalkedAtHome)
    (hplace : s.HasFrame victim.ordinal) (hspared : ∀ i, ¬ s.Child victim.ordinal i)
    (hmem : s'.mem = s.mem) (hpcbs : s'.pcbs = s.pcbs) (hsame : SameFrames s s') (depth : Nat) :
    ksSwapOut (depth + 1) s' victim = ksSwapOut 1 s' victim ∧
      ∀ t, ksSwapOut (depth + 1) s' victim = .ok t →
        t.ksEmpty = s.ksEmpty ++ [victim.ordinal] ∧
          ∀ f, f ≠ victim.ordinal → t.ksFt f = s.ksFt f := by
  rw [ksSwapOut_succ depth, ksSwapOut_succ 0]
  cases hcluster : s'.ksSwapCluster victim with
  | error halt =>
      simp only [error_bind]
      exact ⟨trivial, nofun⟩
  | ok r =>
      obtain ⟨cn, writeBack, s₁⟩ := r
      obtain ⟨hmem₁, hpcbs₁, hsame₁⟩ := ksSwapCluster_same hcluster
      obtain ⟨r, howner, hframes⟩ := ksSwapOwner_alone hlinked hhome hplace hspared
        (hmem₁.trans hmem) (hpcbs₁.trans hpcbs)
        ⟨hsame₁.ksFt.trans hsame.ksFt, hsame₁.ksEmpty.trans hsame.ksEmpty⟩ cn
      simp only [ok_bind, howner]
      refine ⟨trivial, fun t ht => ?_⟩
      obtain ⟨s₂, hr, hret⟩ := bind_ok ht
      obtain ⟨hft, hempty⟩ := hframes s₂ hr
      cases hret
      unfold ksSwapFinish ksFreePage
      split
      · refine ⟨by simp [withUser, hempty], fun f hf => ?_⟩
        simp [withUser, hf, hft]
      · refine ⟨by simp [hempty], fun f hf => ?_⟩
        simp [hf, hft]

/-- The kernel search ends with a safe victim, from any roll, where each process walks its own
master table. The frame it returns is unreserved and unlocked, and if it is a master table, none
of its page tables in memory is unlocked. Swapping it out never comes to a second call of
`ks_swap_out`, so no other frame is swapped out with it, locked or not. -/
theorem victim_safe (hopen : s.unlockedFrame = true) (hlinked : s.Linked)
    (hhome : s.WalkedAtHome) (hdice : s.dice = roll :: dice) :
    ∃ victim s', s.ksGetVictim = .ok (victim, s') ∧
      s.HasFrame victim.ordinal ∧ (s.ksFt victim.ordinal).getLocked = false ∧
      (∀ i, s.Child victim.ordinal i →
        (s.ksFt (s.frameSlot victim.ordinal i).block).getLocked = true) ∧
      ∀ depth, ksSwapOut (depth + 1) s' victim = ksSwapOut 1 s' victim ∧
        ∀ t, ksSwapOut (depth + 1) s' victim = .ok t →
          t.ksEmpty = s.ksEmpty ++ [victim.ordinal] ∧
            ∀ f, f ≠ victim.ordinal → t.ksFt f = s.ksFt f := by
  obtain ⟨victim, s', hvictim⟩ := ksGetVictim_returns hopen hdice
  obtain ⟨hplace, hspared⟩ := ksGetVictim_safe hlinked hopen hvictim
  obtain ⟨hunlocked, _, dice', hs'⟩ := KernelInv.ksGetVictim_ok hvictim
  have hnone : ∀ i, ¬ s.Child victim.ordinal i := by
    intro i hi
    have hlocked := hlinked.locked victim.ordinal i hi (hspared i hi)
    rw [hunlocked] at hlocked
    cases hlocked
  have hrolled : s'.mem = s.mem ∧ s'.pcbs = s.pcbs ∧ SameFrames s s' := by
    rw [hs']
    exact ⟨rfl, rfl, rfl, rfl⟩
  exact ⟨victim, s', hvictim, hplace, hunlocked, hspared,
    fun depth => ksSwapOut_alone hlinked hhome hplace hnone hrolled.1 hrolled.2.1 hrolled.2.2 depth⟩

end KernelSystem

theorem KernelInv.master_of_segTable {g : Layout} {handC : Nat → Prop} {s : KernelSystem} {m : Nat}
    (hinv : KernelInv g noHand handC s) (hempty : s.ksEmpty = [])
    (htype : (s.ksFt m).type = .ksSegTable) : ∃ h, g.place (.master h) = .frame m := by
  obtain ⟨h | ⟨h, slot⟩, hm⟩ := hinv.housed hempty (.inr htype)
  · exact ⟨h, hm⟩
  · rw [(hinv.tables h slot m hm).1] at htype
    cases htype

/-- In a consistent state with no frame left, the tables do point at each other. -/
theorem KernelInv.linked {g : Layout} {handC : Nat → Prop} {s : KernelSystem}
    (hinv : KernelInv g noHand handC s) (hempty : s.ksEmpty = [])
    (hlocked : ∀ h slot m f, g.place (.master h) = .frame m → g.place (.table h slot) = .frame f →
      (s.ksFt f).getLocked = true → (s.ksFt m).getLocked = true) : s.Linked := by
  have hchild : ∀ m i, s.Child m i → ∃ h slot, g.place (.master h) = .frame m ∧
      (KAddr.page m).index i = ⟨m, slotCell slot⟩ ∧
      g.place (.table h slot) = .frame (s.frameSlot m i).block := by
    rintro m i ⟨_, htype, hlt, hpresent⟩
    obtain ⟨h, hm⟩ := hinv.master_of_segTable hempty htype
    have hcell := index_slotCell m ⟨i, hlt⟩
    refine ⟨h, ⟨i, hlt⟩, hm, hcell, ?_⟩
    rw [frameSlot, hcell] at hpresent ⊢
    exact (hinv.agrees hm ⟨i, hlt⟩).present hpresent
  refine ⟨fun m i hi => ?_, fun m _ htype => ?_, fun m i hi hlock => ?_⟩
  · obtain ⟨h, slot, hm, hcell, hf⟩ := hchild m i hi
    obtain ⟨htype, m', hm', howner⟩ := hinv.tables h slot _ hf
    cases hm.symm.trans hm'
    exact ⟨hinv.hasFrame hf, htype, hcell ▸ howner⟩
  · obtain ⟨h, hm⟩ := hinv.master_of_segTable hempty htype
    obtain ⟨_, howner, p, hp, hat⟩ := hinv.masters h m hm
    exact ⟨h, p, howner, hp, hat.valid, hat.masterTable⟩
  · obtain ⟨h, slot, hm, _, hf⟩ := hchild m i hi
    exact hlocked h slot m _ hm hf hlock

/-- In a consistent state each process walks the tables in its master table. -/
theorem KernelInv.walkedAtHome {g : Layout} {handC : Nat → Prop} {s : KernelSystem}
    (hinv : KernelInv g noHand handC s) (hempty : s.ksEmpty = []) : s.WalkedAtHome := by
  intro m _ htype h p howner hp
  obtain ⟨x, hm⟩ := hinv.master_of_segTable hempty htype
  obtain ⟨_, howner', p', hp', hat⟩ := hinv.masters x m hm
  obtain rfl : x = h := by
    rw [howner] at howner'
    injection howner' with hpcb
    injection hpcb with hx
    exact hx.symm
  cases hp'.symm.trans hp
  exact ⟨hat.ptl1Ptr, hat.stPtr⟩

namespace KernelSystem

/-- Two processes fill the pool; the roll is a master table, and its page table is found. -/
theorem victim_safe_pool : ∃ (s s' : KernelSystem) (victim : Victim),
    s.ksGetVictim = .ok (victim, s') ∧ (s.ksFt victim.ordinal).type = .ksPageTable ∧
      ∀ depth t, ksSwapOut (depth + 1) s' victim = .ok t →
        ∀ f, f ≠ victim.ordinal → t.ksFt f = s.ksFt f := by
  have hruns : (KernelOp.runSmall KernelOp.settling 1 3 4 [0]
      [.createProcess, .createProcess, .createSegment 0 0 1 .readWrite]).any (fun r =>
      decide (r.1.userspcSize ≤ 65536) && decide (r.1.krnlspcSize ≤ 65536) &&
        decide (r.2.ksEmpty = []) && r.2.unlockedFrame && decide (r.2.dice = [0]) &&
        (List.range r.2.krnlspcSize).all (fun f => !(r.2.ksFt f).getLocked) &&
        Outcome.holds r.2.ksGetVictim fun v =>
          decide ((r.2.ksFt v.1.ordinal).type = .ksPageTable)) = true := by
    decide +kernel
  obtain ⟨⟨start, s⟩, hr, hcheck⟩ := (Option.any_eq_true _ _).mp hruns
  simp only [Bool.and_eq_true, decide_eq_true_eq, List.all_eq_true, List.mem_range,
    Bool.not_eq_true'] at hcheck
  obtain ⟨⟨⟨⟨⟨⟨huser, hkrnl⟩, hempty⟩, hopen⟩, hdice⟩, hunlocked⟩, htable⟩ := hcheck
  obtain ⟨g, hinv, _⟩ := KernelOp.consistent_of_settling hr huser hkrnl
  have hlinked : s.Linked := hinv.linked hempty fun h slot m f _ hf hlock => by
    rw [hunlocked f (hinv.hasFrame hf).2] at hlock
    cases hlock
  obtain ⟨v, hvictim, htype⟩ := Outcome.of_holds htable
  obtain ⟨victim, s', hvictim', _, _, _, hswap⟩ :=
    victim_safe hopen hlinked (hinv.walkedAtHome hempty) hdice
  cases hvictim.symm.trans hvictim'
  exact ⟨s, s', victim, hvictim', of_decide_eq_true htype,
    fun depth t ht => ((hswap depth).2 t ht).2⟩

instance (s : KernelSystem) (f : Nat) : Decidable (s.HasFrame f) :=
  inferInstanceAs (Decidable (_ ∧ _))

/-- A test that the tables in kernel space point at each other. -/
def linked (s : KernelSystem) : Bool :=
  (List.range s.krnlspcSize).all fun place =>
    !decide (s.HasFrame place ∧ (s.ksFt place).type = .ksSegTable) ||
      ((List.range maxPageTablesL1).all fun i =>
        !decide ((s.frameSlot place i).status = PageTableL1Entry.statusPresent) ||
          decide (s.HasFrame (s.frameSlot place i).block ∧
            (s.ksFt (s.frameSlot place i).block).type = .ksPageTable ∧
            (s.ksFt (s.frameSlot place i).block).owner =
              some (.ptl1e ((KAddr.page place).index i)) ∧
            ((s.ksFt (s.frameSlot place i).block).getLocked = true →
              (s.ksFt place).getLocked = true))) &&
      (match (s.ksFt place).owner with
        | some (.pcb h) => (s.pcbs h).any fun p =>
            p.masterTableValid && decide (p.masterTable = place)
        | _ => false)

theorem linked_of_check {s : KernelSystem} (hlinked : s.linked = true) : s.Linked := by
  have hplace : ∀ place, s.HasFrame place → (s.ksFt place).type = .ksSegTable → _ :=
    fun place hframe htype => by
      have hcheck := List.all_eq_true.mp hlinked place (List.mem_range.mpr hframe.2)
      rw [decide_eq_true ⟨hframe, htype⟩, Bool.not_true, Bool.false_or, Bool.and_eq_true] at hcheck
      exact hcheck
  have hchild : ∀ place i, s.Child place i → _ := fun place i hi => by
    have hcheck := List.all_eq_true.mp (hplace place hi.1 hi.2.1).1 i (List.mem_range.mpr hi.2.2.1)
    rw [decide_eq_true hi.2.2.2, Bool.not_true, Bool.false_or, decide_eq_true_eq] at hcheck
    exact hcheck
  refine ⟨fun place i hi => ?_, fun place hframe htype => ?_, fun place i hi =>
    (hchild place i hi).2.2.2⟩
  · obtain ⟨hframe, htype, howner, _⟩ := hchild place i hi
    exact ⟨hframe, htype, howner⟩
  · have hcheck := (hplace place hframe htype).2
    split at hcheck
    · rename_i h howner
      obtain ⟨p, hp, hvalid⟩ := (Option.any_eq_true _ _).mp hcheck
      simp only [Bool.and_eq_true, decide_eq_true_eq] at hvalid
      exact ⟨h, p, howner, hp, hvalid⟩
    · cases hcheck

/-- A master table that came back to another frame is chosen. Its process still walks the frame
where the table was before, which another process has for its master table now, and evicts the
page table of that one, which is locked. -/
theorem victim_not_safe : ¬ ∀ (s : KernelSystem) (roll : Nat) (dice : List Nat),
    s.unlockedFrame = true → s.Linked → s.dice = roll :: dice →
    ∃ victim s', s.ksGetVictim = .ok (victim, s') ∧
      s.HasFrame victim.ordinal ∧ (s.ksFt victim.ordinal).getLocked = false ∧
      (∀ i, s.Child victim.ordinal i →
        (s.ksFt (s.frameSlot victim.ordinal i).block).getLocked = true) ∧
      ∀ depth t, ksSwapOut depth s' victim = .ok t →
        ∀ f, (s.ksFt f).getLocked = true → f ∉ s.ksEmpty → f ∉ t.ksEmpty := by
  intro hall
  have hruns : ((KernelOp.runSmall KernelOp.anyStep 1 3 6 [0, 1, 2, 0]
      [.createProcess, .createProcess, .createProcess, .createProcess, .access 0 0 .read,
        .createSegment 3 0 1 .read]).map fun r => (r.2.ksLockPage 4).ksLockPage 6).any (fun s =>
      s.unlockedFrame && s.linked && decide (s.dice = [0]) && decide (s.ksEmpty = []) &&
        (s.ksFt 6).getLocked && Outcome.holds s.ksGetVictim fun v =>
          Outcome.holds (ksSwapOut 2 v.2 v.1) fun t => decide (6 ∈ t.ksEmpty)) = true := by
    decide +kernel
  obtain ⟨s, _, hcheck⟩ := (Option.any_eq_true _ _).mp hruns
  simp only [Bool.and_eq_true, decide_eq_true_eq] at hcheck
  obtain ⟨⟨⟨⟨⟨hopen, hlinked⟩, hdice⟩, hempty⟩, hlocked⟩, hswap⟩ := hcheck
  obtain ⟨v, hvictim, hswap⟩ := Outcome.of_holds hswap
  obtain ⟨t, ht, hfreed⟩ := Outcome.of_holds hswap
  obtain ⟨victim, s', hvictim', _, _, _, hsafe⟩ := hall s 0 [] hopen (linked_of_check hlinked) hdice
  cases hvictim.symm.trans hvictim'
  exact hsafe 2 t ht 6 hlocked (by simp [hempty]) (of_decide_eq_true hfreed)

end KernelSystem

end VirtualMemory
