import VirtualMemory.AddressSpace
import VirtualMemory.Faults
import VirtualMemory.VictimSearch

/-!
# When paging stops

In a consistent state a frame is taken, a page table brought in and a fault handled unless
the disk is full. Each search for a victim uses one roll, and nothing else does: two rolls
are enough for a fault, whatever they are.
-/

namespace VirtualMemory

open Function UserSpace KernelSystem Outcome

/-- Whenever the computation returns, these are the rolls that are left. -/
def Leaves (dice : List Nat) (x : Except Halt KernelSystem) : Prop :=
  Meets (fun _ => False) (fun s => s.dice = dice) x

section Rolls

variable {s s' : KernelSystem} {dice : List Nat}

theorem usSwapOut_dice {us us' : UserSpace KAddr} {victim : Victim}
    (hswap : us.usSwapOut victim = .ok us') : us'.dice = us.dice := by
  obtain ⟨cn, t, pte, wrote, _, _, rfl⟩ := usSwapOut_ok hswap
  simp only [afterSwapOut]
  rw [wrote.state]

theorem evictChildren_leaves (hdice : s.dice = dice) (page : Nat) :
    Leaves dice (s.onUser (pageTableEvictChildren · page)) := by
  refine Meets.bind (P := fun us : UserSpace KAddr => us.dice = dice) ?_ fun us hus => hus
  refine Meets.foldlM (fun us i hus => ?_) hdice
  unfold pageTableEvictChild
  dsimp only
  split
  · exact hus
  · split
    · cases hswap : us.usEvictPage (us.mem ((KAddr.page page).index i)).block
        (us.mem ((KAddr.page page).index i)).getDirty with
      | error halt => exact id
      | ok us' => exact (usSwapOut_dice hswap).trans hus
    · exact hus

theorem acquireCluster_dice {us us' : UserSpace KAddr} {c : Nat}
    (hacquire : us.dvtAcquireCluster = some (c, us')) : us'.dice = us.dice := by
  obtain ⟨_, rfl⟩ := dvtAcquireCluster_some hacquire
  rfl

theorem masterTableEvictChildren_leaves
    {evict : KernelSystem → Nat → Except Halt KernelSystem} (hdice : s.dice = dice)
    (hevict : ∀ s f, s.dice = dice → Leaves dice (evict s f)) (h : Nat) :
    Leaves dice (s.masterTableEvictChildren evict h) := by
  have hpcb : ∀ s : KernelSystem, Meets (fun _ => False) (fun _ => True) (s.pcb h) := by
    intro s
    unfold KernelSystem.pcb
    split
    · exact id
    · trivial
  refine Meets.foldlM (fun s i hs => ?_) hdice
  refine Meets.bind (hpcb s) fun p _ => ?_
  refine Meets.bind (P := fun s' : KernelSystem => s'.dice = dice) ?_ fun s' hs' => ?_
  · unfold evictPresent
    split
    · exact Meets.bind (evictChildren_leaves hs _) fun s' hs' => hevict s' _ hs'
    · exact hs
  · exact Meets.bind (hpcb s') fun p _ => hs'

theorem ksSwapOut_leaves : ∀ (depth : Nat) (s : KernelSystem) (victim : Victim),
    s.dice = dice → Leaves dice (ksSwapOut depth s victim)
  | 0, _, _, _ => id
  | depth + 1, s, victim, hdice => by
      refine Meets.bind (P := fun r : Nat × Bool × KernelSystem => r.2.2.dice = dice) ?_
        fun ⟨cn, writeBack, s⟩ hs => Meets.bind (P := fun s' : KernelSystem => s'.dice = dice) ?_
          fun s' hs' => ?_
      · unfold ksSwapCluster
        split
        · split
          · exact id
          · exact (acquireCluster_dice ‹_›).trans hdice
        · exact hdice
      · have hevict : ∀ s f, s.dice = dice → Leaves dice (ksEvictWith (ksSwapOut depth) s f) := by
          intro s f hs
          unfold ksEvictWith
          split
          · exact id
          · exact ksSwapOut_leaves depth _ _ ((acquireCluster_dice ‹_›).trans hs)
        unfold ksSwapOwner
        split
        · exact Meets.bind (evictChildren_leaves hs _) fun s' hs' => hs'
        · refine Meets.bind (masterTableEvictChildren_leaves hs hevict _) fun s' hs' => ?_
          unfold KernelSystem.pcb
          split
          · exact id
          · exact hs'
        · exact id
        · exact id
        · exact id
      · cases writeBack <;> exact hs'

/-- Taking a kernel frame uses at most one roll. -/
theorem ksTakePage_dice {f : Nat} (htake : s.ksTakePage = .ok (f, s')) :
    s.dice.length ≤ s'.dice.length + 1 := by
  unfold ksTakePage ksGetEmptyPage at htake
  split at htake
  · rename_i page s₁ hempty
    cases htake
    split at hempty
    · cases hempty
    · cases hempty
      exact Nat.le_succ _
  · obtain ⟨⟨victim, s₁⟩, hvictim, hrest⟩ := bind_ok htake
    obtain ⟨s₂, hswap, hlast⟩ := bind_ok hrest
    have hone : s.dice.length ≤ s₁.dice.length + 1 := by
      unfold ksGetVictim at hvictim
      split at hvictim
      · cases hvictim
      · rename_i roll dice hdice
        dsimp only at hvictim
        rw [hdice]
        split at hvictim
        · split at hvictim
          · cases hvictim
          · cases hvictim
            exact Nat.le_refl _
        · cases hvictim
          exact Nat.le_refl _
    have hleft : s₂.dice = s₁.dice := (ksSwapOut_leaves _ _ _ rfl).ok hswap
    split at hlast
    · rename_i page s₃ hempty
      cases hlast
      split at hempty
      · cases hempty
      · cases hempty
        show _ ≤ s₂.dice.length + 1
        rw [hleft]
        exact hone
    · cases hlast

end Rolls

section User

variable {V D E : Type} [DecidableEq D] {w : PageView V D} {ext : E → Nat → Prop}
  {us : UserSpace D} {halt : Halt}

/-- With a roll left, a search for any victim ends. -/
theorem usTakePage_ends (hdice : us.dice ≠ []) :
    Meets (fun e => e = .stillSearching ∨ e = .noVictim) (fun _ => True) (us.usTakePage none) := by
  unfold usTakePage
  split
  · trivial
  · refine Meets.bind (P := fun _ => True) ?_ fun ⟨victim, us₁⟩ _ =>
      Meets.bind (P := fun _ => True) ?_ fun us₂ _ => ?_
    · unfold usGetVictim
      cases hrolls : us.dice with
      | nil => exact absurd hrolls hdice
      | cons roll dice => exact trivial
    · unfold usSwapOut
      refine Meets.bind (P := fun _ => True) ?_ fun ⟨cn, us₂⟩ _ => ?_
      · unfold usWriteBack
        split
        · split
          · exact nofun
          · trivial
        · split <;> trivial
      · dsimp only
        split
        · split
          · exact nofun
          · trivial
        · exact nofun
    · split
      · trivial
      · exact nofun

theorem usTakePage_full [DecidableEq V] (hinv : UserInv w noHand ext us)
    (hpos : 0 < us.userspcSize) (hdice : us.dice ≠ [])
    (htake : us.usTakePage none = .error halt) : halt = .diskFullUs := by
  obtain hfull | hsearch | hnone := usTakePage_error hinv hpos htake
  · exact hfull
  · exact absurd htake ((usTakePage_ends hdice).not_error (hsearch ▸ .inl rfl))
  · exact absurd htake ((usTakePage_ends hdice).not_error (hnone ▸ .inr rfl))

/-- A fault on a page in a table that is in memory stops only when the disk is full. -/
theorem faultPage_full [DecidableEq V] (hinv : UserInv w noHand ext us)
    (hpos : 0 < us.userspcSize) (hdice : us.dice ≠ []) {pte : D}
    (hfault : us.faultPage pte = .error halt) : halt = .diskFullUs := by
  unfold faultPage at hfault
  split at hfault
  · obtain h | ⟨r, _, h⟩ := bind_error hfault
    · exact usTakePage_full hinv hpos hdice (usRequestPage_error h)
    · cases h
  · split at hfault
    · obtain h | ⟨r, _, h⟩ := bind_error hfault
      · exact usTakePage_full hinv hpos hdice (usRequestPage_error h)
      · cases h
    · cases hfault

end User

section Tables

variable {V E : Type} [DecidableEq V] {ext : E → Nat → Prop} {w : PageView V KAddr}
  {us : UserSpace KAddr} {f : Nat} {halt : Halt}

theorem pageTableEvictChildren_full (hinv : UserInv w noHand ext us)
    (hpage : ∀ i : Fin 256, ∃ v, w.addr v = some ⟨f, i⟩)
    (hevict : pageTableEvictChildren us f = .error halt) : halt = .diskFullUs := by
  let I : List Nat → UserSpace KAddr → Prop := fun rest u =>
    (∀ i ∈ rest, i < 256) ∧ ∃ w', UserInv w' noHand ext u ∧ Paged ext w us w' u
  have hstep : ∀ i rest u u', I (i :: rest) u → pageTableEvictChild f u i = .ok u' → I rest u' := by
    rintro i rest u u' ⟨hlt, w₁, hinv₁, hpaged₁⟩ hi
    obtain ⟨v, hv⟩ := hpage ⟨i, hlt i (by simp)⟩
    obtain ⟨w₂, hinv₂, hpaged₂, _⟩ :=
      pageTableEvictChild_inv hinv₁ (hlt i (by simp)) (by rw [hpaged₁.addr, hv]) hi
    exact ⟨fun j hj => hlt j (by simp [hj]), w₂, hinv₂, hpaged₁.trans hpaged₂⟩
  obtain ⟨i, rest, u, ⟨hlt, w₁, hinv₁, hpaged₁⟩, hi⟩ := foldlM_error I hstep
    ⟨fun i hi => by simpa [pageTableSizeL2] using hi, w, hinv, .refl ..⟩ hevict
  obtain ⟨v, hv⟩ := hpage ⟨i, hlt i (by simp)⟩
  have hlink := hinv₁.frames.link v _ (hpaged₁.addr ▸ hv)
  unfold pageTableEvictChild at hi
  simp only [KAddr.index_page f (hlt i (by simp)), hlink] at hi
  split at hi
  · cases hi
  · rename_i hshared
    split at hi
    · rename_i hvalid
      exact usSwapOut_error hinv₁.frames ⟨by simpa using hshared, hvalid⟩ rfl hi
    · cases hi

end Tables

namespace KernelInv

variable {g : Layout} {hand handC : Nat → Prop} {s s' : KernelSystem} {h : Nat} {slot : Fin 64}
  {k m c f d : Nat} {halt : Halt}

theorem pcb_ne_error (hinv : KernelInv g hand handC s) (hm : g.place (.master h) = .frame m) :
    s.pcb h ≠ .error halt := by
  obtain ⟨p, hp, _⟩ := hinv.pcb_ok hm
  rw [hp]
  exact nofun

theorem evictChildren_full (hinv : KernelInv g hand handC s)
    (hk : g.place (.table h slot) = .frame k)
    (hevict : s.onUser (pageTableEvictChildren · k) = .error halt) : halt.isDiskFull = true := by
  obtain hchildren | ⟨us, _, hret⟩ := bind_error hevict
  · rw [pageTableEvictChildren_full hinv.user
      (fun i => ⟨⟨h, slot, i⟩, Layout.addr_of_frame hk i⟩) hchildren]
    rfl
  · cases hret

theorem swapOwner_table_full {evict : KernelSystem → Nat → Except Halt KernelSystem}
    (hinv : KernelInv g hand handC s) (hk : g.place (.table h slot) = .frame k)
    (hown : s.ksSwapOwner evict k c = .error halt) : halt.isDiskFull = true := by
  obtain ⟨htype, m, hm, howner⟩ := hinv.tables h slot k hk
  unfold ksSwapOwner at hown
  simp only [htype, howner] at hown
  obtain hchildren | ⟨s₁, _, hret⟩ := bind_error hown
  · exact hinv.evictChildren_full hk hchildren
  · cases hret

/-- `ks_evict_page` of a page table, with stack for it. -/
theorem evictTable_full (hinv : KernelInv g hand handC s)
    (hk : g.place (.table h slot) = .frame k)
    (hevict : ksEvictWith (ksSwapOut (d + 1)) s k = .error halt) : halt.isDiskFull = true := by
  unfold ksEvictWith at hevict
  cases hacquire : s.dvtAcquireCluster with
  | none =>
      simp only [hacquire, Except.error.injEq] at hevict
      rw [← hevict]
      rfl
  | some r =>
      obtain ⟨c, us⟩ := r
      simp only [hacquire] at hevict
      obtain ⟨hinv₁, _, _⟩ :=
        hinv.acquireCluster hacquire (fun x => Iff.rfl (a := handC x ∨ x = c))
      have hc : c < maxClusters := hinv₁.cluster_lt (r := .hand c) ⟨.inr rfl, rfl⟩
      have hnull : c ≠ nullCluster := by
        unfold maxClusters at hc
        unfold nullCluster
        omega
      obtain hcluster | ⟨⟨cn, writeBack, s₁⟩, hcluster, hrest⟩ := bind_error hevict
      · rw [ksSwapCluster, if_neg hnull] at hcluster
        cases hcluster
      · rw [ksSwapCluster, if_neg hnull] at hcluster
        cases hcluster
        obtain hown | ⟨s₂, _, hret⟩ := bind_error hrest
        · exact hinv₁.swapOwner_table_full hk hown
        · cases hret

theorem evictPresent_full (hinv : KernelInv g hand handC s)
    (hm : g.place (.master h) = .frame m)
    (hevict : s.evictPresent (ksEvictWith (ksSwapOut (d + 1))) (s.ptl1 ⟨m, slotCell slot⟩) =
      .error halt) : halt.isDiskFull = true := by
  unfold evictPresent at hevict
  split at hevict
  · rename_i hpresent
    have hk := L1Agrees.present (hinv.agrees hm slot) hpresent
    obtain hchildren | ⟨s₀, hchildren, hrest⟩ := bind_error hevict
    · exact hinv.evictChildren_full hk hchildren
    · obtain ⟨w', hinv₀, _, _⟩ := hinv.evictChildren hk hchildren
      exact hinv₀.evictTable_full hk hrest
  · cases hevict

/-- After the page table of a slot was evicted, the master table is where it was. -/
theorem evictPresent_pcb (hinv : KernelInv g hand handC s)
    (hm : g.place (.master h) = .frame m)
    (hevict : s.evictPresent (ksEvictWith (ksSwapOut (d + 1))) (s.ptl1 ⟨m, slotCell slot⟩) =
      .ok s') : s'.pcb h ≠ .error halt := by
  unfold evictPresent at hevict
  split at hevict
  · rename_i hpresent
    have hk := L1Agrees.present (hinv.agrees hm slot) hpresent
    obtain ⟨s₀, hchildren, hrest⟩ := bind_ok hevict
    obtain ⟨w', hinv₀, _, _⟩ := hinv.evictChildren hk hchildren
    obtain ⟨g₁, c, hinv₁, hevicted₁, _⟩ := hinv₀.evictTable hk hrest
    exact hinv₁.pcb_ne_error ((hevicted₁.place (.master h) nofun).trans hm)
  · cases hevict
    exact hinv.pcb_ne_error hm

theorem masterTableEvictChildren_full (hinv : KernelInv g hand handC s)
    (hm : g.place (.master h) = .frame m)
    (hloop : masterTableEvictChildren (ksEvictWith (ksSwapOut (d + 1))) h s = .error halt) :
    halt.isDiskFull = true := by
  let I : List Nat → KernelSystem → Prop := fun rest u =>
    (∀ i ∈ rest, i < 64) ∧ ∃ g', KernelInv g' hand handC u ∧ g'.place (.master h) = .frame m
  have hstep : ∀ i rest u u', I (i :: rest) u →
      masterTableEvictChild (ksEvictWith (ksSwapOut (d + 1))) h u i = .ok u' → I rest u' := by
    rintro i rest u u' ⟨hlt, g₁, hinv₁, hm₁⟩ hi
    obtain ⟨g₂, hinv₂, hleft₂, _⟩ := hinv₁.masterTableEvictChild_inv hm₁
      (show masterTableEvictChild _ h u (⟨i, hlt i (by simp)⟩ : Fin 64) = .ok u' from hi)
    exact ⟨fun j hj => hlt j (by simp [hj]), g₂, hinv₂, (hleft₂.place (.master h) nofun).trans hm₁⟩
  obtain ⟨i, rest, u, ⟨hlt, g₁, hinv₁, hm₁⟩, hi⟩ := foldlM_error I hstep
    ⟨fun i hi => by simpa [maxPageTablesL1] using hi, g, hinv, hm⟩ hloop
  obtain ⟨p, hp, _, hat⟩ := hinv₁.pcb_ok hm₁
  have hindex : p.ptl1Ptr.index i = ⟨m, slotCell ⟨i, hlt i (by simp)⟩⟩ := by
    rw [hat.ptl1Ptr, ← index_slotCell]
  unfold masterTableEvictChild at hi
  simp only [hp, ok_bind, hindex] at hi
  obtain hpresent | ⟨u', hpresent, hrest⟩ := bind_error hi
  · exact hinv₁.evictPresent_full hm₁ hpresent
  · obtain hpcb | ⟨_, _, hret⟩ := bind_error hrest
    · exact absurd hpcb (hinv₁.evictPresent_pcb hm₁ hpresent)
    · cases hret

theorem swapOwner_master_full (hinv : KernelInv g hand handC s)
    (hm : g.place (.master h) = .frame m)
    (hown : s.ksSwapOwner (ksEvictWith (ksSwapOut (d + 1))) m c = .error halt) :
    halt.isDiskFull = true := by
  obtain ⟨htype, howner, _⟩ := hinv.masters h m hm
  unfold ksSwapOwner at hown
  simp only [htype, howner] at hown
  obtain hchildren | ⟨s₁, hchildren, hrest⟩ := bind_error hown
  · exact hinv.masterTableEvictChildren_full hm hchildren
  · obtain ⟨g₁, hinv₁, hleft, _⟩ := hinv.masterTableEvictChildren_inv hm hchildren
    obtain hpcb | ⟨_, _, hret⟩ := bind_error hrest
    · exact absurd hpcb (hinv₁.pcb_ne_error ((hleft.place _ (by simp)).trans hm))
    · cases hret

/-- Passing over a master table leads to a frame of one of its page tables. -/
theorem passOn_hasFrame (hinv : KernelInv g noHand handC s) (hempty : s.ksEmpty = [])
    (hf : s.HasFrame f) : s.HasFrame (s.passOn f) := by
  unfold passOn
  split
  · rename_i htype
    split
    · rename_i i hfound
      have hi := List.find?_some hfound
      have hlt : i < 64 := by simpa [maxPageTablesL1] using List.mem_of_find?_eq_some hfound
      simp only [Bool.and_eq_true, decide_eq_true_eq] at hi
      rw [show (KAddr.page f).index i = ⟨f, slotCell ⟨i, hlt⟩⟩ from
        index_slotCell f ⟨i, hlt⟩] at hi ⊢
      obtain ⟨h | ⟨h, slot⟩, ht⟩ := hinv.housed hempty (.inr htype)
      · exact hinv.hasFrame (L1Agrees.present (hinv.agrees ht ⟨i, hlt⟩) hi.1)
      · rw [(hinv.tables h slot f ht).1] at htype
        cases htype
    · exact hf
  · exact hf

theorem hasFrame_nextPlace (hplace : s.HasFrame f) : s.HasFrame (s.nextPlace f) := by
  obtain ⟨hle, hlt⟩ := hplace
  unfold nextPlace KernelSystem.HasFrame
  split <;> omega

theorem findUnlocked_hasFrame (hinv : KernelInv g noHand handC s) (hempty : s.ksEmpty = []) :
    ∀ {n place found : Nat}, s.HasFrame place → s.findUnlocked n place = some found →
      s.HasFrame found
  | 0, _, _, _, hfind => by cases hfind
  | n + 1, place, found, hplace, hfind => by
      have hnext := hasFrame_nextPlace hplace
      have hunfold : (if s.krnlspcSize ≤ place + 1 then s.ksReserved else place + 1) =
        s.nextPlace place := rfl
      simp only [findUnlocked, hunfold] at hfind
      split at hfind
      · exact findUnlocked_hasFrame hinv hempty hnext hfind
      · split at hfind
        · split at hfind
          · exact findUnlocked_hasFrame hinv hempty (hinv.passOn_hasFrame hempty hnext) hfind
          · cases hfind
            exact hinv.passOn_hasFrame hempty hnext
        · cases hfind
          exact hnext

/-- The victim is a frame above the reserved ones. -/
theorem ksGetVictim_hasFrame {victim : Victim} (hinv : KernelInv g noHand handC s)
    (hempty : s.ksEmpty = []) (hpool : s.ksReserved < s.krnlspcSize)
    (hvictim : s.ksGetVictim = .ok (victim, s')) : s.HasFrame victim.ordinal := by
  unfold ksGetVictim at hvictim
  split at hvictim
  · cases hvictim
  · rename_i roll dice _
    dsimp only at hvictim
    have hdiced := hinv.diced dice
    have hroll : s.HasFrame (s.ksReserved + roll % (s.krnlspcSize - s.ksReserved)) := by
      have hmod := Nat.mod_lt roll (Nat.sub_pos_of_lt hpool)
      unfold KernelSystem.HasFrame
      omega
    have hpassed := hdiced.passOn_hasFrame hempty hroll
    split at hvictim
    · split at hvictim
      · cases hvictim
      · rename_i place hfind
        cases hvictim
        exact hdiced.findUnlocked_hasFrame hempty hpassed hfind
    · cases hvictim
      exact hpassed

/-- With no frame free, every frame above the reserved ones houses a table. -/
theorem housed_of_full (hinv : KernelInv g noHand handC s) (hempty : s.ksEmpty = [])
    (hf : s.HasFrame f) : ∃ t, g.place t = .frame f := by
  obtain ⟨t | n, hholds⟩ := hinv.frames.covered hf (by simp [hempty])
  · exact ⟨t, hholds⟩
  · exact absurd hholds.1 id

/-- Swapping out a table, with stack for the tables below it. -/
theorem ksSwapOut_full {victim : Victim} {t : KTable} (hinv : KernelInv g noHand noHand s)
    (ht : g.place t = .frame victim.ordinal) (hnull : victim.cluster = nullCluster)
    (hswap : ksSwapOut (d + 2) s victim = .error halt) : halt.isDiskFull = true := by
  obtain hcluster | ⟨⟨cn, writeBack, s₁⟩, hcluster, hrest⟩ := bind_error hswap
  · rw [ksSwapCluster, if_pos hnull] at hcluster
    split at hcluster
    · cases hcluster
      rfl
    · cases hcluster
  · rw [ksSwapCluster, if_pos hnull] at hcluster
    cases hacquire : s.dvtAcquireCluster with
    | none => simp [hacquire] at hcluster
    | some r =>
        obtain ⟨c, us⟩ := r
        simp only [hacquire, Except.ok.injEq, Prod.mk.injEq] at hcluster
        obtain ⟨rfl, rfl, rfl⟩ := hcluster
        obtain ⟨hinv₁, _⟩ := hinv.acquireCluster hacquire
          (fun x => (by simp [noHand] : x = c ↔ noHand x ∨ x = c))
        obtain hown | ⟨s₂, _, hret⟩ := bind_error hrest
        · cases t with
          | master h => exact hinv₁.swapOwner_master_full ht hown
          | table h slot => exact hinv₁.swapOwner_table_full ht hown
        · cases hret

/-- Where there is no free frame, taking one stops where the search for a victim does. -/
theorem ksTakePage_error (hinv : KernelInv g noHand noHand s)
    (hpool : s.ksReserved < s.krnlspcSize) (htake : s.ksTakePage = .error halt) :
    halt.isDiskFull = true ∨ s.ksGetVictim = .error halt := by
  unfold ksTakePage ksGetEmptyPage at htake
  cases hempty : s.ksEmpty with
  | cons page rest => simp [hempty] at htake
  | nil =>
      simp only [hempty] at htake
      obtain hvictim | ⟨⟨victim, s₀⟩, hvictim, hrest⟩ := bind_error htake
      · exact .inr hvictim
      · left
        have hf := hinv.ksGetVictim_hasFrame hempty hpool hvictim
        obtain ⟨_, hnull, dice, rfl⟩ := ksGetVictim_ok hvictim
        obtain hswap | ⟨s₁, hswap, hlast⟩ := bind_error hrest
        · obtain ⟨t, ht⟩ := hinv.housed_of_full hempty hf
          exact (hinv.diced dice).ksSwapOut_full ht hnull hswap
        · obtain ⟨_, cn, writeBack, _, s₂, _, _, _, rfl⟩ := ksSwapOut_ok hswap
          have hlist : (s₂.ksSwapFinish victim.ordinal cn writeBack).ksEmpty =
              s₂.ksEmpty ++ [victim.ordinal] := by
            cases writeBack <;> rfl
          rw [hlist] at hlast
          cases hlast' : s₂.ksEmpty ++ [victim.ordinal] with
          | nil => simp at hlast'
          | cons page rest => simp [hlast'] at hlast

theorem ksTakePage_full (hinv : KernelInv g noHand noHand s) (hopen : s.unlockedFrame = true)
    (hdice : s.dice ≠ []) (htake : s.ksTakePage = .error halt) : halt.isDiskFull = true := by
  refine (hinv.ksTakePage_error (pool_of_unlocked hopen) htake).resolve_right fun hvictim => ?_
  obtain rfl := ksGetVictim_error hdice hvictim
  exact ksGetVictim_finds hopen hvictim

theorem fetchPageTable_full {lock : Bool} {a : KAddr} (hinv : KernelInv g noHand noHand s)
    (hopen : s.unlockedFrame = true) (hdice : s.dice ≠ [])
    (hfetch : s.fetchPageTable a lock = .error halt) : halt.isDiskFull = true := by
  obtain hrequest | ⟨_, _, hret⟩ := bind_error hfetch
  · obtain hacquire | ⟨⟨page, s₁⟩, _, hget⟩ := bind_error hrequest
    · obtain htake | ⟨_, _, hret⟩ := bind_error hacquire
      · exact hinv.ksTakePage_full hopen hdice htake
      · cases hret
    · dsimp only at hget
      split at hget <;> cases hget
  · cases hret

/-- A page table that comes back uses at most one roll. -/
theorem fetchPageTable_dice {lock : Bool} {a : KAddr}
    (hfetch : s.fetchPageTable a lock = .ok s') : s.dice.length ≤ s'.dice.length + 1 := by
  obtain ⟨⟨page, s₁⟩, hrequest, hret⟩ := bind_ok hfetch
  obtain ⟨⟨page', s₂⟩, hacquire, hget⟩ := bind_ok hrequest
  obtain ⟨⟨page'', s₃⟩, htake, hft⟩ := bind_ok hacquire
  have hone := ksTakePage_dice htake
  cases hret
  cases hft
  dsimp only at hget
  split at hget <;>
    · cases hget
      exact hone

end KernelInv

namespace Working

variable {g : Layout} {s s' : KernelSystem} {h m addr : Nat} {ptl2e : KAddr} {halt : Halt}

/-- The page table of a page of a segment is somewhere. -/
theorem table_somewhere (hwork : Working g h m s)
    (hinseg : (g.desc (pageOf h addr)).getInseg = true) :
    (∃ f, g.place (.table h (slotOf addr)) = .frame f) ∨
      ∃ c, g.place (.table h (slotOf addr)) = .cluster c := by
  cases hpl : g.place (.table h (slotOf addr)) with
  | frame f => exact .inl ⟨f, rfl⟩
  | cluster c => exact .inr ⟨c, rfl⟩
  | gone =>
      rw [hwork.inv.inseg_nowhere (.inl hpl)] at hinseg
      cases hinseg
  | lost => exact absurd hpl (hwork.sound h _ m hwork.master.1)

theorem faultPtl2_full (hwork : Working g h m s)
    (hinseg : (g.desc (pageOf h addr)).getInseg = true) (hopen : s.unlockedFrame = true)
    (hdice : s.dice ≠ [])
    (hfault : s.faultPtl2 h addr ⟨m, slotCell (slotOf addr)⟩ = .error halt) :
    halt.isDiskFull = true := by
  unfold faultPtl2 at hfault
  obtain ⟨f, hf⟩ | ⟨c, hc⟩ := hwork.table_somewhere hinseg
  · simp only [hwork.inv.accessPtl2_eq hwork.master.1 hf] at hfault
    cases hfault
  · have hagree := hwork.inv.agrees hwork.master.1 (slotOf addr)
    rw [hc] at hagree
    have hout : s.accessPtl2 addr ⟨m, slotCell (slotOf addr)⟩ = .error .pageFault := by
      unfold accessPtl2
      rw [if_neg (by rw [hagree.1]; decide), if_pos hagree.1]
    simp only [hout, swapPageTable, hwork.inv.accessPtl1_eq hwork.master.1, ok_bind] at hfault
    obtain hfetch | ⟨s₁, hfetch, hrest⟩ := bind_error hfault
    · exact hwork.inv.fetchPageTable_full hopen hdice hfetch
    · obtain ⟨g', f, hinv', _, _, hin, _⟩ := hwork.inv.fetchPageTable_inv hwork.master hc hfetch
      simp only [hinv'.accessPtl2_eq hin.master.1 hin.table, derefPtl2, ok_bind] at hrest
      cases hrest

theorem faultPtl2_dice (hwork : Working g h m s)
    (hfault : s.faultPtl2 h addr ⟨m, slotCell (slotOf addr)⟩ = .ok (ptl2e, s')) :
    s.dice.length ≤ s'.dice.length + 1 := by
  unfold faultPtl2 at hfault
  split at hfault
  · cases hfault
    exact Nat.le_succ _
  · simp only [swapPageTable, hwork.inv.accessPtl1_eq hwork.master.1, ok_bind] at hfault
    obtain ⟨s₁, hfetch, hrest⟩ := bind_ok hfault
    obtain ⟨_, _, hret⟩ := bind_ok hrest
    cases hret
    exact KernelInv.fetchPageTable_dice hfetch
  · cases hfault

end Working

namespace KernelInv

variable {g : Layout} {s : KernelSystem} {h m addr depth : Nat} {halt : Halt}

/-- Locking one frame leaves another one open. -/
theorem unlockedFrame_lock {f : Nat} (hf : s.HasFrame f) (hne : f ≠ m)
    (hopen : (s.ksFt f).getLocked = false) : (s.ksLockPage m).unlockedFrame = true := by
  simp only [unlockedFrame, List.any_eq_true, List.mem_range, Bool.and_eq_true, decide_eq_true_eq,
    Bool.not_eq_true']
  refine ⟨f, hf.2, hf.1, ?_⟩
  simpa [ksLockPage, hne] using hopen

/-- A fault on a private page of a segment ends, unless the disk is full. -/
theorem pageFault_full {f : Nat} (hinv : KernelInv g noHand noHand s) (hsound : g.Sound)
    (hm : g.place (.master h) = .frame m) (hinseg : (g.desc (pageOf h addr)).getInseg = true)
    (hshared : (g.desc (pageOf h addr)).getShared = false) (hf : s.HasFrame f) (hne : f ≠ m)
    (hopen : (s.ksFt f).getLocked = false) (hpos : 0 < s.userspcSize)
    (hdice : 2 ≤ s.dice.length) (hfault : pageFault (depth + 1) s h addr = .error halt) :
    halt.isDiskFull = true := by
  obtain ⟨hwork, hlock, hobjects⟩ := hinv.working hsound hm
  unfold pageFault at hfault
  simp only [hinv.masterTableLock_ok hm, ok_bind, hwork.inv.accessPtl1_eq hm, deref] at hfault
  have hused : ¬ ((s.ksLockPage m).ptl1 ⟨m, slotCell (slotOf addr)⟩).status =
      PageTableL1Entry.statusUnused := by
    have hagree := hwork.inv.agrees hm (slotOf addr)
    obtain ⟨k, hk⟩ | ⟨c, hc⟩ := hwork.table_somewhere hinseg
    · rw [hk] at hagree
      rw [hagree.1]
      decide
    · rw [hc] at hagree
      rw [hagree.1]
      decide
  rw [if_neg hused] at hfault
  have hrolls : (s.ksLockPage m).dice ≠ [] := by
    intro hnil
    have hlength : s.dice.length = 0 := congrArg List.length hnil
    omega
  obtain hptl2 | ⟨⟨ptl2e, s₁⟩, hptl2, hrest⟩ := bind_error hfault
  · exact hwork.faultPtl2_full hinseg (unlockedFrame_lock hf hne hopen) hrolls hptl2
  · obtain ⟨g₁, k, hwork₁, hpaged, hobjects₁, hk, rfl, _⟩ := hwork.faultPtl2_ok hptl2
    have hleft := hwork.faultPtl2_dice hptl2
    obtain hentry | ⟨_, _, hret⟩ := bind_error hrest
    · have hshared₁ := ((hlock.trans hpaged).pages (pageOf h addr) id).sameRights.shared.trans
        hshared
      unfold faultEntry at hentry
      rw [hwork₁.inv.mem_pageOf hk, if_neg (by simp [hshared₁])] at hentry
      obtain hpage | ⟨_, _, hret⟩ := bind_error hentry
      · rw [faultPage_full hwork₁.inv.user (by rwa [hobjects₁.userspcSize, hobjects.userspcSize])
          ?_ hpage]
        · rfl
        · intro hnil
          rw [hnil] at hleft
          have hlength : (s.ksLockPage m).dice.length = s.dice.length := rfl
          simp only [List.length_nil] at hleft
          omega
      · cases hret
    · cases hret

end KernelInv

end VirtualMemory
